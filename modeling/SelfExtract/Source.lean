import SelfExtract.Bytes

/-!
# Sources of bytes

A source is asked again and again for bytes and decides how many it gives. The
bytes up to an expected end, and one byte more to see whether they end there,
are collected by asking for what is lacking: in small portions at first, which
double as long as they are filled, and for the one byte more only together with
the last few.
-/
namespace SelfExtract

structure Source where
  State : Type
  start : State
  /-- At most the requested number of bytes and the state after them, where no bytes at all stand
  for the end, or the text of a failure. -/
  next : Nat → State → Except String (Bytes × State)

namespace Source

/-- The first limit on a request. -/
def firstPortion : Nat := 8192

/-- With less than this number of bytes lacking, the byte behind the expected end is asked for
too. -/
def lastFew : Nat := 32

/-- How many bytes are asked for when `got` of `expected` bytes are there. -/
def request (expected got portion : Nat) : Nat :=
  if expected < got + lastFew then expected + 1 - got else min (expected - got) portion

/-- The limit for the next request, after one for `asked` bytes that gave `given`. -/
def nextPortion (portion asked given : Nat) : Nat :=
  if portion ≤ asked ∧ given = asked then 2 * portion else portion

/-- The bytes of a source after `got` bytes, up to one more than expected. -/
def collectFrom (s : Source) (expected got portion : Nat) (state : s.State) : Except String Bytes :=
  if expected < got then .ok []
  else
    match s.next (request expected got portion) state with
    | .error reason => .error reason
    | .ok ([], _) => .ok []
    | .ok (b :: r, state) =>
      let portion := nextPortion portion (request expected got portion) (r.length + 1)
      (collectFrom s expected (got + (r.length + 1)) portion state).map (b :: r ++ ·)
termination_by expected + 1 - got

def collect (s : Source) (expected : Nat) : Except String Bytes :=
  s.collectFrom expected 0 firstPortion s.start

end Source

end SelfExtract
