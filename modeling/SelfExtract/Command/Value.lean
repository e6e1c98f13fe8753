import SelfExtract.Metadata

/-!
# Values on the command line

Names of systems, processors and C libraries, compression levels and cache
keys, each with the text of its refusal.
-/
namespace SelfExtract

inductive ValueFault where
  | os (text : String)
  | arch (text : String)
  | libc (text : String)
  | level (text : String)
  | levelRange (n : Int)
  | key (text : String)
  deriving DecidableEq, Repr

def ValueFault.message : ValueFault → String
  | .os text => "invalid platform: " ++ text
  | .arch text => "invalid arch: " ++ text
  | .libc text => "invalid libc: " ++ text
  | .level text => "invalid compression level: " ++ text
  | .levelRange n => "compression level must be 1-22, got " ++ toString n
  | .key text => "invalid cache key '" ++ text ++ "': expected 16 hex digits"

namespace Value

def known (x : Option α) (fault : ValueFault) : Except ValueFault α :=
  x.elim (.error fault) .ok

def os (text : String) : Except ValueFault Os :=
  known (Os.ofName? text) (.os text)

def arch (text : String) : Except ValueFault Arch :=
  known (Arch.ofName? text) (.arch text)

def libc (text : String) : Except ValueFault Libc :=
  known (Libc.ofName? text) (.libc text)

/-- The number that ASCII digits write; there has to be one. -/
def natural? (digits : List Char) : Option Nat :=
  if digits.isEmpty || !digits.all Char.isDigit then none
  else some (digits.foldl (fun n c => n * 10 + (c.toNat - 48)) 0)

/-- An integer of thirty-two bits, with or without a sign. -/
def int32? (text : String) : Option Int :=
  let n? : Option Int := match text.toList with
    | '-' :: r => (natural? r).map fun n => -(n : Int)
    | '+' :: r => (natural? r).map fun n => (n : Int)
    | r => (natural? r).map fun n => (n : Int)
  n?.filter fun n => -2 ^ 31 ≤ n && n < 2 ^ 31

def levels : Int × Int := (1, 22)

def level (text : String) : Except ValueFault Int := do
  let n ← known (int32? text) (.level text)
  if n < levels.1 || levels.2 < n then throw (.levelRange n)
  return n

def key (text : String) : Except ValueFault String :=
  if isCacheKey (Utf8.encode text) then .ok text else .error (.key text)

end Value

end SelfExtract
