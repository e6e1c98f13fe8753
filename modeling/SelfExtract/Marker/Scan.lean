import SelfExtract.Marker

/-!
# Searching a file piece by piece

A file is searched in pieces of bounded size. Successive pieces share one byte
less than the needle has, so an occurrence across their border lies wholly in
one of them.
-/
namespace SelfExtract.Marker

def pieceSize : Nat := 64 * 1024

/-- Room for a piece: twice the needle when the usual size is less. -/
def roomFor (needle : Bytes) : Nat :=
  max pieceSize (needle.length * 2)

/-- The piece that begins at `start` in a range that ends at `stop`. -/
def pieceAt (data needle : Bytes) (start stop : Nat) : Bytes :=
  (data.drop start).take (min (stop - start) (roomFor needle))

/-- The first occurrence of a non-empty needle between `start` and `stop`, read piece by piece. -/
def scanFrom (data needle : Bytes) (h : 0 < needle.length) (start stop : Nat) : Option Nat :=
  if start < stop then
    let piece := pieceAt data needle start stop
    if piece.length < needle.length then none
    else match piece.firstIndex? needle with
      | some i => some (start + i)
      | none =>
        if piece.length < min (stop - start) (roomFor needle) then none
        else
          let next := start + (piece.length - (needle.length - 1))
          if stop ≤ next + (needle.length - 1) then none
          else scanFrom data needle h next stop
  else none
termination_by stop - start
decreasing_by
  have : needle.length ≤ (pieceAt data needle start stop).length := Nat.le_of_not_lt (by assumption)
  omega

/-- The first occurrence of a needle in the `len` bytes from `start` on. -/
def scan (data needle : Bytes) (start len : Nat) : Option Nat :=
  if h : 0 < needle.length then
    if len < needle.length then none else scanFrom data needle h start (start + len)
  else none

def findLinear (m : Marker) (p : Position) (data : Bytes) : Option Nat :=
  (scan data m.bytes 0 data.length).map (p.apply · m.bytes.length)

end SelfExtract.Marker
