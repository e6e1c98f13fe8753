/-!
# Versions of releases

A version is two to four numbers between dots, or a date: up to three numbers
between hyphens. A `v` in front and a suffix behind the numbers do not count.
-/
namespace SelfExtract.Version

def own : String := "0.1.0"

/-- The number at the start of a segment and whether it is all of the segment. A segment that does
not begin with a digit has none, nor has one whose number does not fit sixty-four bits. -/
def number? (segment : List Char) : Option (Nat × Bool) :=
  let digits := segment.takeWhile Char.isDigit
  let n := digits.foldl (fun n c => n * 10 + (c.toNat - 48)) 0
  if digits.isEmpty || 2 ^ 64 ≤ n then none else some (n, digits.length = segment.length)

/-- The numbers of segments up to the first that is not a number as a whole. -/
def numbers : List (List Char) → List Nat
  | [] => []
  | s :: r =>
    match number? s with
    | none => []
    | some (n, true) => n :: numbers r
    | some (n, false) => [n]

/-- At most four leading numbers between separators. -/
def leadingNumbers (separator : Char) (cs : List Char) : List Nat :=
  numbers ((cs.splitOn separator).take 4)

/-- A version without the `v` in front. -/
def withoutMark : List Char → List Char
  | c :: r => if c = 'v' ∨ c = 'V' then r else c :: r
  | [] => []

/-- Four numbers, zeros standing for missing ones. -/
def padded (ns : List Nat) : List Nat :=
  ns ++ List.replicate (4 - ns.length) 0

def parts (v : String) : List Nat :=
  let cs := withoutMark v.toList
  let dotted := leadingNumbers '.' cs
  if 2 ≤ dotted.length then padded dotted else padded ((leadingNumbers '-' cs).take 3)

/-- The order of the first numbers that differ; a list is greater than its beginnings. -/
def compareNumbers : List Nat → List Nat → Ordering
  | [], [] => .eq
  | [], _ :: _ => .lt
  | _ :: _, [] => .gt
  | a :: r, b :: s => if a < b then .lt else if b < a then .gt else compareNumbers r s

def compare (a b : String) : Ordering :=
  compareNumbers (parts a) (parts b)

end SelfExtract.Version
