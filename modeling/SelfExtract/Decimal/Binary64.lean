/-!
# The exact value of a binary64 number

The bits of a finite number give an integer and a power of two whose product
is the number's magnitude. All decimal texts are computed from these two.
-/
namespace SelfExtract

/-- A magnitude `mantissa * 2 ^ exponent`, with what is needed to know its neighbours. -/
structure Binary64 where
  /-- The sign bit. -/
  negative : Bool
  /-- The integer part of the product, below `2 ^ 53`. -/
  mantissa : Nat
  /-- The power of two. -/
  exponent : Int
  /-- The number below is only half as far away as the number above. -/
  atBinade : Bool
  deriving DecidableEq, Repr

namespace Binary64

def ofBits (bits : UInt64) : Binary64 :=
  let n := bits.toNat
  let fraction : Nat := n % 2 ^ 52
  let field : Nat := n / 2 ^ 52 % 2 ^ 11
  { negative := 2 ^ 63 ≤ n
    mantissa := if field = 0 then fraction else 2 ^ 52 + fraction
    exponent := if field = 0 then -1074 else (field : Int) - 1075
    atBinade := fraction = 0 && 1 < field }

/-- The magnitude times `scale` as a quotient of natural numbers. -/
def quotient (x : Binary64) (scale : Nat) : Nat × Nat :=
  (x.mantissa * scale * 2 ^ x.exponent.toNat, 2 ^ (-x.exponent).toNat)

end Binary64

/-- The integer nearest to a quotient; of two equally near ones the even one. -/
def roundHalfEven (num den : Nat) : Nat :=
  let q := num / den
  let r := num % den
  if 2 * r < den then q
  else if den < 2 * r then q + 1
  else if q % 2 = 0 then q else q + 1

end SelfExtract
