import SelfExtract.Decimal.Binary64

/-!
# The fewest digits that read back

A finite number is written with the fewest significant digits for which no
other binary64 number is nearer; of two such numerals the nearer one is taken.
Numbers are written without an exponent from `1e-5` up to sixteen integer
digits.
-/
namespace SelfExtract.Shortest

structure Interval where
  low : Nat
  value : Nat
  high : Nat
  den : Nat
  /-- Both ends round to the number as well. -/
  closed : Bool
  deriving DecidableEq, Repr

def Interval.of (x : Binary64) : Interval :=
  let up := 2 ^ x.exponent.toNat
  { low := (4 * x.mantissa - (if x.atBinade then 1 else 2)) * up
    value := 4 * x.mantissa * up
    high := (4 * x.mantissa + 2) * up
    den := 4 * 2 ^ (-x.exponent).toNat
    closed := x.mantissa % 2 = 0 }

/-- Whether `digits * 10 ^ power` lies in the interval. -/
def Interval.holds (v : Interval) (digits : Nat) (power : Int) : Bool :=
  let n := digits * 10 ^ power.toNat * v.den
  let s := 10 ^ (-power).toNat
  if v.closed then v.low * s ≤ n && n ≤ v.high * s else v.low * s < n && n < v.high * s

/-- The number of integer digits of the value: `10 ^ (p - 1) ≤ value < 10 ^ p`, searched downward
from `p`. -/
def Interval.magnitude (v : Interval) : Nat → Int → Int
  | 0, p => p
  | fuel + 1, p =>
    let q := p - 1
    if 10 ^ q.toNat * v.den ≤ v.value * 10 ^ (-q).toNat then p else v.magnitude fuel q

/-- The two neighbours of the value on the grid of multiples of `10 ^ power`, the nearer first. -/
def Interval.neighbours (v : Interval) (power : Int) : Nat × Nat :=
  let num := v.value * 10 ^ (-power).toNat
  let den := v.den * 10 ^ power.toNat
  let below := num / den
  if roundHalfEven num den = below then (below, below + 1) else (below + 1, below)

/-- The first grid, from `count` digits on, that has a point in the interval, with that point. -/
def Interval.search (v : Interval) (p : Int) : Nat → Nat → Nat × Int
  | 0, count => ((v.neighbours (p - count)).1, p - count)
  | fuel + 1, count =>
    let power := p - count
    let (near, far) := v.neighbours power
    if v.holds near power then (near, power)
    else if v.holds far power then (far, power)
    else v.search p fuel (count + 1)

def digits (x : Binary64) : Nat × Int :=
  let v := Interval.of x
  v.search (v.magnitude 640 310) 16 1

/-- Digits without trailing zeros, the power of ten growing with each one dropped. -/
def withoutTrailingZeros : Nat → Nat × Int → Nat × Int
  | 0, d => d
  | fuel + 1, (n, power) =>
    if n % 10 = 0 then withoutTrailingZeros fuel (n / 10, power + 1) else (n, power)

/-- The place of the point among digits: positional while it falls at most sixteen digits to the
right or five zeros to the left of the first digit, with a signed exponent otherwise. -/
def layout (ds : List Char) (power : Int) : List Char :=
  let point := ds.length + power
  if 0 ≤ power ∧ point ≤ 16 then ds ++ List.replicate power.toNat '0' ++ ['.', '0']
  else if 0 < point ∧ point ≤ 16 then ds.take point.toNat ++ ['.'] ++ ds.drop point.toNat
  else if -5 < point ∧ point ≤ 0 then
    ['0', '.'] ++ List.replicate (-point).toNat '0' ++ ds
  else
    let mantissa := match ds with
      | [] => []
      | [d] => [d]
      | d :: r => d :: '.' :: r
    let exponent := point - 1
    mantissa ++ ['e', if exponent < 0 then '-' else '+'] ++ (toString exponent.natAbs).toList

def text (bits : UInt64) : String :=
  let x := Binary64.ofBits bits
  let sign := if x.negative then ['-'] else []
  if x.mantissa = 0 then String.ofList (sign ++ ['0', '.', '0'])
  else
    let (n, power) := withoutTrailingZeros 17 (digits x)
    String.ofList (sign ++ layout (toString n).toList power)

end SelfExtract.Shortest
