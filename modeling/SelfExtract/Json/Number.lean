/-!
# Numbers of JSON texts

A numeral is kept digit by digit. What it stands for is an integer of sixty-four
bits where it has neither fraction nor exponent and fits, and a binary64 number
otherwise: the leading digits that fit sixty-four bits are taken as a whole
number, rounded, and multiplied or divided once by a power of ten.
-/
namespace SelfExtract.Json

structure Numeral where
  negative : Bool
  /-- The digits before the point. -/
  whole : List Nat
  /-- The digits behind the point, none when there is no point. -/
  fraction : List Nat
  /-- The exponent: whether it is negative, and its digits. -/
  exponent : Option (Bool × List Nat)
  deriving DecidableEq, Repr

inductive Number where
  | natural (n : UInt64)
  /-- An integer below zero. -/
  | negative (n : Int64)
  /-- The bits of a finite binary64 number. -/
  | binary (bits : UInt64)
  deriving DecidableEq, Repr

namespace Numeral

/-- The leading digits that keep a number below `2 ^ 64`, behind those already taken, and the other
digits. -/
def leading (n : Nat) : List Nat → Nat × List Nat
  | [] => (n, [])
  | d :: r => if n * 10 + d < 2 ^ 64 then leading (n * 10 + d) r else (n, d :: r)

/-- The powers of ten that a binary64 number can hold. -/
def power (n : Nat) : Float :=
  Float.ofScientific 1 false n

/-- A number times a power of ten, or nothing when it is too large. A power that is too small is
applied in steps. -/
def scale : Nat → Float → Int → Option Float
  | 0, x, _ => some x
  | fuel + 1, x, e =>
    if e.natAbs ≤ 308 then
      if 0 ≤ e then
        let y := x * power e.natAbs
        if y.isInf then none else some y
      else some (x / power e.natAbs)
    else if x == 0.0 then some x
    else if 0 ≤ e then none
    else scale fuel (x / power 308) (e + 308)

/-- The largest exponent that is looked at digit by digit. -/
def maxExponent : Nat := 2 ^ 31 - 1

def binary? (negative : Bool) (n : Nat) (e : Int) : Option Number :=
  (scale 8 (UInt64.ofNat n).toFloat e).map fun x => .binary (if negative then -x else x).toBits

/-- The value of a numeral, unless it is too large. Minus zero is not an integer. -/
def value? (x : Numeral) : Option Number :=
  let (n, rest) := leading 0 x.whole
  let (n, unused) := leading n x.fraction
  let shift : Int := rest.length - (x.fraction.length - unused.length : Nat)
  match x.exponent with
  | some (down, digits) =>
    let e := digits.foldl (fun e d => e * 10 + d) 0
    if maxExponent < e then
      if n = 0 ∨ down then some (.binary (if x.negative then -0.0 else 0.0 : Float).toBits)
      else none
    else binary? x.negative n (if down then shift - e else shift + e)
  | none =>
    if !rest.isEmpty || !x.fraction.isEmpty then binary? x.negative n shift
    else if !x.negative then some (.natural (UInt64.ofNat n))
    else if 0 < n && n ≤ 2 ^ 63 then some (.negative (Int64.ofInt (-n)))
    else binary? true n 0

end Numeral

end SelfExtract.Json
