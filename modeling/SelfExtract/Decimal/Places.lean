import SelfExtract.Decimal.Binary64

/-!
# Sizes and ratios with one decimal place

Byte counts are shown in the largest binary unit that leaves a value of at
least one, ratios as a percentage. Both have one place, rounded on the exact
binary value, a half to the even neighbour.
-/
namespace SelfExtract

def oneDecimal (x : Float) : String :=
  let b := Binary64.ofBits x.toBits
  let (num, den) := b.quotient 10
  let tenths := roundHalfEven num den
  (if b.negative then "-" else "") ++ toString (tenths / 10) ++ "." ++ toString (tenths % 10)

/-- The value divided by 1024 until it is below that or the units are used up. -/
def scaleDown (x : Float) (unit : String) : List String → Float × String
  | [] => (x, unit)
  | larger :: units => if x >= 1024.0 then scaleDown (x / 1024.0) larger units else (x, unit)

/-- A byte count for people: `1023 B`, `1.5 KiB`, `3.0 GiB`. -/
def formatSize (n : UInt64) : String :=
  let (x, unit) := scaleDown n.toFloat "B" ["KiB", "MiB", "GiB"]
  if unit = "B" then toString n.toNat ++ " B" else oneDecimal x ++ " " ++ unit

/-- The first size as a percentage of the second, and zero when the second is zero. -/
def ratioPercent (compressed uncompressed : UInt64) : Float :=
  if uncompressed = 0 then 0.0 else compressed.toFloat * 100.0 / uncompressed.toFloat

end SelfExtract
