import SelfExtract.Text.Utf8

/-!
# Text as UTF-16 units

Only reading is needed: a surrogate without its partner becomes U+FFFD.
-/
namespace SelfExtract.Utf16

/-- The first unit of a surrogate pair. -/
def isHigh (u : Nat) : Bool :=
  0xD800 ≤ u && u < 0xDC00

/-- The second unit of a surrogate pair. -/
def isLow (u : Nat) : Bool :=
  0xDC00 ≤ u && u < 0xE000

/-- The characters of a sequence of 16-bit units. -/
def decodeUnits : List Nat → List Char
  | [] => []
  | [u] => [if isHigh u || isLow u then Utf8.replacement else Char.ofNat u]
  | u :: v :: r =>
    if isHigh u && isLow v then
      Char.ofNat (0x10000 + (u - 0xD800) * 0x400 + (v - 0xDC00)) :: decodeUnits r
    else
      (if isHigh u || isLow u then Utf8.replacement else Char.ofNat u) :: decodeUnits (v :: r)
termination_by us => us.length

/-- The text of a sequence of 16-bit units. -/
def decodeLossy (us : List Nat) : String :=
  String.ofList (decodeUnits us)

end SelfExtract.Utf16
