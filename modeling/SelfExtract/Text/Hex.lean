import SelfExtract.Bytes

/-!
# Hexadecimal text

Lower-case digits, two for each byte.
-/
namespace SelfExtract.Hex

def digit (n : Nat) : Char :=
  if n < 10 then Char.ofNat (48 + n) else Char.ofNat (87 + n)

def encode (b : Bytes) : String :=
  String.ofList (b.flatMap fun x => [digit (x.toNat / 16), digit (x.toNat % 16)])

/-- ASCII hexadecimal digits, either case. -/
def isDigitByte (b : UInt8) : Bool :=
  (48 ≤ b && b ≤ 57) || (65 ≤ b && b ≤ 70) || (97 ≤ b && b ≤ 102)

/-- The digits of a number without leading zeros, for `fuel` digits at most. -/
def digitsAfter : Nat → Nat → List Char → List Char
  | 0, _, r => r
  | fuel + 1, n, r =>
    if n < 16 then digit n :: r else digitsAfter fuel (n / 16) (digit (n % 16) :: r)

/-- The digits of a number below `2 ^ 64` without leading zeros. -/
def ofNat (n : Nat) : String :=
  String.ofList (digitsAfter 16 n [])

end SelfExtract.Hex
