import SelfExtract.Bytes
import SelfExtract.Json.Number

/-!
# Tokens of JSON texts

Texts of strings are kept as they are written: their escapes are checked for
form only, so that a string that is not used may hold anything.
-/
namespace SelfExtract.Json

inductive Token where
  | openObject
  | closeObject
  | openArray
  | closeArray
  | colon
  | comma
  | null
  | true
  | false
  | number (n : Numeral)
  /-- The bytes between the quotes. -/
  | text (raw : Bytes)
  deriving DecidableEq, Repr

namespace Token

def isBlankByte (b : UInt8) : Bool :=
  b == 0x20 || b == 0x0A || b == 0x09 || b == 0x0D

def isDigitByte (b : UInt8) : Bool :=
  0x30 ≤ b && b ≤ 0x39

def hexDigit? (b : UInt8) : Option Nat :=
  if isDigitByte b then some (b.toNat - 0x30)
  else if 0x41 ≤ b && b ≤ 0x46 then some (b.toNat - 0x37)
  else if 0x61 ≤ b && b ≤ 0x66 then some (b.toNat - 0x57)
  else none

/-- The characters that may follow a backslash, but for the one that four digits follow. -/
def isShortEscape (b : UInt8) : Bool :=
  [0x22, 0x5C, 0x2F, 0x62, 0x66, 0x6E, 0x72, 0x74].contains b

/-- The bytes up to the closing quote, behind those already read (last first), and what follows
it. -/
def textBody? (read : Bytes) : Bytes → Option (Bytes × Bytes)
  | [] => none
  | 0x22 :: r => some (read.reverse, r)
  | 0x5C :: 0x75 :: a :: b :: c :: d :: r =>
    if (hexDigit? a).isSome && (hexDigit? b).isSome && (hexDigit? c).isSome && (hexDigit? d).isSome
    then textBody? (d :: c :: b :: a :: 0x75 :: 0x5C :: read) r
    else none
  | 0x5C :: e :: r => if isShortEscape e then textBody? (e :: 0x5C :: read) r else none
  | b :: r => if b < 0x20 || b == 0x5C then none else textBody? (b :: read) r

/-- Leading digits and what follows them. -/
def digits (b : Bytes) : List Nat × Bytes :=
  ((b.takeWhile isDigitByte).map fun d => d.toNat - 0x30, b.dropWhile isDigitByte)

/-- The digits behind a point, if there is one. -/
def fraction? : Bytes → Option (List Nat × Bytes)
  | 0x2E :: r =>
    let (ds, r) := digits r
    if ds.isEmpty then none else some (ds, r)
  | b => some ([], b)

/-- The sign and digits of an exponent, if there is one. -/
def exponent? : Bytes → Option (Option (Bool × List Nat) × Bytes)
  | e :: r =>
    if e == 0x65 || e == 0x45 then
      let (down, r) : Bool × Bytes := match r with
        | 0x2B :: r => (Bool.false, r)
        | 0x2D :: r => (Bool.true, r)
        | r => (Bool.false, r)
      let (ds, r) := digits r
      if ds.isEmpty then none else some (some (down, ds), r)
    else some (none, e :: r)
  | [] => some (none, [])

/-- A numeral without its sign; a zero stands alone before the point. -/
def unsigned? (negative : Bool) (b : Bytes) : Option (Numeral × Bytes) := do
  let (whole, r) := digits b
  if whole.isEmpty || (whole.head? == some 0 && 1 < whole.length) then none
  let (fraction, r) ← fraction? r
  let (exponent, r) ← exponent? r
  return (⟨negative, whole, fraction, exponent⟩, r)

/-- The token at the start of a byte string that does not begin with a blank. -/
def next? : Bytes → Option (Token × Bytes)
  | [] => none
  | 0x7B :: r => some (.openObject, r)
  | 0x7D :: r => some (.closeObject, r)
  | 0x5B :: r => some (.openArray, r)
  | 0x5D :: r => some (.closeArray, r)
  | 0x3A :: r => some (.colon, r)
  | 0x2C :: r => some (.comma, r)
  | 0x6E :: 0x75 :: 0x6C :: 0x6C :: r => some (.null, r)
  | 0x74 :: 0x72 :: 0x75 :: 0x65 :: r => some (.true, r)
  | 0x66 :: 0x61 :: 0x6C :: 0x73 :: 0x65 :: r => some (.false, r)
  | 0x22 :: r => (textBody? [] r).map fun (raw, r) => (.text raw, r)
  | 0x2D :: r => (unsigned? Bool.true r).map fun (n, r) => (.number n, r)
  | b => (unsigned? Bool.false b).map fun (n, r) => (.number n, r)

/-- The tokens behind those already found (last first), at most `fuel` of them and blanks. -/
def scanAfter : Nat → List Token → Bytes → Option (List Token)
  | _, found, [] => some found.reverse
  | 0, _, _ :: _ => none
  | fuel + 1, found, b :: r =>
    if isBlankByte b then scanAfter fuel found r
    else
      match next? (b :: r) with
      | none => none
      | some (t, r) => scanAfter fuel (t :: found) r

def scan? (b : Bytes) : Option (List Token) :=
  scanAfter b.length [] b

end Token

end SelfExtract.Json
