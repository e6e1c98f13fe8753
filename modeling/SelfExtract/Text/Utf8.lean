import SelfExtract.Bytes

/-!
# Text as UTF-8 bytes

`encode` writes a text as UTF-8. `units` cuts any byte string into characters
and ill-formed pieces, each piece being the longest run that could still have
begun a character; `decode?` accepts a byte string without such pieces and
`decodeLossy` puts U+FFFD in the place of each.
-/
namespace SelfExtract.Utf8

def encodeChar (c : Char) : Bytes :=
  let n := c.toNat
  if n < 0x80 then [UInt8.ofNat n]
  else if n < 0x800 then [UInt8.ofNat (0xC0 + n / 64), UInt8.ofNat (0x80 + n % 64)]
  else if n < 0x10000 then
    [UInt8.ofNat (0xE0 + n / 4096), UInt8.ofNat (0x80 + n / 64 % 64), UInt8.ofNat (0x80 + n % 64)]
  else
    [UInt8.ofNat (0xF0 + n / 262144), UInt8.ofNat (0x80 + n / 4096 % 64),
      UInt8.ofNat (0x80 + n / 64 % 64), UInt8.ofNat (0x80 + n % 64)]

def encode (s : String) : Bytes :=
  s.toList.flatMap encodeChar

def width (c : Char) : Nat :=
  let n := c.toNat
  if n < 0x80 then 1 else if n < 0x800 then 2 else if n < 0x10000 then 3 else 4

def size (s : String) : Nat :=
  s.toList.foldl (fun n c => n + width c) 0

/-- The longest beginning of a text, in whole characters, that takes at most `limit` bytes. -/
def fitting : Nat → List Char → List Char
  | _, [] => []
  | limit, c :: r => if width c ≤ limit then c :: fitting (limit - width c) r else []

/-- The text cut at a character boundary to at most `limit` bytes. -/
def truncate (limit : Nat) (s : String) : String :=
  String.ofList (fitting limit s.toList)

/-- Bytes that may follow the first byte of a character. -/
def isContinuation (b : UInt8) : Bool :=
  0x80 ≤ b && b ≤ 0xBF

/-- The second bytes that keep a character of three or four bytes well formed: this rules out
overlong forms, surrogates and numbers above the last code point. -/
def isSecondAfter (first second : UInt8) : Bool :=
  if first = 0xE0 then 0xA0 ≤ second && second ≤ 0xBF
  else if first = 0xED then 0x80 ≤ second && second ≤ 0x9F
  else if first = 0xF0 then 0x90 ≤ second && second ≤ 0xBF
  else if first = 0xF4 then 0x80 ≤ second && second ≤ 0x8F
  else isContinuation second

def low (b : UInt8) : Nat :=
  b.toNat % 64

/-- The first unit of a byte string that begins with `a`: a character, or `none` for an ill-formed
piece, with the number of bytes it takes after `a`. -/
def firstUnit (a : UInt8) (rest : Bytes) : Option Char × Nat :=
  if a < 0x80 then (some (Char.ofNat a.toNat), 0)
  else if a < 0xC2 || 0xF4 < a then (none, 0)
  else match rest with
    | [] => (none, 0)
    | b :: r =>
      if a < 0xE0 then
        if isContinuation b then (some (Char.ofNat (a.toNat % 32 * 64 + low b)), 1) else (none, 0)
      else if !isSecondAfter a b then (none, 0)
      else match r with
        | [] => (none, 1)
        | c :: r =>
          if !isContinuation c then (none, 1)
          else if a < 0xF0 then
            (some (Char.ofNat (a.toNat % 16 * 4096 + low b * 64 + low c)), 2)
          else match r with
            | [] => (none, 2)
            | d :: _ =>
              if !isContinuation d then (none, 2)
              else
                (some (Char.ofNat (a.toNat % 8 * 262144 + low b * 4096 + low c * 64 + low d)), 3)

/-- The units of a byte string after those already found (last first). -/
def unitsAfter (found : List (Option Char)) : Bytes → List (Option Char)
  | [] => found.reverse
  | a :: rest =>
    let u := firstUnit a rest
    unitsAfter (u.1 :: found) (rest.drop u.2)
termination_by b => b.length
decreasing_by exact Nat.lt_succ_of_le (List.length_drop ▸ Nat.sub_le _ _)

/-- The characters of a byte string, with `none` for every ill-formed piece. -/
def units (b : Bytes) : List (Option Char) :=
  unitsAfter [] b

/-- What stands for an ill-formed piece. -/
def replacement : Char :=
  '\uFFFD'

/-- The text of a byte string, with U+FFFD for every ill-formed piece. -/
def decodeLossy (b : Bytes) : String :=
  String.ofList ((units b).map (·.getD replacement))

def decode? (b : Bytes) : Option String :=
  let us := units b
  if us.all Option.isSome then some (String.ofList (us.filterMap id)) else none

end SelfExtract.Utf8
