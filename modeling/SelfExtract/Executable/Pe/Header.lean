import SelfExtract.Text.Utf8

/-!
# Optional header and section table of PE files

The optional header ends with a table of data directories. Section names that
do not fit into eight bytes are looked up in the string table.
-/
namespace SelfExtract.Pe

structure Section where
  name : Option String
  virtualSize : Nat
  virtualAddress : Nat
  rawSize : Nat
  rawOffset : Nat
  deriving DecidableEq, Repr

structure Directory where
  address : Nat
  size : Nat
  deriving DecidableEq, Repr

structure OptionalHeader where
  /-- Addresses have eight bytes. -/
  wide : Bool
  /-- The multiple at which sections begin in the file. -/
  fileAlignment : Nat
  directories : List Directory
  deriving DecidableEq, Repr

def number? (b : Bytes) (start width : Nat) : Option Nat :=
  (b.window? start width).map Bytes.natLE

/-- Text up to the first NUL byte. -/
def text? (b : Bytes) : Option String :=
  Utf8.decode? (b.takeWhile (· != 0))

/-- The text at a position of the file, empty at its end. -/
def textAt? (b : Bytes) (start : Nat) : Option String :=
  if start ≤ b.length then text? (b.drop start) else none

/-- The value of a decimal numeral with at least one digit. -/
def decimal? (cs : List Char) : Option Nat :=
  if cs.isEmpty || !cs.all Char.isDigit then none
  else some (cs.foldl (fun n c => n * 10 + (c.toNat - 48)) 0)

/-- The value of a base-64 digit. -/
def digit64? (c : Char) : Option Nat :=
  if c.isUpper then some (c.toNat - 65)
  else if c.isLower then some (c.toNat - 71)
  else if c.isDigit then some (c.toNat + 4)
  else if c = '+' then some 62
  else if c = '/' then some 63
  else none

/-- The value of a base-64 numeral, the first digit weighing most. -/
def base64? (cs : List Char) : Option Nat :=
  cs.foldl (fun n c => do return (← n) * 64 + (← digit64? c)) (some 0)

/-- How the name of a section is stored: `/` and a decimal number or `//` and a base-64 number
lead into the string table. -/
inductive StoredName where
  | inline
  | at (offset : Nat)
  deriving DecidableEq, Repr

/-- Reads how a name of eight bytes is stored; a malformed reference is refused. -/
def StoredName.of? (raw : Bytes) : Option StoredName :=
  match raw with
  | 0x2F :: 0x2F :: r => do
    return .at (← base64? (← text? r).toList)
  | 0x2F :: r => do
    let cs := (← text? r).toList
    return .at (← decimal? (if cs.head? = some '+' then cs.drop 1 else cs))
  | _ => some .inline

def section? (b header : Bytes) (strings : Nat) : Option Section := do
  let raw := header.take 8
  let name ← match ← StoredName.of? raw with
    | .inline => some (text? raw)
    | .at offset => (textAt? b (strings + offset)).map some
  let field (start : Nat) : Nat := Bytes.natLE ((header.drop start).take 4)
  return ⟨name, field 8, field 12, field 16, field 20⟩

/-- `count` section headers from `start` on. -/
def sections? (b : Bytes) (strings : Nat) : Nat → Nat → Option (List Section)
  | 0, _ => some []
  | count + 1, start => do
    let s ← section? b (← b.window? start 40) strings
    let r ← sections? b strings count (start + 40)
    return s :: r

def Directory.table : Bytes → List Directory
  | a₀ :: a₁ :: a₂ :: a₃ :: s₀ :: s₁ :: s₂ :: s₃ :: r =>
    ⟨Bytes.natLE [a₀, a₁, a₂, a₃], Bytes.natLE [s₀, s₁, s₂, s₃]⟩ :: table r
  | _ => []

/-- The optional header at `start`, with at most sixteen directories. -/
def OptionalHeader.read? (b : Bytes) (start : Nat) : Option OptionalHeader := do
  let wide ← match ← number? b start 2 with
    | 0x10B => some false
    | 0x20B => some true
    | _ => none
  let fixed := if wide then 112 else 96
  let count ← number? b (start + fixed - 4) 4
  if 16 < count then none
  let alignment ← number? b (start + 36) 4
  let table ← b.window? (start + fixed) (8 * count)
  return ⟨wide, alignment, Directory.table table⟩

/-- The directory of a number, absent when it is not listed or all zero. -/
def OptionalHeader.directory? (h : OptionalHeader) (n : Nat) : Option Directory :=
  h.directories[n]?.filter (· ≠ ⟨0, 0⟩)

end SelfExtract.Pe
