import SelfExtract.Bytes

/-!
# Program headers and section headers of ELF files

Both classes and byte orders are read; the entries of a table have the size
that their class gives them.
-/
namespace SelfExtract.Elf

structure Format where
  wide : Bool
  order : ByteOrder
  deriving DecidableEq, Repr

structure Segment where
  type : Nat
  offset : Nat
  address : Nat
  fileSize : Nat
  memorySize : Nat
  deriving DecidableEq, Repr

structure Section where
  name : Nat
  type : Nat
  address : Nat
  offset : Nat
  size : Nat
  link : Nat
  entrySize : Nat
  deriving DecidableEq, Repr

/-- Reads a number, `narrow` or `broad` bytes wide by class. -/
def Format.word (f : Format) (b : Bytes) (start narrow broad : Nat) : Nat :=
  f.order.nat ((b.drop start).take (if f.wide then broad else narrow))

def Format.segmentSize (f : Format) : Nat :=
  if f.wide then 56 else 32

def Format.sectionSize (f : Format) : Nat :=
  if f.wide then 64 else 40

/-- The class and byte order in the first sixteen bytes. -/
def format? (b : Bytes) : Option Format :=
  if b.length < 16 || b.take 4 != [0x7F, 0x45, 0x4C, 0x46] then none
  else
    let wide? : Option Bool := match b.getD 4 0 with
      | 1 => some false
      | 2 => some true
      | _ => none
    let order? : Option ByteOrder := match b.getD 5 0 with
      | 1 => some .little
      | 2 => some .big
      | _ => none
    match wide?, order? with
    | some wide, some order => some ⟨wide, order⟩
    | _, _ => none

def Segment.ofBytes (f : Format) (b : Bytes) : Segment where
  type := f.word b 0 4 4
  offset := if f.wide then f.word b 8 8 8 else f.word b 4 4 4
  address := if f.wide then f.word b 16 8 8 else f.word b 8 4 4
  fileSize := if f.wide then f.word b 32 8 8 else f.word b 16 4 4
  memorySize := if f.wide then f.word b 40 8 8 else f.word b 20 4 4

def Section.ofBytes (f : Format) (b : Bytes) : Section where
  name := f.word b 0 4 4
  type := f.word b 4 4 4
  address := if f.wide then f.word b 16 8 8 else f.word b 12 4 4
  offset := if f.wide then f.word b 24 8 8 else f.word b 16 4 4
  size := if f.wide then f.word b 32 8 8 else f.word b 20 4 4
  link := if f.wide then f.word b 40 4 4 else f.word b 24 4 4
  entrySize := if f.wide then f.word b 56 8 8 else f.word b 36 4 4

/-- `count` table entries of `size` bytes one after the other. -/
def entries? (b : Bytes) (size : Nat) : Nat → Nat → Option (List Bytes)
  | 0, _ => some []
  | count + 1, start => do
    let e ← b.window? start size
    let r ← entries? b size count (start + size)
    return e :: r

def segments? (f : Format) (b : Bytes) (start count : Nat) : Option (List Segment) :=
  if b.length / f.segmentSize < count then none
  else (entries? b f.segmentSize count start).map (·.map (Segment.ofBytes f))

/-- The section headers. A count of zero means that the first header holds the count. -/
def sections? (f : Format) (b : Bytes) (start count : Nat) : Option (List Section) :=
  if start = 0 then some []
  else do
    let first := Section.ofBytes f (← b.window? start f.sectionSize)
    let count := if count = 0 then first.size else count
    if b.length / f.sectionSize < count then none
    let rest ← entries? b f.sectionSize (count - 1) (start + f.sectionSize)
    return first :: rest.map (Section.ofBytes f)

/-- Bytes that begin inside the file or at its end and do not end beyond it. -/
def stored? (b : Bytes) (start len : Nat) : Option Bytes :=
  if start ≤ b.length then b.window? start len else none

/-- A section's bytes and addresses do not leave their spaces. -/
def Section.isInside (s : Section) (b : Bytes) : Bool :=
  s.type = 8 || s.size = 0 ||
    (s.offset + s.size ≤ b.length && s.address + s.size < 2 ^ 64)

/-- The bytes of a segment, when they are inside the file. -/
def Segment.bytes? (s : Segment) (b : Bytes) : Option Bytes :=
  b.slice? s.offset (s.offset + s.fileSize)

end SelfExtract.Elf
