import SelfExtract.Marker.Scan

/-!
# Searching the note segments of an ELF file

Only the program header table is consulted: little-endian files of either
class, entries of any stride that leaves room for one, up to the first entry
that is not wholly inside the file. Segments are clipped to the file. Whatever
does not fit this picture holds no marker.
-/
namespace SelfExtract.Marker

def noteType : Nat := 4

structure HeaderTable where
  offset : Nat
  stride : Nat
  count : Nat
  /-- Entries of the 64-bit class. -/
  wide : Bool
  deriving DecidableEq, Repr

def HeaderTable.entrySize (t : HeaderTable) : Nat :=
  if t.wide then 56 else 32

def field (b : Bytes) (start width : Nat) : Nat :=
  Bytes.natLE ((b.drop start).take width)

/-- The program header table of a complete little-endian ELF header with wide enough entries. -/
def headerTable? (data : Bytes) : Option HeaderTable :=
  let header := data.take 64
  let table? : Option HeaderTable :=
    if header.length < 52 || header.take 4 != [0x7F, 0x45, 0x4C, 0x46] || field header 5 1 != 1 then
      none
    else if field header 4 1 = 2 && 64 ≤ header.length then
      some ⟨field header 32 8, field header 54 2, field header 56 2, true⟩
    else if field header 4 1 = 1 then
      some ⟨field header 28 4, field header 42 2, field header 44 2, false⟩
    else none
  table?.filter fun t => t.entrySize ≤ t.stride

/-- The part of a note segment that lies in the file: start and length. A segment of another type,
an empty one and one beyond the end have none. -/
def noteRange? (t : HeaderTable) (entry data : Bytes) : Option (Nat × Nat) :=
  let start := if t.wide then field entry 8 8 else field entry 4 4
  let len := if t.wide then field entry 32 8 else field entry 16 4
  if field entry 0 4 != noteType || len == 0 then none
  else if data.length ≤ start then none
  else some (start, min len (data.length - start))

/-- The first occurrence in the note segments of `count` entries from entry `i` on. -/
def scanNotes (data needle : Bytes) (t : HeaderTable) : Nat → Nat → Option Nat
  | 0, _ => none
  | count + 1, i =>
    let start := t.offset + i * t.stride
    let entry := (data.drop start).take t.entrySize
    if entry.length < t.entrySize then none
    else
      match (noteRange? t entry data).bind fun r => scan data needle r.1 r.2 with
      | some found => some found
      | none => scanNotes data needle t count (i + 1)

def findInNotes (m : Marker) (p : Position) (data : Bytes) : Option Nat := do
  let t ← headerTable? data
  let found ← scanNotes data m.bytes t t.count 0
  return p.apply found m.bytes.length

end SelfExtract.Marker
