import SelfExtract.Executable.Elf.TextTable

/-!
# What the dynamic segment of an ELF file leads to

The dynamic segment is a list of tags with values; the last value of a tag
holds. Addresses among the values are places in memory, which the loaded
segments map into the file. Through them a file names its table of texts, its
relocations and its symbols, and all of these have to lie inside the file. The
number of symbols is not written down: it follows from a hash table over the
symbols and from the highest symbol that a relocation names.
-/
namespace SelfExtract.Elf

structure Dynamic where
  format : Format
  machine : Nat
  segments : List Segment
  entries : List (Nat × Nat)
  deriving DecidableEq, Repr

namespace Dynamic

/-- Tags whose values are used. -/
inductive Tag where
  | jumpRelocationSize
  | hash
  | texts
  | symbols
  | addendRelocations
  | addendRelocationSize
  | textSize
  | relocations
  | relocationSize
  | jumpRelocationKind
  | jumpRelocations
  | gnuHash
  deriving DecidableEq, Repr

def Tag.code : Tag → Nat
  | .jumpRelocationSize => 0x2
  | .hash => 0x4
  | .texts => 0x5
  | .symbols => 0x6
  | .addendRelocations => 0x7
  | .addendRelocationSize => 0x8
  | .textSize => 0xA
  | .relocations => 0x11
  | .relocationSize => 0x12
  | .jumpRelocationKind => 0x14
  | .jumpRelocations => 0x17
  | .gnuHash => 0x6FFFFEF5

/-- The entries in the bytes of a dynamic segment, up to the one with tag zero. -/
def entriesIn (f : Format) (b : Bytes) : List (Nat × Nat) :=
  let width := if f.wide then 8 else 4
  match _h : b.window? 0 (2 * width) with
  | none => []
  | some e =>
    let tag := f.order.nat (e.take width)
    if tag = 0 then []
    else (tag, f.order.nat (e.drop width)) :: entriesIn f (b.drop (2 * width))
termination_by b.length
decreasing_by
  have := Bytes.le_length_of_window? _h
  have : 4 ≤ width := by
    simp only [width]
    split <;> omega
  simp only [List.length_drop]
  omega

/-- The first dynamic segment of a file; an outer `none` when it is not inside the file. -/
def read? (f : Format) (machine : Nat) (segments : List Segment) (b : Bytes) :
    Option (Option Dynamic) :=
  match segments.find? (·.type = 2) with
  | none => some none
  | some s =>
    if s.fileSize = 0 then some (some ⟨f, machine, segments, []⟩)
    else (stored? b s.offset s.fileSize).map fun content =>
      some ⟨f, machine, segments, entriesIn f content⟩

def value? (d : Dynamic) (t : Tag) : Option Nat :=
  d.entries.reverse.lookup t.code

/-- The number that a tag gives, zero without the tag. -/
def number (d : Dynamic) (t : Tag) : Nat :=
  (d.value? t).getD 0

/-- The place in the file of an address, by the first loaded segment that holds it. -/
def fileOffset? (segments : List Segment) (address : Nat) : Option Nat :=
  match segments.find? fun s =>
      s.type = 1 && s.address ≤ address && address - s.address < s.memorySize with
  | none => none
  | some s =>
    let offset := s.offset + (address - s.address)
    if offset < 2 ^ 64 then some offset else none

/-- The place in the file to which a tag leads. -/
def place? (d : Dynamic) (t : Tag) : Option Nat :=
  (d.value? t).bind (fileOffset? d.segments)

/-- The place in the file to which a tag leads, the start of the file if it leads nowhere. -/
def place (d : Dynamic) (t : Tag) : Nat :=
  (d.place? t).getD 0

/-- The bytes of a relocation, which has an addend or not. -/
def relocationSize (f : Format) (addend : Bool) : Nat :=
  match f.wide, addend with
  | true, true => 24
  | true, false => 16
  | false, true => 12
  | false, false => 8

def relocationSymbol (f : Format) (e : Bytes) : Nat :=
  if f.wide then f.word e 8 8 8 >>> 32 else f.word e 4 4 4 >>> 8

/-- The highest symbol that `count` relocations at the start of a table are about. -/
def highestSymbol (f : Format) (size : Nat) : Nat → Bytes → Nat
  | 0, _ => 0
  | count + 1, table =>
    max (relocationSymbol f (table.take size)) (highestSymbol f size count (table.drop size))

/-- The highest symbol that the relocations of a table are about, when the table lies inside the
file. -/
def tableSymbol? (d : Dynamic) (b : Bytes) (start size : Nat) (addend : Bool) : Option Nat :=
  if size = 0 then some 0
  else
    let entry := relocationSize d.format addend
    (stored? b start size).map fun table => highestSymbol d.format entry (size / entry) table

/-- The highest symbol that any relocation is about, when all tables lie inside the file. The table
for jumps says itself which kind of relocations it has. -/
def relocatedSymbol? (d : Dynamic) (b : Bytes) : Option Nat := do
  let a ← d.tableSymbol? b (d.place .addendRelocations) (d.number .addendRelocationSize) true
  let r ← d.tableSymbol? b (d.place .relocations) (d.number .relocationSize) false
  let j ← d.tableSymbol? b (d.place .jumpRelocations) (d.number .jumpRelocationSize)
    (d.number .jumpRelocationKind = Tag.addendRelocations.code)
  return max a (max r j)

/-- The largest of `count` numbers of four bytes at the start of a byte string. -/
def largest? (o : ByteOrder) : Nat → Bytes → Option Nat
  | 0, _ => some 0
  | count + 1, b => do
    let n ← o.nat? b 0 4
    let m ← largest? o count (b.drop 4)
    return max n m

/-- How many numbers of four bytes there are up to the first odd one. -/
def chainLength? (o : ByteOrder) : Bytes → Option Nat
  | a :: b :: c :: d :: r =>
    if o.nat [a, b, c, d] % 2 = 1 then some 1 else (chainLength? o r).map (· + 1)
  | _ => none

/-- The number of symbols by a hash table with a filter: the chain that begins last ends with the
last symbol. A table without buckets, filter or first symbol is refused. -/
def filteredHashCount? (d : Dynamic) (b : Bytes) (start : Nat) : Option Nat := do
  let o := d.format.order
  let table := b.drop start
  let buckets ← o.nat? table 0 4
  let first ← o.nat? table 4 4
  let filter ← o.nat? table 8 4
  if buckets = 0 || first = 0 || filter = 0 then none
  let table := table.drop (16 + filter * if d.format.wide then 8 else 4)
  let last ← largest? o buckets table
  if last < first then return 0
  return last + (← chainLength? o (table.drop (4 * buckets + 4 * (last - first))))

/-- Processors whose wide class has hash tables of wide numbers. -/
def hasWideHash (machine : Nat) : Bool :=
  machine = 22 || machine = 41

/-- The number of symbols by a plain hash table, which has one link for each. -/
def plainHashCount? (d : Dynamic) (b : Bytes) (start : Nat) : Option Nat :=
  d.format.order.nat? b (start + 4) (if d.format.wide && hasWideHash d.machine then 8 else 4)

def hashCount? (d : Dynamic) (b : Bytes) : Option Nat :=
  match d.place? .gnuHash, d.place? .hash with
  | some start, _ => d.filteredHashCount? b start
  | none, some start => d.plainHashCount? b start
  | none, none => some 0

def symbolSize (f : Format) : Nat :=
  if f.wide then 24 else 16

/-- All that the dynamic segment leads to lies inside the file. -/
def isInside (d : Dynamic) (b : Bytes) : Bool :=
  let inside? : Option Bytes := do
    let _ ← textTableAt? b (d.place .texts) (d.number .textSize)
    let relocated ← d.relocatedSymbol? b
    let hashed ← d.hashCount? b
    let count := if relocated = 0 then hashed else max hashed (relocated + 1)
    stored? b (d.place .symbols) (count * symbolSize d.format)
  inside?.isSome

end Dynamic

end SelfExtract.Elf
