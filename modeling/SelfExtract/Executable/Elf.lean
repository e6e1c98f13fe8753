import SelfExtract.Executable.Elf.Dynamic

/-!
# ELF files

Reads the file header, the program headers and, when there are any, the
section headers with their names. A file is refused when a table, or something
that a table must lead to, is not wholly inside the file.
-/
namespace SelfExtract

structure Elf where
  format : Elf.Format
  machine : Nat
  segmentTable : Nat
  segmentEntrySize : Nat
  segments : List Elf.Segment
  sections : List Elf.Section
  /-- The bytes of the table of section names. -/
  sectionNames : Bytes
  /-- The program that loads this one. -/
  interpreter : Option String
  deriving DecidableEq, Repr

namespace Elf

/-- The interpreter that one program header names; `none` when the header names none. -/
def Segment.interpreter? (s : Segment) (b : Bytes) : Option (Option String) :=
  if s.type = 3 ∧ s.fileSize ≠ 0 then
    some ((stored? b s.offset (s.fileSize - 1)).bind Utf8.decode?)
  else none

/-- The interpreter that the last of the headers names. -/
def interpreter? (b : Bytes) (segments : List Segment) : Option String :=
  (segments.reverse.findSome? (·.interpreter? b)).join

/-- The last symbol table among the sections and the table of its names lie inside the file. -/
def symbolsAreInside (f : Format) (b : Bytes) (sections : List Section) : Bool :=
  match sections.reverse.find? (·.type = 2) with
  | none => true
  | some s =>
    let count := if s.entrySize = 0 then 0 else s.size / s.entrySize
    (stored? b s.offset (count * Dynamic.symbolSize f)).isSome &&
      (textTable? b sections s.link).isSome

/-- What a section table leads to lies inside the file: symbols, relocations, and the first version
table of each of the three types. -/
def tablesAreInside (f : Format) (b : Bytes) (sections : List Section) : Bool :=
  let relocations := sections.all fun s =>
    (s.type != 4 && s.type != 9) ||
      (s.isInside b && (s.size = 0 || (stored? b s.offset s.size).isSome))
  let versions := [0x6FFFFFFF, 0x6FFFFFFD, 0x6FFFFFFE].all fun type =>
    match sections.find? (·.type = type) with
    | none => true
    | some s => s.size = 0 || (stored? b s.offset s.size).isSome
  symbolsAreInside f b sections && relocations && versions

def read? (b : Bytes) : Option Elf := do
  let f ← format? b
  let header ← b.window? 0 (if f.wide then 64 else 52)
  let field (narrow broad : Nat) : Nat := f.word header (if f.wide then broad else narrow) 2 2
  let segmentTable := f.word header (if f.wide then 32 else 28) 4 8
  let sectionTable := f.word header (if f.wide then 40 else 32) 4 8
  let machine := field 18 18
  let segments ← segments? f b segmentTable (field 44 56)
  let sections ← sections? f b sectionTable (field 48 60)
  let sectionNames ← textTable? b sections (field 50 62)
  let dynamic ← Dynamic.read? f machine segments b
  if !tablesAreInside f b sections || dynamic.any (!·.isInside b) then none
  some {
    format := f
    machine
    segmentTable
    segmentEntrySize := field 42 54
    segments
    sections
    sectionNames
    interpreter := interpreter? b segments }

def hasSection (e : Elf) (name : String) : Bool :=
  e.sections.any fun s => nameAt? e.sectionNames s.name == some name

def noteSegments (e : Elf) : List Segment :=
  e.segments.filter (·.type = 4)

end Elf

end SelfExtract
