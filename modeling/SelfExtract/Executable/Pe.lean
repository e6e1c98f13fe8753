import SelfExtract.Executable.Pe.Directory

/-!
# PE files

The DOS header leads to the file header, which the optional header, its data
directories and the section table follow.
-/
namespace SelfExtract

structure Pe where
  machine : Nat
  sections : List Pe.Section
  resources : Option Pe.Directory
  deriving DecidableEq, Repr

namespace Pe

def read? (b : Bytes) : Option Pe := do
  if b.take 2 != [0x4D, 0x5A] then none
  let start ← number? b 0x3C 4
  if b.length < 0x80 then none
  let signature ← b.window? start 4
  if signature != [0x50, 0x45, 0, 0] then none
  let header ← b.window? (start + 4) 20
  let field (at_ width : Nat) : Nat := Bytes.natLE ((header.drop at_).take width)
  let machine := field 0 2
  let count := field 2 2
  let strings := field 8 4 + 18 * field 12 4
  let optionalSize := field 16 2
  let optionalStart := start + 24
  let optional ← if optionalSize = 0 then some none
    else (OptionalHeader.read? b optionalStart).map some
  if b.length / 40 < count then none
  let sections ← sections? b strings count (optionalStart + optionalSize)
  if !optional.all (·.isSound b machine sections) then none
  return ⟨machine, sections, optional.bind (·.directory? 2)⟩

/-- Where an address in memory lies in the file, by the first section that holds it, its size being
the larger one of those in the file and in memory. -/
def fileOffset? (sections : List Section) (address : Nat) : Option Nat :=
  sections.findSome? fun s =>
    if s.virtualAddress ≤ address ∧ address - s.virtualAddress < max s.virtualSize s.rawSize then
      some (s.rawOffset + (address - s.virtualAddress))
    else none

/-- The bytes of the resource directory, clipped to the file. -/
def resourceBytes? (p : Pe) (b : Bytes) : Option Bytes := do
  let d ← p.resources
  let start ← fileOffset? p.sections d.address
  b.slice? start (min (start + d.size) b.length)

def hasSection (p : Pe) (name : String) : Bool :=
  p.sections.any (·.name == some name)

end Pe

end SelfExtract
