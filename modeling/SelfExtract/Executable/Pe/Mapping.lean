import SelfExtract.Executable.Pe.Header

/-!
# Addresses of PE files

An address in memory belongs to the first section whose pages hold it. What is
read of a section begins at a multiple of 512 bytes in the file, ends at a
multiple of the file's alignment, and has no more pages than the section has
in the file or in memory.
-/
namespace SelfExtract.Pe

structure Mapping where
  fileAlignment : Nat
  sections : List Section
  deriving DecidableEq, Repr

/-- The least multiple of `unit` that is not less. -/
def roundUp (unit n : Nat) : Nat :=
  (n + unit - 1) / unit * unit

def pageSize : Nat := 0x1000

def Section.readStart (s : Section) : Nat :=
  s.rawOffset / 512 * 512

def Section.readSize (s : Section) (alignment : Nat) : Nat :=
  let stored := min (roundUp alignment (s.rawOffset + s.rawSize) - s.readStart)
    (roundUp pageSize s.rawSize)
  if s.virtualSize = 0 then stored else min stored (roundUp pageSize s.virtualSize)

def isPowerOfTwo (n : Nat) : Bool :=
  n != 0 && n &&& (n - 1) = 0

/-- Where an address lies in the file. No address lies there when the alignment is no power of
two. -/
def Mapping.offset? (m : Mapping) (address : Nat) : Option Nat :=
  if isPowerOfTwo m.fileAlignment then
    (m.sections.find? fun s =>
      s.virtualAddress ≤ address && address < s.virtualAddress + s.readSize m.fileAlignment).map
      fun s => address - s.virtualAddress + s.readStart
  else none

end SelfExtract.Pe
