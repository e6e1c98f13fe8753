import SelfExtract.Executable.Resource
import SelfExtract.Target

/-!
# The target of an executable

Taken from the headers: the processor from the machine number, the C library
of an ELF file from the name of its interpreter.
-/
namespace SelfExtract

def occursIn (needle : List Char) : List Char → Bool
  | [] => needle.isEmpty
  | c :: r => needle.isPrefixOf (c :: r) || occursIn needle r

namespace Arch

def ofElf? : Nat → Option Arch
  | 62 => some .x64
  | 183 => some .arm64
  | 3 => some .ia32
  | 40 => some .arm
  | _ => none

def ofMachO? : Nat → Option Arch
  | 0x01000007 => some .x64
  | 0x0100000C => some .arm64
  | 7 => some .ia32
  | 12 => some .arm
  | _ => none

def ofPe? : Nat → Option Arch
  | 0x8664 => some .x64
  | 0xAA64 => some .arm64
  | 0x14C => some .ia32
  | 0x1C4 => some .arm
  | _ => none

end Arch

namespace Target

def detect? (b : Bytes) : Option Target := do
  match ← Executable.detect? b with
  | .elf =>
    let e ← Elf.read? b
    let arch ← Arch.ofElf? e.machine
    let musl := (e.interpreter.map fun i => occursIn "musl".toList i.toList).getD false
    return make .linux arch (if musl then .musl else .glibc)
  | .machO =>
    let file ← MachO.File.read? b
    return make .darwin (← Arch.ofMachO? (← file.cpu?)) .absent
  | .pe =>
    let p ← Pe.read? b
    return make .win32 (← Arch.ofPe? p.machine) .absent

end Target

end SelfExtract
