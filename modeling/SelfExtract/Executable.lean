import SelfExtract.Bytes

/-!
# Kinds of executables

The kind is told by the first bytes of a file alone.
-/
namespace SelfExtract

inductive Executable where
  | elf
  | machO
  | pe
  deriving DecidableEq, Repr

namespace Executable

def name : Executable → String
  | .elf => "ELF"
  | .machO => "Mach-O"
  | .pe => "PE"

def detect? : Bytes → Option Executable
  | 0x7F :: 0x45 :: 0x4C :: 0x46 :: _ => some .elf
  | 0xFE :: 0xED :: 0xFA :: b :: _ => if b = 0xCE ∨ b = 0xCF then some .machO else none
  | 0xCE :: 0xFA :: 0xED :: 0xFE :: _ => some .machO
  | 0xCF :: 0xFA :: 0xED :: 0xFE :: _ => some .machO
  | 0xCA :: 0xFE :: 0xBA :: 0xBE :: _ => some .machO
  | 0xBE :: 0xBA :: 0xFE :: 0xCA :: _ => some .machO
  | 0x4D :: 0x5A :: _ => some .pe
  | _ => none

end Executable

end SelfExtract
