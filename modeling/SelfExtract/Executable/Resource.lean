import SelfExtract.Executable
import SelfExtract.Executable.Elf.Note
import SelfExtract.Executable.MachO
import SelfExtract.Executable.Pe.Resource

/-!
# Injected resources

ELF files carry them as notes, Mach-O files as sections, PE files as raw data.
A universal Mach-O file lists what any of its slices has; a name is left out
when it directly follows an equal one.
-/
namespace SelfExtract

def resourceSegment : String := "NODE_SEA"

def programResource : String := "NODE_SEA_BLOB"

def vfsResource : String := "SMOL_VFS_BLOB"

def payloadOwner : String := "pressed_data"

/-- Equality of texts but for the case of ASCII letters. -/
def equalsIgnoringCase (a b : String) : Bool :=
  a.toList.map Char.toLower == b.toList.map Char.toLower

/-- A list without the elements that directly follow an equal one. -/
def withoutRepeats [BEq α] : List α → List α
  | a :: b :: r => if a == b then withoutRepeats (a :: r) else a :: withoutRepeats (b :: r)
  | l => l
termination_by l => l.length

namespace Executable

/-- The names of the injected resources of a file that is taken as the given kind. -/
def resources? (kind : Executable) (b : Bytes) : Option (List String) :=
  match kind with
  | .elf => (Elf.read? b).map (·.noteOwners b)
  | .machO => (MachO.names? b).map fun names =>
      withoutRepeats (names.filterMap fun (segment, inner) =>
        inner.map fun name => segment ++ "/" ++ name)
  | .pe => (Pe.read? b).map (·.fileResourceNames b)

/-- Whether a segment and section of a Mach-O file answer to a name, sections of the resource
segment also without two leading underscores. -/
def machOAnswers (name : String) (names : String × Option String) : Bool :=
  names.1 == name || names.2 == some name ||
    (names.1 == resourceSegment && names.2 == some ("__" ++ name))

/-- Whether a file that is taken as the given kind has a section, segment or resource of a name. -/
def has? (kind : Executable) (b : Bytes) (name : String) : Option Bool :=
  match kind with
  | .elf => (Elf.read? b).map fun e => e.hasSection name || (e.noteOwners b).contains name
  | .machO => (MachO.names? b).map (·.any (machOAnswers name))
  | .pe => (Pe.read? b).map fun p =>
      p.hasSection name || (p.fileResourceNames b).any (equalsIgnoringCase name)

end Executable

end SelfExtract
