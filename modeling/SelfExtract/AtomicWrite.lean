import SelfExtract.Fault
import SelfExtract.Proc

/-!
# Writing files so that readers see all or nothing

New content goes to a temporary file beside the target, is brought to disk and
then takes the target's name. The temporary file bears the number of the
process, so that no two processes share one, and is removed when anything
fails.
-/
namespace SelfExtract

namespace Proc

/-- Makes a directory after those that it is in; a directory that is there is enough. The paths are
those of the directory and of all directories above it. -/
def makeDirectoriesIn : List Path → Proc (Except IoError Unit)
  | [] => return .ok ()
  | p :: above => do
    match ← call (.makeDirectory p) with
    | .ok () => return .ok ()
    | .error .notFound =>
      match ← makeDirectoriesIn above with
      | .error e => return .error e
      | .ok () =>
        match ← call (.makeDirectory p) with
        | .ok () => return .ok ()
        | .error e => return if ← call (.isDirectory p) then .ok () else .error e
    | .error e => return if ← call (.isDirectory p) then .ok () else .error e

def makeDirectories (p : Path) : Proc (Except IoError Unit) :=
  makeDirectoriesIn p.ancestors

def temporary (pid : Nat) (p : Path) : Path :=
  p ++ Path.ofString (".tmp." ++ toString pid)

/-- Brings the names in a directory to disk; a path without a directory means the current one. -/
def syncDirectory (p : Path) : Proc (Except IoError Unit) :=
  call (.syncDirectory (if p.isEmpty then Path.dot else p))

def replaceBy (temp p : Path) (mode : Nat) (data : Bytes) : Proc (Except IoError Unit) := do
  match ← call (.create temp mode) with
  | .error e => return .error e
  | .ok file =>
    match ← call (.append file data) with
    | .error e => return .error e
    | .ok () =>
      match ← call (.sync file) with
      | .error e => return .error e
      | .ok () =>
        match ← call (.setMode temp mode) with
        | .error e => return .error e
        | .ok () => call (.rename temp p)

/-- Replaces a file, or a link, by a file with the given mode and content. -/
def writeAtomically (pid : Nat) (p : Path) (mode : Nat) (data : Bytes) :
    Proc (Except IoError Unit) := do
  let temp := temporary pid p
  match ← replaceBy temp p mode data with
  | .error e =>
    discard (call (.unlink temp))
    return .error e
  | .ok () =>
    match p.parent? with
    | some directory => discard (syncDirectory directory)
    | none => pure ()
    return .ok ()

end Proc

end SelfExtract
