import SelfExtract.AtomicWrite
import SelfExtract.Command.Fault

/-!
# Sea-config files and record files

A sea-config file is read as text, and the record of one of its sections can be
written to a file of its own.
-/
namespace SelfExtract.SeaConfig

/-- Reads a sea-config file, which has to be text. -/
def load (p : Path) : Proc (Except CommandFault SeaConfig) := do
  match ← Proc.call (.read p) with
  | .error e => return .error (.io "read config" p e)
  | .ok data =>
    if (Utf8.decode? data).isNone then return .error (.io "read config" p .notText)
    return (parse data).mapError .config

def record (c : SeaConfig) : Settings.Kind → Except ConfigFault Bytes
  | .update => c.updateRecord
  | .vfs => c.vfsRecord

def recordMode : Nat := 0o644

/-- Writes the record of a section of a sea-config file to a file. Gives the size of the record. -/
def writeRecord (pid : Nat) (kind : Settings.Kind) (p output : Path) :
    Proc (Except CommandFault Nat) := do
  match ← load p with
  | .error e => return .error e
  | .ok config =>
    match config.record kind with
    | .error e => return .error (.config e)
    | .ok record =>
      match ← Proc.writeAtomically pid output recordMode record with
      | .error e => return .error (.carrier (.atomicWrite output e))
      | .ok () => return .ok record.length

end SelfExtract.SeaConfig
