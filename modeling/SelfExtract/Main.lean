import SelfExtract.Command.Run

/-!
# The command line

Carries out the processes of the library on the file system of the machine,
prints what commands leave, and ends with their status. Modes of files cannot
be read from here: every file counts as one that may be executed.
-/
namespace SelfExtract.CommandLine

def causeOf : IO.Error → IoError
  | .noFileOrDirectory .. => .notFound
  | .permissionDenied .. => .permissionDenied
  | .alreadyExists .. => .alreadyExists
  | .inappropriateType _ code _ => if code = 21 then .isADirectory else .notADirectory
  | .resourceBusy .. => .busy
  | e => .other (toString e)

def attempt (action : IO α) : IO (Except IoError α) := do
  match ← action.toBaseIO with
  | .ok x => return .ok x
  | .error e => return .error (causeOf e)

def nameOf (p : Path) : String :=
  displayPath p

def content (p : Path) : IO Bytes := do
  return (← IO.FS.readBinFile (nameOf p)).toList

def rights (bits : Nat) : IO.AccessRight where
  read := bits &&& 4 != 0
  write := bits &&& 2 != 0
  execution := bits &&& 1 != 0

def setMode (p : Path) (mode : Nat) : IO Unit :=
  IO.setAccessRights (nameOf p) ⟨rights (mode / 64), rights (mode / 8), rights mode⟩

/-- Makes an empty file. Its location is the path itself. -/
def create (p : Path) (mode : Nat) : IO Location := do
  IO.FS.writeBinFile (nameOf p) ByteArray.empty
  setMode p mode
  return [p]

def append (file : Location) (data : Bytes) : IO Unit := do
  let handle ← IO.FS.Handle.mk (nameOf (file.headD [])) .append
  handle.write ⟨data.toArray⟩
  handle.flush

def succeeds (action : IO α) : IO Bool := do
  return (← attempt action).isOk

def reachDirectory (p : Path) : IO Unit := do
  discard (IO.FS.realPath (nameOf (p ++ [Path.slash])))

def perform : (c : Call) → IO (Reply c)
  | .makeDirectory p => attempt (IO.FS.createDir (nameOf p))
  | .isDirectory p => succeeds (reachDirectory p)
  | .isFile p => succeeds (content p)
  | .read p => attempt (content p)
  | .status p => attempt do return ⟨true, (← content p).length, 0o755⟩
  | .create p mode => attempt (create p mode)
  | .append file data => attempt (append file data)
  | .sync _ => attempt (pure ())
  | .syncDirectory p => attempt (reachDirectory p)
  | .setMode p mode => attempt (setMode p mode)
  | .rename source target => attempt (IO.FS.rename (nameOf source) (nameOf target))
  | .unlink p => attempt (IO.FS.removeFile (nameOf p))

def carryOut : Proc α → IO α
  | .done a => pure a
  | .step c next => do carryOut (next (← perform c))

def variableNames : List String :=
  ["SOCKET_DLX_DIR", "SOCKET_HOME", "HOME", "TMPDIR"]

/-- The environment as far as commands depend on it. -/
def environment : IO Environment := do
  let mut e : Environment := []
  for name in variableNames do
    if let some value ← IO.getEnv name then
      e := e.set (Utf8.encode name) (Utf8.encode value)
  return e

def printAll (lines : List String) : IO Unit :=
  lines.forM fun line => IO.println line

/-- Carries out a command line and gives the status. A clock reading stands for the number of the
process. -/
def run (args : List String) : IO UInt32 := do
  match Command.read (args.map Utf8.encode) with
  | .error .help =>
    printAll Command.usage
    return 0
  | .error .version =>
    IO.println Command.versionLine
    return 0
  | .error (.fault e) =>
    IO.eprintln ("error: " ++ e.message)
    return 2
  | .ok command =>
    let outcome ← carryOut (command.run (← IO.monoNanosNow) (← environment))
    printAll outcome.printed
    outcome.errorLines.forM fun line => IO.eprintln line
    return UInt32.ofNat outcome.exitCode

end SelfExtract.CommandLine

def main (args : List String) : IO UInt32 :=
  SelfExtract.CommandLine.run args
