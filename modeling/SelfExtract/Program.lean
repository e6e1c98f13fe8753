import SelfExtract.FileSystem
import SelfExtract.Shell.Run

/-!
# Starting programs

A file that may be executed and names an interpreter in its first line is run
by that interpreter; the only one that is there is the shell. A program without
a slash in its name is looked for along the search path. The system takes a NUL
byte for an end, so a program is not started with one in what it is given.
-/
namespace SelfExtract

/-- The only interpreter. -/
def shellPath : Path :=
  Path.ofString "/bin/sh"

/-- The interpreter in the first line of a program. -/
def interpreter? (data : Bytes) : Option Path :=
  if (Path.ofString "#!").isPrefixOf data then
    let line := ((data.drop 2).takeWhile (· != Shell.byte '\n')).dropWhile Shell.isSpace
    let name := line.takeWhile (!Shell.isSpace ·)
    if name.isEmpty then none else some name
  else none

/-- The cause of a file that is not a program for the system. -/
def IoError.notAProgram : IoError :=
  .other "Exec format error (os error 8)"

namespace FileSystem

def program (fs : FileSystem) (p : Path) : Except IoError Bytes := do
  match ← fs.existing p with
  | (_, .file mode data) =>
    if mode &&& 0o111 = 0 then throw .permissionDenied
    return data
  | _ => throw .permissionDenied

def searchPath (e : Environment) : List Path :=
  ((e.text? "PATH").getD []).splitOn (Shell.byte ':')

/-- Where a program is: names without a slash are looked for along the search path. -/
def find (fs : FileSystem) (e : Environment) (p : Path) : Except IoError Path :=
  if p.contains Path.slash then .ok p
  else
    match ((searchPath e).map fun d => if d.isEmpty then p else d.join p).find? fun q =>
        (fs.program q).isOk with
    | some q => .ok q
    | none => .error .notFound

/-- What a program is started with holds a NUL byte. -/
def holdsNul (p : Path) (args : List Bytes) (e : Environment) : Bool :=
  (p :: args ++ e.entries).any (·.contains 0)

/-- Runs a program. A file without an interpreter is refused, or taken for a script of the shell. -/
def execute (fs : FileSystem) (asScript : Bool) (p : Path) (args : List Bytes) (e : Environment) :
    Except IoError Ended := do
  if holdsNul p args e then throw .nulInArgument
  let p ← fs.find e p
  let data ← fs.program p
  match interpreter? data with
  | some i => if i = shellPath then return Shell.run p args e.entries data else throw .notFound
  | none => if asScript then return Shell.run p args e.entries data else throw .notAProgram

end FileSystem

end SelfExtract
