import SelfExtract.IoError
import SelfExtract.Path

/-!
# A model of file systems

Files with a mode and content, directories, and symbolic links, each at a
location: the names that lead to it from the root. Paths are resolved name by
name, links on the way are followed, and at most forty of them. Programs run as
a user who may do everything, so that modes never forbid anything.
-/
namespace SelfExtract

/-- The names that lead from the root to an object. -/
abbrev Location := List Bytes

inductive Node where
  | directory
  | file (mode : Nat) (data : Bytes)
  | link (target : Path)
  deriving DecidableEq, Repr

structure FileSystem where
  nodes : List (Location × Node)
  /-- Where relative paths begin. -/
  current : Location
  deriving Repr

namespace FileSystem

def node? (fs : FileSystem) (l : Location) : Option Node :=
  if l = [] then some .directory else List.lookup l fs.nodes

def erase (fs : FileSystem) (l : Location) : FileSystem :=
  { fs with nodes := fs.nodes.filter (·.1 != l) }

/-- An object takes a location, in place of what is there. -/
def put (fs : FileSystem) (l : Location) (n : Node) : FileSystem :=
  { fs with nodes := (l, n) :: (fs.erase l).nodes }

def maxName : Nat := 255

/-- The number of links that are followed for one path. -/
def maxLinks : Nat := 40

/-- The longest path that is looked at, in bytes. -/
def maxPath : Nat := 4095

/-- Where a path leads: a location whose directory exists, and the object there, if any. -/
structure Found where
  location : Location
  node : Option Node
  /-- The path ends in a name, and neither in the directory itself nor in the one above. -/
  named : Bool
  deriving DecidableEq, Repr

/-- Follows names from a location. The last one is followed through a link only when `follow`
says so. -/
def walk (fs : FileSystem) (follow : Bool) :
    Nat → Location → List Bytes → Except IoError Found
  | _, here, [] =>
    .ok ⟨here, fs.node? here, false⟩
  | links, here, name :: rest =>
    if fs.node? here != some .directory then .error .notADirectory
    else if name = Path.dot then walk fs follow links here rest
    else if name = Path.dotDot then walk fs follow links here.dropLast rest
    else if maxName < name.length then .error .nameTooLong
    else
      let there := here ++ [name]
      match fs.node? there with
      | none => if rest.isEmpty then .ok ⟨there, none, true⟩ else .error .notFound
      | some (.link target) =>
        if rest.isEmpty && !follow then .ok ⟨there, some (.link target), true⟩
        else if target.isEmpty then .error .notFound
        else
          match links with
          | 0 => .error .linkLoop
          | links + 1 =>
            walk fs follow links (if target.isAbsolute then [] else here) (target.names ++ rest)
      | some n =>
        if rest.isEmpty then .ok ⟨there, some n, true⟩ else walk fs follow links there rest
termination_by links _ names => (links, names.length)

def resolve (fs : FileSystem) (follow : Bool) (p : Path) : Except IoError Found :=
  if p.contains 0 then .error .nulInName
  else if p.isEmpty then .error .notFound
  else if maxPath < p.length then .error .nameTooLong
  else walk fs follow maxLinks (if p.isAbsolute then [] else fs.current) p.names

/-- The object that a path leads to through links; a path that asks for a directory leads to
nothing else. -/
def existing (fs : FileSystem) (p : Path) : Except IoError (Location × Node) := do
  let f ← fs.resolve true p
  match f.node with
  | none => throw .notFound
  | some n =>
    if p.asksForDirectory && n != .directory then throw .notADirectory
    return (f.location, n)

/-- What a file is for programs that ask without following a last link. -/
structure Status where
  regular : Bool
  size : Nat
  mode : Nat
  deriving DecidableEq, Repr

/-- The status of what a path names; a link there is refused. -/
def status (fs : FileSystem) (p : Path) : Except IoError Status := do
  let f ← fs.resolve p.asksForDirectory p
  match f.node with
  | none => throw .notFound
  | some (.link _) => throw .linkLoop
  | some .directory => return ⟨false, 4096, 0o755⟩
  | some (.file mode data) =>
    if p.asksForDirectory then throw .notADirectory
    return ⟨true, data.length, mode⟩

def read (fs : FileSystem) (p : Path) : Except IoError Bytes := do
  match ← fs.existing p with
  | (_, .file _ data) => return data
  | _ => throw .isADirectory

def isFile (fs : FileSystem) (p : Path) : Bool :=
  match fs.existing p with
  | .ok (_, .file _ _) => true
  | _ => false

def isDirectory (fs : FileSystem) (p : Path) : Bool :=
  match fs.existing p with
  | .ok (_, .directory) => true
  | _ => false

def makeDirectory (fs : FileSystem) (p : Path) : Except IoError FileSystem := do
  let f ← fs.resolve false p
  match f.node with
  | some _ => throw .alreadyExists
  | none => return fs.put f.location .directory

/-- The permissions that the system takes away from new files. -/
def withoutMask (mode : Nat) : Nat :=
  mode &&& 0o7755

/-- Opens a file for writing, empty; a new file gets the mode without what the system takes away.
Gives its location. -/
def create (fs : FileSystem) (p : Path) (mode : Nat) : Except IoError (Location × FileSystem) := do
  let f ← fs.resolve true p
  match f.node with
  | some .directory => throw .isADirectory
  | some (.link _) => throw .linkLoop
  | some (.file old _) =>
    if p.asksForDirectory then throw .isADirectory
    return (f.location, fs.put f.location (.file old []))
  | none =>
    if p.asksForDirectory then throw .isADirectory
    return (f.location, fs.put f.location (.file (withoutMask mode) []))

def append (fs : FileSystem) (l : Location) (data : Bytes) : FileSystem :=
  match fs.node? l with
  | some (.file mode old) => fs.put l (.file mode (old ++ data))
  | _ => fs

def permissions (mode : Nat) : Nat :=
  mode &&& 0o7777

def setMode (fs : FileSystem) (p : Path) (mode : Nat) : Except IoError FileSystem := do
  match ← fs.existing p with
  | (l, .file _ data) => return fs.put l (.file (permissions mode) data)
  | _ => return fs

def unlink (fs : FileSystem) (p : Path) : Except IoError FileSystem := do
  let f ← fs.resolve false p
  match f.node with
  | none => throw .notFound
  | some .directory => throw .isADirectory
  | some _ =>
    if p.asksForDirectory then throw .notADirectory
    return fs.erase f.location

/-- Moves a file to another path in place of a file or link there; a directory stays. -/
def rename (fs : FileSystem) (source target : Path) : Except IoError FileSystem := do
  let s ← fs.resolve false source
  let t ← fs.resolve false target
  match s.node with
  | none => throw .notFound
  | some .directory => throw .invalidArgument
  | some n =>
    if !t.named then throw .busy
    if source.asksForDirectory || target.asksForDirectory then throw .notADirectory
    if t.node = some .directory then throw .isADirectory
    return (fs.erase s.location).put t.location n

def link (fs : FileSystem) (p target : Path) : Except IoError FileSystem := do
  let f ← fs.resolve false p
  match f.node with
  | some _ => throw .alreadyExists
  | none => return fs.put f.location (.link target)

/-- Removes a file, a link, or a directory with everything in it. -/
def removeTree (fs : FileSystem) (p : Path) : Except IoError FileSystem := do
  let f ← fs.resolve false p
  match f.node with
  | none => throw .notFound
  | some _ => return { fs with nodes := fs.nodes.filter fun n => !f.location.isPrefixOf n.1 }

def below (fs : FileSystem) (l : Location) : List (Location × Node) :=
  fs.nodes.filterMap fun (m, n) =>
    if l.isPrefixOf m && l.length < m.length then some (m.drop l.length, n) else none

end FileSystem

end SelfExtract
