import SelfExtract.FileSystem

/-!
# Processes

A process is a tree of system calls: each node is a call, and what the call
replies selects the subtree that goes on. `run` carries a process out on a file
system that nobody else changes; `FileSystem.perform` is the meaning of a single
call, on which runs with failures or with several processes can be built.
-/
namespace SelfExtract

/-- A request of a process to the system. -/
inductive Call where
  | makeDirectory (p : Path)
  | isDirectory (p : Path)
  | isFile (p : Path)
  | read (p : Path)
  | status (p : Path)
  | create (p : Path) (mode : Nat)
  | append (file : Location) (data : Bytes)
  /-- Waits until a file is on disk. -/
  | sync (file : Location)
  /-- Waits until the names in a directory are on disk. -/
  | syncDirectory (p : Path)
  | setMode (p : Path) (mode : Nat)
  | rename (source target : Path)
  | unlink (p : Path)
  deriving DecidableEq, Repr

abbrev Reply : Call → Type
  | .makeDirectory _ => Except IoError Unit
  | .isDirectory _ => Bool
  | .isFile _ => Bool
  | .read _ => Except IoError Bytes
  | .status _ => Except IoError FileSystem.Status
  | .create _ _ => Except IoError Location
  | .append _ _ => Except IoError Unit
  | .sync _ => Except IoError Unit
  | .syncDirectory _ => Except IoError Unit
  | .setMode _ _ => Except IoError Unit
  | .rename _ _ => Except IoError Unit
  | .unlink _ => Except IoError Unit

namespace FileSystem

/-- The reply to a change that may fail and the file system after it. -/
def change (fs : FileSystem) : Except IoError FileSystem → Except IoError Unit × FileSystem
  | .ok fs' => (.ok (), fs')
  | .error e => (.error e, fs)

/-- The meaning of a call: its reply and the file system after it. -/
def perform (fs : FileSystem) : (c : Call) → Reply c × FileSystem
  | .makeDirectory p => fs.change (fs.makeDirectory p)
  | .isDirectory p => (fs.isDirectory p, fs)
  | .isFile p => (fs.isFile p, fs)
  | .read p => (fs.read p, fs)
  | .status p => (fs.status p, fs)
  | .create p mode =>
    match fs.create p mode with
    | .ok (l, fs') => (.ok l, fs')
    | .error e => (.error e, fs)
  | .append l data => (.ok (), fs.append l data)
  | .sync _ => (.ok (), fs)
  | .syncDirectory p => (discard (fs.existing p), fs)
  | .setMode p mode => fs.change (fs.setMode p mode)
  | .rename source target => fs.change (fs.rename source target)
  | .unlink p => fs.change (fs.unlink p)

end FileSystem

inductive Proc (α : Type) where
  | done (a : α)
  | step (c : Call) (next : Reply c → Proc α)

namespace Proc

def call (c : Call) : Proc (Reply c) :=
  .step c .done

def bind : Proc α → (α → Proc β) → Proc β
  | .done a, f => f a
  | .step c next, f => .step c fun r => (next r).bind f

instance : Monad Proc where
  pure := .done
  bind := bind

/-- The result of a process and the file system after it. -/
def run : Proc α → FileSystem → α × FileSystem
  | .done a, fs => (a, fs)
  | .step c next, fs => (next (fs.perform c).1).run (fs.perform c).2

end Proc

end SelfExtract
