import SelfExtract.AtomicWrite
import SelfExtract.Cache.Sidecar
import SelfExtract.Digest.Base64
import SelfExtract.Digest.Sha512
import SelfExtract.Target

/-!
# The cache of extracted programs

Every payload has a directory named by its key, with the program and its
sidecar. Nothing is locked: a program takes its name only when it is complete,
and its sidecar is written after it. Looking up trusts the size and the
permission to execute.
-/
namespace SelfExtract

structure Cache where
  root : Path
  os : Os
  deriving DecidableEq, Repr

structure CacheRequest where
  key : String
  data : Bytes
  /-- The launcher that the data came from. -/
  source : Path
  integrity : String
  algorithm : String
  compressedSize : UInt64
  update : Option UpdateState
  /-- The time in milliseconds. -/
  now : UInt64

def integrityOf (data : Bytes) : String :=
  "sha512-" ++ Base64.encode (Sha512.digest data)

namespace Cache

def binaryName : Os → String
  | .win32 => "node.exe"
  | _ => "node"

def sidecarName : String := ".dlx-metadata.json"

def entry (c : Cache) (key : String) : Path :=
  c.root.join (Path.ofString key)

def binary (c : Cache) (key : String) : Path :=
  (c.entry key).join (Path.ofString (binaryName c.os))

def sidecar (c : Cache) (key : String) : Path :=
  (c.entry key).join (Path.ofString sidecarName)

/-- Some permission to execute. -/
def isExecutable (mode : Nat) : Bool :=
  mode &&& 0o111 != 0

/-- The program of an entry, when it is a file of the given size that may be executed. -/
def lookup (c : Cache) (key : String) (size : UInt64) : Proc (Option Path) := do
  match ← Proc.call (.status (c.binary key)) with
  | .error _ => return none
  | .ok s =>
    return if s.regular && s.size == size.toNat && isExecutable s.mode then some (c.binary key)
      else none

/-- The sidecar of an entry, if there is one. -/
def readSidecar (c : Cache) (key : String) : Proc (Except Fault (Option Sidecar)) := do
  match ← Proc.call (.read (c.sidecar key)) with
  | .error .notFound => return .ok none
  | .error e => return .error (.io e)
  | .ok text =>
    match Sidecar.parse? text with
    | some s => return .ok (some s)
    | none => return .error .sidecarSyntax

def binaryMode : Nat := 0o755

def sidecarMode : Nat := 0o644

def writeSidecar (c : Cache) (pid : Nat) (key : String) (s : Sidecar) :
    Proc (Except IoError Unit) :=
  Proc.writeAtomically pid (c.sidecar key) sidecarMode s.encode

def newSidecar (r : CacheRequest) : Sidecar where
  version := "1.0.0"
  key := r.key
  timestamp := r.now
  integrity := some r.integrity
  checksum := none
  size := UInt64.ofNat r.data.length
  origin := ⟨"extract", displayPath r.source⟩
  extra := [("compressed_size", .number (.natural r.compressedSize)),
    ("compression_algorithm", .text r.algorithm)]
  update := r.update
  other := []

/-- Writes the program and then the sidecar of an entry. A program without a sidecar is removed
again. -/
def store (c : Cache) (pid : Nat) (r : CacheRequest) : Proc (Except Fault Path) := do
  let directory := c.entry r.key
  match ← Proc.makeDirectories directory with
  | .error e => return .error (.cacheWrite directory (.directory e))
  | .ok () =>
    let binary := c.binary r.key
    match ← Proc.writeAtomically pid binary binaryMode r.data with
    | .error e => return .error (.atomicWrite binary e)
    | .ok () =>
      match ← c.writeSidecar pid r.key (newSidecar r) with
      | .ok () => return .ok binary
      | .error e =>
        discard (Proc.call (.unlink binary))
        return .error (.cacheWrite (c.sidecar r.key) (.sidecar (c.sidecar r.key) e))

/-- The state of look-ups that is noted for an entry; one that cannot be read counts as none. -/
def readState (c : Cache) (key : String) : Proc UpdateState := do
  match ← c.readSidecar key with
  | .ok (some s) => return s.update.getD .initial
  | _ => return .initial

/-- Notes the state of look-ups and keeps all else that the sidecar says. -/
def writeState (c : Cache) (pid : Nat) (key : String) (state : UpdateState) :
    Proc (Except Fault Unit) := do
  match ← c.readSidecar key with
  | .error e => return .error e
  | .ok none => return .error (.cacheWrite (c.sidecar key) .noSidecar)
  | .ok (some s) =>
    match ← c.writeSidecar pid key { s with update := some state } with
    | .ok () => return .ok ()
    | .error e => return .error (.atomicWrite (c.sidecar key) e)

end Cache

end SelfExtract
