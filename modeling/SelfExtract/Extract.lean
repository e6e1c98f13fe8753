import SelfExtract.Cache
import SelfExtract.Carrier

/-!
# Extracting the payload of a launcher

Locate the block, read and check its metadata, and take the program from the
cache or expand it into the cache. Where the first file that could be searched
has its block is remembered for the rest of the process.
-/
namespace SelfExtract

inductive LaunchFault where
  | selfPath (reason : String)
  | noPayload (path : Path)
  | metadata (e : MetadataFault)
  | expand (e : CodecFault)
  | other (e : Fault)
  | exec (path : Path) (e : IoError)
  deriving DecidableEq, Repr

namespace LaunchFault

def ofFault : Fault → LaunchFault
  | .metadata e => .metadata e
  | .codec e => .expand e
  | e => .other e

def message : LaunchFault → String
  | .selfPath reason => "failed to determine executable path: " ++ reason
  | .noPayload path => "no pressed payload found in " ++ displayPath path
  | .metadata e => "invalid payload metadata: " ++ e.message
  | .expand e => "failed to decompress payload: " ++ e.message
  | .other e => e.message
  | .exec path e => "failed to execute " ++ displayPath path ++ ": " ++ e.message

end LaunchFault

/-- The first file that was searched with success, and where its block is, if it has one. -/
abbrev LocateMemory := Option (Path × Option Nat)

namespace Extract

def search (p : Path) : Proc (Except Fault (Option Nat)) := do
  match ← Proc.call (.read p) with
  | .error e => return .error (.io e)
  | .ok data => return .ok (Carrier.locate data)

/-- Where the block of a file is. The remembered file is not searched again. -/
def locate (m : LocateMemory) (p : Path) : Proc (Except Fault (Option Nat) × LocateMemory) := do
  match m with
  | some (q, found) => if q.same p then return (.ok found, m) else return (← search p, m)
  | none =>
    match ← search p with
    | .error e => return (.error e, none)
    | .ok found => return (.ok found, some (p, found))

structure Extraction where
  codec : Codec
  root : Path
  pid : Nat
  now : UInt64

structure Prepared where
  binary : Path
  metadata : Metadata
  cache : Cache
  /-- The program was in the cache already. -/
  hit : Bool
  deriving DecidableEq, Repr

def expand (codec : Codec) (data : Bytes) (m : Metadata) : Except LaunchFault Bytes := do
  let compressed ← (m.readPayload data).mapError .ofFault
  let expected := m.uncompressedSize.toNat
  let out ← (codec.expand compressed expected).mapError .expand
  if out.length = expected then return out
  else throw (.expand (.brokenPromise expected out.length))

/-- Metadata that are admitted and the target that they name. -/
def admitted (data : Bytes) (offset : Nat) : Except LaunchFault (Metadata × Target) := do
  let m ← (Metadata.read data offset .update).mapError .ofFault
  (m.validate sizeLimit).mapError .metadata
  let target ← m.target?.mapError .metadata
  return (m, target)

def fetch (x : Extraction) (launcher : Path) (data : Bytes) (m : Metadata) (target : Target) :
    Proc (Except LaunchFault Prepared) := do
  let cache : Cache := ⟨x.root, target.os⟩
  match ← cache.lookup m.keyText m.uncompressedSize with
  | some binary => return .ok ⟨binary, m, cache, true⟩
  | none =>
    match expand x.codec data m with
    | .error e => return .error e
    | .ok program =>
      let stored ← cache.store x.pid {
        key := m.keyText
        data := program
        source := launcher
        integrity := integrityOf program
        algorithm := x.codec.algorithm
        compressedSize := m.compressedSize
        update := none
        now := x.now }
      match stored with
      | .error e => return .error (.ofFault e)
      | .ok binary => return .ok ⟨binary, m, cache, false⟩

def prepare (x : Extraction) (m : LocateMemory) (launcher : Path) :
    Proc (Except LaunchFault Prepared × LocateMemory) := do
  let (found, m) ← locate m launcher
  match found with
  | .error e => return (.error (.ofFault e), m)
  | .ok none => return (.error (.noPayload launcher), m)
  | .ok (some offset) =>
    match ← Proc.call (.read launcher) with
    | .error e => return (.error (.other (.io e)), m)
    | .ok data =>
      match admitted data offset with
      | .error e => return (.error e, m)
      | .ok (metadata, target) => return (← fetch x launcher data metadata target, m)

end Extract

end SelfExtract
