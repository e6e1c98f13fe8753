import SelfExtract.Build
import SelfExtract.Cache
import SelfExtract.Cache.Root
import SelfExtract.Command
import SelfExtract.Report
import SelfExtract.SeaConfig.File

/-!
# Carrying out commands

A command prints lines and may end with a fault; what it has printed before
stays.
-/
namespace SelfExtract

structure Outcome where
  printed : List String
  result : Except CommandFault Unit

namespace Outcome

def success (printed : List String) : Outcome :=
  ⟨printed, .ok ()⟩

def failure (printed : List String) (e : CommandFault) : Outcome :=
  ⟨printed, .error e⟩

def errorLines (o : Outcome) : List String :=
  match o.result with
  | .ok () => []
  | .error e => ["Error: " ++ e.message]

def exitCode (o : Outcome) : Nat :=
  if o.result.isOk then 0 else 1

end Outcome

namespace PressOptions

/-- The settings that the options ask for. File-system settings have to be right, but they are not
embedded. -/
def settings (o : PressOptions) : Proc (Except CommandFault (Option Settings)) := do
  match o.config with
  | none => return .ok none
  | some p =>
    match ← SeaConfig.load p with
    | .error e => return .error e
    | .ok config =>
      return (do
        discard config.vfsSettings
        return (← config.updateSettings).map Settings.update).mapError .config

/-- The target that the options ask for; parts that are left open come from the carrier, or from the
host when the carrier does not tell. -/
def target (b : Build) (o : PressOptions) : Proc (Except CommandFault (Option Target)) := do
  if o.os.isNone && o.arch.isNone && o.libc.isNone then return .ok none
  match ← Proc.call (.read o.carrier) with
  | .error e => return .error (.io "read stub" o.carrier e)
  | .ok data =>
    let base ← b.targetOf data
    return .ok (some (.make (o.os.getD base.os) (o.arch.getD base.arch) (o.libc.getD base.libc)))

/-- The first of the two given files that is not there. -/
def missingFile (o : PressOptions) : Proc (Option Path) := do
  if !(← Proc.call (.isFile o.program)) then return some o.program
  if !(← Proc.call (.isFile o.carrier)) then return some o.carrier
  return none

def announcement (o : PressOptions) : String :=
  "Compressing " ++ displayPath o.program ++ "..."

def summaryLines (o : PressOptions) (s : Carrier.Summary) : List String :=
  let size (n : Nat) := formatSize (UInt64.ofNat n)
  let ratio := oneDecimal
    (ratioPercent (UInt64.ofNat s.compressedSize) (UInt64.ofNat s.uncompressedSize))
  ["Pressed " ++ size s.uncompressedSize ++ " -> " ++ size s.compressedSize ++ " (" ++ ratio ++
      "% of original)",
    "Stub: " ++ size s.carrierSize ++ " (" ++ (s.kind.map (·.name)).getD "unknown format" ++ ")",
    "Platform: " ++ s.target.name,
    "Cache key: " ++ s.key,
    "",
    "Wrote " ++ displayPath o.output ++ " (" ++ size s.totalSize ++ ")"]

def process (b : Build) (pid : Nat) (o : PressOptions) : Proc Outcome := do
  match ← o.missingFile with
  | some p => return .failure [] (.fileNotFound p)
  | none =>
    match ← o.settings with
    | .error e => return .failure [] e
    | .ok settings =>
      match ← o.target b with
      | .error e => return .failure [] e
      | .ok target =>
        let how : Carrier.Packing := ⟨.framed b.compression o.level, target, settings⟩
        match ← Carrier.packFile pid how (some o.carrier) o.program o.output with
        | .error e => return .failure [o.announcement] (.carrier e)
        | .ok s => return .success (o.announcement :: o.summaryLines s)

end PressOptions

namespace Cache

def sidecarOf (c : Cache) (key : String) : Proc (Except CommandFault Sidecar) := do
  match ← c.readSidecar key with
  | .error e => return .error (.carrier e)
  | .ok none => return .error (.entryNotFound key)
  | .ok (some s) => return .ok s

def showEntry (c : Cache) (key : String) : Proc Outcome := do
  match ← c.sidecarOf key with
  | .error e => return .failure [] e
  | .ok s =>
    let state := match ← c.lookup key s.size with
      | some p => displayPath p
      | none => "missing or incomplete"
    return .success [s.text, "", "Binary: " ++ state]

end Cache

namespace Command

def cacheOf (b : Build) (e : Environment) : Cache :=
  ⟨(CachePlaces.ofEnvironment e).root, b.os⟩

def reportLines (json : Bool) (r : Report) : List String :=
  if json then [r.toJson.pretty] else r.lines

def written (output : Path) (size : α → String) : Except CommandFault α → Outcome
  | .error e => .failure [] e
  | .ok n => .success ["Wrote " ++ displayPath output ++ " (" ++ size n ++ ")"]

def process (b : Build) (pid : Nat) (e : Environment) : Command → Proc Outcome
  | .press o => o.process b pid
  | .inspect file settings json => do
    match ← Report.ofFile file settings with
    | .error e => return .failure [] e
    | .ok r => return .success (reportLines json r)
  | .unpress file output => do
    return written output (fun n => formatSize (UInt64.ofNat n))
      (← Carrier.restoreWith (.standard b.compression) pid file output)
  | .record settings config output => do
    return written output (fun n => toString n ++ " bytes")
      (← SeaConfig.writeRecord pid settings config output)
  | .cacheDirectory => return .success [displayPath (cacheOf b e).root]
  | .cacheEntry key => (cacheOf b e).showEntry key

end Command

end SelfExtract
