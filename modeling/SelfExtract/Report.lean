import SelfExtract.Carrier.File
import SelfExtract.Decimal.Places
import SelfExtract.Json.Printer

/-!
# What can be seen of a pressed file

The kind of executable, its resources, and where and what the payload is. A
report is shown as JSON or as lines for people.
-/
namespace SelfExtract

structure PayloadReport where
  /-- Where the marker begins. -/
  markerOffset : Nat
  metadata : Metadata
  deriving DecidableEq, Repr

structure Report where
  file : Path
  size : Nat
  kind : Option Executable
  resources : List String
  hasSeaBlob : Bool
  hasVfsBlob : Bool
  payload : Option PayloadReport
  deriving DecidableEq, Repr

def PayloadReport.targetText (p : PayloadReport) : String :=
  match p.metadata.target? with
  | .ok t => t.name
  | .error e => "invalid (" ++ (Fault.metadata e).message ++ ")"

def UpdateSettings.toJson (u : UpdateSettings) : Json :=
  .object <| Json.sortMembers
    [("type", .text "SMFG"), ("prompt", .bool u.prompt),
      ("promptDefault", .text u.promptDefault.toString), ("interval", .ofInt64 u.interval),
      ("notifyInterval", .ofInt64 u.notifyInterval), ("binname", .text u.binname),
      ("command", .text u.command), ("url", .text u.url), ("tag", .text u.tag),
      ("skipEnv", .text u.skipEnv), ("fakeArgvEnv", .text u.fakeArgvEnv)]

def VfsSettings.toJson (v : VfsSettings) : Json :=
  .object <| Json.sortMembers
    [("type", .text "SVFG"), ("mode", .text v.mode), ("source", .text v.source),
      ("prefix", .text v.mount)]

def Settings.toJson : Settings → Json
  | .update u => u.toJson
  | .vfs v => v.toJson

def PayloadReport.toJson (p : PayloadReport) : Json :=
  .object
    [("marker_offset", .ofNat p.markerOffset), ("data_offset", .ofNat p.metadata.dataOffset),
      ("compressed_size", .number (.natural p.metadata.compressedSize)),
      ("uncompressed_size", .number (.natural p.metadata.uncompressedSize)),
      ("cache_key", .text p.metadata.keyText), ("platform", .text p.targetText),
      ("config", .ofOption Settings.toJson p.metadata.settings)]

namespace Report

def ofBytes (p : Path) (data : Bytes) (settings : Settings.Kind) : Except Fault Report := do
  let kind := Executable.detect? data
  let has (name : String) : Bool := ((kind.bind (·.has? data name)).getD false)
  let payload ← match Carrier.locate data with
    | none => pure none
    | some offset => do
      let metadata ← Metadata.read data offset settings
      pure (some { markerOffset := offset - Marker.payload.size, metadata : PayloadReport })
  return {
    file := p
    size := data.length
    kind
    resources := (kind.bind (·.resources? data)).getD []
    hasSeaBlob := has programResource
    hasVfsBlob := has vfsResource
    payload }

def ofFile (p : Path) (settings : Settings.Kind) : Proc (Except CommandFault Report) := do
  match ← Proc.call (.read p) with
  | .error .notFound => return .error (.fileNotFound p)
  | .error e => return .error (.io "read binary" p e)
  | .ok data => return (ofBytes p data settings).mapError .carrier

def toJson (r : Report) : Json :=
  .object
    [("file", .text (displayPath r.file)), ("size", .ofNat r.size),
      ("format", .ofOption (fun k => .text k.name) r.kind),
      ("resources", .array (r.resources.map .text)), ("has_sea_blob", .bool r.hasSeaBlob),
      ("has_vfs_blob", .bool r.hasVfsBlob), ("payload", .ofOption (·.toJson) r.payload)]

def settingLines : Option Settings → List String
  | none => ["", "Config: none"]
  | some s =>
    "" :: "Config" ::
      match s.toJson with
      | .object ms => ms.map fun (name, v) => "  " ++ name ++ ": " ++ v.compact
      | _ => []

def payloadLines : Option PayloadReport → List String
  | none => ["", "No pressed payload found"]
  | some p =>
    let m := p.metadata
    let ratio := oneDecimal (ratioPercent m.compressedSize m.uncompressedSize)
    ["", "Payload",
      "  Marker offset: " ++ toString p.markerOffset,
      "  Data offset:   " ++ toString m.dataOffset,
      "  Compressed:    " ++ formatSize m.compressedSize ++ " (" ++ ratio ++ "%)",
      "  Uncompressed:  " ++ formatSize m.uncompressedSize,
      "  Cache key:     " ++ m.keyText,
      "  Platform:      " ++ p.targetText] ++ settingLines m.settings

def lines (r : Report) : List String :=
  ["File:      " ++ displayPath r.file,
    "Size:      " ++ formatSize (UInt64.ofNat r.size),
    "Format:    " ++ (r.kind.map (·.name)).getD "unknown"] ++
    (if r.resources.isEmpty then [] else ["Resources: " ++ String.intercalate ", " r.resources]) ++
    (if r.hasSeaBlob then ["SEA blob:  present"] else []) ++
    (if r.hasVfsBlob then ["VFS blob:  present"] else []) ++ payloadLines r.payload

end Report

end SelfExtract
