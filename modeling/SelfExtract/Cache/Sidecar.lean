import SelfExtract.Json.Printer
import SelfExtract.Json.Shape
import SelfExtract.Update.State

/-!
# What is noted beside a cached program

A JSON object with some known members; all others are kept as they are and
written back behind the known ones.
-/
namespace SelfExtract

structure Origin where
  kind : String
  path : String
  deriving DecidableEq, Repr

structure Sidecar where
  version : String
  key : String
  /-- When the entry was written, in milliseconds. -/
  timestamp : UInt64
  /-- The digest of the program in base 64. -/
  integrity : Option String
  /-- An older form of the digest. -/
  checksum : Option String
  size : UInt64
  origin : Origin
  /-- Details of the producer. -/
  extra : List (String × Json)
  update : Option UpdateState
  /-- All other members. -/
  other : List (String × Json)
  deriving Repr

open Json (Tree)

def Origin.ofTree? (t : Tree) : Option Origin := do
  match ← t.record? ["type", "path"] 2 with
  | [kind, path] =>
    return ⟨← Tree.required? Tree.text? kind, ← Tree.required? Tree.text? path⟩
  | _ => none

def Origin.toJson (o : Origin) : Json :=
  .object [("type", .text o.kind), ("path", .text o.path)]

/-- Reads the state of look-ups; what is not noted has its initial value. -/
def UpdateState.ofTree? (t : Tree) : Option UpdateState := do
  match ← t.record? ["last_check", "last_notification", "latest_known"] 0 with
  | [lastCheck, lastNotification, latestKnown] =>
    return {
      lastCheck := ← Tree.defaulted? Tree.int64? initial.lastCheck lastCheck
      lastNotification := ← Tree.defaulted? Tree.int64? initial.lastNotification lastNotification
      latestKnown := ← Tree.defaulted? Tree.text? initial.latestKnown latestKnown }
  | _ => none

def UpdateState.toJson (s : UpdateState) : Json :=
  .object [("last_check", .ofInt64 s.lastCheck), ("last_notification", .ofInt64 s.lastNotification),
    ("latest_known", .text s.latestKnown)]

namespace Sidecar

def names : List String :=
  ["version", "cache_key", "timestamp", "integrity", "checksum", "size", "source", "extra",
    "update_check"]

/-- The nesting that is left to the members, which are kept as values. -/
def memberDepth : Nat := 126

/-- The members that are not known, sorted by name. -/
def others? (ms : List (Bytes × Tree)) : Option (List (String × Json)) := do
  let unknown := ms.filter fun m => !(Json.textOf? m.1).any names.contains
  return Json.sortMembers (← Json.ofMembers? memberDepth unknown)

def details? (t : Tree) : Option (List (String × Json)) := do
  match ← Json.ofTree? memberDepth t with
  | .object ms => some ms
  | _ => none

def ofTree? (t : Tree) : Option Sidecar :=
  match t with
  | .object ms => do
    match ← t.record? names 0 with
    | [version, key, timestamp, integrity, checksum, size, origin, extra, update] =>
      return {
        version := ← Tree.required? Tree.text? version
        key := ← Tree.required? Tree.text? key
        timestamp := ← Tree.required? Tree.uint64? timestamp
        integrity := ← Tree.member? Tree.text? integrity
        checksum := ← Tree.member? Tree.text? checksum
        size := ← Tree.required? Tree.uint64? size
        origin := ← Tree.required? Origin.ofTree? origin
        extra := ← Tree.defaulted? details? [] extra
        update := ← Tree.member? UpdateState.ofTree? update
        other := ← others? ms }
    | _ => none
  | _ => none

def parse? (text : Bytes) : Option Sidecar :=
  (Tree.parse? text).bind ofTree?

/-- A member that is left out when there is nothing to say. -/
def optionalMember (name : String) (v : Option Json) : List (String × Json) :=
  v.toList.map fun v => (name, v)

def members (s : Sidecar) : List (String × Json) :=
  [("version", .text s.version), ("cache_key", .text s.key),
    ("timestamp", .number (.natural s.timestamp))] ++
    optionalMember "integrity" (s.integrity.map .text) ++
    optionalMember "checksum" (s.checksum.map .text) ++
    [("size", .number (.natural s.size)), ("source", s.origin.toJson),
      ("extra", .object s.extra)] ++
    optionalMember "update_check" (s.update.map (·.toJson)) ++ s.other

def text (s : Sidecar) : String :=
  Json.pretty (.object s.members)

def encode (s : Sidecar) : Bytes :=
  Utf8.encode s.text ++ [0x0A]

end Sidecar

end SelfExtract
