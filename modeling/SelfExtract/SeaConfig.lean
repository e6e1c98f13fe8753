import SelfExtract.Json.Shape
import SelfExtract.Settings
import SelfExtract.Text.Quoted

/-!
# Settings in a sea-config file

The `smol` section of the file gives update settings and file-system settings.
Values that a record would cut are refused here: what is accepted is stored
without loss.
-/
namespace SelfExtract

inductive ConfigFault where
  /-- The text is not JSON, or a member has a wrong type. -/
  | rejected
  | promptDefault (answer : String)
  | negative (name : String)
  | urlScheme
  | mode (name : String)
  | tooLong (group field : String) (size limit : Nat)
  | noUpdate
  | noVfs
  deriving DecidableEq, Repr

def vfsModes : List String := ["on-disk", "in-memory", "compat"]

def ConfigFault.message : ConfigFault → String
  | .rejected => "malformed JSON"
  | .promptDefault answer =>
    "smol.update.promptDefault must be \"y\" or \"n\", got " ++ Quoted.encode answer
  | .negative name => "smol.update." ++ name ++ " must not be negative"
  | .urlScheme => "smol.update.url must start with http:// or https://"
  | .mode name =>
    "smol.vfs.mode must be one of " ++ String.intercalate ", " vfsModes ++ ", got " ++
      Quoted.encode name
  | .tooLong group field size limit =>
    group ++ "." ++ field ++ " is " ++ toString size ++ " bytes, limit is " ++ toString limit
  | .noUpdate => "smol.update section is missing"
  | .noVfs => "smol.vfs is missing or disabled"

structure UpdateSection where
  binname : Option String
  command : Option String
  url : Option String
  tag : Option String
  skipEnv : Option String
  fakeArgvEnv : Option String
  prompt : Option Bool
  promptDefault : Option String
  interval : Option Int64
  notifyInterval : Option Int64
  deriving DecidableEq, Repr

structure VfsSection where
  mode : Option String
  source : Option String
  mount : Option String
  deriving DecidableEq, Repr

inductive VfsChoice where
  | enabled (b : Bool)
  | options (v : VfsSection)
  deriving DecidableEq, Repr

structure SeaConfig where
  update : Option UpdateSection
  vfs : Option VfsChoice
  deriving DecidableEq, Repr

open Json (Tree)

namespace UpdateSection

def names : List String :=
  ["binname", "command", "url", "tag", "skipEnv", "fakeArgvEnv", "prompt", "promptDefault",
    "interval", "notifyInterval"]

def ofTree? (t : Tree) : Option UpdateSection := do
  match ← t.record? names names.length with
  | [binname, command, url, tag, skipEnv, fakeArgvEnv, prompt, promptDefault, interval,
      notifyInterval] =>
    return {
      binname := ← Tree.member? Tree.text? binname
      command := ← Tree.member? Tree.text? command
      url := ← Tree.member? Tree.text? url
      tag := ← Tree.member? Tree.text? tag
      skipEnv := ← Tree.member? Tree.text? skipEnv
      fakeArgvEnv := ← Tree.member? Tree.text? fakeArgvEnv
      prompt := ← Tree.member? Tree.bool? prompt
      promptDefault := ← Tree.member? Tree.text? promptDefault
      interval := ← Tree.member? Tree.int64? interval
      notifyInterval := ← Tree.member? Tree.int64? notifyInterval }
  | _ => none

end UpdateSection

namespace VfsSection

def ofTree? (t : Tree) : Option VfsSection := do
  match ← t.record? ["mode", "source", "prefix"] 3 with
  | [mode, source, mount] =>
    return {
      mode := ← Tree.member? Tree.text? mode
      source := ← Tree.member? Tree.text? source
      mount := ← Tree.member? Tree.text? mount }
  | _ => none

end VfsSection

/-- The nesting that is left to the `vfs` section, which is kept as a value before it is looked
at. -/
def vfsDepth : Nat := 125

def VfsChoice.ofTree? (t : Tree) : Option VfsChoice :=
  if (Json.ofTree? vfsDepth t).isNone then none
  else
    match t with
    | .bool b => some (.enabled b)
    | t => (VfsSection.ofTree? t).map .options

namespace SeaConfig

def sectionOfTree? (t : Tree) : Option SeaConfig := do
  match ← t.record? ["update", "vfs"] 0 with
  | [update, vfs] =>
    return ⟨← Tree.member? UpdateSection.ofTree? update, ← Tree.member? VfsChoice.ofTree? vfs⟩
  | _ => none

/-- Reads the file; other sections are not looked at. -/
def ofTree? (t : Tree) : Option SeaConfig := do
  match ← t.record? ["smol"] 0 with
  | [smol] => return (← Tree.member? sectionOfTree? smol).getD ⟨none, none⟩
  | _ => none

def parse (text : Bytes) : Except ConfigFault SeaConfig :=
  match (Tree.parse? text).bind ofTree? with
  | some c => .ok c
  | none => .error .rejected

end SeaConfig

/-- Refuses the first text that is longer than its field. -/
def checkLengths (group : String) : List Record.Field → List String → Except ConfigFault Unit
  | f :: fs, t :: ts =>
    if f.limit < Utf8.size t then .error (.tooLong group f.name (Utf8.size t) f.limit)
    else checkLengths group fs ts
  | _, _ => .ok ()

namespace UpdateSection

def answer (given : Option String) : Except ConfigFault Char :=
  match given with
  | none => .ok UpdateSettings.default.promptDefault
  | some s =>
    let s := s.map Char.toLower
    if s = "y" ∨ s = "yes" then .ok 'y'
    else if s = "n" ∨ s = "no" then .ok 'n'
    else .error (.promptDefault s)

/-- An interval, which must not be negative. -/
def intervalOr (name : String) (default : Int64) (given : Option Int64) :
    Except ConfigFault Int64 :=
  match given with
  | none => .ok default
  | some n => if n < 0 then .error (.negative name) else .ok n

/-- An empty address or one of the web. -/
def isUrl (url : String) : Bool :=
  url.isEmpty || "http://".toList.isPrefixOf url.toList || "https://".toList.isPrefixOf url.toList

/-- The settings that the section describes over the defaults; the first fault is reported. -/
def settings (s : UpdateSection) : Except ConfigFault UpdateSettings := do
  let d := UpdateSettings.default
  let promptDefault ← answer s.promptDefault
  let interval ← intervalOr "interval" d.interval s.interval
  let notifyInterval ← intervalOr "notifyInterval" d.notifyInterval s.notifyInterval
  let u : UpdateSettings := {
    prompt := s.prompt.getD d.prompt
    promptDefault
    interval
    notifyInterval
    binname := s.binname.getD d.binname
    command := s.command.getD d.command
    url := s.url.getD d.url
    tag := s.tag.getD d.tag
    skipEnv := s.skipEnv.getD d.skipEnv
    fakeArgvEnv := s.fakeArgvEnv.getD d.fakeArgvEnv }
  if !isUrl u.url then throw .urlScheme
  checkLengths "smol.update" UpdateSettings.layout.fields u.texts
  return u

end UpdateSection

namespace VfsSection

/-- The settings that the object describes: node modules in memory, unless it says otherwise. -/
def settings (s : VfsSection) : Except ConfigFault VfsSettings := do
  let v : VfsSettings := {
    mode := s.mode.getD "in-memory"
    source := s.source.getD "node_modules"
    mount := s.mount.getD VfsSettings.default.mount }
  if !vfsModes.contains v.mode then throw (.mode v.mode)
  checkLengths "smol.vfs" VfsSettings.layout.fields v.texts
  return v

end VfsSection

namespace SeaConfig

/-- The update settings, if the file has the section. -/
def updateSettings (c : SeaConfig) : Except ConfigFault (Option UpdateSettings) :=
  match c.update with
  | none => .ok none
  | some s => s.settings.map some

/-- The file-system settings, unless they are absent or switched off. -/
def vfsSettings (c : SeaConfig) : Except ConfigFault (Option VfsSettings) :=
  match c.vfs with
  | none | some (.enabled false) => .ok none
  | some (.enabled true) => (VfsSection.settings ⟨none, none, none⟩).map some
  | some (.options s) => s.settings.map some

/-- The record of the update settings, which must be there. -/
def updateRecord (c : SeaConfig) : Except ConfigFault Bytes := do
  match ← c.updateSettings with
  | some u => return u.encode
  | none => throw .noUpdate

/-- The record of the file-system settings, which must be there. -/
def vfsRecord (c : SeaConfig) : Except ConfigFault Bytes := do
  match ← c.vfsSettings with
  | some v => return v.encode
  | none => throw .noVfs

end SeaConfig

end SelfExtract
