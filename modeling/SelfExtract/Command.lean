import SelfExtract.Codec
import SelfExtract.Command.Grammar
import SelfExtract.Settings
import SelfExtract.Update.Version

/-!
# Commands of the user

What can be asked of the program and how it is written on the command line.
-/
namespace SelfExtract

structure PressOptions where
  program : Path
  carrier : Path
  output : Path
  /-- The sea-config file whose update settings are embedded. -/
  config : Option Path
  /-- How hard the compressor is to try. -/
  level : Int
  /-- Parts of the target that are not taken from the carrier. -/
  os : Option Os
  arch : Option Arch
  libc : Option Libc
  deriving DecidableEq, Repr

inductive Command where
  /-- Presses a program into a carrier. -/
  | press (o : PressOptions)
  /-- Reports on a file. -/
  | inspect (file : Path) (settings : Settings.Kind) (json : Bool)
  /-- Restores the program of a pressed file. -/
  | unpress (file output : Path)
  /-- Writes the record of settings to a file. -/
  | record (settings : Settings.Kind) (config output : Path)
  /-- Shows where the cache is. -/
  | cacheDirectory
  /-- Shows the sidecar of an entry. -/
  | cacheEntry (key : String)
  deriving DecidableEq, Repr

namespace Command

/-- A switch that may be given once. -/
def switchOnce (name : String) (old : Bool) : Except Stop Bool :=
  if old then .error (.fault (.repeated name)) else .ok true

/-- An operand where none is expected. -/
def noOperand (b : Bytes) (_ : σ) : Except Stop σ :=
  .error (.fault (.unexpected b))

/-- An operand that may be given once. -/
def oneOperand (old : Option α) (b : Bytes) (new : Except Stop α) : Except Stop (Option α) :=
  if old.isSome then .error (.fault (.unexpected b)) else new.map some

structure PressDraft where
  program : Option Path
  carrier : Option Path
  output : Option Path
  config : Option Path
  level : Option Int
  os : Option Os
  arch : Option Arch
  libc : Option Libc

def outputOption (get : σ → Option Path) (set : Option Path → σ → σ) : OptionRule σ :=
  ⟨"output", some 'o', .value fun b s => do
    return set (← once "output" (get s) (← pathValue "output" b)) s⟩

def pressGrammar : Grammar PressDraft where
  options := [
    .help,
    ⟨"stub", none, .value fun b s => do
      return { s with carrier := ← once "stub" s.carrier (← pathValue "stub" b) }⟩,
    outputOption (·.output) fun p s => { s with output := p },
    ⟨"config", none, .value fun b s => do
      return { s with config := ← once "config" s.config (← pathValue "config" b) }⟩,
    ⟨"level", none, .value fun b s => do
      return { s with level := ← once "level" s.level (← textValue Value.level "level" b) }⟩,
    ⟨"platform", none, .value fun b s => do
      return { s with os := ← once "platform" s.os (← textValue Value.os "platform" b) }⟩,
    ⟨"arch", none, .value fun b s => do
      return { s with arch := ← once "arch" s.arch (← textValue Value.arch "arch" b) }⟩,
    ⟨"libc", none, .value fun b s => do
      return { s with libc := ← once "libc" s.libc (← textValue Value.libc "libc" b) }⟩]
  operand b s := do
    return { s with program := ← oneOperand s.program b (pathValue "input" b) }

def readPress (args : List Bytes) : Except Stop Command := do
  let s ← pressGrammar.read ⟨none, none, none, none, none, none, none, none⟩ args
  return .press {
    program := ← needed "input" s.program
    carrier := ← needed "--stub" s.carrier
    output := ← needed "--output" s.output
    config := s.config
    level := s.level.getD Codec.defaultLevel
    os := s.os
    arch := s.arch
    libc := s.libc }

structure InspectDraft where
  file : Option Path
  vfs : Bool
  json : Bool

def inspectGrammar : Grammar InspectDraft where
  options := [
    .help,
    ⟨"vfs", none, .switch fun s => do return { s with vfs := ← switchOnce "vfs" s.vfs }⟩,
    ⟨"json", none, .switch fun s => do return { s with json := ← switchOnce "json" s.json }⟩]
  operand b s := do
    return { s with file := ← oneOperand s.file b (pathValue "file" b) }

def readInspect (args : List Bytes) : Except Stop Command := do
  let s ← inspectGrammar.read ⟨none, false, false⟩ args
  return .inspect (← needed "file" s.file) (if s.vfs then .vfs else .update) s.json

structure FilesDraft where
  file : Option Path
  output : Option Path

def unpressGrammar : Grammar FilesDraft where
  options := [.help, outputOption (·.output) fun p s => { s with output := p }]
  operand b s := do
    return { s with file := ← oneOperand s.file b (pathValue "file" b) }

def readUnpress (args : List Bytes) : Except Stop Command := do
  let s ← unpressGrammar.read ⟨none, none⟩ args
  return .unpress (← needed "file" s.file) (← needed "--output" s.output)

def recordGrammar : Grammar FilesDraft where
  options := [
    .help,
    ⟨"config", none, .value fun b s => do
      return { s with file := ← once "config" s.file (← pathValue "config" b) }⟩,
    outputOption (·.output) fun p s => { s with output := p }]
  operand := noOperand

def readRecord (kind : Settings.Kind) (args : List Bytes) : Except Stop Command := do
  let s ← recordGrammar.read ⟨none, none⟩ args
  return .record kind (← needed "--config" s.file) (← needed "--output" s.output)

/-- A command to show where the cache is. -/
def readCacheDirectory (args : List Bytes) : Except Stop Command := do
  discard (Grammar.read ⟨[.help], noOperand⟩ () args)
  return .cacheDirectory

def cacheEntryGrammar : Grammar (Option String) where
  options := [.help]
  operand b s := oneOperand s b (textValue Value.key "key" b)

def readCacheEntry (args : List Bytes) : Except Stop Command := do
  return .cacheEntry (← needed "key" (← cacheEntryGrammar.read none args))

def helpWord : String := "help"

/-- A choice among commands by the first argument. Only the given options may stand before it. -/
def choose (options : List (OptionRule Unit))
    (commands : List (String × (List Bytes → Except Stop Command))) :
    List Bytes → Except Stop Command
  | [] => .error (.fault .noCommand)
  | arg :: r => do
    match Word.ofArgument arg with
    | .operand name =>
      match commands.find? fun c => Utf8.encode c.1 == name with
      | some (_, read) => read r
      | none => .error (.fault (.unknownCommand name))
    | _ =>
      discard (Grammar.read ⟨options, noOperand⟩ () [arg])
      .error (.fault .noCommand)

def helpOn (commands : List (List String)) (args : List Bytes) : Except Stop Command :=
  if commands.any fun c => c.map Utf8.encode == args then .error .help
  else .error (.fault (.unknownCommand (args.headD [])))

def readConfig : List Bytes → Except Stop Command :=
  choose [.help] [
    ("smfg", readRecord .update),
    ("svfg", readRecord .vfs),
    (helpWord, helpOn [[], ["smfg"], ["svfg"], [helpWord]])]

def readCache : List Bytes → Except Stop Command :=
  choose [.help] [
    ("dir", readCacheDirectory),
    ("show", readCacheEntry),
    (helpWord, helpOn [[], ["dir"], ["show"], [helpWord]])]

def helpTopics : List (List String) :=
  [[], ["press"], ["inspect"], ["unpress"], ["config"], ["config", "smfg"], ["config", "svfg"],
    ["config", helpWord], ["cache"], ["cache", "dir"], ["cache", "show"], ["cache", helpWord],
    [helpWord]]

def programName : String := "smolpress"

def usage : List String :=
  ["Usage: " ++ programName ++ " <COMMAND>", "",
    "  press INPUT --stub PATH -o PATH [--config PATH] [--level N]",
    "        [--platform OS] [--arch ARCH] [--libc LIBC]",
    "  inspect FILE [--vfs] [--json]",
    "  unpress FILE -o PATH",
    "  config smfg|svfg --config PATH -o PATH",
    "  cache dir",
    "  cache show KEY"]

def versionLine : String :=
  programName ++ " " ++ Version.own

/-- Reads a command line without the name of the program. -/
def read : List Bytes → Except Stop Command :=
  choose [.help, ⟨"version", some 'V', .switch fun _ => .error .version⟩] [
    ("press", readPress),
    ("inspect", readInspect),
    ("unpress", readUnpress),
    ("config", readConfig),
    ("cache", readCache),
    (helpWord, helpOn helpTopics)]

end Command

end SelfExtract
