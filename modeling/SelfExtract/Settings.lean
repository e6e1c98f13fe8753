import SelfExtract.Record

/-!
# Settings embedded with a payload

Either how a program looks for newer releases of itself, or where a program
finds its packed file system. A file does not say which of the two it carries;
writer and reader agree on it. Whatever is not a record of the expected kind
counts as no settings.
-/
namespace SelfExtract

structure UpdateSettings where
  /-- Ask before the update command is run. -/
  prompt : Bool
  /-- The answer that an empty line gives. -/
  promptDefault : Char
  /-- Least time between two look-ups, in milliseconds. -/
  interval : Int64
  /-- Least time between two announcements, in milliseconds. -/
  notifyInterval : Int64
  /-- The program's name in announcements. -/
  binname : String
  /-- The command that updates the program. -/
  command : String
  /-- Where releases are listed. -/
  url : String
  /-- Pattern of the tags of releases. -/
  tag : String
  /-- Environment variable that switches look-ups off. -/
  skipEnv : String
  /-- Environment variable by which the program learns its invoked name. -/
  fakeArgvEnv : String
  deriving DecidableEq, Repr

def dayMillis : Int64 := 86400000

/-- No prompt, once a day. -/
def UpdateSettings.default : UpdateSettings where
  prompt := false
  promptDefault := 'n'
  interval := dayMillis
  notifyInterval := dayMillis
  binname := ""
  command := "self-update"
  url := ""
  tag := ""
  skipEnv := ""
  fakeArgvEnv := "SMOL_FAKE_ARGV"

structure VfsSettings where
  /-- `on-disk`, `in-memory` or `compat`. -/
  mode : String
  /-- The archive. -/
  source : String
  /-- Where the program sees it. -/
  mount : String
  deriving DecidableEq, Repr

/-- On disk, under `/snapshot`. -/
def VfsSettings.default : VfsSettings where
  mode := "on-disk"
  source := ""
  mount := "/snapshot"

inductive Settings where
  | update (u : UpdateSettings)
  | vfs (v : VfsSettings)
  deriving DecidableEq, Repr

inductive Settings.Kind where
  | update
  | vfs
  deriving DecidableEq, Repr

open Record

/-- The record of update settings: magic `SMFG`, eighteen header bytes, six texts. -/
def UpdateSettings.layout : Layout where
  magic := 0x534D4647
  version := 1
  headerSize := 18
  fields := [⟨"binname", 1, 127⟩, ⟨"command", 2, 254⟩, ⟨"url", 2, 510⟩, ⟨"tag", 1, 127⟩,
    ⟨"skip_env", 1, 63⟩, ⟨"fake_argv_env", 1, 63⟩]

/-- The record of file-system settings: magic `SVFG`, two unused header bytes, three texts. -/
def VfsSettings.layout : Layout where
  magic := 0x53564647
  version := 1
  headerSize := 2
  fields := [⟨"mode", 2, 32⟩, ⟨"source", 2, 256⟩, ⟨"prefix", 2, 64⟩]

example : UpdateSettings.layout.size = 1176 := by decide
example : VfsSettings.layout.size = 366 := by decide

namespace UpdateSettings

/-- The two answers that are stored: `y` in either case, and `n` for all else. -/
def storedAnswer (c : Char) : Char :=
  if c = 'y' ∨ c = 'Y' then 'y' else 'n'

/-- The header bytes: prompt, its default and the two intervals. -/
def header (u : UpdateSettings) : Bytes :=
  [if u.prompt then 1 else 0, UInt8.ofNat (storedAnswer u.promptDefault).toNat] ++
    Bytes.ofNatLE 8 u.interval.toUInt64.toNat ++ Bytes.ofNatLE 8 u.notifyInterval.toUInt64.toNat

def texts (u : UpdateSettings) : List String :=
  [u.binname, u.command, u.url, u.tag, u.skipEnv, u.fakeArgvEnv]

/-- A number of eight bytes in two's complement. -/
def interval? (b : Bytes) : Int64 :=
  (UInt64.ofNat b.natLE).toInt64

def ofParts? (header : Bytes) : List String → Option UpdateSettings
  | [binname, command, url, tag, skipEnv, fakeArgvEnv] => some {
      prompt := header.head? != some 0
      promptDefault := storedAnswer (Char.ofNat (Bytes.natLE ((header.drop 1).take 1)))
      interval := interval? ((header.drop 2).take 8)
      notifyInterval := interval? ((header.drop 10).take 8)
      binname, command, url, tag, skipEnv, fakeArgvEnv }
  | _ => none

def encode (u : UpdateSettings) : Bytes :=
  layout.encode u.header u.texts

def decode? (b : Bytes) : Option UpdateSettings := do
  let (header, texts) ← layout.decode? b
  ofParts? header texts

end UpdateSettings

namespace VfsSettings

def texts (v : VfsSettings) : List String :=
  [v.mode, v.source, v.mount]

def ofTexts? : List String → Option VfsSettings
  | [mode, source, mount] => some { mode, source, mount }
  | _ => none

def encode (v : VfsSettings) : Bytes :=
  layout.encode [0, 0] v.texts

def decode? (b : Bytes) : Option VfsSettings := do
  let (_, texts) ← layout.decode? b
  ofTexts? texts

end VfsSettings

namespace Settings

def kind : Settings → Kind
  | .update _ => .update
  | .vfs _ => .vfs

def Kind.layout : Kind → Layout
  | .update => UpdateSettings.layout
  | .vfs => VfsSettings.layout

def encode : Settings → Bytes
  | .update u => u.encode
  | .vfs v => v.encode

def decode? (k : Kind) (b : Bytes) : Option Settings :=
  match k with
  | .update => (UpdateSettings.decode? b).map .update
  | .vfs => (VfsSettings.decode? b).map .vfs

/-- The update settings, if these are such. -/
def update? : Settings → Option UpdateSettings
  | .update u => some u
  | .vfs _ => none

end Settings

end SelfExtract
