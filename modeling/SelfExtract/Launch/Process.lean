import SelfExtract.Arguments
import SelfExtract.Cache.Root
import SelfExtract.Extract
import SelfExtract.Terminal
import SelfExtract.Update.Override

/-!
# Launching a wrapped program

The launcher finds itself, extracts its program, looks for a release when that
is due, and then the program takes its place. Trouble with the look-up never
stops a launch.
-/
namespace SelfExtract

structure Launch where
  /-- The arguments without the name. -/
  arguments : List Bytes
  /-- The name by which the launcher was called. -/
  called : Option Bytes
  /-- The path of the running program as the system tells it. -/
  system : Except String Path
  environment : Environment
  /-- The tag of the newest release, as far as it is known. -/
  release : Option String
  /-- The time in milliseconds. -/
  now : Nat
  pid : Nat

structure Handover where
  program : Path
  arguments : List Bytes
  environment : Environment
  deriving DecidableEq, Repr

structure Announcements where
  settings : UpdateSettings
  events : List UpdateEvent
  deriving DecidableEq, Repr

namespace Launch

def launcher (l : Launch) : Except LaunchFault Path :=
  (Arguments.selfPath (l.environment.text? "SOCKET_SMOL_STUB_PATH") l.system l.called).mapError
    .selfPath

def extraction (z : Compression) (l : Launch) : Extract.Extraction where
  codec := .standard z
  root := (CachePlaces.ofEnvironment l.environment).root
  pid := l.pid
  now := UInt64.ofNat l.now

def embedded (p : Extract.Prepared) : Option UpdateSettings :=
  p.metadata.settings.bind (·.update?)

/-- The settings under which this launch looks for releases, if it does. -/
def updateSettings (l : Launch) (t : Terminal) (p : Extract.Prepared) : Option UpdateSettings :=
  (resolveSettings (embedded p) (Arguments.override? l.arguments)).filter fun u =>
    !l.environment.forbidsUpdate u t.interactive

/-- A time that fits sixty-four bits with a sign. -/
def clamp (n : Nat) : Int64 :=
  Int64.ofNat (min n (2 ^ 63 - 1))

def lookForRelease (l : Launch) (t : Terminal) (p : Extract.Prepared) :
    Proc (Option Announcements) := do
  match l.updateSettings t p with
  | none => return none
  | some u =>
    let x : UpdateContext := {
      cache := p.cache
      key := p.metadata.keyText
      current := Version.own
      now := clamp l.now
      pid := l.pid
      release := l.release
      answer := t.answer u }
    return some ⟨u, (← x.check u).1⟩

def handover (l : Launch) (launcher : Path) (p : Extract.Prepared) : Handover where
  program := p.binary
  arguments := Arguments.forwarded l.arguments
  environment := l.environment.setAll
    (Arguments.childVariables launcher p.metadata.keyText ((embedded p).map (·.fakeArgvEnv))
      l.environment)

def proceed (z : Compression) (l : Launch) (t : Terminal) (launcher : Path) :
    Proc (Except LaunchFault (Option Announcements × Handover)) := do
  let (prepared, _) ← Extract.prepare (l.extraction z) none launcher
  match prepared with
  | .error e => return .error e
  | .ok p =>
    let announcements ← l.lookForRelease t p
    return .ok (announcements, l.handover launcher p)

/-- The terminal after the announcements. -/
def announce (fs : FileSystem) (e : Environment) (launcher : Path) (t : Terminal) :
    Option Announcements → Terminal
  | none => t
  | some a => a.events.foldl (Terminal.play fs e launcher a.settings) t

/-- The terminal and the status after a launch that has failed. -/
def failed (t : Terminal) (e : LaunchFault) : Terminal × Nat :=
  (t.display ("error: " ++ e.message ++ "\n"), 1)

/-- The terminal and the status when the wrapped program has ended. -/
def replace (fs : FileSystem) (t : Terminal) (h : Handover) : Terminal × Nat :=
  match fs.execute true h.program h.arguments h.environment with
  | .ok ended => (t.absorb ended, ended.status)
  | .error e => failed t (.exec h.program e)

/-- A whole launch: the terminal and the status at its end, and the file system. -/
def process (z : Compression) (l : Launch) (t : Terminal) (fs : FileSystem) :
    (Terminal × Nat) × FileSystem :=
  match l.launcher with
  | .error e => (failed t e, fs)
  | .ok launcher =>
    let (r, fs) := (l.proceed z t launcher).run fs
    match r with
    | .error e => (failed t e, fs)
    | .ok (announcements, h) =>
      (replace fs (announce fs l.environment launcher t announcements) h, fs)

end Launch

end SelfExtract
