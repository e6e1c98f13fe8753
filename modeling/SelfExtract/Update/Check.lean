import SelfExtract.Cache
import SelfExtract.Update.Pattern
import SelfExtract.Update.Version

/-!
# Looking for releases at a launch

When a look-up is due, the newest release is asked for, and a newer version is
noted and announced unless an announcement was made shortly before. Between
look-ups a version that is already noted is announced again from time to time.
An announcement may lead to a question, and a yes to the update command.
-/
namespace SelfExtract

inductive UpdateEvent where
  | notify (current latest : String)
  | confirm (latest : String)
  | runUpdate
  deriving DecidableEq, Repr

inductive UpdateOutcome where
  | idle
  /-- A look-up was made; it has found this newer version. -/
  | checked (newer : Option String)
  /-- A version was announced again. -/
  | reminded (latest : String)
  deriving DecidableEq, Repr

structure UpdateContext where
  cache : Cache
  key : String
  /-- The version that runs. -/
  current : String
  now : Int64
  pid : Nat
  /-- The tag of the newest release, as far as it is known. -/
  release : Option String
  /-- What the user answers when asked. -/
  answer : Bool

namespace UpdateContext

def announce (x : UpdateContext) (u : UpdateSettings) (latest : String) : List UpdateEvent :=
  .notify x.current latest ::
    if u.prompt then .confirm latest :: (if x.answer then [.runUpdate] else []) else []

def isNewer (x : UpdateContext) (version : String) : Bool :=
  Version.compare version x.current = .gt

/-- The version of the newest release, if it is newer than the one that runs. -/
def newerRelease (x : UpdateContext) (u : UpdateSettings) : Option String :=
  (x.release.map fun tag =>
    String.ofList (Pattern.versionIn u.tag.toList tag.toList)).filter x.isNewer

def remind (x : UpdateContext) (u : UpdateSettings) (s : UpdateState) :
    Proc (List UpdateEvent × Except Fault UpdateOutcome) := do
  let latest := s.latestKnown
  if latest.isEmpty || !s.isNoticeDue u x.now || !x.isNewer latest then return ([], .ok .idle)
  else
    let r ← x.cache.writeState x.pid x.key { s with lastNotification := x.now }
    return (x.announce u latest, r.map fun _ => .reminded latest)

/-- The events of a look-up and the state after it. -/
def afterLookup (x : UpdateContext) (u : UpdateSettings) (s : UpdateState) :
    List UpdateEvent × UpdateState :=
  let s := { s with lastCheck := x.now }
  match x.newerRelease u with
  | none => ([], s)
  | some latest =>
    let s := { s with latestKnown := latest }
    if s.isNoticeDue u x.now then (x.announce u latest, { s with lastNotification := x.now })
    else ([], s)

def check (x : UpdateContext) (u : UpdateSettings) :
    Proc (List UpdateEvent × Except Fault UpdateOutcome) := do
  let s ← x.cache.readState x.key
  if !s.isCheckDue u x.now then x.remind u s
  else
    let (events, s) := x.afterLookup u s
    let r ← x.cache.writeState x.pid x.key s
    return (events, r.map fun _ => .checked (x.newerRelease u))

end UpdateContext

end SelfExtract
