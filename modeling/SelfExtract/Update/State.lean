import SelfExtract.Settings

/-!
# When to look for releases and when to announce one

The state of the last look-up is kept with the cache entry. Differences of
times are clamped to sixty-four bits, so that no clock overflows.
-/
namespace SelfExtract

structure UpdateState where
  lastCheck : Int64
  lastNotification : Int64
  /-- The newest version seen so far, or nothing. -/
  latestKnown : String
  deriving DecidableEq, Repr

namespace UpdateState

def initial : UpdateState :=
  ⟨0, 0, ""⟩

/-- The time since `earlier`, clamped to sixty-four bits. -/
def elapsed (now earlier : Int64) : Int :=
  max (-2 ^ 63) (min (2 ^ 63 - 1) (now.toInt - earlier.toInt))

def isCheckDue (s : UpdateState) (u : UpdateSettings) (now : Int64) : Bool :=
  u.interval.toInt ≤ elapsed now s.lastCheck

def isNoticeDue (s : UpdateState) (u : UpdateSettings) (now : Int64) : Bool :=
  u.notifyInterval.toInt ≤ elapsed now s.lastNotification

end UpdateState

end SelfExtract
