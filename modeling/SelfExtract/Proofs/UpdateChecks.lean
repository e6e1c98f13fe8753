import SelfExtract.Proofs.SidecarWrites
import SelfExtract.Update.Check

/-!
# Launch after launch

What a launch does about updates is told by the noted state alone, and the
state that it leaves is noted for the next one. Over any course of launches
announcements and look-ups keep their distances, each by its own clock in the
state.
-/
namespace SelfExtract

open FileSystem

/-! ### One launch -/

section Intervals

variable {u : UpdateSettings} {σ : UpdateState} {now : Int64}

theorem sub_of_elapsed {i : Int} {earlier : Int64} (hi : 0 ≤ i)
    (h : i ≤ UpdateState.elapsed now earlier) : i ≤ now.toInt - earlier.toInt := by
  rw [UpdateState.elapsed] at h
  omega

theorem UpdateState.le_of_isCheckDue (hi : 0 ≤ u.interval.toInt)
    (h : σ.isCheckDue u now = true) : u.interval.toInt ≤ now.toInt - σ.lastCheck.toInt :=
  sub_of_elapsed hi (of_decide_eq_true h)

theorem UpdateState.le_of_isNoticeDue (hi : 0 ≤ u.notifyInterval.toInt)
    (h : σ.isNoticeDue u now = true) :
    u.notifyInterval.toInt ≤ now.toInt - σ.lastNotification.toInt :=
  sub_of_elapsed hi (of_decide_eq_true h)

end Intervals

namespace UpdateContext

variable {x : UpdateContext} {u : UpdateSettings} {σ σ' : UpdateState} {events : List UpdateEvent}
  {outcome : UpdateOutcome} {fs fs₁ : FileSystem} {s : Sidecar}

inductive Turn (x : UpdateContext) (u : UpdateSettings) (σ : UpdateState) :
    List UpdateEvent → UpdateOutcome → UpdateState → Prop
  | idle (hcheck : σ.isCheckDue u x.now = false)
      (hnotice : (σ.latestKnown.isEmpty || !σ.isNoticeDue u x.now || !x.isNewer σ.latestKnown) =
        true) :
      Turn x u σ [] .idle σ
  | reminded (hcheck : σ.isCheckDue u x.now = false) (hnotice : σ.isNoticeDue u x.now = true)
      (hknown : σ.latestKnown.isEmpty = false) (hnewer : x.isNewer σ.latestKnown = true) :
      Turn x u σ (x.announce u σ.latestKnown) (.reminded σ.latestKnown)
        { σ with lastNotification := x.now }
  | current (hcheck : σ.isCheckDue u x.now = true) (hrelease : x.newerRelease u = none) :
      Turn x u σ [] (.checked none) { σ with lastCheck := x.now }
  | quiet {latest : String} (hcheck : σ.isCheckDue u x.now = true)
      (hrelease : x.newerRelease u = some latest) (hnotice : σ.isNoticeDue u x.now = false) :
      Turn x u σ [] (.checked (some latest))
        { σ with lastCheck := x.now, latestKnown := latest }
  | announced {latest : String} (hcheck : σ.isCheckDue u x.now = true)
      (hrelease : x.newerRelease u = some latest) (hnotice : σ.isNoticeDue u x.now = true) :
      Turn x u σ (x.announce u latest) (.checked (some latest))
        ⟨x.now, x.now, latest⟩

theorem afterLookup_none (h : x.newerRelease u = none) :
    x.afterLookup u σ = ([], { σ with lastCheck := x.now }) := by
  rw [afterLookup, h]

theorem afterLookup_some {latest : String} (h : x.newerRelease u = some latest) :
    x.afterLookup u σ = if σ.isNoticeDue u x.now then (x.announce u latest, ⟨x.now, x.now, latest⟩)
      else ([], { σ with lastCheck := x.now, latestKnown := latest }) := by
  rw [afterLookup, h]
  rfl

/-- There is a turn for every state. -/
theorem exists_turn (x : UpdateContext) (u : UpdateSettings) (σ : UpdateState) :
    ∃ events outcome σ', x.Turn u σ events outcome σ' := by
  cases hcheck : σ.isCheckDue u x.now with
  | false =>
    by_cases hnotice : (σ.latestKnown.isEmpty || !σ.isNoticeDue u x.now ||
        !x.isNewer σ.latestKnown) = true
    · exact ⟨_, _, _, .idle hcheck hnotice⟩
    · simp only [Bool.or_eq_true, Bool.not_eq_true', not_or, Bool.not_eq_false,
        Bool.not_eq_true] at hnotice
      obtain ⟨⟨hknown, hdue⟩, hnewer⟩ := hnotice
      exact ⟨_, _, _, .reminded hcheck hdue hknown hnewer⟩
  | true =>
    cases hrelease : x.newerRelease u with
    | none => exact ⟨_, _, _, .current hcheck hrelease⟩
    | some latest =>
      cases hnotice : σ.isNoticeDue u x.now with
      | false => exact ⟨_, _, _, .quiet hcheck hrelease hnotice⟩
      | true => exact ⟨_, _, _, .announced hcheck hrelease hnotice⟩

/-- A state is noted and something is reported then. -/
theorem run_noting (seen : List UpdateEvent) (done : UpdateOutcome) (fs : FileSystem) :
    (do
      let r ← x.cache.writeState x.pid x.key σ
      return (seen, r.map fun _ => done) : Proc (List UpdateEvent × Except Fault UpdateOutcome)).run
        fs = ((seen, ((x.cache.writeState x.pid x.key σ).run fs).1.map fun _ => done),
          ((x.cache.writeState x.pid x.key σ).run fs).2) := by
  rw [Proc.run_bind]
  rfl

/-- A launch takes its turn on the noted state, and what it leaves is noted unless it is idle. -/
theorem Turn.run_check (hreads : x.cache.Reads x.key fs s)
    (h : x.Turn u (s.update.getD .initial) events outcome σ) :
    (x.check u).run fs =
      if outcome = .idle then ((events, .ok outcome), fs)
      else ((events, ((x.cache.writeState x.pid x.key σ).run fs).1.map fun _ => outcome),
        ((x.cache.writeState x.pid x.key σ).run fs).2) := by
  rw [check, Proc.run_bind, Cache.run_readState hreads]
  generalize s.update.getD .initial = σ₀ at h
  cases h with
  | idle hcheck hnotice =>
    simp only [hcheck, Bool.not_false, if_true, remind, hnotice]
    rfl
  | reminded hcheck hnotice hknown hnewer =>
    simp only [hcheck, Bool.not_false, if_true, remind, hnotice, hknown, hnewer, Bool.not_true,
      Bool.or_false, Bool.false_eq_true, if_false, reduceCtorEq]
    exact run_noting ..
  | current hcheck hrelease =>
    simp only [hcheck, Bool.not_true, Bool.false_eq_true, if_false, afterLookup_none hrelease,
      hrelease, reduceCtorEq]
    exact run_noting ..
  | quiet hcheck hrelease hnotice =>
    simp only [hcheck, Bool.not_true, Bool.false_eq_true, if_false, afterLookup_some hrelease,
      hrelease, hnotice, reduceCtorEq]
    exact run_noting ..
  | announced hcheck hrelease hnotice =>
    simp only [hcheck, Bool.not_true, Bool.false_eq_true, if_false, afterLookup_some hrelease,
      hrelease, hnotice, if_true, reduceCtorEq]
    exact run_noting ..

/-- A launch that succeeds has taken a turn, and the state that it leaves is noted. -/
theorem run_check_eq_ok (hreads : x.cache.Reads x.key fs s) :
    (x.check u).run fs = ((events, .ok outcome), fs₁) ↔
      ∃ σ, x.Turn u (s.update.getD .initial) events outcome σ ∧
        if outcome = .idle then fs₁ = fs
        else (x.cache.writeState x.pid x.key σ).run fs = (.ok (), fs₁) := by
  have hwritten : ∀ {seen : List UpdateEvent} {done : UpdateOutcome}
      {w : Except Fault Unit × FileSystem},
      ((seen, w.1.map fun _ => done), w.2) = ((events, .ok outcome), fs₁) ↔
        events = seen ∧ outcome = done ∧ w = (.ok (), fs₁) := by
    rintro seen done ⟨_ | ⟨⟨⟩⟩, fs₂⟩
    · simp [Except.map]
    · simp [Except.map, eq_comm, and_assoc]
  constructor
  · intro hrun
    obtain ⟨seen, done, σ, hturn⟩ := x.exists_turn u (s.update.getD .initial)
    rw [hturn.run_check hreads] at hrun
    split at hrun
    · next hidle =>
      cases hrun
      exact ⟨σ, hturn, by rw [if_pos hidle]⟩
    · next hbusy =>
      obtain ⟨rfl, rfl, hwrite⟩ := hwritten.mp hrun
      exact ⟨σ, hturn, by rw [if_neg hbusy, hwrite]⟩
  · rintro ⟨σ, hturn, hwrite⟩
    rw [hturn.run_check hreads]
    split at hwrite
    · next hidle => rw [if_pos hidle, hwrite]
    · next hbusy =>
      rw [if_neg hbusy]
      exact hwritten.mpr ⟨rfl, rfl, hwrite⟩

theorem isNewer_of_newerRelease {latest : String} (h : x.newerRelease u = some latest) :
    x.isNewer latest = true :=
  (Option.filter_eq_some_iff.mp h).2

/-! ### What is announced -/

def offered (x : UpdateContext) (u : UpdateSettings) (σ : UpdateState) : Option String :=
  if σ.isCheckDue u x.now then x.newerRelease u
  else if σ.latestKnown.isEmpty then none
  else (some σ.latestKnown).filter x.isNewer

theorem isNewer_of_offered {latest : String} (h : x.offered u σ = some latest) :
    x.isNewer latest = true := by
  rw [offered] at h
  split at h
  · exact isNewer_of_newerRelease h
  · split at h
    · cases h
    · obtain ⟨hlatest, hnewer⟩ := Option.filter_eq_some_iff.mp h
      exact hnewer

/-- What is announced is the version that the launch has to tell of, if an announcement is due. -/
theorem Turn.events_eq (h : x.Turn u σ events outcome σ') :
    events = if σ.isNoticeDue u x.now then (x.offered u σ).elim [] (x.announce u) else [] := by
  cases h with
  | idle hcheck hnotice =>
    simp only [offered, hcheck, Bool.false_eq_true, if_false]
    split
    · next hdue =>
      split
      · rfl
      · next hknown =>
        rw [Option.filter_some, if_neg (by simpa [hdue, hknown] using hnotice)]
        rfl
    · rfl
  | reminded hcheck hnotice hknown hnewer =>
    simp [offered, hcheck, hnotice, hknown, Option.filter_some, hnewer]
  | current hcheck hrelease => simp [offered, hcheck, hrelease]
  | quiet hcheck hrelease hnotice => simp [hnotice]
  | announced hcheck hrelease hnotice => simp [offered, hcheck, hrelease, hnotice]

theorem Turn.announced_or (h : x.Turn u σ events outcome σ') :
    events = [] ∨ ∃ latest, x.isNewer latest = true ∧ events = x.announce u latest := by
  rw [h.events_eq]
  split
  · cases hoffered : x.offered u σ with
    | none => exact .inl rfl
    | some latest => exact .inr ⟨latest, isNewer_of_offered hoffered, rfl⟩
  · exact .inl rfl

theorem notify_mem_announce {current version latest : String} :
    .notify current version ∈ x.announce u latest ↔ current = x.current ∧ version = latest := by
  cases hprompt : u.prompt <;> cases hanswer : x.answer <;> simp [announce, hprompt, hanswer]

/-- The command follows only a question that was answered with yes. -/
theorem announce_of_runUpdate {latest : String} (h : .runUpdate ∈ x.announce u latest) :
    u.prompt = true ∧ x.answer = true ∧
      x.announce u latest = [.notify x.current latest, .confirm latest, .runUpdate] := by
  cases hprompt : u.prompt <;> cases hanswer : x.answer <;> simp_all [announce]

end UpdateContext

/-! ### Times that keep a distance -/

/-- From one time to any later one it is at least `gap`. -/
def Spaced (gap : Int) (times : List Int) : Prop :=
  times.Pairwise fun a b => gap ≤ b - a

/-- A clock that stood at `last` stands at `last'`: nothing has happened, or one thing, not too
early. -/
def Ticks (gap : Int) (times : List Int) (last last' : Int) : Prop :=
  times = [] ∧ last' = last ∨ times = [last'] ∧ gap ≤ last' - last

theorem Ticks.spaced {gap last last' : Int} {times later : List Int}
    (h : Ticks gap times last last') (hgap : 0 ≤ gap) (hs : Spaced gap (last' :: later)) :
    Spaced gap (last :: (times ++ later)) := by
  obtain ⟨rfl, rfl⟩ | ⟨rfl, hfirst⟩ := h
  · exact hs
  · refine List.pairwise_cons.mpr ⟨List.forall_mem_cons.mpr ⟨hfirst, fun t ht => ?_⟩, hs⟩
    have hlater := (List.pairwise_cons.mp hs).1 t ht
    omega

/-! ### A course of launches -/

def UpdateEvent.isNotice : UpdateEvent → Bool
  | .notify _ _ => true
  | _ => false

def UpdateOutcome.isLookUp : UpdateOutcome → Bool
  | .checked _ => true
  | _ => false

structure Visit where
  context : UpdateContext
  events : List UpdateEvent
  outcome : UpdateOutcome
  before : FileSystem
  after : FileSystem

namespace Visit

def noticeTimes (v : Visit) : List Int :=
  (v.events.filter (·.isNotice)).map fun _ => v.context.now.toInt

def lookUpTimes (v : Visit) : List Int :=
  if v.outcome.isLookUp then [v.context.now.toInt] else []

end Visit

namespace UpdateContext.Turn

variable {x : UpdateContext} {u : UpdateSettings} {σ σ' : UpdateState} {events : List UpdateEvent}
  {outcome : UpdateOutcome} {fs fs₁ : FileSystem}

theorem filter_announce (x : UpdateContext) (u : UpdateSettings) (latest : String) :
    (x.announce u latest).filter (·.isNotice) = [.notify x.current latest] := by
  cases hprompt : u.prompt <;> cases hanswer : x.answer <;>
    simp [announce, hprompt, hanswer, UpdateEvent.isNotice]

theorem ticks_notices (hi : 0 ≤ u.notifyInterval.toInt) (h : x.Turn u σ events outcome σ') :
    Ticks u.notifyInterval.toInt (Visit.noticeTimes ⟨x, events, outcome, fs, fs₁⟩)
      σ.lastNotification.toInt σ'.lastNotification.toInt := by
  cases h with
  | idle | current | quiet => exact .inl ⟨rfl, rfl⟩
  | reminded _ hnotice | announced _ _ hnotice =>
    exact .inr ⟨by simp [Visit.noticeTimes, filter_announce],
      UpdateState.le_of_isNoticeDue hi hnotice⟩

theorem ticks_lookUps (hi : 0 ≤ u.interval.toInt) (h : x.Turn u σ events outcome σ') :
    Ticks u.interval.toInt (Visit.lookUpTimes ⟨x, events, outcome, fs, fs₁⟩)
      σ.lastCheck.toInt σ'.lastCheck.toInt := by
  cases h with
  | idle | reminded => exact .inl ⟨rfl, rfl⟩
  | current hcheck | quiet hcheck | announced hcheck =>
    exact .inr ⟨rfl, UpdateState.le_of_isCheckDue hi hcheck⟩

theorem isLookUp_eq (h : x.Turn u σ events outcome σ') :
    outcome.isLookUp = σ.isCheckDue u x.now := by
  cases h with
  | idle hcheck | reminded hcheck | current hcheck | quiet hcheck | announced hcheck =>
    rw [hcheck]
    rfl

theorem eq_of_idle (h : x.Turn u σ events .idle σ') : σ' = σ := by
  cases h with
  | idle => rfl

end UpdateContext.Turn

inductive Course (c : Cache) (key : String) (u : UpdateSettings) : FileSystem → List Visit → Prop
  | done {fs : FileSystem} : Course c key u fs []
  | visit {x : UpdateContext} {events : List UpdateEvent} {outcome : UpdateOutcome}
      {fs fs₁ : FileSystem} {visits : List Visit} (hcache : x.cache = c) (hkey : x.key = key)
      (hrun : (x.check u).run fs = ((events, .ok outcome), fs₁))
      (hrest : Course c key u fs₁ visits) :
      Course c key u fs (⟨x, events, outcome, fs, fs₁⟩ :: visits)

/-- What a launch does: it looks for releases when that is due, it announces what is newer when that
is due, and it changes nothing but the noted state. -/
structure Visit.Sound (c : Cache) (key : String) (u : UpdateSettings) (v : Visit) : Prop where
  newer : ∀ current latest, .notify current latest ∈ v.events →
    current = v.context.current ∧ Version.compare latest v.context.current = .gt
  command : .runUpdate ∈ v.events → u.prompt = true ∧ v.context.answer = true ∧
    ∃ latest, v.events = [.notify v.context.current latest, .confirm latest, .runUpdate]
  idle : v.outcome = .idle → v.after = v.before
  sidecar : ∃ s state, c.Reads key v.before s ∧ c.Reads key v.after { s with update := state } ∧
    v.outcome.isLookUp = (s.update.getD .initial).isCheckDue u v.context.now ∧
    v.events = if (s.update.getD .initial).isNoticeDue u v.context.now then
      (v.context.offered u (s.update.getD .initial)).elim [] (v.context.announce u) else []
  program : v.after.resolve false (c.binary key) = v.before.resolve false (c.binary key)

section Launches

variable {c : Cache} {key : String} {u : UpdateSettings} {fs fs₁ : FileSystem} {s : Sidecar}
  {x : UpdateContext} {events : List UpdateEvent} {outcome : UpdateOutcome} {visits : List Visit}

/-- One launch: the entry is as good as before, and both clocks have ticked. -/
theorem UpdateContext.visit_of_run (hreads : x.cache.Reads x.key fs s) (hexact : s.IsExact)
    (hlink : fs.LinkFree (Proc.temporary x.pid (x.cache.sidecar x.key)))
    (hrun : (x.check u).run fs = ((events, .ok outcome), fs₁)) :
    ∃ σ state, x.Turn u (s.update.getD .initial) events outcome σ ∧ state.getD .initial = σ ∧
      x.cache.Reads x.key fs₁ { s with update := state } ∧
      fs₁.resolve false (x.cache.binary x.key) = fs.resolve false (x.cache.binary x.key) ∧
      (outcome = .idle → fs₁ = fs) ∧
      ∀ pid, fs.LinkFree (Proc.temporary pid (x.cache.sidecar x.key)) →
        fs₁.LinkFree (Proc.temporary pid (x.cache.sidecar x.key)) := by
  obtain ⟨σ, hturn, hwrite⟩ := (run_check_eq_ok hreads).mp hrun
  by_cases hidle : outcome = .idle
  · subst hidle
    obtain rfl : fs₁ = fs := hwrite
    exact ⟨σ, s.update, hturn, hturn.eq_of_idle.symm, hreads, rfl, fun _ => rfl, fun _ h => h⟩
  · rw [if_neg hidle] at hwrite
    obtain ⟨d, hnoted⟩ := Cache.noted_of_ok hreads hexact hlink hwrite
    exact ⟨σ, some σ, hturn, rfl, hnoted.reads, hnoted.program, fun h => absurd h hidle,
      fun _ => hnoted.rewritten.linkFree (Cache.lastName_sidecar x.cache x.key)⟩

/-- Where the sidecar can be written a launch that is not idle notes its state, and the sidecar can
be written again. -/
theorem UpdateContext.Turn.exists_run_check {σ σ' : UpdateState} {d : Location}
    (hturn : x.Turn u σ events outcome σ') (hbusy : outcome ≠ .idle)
    (hreads : x.cache.Reads x.key fs s) (hexact : s.IsExact)
    (hw : fs.Writable x.pid (x.cache.sidecar x.key) d Cache.notesName)
    (hstate : s.update.getD .initial = σ) :
    ∃ fs₁ d₁, (x.check u).run fs = ((events, .ok outcome), fs₁) ∧
      x.cache.Reads x.key fs₁ { s with update := some σ' } ∧
      fs₁.Writable x.pid (x.cache.sidecar x.key) d₁ Cache.notesName := by
  subst hstate
  obtain ⟨fs₁, hwrite⟩ := Cache.exists_run_writeState σ' hreads hw
  obtain ⟨d₁, hnoted⟩ := Cache.noted_of_ok hreads hexact hw.linkFree hwrite
  refine ⟨fs₁, d₁, (run_check_eq_ok hreads).mpr ⟨σ', hturn, ?_⟩, hnoted.reads,
    hnoted.rewritten.after⟩
  rw [if_neg hbusy]
  exact hwrite

theorem UpdateContext.sound_of_turn {σ : UpdateState} {state : Option UpdateState}
    (hreads : x.cache.Reads x.key fs s)
    (hturn : x.Turn u (s.update.getD .initial) events outcome σ)
    (hafter : x.cache.Reads x.key fs₁ { s with update := state })
    (hprogram : fs₁.resolve false (x.cache.binary x.key) = fs.resolve false (x.cache.binary x.key))
    (hidle : outcome = .idle → fs₁ = fs) :
    Visit.Sound x.cache x.key u ⟨x, events, outcome, fs, fs₁⟩ where
  newer := by
    intro current latest hmem
    obtain rfl | ⟨version, hnewer, rfl⟩ := hturn.announced_or
    · cases hmem
    · obtain ⟨rfl, rfl⟩ := notify_mem_announce.mp hmem
      exact ⟨rfl, of_decide_eq_true hnewer⟩
  command := by
    intro hmem
    obtain rfl | ⟨version, hnewer, rfl⟩ := hturn.announced_or
    · cases hmem
    · obtain ⟨hprompt, hanswer, hevents⟩ := announce_of_runUpdate hmem
      exact ⟨hprompt, hanswer, version, hevents⟩
  idle := hidle
  sidecar := ⟨s, state, hreads, hafter, hturn.isLookUp_eq, hturn.events_eq⟩
  program := hprogram

/-- Over a course of launches each does what it should, and announcements and look-ups keep their
distances from those before. -/
theorem Course.spaced (hcourse : Course c key u fs visits) (hreads : c.Reads key fs s)
    (hexact : s.IsExact) (hcheck : 0 ≤ u.interval.toInt) (hnotice : 0 ≤ u.notifyInterval.toInt)
    (hlinks : ∀ v ∈ visits, fs.LinkFree (Proc.temporary v.context.pid (c.sidecar key))) :
    (∀ v ∈ visits, v.Sound c key u) ∧
    Spaced u.notifyInterval.toInt ((s.update.getD .initial).lastNotification.toInt ::
      visits.flatMap Visit.noticeTimes) ∧
    Spaced u.interval.toInt ((s.update.getD .initial).lastCheck.toInt ::
      visits.flatMap Visit.lookUpTimes) := by
  -- the noted times stand in front of the lists: they are what the next launch measures from
  induction hcourse generalizing s with
  | done => exact ⟨nofun, List.pairwise_singleton _ _, List.pairwise_singleton _ _⟩
  | visit hcache hkey hrun hrest ih =>
    subst hcache hkey
    obtain ⟨hlink, hlinks⟩ := List.forall_mem_cons.mp hlinks
    obtain ⟨σ, state, hturn, rfl, hafter, hprogram, hidle, hfree⟩ :=
      UpdateContext.visit_of_run hreads hexact hlink hrun
    obtain ⟨hsound, hnotices, hlookUps⟩ :=
      ih hafter (hexact.update state) fun v hv => hfree _ (hlinks v hv)
    refine ⟨List.forall_mem_cons.mpr
      ⟨UpdateContext.sound_of_turn hreads hturn hafter hprogram hidle, hsound⟩, ?_, ?_⟩
    · exact (hturn.ticks_notices hnotice).spaced hnotice hnotices
    · exact (hturn.ticks_lookUps hcheck).spaced hcheck hlookUps

def briskSettings : UpdateSettings :=
  { UpdateSettings.default with
    prompt := true, interval := 1000, notifyInterval := 500, tag := "v*" }

/-- A launch of version 1.0.0 of the entry `Cache.soleKey` by a user who says yes. -/
def launchAt (now : Int64) (release : Option String) : UpdateContext :=
  ⟨Cache.soleCache, Cache.soleKey, "1.0.0", now, 1, release, true⟩

/-- A sidecar without a state and with a member that is not known. -/
def freshSidecar : Sidecar :=
  ⟨"1", Cache.soleKey, 1, none, none, 1, ⟨"t", "p"⟩, [], none, [("note", .text "n")]⟩

theorem isRead_freshSidecar : freshSidecar.IsRead where
  extra := .object List.Pairwise.nil nofun
  sorted := List.pairwise_singleton _ _
  other := List.forall_mem_singleton.mpr (.text _ _)
  unknown := List.forall_mem_singleton.mpr (by decide)

theorem isExact_freshSidecar : freshSidecar.IsExact where
  extra := .object nofun
  other := List.forall_mem_singleton.mpr (.text _)

end Launches

end SelfExtract
