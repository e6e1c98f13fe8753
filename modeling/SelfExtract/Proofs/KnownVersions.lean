import SelfExtract.Proofs.UpdateChecks
import SelfExtract.Proofs.VersionOrder

/-!
# The version that is known

A launch that finds a newer release notes its version, whatever version was
noted before. The noted version is therefore the one that was found last, and
it goes back to an older one whenever an older one is found that is still newer
than the program that runs.
-/
namespace SelfExtract

open FileSystem

namespace Sidecar

/-- Whatever state is noted in a sidecar can be read again, and so can the states that are noted
after it. -/
def Lasts (s : Sidecar) : Prop :=
  ∃ kept : Sidecar → Prop, kept s ∧ ∀ r, kept r → ∀ state, ∃ r',
    parse? { r with update := some state }.encode = some r' ∧ r'.update = some state ∧ kept r'

theorem Lasts.noted {s : Sidecar} (h : s.Lasts) (state : UpdateState) : ∃ s',
    parse? { s with update := some state }.encode = some s' ∧ s'.update = some state ∧
      s'.Lasts := by
  obtain ⟨kept, hs, hkept⟩ := h
  obtain ⟨s', hparse, hstate, hs'⟩ := hkept s hs state
  exact ⟨s', hparse, hstate, kept, hs', hkept⟩

/-- Sidecars in which all numbers are integers are of this kind. -/
theorem IsRead.lasts {s : Sidecar} (h : s.IsRead) (hexact : s.IsExact) : s.Lasts :=
  ⟨fun r => r.IsRead ∧ r.IsExact, ⟨h, hexact⟩, fun _ hr state =>
    ⟨_, parse?_encode (hr.1.update (some state)) (hr.2.update (some state)), rfl,
      hr.1.update (some state), hr.2.update (some state)⟩⟩

end Sidecar

namespace Cache

variable {c : Cache} {key : String} {fs fs₁ : FileSystem} {s : Sidecar} {pid : Nat}
  {σ : UpdateState}

def state (c : Cache) (key : String) (fs : FileSystem) : UpdateState :=
  ((c.readState key).run fs).1

def known (c : Cache) (key : String) (fs : FileSystem) : String :=
  (c.state key fs).latestKnown

theorem Reads.unique {r : Sidecar} (hr : c.Reads key fs r) (hs : c.Reads key fs s) : r = s := by
  obtain ⟨text, hread, hr⟩ := hr
  obtain ⟨text', hread', hs⟩ := hs
  rw [hread] at hread'
  obtain rfl := Except.ok.inj hread'
  rw [hr] at hs
  exact Option.some.inj hs

theorem state_of_reads (h : c.Reads key fs s) : c.state key fs = s.update.getD .initial := by
  rw [state, run_readState h]

/-- The sidecar of an entry lasts, if it can be read. -/
def Lasting (c : Cache) (key : String) (fs : FileSystem) : Prop :=
  ∀ s, c.Reads key fs s → s.Lasts

/-- A sidecar is read as it is or not at all. -/
theorem run_readSidecar_cases (c : Cache) (key : String) (fs : FileSystem) :
    (∃ s, c.Reads key fs s) ∨
      ∃ r, (c.readSidecar key).run fs = (r, fs) ∧ ∀ s, r ≠ .ok (some s) := by
  rw [readSidecar, Proc.run_bind, Proc.run_call, perform]
  cases hread : fs.read (c.sidecar key) with
  | error e => cases e <;> exact .inr ⟨_, rfl, by simp⟩
  | ok text =>
    cases hs : Sidecar.parse? text with
    | some s => exact .inl ⟨s, text, hread, hs⟩
    | none =>
      simp only [hs]
      exact .inr ⟨_, rfl, by simp⟩

/-- Where no sidecar can be read there is no state, and none can be noted. -/
theorem run_of_unread {r : Except Fault (Option Sidecar)}
    (hrun : (c.readSidecar key).run fs = (r, fs)) (hr : ∀ s, r ≠ .ok (some s)) :
    (c.readState key).run fs = (.initial, fs) ∧
      ∀ pid σ, ∃ e, (c.writeState pid key σ).run fs = (.error e, fs) := by
  simp only [readState, writeState, Proc.run_bind, hrun]
  rcases r with e | _ | s
  · exact ⟨rfl, fun _ _ => ⟨_, rfl⟩⟩
  · exact ⟨rfl, fun _ _ => ⟨_, rfl⟩⟩
  · exact absurd rfl (hr s)

/-- A state is noted or the file system stays as it is. -/
theorem run_writeState_cases (h : c.Reads key fs s) (hlasts : s.Lasts)
    (hlink : fs.LinkFree (Proc.temporary pid (c.sidecar key))) :
    (∃ fs₁ s', (c.writeState pid key σ).run fs = (.ok (), fs₁) ∧ c.Reads key fs₁ s' ∧
      s'.update = some σ ∧ s'.Lasts ∧
      ∀ pid', fs.LinkFree (Proc.temporary pid' (c.sidecar key)) →
        fs₁.LinkFree (Proc.temporary pid' (c.sidecar key))) ∨
    ∃ e, (c.writeState pid key σ).run fs = (.error e, fs) := by
  obtain ⟨text, hread, -⟩ := id h
  cases hwrite : (Proc.writeAtomically pid (c.sidecar key) sidecarMode
      { s with update := some σ }.encode).run fs with
  | mk r fs₁ =>
    have hrun : (c.writeState pid key σ).run fs =
        (r.mapError (.atomicWrite (c.sidecar key)), fs₁) := by
      rw [writeState, Proc.run_bind, run_readSidecar h]
      simp only [Proc.run_bind, writeSidecar, hwrite]
      cases r <;> rfl
    cases r with
    | error e =>
      obtain rfl := Proc.unchanged_of_error hlink (lastName_sidecar c key) hread hwrite
      exact .inr ⟨_, hrun⟩
    | ok =>
      obtain ⟨d, hrewritten⟩ := Proc.rewritten_of_ok hlink (lastName_sidecar c key) hread hwrite
      obtain ⟨s', hs', hstate, hlasts'⟩ := hlasts.noted σ
      exact .inl ⟨fs₁, s', hrun, ⟨_, hrewritten.read, hs'⟩, hstate, hlasts', fun _ =>
        hrewritten.linkFree (lastName_sidecar c key)⟩

end Cache

/-! ### One check -/

def UpdateOutcome.found : UpdateOutcome → Option String
  | .checked newer => newer
  | _ => none

structure Check where
  context : UpdateContext
  settings : UpdateSettings
  result : Except Fault UpdateOutcome
  before : FileSystem
  after : FileSystem

namespace Check

def found (k : Check) : Option String :=
  k.result.toOption.bind (·.found)

/-- What is known after a check: what it has found, or else what was known before. -/
structure Follows (c : Cache) (key : String) (k : Check) : Prop where
  found : ∀ outcome, k.result = .ok outcome → k.found =
    if (c.state key k.before).isCheckDue k.settings k.context.now then
      k.context.newerRelease k.settings else none
  known : c.known key k.after = k.found.getD (c.known key k.before)

structure Passes (c : Cache) (key : String) (k : Check) : Prop extends k.Follows c key where
  lasting : c.Lasting key k.after
  linkFree : ∀ pid, k.before.LinkFree (Proc.temporary pid (c.sidecar key)) →
    k.after.LinkFree (Proc.temporary pid (c.sidecar key))

end Check

namespace UpdateContext

variable {x : UpdateContext} {u : UpdateSettings} {σ σ' : UpdateState} {events : List UpdateEvent}
  {outcome : UpdateOutcome} {result : Except Fault UpdateOutcome} {fs fs₁ : FileSystem}
  {s : Sidecar}

theorem Turn.found_eq (h : x.Turn u σ events outcome σ') :
    outcome.found = if σ.isCheckDue u x.now then x.newerRelease u else none := by
  cases h with
  | idle hcheck | reminded hcheck => simp [hcheck, UpdateOutcome.found]
  | current hcheck hrelease | quiet hcheck hrelease | announced hcheck hrelease =>
    simp [hcheck, hrelease, UpdateOutcome.found]

/-- A found version is noted in place of the one that was known. -/
theorem Turn.latestKnown_eq (h : x.Turn u σ events outcome σ') :
    σ'.latestKnown = outcome.found.getD σ.latestKnown := by
  cases h <;> rfl

/-- Without a sidecar there is nothing to announce, and a look-up fails. -/
theorem run_check_of_unread {r : Except Fault (Option Sidecar)}
    (hread : (x.cache.readSidecar x.key).run fs = (r, fs)) (hr : ∀ s, r ≠ .ok (some s))
    (hrun : (x.check u).run fs = ((events, result), fs₁)) :
    fs₁ = fs ∧ ((∃ e, result = .error e) ∨
      result = .ok .idle ∧ UpdateState.initial.isCheckDue u x.now = false) := by
  obtain ⟨hstate, hwrite⟩ := Cache.run_of_unread hread hr
  rw [check, Proc.run_bind, hstate] at hrun
  cases hcheck : UpdateState.initial.isCheckDue u x.now with
  | false =>
    simp only [hcheck, Bool.not_false, if_true] at hrun
    cases hrun
    exact ⟨rfl, .inr ⟨rfl, rfl⟩⟩
  | true =>
    obtain ⟨e, hwrite⟩ := hwrite x.pid (x.afterLookup u .initial).2
    simp only [hcheck, Bool.not_true, Bool.false_eq_true, if_false, Proc.run_bind, hwrite] at hrun
    cases hrun
    exact ⟨rfl, .inl ⟨e, rfl⟩⟩

/-- A check that leaves everything as it is has found nothing. -/
theorem passes_of_same {c : Cache} {key : String} (hlasts : c.Lasting key fs)
    (hnone : Check.found ⟨x, u, result, fs, fs⟩ = none)
    (hdue : ∀ outcome, result = .ok outcome →
      (if (c.state key fs).isCheckDue u x.now then x.newerRelease u else none) = none) :
    Check.Passes c key ⟨x, u, result, fs, fs⟩ where
  found outcome hok := by rw [hnone, hdue outcome hok]
  known := by rw [hnone, Option.getD_none]
  lasting := hlasts
  linkFree _ h := h

theorem passes_of_reads (hreads : x.cache.Reads x.key fs s) (hlasts : x.cache.Lasting x.key fs)
    (hlink : fs.LinkFree (Proc.temporary x.pid (x.cache.sidecar x.key)))
    (hrun : (x.check u).run fs = ((events, result), fs₁)) :
    Check.Passes x.cache x.key ⟨x, u, result, fs, fs₁⟩ := by
  have hstate := Cache.state_of_reads hreads
  obtain ⟨seen, outcome, σ, hturn⟩ := x.exists_turn u (s.update.getD .initial)
  have hfound := hturn.found_eq
  rw [← hstate] at hfound
  rw [hturn.run_check hreads] at hrun
  split at hrun
  · next hidle =>
    cases hrun
    subst hidle
    exact passes_of_same hlasts rfl fun _ _ => hfound.symm
  · next hbusy =>
    rcases Cache.run_writeState_cases (σ := σ) hreads (hlasts s hreads) hlink with
      ⟨fs₂, s', hwrite, hreads', hnoted, hlasts', hfree⟩ | ⟨e, hwrite⟩
    · rw [hwrite] at hrun
      cases hrun
      refine ⟨⟨?_, ?_⟩, ?_, hfree⟩
      · rintro _ ⟨⟩
        exact hfound
      · rw [Cache.known, Cache.known, Cache.state_of_reads hreads', hnoted, hstate]
        exact hturn.latestKnown_eq
      · intro r hr
        rwa [hr.unique hreads']
    · rw [hwrite] at hrun
      cases hrun
      exact passes_of_same hlasts rfl nofun

/-- One check: what is known follows from it, and the next one finds as good an entry. -/
theorem passes_of_run (hlasts : x.cache.Lasting x.key fs)
    (hlink : fs.LinkFree (Proc.temporary x.pid (x.cache.sidecar x.key)))
    (hrun : (x.check u).run fs = ((events, result), fs₁)) :
    Check.Passes x.cache x.key ⟨x, u, result, fs, fs₁⟩ := by
  rcases x.cache.run_readSidecar_cases x.key fs with ⟨s, hreads⟩ | ⟨r, hread, hr⟩
  · exact passes_of_reads hreads hlasts hlink hrun
  · obtain ⟨rfl, ⟨e, rfl⟩ | ⟨rfl, hcheck⟩⟩ := run_check_of_unread hread hr hrun
    · exact passes_of_same hlasts rfl nofun
    · obtain ⟨hstate, -⟩ := Cache.run_of_unread hread hr
      refine passes_of_same hlasts rfl fun _ _ => ?_
      rw [Cache.state, hstate, hcheck]
      rfl

end UpdateContext

/-! ### Check after check -/

/-- Checks one after the other for the same entry, of any version, at any time and with any
settings. -/
inductive Checks (c : Cache) (key : String) : FileSystem → List Check → Prop
  | done {fs : FileSystem} : Checks c key fs []
  | check {x : UpdateContext} {u : UpdateSettings} {events : List UpdateEvent}
      {result : Except Fault UpdateOutcome} {fs fs₁ : FileSystem} {checks : List Check}
      (hcache : x.cache = c) (hkey : x.key = key)
      (hrun : (x.check u).run fs = ((events, result), fs₁)) (hrest : Checks c key fs₁ checks) :
      Checks c key fs (⟨x, u, result, fs, fs₁⟩ :: checks)

section Runs

variable {c : Cache} {key : String} {fs : FileSystem} {checks : List Check} {k : Check}

/-- What is known steps back exactly when a version is found that is older than the known one. -/
theorem Check.Follows.compare_eq_lt_iff (h : k.Follows c key) :
    Version.compare (c.known key k.after) (c.known key k.before) = .lt ↔
      ∃ v, k.found = some v ∧ Version.compare v (c.known key k.before) = .lt := by
  rw [h.known]
  cases hfound : k.found with
  | none => simpa using Version.compare_self_ne_lt (c.known key k.before)
  | some v => simp

theorem Checks.follows (hchecks : Checks c key fs checks) (hlasts : c.Lasting key fs)
    (hlinks : ∀ k ∈ checks, fs.LinkFree (Proc.temporary k.context.pid (c.sidecar key))) :
    ∀ k ∈ checks, k.Follows c key := by
  -- the sidecar lasts and no link bears a temporary name: each check leaves both as they were
  induction hchecks with
  | done => exact List.forall_mem_nil _
  | check hcache hkey hrun hrest ih =>
    subst hcache hkey
    obtain ⟨hlink, hlinks⟩ := List.forall_mem_cons.mp hlinks
    have hpasses := UpdateContext.passes_of_run hlasts hlink hrun
    exact List.forall_mem_cons.mpr ⟨hpasses.toFollows,
      ih hpasses.lasting fun k hk => hpasses.linkFree _ (hlinks k hk)⟩

/-- What is known never steps back over a whole run if it does not in any check of it. -/
theorem Checks.pairwise_iff (hchecks : Checks c key fs checks) :
    (c.known key fs :: checks.map fun k => c.known key k.after).Pairwise
        (fun v w => Version.compare w v ≠ .lt) ↔
      ∀ k ∈ checks, Version.compare (c.known key k.after) (c.known key k.before) ≠ .lt := by
  -- the version in front is the one that the first of the checks finds
  induction hchecks with
  | done => simp
  | @check x u events result fs fs₁ checks _ _ _ _ ih =>
    rw [List.forall_mem_cons, ← ih, List.map_cons, List.pairwise_cons, List.forall_mem_cons]
    constructor
    · rintro ⟨⟨hfirst, -⟩, hrest⟩
      exact ⟨hfirst, hrest⟩
    · rintro ⟨hfirst, hrest⟩
      refine ⟨⟨hfirst, fun v hv => ?_⟩, hrest⟩
      exact Version.compare_ne_lt_trans hfirst ((List.pairwise_cons.mp hrest).1 v hv)

/-- The known version is the one that was found last. It steps back in a check exactly when a
version is found that is older, and never does in a whole run exactly when no such version is
found. -/
theorem known_follows_found (hlasts : c.Lasting key fs)
    (hlinks : ∀ k ∈ checks, fs.LinkFree (Proc.temporary k.context.pid (c.sidecar key)))
    (hchecks : Checks c key fs checks) :
    (∀ k ∈ checks, k.Follows c key ∧
      (Version.compare (c.known key k.after) (c.known key k.before) = .lt ↔
        ∃ v, k.found = some v ∧ Version.compare v (c.known key k.before) = .lt)) ∧
    ((c.known key fs :: checks.map fun k => c.known key k.after).Pairwise
        (fun v w => Version.compare w v ≠ .lt) ↔
      ∀ k ∈ checks, ∀ v, k.found = some v →
        Version.compare v (c.known key k.before) ≠ .lt) := by
  have hfollows := hchecks.follows hlasts hlinks
  refine ⟨fun k hk => ⟨hfollows k hk, (hfollows k hk).compare_eq_lt_iff⟩, ?_⟩
  rw [hchecks.pairwise_iff]
  refine forall₂_congr fun k hk => ?_
  rw [Ne, (hfollows k hk).compare_eq_lt_iff]
  simp

/-! ### A release that is withdrawn -/

theorem newerRelease_launchAt_two (now : Int64) :
    (launchAt now (some "v2.0.0")).newerRelease briskSettings = some "2.0.0" := by
  cbv

theorem newerRelease_launchAt_oneHalf (now : Int64) :
    (launchAt now (some "v1.5.0")).newerRelease briskSettings = some "1.5.0" := by
  cbv

/-- Version 2.0.0 is found and withdrawn: version 1.5.0 is known after it. -/
theorem known_follows_found_withdrawn :
    ∃ first second, Checks Cache.soleCache Cache.soleKey
        (Cache.soleSidecar freshSidecar.encode) [first, second] ∧
      first.found = some "2.0.0" ∧ second.found = some "1.5.0" ∧
      Cache.soleCache.known Cache.soleKey second.before = "2.0.0" ∧
      Version.compare (Cache.soleCache.known Cache.soleKey second.after)
        (Cache.soleCache.known Cache.soleKey second.before) = .lt := by
  have hreads : Cache.soleCache.Reads Cache.soleKey (Cache.soleSidecar freshSidecar.encode)
      freshSidecar :=
    ⟨_, Cache.read_soleSidecar _, Sidecar.parse?_encode isRead_freshSidecar isExact_freshSidecar⟩
  have hw := Cache.writable_soleSidecar freshSidecar.encode
  have hnewest : (launchAt 2000 (some "v2.0.0")).Turn briskSettings .initial
      [.notify "1.0.0" "2.0.0", .confirm "2.0.0", .runUpdate] (.checked (some "2.0.0"))
      ⟨2000, 2000, "2.0.0"⟩ :=
    .announced (by decide) (newerRelease_launchAt_two 2000) (by decide)
  have hbefore : (launchAt 5000 (some "v1.5.0")).Turn briskSettings ⟨2000, 2000, "2.0.0"⟩
      [.notify "1.0.0" "1.5.0", .confirm "1.5.0", .runUpdate] (.checked (some "1.5.0"))
      ⟨5000, 5000, "1.5.0"⟩ :=
    .announced (by decide) (newerRelease_launchAt_oneHalf 5000) (by decide)
  obtain ⟨fs₁, d₁, hrun₁, hreads₁, hw₁⟩ :=
    hnewest.exists_run_check nofun hreads isExact_freshSidecar hw rfl
  obtain ⟨fs₂, d₂, hrun₂, -, -⟩ :=
    hbefore.exists_run_check nofun hreads₁ (isExact_freshSidecar.update _) hw₁ rfl
  have hchecks : Checks Cache.soleCache Cache.soleKey _ _ :=
    .check rfl rfl hrun₁ (.check rfl rfl hrun₂ .done)
  have hlasts : Cache.soleCache.Lasting Cache.soleKey (Cache.soleSidecar freshSidecar.encode) :=
    fun s hs => hs.unique hreads ▸ isRead_freshSidecar.lasts isExact_freshSidecar
  obtain ⟨hall, -⟩ := known_follows_found hlasts (by simp [launchAt, hw.linkFree]) hchecks
  have hknown : Cache.soleCache.known Cache.soleKey fs₁ = "2.0.0" :=
    congrArg UpdateState.latestKnown (Cache.state_of_reads hreads₁)
  refine ⟨_, _, hchecks, rfl, rfl, hknown, ?_⟩
  rw [(hall _ (by simp)).2]
  refine ⟨"1.5.0", rfl, ?_⟩
  rw [hknown]
  cbv

end Runs

end SelfExtract
