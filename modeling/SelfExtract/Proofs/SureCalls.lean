import SelfExtract.Proofs.Steps

/-!
# Processes in which some calls do not fail

Any call of a process may fail, but for some that are sure to be carried out:
the removal of a file that the process itself has made, for one. `Upholds` is
what a process that is alone keeps to then, at every moment and in the end.
-/
namespace SelfExtract.Proc

variable {α β : Type} {sure : Call → Prop}

/-- One step of a process in which the calls that are `sure` are carried out. -/
inductive SureStep (sure : Call → Prop) : Proc α → FileSystem → Proc α → FileSystem → Prop
  | carried (c : Call) (next : Reply c → Proc α) (fs : FileSystem) :
      SureStep sure (.step c next) fs (next (fs.perform c).1) (fs.perform c).2
  | failed (c : Call) (next : Reply c → Proc α) (fs : FileSystem) (e : IoError) : ¬sure c →
      SureStep sure (.step c next) fs (next (c.failed e)) fs
  | portion (l : Location) (front rest : Bytes) (next : Except IoError Unit → Proc α)
      (fs : FileSystem) : front ≠ [] → ¬sure (.append l (front ++ rest)) →
      SureStep sure (.step (.append l (front ++ rest)) next) fs (.step (.append l rest) next)
        (fs.append l front)

inductive SureSteps (sure : Call → Prop) : Proc α → FileSystem → Proc α → FileSystem → Prop
  | refl (x : Proc α) (fs : FileSystem) : SureSteps sure x fs x fs
  | head {x y z : Proc α} {fs fs₁ fs₂ : FileSystem} :
      SureStep sure x fs y fs₁ → SureSteps sure y fs₁ z fs₂ → SureSteps sure x fs z fs₂

/-- A process may end with this result and leave this file system. -/
def SureEnds (sure : Call → Prop) (x : Proc α) (fs : FileSystem) (a : α) (fs' : FileSystem) :
    Prop :=
  SureSteps sure x fs (.done a) fs'

/-- A run without failures is one of the courses, whatever is sure. -/
theorem sureEnds_run (sure : Call → Prop) (x : Proc α) (fs : FileSystem) :
    SureEnds sure x fs (x.run fs).1 (x.run fs).2 := by
  induction x generalizing fs with
  | done a => exact .refl _ fs
  | step c next ih => exact .head (.carried c next fs) (ih _ _)

theorem sureEnds_of_run {x : Proc α} {a : α} {fs fs' : FileSystem} (h : x.run fs = (a, fs')) :
    SureEnds sure x fs a fs' := by
  have hends := sureEnds_run sure x fs
  rwa [h] at hends

theorem SureSteps.trans {x y z : Proc α} {fs fs₁ fs₂ : FileSystem} (h : SureSteps sure x fs y fs₁)
    (h' : SureSteps sure y fs₁ z fs₂) : SureSteps sure x fs z fs₂ := by
  induction h with
  | refl => exact h'
  | head hstep _ ih => exact .head hstep (ih h')

/-- A step of a process is one of it with what follows. -/
theorem SureStep.bind {x y : Proc α} {fs fs₁ : FileSystem} (h : SureStep sure x fs y fs₁)
    (f : α → Proc β) : SureStep sure (x.bind f) fs (y.bind f) fs₁ := by
  cases h with
  | carried c next => exact .carried c _ _
  | failed c next _ e hsure => exact .failed c _ _ e hsure
  | portion l front rest next _ hne hsure => exact .portion l front rest _ _ hne hsure

/-- A step of a process that has not ended yet with what follows is one of the process. -/
theorem SureStep.of_bind {c : Call} {next : Reply c → Proc α} {f : α → Proc β} {z : Proc β}
    {fs fs₁ : FileSystem} (h : SureStep sure ((Proc.step c next).bind f) fs z fs₁) :
    ∃ y, SureStep sure (.step c next) fs y fs₁ ∧ z = y.bind f := by
  cases h with
  | carried => exact ⟨_, .carried c next fs, rfl⟩
  | failed _ _ _ e hsure => exact ⟨_, .failed c next fs e hsure, rfl⟩
  | portion l front rest _ _ hne hsure =>
    exact ⟨_, .portion l front rest next fs hne hsure, rfl⟩

/-- A process goes on where the one before it has ended. -/
theorem SureSteps.bind {x y : Proc α} {fs fs₁ : FileSystem} (h : SureSteps sure x fs y fs₁)
    (f : α → Proc β) : SureSteps sure (x.bind f) fs (y.bind f) fs₁ := by
  induction h with
  | refl => exact .refl _ _
  | head hstep _ ih => exact .head (hstep.bind f) ih

theorem SureEnds.bind {x : Proc α} {f : α → Proc β} {a : α} {b : β} {fs fs₁ fs₂ : FileSystem}
    (h : SureEnds sure x fs a fs₁) (h' : SureEnds sure (f a) fs₁ b fs₂) :
    SureEnds sure (x >>= f) fs b fs₂ :=
  (SureSteps.bind h f).trans h'

/-- One process after the other ends when the first ends and then the second does. -/
theorem sureEnds_bind {x : Proc α} {f : α → Proc β} {b : β} {fs fs' : FileSystem} :
    SureEnds sure (x >>= f) fs b fs' ↔
      ∃ a fs₁, SureEnds sure x fs a fs₁ ∧ SureEnds sure (f a) fs₁ b fs' := by
  refine ⟨fun h => ?_, fun ⟨_, _, hfirst, hsecond⟩ => hfirst.bind hsecond⟩
  change SureSteps sure (x.bind f) fs (.done b) fs' at h
  generalize hstart : x.bind f = z, hend : Proc.done b = w at h
  induction h generalizing x with
  | refl y fs =>
    cases x with
    | done a =>
      obtain rfl : f a = y := hstart
      exact ⟨a, fs, .refl _ _, by rw [SureEnds, hend]; exact .refl _ _⟩
    | step => cases hstart.trans hend.symm
  | head hstep hrest ih =>
    subst hend
    cases x with
    | done a =>
      obtain rfl : f a = _ := hstart
      exact ⟨a, _, .refl _ _, .head hstep hrest⟩
    | step =>
      subst hstart
      obtain ⟨y, hfirst, rfl⟩ := hstep.of_bind
      obtain ⟨a, fs₁, hends, hsecond⟩ := ih rfl rfl
      exact ⟨a, fs₁, .head hfirst hends, hsecond⟩

theorem sureEnds_pure {a b : α} {fs fs' : FileSystem} :
    SureEnds sure (pure a) fs b fs' ↔ b = a ∧ fs' = fs := by
  constructor
  · intro h
    cases h with
    | refl => exact ⟨rfl, rfl⟩
    | head hstep => cases hstep
  · rintro ⟨rfl, rfl⟩
    exact .refl _ _

/-- A single call that is no write to a file is carried out, or fails if it may. -/
theorem sureEnds_call {c : Call} (hc : c.isAppend = false) {r : Reply c} {fs fs' : FileSystem} :
    SureEnds sure (call c) fs r fs' ↔ (r = (fs.perform c).1 ∧ fs' = (fs.perform c).2) ∨
      ¬sure c ∧ (∃ e, r = c.failed e) ∧ fs' = fs := by
  constructor
  · intro h
    cases h with
    | head hstep hrest =>
      cases hstep with
      | carried => exact .inl (sureEnds_pure.mp hrest)
      | failed _ _ _ e hsure =>
        obtain ⟨hr, hfs⟩ := sureEnds_pure.mp hrest
        exact .inr ⟨hsure, ⟨e, hr⟩, hfs⟩
      | portion => cases hc
  · rintro (⟨rfl, rfl⟩ | ⟨hsure, ⟨e, rfl⟩, rfl⟩)
    · exact .head (.carried c .done fs) (.refl _ _)
    · exact .head (.failed c .done fs' e hsure) (.refl _ _)

inductive Attempt {ε : Type} (good : α → FileSystem → Prop) (bad : FileSystem → Prop) :
    Except ε α → FileSystem → Prop
  | ok {a : α} {fs : FileSystem} : good a fs → Attempt good bad (.ok a) fs
  | error {e : ε} {fs : FileSystem} : bad fs → Attempt good bad (.error e) fs

theorem Attempt.either {ε : Type} {good : α → FileSystem → Prop} {bad P : FileSystem → Prop}
    {r : Except ε α} {fs : FileSystem} (h : Attempt good bad r fs)
    (hgood : ∀ a fs, good a fs → P fs) (hbad : ∀ fs, bad fs → P fs) : P fs := by
  cases h with
  | ok h => exact hgood _ _ h
  | error h => exact hbad _ h

/-- What a process that is alone keeps to: the file system is at every moment one that `through`
allows, and `post` holds of the result and of what is left. -/
inductive Upholds (sure : Call → Prop) (through : FileSystem → Prop)
    (post : α → FileSystem → Prop) : Proc α → FileSystem → Prop
  | done {a : α} {fs : FileSystem} : through fs → post a fs →
      Upholds sure through post (.done a) fs
  | step {c : Call} {next : Reply c → Proc α} {fs : FileSystem} (holds : through fs)
      (goes : ∀ y fs₁, SureStep sure (.step c next) fs y fs₁ → Upholds sure through post y fs₁) :
      Upholds sure through post (.step c next) fs

namespace Upholds

variable {through through' : FileSystem → Prop} {post post' : α → FileSystem → Prop}
  {x y : Proc α} {fs fs' : FileSystem}

theorem pure {a : α} (hthrough : through fs) (h : post a fs) :
    Upholds sure through post (Pure.pure a) fs :=
  .done hthrough h

theorem now (h : Upholds sure through post x fs) : through fs := by
  cases h with
  | done hthrough => exact hthrough
  | step holds => exact holds

theorem steps (h : Upholds sure through post x fs) (hsteps : SureSteps sure x fs y fs') :
    Upholds sure through post y fs' := by
  induction hsteps with
  | refl => exact h
  | head hstep _ ih =>
    cases h with
    | done => cases hstep
    | step _ goes => exact ih (goes _ _ hstep)

theorem ends {a : α} (h : Upholds sure through post x fs) (hends : x.SureEnds sure fs a fs') :
    post a fs' := by
  cases h.steps hends with
  | done _ hpost => exact hpost

theorem weaken_through (h : Upholds sure through post x fs)
    (hthrough : ∀ fs, through fs → through' fs) : Upholds sure through' post x fs := by
  induction h with
  | done hholds hdone => exact .done (hthrough _ hholds) hdone
  | step holds _ ih => exact .step (hthrough _ holds) ih

theorem weaken_post (h : Upholds sure through post x fs)
    (hpost : ∀ a fs, post a fs → post' a fs) : Upholds sure through post' x fs := by
  induction h with
  | done hholds hdone => exact .done hholds (hpost _ _ hdone)
  | step holds _ ih => exact .step holds ih

/-- Two things that a process keeps to. -/
theorem and (h : Upholds sure through post x fs) (h' : Upholds sure through' post' x fs) :
    Upholds sure (fun fs => through fs ∧ through' fs) (fun a fs => post a fs ∧ post' a fs) x fs := by
  induction h with
  | done hholds hdone =>
    cases h' with
    | done hholds' hdone' => exact .done ⟨hholds, hholds'⟩ ⟨hdone, hdone'⟩
  | step holds _ ih =>
    cases h' with
    | step holds' goes =>
      exact .step ⟨holds, holds'⟩ fun y fs₁ hstep => ih y fs₁ hstep (goes y fs₁ hstep)

/-- A process may do anything where nothing is asked of it. A write comes to its end, since every
portion makes it shorter. -/
theorem of_all (h : ∀ a fs, post a fs) (x : Proc α) (fs : FileSystem) :
    Upholds sure (fun _ => True) post x fs := by
  induction x generalizing fs with
  | done a => exact .done trivial (h a fs)
  | step c next ih =>
    have happend : ∀ n l (data : Bytes) (rest : Except IoError Unit → Proc α) (fs : FileSystem),
        data.length = n → (∀ r fs, Upholds sure (fun _ => True) post (rest r) fs) →
        Upholds sure (fun _ => True) post (.step (.append l data) rest) fs := by
      intro n
      induction n using Nat.strongRecOn with
      | ind n ihn =>
        intro l data rest fs hlen hrest
        refine .step trivial fun y fs₁ hstep => ?_
        cases hstep with
        | carried => exact hrest _ _
        | failed _ _ _ e => exact hrest (.error e) fs
        | portion _ front more _ _ hne =>
          have hpos := List.length_pos_iff.mpr hne
          rw [List.length_append] at hlen
          exact ihn more.length (by omega) l more rest _ rfl hrest
    refine .step trivial fun y fs₁ hstep => ?_
    cases hstep with
    | carried => exact ih _ _
    | failed _ _ _ e => exact ih _ _
    | portion l front rest next => exact happend _ l rest next _ rfl ih

/-- One process after the other. -/
theorem bind {post : β → FileSystem → Prop} {f : α → Proc β}
    (h : Upholds sure through post' x fs)
    (hnext : ∀ a fs, through fs → post' a fs → Upholds sure through post (f a) fs) :
    Upholds sure through post (x >>= f) fs := by
  change Upholds sure through post (x.bind f) fs
  induction h with
  | done hholds hdone => exact hnext _ _ hholds hdone
  | @step c next fs holds _ ih =>
    refine .step holds fun z fs₁ hstep => ?_
    obtain ⟨y, hfirst, rfl⟩ := hstep.of_bind
    exact ih y fs₁ hfirst

/-- A process that may fail, and what is done in either case. -/
theorem attempt {ε : Type} {good : α → FileSystem → Prop} {bad : FileSystem → Prop}
    {post : β → FileSystem → Prop} {x : Proc (Except ε α)} {f : Except ε α → Proc β}
    (h : Upholds sure through (Attempt good bad) x fs)
    (hbad : ∀ e fs, through fs → bad fs → Upholds sure through post (f (.error e)) fs)
    (hgood : ∀ a fs, through fs → good a fs → Upholds sure through post (f (.ok a)) fs) :
    Upholds sure through post (x >>= f) fs :=
  h.bind fun r fs hholds hr => by
    cases hr with
    | ok hok => exact hgood _ fs hholds hok
    | error herror => exact hbad _ fs hholds herror

/-- A process whose result does not matter. -/
theorem discard {kept : FileSystem → Prop} (h : Upholds sure through (fun _ => kept) x fs) :
    Upholds sure through (fun _ => kept) (Functor.discard x) fs := by
  change Upholds sure through (fun _ => kept) (x >>= fun _ => Pure.pure PUnit.unit) fs
  exact h.bind fun _ _ hholds hkept => .pure hholds hkept

/-- A single call that is no write to a file. -/
theorem call {c : Call} {post : Reply c → FileSystem → Prop} (hc : c.isAppend = false)
    (hnow : through fs) (hcarried : through (fs.perform c).2)
    (hdone : post (fs.perform c).1 (fs.perform c).2)
    (hfailed : ∀ e, ¬sure c → post (c.failed e) fs) :
    Upholds sure through post (Proc.call c) fs := by
  refine .step hnow fun y fs₁ hstep => ?_
  cases hstep with
  | carried => exact .done hcarried hdone
  | failed _ _ _ e hsure => exact .done hnow (hfailed e hsure)
  | portion => cases hc

/-- A call that only asks. -/
theorem look {c : Call} {post : Reply c → FileSystem → Prop} (hc : c.isAppend = false)
    (hlook : (fs.perform c).2 = fs) (hnow : through fs) (hdone : post (fs.perform c).1 fs)
    (hfailed : ∀ e, post (c.failed e) fs) : Upholds sure through post (Proc.call c) fs :=
  .call hc hnow (hlook.symm ▸ hnow) (hlook.symm ▸ hdone) fun e _ => hfailed e

/-- A write to a file in any number of portions. `written` tells what holds when so much is
there. -/
theorem append {l : Location} {data : Bytes} {post : Except IoError Unit → FileSystem → Prop}
    (written : Bytes → FileSystem → Prop)
    (hnow : ∀ front fs, written front fs → through fs)
    (hwrite : ∀ front rest fs, written front fs → written (front ++ rest) (fs.append l rest))
    (hdone : ∀ fs, written data fs → post (.ok ()) fs)
    (hfailed : ∀ front e fs, written front fs → post (.error e) fs) (h : written [] fs) :
    Upholds sure through post (Proc.call (.append l data)) fs := by
  suffices hrest : ∀ n rest front fs, rest.length = n → front ++ rest = data → written front fs →
      Upholds sure through post (Proc.call (.append l rest)) fs from
    hrest _ data [] fs rfl rfl h
  intro n
  induction n using Nat.strongRecOn with
  | ind n ih =>
    intro rest front fs hlen hdata hwritten
    refine .step (hnow front fs hwritten) fun y fs₁ hstep => ?_
    cases hstep with
    | carried =>
      have hend := hwrite front rest fs hwritten
      rw [hdata] at hend
      exact .done (hnow data _ hend) (hdone _ hend)
    | failed _ _ _ e => exact .done (hnow front fs hwritten) (hfailed front e fs hwritten)
    | portion _ part more _ _ hne =>
      have hpos := List.length_pos_iff.mpr hne
      rw [List.length_append] at hlen
      have hsplit : front ++ part ++ more = data := by rw [List.append_assoc, hdata]
      exact ih more.length (by omega) more (front ++ part) _ rfl hsplit
        (hwrite front part fs hwritten)

end Upholds

end SelfExtract.Proc
