import SelfExtract.Proofs.SystemCalls

/-!
# Processes step by step

A process takes one step at a time: a call is carried out, or it fails without
an effect, or a part of a write is done and the rest of it is left. Between two
steps others may change the file system. `Assures` is what a process keeps to
in all that, whatever the others do within their own bounds; it is proved along
the process, and followed along any of its courses.
-/
namespace SelfExtract

def Call.failed : (c : Call) → IoError → Reply c
  | .makeDirectory _, e => .error e
  | .isDirectory _, _ => false
  | .isFile _, _ => false
  | .read _, e => .error e
  | .status _, e => .error e
  | .create _ _, e => .error e
  | .append _ _, e => .error e
  | .sync _, e => .error e
  | .syncDirectory _, e => .error e
  | .setMode _ _, e => .error e
  | .rename _ _, e => .error e
  | .unlink _, e => .error e

def Call.isAppend : Call → Bool
  | .append _ _ => true
  | _ => false

namespace Proc

variable {α β : Type}

inductive Step : Proc α → FileSystem → Proc α → FileSystem → Prop
  | carried (c : Call) (next : Reply c → Proc α) (fs : FileSystem) :
      Step (.step c next) fs (next (fs.perform c).1) (fs.perform c).2
  | failed (c : Call) (next : Reply c → Proc α) (fs : FileSystem) (e : IoError) :
      Step (.step c next) fs (next (c.failed e)) fs
  | portion (l : Location) (front rest : Bytes) (next : Except IoError Unit → Proc α)
      (fs : FileSystem) : front ≠ [] →
      Step (.step (.append l (front ++ rest)) next) fs (.step (.append l rest) next)
        (fs.append l front)

inductive Steps : Proc α → FileSystem → Proc α → FileSystem → Prop
  | refl (x : Proc α) (fs : FileSystem) : Steps x fs x fs
  | head {x y z : Proc α} {fs fs₁ fs₂ : FileSystem} :
      Step x fs y fs₁ → Steps y fs₁ z fs₂ → Steps x fs z fs₂

/-- A process that is alone may end with this result and leave this file system. -/
def Ends (x : Proc α) (fs : FileSystem) (a : α) (fs' : FileSystem) : Prop :=
  Steps x fs (.done a) fs'

theorem Steps.trans {x y z : Proc α} {fs fs₁ fs₂ : FileSystem} (h : Steps x fs y fs₁)
    (h' : Steps y fs₁ z fs₂) : Steps x fs z fs₂ := by
  induction h with
  | refl => exact h'
  | head hstep _ ih => exact .head hstep (ih h')

/-- A run without failures is one of the courses of a process. -/
theorem ends_run (x : Proc α) (fs : FileSystem) : x.Ends fs (x.run fs).1 (x.run fs).2 := by
  induction x generalizing fs with
  | done a => exact .refl _ fs
  | step c next ih => exact .head (.carried c next fs) (ih _ _)

/-- The course of a process is one of the course of it with what follows. -/
theorem Step.bind {x y : Proc α} {fs fs' : FileSystem} (h : Step x fs y fs')
    (f : α → Proc β) : Step (x.bind f) fs (y.bind f) fs' := by
  cases h with
  | carried c next => exact .carried c _ fs
  | failed c next _ e => exact .failed c _ fs e
  | portion l front rest next _ hne => exact .portion l front rest _ fs hne

theorem Steps.bind {x y : Proc α} {fs fs' : FileSystem} (h : Steps x fs y fs')
    (f : α → Proc β) : Steps (x >>= f) fs (y >>= f) fs' := by
  induction h with
  | refl => exact .refl _ _
  | head hstep _ ih => exact .head (hstep.bind f) ih

/-- What a process keeps to: as long as others change the file system as `rely` allows, each of its
steps is one that `guarantee` allows, and `post` holds of its result. -/
inductive Assures (rely guarantee : FileSystem → FileSystem → Prop)
    (post : α → FileSystem → Prop) : Proc α → FileSystem → Prop
  | done {a : α} {fs : FileSystem} : post a fs → Assures rely guarantee post (.done a) fs
  | step {c : Call} {next : Reply c → Proc α} {fs : FileSystem}
      (keeps : ∀ fs₁ y fs₂, rely fs fs₁ → Step (.step c next) fs₁ y fs₂ → guarantee fs₁ fs₂)
      (goes : ∀ fs₁ y fs₂, rely fs fs₁ → Step (.step c next) fs₁ y fs₂ →
        Assures rely guarantee post y fs₂) :
      Assures rely guarantee post (.step c next) fs

namespace Assures

variable {rely rely' guarantee guarantee' : FileSystem → FileSystem → Prop}
  {post post' : α → FileSystem → Prop} {x y : Proc α} {fs fs' : FileSystem}

theorem pure {a : α} (h : post a fs) : Assures rely guarantee post (Pure.pure a) fs :=
  .done h

/-- Less may be asked for. -/
theorem weaken (h : Assures rely guarantee post x fs)
    (hrely : ∀ fs fs', rely' fs fs' → rely fs fs')
    (hguarantee : ∀ fs fs', guarantee fs fs' → guarantee' fs fs')
    (hpost : ∀ a fs, post a fs → post' a fs) : Assures rely' guarantee' post' x fs := by
  induction h with
  | done hdone => exact .done (hpost _ _ hdone)
  | step keeps _ ih =>
    refine .step (fun fs₁ y fs₂ hr hstep => ?_) fun fs₁ y fs₂ hr hstep => ?_
    · exact hguarantee _ _ (keeps fs₁ y fs₂ (hrely _ _ hr) hstep)
    · exact ih fs₁ y fs₂ (hrely _ _ hr) hstep

theorem weaken_post (h : Assures rely guarantee post x fs)
    (hpost : ∀ a fs, post a fs → post' a fs) : Assures rely guarantee post' x fs :=
  h.weaken (fun _ _ hr => hr) (fun _ _ hg => hg) hpost

theorem weaken_guarantee (h : Assures rely guarantee post x fs)
    (hguarantee : ∀ fs fs', guarantee fs fs' → guarantee' fs fs') :
    Assures rely guarantee' post x fs :=
  h.weaken (fun _ _ hr => hr) hguarantee fun _ _ hp => hp

/-- One process after the other. -/
theorem bind {post : β → FileSystem → Prop} {f : α → Proc β}
    (h : Assures rely guarantee post' x fs)
    (hnext : ∀ a fs, post' a fs → Assures rely guarantee post (f a) fs) :
    Assures rely guarantee post (x >>= f) fs := by
  change Assures rely guarantee post (x.bind f) fs
  induction h with
  | done hdone => exact hnext _ _ hdone
  | @step c next fs keeps _ ih =>
    -- a step of both processes is a step of the first one
    have hinv : ∀ fs₁ z fs₂, Step ((Proc.step c next).bind f) fs₁ z fs₂ →
        ∃ y, Step (.step c next) fs₁ y fs₂ ∧ z = y.bind f := by
      intro fs₁ z fs₂ hstep
      cases hstep with
      | carried => exact ⟨_, .carried c next fs₁, rfl⟩
      | failed _ _ _ e => exact ⟨_, .failed c next fs₁ e, rfl⟩
      | portion l front rest _ _ hne => exact ⟨_, .portion l front rest next fs₁ hne, rfl⟩
    refine .step (fun fs₁ z fs₂ hr hstep => ?_) fun fs₁ z fs₂ hr hstep => ?_
    · obtain ⟨y, hy, -⟩ := hinv fs₁ z fs₂ hstep
      exact keeps fs₁ y fs₂ hr hy
    · obtain ⟨y, hy, rfl⟩ := hinv fs₁ z fs₂ hstep
      exact ih fs₁ y fs₂ hr hy

/-- A process whose result does not matter. -/
theorem discard {kept : FileSystem → Prop} (h : Assures rely guarantee (fun _ => kept) x fs) :
    Assures rely guarantee (fun _ => kept) (Functor.discard x) fs := by
  change Assures rely guarantee (fun _ => kept) (x >>= fun _ => Pure.pure PUnit.unit) fs
  exact h.bind fun _ _ hkept => .pure hkept

/-- What neither others nor the process itself change holds in the end. -/
theorem frame {kept : FileSystem → Prop} (h : Assures rely guarantee post x fs)
    (hrely : ∀ fs fs', kept fs → rely fs fs' → kept fs')
    (hguarantee : ∀ fs fs', kept fs → guarantee fs fs' → kept fs') (hkept : kept fs) :
    Assures rely guarantee (fun a fs => post a fs ∧ kept fs) x fs := by
  induction h with
  | done hdone => exact .done ⟨hdone, hkept⟩
  | step keeps _ ih =>
    refine .step keeps fun fs₁ y fs₂ hr hstep => ?_
    exact ih fs₁ y fs₂ hr hstep (hguarantee _ _ (hrely _ _ hkept hr) (keeps fs₁ y fs₂ hr hstep))

/-- A single call that is no write to a file. -/
theorem call {c : Call} {post : Reply c → FileSystem → Prop} (hc : c.isAppend = false)
    (hrefl : ∀ fs, guarantee fs fs)
    (hcarried : ∀ fs₁, rely fs fs₁ → guarantee fs₁ (fs₁.perform c).2 ∧
      post (fs₁.perform c).1 (fs₁.perform c).2)
    (hfailed : ∀ fs₁ e, rely fs fs₁ → post (c.failed e) fs₁) :
    Assures rely guarantee post (Proc.call c) fs := by
  refine .step (fun fs₁ y fs₂ hr hstep => ?_) fun fs₁ y fs₂ hr hstep => ?_
  · cases hstep with
    | carried => exact (hcarried fs₁ hr).1
    | failed => exact hrefl fs₁
    | portion => cases hc
  · cases hstep with
    | carried => exact .done (hcarried fs₁ hr).2
    | failed _ _ _ e => exact .done (hfailed fs₁ e hr)
    | portion => cases hc

/-- A write to a file in any number of portions. `written` tells what holds when so much is
there. -/
theorem append {l : Location} {data : Bytes} {written : Bytes → FileSystem → Prop}
    {post : Except IoError Unit → FileSystem → Prop} (hrefl : ∀ fs, guarantee fs fs)
    (hstable : ∀ front fs fs', written front fs → rely fs fs' → written front fs')
    (hwrite : ∀ front rest fs, written front fs →
      guarantee fs (fs.append l rest) ∧ written (front ++ rest) (fs.append l rest))
    (hdone : ∀ fs, written data fs → post (.ok ()) fs)
    (hfailed : ∀ front e fs, written front fs → post (.error e) fs) (h : written [] fs) :
    Assures rely guarantee post (Proc.call (.append l data)) fs := by
  suffices hrest : ∀ n rest front fs, rest.length = n → front ++ rest = data → written front fs →
      Assures rely guarantee post (Proc.call (.append l rest)) fs from
    hrest _ data [] fs rfl rfl h
  intro n
  induction n using Nat.strongRecOn with
  | ind n ih =>
    intro rest front fs hlen hdata hwritten
    have hlater : ∀ fs₁, rely fs fs₁ → written front fs₁ := fun fs₁ => hstable front fs fs₁ hwritten
    refine .step (fun fs₁ y fs₂ hr hstep => ?_) fun fs₁ y fs₂ hr hstep => ?_
    · cases hstep with
      | carried => exact (hwrite front rest fs₁ (hlater fs₁ hr)).1
      | failed => exact hrefl fs₁
      | portion _ part => exact (hwrite front part fs₁ (hlater fs₁ hr)).1
    · cases hstep with
      | carried =>
        have hend := (hwrite front rest fs₁ (hlater fs₁ hr)).2
        rw [hdata] at hend
        exact .done (hdone _ hend)
      | failed _ _ _ e => exact .done (hfailed front e fs₁ (hlater fs₁ hr))
      | portion _ part more _ _ hne =>
        have hpos := List.length_pos_iff.mpr hne
        rw [List.length_append] at hlen
        have hsplit : front ++ part ++ more = data := by rw [List.append_assoc, hdata]
        exact ih more.length (by omega) more (front ++ part) _ rfl hsplit
          (hwrite front part fs₁ (hlater fs₁ hr)).2

/-- What a process keeps to bears all that others do between its steps. -/
theorem rely_step (h : Assures rely guarantee post x fs)
    (htrans : ∀ fs fs₁ fs₂, rely fs fs₁ → rely fs₁ fs₂ → rely fs fs₂)
    (hpost : ∀ a fs fs', post a fs → rely fs fs' → post a fs') (hr : rely fs fs') :
    Assures rely guarantee post x fs' := by
  cases h with
  | done hdone => exact .done (hpost _ _ _ hdone hr)
  | step keeps goes =>
    exact .step (fun fs₁ y fs₂ hr' => keeps fs₁ y fs₂ (htrans _ _ _ hr hr'))
      fun fs₁ y fs₂ hr' => goes fs₁ y fs₂ (htrans _ _ _ hr hr')

theorem own_step (h : Assures rely guarantee post x fs) (hrefl : rely fs fs)
    (hstep : Step x fs y fs') : guarantee fs fs' ∧ Assures rely guarantee post y fs' := by
  cases h with
  | done => cases hstep
  | step keeps goes => exact ⟨keeps fs y fs' hrefl hstep, goes fs y fs' hrefl hstep⟩

/-- A process that is alone keeps to it all the time, and so keeps what its steps keep. -/
theorem steps {kept : FileSystem → Prop} (h : Assures rely guarantee post x fs)
    (hrefl : ∀ fs, rely fs fs) (hkeep : ∀ fs fs', kept fs → guarantee fs fs' → kept fs')
    (hsteps : Steps x fs y fs') (hkept : kept fs) :
    kept fs' ∧ Assures rely guarantee post y fs' := by
  induction hsteps with
  | refl => exact ⟨hkept, h⟩
  | head hstep _ ih =>
    obtain ⟨hg, hrest⟩ := h.own_step (hrefl _) hstep
    exact ih hrest (hkeep _ _ hkept hg)

theorem ends {kept : FileSystem → Prop} {a : α} (h : Assures rely guarantee post x fs)
    (hrefl : ∀ fs, rely fs fs) (hkeep : ∀ fs fs', kept fs → guarantee fs fs' → kept fs')
    (hends : x.Ends fs a fs') (hkept : kept fs) : kept fs' ∧ post a fs' := by
  obtain ⟨hend, hdone⟩ := h.steps hrefl hkeep hends hkept
  cases hdone with
  | done hpost => exact ⟨hend, hpost⟩

end Assures

end Proc

end SelfExtract
