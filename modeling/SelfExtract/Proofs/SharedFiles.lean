import SelfExtract.Proofs.Steps

/-!
# Processes that share a file system

The processes take their steps in any order, and each of them may crash before
any step. What all of them keep holds in every state that is reached, if each
one bears what the others do.
-/
namespace SelfExtract

/-- A file system and the processes that use it; one that has crashed is gone. -/
structure Shared (ι α : Type) where
  files : FileSystem
  running : ι → Option (Proc α)

namespace Shared

variable {ι α : Type} [DecidableEq ι]

/-- The processes when one of them has changed. -/
def replace (running : ι → Option (Proc α)) (i : ι) (x : Option (Proc α)) :
    ι → Option (Proc α) :=
  fun j => if j = i then x else running j

@[simp] theorem replace_self (running : ι → Option (Proc α)) (i : ι) (x : Option (Proc α)) :
    replace running i x i = x :=
  if_pos rfl

theorem replace_other (running : ι → Option (Proc α)) {i j : ι} (x : Option (Proc α))
    (h : j ≠ i) : replace running i x j = running j :=
  if_neg h

inductive Step : Shared ι α → Shared ι α → Prop
  | moves {s : Shared ι α} {i : ι} {x y : Proc α} {fs : FileSystem} :
      s.running i = some x → Proc.Step x s.files y fs →
      Step s ⟨fs, replace s.running i (some y)⟩
  | crashes {s : Shared ι α} {i : ι} : Step s ⟨s.files, replace s.running i none⟩

inductive Reaches (s : Shared ι α) : Shared ι α → Prop
  | start : Reaches s s
  | step {t u : Shared ι α} : Reaches s t → Step t u → Reaches s u

/-- One process can go on alone. -/
theorem Reaches.steps {s t : Shared ι α} {i : ι} {x y : Proc α} {fs : FileSystem}
    (h : Reaches s t) (hx : t.running i = some x) (hsteps : Proc.Steps x t.files y fs) :
    ∃ u, Reaches s u ∧ u.files = fs ∧ u.running i = some y := by
  generalize hfiles : t.files = before at hsteps
  induction hsteps generalizing t with
  | refl => exact ⟨t, h, hfiles, hx⟩
  | head hstep _ ih =>
    subst hfiles
    exact ih (h.step (.moves hx hstep)) (replace_self _ i _) rfl

section Invariants

variable {rely guarantee : ι → FileSystem → FileSystem → Prop}
  {post : ι → α → FileSystem → Prop} {kept : FileSystem → Prop}

/-- What is kept by every process of which each bears the others. -/
structure Invariant (rely guarantee : ι → FileSystem → FileSystem → Prop)
    (post : ι → α → FileSystem → Prop) (kept : FileSystem → Prop) (s : Shared ι α) : Prop where
  kept : kept s.files
  assures : ∀ i x, s.running i = some x →
    Proc.Assures (rely i) (guarantee i) (post i) x s.files

variable (hrefl : ∀ i fs, rely i fs fs)
  (htrans : ∀ i fs fs₁ fs₂, rely i fs fs₁ → rely i fs₁ fs₂ → rely i fs fs₂)
  (hpost : ∀ i a fs fs', post i a fs → rely i fs fs' → post i a fs')
  (hothers : ∀ i j fs fs', i ≠ j → guarantee i fs fs' → rely j fs fs')
  (hkept : ∀ i fs fs', kept fs → guarantee i fs fs' → kept fs')
include hrefl htrans hpost hothers hkept

theorem Invariant.step {s t : Shared ι α} (h : Invariant rely guarantee post kept s)
    (hstep : Step s t) : Invariant rely guarantee post kept t := by
  cases hstep with
  | @moves i x y fs hx hmove =>
    obtain ⟨hown, hrest⟩ := (h.assures i x hx).own_step (hrefl i _) hmove
    refine ⟨hkept i _ _ h.kept hown, fun j z (hz : replace s.running i (some y) j = some z) => ?_⟩
    by_cases hj : j = i
    · subst hj
      rw [replace_self] at hz
      obtain rfl := Option.some.inj hz
      exact hrest
    · rw [replace_other _ _ hj] at hz
      exact (h.assures j z hz).rely_step (htrans j) (hpost j) (hothers i j _ _ (Ne.symm hj) hown)
  | @crashes i =>
    refine ⟨h.kept, fun j z (hz : replace s.running i none j = some z) => ?_⟩
    by_cases hj : j = i
    · subst hj
      rw [replace_self] at hz
      cases hz
    · rw [replace_other _ _ hj] at hz
      exact h.assures j z hz

end Invariants

end Shared

end SelfExtract
