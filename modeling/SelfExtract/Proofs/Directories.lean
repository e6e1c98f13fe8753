import SelfExtract.Proofs.SystemCalls

/-!
# Making directories only adds directories

Whatever happens on the way, all that `makeDirectories` does is to put
directories where nothing was, and each of them is one of those that its path
goes through. When it succeeds the directory is there.
-/
namespace SelfExtract

namespace FileSystem

/-- The second file system has more directories than the first, all on the way of some paths. -/
structure AddsDirectories (fs fs' : FileSystem) (paths : List Path) : Prop where
  current : fs'.current = fs.current
  node : ∀ l, fs'.node? l = fs.node? l ∨ fs.node? l = none ∧ fs'.node? l = some .directory ∧
    ∃ p ∈ paths, fs'.existing p = .ok (l, .directory)

namespace AddsDirectories

variable {fs fs₁ fs₂ : FileSystem} {paths more : List Path}

theorem refl (fs : FileSystem) (paths : List Path) : fs.AddsDirectories fs paths :=
  ⟨rfl, fun _ => .inl rfl⟩

theorem grows (h : fs.AddsDirectories fs₁ paths) : fs.Extends fs₁ where
  current := h.current
  keeps l n hn := by
    rcases h.node l with hl | ⟨hl, -⟩
    · rw [hl, hn]
    · rw [hl] at hn
      cases hn

theorem trans (h₁ : fs.AddsDirectories fs₁ paths) (h₂ : fs₁.AddsDirectories fs₂ paths) :
    fs.AddsDirectories fs₂ paths where
  current := h₂.current.trans h₁.current
  node l := by
    rcases h₁.node l with hl | ⟨hnone, hdir, p, hp, hex⟩
    · rw [← hl]
      exact h₂.node l
    · exact .inr ⟨hnone, h₂.grows.keeps l _ hdir, p, hp, h₂.grows.existing hex⟩

theorem subset (h : fs.AddsDirectories fs₁ paths) (hsub : paths ⊆ more) :
    fs.AddsDirectories fs₁ more where
  current := h.current
  node l := by
    rcases h.node l with hl | ⟨hnone, hdir, p, hp, hex⟩
    · exact .inl hl
    · exact .inr ⟨hnone, hdir, p, hsub hp, hex⟩

end AddsDirectories

/-- One call makes one directory, where nothing was. -/
theorem makeDirectory_eq_ok {fs fs' : FileSystem} {p : Path} (h : fs.makeDirectory p = .ok fs') :
    fs.AddsDirectories fs' [p] ∧ ∃ l, fs'.existing p = .ok (l, .directory) := by
  obtain ⟨f, hf, h⟩ := bind_eq_ok.mp h
  cases hn : f.node with
  | some n =>
    rw [hn] at h
    cases h
  | none =>
    rw [hn] at h
    cases h
    have hnone : fs.node? f.location = none := by rw [← resolve_node hf, hn]
    have hne : f.location ≠ [] := ne_nil_of_absent (by rw [hnone]; exact nofun)
    have hwith := (With.refl fs f.location).put hne .directory
    have hex := existing_of_resolve hf (hwith.grows hnone) hwith.self
    refine ⟨⟨rfl, fun l => ?_⟩, f.location, hex⟩
    by_cases hl : l = f.location
    · subst hl
      exact .inr ⟨hnone, hwith.self, p, List.mem_singleton_self p, hex⟩
    · exact .inl (hwith.other hl)

theorem isDirectory_iff {fs : FileSystem} {p : Path} :
    fs.isDirectory p = true ↔ ∃ l, fs.existing p = .ok (l, .directory) := by
  rw [isDirectory]
  split
  · next l h => simp [h]
  · next h =>
    simp only [Bool.false_eq_true, false_iff, not_exists]
    exact fun l hl => h l hl

structure Ensures (fs : FileSystem) (paths : List Path) (p : Path)
    (out : Except IoError Unit × FileSystem) : Prop where
  adds : fs.AddsDirectories out.2 paths
  leads : out.1 = .ok () → ∃ l, out.2.existing p = .ok (l, .directory)

theorem Ensures.after {fs fs₁ : FileSystem} {paths : List Path} {p : Path}
    {out : Except IoError Unit × FileSystem} (hadds : fs.AddsDirectories fs₁ paths)
    (h : fs₁.Ensures paths p out) : fs.Ensures paths p out :=
  ⟨hadds.trans h.adds, h.leads⟩

theorem Ensures.subset {fs : FileSystem} {paths more : List Path} {p : Path}
    {out : Except IoError Unit × FileSystem} (h : fs.Ensures paths p out) (hsub : paths ⊆ more) :
    fs.Ensures more p out :=
  ⟨h.adds.subset hsub, h.leads⟩

/-- A call that makes a directory, whatever comes of it. -/
theorem perform_makeDirectory (fs : FileSystem) (p : Path) :
    fs.Ensures [p] p (fs.perform (.makeDirectory p)) := by
  rw [perform]
  cases h : fs.makeDirectory p with
  | error e => exact ⟨.refl fs _, nofun⟩
  | ok fs' =>
    obtain ⟨hadds, hex⟩ := makeDirectory_eq_ok h
    exact ⟨hadds, fun _ => hex⟩

end FileSystem

namespace Proc

open FileSystem

/-- A directory that is there already is enough. -/
theorem ensures_isDirectory (fs : FileSystem) (paths : List Path) (p : Path) (e : IoError) :
    fs.Ensures paths p ((do
      return if ← call (.isDirectory p) then .ok () else .error e :
        Proc (Except IoError Unit)).run fs) := by
  rw [run_bind, run_call, perform, run_pure]
  refine ⟨.refl fs paths, fun hok => ?_⟩
  cases h : fs.isDirectory p with
  | false => simp [h] at hok
  | true => exact isDirectory_iff.mp h

/-- Directories above are made only when one is missing. -/
theorem run_makeDirectoriesIn_cons (p : Path) (above : List Path) {fs : FileSystem}
    (h : fs.makeDirectory p ≠ .error .notFound) :
    ((makeDirectoriesIn (p :: above)).run fs).2 = (fs.perform (.makeDirectory p)).2 := by
  rw [makeDirectoriesIn, run_bind, run_call, perform]
  cases hmake : fs.makeDirectory p with
  | ok fs' => rfl
  | error e =>
    simp only [change]
    split
    · rfl
    · next heq =>
      cases heq
      exact absurd hmake h
    · rw [run_bind, run_call, perform, run_pure]

/-- One more directory below those that another process makes. -/
theorem ensures_cons (p : Path) (above : List Path)
    (habove : ∀ fs : FileSystem, fs.AddsDirectories ((makeDirectoriesIn above).run fs).2 above)
    (fs : FileSystem) : fs.Ensures (p :: above) p ((makeDirectoriesIn (p :: above)).run fs) := by
  have hhead : [p] ⊆ p :: above := by simp
  have hmake := fun fs : FileSystem => (perform_makeDirectory fs p).subset hhead
  have hfirst := hmake fs
  rw [makeDirectoriesIn, run_bind, run_call]
  generalize fs.perform (.makeDirectory p) = out₁ at hfirst
  obtain ⟨r₁, fs₁⟩ := out₁
  split
  · exact ⟨hfirst.adds, fun _ => hfirst.leads ‹_›⟩
  · have hadds := hfirst.adds.trans ((habove fs₁).subset (List.subset_cons_self p above))
    rw [run_bind]
    generalize (makeDirectoriesIn above).run fs₁ = out₂ at hadds
    obtain ⟨r₂, fs₂⟩ := out₂
    split
    · exact ⟨hadds, nofun⟩
    · have hagain := (hmake fs₂).after hadds
      rw [run_bind, run_call]
      generalize fs₂.perform (.makeDirectory p) = out₃ at hagain
      obtain ⟨r₃, fs₃⟩ := out₃
      split
      · exact ⟨hagain.adds, fun _ => hagain.leads ‹_›⟩
      · exact (ensures_isDirectory fs₃ (p :: above) p _).after hagain.adds
  · exact (ensures_isDirectory fs₁ (p :: above) p _).after hfirst.adds

theorem addsDirectories_makeDirectoriesIn (paths : List Path) (fs : FileSystem) :
    fs.AddsDirectories ((makeDirectoriesIn paths).run fs).2 paths := by
  induction paths generalizing fs with
  | nil => exact .refl fs []
  | cons p above ih => exact (ensures_cons p above ih fs).adds

/-- Only directories are added, and in the end the path leads to one. -/
theorem ensures_makeDirectories {p : Path} (hp : p ≠ []) (fs : FileSystem) :
    fs.Ensures p.ancestors p ((makeDirectories p).run fs) := by
  rw [makeDirectories, Path.ancestors, if_neg (by simpa using hp)]
  exact ensures_cons p _ (addsDirectories_makeDirectoriesIn _) fs

end Proc

end SelfExtract
