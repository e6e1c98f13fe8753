import SelfExtract.Proofs.EntryConfinement
import SelfExtract.Proofs.FailingStores

/-!
# What a store spares

All that a store does belongs to its entry, whether or not it succeeds. No
temporary file remains in the cache, other entries are as they were, and what is
found under other keys is the same. The cache is as clean afterwards as it was.
-/
namespace SelfExtract

open FileSystem

namespace Cache

variable {fs fs₁ fs₂ fs' : FileSystem} {c : Cache} {key : String} {pid pid₂ : Nat}
  {q q₂ : CacheRequest} {r d here : Location} {name : Bytes} {b b₂ : Path}
  {out : Except Fault Path}

/-- In an entry that is there nothing is made. -/
theorem same_of_adds (hname : Path.FileName (Path.ofString key)) (hr : IsRoot fs c.root r)
    (hentry : fs.node? (r ++ [Path.ofString key]) = some .directory)
    (h : fs.AddsDirectories fs₁ (c.entry key).ancestors) : fs.Same fs₁ where
  current := h.current
  node l := by
    have hlink : ¬fs₁.LinkedDirectory r (Path.ofString key) := by
      rintro ⟨target, _, hnode, -⟩
      rw [h.grows.keeps _ _ hentry] at hnode
      cases hnode
    rcases adds_only_entry hname hr hlink h l with hsame | ⟨rfl, hnone, -⟩
    · exact hsame
    · rw [hentry] at hnone
      cases hnone

/-- The path of a program leads to nothing if there is none in the entry. -/
theorem absent_binary (hname : Path.FileName (Path.ofString key))
    (h : ∀ r, IsRoot fs c.root r → ¬fs.LinkedDirectory r (Path.ofString key) ∧
      fs.node? (r ++ [Path.ofString key] ++ [c.programName]) = none) :
    fs.Absent (c.binary key) := by
  intro f hf
  obtain ⟨d, hnames, rfl⟩ := Names.of_lastName hf (.join _ c.fileName_programName) fun _ _ _ _ =>
    rfl
  obtain ⟨r, hr, hplace⟩ := isRoot_entry hname (isRoot_of_names c.fileName_programName hnames).1
  obtain ⟨hlink, hnone⟩ := h r hr
  obtain rfl := hplace.resolve_right hlink
  exact hnone

/-- Whatever a store does, a link to a directory was one before. -/
theorem Stored.linkedDirectory (h : Stored c q fs d (out, fs'))
    (hlink : fs'.LinkedDirectory here name) : fs.LinkedDirectory here name := by
  cases h with
  | @done fs₁ _ hfit hdir hdir₂ hwith hwith₂ =>
    refine (Stored.done hfit hdir hdir₂ hwith hwith₂).sameBut.linkedDirectory (d := d)
      (fun m hm => ?_) hlink
    simp only [List.mem_cons, List.not_mem_nil, or_false] at hm
    rcases hm with rfl | rfl
    · rw [hwith₂.other (place_ne d (ne_notesName c)), hwith.self]
      exact ⟨free_file _ _, _, c.fileName_programName, rfl⟩
    · rw [hwith₂.self]
      exact ⟨free_file _ _, _, fileName_notesName, rfl⟩
  | unwritten hsame => exact (hsame.sameBut []).linkedDirectory (d := d) nofun hlink
  | withdrawn _ hwith =>
    refine hwith.sameBut.linkedDirectory (d := d) (fun m hm => ?_) hlink
    obtain rfl := List.mem_singleton.mp hm
    exact ⟨hwith.self ▸ free_none, _, c.fileName_programName, rfl⟩

theorem Stored.isTree (h : Stored c q fs d (out, fs')) (htree : fs.IsTree)
    (hdir : fs.node? d = some .directory) : fs'.IsTree := by
  cases h with
  | @done fs₁ _ _ hold hold₂ hwith hwith₂ =>
    refine (htree.of_with hwith hdir hold).of_with hwith₂ ?_ ?_
    · rwa [hwith.other (by simp)]
    · rwa [hwith.other (place_ne d (ne_notesName c).symm)]
  | unwritten hsame =>
    exact ⟨by rw [hsame.node, hsame.current, htree.current],
      fun here name hno => by rw [hsame.node, htree.parent here name (by rwa [← hsame.node])]⟩
  | withdrawn hold hwith => exact htree.of_with hwith hdir hold

/-- What a store leaves alone: all that is different belongs to its entry, it leaves no temporary
file, and the same is found under other keys. -/
structure Spares (c : Cache) (key : String) (pid : Nat) (fs fs' : FileSystem) : Prop where
  confined : Confined fs fs' c key
  temporaries : ∀ r here name, IsRoot fs' c.root r → r <+: here →
    fs'.node? (here ++ [Proc.temporary pid name]) = none
  entries : ∀ r k below, IsRoot fs' c.root r → k ≠ Path.ofString key →
    fs'.node? (r ++ k :: below) = fs.node? (r ++ k :: below)
  lookup : ∀ k size, Other key k →
    ((c.lookup k size).run fs').1 = ((c.lookup k size).run fs).1
  notes : ∀ k s, Other key k → c.InPlace k fs →
    (((c.readSidecar k).run fs').1 = .ok (some s) ↔ ((c.readSidecar k).run fs).1 = .ok (some s))

theorem Beside.spares (h : c.Beside key fs fs') (hconfined : Confined fs fs' c key)
    (htemps : ∀ r here name, IsRoot fs' c.root r → r <+: here →
      fs'.node? (here ++ [Proc.temporary pid name]) = none) : c.Spares key pid fs fs' where
  confined := hconfined
  temporaries := htemps
  entries := h.node
  lookup _ size hk := h.lookup hk size
  notes _ s hk hplace := h.readSidecar_iff hk hplace s

section Directories

variable (hclean : c.Clean key pid fs) (hname : Path.FileName (Path.ofString key))
  (h : fs.AddsDirectories fs₁ (c.entry key).ancestors)
include hclean hname h

/-- Other entries do not come to be by making directories. -/
theorem Clean.node_other (hr : IsRoot fs₁ c.root r) {k : Bytes} (hk : k ≠ Path.ofString key)
    (below : List Bytes) : fs₁.node? (r ++ k :: below) = fs.node? (r ++ k :: below) := by
  rcases hclean.fresh fs₁ r h hr with hold | hnew
  · have hlink := hclean.links fs₁ r r (Path.ofString key) h hr (List.prefix_refl r)
    rcases adds_only_entry hname hold hlink h (r ++ k :: below) with hsame | ⟨heq, -⟩
    · exact hsame
    · exact absurd (List.cons.inj (List.append_cancel_left heq)).1 hk
  · have hnone : fs₁.node? (r ++ k :: below) = none := by
      by_contra hsome
      exact hk (List.cons.inj (hnew k below hsome)).1
    rw [hnone]
    cases hnode : fs.node? (r ++ k :: below) with
    | none => rfl
    | some n =>
      rw [h.grows.keeps _ _ hnode] at hnone
      cases hnone

theorem Beside.of_adds : c.Beside key fs fs₁ where
  tree := hclean.tree
  current := h.current
  there _ hr := h.grows.existing hr
  node _ _ below hr hk := hclean.node_other hname h hr hk below
  made r hr := (hclean.fresh fs₁ r h hr).imp_right fun hnew =>
    ⟨⟨fs₁, h.grows, hr⟩, fun k below hk => by
      by_contra hsome
      exact hk (List.cons.inj (hnew k below hsome)).1⟩
  unlinked r k hr := hclean.links fs r r k (.refl fs _) hr (List.prefix_refl r)
  unlinked' r k hr := hclean.links fs₁ r r k h hr (List.prefix_refl r)

omit hname in
/-- A cache is as clean as before when directories were made. -/
theorem Clean.of_adds : c.Clean key pid fs₁ where
  tree := h.isTree hclean.tree
  links fs₂ r here name h₂ := hclean.links fs₂ r here name (h.trans h₂)
  temporaries fs₂ r here name h₂ := hclean.temporaries fs₂ r here name (h.trans h₂)
  fresh fs₂ r h₂ hr := (hclean.fresh fs₂ r (h.trans h₂) hr).imp_left h.grows.existing

/-- The program is as before when directories were made, or there is none. -/
theorem Clean.program_kept : fs₁.Absent (c.binary key) ∨
    fs₁.resolve false (c.binary key) = fs.resolve false (c.binary key) := by
  by_cases habsent : ∀ r, IsRoot fs₁ c.root r →
      fs₁.node? (r ++ [Path.ofString key] ++ [c.programName]) = none
  · exact .inl (absent_binary hname fun r hr =>
      ⟨hclean.links fs₁ r r _ h hr (List.prefix_refl r), habsent r hr⟩)
  · obtain ⟨r, hr, hsome⟩ : ∃ r, IsRoot fs₁ c.root r ∧
        fs₁.node? (r ++ [Path.ofString key] ++ [c.programName]) ≠ none := by
      simpa using habsent
    rcases hclean.fresh fs₁ r h hr with hold | hnew
    · have hlink := hclean.links fs₁ r r (Path.ofString key) h hr (List.prefix_refl r)
      have honly := adds_only_entry hname hold hlink h
      refine .inr (Same.resolve ⟨h.current, fun l => ?_⟩ false _)
      rcases honly l with hsame | ⟨rfl, hnone, -⟩
      · exact hsame
      · -- a new entry has no program
        refine absurd ?_ hsome
        rw [(honly _).resolve_right fun hnew => by simpa using hnew.1]
        exact hclean.tree.parent _ _ (by simp [hnone])
    · rw [List.append_assoc] at hsome
      simpa using hnew _ _ hsome

end Directories

section Stores

variable (hclean : c.Clean q.key pid fs) (hadds : fs.AddsDirectories fs₁ (c.entry q.key).ancestors)
  (hr : IsRoot fs₁ c.root r)
include hclean hadds hr

theorem Clean.unlinked (name : Bytes) :
    ¬fs₁.LinkedDirectory (r ++ [Path.ofString q.key]) name :=
  hclean.links fs₁ r _ name hadds hr (List.prefix_append r _)

variable (h : Stored c q fs₁ (r ++ [Path.ofString q.key]) (out, fs'))
include h

theorem Stored.isRoot : IsRoot fs' c.root r :=
  h.existing (hclean.unlinked hadds hr) hr

theorem Beside.of_stored (hname : Path.FileName (Path.ofString q.key)) : c.Beside q.key fs fs' := by
  have hmade := Beside.of_adds hclean hname hadds
  have hroot := h.isRoot hclean hadds hr
  have hnode : ∀ k below, k ≠ Path.ofString q.key →
      fs'.node? (r ++ k :: below) = fs₁.node? (r ++ k :: below) :=
    fun k below hk => h.sameBut.node _ (by simp [hk])
  refine ⟨hmade.tree, h.sameBut.current.trans hmade.current, fun r' hr' => ?_,
    fun r' k below hr' hk => ?_, fun r' hr' => ?_, hmade.unlinked, fun r' k hr' hlink => ?_⟩
  · exact h.existing (hclean.unlinked hadds hr) (hmade.there r' hr')
  · obtain rfl := hroot.unique hr'
    exact (hnode k below hk).trans (hmade.node r k below hr hk)
  · obtain rfl := hroot.unique hr'
    exact (hmade.made r hr).imp_right fun ⟨hexists, hnone⟩ =>
      ⟨hexists, fun k below hk => (hnode k below hk).trans (hnone k below hk)⟩
  · obtain rfl := hroot.unique hr'
    exact hmade.unlinked' r k hr (h.linkedDirectory hlink)

/-- No file has the name of a temporary one. -/
theorem Stored.temporaries (hhere : r <+: here) (name : Bytes) :
    fs'.node? (here ++ [Proc.temporary pid name]) = none := by
  rw [h.sameBut.node _, hclean.temporaries fs₁ r here name hadds hr hhere]
  intro hm
  simp only [List.mem_cons, List.not_mem_nil, or_false] at hm
  rcases hm with heq | heq
  · exact c.programName_ne_temporary pid name
      (List.singleton_inj.mp (List.append_inj' heq rfl).2).symm
  · exact notesName_ne_temporary pid name
      (List.singleton_inj.mp (List.append_inj' heq rfl).2).symm

/-- A cache is as clean as before when an entry was stored. -/
theorem Clean.stored
    (he : fs₁.existing (c.entry q.key) = .ok (r ++ [Path.ofString q.key], .directory))
    (hname : Path.FileName (Path.ofString q.key)) : c.Clean q.key pid fs' := by
  have hroot := h.isRoot hclean hadds hr
  have hdir := (existing_eq_ok_iff.mp he).node
  have hdir' := (existing_eq_ok_iff.mp (h.existing (hclean.unlinked hadds hr) he)).node
  have hsame : ∀ fs₂, fs'.AddsDirectories fs₂ (c.entry q.key).ancestors → fs'.Same fs₂ :=
    fun fs₂ => same_of_adds hname hroot hdir'
  have hunique : ∀ {fs₂ r₂}, fs'.AddsDirectories fs₂ (c.entry q.key).ancestors →
      IsRoot fs₂ c.root r₂ → r = r₂ :=
    fun hadds₂ hr₂ => IsRoot.unique (hadds₂.grows.existing hroot) hr₂
  refine ⟨h.isTree (hadds.isTree hclean.tree) hdir,
    fun fs₂ r₂ here name hadds₂ hr₂ hhere hlink => ?_,
    fun fs₂ r₂ here name hadds₂ hr₂ hhere => ?_, fun fs₂ r₂ hadds₂ hr₂ => ?_⟩
  · obtain rfl := hunique hadds₂ hr₂
    have hlink' := ((hsame fs₂ hadds₂).sameBut []).linkedDirectory (d := []) nofun hlink
    exact hclean.links fs₁ r here name hadds hr hhere (h.linkedDirectory hlink')
  · obtain rfl := hunique hadds₂ hr₂
    rw [(hsame fs₂ hadds₂).node, h.temporaries hclean hadds hr hhere]
  · obtain rfl := hunique hadds₂ hr₂
    exact .inl hroot

end Stores

end Cache

end SelfExtract
