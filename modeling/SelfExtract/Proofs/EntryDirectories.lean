import SelfExtract.Proofs.CacheEntries
import SelfExtract.Proofs.SureCalls

/-!
# Making the directory of an entry when calls fail

Whichever calls fail, only directories are added, and they are on the way to the
entry. A file system that was a tree is one afterwards. Where the root of the
cache was there, the directory of the entry is the only one that can be new:
all that its path goes through before leads to directories already.
-/
namespace SelfExtract

namespace Path

theorem mem_names {p : Path} {n : Bytes} (h : n ∈ p.names) : n ≠ [] ∧ slash ∉ n := by
  induction hlen : p.length using Nat.strongRecOn generalizing p with
  | ind k ih =>
    by_cases hslash : slash ∈ p
    · obtain ⟨a, b, rfl⟩ := List.append_of_mem hslash
      rw [List.length_append, List.length_cons] at hlen
      rw [names_append_slash] at h
      rcases List.mem_append.mp h with h | h
      · exact ih a.length (by omega) h rfl
      · exact ih b.length (by omega) h rfl
    · by_cases hp : p = []
      · rw [hp] at h
        cases h
      · rw [names_of_no_slash hp hslash] at h
        obtain rfl := List.mem_singleton.mp h
        exact ⟨hp, hslash⟩

section Components

variable {absolute : Bool} {ns : List Bytes} (hns : ∀ n ∈ ns, n ≠ [] ∧ slash ∉ n)
include hns

/-- Any names, also dots, are those of the path that is made of them. -/
theorem names_ofComponents_of (absolute : Bool) : (ofComponents absolute ns).names = ns := by
  have hjoined : names ([slash].intercalate ns) = ns := by
    by_cases hne : ns = []
    · rw [hne]
      rfl
    · rw [names, List.splitOn_intercalate slash (fun n hn => (hns n hn).2) hne]
      exact List.filter_eq_self.mpr fun n hn => by simpa using (hns n hn).1
  cases absolute with
  | false => exact hjoined
  | true =>
    have hslash := names_append_slash [] ([slash].intercalate ns)
    rw [names_nil, List.nil_append, List.nil_append, hjoined] at hslash
    exact hslash

theorem isAbsolute_ofComponents_of (absolute : Bool) :
    (ofComponents absolute ns).isAbsolute = absolute := by
  cases absolute with
  | true => rfl
  | false =>
    cases ns with
    | nil => rfl
    | cons n r =>
      obtain ⟨hne, hslash⟩ := hns n List.mem_cons_self
      obtain ⟨b, n, rfl⟩ := List.exists_cons_of_ne_nil hne
      have hb : b ≠ slash := fun hb => hslash (hb ▸ List.mem_cons_self)
      cases r with
      | nil => simp [ofComponents, isAbsolute, hb]
      | cons m r => simp [ofComponents, isAbsolute, hb]

end Components

theorem mem_components {p : Path} {n : Bytes} (h : n ∈ p.components.2) : n ∈ p.names := by
  rw [components] at h
  split at h
  · next m r _ hnames =>
    rw [hnames]
    rcases List.mem_cons.mp h with rfl | h
    · exact List.mem_cons_self
    · exact List.mem_cons_of_mem m (List.mem_of_mem_filter h)
  · exact List.mem_of_mem_filter h

/-- The components of a path with one more name. -/
theorem components_join (root : Path) {q : Bytes} (hq : FileName q) :
    (root.join q).components = (root.isAbsolute, root.components.2 ++ [q]) := by
  have hdot : (q != dot) = true := by simpa using hq.not_dot
  rw [components, isAbsolute_join root hq.not_absolute, names_join root hq.not_absolute, hq.names,
    components]
  cases root.isAbsolute with
  | true => simp [hdot]
  | false =>
    cases root.names with
    | nil => simp
    | cons n r => simp [hdot]

/-- What a path with one more name goes through is made of the first components of the path. -/
theorem mem_ancestors_join {root p : Path} {q : Bytes} (hq : FileName q)
    (h : p ∈ (root.join q).ancestors) :
    p = root.join q ∨ ∃ k, p = ofComponents root.isAbsolute (root.components.2.take k) := by
  rw [ancestors] at h
  split at h
  · cases h
  · simp only [components_join root hq] at h
    rcases List.mem_cons.mp h with rfl | h
    · exact .inl rfl
    · obtain ⟨k, hk, rfl⟩ := List.mem_map.mp (List.mem_of_mem_filter h)
      rw [List.mem_reverse, List.mem_range, List.length_append, List.length_singleton] at hk
      exact .inr ⟨k, by rw [List.take_append_of_le_length (by omega)]⟩

end Path

namespace FileSystem

variable {fs fs₁ fs' : FileSystem} {paths : List Path} {links left : Nat} {place goal l : Location}
  {names : List Bytes} {p : Path}

theorem mem_nodes {n : Node} (hl : l ≠ []) (h : fs.node? l = some n) : (l, n) ∈ fs.nodes := by
  rw [node?, if_neg hl, List.lookup_eq_some_iff] at h
  obtain ⟨front, rest, hnodes, -⟩ := h
  rw [hnodes]
  simp

/-- Every object is in a directory, and the current directory is there. -/
structure IsTree (fs : FileSystem) : Prop where
  current : fs.node? fs.current = some .directory
  parent : ∀ here name, fs.node? here ≠ some .directory → fs.node? (here ++ [name]) = none

namespace IsTree

/-- All directories above a directory are there. -/
theorem above (h : fs.IsTree) (hl : fs.node? l = some .directory) :
    ∀ m, m <+: l → fs.node? m = some .directory := by
  induction l using List.reverseRecOn with
  | nil =>
    intro m hm
    rwa [List.prefix_nil.mp hm]
  | append_singleton l name ih =>
    intro m hm
    rcases List.prefix_concat_iff.mp hm with rfl | hm
    · exact hl
    · refine ih ?_ m hm
      by_contra hdir
      rw [h.parent l name hdir] at hl
      cases hl

theorem above_start (h : fs.IsTree) (p : Path) :
    ∀ m, m <+: fs.start p → fs.node? m = some .directory := by
  rw [start]
  split
  · intro m hm
    rw [List.prefix_nil.mp hm, node?_root]
  · exact h.above h.current

/-- Few objects can be looked at one by one. -/
theorem of_nodes (hcurrent : fs.node? fs.current = some .directory)
    (h : ∀ n ∈ fs.nodes, fs.node? n.1.dropLast = some .directory) : fs.IsTree := by
  refine ⟨hcurrent, fun here name hno => ?_⟩
  cases hnode : fs.node? (here ++ [name]) with
  | none => rfl
  | some n =>
    have habove := h _ (mem_nodes (List.concat_ne_nil name here) hnode)
    rw [List.dropLast_concat] at habove
    exact absurd habove hno

/-- A file comes or goes in a directory, where no directory was. -/
theorem of_with {o : Option Node} {d : Location} {name : Bytes} (h : fs.IsTree)
    (hwith : fs.With fs₁ (d ++ [name]) o) (hd : fs.node? d = some .directory)
    (hold : fs.node? (d ++ [name]) ≠ some .directory) : fs₁.IsTree := by
  have hkeep : ∀ l, fs.node? l = some .directory → fs₁.node? l = some .directory := by
    intro l hl
    rw [hwith.other, hl]
    rintro rfl
    exact hold hl
  refine ⟨?_, fun here last hdir => ?_⟩
  · rw [hwith.current]
    exact hkeep _ h.current
  · have hold' : fs.node? here ≠ some .directory := fun hhere => hdir (hkeep here hhere)
    rw [hwith.other, h.parent here last hold']
    intro heq
    obtain ⟨rfl, -⟩ := List.append_inj' heq rfl
    exact hold' hd

end IsTree

/-- A way to a directory that begins below directories ends below directories. -/
theorem Leads.above (h : fs.Leads links place names left goal)
    (hplace : ∀ m, m <+: place → fs.node? m = some .directory)
    (hgoal : fs.node? goal = some .directory) : ∀ m, m <+: goal → fs.node? m = some .directory := by
  induction h with
  | here => exact hplace
  | dot _ _ ih => exact ih hplace hgoal
  | dotDot _ _ ih => exact ih (fun m hm => hplace m (hm.trans (List.dropLast_prefix _))) hgoal
  | link _ _ _ _ _ ih =>
    refine ih ?_ hgoal
    split
    · intro m hm
      rw [List.prefix_nil.mp hm, node?_root]
    · exact hplace
  | object _ _ _ _ hrest ih =>
    refine ih (fun m hm => ?_) hgoal
    rcases List.prefix_concat_iff.mp hm with rfl | hm
    · exact hrest.directory_of_goal hgoal
    · exact hplace m hm

theorem AddsDirectories.isTree (h : fs.AddsDirectories fs₁ paths) (htree : fs.IsTree) :
    fs₁.IsTree := by
  have hkeep := h.grows.keeps
  refine ⟨?_, fun here name hdir => ?_⟩
  · rw [h.current]
    exact hkeep _ _ htree.current
  · have hold : fs.node? here ≠ some .directory := fun hhere => hdir (hkeep _ _ hhere)
    rcases h.node (here ++ [name]) with hsame | ⟨-, hnew, p, -, hp⟩
    · rw [hsame, htree.parent here name hold]
    · obtain ⟨-, ⟨left, hway⟩, -, -⟩ := existing_eq_ok_iff.mp hp
      refine absurd (hway.above ?_ hnew here (List.prefix_append here [name])) hdir
      rw [← start_congr rfl h.current.symm]
      exact fun m hm => hkeep _ _ (htree.above_start p m hm)

end FileSystem

namespace Proc

open FileSystem

variable {sure : Call → Prop} {fs fs₁ : FileSystem} {p : Path} {paths above : List Path}

/-- What making a directory comes to when any call may fail. -/
abbrev Makes (fs : FileSystem) (paths : List Path) (p : Path) :
    Except IoError Unit → FileSystem → Prop :=
  Attempt (fun _ fs' => fs.AddsDirectories fs' paths ∧ ∃ l, fs'.existing p = .ok (l, .directory))
    (fs.AddsDirectories · paths)

theorem upholds_makeDirectory (h : fs.AddsDirectories fs₁ paths) (hp : p ∈ paths) :
    Upholds sure (fs.AddsDirectories · paths) (Makes fs paths p) (call (.makeDirectory p)) fs₁ := by
  have hdone : Makes fs paths p (fs₁.perform (.makeDirectory p)).1
      (fs₁.perform (.makeDirectory p)).2 := by
    obtain ⟨hadds, hleads⟩ := perform_makeDirectory fs₁ p
    have hall := h.trans (hadds.subset (by simpa using hp))
    cases hr : (fs₁.perform (.makeDirectory p)).1 with
    | error e => exact .error hall
    | ok u => exact .ok ⟨hall, hleads hr⟩
  exact .call (c := .makeDirectory p) rfl h (hdone.either (fun _ _ h => h.1) fun _ h => h) hdone
    fun _ _ => .error h

/-- A directory that is there already is enough. -/
theorem upholds_isDirectory (h : fs.AddsDirectories fs₁ paths) (e : IoError) :
    Upholds sure (fs.AddsDirectories · paths) (Makes fs paths p) ((do
      return if ← call (.isDirectory p) then .ok () else .error e :
        Proc (Except IoError Unit))) fs₁ := by
  have hlook : Upholds sure (fs.AddsDirectories · paths)
      (fun r fs' => fs' = fs₁ ∧ (r = true → fs₁.isDirectory p = true)) (call (.isDirectory p)) fs₁ :=
    .look (c := .isDirectory p) rfl rfl h ⟨rfl, id⟩ fun _ => ⟨rfl, nofun⟩
  refine hlook.bind ?_
  rintro r fs₂ - ⟨rfl, hr⟩
  cases r with
  | false => exact .pure h (.error h)
  | true => exact .pure h (.ok ⟨h, isDirectory_iff.mp (hr rfl)⟩)

theorem upholds_makeDirectories_cons (hp : p ∈ paths)
    (habove : ∀ fs₁, fs.AddsDirectories fs₁ paths → Upholds sure (fs.AddsDirectories · paths)
      (fun _ => (fs.AddsDirectories · paths)) (makeDirectoriesIn above) fs₁)
    (h : fs.AddsDirectories fs₁ paths) :
    Upholds sure (fs.AddsDirectories · paths) (Makes fs paths p) (makeDirectoriesIn (p :: above))
      fs₁ := by
  rw [makeDirectoriesIn]
  refine (upholds_makeDirectory h hp).attempt (fun e fs₂ h₂ _ => ?_) fun _ _ h₂ hmade =>
    .pure h₂ (.ok hmade)
  split
  · next hok => cases hok
  · refine (habove fs₂ h₂).bind fun r fs₃ h₃ _ => ?_
    cases r with
    | error e => exact .pure h₃ (.error h₃)
    | ok u =>
      refine (upholds_makeDirectory h₃ hp).attempt (fun e fs₄ h₄ _ => ?_) fun _ _ h₄ hmade =>
        .pure h₄ (.ok hmade)
      exact upholds_isDirectory h₄ e
  · exact upholds_isDirectory h₂ _

theorem upholds_makeDirectoriesIn (hsub : above ⊆ paths) (h : fs.AddsDirectories fs₁ paths) :
    Upholds sure (fs.AddsDirectories · paths) (fun _ => (fs.AddsDirectories · paths))
      (makeDirectoriesIn above) fs₁ := by
  induction above generalizing fs₁ with
  | nil => exact .pure h h
  | cons p above ih =>
    obtain ⟨hp, habove⟩ := List.cons_subset.mp hsub
    refine (upholds_makeDirectories_cons hp (fun _ => ih habove) h).weaken_post ?_
    rintro r fs₂ (⟨hadds, -⟩ | hadds)
    · exact hadds
    · exact hadds

/-- Only directories are added, and the path leads to one if nothing fails. -/
theorem upholds_makeDirectories (hp : p ≠ []) (fs : FileSystem) :
    Upholds sure (fs.AddsDirectories · p.ancestors) (Makes fs p.ancestors p) (makeDirectories p)
      fs := by
  obtain ⟨above, habove⟩ : ∃ above, p.ancestors = p :: above := by
    rw [Path.ancestors, if_neg (by simpa using hp)]
    exact ⟨_, rfl⟩
  rw [makeDirectories, habove]
  exact upholds_makeDirectories_cons List.mem_cons_self
    (fun _ => upholds_makeDirectoriesIn (List.subset_cons_self p above)) (.refl fs _)

end Proc

namespace Cache

open FileSystem

variable {fs fs₁ : FileSystem} {root p : Path} {c : Cache} {key : String} {r l : Location}

/-- What the path of a root goes through leads to directories. -/
theorem IsRoot.leads_take (hr : IsRoot fs root r) (k : Nat)
    (hp : p = Path.ofComponents root.isAbsolute (root.components.2.take k)) :
    ∃ left goal, fs.Leads maxLinks (fs.start p) p.names left goal ∧
      fs.node? goal = some .directory := by
  have hns : ∀ n ∈ root.components.2.take k, n ≠ [] ∧ Path.slash ∉ n := fun n hn =>
    Path.mem_names (Path.mem_components (List.mem_of_mem_take hn))
  obtain ⟨hdir, after, hway⟩ := hr.way
  have hall := hway.components
  rw [← List.take_append_drop k root.components.2] at hall
  obtain ⟨left, goal, hfirst, hrest⟩ := hall.split
  refine ⟨left, goal, ?_, hrest.directory_of_goal hdir⟩
  rw [hp, Path.names_ofComponents_of hns,
    start_congr (Path.isAbsolute_ofComponents_of hns _) rfl]
  exact hfirst

/-- In a root that is there the directory of an entry is the only one that is new. -/
theorem adds_only_entry (hname : Path.FileName (Path.ofString key)) (hr : IsRoot fs c.root r)
    (hlink : ¬fs₁.LinkedDirectory r (Path.ofString key))
    (h : fs.AddsDirectories fs₁ (c.entry key).ancestors) (l : Location) :
    fs₁.node? l = fs.node? l ∨ l = r ++ [Path.ofString key] ∧ fs.node? l = none ∧
      fs₁.node? l = some .directory := by
  refine (h.node l).imp_right fun ⟨hnone, hdir, p, hp, hex⟩ => ⟨?_, hnone, hdir⟩
  have hr₁ : IsRoot fs₁ c.root r := h.grows.existing hr
  rcases Path.mem_ancestors_join hname hp with rfl | ⟨k, hk⟩
  · obtain ⟨r', hr', hplace⟩ := existing_entry hname hex
    obtain rfl := hr₁.unique hr'
    exact hplace.resolve_right hlink
  · -- it was there before
    obtain ⟨left, goal, hway, hgoal⟩ := hr.leads_take k hk
    obtain ⟨-, ⟨left', hway'⟩, -, -⟩ := existing_eq_ok_iff.mp hex
    have hgrown := hway.mono h.grows
    rw [start_congr rfl h.current] at hway'
    obtain rfl := hgrown.unique hway'
    rw [hgoal] at hnone
    cases hnone

end Cache

end SelfExtract
