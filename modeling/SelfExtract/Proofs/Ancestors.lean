import SelfExtract.Proofs.AtomicWrites

/-!
# Making directories where there are none

A path that is made of names has those of the directories above it as its
beginnings. From the first one on that is missing all of them are made.
-/
namespace SelfExtract

namespace Path

variable {absolute : Bool} {ns : List Bytes} {n : Bytes}

theorem ofComponents_singleton (absolute : Bool) (n : Bytes) :
    ofComponents absolute [n] = ofComponents absolute [] ++ n := by
  simp [ofComponents]

theorem ofComponents_concat (absolute : Bool) (hns : ns ≠ []) (n : Bytes) :
    ofComponents absolute (ns ++ [n]) = ofComponents absolute ns ++ slash :: n := by
  have hflat : ∀ ns : List Bytes, ns ≠ [] → ((ns ++ [n]).intersperse [slash]).flatten =
      (ns.intersperse [slash]).flatten ++ slash :: n := by
    intro ns hns
    induction ns with
    | nil => exact absurd rfl hns
    | cons a r ih =>
      cases r with
      | nil => simp
      | cons b r => simpa using ih (List.cons_ne_nil b r)
  rw [ofComponents, ofComponents, hflat ns hns, List.append_assoc]

theorem length_ofComponents_le (absolute : Bool) (ns : List Bytes) (n : Bytes) :
    (ofComponents absolute ns).length ≤ (ofComponents absolute (ns ++ [n])).length := by
  cases ns with
  | nil =>
    rw [List.nil_append, ofComponents_singleton, List.length_append]
    exact Nat.le_add_right _ _
  | cons a r =>
    rw [ofComponents_concat _ (List.cons_ne_nil a r), List.length_append]
    exact Nat.le_add_right _ _

theorem ofComponents_eq_nil (h : ofComponents absolute ns = []) (hns : ∀ n ∈ ns, FileName n) :
    absolute = false ∧ ns = [] := by
  cases absolute with
  | true => simp [ofComponents] at h
  | false =>
    refine ⟨rfl, ?_⟩
    rcases List.eq_nil_or_concat ns with rfl | ⟨r, n, rfl⟩
    · rfl
    · have hn := (hns n (by simp)).not_empty
      rw [List.concat_eq_append] at h
      cases r with
      | nil =>
        rw [List.nil_append, ofComponents_singleton] at h
        exact absurd (List.append_eq_nil_iff.mp h).2 hn
      | cons a r =>
        rw [ofComponents_concat _ (List.cons_ne_nil a r)] at h
        exact absurd (List.append_eq_nil_iff.mp h).2 (List.cons_ne_nil slash n)

/-- A name behind the names of a path. -/
theorem join_ofComponents (absolute : Bool) (hns : ∀ n ∈ ns, FileName n) (hn : FileName n) :
    (ofComponents absolute ns).join n = ofComponents absolute (ns ++ [n]) := by
  rw [join, if_neg (by simp [hn.not_absolute])]
  rcases List.eq_nil_or_concat ns with rfl | ⟨r, last, rfl⟩
  · rw [List.nil_append, ofComponents_singleton, if_pos]
    cases absolute <;> decide
  · have hlast : FileName last := hns last (by simp)
    rw [List.concat_eq_append] at hns ⊢
    have hasks : (ofComponents absolute (r ++ [last])).asksForDirectory = false := by
      cases r with
      | nil =>
        rw [List.nil_append, ofComponents_singleton]
        exact hlast.asksForDirectory_append _
      | cons a r =>
        rw [ofComponents_concat _ (List.cons_ne_nil a r), List.append_cons]
        exact hlast.asksForDirectory_append _
    have hne : ofComponents absolute (r ++ [last]) ≠ [] := fun h =>
      absurd (ofComponents_eq_nil h hns).2 (List.concat_ne_nil last r)
    rw [if_neg (by simp [hasks, hne]), ofComponents_concat _ (List.concat_ne_nil last r)]

theorem names_ofComponents (absolute : Bool) (hns : ∀ n ∈ ns, FileName n) :
    (ofComponents absolute ns).names = ns := by
  induction ns using List.reverseRecOn with
  | nil => cases absolute <;> decide
  | append_singleton r n ih =>
    have hn : FileName n := hns n (by simp)
    have hr : ∀ m ∈ r, FileName m := fun m hm => hns m (by simp [hm])
    rw [← join_ofComponents absolute hr hn, names_join _ hn.not_absolute, ih hr, hn.names]

theorem isAbsolute_ofComponents (absolute : Bool) (hns : ∀ n ∈ ns, FileName n) :
    (ofComponents absolute ns).isAbsolute = absolute := by
  induction ns using List.reverseRecOn with
  | nil => cases absolute <;> decide
  | append_singleton r n ih =>
    have hn : FileName n := hns n (by simp)
    have hr : ∀ m ∈ r, FileName m := fun m hm => hns m (by simp [hm])
    rw [← join_ofComponents absolute hr hn, isAbsolute_join _ hn.not_absolute, ih hr]

theorem components_ofComponents (absolute : Bool) (hns : ∀ n ∈ ns, FileName n) :
    (ofComponents absolute ns).components = (absolute, ns) := by
  have hdots : ∀ r : List Bytes, (∀ n ∈ r, FileName n) → r.filter (· != dot) = r := fun r hr =>
    List.filter_eq_self.mpr fun n hn => by simpa using (hr n hn).not_dot
  rw [components, isAbsolute_ofComponents absolute hns, names_ofComponents absolute hns]
  cases absolute with
  | true => simp [hdots ns hns]
  | false =>
    cases ns with
    | nil => rfl
    | cons n r => simp [hdots r fun m hm => hns m (List.mem_cons_of_mem n hm)]

/-- The directories above a path are those above the one that it is in, and that one. -/
theorem ancestors_concat (absolute : Bool) (hns : ∀ n ∈ ns, FileName n) (hn : FileName n) :
    ancestors (ofComponents absolute (ns ++ [n])) =
      ofComponents absolute (ns ++ [n]) :: ancestors (ofComponents absolute ns) := by
  have hall : ∀ m ∈ ns ++ [n], FileName m := by
    intro m hm
    rcases List.mem_append.mp hm with hm | hm
    · exact hns m hm
    · rwa [List.mem_singleton.mp hm]
  have hne : ofComponents absolute (ns ++ [n]) ≠ [] := fun h =>
    absurd (ofComponents_eq_nil h hall).2 (List.concat_ne_nil n ns)
  have htake : ((List.range ns.length).reverse.map fun k =>
      ofComponents absolute ((ns ++ [n]).take k)) =
        (List.range ns.length).reverse.map fun k => ofComponents absolute (ns.take k) := by
    refine List.map_congr_left fun k hk => ?_
    rw [List.mem_reverse, List.mem_range] at hk
    rw [List.take_append_of_le_length (Nat.le_of_lt hk)]
  rw [ancestors, if_neg (by simpa using hne), components_ofComponents absolute hall]
  simp only [List.length_append, List.length_singleton, List.range_succ, List.reverse_append,
    List.reverse_singleton, List.singleton_append, List.map_cons, htake, List.take_left']
  rw [ancestors, components_ofComponents absolute hns]
  by_cases hnil : ofComponents absolute ns = []
  · obtain ⟨rfl, rfl⟩ := ofComponents_eq_nil hnil hns
    rfl
  · rw [List.filter_cons_of_pos (by simpa using hnil), if_neg (by simpa using hnil)]

theorem no_nul_ofComponents (absolute : Bool) (hns : ∀ n ∈ ns, FileName n) :
    0 ∉ ofComponents absolute ns := by
  induction ns using List.reverseRecOn with
  | nil => cases absolute <;> decide
  | append_singleton r n ih =>
    have hn := (hns n (by simp)).no_nul
    have hr := ih fun m hm => hns m (by simp [hm])
    cases r with
    | nil =>
      rw [List.nil_append, ofComponents_singleton, List.mem_append, not_or]
      exact ⟨hr, hn⟩
    | cons a r =>
      rw [ofComponents_concat _ (List.cons_ne_nil a r), List.mem_append, List.mem_cons, not_or,
        not_or]
      exact ⟨hr, by decide, hn⟩

end Path

namespace FileSystem

variable {fs fs' : FileSystem} {absolute : Bool} {ns rest : List Bytes} {n : Bytes} {d : Location}

/-- A path made of names that can be looked at. -/
theorem valid_ofComponents (hns : ∀ n ∈ ns, Path.FileName n) (hne : ns ≠ [])
    (hshort : (Path.ofComponents absolute ns).length ≤ maxPath) :
    Valid (Path.ofComponents absolute ns) :=
  ⟨Path.no_nul_ofComponents absolute hns, fun h => hne (Path.ofComponents_eq_nil h hns).2, hshort⟩

theorem Names.makeDirectory {p : Path} (h : fs.Names p d n) (hnode : fs.node? (d ++ [n]) = none) :
    fs.makeDirectory p = .ok (fs.put (d ++ [n]) .directory) := by
  rw [FileSystem.makeDirectory, h.resolve fun _ _ => rfl]
  simp only [bind, Except.bind, hnode]
  rfl

structure Way (fs : FileSystem) (absolute : Bool) (ns : List Bytes) (d : Location) : Prop where
  files : ∀ n ∈ ns, Path.FileName n
  leads : ∃ left, fs.Leads maxLinks (if absolute then [] else fs.current) ns left d
  directory : fs.node? d = some .directory

namespace Way

theorem mono (h : fs.Way absolute ns d) (hext : fs.Extends fs') : fs'.Way absolute ns d := by
  obtain ⟨left, hway⟩ := h.leads
  refine ⟨h.files, ⟨left, ?_⟩, hext.keeps d _ h.directory⟩
  rw [hext.current]
  exact hway.mono hext

theorem start_eq (absolute : Bool) (hns : ∀ n ∈ ns, Path.FileName n) :
    fs.start (Path.ofComponents absolute ns) = if absolute then [] else fs.current := by
  rw [start, Path.isAbsolute_ofComponents absolute hns]

/-- The path of the names leads to the directory. -/
theorem existing (h : fs.Way absolute ns d) (hne : ns ≠ [])
    (hshort : (Path.ofComponents absolute ns).length ≤ maxPath) :
    fs.existing (Path.ofComponents absolute ns) = .ok (d, .directory) := by
  refine existing_eq_ok_iff.mpr
    ⟨valid_ofComponents h.files hne hshort, ?_, h.directory, fun _ => rfl⟩
  rw [Path.names_ofComponents absolute h.files, start_eq absolute h.files]
  exact h.leads

section Longer

variable (h : fs.Way absolute ns d) (hn : Path.FileName n) (hlen : n.length ≤ maxName)
include h hn hlen

theorem concat (hnode : fs.node? (d ++ [n]) = some .directory) :
    fs.Way absolute (ns ++ [n]) (d ++ [n]) := by
  obtain ⟨left, hway⟩ := h.leads
  refine ⟨List.forall_mem_append.mpr ⟨h.files, List.forall_mem_singleton.mpr hn⟩,
    ⟨left, hway.trans ?_⟩, hnode⟩
  exact .object h.directory ⟨hn.not_dot, hn.not_dotDot, hlen⟩ hnode isObject_directory .here

/-- One more name stands for a file in the directory. -/
theorem names (hshort : (Path.ofComponents absolute (ns ++ [n])).length ≤ maxPath) :
    fs.Names (Path.ofComponents absolute (ns ++ [n])) d n := by
  obtain ⟨left, hway⟩ := h.leads
  have hall : ∀ m ∈ ns ++ [n], Path.FileName m :=
    List.forall_mem_append.mpr ⟨h.files, List.forall_mem_singleton.mpr hn⟩
  refine ⟨valid_ofComponents hall (List.concat_ne_nil n ns) hshort, ?_,
    ⟨hn.not_dot, hn.not_dotDot, hlen⟩, h.directory, ns, left,
    Path.names_ofComponents absolute hall, ?_⟩
  · rw [← Path.join_ofComponents absolute h.files hn]
    exact (Path.LastName.join _ hn).asksForDirectory
  · rw [start_eq absolute hall]
    exact hway

/-- Behind a name that is missing nothing can be made. -/
theorem makeDirectory_missing (hnode : fs.node? (d ++ [n]) = none) (hrest : rest ≠ [])
    (hfiles : ∀ m ∈ rest, Path.FileName m)
    (hshort : (Path.ofComponents absolute (ns ++ n :: rest)).length ≤ maxPath) :
    fs.makeDirectory (Path.ofComponents absolute (ns ++ n :: rest)) = .error .notFound := by
  obtain ⟨left, hway⟩ := h.leads
  have hall : ∀ m ∈ ns ++ n :: rest, Path.FileName m :=
    List.forall_mem_append.mpr ⟨h.files, List.forall_mem_cons.mpr ⟨hn, hfiles⟩⟩
  have hvalid := valid_ofComponents hall (List.append_ne_nil_of_right_ne_nil ns (by simp)) hshort
  rw [FileSystem.makeDirectory, hvalid.resolve, Path.names_ofComponents absolute hall,
    start_eq absolute hall, hway.walk_append (List.cons_ne_nil n rest),
    walk_missing h.directory ⟨hn.not_dot, hn.not_dotDot, hlen⟩ hnode hrest]
  rfl

end Longer

end Way

end FileSystem

namespace Proc

open FileSystem

variable {fs fs₁ fs₂ : FileSystem} {p : Path} {above : List Path} {absolute : Bool}
  {ns rest : List Bytes} {n : Bytes} {d : Location}

theorem run_makeDirectoriesIn_new (above : List Path) (h : fs.makeDirectory p = .ok fs₁) :
    (makeDirectoriesIn (p :: above)).run fs = (.ok (), fs₁) := by
  rw [makeDirectoriesIn, run_bind, run_call, perform, h]
  rfl

theorem run_makeDirectoriesIn_missing (h : fs.makeDirectory p = .error .notFound)
    (habove : (makeDirectoriesIn above).run fs = (.ok (), fs₁))
    (hagain : fs₁.makeDirectory p = .ok fs₂) :
    (makeDirectoriesIn (p :: above)).run fs = (.ok (), fs₂) := by
  rw [makeDirectoriesIn, run_bind, run_call, perform, h]
  simp only [change]
  rw [run_bind, habove]
  simp only []
  rw [run_bind, run_call, perform, hagain]
  rfl

/-- All that is missing is made, and there is nothing in the last directory. -/
theorem run_makeDirectories_missing (h : fs.Way absolute ns d)
    (hnew : ∀ below, fs.node? (d ++ n :: below) = none)
    (hfiles : ∀ m ∈ n :: rest, Path.FileName m ∧ m.length ≤ maxName)
    (hshort : (Path.ofComponents absolute (ns ++ n :: rest)).length ≤ maxPath) :
    ∃ fs₁, (makeDirectories (Path.ofComponents absolute (ns ++ n :: rest))).run fs = (.ok (), fs₁) ∧
      fs₁.Way absolute (ns ++ n :: rest) (d ++ n :: rest) ∧
      ∀ name below, fs₁.node? (d ++ n :: rest ++ name :: below) = none := by
  obtain ⟨hn, hlen⟩ := hfiles n List.mem_cons_self
  induction rest using List.reverseRecOn with
  | nil =>
    have hnone : fs.node? (d ++ [n]) = none := hnew []
    have hput := (With.refl fs (d ++ [n])).put (List.concat_ne_nil n d) .directory
    refine ⟨_, ?_, (h.mono (hput.grows hnone)).concat hn hlen hput.self, fun name below => ?_⟩
    · rw [makeDirectories, Path.ancestors_concat absolute h.files hn]
      exact run_makeDirectoriesIn_new _ ((h.names hn hlen hshort).makeDirectory hnone)
    · rw [hput.other (by simp), List.append_assoc]
      exact hnew _
  | append_singleton rest m ih =>
    have hsplit : ns ++ n :: (rest ++ [m]) = ns ++ n :: rest ++ [m] := by simp
    obtain ⟨hm, hmlen⟩ := hfiles m (by simp)
    have hfront : ∀ k ∈ n :: rest, Path.FileName k ∧ k.length ≤ maxName := fun k hk =>
      hfiles k (by simpa using Or.imp_right Or.inl (List.mem_cons.mp hk))
    have hmissing := h.makeDirectory_missing hn hlen (hnew []) (List.concat_ne_nil m rest)
      (fun k hk => (hfiles k (List.mem_cons_of_mem n hk)).1) hshort
    rw [hsplit] at hshort hmissing
    obtain ⟨fs₁, hrun, hway, hnew₁⟩ := ih hfront
      (Nat.le_trans (Path.length_ofComponents_le absolute (ns ++ n :: rest) m) hshort)
    have hnone := hnew₁ m []
    have hput := (With.refl fs₁ (d ++ n :: rest ++ [m])).put (by simp) .directory
    have hdeep : d ++ n :: (rest ++ [m]) = d ++ n :: rest ++ [m] := by simp
    rw [hsplit, hdeep]
    refine ⟨_, ?_, (hway.mono (hput.grows hnone)).concat hm hmlen hput.self, fun name below => ?_⟩
    · rw [makeDirectories, Path.ancestors_concat absolute hway.files hm]
      exact run_makeDirectoriesIn_missing hmissing hrun
        ((hway.names hm hmlen hshort).makeDirectory hnone)
    · rw [hput.other (by simp), List.append_assoc]
      exact hnew₁ m _

end Proc

end SelfExtract
