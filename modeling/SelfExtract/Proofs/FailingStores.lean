import SelfExtract.Proofs.OtherEntries

/-!
# A store whose calls fail

Storing makes a directory, writes the program, writes the sidecar, and removes
the program again if there is no sidecar. Whichever of these calls fail, the
store ends in one of a few ways, as long as the removals are carried out: the
files of the entry are written as a whole or not at all.
-/
namespace SelfExtract

namespace FileSystem

variable {fs fs₁ : FileSystem} {ls : List Location} {d here : Location} {name : Bytes}

theorem walk_congr (hnode : fs₁.node? = fs.node?) (follow : Bool) (links : Nat) (place : Location)
    (names : List Bytes) :
    fs₁.walk follow links place names = fs.walk follow links place names := by
  -- a turn follows a link or takes a name away, as the definition has it
  induction links generalizing place names with
  | zero =>
    induction names generalizing place with
    | nil => rw [walk, walk, hnode]
    | cons name rest ih =>
      conv => lhs; rw [walk, hnode]
      conv => rhs; rw [walk]
      simp only [ih]
  | succ links ihl =>
    induction names generalizing place with
    | nil => rw [walk, walk, hnode]
    | cons name rest ih =>
      conv => lhs; rw [walk, hnode]
      conv => rhs; rw [walk]
      simp only [ih, ihl]

theorem Same.resolve (h : fs.Same fs₁) (follow : Bool) (p : Path) :
    fs₁.resolve follow p = fs.resolve follow p :=
  resolve_congr h.current fun _ => walk_congr (funext h.node) follow _ _ _

/-- What has changed is neither a link nor a directory now: a link to a directory was one before. -/
theorem SameBut.linkedDirectory (hsame : fs.SameBut fs₁ ls)
    (hls : ∀ m ∈ ls, Free (fs₁.node? m) ∧ ∃ name, Path.FileName name ∧ m = d ++ [name])
    (h : fs₁.LinkedDirectory here name) : fs.LinkedDirectory here name := by
  obtain ⟨target, f, hnode, hwalk, hdir⟩ := h
  have hgoal := (walk_node hwalk).symm.trans hdir
  obtain ⟨left, hway⟩ := leads_of_walk hwalk (.refl fs₁) hgoal fun _ ht => nomatch ht
  have hback : fs.Leads maxLinks here [name] left f.location := by
    refine hsame.symm.leads (d := d) (fun m hm => ?_) hway hgoal
    obtain ⟨hfree, last, hlast, rfl⟩ := hls m hm
    exact ⟨hfree.1, last, hlast, rfl, fun ⟨target, _, hlink, _⟩ => hfree.2 target hlink⟩
  obtain ⟨named, heq⟩ := hback.walk_eq
  refine ⟨target, _, ?_, heq, ?_⟩
  · rw [← hsame.node _ fun hm => (hls _ hm).1.2 target hnode, hnode]
  · rw [← hsame.node _ fun hm => (hls _ hm).1.1 hgoal, hgoal]

end FileSystem

namespace Proc

open FileSystem

variable {sure : Call → Prop} {fs : FileSystem} {e p : Path} {d : Location} {name : Bytes}
  {pid : Nat}

/-- A write that succeeds has found a place for its temporary file. -/
theorem upholds_placed (pid : Nat) (p : Path) (mode : Nat) (data : Bytes) (fs : FileSystem) :
    Upholds sure (fun _ => True)
      (fun r _ => r = .ok () → ∃ f, fs.resolve true (temporary pid p) = .ok f)
      (writeAtomically pid p mode data) fs := by
  have hcreate : Upholds sure (fun _ => True)
      (Attempt (fun _ _ => ∃ f, fs.resolve true (temporary pid p) = .ok f) fun _ => True)
      (call (.create (temporary pid p) mode)) fs := by
    refine .call (c := .create (temporary pid p) mode) rfl trivial trivial ?_
      fun _ _ => .error trivial
    rw [perform]
    cases hmade : fs.create (temporary pid p) mode with
    | error e => exact .error trivial
    | ok r =>
      obtain ⟨f, hf, -⟩ := bind_eq_ok.mp hmade
      exact .ok ⟨f, hf⟩
  have hreplace : Upholds sure (fun _ => True)
      (Attempt (fun _ _ => ∃ f, fs.resolve true (temporary pid p) = .ok f) fun _ => True)
      (replaceBy (temporary pid p) p mode data) fs := by
    refine hcreate.attempt (fun e _ _ _ => .pure trivial (.error trivial))
      fun l fs₁ _ hplaced => .of_all (fun r _ => ?_) _ fs₁
    cases r with
    | error e => exact .error trivial
    | ok u => exact .ok hplaced
  refine hreplace.attempt (fun e fs₁ _ _ => ?_) fun _ fs₁ _ hplaced =>
    .of_all (fun _ _ _ => hplaced) _ fs₁
  exact (Upholds.of_all (fun _ _ => trivial) _ fs₁).bind fun _ _ _ (_ : True) =>
    .pure trivial (by simp)

/-- A file in a directory is replaced as a whole or not at all, whichever calls fail. -/
theorem upholds_writeIn (sure : Call → Prop) (mode : Nat) (data : Bytes)
    (he : fs.existing e = .ok (d, .directory)) (hname : Path.FileName name)
    (hnone : fs.node? (d ++ [temporary pid name]) = none)
    (hsure : sure (.unlink (temporary pid (e ++ Path.slash :: name)))) :
    Upholds sure (fun _ => True) (fun r fs' => fs.Written e d name (permissions mode) data (r, fs') ∧
        (r = .ok () → ¬TooLong e (temporary pid name)))
      (writeAtomically pid (e ++ Path.slash :: name) mode data) fs := by
  have hpath : temporary pid (e ++ Path.slash :: name) = e ++ Path.slash :: temporary pid name :=
    List.append_assoc e _ _
  have htemp := fileName_temporary pid hname
  have habsent : fs.Absent (temporary pid (e ++ Path.slash :: name)) := by
    intro f hf
    rw [hpath] at hf
    by_cases hlong : TooLong e (temporary pid name)
    · rw [resolve_tooLong he htemp hlong] at hf
      cases hf
    · rw [(Names.of_existing he htemp hlong).resolve fun _ _ => rfl, hnone] at hf
      cases hf
      rfl
  refine (((upholds_writeAtomically mode data habsent hsure).weaken_through fun _ _ => trivial).and
    (upholds_placed pid (e ++ Path.slash :: name) mode data fs)).weaken_through
      (fun _ _ => trivial) |>.weaken_post ?_
  rintro r fs' ⟨hwritten, hplaced⟩
  refine ⟨?_, fun hok hlong => ?_⟩
  · cases hwritten with
    | error hsame =>
      rw [hsame]
      exact .failed (.refl fs)
    | ok hreplaced =>
      obtain ⟨l, hreplaced⟩ := hreplaced
      have hnamed := hreplaced.named
      have hfit : ¬TooLong e name := by
        intro hlong
        rw [resolve_tooLong he hname hlong] at hnamed
        cases hnamed
      rw [(Names.of_existing he hname hfit).resolve fun _ _ => rfl] at hnamed
      obtain rfl : d ++ [name] = l := congrArg Found.location (Except.ok.inj hnamed)
      refine .done hfit hreplaced.no_directory ?_
      rw [hreplaced.result]
      exact (With.refl fs _).put (List.concat_ne_nil name d) _
  · obtain ⟨f, hf⟩ := hplaced hok
    rw [hpath, resolve_tooLong he htemp hlong] at hf
    cases hf

end Proc

namespace Cache

open FileSystem

variable {fs fs₁ fs' : FileSystem} {c : Cache} {key : String} {pid : Nat} {q : CacheRequest}
  {r d here : Location} {name : Bytes} {out : Except Fault Path}

/-- The removals of a store, which undo what it has done. -/
inductive Removes (c : Cache) (pid : Nat) (key : String) : Call → Prop
  | program : Removes c pid key (.unlink (c.binary key))
  | programDraft : Removes c pid key (.unlink (Proc.temporary pid (c.binary key)))
  | sidecarDraft : Removes c pid key (.unlink (Proc.temporary pid (c.sidecar key)))

/-- A cache in a tree of files, in which an entry can be stored. No link in the cache leads to a
directory and nothing has the name of a temporary file, also when the directory of the entry is
there. A root that is not there yet is made empty. -/
structure Clean (c : Cache) (key : String) (pid : Nat) (fs : FileSystem) : Prop where
  tree : fs.IsTree
  links : ∀ fs₁ r here name, fs.AddsDirectories fs₁ (c.entry key).ancestors → IsRoot fs₁ c.root r →
    r <+: here → ¬fs₁.LinkedDirectory here name
  temporaries : ∀ fs₁ r here name, fs.AddsDirectories fs₁ (c.entry key).ancestors →
    IsRoot fs₁ c.root r → r <+: here → fs₁.node? (here ++ [Proc.temporary pid name]) = none
  fresh : ∀ fs₁ r, fs.AddsDirectories fs₁ (c.entry key).ancestors → IsRoot fs₁ c.root r →
    IsRoot fs c.root r ∨
      ∀ name below, fs₁.node? (r ++ name :: below) ≠ none → name :: below = [Path.ofString key]

theorem ne_temporary_of_isCacheKey {key : Bytes} (hkey : isCacheKey key = true) (pid : Nat)
    (name : Bytes) : key ≠ Proc.temporary pid name := by
  rintro rfl
  have hdot : (0x2E : UInt8) ∈ Proc.temporary pid name := by simp [temporary_eq]
  have hlow := (toNat_of_mem_key hkey hdot).1
  simp at hlow

/-- A cache that is there is clean when there are neither links nor temporary files in it. -/
theorem Clean.of_root (hkey : isCacheKey (Path.ofString key) = true) (hr : IsRoot fs c.root r)
    (htree : fs.IsTree) (hlinks : ∀ here target, r <+: here → fs.node? here ≠ some (.link target))
    (htemps : ∀ here name, r <+: here → fs.node? (here ++ [Proc.temporary pid name]) = none) :
    c.Clean key pid fs := by
  have hsame : ∀ {fs₁ r₁}, fs.AddsDirectories fs₁ (c.entry key).ancestors → IsRoot fs₁ c.root r₁ →
      r = r₁ := fun h hr₁ => IsRoot.unique (h.grows.existing hr) hr₁
  have hunlinked : ∀ fs₁ r₁ here name, fs.AddsDirectories fs₁ (c.entry key).ancestors →
      IsRoot fs₁ c.root r₁ → r₁ <+: here → ¬fs₁.LinkedDirectory here name := by
    rintro fs₁ r₁ here name h hr₁ hhere ⟨target, _, hnode, -⟩
    obtain rfl := hsame h hr₁
    rcases h.node (here ++ [name]) with hold | ⟨-, hdir, -⟩
    · exact hlinks _ target (hhere.trans (List.prefix_append here _)) (hold.symm.trans hnode)
    · rw [hdir] at hnode
      cases hnode
  refine ⟨htree, hunlinked, fun fs₁ r₁ here name h hr₁ hhere => ?_, fun fs₁ r₁ h hr₁ => ?_⟩
  · obtain rfl := hsame h hr₁
    have hlink := hunlinked fs₁ r r (Path.ofString key) h hr₁ (List.prefix_refl r)
    rcases adds_only_entry (fileName_of_isCacheKey hkey) hr hlink h _ with hold | ⟨heq, -⟩
    · rw [hold, htemps here name hhere]
    · exact absurd (List.singleton_inj.mp (List.append_inj' heq rfl).2).symm
        (ne_temporary_of_isCacheKey hkey pid name)
  · obtain rfl := hsame h hr₁
    exact .inl hr

/-- How storing ends, whichever of its calls fail. -/
inductive Course (c : Cache) (pid : Nat) (q : CacheRequest) (fs : FileSystem) :
    Except Fault Path → FileSystem → Prop
  | unmade {fs₁ : FileSystem} {e : IoError} : fs.AddsDirectories fs₁ (c.entry q.key).ancestors →
      Course c pid q fs (.error (.cacheWrite (c.entry q.key) (.directory e))) fs₁
  | placed {fs₁ fs' : FileSystem} {r : Location} {out : Except Fault Path} :
      fs.AddsDirectories fs₁ (c.entry q.key).ancestors → IsRoot fs₁ c.root r →
      fs₁.existing (c.entry q.key) = .ok (r ++ [Path.ofString q.key], .directory) →
      (∀ b, out = .ok b → ¬TooLong (c.entry q.key) (Proc.temporary pid notesName)) →
      Stored c q fs₁ (r ++ [Path.ofString q.key]) (out, fs') → Course c pid q fs out fs'

theorem upholds_store (hkey : isCacheKey (Path.ofString q.key) = true)
    (hclean : c.Clean q.key pid fs) :
    Proc.Upholds (c.Removes pid q.key) (fun _ => True) (c.Course pid q fs) (c.store pid q) fs := by
  have hname := fileName_of_isCacheKey hkey
  have hprogram := c.fileName_programName
  rw [store]
  refine ((Proc.upholds_makeDirectories (entry_ne_nil hkey c) fs).weaken_through
    fun _ _ => trivial).attempt ?_ ?_
  · rintro e fs₁ - hadds
    exact .pure trivial (.unmade hadds)
  rintro - fs₁ - ⟨hadds, d, he⟩
  obtain ⟨r, hr, hplace⟩ := existing_entry hname he
  obtain rfl := hplace.resolve_right (hclean.links fs₁ r r _ hadds hr (List.prefix_refl r))
  have hin : r <+: r ++ [Path.ofString q.key] := List.prefix_append r _
  have hlinks := fun name => hclean.links fs₁ r _ name hadds hr hin
  have htemps := fun name => hclean.temporaries fs₁ r _ name hadds hr hin
  have hfirst := Proc.upholds_writeIn (c.Removes pid q.key) binaryMode q.data he hprogram
    (htemps c.programName) (binary_eq hkey c ▸ .programDraft)
  rw [← binary_eq hkey] at hfirst
  refine hfirst.bind ?_
  rintro written fs₂ - ⟨hwritten, -⟩
  cases hwritten with
  | failed hsame => exact .pure trivial (.placed hadds hr he (by simp) (.unwritten hsame))
  | done hfit hdir hwith =>
    have he₂ : fs₂.existing (c.entry q.key) = .ok (r ++ [Path.ofString q.key], .directory) := by
      refine hwith.sameBut.existing (d := r ++ [Path.ofString q.key]) (fun m hm => ?_) he
      obtain rfl := List.mem_singleton.mp hm
      exact ⟨hdir, c.programName, hprogram, rfl, hlinks c.programName⟩
    have htemp₂ : fs₂.node? (r ++ [Path.ofString q.key] ++ [Proc.temporary pid notesName]) =
        none := by
      rw [hwith.other (place_ne _ (ne_temporary_notesName c pid)), htemps]
    have hsecond := Proc.upholds_writeIn (c.Removes pid q.key) sidecarMode (newSidecar q).encode he₂
      fileName_notesName htemp₂ (sidecar_eq hkey c ▸ .sidecarDraft)
    rw [← sidecar_eq hkey] at hsecond
    refine hsecond.bind ?_
    rintro noted fs₃ - ⟨hnoted, hfits⟩
    cases hnoted with
    | done _ hdir₂ hwith₂ =>
      rw [hwith.other (place_ne _ (ne_notesName c).symm)] at hdir₂
      exact .pure trivial (.placed hadds hr he (fun _ _ => hfits rfl)
        (.done hfit hdir hdir₂ hwith hwith₂))
    | failed hsame =>
      have he₃ := (hsame.sameBut []).existing (d := r) (by simp) he₂
      have hwith₃ := hwith.trans_same hsame
      have hperform := perform_unlink (.of_existing he₃ hprogram hfit) hwith₃.self
      rw [← binary_eq hkey] at hperform
      have hunlink : Proc.Upholds (c.Removes pid q.key) (fun _ => True)
          (fun _ fs' => fs' = fs₃.erase (r ++ [Path.ofString q.key] ++ [c.programName]))
          (Proc.call (.unlink (c.binary q.key))) fs₃ :=
        .call (c := .unlink (c.binary q.key)) rfl trivial trivial (by rw [hperform])
          fun _ hnot => absurd .program hnot
      refine hunlink.discard.bind ?_
      rintro - - - rfl
      exact .pure trivial (.placed hadds hr he (by simp)
        (.withdrawn hdir (hwith₃.erase (List.concat_ne_nil _ _))))

end Cache

end SelfExtract
