import SelfExtract.Proofs.Ancestors
import SelfExtract.Proofs.EntryWrites

/-!
# The first entry of a cache

A cache that is not there yet is made with its first entry. A look-up finds
nothing in it, and what is stored takes its place in a new directory.
-/
namespace SelfExtract

open FileSystem

namespace Cache

variable {fs fs₁ : FileSystem} {c : Cache} {root : Path} {key : String} {d r : Location}
  {pid : Nat} {q : CacheRequest}

/-- A cache that is not there and can be made: the directory of an entry is then a new one, and the
names of its files fit. -/
structure Creatable (fs : FileSystem) (root : Path) (pid : Nat) : Prop where
  absent : ∀ r, ¬IsRoot fs root r
  made : ∀ key, isCacheKey (Path.ofString key) = true → ∃ fs₁ d,
    (Proc.makeDirectories (root.join (Path.ofString key))).run fs = (.ok (), fs₁) ∧
      fs₁.existing (root.join (Path.ofString key)) = .ok (d, .directory) ∧
      ∀ name, fs₁.node? (d ++ [name]) = none
  fits : ∀ key, isCacheKey (Path.ofString key) = true →
    ¬TooLong (root.join (Path.ofString key)) (Proc.temporary pid notesName)

/-- Nothing is found in a cache that is not there. -/
theorem run_lookup_absent (habsent : ∀ r, ¬IsRoot fs c.root r)
    (hname : Path.FileName (Path.ofString key)) (size : UInt64) :
    (c.lookup key size).run fs = (none, fs) := by
  refine run_lookup ?_
  cases hfound : ((c.lookup key size).run fs).1 with
  | none => rfl
  | some b =>
    have hlast : (c.binary key).LastName c.programName := .join _ c.fileName_programName
    rw [lookup, Proc.run_bind, Proc.run_call, perform] at hfound
    split at hfound
    · cases hfound
    · next s hs =>
      obtain ⟨f, hf, -⟩ := bind_eq_ok.mp hs
      rw [hlast.asksForDirectory] at hf
      obtain ⟨d, hnames, -⟩ := Names.of_lastName hf hlast fun _ _ _ _ => rfl
      obtain ⟨r, hr, -⟩ := isRoot_entry hname (isRoot_of_names c.fileName_programName hnames).1
      exact absurd hr (habsent r)

/-- The names of the program and of its temporary file fit where those of the sidecar do. -/
theorem fits_programName {e : Path} (c : Cache)
    (h : ¬TooLong e (Proc.temporary pid notesName)) :
    ¬TooLong e (Proc.temporary pid c.programName) := by
  have hprogram := length_programName c
  have hnotes := length_notesName
  simp only [TooLong, Proc.temporary, List.length_append, List.length_cons] at h ⊢
  omega

/-- A program and its sidecar are stored where neither their names nor those of their temporary files
are taken by directories or links. -/
theorem run_store_free (q : CacheRequest) (hkey : isCacheKey (Path.ofString q.key) = true)
    (hmade : (Proc.makeDirectories (c.entry q.key)).run fs = (.ok (), fs₁))
    (he : fs₁.existing (c.entry q.key) = .ok (d, .directory))
    (htemps : ∀ name, fs₁.node? (d ++ [Proc.temporary pid name]) = none)
    (hbinary : Free (fs₁.node? (d ++ [c.programName])))
    (hsidecar : Free (fs₁.node? (d ++ [notesName])))
    (hfits : ¬TooLong (c.entry q.key) (Proc.temporary pid notesName)) :
    ∃ fs₂, (c.store pid q).run fs = (.ok (c.binary q.key), fs₂) ∧
      fs₂.existing (c.binary q.key) =
        .ok (d ++ [c.programName], .file binaryMode q.data) := by
  have hprogram := c.fileName_programName
  have hwritable : fs₁.Writable pid (c.binary q.key) d c.programName := by
    rw [binary_eq hkey]
    exact .of_free he hprogram (c.fits_programName hfits) (htemps _) hbinary.1
  obtain ⟨fs₂, fs₃, hgone, hdone, hrun⟩ := Proc.run_writeAtomically binaryMode q.data hwritable
  have hkeep := hwritable.keepsTree hbinary hgone hdone
  have hfree : Free (fs₃.node? (d ++ [notesName])) := by
    rwa [hdone.other (place_ne d (ne_notesName c).symm),
      hgone.other (place_ne d (notesName_ne_temporary pid _))]
  have htemp : fs₃.node? (d ++ [Proc.temporary pid notesName]) = none := by
    rw [hdone.other (place_ne d (ne_temporary_notesName c pid)), hgone.node, htemps, ite_self]
  have hnotes : fs₃.Writable pid (c.sidecar q.key) d notesName := by
    rw [sidecar_eq hkey]
    exact .of_free (hkeep.existing he) fileName_notesName hfits htemp hfree.1
  obtain ⟨fs₄, fs₅, hgone', hdone', hrun'⟩ :=
    Proc.run_writeAtomically sidecarMode (newSidecar q).encode hnotes
  have hkeep' := hnotes.keepsTree hfree hgone' hdone'
  refine ⟨fs₅, run_store_of_writes hmade hrun hrun', ?_⟩
  refine (hwritable.target.keep (hkeep.trans hkeep')).existing ?_
  rw [hdone'.other (place_ne d (ne_notesName c)),
    hgone'.other (place_ne d (ne_temporary_notesName c pid).symm), hdone.self]
  rfl

/-- A program and its sidecar are stored in a new directory. -/
theorem run_store_new (q : CacheRequest) (hkey : isCacheKey (Path.ofString q.key) = true)
    (hmade : (Proc.makeDirectories (c.entry q.key)).run fs = (.ok (), fs₁))
    (he : fs₁.existing (c.entry q.key) = .ok (d, .directory))
    (hnew : ∀ name, fs₁.node? (d ++ [name]) = none)
    (hfits : ¬TooLong (c.entry q.key) (Proc.temporary pid notesName)) :
    ∃ fs₂, (c.store pid q).run fs = (.ok (c.binary q.key), fs₂) ∧
      fs₂.existing (c.binary q.key) =
        .ok (d ++ [c.programName], .file binaryMode q.data) :=
  run_store_free q hkey hmade he (fun _ => hnew _) (hnew c.programName ▸ free_none)
    (hnew notesName ▸ free_none) hfits

section Missing

variable {absolute : Bool} {ns rest : List Bytes} {n : Bytes}

theorem not_isRoot_of_missing (h : fs.Way absolute ns d) (hnone : fs.node? (d ++ [n]) = none)
    (hfiles : ∀ m ∈ n :: rest, Path.FileName m) :
    ¬IsRoot fs (Path.ofComponents absolute (ns ++ n :: rest)) r := by
  intro hr
  have hall := List.forall_mem_append.mpr ⟨h.files, hfiles⟩
  have hfile := hfiles n List.mem_cons_self
  obtain ⟨-, after, hroot⟩ := hr.way
  obtain ⟨left, hway⟩ := h.leads
  rw [Path.names_ofComponents absolute hall, Way.start_eq absolute hall] at hroot
  obtain ⟨middle, place, hfront, hback⟩ := hroot.split
  obtain rfl := hway.unique hfront
  cases hback with
  | dot => exact hfile.not_dot rfl
  | dotDot => exact hfile.not_dotDot rfl
  | link _ _ hnode =>
    rw [hnone] at hnode
    cases hnode
  | object _ _ hnode =>
    rw [hnone] at hnode
    cases hnode

/-- A cache whose path is made of names can be made when the directory of the first name that is
missing is there, and nothing is below that name. -/
theorem Creatable.of_missing (hroot : root = Path.ofComponents absolute (ns ++ n :: rest))
    (h : fs.Way absolute ns d) (hnew : ∀ below, fs.node? (d ++ n :: below) = none)
    (hfiles : ∀ m ∈ n :: rest, Path.FileName m ∧ m.length ≤ maxName)
    (hpath : root.length + keyLength + 2 + (Proc.temporary pid notesName).length ≤ maxPath)
    (hname : (Proc.temporary pid notesName).length ≤ maxName) : Creatable fs root pid := by
  have hnames : ∀ m ∈ n :: rest, Path.FileName m := fun m hm => (hfiles m hm).1
  have hall := List.forall_mem_append.mpr ⟨h.files, hnames⟩
  have hjoin : ∀ key, isCacheKey (Path.ofString key) = true → root.join (Path.ofString key) =
      Path.ofComponents absolute (ns ++ n :: (rest ++ [Path.ofString key])) := by
    intro key hkey
    rw [hroot, Path.join_ofComponents absolute hall (fileName_of_isCacheKey hkey),
      List.append_assoc, List.cons_append]
  have hlength : ∀ key, isCacheKey (Path.ofString key) = true →
      (root.join (Path.ofString key)).length = root.length + keyLength + 1 := by
    intro key hkey
    rw [hjoin key hkey, ← List.cons_append, ← List.append_assoc,
      Path.ofComponents_concat _ (by simp), ← hroot, List.length_append, List.length_cons,
      length_of_isCacheKey hkey, Nat.add_assoc]
  refine ⟨fun r => ?_, fun key hkey => ?_, fun key hkey => ?_⟩
  · rw [hroot]
    exact not_isRoot_of_missing h (hnew []) hnames
  · have hshort : (root.join (Path.ofString key)).length ≤ maxPath := by
      rw [hlength key hkey]
      omega
    have hkeyed : ∀ m ∈ n :: (rest ++ [Path.ofString key]),
        Path.FileName m ∧ m.length ≤ maxName := by
      rw [← List.cons_append]
      exact List.forall_mem_append.mpr ⟨hfiles, List.forall_mem_singleton.mpr
        ⟨fileName_of_isCacheKey hkey, (plainName_of_isCacheKey hkey).short⟩⟩
    rw [hjoin key hkey] at hshort ⊢
    obtain ⟨fs₁, hrun, hway, hempty⟩ := Proc.run_makeDirectories_missing h hnew hkeyed hshort
    exact ⟨fs₁, _, hrun, hway.existing (by simp) hshort, fun name => hempty name []⟩
  · have hlen := hlength key hkey
    simp only [TooLong, List.length_append, List.length_cons, not_or, Nat.not_lt]
    exact ⟨by omega, hname⟩

end Missing

end Cache

end SelfExtract
