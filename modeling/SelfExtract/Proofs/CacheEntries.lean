import SelfExtract.Cache
import SelfExtract.Proofs.AtomicWrites

/-!
# What storing an entry does

The program and its sidecar are files in the directory of the entry, and
nothing else changes there. An entry that was stored is found by a look-up for
the size of its program.
-/
namespace SelfExtract

open FileSystem

namespace Cache

variable {fs fs₁ fs₂ : FileSystem} {root : Path} {c : Cache} {key : String} {d r : Location}
  {pid : Nat}

def programName (c : Cache) : Bytes :=
  Path.ofString (binaryName c.os)

def notesName : Bytes :=
  Path.ofString sidecarName

def files (c : Cache) (r : Location) (key : String) : List Location :=
  [r ++ [Path.ofString key] ++ [c.programName], r ++ [Path.ofString key] ++ [notesName]]

theorem fileName_programName (c : Cache) : Path.FileName c.programName := by
  rw [programName]
  cases c.os <;> exact ⟨by decide, by decide, by decide, by decide, by decide⟩

theorem fileName_notesName : Path.FileName notesName :=
  ⟨by decide, by decide, by decide, by decide, by decide⟩

theorem length_programName (c : Cache) : c.programName.length ≤ 8 := by
  rw [programName]
  cases c.os <;> decide

theorem length_notesName : notesName.length = 18 := by
  decide

/-- The directory that a root stands for; the empty one means the current directory. -/
def IsRoot (fs : FileSystem) (root : Path) (r : Location) : Prop :=
  fs.existing (root.join Path.dot) = .ok (r, .directory)

theorem IsRoot.unique {r' : Location} (h : IsRoot fs root r) (h' : IsRoot fs root r') : r = r' := by
  rw [IsRoot, h] at h'
  cases h'
  rfl

/-- The way to a root. -/
theorem IsRoot.way (h : IsRoot fs root r) : fs.node? r = some .directory ∧
    ∃ after, fs.Leads maxLinks (fs.start root) root.names after r := by
  have hdot : Path.isAbsolute Path.dot = false := by decide
  obtain ⟨-, ⟨left, hway⟩, hdir, -⟩ := existing_eq_ok_iff.mp h
  rw [Path.names_join root hdot, start_congr (Path.isAbsolute_join root hdot) rfl] at hway
  obtain ⟨after, middle, hroot, hlast⟩ := hway.split
  cases hlast with
  | dot _ hend =>
    cases hend
    exact ⟨hdir, _, hroot⟩
  | link _ hname => exact absurd rfl hname.not_dot
  | object _ hname => exact absurd rfl hname.not_dot

/-- Where the names of a root lead it stands, if something in it can be named. -/
theorem IsRoot.of_way {q : Path} {after : Nat} (hq : q.isAbsolute = false) (hne : q ≠ [])
    (hvalid : Valid (root.join q)) (hdir : fs.node? r = some .directory)
    (hway : fs.Leads maxLinks (fs.start root) root.names after r) : IsRoot fs root r := by
  have hdot : Path.isAbsolute Path.dot = false := by decide
  refine existing_eq_ok_iff.mpr ⟨?_, ⟨after, ?_⟩, hdir, fun _ => rfl⟩
  · obtain ⟨front, hfront⟩ := Path.join_eq_append root
    rw [hfront _ hq] at hvalid
    rw [hfront _ hdot]
    refine ⟨?_, List.append_ne_nil_of_right_ne_nil front (by decide), ?_⟩
    · intro h
      rcases List.mem_append.mp h with h | h
      · exact hvalid.no_nul (List.mem_append_left _ h)
      · exact absurd h (by decide)
    · have hshort := hvalid.short
      have hlen := List.length_pos_iff.mpr hne
      rw [List.length_append] at hshort ⊢
      exact Nat.le_trans (Nat.add_le_add_left hlen _) hshort
  · rw [Path.names_join root hdot, show Path.names Path.dot = [Path.dot] by decide,
      start_congr (Path.isAbsolute_join root hdot) rfl]
    exact hway.trans (.dot hdir .here)

/-- A directory that is named in a root is there, unless a link stands in its place. -/
theorem IsRoot.exists_of_way {q : Path} {name : Bytes} {left : Nat} (hq : q.isAbsolute = false)
    (hne : q ≠ []) (hvalid : Valid (root.join q)) (hname : Path.FileName name)
    (hdir : fs.node? d = some .directory)
    (hway : fs.Leads maxLinks (fs.start root) (root.names ++ [name]) left d) :
    ∃ r, IsRoot fs root r ∧ (d = r ++ [name] ∨ fs.LinkedDirectory r name) := by
  obtain ⟨after, r, hroot, hlast⟩ := hway.split
  refine ⟨r, .of_way hq hne hvalid hlast.directory hroot, ?_⟩
  have hor := hlast.directory_or_linked hroot.left_le hname hdir
  cases hlast with
  | dot => exact absurd rfl hname.not_dot
  | dotDot => exact absurd rfl hname.not_dotDot
  | link _ _ hnode =>
    rw [hnode] at hor
    exact .inr (hor.resolve_left nofun)
  | object _ _ _ _ hend =>
    cases hend
    exact .inl rfl

/-- The directory of an entry is in the root, unless a link stands in its place. -/
theorem existing_entry (hname : Path.FileName (Path.ofString key))
    (he : fs.existing (c.entry key) = .ok (d, .directory)) :
    ∃ r, IsRoot fs c.root r ∧
      (d = r ++ [Path.ofString key] ∨ fs.LinkedDirectory r (Path.ofString key)) := by
  obtain ⟨hvalid, ⟨left, hway⟩, hdir, -⟩ := existing_eq_ok_iff.mp he
  rw [entry] at hvalid
  rw [entry, Path.names_join c.root hname.not_absolute, hname.names,
    start_congr (Path.isAbsolute_join c.root hname.not_absolute) rfl] at hway
  exact IsRoot.exists_of_way hname.not_absolute hname.not_empty hvalid hname hdir hway

/-- The same of the directory for which the path of an entry stands. -/
theorem isRoot_entry (hname : Path.FileName (Path.ofString key)) (he : IsRoot fs (c.entry key) d) :
    ∃ r, IsRoot fs c.root r ∧
      (d = r ++ [Path.ofString key] ∨ fs.LinkedDirectory r (Path.ofString key)) := by
  have hslash : Path.isAbsolute (Path.ofString key ++ Path.slash :: Path.dot) = false := by
    rw [Path.isAbsolute, List.head?_append_of_ne_nil _ hname.not_empty]
    exact hname.not_absolute
  obtain ⟨hdir, left, hway⟩ := he.way
  have hvalid := (existing_eq_ok_iff.mp he).valid
  obtain ⟨front, hfront⟩ := Path.join_eq_append c.root
  rw [entry, Path.names_join c.root hname.not_absolute, hname.names,
    start_congr (Path.isAbsolute_join c.root hname.not_absolute) rfl] at hway
  rw [entry, hfront _ hname.not_absolute,
    Path.join_of_not_asks (List.append_ne_nil_of_right_ne_nil front hname.not_empty)
      (hname.asksForDirectory_append front) (by decide), List.append_assoc,
    ← hfront _ hslash] at hvalid
  exact IsRoot.exists_of_way hslash (List.append_ne_nil_of_left_ne_nil hname.not_empty _) hvalid
    hname hdir hway

theorem plainName_of_isCacheKey {key : Bytes} (h : isCacheKey key = true) : PlainName key := by
  have hname := fileName_of_isCacheKey h
  refine ⟨hname.not_dot, hname.not_dotDot, ?_⟩
  rw [length_of_isCacheKey h]
  decide

section Paths

variable (hkey : isCacheKey (Path.ofString key) = true)
include hkey

theorem asksForDirectory_entry (c : Cache) : (c.entry key).asksForDirectory = false := by
  have hname := fileName_of_isCacheKey hkey
  obtain ⟨front, hfront⟩ := Path.join_eq_append c.root
  rw [entry, hfront _ hname.not_absolute]
  exact hname.asksForDirectory_append front

theorem entry_ne_nil (c : Cache) : c.entry key ≠ [] := by
  have hname := fileName_of_isCacheKey hkey
  obtain ⟨front, hfront⟩ := Path.join_eq_append c.root
  rw [entry, hfront _ hname.not_absolute]
  exact List.append_ne_nil_of_right_ne_nil front hname.not_empty

theorem join_entry (c : Cache) {name : Bytes} (hname : Path.FileName name) :
    (c.entry key).join name = c.entry key ++ Path.slash :: name :=
  Path.join_of_not_asks (entry_ne_nil hkey c) (asksForDirectory_entry hkey c) hname.not_absolute

theorem binary_eq (c : Cache) : c.binary key = c.entry key ++ Path.slash :: c.programName :=
  join_entry hkey c (fileName_programName c)

theorem sidecar_eq (c : Cache) : c.sidecar key = c.entry key ++ Path.slash :: notesName :=
  join_entry hkey c fileName_notesName

/-- In a root that is there the directory of an entry is found whether or not it exists, unless its
path is too long. -/
theorem resolve_entry {follow : Bool} (hr : IsRoot fs c.root r)
    (hfollow : ∀ target, fs.node? (r ++ [Path.ofString key]) = some (.link target) →
      follow = false) :
    fs.resolve follow (c.entry key) = .error .nameTooLong ∨
      fs.resolve follow (c.entry key) =
        .ok ⟨r ++ [Path.ofString key], fs.node? (r ++ [Path.ofString key]), true⟩ := by
  have hname := fileName_of_isCacheKey hkey
  have hnul : 0 ∉ c.entry key := by
    obtain ⟨front, hfront⟩ := Path.join_eq_append c.root
    have hvalid := (existing_eq_ok_iff.mp hr).valid
    rw [hfront _ (by decide)] at hvalid
    rw [entry, hfront _ hname.not_absolute, List.mem_append, not_or]
    exact ⟨fun h => hvalid.no_nul (List.mem_append_left _ h), hname.no_nul⟩
  have hempty := entry_ne_nil hkey c
  by_cases hlen : maxPath < (c.entry key).length
  · refine .inl ?_
    rw [resolve, if_neg (by simpa using hnul), if_neg (by simpa using hempty), if_pos hlen]
  · refine .inr ?_
    have hvalid : Valid (c.entry key) := ⟨hnul, hempty, Nat.le_of_not_lt hlen⟩
    obtain ⟨hdir, after, hway⟩ := hr.way
    rw [hvalid.resolve, entry, Path.names_join c.root hname.not_absolute, hname.names,
      start_congr (Path.isAbsolute_join c.root hname.not_absolute) rfl,
      hway.walk_append (List.cons_ne_nil _ _)]
    exact walk_last hdir (plainName_of_isCacheKey hkey) hfollow

/-- In a root that is there no directory is made but that of the entry. -/
theorem run_makeDirectories_entry (hr : IsRoot fs c.root r) :
    ((Proc.makeDirectories (c.entry key)).run fs).2 = fs ∨
      fs.node? (r ++ [Path.ofString key]) = none ∧
        fs.With ((Proc.makeDirectories (c.entry key)).run fs).2 (r ++ [Path.ofString key])
          (some .directory) := by
  have hfirst : ∀ h : fs.makeDirectory (c.entry key) ≠ .error .notFound,
      ((Proc.makeDirectories (c.entry key)).run fs).2 =
        (fs.perform (.makeDirectory (c.entry key))).2 := by
    rw [Proc.makeDirectories, Path.ancestors, if_neg (by simpa using entry_ne_nil hkey c)]
    exact Proc.run_makeDirectoriesIn_cons _ _
  rcases resolve_entry hkey hr (fun _ _ => rfl) with hresolve | hresolve
  · have hmake : fs.makeDirectory (c.entry key) = .error .nameTooLong := by
      rw [makeDirectory, hresolve]
      rfl
    refine .inl ?_
    rw [hfirst (by simp [hmake]), perform, hmake]
    rfl
  · cases hnode : fs.node? (r ++ [Path.ofString key]) with
    | some n =>
      have hmake : fs.makeDirectory (c.entry key) = .error .alreadyExists := by
        rw [makeDirectory, hresolve]
        simp only [bind, Except.bind, hnode]
        rfl
      refine .inl ?_
      rw [hfirst (by simp [hmake]), perform, hmake]
      rfl
    | none =>
      have hmake : fs.makeDirectory (c.entry key) =
          .ok (fs.put (r ++ [Path.ofString key]) .directory) := by
        rw [makeDirectory, hresolve]
        simp only [bind, Except.bind, hnode]
        rfl
      refine .inr ⟨rfl, ?_⟩
      rw [hfirst (by simp [hmake]), perform, hmake]
      exact (With.refl fs _).put (List.concat_ne_nil _ r) .directory

end Paths

/-- An entry that can be written in its place: no link there leads to a directory, and no file or
link has the name of a temporary file. -/
structure Tidy (fs : FileSystem) (root : Path) (key : Bytes) (pid : Nat) : Prop where
  entry : ∀ r, IsRoot fs root r → ¬fs.LinkedDirectory r key
  files : ∀ r name, IsRoot fs root r → ¬fs.LinkedDirectory (r ++ [key]) name
  temporaries : ∀ r name n, IsRoot fs root r →
    fs.node? (r ++ [key] ++ [Proc.temporary pid name]) = some n → n = .directory

inductive Stored (c : Cache) (q : CacheRequest) (fs : FileSystem) (d : Location) :
    Except Fault Path × FileSystem → Prop
  | done {fs₁ fs₂ : FileSystem} : ¬TooLong (c.entry q.key) c.programName →
      fs.node? (d ++ [c.programName]) ≠ some .directory →
      fs.node? (d ++ [notesName]) ≠ some .directory →
      fs.With fs₁ (d ++ [c.programName]) (some (.file binaryMode q.data)) →
      fs₁.With fs₂ (d ++ [notesName]) (some (.file sidecarMode (newSidecar q).encode)) →
      Stored c q fs d (.ok (c.binary q.key), fs₂)
  | unwritten {fs₁ : FileSystem} {e : IoError} : fs.Same fs₁ →
      Stored c q fs d (.error (.atomicWrite (c.binary q.key) e), fs₁)
  | withdrawn {fs₁ : FileSystem} {e : IoError} :
      fs.node? (d ++ [c.programName]) ≠ some .directory →
      fs.With fs₁ (d ++ [c.programName]) none →
      Stored c q fs d
        (.error (.cacheWrite (c.sidecar q.key) (.sidecar (c.sidecar q.key) e)), fs₁)

theorem ne_notesName (c : Cache) : c.programName ≠ notesName := by
  intro h
  have hlen := length_programName c
  rw [h, length_notesName] at hlen
  omega

theorem ne_temporary_notesName (c : Cache) (pid : Nat) :
    Proc.temporary pid notesName ≠ c.programName := by
  intro h
  have hlen := length_temporary pid notesName
  rw [h, length_notesName] at hlen
  have := length_programName c
  omega

/-- Storing is making the directory and writing the two files. -/
theorem run_store_of_writes {q : CacheRequest} {fs₃ : FileSystem}
    (hmade : (Proc.makeDirectories (c.entry q.key)).run fs = (.ok (), fs₁))
    (hprogram : (Proc.writeAtomically pid (c.binary q.key) binaryMode q.data).run fs₁ =
      (.ok (), fs₂))
    (hnotes : (Proc.writeAtomically pid (c.sidecar q.key) sidecarMode (newSidecar q).encode).run
      fs₂ = (.ok (), fs₃)) : (c.store pid q).run fs = (.ok (c.binary q.key), fs₃) := by
  rw [store, Proc.run_bind, hmade]
  simp only []
  rw [Proc.run_bind, hprogram]
  simp only []
  rw [Proc.run_bind, writeSidecar, hnotes]
  rfl

/-- Storing in a directory that is there. -/
theorem stored_writes (q : CacheRequest) (hkey : isCacheKey (Path.ofString q.key) = true)
    (he : fs.existing (c.entry q.key) = .ok (d, .directory))
    (hlinks : ∀ name, ¬fs.LinkedDirectory d name)
    (htemps : ∀ name n, fs.node? (d ++ [Proc.temporary pid name]) = some n → n = .directory)
    (hmade : (Proc.makeDirectories (c.entry q.key)).run fs₁ = (.ok (), fs)) :
    Stored c q fs d ((c.store pid q).run fs₁) := by
  have hprogram := c.fileName_programName
  rw [store, Proc.run_bind, hmade]
  simp only []
  rw [Proc.run_bind, binary_eq hkey]
  have hwritten := Proc.written_writeAtomically pid binaryMode q.data he hprogram
    (htemps c.programName)
  generalize (Proc.writeAtomically pid (c.entry q.key ++ Path.slash :: c.programName) binaryMode
    q.data).run fs = out at hwritten
  cases hwritten with
  | failed hsame =>
    rw [← binary_eq hkey]
    exact .unwritten hsame
  | @done fs₂ hfit hdir hwith =>
    have he₂ : fs₂.existing (c.entry q.key) = .ok (d, .directory) := by
      refine hwith.sameBut.existing (d := d) (fun m hm => ?_) he
      obtain rfl := List.mem_singleton.mp hm
      exact ⟨hdir, c.programName, hprogram, rfl, hlinks c.programName⟩
    have htemp₂ : ∀ n, fs₂.node? (d ++ [Proc.temporary pid notesName]) = some n →
        n = .directory := by
      intro n hn
      rw [hwith.other (place_ne d (ne_temporary_notesName c pid))] at hn
      exact htemps notesName n hn
    simp only []
    rw [Proc.run_bind, writeSidecar, sidecar_eq hkey]
    have hnotes := Proc.written_writeAtomically pid sidecarMode (newSidecar q).encode he₂
      fileName_notesName htemp₂
    generalize (Proc.writeAtomically pid (c.entry q.key ++ Path.slash :: notesName) sidecarMode
      (newSidecar q).encode).run fs₂ = out at hnotes
    cases hnotes with
    | done _ hdir₂ hwith₂ =>
      rw [hwith.other (place_ne d (ne_notesName c).symm)] at hdir₂
      simp only []
      rw [Proc.run_pure, ← binary_eq hkey]
      exact .done hfit hdir hdir₂ hwith hwith₂
    | @failed fs₃ _ hsame =>
      have he₃ := (hsame.sameBut []).existing (d := d) nofun he₂
      have hwith₃ := hwith.trans_same hsame
      simp only []
      rw [Proc.run_bind, Proc.run_discard, Proc.run_call, Proc.run_pure,
        perform_unlink (.of_existing he₃ hprogram hfit) hwith₃.self, ← sidecar_eq hkey]
      exact .withdrawn hdir (hwith₃.erase (List.concat_ne_nil _ d))

/-- Storing makes the directories of the entry and then writes into the last of them. -/
theorem stored_store (c : Cache) (pid : Nat) (q : CacheRequest)
    (hkey : isCacheKey (Path.ofString q.key) = true)
    (hmade : ((Proc.makeDirectories (c.entry q.key)).run fs).2 = fs₁)
    (htidy : Tidy fs₁ c.root (Path.ofString q.key) pid) :
    (∃ e, (c.store pid q).run fs = (.error (.cacheWrite (c.entry q.key) (.directory e)), fs₁)) ∨
      ∃ r, IsRoot fs₁ c.root r ∧
        fs₁.existing (c.entry q.key) = .ok (r ++ [Path.ofString q.key], .directory) ∧
        Stored c q fs₁ (r ++ [Path.ofString q.key]) ((c.store pid q).run fs) := by
  have hensures := Proc.ensures_makeDirectories (entry_ne_nil hkey c) fs
  generalize hrun : (Proc.makeDirectories (c.entry q.key)).run fs = out at hensures hmade
  obtain ⟨result, _⟩ := out
  subst hmade
  cases result with
  | error e =>
    refine .inl ⟨e, ?_⟩
    rw [store, Proc.run_bind, hrun]
    rfl
  | ok u =>
    obtain ⟨d, he⟩ := hensures.leads rfl
    obtain ⟨r, hr, hplace⟩ := existing_entry (fileName_of_isCacheKey hkey) he
    obtain rfl := hplace.resolve_right (htidy.entry r hr)
    exact .inr ⟨r, hr, he, stored_writes q hkey he (fun name => htidy.files r name hr)
      (fun name n => htidy.temporaries r name n hr) hrun⟩

namespace Stored

variable {q : CacheRequest} {out : Except Fault Path × FileSystem}

theorem sameBut (h : Stored c q fs d out) :
    fs.SameBut out.2 [d ++ [c.programName], d ++ [notesName]] := by
  cases h with
  | done _ _ _ hwith hwith₂ =>
    refine ⟨hwith₂.current.trans hwith.current, fun l hl => ?_⟩
    simp only [List.mem_cons, List.not_mem_nil, or_false, not_or] at hl
    rw [hwith₂.other hl.2, hwith.other hl.1]
  | unwritten hsame => exact hsame.sameBut _
  | withdrawn _ hwith =>
    refine ⟨hwith.current, fun l hl => hwith.other ?_⟩
    rintro rfl
    exact hl List.mem_cons_self

/-- Directories are there as before. -/
theorem existing {p : Path} {l : Location} (h : Stored c q fs d out)
    (hlinks : ∀ name, ¬fs.LinkedDirectory d name) (hp : fs.existing p = .ok (l, .directory)) :
    out.2.existing p = .ok (l, .directory) := by
  cases h with
  | done hfit hdir hdir₂ hwith hwith₂ =>
    refine (Stored.done hfit hdir hdir₂ hwith hwith₂).sameBut.existing (d := d)
      (fun m hm => ?_) hp
    simp only [List.mem_cons, List.not_mem_nil, or_false] at hm
    rcases hm with rfl | rfl
    · exact ⟨hdir, _, c.fileName_programName, rfl, hlinks _⟩
    · exact ⟨hdir₂, _, fileName_notesName, rfl, hlinks _⟩
  | unwritten hsame => exact (hsame.sameBut []).existing (d := d) nofun hp
  | withdrawn hdir hwith =>
    refine hwith.sameBut.existing (d := d) (fun m hm => ?_) hp
    obtain rfl := List.mem_singleton.mp hm
    exact ⟨hdir, _, c.fileName_programName, rfl, hlinks _⟩

end Stored

section Lookup

variable {size : UInt64} {mode : Nat} {data : Bytes}

/-- A look-up changes nothing. -/
theorem run_lookup {found : Option Path} (h : ((c.lookup key size).run fs).1 = found) :
    (c.lookup key size).run fs = (found, fs) := by
  refine Prod.ext h ?_
  rw [lookup, Proc.run_bind, Proc.run_call, perform]
  split
  · rfl
  · rfl

/-- A look-up finds the program of the entry or nothing. -/
theorem run_lookup_fst {p : Path} (h : ((c.lookup key size).run fs).1 = some p) :
    p = c.binary key := by
  rw [lookup, Proc.run_bind, Proc.run_call, perform] at h
  split at h
  · cases h
  · rw [Proc.run_pure] at h
    split at h
    · exact (Option.some.inj h).symm
    · cases h

/-- A file of the right size that may be executed is found. -/
theorem run_lookup_file (hkey : isCacheKey (Path.ofString key) = true)
    (he : fs.existing (c.entry key) = .ok (d, .directory))
    (hfit : ¬TooLong (c.entry key) c.programName)
    (hnode : fs.node? (d ++ [c.programName]) = some (.file mode data))
    (hsize : data.length = size.toNat) (hmode : isExecutable mode = true) :
    (c.lookup key size).run fs = (some (c.binary key), fs) := by
  have hnames := binary_eq hkey c ▸ Names.of_existing he c.fileName_programName hfit
  have hstatus : fs.status (c.binary key) = .ok ⟨true, data.length, mode⟩ := by
    rw [status, hnames.file, hnames.resolve fun _ _ => rfl]
    simp only [bind, Except.bind, hnode]
    rfl
  rw [lookup, Proc.run_bind, Proc.run_call, perform, hstatus]
  simp [hsize, hmode]

theorem read_binary (hkey : isCacheKey (Path.ofString key) = true)
    (he : fs.existing (c.entry key) = .ok (d, .directory))
    (hfit : ¬TooLong (c.entry key) c.programName)
    (hnode : fs.node? (d ++ [c.programName]) = some (.file mode data)) :
    fs.read (c.binary key) = .ok data := by
  rw [binary_eq hkey]
  exact (Names.of_existing he c.fileName_programName hfit).read hnode

end Lookup

end Cache

end SelfExtract
