import SelfExtract.Proofs.CacheEntries
import SelfExtract.Proofs.FileWrites

/-!
# Writing an entry while others write theirs

Storing a program and noting the state of look-ups write two files and their
temporary files, all in the directory of one entry. The program is there only
as a whole, and a sidecar too.
-/
namespace SelfExtract

open FileSystem

namespace Cache

variable {fs fs' : FileSystem} {c : Cache} {root e : Path} {d : Location} {name : Bytes}
  {pid : Nat} {key : String}

theorem programName_ne_temporary (c : Cache) (pid : Nat) (name : Bytes) :
    c.programName ≠ Proc.temporary pid name := by
  have hlast : c.programName.getLast? = some 0x65 := by
    rw [programName]
    cases c.os <;> decide
  exact ne_temporary_of_last hlast (by decide) pid name

theorem notesName_ne_temporary (pid : Nat) (name : Bytes) :
    notesName ≠ Proc.temporary pid name :=
  ne_temporary_of_last (b := 0x6E) (by decide) (by decide) pid name

/-- A path that names a file in a directory shows that the directory is there. -/
theorem isRoot_of_names {last : Bytes} (hname : Path.FileName name)
    (h : fs.Names (e.join name) d last) : IsRoot fs e d ∧ last = name := by
  obtain ⟨front, left, hnames, hway⟩ := h.way
  rw [Path.names_join e hname.not_absolute, hname.names] at hnames
  obtain ⟨rfl, hlast⟩ := List.append_inj' hnames rfl
  rw [start_congr (Path.isAbsolute_join e hname.not_absolute) rfl] at hway
  exact ⟨.of_way hname.not_absolute hname.not_empty h.valid h.directory hway,
    (List.singleton_inj.mp hlast).symm⟩

/-- Where a directory is or comes to be, no link is in it. -/
def LinkFree (fs : FileSystem) (e : Path) : Prop :=
  ∀ fs' d name target, fs.KeepsTree fs' → IsRoot fs' e d →
    fs.node? (d ++ [name]) ≠ some (.link target)

theorem LinkFree.keep (h : LinkFree fs e) (hkeep : fs.KeepsTree fs') : LinkFree fs' e := by
  intro fs₁ d name target hkeep₁ hd hnode
  exact h fs₁ d name target (hkeep.trans hkeep₁) hd ((hkeep.link _ _).mp hnode)

theorem LinkFree.unlinked (h : LinkFree fs e) (hname : Path.FileName name) :
    fs.Unlinked (e.join name) := by
  intro fs' d last target hkeep hnames
  exact h fs' d last target hkeep (isRoot_of_names hname hnames).1

theorem temporary_join (e : Path) (hname : Path.FileName name) (pid : Nat) :
    Proc.temporary pid (e.join name) = e.join (Proc.temporary pid name) := by
  obtain ⟨front, hfront⟩ := Path.join_eq_append e
  rw [hfront _ hname.not_absolute, hfront _ (fileName_temporary pid hname).not_absolute]
  exact List.append_assoc front name _

section Roots

/-- No link is in a cache, nor comes to be in it when its root is made. -/
def NoLinks (fs : FileSystem) (root : Path) : Prop :=
  ∀ fs' r below target, fs.KeepsTree fs' → IsRoot fs' root r →
    fs.node? (r ++ below) ≠ some (.link target)

theorem NoLinks.keep (h : NoLinks fs root) (hkeep : fs.KeepsTree fs') : NoLinks fs' root := by
  intro fs₁ r below target hkeep₁ hr hnode
  exact h fs₁ r below target (hkeep.trans hkeep₁) hr ((hkeep.link _ _).mp hnode)

/-- The directory for which an entry stands is in the root. -/
theorem NoLinks.entry (h : NoLinks fs root) (hname : Path.FileName (Path.ofString key))
    (hkeep : fs.KeepsTree fs') (he : IsRoot fs' (root.join (Path.ofString key)) d) :
    ∃ r, IsRoot fs' root r ∧ d = r ++ [Path.ofString key] := by
  obtain ⟨r, hr, hd | ⟨target, -, hnode, -⟩⟩ := isRoot_entry (c := ⟨root, .linux⟩) hname he
  · exact ⟨r, hr, hd⟩
  · exact absurd ((hkeep.link _ _).mp hnode) (h fs' r _ target hkeep hr)

theorem NoLinks.linkFree (h : NoLinks fs root) (hname : Path.FileName (Path.ofString key)) :
    LinkFree fs (root.join (Path.ofString key)) := by
  intro fs' d name target hkeep he
  obtain ⟨r, hr, rfl⟩ := h.entry hname hkeep he
  rw [List.append_assoc]
  exact h fs' r _ target hkeep hr

/-- Two single names with one directory are the same. -/
theorem NoLinks.key_eq {key' : String} (h : NoLinks fs root)
    (hname : Path.FileName (Path.ofString key)) (hname' : Path.FileName (Path.ofString key'))
    (he : IsRoot fs (root.join (Path.ofString key)) d)
    (he' : IsRoot fs (root.join (Path.ofString key')) d) : key' = key := by
  obtain ⟨r, hr, rfl⟩ := h.entry hname (.refl fs) he
  obtain ⟨r', hr', heq⟩ := h.entry hname' (.refl fs) he'
  exact (Path.ofString_inj (List.singleton_inj.mp (List.append_inj' heq rfl).2)).symm

/-- A key that is a single name, or else one that leads to directories without links. -/
def Sound (fs : FileSystem) (root : Path) (key : String) : Prop :=
  Path.FileName (Path.ofString key) ∨ LinkFree fs (root.join (Path.ofString key))

theorem Sound.linkFree (h : Sound fs root key) (hlinks : NoLinks fs root) :
    LinkFree fs (root.join (Path.ofString key)) :=
  h.elim hlinks.linkFree id

end Roots

/-- A program that is found is a file of the size that may be executed. -/
theorem lookup_some {size : UInt64} {b : Path} (hlinks : fs.Unlinked (c.binary key))
    (h : ((c.lookup key size).run fs).1 = some b) : ∃ l mode data,
      fs.existing (c.binary key) = .ok (l, .file mode data) ∧ data.length = size.toNat ∧
        isExecutable mode = true := by
  have hlast : (c.binary key).LastName c.programName := .join _ c.fileName_programName
  rw [lookup, Proc.run_bind, Proc.run_call, perform] at h
  split at h
  · cases h
  · next s hs =>
    rw [Proc.run_pure] at h
    obtain ⟨f, hf, hs⟩ := bind_eq_ok.mp hs
    obtain ⟨d, hnames, rfl⟩ := Names.of_lastName hf hlast fun d target hnames hnode =>
      absurd hnode (hlinks fs d _ target (.refl fs) hnames)
    cases hnode : fs.node? (d ++ [c.programName]) with
    | none =>
      simp only [hnode] at hs
      cases hs
    | some n =>
      cases n with
      | link target =>
        simp only [hnode] at hs
        cases hs
      | directory =>
        simp only [hnode] at hs
        cases hs
        simp at h
      | file mode data =>
        simp only [hnode, hlast.asksForDirectory] at hs
        cases hs
        simp only [Bool.true_and, Option.ite_none_right_eq_some, Bool.and_eq_true,
          beq_iff_eq] at h
        exact ⟨_, mode, data, hnames.existing hnode, h.1.1, h.1.2⟩

/-- What a process learns from a look-up when it is alone. -/
theorem assures_lookup (hlinks : fs.Unlinked (c.binary key)) (size : UInt64) :
    Proc.Assures Eq Eq (fun r fs' => fs = fs' ∧ ∀ b, r = some b → b = c.binary key ∧
      ∃ l mode data, fs.existing b = .ok (l, .file mode data) ∧ data.length = size.toNat ∧
        isExecutable mode = true) (c.lookup key size) fs := by
  have hrun : ∀ b, ((c.lookup key size).run fs).1 = some b → b = c.binary key ∧
      ∃ l mode data, fs.existing b = .ok (l, .file mode data) ∧ data.length = size.toNat ∧
        isExecutable mode = true := by
    intro b hb
    obtain rfl := run_lookup_fst hb
    exact ⟨rfl, lookup_some hlinks hb⟩
  rw [lookup, Proc.run_bind, Proc.run_call, perform] at hrun
  rw [lookup]
  refine (Proc.assures_look_alone rfl (fun _ => rfl) fs).bind ?_
  rintro r _ ⟨rfl, rfl | ⟨e, rfl⟩⟩
  · rw [perform]
    cases hs : fs.status (c.binary key) with
    | error e => exact .pure ⟨rfl, by simp⟩
    | ok s =>
      rw [hs] at hrun
      exact .pure ⟨rfl, hrun⟩
  · exact .pure ⟨rfl, by simp⟩

/-- What one process may do to an entry: its temporary files do not matter, and the program and the
sidecar become what they may. -/
inductive Fills (c : Cache) (pid : Nat) (key : String) (program notes : Option Node → Prop) :
    Path → Option Node → Prop
  | draft {name : Bytes} {o : Option Node} : Path.FileName name →
      Fills c pid key program notes (Proc.temporary pid ((c.entry key).join name)) o
  | program {o : Option Node} : program o → Fills c pid key program notes (c.binary key) o
  | sidecar {o : Option Node} : notes o → Fills c pid key program notes (c.sidecar key) o

namespace Fills

variable {program notes program' notes' : Option Node → Prop} {p : Path} {o : Option Node}

theorem mono (h : c.Fills pid key program notes p o) (hprogram : ∀ o, program o → program' o)
    (hnotes : ∀ o, notes o → notes' o) : c.Fills pid key program' notes' p o := by
  cases h with
  | draft hname => exact .draft hname
  | program h => exact .program (hprogram _ h)
  | sidecar h => exact .sidecar (hnotes _ h)

/-- It is a file of the entry, or a temporary file. -/
theorem last (h : c.Fills pid key program notes p o) :
    (∃ name, Path.FileName name ∧ p.LastName (Proc.temporary pid name)) ∨
      p = c.binary key ∧ p.LastName c.programName ∧ program o ∨
      p = c.sidecar key ∧ p.LastName notesName ∧ notes o := by
  cases h with
  | @draft name _ hname => exact .inl ⟨name, hname, (Path.LastName.join _ hname).temporary pid⟩
  | program h => exact .inr (.inl ⟨rfl, .join _ c.fileName_programName, h⟩)
  | sidecar h => exact .inr (.inr ⟨rfl, .join _ fileName_notesName, h⟩)

/-- It is in the directory of the entry. -/
theorem isRoot {last : Bytes} (h : c.Fills pid key program notes p o) (hnames : fs.Names p d last) :
    IsRoot fs (c.entry key) d := by
  cases h with
  | draft hname =>
    rw [temporary_join _ hname] at hnames
    exact (isRoot_of_names (fileName_temporary pid hname) hnames).1
  | program => exact (isRoot_of_names c.fileName_programName hnames).1
  | sidecar => exact (isRoot_of_names fileName_notesName hnames).1

theorem exists_last (h : c.Fills pid key program notes p o) : ∃ name, p.LastName name := by
  rcases h.last with ⟨name, -, hlast⟩ | ⟨-, hlast, -⟩ | ⟨-, hlast, -⟩
  · exact ⟨_, hlast⟩
  · exact ⟨_, hlast⟩
  · exact ⟨_, hlast⟩

/-- Only the program and the temporary files can have the name of a program. -/
theorem of_programName {c' : Cache} (h : c.Fills pid key program notes p o)
    (hp : p.LastName c'.programName) : p = c.binary key ∧ program o := by
  rcases h.last with ⟨name, -, hlast⟩ | ⟨hp, -, ho⟩ | ⟨-, hlast, -⟩
  · exact absurd (hp.unique hlast) (c'.programName_ne_temporary pid name)
  · exact ⟨hp, ho⟩
  · exact absurd (hp.unique hlast) c'.ne_notesName

end Fills

section Assurances

variable {rely : FileSystem → FileSystem → Prop} {own : Bytes → Prop}
  (hrely : ∀ fs fs', rely fs fs' → fs.Leaves own fs')
include hrely

/-- A file of an entry is replaced as a whole. -/
theorem assures_writeFile {may : Path → Option Node → Prop} {mode : Nat} {data : Bytes}
    (hown : ∀ target, own (Proc.temporary pid target)) (hname : Path.FileName name)
    (hmay : ∀ o, may (Proc.temporary pid (e.join name)) o)
    (hfull : may (e.join name) (some (.file (permissions mode) data))) (hlinks : LinkFree fs e) :
    Proc.Assures rely (·.Writes may ·)
      (fun r fs => r = .ok () → own name → fs.HasFile (e.join name) name (permissions mode) data)
      (Proc.writeAtomically pid (e.join name) mode data) fs := by
  have hunlinked : fs.Unlinked (Proc.temporary pid (e.join name)) := by
    rw [temporary_join e hname]
    exact hlinks.unlinked (fileName_temporary pid hname)
  exact Proc.assures_writeAtomically hmay hfull hrely (hown name) (.join e hname)
    (hlinks.unlinked hname) hunlinked

/-- Writing the sidecar leaves the program alone. -/
theorem assures_writeSidecar {program notes : Option Node → Prop} {s : Sidecar}
    (hown : ∀ target, own (Proc.temporary pid target))
    (hnotes : notes (some (.file sidecarMode s.encode))) (hlinks : LinkFree fs (c.entry key))
    {kept : FileSystem → Prop} (hstable : ∀ fs fs', kept fs → rely fs fs' → kept fs')
    (hwrites : ∀ fs fs' : FileSystem, kept fs →
      fs.Leaves (· = c.programName) fs' → kept fs') (hkept : kept fs) :
    Proc.Assures rely (·.Writes (c.Fills pid key program notes) ·) (fun _ fs => kept fs)
      (c.writeSidecar pid key s) fs := by
  -- nothing is written here that counts as a program, so that no program is touched
  have hsidecar : Proc.Assures rely (·.Writes (c.Fills pid key (fun _ => False) notes) ·) _
      (c.writeSidecar pid key s) fs :=
    assures_writeFile hrely hown fileName_notesName (fun _ => .draft fileName_notesName)
      (.sidecar hnotes) hlinks
  have hleaves : ∀ fs fs' : FileSystem, fs.Writes (c.Fills pid key (fun _ => False) notes) fs' →
      fs.Leaves (· = c.programName) fs' := by
    intro fs fs' h
    refine h.leaves ?_ fun p o hmay => hmay.exists_last
    rintro p o name hmay hlast rfl
    exact (hmay.of_programName hlast).2
  refine ((hsidecar.frame hstable (fun fs fs' hk h => hwrites fs fs' hk (hleaves fs fs' h))
    hkept).weaken_post fun _ _ h => h.2).weaken_guarantee fun fs fs' h => ?_
  exact h.mono fun p o hfills => hfills.mono (fun _ h => h.elim) fun _ h => h

/-- What storing may do to an entry. -/
def Stores (c : Cache) (pid : Nat) (q : CacheRequest) : Path → Option Node → Prop :=
  c.Fills pid q.key (fun o => o = none ∨ o = some (.file binaryMode q.data))
    fun o => o = some (.file sidecarMode (newSidecar q).encode)

/-- A program that was stored is there in the end if others leave it alone. -/
theorem assures_store (pid : Nat) (q : CacheRequest)
    (hown : ∀ target, own (Proc.temporary pid target)) (hlinks : LinkFree fs (c.entry q.key)) :
    Proc.Assures rely (·.Writes (c.Stores pid q) ·)
      (fun r fs => ∀ b, r = .ok b → b = c.binary q.key ∧
        (own c.programName → fs.HasFile b c.programName binaryMode q.data))
      (c.store pid q) fs := by
  have hkeeps := fun fs fs' hr => (hrely fs fs' hr).keeps
  have hstable : ∀ fs fs', LinkFree fs (c.entry q.key) → rely fs fs' →
      LinkFree fs' (c.entry q.key) := fun fs fs' h hr => h.keep (hkeeps fs fs' hr)
  have hkept : ∀ fs fs' : FileSystem, LinkFree fs (c.entry q.key) →
      fs.Writes (c.Stores pid q) fs' → LinkFree fs' (c.entry q.key) :=
    fun _ _ h hw => h.keep hw.keeps
  have hfull : c.Stores pid q (c.binary q.key) (some (.file binaryMode q.data)) :=
    .program (.inr rfl)
  rw [store]
  refine ((Proc.assures_makeDirectories _ fs).frame hstable hkept hlinks).bind ?_
  rintro r fs ⟨-, hlinks⟩
  cases r with
  | error err => exact .pure (by simp)
  | ok u =>
    have hprogram := c.fileName_programName
    refine ((assures_writeFile hrely hown hprogram (fun _ => .draft hprogram) hfull
      hlinks).frame hstable hkept hlinks).bind ?_
    rintro r fs ⟨hwritten, hlinks⟩
    cases r with
    | error err => exact .pure (by simp)
    | ok u =>
      have hfile : own c.programName →
          fs.HasFile (c.binary q.key) c.programName binaryMode q.data := hwritten rfl
      have hnotes : Proc.Assures rely (·.Writes (c.Stores pid q) ·)
          (fun _ fs => own c.programName →
            fs.HasFile (c.binary q.key) c.programName binaryMode q.data)
          (c.writeSidecar pid q.key (newSidecar q)) fs := by
        refine assures_writeSidecar hrely hown ?_ hlinks ?_ ?_ hfile
        · rfl
        · exact fun fs fs' h hr hmine => (h hmine).leave (hrely fs fs' hr) hmine
        · exact fun fs fs' h hl hmine => (h hmine).leave hl rfl
      refine (hnotes.frame hstable hkept hlinks).bind ?_
      rintro r fs ⟨hfile, hlinks⟩
      cases r with
      | ok u =>
        refine .pure fun b hb => ?_
        obtain rfl := Except.ok.inj hb
        exact ⟨rfl, hfile⟩
      | error err =>
        exact (Proc.assures_unlink (.program (.inl rfl)) (.join _ hprogram) hkeeps
          (hlinks.unlinked hprogram)).discard.bind fun _ _ _ => .pure (by simp)

omit hrely in
theorem assures_readSidecar (c : Cache) (key : String) (fs : FileSystem) :
    Proc.Assures Eq Eq (fun _ fs' => fs = fs') (c.readSidecar key) fs := by
  rw [readSidecar]
  refine (Proc.assures_look_alone rfl (fun _ => rfl) fs).bind ?_
  rintro r _ ⟨rfl, -⟩
  split
  · exact .pure rfl
  · exact .pure rfl
  · split
    · exact .pure rfl
    · exact .pure rfl

omit hrely in
theorem assures_readState (c : Cache) (key : String) (fs : FileSystem) :
    Proc.Assures Eq Eq (fun _ fs' => fs = fs') (c.readState key) fs := by
  rw [readState]
  refine (assures_readSidecar c key fs).bind ?_
  rintro r _ rfl
  split
  · exact .pure rfl
  · exact .pure rfl

omit hrely in
/-- Noting the state of look-ups writes nothing but the sidecar. -/
theorem assures_writeState (pid : Nat) (state : UpdateState) (hlinks : LinkFree fs (c.entry key)) :
    Proc.Assures Eq (·.Writes (c.Fills pid key (fun _ => False) fun _ => True) ·)
      (fun _ _ => True) (c.writeState pid key state) fs := by
  have hwrite : ∀ s, Proc.Assures Eq (·.Writes (c.Fills pid key (fun _ => False) fun _ => True) ·)
      (fun _ _ => True) (c.writeSidecar pid key s) fs := fun s =>
    assures_writeSidecar leaves_of_eq (fun _ => trivial) trivial hlinks (fun _ _ _ _ => trivial)
      (fun _ _ _ _ => trivial) trivial
  rw [writeState]
  refine ((assures_readSidecar c key fs).weaken_guarantee fun _ _ h => h ▸ .refl _ _).bind ?_
  rintro r _ rfl
  split
  · exact .pure trivial
  · exact .pure trivial
  · next s =>
    refine (hwrite _).bind fun r fs _ => ?_
    split
    · exact .pure trivial
    · exact .pure trivial

end Assurances

end Cache

end SelfExtract
