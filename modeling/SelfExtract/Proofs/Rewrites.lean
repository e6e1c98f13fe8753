import SelfExtract.Proofs.AtomicWrites

/-!
# Writing a file again and again

A write that has succeeded has replaced one file by another, unless a link bore
the name of the temporary file. The path goes on to stand for the same name, so
that the file can be read and written again.
-/
namespace SelfExtract

namespace FileSystem

/-- No link bears the last name of a path. -/
def LinkFree (fs : FileSystem) (p : Path) : Prop :=
  ∀ f, fs.resolve false p = .ok f → ∀ target, f.node ≠ some (.link target)

variable {fs fs₁ fs₂ : FileSystem} {p q : Path} {d l : Location} {name temp : Bytes} {mode : Nat}
  {data : Bytes}

theorem LinkFree.node (h : fs.LinkFree p) (hp : fs.Names p d name) (target : Path) :
    fs.node? (d ++ [name]) ≠ some (.link target) :=
  h _ (hp.resolve fun _ _ => rfl) target

/-- A file that was opened for writing has a name of its own. -/
theorem names_of_create (hlink : fs.LinkFree q) (hq : q.LastName temp)
    (h : fs.create q mode = .ok (l, fs₁)) :
    ∃ d, fs.Names q d temp ∧ Free (fs.node? (d ++ [temp])) := by
  obtain ⟨f, hf, h⟩ := bind_eq_ok.mp h
  obtain ⟨d, hnames, rfl⟩ := Names.of_lastName hf hq fun d target hd hnode =>
    absurd hnode (hlink.node hd target)
  refine ⟨d, hnames, fun hdir => ?_, hlink.node hnames⟩
  rw [hdir] at h
  cases h

/-- A file that was moved now bears a name that no directory had. -/
theorem names_of_rename (hp : p.LastName name) (h : fs.rename q p = .ok fs₁) :
    ∃ d, fs.Names p d name ∧ fs.node? (d ++ [name]) ≠ some .directory := by
  obtain ⟨s, hs, h⟩ := bind_eq_ok.mp h
  obtain ⟨t, ht, h⟩ := bind_eq_ok.mp h
  obtain ⟨d, hnames, rfl⟩ := Names.of_lastName ht hp fun _ _ _ _ => rfl
  refine ⟨d, hnames, fun hdir => ?_⟩
  split at h
  · cases h
  · cases h
  · cases hasks : q.asksForDirectory || p.asksForDirectory <;>
      simp [hasks, hdir, throw, throwThe, MonadExceptOf.throw, bind, Except.bind] at h

/-- The directory of a path is that of its temporary file. -/
theorem Names.directory_unique {pid : Nat} {d' : Location} (hp : fs.Names p d name)
    (hlast : p.LastName name)
    (hq : fs.Names (Proc.temporary pid p) d' (Proc.temporary pid name)) : d = d' := by
  obtain ⟨front, left, hnames, hway⟩ := hp.way
  obtain ⟨front', left', hnames', hway'⟩ := hq.way
  obtain ⟨path, hpath, rfl⟩ := hlast.split
  rw [Path.names_append hpath, hlast.file.names] at hnames
  rw [Proc.temporary, List.append_assoc, Path.names_append hpath] at hnames'
  have htemp : Path.names (Proc.temporary pid name) = [Proc.temporary pid name] :=
    (fileName_temporary pid hlast.file).names
  rw [Proc.temporary] at htemp
  rw [htemp] at hnames'
  obtain ⟨rfl, -⟩ := List.append_inj' hnames rfl
  obtain ⟨rfl, -⟩ := List.append_inj' hnames' rfl
  rw [Proc.temporary, start_congr (hp.valid.isAbsolute_append _) rfl] at hway'
  exact hway.unique hway'

theorem With.back {o : Option Node} (h : fs.With fs₁ l o) : fs₁.With fs l (fs.node? l) where
  current := h.current.symm
  node m := by
    split
    · next hm => rw [hm]
    · next hm => rw [h.other hm]

end FileSystem

namespace Proc

open FileSystem

variable {fs fs₁ : FileSystem} {p : Path} {d : Location} {name : Bytes} {pid mode : Nat}
  {data : Bytes}

theorem run_replaceBy_ok (h : (writeAtomically pid p mode data).run fs = (.ok (), fs₁)) :
    (replaceBy (temporary pid p) p mode data).run fs = (.ok (), fs₁) := by
  cases hrun : (replaceBy (temporary pid p) p mode data).run fs with
  | mk r fs₂ =>
    cases r with
    | ok =>
      rw [run_writeAtomically_ok hrun] at h
      exact h
    | error err =>
      rw [run_writeAtomically_error hrun] at h
      cases (Prod.mk.inj h).1

/-- A write that has succeeded was possible. -/
theorem writable_of_ok (hlink : fs.LinkFree (temporary pid p)) (hp : p.LastName name)
    (h : (writeAtomically pid p mode data).run fs = (.ok (), fs₁)) :
    ∃ d, fs.Writable pid p d name := by
  have hreplace := run_replaceBy_ok h
  obtain ⟨l, fs₂, hcreate⟩ : ∃ l fs₂, fs.create (temporary pid p) mode = .ok (l, fs₂) := by
    cases hcreate : fs.create (temporary pid p) mode with
    | ok r => exact ⟨r.1, r.2, rfl⟩
    | error err =>
      rw [replaceBy, run_bind, run_call, perform, hcreate] at hreplace
      cases (Prod.mk.inj hreplace).1
  obtain ⟨d, hdraft, hfree⟩ := names_of_create hlink (hp.temporary pid) hcreate
  obtain ⟨fs₃, hwith, hrun⟩ := run_replaceBy p mode data hdraft hfree
  rw [hreplace] at hrun
  obtain ⟨fs₄, hrename⟩ : ∃ fs₄, fs₃.rename (temporary pid p) p = .ok fs₄ := by
    cases hrename : fs₃.rename (temporary pid p) p with
    | ok fs₄ => exact ⟨fs₄, rfl⟩
    | error err =>
      rw [perform, hrename] at hrun
      cases (Prod.mk.inj hrun).1
  obtain ⟨d', htarget, hdir⟩ := names_of_rename hp hrename
  have hkeep := hwith.keepsTree hfree (free_file _ data)
  obtain rfl := htarget.directory_unique hp (hdraft.keep hkeep)
  have hback := hwith.back.keepsTree (hwith.self ▸ free_file _ data) hfree
  rw [hwith.other (place_ne _ (ne_temporary pid name))] at hdir
  exact ⟨_, htarget.keep hback, hdraft, hfree, hdir⟩

end Proc

namespace FileSystem

variable {fs fs₁ : FileSystem} {p : Path} {d : Location} {name : Bytes} {pid mode : Nat}
  {data old : Bytes}

/-- A file that is read is not a directory behind a link. -/
theorem not_linkedDirectory_of_read (hp : fs.Names p d name) (h : fs.read p = .ok old) :
    ¬fs.LinkedDirectory d name := by
  rintro ⟨target, f, hnode, hwalk, hdir⟩
  obtain ⟨l, _, -, ⟨left, hway⟩, hl, -⟩ := read_eq_ok_iff.mp h
  obtain ⟨front, after, hnames, hfront⟩ := hp.way
  rw [hnames] at hway
  obtain ⟨middleLinks, middle, hfirst, hlast⟩ := hway.split
  obtain rfl := hfront.unique hfirst
  have hmore := hlast.add_links (maxLinks - middleLinks)
  rw [Nat.add_sub_cancel' hfirst.left_le] at hmore
  obtain ⟨named, hend⟩ := hmore.walk_eq
  rw [hwalk] at hend
  obtain rfl := Except.ok.inj hend
  rw [hl] at hdir
  cases hdir

/-- A name stands in its directory as long as nothing changes that leads there. -/
theorem Names.of_sameBut {ls : List Location} (hp : fs.Names p d name) (hsame : fs.SameBut fs₁ ls)
    (hls : ∀ m ∈ ls, fs.node? m ≠ some .directory ∧
      ∃ name, Path.FileName name ∧ m = d ++ [name] ∧ ¬fs.LinkedDirectory d name) :
    fs₁.Names p d name := by
  obtain ⟨front, left, hnames, hway⟩ := hp.way
  refine ⟨hp.valid, hp.file, hp.plain, ?_, front, left, hnames, ?_⟩
  · rw [hsame.node d fun hmem => (hls d hmem).1 hp.directory, hp.directory]
  · rw [start_congr rfl hsame.current]
    exact hsame.leads hls hway hp.directory

/-- Where a file can be written no link bears the temporary name. -/
theorem Writable.linkFree (h : fs.Writable pid p d name) :
    fs.LinkFree (Proc.temporary pid p) := by
  intro f hf target
  rw [h.draft.resolve fun _ _ => rfl] at hf
  cases hf
  exact h.free.2 target

/-- Neither of the two places where a write changes something leads anywhere. -/
theorem Writable.leads_nowhere (h : fs.Writable pid p d name) (hp : p.LastName name)
    (hread : fs.read p = .ok old) :
    ∀ m ∈ [d ++ [name], d ++ [Proc.temporary pid name]], fs.node? m ≠ some .directory ∧
      ∃ name, Path.FileName name ∧ m = d ++ [name] ∧ ¬fs.LinkedDirectory d name := by
  have hdraft : ¬fs.LinkedDirectory d (Proc.temporary pid name) := by
    rintro ⟨target, -, hnode, -⟩
    exact h.free.2 target hnode
  simp only [List.forall_mem_cons]
  exact ⟨⟨h.no_directory, name, hp.file, rfl, not_linkedDirectory_of_read h.target hread⟩,
    ⟨h.free.1, _, fileName_temporary pid hp.file, rfl, hdraft⟩, nofun⟩

/-- A file that could be read has been replaced: the new one can be read and replaced again, and
nothing else is different but that the temporary file is gone. -/
structure Rewritten (fs fs₁ : FileSystem) (pid : Nat) (p : Path) (d : Location) (name : Bytes)
    (mode : Nat) (data : Bytes) : Prop where
  before : fs.Writable pid p d name
  after : fs₁.Writable pid p d name
  node : fs₁.node? (d ++ [name]) = some (.file mode data)
  gone : fs₁.node? (d ++ [Proc.temporary pid name]) = none
  sameBut : fs.SameBut fs₁ [d ++ [name], d ++ [Proc.temporary pid name]]

theorem Rewritten.read (h : fs.Rewritten fs₁ pid p d name mode data) : fs₁.read p = .ok data :=
  h.after.target.read h.node

/-- Every process that could replace the file before can do so again. -/
theorem Rewritten.writable {pid' : Nat} (h : fs.Rewritten fs₁ pid p d name mode data)
    (hp : p.LastName name) (hread : fs.read p = .ok old) (hw : fs.Writable pid' p d name) :
    fs₁.Writable pid' p d name where
  target := h.after.target
  draft := hw.draft.of_sameBut h.sameBut (h.before.leads_nowhere hp hread)
  free := by
    by_cases htemp : Proc.temporary pid' name = Proc.temporary pid name
    · rw [htemp, h.gone]
      exact free_none
    · rw [h.sameBut.node _ (by simp [htemp, Ne.symm (ne_temporary pid' name)])]
      exact hw.free
  no_directory := h.after.no_directory

/-- What is named in another way in the same directory stays as it is. -/
theorem Rewritten.resolve {q : Path} {other : Bytes} (h : fs.Rewritten fs₁ pid p d name mode data)
    (hq : fs.Names q d other) (hq₁ : fs₁.Names q d other) (hname : other ≠ name)
    (htemp : other ≠ Proc.temporary pid name) : fs₁.resolve false q = fs.resolve false q := by
  have hother : d ++ [other] ∉ [d ++ [name], d ++ [Proc.temporary pid name]] := by
    simp [hname, htemp]
  rw [hq.resolve fun _ _ => rfl, hq₁.resolve fun _ _ => rfl, h.sameBut.node _ hother]

/-- No link has got the name of the temporary file of any process. -/
theorem Rewritten.linkFree {pid' : Nat} (h : fs.Rewritten fs₁ pid p d name mode data)
    (hp : p.LastName name) (hlink : fs.LinkFree (Proc.temporary pid' p)) :
    fs₁.LinkFree (Proc.temporary pid' p) := by
  intro f hf target hnode
  obtain ⟨d', hnames, rfl⟩ := Names.of_lastName hf (hp.temporary pid') fun _ _ _ _ => rfl
  obtain rfl := h.after.target.directory_unique hp hnames
  have hls : ∀ m ∈ [d ++ [name], d ++ [Proc.temporary pid name]],
      fs₁.node? m ≠ some .directory ∧
        ∃ name, Path.FileName name ∧ m = d ++ [name] ∧ ¬fs₁.LinkedDirectory d name := by
    simp only [List.forall_mem_cons, LinkedDirectory, h.node, h.gone]
    exact ⟨⟨nofun, name, hp.file, rfl, by simp [h.node]⟩,
      ⟨nofun, _, fileName_temporary pid hp.file, rfl, by simp [h.gone]⟩, nofun⟩
  -- the two changed places lead nowhere afterwards, so the name stood there before as well
  have hbefore := hnames.of_sameBut h.sameBut.symm hls
  by_cases htemp : Proc.temporary pid' name = Proc.temporary pid name
  · rw [htemp, h.gone] at hnode
    cases hnode
  · rw [h.sameBut.node _ (by simp [htemp, Ne.symm (ne_temporary pid' name)])] at hnode
    exact hlink.node hbefore target hnode

end FileSystem

namespace Proc

open FileSystem

variable {fs fs₁ : FileSystem} {p : Path} {name : Bytes} {pid mode : Nat} {data old : Bytes}

/-- A write over a file that could be read, as long as no link bears the temporary name. -/
theorem rewritten_of_ok (hlink : fs.LinkFree (temporary pid p)) (hp : p.LastName name)
    (hread : fs.read p = .ok old)
    (h : (writeAtomically pid p mode data).run fs = (.ok (), fs₁)) :
    ∃ d, fs.Rewritten fs₁ pid p d name (permissions mode) data := by
  obtain ⟨d, hw⟩ := writable_of_ok hlink hp h
  obtain ⟨fs₂, fs₃, hgone, hdone, hrun⟩ := run_writeAtomically mode data hw
  rw [h] at hrun
  obtain ⟨-, rfl⟩ := Prod.mk.inj hrun
  have hne := place_ne d (ne_temporary pid name)
  have hsame : fs.SameBut fs₁ [d ++ [name], d ++ [temporary pid name]] :=
    ⟨hdone.current.trans hgone.current, fun l hl => by
      obtain ⟨hname, htemp⟩ := not_or.mp (mt List.mem_cons.mpr hl)
      rw [hdone.other hname, hgone.other (mt List.mem_singleton.mpr htemp)]⟩
  have hls := hw.leads_nowhere hp hread
  have hnone : fs₁.node? (d ++ [temporary pid name]) = none := by
    rw [hdone.other (Ne.symm hne), hgone.self]
  have hagain : fs₁.Writable pid p d name :=
    ⟨hw.target.of_sameBut hsame hls, hw.draft.of_sameBut hsame hls, hnone ▸ free_none,
      by simp [hdone.self]⟩
  exact ⟨d, hw, hagain, hdone.self, hnone, hsame⟩

end Proc

namespace FileSystem

variable {fs fs₁ : FileSystem} {p q : Path} {name temp : Bytes} {mode : Nat} {old : Bytes}

/-- A file that is read has a name that no directory has. -/
theorem names_of_read (hp : p.LastName name) (h : fs.read p = .ok old) :
    ∃ d, fs.Names p d name ∧ fs.node? (d ++ [name]) ≠ some .directory := by
  obtain ⟨l, _, hvalid, ⟨left, hway⟩, hl, -⟩ := read_eq_ok_iff.mp h
  obtain ⟨front, hnames⟩ := hp.names
  rw [hnames] at hway
  obtain ⟨after, d, hfirst, hlast⟩ := hway.split
  have hstands : PlainName name → fs.Names p d name := fun hplain =>
    ⟨hvalid, hp.asksForDirectory, hplain, hlast.directory, front, after, hnames, hfirst⟩
  cases hlast with
  | dot => exact absurd rfl hp.file.not_dot
  | dotDot => exact absurd rfl hp.file.not_dotDot
  | link _ hplain hnode => exact ⟨d, hstands hplain, by simp [hnode]⟩
  | object _ hplain _ _ hend =>
    cases hend
    refine ⟨d, hstands hplain, ?_⟩
    simp [hl]

/-- There is no file to be removed where none could be opened. -/
theorem perform_unlink_unopened {err : IoError} (hlink : fs.LinkFree q) (hq : q.LastName temp)
    (h : fs.create q mode = .error err) : (fs.perform (.unlink q)).2 = fs := by
  rw [perform, unlink]
  cases hf : fs.resolve false q with
  | error e => rfl
  | ok f =>
    obtain ⟨d, hnames, rfl⟩ := Names.of_lastName hf hq fun _ _ _ _ => rfl
    simp only [bind, Except.bind]
    cases hnode : fs.node? (d ++ [temp]) with
    | none => rfl
    | some n =>
      cases n with
      | directory => rfl
      | link target => exact absurd hnode (hlink.node hnames target)
      | file m data =>
        obtain ⟨m, hcreate⟩ := perform_create mode hnames (hnode ▸ free_file m data)
        rw [perform, h] at hcreate
        cases (Prod.mk.inj hcreate).1

end FileSystem

namespace Proc

open FileSystem

variable {fs fs₁ : FileSystem} {p : Path} {name : Bytes} {pid mode : Nat} {data old : Bytes}

/-- A write over a file that could be read changes nothing if it fails. -/
theorem unchanged_of_error {err : IoError} (hlink : fs.LinkFree (temporary pid p))
    (hp : p.LastName name) (hread : fs.read p = .ok old)
    (h : (writeAtomically pid p mode data).run fs = (.error err, fs₁)) : fs₁ = fs := by
  cases hcreate : fs.create (temporary pid p) mode with
  | error e =>
    have hreplace : (replaceBy (temporary pid p) p mode data).run fs = (.error e, fs) := by
      rw [replaceBy, run_bind, run_call, perform, hcreate]
      rfl
    rw [run_writeAtomically_error hreplace,
      perform_unlink_unopened hlink (hp.temporary pid) hcreate] at h
    exact (Prod.mk.inj h).2.symm
  | ok r =>
    -- only the opening can fail: the name that is read can be taken by a file
    obtain ⟨d, hnames, hdir⟩ := names_of_read hp hread
    obtain ⟨d', hdraft, hfree⟩ := names_of_create hlink (hp.temporary pid) hcreate
    obtain rfl := hnames.directory_unique hp hdraft
    obtain ⟨-, fs₂, -, -, hrun⟩ := run_writeAtomically mode data ⟨hnames, hdraft, hfree, hdir⟩
    rw [hrun] at h
    cases (Prod.mk.inj h).1

end Proc

end SelfExtract
