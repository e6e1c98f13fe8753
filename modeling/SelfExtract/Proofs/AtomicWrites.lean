import SelfExtract.Proofs.Directories
import SelfExtract.Proofs.NamedFiles

/-!
# A file is replaced as a whole or not at all

A write that succeeds changes one location, which then holds the new file. One
that fails changes nothing, as long as the name of the temporary file was free.
Ways to directories do not go through what such a write replaces.
-/
namespace SelfExtract

namespace FileSystem

variable {fs fs₁ fs₂ : FileSystem}

section Calls

variable {e p q : Path} {d l : Location} {name temp : Bytes} {mode old : Nat} {data : Bytes}

/-- A new file, or an old one that is emptied. -/
theorem perform_create (mode : Nat) (hq : fs.Names q d temp)
    (hfree : Free (fs.node? (d ++ [temp]))) : ∃ m,
      fs.perform (.create q mode) =
        (.ok (d ++ [temp]), fs.put (d ++ [temp]) (.file m [])) := by
  rw [perform, create, hq.resolve fun target h => absurd h (hfree.2 target)]
  cases hnode : fs.node? (d ++ [temp]) with
  | none =>
    simp only [bind, Except.bind, hq.file]
    exact ⟨_, rfl⟩
  | some n =>
    cases n with
    | directory => exact absurd hnode hfree.1
    | link target => exact absurd hnode (hfree.2 target)
    | file m content =>
      simp only [bind, Except.bind, hq.file]
      exact ⟨_, rfl⟩

/-- A directory, or a name that is too long, keeps a file from being made. -/
theorem perform_create_refused (mode : Nat) (he : fs.existing e = .ok (d, .directory))
    (hname : Path.FileName name)
    (hrefused : TooLong e name ∨ fs.node? (d ++ [name]) = some .directory) :
    ∃ err, fs.perform (.create (e ++ Path.slash :: name) mode) = (.error err, fs) := by
  by_cases hlong : TooLong e name
  · rw [perform, create, resolve_tooLong he hname hlong]
    exact ⟨_, rfl⟩
  · have hdir := hrefused.resolve_left hlong
    rw [perform, create, (Names.of_existing he hname hlong).resolve (by simp [hdir])]
    simp only [bind, Except.bind, hdir]
    exact ⟨_, rfl⟩

theorem perform_unlink (hp : fs.Names p d name)
    (hnode : fs.node? (d ++ [name]) = some (.file mode data)) :
    fs.perform (.unlink p) = (.ok (), fs.erase (d ++ [name])) := by
  rw [perform, unlink, hp.resolve fun _ _ => rfl]
  simp only [bind, Except.bind, hnode, hp.file]
  rfl

theorem perform_unlink_refused (he : fs.existing e = .ok (d, .directory))
    (hname : Path.FileName name)
    (hrefused : TooLong e name ∨ fs.node? (d ++ [name]) = none ∨
      fs.node? (d ++ [name]) = some .directory) :
    (fs.perform (.unlink (e ++ Path.slash :: name))).2 = fs := by
  by_cases hlong : TooLong e name
  · rw [perform, unlink, resolve_tooLong he hname hlong]
    rfl
  · rw [perform, unlink, (Names.of_existing he hname hlong).resolve fun _ _ => rfl]
    rcases hrefused.resolve_left hlong with hnode | hnode
    · simp only [bind, Except.bind, hnode]
      rfl
    · simp only [bind, Except.bind, hnode]
      rfl

theorem perform_setMode (hp : fs.Names p d name)
    (hnode : fs.node? (d ++ [name]) = some (.file old data)) :
    fs.perform (.setMode p mode) =
      (.ok (), fs.put (d ++ [name]) (.file (permissions mode) data)) := by
  rw [perform, setMode, hp.existing hnode]
  rfl

theorem perform_append (l : Location) (hnode : fs.node? l = some (.file mode [])) :
    fs.perform (.append l data) = (.ok (), fs.put l (.file mode data)) := by
  rw [perform, append, hnode]
  rfl

section Moves

variable (hq : fs.Names q l temp) (hp : fs.Names p d name)
  (hnode : fs.node? (l ++ [temp]) = some (.file mode data))
include hq hp hnode

/-- A file takes the place of what another name stands for. -/
theorem perform_rename (hdir : fs.node? (d ++ [name]) ≠ some .directory) :
    fs.perform (.rename q p) =
      (.ok (), (fs.erase (l ++ [temp])).put (d ++ [name]) (.file mode data)) := by
  rw [perform, rename, hq.resolve fun _ _ => rfl, hp.resolve fun _ _ => rfl]
  simp only [bind, Except.bind, hnode, hq.file, hp.file, hdir]
  rfl

theorem perform_rename_refused (hdir : fs.node? (d ++ [name]) = some .directory) :
    fs.perform (.rename q p) = (.error .isADirectory, fs) := by
  rw [perform, rename, hq.resolve fun _ _ => rfl, hp.resolve fun _ _ => rfl]
  simp only [bind, Except.bind, hnode, hq.file, hp.file, hdir]
  rfl

end Moves

end Calls

/-- A name fits where that of its temporary file does. -/
theorem fits_of_temporary {e : Path} {name : Bytes} {pid : Nat}
    (h : ¬TooLong e (Proc.temporary pid name)) : ¬TooLong e name := by
  have hlen := length_temporary pid name
  simp only [TooLong, List.length_append, List.length_cons] at h ⊢
  omega

inductive Written (fs : FileSystem) (e : Path) (d : Location) (name : Bytes) (mode : Nat)
    (data : Bytes) : Except IoError Unit × FileSystem → Prop
  | done {fs₁ : FileSystem} : ¬TooLong e name → fs.node? (d ++ [name]) ≠ some .directory →
      fs.With fs₁ (d ++ [name]) (some (.file mode data)) →
      Written fs e d name mode data (.ok (), fs₁)
  | failed {fs₁ : FileSystem} {err : IoError} : fs.Same fs₁ →
      Written fs e d name mode data (.error err, fs₁)

/-- What makes a write succeed: a file or nothing has the name of the temporary file, and no
directory that of the target. -/
structure Writable (fs : FileSystem) (pid : Nat) (p : Path) (d : Location) (name : Bytes) :
    Prop where
  target : fs.Names p d name
  draft : fs.Names (Proc.temporary pid p) d (Proc.temporary pid name)
  free : Free (fs.node? (d ++ [Proc.temporary pid name]))
  no_directory : fs.node? (d ++ [name]) ≠ some .directory

/-- No directory has the one name and nothing the other, in a directory that is there. -/
theorem Writable.of_free {e : Path} {d : Location} {name : Bytes} {pid : Nat}
    (he : fs.existing e = .ok (d, .directory)) (hname : Path.FileName name)
    (hfits : ¬TooLong e (Proc.temporary pid name))
    (hfree : fs.node? (d ++ [Proc.temporary pid name]) = none)
    (hdir : fs.node? (d ++ [name]) ≠ some .directory) :
    fs.Writable pid (e ++ Path.slash :: name) d name where
  target := .of_existing he hname (fits_of_temporary hfits)
  draft := by
    rw [Proc.temporary, List.append_assoc]
    exact .of_existing he (fileName_temporary pid hname) hfits
  free := hfree ▸ free_none
  no_directory := hdir

/-- Directories and links stay when a file is replaced or a new one is written. -/
theorem Writable.keepsTree {p : Path} {d : Location} {name : Bytes} {pid mode : Nat} {data : Bytes}
    (h : fs.Writable pid p d name) (htarget : Free (fs.node? (d ++ [name])))
    (hgone : fs.With fs₁ (d ++ [Proc.temporary pid name]) none)
    (hdone : fs₁.With fs₂ (d ++ [name]) (some (.file mode data))) : fs.KeepsTree fs₂ := by
  rw [← hgone.other (place_ne d (ne_temporary pid name))] at htarget
  exact (hgone.keepsTree h.free free_none).trans (hdone.keepsTree htarget (free_file mode data))

end FileSystem

namespace Proc

open FileSystem

variable {fs : FileSystem} {e p q : Path} {d : Location} {name temp : Bytes} {mode : Nat}
  {data : Bytes}

/-- The temporary file is complete when it is given the name of the target. -/
theorem run_replaceBy (p : Path) (mode : Nat) (data : Bytes) (hq : fs.Names q d temp)
    (hfree : Free (fs.node? (d ++ [temp]))) :
    ∃ fs₁, fs.With fs₁ (d ++ [temp]) (some (.file (permissions mode) data)) ∧
      (replaceBy q p mode data).run fs = fs₁.perform (.rename q p) := by
  obtain ⟨m, hcreate⟩ := perform_create mode hq hfree
  have hl := List.concat_ne_nil temp d
  have hcreated := (With.refl fs (d ++ [temp])).put hl (.file m [])
  have hwritten := hcreated.put hl (.file m data)
  have hdone := hwritten.put hl (.file (permissions mode) data)
  refine ⟨_, hdone, ?_⟩
  rw [replaceBy, run_bind, run_call, hcreate]
  simp only []
  rw [run_bind, run_call, perform_append _ hcreated.self]
  simp only []
  rw [run_bind, run_call, perform]
  simp only []
  rw [run_bind, run_call,
    perform_setMode (hq.keep (hwritten.keepsTree hfree (free_file m data))) hwritten.self]
  rfl

theorem run_syncDirectory (p : Path) (fs : FileSystem) : ((syncDirectory p).run fs).2 = fs :=
  rfl

/-- The temporary file of a write that failed is removed. -/
theorem run_writeAtomically_error {pid : Nat} {err : IoError} {fs₁ : FileSystem}
    (h : (replaceBy (temporary pid p) p mode data).run fs = (.error err, fs₁)) :
    (writeAtomically pid p mode data).run fs =
      (.error err, (fs₁.perform (.unlink (temporary pid p))).2) := by
  rw [writeAtomically, run_bind, h]
  simp only []
  rw [run_bind, run_discard, run_call, run_pure]

theorem run_writeAtomically_ok {pid : Nat} {fs₁ : FileSystem}
    (h : (replaceBy (temporary pid p) p mode data).run fs = (.ok (), fs₁)) :
    (writeAtomically pid p mode data).run fs = (.ok (), fs₁) := by
  rw [writeAtomically, run_bind, h]
  simp only []
  cases p.parent? with
  | none => rfl
  | some directory =>
    rw [run_bind, run_discard, run_syncDirectory]
    rfl

/-- Where a file can be written it is, and nothing has the name of the temporary file any more. -/
theorem run_writeAtomically {pid : Nat} (mode : Nat) (data : Bytes)
    (h : fs.Writable pid p d name) : ∃ fs₁ fs₂,
      fs.With fs₁ (d ++ [temporary pid name]) none ∧
      fs₁.With fs₂ (d ++ [name]) (some (.file (permissions mode) data)) ∧
      (writeAtomically pid p mode data).run fs = (.ok (), fs₂) := by
  obtain ⟨fs₁, hwith, hrun⟩ := run_replaceBy p mode data h.draft h.free
  have hkeep := hwith.keepsTree h.free (free_file _ data)
  have hdir : fs₁.node? (d ++ [name]) ≠ some .directory := by
    rw [hwith.other (place_ne d (ne_temporary pid name))]
    exact h.no_directory
  rw [perform_rename (h.draft.keep hkeep) (h.target.keep hkeep) hwith.self hdir] at hrun
  exact ⟨_, _, hwith.erase (List.concat_ne_nil _ d),
    (With.refl _ (d ++ [name])).put (List.concat_ne_nil name d) (.file _ data),
    run_writeAtomically_ok hrun⟩

/-- A file is replaced as a whole or not at all. -/
theorem written_writeAtomically (pid mode : Nat) (data : Bytes)
    (he : fs.existing e = .ok (d, .directory)) (hname : Path.FileName name)
    (hfree : ∀ n, fs.node? (d ++ [temporary pid name]) = some n → n = .directory) :
    fs.Written e d name (permissions mode) data
      ((writeAtomically pid (e ++ Path.slash :: name) mode data).run fs) := by
  have hpath : temporary pid (e ++ Path.slash :: name) =
      e ++ Path.slash :: temporary pid name := List.append_assoc e _ _
  have htemp := fileName_temporary pid hname
  by_cases hrefused : TooLong e (temporary pid name) ∨
      fs.node? (d ++ [temporary pid name]) = some .directory
  · obtain ⟨err, hcreate⟩ := perform_create_refused mode he htemp hrefused
    have hreplace : (replaceBy (temporary pid (e ++ Path.slash :: name)) (e ++ Path.slash :: name)
        mode data).run fs = (.error err, fs) := by
      rw [hpath, replaceBy, run_bind, run_call, hcreate]
      rfl
    rw [run_writeAtomically_error hreplace, hpath,
      perform_unlink_refused he htemp (hrefused.imp_right .inr)]
    exact .failed (.refl fs)
  · obtain ⟨hfit, hdir⟩ := not_or.mp hrefused
    have hnone : fs.node? (d ++ [temporary pid name]) = none := by
      cases hn : fs.node? (d ++ [temporary pid name]) with
      | none => rfl
      | some n => exact absurd (hn.trans (congrArg some (hfree n hn))) hdir
    have hfitName := fits_of_temporary hfit
    have hp := Names.of_existing he hname hfitName
    have hq := Names.of_existing he htemp hfit
    have hfree : Free (fs.node? (d ++ [temporary pid name])) := by
      rw [hnone]
      exact free_none
    rw [← hpath] at hq
    by_cases hold : fs.node? (d ++ [name]) = some .directory
    · obtain ⟨fs₁, hwith, hrun⟩ := run_replaceBy (e ++ Path.slash :: name) mode data hq hfree
      have hkeep := hwith.keepsTree hfree (free_file _ data)
      rw [perform_rename_refused (hq.keep hkeep) (hp.keep hkeep) hwith.self
        (hkeep.directory _ hold)] at hrun
      rw [run_writeAtomically_error hrun, perform_unlink (hq.keep hkeep) hwith.self]
      exact .failed ((hwith.erase (List.concat_ne_nil _ d)).same hnone)
    · obtain ⟨fs₁, fs₂, hgone, hdone, hrun⟩ := run_writeAtomically mode data ⟨hp, hq, hfree, hold⟩
      rw [hrun]
      have hsame := hgone.same hnone
      exact .done hfitName hold ⟨hdone.current.trans hsame.current, fun m => by
        rw [hdone.node, hsame.node]⟩

end Proc

namespace FileSystem

variable {fs fs₁ fs₂ : FileSystem} {links left : Nat} {place goal : Location}
  {names : List Bytes} {ls : List Location}

structure SameBut (fs fs₁ : FileSystem) (ls : List Location) : Prop where
  current : fs₁.current = fs.current
  node : ∀ l, l ∉ ls → fs₁.node? l = fs.node? l

theorem SameBut.symm {ls : List Location} (h : fs.SameBut fs₁ ls) : fs₁.SameBut fs ls :=
  ⟨h.current.symm, fun l hl => (h.node l hl).symm⟩

theorem With.sameBut {l : Location} {o : Option Node} (h : fs.With fs₁ l o) :
    fs.SameBut fs₁ [l] :=
  ⟨h.current, fun _ hm => h.other fun heq => hm (List.mem_singleton.mpr heq)⟩

theorem Same.sameBut (h : fs.Same fs₁) (ls : List Location) : fs.SameBut fs₁ ls :=
  ⟨h.current, fun l _ => h.node l⟩

/-- A way remains when nothing that it passes is different. -/
theorem Leads.of_sameBut (h : fs.Leads links place names left goal) (hlinks : links ≤ maxLinks)
    (hsame : fs.SameBut fs₁ ls) (hdir : ∀ l ∈ ls, fs.node? l ≠ some .directory)
    (hpass : ∀ here name links rest, here ++ [name] ∈ ls → links ≤ maxLinks →
      ¬fs.Leads links here (name :: rest) left goal) :
    fs₁.Leads links place names left goal := by
  have hkeep : ∀ l, fs.node? l = some .directory → fs₁.node? l = some .directory := by
    intro l hl
    rw [hsame.node l fun hmem => hdir l hmem hl, hl]
  induction h with
  | here => exact .here
  | dot hplace _ ih => exact .dot (hkeep _ hplace) (ih hlinks hpass)
  | dotDot hplace _ ih => exact .dotDot (hkeep _ hplace) (ih hlinks hpass)
  | link hplace hname hnode hne h ih =>
    have hout := fun hmem => hpass _ _ _ _ hmem hlinks (.link hplace hname hnode hne h)
    exact .link (hkeep _ hplace) hname (by rw [hsame.node _ hout, hnode]) hne
      (ih (Nat.le_of_succ_le hlinks) hpass)
  | object hplace hname hnode hobj h ih =>
    have hout := fun hmem => hpass _ _ _ _ hmem hlinks (.object hplace hname hnode hobj h)
    exact .object (hkeep _ hplace) hname (by rw [hsame.node _ hout, hnode]) hobj
      (ih hlinks hpass)

def LinkedDirectory (fs : FileSystem) (here : Location) (name : Bytes) : Prop :=
  ∃ target f, fs.node? (here ++ [name]) = some (.link target) ∧
    fs.walk true maxLinks here [name] = .ok f ∧ f.node = some .directory

/-- A way to a directory goes through directories and through links to directories. -/
theorem Leads.directory_or_linked {here : Location} {name : Bytes} {rest : List Bytes}
    (h : fs.Leads links here (name :: rest) left goal) (hlinks : links ≤ maxLinks)
    (hname : Path.FileName name) (hgoal : fs.node? goal = some .directory) :
    fs.node? (here ++ [name]) = some .directory ∨ fs.LinkedDirectory here name := by
  have hwhole : fs.Leads links here ([name] ++ rest) left goal := h
  obtain ⟨after, middle, hfirst, hrest⟩ := hwhole.split
  have hmiddle := hrest.directory_of_goal hgoal
  have hmore := hfirst.add_links (maxLinks - links)
  rw [Nat.add_sub_cancel' hlinks] at hmore
  obtain ⟨named, hwalk⟩ := hmore.walk_eq
  cases hfirst with
  | dot => exact absurd rfl hname.not_dot
  | dotDot => exact absurd rfl hname.not_dotDot
  | link _ _ hnode => exact .inr ⟨_, _, hnode, hwalk, hmiddle⟩
  | object _ _ _ _ hend =>
    cases hend
    exact .inl hmiddle

/-- A way to a directory remains when files and links to files change in one directory. -/
theorem SameBut.leads {d : Location} (hsame : fs.SameBut fs₁ ls)
    (hls : ∀ m ∈ ls, fs.node? m ≠ some .directory ∧
      ∃ name, Path.FileName name ∧ m = d ++ [name] ∧ ¬fs.LinkedDirectory d name)
    (h : fs.Leads maxLinks place names left goal) (hgoal : fs.node? goal = some .directory) :
    fs₁.Leads maxLinks place names left goal := by
  refine h.of_sameBut (Nat.le_refl _) hsame (fun m hm => (hls m hm).1)
    fun here name links rest hmem hlinks hpass => ?_
  obtain ⟨hnot, name', hname, heq, hlinked⟩ := hls _ hmem
  obtain ⟨rfl, hsingle⟩ := List.append_inj' heq rfl
  obtain rfl := List.singleton_inj.mp hsingle
  rcases hpass.directory_or_linked hlinks hname hgoal with hin | hin
  · exact hnot hin
  · exact hlinked hin

/-- Directories go on to exist when files and links to files change elsewhere. -/
theorem SameBut.existing {p : Path} {l d : Location} (hsame : fs.SameBut fs₁ ls)
    (hls : ∀ m ∈ ls, fs.node? m ≠ some .directory ∧
      ∃ name, Path.FileName name ∧ m = d ++ [name] ∧ ¬fs.LinkedDirectory d name)
    (h : fs.existing p = .ok (l, .directory)) : fs₁.existing p = .ok (l, .directory) := by
  obtain ⟨hvalid, ⟨left, hway⟩, hnode, -⟩ := existing_eq_ok_iff.mp h
  refine existing_eq_ok_iff.mpr ⟨hvalid, ⟨left, ?_⟩, ?_, fun _ => rfl⟩
  · rw [start_congr rfl hsame.current]
    exact hsame.leads hls hway hnode
  · rw [hsame.node l fun hmem => (hls l hmem).1 hnode, hnode]

end FileSystem

end SelfExtract
