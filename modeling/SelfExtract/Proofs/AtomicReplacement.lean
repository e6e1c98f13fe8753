import Mathlib
import SelfExtract.Proofs.FailingWrites

/-!
# Replacing a file, whatever its path

Until the temporary file is moved, the path of the file leads where it led
before: through links and dots, to a file, a link, a directory or nothing. What
the move replaces is the entry that the path names, and not what a link there
leads to.
-/
namespace SelfExtract

namespace FileSystem

variable {fs fs' : FileSystem} {p : Path} {place goal d : Location} {names : List Bytes}
  {name temp part : Bytes} {links left pid m : Nat} {n : Node}

/-- A walk along a way to an object is the same when objects are added. -/
theorem Leads.walk_of_extends (h : fs.Leads links place names left goal) (hext : fs.Extends fs')
    (hgoal : fs.node? goal = some n) (follow : Bool) :
    fs'.walk follow links place names = fs.walk follow links place names := by
  induction h with
  | here => rw [walk, walk, hgoal, hext.keeps _ _ hgoal]
  | dot hdir _ ih => rw [walk_dot hdir, walk_dot (hext.keeps _ _ hdir), ih hgoal]
  | dotDot hdir _ ih => rw [walk_dotDot hdir, walk_dotDot (hext.keeps _ _ hdir), ih hgoal]
  | @link _ _ _ _ _ rest _ hdir hname hnode hne _ ih =>
    have hdir' := hext.keeps _ _ hdir
    have hnode' := hext.keeps _ _ hnode
    by_cases hstops : rest = [] ∧ follow = false
    · obtain ⟨rfl, rfl⟩ := hstops
      rw [walk_last hdir hname fun _ _ => rfl, walk_last hdir' hname fun _ _ => rfl, hnode, hnode']
    · have hfollow : rest = [] → follow = true := by simpa using hstops
      rw [walk_link hdir hname hnode hne hfollow, walk_link hdir' hname hnode' hne hfollow,
        ih hgoal]
  | object hdir hname hnode hobj _ ih =>
    rw [walk_object hdir hname hnode hobj,
      walk_object (hext.keeps _ _ hdir) hname (hext.keeps _ _ hnode) hobj, ih hgoal]

/-- A last name depends on the directory, on the one above it and on what is there. -/
theorem walk_name_congr (hhere : fs'.node? d = fs.node? d)
    (habove : fs'.node? d.dropLast = fs.node? d.dropLast)
    (hthere : fs'.node? (d ++ [name]) = fs.node? (d ++ [name])) :
    fs'.walk false links d [name] = fs.walk false links d [name] := by
  by_cases hdir : fs.node? d = some .directory
  · have hdir' := hhere.trans hdir
    by_cases hdot : name = Path.dot
    · rw [hdot, walk_dot hdir, walk_dot hdir', walk, walk, hhere]
    · by_cases hdots : name = Path.dotDot
      · rw [hdots, walk_dotDot hdir, walk_dotDot hdir', walk, walk, habove]
      · by_cases hlong : maxName < name.length
        · rw [walk_long hdir hdot hdots hlong, walk_long hdir' hdot hdots hlong]
        · have hplain : PlainName name := ⟨hdot, hdots, Nat.le_of_not_lt hlong⟩
          rw [walk_last hdir hplain fun _ _ => rfl, walk_last hdir' hplain fun _ _ => rfl, hthere]
  · rw [walk, if_pos (by simpa [hhere] using hdir), walk, if_pos (by simpa using hdir)]

/-- The name of the temporary file takes the place of the last name, which may be empty. -/
theorem names_temporary {front name : Path}
    (hfront : (front.isEmpty || front.asksForDirectory) = true) (hslash : Path.slash ∉ name) :
    (Proc.temporary pid (front ++ name)).names = front.names ++ [Proc.temporary pid name] := by
  have hne : Proc.temporary pid name ≠ [] := by
    have hlen := length_temporary pid name
    exact List.ne_nil_of_length_pos (by omega)
  have hlast : Path.slash ∉ Proc.temporary pid name := by
    rw [Proc.temporary, List.mem_append, not_or]
    exact ⟨hslash, not_mem_temporary pid (.inl rfl)⟩
  have hjoined : Proc.temporary pid (front ++ name) = front ++ Proc.temporary pid name :=
    List.append_assoc ..
  rw [hjoined, Path.names_append hfront, Path.names_of_no_slash hne hlast]

theorem start_temporary (hp : p ≠ []) : fs.start (Proc.temporary pid p) = fs.start p := by
  rw [start, start, Proc.temporary, Path.isAbsolute, Path.isAbsolute,
    List.head?_append_of_ne_nil _ hp]

/-- A path leads to the same when it is walked in the same way. -/
theorem resolve_congr {follow : Bool} (hcurrent : fs'.current = fs.current)
    (hwalk : Valid p → fs'.walk follow maxLinks (fs.start p) p.names =
      fs.walk follow maxLinks (fs.start p) p.names) :
    fs'.resolve follow p = fs.resolve follow p := by
  by_cases hvalid : Valid p
  · rw [hvalid.resolve, hvalid.resolve, start_congr rfl hcurrent, hwalk hvalid]
  · rw [resolve, resolve]
    split
    · rfl
    · split
      · rfl
      · split
        · rfl
        · next hnul hempty hshort =>
          exact absurd ⟨by simpa using hnul, by simpa using hempty, Nat.le_of_not_lt hshort⟩ hvalid

/-- A draft is beside the place that the path leads to, and not on the way to it. -/
theorem Vacant.resolve_put (h : fs.Vacant pid p d temp) (m : Nat) (part : Bytes) :
    (fs.put (d ++ [temp]) (.file m part)).resolve false p = fs.resolve false p := by
  have hwith := (With.refl fs (d ++ [temp])).put (List.concat_ne_nil temp d) (.file m part)
  have hext := hwith.grows h.none
  refine resolve_congr rfl fun hvalid => ?_
  obtain ⟨dirs, left, hnames, hway⟩ := h.names.way
  rw [start_temporary hvalid.not_empty] at hway
  obtain ⟨front, name, hfront, rfl, hslash⟩ := Path.exists_last p
  rw [names_temporary hfront hslash] at hnames
  obtain ⟨rfl, hlast⟩ := List.append_inj' hnames rfl
  obtain rfl := List.singleton_inj.mp hlast
  rw [Path.names_append hfront]
  by_cases hname : name = []
  · -- the path ends in a slash, and the draft is in the directory that it leads to
    have hnone : Path.names name = [] := by
      rw [hname]
      rfl
    rw [hnone, List.append_nil]
    exact hway.walk_of_extends hext h.names.directory false
  · rw [Path.names_of_no_slash hname hslash, hway.walk_append (List.cons_ne_nil name []),
      (hway.mono hext).walk_append (List.cons_ne_nil name [])]
    refine walk_name_congr (hwith.other ?_) (hwith.other ?_) (hwith.other ?_)
    · exact fun heq => by simpa using congrArg List.length heq
    · intro heq
      have hlen := congrArg List.length heq
      simp only [List.length_dropLast, List.length_append, List.length_singleton] at hlen
      omega
    · exact place_ne d (ne_temporary pid name)

theorem Absent.of_resolve {l : Location} {named : Bool}
    (h : fs.resolve false p = .ok ⟨l, none, named⟩) : fs.Absent p := by
  intro f hf
  rw [h] at hf
  cases hf
  rfl

theorem Drafted.resolve (h : fs.Drafted pid p fs') : fs'.resolve false p = fs.resolve false p := by
  cases h with
  | absent => rfl
  | present m part hv => exact hv.resolve_put m part

end FileSystem

namespace Proc

open FileSystem

variable {fs : FileSystem} {p : Path} {pid : Nat}

/-- A file is replaced as a whole or not at all, whichever steps fail, as long as the temporary file
is new and can be removed. A write that fails leaves the file system as it was. One that succeeds
has put the file, with all of its content and the permissions of the mode, where the path named an
entry, and has changed nothing else; the path then leads to it, unless it passes the link that the
file has replaced. At every moment before, the path leads where it led, and a draft beside it is all
that is new. Where the path names a place for a file the write can succeed. -/
theorem replaces_whole_or_nothing (sure : Call → Prop) (mode : Nat) (data : Bytes)
    (hfree : fs.Absent (temporary pid p)) (hsure : sure (.unlink (temporary pid p))) :
    (∀ e fs', (writeAtomically pid p mode data).SureEnds sure fs (.error e) fs' → fs' = fs) ∧
    (∀ fs', (writeAtomically pid p mode data).SureEnds sure fs (.ok ()) fs' → ∃ l,
      fs.Replaced fs' p l (permissions mode) data ∧
      (∀ m, fs'.node? m = if m = l then some (.file (permissions mode) data) else fs.node? m) ∧
      ((∀ target, fs.node? l = some (.link target) →
          (fs.erase l).resolve false p = .ok ⟨l, none, true⟩) →
        ∀ follow, fs'.resolve follow p = .ok ⟨l, some (.file (permissions mode) data), true⟩)) ∧
    (∀ y fs', SureSteps sure (writeAtomically pid p mode data) fs y fs' →
      fs.Drafted pid p fs' ∧ fs'.resolve false p = fs.resolve false p ∨
        ∃ l, fs.Replaced fs' p l (permissions mode) data) ∧
    ∀ d name, fs.Writable pid p d name →
      ∃ fs', (writeAtomically pid p mode data).SureEnds sure fs (.ok ()) fs' := by
  have hholds := upholds_writeAtomically mode data hfree hsure
  refine ⟨fun e fs' hends => ?_, fun fs' hends => ?_, fun y fs' hsteps => ?_, fun d name hw => ?_⟩
  · cases hholds.ends hends with
    | error hsame => exact hsame
  · cases hholds.ends hends with
    | ok hdone =>
      obtain ⟨l, hreplaced⟩ := hdone
      exact ⟨l, hreplaced, hreplaced.node, hreplaced.found⟩
  · cases (hholds.steps hsteps).now with
    | draft hdraft => exact .inl ⟨hdraft, hdraft.resolve⟩
    | complete hreplaced => exact .inr ⟨_, hreplaced⟩
  · obtain ⟨fs₁, fs₂, -, -, hrun⟩ := run_writeAtomically mode data hw
    exact ⟨fs₂, sureEnds_of_run hrun⟩

def linkedDirectory : FileSystem where
  nodes := [([Path.ofString "d"], .directory),
    ([Path.ofString "l"], .link (Path.ofString "d"))]
  current := []

/-- A write to the link itself succeeds and leaves the directory alone, and one that cannot even open
its temporary file changes nothing. -/
theorem replaces_whole_or_nothing_link :
    linkedDirectory.Absent (temporary 7 (Path.ofString "l")) ∧
    (∃ fs', (writeAtomically 7 (Path.ofString "l") 0o644 [1]).SureEnds
        (· = .unlink (temporary 7 (Path.ofString "l"))) linkedDirectory (.ok ()) fs' ∧
      fs'.resolve true (Path.ofString "l") =
        .ok ⟨[Path.ofString "l"], some (.file 0o644 [1]), true⟩ ∧
      fs'.node? [Path.ofString "d"] = some .directory) ∧
    (writeAtomically 7 (Path.ofString "l") 0o644 [1]).SureEnds
      (· = .unlink (temporary 7 (Path.ofString "l"))) linkedDirectory (.error .alreadyExists)
      linkedDirectory := by
  have habsent : linkedDirectory.Absent (temporary 7 (Path.ofString "l")) :=
    .of_resolve (l := [Path.ofString "l.tmp.7"]) (by cbv)
  obtain ⟨hfails, hdone, -⟩ := replaces_whole_or_nothing
    (· = .unlink (temporary 7 (Path.ofString "l"))) 0o644 [1] habsent rfl
  refine ⟨habsent, ?_, ?_⟩
  · have hrun : (writeAtomically 7 (Path.ofString "l") 0o644 [1]).run linkedDirectory =
        (.ok (), linkedDirectory.put [Path.ofString "l"] (.file 0o644 [1])) := by cbv
    obtain ⟨l, hreplaced, hnode, hfound⟩ := hdone _ (sureEnds_of_run hrun)
    obtain rfl : l = [Path.ofString "l"] := by
      have hnamed : linkedDirectory.resolve false (Path.ofString "l") =
          .ok ⟨[Path.ofString "l"], some (.link (Path.ofString "d")), true⟩ := by cbv
      have hsame := hreplaced.named.symm.trans hnamed
      exact congrArg Found.location (Except.ok.inj hsame)
    refine ⟨_, sureEnds_of_run hrun, hfound (fun _ _ => by cbv) true, ?_⟩
    rw [hnode, if_neg (by decide)]
    rfl
  · have hends : (writeAtomically 7 (Path.ofString "l") 0o644 [1]).SureEnds
        (· = .unlink (temporary 7 (Path.ofString "l"))) linkedDirectory (.error .alreadyExists)
        (linkedDirectory.perform (.unlink (temporary 7 (Path.ofString "l")))).2 :=
      .head (.failed _ _ _ .alreadyExists (by simp)) (.head (.carried _ _ _) (.refl _ _))
    rwa [hfails _ _ hends] at hends

/-- A write may succeed and its path lead nowhere, when it passes the link that is replaced. Nor is
all of a mode that of the file. -/
theorem path_through_replaced_link :
    linkedDirectory.Absent (temporary 7 (Path.ofString "l/../l")) ∧
    (∃ fs', (writeAtomically 7 (Path.ofString "l/../l") 0o644 [1]).SureEnds (fun _ => True)
        linkedDirectory (.ok ()) fs' ∧
      fs'.resolve false (Path.ofString "l/../l") = .error .notADirectory) ∧
    linkedDirectory.Absent (temporary 7 (Path.ofString "f")) ∧
    ∃ fs', (writeAtomically 7 (Path.ofString "f") 0o10644 [1]).SureEnds (fun _ => True)
        linkedDirectory (.ok ()) fs' ∧
      fs'.resolve false (Path.ofString "f") =
        .ok ⟨[Path.ofString "f"], some (.file 0o644 [1]), true⟩ := by
  have hlink : (writeAtomically 7 (Path.ofString "l/../l") 0o644 [1]).run linkedDirectory =
      (.ok (), linkedDirectory.put [Path.ofString "l"] (.file 0o644 [1])) := by cbv
  have hmode : (writeAtomically 7 (Path.ofString "f") 0o10644 [1]).run linkedDirectory =
      (.ok (), linkedDirectory.put [Path.ofString "f"] (.file 0o644 [1])) := by cbv
  exact ⟨.of_resolve (l := [Path.ofString "l.tmp.7"]) (by cbv), ⟨_, sureEnds_of_run hlink, by cbv⟩,
    .of_resolve (l := [Path.ofString "f.tmp.7"]) (by cbv), _, sureEnds_of_run hmode, by cbv⟩

end Proc

end SelfExtract
