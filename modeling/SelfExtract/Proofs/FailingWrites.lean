import SelfExtract.Proofs.Rewrites
import SelfExtract.Proofs.SureCalls

/-!
# A write that fails at any of its steps

The file system is given back as it was when a write fails, whichever step it
is that fails and however much of the content has been written by then, as long
as the temporary file did not exist and can be removed. A write that succeeds
puts the file where the path names it, in place of a file or of a link. The
path may be any: one without a name to take makes the write fail.
-/
namespace SelfExtract

namespace FileSystem

variable {fs fs' : FileSystem} {p q : Path} {l d : Location} {temp name : Bytes} {pid mode : Nat}
  {data : Bytes}

section Contents

theorem erase_of_none (hl : l ≠ []) (hnone : fs.node? l = none) : fs.erase l = fs := by
  rw [node?, if_neg hl, List.lookup_eq_none_iff] at hnone
  have hall : fs.nodes.filter (·.1 != l) = fs.nodes :=
    List.filter_eq_self.mpr fun a ha => by simpa [bne, BEq.comm] using hnone a ha
  rw [erase, hall]

theorem erase_put (fs : FileSystem) (l : Location) (n : Node) :
    (fs.put l n).erase l = fs.erase l := by
  simp [put, erase]

theorem put_put (fs : FileSystem) (l : Location) (n n' : Node) :
    (fs.put l n).put l n' = fs.put l n' := by
  rw [put, erase_put]
  rfl

theorem node?_put_self (fs : FileSystem) (hl : l ≠ []) (n : Node) :
    (fs.put l n).node? l = some n := by
  rw [node?_put fs hl, if_pos rfl]

end Contents

/-- A path leads to nothing: there is no object where it leads, or it leads nowhere. -/
def Absent (fs : FileSystem) (p : Path) : Prop :=
  ∀ f, fs.resolve false p = .ok f → f.node = none

theorem Absent.linkFree (h : fs.Absent p) : fs.LinkFree p := by
  intro f hf target
  rw [h f hf]
  exact nofun

theorem Absent.node (h : fs.Absent p) (hp : fs.Names p d name) : fs.node? (d ++ [name]) = none :=
  h _ (hp.resolve fun _ _ => rfl)

/-- The path of a temporary file ends in its name, whatever the path of the file ends in. -/
theorem lastName_temporary {f : Found} {follow : Bool}
    (h : fs.resolve follow (Proc.temporary pid p) = .ok f) :
    ∃ temp, (Proc.temporary pid p).LastName temp := by
  obtain ⟨front, name, hfront, rfl, hslash⟩ := Path.exists_last p
  have hnul : 0 ∉ Proc.temporary pid (front ++ name) := (valid_of_resolve h).no_nul
  have hlen := length_temporary pid name
  rw [Proc.temporary] at hlen
  refine ⟨Proc.temporary pid name, ⟨?_, ?_, ?_, ?_, ?_⟩, front, hfront, List.append_assoc ..⟩
  · exact List.ne_nil_of_length_pos (by rw [Proc.temporary]; omega)
  · rw [Proc.temporary, List.mem_append, not_or]
    exact ⟨hslash, not_mem_temporary pid (.inl rfl)⟩
  · rw [Proc.temporary, List.append_assoc, List.mem_append, not_or] at hnul
    exact hnul.2
  · intro hdot
    rw [Proc.temporary] at hdot
    rw [hdot] at hlen
    simp [Path.dot] at hlen
  · intro hdots
    rw [Proc.temporary] at hdots
    rw [hdots] at hlen
    simp [Path.dotDot] at hlen

structure Vacant (fs : FileSystem) (pid : Nat) (p : Path) (d : Location) (temp : Bytes) : Prop where
  names : fs.Names (Proc.temporary pid p) d temp
  last : (Proc.temporary pid p).LastName temp
  none : fs.node? (d ++ [temp]) = none

theorem Absent.create (h : fs.Absent (Proc.temporary pid p))
    (hcreate : fs.create (Proc.temporary pid p) mode = .ok (l, fs')) :
    ∃ d temp m, fs.Vacant pid p d temp ∧ l = d ++ [temp] ∧ fs' = fs.put l (.file m []) := by
  obtain ⟨f, hf, -⟩ := bind_eq_ok.mp hcreate
  obtain ⟨temp, hlast⟩ := lastName_temporary hf
  obtain ⟨d, hnames, hfree⟩ := names_of_create h.linkFree hlast hcreate
  obtain ⟨m, hperform⟩ := perform_create mode hnames hfree
  rw [perform, hcreate] at hperform
  cases hperform
  exact ⟨d, temp, m, ⟨hnames, hlast, h.node hnames⟩, rfl, rfl⟩

namespace Vacant

variable (h : fs.Vacant pid p d temp)
include h

/-- A file is put there, and all names stand for what they stood for. -/
theorem keepsTree (m : Nat) (part : Bytes) :
    fs.KeepsTree (fs.put (d ++ [temp]) (.file m part)) :=
  ((With.refl fs _).put (List.concat_ne_nil temp d) _).keepsTree (h.none ▸ free_none)
    (free_file m part)

theorem keepsTree_back (m : Nat) (part : Bytes) :
    (fs.put (d ++ [temp]) (.file m part)).KeepsTree fs := by
  have hput := (With.refl fs (d ++ [temp])).put (List.concat_ne_nil temp d) (.file m part)
  exact hput.back.keepsTree (hput.self ▸ free_file m part) (h.none ▸ free_none)

/-- With the temporary file removed everything is as before. -/
theorem perform_unlink_put (m : Nat) (part : Bytes) :
    (fs.put (d ++ [temp]) (.file m part)).perform (.unlink (Proc.temporary pid p)) =
      (.ok (), fs) := by
  have hne := List.concat_ne_nil temp d
  rw [perform_unlink (h.names.keep (h.keepsTree m part)) (node?_put_self fs hne _), erase_put,
    erase_of_none hne h.none]

end Vacant

theorem Absent.perform_unlink (h : fs.Absent p) : (fs.perform (.unlink p)).2 = fs := by
  rw [perform, unlink]
  cases hf : fs.resolve false p with
  | error e => rfl
  | ok f =>
    simp only [bind, Except.bind, h f hf]
    rfl

/-- A file has been put where a path names it, and nothing else is different. What it has replaced
was no directory. -/
structure Replaced (fs fs' : FileSystem) (p : Path) (l : Location) (mode : Nat) (data : Bytes) :
    Prop where
  file : p.asksForDirectory = false
  named : fs.resolve false p = .ok ⟨l, fs.node? l, true⟩
  no_directory : fs.node? l ≠ some .directory
  result : fs' = fs.put l (.file mode data)

/-- What a move needs and does. -/
theorem of_rename (h : fs.rename q p = .ok fs') : ∃ s t n,
    fs.resolve false q = .ok s ∧ s.node = some n ∧ fs.resolve false p = .ok t ∧ t.named = true ∧
      p.asksForDirectory = false ∧ t.node ≠ some .directory ∧
      fs' = (fs.erase s.location).put t.location n := by
  obtain ⟨s, hs, h⟩ := bind_eq_ok.mp h
  obtain ⟨t, ht, h⟩ := bind_eq_ok.mp h
  cases hn : s.node with
  | none =>
    simp only [hn] at h
    cases h
  | some n =>
    refine ⟨s, t, n, hs, hn, ht, ?_⟩
    cases n with
    | directory =>
      simp only [hn] at h
      cases h
    | _ =>
      simp only [hn, throw, throwThe, MonadExceptOf.throw, bind, Except.bind] at h
      split at h
      · cases h
      · next hnamed =>
        split at h
        · cases h
        · next hasks =>
          split at h
          · cases h
          · next hdir =>
            cases h
            simp only [Bool.or_eq_true, not_or, Bool.not_eq_true] at hasks
            exact ⟨by simpa using hnamed, hasks.2, hdir, rfl⟩

/-- A draft that is moved takes the place that its path has named from the beginning. -/
theorem Vacant.rename (h : fs.Vacant pid p d temp)
    (hrename : (fs.put (d ++ [temp]) (.file mode data)).rename (Proc.temporary pid p) p = .ok fs') :
    ∃ l, fs.Replaced fs' p l mode data := by
  obtain ⟨s, t, n, hs, hn, ht, hnamed, hfile, hdir, rfl⟩ := of_rename hrename
  obtain ⟨name, hlast⟩ := Names.lastName_of_named ht hnamed hfile
  obtain ⟨d', hstands, rfl⟩ := Names.of_lastName ht hlast fun _ _ _ _ => rfl
  obtain rfl := h.last.unique (hlast.temporary pid)
  have hmoved := h.names.keep (h.keepsTree mode data)
  obtain rfl := hstands.directory_unique hlast hmoved
  have hne := List.concat_ne_nil (Proc.temporary pid name) d'
  rw [hmoved.resolve fun _ _ => rfl, node?_put_self fs hne] at hs
  obtain rfl := Except.ok.inj hs
  obtain rfl := Option.some.inj hn
  refine ⟨d' ++ [name], hfile, ?_, ?_, ?_⟩
  · exact (hstands.keep (h.keepsTree_back mode data)).resolve fun _ _ => rfl
  · rwa [node?_put fs hne, if_neg (place_ne d' (ne_temporary pid name))] at hdir
  · rw [erase_put, erase_of_none hne h.none]

/-- The path leads to the new file, unless it passes the link that the file has replaced: without
that link it has to lead to the same place. -/
theorem Replaced.found (h : fs.Replaced fs' p l mode data)
    (hlink : ∀ target, fs.node? l = some (.link target) →
      (fs.erase l).resolve false p = .ok ⟨l, none, true⟩) (follow : Bool) :
    fs'.resolve follow p = .ok ⟨l, some (.file mode data), true⟩ := by
  obtain ⟨name, hlast⟩ := Names.lastName_of_named h.named rfl h.file
  obtain ⟨d, hnames, hl⟩ := Names.of_lastName h.named hlast fun _ _ _ _ => rfl
  obtain rfl : l = d ++ [name] := congrArg Found.location hl
  have hne := List.concat_ne_nil name d
  have hnames' : fs'.Names p d name := by
    rw [h.result]
    by_cases hold : ∃ target, fs.node? (d ++ [name]) = some (.link target)
    · obtain ⟨target, htarget⟩ := hold
      obtain ⟨d', hgone, heq⟩ := Names.of_lastName (hlink target htarget) hlast fun _ _ _ _ => rfl
      obtain ⟨rfl, -⟩ := List.append_inj' (congrArg Found.location heq) rfl
      have hnone : (fs.erase (d ++ [name])).node? (d ++ [name]) = none := by
        rw [node?_erase fs hne, if_pos rfl]
      have hput := (With.refl (fs.erase (d ++ [name])) (d ++ [name])).put hne (.file mode data)
      rw [put, erase_of_none hne hnone] at hput
      exact hgone.keep (hput.keepsTree (hnone ▸ free_none) (free_file mode data))
    · have hfree : Free (fs.node? (d ++ [name])) := ⟨h.no_directory, not_exists.mp hold⟩
      have hput := (With.refl fs (d ++ [name])).put hne (.file mode data)
      exact hnames.keep (hput.keepsTree hfree (free_file mode data))
  have hnode : fs'.node? (d ++ [name]) = some (.file mode data) := by
    rw [h.result, node?_put_self fs hne]
  rw [hnames'.resolve (by simp [hnode]), hnode]

theorem Replaced.node (h : fs.Replaced fs' p l mode data) (m : Location) :
    fs'.node? m = if m = l then some (.file mode data) else fs.node? m := by
  rw [h.result, node?_put fs (ne_nil_of_absent h.no_directory)]

inductive Drafted (fs : FileSystem) (pid : Nat) (p : Path) : FileSystem → Prop
  | absent : Drafted fs pid p fs
  | present {d : Location} {temp : Bytes} (m : Nat) (part : Bytes) : fs.Vacant pid p d temp →
      Drafted fs pid p (fs.put (d ++ [temp]) (.file m part))

/-- What there may be while a file is written: all that was there, with or without a draft, or the
complete new file. -/
inductive Midway (fs : FileSystem) (pid : Nat) (p : Path) (mode : Nat) (data : Bytes) :
    FileSystem → Prop
  | draft {fs' : FileSystem} : fs.Drafted pid p fs' → Midway fs pid p mode data fs'
  | complete {fs' : FileSystem} {l : Location} : fs.Replaced fs' p l mode data →
      Midway fs pid p mode data fs'

end FileSystem

namespace Proc

open FileSystem

variable {sure : Call → Prop} {fs : FileSystem} {p : Path} {pid : Nat} {d : Location} {temp : Bytes}

/-- A draft is opened in a place that was free, or nothing happens. -/
theorem upholds_create (mode : Nat) (data : Bytes) (hfree : fs.Absent (temporary pid p)) :
    Upholds sure (fs.Midway pid p (permissions mode) data)
      (Attempt (fun l fs' => ∃ d temp m, fs.Vacant pid p d temp ∧ l = d ++ [temp] ∧
        fs' = fs.put l (.file m [])) (fs.Drafted pid p))
      (call (.create (temporary pid p) mode)) fs := by
  have hdone : Attempt (fun l fs' => ∃ d temp m, fs.Vacant pid p d temp ∧ l = d ++ [temp] ∧
      fs' = fs.put l (.file m [])) (fs.Drafted pid p)
      (fs.perform (.create (temporary pid p) mode)).1
      (fs.perform (.create (temporary pid p) mode)).2 := by
    rw [perform]
    cases hcreate : fs.create (temporary pid p) mode with
    | error e => exact .error .absent
    | ok r => exact .ok (hfree.create hcreate)
  refine .call (c := .create (temporary pid p) mode) rfl (.draft .absent)
    (hdone.either ?_ fun _ h => .draft h) hdone fun _ _ => .error .absent
  rintro - - ⟨d, temp, m, hv, rfl, rfl⟩
  exact .draft (.present m [] hv)

section Drafts

variable (hv : fs.Vacant pid p d temp) (mode : Nat) (data : Bytes)
include hv

/-- Whatever part of the content is written, it is a draft. -/
theorem upholds_append (m : Nat) :
    Upholds sure (fs.Midway pid p (permissions mode) data)
      (Attempt (fun _ fs' => fs' = fs.put (d ++ [temp]) (.file m data)) (fs.Drafted pid p))
      (call (.append (d ++ [temp]) data)) (fs.put (d ++ [temp]) (.file m [])) := by
  refine .append (fun part fs' => fs' = fs.put (d ++ [temp]) (.file m part)) ?_ ?_ ?_ ?_ rfl
  · rintro part - rfl
    exact .draft (.present m part hv)
  · rintro front rest - rfl
    rw [FileSystem.append, node?_put_self fs (List.concat_ne_nil temp d)]
    exact put_put ..
  · exact fun fs' hfs => .ok hfs
  · rintro part e - rfl
    exact .error (.present m part hv)

theorem upholds_sync (m : Nat) :
    Upholds sure (fs.Midway pid p (permissions mode) data)
      (Attempt (fun _ fs' => fs' = fs.put (d ++ [temp]) (.file m data)) (fs.Drafted pid p))
      (call (.sync (d ++ [temp]))) (fs.put (d ++ [temp]) (.file m data)) :=
  .look (c := .sync (d ++ [temp])) rfl rfl (.draft (.present m data hv)) (.ok rfl)
    fun _ => .error (.present m data hv)

theorem upholds_setMode (m : Nat) :
    Upholds sure (fs.Midway pid p (permissions mode) data)
      (Attempt (fun _ fs' => fs' = fs.put (d ++ [temp]) (.file (permissions mode) data))
        (fs.Drafted pid p))
      (call (.setMode (temporary pid p) mode)) (fs.put (d ++ [temp]) (.file m data)) := by
  have hperform : (fs.put (d ++ [temp]) (.file m data)).perform (.setMode (temporary pid p) mode) =
      (.ok (), fs.put (d ++ [temp]) (.file (permissions mode) data)) := by
    rw [perform_setMode (hv.names.keep (hv.keepsTree m data))
      (node?_put_self fs (List.concat_ne_nil temp d) _), put_put]
  refine .call (c := .setMode (temporary pid p) mode) rfl (.draft (.present m data hv)) ?_ ?_
    fun _ _ => .error (.present m data hv)
  · rw [hperform]
    exact .draft (.present (permissions mode) data hv)
  · rw [hperform]
    exact .ok rfl

/-- The draft takes the place of the file, or stays a draft. -/
theorem upholds_rename :
    Upholds sure (fs.Midway pid p mode data)
      (Attempt (fun _ fs' => ∃ l, fs.Replaced fs' p l mode data) (fs.Drafted pid p))
      (call (.rename (temporary pid p) p)) (fs.put (d ++ [temp]) (.file mode data)) := by
  have hpresent := Drafted.present mode data hv
  have hdone : Attempt (fun _ fs' => ∃ l, fs.Replaced fs' p l mode data) (fs.Drafted pid p)
      ((fs.put (d ++ [temp]) (.file mode data)).perform (.rename (temporary pid p) p)).1
      ((fs.put (d ++ [temp]) (.file mode data)).perform (.rename (temporary pid p) p)).2 := by
    rw [perform]
    cases hrename : (fs.put (d ++ [temp]) (.file mode data)).rename (temporary pid p) p with
    | error e => exact .error hpresent
    | ok fs' => exact .ok (hv.rename hrename)
  exact .call (c := .rename (temporary pid p) p) rfl (.draft hpresent)
    (hdone.either (fun _ _ h => .complete h.choose_spec) fun _ h => .draft h) hdone
    fun _ _ => .error hpresent

end Drafts

/-- Up to its move the temporary file is all that is new. -/
theorem upholds_replaceBy (mode : Nat) (data : Bytes) (hfree : fs.Absent (temporary pid p)) :
    Upholds sure (fs.Midway pid p (permissions mode) data)
      (Attempt (fun _ fs' => ∃ l, fs.Replaced fs' p l (permissions mode) data) (fs.Drafted pid p))
      (replaceBy (temporary pid p) p mode data) fs := by
  have hfail : ∀ (e : IoError) (fs₁ : FileSystem), fs.Midway pid p (permissions mode) data fs₁ →
      fs.Drafted pid p fs₁ → Upholds sure (fs.Midway pid p (permissions mode) data)
        (Attempt (fun _ fs' => ∃ l, fs.Replaced fs' p l (permissions mode) data) (fs.Drafted pid p))
        (pure (.error e) : Proc (Except IoError Unit)) fs₁ :=
    fun e fs₁ hnow hbad => .pure hnow (.error hbad)
  refine (upholds_create mode data hfree).attempt hfail ?_
  rintro - - - ⟨d, temp, m, hv, rfl, rfl⟩
  refine (upholds_append hv mode data m).attempt hfail ?_
  rintro - - - rfl
  refine (upholds_sync hv mode data m).attempt hfail ?_
  rintro - - - rfl
  refine (upholds_setMode hv mode data m).attempt hfail ?_
  rintro - - - rfl
  exact upholds_rename hv (permissions mode) data

/-- The temporary file is gone when a write has failed. -/
theorem upholds_writeAtomically (mode : Nat) (data : Bytes) (hfree : fs.Absent (temporary pid p))
    (hsure : sure (.unlink (temporary pid p))) :
    Upholds sure (fs.Midway pid p (permissions mode) data)
      (Attempt (fun _ fs' => ∃ l, fs.Replaced fs' p l (permissions mode) data) (· = fs))
      (writeAtomically pid p mode data) fs := by
  refine (upholds_replaceBy mode data hfree).attempt (fun e fs₁ hnow hbad => ?_)
    fun _ fs₁ hnow hgood => ?_
  · have hgone : (fs₁.perform (.unlink (temporary pid p))).2 = fs := by
      cases hbad with
      | absent => exact hfree.perform_unlink
      | present m part hv => rw [hv.perform_unlink_put]
    have hunlink : Upholds sure (fs.Midway pid p (permissions mode) data) (fun _ fs' => fs' = fs)
        (call (.unlink (temporary pid p))) fs₁ :=
      .call (c := .unlink (temporary pid p)) rfl hnow (hgone ▸ .draft .absent) hgone
        fun _ hnot => absurd hsure hnot
    exact hunlink.discard.bind fun _ fs₂ hnow hsame => .pure hnow (.error hsame)
  · cases p.parent? with
    | none => exact .pure hnow (.ok hgood)
    | some directory =>
      have hsync : Upholds sure (fs.Midway pid p (permissions mode) data)
          (fun _ fs' => ∃ l, fs.Replaced fs' p l (permissions mode) data) (syncDirectory directory) fs₁ :=
        .look (c := .syncDirectory (if directory.isEmpty then Path.dot else directory))
          rfl rfl hnow hgood fun _ => hgood
      exact hsync.discard.bind fun _ fs₂ hnow hgood => .pure hnow (.ok hgood)

end Proc

end SelfExtract
