import SelfExtract.Proofs.AtomicReplacement
import SelfExtract.Proofs.EntryDirectories
import SelfExtract.Proofs.FreshEntries
import SelfExtract.Proofs.SidecarWrites

/-!
# What is found under other keys

A look-up depends on two names in the root of the cache, and so does reading a
sidecar. Where what is below the root stays the same but for one key, and a root
that is made is empty but for it, both give for any other key what they gave. A
link is followed when a sidecar is read, so that its entry must be in its place.
-/
namespace SelfExtract

namespace FileSystem

variable {fs fs₁ fs' : FileSystem} {follow : Bool} {links links' left : Nat}
  {r place goal : Location} {names : List Bytes} {a b : Bytes} {p : Path}

/-- Two names, of which the first is no link, lead to the same where they stand for the same. -/
theorem walk_two_congr (ha : PlainName a) (hb : PlainName b) (hr : fs.node? r = some .directory)
    (hr' : fs'.node? r = some .directory) (hfirst : fs'.node? (r ++ [a]) = fs.node? (r ++ [a]))
    (hsecond : fs'.node? (r ++ [a] ++ [b]) = fs.node? (r ++ [a] ++ [b]))
    (hlink : ∀ target, fs.node? (r ++ [a]) ≠ some (.link target))
    (hfollow : ∀ target, fs.node? (r ++ [a] ++ [b]) = some (.link target) → follow = false) :
    fs'.walk follow links' r [a, b] = fs.walk follow links r [a, b] := by
  cases hnode : fs.node? (r ++ [a]) with
  | none =>
    rw [walk_missing hr ha hnode (List.cons_ne_nil b []),
      walk_missing hr' ha (hfirst.trans hnode) (List.cons_ne_nil b [])]
  | some n =>
    have hobj : n.IsObject := by
      rintro target rfl
      exact hlink target hnode
    rw [walk_object hr ha hnode hobj, walk_object hr' ha (hfirst.trans hnode) hobj]
    simp only [List.isEmpty_cons, Bool.false_eq_true, if_false]
    by_cases hdir : n = .directory
    · subst hdir
      rw [walk_last hnode hb hfollow,
        walk_last (hfirst.trans hnode) hb (by rwa [hsecond]), hsecond]
    · rw [walk, if_pos (by simpa [hfirst, hnode] using hdir), walk,
        if_pos (by simpa [hnode] using hdir)]

/-- A way to a directory in a tree that has more objects is one in the tree itself, or something is
missing on it. -/
theorem Leads.cut (h : fs₁.Leads links place names left goal) (htree : fs.IsTree)
    (hext : fs.Extends fs₁) (hgoal : fs₁.node? goal = some .directory)
    (hplace : fs.node? place = some .directory) :
    fs.Leads links place names left goal ∧ fs.node? goal = some .directory ∨
      ∀ follow rest, rest ≠ [] →
        fs.walk follow links place (names ++ rest) = .error .notFound := by
  induction h with
  | here => exact .inl ⟨.here, hplace⟩
  | dot _ _ ih =>
    refine (ih hgoal hplace).imp (fun ⟨hway, hdir⟩ => ⟨.dot hplace hway, hdir⟩)
      fun hmissing follow rest hrest => ?_
    rw [List.cons_append, walk_dot hplace, hmissing follow rest hrest]
  | dotDot _ _ ih =>
    have habove := htree.above hplace _ (List.dropLast_prefix _)
    refine (ih hgoal habove).imp (fun ⟨hway, hdir⟩ => ⟨.dotDot hplace hway, hdir⟩)
      fun hmissing follow rest hrest => ?_
    rw [List.cons_append, walk_dotDot hplace, hmissing follow rest hrest]
  | @link _ _ place _ name more target _ hname hnode hne _ ih =>
    have hstart : fs.node? (if target.isAbsolute then [] else place) = some .directory := by
      split
      · exact node?_root fs
      · exact hplace
    cases hold : fs.node? (place ++ [name]) with
    | none =>
      refine .inr fun follow rest hrest => ?_
      rw [List.cons_append, walk_missing hplace hname hold (by simp [hrest])]
    | some n =>
      obtain rfl := hext.node_eq hold hnode
      refine (ih hgoal hstart).imp (fun ⟨hway, hdir⟩ => ⟨.link hplace hname hold hne hway, hdir⟩)
        fun hmissing follow rest hrest => ?_
      rw [List.cons_append, walk_link hplace hname hold hne (by simp [hrest]), ← List.append_assoc,
        hmissing follow rest hrest]
  | @object _ _ place _ name more n _ hname hnode hobj hway ih =>
    cases hold : fs.node? (place ++ [name]) with
    | none =>
      refine .inr fun follow rest hrest => ?_
      rw [List.cons_append, walk_missing hplace hname hold (by simp [hrest])]
    | some m =>
      obtain rfl := hext.node_eq hold hnode
      have hdir : fs.node? (place ++ [name]) = some .directory := by
        rw [hold, ← hnode, hway.directory_of_goal hgoal]
      refine (ih hgoal hdir).imp (fun ⟨hway, hdir⟩ => ⟨.object hplace hname hold hobj hway, hdir⟩)
        fun hmissing follow rest hrest => ?_
      rw [List.cons_append, walk_object hplace hname hold hobj, if_neg (by simp [hrest]),
        hmissing follow rest hrest]

end FileSystem

open FileSystem

namespace Cache

variable {fs fs₁ fs' : FileSystem} {c : Cache} {key k : String} {r : Location} {name : Bytes}
  {follow : Bool} {s : Sidecar}

theorem plainName_programName (c : Cache) : PlainName c.programName :=
  ⟨c.fileName_programName.not_dot, c.fileName_programName.not_dotDot,
    Nat.le_trans (length_programName c) (by decide)⟩

theorem plainName_notesName : PlainName notesName :=
  ⟨fileName_notesName.not_dot, fileName_notesName.not_dotDot, by rw [length_notesName]; decide⟩

structure Other (key k : String) : Prop where
  ne : k ≠ key
  file : Path.FileName (Path.ofString k)
  short : (Path.ofString k).length ≤ maxName

theorem Other.plain (h : Other key k) : PlainName (Path.ofString k) :=
  ⟨h.file.not_dot, h.file.not_dotDot, h.short⟩

theorem Other.name_ne (h : Other key k) : Path.ofString k ≠ Path.ofString key :=
  fun heq => h.ne (Path.ofString_inj heq)

/-- The sidecar of an entry is in its place, and not behind a link. -/
def InPlace (c : Cache) (k : String) (fs : FileSystem) : Prop :=
  ∀ r target, IsRoot fs c.root r → fs.node? (r ++ [Path.ofString k]) ≠ some (.link target) ∧
    fs.node? (r ++ [Path.ofString k] ++ [notesName]) ≠ some (.link target)

/-- Below the root of a cache all is the same, but for one key. A root that is made has nothing else
in it. No link in the root leads to a directory. -/
structure Beside (c : Cache) (key : String) (fs fs' : FileSystem) : Prop where
  tree : fs.IsTree
  current : fs'.current = fs.current
  there : ∀ r, IsRoot fs c.root r → IsRoot fs' c.root r
  node : ∀ r k below, IsRoot fs' c.root r → k ≠ Path.ofString key →
    fs'.node? (r ++ k :: below) = fs.node? (r ++ k :: below)
  made : ∀ r, IsRoot fs' c.root r → IsRoot fs c.root r ∨
    (∃ fs₁, fs.Extends fs₁ ∧ IsRoot fs₁ c.root r) ∧
      ∀ k below, k ≠ Path.ofString key → fs'.node? (r ++ k :: below) = none
  unlinked : ∀ r k, IsRoot fs c.root r → ¬fs.LinkedDirectory r k
  unlinked' : ∀ r k, IsRoot fs' c.root r → ¬fs'.LinkedDirectory r k

section Entry

theorem names_join_entry (hk : Path.FileName (Path.ofString k)) (hname : Path.FileName name) :
    ((c.entry k).join name).names = c.root.names ++ [Path.ofString k, name] := by
  rw [Path.names_join _ hname.not_absolute, entry, Path.names_join _ hk.not_absolute, hk.names,
    hname.names, List.append_assoc]
  rfl

theorem start_join_entry (fs : FileSystem) (hk : Path.FileName (Path.ofString k))
    (hname : Path.FileName name) : fs.start ((c.entry k).join name) = fs.start c.root :=
  start_congr ((Path.isAbsolute_join _ hname.not_absolute).trans
    (Path.isAbsolute_join _ hk.not_absolute)) rfl

/-- What reading a sidecar comes to. -/
theorem run_readSidecar_fst (c : Cache) (k : String) (fs : FileSystem) :
    ((c.readSidecar k).run fs).1 =
      match fs.read (c.sidecar k) with
      | .error .notFound => .ok none
      | .error e => .error (.io e)
      | .ok text =>
        match Sidecar.parse? text with
        | some s => .ok (some s)
        | none => .error .sidecarSyntax := by
  rw [Cache.readSidecar, Proc.run_bind, Proc.run_call, perform]
  cases fs.read (c.sidecar k) with
  | error e => cases e <;> rfl
  | ok text =>
    simp only []
    cases Sidecar.parse? text with
    | none => rfl
    | some s => rfl

/-- Nothing of a sidecar is read where the root is not there. -/
theorem isRoot_of_readSidecar (hk : Path.FileName (Path.ofString k))
    (h : ((c.readSidecar k).run fs).1 = .ok (some s)) : ∃ r, IsRoot fs c.root r := by
  rw [run_readSidecar_fst] at h
  cases hread : fs.read (c.sidecar k) with
  | error e =>
    rw [hread] at h
    cases e <;> cases h
  | ok text =>
    obtain ⟨d, hnames, -⟩ := names_of_read (lastName_sidecar c k) hread
    obtain ⟨r, hr, -⟩ := isRoot_entry hk (isRoot_of_names fileName_notesName hnames).1
    exact ⟨r, hr⟩

/-- Nothing is found where a link has the place of an entry. -/
theorem run_lookup_link {target : Path} (hk : Path.FileName (Path.ofString k))
    (hr : IsRoot fs c.root r) (hlinked : ¬fs.LinkedDirectory r (Path.ofString k))
    (hnode : fs.node? (r ++ [Path.ofString k]) = some (.link target)) (size : UInt64) :
    ((c.lookup k size).run fs).1 = none := by
  cases hfound : ((c.lookup k size).run fs).1 with
  | none => rfl
  | some b =>
    have hlast : (c.binary k).LastName c.programName := .join _ c.fileName_programName
    rw [lookup, Proc.run_bind, Proc.run_call, perform] at hfound
    split at hfound
    · cases hfound
    · next s hs =>
      obtain ⟨f, hf, -⟩ := bind_eq_ok.mp hs
      rw [hlast.asksForDirectory] at hf
      obtain ⟨d, hnames, -⟩ := Names.of_lastName hf hlast fun _ _ _ _ => rfl
      have hdir := hnames.directory
      obtain ⟨r', hr', hplace⟩ := isRoot_entry hk (isRoot_of_names c.fileName_programName hnames).1
      obtain rfl := hr.unique hr'
      obtain rfl := hplace.resolve_right hlinked
      rw [hnode] at hdir
      cases hdir

theorem run_lookup_congr {size : UInt64}
    (h : fs'.resolve false (c.binary k) = fs.resolve false (c.binary k)) :
    ((c.lookup k size).run fs').1 = ((c.lookup k size).run fs).1 := by
  have hlast : (c.binary k).LastName c.programName := .join _ c.fileName_programName
  have hstatus : fs'.status (c.binary k) = fs.status (c.binary k) := by
    rw [status, status, hlast.asksForDirectory, h]
  rw [lookup, Proc.run_bind, Proc.run_bind, Proc.run_call, Proc.run_call, perform, perform, hstatus]
  cases fs.status (c.binary k) with
  | error e => rfl
  | ok s => rfl

theorem run_readSidecar_congr
    (h : fs'.resolve true (c.sidecar k) = fs.resolve true (c.sidecar k)) :
    ((c.readSidecar k).run fs').1 = ((c.readSidecar k).run fs).1 := by
  rw [run_readSidecar_fst, run_readSidecar_fst, FileSystem.read, FileSystem.read, existing, existing,
    h]

end Entry

namespace Beside

section Found

variable (h : c.Beside key fs fs')
include h

/-- A root that is there now was there before, or else nothing was found by its path. -/
theorem there_or_missing (hr : IsRoot fs' c.root r) : IsRoot fs c.root r ∨
    (∀ follow rest, rest ≠ [] →
      fs.walk follow maxLinks (fs.start c.root) (c.root.names ++ rest) = .error .notFound) ∧
    ∀ k below, k ≠ Path.ofString key → fs'.node? (r ++ k :: below) = none := by
  rcases h.made r hr with hold | ⟨⟨fs₁, hext, hr₁⟩, hnone⟩
  · exact .inl hold
  · obtain ⟨hdir, after, hway⟩ := hr₁.way
    rw [start_congr rfl hext.current] at hway
    have hstart := h.tree.above_start c.root _ (List.prefix_refl _)
    refine (hway.cut h.tree hext hdir hstart).imp (fun ⟨hold, hdir⟩ => ?_) fun hmissing =>
      ⟨hmissing, hnone⟩
    exact .of_way (by decide) (by decide) (existing_eq_ok_iff.mp hr₁).valid hdir hold

end Found

variable (h : c.Beside key fs fs') (hk : Other key k)
include h hk

/-- A file of another entry is found as before in a root that is there now. -/
theorem resolve (hname : Path.FileName name) (hplain : PlainName name) (hr : IsRoot fs' c.root r)
    (hlink : ∀ target, IsRoot fs c.root r →
      fs.node? (r ++ [Path.ofString k]) ≠ some (.link target))
    (hfollow : ∀ target, IsRoot fs c.root r →
      fs.node? (r ++ [Path.ofString k] ++ [name]) = some (.link target) → follow = false) :
    fs'.resolve follow ((c.entry k).join name) = fs.resolve follow ((c.entry k).join name) := by
  refine resolve_congr h.current fun _ => ?_
  rw [names_join_entry hk.file hname, start_join_entry fs hk.file hname]
  have hne : [Path.ofString k, name] ≠ [] := List.cons_ne_nil _ _
  obtain ⟨hdir', after', hway'⟩ := hr.way
  rw [start_congr rfl h.current] at hway'
  rw [hway'.walk_append hne]
  rcases h.there_or_missing hr with hold | ⟨hmissing, hnone⟩
  · obtain ⟨hdir, after, hway⟩ := hold.way
    have hentry := h.node r (Path.ofString k) [] hr hk.name_ne
    have hfile := h.node r (Path.ofString k) [name] hr hk.name_ne
    rw [List.append_cons] at hfile
    rw [hway.walk_append hne]
    exact walk_two_congr hk.plain hplain hdir hdir' hentry hfile (fun target => hlink target hold)
      fun target => hfollow target hold
  · rw [hmissing follow _ hne,
      walk_missing hdir' hk.plain (hnone _ [] hk.name_ne) (List.cons_ne_nil name [])]

theorem lookup (size : UInt64) :
    ((c.lookup k size).run fs').1 = ((c.lookup k size).run fs).1 := by
  by_cases hroot : ∃ r, IsRoot fs' c.root r
  · obtain ⟨r, hr⟩ := hroot
    by_cases hlink : ∃ target, IsRoot fs c.root r ∧
        fs.node? (r ++ [Path.ofString k]) = some (.link target)
    · obtain ⟨target, hold, hnode⟩ := hlink
      have hnode' := (h.node r (Path.ofString k) [] hr hk.name_ne).trans hnode
      rw [run_lookup_link hk.file hr (h.unlinked' r _ hr) hnode',
        run_lookup_link hk.file hold (h.unlinked r _ hold) hnode]
    · refine run_lookup_congr (h.resolve hk c.fileName_programName c.plainName_programName hr ?_
        fun _ _ _ => rfl)
      exact fun target hold hnode => hlink ⟨target, hold, hnode⟩
  · have habsent := not_exists.mp hroot
    rw [run_lookup_absent habsent hk.file, run_lookup_absent (fun r hr => habsent r (h.there r hr))
      hk.file]

/-- A sidecar in its place is read as before. -/
theorem readSidecar (hplace : c.InPlace k fs) (hr : IsRoot fs' c.root r) :
    ((c.readSidecar k).run fs').1 = ((c.readSidecar k).run fs).1 := by
  refine run_readSidecar_congr (h.resolve hk fileName_notesName plainName_notesName hr ?_ ?_)
  · exact fun target hold => (hplace r target hold).1
  · exact fun target hold hnode => absurd hnode (hplace r target hold).2

/-- The same is read, or nothing is, whether or not the root is there now. -/
theorem readSidecar_iff (hplace : c.InPlace k fs) (s : Sidecar) :
    ((c.readSidecar k).run fs').1 = .ok (some s) ↔ ((c.readSidecar k).run fs).1 = .ok (some s) := by
  by_cases hroot : ∃ r, IsRoot fs' c.root r
  · obtain ⟨r, hr⟩ := hroot
    rw [h.readSidecar hk hplace hr]
  · refine iff_of_false (fun hs => hroot (isRoot_of_readSidecar hk.file hs)) fun hs => hroot ?_
    obtain ⟨r, hr⟩ := isRoot_of_readSidecar hk.file hs
    exact ⟨r, h.there r hr⟩

end Beside

end Cache

end SelfExtract
