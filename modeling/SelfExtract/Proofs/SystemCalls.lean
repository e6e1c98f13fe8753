import SelfExtract.AtomicWrite
import SelfExtract.Proofs.Associations
import SelfExtract.Proofs.PathNames
import SelfExtract.Proofs.PathResolution
import SelfExtract.Proofs.Results

/-!
# What system calls find and change

A path exists where there is a way to an object, and a file that a path names
in a directory is found there whether or not it exists. Each change is told by
the objects that the locations hold afterwards.
-/
namespace SelfExtract

namespace Proc

variable {α β : Type}

@[simp] theorem run_pure (a : α) (fs : FileSystem) : (pure a : Proc α).run fs = (a, fs) :=
  rfl

@[simp] theorem run_call (c : Call) (fs : FileSystem) : (call c).run fs = fs.perform c :=
  rfl

/-- What follows a process starts where the process ends. -/
@[simp] theorem run_bind (x : Proc α) (f : α → Proc β) (fs : FileSystem) :
    (x >>= f).run fs = (f (x.run fs).1).run (x.run fs).2 := by
  change (x.bind f).run fs = _
  induction x generalizing fs with
  | done a => rfl
  | step c next ih => exact ih (fs.perform c).1 (fs.perform c).2

@[simp] theorem run_discard (x : Proc α) (fs : FileSystem) :
    (discard x : Proc PUnit).run fs = (.unit, (x.run fs).2) := by
  change (x.bind fun _ => .done PUnit.unit).run fs = _
  exact run_bind x (fun _ => .done PUnit.unit) fs

end Proc

namespace FileSystem

variable {fs fs' : FileSystem} {p : Path} {l : Location} {n : Node}

theorem isObject_directory : Node.directory.IsObject :=
  fun _ h => nomatch h

theorem isObject_file (mode : Nat) (data : Bytes) : (Node.file mode data).IsObject :=
  fun _ h => nomatch h

section Nodes

theorem node?_root (fs : FileSystem) : fs.node? [] = some .directory :=
  if_pos rfl

theorem node?_erase (fs : FileSystem) {l : Location} (hl : l ≠ []) (m : Location) :
    (fs.erase l).node? m = if m = l then none else fs.node? m := by
  by_cases hm : m = []
  · subst hm
    rw [node?_root, node?_root, if_neg (Ne.symm hl)]
  · rw [node?, if_neg hm, erase, lookup_filter_ne, node?, if_neg hm]

theorem node?_put (fs : FileSystem) {l : Location} (hl : l ≠ []) (n : Node) (m : Location) :
    (fs.put l n).node? m = if m = l then some n else fs.node? m := by
  by_cases hm : m = []
  · subst hm
    rw [node?_root, node?_root, if_neg (Ne.symm hl)]
  · rw [node?, if_neg hm, put, erase, List.lookup_cons, lookup_filter_ne, node?, if_neg hm]
    by_cases h : m = l
    · simp [h]
    · simp [h, beq_false_of_ne h]

/-- Two names in one directory stand for two places. -/
theorem place_ne (d : Location) {a b : Bytes} (h : a ≠ b) : d ++ [a] ≠ d ++ [b] := by
  simpa using h

def without (fs : FileSystem) (ls : List Location) : FileSystem :=
  ls.foldl erase fs

theorem extends_of_without {ls : List Location} (hls : [] ∉ ls)
    (hcurrent : fs'.current = fs.current)
    (hnode : ∀ l n, l ∉ ls → fs.node? l = some n → fs'.node? l = some n) :
    (fs.without ls).Extends fs' := by
  induction ls generalizing fs with
  | nil => exact ⟨hcurrent, fun l n => hnode l n List.not_mem_nil⟩
  | cons a ls ih =>
    rw [List.mem_cons, not_or] at hls
    refine ih hls.2 hcurrent fun l n hl hn => ?_
    rw [node?_erase fs (Ne.symm hls.1)] at hn
    split at hn
    · cases hn
    · next hne => exact hnode l n (by simp [hne, hl]) hn

/-- Only the root is there without being put. -/
theorem ne_nil_of_absent (h : fs.node? l ≠ some .directory) : l ≠ [] := by
  rintro rfl
  exact h (node?_root fs)

end Nodes

section Changes

variable {fs₁ fs₂ : FileSystem}

structure With (fs fs₁ : FileSystem) (l : Location) (n : Option Node) : Prop where
  current : fs₁.current = fs.current
  node : ∀ m, fs₁.node? m = if m = l then n else fs.node? m

namespace With

variable {o o' : Option Node}

theorem put (h : fs.With fs₁ l o) (hl : l ≠ []) (n : Node) :
    fs.With (fs₁.put l n) l (some n) where
  current := h.current
  node m := by
    rw [node?_put fs₁ hl, h.node]
    split
    · rfl
    · rfl

theorem erase (h : fs.With fs₁ l o) (hl : l ≠ []) : fs.With (fs₁.erase l) l none where
  current := h.current
  node m := by
    rw [node?_erase fs₁ hl, h.node]
    split
    · rfl
    · rfl

theorem refl (fs : FileSystem) (l : Location) : fs.With fs l (fs.node? l) where
  current := rfl
  node m := by
    split
    · next h => rw [h]
    · rfl

theorem self (h : fs.With fs₁ l o) : fs₁.node? l = o := by
  rw [h.node, if_pos rfl]

theorem other (h : fs.With fs₁ l o) (hm : m ≠ l) : fs₁.node? m = fs.node? m := by
  rw [h.node, if_neg hm]

/-- What is put where nothing was leaves all the rest. -/
theorem grows (h : fs.With fs₁ l o) (hl : fs.node? l = none) : fs.Extends fs₁ where
  current := h.current
  keeps m n hm := by
    rw [h.other, hm]
    rintro rfl
    rw [hl] at hm
    cases hm

end With

structure Same (fs fs₁ : FileSystem) : Prop where
  current : fs₁.current = fs.current
  node : ∀ l, fs₁.node? l = fs.node? l

theorem Same.refl (fs : FileSystem) : fs.Same fs :=
  ⟨rfl, fun _ => rfl⟩

theorem With.trans_same {o : Option Node} (h : fs.With fs₁ l o) (hsame : fs₁.Same fs₂) :
    fs.With fs₂ l o :=
  ⟨hsame.current.trans h.current, fun m => (hsame.node m).trans (h.node m)⟩

/-- A location that is filled and emptied again. -/
theorem With.same {o : Option Node} (h : fs.With fs₁ l o) (hl : fs.node? l = o) : fs.Same fs₁ where
  current := h.current
  node m := by
    rw [h.node]
    split
    · next hm => rw [hm, hl]
    · rfl

end Changes

section Existing

def start (fs : FileSystem) (p : Path) : Location :=
  if p.isAbsolute then [] else fs.current

theorem start_congr {q : Path} (h : p.isAbsolute = q.isAbsolute) (hc : fs.current = fs'.current) :
    fs.start p = fs'.start q := by
  rw [start, start, h, hc]

structure Valid (p : Path) : Prop where
  no_nul : 0 ∉ p
  not_empty : p ≠ []
  short : p.length ≤ maxPath

theorem Valid.resolve (hp : Valid p) (fs : FileSystem) (follow : Bool) :
    fs.resolve follow p = fs.walk follow maxLinks (fs.start p) p.names := by
  rw [FileSystem.resolve, if_neg (by simpa using hp.no_nul), if_neg (by simpa using hp.not_empty),
    if_neg (Nat.not_lt_of_le hp.short)]
  rfl

theorem Valid.isAbsolute_append (hp : Valid p) (q : Path) :
    (p ++ q).isAbsolute = p.isAbsolute := by
  rw [Path.isAbsolute, Path.isAbsolute, List.head?_append_of_ne_nil _ hp.not_empty]

/-- A name behind a path, if the path does not become too long by it. -/
theorem Valid.append_name {name : Bytes} (hp : Valid p) (hname : Path.FileName name)
    (hshort : (p ++ Path.slash :: name).length ≤ maxPath) : Valid (p ++ Path.slash :: name) :=
  ⟨by simp [hp.no_nul, hname.no_nul, Path.slash], by simp, hshort⟩

theorem valid_of_resolve {follow : Bool} {f : Found} (h : fs.resolve follow p = .ok f) :
    Valid p := by
  rw [resolve] at h
  split at h
  · cases h
  · next hnul =>
    split at h
    · cases h
    · next hempty =>
      split at h
      · cases h
      · next hshort =>
        exact ⟨by simpa using hnul, by simpa using hempty, Nat.le_of_not_lt hshort⟩

/-- A path tells what stands where it leads. -/
theorem resolve_node {follow : Bool} {f : Found} (h : fs.resolve follow p = .ok f) :
    f.node = fs.node? f.location := by
  rw [(valid_of_resolve h).resolve] at h
  exact walk_node h

structure Reaches (fs : FileSystem) (p : Path) (l : Location) (n : Node) : Prop where
  valid : Valid p
  way : ∃ left, Leads fs maxLinks (fs.start p) p.names left l
  node : fs.node? l = some n
  directory : p.asksForDirectory = true → n = .directory

theorem existing_eq_ok_iff : fs.existing p = .ok (l, n) ↔ fs.Reaches p l n := by
  constructor
  · intro h
    obtain ⟨f, hf, h⟩ := bind_eq_ok.mp h
    have hvalid := valid_of_resolve hf
    have hnode := resolve_node hf
    rw [hvalid.resolve] at hf
    cases hn : f.node with
    | none =>
      rw [hn] at h
      cases h
    | some found =>
      simp only [hn] at h
      split at h
      · cases h
      · next hasks =>
        obtain ⟨rfl, rfl⟩ : f.location = l ∧ found = n := by
          cases h
          exact ⟨rfl, rfl⟩
        rw [hn] at hnode
        refine ⟨hvalid, ?_, hnode.symm, ?_⟩
        · exact leads_of_walk hf (.refl fs) hnode.symm fun _ _ => ⟨rfl, hnode.symm⟩
        · intro hp
          simpa [hp] using hasks
  · rintro ⟨hvalid, ⟨left, hway⟩, hnode, hdir⟩
    obtain ⟨named, hwalk⟩ := hway.walk_eq
    rw [existing, hvalid.resolve, hwalk]
    simp only [bind, Except.bind, hnode]
    rw [if_neg]
    · rfl
    · rw [Bool.and_eq_true, not_and, bne_iff_ne, not_not]
      exact hdir

/-- What exists goes on to exist when objects are added. -/
theorem Extends.existing (hext : fs.Extends fs') (h : fs.existing p = .ok (l, n)) :
    fs'.existing p = .ok (l, n) := by
  obtain ⟨hvalid, ⟨left, hway⟩, hnode, hdir⟩ := existing_eq_ok_iff.mp h
  refine existing_eq_ok_iff.mpr ⟨hvalid, ⟨left, ?_⟩, hext.keeps l n hnode, hdir⟩
  rw [start_congr rfl hext.current]
  exact hway.mono hext

theorem Extends.read {data : Bytes} (hext : fs.Extends fs') (h : fs.read p = .ok data) :
    fs'.read p = .ok data := by
  obtain ⟨found, hfound, h⟩ := bind_eq_ok.mp h
  rw [FileSystem.read, hext.existing hfound]
  exact h

/-- The components of a path lead to where its names lead. -/
theorem Leads.components {links left : Nat} {place : Location}
    (h : Leads fs links place p.names left l) : Leads fs links place p.components.2 left l := by
  rw [Path.components]
  split
  · next n r _ hnames =>
    rw [hnames] at h
    exact Leads.without_dots [n] h
  · exact Leads.without_dots [] h

/-- The names of a path lead to where its components lead, if they do not end in a dot. -/
theorem Leads.of_components {links left : Nat} {place : Location}
    (hlast : p.names.getLast? ≠ some Path.dot) (h : Leads fs links place p.components.2 left l) :
    Leads fs links place p.names left l := by
  rw [Path.components] at h
  split at h
  · next n r _ hnames =>
    rw [hnames] at hlast ⊢
    refine Leads.with_dots [n] (fun hr => hlast ?_) h
    rw [List.getLast?_cons, hr]
    rfl
  · exact Leads.with_dots [] hlast h

/-- A file that is read exists. -/
theorem read_eq_ok_iff {data : Bytes} :
    fs.read p = .ok data ↔ ∃ l mode, fs.Reaches p l (.file mode data) := by
  rw [read, bind_eq_ok]
  constructor
  · rintro ⟨⟨l, n⟩, hex, h⟩
    cases n with
    | directory => cases h
    | link => cases h
    | file mode content =>
      cases h
      exact ⟨l, mode, existing_eq_ok_iff.mp hex⟩
  · rintro ⟨l, mode, h⟩
    exact ⟨_, existing_eq_ok_iff.mpr h, rfl⟩

/-- Two paths of the same components that lead to files lead to the same one. -/
theorem read_of_same {q : Path} {data data' : Bytes} (h : q.same p = true)
    (hp : fs.read p = .ok data) (hq : fs.read q = .ok data') : data' = data := by
  have hcomponents : q.components = p.components := by simpa [Path.same] using h
  obtain ⟨l, mode, hp⟩ := read_eq_ok_iff.mp hp
  obtain ⟨l', mode', hq⟩ := read_eq_ok_iff.mp hq
  obtain ⟨-, ⟨left, hway⟩, hnode, -⟩ := hp
  obtain ⟨-, ⟨left', hway'⟩, hnode', -⟩ := hq
  have hstart : fs.start q = fs.start p := start_congr (congrArg Prod.fst hcomponents) rfl
  have hway' := hway'.components
  rw [hcomponents, hstart] at hway'
  obtain rfl := hway'.unique hway.components
  rw [hnode] at hnode'
  cases hnode'
  rfl

/-- A spelling of a path that can lead to a file: one that neither ends in a slash or a dot nor is
too long. -/
structure OpensFiles (p : Path) : Prop where
  valid : Valid p
  no_slash : p.asksForDirectory = false
  no_dot : p.names.getLast? ≠ some Path.dot

theorem opensFiles_of_read {data : Bytes} (h : fs.read p = .ok data) : OpensFiles p := by
  obtain ⟨l, mode, hvalid, ⟨left, hway⟩, hnode, hdirectory⟩ := read_eq_ok_iff.mp h
  refine ⟨hvalid, ?_, fun hlast => ?_⟩
  · rw [Bool.eq_false_iff]
    exact fun hslash => nomatch hdirectory hslash
  · obtain ⟨front, hnames⟩ := List.getLast?_eq_some_iff.mp hlast
    rw [hnames] at hway
    obtain ⟨after, middle, -, hdot⟩ := hway.split
    have hthere := hdot.directory
    cases hdot with
    | dot _ hrest =>
      cases hrest
      rw [hnode] at hthere
      cases hthere
    | link _ hname => exact hname.not_dot rfl
    | object _ hname => exact hname.not_dot rfl

/-- A file is read by every path of the same components that can lead to files. -/
theorem read_eq_ok_iff_of_same {q : Path} {data : Bytes} (h : p.same q = true)
    (hp : fs.read p = .ok data) : fs.read q = .ok data ↔ OpensFiles q := by
  refine ⟨opensFiles_of_read, fun ⟨hvalid, hslash, hdot⟩ => ?_⟩
  have hcomponents : p.components = q.components := by simpa [Path.same] using h
  obtain ⟨l, mode, -, ⟨left, hway⟩, hnode, -⟩ := read_eq_ok_iff.mp hp
  have hway := hway.components
  rw [hcomponents, start_congr (congrArg Prod.fst hcomponents) rfl] at hway
  refine read_eq_ok_iff.mpr ⟨l, mode, hvalid, ⟨left, hway.of_components hdot⟩, hnode, ?_⟩
  rw [hslash]
  exact fun hasks => nomatch hasks

/-- What a path led to an unused location for exists when it is put there. -/
theorem existing_of_resolve {follow : Bool} {f : Found} (h : fs.resolve follow p = .ok f)
    (hext : fs.Extends fs') (hn : fs'.node? f.location = some .directory) :
    fs'.existing p = .ok (f.location, .directory) := by
  have hvalid := valid_of_resolve h
  rw [hvalid.resolve] at h
  refine existing_eq_ok_iff.mpr ⟨hvalid, ?_, hn, fun _ => rfl⟩
  rw [start_congr rfl hext.current]
  exact leads_of_walk h hext hn fun _ ht => nomatch ht

/-- A name in a directory that is too long, itself or with the path of the directory. -/
def TooLong (e : Path) (name : Bytes) : Prop :=
  maxPath < (e ++ Path.slash :: name).length ∨ maxName < name.length

theorem resolve_tooLong {e : Path} {d : Location} {name : Bytes} {follow : Bool}
    (he : fs.existing e = .ok (d, .directory)) (hname : Path.FileName name)
    (hlong : TooLong e name) :
    fs.resolve follow (e ++ Path.slash :: name) = .error .nameTooLong := by
  obtain ⟨hvalid, ⟨left, hway⟩, hdir, -⟩ := existing_eq_ok_iff.mp he
  by_cases hpath : maxPath < (e ++ Path.slash :: name).length
  · rw [resolve, if_neg (by simp [hvalid.no_nul, hname.no_nul, Path.slash]), if_neg (by simp),
      if_pos hpath]
  · rw [(hvalid.append_name hname (Nat.le_of_not_lt hpath)).resolve, Path.names_append_slash,
      hname.names, start_congr (hvalid.isAbsolute_append _) rfl,
      hway.walk_append (List.cons_ne_nil name [])]
    exact walk_long hdir hname.not_dot hname.not_dotDot (hlong.resolve_left hpath)

end Existing

end FileSystem

end SelfExtract
