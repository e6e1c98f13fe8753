import SelfExtract.Proofs.SystemCalls

/-!
# Paths that name a file in a directory

`Names` is what a path and a file system have to be like for the path to stand
for a name in a directory, whether or not there is anything of that name. As
long as directories and links stay what they are, it goes on to stand for it.
-/
namespace SelfExtract

namespace FileSystem

variable {fs fs' fs₁ fs₂ : FileSystem} {follow : Bool} {links : Nat} {place : Location}
  {names rest : List Bytes} {name : Bytes} {f : Found} {p : Path} {d l : Location}

section Walks

/-- Wherever the names of a walk are cut, the first ones are a way and the others are walked from its
end. -/
def Cuts (fs : FileSystem) (follow : Bool) (f : Found) (links : Nat) (place : Location)
    (all : List Bytes) : Prop :=
  fs.walk follow links place all = .ok f ∧
    ∀ names rest, names ++ rest = all → rest ≠ [] → ∃ left goal,
      fs.Leads links place names left goal ∧ fs.walk follow left goal rest = .ok f

theorem cuts_cons (hself : fs.walk follow links place (name :: rest) = .ok f)
    (hcons : ∀ names back, names ++ back = rest → back ≠ [] → ∃ left goal,
      fs.Leads links place (name :: names) left goal ∧ fs.walk follow left goal back = .ok f) :
    fs.Cuts follow f links place (name :: rest) := by
  refine ⟨hself, fun names back heq hne => ?_⟩
  cases names with
  | nil =>
    obtain rfl : back = name :: rest := heq
    exact ⟨links, place, .here, hself⟩
  | cons a names =>
    obtain ⟨rfl, hrest⟩ := List.cons.inj heq
    exact hcons names back hrest hne

/-- A walk that arrives has taken the way of its first names. -/
theorem walk_append_ok (h : fs.walk follow links place (names ++ rest) = .ok f)
    (hrest : rest ≠ []) : ∃ left goal, fs.Leads links place names left goal ∧
      fs.walk follow left goal rest = .ok f := by
  refine (walk_induction (P := fs.Cuts follow f) ?here ?dot ?dotDot ?last ?link ?object h).2
    names rest rfl hrest
  case here =>
    rintro links place rfl
    refine ⟨by rw [walk], fun names rest heq hne => ?_⟩
    exact absurd (List.append_eq_nil_iff.mp heq).2 hne
  case dot =>
    rintro links place rest hdir ⟨hwalk, ih⟩
    refine cuts_cons (by rw [walk_dot hdir, hwalk]) fun names back heq hne => ?_
    obtain ⟨left, goal, hway, hend⟩ := ih names back heq hne
    exact ⟨left, goal, .dot hdir hway, hend⟩
  case dotDot =>
    rintro links place rest hdir ⟨hwalk, ih⟩
    refine cuts_cons (by rw [walk_dotDot hdir, hwalk]) fun names back heq hne => ?_
    obtain ⟨left, goal, hway, hend⟩ := ih names back heq hne
    exact ⟨left, goal, .dotDot hdir hway, hend⟩
  case last =>
    rintro links place name hdir hname hfollow rfl
    refine cuts_cons (walk_last hdir hname hfollow) fun names back heq hne => ?_
    exact absurd (List.append_eq_nil_iff.mp heq).2 hne
  case link =>
    rintro links place name rest target hdir hname hnode hempty hfollow ⟨hwalk, ih⟩
    refine cuts_cons (by rw [walk_link hdir hname hnode hempty hfollow, hwalk])
      fun names back heq hne => ?_
    subst heq
    obtain ⟨left, goal, hway, hend⟩ := ih (target.names ++ names) back (List.append_assoc ..) hne
    exact ⟨left, goal, .link hdir hname hnode hempty hway, hend⟩
  case object =>
    rintro links place name rest n hdir hname hnode hobj hmore ⟨hwalk, ih⟩
    refine cuts_cons (by
      rw [walk_object hdir hname hnode hobj, if_neg (by simpa using hmore), hwalk])
      fun names back heq hne => ?_
    obtain ⟨left, goal, hway, hend⟩ := ih names back heq hne
    exact ⟨left, goal, .object hdir hname hnode hobj hway, hend⟩

/-- A walk that arrives goes on from a directory, by a name that is short enough for it. -/
theorem walk_cons_ok (h : fs.walk follow links place (name :: rest) = .ok f)
    (hdot : name ≠ Path.dot) (hdots : name ≠ Path.dotDot) :
    fs.node? place = some .directory ∧ PlainName name := by
  have hdir : fs.node? place = some .directory := by
    by_contra hdir
    rw [walk, if_pos (by simpa using hdir)] at h
    cases h
  refine ⟨hdir, hdot, hdots, Nat.le_of_not_lt fun hlong => ?_⟩
  rw [walk_long hdir hdot hdots hlong] at h
  cases h

end Walks

/-- Directories and links stay what they are, and no link is new. -/
structure KeepsTree (fs fs' : FileSystem) : Prop where
  current : fs'.current = fs.current
  directory : ∀ l, fs.node? l = some .directory → fs'.node? l = some .directory
  link : ∀ l target, fs'.node? l = some (.link target) ↔ fs.node? l = some (.link target)

namespace KeepsTree

theorem refl (fs : FileSystem) : fs.KeepsTree fs :=
  ⟨rfl, fun _ h => h, fun _ _ => .rfl⟩

theorem trans (h : fs.KeepsTree fs₁) (h' : fs₁.KeepsTree fs₂) : fs.KeepsTree fs₂ where
  current := h'.current.trans h.current
  directory l hl := h'.directory l (h.directory l hl)
  link l target := (h'.link l target).trans (h.link l target)

/-- A way to a directory passes directories and links only. -/
theorem leads {left : Nat} (h : fs.KeepsTree fs') (hway : fs.Leads links place names left l)
    (hgoal : fs.node? l = some .directory) : fs'.Leads links place names left l := by
  induction hway with
  | here => exact .here
  | dot hdir _ ih => exact .dot (h.directory _ hdir) (ih hgoal)
  | dotDot hdir _ ih => exact .dotDot (h.directory _ hdir) (ih hgoal)
  | link hdir hname hnode hne _ ih =>
    exact .link (h.directory _ hdir) hname ((h.link _ _).mpr hnode) hne (ih hgoal)
  | object hdir hname hnode hobj hrest ih =>
    have hplace := hrest.directory_of_goal hgoal
    exact .object (h.directory _ hdir) hname (by rw [h.directory _ hplace, ← hnode, hplace]) hobj
      (ih hgoal)

/-- A path goes on to lead to a directory. -/
theorem existing (h : fs.KeepsTree fs') (hp : fs.existing p = .ok (l, .directory)) :
    fs'.existing p = .ok (l, .directory) := by
  obtain ⟨hvalid, ⟨left, hway⟩, hnode, -⟩ := existing_eq_ok_iff.mp hp
  refine existing_eq_ok_iff.mpr ⟨hvalid, ⟨left, ?_⟩, h.directory l hnode, fun _ => rfl⟩
  rw [start_congr rfl h.current]
  exact h.leads hway hnode

end KeepsTree

/-- A location that neither a directory nor a link takes. -/
def Free (o : Option Node) : Prop :=
  o ≠ some .directory ∧ ∀ target, o ≠ some (.link target)

theorem free_none : Free none :=
  ⟨nofun, nofun⟩

theorem free_file (mode : Nat) (data : Bytes) : Free (some (.file mode data)) :=
  ⟨nofun, nofun⟩

/-- A file comes or goes, or is another one. -/
theorem With.keepsTree {o : Option Node} (h : fs.With fs₁ l o) (hold : Free (fs.node? l))
    (hnew : Free o) : fs.KeepsTree fs₁ where
  current := h.current
  directory m hm := by
    rw [h.other, hm]
    rintro rfl
    exact hold.1 hm
  link m target := by
    rw [h.node]
    split
    · next hm =>
      subst hm
      exact iff_of_false (hnew.2 target) (hold.2 target)
    · rfl

structure Names (fs : FileSystem) (p : Path) (d : Location) (name : Bytes) : Prop where
  valid : Valid p
  file : p.asksForDirectory = false
  plain : PlainName name
  directory : fs.node? d = some .directory
  way : ∃ front left, p.names = front ++ [name] ∧ fs.Leads maxLinks (fs.start p) front left d

namespace Names

/-- A name in a directory that is there, if the two are not too long. -/
theorem of_existing {e : Path} (he : fs.existing e = .ok (d, .directory))
    (hname : Path.FileName name) (hfit : ¬TooLong e name) :
    fs.Names (e ++ Path.slash :: name) d name := by
  obtain ⟨hpath, hlen⟩ := not_or.mp hfit
  obtain ⟨hvalid, ⟨left, hway⟩, hdir, -⟩ := existing_eq_ok_iff.mp he
  refine ⟨hvalid.append_name hname (Nat.le_of_not_lt hpath), ?_,
    ⟨hname.not_dot, hname.not_dotDot, Nat.le_of_not_lt hlen⟩, hdir, e.names, left, ?_, ?_⟩
  · rw [← List.singleton_append, ← List.append_assoc]
    exact hname.asksForDirectory_append _
  · rw [Path.names_append_slash, hname.names]
  · rw [start_congr (hvalid.isAbsolute_append _) rfl]
    exact hway

theorem keep (h : fs.Names p d name) (hkeep : fs.KeepsTree fs') : fs'.Names p d name := by
  obtain ⟨front, left, hnames, hway⟩ := h.way
  refine ⟨h.valid, h.file, h.plain, hkeep.directory d h.directory, front, left, hnames, ?_⟩
  rw [start_congr rfl hkeep.current]
  exact hkeep.leads hway h.directory

/-- The name is the last one of the path. -/
theorem last_eq {last : Bytes} (h : fs.Names p d name) (hp : p.LastName last) : name = last := by
  obtain ⟨front, left, hnames, -⟩ := h.way
  obtain ⟨front', hnames'⟩ := hp.names
  rw [hnames] at hnames'
  exact List.singleton_inj.mp (List.append_inj' hnames' rfl).2

/-- The name is found, whether or not anything bears it. -/
theorem resolve (h : fs.Names p d name)
    (hfollow : ∀ target, fs.node? (d ++ [name]) = some (.link target) → follow = false) :
    fs.resolve follow p = .ok ⟨d ++ [name], fs.node? (d ++ [name]), true⟩ := by
  obtain ⟨front, left, hnames, hway⟩ := h.way
  rw [h.valid.resolve, hnames, hway.walk_append (List.cons_ne_nil name [])]
  exact walk_last h.directory h.plain hfollow

theorem existing {mode : Nat} {data : Bytes} (h : fs.Names p d name)
    (hnode : fs.node? (d ++ [name]) = some (.file mode data)) :
    fs.existing p = .ok (d ++ [name], .file mode data) := by
  rw [FileSystem.existing, h.resolve (by simp [hnode])]
  simp only [bind, Except.bind, hnode, h.file]
  rfl

theorem read {mode : Nat} {data : Bytes} (h : fs.Names p d name)
    (hnode : fs.node? (d ++ [name]) = some (.file mode data)) : fs.read p = .ok data := by
  rw [FileSystem.read, h.existing hnode]
  rfl

/-- What a path is found to lead to that ends in the name of a file is of that name, if it is no
link. -/
theorem of_lastName (h : fs.resolve follow p = .ok f) (hp : p.LastName name)
    (hlink : ∀ d target, fs.Names p d name → fs.node? (d ++ [name]) = some (.link target) →
      follow = false) :
    ∃ d, fs.Names p d name ∧ f = ⟨d ++ [name], fs.node? (d ++ [name]), true⟩ := by
  have hvalid := valid_of_resolve h
  obtain ⟨front, hnames⟩ := hp.names
  rw [hvalid.resolve, hnames] at h
  obtain ⟨left, d, hway, hlast⟩ := walk_append_ok h (List.cons_ne_nil name [])
  obtain ⟨hdir, hplain⟩ := walk_cons_ok hlast hp.file.not_dot hp.file.not_dotDot
  have hstands : fs.Names p d name :=
    ⟨hvalid, hp.asksForDirectory, hplain, hdir, front, left, hnames, hway⟩
  rw [walk_last hdir hplain fun target => hlink d target hstands] at hlast
  exact ⟨d, hstands, (Except.ok.inj hlast).symm⟩

/-- A path that is found to stand for a name ends in it. -/
theorem lastName_of_named (h : fs.resolve follow p = .ok f) (hnamed : f.named = true)
    (hfile : p.asksForDirectory = false) : ∃ name, p.LastName name := by
  have hvalid := valid_of_resolve h
  obtain ⟨front, name, hfront, hp, hslash⟩ := Path.exists_last p
  have hempty : name ≠ [] := by
    rintro rfl
    rw [List.append_nil] at hp
    subst hp
    rw [hfile, Bool.or_false] at hfront
    exact hvalid.not_empty (List.isEmpty_iff.mp hfront)
  have hnames : p.names = front.names ++ [name] := by
    rw [hp, Path.names_append hfront, Path.names_of_no_slash hempty hslash]
  rw [hvalid.resolve, hnames] at h
  obtain ⟨left, d, hway, hlast⟩ := walk_append_ok h (List.cons_ne_nil name [])
  have hdir : fs.node? d = some .directory := by
    by_contra hdir
    rw [walk, if_pos (by simpa using hdir)] at hlast
    cases hlast
  refine ⟨name, ⟨hempty, hslash, ?_, ?_, ?_⟩, front, hfront, hp⟩
  · rw [hp] at hvalid
    exact fun hnul => hvalid.no_nul (List.mem_append_right front hnul)
  · rintro rfl
    rw [walk_dot hdir, walk] at hlast
    cases hlast
    cases hnamed
  · rintro rfl
    rw [walk_dotDot hdir, walk] at hlast
    cases hlast
    cases hnamed

end Names

end FileSystem

end SelfExtract
