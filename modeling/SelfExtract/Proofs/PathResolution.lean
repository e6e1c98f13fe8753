import SelfExtract.FileSystem

/-!
# Where paths lead

`FileSystem.walk` follows names and stops at the first thing that is wrong.
`Leads` is the way of a walk that arrives: the directories and links that it
passes, and how many links may still be followed. Ways can be joined and cut,
and they remain when objects are added elsewhere.
-/
namespace SelfExtract

/-- An object that is no link. -/
def Node.IsObject (n : Node) : Prop :=
  ∀ target, n ≠ .link target

namespace FileSystem

/-- A name that is neither a dot nor two dots and is short enough for a directory. -/
structure PlainName (name : Bytes) : Prop where
  not_dot : name ≠ Path.dot
  not_dotDot : name ≠ Path.dotDot
  short : name.length ≤ maxName

/-- Where names lead from a location, with the links that may be followed before and after. -/
inductive Leads (fs : FileSystem) : Nat → Location → List Bytes → Nat → Location → Prop
  | here {links : Nat} {place : Location} : Leads fs links place [] links place
  | dot {links left : Nat} {place goal : Location} {rest : List Bytes} :
      fs.node? place = some .directory → Leads fs links place rest left goal →
      Leads fs links place (Path.dot :: rest) left goal
  | dotDot {links left : Nat} {place goal : Location} {rest : List Bytes} :
      fs.node? place = some .directory → Leads fs links place.dropLast rest left goal →
      Leads fs links place (Path.dotDot :: rest) left goal
  | link {links left : Nat} {place goal : Location} {name : Bytes} {rest : List Bytes}
      {target : Path} :
      fs.node? place = some .directory → PlainName name →
      fs.node? (place ++ [name]) = some (.link target) → target.isEmpty = false →
      Leads fs links (if target.isAbsolute then [] else place) (target.names ++ rest) left goal →
      Leads fs (links + 1) place (name :: rest) left goal
  | object {links left : Nat} {place goal : Location} {name : Bytes} {rest : List Bytes}
      {n : Node} :
      fs.node? place = some .directory → PlainName name →
      fs.node? (place ++ [name]) = some n → n.IsObject →
      Leads fs links (place ++ [name]) rest left goal →
      Leads fs links place (name :: rest) left goal

namespace Leads

variable {fs : FileSystem} {links left after : Nat} {place middle goal : Location}
  {names rest : List Bytes}

/-- A way that has a name to follow begins in a directory. -/
theorem directory {name : Bytes} (h : Leads fs links place (name :: rest) left goal) :
    fs.node? place = some .directory := by
  cases h <;> assumption

/-- A way to a directory begins in one. -/
theorem directory_of_goal (h : Leads fs links place names left goal)
    (hgoal : fs.node? goal = some .directory) : fs.node? place = some .directory := by
  cases names with
  | nil =>
    cases h
    exact hgoal
  | cons name rest => exact h.directory

/-- One way after the other. -/
theorem trans (h₁ : Leads fs links place names after middle)
    (h₂ : Leads fs after middle rest left goal) :
    Leads fs links place (names ++ rest) left goal := by
  induction h₁ with
  | here => exact h₂
  | dot hdir _ ih => exact .dot hdir (ih h₂)
  | dotDot hdir _ ih => exact .dotDot hdir (ih h₂)
  | link hdir hname hnode hne _ ih =>
    have hrest := ih h₂
    rw [List.append_assoc] at hrest
    exact .link hdir hname hnode hne hrest
  | object hdir hname hnode hobj _ ih => exact .object hdir hname hnode hobj (ih h₂)

/-- A way passes the place to which its first names lead. -/
theorem split (h : Leads fs links place (names ++ rest) left goal) :
    ∃ after middle, Leads fs links place names after middle ∧
      Leads fs after middle rest left goal := by
  generalize hall : names ++ rest = all at h
  induction h generalizing names with
  | here =>
    obtain ⟨rfl, rfl⟩ := List.append_eq_nil_iff.mp hall
    exact ⟨_, _, .here, .here⟩
  | dot hdir h ih =>
    cases names with
    | nil =>
      obtain rfl : rest = _ := hall
      exact ⟨_, _, .here, .dot hdir h⟩
    | cons name names =>
      obtain ⟨rfl, hrest⟩ := List.cons.inj hall
      obtain ⟨after, middle, h₁, h₂⟩ := ih hrest
      exact ⟨after, middle, .dot hdir h₁, h₂⟩
  | dotDot hdir h ih =>
    cases names with
    | nil =>
      obtain rfl : rest = _ := hall
      exact ⟨_, _, .here, .dotDot hdir h⟩
    | cons name names =>
      obtain ⟨rfl, hrest⟩ := List.cons.inj hall
      obtain ⟨after, middle, h₁, h₂⟩ := ih hrest
      exact ⟨after, middle, .dotDot hdir h₁, h₂⟩
  | link hdir hname hnode hne h ih =>
    cases names with
    | nil =>
      obtain rfl : rest = _ := hall
      exact ⟨_, _, .here, .link hdir hname hnode hne h⟩
    | cons name names =>
      obtain ⟨rfl, hrest⟩ := List.cons.inj hall
      obtain ⟨after, middle, h₁, h₂⟩ := ih (by rw [List.append_assoc]; exact congrArg _ hrest)
      exact ⟨after, middle, .link hdir hname hnode hne h₁, h₂⟩
  | object hdir hname hnode hobj h ih =>
    cases names with
    | nil =>
      obtain rfl : rest = _ := hall
      exact ⟨_, _, .here, .object hdir hname hnode hobj h⟩
    | cons name names =>
      obtain ⟨rfl, hrest⟩ := List.cons.inj hall
      obtain ⟨after, middle, h₁, h₂⟩ := ih hrest
      exact ⟨after, middle, .object hdir hname hnode hobj h₁, h₂⟩

/-- More links may be followed than a way needs. -/
theorem add_links (h : Leads fs links place names left goal) (more : Nat) :
    Leads fs (links + more) place names (left + more) goal := by
  induction h with
  | here => exact .here
  | dot hdir _ ih => exact .dot hdir ih
  | dotDot hdir _ ih => exact .dotDot hdir ih
  | link hdir hname hnode hne _ ih =>
    rw [Nat.add_right_comm]
    exact .link hdir hname hnode hne ih
  | object hdir hname hnode hobj _ ih => exact .object hdir hname hnode hobj ih

theorem left_le (h : Leads fs links place names left goal) : left ≤ links := by
  induction h with
  | here => exact Nat.le_refl _
  | dot _ _ ih => exact ih
  | dotDot _ _ ih => exact ih
  | link _ _ _ _ _ ih => exact Nat.le_succ_of_le ih
  | object _ _ _ _ _ ih => exact ih

end Leads

/-- The last step of a walk that arrives, and the steps before it. -/
theorem walk_induction {fs : FileSystem} {follow : Bool} {f : Found}
    {P : Nat → Location → List Bytes → Prop}
    (here : ∀ links place, f = ⟨place, fs.node? place, false⟩ → P links place [])
    (dot : ∀ links place rest, fs.node? place = some .directory → P links place rest →
      P links place (Path.dot :: rest))
    (dotDot : ∀ links place rest, fs.node? place = some .directory →
      P links place.dropLast rest → P links place (Path.dotDot :: rest))
    (last : ∀ links place name, fs.node? place = some .directory → PlainName name →
      (∀ target, fs.node? (place ++ [name]) = some (.link target) → follow = false) →
      f = ⟨place ++ [name], fs.node? (place ++ [name]), true⟩ → P links place [name])
    (link : ∀ links place name rest target, fs.node? place = some .directory → PlainName name →
      fs.node? (place ++ [name]) = some (.link target) → target.isEmpty = false →
      (rest = [] → follow = true) →
      P links (if target.isAbsolute then [] else place) (target.names ++ rest) →
      P (links + 1) place (name :: rest))
    (object : ∀ links place name rest n, fs.node? place = some .directory → PlainName name →
      fs.node? (place ++ [name]) = some n → n.IsObject → rest ≠ [] →
      P links (place ++ [name]) rest → P links place (name :: rest))
    {links : Nat} {place : Location} {names : List Bytes}
    (h : fs.walk follow links place names = .ok f) : P links place names := by
  fun_induction walk fs follow links place names with
  | case1 links place =>
    cases h
    exact here links place rfl
  | case2 => cases h
  | case3 links place rest hdir ih => exact dot links place rest (by simpa using hdir) (ih h)
  | case4 links place rest hdir _ ih =>
    exact dotDot links place rest (by simpa using hdir) (ih h)
  | case5 => cases h
  | case6 links place name rest hdir hdot hdots hlen there hnode hrest =>
    cases h
    obtain rfl : rest = [] := by simpa using hrest
    have hnone : fs.node? (place ++ [name]) = none := hnode
    refine last links place name (by simpa using hdir) ⟨hdot, hdots, Nat.le_of_not_lt hlen⟩ ?_ ?_
    · intro target ht
      rw [hnone] at ht
      cases ht
    · rw [hnone]
  | case7 => cases h
  | case8 links place name rest hdir hdot hdots hlen there target hnode hrest =>
    cases h
    rw [Bool.and_eq_true, Bool.not_eq_true'] at hrest
    obtain rfl : rest = [] := by simpa using hrest.1
    have hlink : fs.node? (place ++ [name]) = some (.link target) := hnode
    refine last links place name (by simpa using hdir) ⟨hdot, hdots, Nat.le_of_not_lt hlen⟩ ?_ ?_
    · exact fun _ _ => hrest.2
    · rw [hlink]
  | case9 => cases h
  | case10 => cases h
  | case11 place name rest hdir hdot hdots hlen there target hnode hrest hne links ih =>
    refine link links place name rest target (by simpa using hdir)
      ⟨hdot, hdots, Nat.le_of_not_lt hlen⟩ hnode (by simpa using hne) ?_ (ih h)
    rintro rfl
    simpa using hrest
  | case12 links place name rest hdir hdot hdots hlen there n hlink hnode hrest =>
    cases h
    obtain rfl : rest = [] := by simpa using hrest
    have hsome : fs.node? (place ++ [name]) = some n := hnode
    refine last links place name (by simpa using hdir) ⟨hdot, hdots, Nat.le_of_not_lt hlen⟩ ?_ ?_
    · intro target ht
      rw [hsome] at ht
      exact absurd (Option.some.inj ht) (hlink target)
    · rw [hsome]
  | case13 links place name rest hdir hdot hdots hlen there n hlink hnode hrest ih =>
    exact object links place name rest n (by simpa using hdir)
      ⟨hdot, hdots, Nat.le_of_not_lt hlen⟩ hnode hlink (by simpa using hrest) (ih h)

section Steps

variable {fs : FileSystem} {follow : Bool} {links : Nat} {place : Location} {name : Bytes}
  {rest : List Bytes}

theorem walk_dot (hdir : fs.node? place = some .directory) :
    fs.walk follow links place (Path.dot :: rest) = fs.walk follow links place rest := by
  rw [walk]
  simp [hdir]

theorem walk_dotDot (hdir : fs.node? place = some .directory) :
    fs.walk follow links place (Path.dotDot :: rest) =
      fs.walk follow links place.dropLast rest := by
  have hne : Path.dotDot ≠ Path.dot := by decide
  rw [walk]
  simp [hdir, hne]

theorem walk_link {target : Path} (hdir : fs.node? place = some .directory)
    (hname : PlainName name) (hnode : fs.node? (place ++ [name]) = some (.link target))
    (hne : target.isEmpty = false) (hrest : rest = [] → follow = true) :
    fs.walk follow (links + 1) place (name :: rest) =
      fs.walk follow links (if target.isAbsolute then [] else place) (target.names ++ rest) := by
  have hgo : (rest.isEmpty && !follow) = false := by
    cases rest with
    | nil => rw [hrest rfl]; rfl
    | cons => rfl
  rw [walk]
  simp [hdir, hname.not_dot, hname.not_dotDot, Nat.not_lt_of_le hname.short, hnode, hgo, hne]

theorem walk_object {n : Node} (hdir : fs.node? place = some .directory) (hname : PlainName name)
    (hnode : fs.node? (place ++ [name]) = some n) (hobj : n.IsObject) :
    fs.walk follow links place (name :: rest) =
      if rest.isEmpty then .ok ⟨place ++ [name], some n, true⟩
      else fs.walk follow links (place ++ [name]) rest := by
  rw [walk]
  cases n with
  | link target => exact absurd rfl (hobj target)
  | directory =>
    simp [hdir, hname.not_dot, hname.not_dotDot, Nat.not_lt_of_le hname.short, hnode]
  | file mode data =>
    simp [hdir, hname.not_dot, hname.not_dotDot, Nat.not_lt_of_le hname.short, hnode]

/-- A last name is not followed further unless it is a link and links are followed. -/
theorem walk_last (hdir : fs.node? place = some .directory) (hname : PlainName name)
    (hlink : ∀ target, fs.node? (place ++ [name]) = some (.link target) → follow = false) :
    fs.walk follow links place [name] = .ok ⟨place ++ [name], fs.node? (place ++ [name]), true⟩ := by
  rw [walk]
  cases hnode : fs.node? (place ++ [name]) with
  | none => simp [hdir, hname.not_dot, hname.not_dotDot, Nat.not_lt_of_le hname.short, hnode]
  | some n =>
    cases n with
    | link target =>
      simp [hdir, hname.not_dot, hname.not_dotDot, Nat.not_lt_of_le hname.short, hnode,
        hlink target hnode]
    | directory =>
      simp [hdir, hname.not_dot, hname.not_dotDot, Nat.not_lt_of_le hname.short, hnode]
    | file mode data =>
      simp [hdir, hname.not_dot, hname.not_dotDot, Nat.not_lt_of_le hname.short, hnode]

theorem walk_long (hdir : fs.node? place = some .directory) (hdot : name ≠ Path.dot)
    (hdots : name ≠ Path.dotDot) (hlong : maxName < name.length) :
    fs.walk follow links place (name :: rest) = .error .nameTooLong := by
  rw [walk]
  simp [hdir, hdot, hdots, hlong]

theorem walk_missing (hdir : fs.node? place = some .directory) (hname : PlainName name)
    (hnode : fs.node? (place ++ [name]) = none) (hrest : rest ≠ []) :
    fs.walk follow links place (name :: rest) = .error .notFound := by
  rw [walk]
  simp [hdir, hname.not_dot, hname.not_dotDot, Nat.not_lt_of_le hname.short, hnode, hrest]

end Steps

/-- A walk tells what stands where it arrives. -/
theorem walk_node {fs : FileSystem} {follow : Bool} {links : Nat} {place : Location}
    {names : List Bytes} {f : Found} (h : fs.walk follow links place names = .ok f) :
    f.node = fs.node? f.location := by
  refine walk_induction (P := fun _ _ _ => f.node = fs.node? f.location)
    ?_ ?_ ?_ ?_ ?_ ?_ h
  · rintro _ _ rfl
    rfl
  · exact fun _ _ _ _ ih => ih
  · exact fun _ _ _ _ ih => ih
  · rintro _ _ _ _ _ _ rfl
    rfl
  · exact fun _ _ _ _ _ _ _ _ _ _ ih => ih
  · exact fun _ _ _ _ _ _ _ _ _ _ ih => ih

/-- All objects of one file system are in the other, which may have more. -/
structure Extends (fs fs' : FileSystem) : Prop where
  current : fs'.current = fs.current
  keeps : ∀ l n, fs.node? l = some n → fs'.node? l = some n

theorem Extends.refl (fs : FileSystem) : fs.Extends fs :=
  ⟨rfl, fun _ _ h => h⟩

/-- An object that is there before and after is the same. -/
theorem Extends.node_eq {fs fs' : FileSystem} {l : Location} {m n : Node} (h : fs.Extends fs')
    (hold : fs.node? l = some m) (hnew : fs'.node? l = some n) : m = n :=
  Option.some.inj ((h.keeps l m hold).symm.trans hnew)

/-- Ways remain when objects are added. -/
theorem Leads.mono {fs fs' : FileSystem} (hext : fs.Extends fs') {links left : Nat}
    {place goal : Location} {names : List Bytes} (h : Leads fs links place names left goal) :
    Leads fs' links place names left goal := by
  induction h with
  | here => exact .here
  | dot hdir _ ih => exact .dot (hext.keeps _ _ hdir) ih
  | dotDot hdir _ ih => exact .dotDot (hext.keeps _ _ hdir) ih
  | link hdir hname hnode hne _ ih =>
    exact .link (hext.keeps _ _ hdir) hname (hext.keeps _ _ hnode) hne ih
  | object hdir hname hnode hobj _ ih =>
    exact .object (hext.keeps _ _ hdir) hname (hext.keeps _ _ hnode) hobj ih

/-- Where a walk arrives there is a way as soon as an object is there. -/
theorem leads_of_walk {fs fs' : FileSystem} {follow : Bool} {links : Nat} {place : Location}
    {names : List Bytes} {f : Found} {n : Node} (h : fs.walk follow links place names = .ok f)
    (hext : fs.Extends fs') (hn : fs'.node? f.location = some n)
    (hlink : ∀ target, n = .link target → follow = true ∧ fs.node? f.location = some n) :
    ∃ left, Leads fs' links place names left f.location := by
  refine walk_induction
    (P := fun links place names => ∃ left, Leads fs' links place names left f.location)
    ?_ ?_ ?_ ?_ ?_ ?_ h
  · rintro links place rfl
    exact ⟨links, .here⟩
  · rintro links place rest hdir ⟨left, h⟩
    exact ⟨left, .dot (hext.keeps _ _ hdir) h⟩
  · rintro links place rest hdir ⟨left, h⟩
    exact ⟨left, .dotDot (hext.keeps _ _ hdir) h⟩
  · rintro links place name hdir hname hfollow rfl
    have hobj : n.IsObject := by
      rintro target rfl
      obtain ⟨htrue, hnode⟩ := hlink target rfl
      rw [hfollow target hnode] at htrue
      cases htrue
    exact ⟨links, .object (hext.keeps _ _ hdir) hname hn hobj .here⟩
  · rintro links place name rest target hdir hname hnode hne _ ⟨left, h⟩
    exact ⟨left, .link (hext.keeps _ _ hdir) hname (hext.keeps _ _ hnode) hne h⟩
  · rintro links place name rest n hdir hname hnode hobj _ ⟨left, h⟩
    exact ⟨left, .object (hext.keeps _ _ hdir) hname (hext.keeps _ _ hnode) hobj h⟩

namespace Leads

variable {fs : FileSystem} {links left : Nat} {place goal : Location} {names rest : List Bytes}

/-- A walk that follows links arrives where the way leads. -/
theorem walk_eq (h : Leads fs links place names left goal) :
    ∃ named, fs.walk true links place names = .ok ⟨goal, fs.node? goal, named⟩ := by
  induction h with
  | here => exact ⟨false, by rw [walk]⟩
  | dot hdir _ ih => rw [walk_dot hdir]; exact ih
  | dotDot hdir _ ih => rw [walk_dotDot hdir]; exact ih
  | link hdir hname hnode hne _ ih =>
    rw [walk_link hdir hname hnode hne fun _ => rfl]
    exact ih
  | object hdir hname hnode hobj h ih =>
    rw [walk_object hdir hname hnode hobj]
    split
    · next hrest =>
      rw [List.isEmpty_iff.mp hrest] at h
      cases h
      exact ⟨true, by rw [hnode]⟩
    · exact ih

/-- A way leads to one place. -/
theorem unique {after : Nat} {goal' : Location} (h : Leads fs links place names left goal)
    (h' : Leads fs links place names after goal') : goal = goal' := by
  obtain ⟨named, hwalk⟩ := h.walk_eq
  obtain ⟨named', hwalk'⟩ := h'.walk_eq
  rw [hwalk] at hwalk'
  exact congrArg Found.location (Except.ok.inj hwalk')

/-- Dots on a way may be left out. -/
theorem without_dots (front : List Bytes)
    (h : Leads fs links place (front ++ names) left goal) :
    Leads fs links place (front ++ names.filter (· != Path.dot)) left goal := by
  induction names generalizing front with
  | nil => exact h
  | cons name rest ih =>
    by_cases hdot : name = Path.dot
    · subst hdot
      rw [List.filter_cons_of_neg (by simp)]
      obtain ⟨after, middle, hfirst, hlast⟩ := h.split
      cases hlast with
      | dot _ hrest => exact ih front (hfirst.trans hrest)
      | link _ hname => exact absurd rfl hname.not_dot
      | object _ hname => exact absurd rfl hname.not_dot
    · rw [List.filter_cons_of_pos (by simpa using hdot), List.append_cons]
      rw [List.append_cons] at h
      exact ih _ h

/-- Dots may be put in wherever another name comes after them. -/
theorem with_dots (front : List Bytes) (hlast : names.getLast? ≠ some Path.dot)
    (h : Leads fs links place (front ++ names.filter (· != Path.dot)) left goal) :
    Leads fs links place (front ++ names) left goal := by
  induction names generalizing front with
  | nil => exact h
  | cons name rest ih =>
    by_cases hdot : name = Path.dot
    · subst hdot
      rw [List.filter_cons_of_neg (by simp)] at h
      cases rest with
      | nil => exact absurd rfl hlast
      | cons next rest =>
        -- the name behind the dot begins in a directory, so that the dot stays there
        obtain ⟨after, middle, hfirst, hnext⟩ := (ih front hlast h).split
        exact hfirst.trans (.dot hnext.directory hnext)
    · rw [List.filter_cons_of_pos (by simpa using hdot), List.append_cons] at h
      rw [List.append_cons]
      refine ih _ (fun hrest => hlast ?_) h
      rw [List.getLast?_cons, hrest]
      rfl

/-- A walk goes on from where the way of its first names leads. -/
theorem walk_append {follow : Bool} (h : Leads fs links place names left goal) (hne : rest ≠ []) :
    fs.walk follow links place (names ++ rest) = fs.walk follow left goal rest := by
  have hlast : ∀ ns : List Bytes, ns ++ rest = [] → follow = true := by
    intro ns hns
    exact absurd (List.append_eq_nil_iff.mp hns).2 hne
  induction h with
  | here => rfl
  | dot hdir _ ih => rw [List.cons_append, walk_dot hdir, ih]
  | dotDot hdir _ ih => rw [List.cons_append, walk_dotDot hdir, ih]
  | link hdir hname hnode hempty _ ih =>
    rw [List.cons_append, walk_link hdir hname hnode hempty (hlast _), ← List.append_assoc, ih]
  | object hdir hname hnode hobj _ ih =>
    rw [List.cons_append, walk_object hdir hname hnode hobj, if_neg (by simp [hne]), ih]

end Leads

end FileSystem

end SelfExtract
