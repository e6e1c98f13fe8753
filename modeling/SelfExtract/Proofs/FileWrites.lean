import SelfExtract.Proofs.Directories
import SelfExtract.Proofs.NamedFiles
import SelfExtract.Proofs.Steps

/-!
# Writing a file while others write theirs

Making directories and replacing a file keep all directories and links, and
change nothing else but the files that their paths name. For that they rely on
little: others have to leave alone the temporary file, and no link may stand
where the files are to be.
-/
namespace SelfExtract

namespace FileSystem

variable {fs fs' fs₁ fs₂ : FileSystem} {follow : Bool} {p q : Path} {d l : Location}
  {name temp : Bytes} {f : Found} {mode : Nat} {data : Bytes}

section Changes

theorem AddsDirectories.keepsTree {paths : List Path} (h : fs.AddsDirectories fs₁ paths) :
    fs.KeepsTree fs₁ where
  current := h.current
  directory l hl := h.grows.keeps l _ hl
  link l target := by
    rcases h.node l with hl | ⟨hnone, hdir, -⟩
    · rw [hl]
    · rw [hnone, hdir]
      exact iff_of_false nofun nofun

/-- Whatever directories are added, no link has the name of which a path ends. -/
def Unlinked (fs : FileSystem) (p : Path) : Prop :=
  ∀ fs' d name target, fs.KeepsTree fs' → fs'.Names p d name →
    fs.node? (d ++ [name]) ≠ some (.link target)

theorem Unlinked.keep (h : fs.Unlinked p) (hkeep : fs.KeepsTree fs') : fs'.Unlinked p := by
  intro fs₁ d name target hkeep₁ hnames hnode
  exact h fs₁ d name target (hkeep.trans hkeep₁) hnames ((hkeep.link _ _).mp hnode)

/-- What others may do: directories and links stay, and so do the files of some names. -/
structure Leaves (fs : FileSystem) (own : Bytes → Prop) (fs' : FileSystem) : Prop where
  keeps : fs.KeepsTree fs'
  file : ∀ d name mode data, own name → fs.node? (d ++ [name]) = some (.file mode data) →
    fs'.node? (d ++ [name]) = some (.file mode data)

theorem Leaves.refl (fs : FileSystem) (own : Bytes → Prop) : fs.Leaves own fs :=
  ⟨.refl fs, fun _ _ _ _ _ h => h⟩

/-- A process that is alone finds everything as it was. -/
theorem leaves_of_eq (fs fs' : FileSystem) (h : fs = fs') : fs.Leaves (fun _ => True) fs' :=
  h ▸ .refl fs _

theorem Leaves.trans {own : Bytes → Prop} (h : fs.Leaves own fs₁) (h' : fs₁.Leaves own fs₂) :
    fs.Leaves own fs₂ :=
  ⟨h.keeps.trans h'.keeps, fun d name mode data hown hnode =>
    h'.file d name mode data hown (h.file d name mode data hown hnode)⟩

/-- What a process may do in one step: directories are added, and what some paths name becomes what
it may become. -/
structure Writes (fs : FileSystem) (may : Path → Option Node → Prop) (fs' : FileSystem) : Prop where
  keeps : fs.KeepsTree fs'
  change : ∀ l, fs'.node? l = fs.node? l ∨ fs.node? l = none ∧ fs'.node? l = some .directory ∨
    ∃ p d name, fs'.Names p d name ∧ l = d ++ [name] ∧ may p (fs'.node? l)

namespace Writes

variable {may may' : Path → Option Node → Prop}

theorem refl (fs : FileSystem) (may : Path → Option Node → Prop) : fs.Writes may fs :=
  ⟨.refl fs, fun _ => .inl rfl⟩

theorem mono (h : fs.Writes may fs₁) (hmay : ∀ p o, may p o → may' p o) : fs.Writes may' fs₁ := by
  refine ⟨h.keeps, fun l => ?_⟩
  rcases h.change l with hl | hl | ⟨p, d, name, hnames, hl, ho⟩
  · exact .inl hl
  · exact .inr (.inl hl)
  · exact .inr (.inr ⟨p, d, name, hnames, hl, hmay p _ ho⟩)

theorem of_adds {paths : List Path} (h : fs.AddsDirectories fs₁ paths) : fs.Writes may fs₁ := by
  refine ⟨h.keepsTree, fun l => ?_⟩
  rcases h.node l with hl | ⟨hnone, hdir, -⟩
  · exact .inl hl
  · exact .inr (.inl ⟨hnone, hdir⟩)

/-- One file comes or goes, or is another one. -/
theorem of_with {o : Option Node} (hnames : fs.Names p d name) (h : fs.With fs₁ (d ++ [name]) o)
    (hold : Free (fs.node? (d ++ [name]))) (hnew : Free o) (hmay : may p o) :
    fs.Writes may fs₁ := by
  have hkeep := h.keepsTree hold hnew
  refine ⟨hkeep, fun l => ?_⟩
  by_cases hl : l = d ++ [name]
  · subst hl
    exact .inr (.inr ⟨p, d, name, hnames.keep hkeep, rfl, by rwa [h.self]⟩)
  · exact .inl (h.other hl)

/-- One file goes and another one comes. -/
theorem of_moved {t : Location} {o : Option Node} (hnames : fs.Names p d name)
    (h : fs.With fs₁ (d ++ [name]) none) (hold : Free (fs.node? (d ++ [name])))
    (hmay : may p none) (hnames' : fs.Names q t temp) (h' : fs₁.With fs₂ (t ++ [temp]) o)
    (hold' : Free (fs₁.node? (t ++ [temp]))) (hnew : Free o) (hmay' : may q o) :
    fs.Writes may fs₂ := by
  have hkeep := h.keepsTree hold free_none
  have hkeep' := hkeep.trans (h'.keepsTree hold' hnew)
  refine ⟨hkeep', fun l => ?_⟩
  by_cases hl' : l = t ++ [temp]
  · subst hl'
    exact .inr (.inr ⟨q, t, temp, hnames'.keep hkeep', rfl, by rwa [h'.self]⟩)
  · by_cases hl : l = d ++ [name]
    · subst hl
      refine .inr (.inr ⟨p, d, name, hnames.keep hkeep', rfl, ?_⟩)
      rwa [h'.other hl', h.self]
    · exact .inl (by rw [h'.other hl', h.other hl])

/-- Files of other names stay. -/
theorem leaves {own : Bytes → Prop} (h : fs.Writes may fs₁)
    (hother : ∀ p o name, may p o → p.LastName name → ¬own name)
    (hlast : ∀ p o, may p o → ∃ name, p.LastName name) : fs.Leaves own fs₁ := by
  refine ⟨h.keeps, fun d name mode data hown hnode => ?_⟩
  rcases h.change (d ++ [name]) with hl | ⟨hnone, -⟩ | ⟨p, d', name', hnames, hl, hmay⟩
  · rw [hl, hnode]
  · rw [hnode] at hnone
    cases hnone
  · obtain ⟨last, hp⟩ := hlast p _ hmay
    obtain rfl := List.singleton_inj.mp (List.append_inj' hl rfl).2
    obtain rfl := hnames.last_eq hp
    exact absurd hown (hother p _ _ hmay hp)

end Writes

/-- What any number of steps leaves: files that were there before, and files that some paths name
and that hold what they may. -/
structure Keeps (fs : FileSystem) (may : Path → Option Node → Prop) (fs' : FileSystem) : Prop where
  keeps : fs.KeepsTree fs'
  file : ∀ l mode data, fs'.node? l = some (.file mode data) →
    fs.node? l = some (.file mode data) ∨
      ∃ p d name, fs'.Names p d name ∧ l = d ++ [name] ∧ may p (some (.file mode data))

namespace Keeps

variable {may may' : Path → Option Node → Prop}

theorem refl (fs : FileSystem) (may : Path → Option Node → Prop) : fs.Keeps may fs :=
  ⟨.refl fs, fun _ _ _ h => .inl h⟩

theorem step (h : fs.Keeps may fs₁) (hwrites : fs₁.Writes may' fs₂)
    (hmay : ∀ p o, may' p o → may p o) : fs.Keeps may fs₂ := by
  refine ⟨h.keeps.trans hwrites.keeps, fun l mode data hnode => ?_⟩
  rcases hwrites.change l with hl | ⟨-, hdir⟩ | ⟨p, d, name, hnames, hl, ho⟩
  · rw [hl] at hnode
    rcases h.file l mode data hnode with hold | ⟨p, d, name, hnames, hl, ho⟩
    · exact .inl hold
    · exact .inr ⟨p, d, name, hnames.keep hwrites.keeps, hl, ho⟩
  · rw [hdir] at hnode
    cases hnode
  · rw [hnode] at ho
    exact .inr ⟨p, d, name, hnames, hl, hmay p _ ho⟩

end Keeps

end Changes

section Calls

/-- An object that is found bears the name in which its path ends. -/
theorem existing_ok {n : Node} (h : fs.existing p = .ok (l, n)) (hp : p.LastName name)
    (hlinks : fs.Unlinked p) : ∃ d, fs.Names p d name ∧ l = d ++ [name] ∧ fs.node? l = some n := by
  have hnode := (existing_eq_ok_iff.mp h).node
  obtain ⟨f, hf, h⟩ := bind_eq_ok.mp h
  obtain ⟨d, hnames, rfl⟩ := Names.of_lastName hf hp fun d target hnames hnode =>
    absurd hnode (hlinks fs d name target (.refl fs) hnames)
  refine ⟨d, hnames, ?_, hnode⟩
  cases hn : fs.node? (d ++ [name]) with
  | none =>
    simp only [hn] at h
    cases h
  | some m =>
    simp only [hn, hp.asksForDirectory] at h
    cases h
    rfl

/-- Opening a file that is written from its beginning. -/
theorem create_ok (h : fs.create p mode = .ok (l, fs')) (hp : p.LastName name)
    (hlinks : fs.Unlinked p) : ∃ d m, fs.Names p d name ∧ l = d ++ [name] ∧
      Free (fs.node? l) ∧ fs.With fs' l (some (.file m [])) := by
  obtain ⟨f, hf, h⟩ := bind_eq_ok.mp h
  obtain ⟨d, hnames, rfl⟩ := Names.of_lastName hf hp fun d target hnames hnode =>
    absurd hnode (hlinks fs d name target (.refl fs) hnames)
  have hput := fun m => (With.refl fs (d ++ [name])).put (List.concat_ne_nil name d) (.file m [])
  cases hnode : fs.node? (d ++ [name]) with
  | none =>
    simp only [hnode, hp.asksForDirectory] at h
    cases h
    exact ⟨d, _, hnames, rfl, by rw [hnode]; exact free_none, hput _⟩
  | some n =>
    cases n with
    | directory =>
      simp only [hnode] at h
      cases h
    | link target => exact absurd hnode (hlinks fs d name target (.refl fs) hnames)
    | file old content =>
      simp only [hnode, hp.asksForDirectory] at h
      cases h
      exact ⟨d, _, hnames, rfl, by rw [hnode]; exact free_file old content, hput _⟩

theorem unlink_ok (h : fs.unlink p = .ok fs') (hp : p.LastName name) (hlinks : fs.Unlinked p) :
    ∃ d, fs.Names p d name ∧ Free (fs.node? (d ++ [name])) ∧
      fs.With fs' (d ++ [name]) none := by
  obtain ⟨f, hf, h⟩ := bind_eq_ok.mp h
  obtain ⟨d, hnames, rfl⟩ := Names.of_lastName hf hp fun _ _ _ _ => rfl
  cases hnode : fs.node? (d ++ [name]) with
  | none =>
    simp only [hnode] at h
    cases h
  | some n =>
    cases n with
    | directory =>
      simp only [hnode] at h
      cases h
    | link target => exact absurd hnode (hlinks fs d name target (.refl fs) hnames)
    | file old content =>
      simp only [hnode, hp.asksForDirectory] at h
      cases h
      exact ⟨d, hnames, by rw [hnode]; exact free_file old content,
        (With.refl fs (d ++ [name])).erase (List.concat_ne_nil name d)⟩

/-- A file that is moved is at the target and no longer at its old place. -/
theorem rename_ok (h : fs.rename q p = .ok fs') (hq : fs.Names q l temp)
    (hfile : fs.node? (l ++ [temp]) = some (.file mode data)) (hp : p.LastName name)
    (hlinks : fs.Unlinked p) : ∃ d, fs.Names p d name ∧ Free (fs.node? (d ++ [name])) ∧
      fs' = (fs.erase (l ++ [temp])).put (d ++ [name]) (.file mode data) := by
  obtain ⟨s, hs, h⟩ := bind_eq_ok.mp h
  rw [hq.resolve fun _ _ => rfl] at hs
  cases hs
  obtain ⟨t, ht, h⟩ := bind_eq_ok.mp h
  obtain ⟨d, hnames, rfl⟩ := Names.of_lastName ht hp fun _ _ _ _ => rfl
  simp only [hfile, hq.file, hp.asksForDirectory] at h
  by_cases hdir : fs.node? (d ++ [name]) = some .directory
  · rw [hdir] at h
    cases h
  · have hmoved : Except.ok ((fs.erase (l ++ [temp])).put (d ++ [name]) (.file mode data)) =
        (.ok fs' : Except IoError FileSystem) := by
      simpa [hdir, pure, Except.pure] using h
    refine ⟨d, hnames, ⟨hdir, fun target => hlinks fs d name target (.refl fs) hnames⟩, ?_⟩
    exact (Except.ok.inj hmoved).symm

end Calls

def HasFile (fs : FileSystem) (p : Path) (name : Bytes) (mode : Nat) (data : Bytes) : Prop :=
  ∃ d, fs.Names p d name ∧ fs.node? (d ++ [name]) = some (.file mode data)

theorem HasFile.leave {own : Bytes → Prop} (h : fs.HasFile p name mode data)
    (hleaves : fs.Leaves own fs') (hown : own name) : fs'.HasFile p name mode data := by
  obtain ⟨d, hnames, hnode⟩ := h
  exact ⟨d, hnames.keep hleaves.keeps, hleaves.file d name mode data hown hnode⟩

theorem HasFile.read (h : fs.HasFile p name mode data) : fs.read p = .ok data := by
  obtain ⟨d, hnames, hnode⟩ := h
  exact hnames.read hnode

/-- The temporary file of a write, as far as it has come. -/
structure Drafts (fs : FileSystem) (p q : Path) (l : Location) (temp : Bytes) (mode : Nat)
    (data : Bytes) : Prop where
  target : fs.Unlinked p
  source : fs.Unlinked q
  names : fs.Names q l temp
  node : fs.node? (l ++ [temp]) = some (.file mode data)

namespace Drafts

theorem leave {own : Bytes → Prop} (h : fs.Drafts p q l temp mode data)
    (hleaves : fs.Leaves own fs') (hown : own temp) : fs'.Drafts p q l temp mode data where
  target := h.target.keep hleaves.keeps
  source := h.source.keep hleaves.keeps
  names := h.names.keep hleaves.keeps
  node := hleaves.file l temp mode data hown h.node

theorem free (h : fs.Drafts p q l temp mode data) : Free (fs.node? (l ++ [temp])) := by
  rw [h.node]
  exact free_file mode data

/-- It gets another mode or content. -/
theorem put {may : Path → Option Node → Prop} (h : fs.Drafts p q l temp mode data)
    (hmay : ∀ o, may q o) (mode' : Nat) (data' : Bytes) :
    fs.Writes may (fs.put (l ++ [temp]) (.file mode' data')) ∧
      (fs.put (l ++ [temp]) (.file mode' data')).Drafts p q l temp mode' data' := by
  have hwith := (With.refl fs (l ++ [temp])).put (List.concat_ne_nil temp l) (.file mode' data')
  have hkeep := hwith.keepsTree h.free (free_file mode' data')
  exact ⟨.of_with h.names hwith h.free (free_file mode' data') (hmay _),
    h.target.keep hkeep, h.source.keep hkeep, h.names.keep hkeep, hwith.self⟩

end Drafts

end FileSystem

namespace Proc

open FileSystem

variable {rely : FileSystem → FileSystem → Prop} {may : Path → Option Node → Prop}
  {own : Bytes → Prop} {fs : FileSystem} {p : Path} {name : Bytes}

/-- A call that changes nothing, and whose reply does not matter. -/
theorem assures_look {c : Call} (hc : c.isAppend = false)
    (hsame : ∀ fs : FileSystem, (fs.perform c).2 = fs) (fs : FileSystem) :
    Assures rely Eq (fun _ _ => True) (call c) fs :=
  .call hc (fun _ => rfl) (fun fs₁ _ => ⟨(hsame fs₁).symm, trivial⟩) fun _ _ _ => trivial

/-- What a process learns from such a call when it is alone. -/
theorem assures_look_alone {c : Call} (hc : c.isAppend = false)
    (hsame : ∀ fs : FileSystem, (fs.perform c).2 = fs) (fs : FileSystem) :
    Assures Eq Eq (fun r fs' => fs = fs' ∧ (r = (fs.perform c).1 ∨ ∃ e, r = c.failed e))
      (call c) fs := by
  refine .call hc (fun _ => rfl) ?_ ?_
  · rintro _ rfl
    exact ⟨(hsame fs).symm, (hsame fs).symm, .inl rfl⟩
  · rintro _ e rfl
    exact ⟨rfl, .inr ⟨e, rfl⟩⟩

theorem assures_makeDirectoriesIn (paths : List Path) (fs : FileSystem) :
    Assures rely (·.Writes may ·) (fun _ _ => True) (makeDirectoriesIn paths) fs := by
  have hmake : ∀ p fs, Assures rely (·.Writes may ·) (fun _ _ => True)
      (call (.makeDirectory p)) fs := fun p fs =>
    .call rfl (.refl · may) (fun fs₁ _ => ⟨.of_adds (perform_makeDirectory fs₁ p).adds, trivial⟩)
      fun _ _ _ => trivial
  have hask : ∀ p e fs, Assures rely (·.Writes may ·) (fun _ _ => True)
      (do return if ← call (.isDirectory p) then .ok () else .error e :
        Proc (Except IoError Unit)) fs := fun p e fs =>
    .bind ((assures_look rfl (fun _ => rfl) fs).weaken_guarantee fun _ _ h => h ▸ .refl _ may)
      fun _ _ _ => .pure trivial
  induction paths generalizing fs with
  | nil => exact .pure trivial
  | cons p above ih =>
    rw [makeDirectoriesIn]
    refine (hmake p fs).bind fun r fs _ => ?_
    split
    · exact .pure trivial
    · refine (ih fs).bind fun r fs _ => ?_
      split
      · exact .pure trivial
      · refine (hmake p fs).bind fun r fs _ => ?_
        split
        · exact .pure trivial
        · exact hask p _ fs
    · exact hask p _ fs

/-- Making directories only adds directories, whatever others do. -/
theorem assures_makeDirectories (p : Path) (fs : FileSystem) :
    Assures rely (·.Writes may ·) (fun _ _ => True) (makeDirectories p) fs :=
  assures_makeDirectoriesIn _ fs

section Replacing

variable {q : Path} {temp : Bytes} {l : Location} {pid mode : Nat} {data : Bytes}

theorem assures_create (hq : q.LastName temp) (hmay : ∀ o, may q o)
    (hrely : ∀ fs fs', rely fs fs' → fs.KeepsTree fs') (hp : fs.Unlinked p)
    (hlinks : fs.Unlinked q) :
    Assures rely (·.Writes may ·) (fun r fs => ∀ l, r = .ok l →
      ∃ d m, l = d ++ [temp] ∧ fs.Drafts p q d temp m []) (call (.create q mode)) fs := by
  refine .call rfl (.refl · may) (fun fs₁ hr => ?_) fun _ _ _ _ h => by cases h
  rw [perform]
  cases hcreate : fs₁.create q mode with
  | error e => exact ⟨.refl fs₁ may, by simp⟩
  | ok out =>
    obtain ⟨l, fs₂⟩ := out
    have hlinks₁ := hlinks.keep (hrely _ _ hr)
    obtain ⟨d, m, hnames, rfl, hfree, hwith⟩ := create_ok hcreate hq hlinks₁
    have hkeep := hwith.keepsTree hfree (free_file m [])
    refine ⟨.of_with hnames hwith hfree (free_file m []) (hmay _), fun l hl => ?_⟩
    obtain rfl := Except.ok.inj hl
    exact ⟨d, m, rfl, (hp.keep (hrely _ _ hr)).keep hkeep, hlinks₁.keep hkeep, hnames.keep hkeep,
      hwith.self⟩

/-- What is written in portions is there as a whole in the end. -/
theorem assures_append {m : Nat} (hmay : ∀ o, may q o)
    (hrely : ∀ fs fs', rely fs fs' → fs.Leaves own fs') (hown : own temp)
    (h : fs.Drafts p q l temp m []) :
    Assures rely (·.Writes may ·) (fun r fs => r = .ok () → ∃ m, fs.Drafts p q l temp m data)
      (call (.append (l ++ [temp]) data)) fs := by
  have hstable : ∀ front fs fs', (∃ m, fs.Drafts p q l temp m front) → rely fs fs' →
      ∃ m, fs'.Drafts p q l temp m front := by
    rintro front fs fs' ⟨m, h⟩ hr
    exact ⟨m, h.leave (hrely _ _ hr) hown⟩
  refine .append (.refl · may) hstable ?_ (fun _ h _ => h) (fun _ _ _ _ => by simp) ⟨m, h⟩
  rintro front rest fs ⟨m, h⟩
  have happend : fs.append (l ++ [temp]) rest =
      fs.put (l ++ [temp]) (.file m (front ++ rest)) := by
    rw [append, h.node]
  rw [happend]
  obtain ⟨hwrites, hdrafts⟩ := h.put hmay m (front ++ rest)
  exact ⟨hwrites, m, hdrafts⟩

theorem assures_setMode {m : Nat} (hmay : ∀ o, may q o)
    (hrely : ∀ fs fs', rely fs fs' → fs.Leaves own fs') (hown : own temp)
    (h : fs.Drafts p q l temp m data) :
    Assures rely (·.Writes may ·) (fun r fs => r = .ok () → fs.Drafts p q l temp (permissions mode) data)
      (call (.setMode q mode)) fs := by
  refine .call rfl (.refl · may) (fun fs₁ hr => ?_) fun _ _ _ h => by cases h
  have h₁ := h.leave (hrely _ _ hr) hown
  have hset : fs₁.setMode q mode =
      .ok (fs₁.put (l ++ [temp]) (.file (permissions mode) data)) := by
    rw [setMode, h₁.names.existing h₁.node]
    rfl
  rw [perform, hset]
  obtain ⟨hwrites, hdrafts⟩ := h₁.put hmay (permissions mode) data
  exact ⟨hwrites, fun _ => hdrafts⟩

/-- The complete file takes the name of the target. -/
theorem assures_rename (hmay : ∀ o, may q o) (hfull : may p (some (.file mode data)))
    (hrely : ∀ fs fs', rely fs fs' → fs.Leaves own fs') (hown : own temp)
    (hp : p.LastName name) (h : fs.Drafts p q l temp mode data) :
    Assures rely (·.Writes may ·) (fun r fs => r = .ok () → fs.HasFile p name mode data)
      (call (.rename q p)) fs := by
  refine .call rfl (.refl · may) (fun fs₁ hr => ?_) fun _ _ _ h => by cases h
  have h₁ := h.leave (hrely _ _ hr) hown
  rw [perform]
  cases hrename : fs₁.rename q p with
  | error e => exact ⟨.refl fs₁ may, fun h => by cases h⟩
  | ok fs₂ =>
    obtain ⟨d, hnames, hfree, rfl⟩ := rename_ok hrename h₁.names h₁.node hp h₁.target
    have hgone := (With.refl fs₁ (l ++ [temp])).erase (List.concat_ne_nil temp l)
    have hcome := (With.refl (fs₁.erase (l ++ [temp])) (d ++ [name])).put
      (List.concat_ne_nil name d) (.file mode data)
    have hfree' : Free ((fs₁.erase (l ++ [temp])).node? (d ++ [name])) := by
      rw [hgone.node]
      split
      · exact free_none
      · exact hfree
    have hwrites := Writes.of_moved h₁.names hgone h₁.free (hmay none) hnames hcome hfree'
      (free_file mode data) hfull
    exact ⟨hwrites, fun _ => ⟨d, hnames.keep hwrites.keeps, hcome.self⟩⟩

theorem assures_unlink (hmay : may p none) (hp : p.LastName name)
    (hrely : ∀ fs fs', rely fs fs' → fs.KeepsTree fs') (hlinks : fs.Unlinked p) :
    Assures rely (·.Writes may ·) (fun _ _ => True) (call (.unlink p)) fs := by
  refine .call rfl (.refl · may) (fun fs₁ hr => ⟨?_, trivial⟩) fun _ _ _ => trivial
  rw [perform]
  cases hunlink : fs₁.unlink p with
  | error e => exact .refl fs₁ may
  | ok fs₂ =>
    obtain ⟨d, hnames, hfree, hwith⟩ := unlink_ok hunlink hp (hlinks.keep (hrely _ _ hr))
    exact .of_with hnames hwith hfree free_none hmay

/-- A call that only looks keeps what others leave alone. -/
theorem assures_look_keeping {c : Call} (hc : c.isAppend = false)
    (hsame : ∀ fs : FileSystem, (fs.perform c).2 = fs) {kept : FileSystem → Prop}
    (hstable : ∀ fs fs', kept fs → rely fs fs' → kept fs') (hkept : kept fs) :
    Assures rely (·.Writes may ·) (fun _ fs => kept fs) (call c) fs :=
  (((assures_look hc hsame fs).frame hstable (fun _ _ hk h => h ▸ hk) hkept).weaken_guarantee
    fun _ _ h => h ▸ .refl _ may).weaken_post fun _ _ h => h.2

/-- The target is given its name when the temporary file is complete. -/
theorem assures_replaceBy (hmay : ∀ o, may q o)
    (hfull : may p (some (.file (permissions mode) data)))
    (hrely : ∀ fs fs', rely fs fs' → fs.Leaves own fs') (hown : own temp)
    (hq : q.LastName temp) (hp : p.LastName name) (hlinks : fs.Unlinked p)
    (hlinks' : fs.Unlinked q) :
    Assures rely (·.Writes may ·)
      (fun r fs => r = .ok () → fs.HasFile p name (permissions mode) data)
      (replaceBy q p mode data) fs := by
  have hkeeps := fun fs fs' hr => (hrely fs fs' hr).keeps
  rw [replaceBy]
  refine (assures_create hq hmay hkeeps hlinks hlinks').bind fun r fs hcreated => ?_
  cases r with
  | error e => exact .pure (by simp)
  | ok file =>
    obtain ⟨l, m, rfl, hempty⟩ := hcreated file rfl
    refine (assures_append hmay hrely hown hempty).bind fun r fs hwritten => ?_
    cases r with
    | error e => exact .pure (by simp)
    | ok u =>
      have hstable : ∀ fs fs', (∃ m, fs.Drafts p q l temp m data) → rely fs fs' →
          ∃ m, fs'.Drafts p q l temp m data := by
        rintro fs fs' ⟨m, h⟩ hr
        exact ⟨m, h.leave (hrely _ _ hr) hown⟩
      refine (assures_look_keeping (c := .sync (l ++ [temp])) rfl (fun _ => rfl) hstable
        (hwritten rfl)).bind fun r fs hsynced => ?_
      cases r with
      | error e => exact .pure (by simp)
      | ok u =>
        obtain ⟨m, hsynced⟩ := hsynced
        refine (assures_setMode hmay hrely hown hsynced).bind fun r fs hset => ?_
        cases r with
        | error e => exact .pure (by simp)
        | ok u => exact assures_rename hmay hfull hrely hown hp (hset rfl)

/-- Replacing a file as a whole. The target is there in the end if others leave it alone. -/
theorem assures_writeAtomically (hmay : ∀ o, may (temporary pid p) o)
    (hfull : may p (some (.file (permissions mode) data)))
    (hrely : ∀ fs fs', rely fs fs' → fs.Leaves own fs') (hown : own (temporary pid name))
    (hp : p.LastName name) (hlinks : fs.Unlinked p) (hlinks' : fs.Unlinked (temporary pid p)) :
    Assures rely (·.Writes may ·)
      (fun r fs => r = .ok () → own name → fs.HasFile p name (permissions mode) data)
      (writeAtomically pid p mode data) fs := by
  have hkeeps := fun fs fs' hr => (hrely fs fs' hr).keeps
  have hq := hp.temporary pid
  have hstable : ∀ fs fs', fs.Unlinked (temporary pid p) → rely fs fs' →
      fs'.Unlinked (temporary pid p) := fun fs fs' h hr => h.keep (hkeeps fs fs' hr)
  rw [writeAtomically]
  refine ((assures_replaceBy hmay hfull hrely hown hq hp hlinks hlinks').frame hstable
    (fun _ _ h hw => h.keep hw.keeps) hlinks').bind ?_
  rintro r fs ⟨hreplaced, hlinks'⟩
  cases r with
  | error e =>
    exact (assures_unlink (hmay none) hq hkeeps hlinks').discard.bind fun _ _ _ => .pure (by simp)
  | ok u =>
    have hfile : own name → fs.HasFile p name (permissions mode) data := fun _ => hreplaced rfl
    have hkept : ∀ fs fs' : FileSystem, (own name → fs.HasFile p name (permissions mode) data) →
        rely fs fs' → own name → fs'.HasFile p name (permissions mode) data :=
      fun fs fs' h hr howns => (h howns).leave (hrely _ _ hr) howns
    simp only []
    cases p.parent? with
    | none => exact .pure fun _ => hfile
    | some directory =>
      exact (assures_look_keeping (c := .syncDirectory (if directory.isEmpty then Path.dot
        else directory)) rfl (fun _ => rfl) hkept hfile).discard.bind fun _ _ h => .pure fun _ => h

end Replacing

end Proc

end SelfExtract
