import Mathlib
import SelfExtract.Proofs.Extraction
import SelfExtract.Proofs.SureCalls

/-!
# The place that a process remembers

A process may ask for the block of any files, any number of times, while others
change the files in between. Searches that fail leave no trace. The first one
that succeeds is remembered with its path, and from then on every spelling of
that path gets its answer, even when the file is another one by then. All other
files are searched when they are asked for.

Reading a file may fail at any time, unless it is among the calls that are
`sure`; where all are, a search tells exactly what `searched` does.
-/
namespace SelfExtract.Extract

open FileSystem Proc

variable {sure : Call → Prop} {m m' : LocateMemory} {p q : Path} {fs fs' : FileSystem}
  {r : Except Fault (Option Nat)} {found : Option Nat}

/-- A search leaves the files alone and tells of their content, or the system fails it. -/
theorem sureEnds_search : SureEnds sure (search p) fs r fs' ↔
    fs' = fs ∧ (r = searched fs p ∨ ¬sure (.read p) ∧ ∃ e, r = .error (.io e)) := by
  rw [search, sureEnds_bind]
  constructor
  · rintro ⟨reply, fs₁, hread, hr⟩
    rcases (sureEnds_call rfl).mp hread with ⟨rfl, rfl⟩ | ⟨hsure, ⟨e, rfl⟩, rfl⟩
    · rw [perform] at hr
      rw [searched]
      cases hdata : fs₁.read p with
      | error e =>
        rw [hdata] at hr
        obtain ⟨rfl, rfl⟩ := sureEnds_pure.mp hr
        exact ⟨rfl, .inl rfl⟩
      | ok data =>
        rw [hdata] at hr
        obtain ⟨rfl, rfl⟩ := sureEnds_pure.mp hr
        exact ⟨rfl, .inl rfl⟩
    · obtain ⟨rfl, rfl⟩ := sureEnds_pure.mp hr
      exact ⟨rfl, .inr ⟨hsure, e, rfl⟩⟩
  · rintro ⟨rfl, rfl | ⟨hsure, e, rfl⟩⟩
    · exact sureEnds_bind.mp (sureEnds_of_run (run_search fs' p))
    · exact ⟨_, fs', (sureEnds_call rfl).mpr (.inr ⟨hsure, ⟨e, rfl⟩, rfl⟩), .refl _ _⟩

/-- Where a search finds the block, or that there is none, is so in the content of the file. -/
theorem sureEnds_search_ok : SureEnds sure (search p) fs (.ok found) fs' ↔
    fs' = fs ∧ ∃ data, fs.read p = .ok data ∧ found = Carrier.locate data := by
  rw [sureEnds_search, searched]
  cases fs.read p with
  | error e => simp
  | ok data => simp

/-- What is remembered of a first search. -/
def remembered (p : Path) : Except Fault (Option Nat) → LocateMemory
  | .error _ => none
  | .ok found => some (p, found)

theorem sureEnds_locate_none : SureEnds sure (locate none p) fs (r, m) fs' ↔
    SureEnds sure (search p) fs r fs' ∧ m = remembered p r := by
  rw [locate, sureEnds_bind]
  constructor
  · rintro ⟨r', fs₁, hsearch, hr⟩
    cases r' with
    | error e =>
      obtain ⟨hpair, rfl⟩ := sureEnds_pure.mp hr
      cases hpair
      exact ⟨hsearch, rfl⟩
    | ok found =>
      obtain ⟨hpair, rfl⟩ := sureEnds_pure.mp hr
      cases hpair
      exact ⟨hsearch, rfl⟩
  · rintro ⟨hsearch, rfl⟩
    refine ⟨r, fs', hsearch, ?_⟩
    cases r with
    | error e => exact .refl _ _
    | ok found => exact .refl _ _

/-- The answer for the remembered path takes no call to the system. -/
theorem locate_same (h : q.same p = true) :
    locate (some (q, found)) p = pure (.ok found, some (q, found)) :=
  if_pos h

theorem sureEnds_locate_other (h : q.same p = false) :
    SureEnds sure (locate (some (q, found)) p) fs (r, m) fs' ↔
      SureEnds sure (search p) fs r fs' ∧ m = some (q, found) := by
  have hlocate : locate (some (q, found)) p = (do return (← search p, some (q, found))) :=
    if_neg (by simp [h])
  rw [hlocate, sureEnds_bind]
  constructor
  · rintro ⟨r', fs₁, hsearch, hr⟩
    obtain ⟨hpair, rfl⟩ := sureEnds_pure.mp hr
    cases hpair
    exact ⟨hsearch, rfl⟩
  · rintro ⟨hsearch, rfl⟩
    exact ⟨r, fs', hsearch, .refl _ _⟩

/-! ### Runs -/

structure Inquiry where
  files : FileSystem
  path : Path
  answer : Except Fault (Option Nat)

namespace Inquiry

/-- The answer is one that a search of the file gives. -/
def Fresh (sure : Call → Prop) (i : Inquiry) : Prop :=
  SureEnds sure (search i.path) i.files i.answer i.files

def Fails (i : Inquiry) : Prop :=
  ∃ e, i.answer = .error e

end Inquiry

inductive Inquiries (sure : Call → Prop) : LocateMemory → List Inquiry → LocateMemory → Prop
  | done (m : LocateMemory) : Inquiries sure m [] m
  | call {m m₁ m' : LocateMemory} {i : Inquiry} {later : List Inquiry} {fs : FileSystem} :
      SureEnds sure (locate m i.path) i.files (i.answer, m₁) fs → Inquiries sure m₁ later m' →
      Inquiries sure m (i :: later) m'

namespace Inquiries

variable {before after calls : List Inquiry}

theorem split (h : Inquiries sure m (before ++ after) m') :
    ∃ m₁, Inquiries sure m before m₁ ∧ Inquiries sure m₁ after m' := by
  induction before generalizing m with
  | nil => exact ⟨m, .done m, h⟩
  | cons i before ih =>
    cases h with
    | call hcall hlater =>
      obtain ⟨m₁, hbefore, hafter⟩ := ih hlater
      exact ⟨m₁, .call hcall hbefore, hafter⟩

/-- As long as all searches fail nothing is remembered. -/
theorem all_fail (h : Inquiries sure none calls m) (hfail : ∀ i ∈ calls, i.Fails) :
    m = none ∧ ∀ i ∈ calls, i.Fresh sure := by
  induction calls with
  | nil =>
    cases h
    exact ⟨rfl, nofun⟩
  | cons i later ih =>
    rw [List.forall_mem_cons] at hfail ⊢
    obtain ⟨⟨e, he⟩, hfail⟩ := hfail
    cases h with
    | call hcall hlater =>
      obtain ⟨hsearch, rfl⟩ := sureEnds_locate_none.mp hcall
      obtain ⟨rfl, -⟩ := sureEnds_search.mp hsearch
      rw [he] at hlater
      obtain ⟨hm, hfresh⟩ := ih hlater hfail
      exact ⟨hm, hsearch, hfresh⟩

/-- What is remembered stays, and answers every call for its path and no other. -/
theorem remembers (h : Inquiries sure (some (q, found)) calls m) :
    m = some (q, found) ∧ ∀ i ∈ calls, (q.same i.path = true → i.answer = .ok found) ∧
      (q.same i.path = false → i.Fresh sure) := by
  induction calls with
  | nil =>
    cases h
    exact ⟨rfl, nofun⟩
  | cons i later ih =>
    rw [List.forall_mem_cons]
    cases h with
    | call hcall hlater =>
      cases hsame : q.same i.path with
      | true =>
        rw [locate_same hsame] at hcall
        obtain ⟨hpair, -⟩ := sureEnds_pure.mp hcall
        obtain ⟨hanswer, rfl⟩ := Prod.mk.inj hpair
        obtain ⟨hm, hrest⟩ := ih hlater
        exact ⟨hm, ⟨fun _ => hanswer, nofun⟩, hrest⟩
      | false =>
        obtain ⟨hsearch, rfl⟩ := (sureEnds_locate_other hsame).mp hcall
        obtain ⟨rfl, -⟩ := sureEnds_search.mp hsearch
        obtain ⟨hm, hrest⟩ := ih hlater
        exact ⟨hm, ⟨nofun, fun _ => hsearch⟩, hrest⟩

end Inquiries

/-- How a call is answered once the first search has succeeded. -/
structure AnsweredAfter (sure : Call → Prop) (first : Inquiry) (found : Option Nat) (i : Inquiry) :
    Prop where
  /-- The same path gets the same answer. -/
  same : first.path.same i.path = true → i.answer = .ok found
  /-- No call to the system is made for it. -/
  unread : first.path.same i.path = true →
    locate (some (first.path, found)) i.path = pure (.ok found, some (first.path, found))
  /-- The file of another path is searched. -/
  other : first.path.same i.path = false → i.Fresh sure
  /-- While the file is still the same, all answers are those of a search, but for a spelling of
  its path under which no file is opened. -/
  unchanged : i.files.read first.path = first.files.read first.path →
    (i.Fresh sure ↔ (first.path.same i.path = true → OpensFiles i.path))

theorem AnsweredAfter.of_remembers {first i : Inquiry} (hfirst : first.Fresh sure)
    (hfound : first.answer = .ok found)
    (hsame : first.path.same i.path = true → i.answer = .ok found)
    (hother : first.path.same i.path = false → i.Fresh sure) :
    AnsweredAfter sure first found i where
  same := hsame
  unread := locate_same
  other := hother
  unchanged hread := by
    cases hpath : first.path.same i.path with
    | false => exact ⟨fun _ => nofun, fun _ => hother hpath⟩
    | true =>
      rw [Inquiry.Fresh, hfound] at hfirst
      obtain ⟨-, data, hdata, rfl⟩ := sureEnds_search_ok.mp hfirst
      rw [hdata] at hread
      have hopens := read_eq_ok_iff_of_same hpath hread
      rw [Inquiry.Fresh, hsame hpath, sureEnds_search_ok]
      constructor
      · rintro ⟨-, data', hdata', -⟩ -
        exact opensFiles_of_read hdata'
      · exact fun h => ⟨rfl, data, hopens.mpr (h rfl), rfl⟩

/-- A process remembers nothing of searches that fail. The first search that succeeds answers all
later calls for its path, and a search answers every other call. So every answer is that of a
search while the file stays the same, unless its path is spelled in a way that opens no file. -/
theorem first_place_stays {calls : List Inquiry} (h : Inquiries sure none calls m) :
    ((∀ i ∈ calls, i.Fails) → m = none ∧ ∀ i ∈ calls, i.Fresh sure) ∧
    ∀ before first after found, calls = before ++ first :: after → (∀ i ∈ before, i.Fails) →
      first.answer = .ok found →
      m = some (first.path, found) ∧ (∀ i ∈ before, i.Fresh sure) ∧ first.Fresh sure ∧
        ∀ i ∈ after, AnsweredAfter sure first found i := by
  refine ⟨h.all_fail, ?_⟩
  rintro before first after found rfl hfail hfound
  obtain ⟨m₁, hbefore, hrest⟩ := h.split
  obtain ⟨rfl, hfresh⟩ := hbefore.all_fail hfail
  cases hrest with
  | call hcall hafter =>
    obtain ⟨hsearch, rfl⟩ := sureEnds_locate_none.mp hcall
    obtain ⟨rfl, -⟩ := sureEnds_search.mp hsearch
    rw [hfound] at hafter
    obtain ⟨hm, hanswers⟩ := hafter.remembers
    exact ⟨hm, hfresh, hsearch, fun i hi =>
      .of_remembers hsearch hfound (hanswers i hi).1 (hanswers i hi).2⟩

/-- A file tree in which one file is there, with the marker and nothing else. -/
def markedFile : FileSystem :=
  ⟨[([Path.ofString "a"], .file 0o644 Marker.payload.bytes)], []⟩

/-- The file is another one without a marker, and there is a second file. -/
def unmarkedFiles : FileSystem :=
  ⟨[([Path.ofString "a"], .file 0o644 [0]), ([Path.ofString "b"], .file 0o644 [])], []⟩

theorem sureEnds_locate_markedFile : SureEnds sure (locate none (Path.ofString "/a")) markedFile
    (.ok (some 32), some (Path.ofString "/a", some 32)) markedFile := by
  have hread : markedFile.read (Path.ofString "/a") = .ok Marker.payload.bytes := by cbv
  have hlocate : Carrier.locate Marker.payload.bytes = some 32 := by decide +kernel
  exact sureEnds_locate_none.mpr ⟨sureEnds_search_ok.mpr ⟨rfl, _, hread, hlocate.symm⟩, rfl⟩

/-- A file that is not there at first is found, changed, asked for under another spelling, and left
for another one. -/
theorem first_place_stays_changed_file :
    let sure : Call → Prop := fun _ => True
    let absent : Inquiry := ⟨⟨[], []⟩, Path.ofString "/a", .error (.io .notFound)⟩
    let first : Inquiry := ⟨markedFile, Path.ofString "/a", .ok (some 32)⟩
    let changed : Inquiry := ⟨unmarkedFiles, Path.ofString "//./a", .ok (some 32)⟩
    let other : Inquiry := ⟨unmarkedFiles, Path.ofString "/b", .ok none⟩
    Inquiries sure none [absent, first, changed, other] (some (first.path, some 32)) ∧
      absent.Fails ∧ first.answer = .ok (some 32) ∧ absent.Fresh sure ∧ first.Fresh sure ∧
      AnsweredAfter sure first (some 32) changed ∧ first.path.same changed.path = true ∧
      AnsweredAfter sure first (some 32) other ∧ first.path.same other.path = false := by
  intro sure absent first changed other
  have habsent : absent.answer = searched absent.files absent.path := by cbv
  have hother : other.answer = searched other.files other.path := by cbv
  have hsame : first.path.same changed.path = true := by decide
  have hdifferent : first.path.same other.path = false := by decide
  have hcalls :
      Inquiries sure none [absent, first, changed, other] (some (first.path, some 32)) := by
    refine .call (sureEnds_locate_none.mpr ⟨sureEnds_search.mpr ⟨rfl, .inl habsent⟩, rfl⟩) ?_
    refine .call sureEnds_locate_markedFile ?_
    refine .call (by rw [locate_same hsame]; exact .refl _ _) ?_
    exact .call ((sureEnds_locate_other hdifferent).mpr
      ⟨sureEnds_search.mpr ⟨rfl, .inl hother⟩, rfl⟩) (.done _)
  have hfails : ∀ i ∈ [absent], i.Fails := by
    intro i hi
    obtain rfl := List.mem_singleton.mp hi
    exact ⟨_, rfl⟩
  obtain ⟨-, hbefore, hfirst, hafter⟩ :=
    (first_place_stays hcalls).2 [absent] first [changed, other] (some 32) rfl hfails rfl
  exact ⟨hcalls, hfails _ (by simp), rfl, hbefore _ (by simp), hfirst, hafter _ (by simp), hsame,
    hafter _ (by simp), hdifferent⟩

/-- A slash behind the remembered path does not matter to what is remembered, while a search of it
fails because it asks for a directory. -/
theorem remembered_with_slash :
    let sure : Call → Prop := fun _ => True
    let first : Inquiry := ⟨markedFile, Path.ofString "/a", .ok (some 32)⟩
    let again : Inquiry := ⟨markedFile, Path.ofString "/a/", .ok (some 32)⟩
    Inquiries sure none [first, again] (some (first.path, some 32)) ∧
      first.path.same again.path = true ∧
      (search again.path).run again.files = (.error (.io .notADirectory), again.files) ∧
      ¬again.Fresh sure := by
  intro sure first again
  have hsame : first.path.same again.path = true := by decide
  have hread : markedFile.read (Path.ofString "/a/") = .error .notADirectory := by cbv
  refine ⟨?_, hsame, ?_, ?_⟩
  · refine .call sureEnds_locate_markedFile ?_
    exact .call (by rw [locate_same hsame]; exact .refl _ _) (.done _)
  · rw [run_search, searched, hread]
  · rw [Inquiry.Fresh, sureEnds_search_ok, hread]
    simp

end SelfExtract.Extract
