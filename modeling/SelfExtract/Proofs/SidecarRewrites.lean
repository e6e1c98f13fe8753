import SelfExtract.Proofs.SidecarMembers

/-!
# Sidecars that are read and written again

A sidecar whose text has no floating-point numbers is read back from the text
that is written for it. So it can be written again and again: it stays the same,
and after the first time its text does too.
-/
namespace SelfExtract

open FileSystem
open Json (Tree last?)

namespace Json

namespace Tree

mutual

def numerals : Tree → List Numeral
  | .number x => [x]
  | .array ts => elementNumerals ts
  | .object ms => memberNumerals ms
  | _ => []

def elementNumerals : List Tree → List Numeral
  | [] => []
  | t :: ts => t.numerals ++ elementNumerals ts

def memberNumerals : List (Bytes × Tree) → List Numeral
  | [] => []
  | (_, t) :: ms => t.numerals ++ memberNumerals ms

end

variable {t : Tree} {x : Numeral}

theorem mem_numerals_array {ts : List Tree} (ht : t ∈ ts) (hx : x ∈ t.numerals) :
    x ∈ (Tree.array ts).numerals := by
  induction ts with
  | nil => cases ht
  | cons u ts ih =>
    rcases List.mem_cons.mp ht with rfl | ht
    · exact List.mem_append_left _ hx
    · exact List.mem_append_right _ (ih ht)

theorem mem_numerals_object {m : Bytes × Tree} {ms : List (Bytes × Tree)} (hm : m ∈ ms)
    (hx : x ∈ m.2.numerals) : x ∈ (Tree.object ms).numerals := by
  induction ms with
  | nil => cases hm
  | cons u ms ih =>
    rcases List.mem_cons.mp hm with rfl | hm
    · exact List.mem_append_left _ hx
    · exact List.mem_append_right _ (ih hm)

def IsIntegral (t : Tree) : Prop :=
  ∀ x ∈ t.numerals, ∀ bits, x.value? ≠ some (.binary bits)

theorem IsIntegral.element {ts : List Tree} (h : (Tree.array ts).IsIntegral) (ht : t ∈ ts) :
    t.IsIntegral :=
  fun x hx => h x (mem_numerals_array ht hx)

theorem IsIntegral.member {m : Bytes × Tree} {ms : List (Bytes × Tree)}
    (h : (Tree.object ms).IsIntegral) (hm : m ∈ ms) : m.2.IsIntegral :=
  fun x hx => h x (mem_numerals_object hm hx)

/-- What is read from a tree has no other numbers than the tree. -/
theorem IsIntegral.isExact {depth : Nat} {v : Json} (ht : t.IsIntegral)
    (h : ofTree? depth t = some v) : IsExact v := by
  induction t using Tree.induct generalizing depth v with
  | null =>
    cases h
    exact .null
  | bool b =>
    cases h
    exact .bool b
  | number x =>
    obtain ⟨n, hn, rfl⟩ := Option.map_eq_some_iff.mp h
    cases n with
    | natural n => exact .natural n
    | negative n => exact .negative n
    | binary bits => exact absurd hn (ht x List.mem_cons_self bits)
  | text raw =>
    obtain ⟨s, -, rfl⟩ := Option.map_eq_some_iff.mp h
    exact .text s
  | array ts ih =>
    cases depth with
    | zero => cases h
    | succ depth =>
      obtain ⟨vs, hvs, rfl⟩ := Option.map_eq_some_iff.mp h
      apply IsExact.array
      intro v hv
      obtain ⟨t, hmem, hread⟩ := exists_of_mem_right (ofTrees?_eq_some.mp hvs) hv
      exact ih t hmem (ht.element hmem) hread
  | object ms ih =>
    cases depth with
    | zero => cases h
    | succ depth =>
      obtain ⟨ns, hns, rfl⟩ := Option.map_eq_some_iff.mp h
      apply IsExact.object
      intro n hn
      obtain ⟨m, hm, -, hread⟩ :=
        exists_of_mem_right (ofMembers?_eq_some.mp hns) (mem_of_mem_sortMembers hn)
      exact ih m hm (ht.member hm) hread

end Tree

end Json

namespace Sidecar

variable {s : Sidecar} {text : Bytes}

/-- A sidecar is what the members of an object tell: the known ones are read one by one, and under
every other name it keeps the value of the last member of that name, or none. -/
def ToldBy (s : Sidecar) (text : Bytes) : Prop :=
  ∃ ms found, Tree.parse? text = some (.object ms) ∧ ReadFrom ms found s ∧ ∀ n, n ∉ names →
    (last? n ms).map (Json.ofTree? memberDepth) = (List.lookup n s.other).map some

/-- No unknown member is lost when a sidecar is read. -/
theorem toldBy_of_parse? (h : parse? text = some s) : s.ToldBy text := by
  obtain ⟨t, ht, h⟩ := Option.bind_eq_some_iff.mp h
  obtain ⟨ms, found, rfl, hfrom⟩ := readFrom_of_ofTree? h
  obtain ⟨os, hos, hother⟩ := Option.bind_eq_some_iff.mp hfrom.other
  refine ⟨ms, found, ht, hfrom, fun n hn => ?_⟩
  have hlast := last?_unknown ms hn
  rw [← Option.some.inj hother, Json.lookup_of_members hos, hlast]
  cases hmember : last? n ms with
  | none => rfl
  | some t =>
    obtain ⟨v, hv⟩ := Json.exists_value_of_last? hos (hlast.trans hmember)
    rw [Option.map_some, Option.bind_some, hv, Option.map_some]

/-- A sidecar keeps no other numbers than its text has. -/
theorem isExact_of_parse? (h : parse? text = some s)
    (hintegral : ∀ t, Tree.parse? text = some t → t.IsIntegral) : s.IsExact := by
  obtain ⟨t, ht, hread⟩ := Option.bind_eq_some_iff.mp h
  obtain ⟨ms, found, rfl, hfrom⟩ := readFrom_of_ofTree? hread
  have hms := hintegral _ ht
  constructor
  · have hdetails := hfrom.extra
    cases hextra : List.lookup "extra" found with
    | none =>
      rw [hextra] at hdetails
      have hempty : [] = s.extra := Option.some.inj hdetails
      rw [← hempty]
      exact .object nofun
    | some t =>
      rw [hextra] at hdetails
      obtain ⟨m, hm, rfl⟩ :=
        Json.mem_of_last? ((Tree.lookup_of_known hfrom.known (by decide)).symm.trans hextra)
      exact (hms.member hm).isExact (ofTree?_of_details? hdetails)
  · obtain ⟨os, hos, hother⟩ := Option.bind_eq_some_iff.mp hfrom.other
    intro o ho
    rw [← Option.some.inj hother] at ho
    obtain ⟨m, hm, -, hvalue⟩ :=
      Json.exists_of_mem_right (Json.ofMembers?_eq_some.mp hos) (Json.mem_of_mem_sortMembers ho)
    exact (hms.member (List.mem_of_mem_filter hm)).isExact hvalue

end Sidecar

/-! ### Writing again -/

namespace Cache

variable {c : Cache} {key : String} {fs : FileSystem} {s : Sidecar} {d : Location} {pid : Nat}
  {text : Bytes}

/-- Processes read the sidecar, one after the other, and write back what they have read. -/
inductive Rewrites (c : Cache) (key : String) (s : Sidecar) :
    List Nat → FileSystem → FileSystem → Prop
  | done (fs : FileSystem) : Rewrites c key s [] fs fs
  | again {pid : Nat} {pids : List Nat} {fs fs₁ fs₂ : FileSystem}
      (hread : (c.readSidecar key).run fs = (.ok (some s), fs))
      (hwrite : (c.writeSidecar pid key s).run fs = (.ok (), fs₁))
      (hnext : Rewrites c key s pids fs₁ fs₂) : Rewrites c key s (pid :: pids) fs fs₂

/-- A sidecar that can be written is, and then is as it was before. -/
theorem exists_rewritten (h : c.Reads key fs s) (hexact : s.IsExact)
    (hw : fs.Writable pid (c.sidecar key) d notesName) :
    ∃ fs₁, (c.writeSidecar pid key s).run fs = (.ok (), fs₁) ∧ c.Reads key fs₁ s ∧
      fs.Rewritten fs₁ pid (c.sidecar key) d notesName sidecarMode s.encode := by
  obtain ⟨text, hread, hs⟩ := h
  obtain ⟨-, fs₁, -, -, hrun⟩ := Proc.run_writeAtomically sidecarMode s.encode hw
  have hlast := lastName_sidecar c key
  obtain ⟨d', hrewritten⟩ := Proc.rewritten_of_ok hw.linkFree hlast hread hrun
  obtain rfl := hrewritten.before.target.directory_unique hlast hw.draft
  have hparse := Sidecar.parse?_encode (Sidecar.isRead_of_parse? hs) hexact
  exact ⟨fs₁, hrun, ⟨_, hrewritten.read, hparse⟩, hrewritten⟩

/-- What one process leaves the next one can rewrite. -/
theorem exists_rewrites (h : c.Reads key fs s) (hexact : s.IsExact) {pids : List Nat}
    (hw : ∀ pid ∈ pids, fs.Writable pid (c.sidecar key) d notesName) :
    ∃ fs₁, Rewrites c key s pids fs fs₁ ∧ c.Reads key fs₁ s ∧
      (pids ≠ [] → fs₁.read (c.sidecar key) = .ok s.encode) := by
  induction pids generalizing fs with
  | nil => exact ⟨fs, .done fs, h, fun hne => absurd rfl hne⟩
  | cons pid pids ih =>
    obtain ⟨fs₁, hrun, hreads, hrewritten⟩ := exists_rewritten h hexact (hw pid List.mem_cons_self)
    obtain ⟨text, hread, -⟩ := id h
    have hnext : ∀ pid' ∈ pids, fs₁.Writable pid' (c.sidecar key) d notesName := by
      intro pid' hmem
      exact hrewritten.writable (lastName_sidecar c key) hread
        (hw pid' (List.mem_cons_of_mem pid hmem))
    obtain ⟨fs₂, hrest, hreads₂, hsame⟩ := ih hreads hnext
    refine ⟨fs₂, .again (run_readSidecar h) hrun hrest, hreads₂, fun _ => ?_⟩
    cases pids with
    | nil =>
      cases hrest
      exact hrewritten.read
    | cons pid' pids => exact hsame (List.cons_ne_nil _ _)

/-- A sidecar without floating-point numbers can be rewritten by any number of processes. Each of
them reads the same sidecar, told by the first text and by the written one, and each writes the same
text. -/
theorem rewrites_keep_sidecar (hread : fs.read (c.sidecar key) = .ok text)
    (haccepted : Sidecar.parse? text = some s)
    (hintegral : ∀ t, Tree.parse? text = some t → t.IsIntegral) :
    Sidecar.parse? s.encode = some s ∧ s.ToldBy text ∧ s.ToldBy s.encode ∧
    ∀ pids, (∀ pid ∈ pids, fs.Writable pid (c.sidecar key) d notesName) →
      ∃ fs₁, Rewrites c key s pids fs fs₁ ∧
        (c.readSidecar key).run fs₁ = (.ok (some s), fs₁) ∧
        (pids ≠ [] → fs₁.read (c.sidecar key) = .ok s.encode) := by
  have hexact := Sidecar.isExact_of_parse? haccepted hintegral
  have hparse := Sidecar.parse?_encode (Sidecar.isRead_of_parse? haccepted) hexact
  refine ⟨hparse, Sidecar.toldBy_of_parse? haccepted, Sidecar.toldBy_of_parse? hparse, ?_⟩
  intro pids hw
  obtain ⟨fs₁, hrewrites, hreads, hsame⟩ := exists_rewrites ⟨text, hread, haccepted⟩ hexact hw
  exact ⟨fs₁, hrewrites, run_readSidecar hreads, hsame⟩

/-- A sidecar with the least and the greatest integers, a repeated member whose name is written in
two ways, an optional member that is null and a state of look-ups that is not all there. -/
def manyMembers : Bytes :=
  ["\x7b\"version\":\"1\",", "\"cache_key\":\"k\",", "\"timestamp\":18446744073709551615,",
    "\"size\":1,", "\"source\":\x7b\"type\":\"t\",\"path\":\"p\"\x7d,", "\"integrity\":null,",
    "\"n\\u0061me\":0,", "\"update_check\":\x7b", "\"last_check\":-9223372036854775808\x7d,",
    "\"name\":[null,\x7b\"z\":", "-9223372036854775808,", "\"y\":\"\\ud83d\\ude00\"\x7d],",
    "\"more\":\x7b\x7d\x7d"].flatMap Utf8.encode

/-- It is rewritten three times. -/
theorem rewrites_keep_sidecar_many_members :
    ∃ s fs₁, Sidecar.parse? manyMembers = some s ∧ s.timestamp = 18446744073709551615 ∧
      s.integrity = none ∧ s.update = some ⟨-9223372036854775808, 0, ""⟩ ∧
      s.other.map (·.1) = ["more", "name"] ∧ s.ToldBy s.encode ∧
      Rewrites soleCache soleKey s [1, 1, 1] (soleSidecar manyMembers) fs₁ ∧
      fs₁.read (soleCache.sidecar soleKey) = .ok s.encode := by
  have hparts : (Sidecar.parse? manyMembers).map (fun s =>
      (s.timestamp, s.integrity, s.update, s.other.map (·.1))) = some (18446744073709551615, none,
        some ⟨-9223372036854775808, 0, ""⟩, ["more", "name"]) := by
    decide +kernel
  have hnumbers : (Tree.parse? manyMembers).map (fun t => t.numerals.map (·.value?)) =
      some [some (.natural 18446744073709551615), some (.natural 1), some (.natural 0),
        some (.negative (-9223372036854775808)), some (.negative (-9223372036854775808))] := by
    decide +kernel
  obtain ⟨s, hs, hfields⟩ := Option.map_eq_some_iff.mp hparts
  simp only [Prod.mk.injEq] at hfields
  obtain ⟨htimestamp, hintegrity, hupdate, hother⟩ := hfields
  have hintegral : ∀ t, Tree.parse? manyMembers = some t → t.IsIntegral := by
    intro t ht x hx bits hbits
    rw [ht, Option.map_some, Option.some.injEq] at hnumbers
    have hmem := List.mem_map_of_mem hx (f := (·.value?))
    rw [hnumbers, hbits] at hmem
    simp at hmem
  obtain ⟨-, -, htold, hall⟩ :=
    rewrites_keep_sidecar (read_soleSidecar manyMembers) hs hintegral
  obtain ⟨fs₁, hrewrites, -, hsame⟩ := hall [1, 1, 1]
    (by simpa using writable_soleSidecar manyMembers)
  exact ⟨s, fs₁, hs, htimestamp, hintegrity, hupdate, hother, htold, hrewrites,
    hsame (List.cons_ne_nil _ _)⟩

end Cache

end SelfExtract
