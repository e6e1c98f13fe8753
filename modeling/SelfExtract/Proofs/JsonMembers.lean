import SelfExtract.Json.Shape
import SelfExtract.Proofs.JsonValues

/-!
# Members of objects and of records

Of several members with one name the last one counts. A record is read exactly
when it is an object in which no known name occurs twice, or an array of a
length that fits. It then gives for each name the member of that name, or the
element in the place of the name.
-/
namespace SelfExtract.Json

/-- The member of a name that counts: the last one. -/
def last? (n : String) (ms : List (Bytes × Tree)) : Option Tree :=
  (ms.reverse.find? fun m => textOf? m.1 == some n).map (·.2)

variable {n : String} {ms : List (Bytes × Tree)} {depth : Nat}

theorem last?_cons (m : Bytes × Tree) :
    last? n (m :: ms) = (last? n ms).or (if textOf? m.1 = some n then some m.2 else none) := by
  rw [last?, List.reverse_cons, List.find?_append, last?]
  by_cases h : textOf? m.1 = some n
  · cases ms.reverse.find? fun m => textOf? m.1 == some n <;> simp [h]
  · cases ms.reverse.find? fun m => textOf? m.1 == some n <;> simp [h, beq_false_of_ne]

/-- What an object holds under a name is the value of the last member of that name. -/
theorem lookup_of_members {ns : List (String × Json)} (h : ofMembers? depth ms = some ns)
    (n : String) :
    List.lookup n (sortMembers ns) = (last? n ms).bind (ofTree? depth) := by
  have hfirst : ∀ {ms : List (Bytes × Tree)} {ns : List (String × Json)},
      List.Forall₂ (IsMember depth) ms ns →
      List.lookup n ns =
        ((ms.find? fun m => textOf? m.1 == some n).map (·.2)).bind (ofTree? depth) := by
    intro ms ns hall
    induction hall with
    | nil => rfl
    | @cons m v ms ns hmember _ ih =>
      rw [lookup_cons_if, List.find?_cons, hmember.1]
      by_cases hn : n = v.1
      · simp [hn, hmember.2]
      · rw [if_neg hn, ih, beq_false_of_ne fun h => hn (Option.some.inj h).symm]
  rw [lookup_sortMembers, last?]
  exact hfirst (List.forall₂_reverse_iff.mpr (ofMembers?_eq_some.mp h))

theorem mem_of_last? {t : Tree} (h : last? n ms = some t) : ∃ m ∈ ms, m.2 = t := by
  obtain ⟨m, hm, rfl⟩ := Option.map_eq_some_iff.mp h
  exact ⟨m, List.mem_reverse.mp (List.mem_of_find?_eq_some hm), rfl⟩

theorem exists_value_of_last? {ns : List (String × Json)} {t : Tree}
    (h : ofMembers? depth ms = some ns) (ht : last? n ms = some t) :
    ∃ v, ofTree? depth t = some v := by
  obtain ⟨m, hm, rfl⟩ := mem_of_last? ht
  obtain ⟨w, -, -, hw⟩ := exists_of_mem_right (ofMembers?_eq_some.mp h).flip hm
  exact ⟨w.2, hw⟩

/-! ### Records -/

namespace Tree

def knownNames (names : List String) (ms : List (Bytes × Tree)) : List String :=
  (ms.filterMap fun m => textOf? m.1).filter names.contains

/-- An object whose names are texts, with no known one twice, or an array of a length that fits. -/
def IsRecord (names : List String) (least : Nat) : Tree → Prop
  | .object ms => (∀ m ∈ ms, (textOf? m.1).isSome) ∧ (knownNames names ms).Nodup
  | .array ts => least ≤ ts.length ∧ ts.length ≤ names.length
  | _ => False

def at? (names : List String) (n : String) : Tree → Option Tree
  | .object ms => last? n ms
  | .array ts => ts[names.idxOf n]?
  | _ => none

variable {names : List String} {m : Bytes × Tree} {ms : List (Bytes × Tree)}
  {found : List (String × Tree)} {name n : String}

theorem knownNames_cons (hname : textOf? m.1 = some name) : knownNames names (m :: ms) =
    if name ∈ names then name :: knownNames names ms else knownNames names ms := by
  simp [knownNames, hname, List.filter_cons]

theorem known?_cons (hname : textOf? m.1 = some name) : known? names (m :: ms) =
    (known? names ms).bind fun rest =>
      if name ∈ names then
        if name ∈ rest.map (·.1) then none else some ((name, m.2) :: rest)
      else some rest := by
  have hany : ∀ rest : List (String × Tree),
      (rest.any (·.1 == name) = true) = (name ∈ rest.map (·.1)) := by
    simp
  simp only [known?, hname, Option.bind_eq_bind, Option.bind_some, List.contains_iff_mem, hany]

/-- The known members are the last ones of their names, since no other has the same name. -/
theorem lookup_of_known (h : known? names ms = some found) (hn : n ∈ names) :
    List.lookup n found = last? n ms := by
  induction ms generalizing found with
  | nil =>
    cases h
    rfl
  | cons m ms ih =>
    cases hname : textOf? m.1 with
    | none => simp [known?, hname] at h
    | some name =>
      rw [known?_cons hname] at h
      obtain ⟨rest, hrest, h⟩ := Option.bind_eq_some_iff.mp h
      rw [last?_cons, hname, ← ih hrest]
      split at h
      · split at h
        · cases h
        · next hnew =>
          cases h
          rw [lookup_cons_if]
          by_cases hsame : n = name
          · have hnone : List.lookup n rest = none := lookup_eq_none fun p hp hpn =>
              hnew (List.mem_map.mpr ⟨p, hp, hpn.trans hsame⟩)
            simp [hsame, hsame ▸ hnone]
          · simp [hsame, Ne.symm hsame]
      · next hunknown =>
        cases h
        have hne : name ≠ n := fun h => hunknown (h ▸ hn)
        simp [hne]

theorem map_fst_of_known? (h : known? names ms = some found) :
    found.map (·.1) = knownNames names ms := by
  induction ms generalizing found with
  | nil =>
    cases h
    rfl
  | cons m ms ih =>
    cases hname : textOf? m.1 with
    | none => simp [known?, hname] at h
    | some name =>
      rw [known?_cons hname] at h
      obtain ⟨rest, hrest, h⟩ := Option.bind_eq_some_iff.mp h
      rw [knownNames_cons hname, ← ih hrest]
      split at h
      · next hknown =>
        split at h
        · cases h
        · cases h
          rw [if_pos hknown, List.map_cons]
      · next hunknown =>
        cases h
        rw [if_neg hunknown]

/-- The known members are found when all names are texts and no known one occurs twice. -/
theorem exists_known?_iff : (∃ found, known? names ms = some found) ↔
    (∀ m ∈ ms, (textOf? m.1).isSome) ∧ (knownNames names ms).Nodup := by
  induction ms with
  | nil => simp [known?, knownNames]
  | cons m ms ih =>
    rw [List.forall_mem_cons]
    cases hname : textOf? m.1 with
    | none => simp [known?, hname]
    | some name =>
      rw [known?_cons hname, knownNames_cons hname]
      cases hrest : known? names ms with
      | none =>
        rw [hrest] at ih
        have hsub : (knownNames names ms).Sublist
            (if name ∈ names then name :: knownNames names ms else knownNames names ms) := by
          split <;> simp
        simp only [Option.bind_none, reduceCtorEq, exists_false, false_iff] at ih ⊢
        exact fun h => ih ⟨h.1.2, h.2.sublist hsub⟩
      | some rest =>
        have hall := ih.mp ⟨rest, hrest⟩
        rw [Option.bind_some, map_fst_of_known? hrest]
        by_cases hknown : name ∈ names
        · by_cases htwice : name ∈ knownNames names ms
          · simp [hknown, htwice]
          · simpa [-Prod.forall, hknown, htwice, hall.2] using hall.1
        · simpa [-Prod.forall, hknown, hall.2] using hall.1

/-- A record gives what stands for each of its names, in the order of the names. -/
theorem record?_eq_some {t : Tree} {least : Nat} {vs : List (Option Tree)} (hnames : names.Nodup) :
    t.record? names least = some vs ↔ t.IsRecord names least ∧ vs = names.map (t.at? names) := by
  cases t with
  | object ms =>
    rw [record?, Option.map_eq_some_iff, IsRecord, ← exists_known?_iff]
    have hvalues : ∀ {found}, known? names ms = some found →
        names.map (fun n => List.lookup n found) = names.map (at? names · (.object ms)) := by
      intro found hfound
      exact List.map_congr_left fun n hn => lookup_of_known hfound hn
    constructor
    · rintro ⟨found, hfound, rfl⟩
      exact ⟨⟨found, hfound⟩, hvalues hfound⟩
    · rintro ⟨⟨found, hfound⟩, rfl⟩
      exact ⟨found, hfound, hvalues hfound⟩
  | array ts =>
    have hvalues : ts.length ≤ names.length →
        ts.map some ++ List.replicate (names.length - ts.length) none =
          names.map (at? names · (.array ts)) := by
      intro hlength
      refine List.ext_getElem (by simp; omega) fun i hi hi' => ?_
      rw [List.getElem_map, at?, List.Nodup.idxOf_getElem hnames]
      by_cases h : i < ts.length <;> simp [h, List.getElem_append]
    rw [record?, IsRecord]
    by_cases hlength : least ≤ ts.length ∧ ts.length ≤ names.length
    · rw [if_neg (by simp; omega), hvalues hlength.2]
      simp [hlength, eq_comm]
    · rw [if_pos (by simp; omega)]
      simp [hlength]
  | _ => simp [record?, IsRecord]

/-! ### Written records -/

section Written

variable {ms : List (String × Json)}

theorem last?_written (hms : (ms.map (·.1)).Nodup) (n : String) :
    last? n (writtenMembers ms) = (List.lookup n ms).map written := by
  induction ms with
  | nil => rfl
  | cons m ms ih =>
    obtain ⟨name, v⟩ := m
    obtain ⟨hnew, hms⟩ := List.nodup_cons.mp hms
    rw [writtenMembers, last?_cons, textOf?_body, ih hms, lookup_cons_if]
    by_cases hn : n = name
    · have hnone : List.lookup n ms = none := lookup_eq_none fun p hp hpn =>
        hnew (List.mem_map.mpr ⟨p, hp, hpn.trans hn⟩)
      simp [hn, hn ▸ hnone]
    · simp [hn, Ne.symm hn]

/-- The known members of an object are read from what was written for it. -/
theorem record?_written (names : List String) (hms : (ms.map (·.1)).Nodup) (least : Nat) :
    record? names least (written (.object ms)) =
      some (names.map fun n => (List.lookup n ms).map written) := by
  have hnames : knownNames names (writtenMembers ms) = (ms.map (·.1)).filter names.contains := by
    simp [knownNames, writtenMembers_eq, List.filterMap_map, textOf?_body]
  have htexts : ∀ m ∈ writtenMembers ms, (textOf? m.1).isSome := by
    rw [writtenMembers_eq, List.forall_mem_map]
    simp [textOf?_body]
  obtain ⟨found, hfound⟩ := exists_known?_iff.mpr ⟨htexts, hnames ▸ hms.filter _⟩
  rw [written, record?, hfound, Option.map_some, Option.some.injEq]
  apply List.map_congr_left
  intro n hn
  rw [lookup_of_known hfound hn, last?_written hms]

end Written

end Tree

end SelfExtract.Json
