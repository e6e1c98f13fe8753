import Mathlib
import SelfExtract.Proofs.Associations
import SelfExtract.Proofs.JsonTexts

/-!
# JSON values and their texts

Every value that is read has sorted members and a bounded depth; a value with
sorted members is read back from its text as it is, unless one of its numbers
is no integer.
-/
namespace SelfExtract.Json

/-! ### Members -/

def Sorted (ms : List (String × Json)) : Prop :=
  ms.Pairwise fun m n => m.1 < n.1

instance (ms : List (String × Json)) : Decidable (Sorted ms) :=
  inferInstanceAs (Decidable (ms.Pairwise fun m n => m.1 < n.1))

variable {name : String} {v : Json} {ms : List (String × Json)}

theorem mem_insertMember {m : String × Json} (h : m ∈ insertMember name v ms) :
    m = (name, v) ∨ m ∈ ms := by
  fun_induction insertMember name v ms with
  | case1 => exact .inl (List.mem_singleton.mp h)
  | case2 n w r hlt => exact List.mem_cons.mp h
  | case3 n w r hnlt hlt ih =>
    rcases List.mem_cons.mp h with rfl | h
    · exact .inr List.mem_cons_self
    · exact (ih h).imp_right (List.mem_cons_of_mem _)
  | case4 n w r hnlt hnlt' => exact (List.mem_cons.mp h).imp_right (List.mem_cons_of_mem _)

theorem sorted_insertMember (hms : Sorted ms) : Sorted (insertMember name v ms) := by
  fun_induction insertMember name v ms with
  | case1 => exact List.pairwise_singleton _ _
  | case2 n w r hlt =>
    refine List.pairwise_cons.mpr ⟨fun m hm => ?_, hms⟩
    rcases List.mem_cons.mp hm with rfl | hm
    · exact hlt
    · exact lt_trans hlt ((List.pairwise_cons.mp hms).1 m hm)
  | case3 n w r hnlt hlt ih =>
    obtain ⟨hfirst, hr⟩ := List.pairwise_cons.mp hms
    refine List.pairwise_cons.mpr ⟨fun m hm => ?_, ih hr⟩
    rcases mem_insertMember hm with rfl | hm
    · exact hlt
    · exact hfirst m hm
  | case4 n w r hnlt hnlt' =>
    obtain ⟨hfirst, hr⟩ := List.pairwise_cons.mp hms
    obtain rfl : name = n := le_antisymm (not_lt.mp hnlt') (not_lt.mp hnlt)
    exact List.pairwise_cons.mpr ⟨hfirst, hr⟩

theorem lookup_insertMember (n : String) :
    List.lookup n (insertMember name v ms) = if n = name then some v else List.lookup n ms := by
  fun_induction insertMember name v ms with
  | case1 => exact lookup_cons_if
  | case2 m w r hlt => exact lookup_cons_if
  | case3 m w r hnlt hlt ih =>
    rw [lookup_cons_if, lookup_cons_if, ih]
    by_cases hm : n = m
    · rw [if_pos hm, if_pos hm, if_neg (hm ▸ ne_of_lt hlt)]
    · rw [if_neg hm, if_neg hm]
  | case4 m w r hnlt hnlt' =>
    obtain rfl : name = m := le_antisymm (not_lt.mp hnlt') (not_lt.mp hnlt)
    rw [lookup_cons_if, lookup_cons_if]
    split <;> rfl

theorem sortMembers_append (m : String × Json) :
    sortMembers (ms ++ [m]) = insertMember m.1 m.2 (sortMembers ms) := by
  rw [sortMembers, List.foldl_append]
  rfl

theorem sorted_sortMembers (ms : List (String × Json)) : Sorted (sortMembers ms) := by
  induction ms using List.reverseRecOn with
  | nil => exact List.Pairwise.nil
  | append_singleton ms m ih => exact sortMembers_append m ▸ sorted_insertMember ih

/-- The last of several members with one name counts. -/
theorem lookup_sortMembers (n : String) (ms : List (String × Json)) :
    List.lookup n (sortMembers ms) = List.lookup n ms.reverse := by
  induction ms using List.reverseRecOn with
  | nil => rfl
  | append_singleton ms m ih =>
    rw [sortMembers_append, lookup_insertMember, ih, List.reverse_append, List.reverse_singleton,
      List.singleton_append, lookup_cons_if]

theorem insertMember_of_above (h : ∀ m ∈ ms, m.1 < name) :
    insertMember name v ms = ms ++ [(name, v)] := by
  induction ms with
  | nil => rfl
  | cons m ms ih =>
    have hm := h m List.mem_cons_self
    rw [insertMember, if_neg (lt_asymm hm), if_pos hm,
      ih fun w hw => h w (List.mem_cons_of_mem m hw), List.cons_append]

/-- Members that are in order stay as they are. -/
theorem sortMembers_of_sorted (hms : Sorted ms) : sortMembers ms = ms := by
  induction ms using List.reverseRecOn with
  | nil => rfl
  | append_singleton ms m ih =>
    obtain ⟨hfront, -, hlast⟩ := List.pairwise_append.mp hms
    rw [sortMembers_append, ih hfront,
      insertMember_of_above fun w hw => hlast w hw m (List.mem_singleton_self m)]

theorem mem_of_mem_sortMembers {m : String × Json} (h : m ∈ sortMembers ms) : m ∈ ms := by
  induction ms using List.reverseRecOn with
  | nil => exact h
  | append_singleton ms w ih =>
    rw [sortMembers_append] at h
    rcases mem_insertMember h with rfl | h
    · exact List.mem_append_right ms (List.mem_singleton_self w)
    · exact List.mem_append_left _ (ih h)

theorem mem_of_lookup {n : String} {v : Json} (h : List.lookup n ms = some v) : (n, v) ∈ ms := by
  obtain ⟨front, back, rfl, -⟩ := List.lookup_eq_some_iff.mp h
  exact List.mem_append_right front List.mem_cons_self

/-- Where no name is repeated every member is found. -/
theorem lookup_eq_some_iff (hms : (ms.map (·.1)).Nodup) {n : String} {v : Json} :
    List.lookup n ms = some v ↔ (n, v) ∈ ms := by
  refine ⟨mem_of_lookup, fun h => ?_⟩
  induction ms with
  | nil => cases h
  | cons m ms ih =>
    obtain ⟨hnew, hms⟩ := List.nodup_cons.mp hms
    rw [lookup_cons_if]
    rcases List.mem_cons.mp h with rfl | h
    · exact if_pos rfl
    · have hne : n ≠ m.1 := by
        rintro rfl
        exact hnew (List.mem_map.mpr ⟨_, h, rfl⟩)
      rw [if_neg hne, ih hms h]

theorem lookup_reverse (hms : (ms.map (·.1)).Nodup) (n : String) :
    List.lookup n ms.reverse = List.lookup n ms := by
  have hreverse : (ms.reverse.map (·.1)).Nodup := by
    rw [List.map_reverse]
    exact (List.reverse_perm _).nodup_iff.mpr hms
  ext v
  rw [lookup_eq_some_iff hreverse, lookup_eq_some_iff hms, List.mem_reverse]

theorem Sorted.nodup (hms : Sorted ms) : (ms.map (·.1)).Nodup :=
  List.pairwise_map.mpr (hms.imp ne_of_lt)

/-- Sorted members are told by what is found under each name. -/
theorem Sorted.ext {ns : List (String × Json)} (hms : Sorted ms) (hns : Sorted ns)
    (h : ∀ n, List.lookup n ms = List.lookup n ns) : ms = ns := by
  refine List.Perm.eq_of_pairwise (fun _ _ _ _ hlt hgt => absurd hlt (lt_asymm hgt)) hms hns ?_
  refine (List.perm_ext_iff_of_nodup (List.Nodup.of_map _ hms.nodup)
    (List.Nodup.of_map _ hns.nodup)).mpr fun m => ?_
  rw [← lookup_eq_some_iff hms.nodup, ← lookup_eq_some_iff hns.nodup, h]

/-! ### Numbers -/

theorem le_foldl_digits (ds : List Nat) (n : Nat) :
    n ≤ ds.foldl (fun e d => e * 10 + d) n := by
  induction ds generalizing n with
  | nil => exact Nat.le_refl n
  | cons d ds ih => exact Nat.le_trans (by omega) (ih (n * 10 + d))

theorem leading_of_lt {ds : List Nat} {n : Nat}
    (h : ds.foldl (fun e d => e * 10 + d) n < 2 ^ 64) :
    Numeral.leading n ds = (ds.foldl (fun e d => e * 10 + d) n, []) := by
  induction ds generalizing n with
  | nil => rfl
  | cons d ds ih =>
    have hle := le_foldl_digits ds (n * 10 + d)
    rw [List.foldl_cons] at h
    rw [Numeral.leading, if_pos (by omega), ih h, List.foldl_cons]

/-- A number that an integer of sixty-four bits can have: below zero where it has a sign. -/
def Number.IsInteger : Number → Prop
  | .natural _ => True
  | .negative n => n.toInt < 0
  | .binary _ => False

/-- An integer is read back from its numeral. -/
theorem value?_numeral {n : Number} (hn : n.IsInteger) : n.numeral.value? = some n := by
  cases n with
  | natural n =>
    have hsmall := n.toNat_lt
    have hlead : Numeral.leading 0 (decimal n.toNat) = (n.toNat, []) := by
      rw [leading_of_lt] <;> rw [foldl_decimal]
      exact hsmall
    rw [Number.numeral, Numeral.value?]
    simp [hlead, Numeral.leading]
  | negative n =>
    have hneg : n.toInt < 0 := hn
    have hmin := n.le_toInt
    have hlead : Numeral.leading 0 (decimal n.toInt.natAbs) = (n.toInt.natAbs, []) := by
      rw [leading_of_lt] <;> rw [foldl_decimal]
      omega
    have hsize : (decide (0 < n.toInt.natAbs) && decide (n.toInt.natAbs ≤ 2 ^ 63)) = true := by
      rw [Bool.and_eq_true, decide_eq_true_eq, decide_eq_true_eq]
      omega
    have hvalue : Int64.ofInt (-(n.toInt.natAbs : Int)) = n := by
      rw [show -(n.toInt.natAbs : Int) = n.toInt by omega, Int64.ofInt_toInt]
    simp only [Number.numeral, Numeral.value?, hlead, Numeral.leading, List.isEmpty_nil, hneg,
      decide_true, Bool.not_true, Bool.or_self, Bool.false_eq_true, if_false, hsize, if_true,
      hvalue]
  | binary bits => exact hn.elim

theorem binary?_ne_negative (negative : Bool) (m : Nat) (e : Int) (n : Int64) :
    Numeral.binary? negative m e ≠ some (.negative n) := by
  rw [Numeral.binary?]
  cases Numeral.scale 8 (UInt64.ofNat m).toFloat e <;> simp

/-- A number with a sign that is read is below zero. -/
theorem toInt_neg_of_value? {x : Numeral} {n : Int64} (h : x.value? = some (.negative n)) :
    n.toInt < 0 := by
  rw [Numeral.value?] at h
  generalize Numeral.leading 0 x.whole = first at h
  obtain ⟨k, rest⟩ := first
  dsimp only at h
  generalize Numeral.leading k x.fraction = second at h
  obtain ⟨k, unused⟩ := second
  dsimp only at h
  split at h
  · split at h
    · split at h <;> simp at h
    · exact absurd h (binary?_ne_negative _ _ _ _)
  · split at h
    · exact absurd h (binary?_ne_negative _ _ _ _)
    · split at h
      · simp at h
      · split at h
        · next hk =>
          simp only [Bool.and_eq_true, decide_eq_true_eq] at hk
          obtain rfl : Int64.ofInt (-k) = n := by simpa using h
          rw [Int64.toInt_ofInt_of_le (by omega) (by omega)]
          omega
        · exact absurd h (binary?_ne_negative _ _ _ _)

/-! ### Values -/

section Related

variable {α β : Type} {R : α → β → Prop} {as : List α} {bs : List β}

theorem exists_of_mem_right (h : List.Forall₂ R as bs) {b : β} (hb : b ∈ bs) :
    ∃ a ∈ as, R a b := by
  induction h with
  | nil => cases hb
  | cons hfirst _ ih =>
    rcases List.mem_cons.mp hb with rfl | hb
    · exact ⟨_, List.mem_cons_self, hfirst⟩
    · obtain ⟨a, ha, hr⟩ := ih hb
      exact ⟨a, List.mem_cons_of_mem _ ha, hr⟩

theorem forall₂_imp_of_mem {R' : α → β → Prop} (himp : ∀ a ∈ as, ∀ b, R a b → R' a b)
    (h : List.Forall₂ R as bs) : List.Forall₂ R' as bs := by
  induction h with
  | nil => exact .nil
  | cons hfirst _ ih =>
    exact .cons (himp _ List.mem_cons_self _ hfirst)
      (ih fun a ha => himp a (List.mem_cons_of_mem _ ha))

end Related

theorem ofTrees?_eq_some {depth : Nat} {ts : List Tree} {vs : List Json} :
    ofTrees? depth ts = some vs ↔ List.Forall₂ (fun t v => ofTree? depth t = some v) ts vs := by
  induction ts generalizing vs with
  | nil => simp [ofTrees?, eq_comm]
  | cons t ts ih =>
    simp only [ofTrees?, Option.bind_eq_bind, Option.bind_eq_some_iff, Option.pure_def,
      Option.some.injEq, ih, List.forall₂_cons_left_iff]
    exact ⟨fun ⟨v, hv, vs, hvs, h⟩ => ⟨v, vs, hv, hvs, h.symm⟩,
      fun ⟨v, vs, hv, hvs, h⟩ => ⟨v, hv, vs, hvs, h.symm⟩⟩

def IsMember (depth : Nat) (m : Bytes × Tree) (n : String × Json) : Prop :=
  textOf? m.1 = some n.1 ∧ ofTree? depth m.2 = some n.2

theorem ofMembers?_eq_some {depth : Nat} {ms : List (Bytes × Tree)} {ns : List (String × Json)} :
    ofMembers? depth ms = some ns ↔ List.Forall₂ (IsMember depth) ms ns := by
  induction ms generalizing ns with
  | nil => simp [ofMembers?, eq_comm]
  | cons m ms ih =>
    simp only [ofMembers?, Option.bind_eq_bind, Option.bind_eq_some_iff, Option.pure_def,
      Option.some.injEq, ih, List.forall₂_cons_left_iff, IsMember]
    constructor
    · rintro ⟨name, hname, v, hv, ns, hns, rfl⟩
      exact ⟨(name, v), ns, ⟨hname, hv⟩, hns, rfl⟩
    · rintro ⟨⟨name, v⟩, ns, ⟨hname, hv⟩, hns, rfl⟩
      exact ⟨name, hname, v, hv, ns, hns, rfl⟩

/-- A value as it is read where at most `depth` arrays and objects are nested: numbers with a sign
are below zero, members are sorted. -/
inductive Held : Nat → Json → Prop
  | null (depth : Nat) : Held depth .null
  | bool (depth : Nat) (b : Bool) : Held depth (.bool b)
  | natural (depth : Nat) (n : UInt64) : Held depth (.number (.natural n))
  | negative (depth : Nat) {n : Int64} (h : n.toInt < 0) : Held depth (.number (.negative n))
  | binary (depth : Nat) (bits : UInt64) : Held depth (.number (.binary bits))
  | text (depth : Nat) (s : String) : Held depth (.text s)
  | array {depth : Nat} {vs : List Json} (h : ∀ v ∈ vs, Held depth v) : Held (depth + 1) (.array vs)
  | object {depth : Nat} {ms : List (String × Json)} (hms : Sorted ms)
      (h : ∀ m ∈ ms, Held depth m.2) : Held (depth + 1) (.object ms)

theorem held_of_ofTree? {t : Tree} {depth : Nat} {v : Json} (h : ofTree? depth t = some v) :
    Held depth v := by
  induction t using Tree.induct generalizing depth v with
  | null =>
    cases h
    exact .null depth
  | bool b =>
    cases h
    exact .bool depth b
  | number n =>
    obtain ⟨n, hn, rfl⟩ := Option.map_eq_some_iff.mp h
    cases n with
    | natural n => exact .natural depth n
    | negative n => exact .negative depth (toInt_neg_of_value? hn)
    | binary bits => exact .binary depth bits
  | text raw =>
    obtain ⟨s, -, rfl⟩ := Option.map_eq_some_iff.mp h
    exact .text depth s
  | array ts ih =>
    cases depth with
    | zero => cases h
    | succ depth =>
      obtain ⟨vs, hvs, rfl⟩ := Option.map_eq_some_iff.mp h
      refine .array fun v hv => ?_
      obtain ⟨t, ht, hread⟩ := exists_of_mem_right (ofTrees?_eq_some.mp hvs) hv
      exact ih t ht hread
  | object ms ih =>
    cases depth with
    | zero => cases h
    | succ depth =>
      obtain ⟨ns, hns, rfl⟩ := Option.map_eq_some_iff.mp h
      refine .object (sorted_sortMembers ns) fun n hn => ?_
      obtain ⟨m, hm, -, hread⟩ :=
        exists_of_mem_right (ofMembers?_eq_some.mp hns) (mem_of_mem_sortMembers hn)
      exact ih m hm hread

/-- A value does not depend on the depth that is left to it. -/
theorem ofTree?_mono {t : Tree} {depth depth' : Nat} {v : Json} (h : ofTree? depth t = some v)
    (hle : depth ≤ depth') : ofTree? depth' t = some v := by
  induction t using Tree.induct generalizing depth depth' v with
  | null | bool | number | text => exact h
  | array ts ih =>
    cases depth with
    | zero => cases h
    | succ depth =>
      obtain ⟨depth', rfl⟩ : ∃ d, depth' = d + 1 := ⟨depth' - 1, by omega⟩
      obtain ⟨vs, hvs, rfl⟩ := Option.map_eq_some_iff.mp h
      refine Option.map_eq_some_iff.mpr ⟨vs, ofTrees?_eq_some.mpr ?_, rfl⟩
      exact forall₂_imp_of_mem (fun t ht v hv => ih t ht hv (Nat.le_of_succ_le_succ hle))
        (ofTrees?_eq_some.mp hvs)
  | object ms ih =>
    cases depth with
    | zero => cases h
    | succ depth =>
      obtain ⟨depth', rfl⟩ : ∃ d, depth' = d + 1 := ⟨depth' - 1, by omega⟩
      obtain ⟨ns, hns, rfl⟩ := Option.map_eq_some_iff.mp h
      refine Option.map_eq_some_iff.mpr ⟨ns, ofMembers?_eq_some.mpr ?_, rfl⟩
      exact forall₂_imp_of_mem
        (fun m hm n hn => ⟨hn.1, ih m hm hn.2 (Nat.le_of_succ_le_succ hle)⟩)
        (ofMembers?_eq_some.mp hns)

theorem ofTree?_unique {t : Tree} {depth depth' : Nat} {v w : Json} (hv : ofTree? depth t = some v)
    (hw : ofTree? depth' t = some w) : v = w := by
  rcases Nat.le_total depth depth' with hle | hle
  · exact Option.some.inj ((ofTree?_mono hv hle).symm.trans hw)
  · exact Option.some.inj (hv.symm.trans (ofTree?_mono hw hle))

theorem writtenElements_eq (vs : List Json) : writtenElements vs = vs.map written := by
  induction vs with
  | nil => rfl
  | cons v vs ih => rw [writtenElements, ih, List.map_cons]

theorem writtenMembers_eq (ms : List (String × Json)) :
    writtenMembers ms = ms.map fun m => (body m.1, written m.2) := by
  induction ms with
  | nil => rfl
  | cons m ms ih => rw [writtenMembers, ih, List.map_cons]

/-- The members that are written for an object are read with their names and values. -/
theorem ofMembers?_written {depth : Nat} {ms : List (String × Json)}
    (hms : ∀ m ∈ ms, ofTree? depth (written m.2) = some m.2) :
    ofMembers? depth (writtenMembers ms) = some ms := by
  rw [ofMembers?_eq_some, writtenMembers_eq, List.forall₂_map_left_iff, List.forall₂_same]
  exact fun m hm => ⟨textOf?_body m.1, hms m hm⟩

/-- A value is read back from its tree. -/
theorem ofTree?_written {v : Json} {depth : Nat} (hv : Held depth v) (hexact : IsExact v) :
    ofTree? depth (written v) = some v := by
  induction hv with
  | null | bool => rfl
  | natural depth n =>
    rw [written, ofTree?, value?_numeral (n := .natural n) trivial]
    rfl
  | @negative depth n h =>
    rw [written, ofTree?, value?_numeral (n := .negative n) h]
    rfl
  | binary depth bits => cases hexact
  | text depth s =>
    rw [written, ofTree?, textOf?_body]
    rfl
  | @array depth vs _ ih =>
    cases hexact with | array hexact => ?_
    rw [written, ofTree?, if_neg (Nat.succ_ne_zero depth), Option.map_eq_some_iff]
    refine ⟨vs, ?_, rfl⟩
    rw [ofTrees?_eq_some, writtenElements_eq, List.forall₂_map_left_iff, List.forall₂_same]
    exact fun v hv => ih v hv (hexact v hv)
  | @object depth ms hms _ ih =>
    cases hexact with | object hexact => ?_
    rw [written, ofTree?, if_neg (Nat.succ_ne_zero depth), Option.map_eq_some_iff]
    exact ⟨ms, ofMembers?_written fun m hm => ih m hm (hexact m hm),
      congrArg Json.object (sortMembers_of_sorted hms)⟩

end SelfExtract.Json
