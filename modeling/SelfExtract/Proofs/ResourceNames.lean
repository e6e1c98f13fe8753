import Mathlib.Algebra.Order.BigOperators.Group.List
import Mathlib.Algebra.Order.Group.Nat
import Mathlib.Data.List.Flatten
import SelfExtract.Executable.Pe.Resource
import SelfExtract.Proofs.Overwrite

/-!
# The listed resources of any section

A resource section may hold any bytes: counts, offsets and lengths lead where
they like, and a directory may lead to itself. An entry is listed when it and
all entries before it lie in the section, with the names that they lead to.
Since that is still so when more bytes follow, a section that is cut lists the
first entries of each directory and some of the names of the whole one, in
their order.
-/
namespace SelfExtract.Pe

open Bytes Marker

variable {b : Bytes} {start width n : Nat}

/-- A number is there when its bytes are. -/
theorem number?_eq_some_iff (hwidth : 0 < width) :
    number? b start width = some n ↔ start + width ≤ b.length ∧ n = field b start width := by
  simp only [number?, Option.map_eq_some_iff, window?_eq_some_iff_inside (.inr hwidth)]
  exact ⟨fun ⟨w, ⟨hin, hw⟩, hn⟩ => ⟨hin, by rw [← hn, hw]; rfl⟩, fun ⟨hin, hn⟩ =>
    ⟨_, ⟨hin, rfl⟩, hn.symm⟩⟩

structure NameAt (b : Bytes) (start : Nat) (s : String) : Prop where
  inside : start + 2 + 2 * field b start 2 ≤ b.length
  text : s = Utf16.decodeLossy (units ((b.drop (start + 2)).take (2 * field b start 2)))

inductive KeyAt (b : Bytes) : Nat → ResourceKey → Prop
  | number {n : Nat} : n < topBit → KeyAt b n (.number (n % 65536))
  | name {start : Nat} {s : String} : NameAt b start s → KeyAt b (topBit + start) (.name s)

structure EntryAt (b : Bytes) (start : Nat) (e : ResourceEntry) : Prop where
  inside : start + 8 ≤ b.length
  key : KeyAt b (field b start 4) e.key
  directory : e.directory = if topBit ≤ field b (start + 4) 4 then
    some (field b (start + 4) 4 - topBit) else none

theorem resourceName?_eq_some_iff {s : String} :
    resourceName? b start = some s ↔ NameAt b start s := by
  simp only [resourceName?, Option.bind_eq_bind, Option.bind_eq_some_iff,
    number?_eq_some_iff (Nat.zero_lt_two)]
  constructor
  · rintro ⟨_, ⟨hcount, rfl⟩, raw, hraw, hs⟩
    obtain ⟨hin, rfl⟩ := (window?_eq_some_iff_inside (.inl hcount)).mp hraw
    exact ⟨hin, (Option.some.inj hs).symm⟩
  · rintro ⟨hin, rfl⟩
    exact ⟨_, ⟨by omega, rfl⟩, _,
      (window?_eq_some_iff_inside (.inl (by omega))).mpr ⟨hin, rfl⟩, rfl⟩

theorem resourceEntry?_eq_some_iff {e : ResourceEntry} :
    resourceEntry? b start = some e ↔ EntryAt b start e := by
  simp only [Option.bind_eq_bind, Option.bind_eq_some_iff, resourceEntry?,
    number?_eq_some_iff (Nat.zero_lt_succ 3)]
  constructor
  · rintro ⟨_, ⟨-, rfl⟩, _, ⟨hin, rfl⟩, h⟩
    split at h
    · next htop =>
      obtain ⟨key, hkey, he⟩ := Option.bind_eq_some_iff.mp h
      obtain ⟨s, hs, rfl⟩ := Option.map_eq_some_iff.mp hkey
      obtain rfl := Option.some.inj he
      have hname := KeyAt.name (resourceName?_eq_some_iff.mp hs)
      rw [Nat.add_sub_cancel' htop] at hname
      exact ⟨hin, hname, rfl⟩
    · next htop =>
      obtain rfl := Option.some.inj h
      exact ⟨hin, .number (Nat.lt_of_not_le htop), rfl⟩
  · rintro ⟨hin, hkey, hdirectory⟩
    refine ⟨_, ⟨by omega, rfl⟩, _, ⟨by omega, rfl⟩, ?_⟩
    rw [← hdirectory]
    obtain ⟨key, directory⟩ := e
    generalize field b start (Nat.succ 3) = word at hkey ⊢
    cases hkey with
    | number h =>
      rw [if_neg (Nat.not_le_of_lt h)]
      rfl
    | name h =>
      rw [if_pos (Nat.le_add_right _ _), Nat.add_sub_cancel_left, resourceName?_eq_some_iff.mpr h]
      rfl

def announced (b : Bytes) (directory : Nat) : Nat :=
  field b (directory + 12) 2 + field b (directory + 14) 2

theorem announced_le (b : Bytes) (directory : Nat) : announced b directory ≤ 131070 :=
  Nat.add_le_add (field_le b _ 2) (field_le b _ 2)

/-- Entries are listed as long as they are there. -/
theorem entriesFrom_getElem? (b : Bytes) (count start k : Nat) (e : ResourceEntry) :
    (entriesFrom b count start)[k]? = some e ↔ k < count ∧
      (∀ j < k, ∃ e', EntryAt b (start + 8 * j) e') ∧ EntryAt b (start + 8 * k) e := by
  induction count generalizing start k with
  | zero => simp [entriesFrom]
  | succ count ih =>
    rw [entriesFrom]
    cases hfirst : resourceEntry? b start with
    | none =>
      have hnone : ∀ e', ¬ EntryAt b start e' := fun e' h => by
        rw [resourceEntry?_eq_some_iff.mpr h] at hfirst
        cases hfirst
      simp only [List.getElem?_nil, reduceCtorEq, false_iff]
      rintro ⟨-, hbefore, hat⟩
      cases k with
      | zero => exact hnone e hat
      | succ k =>
        obtain ⟨e', he'⟩ := hbefore 0 (Nat.zero_lt_succ k)
        exact hnone e' he'
    | some first =>
      have hat := resourceEntry?_eq_some_iff.mp hfirst
      cases k with
      | zero =>
        rw [List.getElem?_cons_zero, ← hfirst, resourceEntry?_eq_some_iff]
        simp
      | succ k =>
        have hnext : ∀ j, start + 8 + 8 * j = start + 8 * (j + 1) := fun j => by omega
        simp only [List.getElem?_cons_succ, ih, hnext, Nat.add_lt_add_iff_right]
        refine and_congr_right fun _ => and_congr_left fun _ => ?_
        constructor
        · intro h j hj
          cases j with
          | zero => exact ⟨first, hat⟩
          | succ j => exact h j (by omega)
        · exact fun h j hj => h (j + 1) (by omega)

theorem resourceEntries_getElem? (b : Bytes) (directory k : Nat) (e : ResourceEntry) :
    (resourceEntries b directory)[k]? = some e ↔ k < announced b directory ∧
      (∀ j < k, ∃ e', EntryAt b (directory + 16 + 8 * j) e') ∧
        EntryAt b (directory + 16 + 8 * k) e := by
  by_cases hin : directory + 16 ≤ b.length
  · have hnamed := (number?_eq_some_iff (b := b) Nat.zero_lt_two).mpr
      ⟨show directory + 12 + 2 ≤ _ by omega, rfl⟩
    have hnumbered := (number?_eq_some_iff (b := b) Nat.zero_lt_two).mpr
      ⟨show directory + 14 + 2 ≤ _ by omega, rfl⟩
    rw [resourceEntries, hnamed, hnumbered]
    exact entriesFrom_getElem? b _ _ k e
  · have hnone : number? b (directory + 14) 2 = none := by
      rw [Option.eq_none_iff_forall_ne_some]
      intro v hv
      have := ((number?_eq_some_iff Nat.zero_lt_two).mp hv).1
      omega
    have hempty : resourceEntries b directory = [] := by
      rw [resourceEntries, hnone]
      cases number? b (directory + 12) 2 <;> rfl
    rw [hempty, List.getElem?_nil]
    simp only [reduceCtorEq, false_iff]
    rintro ⟨-, -, hat⟩
    have := hat.inside
    omega

/-! ### A cut section -/

theorem NameAt.of_take {s : String} (h : NameAt (b.take n) start s) : NameAt b start s := by
  obtain ⟨hin, htext⟩ := h
  rw [List.length_take] at hin
  have hcount : field (b.take n) start 2 = field b start 2 := field_take b (by omega)
  rw [hcount] at hin htext
  exact ⟨by omega, by rw [htext, take_drop_take b (by omega)]⟩

theorem KeyAt.of_take {word : Nat} {key : ResourceKey} (h : KeyAt (b.take n) word key) :
    KeyAt b word key := by
  cases h with
  | number h => exact .number h
  | name h => exact .name h.of_take

/-- An entry that ends before the cut is an entry of the whole section. -/
theorem EntryAt.of_take {e : ResourceEntry} (h : EntryAt (b.take n) start e) :
    EntryAt b start e := by
  obtain ⟨hin, hkey, hdirectory⟩ := h
  rw [List.length_take] at hin
  rw [field_take b (by omega)] at hkey hdirectory
  exact ⟨by omega, hkey.of_take, hdirectory⟩

/-- A section that is cut lists the first entries of each directory. -/
theorem resourceEntries_take_isPrefix (b : Bytes) (n directory : Nat) :
    resourceEntries (b.take n) directory <+: resourceEntries b directory := by
  rw [List.prefix_iff_getElem?]
  intro k hk
  obtain ⟨hcount, hbefore, hat⟩ :=
    (resourceEntries_getElem? ..).mp (List.getElem?_eq_getElem hk)
  have hin := hat.inside
  rw [List.length_take] at hin
  have hsame : announced (b.take n) directory = announced b directory := by
    rw [announced, announced, field_take b (by omega), field_take b (by omega)]
  refine (resourceEntries_getElem? ..).mpr ⟨hsame ▸ hcount, fun j hj => ?_, hat.of_take⟩
  obtain ⟨e, he⟩ := hbefore j hj
  exact ⟨e, he.of_take⟩

theorem namesUnder_take_isPrefix (b : Bytes) (n : Nat) (e : ResourceEntry) :
    namesUnder (b.take n) e <+: namesUnder b e := by
  obtain ⟨key, directory⟩ := e
  rcases key with number | name
  · rcases directory with _ | directory
    · exact List.prefix_rfl
    · simp only [namesUnder]
      split
      · exact (resourceEntries_take_isPrefix b n directory).filterMap _
      · exact List.prefix_rfl
  · exact List.prefix_rfl

/-- Names may be missing in a cut section, at the end and in between, but none is new. -/
theorem resourceNames_take_sublist (b : Bytes) (n : Nat) :
    (resourceNames (b.take n)).Sublist (resourceNames b) := by
  have hfewer := (resourceEntries_take_isPrefix b n 0).sublist.flatMap (namesUnder (b.take n))
  have hshorter := List.Sublist.flatMap_right (resourceEntries b 0) fun e _ =>
    (namesUnder_take_isPrefix b n e).sublist
  exact hfewer.trans hshorter

/-! ### The number of listed resources -/

theorem length_resourceEntries_le (b : Bytes) (directory : Nat) :
    (resourceEntries b directory).length ≤ announced b directory := by
  rcases Nat.eq_zero_or_pos (resourceEntries b directory).length with hzero | hpos
  · omega
  · have hlast := List.getElem?_eq_getElem (l := resourceEntries b directory)
      (i := (resourceEntries b directory).length - 1) (by omega)
    have hcount := ((resourceEntries_getElem? ..).mp hlast).1
    omega

theorem length_namesUnder_le (b : Bytes) (e : ResourceEntry) :
    (namesUnder b e).length ≤ 131070 := by
  rw [namesUnder]
  split
  · next number directory _ _ =>
    split
    · exact Nat.le_trans (List.length_filterMap_le ..)
        (Nat.le_trans (length_resourceEntries_le b _) (announced_le b _))
    · exact Nat.zero_le _
  · exact Nat.zero_le _

theorem length_resourceNames_le (b : Bytes) :
    (resourceNames b).length ≤ 131070 * 131070 := by
  have hentries := Nat.le_trans (length_resourceEntries_le b 0) (announced_le b 0)
  rw [resourceNames, List.length_flatMap]
  refine Nat.le_trans (List.sum_le_card_nsmul _ 131070 ?_) ?_
  · simpa using fun e _ => length_namesUnder_le b e
  · rw [List.length_map, Nat.nsmul_eq_mul]
    exact Nat.mul_le_mul_right _ hentries

/-- The resources of any section. A directory lists as many entries as it announces, up to the first
that does not lie in the section; there are at most 131070 of them, so that two levels of
directories come to an end wherever they lead. A section that is cut lists the first of them and
some of the names, in order. -/
theorem resources_inside_or_cut (b : Bytes) :
    (∀ directory k e, (resourceEntries b directory)[k]? = some e ↔
      k < announced b directory ∧ (∀ j < k, ∃ e', EntryAt b (directory + 16 + 8 * j) e') ∧
        EntryAt b (directory + 16 + 8 * k) e) ∧
    (∀ directory, announced b directory ≤ 131070) ∧
    (resourceNames b).length ≤ 131070 * 131070 ∧
    ∀ n, (∀ directory, resourceEntries (b.take n) directory <+: resourceEntries b directory) ∧
      (resourceNames (b.take n)).Sublist (resourceNames b) :=
  ⟨resourceEntries_getElem? b, announced_le b, length_resourceNames_le b, fun n =>
    ⟨resourceEntries_take_isPrefix b n, resourceNames_take_sublist b n⟩⟩

end SelfExtract.Pe
