import SelfExtract.Proofs.ProgramHeaders

/-!
# What the search of the notes reads

The answer is told by the file header, the entries of its table that are
reached and the parts of the note segments that lie in the file. All fields are
taken as they come: a table or a segment may leave the file, an entry may be
longer than a program header, and a sum of fields may be larger than any file.
-/
namespace SelfExtract.Marker

open Bytes

namespace HeaderTable

def headerSize (t : HeaderTable) : Nat :=
  if t.wide then 64 else 52

def entryAt (t : HeaderTable) (k : Nat) : Nat :=
  t.offset + k * t.stride

def segmentAt (t : HeaderTable) (data : Bytes) (k : Nat) : Elf.Segment :=
  Elf.Segment.ofBytes t.format ((data.drop (t.entryAt k)).take t.entrySize)

/-- The table counts the entry, and neither it nor one before it leaves the file. -/
structure Reached (t : HeaderTable) (data : Bytes) (k : Nat) : Prop where
  counted : k < t.count
  inside : ∀ j ≤ k, t.entryAt j + t.entrySize ≤ data.length

theorem Reached.before {t : HeaderTable} {data : Bytes} {j k : Nat} (h : t.Reached data k)
    (hj : j < k) : t.Reached data j :=
  ⟨Nat.lt_trans hj h.counted, fun i hi => h.inside i (by omega)⟩

end HeaderTable

/-- The bytes carry a complete little-endian file header which names the table `t`, and its entries
have room for a program header. -/
structure HasTable (data : Bytes) (t : HeaderTable) : Prop where
  complete : t.headerSize ≤ data.length
  magic : data.take 4 = [0x7F, 0x45, 0x4C, 0x46]
  fileClass : field data 4 1 = if t.wide then 2 else 1
  little : field data 5 1 = 1
  offset : t.offset = if t.wide then field data 32 8 else field data 28 4
  stride : t.stride = if t.wide then field data 54 2 else field data 42 2
  count : t.count = if t.wide then field data 56 2 else field data 44 2
  room : t.entrySize ≤ t.stride

def clipped (data : Bytes) (s : Elf.Segment) : Bytes :=
  (data.drop s.offset).take s.fileSize

/-- Entry `k` is the first note segment that shows the needle, and shows it first at `i`. -/
structure FirstNote (data needle : Bytes) (t : HeaderTable) (k i : Nat) : Prop where
  reached : t.Reached data k
  note : (t.segmentAt data k).type = 4
  first : IsFirst (clipped data (t.segmentAt data k)) needle i
  earlier : ∀ j < k, (t.segmentAt data j).type = 4 →
    ∀ i, ¬ OccursAt (clipped data (t.segmentAt data j)) needle i

/-- The header is read from its own bytes: those of the larger class only where it says so. -/
theorem headerTable?_eq_some_iff (data : Bytes) (t : HeaderTable) :
    headerTable? data = some t ↔ HasTable data t := by
  have hfour : (data.take 64).take 4 = data.take 4 := List.take_take
  have hfield : ∀ start width, start + width ≤ 64 →
      field (data.take 64) start width = field data start width :=
    fun start width hin => field_take data hin
  simp only [headerTable?, hfour, List.length_take, hfield 4 1 (by omega), hfield 5 1 (by omega),
    hfield 28 4 (by omega), hfield 42 2 (by omega), hfield 44 2 (by omega),
    hfield 32 8 (by omega), hfield 54 2 (by omega), hfield 56 2 (by omega),
    Option.filter_eq_some_iff, decide_eq_true_eq]
  constructor
  · rintro ⟨h, hroom⟩
    split at h
    · cases h
    · next hno =>
      simp only [Bool.or_eq_true, decide_eq_true_eq, bne_iff_ne, not_or, Decidable.not_not,
        Nat.not_lt] at hno
      obtain ⟨⟨hlen, hmagic⟩, hlittle⟩ := hno
      split at h
      · next hwide =>
        simp only [Bool.and_eq_true, decide_eq_true_eq] at hwide
        cases h
        have hlen : 64 ≤ data.length := by omega
        exact ⟨hlen, hmagic, hwide.1, hlittle, rfl, rfl, rfl, hroom⟩
      · split at h
        · next hnarrow =>
          cases h
          have hlen : 52 ≤ data.length := by omega
          exact ⟨hlen, hmagic, hnarrow, hlittle, rfl, rfl, rfl, hroom⟩
        · cases h
  · intro h
    obtain ⟨offset, stride, count, wide⟩ := t
    obtain ⟨hlen, hmagic, hclass, hlittle, hoffset, hstride, hcount, hroom⟩ := h
    refine ⟨?_, hroom⟩
    cases wide
    all_goals
      simp only [HeaderTable.headerSize, if_true, Bool.false_eq_true, if_false] at *
      subst hoffset hstride hcount
      rw [if_neg (by simp [hmagic, hlittle]; omega), hclass]
      simp
    omega

theorem HasTable.unique {data : Bytes} {t u : HeaderTable} (ht : HasTable data t)
    (hu : HasTable data u) : t = u :=
  Option.some.inj (((headerTable?_eq_some_iff data t).mpr ht).symm.trans
    ((headerTable?_eq_some_iff data u).mpr hu))

/-- One entry is taken when it lies in the file, and none behind one that does not. -/
theorem segmentsFrom_succ (t : HeaderTable) (data : Bytes) (count i : Nat) :
    t.segmentsFrom data (count + 1) i =
      if t.entryAt i + t.entrySize ≤ data.length then
        t.segmentAt data i :: t.segmentsFrom data count (i + 1)
      else [] := by
  have hpos : 0 < t.entrySize := by rw [HeaderTable.entrySize]; split <;> omega
  have hlen : ((data.drop (t.entryAt i)).take t.entrySize).length =
      min t.entrySize (data.length - t.entryAt i) := by rw [List.length_take, List.length_drop]
  rw [HeaderTable.segmentsFrom, ← HeaderTable.entryAt, window?]
  by_cases h : t.entryAt i + t.entrySize ≤ data.length
  · rw [if_pos h, if_pos (by omega)]
    rfl
  · rw [if_neg h, if_neg (by omega)]

/-- What is read at each place: the program header there, as long as no entry left the file. -/
theorem segmentsFrom_getElem? (t : HeaderTable) (data : Bytes) (count i k : Nat)
    (s : Elf.Segment) :
    (t.segmentsFrom data count i)[k]? = some s ↔
      (k < count ∧ ∀ j ≤ k, t.entryAt (i + j) + t.entrySize ≤ data.length) ∧
        s = t.segmentAt data (i + k) := by
  induction count generalizing i k with
  | zero => simp [HeaderTable.segmentsFrom]
  | succ count ih =>
    rw [segmentsFrom_succ]
    by_cases h : t.entryAt i + t.entrySize ≤ data.length
    · rw [if_pos h]
      cases k with
      | zero => simp [h, eq_comm]
      | succ k =>
        have hnext : ∀ j, i + 1 + j = i + (j + 1) := by omega
        simp only [List.getElem?_cons_succ, ih, hnext, Nat.add_lt_add_iff_right]
        refine and_congr_left fun _ => and_congr_right fun _ =>
          ⟨fun hk j hj => ?_, fun hk j hj => ?_⟩
        · cases j with
          | zero => exact h
          | succ j => exact hk j (by omega)
        · exact hk (j + 1) (by omega)
    · rw [if_neg h]
      simp only [List.getElem?_nil, reduceCtorEq, false_iff]
      exact fun hall => h (hall.1.2 0 (Nat.zero_le k))

theorem listed_getElem? (data : Bytes) (k : Nat) (s : Elf.Segment) :
    (listed data)[k]? = some s ↔
      ∃ t, HasTable data t ∧ t.Reached data k ∧ s = t.segmentAt data k := by
  simp only [← headerTable?_eq_some_iff, listed]
  cases headerTable? data with
  | none => simp
  | some t =>
    simp only [Option.elim, segmentsFrom_getElem?, Nat.zero_add, Option.some.injEq,
      exists_eq_left']
    exact and_congr_left fun _ => ⟨fun h => ⟨h.1, h.2⟩, fun h => ⟨h.counted, h.inside⟩⟩

theorem firstShown_cons (data needle : Bytes) (s : Elf.Segment) (segments : List Elf.Segment) :
    firstShown data needle (s :: segments) =
      if s.type = 4 then (firstIn data needle s).or (firstShown data needle segments)
      else firstShown data needle segments := by
  simp only [firstShown, List.filter_cons, decide_eq_true_eq]
  split
  · rw [List.findSome?_cons]
    cases firstIn data needle s <;> rfl
  · rfl

/-- The answer comes from the first note segment that has one. -/
theorem firstShown_eq_some_iff (data needle : Bytes) (segments : List Elf.Segment) (n : Nat) :
    firstShown data needle segments = some n ↔
      ∃ (k : Nat) (s : Elf.Segment), segments[k]? = some s ∧ s.type = 4 ∧
        firstIn data needle s = some n ∧
        ∀ j < k, ∀ r, segments[j]? = some r → r.type = 4 → firstIn data needle r = none := by
  induction segments with
  | nil => simp [firstShown]
  | cons s segments ih =>
    rw [firstShown_cons]
    by_cases hs : ∃ m, s.type = 4 ∧ firstIn data needle s = some m
    · obtain ⟨m, h4, hm⟩ := hs
      rw [if_pos h4, hm, Option.some_or]
      constructor
      · intro h
        exact ⟨0, s, rfl, h4, hm.trans h, fun j hj => absurd hj (Nat.not_lt_zero j)⟩
      · rintro ⟨k, r, hk, -, hr, hbefore⟩
        cases k with
        | zero =>
          obtain rfl := Option.some.inj hk
          rw [← hr, hm]
        | succ k =>
          rw [hbefore 0 (Nat.zero_lt_succ k) s rfl h4] at hm
          cases hm
    · have hnone : s.type = 4 → firstIn data needle s = none := fun h4 =>
        Option.eq_none_iff_forall_ne_some.mpr fun m hm => hs ⟨m, h4, hm⟩
      have hskip : (if s.type = 4 then (firstIn data needle s).or (firstShown data needle segments)
          else firstShown data needle segments) = firstShown data needle segments := by
        split
        · next h4 => rw [hnone h4, Option.none_or]
        · rfl
      rw [hskip, ih]
      constructor
      · rintro ⟨k, r, hk, h4, hr, hbefore⟩
        refine ⟨k + 1, r, hk, h4, hr, fun j hj q hq => ?_⟩
        cases j with
        | zero => exact Option.some.inj hq ▸ hnone
        | succ j => exact hbefore j (by omega) q hq
      · rintro ⟨k, r, hk, h4, hr, hbefore⟩
        cases k with
        | zero => exact absurd ⟨n, Option.some.inj hk ▸ ⟨h4, hr⟩⟩ hs
        | succ k => exact ⟨k, r, hk, h4, hr, fun j hj q hq => hbefore (j + 1) (by omega) q hq⟩

theorem firstIn_eq_some_iff {data needle : Bytes} (hn : needle ≠ []) (s : Elf.Segment) (n : Nat) :
    firstIn data needle s = some n ↔
      ∃ i, IsFirst (clipped data s) needle i ∧ n = s.offset + i := by
  rw [firstIn, Option.map_eq_some_iff]
  exact exists_congr fun i => and_congr (firstIndex?_eq_some_iff hn) eq_comm

theorem firstIn_eq_none_iff {data needle : Bytes} (hn : needle ≠ []) (s : Elf.Segment) :
    firstIn data needle s = none ↔ ∀ i, ¬ OccursAt (clipped data s) needle i := by
  rw [firstIn, Option.map_eq_none_iff]
  exact firstIndex?_eq_none_iff hn

/-- The reference for the search: a table, an entry of it and a place in its segment. -/
theorem findInNotes_eq_some_iff (m : Marker) (p : Position) (data : Bytes) (hn : m.bytes ≠ [])
    (n : Nat) :
    findInNotes m p data = some n ↔
      ∃ t k i, HasTable data t ∧ FirstNote data m.bytes t k i ∧
        n = p.apply ((t.segmentAt data k).offset + i) m.bytes.length := by
  simp only [findInNotes_eq m p data hn, Option.map_eq_some_iff, firstShown_eq_some_iff,
    listed_getElem?]
  constructor
  · rintro ⟨found, ⟨k, s, ⟨t, ht, hk, rfl⟩, h4, hfound, hbefore⟩, rfl⟩
    obtain ⟨i, hi, rfl⟩ := (firstIn_eq_some_iff hn _ _).mp hfound
    refine ⟨t, k, i, ht, ⟨hk, h4, hi, fun j hj hj4 => ?_⟩, rfl⟩
    rw [← firstIn_eq_none_iff hn]
    exact hbefore j hj _ ⟨t, ht, hk.before hj, rfl⟩ hj4
  · rintro ⟨t, k, i, ht, hfirst, rfl⟩
    refine ⟨_, ⟨k, _, ⟨t, ht, hfirst.reached, rfl⟩, hfirst.note,
      (firstIn_eq_some_iff hn _ _).mpr ⟨i, hfirst.first, rfl⟩, ?_⟩, rfl⟩
    rintro j hj r ⟨u, hu, -, rfl⟩ hr4
    obtain rfl := ht.unique hu
    exact (firstIn_eq_none_iff hn _).mpr (hfirst.earlier j hj hr4)

/-- Two byte strings have the same bytes in a range. -/
def SameIn (b d : Bytes) (start len : Nat) : Prop :=
  ∀ k < len, b[start + k]? = d[start + k]?

instance (b d : Bytes) (start len : Nat) : Decidable (SameIn b d start len) :=
  inferInstanceAs (Decidable (∀ k < len, _))

theorem SameIn.field_eq {b d : Bytes} {start len i width : Nat} (h : SameIn b d start len)
    (hi : i + width ≤ len) : field b (start + i) width = field d (start + i) width :=
  field_congr fun k hk => by rw [Nat.add_assoc]; exact h (i + k) (by omega)

theorem SameIn.take_drop {b d : Bytes} {start len : Nat} (h : SameIn b d start len) :
    (b.drop start).take len = (d.drop start).take len :=
  take_drop_congr h

/-- Two files of one length have the bytes in common which the search of the notes is about: the
file header, the entries of its table, and what their note segments name. -/
structure AgreeOnNotes (data other : Bytes) : Prop where
  length : data.length = other.length
  header : SameIn data other 0 (if field data 4 1 = 2 then 64 else 52)
  entries : ∀ t k, HasTable data t → t.Reached data k →
    SameIn data other (t.entryAt k) t.entrySize
  notes : ∀ t k, HasTable data t → t.Reached data k → (t.segmentAt data k).type = 4 →
    SameIn data other (t.segmentAt data k).offset (t.segmentAt data k).fileSize

theorem HasTable.congr {data other : Bytes} {t : HeaderTable} (ht : HasTable data t)
    (hlen : data.length = other.length) (h : SameIn data other 0 t.headerSize) :
    HasTable other t := by
  obtain ⟨hcomplete, hmagic, hclass, hlittle, hoffset, hstride, hcount, hroom⟩ := ht
  have hsize : t.headerSize = if t.wide then 64 else 52 := rfl
  have hfield : ∀ i width, i + width ≤ t.headerSize → field data i width = field other i width := by
    intro i width hi
    simpa using h.field_eq hi
  have hsmall : 52 ≤ t.headerSize := by rw [hsize]; split <;> omega
  rw [hfield 4 1 (by omega)] at hclass
  rw [hfield 5 1 (by omega)] at hlittle
  refine ⟨hlen ▸ hcomplete, ?_, hclass, hlittle, ?_, ?_, ?_, hroom⟩
  · rw [← hmagic]
    exact (take_drop_congr (i := 0) (j := 0) fun k hk => h k (by omega)).symm
  · rw [hoffset]
    split <;> exact hfield _ _ (by simp_all)
  · rw [hstride]
    split <;> exact hfield _ _ (by simp_all)
  · rw [hcount]
    split <;> exact hfield _ _ (by simp_all)

/-- The header is as long as its class says. -/
theorem HasTable.headerSize_le {data : Bytes} {t : HeaderTable} (ht : HasTable data t) :
    t.headerSize ≤ if field data 4 1 = 2 then 64 else 52 := by
  rw [ht.fileClass, HeaderTable.headerSize]
  cases t.wide <;> decide

theorem firstShown_congr {data other needle : Bytes} {segments : List Elf.Segment}
    (h : ∀ s ∈ segments, s.type = 4 → firstIn data needle s = firstIn other needle s) :
    firstShown data needle segments = firstShown other needle segments := by
  induction segments with
  | nil => rfl
  | cons s segments ih =>
    obtain ⟨hs, hrest⟩ := List.forall_mem_cons.mp h
    rw [firstShown_cons, firstShown_cons, ih hrest]
    split
    · next h4 => rw [hs h4]
    · rfl

namespace AgreeOnNotes

variable {data other : Bytes} (h : AgreeOnNotes data other)
include h

theorem hasTable_iff (t : HeaderTable) : HasTable data t ↔ HasTable other t := by
  have hsmall : 4 + 1 ≤ if field data 4 1 = 2 then 64 else 52 := by split <;> omega
  have hclass : field data 4 1 = field other 4 1 := by simpa using h.header.field_eq hsmall
  constructor
  · intro ht
    exact ht.congr h.length fun k hk => h.header k (by have := ht.headerSize_le; omega)
  · intro ht
    refine ht.congr h.length.symm fun k hk => (h.header k ?_).symm
    have := ht.headerSize_le
    rw [hclass]
    omega

theorem reached_iff (t : HeaderTable) (k : Nat) : t.Reached data k ↔ t.Reached other k := by
  constructor
  · exact fun hk => ⟨hk.counted, h.length ▸ hk.inside⟩
  · exact fun hk => ⟨hk.counted, h.length ▸ hk.inside⟩

/-- Both files list the same segments. -/
theorem listed_eq : listed data = listed other := by
  apply List.ext_getElem?
  intro k
  apply Option.ext
  intro s
  rw [listed_getElem?, listed_getElem?]
  refine exists_congr fun t => ?_
  rw [← h.hasTable_iff, ← h.reached_iff]
  refine and_congr_right fun ht => and_congr_right fun hk => ?_
  rw [HeaderTable.segmentAt, HeaderTable.segmentAt, (h.entries t k ht hk).take_drop]

/-- A note segment shows the same in both files. -/
theorem firstIn_eq {s : Elf.Segment} (hs : s ∈ listed data) (h4 : s.type = 4) (needle : Bytes) :
    firstIn data needle s = firstIn other needle s := by
  obtain ⟨k, hk⟩ := List.mem_iff_getElem?.mp hs
  obtain ⟨t, ht, hreached, rfl⟩ := (listed_getElem? data k s).mp hk
  rw [firstIn, firstIn, (h.notes t k ht hreached h4).take_drop]

theorem findInNotes_eq (m : Marker) (p : Position) (hn : m.bytes ≠ []) :
    findInNotes m p other = findInNotes m p data := by
  rw [Marker.findInNotes_eq m p other hn, Marker.findInNotes_eq m p data hn, ← h.listed_eq,
    firstShown_congr fun s hs h4 => h.firstIn_eq hs h4 m.bytes]

end AgreeOnNotes

/-- What is found lies in the file, so no offset is larger than the file is long. -/
theorem findInNotes_le {m : Marker} {p : Position} {data : Bytes} {n : Nat} (hn : m.bytes ≠ [])
    (h : findInNotes m p data = some n) : n ≤ data.length := by
  obtain ⟨t, k, i, -, hfirst, rfl⟩ := (findInNotes_eq_some_iff m p data hn n).mp h
  have hend := hfirst.first.occurs.le_length hn
  have hpos := List.length_pos_iff.mpr hn
  rw [clipped, List.length_take, List.length_drop] at hend
  cases p <;> simp only [Position.apply] <;> omega

/-- The search of the notes for a marker that is not empty. It finds the marker exactly where the
reference does: in the first note segment of a complete little-endian file header's table that shows
one, among the entries in front of the first that leaves the file. What it says lies in the file,
and bytes which are neither of the header, nor of an entry, nor of a note segment have no say in
it. -/
theorem findInNotes_reference (m : Marker) (p : Position) (data : Bytes) (hn : m.bytes ≠ []) :
    (∀ n, findInNotes m p data = some n ↔
      ∃ t k i, HasTable data t ∧ FirstNote data m.bytes t k i ∧
        n = p.apply ((t.segmentAt data k).offset + i) m.bytes.length) ∧
    (findInNotes m p data = none ↔
      ∀ t, HasTable data t → ∀ k i, ¬ FirstNote data m.bytes t k i) ∧
    (∀ n, findInNotes m p data = some n → n ≤ data.length) ∧
    (∀ other, AgreeOnNotes data other → findInNotes m p other = findInNotes m p data) := by
  refine ⟨findInNotes_eq_some_iff m p data hn, ?_, fun n => findInNotes_le hn,
    fun other h => h.findInNotes_eq m p hn⟩
  rw [Option.eq_none_iff_forall_ne_some]
  constructor
  · intro hnone t ht k i hfirst
    exact hnone _ ((findInNotes_eq_some_iff m p data hn _).mpr ⟨t, k, i, ht, hfirst, rfl⟩)
  · intro hnone n hsome
    obtain ⟨t, k, i, ht, hfirst, -⟩ := (findInNotes_eq_some_iff m p data hn n).mp hsome
    exact hnone t ht k i hfirst

/-- A file of the smaller class with entries that are one byte longer than they need to be. The
first note ends inside the marker `7 8 9`, and the second one claims to go on beyond the end. -/
def twoNotes (gap : UInt8) : Bytes :=
  [0x7F, 0x45, 0x4C, 0x46, 1, 1] ++ List.replicate 22 0 ++ ofNatLE 4 52 ++ List.replicate 10 0 ++
    ofNatLE 2 33 ++ ofNatLE 2 2 ++ List.replicate 6 0 ++
    (ofNatLE 4 4 ++ ofNatLE 4 117 ++ List.replicate 8 0 ++ ofNatLE 4 2 ++ List.replicate 12 0) ++
    [gap] ++
    (ofNatLE 4 4 ++ ofNatLE 4 119 ++ List.replicate 8 0 ++ ofNatLE 4 200 ++ List.replicate 12 0) ++
    [7, 8, 0, 7, 8, 9]

theorem hasTable_twoNotes : HasTable (twoNotes 0) ⟨52, 33, 2, false⟩ where
  complete := by decide +kernel
  magic := by decide +kernel
  fileClass := by decide +kernel
  little := by decide +kernel
  offset := by decide +kernel
  stride := by decide +kernel
  count := by decide +kernel
  room := by decide +kernel

theorem firstNote_twoNotes : FirstNote (twoNotes 0) [7, 8, 9] ⟨52, 33, 2, false⟩ 1 1 where
  reached := ⟨by decide, by decide +kernel⟩
  note := by decide +kernel
  first := (firstIndex?_eq_some_iff (by decide)).mp (by decide +kernel)
  earlier := by
    intro j hj _
    obtain rfl : j = 0 := by omega
    exact (firstIndex?_eq_none_iff (by decide)).mp (by decide +kernel)

/-- The byte between the entries belongs to none of them. -/
theorem agreeOnNotes_twoNotes : AgreeOnNotes (twoNotes 0) (twoNotes 255) where
  length := by decide +kernel
  header := by decide +kernel
  entries := by
    intro t k ht hk
    obtain rfl := ht.unique hasTable_twoNotes
    obtain rfl | rfl : k = 0 ∨ k = 1 := by have : k < 2 := hk.counted; omega
    all_goals decide +kernel
  notes := by
    intro t k ht hk _
    obtain rfl := ht.unique hasTable_twoNotes
    obtain rfl | rfl : k = 0 ∨ k = 1 := by have : k < 2 := hk.counted; omega
    all_goals decide +kernel

theorem findInNotes_reference_twoNotes :
    findInNotes ⟨[7], [8], [9]⟩ .after (twoNotes 0) = some 123 ∧
      findInNotes ⟨[7], [8], [9]⟩ .after (twoNotes 255) = some 123 := by
  obtain ⟨hsome, -, -, hsame⟩ :=
    findInNotes_reference ⟨[7], [8], [9]⟩ .after (twoNotes 0) (by decide)
  have hfound := (hsome 123).mpr
    ⟨_, _, _, hasTable_twoNotes, firstNote_twoNotes, by decide +kernel⟩
  exact ⟨hfound, (hsame _ agreeOnNotes_twoNotes).trans hfound⟩

end SelfExtract.Marker
