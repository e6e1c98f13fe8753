import SelfExtract.Executable.Elf
import SelfExtract.Proofs.Overwrite
import SelfExtract.Proofs.Scan

/-!
# Two readers of the program headers

`Elf.read?` refuses a file whose program headers are not all inside it. The
search for a marker reads the same headers with a walk of its own and stops at
the first one that is not inside the file. On every file of the 64-bit
little-endian class that `Elf.read?` accepts, both see the same segments.
-/
namespace SelfExtract

open Bytes

namespace Elf

theorem entries?_spec {b : Bytes} {size count start : Nat} {ws : List Bytes}
    (h : entries? b size count start = some ws) :
    ws.length = count ∧ ∀ (k : Nat) (hk : k < ws.length),
      b.window? (start + k * size) size = some ws[k] := by
  induction count generalizing start ws with
  | zero =>
    cases h
    exact ⟨rfl, fun k hk => absurd hk (Nat.not_lt_zero k)⟩
  | succ count ih =>
    simp only [entries?, Option.bind_eq_bind, Option.bind_eq_some_iff] at h
    obtain ⟨w, hw, r, hr, heq⟩ := h
    cases heq
    obtain ⟨hlen, hat⟩ := ih hr
    refine ⟨by rw [List.length_cons, hlen], ?_⟩
    intro k hk
    cases k with
    | zero => simpa using hw
    | succ k =>
      have hwk := hat k (by rw [List.length_cons] at hk; omega)
      rw [List.getElem_cons_succ, ← hwk, Nat.add_mul, Nat.one_mul, Nat.add_assoc,
        Nat.add_comm size]

/-- What `read?` has found where a file of the 64-bit little-endian class is accepted. -/
structure WideHeader (b : Bytes) (e : Elf) : Prop where
  complete : 64 ≤ b.length
  magic : b.take 4 = [0x7F, 0x45, 0x4C, 0x46]
  wide : Marker.field b 4 1 = 2
  little : Marker.field b 5 1 = 1
  table : e.segmentTable = Marker.field b 32 8
  stride : e.segmentEntrySize = Marker.field b 54 2
  count : e.segments.length = Marker.field b 56 2
  entry : ∀ (k : Nat) (hk : k < e.segments.length), ∃ w,
    b.window? (e.segmentTable + k * 56) 56 = some w ∧
      e.segments[k] = Segment.ofBytes ⟨true, .little⟩ w

/-- A header that is counted lies inside the file. -/
theorem WideHeader.entry_le {b : Bytes} {e : Elf} (h : WideHeader b e) {k : Nat}
    (hk : k < e.segments.length) : e.segmentTable + k * 56 + 56 ≤ b.length := by
  obtain ⟨w, hw, -⟩ := h.entry k hk
  have := le_length_of_window? hw
  omega

/-- A program header of the 64-bit class in terms of the file in which it stands. -/
theorem Segment.ofBytes_window {b w : Bytes} {start : Nat} (h : b.window? start 56 = some w) :
    Segment.ofBytes ⟨true, .little⟩ w = ⟨Marker.field b start 4, Marker.field b (start + 8) 8,
      Marker.field b (start + 16) 8, Marker.field b (start + 32) 8,
      Marker.field b (start + 40) 8⟩ := by
  have hfield : ∀ i width, i + width ≤ 56 →
      Marker.field w i width = Marker.field b (start + i) width := by
    intro i width hin
    rw [eq_of_window? h, Marker.field_take _ hin]
    exact Marker.field_congr fun k _ => by rw [List.getElem?_drop, Nat.add_assoc]
  rw [← Nat.add_zero start, ← hfield 0 4 (by omega)]
  simp only [Nat.add_zero, ← hfield 8 8 (by omega), ← hfield 16 8 (by omega),
    ← hfield 32 8 (by omega), ← hfield 40 8 (by omega)]
  rfl

/-- The magic, class and byte order that a format stands for. -/
theorem format?_wide_little {b : Bytes} (h : format? b = some ⟨true, .little⟩) :
    b.take 4 = [0x7F, 0x45, 0x4C, 0x46] ∧ b.getD 4 0 = 2 ∧ b.getD 5 0 = 1 := by
  unfold format? at h
  split at h
  · cases h
  · next hmagic =>
    have hfour : b.take 4 = [0x7F, 0x45, 0x4C, 0x46] := by
      simp only [Bool.or_eq_true, bne_iff_ne, not_or, Decidable.not_not] at hmagic
      exact hmagic.2
    refine ⟨hfour, ?_⟩
    generalize b.getD 4 0 = class_, b.getD 5 0 = order at h
    split at h
    · split at h <;> cases h
    · split at h
      · exact ⟨rfl, rfl⟩
      · cases h
      · cases h
    · cases h

theorem field_one (b : Bytes) (i : Nat) (h : i < b.length) :
    Marker.field b i 1 = (b.getD i 0).toNat := by
  rw [Marker.field, List.drop_eq_getElem_cons h, List.take_succ_cons, List.take_zero, natLE, natLE,
    List.getD_eq_getElem?_getD, List.getElem?_eq_getElem h]
  rfl

theorem read?_wide {b : Bytes} {e : Elf} (h : read? b = some e)
    (hformat : e.format = ⟨true, .little⟩) : WideHeader b e := by
  simp only [read?, Option.bind_eq_bind, Option.bind_eq_some_iff] at h
  obtain ⟨f, hf, header, hheader, segments, hsegments, sections, -, names, -, dynamic, -, h⟩ := h
  split at h
  · cases h
  · cases h
    obtain rfl : f = ⟨true, .little⟩ := hformat
    have hlen : 64 ≤ b.length := le_length_of_window? hheader
    have hcut : header = b.take 64 := eq_of_window? hheader
    have hfield : ∀ start width, start + width ≤ 64 →
        Marker.field header start width = Marker.field b start width := by
      intro start width hin
      rw [hcut]
      exact Marker.field_take b hin
    obtain ⟨hmagic, hclass, horder⟩ := format?_wide_little hf
    simp only [segments?, ↓reduceIte] at hsegments
    split at hsegments
    · cases hsegments
    · obtain ⟨ws, hws, rfl⟩ := Option.map_eq_some_iff.mp hsegments
      obtain ⟨hcount, hat⟩ := entries?_spec hws
      exact {
        complete := hlen
        magic := hmagic
        wide := by rw [field_one b 4 (by omega), hclass]; rfl
        little := by rw [field_one b 5 (by omega), horder]; rfl
        table := hfield 32 8 (by omega)
        stride := hfield 54 2 (by omega)
        count := by rw [List.length_map, hcount]; exact hfield 56 2 (by omega)
        entry := by
          intro k hk
          rw [List.length_map] at hk
          exact ⟨ws[k], hat k hk, by rw [List.getElem_map]⟩ }

end Elf

namespace Marker

/-- The first marker in the part of a segment that lies in the file. -/
def firstIn (data needle : Bytes) (s : Elf.Segment) : Option Nat :=
  (firstIndex? ((data.drop s.offset).take s.fileSize) needle).map (s.offset + ·)

/-- The first marker in the first note segment that shows one. -/
def firstShown (data needle : Bytes) (segments : List Elf.Segment) : Option Nat :=
  (segments.filter (·.type = 4)).findSome? (firstIn data needle)

theorem firstShown_eq_none {data needle : Bytes} {segments : List Elf.Segment}
    (h : firstShown data needle segments = none) {s : Elf.Segment} (hs : s ∈ segments)
    (h4 : s.type = 4) : firstIn data needle s = none := by
  rw [firstShown, List.findSome?_eq_none_iff] at h
  exact h s (List.mem_filter.mpr ⟨hs, by simpa using h4⟩)

namespace HeaderTable

def format (t : HeaderTable) : Elf.Format :=
  ⟨t.wide, .little⟩

/-- The segments of `count` entries from entry `i` on, up to the first entry that is not wholly
inside the file. -/
def segmentsFrom (t : HeaderTable) (data : Bytes) : Nat → Nat → List Elf.Segment
  | 0, _ => []
  | count + 1, i =>
    match data.window? (t.offset + i * t.stride) t.entrySize with
    | none => []
    | some w => Elf.Segment.ofBytes t.format w :: segmentsFrom t data count (i + 1)

/-- Where every entry is inside the file, all entries are read. -/
theorem segmentsFrom_eq (t : HeaderTable) (data : Bytes) (segments : List Elf.Segment) (i : Nat)
    (h : ∀ (k : Nat) (hk : k < segments.length), ∃ w,
      data.window? (t.offset + (i + k) * t.stride) t.entrySize = some w ∧
        segments[k] = Elf.Segment.ofBytes t.format w) :
    t.segmentsFrom data segments.length i = segments := by
  induction segments generalizing i with
  | nil => rfl
  | cons s segments ih =>
    obtain ⟨w, hw, hs⟩ := h 0 (Nat.zero_lt_succ _)
    rw [Nat.add_zero] at hw
    rw [List.getElem_cons_zero] at hs
    rw [List.length_cons, segmentsFrom, hw]
    simp only [← hs, List.cons.injEq, true_and]
    apply ih (i + 1)
    intro k hk
    have hnext := h (k + 1) (Nat.succ_lt_succ hk)
    rw [List.getElem_cons_succ, Nat.add_comm k 1, ← Nat.add_assoc] at hnext
    exact hnext

end HeaderTable

def listed (data : Bytes) : List Elf.Segment :=
  (headerTable? data).elim [] fun t => t.segmentsFrom data t.count 0

theorem firstIn_of_outside {data needle : Bytes} (hn : needle ≠ []) {s : Elf.Segment}
    (h : s.fileSize = 0 ∨ data.length ≤ s.offset) : firstIn data needle s = none := by
  have hnil : (data.drop s.offset).take s.fileSize = [] := by
    rcases h with h | h
    · rw [h, List.take_zero]
    · rw [List.drop_of_length_le h, List.take_nil]
  rw [firstIn, hnil, (firstIndex?_eq_none_iff hn).mpr, Option.map_none]
  intro i hi
  have := hi.le_length hn
  have := List.length_pos_iff.mpr hn
  rw [List.length_nil] at *
  omega

/-- A segment is searched up to the end of the file. -/
theorem scan_clipped (data needle : Bytes) (s : Elf.Segment) :
    scan data needle s.offset (min s.fileSize (data.length - s.offset)) =
      firstIn data needle s := by
  rw [scan_eq, firstIn, ← List.take_take]
  congr 3
  exact List.take_of_length_le (Nat.le_of_eq List.length_drop)

/-- The fields that the walk reads are those of the segment. -/
theorem field_segment (t : HeaderTable) (w : Bytes) :
    field w 0 4 = (Elf.Segment.ofBytes t.format w).type ∧
    (if t.wide then field w 8 8 else field w 4 4) = (Elf.Segment.ofBytes t.format w).offset ∧
    (if t.wide then field w 32 8 else field w 16 4) =
      (Elf.Segment.ofBytes t.format w).fileSize := by
  cases ht : t.wide <;>
    simp [Elf.Segment.ofBytes, Elf.Format.word, HeaderTable.format, field, ByteOrder.nat, ht]

theorem noteRange?_scan (t : HeaderTable) {data needle : Bytes} (hn : needle ≠ []) (w : Bytes) :
    ((noteRange? t w data).bind fun r => scan data needle r.1 r.2) =
      if (Elf.Segment.ofBytes t.format w).type = 4 then
        firstIn data needle (Elf.Segment.ofBytes t.format w)
      else none := by
  obtain ⟨htype, hoffset, hsize⟩ := field_segment t w
  simp only [noteRange?, htype, hoffset, hsize]
  generalize Elf.Segment.ofBytes t.format w = s
  by_cases h4 : s.type = 4
  · rw [if_pos h4]
    by_cases h0 : s.fileSize = 0
    · rw [if_pos (by simp [h0]), Option.bind_none, firstIn_of_outside hn (Or.inl h0)]
    · rw [if_neg (by simp [h4, h0, noteType])]
      by_cases hlen : data.length ≤ s.offset
      · rw [if_pos hlen, Option.bind_none, firstIn_of_outside hn (Or.inr hlen)]
      · rw [if_neg hlen, Option.bind_some, scan_clipped]
  · rw [if_neg h4, if_pos (by simp [h4, noteType]), Option.bind_none]

/-- The walk over the program headers gives what the first note segment with a marker shows. -/
theorem scanNotes_eq (t : HeaderTable) {data needle : Bytes} (hn : needle ≠ []) (count i : Nat) :
    scanNotes data needle t count i = firstShown data needle (t.segmentsFrom data count i) := by
  induction count generalizing i with
  | zero => rfl
  | succ count ih =>
    have hle := List.length_take_le t.entrySize (data.drop (t.offset + i * t.stride))
    simp only [scanNotes, HeaderTable.segmentsFrom, window?]
    generalize (data.drop (t.offset + i * t.stride)).take t.entrySize = entry at hle ⊢
    by_cases hshort : entry.length < t.entrySize
    · rw [if_pos hshort, if_neg (by omega)]
      rfl
    · rw [if_neg hshort, if_pos (by omega), noteRange?_scan t hn, ih]
      simp only [firstShown, List.filter_cons]
      by_cases h4 : (Elf.Segment.ofBytes t.format entry).type = 4
      · simp only [h4, decide_true, if_true, List.findSome?_cons]
        cases firstIn data needle (Elf.Segment.ofBytes t.format entry) <;> rfl
      · simp only [h4, decide_false, Bool.false_eq_true, if_false]

theorem findInNotes_eq (m : Marker) (p : Position) (data : Bytes) (hn : m.bytes ≠ []) :
    m.findInNotes p data =
      (firstShown data m.bytes (listed data)).map (p.apply · m.bytes.length) := by
  rw [findInNotes, listed]
  cases headerTable? data with
  | none => rfl
  | some t =>
    simp only [Option.bind_eq_bind, Option.bind_some, Option.elim, scanNotes_eq t hn]
    cases firstShown data m.bytes (t.segmentsFrom data t.count 0) <;> rfl

/-- The table that the header of a complete file of the 64-bit class names. -/
theorem headerTable?_wide {data : Bytes} (hlen : 64 ≤ data.length)
    (hmagic : data.take 4 = [0x7F, 0x45, 0x4C, 0x46]) (hclass : field data 4 1 = 2)
    (horder : field data 5 1 = 1) (hstride : 56 ≤ field data 54 2) :
    headerTable? data =
      some ⟨field data 32 8, field data 54 2, field data 56 2, true⟩ := by
  have hheader : (data.take 64).length = 64 := by rw [List.length_take]; omega
  have hfour : (data.take 64).take 4 = [0x7F, 0x45, 0x4C, 0x46] := by
    rw [List.take_take]
    exact hmagic
  have hfield : ∀ start width, start + width ≤ 64 →
      field (data.take 64) start width = field data start width :=
    fun start width hin => field_take data hin
  simp only [headerTable?, hheader, hfour, hfield 5 1 (by omega), hfield 4 1 (by omega),
    hfield 32 8 (by omega), hfield 54 2 (by omega), hfield 56 2 (by omega), hclass, horder]
  simp [Option.filter, HeaderTable.entrySize, hstride]

/-- Both readers see the same segments. -/
theorem listed_eq {b : Bytes} {e : Elf} (h : Elf.WideHeader b e) (hstride : e.segmentEntrySize = 56) :
    listed b = e.segments := by
  have hfield : field b 54 2 = 56 := h.stride ▸ hstride
  rw [listed, headerTable?_wide h.complete h.magic h.wide h.little (by omega), Option.elim,
    ← h.count]
  apply HeaderTable.segmentsFrom_eq
  intro k hk
  rw [Nat.zero_add, hfield, ← h.table]
  exact h.entry k hk

end Marker

end SelfExtract
