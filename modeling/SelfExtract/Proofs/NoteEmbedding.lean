import Mathlib.Data.List.Flatten
import SelfExtract.Carrier
import SelfExtract.Proofs.Notes
import SelfExtract.Proofs.ProgramHeaders

/-!
# What attaching a block changes in an ELF file

The block goes behind the file as the last note of a new segment, together with
the notes of the last note segment that the file had. Of the file itself only
the program header of that segment changes, and of this neither type nor flags.
-/
namespace SelfExtract

open Bytes

namespace Elf

def headerOffset (e : Elf) (index : Nat) : Nat :=
  e.segmentTable + index * e.segmentEntrySize

structure IsLastNote (segments : List Segment) (segment : Segment) (index : Nat) : Prop where
  at_index : segments[index]? = some segment
  note : segment.type = 4
  last : ∀ j, index < j → ∀ s, segments[j]? = some s → s.type ≠ 4

theorem IsLastNote.lt {segments : List Segment} {segment : Segment} {index : Nat}
    (h : IsLastNote segments segment index) : index < segments.length :=
  (List.getElem?_eq_some_iff.mp h.at_index).1

/-- A single segment has no other place. -/
theorem IsLastNote.of_singleton {segment last : Segment} {index : Nat}
    (h : IsLastNote [segment] last index) : index = 0 ∧ segment = last := by
  have hlt := h.lt
  rw [List.length_singleton, Nat.lt_one_iff] at hlt
  subst hlt
  exact ⟨rfl, Option.some.inj h.at_index⟩

/-- Replacing the last note segment leaves the note segments before it. -/
theorem IsLastNote.filter_set {segments : List Segment} {segment new : Segment} {index : Nat}
    (h : IsLastNote segments segment index) (hnew : new.type = 4) :
    (segments.set index new).filter (·.type = 4) =
      (segments.take index).filter (·.type = 4) ++ [new] := by
  have hbehind : (segments.drop (index + 1)).filter (·.type = 4) = [] := by
    rw [List.filter_eq_nil_iff]
    intro s hs
    obtain ⟨k, hk⟩ := List.mem_iff_getElem?.mp hs
    rw [List.getElem?_drop] at hk
    simpa using h.last (index + 1 + k) (by omega) s hk
  rw [List.set_eq_take_append_cons_drop, if_pos h.lt, List.filter_append, List.filter_cons,
    if_pos (by simpa using hnew), hbehind]

end Elf

namespace Carrier

theorem lastNoteSegment?_spec {segments : List Elf.Segment} {segment : Elf.Segment} {index : Nat}
    (h : lastNoteSegment? segments = some (segment, index)) :
    Elf.IsLastNote segments segment index := by
  rw [lastNoteSegment?, List.getLast?_eq_head?_reverse, ← List.filter_reverse,
    List.head?_filter, List.find?_eq_some_iff_append] at h
  obtain ⟨hnote, behind, before, hsplit, hbehind⟩ := h
  have hzip : segments.zipIdx = before.reverse ++ (segment, index) :: behind.reverse := by
    rw [← List.reverse_reverse segments.zipIdx, hsplit]
    simp
  have hat : ∀ k : Nat, segments.zipIdx[k]? = segments[k]?.map (·, k) := by
    intro k
    rw [List.getElem?_zipIdx, Nat.zero_add]
  have hindex : before.length = index ∧ segments[before.length]? = some segment := by
    have hk := hat before.length
    rw [hzip, List.getElem?_append_right (by simp), List.length_reverse, Nat.sub_self,
      List.getElem?_cons_zero] at hk
    obtain ⟨s, hs, heq⟩ := Option.map_eq_some_iff.mp hk.symm
    cases heq
    exact ⟨rfl, hs⟩
  obtain ⟨rfl, hsegment⟩ := hindex
  refine ⟨hsegment, by simpa using hnote, ?_⟩
  intro j hj s hs
  have hk := hat j
  rw [hs, Option.map_some, hzip, List.getElem?_append_right (by rw [List.length_reverse]; omega),
    List.length_reverse, show j - before.length = (j - before.length - 1) + 1 by omega,
    List.getElem?_cons_succ] at hk
  have hmem := hbehind (s, j) (List.mem_reverse.mp (List.mem_of_getElem? hk))
  simpa using hmem

def padded (b : Bytes) : Bytes :=
  b ++ List.replicate (Elf.alignFour b.length - b.length) 0

theorem length_padded (b : Bytes) : (padded b).length = Elf.alignFour b.length := by
  have := Elf.alignFour_bounds b.length
  rw [padded, List.length_append, List.length_replicate]
  omega

def appendedNotes (b : Bytes) (segment : Elf.Segment) (block : Bytes) : Bytes :=
  noteSegment ((segment.bytes? b).getD []) block

@[simp] theorem length_noteHeader (offset size : Nat) : (noteHeader offset size).length = 48 := by
  simp [noteHeader]

structure NoteEmbedded (b block : Bytes) (e : Elf) (segment : Elf.Segment) (index : Nat)
    (out : Bytes) : Prop where
  read_eq : Elf.read? b = some e
  format_eq : e.format = ⟨true, .little⟩
  stride_eq : e.segmentEntrySize = 56
  last_eq : lastNoteSegment? e.segments = some (segment, index)
  out_eq : out = (padded b ++ appendedNotes b segment block).patch (e.headerOffset index + 8)
    (noteHeader (Elf.alignFour b.length) (appendedNotes b segment block).length)

namespace NoteEmbedded

variable {b block : Bytes} {e : Elf} {segment : Elf.Segment} {index : Nat} {out : Bytes}

theorem header (h : NoteEmbedded b block e segment index out) : Elf.WideHeader b e :=
  Elf.read?_wide h.read_eq h.format_eq

theorem isLast (h : NoteEmbedded b block e segment index out) :
    Elf.IsLastNote e.segments segment index :=
  lastNoteSegment?_spec h.last_eq

/-- The header that is rewritten lies inside the file. -/
theorem header_le (h : NoteEmbedded b block e segment index out) :
    e.headerOffset index + 56 ≤ b.length := by
  rw [Elf.headerOffset, h.stride_eq]
  exact h.header.entry_le h.isLast.lt

end NoteEmbedded

theorem embedNote_eq_ok (b block out : Bytes) :
    embedNote b block = .ok out ↔
      ∃ e segment index, NoteEmbedded b block e segment index out := by
  constructor
  · intro h
    rw [embedNote] at h
    cases hread : Elf.read? b with
    | none =>
      rw [hread] at h
      cases h
    | some e =>
      rw [hread] at h
      simp only [Option.elim, bind, Except.bind, pure, Except.pure] at h
      split at h
      · cases h
      · next hformat =>
        split at h
        · cases h
        · next hstride =>
          cases hlast : lastNoteSegment? e.segments with
          | none =>
            rw [hlast] at h
            cases h
          | some found =>
            obtain ⟨segment, index⟩ := found
            rw [hlast] at h
            simp only [Except.pure] at h
            split at h
            · cases h
            · cases h
              have hwide : e.format = ⟨true, .little⟩ := by
                simp only [Bool.or_eq_true, Bool.not_eq_true', bne_iff_ne, not_or,
                  Bool.not_eq_false, Decidable.not_not] at hformat
                cases hf : e.format
                simp_all
              have hsize : e.segmentEntrySize = 56 := by simpa using hstride
              refine ⟨e, segment, index, hread, hwide, hsize, hlast, ?_⟩
              rw [Elf.headerOffset, hsize]
              rfl
  · rintro ⟨e, segment, index, h⟩
    have hle := h.header_le
    have hroom : ¬ (b ++ List.replicate (Elf.alignFour b.length - b.length) 0 ++
        noteSegment ((segment.bytes? b).getD []) block).length < e.segmentTable + index * 56 + 56 := by
      rw [Elf.headerOffset, h.stride_eq] at hle
      simp only [List.length_append]
      omega
    simp only [embedNote, h.read_eq, h.format_eq, h.stride_eq, h.last_eq, Option.elim, bind,
      Except.bind, pure, Except.pure, hroom]
    rw [h.out_eq, Elf.headerOffset, h.stride_eq]
    rfl

/-- What stands in a rewritten program header behind type and flags. -/
theorem fields_noteHeader {b : Bytes} {start offset size : Nat}
    (h : OccursAt b (noteHeader offset size) start) (hoffset : offset < 2 ^ 64)
    (hsize : size < 2 ^ 64) :
    Marker.field b start 8 = offset ∧ Marker.field b (start + 8) 8 = 0 ∧
    Marker.field b (start + 16) 8 = 0 ∧ Marker.field b (start + 24) 8 = size ∧
    Marker.field b (start + 32) 8 = 0 ∧ Marker.field b (start + 40) 8 = 4 := by
  simp only [noteHeader, occursAt_append, List.length_append, length_ofNatLE] at h
  obtain ⟨⟨⟨⟨⟨ho, ha⟩, hp⟩, hs⟩, hm⟩, hf⟩ := h
  exact ⟨Marker.field_of_occursAt ho hoffset, Marker.field_of_occursAt ha (by decide),
    Marker.field_of_occursAt hp (by decide), Marker.field_of_occursAt hs hsize,
    Marker.field_of_occursAt hm (by decide), Marker.field_of_occursAt hf (by decide)⟩

namespace NoteEmbedded

variable {b block : Bytes} {e : Elf} {segment : Elf.Segment} {index : Nat} {out : Bytes}

theorem patch_le (h : NoteEmbedded b block e segment index out) (offset size : Nat) :
    e.headerOffset index + 8 + (noteHeader offset size).length ≤
      (padded b ++ appendedNotes b segment block).length := by
  have hle := h.header_le
  have hpad := Elf.alignFour_bounds b.length
  rw [length_noteHeader, List.length_append, length_padded]
  omega

theorem length_out (h : NoteEmbedded b block e segment index out) :
    out.length = Elf.alignFour b.length + (appendedNotes b segment block).length := by
  rw [h.out_eq, length_patch (h.patch_le _ _), List.length_append, length_padded]

/-- Only the rewritten header changes. -/
theorem getElem?_outside (h : NoteEmbedded b block e segment index out) {i : Nat}
    (hi : i < e.headerOffset index + 8 ∨ e.headerOffset index + 56 ≤ i) :
    out[i]? = (padded b ++ appendedNotes b segment block)[i]? := by
  rw [h.out_eq, getElem?_patch_outside (h.patch_le _ _) (by rw [length_noteHeader]; omega)]

theorem getElem?_carrier (h : NoteEmbedded b block e segment index out) {i : Nat}
    (hlt : i < b.length) (hi : i < e.headerOffset index + 8 ∨ e.headerOffset index + 56 ≤ i) :
    out[i]? = b[i]? := by
  rw [h.getElem?_outside hi, padded, List.append_assoc, List.getElem?_append_left hlt]

/-- What is read before the fields of the rewritten header is what the carrier has there. -/
theorem field_before (h : NoteEmbedded b block e segment index out) {start width : Nat}
    (hbefore : start + width ≤ e.headerOffset index + 8) :
    Marker.field out start width = Marker.field b start width := by
  have hle := h.header_le
  refine Marker.field_congr fun k hk => h.getElem?_carrier ?_ (Or.inl ?_)
  · omega
  · omega

/-- The file is filled up with zeros. -/
theorem getElem?_padding (h : NoteEmbedded b block e segment index out) {i : Nat}
    (hge : b.length ≤ i) (hlt : i < Elf.alignFour b.length) : out[i]? = some 0 := by
  have hle := h.header_le
  rw [h.getElem?_outside (Or.inr (by omega)),
    List.getElem?_append_left (by rw [length_padded]; exact hlt), padded,
    List.getElem?_append_right hge, List.getElem?_replicate, if_pos (by omega)]

/-- The notes stand where the rewritten header leads. -/
theorem drop_out (h : NoteEmbedded b block e segment index out) :
    out.drop (Elf.alignFour b.length) = appendedNotes b segment block := by
  have hle := h.header_le
  have hpad := Elf.alignFour_bounds b.length
  apply List.ext_getElem?
  intro i
  rw [List.getElem?_drop, h.getElem?_outside (Or.inr (by omega)),
    List.getElem?_append_right (by rw [length_padded]; omega), length_padded]
  congr 1
  omega

/-- The rewritten header. -/
theorem occursAt_header (h : NoteEmbedded b block e segment index out) :
    OccursAt out (noteHeader (Elf.alignFour b.length) (appendedNotes b segment block).length)
      (e.headerOffset index + 8) := by
  rw [h.out_eq]
  exact occursAt_patch (h.patch_le _ _)

end NoteEmbedded

theorem length_bytes?_le (segment : Elf.Segment) (b : Bytes) :
    ((segment.bytes? b).getD []).length ≤ b.length := by
  rw [Elf.Segment.bytes?, slice?]
  split
  · rw [Option.getD_some, List.length_take, List.length_drop]
    omega
  · exact Nat.zero_le _

/-- The notes that are kept can be written, and so can the one with the block. -/
theorem fits_of_mem_keptNotes {segment : Bytes} (hsize : 3 * segment.length + 1 < 2 ^ 32)
    {n : Elf.Note} (hn : n ∈ keptNotes segment) : n.Fits := by
  rw [keptNotes, List.mem_filter] at hn
  exact ((Elf.Note.parse_spec .little segment).1 n hn.1).fits hsize

def blockNote (block : Bytes) : Elf.Note :=
  ⟨payloadOwner, 0, block⟩

theorem ownerBytes_blockNote (block : Bytes) :
    (blockNote block).ownerBytes = Utf8.encode payloadOwner ++ [0] := rfl

theorem length_ownerBytes_blockNote (block : Bytes) : (blockNote block).ownerBytes.length = 13 := by
  rw [ownerBytes_blockNote]
  rfl

theorem fits_blockNote {block : Bytes} (h : block.length < 2 ^ 32) : (blockNote block).Fits where
  owner_free := by
    change 0 ∉ Utf8.encode payloadOwner
    decide
  owner_lt := by
    rw [length_ownerBytes_blockNote]
    decide
  description_lt := h

theorem length_encode_blockNote (block : Bytes) :
    (blockNote block).encode.length = 28 + Elf.alignFour block.length := by
  rw [Elf.Note.length_encode, Elf.Note.sizeOf, length_ownerBytes_blockNote]
  rfl

theorem noteSegment_eq (segment block : Bytes) :
    noteSegment segment block =
      (keptNotes segment ++ [blockNote block]).flatMap Elf.Note.encode := by
  rw [noteSegment, blockNote, List.flatMap_append, List.flatMap_cons, List.flatMap_nil, List.append_nil]

/-- The new segment has the kept notes and the block's. -/
theorem parse_noteSegment {segment block : Bytes} (hsegment : 3 * segment.length + 1 < 2 ^ 32)
    (hblock : block.length < 2 ^ 32) :
    Elf.Note.parse .little (noteSegment segment block) =
      keptNotes segment ++ [blockNote block] := by
  rw [noteSegment_eq, Elf.Note.parse_flatMap_encode]
  intro n hn
  rcases List.mem_append.mp hn with hn | hn
  · exact fits_of_mem_keptNotes hsegment hn
  · rw [List.mem_singleton.mp hn]
    exact fits_blockNote hblock

theorem length_noteSegment_le (segment block : Bytes) :
    (noteSegment segment block).length ≤ 3 * segment.length + block.length + 32 := by
  have hkept : ((keptNotes segment).flatMap Elf.Note.encode).length ≤ 3 * segment.length := by
    refine Nat.le_trans ?_ (Elf.Note.parse_spec .little segment).2
    exact (List.filter_sublist.flatMap _).length_le
  have hfill := Elf.alignFour_bounds block.length
  have hnote := length_encode_blockNote block
  rw [blockNote] at hnote
  rw [noteSegment, List.length_append, hnote]
  omega

/-- How a file with an attached block differs from the file it was made of, by the offset of the
program header of the last note segment and by the notes of this segment. -/
structure NoteFrame (b block out : Bytes) (ph : Nat) (notes : List Elf.Note) : Prop where
  header_le : ph + 56 ≤ b.length
  unchanged : ∀ i < b.length, i < ph + 8 ∨ ph + 56 ≤ i → out[i]? = b[i]?
  filled : ∀ i, b.length ≤ i → i < Elf.alignFour b.length → out[i]? = some 0
  type_eq : Marker.field b ph 4 = 4 ∧ Marker.field out ph 4 = 4
  flags_eq : Marker.field out (ph + 4) 4 = Marker.field b (ph + 4) 4
  offset_eq : Marker.field out (ph + 8) 8 = Elf.alignFour b.length
  address_eq : Marker.field out (ph + 16) 8 = 0
  physicalAddress_eq : Marker.field out (ph + 24) 8 = 0
  fileSize_eq : Elf.alignFour b.length + Marker.field out (ph + 32) 8 = out.length
  memorySize_eq : Marker.field out (ph + 40) 8 = 0
  alignment_eq : Marker.field out (ph + 48) 8 = 4
  notes_eq : Elf.Note.parse .little (out.drop (Elf.alignFour b.length)) =
    notes.filter (·.owner != payloadOwner) ++ [⟨payloadOwner, 0, block⟩]

/-- The header that is rewritten is one of a note segment. -/
theorem NoteEmbedded.field_type {b block out : Bytes} {e : Elf} {segment : Elf.Segment}
    {index : Nat} (h : NoteEmbedded b block e segment index out) :
    Marker.field b (e.headerOffset index) 4 = 4 := by
  have hlt := h.isLast.lt
  have hseg : e.segments[index] = segment := (List.getElem?_eq_some_iff.mp h.isLast.at_index).2
  obtain ⟨w, hw, hs⟩ := h.header.entry index hlt
  have htype := h.isLast.note
  rw [← hseg, hs, Elf.Segment.ofBytes_window hw] at htype
  rw [Elf.headerOffset, h.stride_eq]
  exact htype

/-- Attaching a block changes eight-byte fields of one program header, and appends the notes of its
segment with the block's in place of earlier ones. -/
theorem embed_note_frame (b block out : Bytes) (hkind : Executable.detect? b = some .elf)
    (hb : b.length < 2 ^ 30) (hblock : block.length < 2 ^ 30) (h : embed b block = .ok out) :
    ∃ e segment index, Elf.read? b = some e ∧ Elf.IsLastNote e.segments segment index ∧
      NoteFrame b block out (e.headerOffset index)
        ((segment.bytes? b).elim [] (Elf.Note.parse .little)) := by
  rw [embed, hkind, embedNote_eq_ok] at h
  obtain ⟨e, segment, index, h⟩ := h
  have hle := h.header_le
  have hpad := Elf.alignFour_bounds b.length
  have hsegment := length_bytes?_le segment b
  have hnotes : (appendedNotes b segment block).length < 2 ^ 64 := by
    have := length_noteSegment_le ((segment.bytes? b).getD []) block
    rw [appendedNotes]
    omega
  obtain ⟨hoffset, haddress, hphysical, hsize, hmemory, halign⟩ :=
    fields_noteHeader h.occursAt_header (by omega) hnotes
  refine ⟨e, segment, index, h.read_eq, h.isLast, ?_⟩
  exact {
    header_le := hle
    unchanged := fun i hlt hi => h.getElem?_carrier hlt hi
    filled := fun i hge hlt => h.getElem?_padding hge hlt
    type_eq := ⟨h.field_type, by rw [h.field_before (by omega), h.field_type]⟩
    flags_eq := h.field_before (by omega)
    offset_eq := hoffset
    address_eq := haddress
    physicalAddress_eq := hphysical
    fileSize_eq := by
      have hlen := h.length_out
      rw [show e.headerOffset index + 32 = e.headerOffset index + 8 + 24 by rfl, hsize, hlen]
    memorySize_eq := hmemory
    alignment_eq := halign
    notes_eq := by
      rw [h.drop_out, appendedNotes, parse_noteSegment (by omega) (by omega), keptNotes]
      cases segment.bytes? b with
      | none => rw [Option.getD_none, Elf.Note.parse_none rfl]; rfl
      | some content => rfl }

/-- The least ELF file with one note segment. -/
def noteFile (notes : Bytes) : Bytes :=
  [0x7F, 0x45, 0x4C, 0x46, 2, 1, 1] ++ List.replicate 9 0 ++ ofNatLE 2 2 ++ ofNatLE 2 62 ++
    ofNatLE 4 1 ++ ofNatLE 8 0 ++ ofNatLE 8 64 ++ ofNatLE 8 0 ++ ofNatLE 4 0 ++ ofNatLE 2 64 ++
    ofNatLE 2 56 ++ ofNatLE 2 1 ++ ofNatLE 2 64 ++ ofNatLE 2 0 ++ ofNatLE 2 0 ++
    ofNatLE 4 4 ++ ofNatLE 4 0 ++ noteHeader 120 notes.length ++ notes

/-- The block of an earlier packing is replaced, and the note of another owner stays. -/
theorem embed_note_frame_replaces_block :
    let notes : List Elf.Note := [⟨"GNU", 1, [1, 2]⟩, ⟨payloadOwner, 0, [9]⟩]
    let b := noteFile (notes.flatMap Elf.Note.encode)
    let segment : Elf.Segment := ⟨4, 120, 0, 52, 0⟩
    let out := (padded b ++ appendedNotes b segment [7, 8]).patch 72
      (noteHeader 172 (appendedNotes b segment [7, 8]).length)
    Executable.detect? b = some .elf ∧ b.length < 2 ^ 30 ∧ List.length [7, 8] < 2 ^ 30 ∧
      embed b [7, 8] = .ok out ∧ NoteFrame b [7, 8] out 64 notes := by
  intro notes b segment out
  have hkind : Executable.detect? b = some .elf := by decide +kernel
  have hlen : b.length < 2 ^ 30 := by decide +kernel
  have hread : Elf.read? b =
      some ⟨⟨true, .little⟩, 62, 64, 56, [segment], [], [], none⟩ := by decide +kernel
  have hembed : embed b [7, 8] = .ok out := by
    rw [embed, hkind, embedNote_eq_ok]
    have halign : Elf.alignFour b.length = 172 := by decide +kernel
    refine ⟨_, segment, 0, hread, rfl, rfl, rfl, ?_⟩
    rw [halign]
    rfl
  refine ⟨hkind, hlen, by decide, hembed, ?_⟩
  obtain ⟨e, last, index, hfile, hlast, hframe⟩ :=
    embed_note_frame b [7, 8] out hkind hlen (by decide) hembed
  obtain rfl := Option.some.inj (hread.symm.trans hfile)
  obtain ⟨rfl, rfl⟩ := hlast.of_singleton
  have hbytes : segment.bytes? b = some (notes.flatMap Elf.Note.encode) := by decide +kernel
  have hparse : Elf.Note.parse .little (notes.flatMap Elf.Note.encode) = notes := by
    apply Elf.Note.parse_flatMap_encode
    intro n hn
    rcases List.mem_cons.mp hn with rfl | hn
    · exact ⟨by decide, by decide, by decide⟩
    · obtain rfl := List.mem_singleton.mp hn
      exact ⟨by decide, by decide, by decide⟩
  rw [hbytes, Option.elim, hparse] at hframe
  exact hframe

end Carrier

end SelfExtract
