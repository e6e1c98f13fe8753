import SelfExtract.Proofs.AppendedBlock
import SelfExtract.Proofs.NoteEmbedding

/-!
# Finding a block in an ELF file

The search follows the program headers of the packed file and takes the first
marker that a note segment shows. This is the block's own when no marker comes
before it. The packed file was checked before the block was attached, but notes
that are kept are written anew, and a note written anew can complete a marker
which the carrier did not show. A program header that overlaps the file header
changes the table that the search follows.
-/
namespace SelfExtract

open Bytes

namespace Marker

/-- The bytes of a number of four bytes that is small enough end with zero. -/
theorem top_byte_zero {b : Bytes} {start : Nat} (hlen : start + 4 ≤ b.length)
    (h : field b start 4 < 2 ^ 24) : b[start + 3]? = some 0 := by
  have hbyte : ∀ k < 4, b[start + k]? = some (b.getD (start + k) 0) := by
    intro k hk
    rw [List.getD_eq_getElem?_getD, List.getElem?_eq_getElem (by omega)]
    rfl
  have hw : (b.drop start).take 4 =
      [b.getD start 0, b.getD (start + 1) 0, b.getD (start + 2) 0, b.getD (start + 3) 0] := by
    apply List.ext_getElem?
    intro k
    rw [List.getElem?_take, List.getElem?_drop]
    split
    · next hk =>
      rw [hbyte k hk]
      match k, hk with
      | 0, _ => rfl
      | 1, _ => rfl
      | 2, _ => rfl
      | 3, _ => rfl
    · next hk => rw [List.getElem?_eq_none (by simpa using hk)]
  rw [field, hw] at h
  simp only [natLE] at h
  have htop : b.getD (start + 3) 0 = 0 := by
    rw [← UInt8.toNat_inj, UInt8.toNat_zero]
    omega
  have h3 := hbyte 3 (by decide)
  rw [htop] at h3
  exact h3

/-- A needle stands on one side of a byte that it does not have. -/
theorem apart_of_not_mem {b needle : Bytes} {i z : Nat} {x : UInt8} (hfree : x ∉ needle)
    (h : OccursAt b needle i) (hz : b[z]? = some x) : z < i ∨ i + needle.length ≤ z := by
  by_cases hlt : z < i
  · exact Or.inl hlt
  · refine Or.inr (Nat.le_of_not_lt fun hin => hfree ?_)
    have hk := h (z - i) (by omega)
    rw [Nat.add_sub_cancel' (by omega), hz] at hk
    rw [Option.some.inj hk]
    exact List.getElem_mem _

/-- Note segments that show no marker do not hide what the last one shows. -/
theorem firstShown_set {data needle : Bytes} {segments : List Elf.Segment}
    {segment new : Elf.Segment} {index : Nat} (h : Elf.IsLastNote segments segment index)
    (hnew : new.type = 4)
    (hearlier : ∀ s ∈ segments.take index, s.type = 4 → firstIn data needle s = none) :
    firstShown data needle (segments.set index new) = firstIn data needle new := by
  have hnone : ((segments.take index).filter (·.type = 4)).findSome? (firstIn data needle) =
      none := by
    rw [List.findSome?_eq_none_iff]
    intro s hs
    rw [List.mem_filter] at hs
    exact hearlier s hs.1 (by simpa using hs.2)
  rw [firstShown, h.filter_set hnew, List.findSome?_append, hnone, Option.none_or,
    List.findSome?_singleton]

theorem zero_not_mem_payload : 0 ∉ payload.bytes := by
  decide

end Marker

namespace Carrier

/-- An ELF file is searched in the segments that its own header lists. -/
theorem locate_eq_firstShown {b : Bytes} (h : Executable.detect? b = some .elf) :
    locate b =
      (Marker.firstShown b Marker.payload.bytes (Marker.listed b)).map (· + 32) := by
  rw [← Executable.detect?_take] at h
  simp only [locate, h, Marker.findIn]
  rw [Marker.findInNotes_eq _ _ _ Marker.payload_ne_nil]
  rfl

namespace NoteEmbedded

variable {b block : Bytes} {e : Elf} {segment : Elf.Segment} {index : Nat} {out : Bytes}

/-- No marker touches the rewritten header: zeros stand in front of it and all over it. -/
theorem occursAt_carrier (h : NoteEmbedded b block e segment index out) {i : Nat}
    (hi : i + 32 ≤ b.length) (hocc : OccursAt out Marker.payload.bytes i) :
    OccursAt b Marker.payload.bytes i := by
  have hle := h.header_le
  have htype : out[e.headerOffset index + 3]? = some 0 := by
    rw [h.getElem?_carrier (by omega) (Or.inl (by omega))]
    exact Marker.top_byte_zero (by omega) (by rw [h.field_type]; decide)
  have hheader := h.occursAt_header
  simp only [noteHeader, occursAt_append, List.length_append, length_ofNatLE] at hheader
  obtain ⟨⟨⟨⟨⟨-, haddress⟩, -⟩, -⟩, hmemory⟩, halign⟩ := hheader
  have h₁ := Marker.apart_of_not_mem Marker.zero_not_mem_payload hocc htype
  have h₂ := Marker.apart_of_not_mem Marker.zero_not_mem_payload hocc (haddress 0 (by simp))
  have h₃ := Marker.apart_of_not_mem Marker.zero_not_mem_payload hocc (hmemory 0 (by simp))
  have h₄ := Marker.apart_of_not_mem Marker.zero_not_mem_payload hocc (halign 7 (by simp))
  rw [Marker.length_payload] at h₁ h₂ h₃ h₄
  apply (occursAt_congr fun k hk => ?_).mp hocc
  rw [Marker.length_payload] at hk
  exact h.getElem?_carrier (by omega) (by omega)

theorem out_ge (h : NoteEmbedded b block e segment index out) : b.length ≤ out.length := by
  have hpad := Elf.alignFour_bounds b.length
  have hlen := h.length_out
  omega

theorem take_out (h : NoteEmbedded b block e segment index out) : out.take 4 = b.take 4 := by
  have hle := h.header_le
  have hlen := h.header.complete
  exact take_drop_congr (i := 0) (j := 0) fun k hk =>
    h.getElem?_carrier (by omega) (Or.inl (by omega))

theorem kind_out (h : NoteEmbedded b block e segment index out) :
    Executable.detect? out = some .elf := by
  rw [Executable.detect?_eq_elf_iff, h.take_out]
  exact h.header.magic

/-- Where the rewritten header does not overlap the fields of the file header that lead to it, the
search sees the segments of the carrier with the new one in place of the last note segment. -/
theorem listed_out (h : NoteEmbedded b block e segment index out)
    (hbehind : 50 ≤ e.headerOffset index) (hsize : out.length < 2 ^ 64) :
    Marker.listed out = e.segments.set index
      ⟨4, Elf.alignFour b.length, 0, (appendedNotes b segment block).length, 0⟩ := by
  have hle := h.header_le
  have hge := h.out_ge
  have hlen := h.length_out
  have hcomplete := h.header.complete
  have hstride : Marker.field b 54 2 = 56 := by rw [← h.header.stride, h.stride_eq]
  have hstride' : Marker.field out 54 2 = 56 := (h.field_before (by omega)).trans hstride
  have htable : Marker.field out 32 8 = Marker.field b 32 8 := h.field_before (by omega)
  have hcount : Marker.field out 56 2 = Marker.field b 56 2 := h.field_before (by omega)
  rw [Marker.listed, Marker.headerTable?_wide (by omega) (h.take_out.trans h.header.magic)
    ((h.field_before (by omega)).trans h.header.wide)
    ((h.field_before (by omega)).trans h.header.little) (Nat.le_of_eq hstride'.symm), hstride',
    htable, hcount, Option.elim, ← h.header.table, ← h.header.count, ← List.length_set]
  apply Marker.HeaderTable.segmentsFrom_eq
  intro k hk
  rw [List.length_set] at hk
  have hentry := h.header.entry_le hk
  have hplace : e.headerOffset index = e.segmentTable + index * 56 := by
    rw [Elf.headerOffset, h.stride_eq]
  rw [Nat.zero_add, List.getElem_set]
  by_cases hindex : index = k
  · subst hindex
    have hw : out.window? (e.segmentTable + index * 56) 56 =
        some ((out.drop (e.segmentTable + index * 56)).take 56) := by
      rw [window?, if_pos]
      rw [List.length_take, List.length_drop]
      omega
    refine ⟨_, hw, ?_⟩
    obtain ⟨hoffset, haddress, -, hfile, hmemory, -⟩ :=
      fields_noteHeader h.occursAt_header (by omega) (by omega)
    have htype : Marker.field out (e.headerOffset index) 4 = 4 :=
      (h.field_before (by omega)).trans h.field_type
    rw [if_pos rfl, Marker.HeaderTable.format, Elf.Segment.ofBytes_window hw, ← hplace, htype,
      hoffset, haddress, hfile, hmemory]
  · obtain ⟨w, hw, hs⟩ := h.header.entry k hk
    have hwindow : out.window? (e.segmentTable + k * 56) 56 = some w := by
      rw [← hw]
      apply window?_congr
      intro j hj
      refine h.getElem?_carrier (by omega) ?_
      -- Two entries of the table lie apart.
      rcases Nat.lt_or_gt_of_ne hindex with hlt | hgt
      · have := Nat.mul_le_mul_right 56 (Nat.succ_le_of_lt hlt)
        exact Or.inr (by omega)
      · have := Nat.mul_le_mul_right 56 (Nat.succ_le_of_lt hgt)
        exact Or.inl (by omega)
    refine ⟨w, hwindow, ?_⟩
    rw [if_neg hindex, hs]
    rfl

end NoteEmbedded

def keptBytes (b : Bytes) (segment : Elf.Segment) : Bytes :=
  (keptNotes ((segment.bytes? b).getD [])).flatMap Elf.Note.encode

def blockStart (b : Bytes) (segment : Elf.Segment) : Nat :=
  Elf.alignFour b.length + (keptBytes b segment).length + 28

/-- What stands in the block's note before its description. -/
def blockLead (block : Bytes) : Bytes :=
  (blockNote block).head ++ (blockNote block).ownerBytes ++ Elf.Note.padding 13

@[simp] theorem length_blockLead (block : Bytes) : (blockLead block).length = 28 := by
  rw [blockLead, List.length_append, List.length_append, Elf.Note.length_head,
    length_ownerBytes_blockNote]
  rfl

theorem appendedNotes_eq (b : Bytes) (segment : Elf.Segment) (block : Bytes) :
    appendedNotes b segment block =
      keptBytes b segment ++ blockLead block ++ (block ++ Elf.Note.padding block.length) := by
  have hnote : (blockNote block).encode = blockLead block ++
      (block ++ Elf.Note.padding block.length) := by
    rw [Elf.Note.encode_eq, blockLead, List.append_assoc, List.append_assoc,
      length_ownerBytes_blockNote]
    rfl
  rw [appendedNotes, noteSegment, ← blockNote, hnote, keptBytes, List.append_assoc]

/-- The size of the owner's name ends a marker: only kept notes can show one before the block. -/
theorem occursAt_lead {kept block : Bytes} {i : Nat} :
    OccursAt (kept ++ blockLead block) Marker.payload.bytes i ↔
      OccursAt kept Marker.payload.bytes i := by
  constructor
  · intro h
    have hle := h.le_length Marker.payload_ne_nil
    have hsize : (kept ++ blockLead block)[kept.length]? = some 13 := by
      rw [List.getElem?_append_right (Nat.le_refl _), Nat.sub_self, blockLead, Elf.Note.head,
        length_ownerBytes_blockNote]
      rfl
    have hfree : (13 : UInt8) ∉ Marker.payload.bytes := by decide
    have hapart := Marker.apart_of_not_mem hfree h hsize
    rw [Marker.length_payload] at hapart hle
    rw [List.length_append, length_blockLead] at hle
    rwa [occursAt_append_left] at h
    rw [Marker.length_payload]
    omega
  · intro h
    have hle := h.le_length Marker.payload_ne_nil
    rwa [occursAt_append_left _ _ _ _ hle]

/-- The new segment shows the block's marker first exactly if the kept notes show none. -/
theorem firstIndex?_appendedNotes (b : Bytes) (segment : Elf.Segment) (rest : Bytes) :
    firstIndex? (appendedNotes b segment (Marker.payload.bytes ++ rest)) Marker.payload.bytes =
        some ((keptBytes b segment).length + 28) ↔
      ∀ i, ¬ OccursAt (keptBytes b segment) Marker.payload.bytes i := by
  have hiff := isFirst_append_iff
    (keptBytes b segment ++ blockLead (Marker.payload.bytes ++ rest))
    (rest ++ Elf.Note.padding (Marker.payload.bytes ++ rest).length) Marker.payload.bytes
    Marker.payload_ne_nil Marker.unbordered_payload
  have hlen : (keptBytes b segment ++ blockLead (Marker.payload.bytes ++ rest)).length =
      (keptBytes b segment).length + 28 := by
    rw [List.length_append, length_blockLead]
  rw [hlen] at hiff
  simp only [occursAt_lead] at hiff
  rw [appendedNotes_eq, firstIndex?_eq_some_iff Marker.payload_ne_nil, ← hiff,
    List.append_assoc Marker.payload.bytes, ← List.append_assoc _ Marker.payload.bytes]

namespace NoteEmbedded

variable {b block : Bytes} {e : Elf} {segment : Elf.Segment} {index : Nat} {out : Bytes}

/-- The block is the description of the last appended note. -/
theorem occursAt_block (h : NoteEmbedded b block e segment index out) :
    OccursAt out block (blockStart b segment) := by
  have hself := occursAt_self (keptBytes b segment ++ blockLead block) block
    (Elf.Note.padding block.length)
  rw [List.append_assoc, ← appendedNotes_eq, ← h.drop_out, occursAt_drop, List.length_append,
    length_blockLead, ← Nat.add_assoc] at hself
  exact hself

/-- What the new segment shows. -/
theorem firstIn_new (h : NoteEmbedded b block e segment index out) (needle : Bytes) :
    Marker.firstIn out needle
        ⟨4, Elf.alignFour b.length, 0, (appendedNotes b segment block).length, 0⟩ =
      (firstIndex? (appendedNotes b segment block) needle).map (Elf.alignFour b.length + ·) := by
  rw [Marker.firstIn, h.drop_out, List.take_length]

/-- A note segment that lies inside the carrier shows no marker that the carrier did not show. -/
theorem firstIn_earlier (h : NoteEmbedded b block e segment index out)
    (hunpacked : locate b = none) (hkind : Executable.detect? b = some .elf) {s : Elf.Segment}
    (hs : s ∈ e.segments) (h4 : s.type = 4) (hin : s.offset + s.fileSize ≤ b.length) :
    Marker.firstIn out Marker.payload.bytes s = none := by
  rw [locate_eq_firstShown hkind, Option.map_eq_none_iff,
    Marker.listed_eq h.header h.stride_eq] at hunpacked
  have hnone := Marker.firstShown_eq_none hunpacked hs h4
  rw [Marker.firstIn, Option.map_eq_none_iff, firstIndex?_eq_none_iff Marker.payload_ne_nil]
    at hnone ⊢
  intro i hi
  have hle := hi.le_length Marker.payload_ne_nil
  rw [List.length_take, Marker.length_payload] at hle
  apply hnone i
  rw [occursAt_take _ _ _ _ (by rw [Marker.length_payload]; omega), occursAt_drop] at hi ⊢
  exact h.occursAt_carrier (by omega) hi

end NoteEmbedded

/-- A packed ELF file gives its block back exactly if the first marker that its note segments show
is the block's own. The segments are those of the carrier with the last note segment replaced, when
the rewritten header lies behind the fields of the file header; and when the note segments before it
lie inside the carrier, no marker in the notes written anew is all that is needed. -/
theorem pack_note_recovers_iff (how : Packing) (carrier payload image : Bytes) (info : Summary)
    (hkind : Executable.detect? carrier = some .elf) (hcodec : how.codec.RoundTrips)
    (hsize : image.length < 2 ^ 64) (h : pack how carrier payload = .ok (image, info)) :
    ∃ e segment index, Elf.read? carrier = some e ∧ Elf.IsLastNote e.segments segment index ∧
      (∃ rest, image.drop (Elf.alignFour carrier.length) = keptBytes carrier segment ++
        Elf.Note.encode ⟨payloadOwner, 0, Marker.payload.bytes ++ rest⟩) ∧
      (Recovers how carrier payload image info (blockStart carrier segment + 32) ↔
        Marker.firstShown image Marker.payload.bytes (Marker.listed image) =
          some (blockStart carrier segment)) ∧
      (50 ≤ e.headerOffset index →
        Marker.listed image = e.segments.set index ⟨4, Elf.alignFour carrier.length, 0,
          image.length - Elf.alignFour carrier.length, 0⟩ ∧
        ((∀ s ∈ e.segments.take index, s.type = 4 → s.offset + s.fileSize ≤ carrier.length) →
          (Recovers how carrier payload image info (blockStart carrier segment + 32) ↔
            ∀ i, ¬ OccursAt (keptBytes carrier segment) Marker.payload.bytes i))) := by
  rw [pack_eq_ok] at h
  obtain ⟨target, compressed, hp, rfl⟩ := h
  let rest := (how.metadata target payload compressed).encode ++ compressed
  have hblock : (how.metadata target payload compressed).withPayload compressed =
      Marker.payload.bytes ++ rest := List.append_assoc _ _ _
  have hembed := hp.embed_eq
  rw [embed, hkind, hblock, embedNote_eq_ok] at hembed
  obtain ⟨e, segment, index, hn⟩ := hembed
  have hocc : OccursAt image rest (blockStart carrier segment + 32) :=
    ((occursAt_append ..).mp hn.occursAt_block).2
  have hlocated : Recovers how carrier payload image
        (Packing.summary target carrier payload compressed image) (blockStart carrier segment + 32) ↔
      Marker.firstShown image Marker.payload.bytes (Marker.listed image) =
        some (blockStart carrier segment) := by
    rw [hp.recovers_iff hcodec hocc, locate_eq_firstShown hn.kind_out, Option.map_eq_some_iff]
    constructor
    · rintro ⟨i, hi, heq⟩
      rw [hi, Nat.add_right_cancel heq]
    · exact fun hi => ⟨_, hi, rfl⟩
  refine ⟨e, segment, index, hn.read_eq, hn.isLast, ⟨rest, hn.drop_out⟩, hlocated, ?_⟩
  intro hbehind
  have hlisted := hn.listed_out hbehind hsize
  have hlen : image.length - Elf.alignFour carrier.length =
      (appendedNotes carrier segment (Marker.payload.bytes ++ rest)).length := by
    rw [hn.length_out, Nat.add_sub_cancel_left]
  refine ⟨by rw [hlisted, hlen], ?_⟩
  intro hinside
  have hnew : Marker.firstShown image Marker.payload.bytes (Marker.listed image) =
      (firstIndex? (appendedNotes carrier segment (Marker.payload.bytes ++ rest))
        Marker.payload.bytes).map (Elf.alignFour carrier.length + ·) := by
    rw [hlisted, Marker.firstShown_set hn.isLast rfl, hn.firstIn_new]
    intro s hs h4
    exact hn.firstIn_earlier hp.unpacked hkind (List.mem_of_mem_take hs) h4 (hinside s hs h4)
  rw [hlocated, hnew, ← firstIndex?_appendedNotes carrier segment rest, Option.map_eq_some_iff]
  constructor
  · rintro ⟨i, hi, heq⟩
    rw [hi]
    rw [blockStart] at heq
    congr 1
    omega
  · exact fun hi => ⟨_, hi, by rw [blockStart, Nat.add_assoc]⟩

/-- The second note has an owner without a NUL byte. Written anew it gets one, its size becomes the
last byte of the marker, and a marker stands in the kept notes that the carrier did not show. -/
theorem pack_note_recovers_iff_completed_marker :
    let notes : Bytes := [0, 0, 0, 0, 32, 0, 0, 0, 0, 0, 0, 0, 0x78] ++
      Marker.payload.bytes.take 31 ++ [81, 0, 0, 0, 0, 0, 0, 0, 0, 0, 0, 0] ++
      List.replicate 81 0x62 ++ [0, 0, 0]
    let carrier := noteFile notes
    let segment : Elf.Segment := ⟨4, 120, 0, 140, 0⟩
    let how : Packing := ⟨Codec.identity, some Target.usual, none⟩
    let block := (how.metadata Target.usual [1, 2] [1, 2]).withPayload [1, 2]
    let image := (padded carrier ++ appendedNotes carrier segment block).patch 72
      (noteHeader 260 (appendedNotes carrier segment block).length)
    let info := Packing.summary Target.usual carrier [1, 2] [1, 2] image
    Executable.detect? carrier = some .elf ∧ how.codec.RoundTrips ∧ image.length < 2 ^ 64 ∧
      pack how carrier [1, 2] = .ok (image, info) ∧
      ¬ Recovers how carrier [1, 2] image info (blockStart carrier segment + 32) := by
  intro notes carrier segment how block image info
  have hkind : Executable.detect? carrier = some .elf := by decide +kernel
  have hread : Elf.read? carrier =
      some ⟨⟨true, .little⟩, 62, 64, 56, [segment], [], [], none⟩ := by decide +kernel
  have hbytes : segment.bytes? carrier = some notes := by decide +kernel
  have halign : Elf.alignFour carrier.length = 260 := by decide +kernel
  have hn : NoteEmbedded carrier block
      ⟨⟨true, .little⟩, 62, 64, 56, [segment], [], [], none⟩ segment 0 image := by
    refine ⟨hread, rfl, rfl, rfl, ?_⟩
    rw [halign]
    rfl
  have hloc : locate carrier = none := by
    rw [locate_eq_firstShown hkind, Marker.listed_eq hn.header hn.stride_eq]
    decide +kernel
  have hsize : List.length ([1, 2] : Bytes) ≤ sizeLimit.toNat := by decide
  have hvalid : (how.metadata Target.usual [1, 2] [1, 2]).validate sizeLimit = .ok () :=
    (Packing.admitted_iff ..).mpr ⟨⟨by decide, hsize⟩, by decide, hsize⟩
  have hpack : pack how carrier [1, 2] = .ok (image, info) := by
    have hembed : embed carrier block = .ok image := by
      rw [embed, hkind, embedNote_eq_ok]
      exact ⟨_, segment, 0, hn⟩
    rw [pack_eq_ok]
    exact ⟨Target.usual, [1, 2], ⟨by simp, hsize, hloc, rfl, rfl, hvalid, hembed⟩, rfl⟩
  have hlen : image.length < 2 ^ 64 := by
    have hblock : block.length = 70 := by
      change ((how.metadata Target.usual [1, 2] [1, 2]).withPayload [1, 2]).length = 70
      rw [Metadata.withPayload, List.length_append, List.length_append, Metadata.encode_eq,
        List.length_append, Metadata.length_fixedBytes]
      · rfl
      · rw [Packing.metadata_key]
        exact length_cacheKey [1, 2]
    have hnotes := length_noteSegment_le notes block
    have hlength : notes.length = 140 := by decide +kernel
    rw [hn.length_out, halign, appendedNotes, hbytes, Option.getD_some]
    omega
  refine ⟨hkind, Codec.roundTrips_identity, hlen, hpack, ?_⟩
  obtain ⟨e, last, index, hfile, hlast, -, -, hrest⟩ := pack_note_recovers_iff how carrier [1, 2] image
    info hkind Codec.roundTrips_identity hlen hpack
  obtain rfl := Option.some.inj (hread.symm.trans hfile)
  obtain ⟨rfl, rfl⟩ := hlast.of_singleton
  rw [((hrest (by decide)).2 fun s hs => absurd hs List.not_mem_nil)]
  intro hfree
  let first : Elf.Note := ⟨"", 0, 0x78 :: Marker.payload.bytes.take 31⟩
  let second : Elf.Note := ⟨String.ofList (List.replicate 81 'b'), 0, []⟩
  have hfirst : Elf.Note.first? .little notes = some (first, notes.drop 44) := by decide +kernel
  have hsecond : Elf.Note.first? .little (notes.drop 44) = some (second, []) := by decide +kernel
  have hkept : keptBytes carrier segment = first.encode ++ second.encode := by
    rw [keptBytes, hbytes, Option.getD_some, keptNotes, Elf.Note.parse_cons hfirst,
      Elf.Note.parse_cons hsecond, Elf.Note.parse_none rfl]
    decide +kernel
  apply hfree 17
  rw [hkept, occursAt_iff_begins, ← List.isPrefixOf_iff_prefix]
  decide +kernel

end Carrier

end SelfExtract
