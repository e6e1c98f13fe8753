import SelfExtract.Proofs.CanonicalSettings
import SelfExtract.Proofs.Overwrite

/-!
# Which byte strings are records

A record is known by its size, by the magic number and the version in front,
and by six or three lengths at fixed places, none of which may be longer than
its field. Nothing else can make it no record, and behind the announced end of
a text nothing is read.
-/
namespace SelfExtract

namespace Bytes

theorem ofNatLE_natLE (b : Bytes) : ofNatLE b.length b.natLE = b := by
  induction b with
  | nil => rfl
  | cons x r ih =>
    have hx := x.toNat_lt
    have hlow : UInt8.ofNat (x.toNat + 256 * natLE r) = x := by
      rw [← UInt8.toNat_inj, UInt8.toNat_ofNat']
      omega
    have hhigh : (x.toNat + 256 * natLE r) / 256 = natLE r := by omega
    rw [List.length_cons, natLE, ofNatLE, hlow, hhigh, ih]

theorem natLE_eq_iff {b : Bytes} {width n : Nat} (hb : b.length = width) (hn : n < 256 ^ width) :
    b.natLE = n ↔ b = ofNatLE width n := by
  constructor
  · rintro rfl
    rw [← hb, ofNatLE_natLE]
  · rintro rfl
    exact natLE_ofNatLE_of_lt hn

end Bytes

namespace Record

/-- Where a field stands in a record: the offset of its length, the width of the length and the
most bytes that its text may have. -/
structure Slot where
  offset : Nat
  lengthWidth : Nat
  limit : Nat
  deriving DecidableEq, Repr

namespace Slot

def start (s : Slot) : Nat :=
  s.offset + s.lengthWidth

def stop (s : Slot) : Nat :=
  s.start + s.limit

def announced (s : Slot) (b : Bytes) : Nat :=
  Bytes.natLE ((b.drop s.offset).take s.lengthWidth)

def text (s : Slot) (b : Bytes) : String :=
  Utf8.decodeLossy ((b.drop s.start).take (s.announced b))

theorem announced_congr {s : Slot} {b d : Bytes}
    (h : ∀ i, s.offset ≤ i → i < s.start → d[i]? = b[i]?) : s.announced d = s.announced b := by
  rw [announced, announced, Bytes.take_drop_congr fun k hk =>
    h (s.offset + k) (Nat.le_add_right _ _) (Nat.add_lt_add_left hk _)]

theorem text_congr {s : Slot} {b d : Bytes} (hlen : s.announced d = s.announced b)
    (h : ∀ i, s.start ≤ i → i < s.start + s.announced b → d[i]? = b[i]?) :
    s.text d = s.text b := by
  rw [text, text, hlen, Bytes.take_drop_congr fun k hk =>
    h (s.start + k) (Nat.le_add_right _ _) (Nat.add_lt_add_left hk _)]

end Slot

def Field.slotAt (f : Field) (offset : Nat) : Slot :=
  ⟨offset, f.lengthWidth, f.limit⟩

theorem Field.decode?_drop (f : Field) (b : Bytes) (offset : Nat) :
    f.decode? (b.drop offset) =
      if (f.slotAt offset).announced b ≤ (f.slotAt offset).limit then
        some ((f.slotAt offset).text b)
      else none := by
  rw [Field.decode?, List.drop_drop, ← ite_not]
  simp only [Nat.not_lt]
  rfl

namespace Layout

def slotsFrom : Nat → List Field → List Slot
  | _, [] => []
  | offset, f :: fs => f.slotAt offset :: slotsFrom (offset + f.size) fs

def slots (l : Layout) : List Slot :=
  slotsFrom (6 + l.headerSize) l.fields

/-- Fields are read unless one of them announces a text that is longer than it can hold. -/
theorem decodeFields?_drop (fs : List Field) (b : Bytes) (offset : Nat) :
    decodeFields? fs (b.drop offset) =
      if ∀ s ∈ slotsFrom offset fs, s.announced b ≤ s.limit then
        some ((slotsFrom offset fs).map (·.text b))
      else none := by
  induction fs generalizing offset with
  | nil => simp [decodeFields?, slotsFrom]
  | cons f fs ih =>
    rw [decodeFields?, Field.decode?_drop, List.drop_drop, ih, slotsFrom, List.map_cons]
    simp only [List.forall_mem_cons]
    by_cases hfirst : (f.slotAt offset).announced b ≤ (f.slotAt offset).limit
    · by_cases hrest : ∀ s ∈ slotsFrom (offset + f.size) fs, s.announced b ≤ s.limit
      · rw [if_pos hfirst, if_pos hrest, if_pos ⟨hfirst, hrest⟩]
        rfl
      · simp only [hfirst, hrest, and_false, if_true, if_false]
        rfl
    · simp only [hfirst, false_and, if_false]
      rfl

/-- Magic number and version are what a record begins with. -/
theorem opens_iff {l : Layout} (hl : l.Fits) {b : Bytes} (hb : 6 ≤ b.length) :
    Bytes.natLE (b.take 4) = l.magic ∧ Bytes.natLE ((b.drop 4).take 2) = l.version ↔
      Bytes.ofNatLE 4 l.magic ++ Bytes.ofNatLE 2 l.version <+: b := by
  have hmagic : (b.take 4).length = 4 := by
    rw [List.length_take]
    omega
  have hversion : ((b.drop 4).take 2).length = 2 := by
    rw [List.length_take, List.length_drop]
    omega
  have hsix : b.take (4 + 2) = b.take 4 ++ (b.drop 4).take 2 := List.take_add
  rw [Bytes.natLE_eq_iff hmagic hl.magic, Bytes.natLE_eq_iff hversion hl.version,
    List.prefix_iff_eq_take, List.length_append, Bytes.length_ofNatLE, Bytes.length_ofNatLE, hsix]
  constructor
  · rintro ⟨h₁, h₂⟩
    rw [h₁, h₂]
  · intro h
    have hparts := List.append_inj h (by rw [Bytes.length_ofNatLE, hmagic])
    exact ⟨hparts.1.symm, hparts.2.symm⟩

/-- A byte string is read as a record on three conditions. -/
theorem decode?_eq {l : Layout} (hl : l.Fits) (b : Bytes) :
    l.decode? b =
      if b.length = l.size ∧ Bytes.ofNatLE 4 l.magic ++ Bytes.ofNatLE 2 l.version <+: b ∧
          ∀ s ∈ l.slots, s.announced b ≤ s.limit then
        some ((b.drop 6).take l.headerSize, l.slots.map (·.text b))
      else none := by
  rw [decode?, decodeFields?_drop]
  by_cases hsize : b.length = l.size
  · have hsix : 6 ≤ b.length := by
      rw [hsize, size]
      omega
    simp only [opens_iff hl hsix, hsize, true_and, slots]
    by_cases hopens : Bytes.ofNatLE 4 l.magic ++ Bytes.ofNatLE 2 l.version <+: b
    · simp only [hopens, true_and, if_true, apply_ite (Option.map _), Option.map_some,
        Option.map_none]
    · simp only [hopens, false_and, if_false]
  · simp only [hsize, false_and, if_false]

end Layout

end Record

open Record

namespace Settings

namespace Kind

/-- What the records of a kind begin with: magic number and version, least significant byte
first. -/
def opening : Kind → Bytes
  | .update => [0x47, 0x46, 0x4D, 0x53, 0x01, 0x00]
  | .vfs => [0x47, 0x46, 0x56, 0x53, 0x01, 0x00]

def slots : Kind → List Slot
  | .update => [⟨24, 1, 127⟩, ⟨152, 2, 254⟩, ⟨408, 2, 510⟩, ⟨920, 1, 127⟩, ⟨1048, 1, 63⟩,
      ⟨1112, 1, 63⟩]
  | .vfs => [⟨8, 2, 32⟩, ⟨42, 2, 256⟩, ⟨300, 2, 64⟩]

structure IsRecord (k : Kind) (b : Bytes) : Prop where
  length : b.length = k.recordSize
  opens : k.opening <+: b
  fits : ∀ s ∈ k.slots, s.announced b ≤ s.limit

/-- The positions in a record of a kind whose bytes do not count: those between the announced end
of a text and the end of its field, and two bytes in front of the fields of file-system
settings. -/
inductive Spare (k : Kind) (b : Bytes) : Nat → Prop
  | behind {s : Slot} {i : Nat} : s ∈ k.slots → s.start + s.announced b ≤ i → i < s.stop →
      Spare k b i
  | padding {i : Nat} : k = .vfs → 6 ≤ i → i < 8 → Spare k b i

theorem fits_layout (k : Kind) : k.layout.Fits := by
  cases k
  · exact UpdateSettings.fits_layout
  · exact VfsSettings.fits_layout

theorem slots_layout (k : Kind) : k.layout.slots = k.slots := by
  cases k <;> rfl

theorem opening_eq (k : Kind) :
    Bytes.ofNatLE 4 k.layout.magic ++ Bytes.ofNatLE 2 k.layout.version = k.opening := by
  cases k <;> decide

/-- Fields begin behind the header and do not overlap. -/
theorem slots_apart (k : Kind) : ∀ s ∈ k.slots, 8 ≤ s.offset ∧
    ∀ t ∈ k.slots, s = t ∨ s.stop ≤ t.offset ∨ t.stop ≤ s.offset := by
  cases k <;> decide

/-- Byte strings that differ in positions that do not count. -/
structure SameBut (k : Kind) (b d : Bytes) : Prop where
  length : d.length = b.length
  bytes : ∀ i, ¬ k.Spare b i → d[i]? = b[i]?

variable {k : Kind} {b d : Bytes}

theorem Spare.six_le {i : Nat} (h : k.Spare b i) : 6 ≤ i := by
  cases h with
  | @behind s _ hs hlow _ =>
    have hfirst := (k.slots_apart s hs).1
    rw [Slot.start] at hlow
    omega
  | padding _ hlow _ => exact hlow

/-- The whole header of update settings counts. -/
theorem Spare.header_le {i : Nat} (h : Kind.update.Spare b i) : 24 ≤ i := by
  cases h with
  | @behind s _ hs hlow _ =>
    have hfirst : ∀ s ∈ Kind.update.slots, 24 ≤ s.offset := by decide
    have := hfirst s hs
    rw [Slot.start] at hlow
    omega
  | padding hk _ _ => cases hk

/-- Of a field, the length and the announced text count. -/
theorem not_spare {s : Slot} (hs : s ∈ k.slots) {i : Nat} (hoffset : s.offset ≤ i)
    (hstop : i < s.stop) (htext : i < s.start + s.announced b) : ¬ k.Spare b i := by
  obtain ⟨hfirst, hapart⟩ := k.slots_apart s hs
  intro h
  cases h with
  | @behind t _ ht hlow hhigh =>
    rcases hapart t ht with rfl | hbefore | hbehind
    · omega
    · rw [Slot.start] at hlow
      omega
    · omega
  | padding _ _ hhigh => omega

namespace SameBut

variable (h : k.SameBut b d)
include h

theorem announced {s : Slot} (hs : s ∈ k.slots) : s.announced d = s.announced b :=
  Slot.announced_congr fun i hoffset hstart =>
    h.bytes i (not_spare hs hoffset (Nat.lt_of_lt_of_le hstart (Nat.le_add_right _ _))
      (Nat.lt_of_lt_of_le hstart (Nat.le_add_right _ _)))

theorem text {s : Slot} (hs : s ∈ k.slots) (hfits : s.announced b ≤ s.limit) :
    s.text d = s.text b := by
  refine Slot.text_congr (h.announced hs) fun i hstart htext => h.bytes i (not_spare hs ?_ ?_ htext)
  · exact Nat.le_trans (Nat.le_add_right _ _) hstart
  · rw [Slot.stop]
    omega

theorem opens : k.opening <+: d ↔ k.opening <+: b := by
  have hsix : k.opening.length = 6 := by
    cases k <;> rfl
  have htake : d.take 6 = b.take 6 :=
    Bytes.take_drop_congr (i := 0) (j := 0) fun i hi => by
      rw [Nat.zero_add]
      exact h.bytes i fun hspare => Nat.not_le_of_lt hi hspare.six_le
  rw [List.prefix_iff_eq_take, List.prefix_iff_eq_take, hsix, htake]

theorem isRecord : k.IsRecord d ↔ k.IsRecord b := by
  constructor
  · intro hd
    exact ⟨h.length ▸ hd.length, h.opens.mp hd.opens, fun s hs => h.announced hs ▸ hd.fits s hs⟩
  · intro hb
    exact ⟨h.length.trans hb.length, h.opens.mpr hb.opens,
      fun s hs => (h.announced hs).symm ▸ hb.fits s hs⟩

theorem texts (hb : k.IsRecord b) : k.slots.map (·.text d) = k.slots.map (·.text b) :=
  List.map_congr_left fun s hs => h.text hs (hb.fits s hs)

end SameBut

end Kind

def texts : Settings → List String
  | .update u => u.texts
  | .vfs v => v.texts

def ofParts? : Kind → Bytes → List String → Option Settings
  | .update, header, texts => (UpdateSettings.ofParts? header texts).map .update
  | .vfs, _, texts => (VfsSettings.ofTexts? texts).map .vfs

theorem decode?_eq_bind (k : Kind) (b : Bytes) :
    decode? k b = (k.layout.decode? b).bind fun p => ofParts? k p.1 p.2 := by
  cases k with
  | update => exact Option.map_bind
  | vfs => exact Option.map_bind

variable {k : Kind} {b d : Bytes}

theorem decode?_of_isRecord (h : k.IsRecord b) :
    decode? k b = ofParts? k ((b.drop 6).take k.layout.headerSize) (k.slots.map (·.text b)) := by
  rw [decode?_eq_bind, Layout.decode?_eq k.fits_layout, if_pos, k.slots_layout]
  · rfl
  · rw [k.size_layout, k.opening_eq, k.slots_layout]
    exact ⟨h.length, h.opens, h.fits⟩

theorem decode?_of_not_isRecord (h : ¬ k.IsRecord b) : decode? k b = none := by
  rw [decode?_eq_bind, Layout.decode?_eq k.fits_layout, if_neg]
  · rfl
  · rw [k.size_layout, k.opening_eq, k.slots_layout]
    exact fun ⟨hlength, hopens, hfits⟩ => h ⟨hlength, hopens, hfits⟩

/-- A kind has as many texts as its records have fields. -/
theorem exists_ofParts? (k : Kind) (header b : Bytes) :
    ∃ s, ofParts? k header (k.slots.map (·.text b)) = some s ∧
      s.texts = k.slots.map (·.text b) := by
  cases k
  · exact ⟨_, rfl, rfl⟩
  · exact ⟨_, rfl, rfl⟩

theorem isSome_decode?_iff : (decode? k b).isSome ↔ k.IsRecord b := by
  by_cases h : k.IsRecord b
  · obtain ⟨s, hs, -⟩ := exists_ofParts? k ((b.drop 6).take k.layout.headerSize) b
    simp [decode?_of_isRecord h, hs, h]
  · simp [decode?_of_not_isRecord h, h]

theorem texts_of_decode? {s : Settings} (h : decode? k b = some s) :
    s.texts = k.slots.map (·.text b) := by
  have hrecord : k.IsRecord b := isSome_decode?_iff.mp (Option.isSome_of_eq_some h)
  obtain ⟨t, ht, htexts⟩ := exists_ofParts? k ((b.drop 6).take k.layout.headerSize) b
  rw [decode?_of_isRecord hrecord, ht] at h
  rw [← Option.some.inj h, htexts]

theorem decode?_congr (h : k.SameBut b d) : decode? k d = decode? k b := by
  by_cases hb : k.IsRecord b
  · rw [decode?_of_isRecord hb, decode?_of_isRecord (h.isRecord.mpr hb), h.texts hb]
    cases k with
    | update =>
      have hheader : (d.drop 6).take 18 = (b.drop 6).take 18 :=
        Bytes.take_drop_congr fun i hi =>
          h.bytes (6 + i) fun hspare => absurd hspare.header_le (by omega)
      change ofParts? .update ((d.drop 6).take 18) _ = ofParts? .update ((b.drop 6).take 18) _
      rw [hheader]
    | vfs => rfl
  · rw [decode?_of_not_isRecord hb, decode?_of_not_isRecord (hb ∘ h.isRecord.mp)]

/-- Settings are read from just the records of their kind, and each text from the bytes that are
announced for it. No byte string is a record of both kinds, and bytes that do not count are not
seen in what is read. -/
theorem records_recognized (k : Kind) (b : Bytes) :
    ((decode? k b).isSome ↔ k.IsRecord b) ∧
    (∀ s, decode? k b = some s → s.texts = k.slots.map (·.text b)) ∧
    ¬ ((decode? .update b).isSome ∧ (decode? .vfs b).isSome) ∧
    ∀ d, k.SameBut b d → decode? k d = decode? k b := by
  refine ⟨isSome_decode?_iff, fun s => texts_of_decode?, ?_, fun d => decode?_congr⟩
  rintro ⟨hupdate, hvfs⟩
  have hsize := (isSome_decode?_iff.mp hupdate).length
  rw [(isSome_decode?_iff.mp hvfs).length] at hsize
  cases hsize

end Settings

end SelfExtract
