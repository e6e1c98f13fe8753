import SelfExtract.Carrier
import SelfExtract.Proofs.CacheKey
import SelfExtract.Proofs.ExactExpansion
import SelfExtract.Proofs.Metadata

/-!
# What packing puts into a carrier

Packing succeeds exactly when the payload has a size in bounds, the carrier
shows no block, a target is known, the payload can be compressed, the metadata
are admitted and the block can be attached. Where the block stands in a file,
everything that was packed is read back. A file that shows a block is refused
as a carrier.
-/
namespace SelfExtract

open Bytes

/-- What a codec has compressed it expands again. -/
def Codec.RoundTrips (c : Codec) : Prop :=
  ∀ data compressed, c.compress data = .ok compressed → c.expand compressed data.length = .ok data

def Codec.identity : Codec where
  algorithm := "identity"
  compress data := .ok data
  expand data _ := .ok data

theorem Codec.roundTrips_identity : Codec.identity.RoundTrips := by
  intro data compressed h
  cases h
  rfl

/-- What the library for frames is documented to do: a frame is not empty, and it is read back as
the one stream of the data that it was made of, which were in memory. -/
structure Compression.Faithful (z : Compression) : Prop where
  frame_ne : ∀ level data, z.frame level data ≠ .ok []
  data_lt : ∀ {level data frame}, z.frame level data = .ok frame → data.length < addressSpace
  content : ∀ {level data frame}, z.frame level data = .ok frame →
    (z.content frame).Follows none (z.content frame).start data

theorem Codec.compress_framed {z : Compression} {level : Int} {data : Bytes} (hdata : data ≠ []) :
    (framed z level).compress data = (z.frame level data).mapError .encoder :=
  if_neg (by simpa using hdata)

/-- With such a library a payload comes back at every level. -/
theorem Compression.Faithful.roundTrips {z : Compression} (h : z.Faithful) (level : Int) :
    (Codec.framed z level).RoundTrips := by
  intro data compressed hcompress
  by_cases hdata : data = []
  · rw [hdata] at hcompress
    cases hcompress
  · rw [Codec.compress_framed hdata, mapError_eq_ok] at hcompress
    have hne : compressed ≠ [] := fun hnil => h.frame_ne level data (hnil ▸ hcompress)
    let stream : Stream := ⟨data, none⟩
    have hfollows : (z.content compressed).Follows stream.failure (z.content compressed).start
        stream.bytes := h.content hcompress
    have hexpand := Codec.expandWith_of_follows hne (mt List.length_eq_zero_iff.mp hdata)
      (h.data_lt hcompress) hfollows
    rwa [if_neg (Nat.lt_irrefl _), Option.elim_none, if_pos rfl] at hexpand

/-- A library whose frames are the data behind one byte. -/
def Compression.behindByte : Compression where
  frame _ data := if data.length < addressSpace then .ok (0 :: data) else .error "out of memory"
  content frame := Stream.source ⟨frame.tail, none⟩

theorem Compression.frame_behindByte {level : Int} {data frame : Bytes} :
    behindByte.frame level data = .ok frame ↔ data.length < addressSpace ∧ frame = 0 :: data := by
  simp only [behindByte]
  split
  · next h => simp [h, eq_comm]
  · next h => simp [h]

theorem Compression.faithful_behindByte : behindByte.Faithful where
  frame_ne level data h := absurd (frame_behindByte.1 h).2 (List.cons_ne_nil 0 data).symm
  data_lt h := (frame_behindByte.1 h).1
  content {level data frame} h := by
    rw [(frame_behindByte.1 h).2]
    exact Stream.follows_source ⟨data, none⟩ data

def Target.usual : Target :=
  make .linux .x64 .glibc

namespace Carrier

def Packing.metadata (how : Packing) (target : Target) (payload compressed : Bytes) : Metadata where
  compressedSize := UInt64.ofNatClamp compressed.length
  uncompressedSize := UInt64.ofNatClamp payload.length
  key := Utf8.encode (cacheKey payload)
  target := target.code
  hasSettings := how.settings.isSome
  settings := how.settings
  dataOffset := 0

namespace Packing

variable (how : Packing) (target : Target) (payload compressed : Bytes)

@[simp] theorem metadata_compressedSize : (how.metadata target payload compressed).compressedSize =
    UInt64.ofNatClamp compressed.length := rfl
@[simp] theorem metadata_uncompressedSize :
    (how.metadata target payload compressed).uncompressedSize =
      UInt64.ofNatClamp payload.length := rfl
@[simp] theorem metadata_key :
    (how.metadata target payload compressed).key = Utf8.encode (cacheKey payload) := by
  rw [metadata]
@[simp] theorem metadata_target :
    (how.metadata target payload compressed).target = target.code := rfl
@[simp] theorem metadata_settings :
    (how.metadata target payload compressed).settings = how.settings := rfl

end Packing

theorem make_eq (how : Packing) (target : Target) (payload compressed : Bytes) :
    Metadata.make (UInt64.ofNatClamp compressed.length) (UInt64.ofNatClamp payload.length)
      (cacheKey payload) target how.settings = .ok (how.metadata target payload compressed) := by
  rw [Metadata.make]
  exact if_pos (length_cacheKey payload)

def Packing.summary (target : Target) (carrier payload compressed image : Bytes) : Summary where
  kind := Executable.detect? carrier
  carrierSize := carrier.length
  compressedSize := compressed.length
  uncompressedSize := payload.length
  key := cacheKey payload
  target
  totalSize := image.length

structure Packed (how : Packing) (carrier payload : Bytes) (target : Target)
    (compressed image : Bytes) : Prop where
  payload_ne : payload ≠ []
  payload_le : payload.length ≤ sizeLimit.toNat
  unpacked : locate carrier = none
  target_eq : how.target.or (Target.detect? carrier) = some target
  compress_eq : how.codec.compress payload = .ok compressed
  admitted : (how.metadata target payload compressed).validate sizeLimit = .ok ()
  embed_eq :
    embed carrier ((how.metadata target payload compressed).withPayload compressed) = .ok image

/-- A file that shows a block takes no other. -/
theorem pack_located {carrier payload : Bytes} {at_ : Nat} (how : Packing)
    (hloc : locate carrier = some at_) (hne : payload ≠ [])
    (hle : payload.length ≤ sizeLimit.toNat) :
    pack how carrier payload = .error (.carrier .alreadyPressed) := by
  have he : payload.isEmpty = false := by simpa using hne
  simp only [pack, he, hloc, Bool.false_eq_true, if_false, if_neg (Nat.not_lt_of_le hle),
    Option.isSome_some, if_true]
  rfl

/-- Nothing but the metadata and the carrier can stop a packing once the payload is compressed. -/
theorem pack_compressed {how : Packing} {carrier payload : Bytes} {target : Target}
    {compressed : Bytes} (hne : payload ≠ []) (hle : payload.length ≤ sizeLimit.toNat)
    (hloc : locate carrier = none) (ht : how.target.or (Target.detect? carrier) = some target)
    (hc : how.codec.compress payload = .ok compressed) :
    pack how carrier payload = do
      ((how.metadata target payload compressed).validate sizeLimit).mapError .metadata
      let image ← embed carrier ((how.metadata target payload compressed).withPayload compressed)
      return (image, Packing.summary target carrier payload compressed image) := by
  have he : payload.isEmpty = false := by simpa using hne
  simp only [pack, he, if_neg (Nat.not_lt_of_le hle), hloc, ht, hc, Option.isSome_none,
    Bool.false_eq_true, if_false, Option.elim, make_eq, bind, Except.bind, Packing.summary]
  rfl

theorem pack_eq_ok (how : Packing) (carrier payload image : Bytes) (info : Summary) :
    pack how carrier payload = .ok (image, info) ↔ ∃ target compressed,
      Packed how carrier payload target compressed image ∧
        info = Packing.summary target carrier payload compressed image := by
  constructor
  · intro h
    have hne : payload ≠ [] := by
      intro he
      rw [pack, he] at h
      cases h
    have he : payload.isEmpty = false := by simpa using hne
    have hle : payload.length ≤ sizeLimit.toNat := by
      apply Nat.le_of_not_lt
      intro hlt
      simp only [pack, he, Bool.false_eq_true, if_false, if_pos hlt] at h
      cases h
    have hloc : locate carrier = none := by
      cases hl : locate carrier with
      | none => rfl
      | some n =>
        rw [pack_located how hl hne hle] at h
        cases h
    cases ht : how.target.or (Target.detect? carrier) with
    | none =>
      simp only [pack, he, hloc, ht, Bool.false_eq_true, if_false, if_neg (Nat.not_lt_of_le hle),
        Option.isSome_none, Option.elim] at h
      cases h
    | some target =>
      cases hc : how.codec.compress payload with
      | error e =>
        simp only [pack, he, hloc, ht, hc, Bool.false_eq_true, if_false,
          if_neg (Nat.not_lt_of_le hle), Option.isSome_none, Option.elim] at h
        cases h
      | ok compressed =>
        rw [pack_compressed hne hle hloc ht hc] at h
        cases hv : (how.metadata target payload compressed).validate sizeLimit with
        | error e =>
          rw [hv] at h
          cases h
        | ok u =>
          rw [hv] at h
          cases hi : embed carrier
              ((how.metadata target payload compressed).withPayload compressed) with
          | error e =>
            rw [hi] at h
            cases h
          | ok out =>
            rw [hi] at h
            cases h
            exact ⟨target, compressed, ⟨hne, hle, hloc, ht, hc, hv, hi⟩, rfl⟩
  · rintro ⟨target, compressed, hp, rfl⟩
    rw [pack_compressed hp.payload_ne hp.payload_le hp.unpacked hp.target_eq hp.compress_eq,
      hp.admitted, hp.embed_eq]
    rfl

theorem toNat_ofNatClamp {n : Nat} (h : n < 2 ^ 64) : (UInt64.ofNatClamp n).toNat = n := by
  rw [UInt64.ofNatClamp, dif_pos (show n < UInt64.size from h)]
  exact UInt64.toNat_ofNatLT

/-- A length that is too great for a word is also too great for a size. -/
theorem ofNatClamp_bounds (n : Nat) :
    0 < (UInt64.ofNatClamp n).toNat ∧ UInt64.ofNatClamp n ≤ sizeLimit ↔
      0 < n ∧ n ≤ sizeLimit.toNat := by
  have hlim : sizeLimit.toNat = 524288000 := by decide
  rw [UInt64.le_iff_toNat_le]
  by_cases hn : n < 2 ^ 64
  · rw [toNat_ofNatClamp hn]
  · have hmax : (UInt64.ofNatClamp n).toNat = 2 ^ 64 - 1 := by
      rw [UInt64.ofNatClamp, dif_neg (show ¬ n < UInt64.size from hn)]
      rfl
    omega

/-- Metadata that are written are admitted when the two lengths are in bounds. -/
theorem Packing.admitted_iff (how : Packing) (target : Target) (payload compressed : Bytes) :
    (how.metadata target payload compressed).validate sizeLimit = .ok () ↔
      (0 < compressed.length ∧ compressed.length ≤ sizeLimit.toNat) ∧
        0 < payload.length ∧ payload.length ≤ sizeLimit.toNat := by
  rw [Metadata.validate_eq_ok, ← ofNatClamp_bounds, ← ofNatClamp_bounds]
  constructor
  · exact fun h => ⟨h.1, h.2.1⟩
  · intro h
    refine ⟨h.1, h.2, ?_, target, Target.ofCode_code target⟩
    rw [Packing.metadata_key]
    exact isCacheKey_cacheKey payload

/-- The sizes of an admitted packing are stored as they are. -/
theorem Packed.sizes {how : Packing} {carrier payload : Bytes} {target : Target}
    {compressed image : Bytes} (h : Packed how carrier payload target compressed image) :
    (how.metadata target payload compressed).compressedSize.toNat = compressed.length ∧
    (how.metadata target payload compressed).uncompressedSize.toNat = payload.length ∧
    compressed.length ≤ sizeLimit.toNat := by
  have hlim : sizeLimit.toNat < 2 ^ 64 := by decide
  obtain ⟨hc, hp⟩ := (Packing.admitted_iff ..).mp h.admitted
  exact ⟨toNat_ofNatClamp (Nat.lt_of_le_of_lt hc.2 hlim),
    toNat_ofNatClamp (Nat.lt_of_le_of_lt hp.2 hlim), hc.2⟩

/-- What metadata that were read from an image tell about the packing, and the way from the image
back to the payload. The target is the one that was asked for, or else the carrier's own. -/
structure Restores (how : Packing) (carrier payload image : Bytes) (info : Summary) (m : Metadata) :
    Prop where
  compressedSize_eq : m.compressedSize.toNat = info.compressedSize
  uncompressedSize_eq : m.uncompressedSize.toNat = payload.length
  key_eq : m.keyText = cacheKey payload
  target_eq : ∃ target, how.target.or (Target.detect? carrier) = some target ∧
    m.target? = .ok target ∧ info.target = target
  hasSettings_eq : m.hasSettings = how.settings.isSome
  settings_eq : m.settings = how.settings.bind fun s => Settings.decode? s.kind s.encode
  admitted : m.validate sizeLimit = .ok ()
  payload_eq : ∃ compressed, how.codec.compress payload = .ok compressed ∧
    info = Packing.summary info.target carrier payload compressed image ∧
    m.readPayload image = .ok compressed ∧ compressed.length = info.compressedSize ∧
    how.codec.expand compressed payload.length = .ok payload

/-- Where the bytes behind the marker stand, everything that was packed is read back. -/
theorem Packed.restores {how : Packing} {carrier payload : Bytes} {target : Target}
    {compressed image : Bytes} (h : Packed how carrier payload target compressed image)
    (hcodec : how.codec.RoundTrips) {start : Nat}
    (hocc : OccursAt image ((how.metadata target payload compressed).encode ++ compressed) start)
    (kind : Settings.Kind) (hkind : ∀ s, how.settings = some s → kind = s.kind) :
    ∃ m, Metadata.read image start kind = .ok m ∧
      Restores how carrier payload image
        (Packing.summary target carrier payload compressed image) m := by
  obtain ⟨hsize, hexpanded, hle⟩ := h.sizes
  have hkey : (how.metadata target payload compressed).key.length = keyLength := by
    rw [Packing.metadata_key]
    exact length_cacheKey payload
  have hread := Metadata.read_of_occursAt (how.metadata target payload compressed) image start kind
    hkey rfl hkind ((occursAt_append ..).mp hocc).1
  refine ⟨_, hread, ?_⟩
  exact {
    compressedSize_eq := hsize
    uncompressedSize_eq := hexpanded
    key_eq := by
      rw [Metadata.keyText, Metadata.asRead_key, Packing.metadata_key, Utf8.decode?_encode]
      rfl
    target_eq := by
      refine ⟨target, h.target_eq, ?_, rfl⟩
      rw [Metadata.target?, Metadata.asRead_target, Packing.metadata, Target.ofCode_code]
      rfl
    hasSettings_eq := rfl
    settings_eq := rfl
    admitted := by
      rw [Metadata.validate_asRead]
      exact h.admitted
    payload_eq := by
      refine ⟨compressed, h.compress_eq, rfl, ?_, rfl, hcodec _ _ h.compress_eq⟩
      have hlim : sizeLimit.toNat < addressSpace := by decide
      apply Metadata.readPayload_of_occursAt
      · exact hsize
      · rw [Metadata.asRead_compressedSize, hsize]
        exact Nat.lt_of_le_of_lt hle hlim
      · exact ((occursAt_append ..).mp hocc).2 }

/-- The block of an image is found at `start`, gives everything back, and is in the way of a second
one. -/
structure Recovers (how : Packing) (carrier payload image : Bytes) (info : Summary) (start : Nat) :
    Prop where
  located : locate image = some start
  restored : ∀ kind, (∀ s, how.settings = some s → kind = s.kind) →
    ∃ m, Metadata.read image start kind = .ok m ∧ Restores how carrier payload image info m
  rejected : ∀ (again : Packing) other, other ≠ [] → other.length ≤ sizeLimit.toNat →
    pack again image other = .error (.carrier .alreadyPressed)

/-- Where the bytes behind the marker stand, all depends on whether they are found. -/
theorem Packed.recovers_iff {how : Packing} {carrier payload : Bytes} {target : Target}
    {compressed image : Bytes} (h : Packed how carrier payload target compressed image)
    (hcodec : how.codec.RoundTrips) {start : Nat}
    (hocc : OccursAt image
      ((how.metadata target payload compressed).encode ++ compressed) start) :
    Recovers how carrier payload image (Packing.summary target carrier payload compressed image)
        start ↔ locate image = some start := by
  constructor
  · exact fun hr => hr.located
  · intro hloc
    exact {
      located := hloc
      restored := fun kind hkind => h.restores hcodec hocc kind hkind
      rejected := fun again other hne hle => pack_located again hloc hne hle }

end Carrier

end SelfExtract
