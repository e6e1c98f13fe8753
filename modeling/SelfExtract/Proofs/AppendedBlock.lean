import SelfExtract.Proofs.Packing
import SelfExtract.Proofs.Scan

/-!
# Carriers with the block at their end

A carrier that is no ELF file keeps its bytes and gets the block behind them.
The first marker of such a file is the one of the block: the carrier shows none
itself, and the marker is unbordered, so that none begins in the carrier and
ends in the block.
-/
namespace SelfExtract

open Bytes

namespace Executable

/-- An ELF file is told by its first four bytes. -/
theorem detect?_eq_elf_iff (b : Bytes) :
    detect? b = some .elf ↔ b.take 4 = [0x7F, 0x45, 0x4C, 0x46] := by
  constructor
  · intro h
    unfold detect? at h
    split at h
    · rfl
    · split at h <;> cases h
    all_goals cases h
  · intro h
    have hb := List.take_append_drop 4 b
    rw [h] at hb
    rw [← hb]
    rfl

/-- The kind of a file whose start is not an ELF file's is no ELF file either. -/
theorem detect?_take (b : Bytes) : detect? (b.take 4) = some .elf ↔ detect? b = some .elf := by
  rw [detect?_eq_elf_iff, detect?_eq_elf_iff, List.take_take]
  rfl

end Executable

namespace Marker

theorem unbordered_payload : Unbordered payload.bytes := by
  decide

theorem payload_ne_nil : payload.bytes ≠ [] := by
  decide

theorem length_payload : payload.bytes.length = 32 := rfl

end Marker

namespace Carrier

/-- A file that is no ELF file is searched from end to end. -/
theorem locate_eq_findLinear {b : Bytes} (h : Executable.detect? b ≠ some .elf) :
    locate b = (b.firstIndex? Marker.payload.bytes).map (· + 32) := by
  have hl : locate b = Marker.payload.findLinear .after b := by
    rw [Ne, ← Executable.detect?_take] at h
    unfold locate
    cases hd : Executable.detect? (b.take 4) with
    | none => rfl
    | some kind =>
      cases kind with
      | elf => exact absurd hd h
      | machO => rfl
      | pe => rfl
  rw [hl, Marker.findLinear_eq]
  rfl

/-- The marker's first byte does not complete the start of an ELF file. -/
theorem detect?_append_marker {b : Bytes} (h : Executable.detect? b ≠ some .elf) (c : Bytes) :
    Executable.detect? (b ++ Marker.payload.bytes ++ c) ≠ some .elf := by
  intro hd
  rw [Executable.detect?_eq_elf_iff] at hd
  rw [Ne, Executable.detect?_eq_elf_iff] at h
  by_cases hlen : 4 ≤ b.length
  · rw [List.append_assoc, List.take_append_of_le_length hlen] at hd
    exact h hd
  · have hbyte : (b ++ Marker.payload.bytes ++ c)[b.length]? = some 0x5F := by
      rw [List.append_assoc, List.getElem?_append_right (Nat.le_refl _), Nat.sub_self]
      rfl
    have hmem : (0x5F : UInt8) ∈ [0x7F, 0x45, 0x4C, 0x46] := by
      rw [← hd]
      apply List.mem_of_getElem? (i := b.length)
      rw [List.getElem?_take_of_lt (Nat.lt_of_not_le hlen), hbyte]
    exact absurd hmem (by decide)

/-- The first marker behind a carrier that shows none is the appended one. -/
theorem locate_append {b : Bytes} (h : Executable.detect? b ≠ some .elf) (hb : locate b = none)
    (c : Bytes) : locate (b ++ Marker.payload.bytes ++ c) = some (b.length + 32) := by
  rw [locate_eq_findLinear h, Option.map_eq_none_iff,
    firstIndex?_eq_none_iff Marker.payload_ne_nil] at hb
  have hfirst := isFirst_append b c _ Marker.unbordered_payload hb
  rw [locate_eq_findLinear (detect?_append_marker h c),
    (firstIndex?_eq_some_iff Marker.payload_ne_nil).mpr hfirst]
  rfl

/-- A carrier that is no ELF file keeps its bytes in front of the block, the block is found where
it was put and gives everything back, and no second block is taken. -/
theorem pack_append_restores (how : Packing) (carrier payload image : Bytes) (info : Summary)
    (hkind : Executable.detect? carrier ≠ some .elf) (hcodec : how.codec.RoundTrips)
    (h : pack how carrier payload = .ok (image, info)) :
    carrier <+: image ∧ Recovers how carrier payload image info (carrier.length + 32) := by
  rw [pack_eq_ok] at h
  obtain ⟨target, compressed, hp, rfl⟩ := h
  let m := how.metadata target payload compressed
  have himage : image = carrier ++ Marker.payload.bytes ++ (m.encode ++ compressed) := by
    have he := hp.embed_eq
    unfold embed at he
    split at he
    · next hd => exact absurd hd hkind
    · cases he
      simp only [Metadata.withPayload, List.append_assoc, m]
  have hloc : locate image = some (carrier.length + 32) := by
    rw [himage]
    exact locate_append hkind hp.unpacked _
  have hocc : OccursAt image (m.encode ++ compressed) (carrier.length + 32) := by
    have hself := occursAt_self (carrier ++ Marker.payload.bytes) (m.encode ++ compressed) []
    rw [List.append_nil, ← himage, List.length_append, Marker.length_payload] at hself
    exact hself
  refine ⟨?_, (hp.recovers_iff hcodec hocc).mpr hloc⟩
  rw [himage, List.append_assoc]
  exact List.prefix_append _ _

/-- The marker without its last byte is a carrier that the marker behind it could complete too
early. -/
theorem pack_append_restores_cut_marker :
    let how : Packing := ⟨Codec.identity, some Target.usual, some (.update .default)⟩
    let carrier := Marker.payload.bytes.take 31
    let image := carrier ++ (how.metadata Target.usual [1, 2] [1, 2]).withPayload [1, 2]
    let info := Packing.summary Target.usual carrier [1, 2] [1, 2] image
    Executable.detect? carrier ≠ some .elf ∧ how.codec.RoundTrips ∧
      pack how carrier [1, 2] = .ok (image, info) ∧
      Recovers how carrier [1, 2] image info (31 + 32) := by
  intro how carrier image info
  have hkind : Executable.detect? carrier ≠ some .elf := by decide
  have hsize : List.length ([1, 2] : Bytes) ≤ sizeLimit.toNat := by decide
  have hloc : locate carrier = none := by
    change locate (Marker.payload.bytes.take 31) = none
    decide
  have hvalid : (how.metadata Target.usual [1, 2] [1, 2]).validate sizeLimit = .ok () :=
    (Packing.admitted_iff ..).mpr ⟨⟨by decide, hsize⟩, by decide, hsize⟩
  have hpack : pack how carrier [1, 2] = .ok (image, info) := by
    rw [pack_eq_ok]
    exact ⟨Target.usual, [1, 2], ⟨by simp, hsize, hloc, rfl, rfl, hvalid, rfl⟩, rfl⟩
  have h := pack_append_restores how carrier [1, 2] image info hkind Codec.roundTrips_identity hpack
  exact ⟨hkind, Codec.roundTrips_identity, hpack, h.2⟩

end Carrier

end SelfExtract
