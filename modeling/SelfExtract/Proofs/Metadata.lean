import SelfExtract.Metadata
import SelfExtract.Proofs.Occurrence
import SelfExtract.Proofs.Record
import SelfExtract.Proofs.Results

/-!
# Metadata are read as they were written

Where the bytes of written metadata stand in a file, reading gives the same
fields back, with the settings as their record decodes, and points behind
them. The compressed payload is then what stands there.
-/
namespace SelfExtract.Metadata

open Bytes

def fixedBytes (m : Metadata) : Bytes :=
  Bytes.ofNatLE 8 m.compressedSize.toNat ++ (Bytes.ofNatLE 8 m.uncompressedSize.toNat ++
    (m.key ++ (m.target.bytes ++ [if m.settings.isSome then 1 else 0])))

def recordBytes (m : Metadata) : Bytes :=
  m.settings.elim [] Settings.encode

theorem encode_eq (m : Metadata) : m.encode = m.fixedBytes ++ m.recordBytes := by
  rw [encode, fixedBytes, recordBytes]
  cases m.settings <;> simp

theorem length_fixedBytes (m : Metadata) (hkey : m.key.length = keyLength) :
    m.fixedBytes.length = fixedSize := by
  simp [fixedBytes, hkey, keyLength, fixedSize, TargetCode.bytes]

/-- What reading makes of written metadata that stand at `start`. -/
def asRead (m : Metadata) (start : Nat) : Metadata :=
  { m with
    settings := m.settings.bind fun s => Settings.decode? s.kind s.encode
    dataOffset := start + m.encode.length }

@[simp] theorem asRead_compressedSize (m : Metadata) (start : Nat) :
    (m.asRead start).compressedSize = m.compressedSize := rfl
@[simp] theorem asRead_uncompressedSize (m : Metadata) (start : Nat) :
    (m.asRead start).uncompressedSize = m.uncompressedSize := rfl
@[simp] theorem asRead_key (m : Metadata) (start : Nat) : (m.asRead start).key = m.key := rfl
@[simp] theorem asRead_target (m : Metadata) (start : Nat) :
    (m.asRead start).target = m.target := rfl
@[simp] theorem asRead_dataOffset (m : Metadata) (start : Nat) :
    (m.asRead start).dataOffset = start + m.encode.length := rfl

/-- A word is read as it was written, with or without more bytes behind it. -/
theorem word_append (x : UInt64) (r : Bytes) :
    UInt64.ofNat (natLE ((ofNatLE 8 x.toNat ++ r).take 8)) = x := by
  have hlt : x.toNat < 256 ^ 8 := x.toNat_lt
  rw [List.take_left' (length_ofNatLE 8 _), natLE_ofNatLE, Nat.mod_eq_of_lt hlt]
  exact UInt64.ofNat_toNat

section Fields

variable (m : Metadata) (hkey : m.key.length = keyLength)

theorem drop_eight_fixedBytes : m.fixedBytes.drop 8 = Bytes.ofNatLE 8 m.uncompressedSize.toNat ++
    (m.key ++ (m.target.bytes ++ [if m.settings.isSome then 1 else 0])) :=
  List.drop_left' (length_ofNatLE 8 _)

theorem drop_sixteen_fixedBytes : m.fixedBytes.drop 16 =
    m.key ++ (m.target.bytes ++ [if m.settings.isSome then 1 else 0]) := by
  rw [show 16 = 8 + 8 from rfl, ← List.drop_drop, drop_eight_fixedBytes]
  exact List.drop_left' (length_ofNatLE 8 _)

include hkey in
theorem getD_fixedBytes (k : Nat) : m.fixedBytes.getD (32 + k) 0 =
    [m.target.os, m.target.arch, m.target.libc, if m.settings.isSome then 1 else 0].getD k 0 := by
  have hd : m.fixedBytes.drop 32 = m.target.bytes ++ [if m.settings.isSome then 1 else 0] := by
    rw [show 32 = 16 + 16 from rfl, ← List.drop_drop, drop_sixteen_fixedBytes]
    exact List.drop_left' hkey
  rw [List.getD_eq_getElem?_getD, ← List.getElem?_drop, hd, List.getD_eq_getElem?_getD]
  rfl

end Fields

theorem block_of_occursAt {data w : Bytes} {start count : Nat} (b : Block) (hw : w.length = count)
    (h : OccursAt data w start) : block data start count b = .ok w := by
  rw [block, window?_eq_some_iff.mpr ⟨hw, h⟩]

/-- The fixed bytes are read wherever they stand, and a record of the expected width is asked for
behind them. -/
theorem read_of_fixed (m : Metadata) (data : Bytes) (start : Nat) (kind : Settings.Kind)
    (hkey : m.key.length = keyLength) (hflag : m.hasSettings = m.settings.isSome)
    (h : OccursAt data m.fixedBytes start) :
    read data start kind =
      if m.hasSettings then do
        let record ← block data (start + fixedSize) kind.layout.size .record
        return { m with
          settings := Settings.decode? kind record
          dataOffset := start + fixedSize + kind.layout.size }
      else return { m with settings := none, dataOffset := start + fixedSize } := by
  have hc : UInt64.ofNat (natLE ((m.fixedBytes.drop 0).take 8)) = m.compressedSize :=
    word_append _ _
  have hu : UInt64.ofNat (natLE ((m.fixedBytes.drop 8).take 8)) = m.uncompressedSize := by
    rw [drop_eight_fixedBytes, word_append]
  have hk : (m.fixedBytes.drop 16).take 16 = m.key := by
    rw [drop_sixteen_fixedBytes]
    exact List.take_left' hkey
  have hcode := getD_fixedBytes m hkey
  have hf : (m.fixedBytes.getD 35 0 != 0) = m.hasSettings := by
    rw [hcode 3, hflag]
    cases m.settings <;> rfl
  rw [read, block_of_occursAt .metadata (length_fixedBytes m hkey) h]
  simp only [bind, Except.bind, pure, Except.pure, hc, hu, hk, hf, hcode 0, hcode 1, hcode 2]
  rfl

/-- What is read agrees with the fixed bytes, whatever kind of settings is expected. -/
theorem fixed_of_read {m md : Metadata} {data : Bytes} {start : Nat} {kind : Settings.Kind}
    (hkey : m.key.length = keyLength) (hflag : m.hasSettings = m.settings.isSome)
    (h : OccursAt data m.fixedBytes start) (hread : read data start kind = .ok md) :
    md.compressedSize = m.compressedSize ∧ md.uncompressedSize = m.uncompressedSize ∧
      md.key = m.key ∧ md.dataOffset = start + fixedSize +
        if m.hasSettings then kind.layout.size else 0 := by
  rw [read_of_fixed m data start kind hkey hflag h] at hread
  cases hs : m.hasSettings with
  | false =>
    rw [hs] at hread
    cases hread
    exact ⟨rfl, rfl, rfl, rfl⟩
  | true =>
    rw [hs] at hread
    cases hblock : block data (start + fixedSize) kind.layout.size .record with
    | error e =>
      rw [hblock] at hread
      cases hread
    | ok record =>
      rw [hblock] at hread
      cases hread
      exact ⟨rfl, rfl, rfl, rfl⟩

/-- Reading undoes writing, wherever the written bytes stand. -/
theorem read_of_occursAt (m : Metadata) (data : Bytes) (start : Nat) (kind : Settings.Kind)
    (hkey : m.key.length = keyLength) (hflag : m.hasSettings = m.settings.isSome)
    (hkind : ∀ s, m.settings = some s → kind = s.kind) (h : OccursAt data m.encode start) :
    read data start kind = .ok (m.asRead start) := by
  rw [encode_eq, occursAt_append, length_fixedBytes m hkey] at h
  have hend : start + m.encode.length = start + fixedSize + m.recordBytes.length := by
    rw [encode_eq, List.length_append, length_fixedBytes m hkey, Nat.add_assoc]
  rw [read_of_fixed m data start kind hkey hflag h.1, asRead, hend]
  cases hs : m.settings with
  | none =>
    have hr : m.recordBytes.length = 0 := by rw [recordBytes, hs]; rfl
    rw [hs] at hflag
    rw [hflag, hr]
    rfl
  | some s =>
    have hr : m.recordBytes = s.encode := by rw [recordBytes, hs]; rfl
    rw [hs] at hflag
    rw [hr] at h
    rw [hkind s hs, block_of_occursAt .record s.length_encode h.2, hflag, hr, s.length_encode]
    rfl

/-- The announced payload is read where it stands. -/
theorem readPayload_of_occursAt (m : Metadata) (data compressed : Bytes)
    (hsize : m.compressedSize.toNat = compressed.length)
    (hfit : m.compressedSize.toNat < addressSpace) (h : OccursAt data compressed m.dataOffset) :
    m.readPayload data = .ok compressed := by
  rw [readPayload, if_neg (Nat.not_le_of_lt hfit)]
  exact block_of_occursAt .payload hsize.symm h

/-- A payload that is read stands where it is announced. -/
theorem window_of_readPayload {m : Metadata} {data compressed : Bytes}
    (h : m.readPayload data = .ok compressed) :
    data.window? m.dataOffset m.compressedSize.toNat = some compressed := by
  rw [readPayload] at h
  split at h
  · cases h
  · rw [block] at h
    split at h
    · cases h
      assumption
    · cases h

theorem checkSize_eq_ok {f : SizeField} {size limit : UInt64} :
    checkSize f size limit = .ok () ↔ 0 < size.toNat ∧ size ≤ limit := by
  rw [checkSize, UInt64.le_iff_toNat_le]
  by_cases h0 : size = 0
  · simp [h0]
  · have hpos : 0 < size.toNat := Nat.pos_of_ne_zero fun h => h0 (UInt64.toNat_inj.mp h)
    by_cases hlt : limit < size
    · rw [if_neg h0, if_pos hlt]
      rw [UInt64.lt_iff_toNat_lt] at hlt
      simp only [reduceCtorEq, false_iff]
      omega
    · rw [if_neg h0, if_neg hlt]
      rw [UInt64.lt_iff_toNat_lt] at hlt
      simp only [true_iff]
      omega

/-- Metadata are admitted when both sizes are in bounds, the key is one and the target is known. -/
theorem validate_eq_ok {m : Metadata} {limit : UInt64} :
    m.validate limit = .ok () ↔
      (0 < m.compressedSize.toNat ∧ m.compressedSize ≤ limit) ∧
      (0 < m.uncompressedSize.toNat ∧ m.uncompressedSize ≤ limit) ∧
      isCacheKey m.key = true ∧ ∃ t, Target.ofCode m.target = .ok t := by
  rw [← checkSize_eq_ok (f := .compressed), ← checkSize_eq_ok (f := .uncompressed), validate,
    target?]
  cases checkSize .compressed m.compressedSize limit with
  | error e => simp [bind, Except.bind]
  | ok u =>
    cases checkSize .uncompressed m.uncompressedSize limit with
    | error e => simp [bind, Except.bind]
    | ok v =>
      cases isCacheKey m.key with
      | false => simp [bind, Except.bind]
      | true =>
        cases Target.ofCode m.target <;>
          simp [bind, Except.bind, discard, Functor.discard, Functor.mapConst, Except.map]

theorem validate_asRead (m : Metadata) (start : Nat) (limit : UInt64) :
    (m.asRead start).validate limit = m.validate limit :=
  rfl

end SelfExtract.Metadata
