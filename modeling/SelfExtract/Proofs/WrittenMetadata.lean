import SelfExtract.Proofs.CanonicalSettings

/-!
# Written metadata at any place in a file

What is written for a payload is read at the end of any front and before any
rest, and the payload is what the rest begins with. A file that ends inside the
written metadata is not read: what is missing is reported.
-/
namespace SelfExtract.Metadata

open Bytes

/-- A part of a block is read when there are bytes enough for it. -/
theorem block_eq (data : Bytes) (start count : Nat) (b : Block) :
    block data start count b =
      if count ≤ data.length - start then .ok ((data.drop start).take count)
      else .error (.truncated b count) := by
  have hlen : ((data.drop start).take count).length = min count (data.length - start) := by
    rw [List.length_take, List.length_drop]
  rw [block, window?]
  by_cases h : count ≤ data.length - start
  · rw [if_pos h, if_pos (hlen.trans (Nat.min_eq_left h))]
  · rw [if_neg h, if_neg (by omega)]

section Written

variable (m : Metadata) (kind : Settings.Kind) (front : Bytes)

/-- The payload is what stands behind the metadata, if that is long enough. -/
theorem readPayload_asRead (rest : Bytes) (hfit : m.compressedSize.toNat < addressSpace) :
    (m.asRead front.length).readPayload (front ++ m.encode ++ rest) =
      if m.compressedSize.toNat ≤ rest.length then .ok (rest.take m.compressedSize.toNat)
      else .error (.truncated .payload m.compressedSize.toNat) := by
  have hlen : (front ++ m.encode).length = front.length + m.encode.length := List.length_append
  rw [readPayload, asRead_compressedSize, if_neg (Nat.not_le_of_lt hfit), block_eq,
    asRead_dataOffset, ← hlen, List.drop_left, List.length_append, Nat.add_sub_cancel_left]

variable (hkey : m.key.length = keyLength)
  (hkind : ∀ s, m.settings = some s → kind = s.kind)
include hkey hkind

theorem length_encode :
    m.encode.length = 36 + if m.settings.isSome then kind.recordSize else 0 := by
  rw [encode_eq, List.length_append, length_fixedBytes m hkey, fixedSize, recordBytes]
  cases hs : m.settings with
  | none => rfl
  | some s =>
    rw [hkind s hs, ← Settings.Kind.size_layout, ← s.length_encode]
    rfl

/-- Metadata that are cut off lack a part that is reported. -/
theorem read_cut (hflag : m.hasSettings = m.settings.isSome) {n : Nat}
    (hn : n < m.encode.length) :
    read (front ++ m.encode.take n) front.length kind =
      .error (if n < 36 then .truncated .metadata 36 else .truncated .record kind.recordSize) := by
  have hcut : (front ++ m.encode.take n).length = front.length + n := by
    rw [List.length_append, List.length_take_of_le (Nat.le_of_lt hn)]
  have hlen := length_encode m kind hkey hkind
  by_cases hshort : n < 36
  · rw [if_pos hshort, read, fixedSize, block_eq, if_neg (by omega)]
    rfl
  · -- the fixed bytes are there, so that the cut falls into a record
    have hfixed := length_fixedBytes m hkey
    rw [fixedSize] at hfixed
    have hocc : OccursAt (front ++ m.encode.take n) m.fixedBytes front.length := by
      rw [encode_eq, List.take_append, List.take_of_length_le (by omega), ← List.append_assoc]
      exact occursAt_self front m.fixedBytes _
    cases hsome : m.settings.isSome with
    | false =>
      rw [hsome, if_neg Bool.false_ne_true] at hlen
      omega
    | true =>
      rw [hsome, if_pos rfl] at hlen
      rw [if_neg hshort, read_of_fixed m _ _ kind hkey hflag hocc, hflag, hsome, if_pos rfl,
        Settings.Kind.size_layout, fixedSize, block_eq, if_neg (by omega)]
      rfl

end Written

/-- A key of sixteen bytes is all that is asked of metadata that are made. -/
theorem make_of_key {key : String} (hkey : (Utf8.encode key).length = 16)
    (compressedSize uncompressedSize : UInt64) (target : Target) (settings : Option Settings) :
    make compressedSize uncompressedSize key target settings =
      .ok ⟨compressedSize, uncompressedSize, Utf8.encode key, target.code, settings.isSome, settings,
        0⟩ :=
  if_pos hkey

/-- Metadata made for a payload are read wherever they stand, with the settings as their record is
read. The payload that is read then is what the rest of the file begins with, if it is that long.
Nothing is read from metadata that are cut off. -/
theorem made_metadata_read (compressedSize uncompressedSize : UInt64) (key : String)
    (target : Target) (settings : Option Settings) (kind : Settings.Kind) (front rest : Bytes)
    (hkey : (Utf8.encode key).length = 16) (hkind : ∀ s, settings = some s → kind = s.kind) :
    ∃ m md, make compressedSize uncompressedSize key target settings = .ok m ∧
      read (front ++ m.encode ++ rest) front.length kind = .ok md ∧
      md = {
        compressedSize
        uncompressedSize
        key := Utf8.encode key
        target := target.code
        hasSettings := settings.isSome
        settings := settings.bind fun s => Settings.decode? kind s.encode
        dataOffset := front.length + (36 + if settings.isSome then kind.recordSize else 0) } ∧
      (compressedSize.toNat < addressSpace →
        md.readPayload (front ++ m.encode ++ rest) =
          if compressedSize.toNat ≤ rest.length then .ok (rest.take compressedSize.toNat)
          else .error (.truncated .payload compressedSize.toNat)) ∧
      ∀ n < m.encode.length,
        read (front ++ m.encode.take n) front.length kind =
          .error (if n < 36 then .truncated .metadata 36
            else .truncated .record kind.recordSize) := by
  let m : Metadata :=
    ⟨compressedSize, uncompressedSize, Utf8.encode key, target.code, settings.isSome, settings, 0⟩
  have hread := read_of_occursAt m (front ++ m.encode ++ rest) front.length kind hkey rfl hkind
    (occursAt_self front m.encode rest)
  refine ⟨m, _, make_of_key hkey .., hread, ?_, readPayload_asRead m front rest, fun n hn =>
    read_cut m kind front hkey hkind rfl hn⟩
  have hsettings : (m.asRead front.length).settings =
      settings.bind fun s => Settings.decode? kind s.encode := by
    cases settings with
    | none => rfl
    | some s => rw [hkind s rfl]; rfl
  rw [← hsettings, ← length_encode m kind hkey hkind]
  rfl

/-- Behind three bytes stands a block with a record for a file system; of its payload of two bytes
the second is missing. -/
theorem made_metadata_read_short_payload :
    (Utf8.encode "0123456789abcdef").length = 16 ∧
    (∀ s, some (Settings.vfs .default) = some s → .vfs = s.kind) ∧
    ∃ m md,
      make 2 9 "0123456789abcdef" (.make .linux .x64 .glibc) (some (.vfs .default)) = .ok m ∧
      read ([1, 2, 3] ++ m.encode ++ [7]) 3 .vfs = .ok md ∧
      md.hasSettings = true ∧ md.settings = some (.vfs .default) ∧ md.dataOffset = 405 ∧
      md.readPayload ([1, 2, 3] ++ m.encode ++ [7]) = .error (.truncated .payload 2) ∧
      read ([1, 2, 3] ++ m.encode.take 100) 3 .vfs = .error (.truncated .record 366) := by
  have hkey : (Utf8.encode "0123456789abcdef").length = 16 := by decide
  have hkind : ∀ s, some (Settings.vfs .default) = some s → .vfs = s.kind := by
    rintro s ⟨rfl⟩
    rfl
  have hkept : Settings.decode? .vfs (Settings.vfs .default).encode = some (.vfs .default) :=
    (Settings.decode?_encode (.vfs .default)).trans (by decide)
  obtain ⟨m, md, hmake, hread, hmd, hpayload, hcut⟩ :=
    made_metadata_read 2 9 "0123456789abcdef" (.make .linux .x64 .glibc) (some (.vfs .default)) .vfs
      [1, 2, 3] [7] hkey hkind
  have hlen : m.encode.length = 402 := by
    cases hmake.symm.trans (make_of_key hkey ..)
    exact length_encode _ .vfs hkey hkind
  have hsettings : md.settings = some (.vfs .default) := by
    rw [hmd]
    simp only [Option.bind_some, hkept]
  exact ⟨hkey, hkind, m, md, hmake, hread, by rw [hmd]; rfl, hsettings, by rw [hmd]; rfl,
    hpayload (by decide), hcut 100 (by omega)⟩

end SelfExtract.Metadata
