import SelfExtract.Metadata
import SelfExtract.Proofs.Utf8

/-!
# Keys of payloads

The key of any payload is sixteen hexadecimal digits, so packing never fails
for the sake of the key.
-/
namespace SelfExtract

namespace Hex

/-- A digit is one byte, and that byte counts as a digit. -/
theorem encodeChar_digit : ∀ n < 16, (Utf8.encodeChar (digit n)).length = 1 ∧
    (Utf8.encodeChar (digit n)).all isDigitByte = true := by
  decide

theorem encode_text (b : Bytes) : Utf8.encode (encode b) = b.flatMap fun x =>
    Utf8.encodeChar (digit (x.toNat / 16)) ++ Utf8.encodeChar (digit (x.toNat % 16)) := by
  rw [Utf8.encode, encode, String.toList_ofList, List.flatMap_assoc]
  simp

theorem length_encode (b : Bytes) : (Utf8.encode (encode b)).length = 2 * b.length := by
  rw [encode_text]
  induction b with
  | nil => rfl
  | cons x r ih =>
    have hx := x.toNat_lt
    rw [List.flatMap_cons, List.length_append, ih, List.length_append,
      (encodeChar_digit _ (by omega)).1, (encodeChar_digit _ (by omega)).1, List.length_cons]
    omega

theorem all_isDigitByte_encode (b : Bytes) : (Utf8.encode (encode b)).all isDigitByte = true := by
  rw [encode_text, List.all_flatMap, List.all_eq_true]
  intro x _
  have hx := x.toNat_lt
  rw [List.all_append, (encodeChar_digit _ (by omega)).2, (encodeChar_digit _ (by omega)).2]
  rfl

end Hex

theorem Sha512.length_digest (message : Bytes) : (digest message).length = 64 := by
  simp only [digest, State.words, List.flatMap_cons, List.flatMap_nil, List.length_append,
    Bytes.ofNatBE, List.length_reverse, Bytes.length_ofNatLE, List.length_nil]

theorem length_cacheKey (data : Bytes) : (Utf8.encode (cacheKey data)).length = keyLength := by
  rw [cacheKey, Hex.length_encode, List.length_take, Sha512.length_digest]
  rfl

/-- Keys that are admitted are texts. -/
theorem Utf8.encode_decode?_of_ascii {b : Bytes} (h : ∀ x ∈ b, x.toNat < 0x80) :
    encode ((decode? b).getD "") = b := by
  have hb : encode (String.ofList (b.map fun x => Char.ofNat x.toNat)) = b := by
    rw [encode, String.toList_ofList, List.flatMap_map]
    induction b with
    | nil => rfl
    | cons x r ih =>
      rw [List.flatMap_cons, encodeChar_ofNat (h x List.mem_cons_self), UInt8.ofNat_toNat,
        ih fun y hy => h y (List.mem_cons_of_mem _ hy)]
      rfl
  rw [← hb, decode?_encode]
  rfl

/-- The key of a payload is admitted. -/
theorem isCacheKey_cacheKey (data : Bytes) : isCacheKey (Utf8.encode (cacheKey data)) = true := by
  rw [isCacheKey, length_cacheKey, cacheKey, Hex.all_isDigitByte_encode]
  rfl

end SelfExtract
