import SelfExtract.Executable.Elf.Note
import SelfExtract.Proofs.Overwrite
import SelfExtract.Proofs.Utf8

/-!
# Notes read back as they were written

Reading takes one record after the other from the front of a segment, and what
writing a note gives is such a record. A note that was read can be written
again: its owner has no NUL byte, since it was cut there, and is at most three
times as long as it was, since U+FFFD stands for at least one byte.
-/
namespace SelfExtract.Elf

open Bytes

theorem alignFour_bounds (n : Nat) : n ≤ alignFour n ∧ alignFour n < n + 4 := by
  rw [alignFour]
  omega

namespace Note

theorem length_padding (n : Nat) : n + (padding n).length = alignFour n := by
  have := alignFour_bounds n
  rw [padding, List.length_replicate]
  omega

/-- The owner with the NUL byte that ends it. -/
def ownerBytes (n : Note) : Bytes :=
  Utf8.encode n.owner ++ [0]

def head (n : Note) : Bytes :=
  ofNatLE 4 n.ownerBytes.length ++ ofNatLE 4 n.description.length ++ ofNatLE 4 n.type.toNat

theorem encode_eq (n : Note) :
    n.encode = n.head ++ (n.ownerBytes ++ (padding n.ownerBytes.length ++
      (n.description ++ padding n.description.length))) := by
  simp only [encode, head, ownerBytes, List.append_assoc]

@[simp] theorem length_head (n : Note) : n.head.length = 12 := by
  simp [head]

theorem length_encode (n : Note) :
    n.encode.length = sizeOf n.ownerBytes.length n.description.length := by
  have ho := length_padding n.ownerBytes.length
  have hd := length_padding n.description.length
  simp only [encode_eq, List.length_append, length_head, sizeOf]
  omega

/-- A note whose sizes can be written and whose owner holds no NUL byte. -/
structure Fits (n : Note) : Prop where
  owner_free : 0 ∉ Utf8.encode n.owner
  owner_lt : n.ownerBytes.length < 2 ^ 32
  description_lt : n.description.length < 2 ^ 32

/-- The owner is cut at the NUL byte that was written behind it. -/
theorem takeWhile_ownerBytes {n : Note} (h : 0 ∉ Utf8.encode n.owner) :
    n.ownerBytes.takeWhile (· != 0) = Utf8.encode n.owner := by
  rw [ownerBytes, List.takeWhile_append_of_pos]
  · simp
  · intro b hb
    rw [bne_iff_ne]
    exact fun h0 => h (h0 ▸ hb)

theorem ofRecord_encode {n : Note} (h : n.Fits) :
    ofRecord .little n.encode n.ownerBytes.length n.description.length = n := by
  have hrest := length_padding n.ownerBytes.length
  have hdrop : n.encode.drop 12 = n.ownerBytes ++ (padding n.ownerBytes.length ++
      (n.description ++ padding n.description.length)) := by
    rw [encode_eq, List.drop_left' (length_head n)]
  have howner : (n.encode.drop 12).take n.ownerBytes.length = n.ownerBytes := by
    rw [hdrop, List.take_left]
  have htype : (n.encode.drop 8).take 4 = ofNatLE 4 n.type.toNat := by
    rw [encode_eq, head, List.append_assoc, List.drop_left' (by simp),
      List.take_left' (by simp)]
  have hdescription : (n.encode.drop (12 + alignFour n.ownerBytes.length)).take
      n.description.length = n.description := by
    rw [← List.drop_drop, hdrop, ← List.append_assoc,
      List.drop_left' (by rw [List.length_append]; omega), List.take_left]
  have ht : natLE (ofNatLE 4 n.type.toNat) = n.type.toNat :=
    natLE_ofNatLE_of_lt n.type.toNat_lt
  rw [ofRecord, howner, takeWhile_ownerBytes h.owner_free, Utf8.decodeLossy_encode, htype,
    hdescription, ByteOrder.nat, ht, UInt32.ofNat_toNat]

/-- Reading takes back the note that was written in front. -/
theorem first?_encode {n : Note} (h : n.Fits) (rest : Bytes) :
    first? .little (n.encode ++ rest) = some (n, rest) := by
  have hhead : (n.encode ++ rest).window? 0 12 = some n.head := by
    rw [window?_eq_some_iff, encode_eq, List.append_assoc]
    exact ⟨length_head n, occursAt_self [] n.head _⟩
  have howner : ByteOrder.little.nat (n.head.take 4) = n.ownerBytes.length := by
    rw [head, List.append_assoc, List.take_left' (by simp)]
    exact natLE_ofNatLE_of_lt h.owner_lt
  have hsize : ByteOrder.little.nat ((n.head.drop 4).take 4) = n.description.length := by
    rw [head, List.append_assoc, List.drop_left' (by simp), List.take_left' (by simp)]
    exact natLE_ofNatLE_of_lt h.description_lt
  have hrecord : (n.encode ++ rest).window? 0
      (sizeOf n.ownerBytes.length n.description.length) = some n.encode := by
    rw [window?_eq_some_iff]
    exact ⟨length_encode n, occursAt_self [] n.encode rest⟩
  simp only [first?, hhead, howner, hsize, hrecord, ofRecord_encode h]
  rw [← length_encode, List.drop_left]

theorem parseAfter_none {order : ByteOrder} {found : List Note} {b : Bytes}
    (h : first? order b = none) : parseAfter order found b = found.reverse := by
  rw [parseAfter]
  split
  · rfl
  · next hsome =>
    rw [h] at hsome
    cases hsome

theorem parseAfter_some {order : ByteOrder} {found : List Note} {b r : Bytes} {n : Note}
    (h : first? order b = some (n, r)) :
    parseAfter order found b = parseAfter order (n :: found) r := by
  rw [parseAfter]
  split
  · next hnone =>
    rw [h] at hnone
    cases hnone
  · next hsome =>
    rw [h] at hsome
    cases hsome
    rfl

/-- What was found before comes first. -/
theorem parseAfter_eq (order : ByteOrder) (found : List Note) (b : Bytes) :
    parseAfter order found b = found.reverse ++ parse order b := by
  induction hlen : b.length using Nat.strongRecOn generalizing b found with
  | ind size ih =>
    cases hfirst : first? order b with
    | none => rw [parse, parseAfter_none hfirst, parseAfter_none hfirst]; simp
    | some p =>
      obtain ⟨n, r⟩ := p
      have hless := hlen ▸ length_lt_of_first? hfirst
      rw [parse, parseAfter_some hfirst, parseAfter_some hfirst, ih r.length hless (n :: found) r rfl,
        ih r.length hless [n] r rfl]
      simp

theorem parse_none {order : ByteOrder} {b : Bytes} (h : first? order b = none) :
    parse order b = [] :=
  parseAfter_none h

theorem parse_cons {order : ByteOrder} {b r : Bytes} {n : Note}
    (h : first? order b = some (n, r)) : parse order b = n :: parse order r := by
  rw [parse, parseAfter_some h, parseAfter_eq]
  rfl

/-- Written notes are read back, and reading goes on behind them. -/
theorem parse_flatMap_encode_append (notes : List Note) (h : ∀ n ∈ notes, n.Fits) (rest : Bytes) :
    parse .little (notes.flatMap encode ++ rest) = notes ++ parse .little rest := by
  induction notes with
  | nil => rfl
  | cons n notes ih =>
    rw [List.flatMap_cons, List.append_assoc,
      parse_cons (first?_encode (h n List.mem_cons_self) _),
      ih fun m hm => h m (List.mem_cons_of_mem n hm), List.cons_append]

/-- Notes are read back in the order in which they were written. -/
theorem parse_flatMap_encode (notes : List Note) (h : ∀ n ∈ notes, n.Fits) :
    parse .little (notes.flatMap encode) = notes := by
  have hnone : parse .little [] = [] := parse_none rfl
  have hall := parse_flatMap_encode_append notes h []
  rwa [hnone, List.append_nil, List.append_nil] at hall

structure Within (size : Nat) (n : Note) : Prop where
  owner_free : 0 ∉ Utf8.encode n.owner
  owner_le : (Utf8.encode n.owner).length ≤ 3 * size
  description_le : n.description.length ≤ size

theorem Within.fits {size : Nat} {n : Note} (h : n.Within size) (hsize : 3 * size + 1 < 2 ^ 32) :
    n.Fits where
  owner_free := h.owner_free
  owner_lt := by
    have := h.owner_le
    rw [ownerBytes, List.length_append, List.length_singleton]
    omega
  description_lt := by
    have := h.description_le
    omega

theorem within_ofRecord (order : ByteOrder) (record : Bytes) (ownerSize size : Nat) :
    (ofRecord order record ownerSize size).Within record.length := by
  have howner := Utf8.length_encode_decodeLossy_le
    (((record.drop 12).take ownerSize).takeWhile (· != 0))
  have hcut := (List.takeWhile_prefix (· != 0) (l := (record.drop 12).take ownerSize)).length_le
  refine ⟨Utf8.zero_not_mem_encode_decodeLossy _ ?_, Nat.le_trans howner ?_, ?_⟩
  · intro h0
    have := List.all_eq_true.mp List.all_takeWhile 0 h0
    simp at this
  · rw [List.length_take, List.length_drop] at hcut
    omega
  · rw [ofRecord, List.length_take, List.length_drop]
    omega

/-- Written again, a record takes at most three times its size. -/
theorem length_encode_ofRecord_le (order : ByteOrder) (record : Bytes) (ownerSize size : Nat) :
    (ofRecord order record ownerSize size).encode.length ≤ 3 * sizeOf ownerSize size := by
  have howner := Utf8.length_encode_decodeLossy_le
    (((record.drop 12).take ownerSize).takeWhile (· != 0))
  have hcut := (List.takeWhile_prefix (· != 0) (l := (record.drop 12).take ownerSize)).length_le
  have htake := List.length_take_le ownerSize (record.drop 12)
  have hdescription := List.length_take_le size (record.drop (12 + alignFour ownerSize))
  have hpad := alignFour_bounds ((ofRecord order record ownerSize size).ownerBytes.length)
  have hfill := alignFour_bounds (ofRecord order record ownerSize size).description.length
  have hwide := alignFour_bounds ownerSize
  have hlong := alignFour_bounds size
  rw [length_encode, sizeOf, sizeOf]
  simp only [ownerBytes, ofRecord, List.length_append, List.length_singleton] at *
  omega

/-- A note comes from a record at the front, and what follows the record is left. -/
theorem first?_eq_some {order : ByteOrder} {b r : Bytes} {n : Note}
    (h : first? order b = some (n, r)) : ∃ ownerSize size record,
      record.length = sizeOf ownerSize size ∧ sizeOf ownerSize size ≤ b.length ∧
        n = ofRecord order record ownerSize size ∧ r = b.drop (sizeOf ownerSize size) := by
  unfold first? at h
  split at h
  · cases h
  · dsimp only at h
    split at h
    · cases h
    · next record hrecord =>
      obtain ⟨rfl, rfl⟩ := Prod.mk.inj (Option.some.inj h)
      exact ⟨_, _, record, length_of_window? hrecord, le_length_of_window? hrecord, rfl, rfl⟩

theorem Within.mono {size larger : Nat} {n : Note} (h : n.Within size) (hle : size ≤ larger) :
    n.Within larger where
  owner_free := h.owner_free
  owner_le := Nat.le_trans h.owner_le (Nat.mul_le_mul_left 3 hle)
  description_le := Nat.le_trans h.description_le hle

theorem first?_spec {order : ByteOrder} {b r : Bytes} {n : Note}
    (h : first? order b = some (n, r)) :
    n.Within b.length ∧ n.encode.length + 3 * r.length ≤ 3 * b.length := by
  obtain ⟨ownerSize, size, record, hlen, hle, rfl, rfl⟩ := first?_eq_some h
  refine ⟨(within_ofRecord order record ownerSize size).mono (by omega), ?_⟩
  have hencode := length_encode_ofRecord_le order record ownerSize size
  rw [List.length_drop]
  omega

/-- Every note comes from within the segment, and all of them, written again, take at most three
times its size. -/
theorem parse_spec (order : ByteOrder) (b : Bytes) :
    (∀ n ∈ parse order b, n.Within b.length) ∧
      ((parse order b).flatMap encode).length ≤ 3 * b.length := by
  induction hlen : b.length using Nat.strongRecOn generalizing b with
  | ind size ih =>
    cases hfirst : first? order b with
    | none =>
      rw [parse_none hfirst]
      exact ⟨fun n hn => absurd hn List.not_mem_nil, Nat.zero_le _⟩
    | some p =>
      obtain ⟨n, r⟩ := p
      have hless := hlen ▸ length_lt_of_first? hfirst
      obtain ⟨hin, hsize⟩ := ih r.length hless r rfl
      obtain ⟨hn, hspace⟩ := first?_spec hfirst
      rw [hlen] at hn hspace
      rw [parse_cons hfirst]
      constructor
      · intro m hm
        rcases List.mem_cons.mp hm with rfl | hm
        · exact hn
        · exact (hin m hm).mono (Nat.le_of_lt hless)
      · rw [List.flatMap_cons, List.length_append]
        omega

end Note

end SelfExtract.Elf
