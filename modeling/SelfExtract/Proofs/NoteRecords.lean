import SelfExtract.Proofs.Notes

/-!
# Segments that are cut or filled with anything

A segment may hold any bytes, and the sizes in it may lead anywhere. The notes
are taken from it by slices that all lie inside, and each note takes at least
twelve bytes. What stands behind the last note and is too short for another one
does not matter, and a segment that is cut shows the first notes of the whole
one.
-/
namespace SelfExtract

namespace Bytes

/-- A slice that ends inside is there. -/
theorem slice?_of_le {b : Bytes} {start : Nat} (len : Nat) (h : start + len ≤ b.length) :
    b.slice? start (start + len) = some ((b.drop start).take len) := by
  rw [slice?, if_pos ⟨Nat.le_add_right start len, h⟩, Nat.add_sub_cancel_left]

/-- A window at the front is there when the byte string is long enough. -/
theorem window?_front {b : Bytes} {len : Nat} (h : len ≤ b.length) :
    b.window? 0 len = some (b.take len) := by
  rw [window?, List.drop_zero, if_pos (by rw [List.length_take]; omega)]

theorem window?_front_eq_none {b : Bytes} {len : Nat} (h : b.length < len) :
    b.window? 0 len = none := by
  rw [window?, List.drop_zero, if_neg (by rw [List.length_take]; omega)]

end Bytes

namespace Elf.Note

open Bytes

variable {order : ByteOrder} {b : Bytes} {n : Note}

/-- A record is read from its own bytes. -/
theorem ofRecord_take (order : ByteOrder) (b : Bytes) {ownerSize size len : Nat}
    (h : sizeOf ownerSize size ≤ len) :
    ofRecord order (b.take len) ownerSize size = ofRecord order b ownerSize size := by
  have howner := alignFour_bounds ownerSize
  have hsize := alignFour_bounds size
  rw [sizeOf] at h
  rw [ofRecord, ofRecord, take_drop_take b (by omega), take_drop_take b (by omega),
    take_drop_take b (by omega)]

def ownerSizeIn (order : ByteOrder) (b : Bytes) : Nat :=
  order.nat (b.take 4)

def sizeIn (order : ByteOrder) (b : Bytes) : Nat :=
  order.nat ((b.drop 4).take 4)

def recordSize (order : ByteOrder) (b : Bytes) : Nat :=
  sizeOf (ownerSizeIn order b) (sizeIn order b)

theorem ownerSizeIn_take (order : ByteOrder) (b : Bytes) {len : Nat} (h : 8 ≤ len) :
    ownerSizeIn order (b.take len) = ownerSizeIn order b := by
  rw [ownerSizeIn, ownerSizeIn, List.take_take, Nat.min_eq_left (by omega)]

theorem sizeIn_take (order : ByteOrder) (b : Bytes) {len : Nat} (h : 8 ≤ len) :
    sizeIn order (b.take len) = sizeIn order b := by
  rw [sizeIn, sizeIn, take_drop_take b h]

theorem recordSize_take (order : ByteOrder) (b : Bytes) {len : Nat} (h : 8 ≤ len) :
    recordSize order (b.take len) = recordSize order b := by
  rw [recordSize, recordSize, ownerSizeIn_take order b h, sizeIn_take order b h]

theorem le_recordSize (order : ByteOrder) (b : Bytes) : 12 ≤ recordSize order b := by
  rw [recordSize, sizeOf]
  omega

/-- The head of a record and what it announces. -/
theorem first?_of_head (order : ByteOrder) {b : Bytes} (h : 12 ≤ b.length) :
    first? order b = match b.window? 0 (recordSize order b) with
      | none => none
      | some record => some (ofRecord order record (ownerSizeIn order b) (sizeIn order b),
          b.drop (recordSize order b)) := by
  have howner : order.nat ((b.take 12).take 4) = ownerSizeIn order b :=
    ownerSizeIn_take order b (by omega)
  have hsize : order.nat (((b.take 12).drop 4).take 4) = sizeIn order b :=
    sizeIn_take order b (by omega)
  simp only [first?, window?_front h, howner, hsize]
  rfl

/-- A record that is there is the first. -/
theorem first?_of_record {order : ByteOrder} {b : Bytes} (h : recordSize order b ≤ b.length) :
    first? order b = some (ofRecord order b (ownerSizeIn order b) (sizeIn order b),
      b.drop (recordSize order b)) := by
  have hhead := le_recordSize order b
  rw [first?_of_head order (by omega), window?_front h]
  simp only [ofRecord_take order b (Nat.le_refl (recordSize order b))]

/-- Where the bytes end before the record does there is none. -/
theorem first?_eq_none {order : ByteOrder} {b : Bytes} (h : b.length < recordSize order b) :
    first? order b = none := by
  by_cases hhead : 12 ≤ b.length
  · rw [first?_of_head order hhead, window?_front_eq_none h]
  · simp only [first?, window?_front_eq_none (Nat.lt_of_not_le hhead)]

/-- In less than twelve bytes there is no note. -/
theorem parse_of_short (order : ByteOrder) {b : Bytes} (h : b.length < 12) : parse order b = [] :=
  parse_none (first?_eq_none (Nat.lt_of_lt_of_le h (le_recordSize order b)))

/-- Every note takes twelve bytes at least. -/
theorem length_parse_le (order : ByteOrder) (b : Bytes) :
    12 * (parse order b).length ≤ b.length := by
  induction hlen : b.length using Nat.strongRecOn generalizing b with
  | ind size ih =>
    have hhead := le_recordSize order b
    by_cases hrecord : recordSize order b ≤ b.length
    · have hrest := ih (b.drop (recordSize order b)).length (by rw [List.length_drop]; omega) _ rfl
      rw [parse_cons (first?_of_record hrecord), List.length_cons]
      rw [List.length_drop] at hrest
      omega
    · rw [parse_none (first?_eq_none (Nat.lt_of_not_le hrecord))]
      exact Nat.zero_le _

/-- A segment that is cut shows the notes whose records end before the cut. -/
theorem parse_take_isPrefix (order : ByteOrder) (b : Bytes) (n : Nat) :
    parse order (b.take n) <+: parse order b := by
  induction hlen : b.length using Nat.strongRecOn generalizing b n with
  | ind size ih =>
    have hhead := le_recordSize order b
    have hcut := le_recordSize order (b.take n)
    by_cases hrecord : recordSize order (b.take n) ≤ (b.take n).length
    · -- the record at the front ends before the cut, so that both segments begin with its note
      have hlt := List.length_take_le n b
      have hle := List.length_take_le' n b
      have hsame : recordSize order (b.take n) = recordSize order b :=
        recordSize_take order b (by omega)
      rw [hsame] at hrecord
      have hnote : ofRecord order (b.take n) (ownerSizeIn order b) (sizeIn order b) =
          ofRecord order b (ownerSizeIn order b) (sizeIn order b) :=
        ofRecord_take order b (by rw [← recordSize]; omega)
      rw [parse_cons (first?_of_record (by rw [hsame]; exact hrecord)),
        parse_cons (first?_of_record (b := b) (by omega)), hsame,
        ownerSizeIn_take order b (by omega), sizeIn_take order b (by omega), hnote, List.drop_take]
      exact List.prefix_cons_inj _ |>.mpr
        (ih _ (by rw [List.length_drop]; omega) (b.drop (recordSize order b)) _ rfl)
    · rw [parse_none (first?_eq_none (Nat.lt_of_not_le hrecord))]
      exact List.nil_prefix

/-! ### The notes of a segment in slices -/

/-- The notes from a position on, each part of them a slice of the segment; `none` as soon as one of
the slices is not inside. -/
def sliced? (order : ByteOrder) (segment : Bytes) (start : Nat) : Option (List Note) :=
  if _h : start + 12 ≤ segment.length then do
    let ownerSize := order.nat (← segment.slice? start (start + 4))
    let size := order.nat (← segment.slice? (start + 4) (start + 8))
    let type := order.nat (← segment.slice? (start + 8) (start + 12))
    let description := start + 12 + alignFour ownerSize
    let next := description + alignFour size
    if segment.length < next || segment.length < description + size then return []
    else
      let owner ← segment.slice? (start + 12) (start + 12 + ownerSize)
      let content ← segment.slice? description (description + size)
      let rest ← sliced? order segment next
      return ⟨Utf8.decodeLossy (owner.takeWhile (· != 0)), UInt32.ofNat type, content⟩ :: rest
  else return []
termination_by segment.length - start

/-- One turn: the slices of a record that ends inside the segment are inside. -/
theorem sliced?_of_head {start : Nat} (h : start + 12 ≤ b.length) :
    sliced? order b start =
      if recordSize order (b.drop start) ≤ (b.drop start).length then
        (sliced? order b (start + recordSize order (b.drop start))).map
          (ofRecord order (b.drop start) (ownerSizeIn order (b.drop start))
            (sizeIn order (b.drop start)) :: ·)
      else some [] := by
  have hfirst : b.slice? start (start + 4) = some ((b.drop start).take 4) :=
    slice?_of_le 4 (by omega)
  have hsecond : b.slice? (start + 4) (start + 8) = some (((b.drop start).drop 4).take 4) := by
    rw [List.drop_drop]
    exact slice?_of_le 4 (by omega)
  have hthird : b.slice? (start + 8) (start + 12) = some (((b.drop start).drop 8).take 4) := by
    rw [List.drop_drop]
    exact slice?_of_le 4 (by omega)
  have hownerSize : order.nat ((b.drop start).take 4) = ownerSizeIn order (b.drop start) := rfl
  have hsize : order.nat (((b.drop start).drop 4).take 4) = sizeIn order (b.drop start) := rfl
  rw [sliced?, dif_pos h, hfirst, hsecond, hthird]
  simp only [Option.bind_eq_bind, Option.bind_some, hownerSize, hsize, recordSize, sizeOf,
    List.length_drop]
  -- what is filled up is no shorter, so that both tests of the turn are one for the whole record
  have howner := alignFour_bounds (ownerSizeIn order (b.drop start))
  have hcontent := alignFour_bounds (sizeIn order (b.drop start))
  split
  · next hout =>
    rw [Bool.or_eq_true, decide_eq_true_eq, decide_eq_true_eq] at hout
    rw [if_neg (by omega)]
    rfl
  · next hin =>
    rw [Bool.or_eq_true, decide_eq_true_eq, decide_eq_true_eq] at hin
    rw [if_pos (by omega), slice?_of_le _ (by omega), slice?_of_le _ (by omega), ofRecord]
    simp only [List.drop_drop, Option.bind_some, Option.map_eq_bind, ← Nat.add_assoc]
    rfl

/-- No slice leaves the segment, and together they give its notes. -/
theorem sliced?_eq (order : ByteOrder) (b : Bytes) (start : Nat) :
    sliced? order b start = some (parse order (b.drop start)) := by
  induction hleft : b.length - start using Nat.strongRecOn generalizing start with
  | ind left ih =>
    have hlen : (b.drop start).length = b.length - start := List.length_drop
    have hsize := le_recordSize order (b.drop start)
    by_cases hhead : start + 12 ≤ b.length
    · rw [sliced?_of_head hhead]
      split
      · next hrecord =>
        rw [ih _ (by omega) _ rfl, parse_cons (first?_of_record hrecord), List.drop_drop]
        rfl
      · next hrecord => rw [parse_none (first?_eq_none (Nat.lt_of_not_le hrecord))]
    · rw [sliced?, dif_neg hhead, parse_of_short order (by omega)]
      rfl

/-- What was written is read back, whatever too short bytes stand behind it. Of any bytes the notes
are read in slices that lie inside, in at most one turn for twelve bytes, and a segment that is cut
shows the first of them. -/
theorem parse_written_or_cut :
    (∀ (notes : List Note) (tail : Bytes), (∀ n ∈ notes, n.Fits) → tail.length < 12 →
      parse .little (notes.flatMap encode ++ tail) = notes) ∧
    ∀ (order : ByteOrder) (b : Bytes), sliced? order b 0 = some (parse order b) ∧
      12 * (parse order b).length ≤ b.length ∧ ∀ n, parse order (b.take n) <+: parse order b := by
  refine ⟨fun notes tail hfits htail => ?_, fun order b => ⟨?_, ?_, ?_⟩⟩
  · rw [parse_flatMap_encode_append notes hfits, parse_of_short .little htail, List.append_nil]
  · rw [sliced?_eq, List.drop_zero]
  · exact length_parse_le order b
  · exact parse_take_isPrefix order b

/-- Two notes, the first with an owner beyond ASCII and a description that is filled up. -/
def twoOwners : List Note :=
  [⟨"ŋu", 3, [1, 2, 3, 4, 5]⟩, ⟨"", 0xFFFFFFFF, []⟩]

/-- Behind them stands the head of another one but for its last byte. -/
theorem parse_written_or_cut_twoOwners :
    (∀ n ∈ twoOwners, n.Fits) ∧
      parse .little (twoOwners.flatMap encode ++ [1, 0, 0, 0, 0, 0, 0, 0, 9, 9, 9]) =
        twoOwners := by
  have hfits : ∀ n ∈ twoOwners, n.Fits := by
    intro n hn
    rcases List.mem_cons.mp hn with rfl | hn
    · exact ⟨by decide, by decide, by decide⟩
    · obtain rfl := List.mem_singleton.mp hn
      exact ⟨by decide, by decide, by decide⟩
  exact ⟨hfits, parse_written_or_cut.1 twoOwners _ hfits (by decide)⟩

end Elf.Note

end SelfExtract
