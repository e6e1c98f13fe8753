import SelfExtract.Marker.Scan
import SelfExtract.Proofs.Occurrence

/-!
# Searching piece by piece finds the first occurrence

The pieces of a search overlap in one byte less than the needle has. When a
piece shows no needle, none begins before the last bytes that the next piece
reads again, so the search may go on from there.
-/
namespace SelfExtract.Marker

open Bytes

/-- The part of a file that a search from `start` up to `stop` looks at. -/
def region (data : Bytes) (start stop : Nat) : Bytes :=
  (data.drop start).take (stop - start)

theorem pieceAt_eq_take (data needle : Bytes) (start stop : Nat) :
    pieceAt data needle start stop = (region data start stop).take (roomFor needle) := by
  rw [pieceAt, region, List.take_take, Nat.min_comm]

theorem length_region_le (data : Bytes) (start stop : Nat) :
    (region data start stop).length ≤ stop - start := by
  rw [region, List.length_take]
  exact Nat.min_le_left _ _

theorem region_drop (data : Bytes) (start stop n : Nat) :
    (region data start stop).drop n = region data (start + n) stop := by
  rw [region, region, List.drop_take, List.drop_drop, Nat.sub_sub]

/-- A piece shows exactly the occurrences that end inside it. -/
theorem occursAt_pieceAt {data needle : Bytes} {start stop i : Nat}
    (h : i + needle.length ≤ (pieceAt data needle start stop).length) :
    OccursAt (pieceAt data needle start stop) needle i ↔
      OccursAt (region data start stop) needle i := by
  rw [pieceAt_eq_take] at h ⊢
  rw [List.length_take] at h
  exact occursAt_take _ _ _ _ (by omega)

/-- A piece that could not be filled is all that is left. -/
theorem pieceAt_eq_region {data needle : Bytes} {start stop : Nat}
    (h : (pieceAt data needle start stop).length < roomFor needle ∨
      stop ≤ start + (pieceAt data needle start stop).length) :
    pieceAt data needle start stop = region data start stop := by
  rw [pieceAt_eq_take] at h ⊢
  apply List.take_of_length_le
  have hr := length_region_le data start stop
  rw [List.length_take] at h
  omega

/-- The search piece by piece is a search of the whole region. -/
theorem scanFrom_eq (data needle : Bytes) (h : 0 < needle.length) (start stop : Nat) :
    scanFrom data needle h start stop =
      ((region data start stop).firstIndex? needle).map (start + ·) := by
  have hn : needle ≠ [] := List.length_pos_iff.mp h
  have hroom : needle.length ≤ roomFor needle := by rw [roomFor]; omega
  fun_induction scanFrom data needle h start stop with
  | case1 start hlt piece hshort =>
    have hr : piece = region data start stop :=
      pieceAt_eq_region (Or.inl (Nat.lt_of_lt_of_le hshort hroom))
    rw [(firstIndex?_eq_none_iff hn).mpr, Option.map_none]
    intro i hi
    have := hi.le_length hn
    rw [← hr] at this
    omega
  | case2 start hlt piece hlong i hi =>
    rw [firstIndex?_eq_some_iff hn] at hi
    have hend := hi.occurs.le_length hn
    rw [(firstIndex?_eq_some_iff hn).mpr ⟨(occursAt_pieceAt hend).mp hi.occurs, ?_⟩, Option.map_some]
    intro j hj hocc
    exact hi.least j hj ((occursAt_pieceAt (by change _ ≤ piece.length; omega)).mpr hocc)
  | case3 start hlt piece hlong hnone hshort =>
    have hr : piece = region data start stop := by
      apply pieceAt_eq_region
      change piece.length < _ ∨ stop ≤ start + piece.length
      omega
    rw [← hr, hnone, Option.map_none]
  | case4 start hlt piece hlong hnone hfull next hend =>
    have hr : piece = region data start stop := by
      apply pieceAt_eq_region
      change _ ∨ stop ≤ start + piece.length
      omega
    rw [← hr, hnone, Option.map_none]
  | case5 start hlt piece hlong hnone hfull next hend ih =>
    rw [firstIndex?_eq_none_iff hn] at hnone
    rw [ih, firstIndex?_drop (region data start stop) needle (piece.length - (needle.length - 1)),
      region_drop, Option.map_map]
    · congr 1
      funext i
      simp only [Function.comp_apply, next]
      omega
    · intro j hj hocc
      exact hnone j ((occursAt_pieceAt (by change _ ≤ piece.length; omega)).mpr hocc)
  | case6 start hge =>
    have hr : region data start stop = [] := by
      rw [region, Nat.sub_eq_zero_of_le (by omega), List.take_zero]
    rw [hr, (firstIndex?_eq_none_iff hn).mpr, Option.map_none]
    intro i hi
    have := hi.le_length hn
    rw [List.length_nil] at this
    omega

/-- A search of a range finds what comparing at every position of the range finds. -/
theorem scan_eq (data needle : Bytes) (start len : Nat) :
    scan data needle start len =
      (firstIndex? ((data.drop start).take len) needle).map (start + ·) := by
  rw [scan]
  by_cases h : 0 < needle.length
  · have hn : needle ≠ [] := List.length_pos_iff.mp h
    rw [dif_pos h]
    by_cases hlen : len < needle.length
    · rw [if_pos hlen, (firstIndex?_eq_none_iff hn).mpr, Option.map_none]
      intro i hi
      have := hi.le_length hn
      rw [List.length_take] at this
      omega
    · rw [if_neg hlen, scanFrom_eq, region, Nat.add_sub_cancel_left]
  · have hn : needle = [] := by simpa using h
    rw [dif_neg h, hn]
    simp [firstIndex?]

theorem scan_all (data needle : Bytes) :
    scan data needle 0 data.length = data.firstIndex? needle := by
  rw [scan_eq, List.drop_zero, List.take_length]
  simp

theorem findLinear_eq (m : Marker) (p : Position) (data : Bytes) :
    findLinear m p data = (data.firstIndex? m.bytes).map (p.apply · m.bytes.length) := by
  rw [findLinear, scan_all]

end SelfExtract.Marker
