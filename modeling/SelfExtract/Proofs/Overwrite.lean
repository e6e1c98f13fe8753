import SelfExtract.Marker.NoteScan
import SelfExtract.Proofs.Occurrence

/-!
# Overwriting a run of bytes

`Bytes.patch` changes the bytes of its window and no others. A number that is
read from a file depends on the bytes of its own field alone.
-/
namespace SelfExtract

namespace Bytes

variable {b p : Bytes} {start : Nat}

theorem length_patch (h : start + p.length ≤ b.length) : (b.patch start p).length = b.length := by
  simp only [patch, List.length_append, List.length_take, List.length_drop]
  omega

/-- Inside the window stands the patch. -/
theorem getElem?_patch_inside (h : start + p.length ≤ b.length) {i : Nat} (hi : i < p.length) :
    (b.patch start p)[start + i]? = p[i]? := by
  rw [patch, List.take_of_length_le (l := p) (by omega), List.append_assoc,
    List.getElem?_append_right (by rw [List.length_take]; omega),
    List.getElem?_append_left (by rw [List.length_take]; omega)]
  congr 1
  rw [List.length_take]
  omega

/-- Outside of the window nothing changes. -/
theorem getElem?_patch_outside (h : start + p.length ≤ b.length) {i : Nat}
    (hi : i < start ∨ start + p.length ≤ i) : (b.patch start p)[i]? = b[i]? := by
  rw [patch, List.take_of_length_le (l := p) (by omega), List.append_assoc]
  have hlen : (b.take start).length = start := by rw [List.length_take]; omega
  rcases hi with hlt | hge
  · rw [List.getElem?_append_left (by omega), List.getElem?_take_of_lt hlt]
  · rw [List.getElem?_append_right (by omega), List.getElem?_append_right (by omega),
      List.getElem?_drop]
    congr 1
    omega

/-- The patch occurs at its place. -/
theorem occursAt_patch (h : start + p.length ≤ b.length) : OccursAt (b.patch start p) p start := by
  intro k hk
  rw [getElem?_patch_inside h hk, List.getElem?_eq_getElem hk]

/-- Byte strings that agree on a run of bytes have the same run there. -/
theorem take_drop_congr {b d : Bytes} {i j len : Nat} (h : ∀ k < len, b[i + k]? = d[j + k]?) :
    (b.drop i).take len = (d.drop j).take len := by
  apply List.ext_getElem?
  intro k
  rw [List.getElem?_take, List.getElem?_take, List.getElem?_drop, List.getElem?_drop]
  split
  · next hk => exact h k hk
  · rfl

/-- A run of bytes that ends before the cut is the same. -/
theorem take_drop_take (b : Bytes) {start len n : Nat} (h : start + len ≤ n) :
    ((b.take n).drop start).take len = (b.drop start).take len :=
  take_drop_congr fun k hk => List.getElem?_take_of_lt (by omega)

theorem window?_congr {b d : Bytes} {i j len : Nat} (h : ∀ k < len, b[i + k]? = d[j + k]?) :
    b.window? i len = d.window? j len := by
  rw [window?, window?, take_drop_congr h]

/-- A window is there when it ends inside. -/
theorem window?_eq_some_iff_inside {w : Bytes} {len : Nat} (h : start ≤ b.length ∨ 0 < len) :
    b.window? start len = some w ↔ start + len ≤ b.length ∧ w = (b.drop start).take len := by
  have hlen : ((b.drop start).take len).length = len ↔ start + len ≤ b.length := by
    rw [List.length_take, List.length_drop]
    omega
  rw [window?]
  split
  · next hin => simp [hlen.mp hin, eq_comm]
  · next hout => simp [mt hlen.mpr hout]

theorem natLE_ofNatLE_of_lt {width n : Nat} (h : n < 256 ^ width) :
    natLE (ofNatLE width n) = n := by
  rw [natLE_ofNatLE, Nat.mod_eq_of_lt h]

end Bytes

namespace Marker

open Bytes

theorem field_congr {b d : Bytes} {i j width : Nat} (h : ∀ k < width, b[i + k]? = d[j + k]?) :
    field b i width = field d j width := by
  rw [field, field, take_drop_congr h]

theorem field_le (b : Bytes) (start width : Nat) : field b start width ≤ 256 ^ width - 1 := by
  have hlt := natLE_lt ((b.drop start).take width)
  have hpow : 256 ^ ((b.drop start).take width).length ≤ 256 ^ width :=
    Nat.pow_le_pow_right (by decide) (List.length_take_le _ _)
  rw [field]
  omega

theorem field_take (b : Bytes) {n start width : Nat} (h : start + width ≤ n) :
    field (b.take n) start width = field b start width := by
  rw [field, field, take_drop_take b h]

/-- The number whose bytes stand at a place is read there. -/
theorem field_of_occursAt {b : Bytes} {start width n : Nat} (h : OccursAt b (ofNatLE width n) start)
    (hn : n < 256 ^ width) : field b start width = n := by
  have hw : ((b.drop start).take width) = ofNatLE width n := by
    rw [occursAt_iff_begins, List.prefix_iff_eq_take, length_ofNatLE] at h
    exact h.symm
  rw [field, hw, natLE_ofNatLE_of_lt hn]

end Marker

end SelfExtract
