import SelfExtract.Bytes

/-!
# The marker in front of an embedded block

A marker is kept in three parts, so that a program that searches for it does
not contain it in one piece. `Bytes.firstIndex?` gives the least position at
which a needle occurs, and never one for an empty needle; bytes are compared
only where their sum is right.
-/
namespace SelfExtract

namespace Bytes

/-- The first occurrence of a needle in the rest of a byte string, counted from `index`, by
comparing at every position. -/
def findFrom (needle : Bytes) : Nat → Bytes → Option Nat
  | _, [] => none
  | index, b :: r =>
    if needle.isPrefixOf (b :: r) then some index else findFrom needle (index + 1) r

def weight (b : Bytes) : Nat :=
  b.foldl (fun n x => n + x.toNat) 0

/-- `findFrom` with a window that slides along: only where the window weighs as much as the needle
are the bytes compared. `ahead` is what lies behind the window. -/
def slide (needle : Bytes) (goal : Nat) : Nat → Nat → Bytes → Bytes → Option Nat
  | index, w, b :: r, a :: s =>
    if w = goal && needle.isPrefixOf (b :: r) then some index
    else slide needle goal (index + 1) (w - b.toNat + a.toNat) r s
  | index, _, rest, _ => if needle.isPrefixOf rest then some index else none

/-- The least position at which a non-empty needle occurs. -/
def firstIndex? (b needle : Bytes) : Option Nat :=
  if needle.isEmpty then none
  else slide needle needle.weight 0 (weight (b.take needle.length)) b (b.drop needle.length)

theorem foldl_weight (b : Bytes) (n : Nat) :
    b.foldl (fun n x => n + x.toNat) n = n + weight b := by
  induction b generalizing n with
  | nil => simp [weight]
  | cons x r ih => simp only [weight, List.foldl_cons, ih (n + _), ih (0 + _)]; omega

theorem weight_cons (x : UInt8) (b : Bytes) : weight (x :: b) = x.toNat + weight b := by
  rw [weight, List.foldl_cons, foldl_weight]; omega

theorem weight_append (a b : Bytes) : weight (a ++ b) = weight a + weight b := by
  rw [weight, List.foldl_append, foldl_weight, foldl_weight]; omega

theorem findFrom_eq_none (needle b : Bytes) (index : Nat) (h : b.length < needle.length) :
    findFrom needle index b = none := by
  induction b generalizing index with
  | nil => rfl
  | cons x r ih =>
    have hp : ¬ needle <+: x :: r := fun hp => by have := hp.length_le; simp at h this; omega
    simp only [List.length_cons] at h
    rw [findFrom, if_neg (by simpa using hp), ih _ (by omega)]

theorem slide_eq_findFrom (needle : Bytes) (h : needle ≠ []) (index : Nat) (b : Bytes) :
    slide needle needle.weight index (weight (b.take needle.length)) b (b.drop needle.length) =
      findFrom needle index b := by
  obtain ⟨m, hm⟩ : ∃ m, needle.length = m + 1 :=
    Nat.exists_eq_succ_of_ne_zero (by simpa using h)
  induction b generalizing index with
  | nil => cases needle <;> simp_all [slide, findFrom]
  | cons x r ih =>
    rw [hm, List.take_succ_cons, List.drop_succ_cons]
    match hs : r.drop m with
    | [] =>
      have hr : r.length ≤ m := by simpa using hs
      rw [slide, findFrom, findFrom_eq_none needle r (index + 1) (by omega)]
      · simp
    | a :: s =>
      have ha : r.take (m + 1) = r.take m ++ [a] := by
        rw [List.take_add_one, ← List.head?_drop, hs]; rfl
      have hd : r.drop (m + 1) = s := by rw [← List.drop_drop, hs]; rfl
      have hw : weight (x :: r.take m) - x.toNat + a.toNat = weight (r.take needle.length) := by
        rw [hm, ha, weight_append, weight_cons, weight_cons]
        show x.toNat + weight (r.take m) - x.toNat + a.toNat = _ + (a.toNat + 0)
        omega
      have hg : (weight (x :: r.take m) = needle.weight && needle.isPrefixOf (x :: r)) =
          needle.isPrefixOf (x :: r) := by
        rw [Bool.and_eq_right_iff_imp]
        intro hp
        rw [List.isPrefixOf_iff_prefix, List.prefix_iff_eq_take, hm, List.take_succ_cons] at hp
        rw [decide_eq_true_eq, ← hp]
      rw [slide, hg, hw, findFrom, ← ih (index + 1), hm, hd]

/-- The search finds what comparing at every position finds. -/
theorem firstIndex?_eq (b needle : Bytes) :
    firstIndex? b needle = if needle.isEmpty then none else findFrom needle 0 b := by
  rw [firstIndex?]
  split
  · rfl
  · rw [slide_eq_findFrom needle (by simp_all)]

end Bytes

/-- A marker in three parts. -/
structure Marker where
  first : Bytes
  second : Bytes
  third : Bytes
  deriving DecidableEq, Repr

namespace Marker

def bytes (m : Marker) : Bytes :=
  m.first ++ m.second ++ m.third

def size (m : Marker) : Nat :=
  m.first.length + m.second.length + m.third.length

@[simp] theorem length_bytes (m : Marker) : m.bytes.length = m.size := by
  simp [bytes, size]; omega

/-- A part without the NUL byte that ends it. -/
def part? (b : Bytes) : Option Bytes :=
  if b.getLast? = some 0 then some b.dropLast else none

/-- A marker from parts that each end in a NUL byte, which is not part of the marker. -/
def ofTerminated? (a b c : Bytes) : Option Marker := do
  return ⟨← part? a, ← part? b, ← part? c⟩

/-- `__SMOL`, `_PRESSED_DATA` and `_MAGIC_MARKER`. -/
def payload : Marker where
  first := [0x5F, 0x5F, 0x53, 0x4D, 0x4F, 0x4C]
  second := [0x5F, 0x50, 0x52, 0x45, 0x53, 0x53, 0x45, 0x44, 0x5F, 0x44, 0x41, 0x54, 0x41]
  third := [0x5F, 0x4D, 0x41, 0x47, 0x49, 0x43, 0x5F, 0x4D, 0x41, 0x52, 0x4B, 0x45, 0x52]

/-- Which offset a successful search reports. -/
inductive Position where
  /-- The first byte of the marker. -/
  | start
  /-- The first byte behind the marker. -/
  | after
  deriving DecidableEq, Repr

/-- The reported offset of a needle of the given length found at `offset`. -/
def Position.apply (p : Position) (offset length : Nat) : Nat :=
  match p with
  | .start => offset
  | .after => offset + length

end Marker

end SelfExtract
