import Mathlib.Data.List.Lex
import SelfExtract.Update.Version

/-!
# The order of versions

Versions are compared as lists of numbers, and so versions that compare equal
stand in one place of a linear order.
-/
namespace SelfExtract.Version

/-- Lists of numbers are compared lexicographically. -/
theorem compareNumbers_eq (a b : List Nat) :
    compareNumbers a b = List.compareLex Ord.compare a b := by
  induction a generalizing b with
  | nil => cases b <;> rfl
  | cons x a ih =>
    cases b with
    | nil => rfl
    | cons y b =>
      rw [compareNumbers, List.compareLex_cons_cons, Nat.compare_eq_ite_lt, ih]
      by_cases hlt : x < y
      · simp [hlt]
      · by_cases hgt : y < x
        · simp [hlt, hgt]
        · simp [hlt, hgt]

theorem compareNumbers_eq_lt_iff (a b : List Nat) : compareNumbers a b = .lt ↔ a < b := by
  induction a generalizing b with
  | nil => cases b <;> simp [compareNumbers]
  | cons x a ih =>
    cases b with
    | nil => simp [compareNumbers]
    | cons y b =>
      rw [compareNumbers, List.cons_lt_cons_iff, ← ih b]
      by_cases hlt : x < y
      · simp [hlt]
      · by_cases hgt : y < x
        · simp [hlt, hgt, Nat.ne_of_gt hgt]
        · obtain rfl : x = y := by omega
          simp

theorem compare_eq_lt_iff (v w : String) : compare v w = .lt ↔ parts v < parts w :=
  compareNumbers_eq_lt_iff _ _

/-- A version is not older than another one. -/
theorem compare_ne_lt_iff (v w : String) : compare v w ≠ .lt ↔ parts w ≤ parts v := by
  rw [Ne, compare_eq_lt_iff, not_lt]

theorem compare_self_ne_lt (v : String) : compare v v ≠ .lt :=
  (compare_ne_lt_iff v v).mpr le_rfl

theorem compare_ne_lt_trans {u v w : String} (h : compare v u ≠ .lt) (h' : compare w v ≠ .lt) :
    compare w u ≠ .lt :=
  (compare_ne_lt_iff w u).mpr (((compare_ne_lt_iff v u).mp h).trans ((compare_ne_lt_iff w v).mp h'))

end SelfExtract.Version
