import SelfExtract.Proofs.Scan

/-!
# The search of a whole file

Reading in pieces is not seen in the answer. Whatever the lengths of the three
parts are, also where their sum is longer than a piece, the search of a whole
file says what comparing at every offset says: the least offset at which the
marker stands, and nothing just when there is none to find.
-/
namespace SelfExtract.Marker

open Bytes

variable (p : Position) (data : Bytes)

theorem part?_terminated (b : Bytes) : part? (b ++ [0]) = some b := by
  simp [part?]

/-- Parts of any content make a marker; their terminators are not in it. -/
theorem ofTerminated?_terminated (a b c : Bytes) :
    ofTerminated? (a ++ [0]) (b ++ [0]) (c ++ [0]) = some ⟨a, b, c⟩ := by
  simp [ofTerminated?, part?_terminated]

/-- The marker is found where it first stands. -/
theorem findLinear_eq_some_iff (m : Marker) (n : Nat) :
    findLinear m p data = some n ↔
      m.bytes ≠ [] ∧ ∃ i, IsFirst data m.bytes i ∧ n = p.apply i m.bytes.length := by
  rw [findLinear_eq, Option.map_eq_some_iff]
  by_cases hn : m.bytes = []
  · simp [firstIndex?, hn]
  · constructor
    · rintro ⟨i, hi, rfl⟩
      exact ⟨hn, i, (firstIndex?_eq_some_iff hn).mp hi, rfl⟩
    · rintro ⟨-, i, hi, rfl⟩
      exact ⟨i, (firstIndex?_eq_some_iff hn).mpr hi, rfl⟩

theorem findLinear_eq_none_iff (m : Marker) :
    findLinear m p data = none ↔ m.bytes = [] ∨ ∀ i, ¬ OccursAt data m.bytes i := by
  rw [findLinear_eq, Option.map_eq_none_iff]
  by_cases hn : m.bytes = []
  · simp [firstIndex?, hn]
  · rw [firstIndex?_eq_none_iff hn, or_iff_right hn]

/-- The search of a file for a marker of three terminated parts is the search that compares at
every offset. It answers with the first place of the marker, or with the end of that place, and has
no answer exactly for an empty marker and where the marker stands nowhere. -/
theorem findLinear_eq_naive (a b c : Bytes) :
    ∃ m, ofTerminated? (a ++ [0]) (b ++ [0]) (c ++ [0]) = some m ∧ m.bytes = a ++ b ++ c ∧
      findLinear m p data =
        (if m.bytes.isEmpty then none else findFrom m.bytes 0 data).map
          (p.apply · m.bytes.length) ∧
      (∀ n, findLinear m p data = some n ↔
        m.bytes ≠ [] ∧ ∃ i, IsFirst data m.bytes i ∧ n = p.apply i m.bytes.length) ∧
      (findLinear m p data = none ↔ m.bytes = [] ∨ ∀ i, ¬ OccursAt data m.bytes i) := by
  refine ⟨⟨a, b, c⟩, ofTerminated?_terminated a b c, rfl, ?_, ?_, ?_⟩
  · rw [findLinear_eq, firstIndex?_eq]
  · exact findLinear_eq_some_iff p data _
  · exact findLinear_eq_none_iff p data _

end SelfExtract.Marker
