/-!
# Steps that may fail

A computation of several steps fails with the first step that does, and gives
its result when all of them do.
-/
namespace SelfExtract

variable {ε ε' α β : Type} {x : Except ε α} {f : α → Except ε β} {g : ε → ε'}

/-- A failure of two steps is one of the first or one of the second. -/
theorem bind_eq_error {e : ε} :
    x >>= f = .error e ↔ x = .error e ∨ ∃ a, x = .ok a ∧ f a = .error e := by
  cases x with
  | error e' => simp [bind, Except.bind]
  | ok a => simp [bind, Except.bind]

theorem bind_eq_ok {b : β} : x >>= f = .ok b ↔ ∃ a, x = .ok a ∧ f a = .ok b := by
  cases x with
  | error e => simp [bind, Except.bind]
  | ok a => simp [bind, Except.bind]

@[simp] theorem mapError_error {e : ε} :
    (Except.error e : Except ε α).mapError g = .error (g e) :=
  rfl

@[simp] theorem mapError_ok {a : α} : (Except.ok a : Except ε α).mapError g = .ok a :=
  rfl

theorem mapError_eq_error {e : ε'} : x.mapError g = .error e ↔ ∃ e', x = .error e' ∧ g e' = e := by
  cases x with
  | error e' => simp
  | ok a => simp

theorem mapError_eq_ok {a : α} : x.mapError g = .ok a ↔ x = .ok a := by
  cases x with
  | error e => simp
  | ok a => simp

end SelfExtract
