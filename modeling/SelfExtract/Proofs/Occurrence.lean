import SelfExtract.Marker

/-!
# Occurrences of one byte string in another

`Bytes.firstIndex?` gives the least position of an occurrence. What a byte
string shows of a needle depends on its bytes alone, so occurrences can be
followed through parts and sums of byte strings. A needle none of whose
beginnings is also one of its ends cannot overlap a second copy of itself.
-/
namespace SelfExtract.Bytes

/-- The needle stands in `b` from position `i` on. -/
def OccursAt (b needle : Bytes) (i : Nat) : Prop :=
  ∀ (k : Nat) (h : k < needle.length), b[i + k]? = some needle[k]

theorem occursAt_iff_begins (b needle : Bytes) (i : Nat) :
    OccursAt b needle i ↔ needle <+: b.drop i := by
  simp only [OccursAt, List.prefix_iff_getElem?, List.getElem?_drop]

/-- An occurrence ends inside the byte string. -/
theorem OccursAt.le_length {b needle : Bytes} {i : Nat} (h : OccursAt b needle i)
    (hn : needle ≠ []) : i + needle.length ≤ b.length := by
  have hlast : needle.length - 1 < needle.length := by
    have := List.length_pos_iff.mpr hn
    omega
  have hb := (List.getElem?_eq_some_iff.mp (h _ hlast)).1
  omega

/-- Whether a needle occurs depends only on the bytes that it would cover. -/
theorem occursAt_congr {b d needle : Bytes} {i j : Nat}
    (h : ∀ k < needle.length, b[i + k]? = d[j + k]?) :
    OccursAt b needle i ↔ OccursAt d needle j :=
  ⟨fun hb k hk => by rw [← h k hk]; exact hb k hk, fun hd k hk => by rw [h k hk]; exact hd k hk⟩

theorem occursAt_drop (b needle : Bytes) (n i : Nat) :
    OccursAt (b.drop n) needle i ↔ OccursAt b needle (n + i) :=
  occursAt_congr fun k _ => by rw [List.getElem?_drop, Nat.add_assoc]

theorem occursAt_take (b needle : Bytes) (n i : Nat) (h : i + needle.length ≤ n) :
    OccursAt (b.take n) needle i ↔ OccursAt b needle i :=
  occursAt_congr fun k hk => by rw [List.getElem?_take_of_lt (by omega)]

theorem occursAt_append_left (a b needle : Bytes) (i : Nat) (h : i + needle.length ≤ a.length) :
    OccursAt (a ++ b) needle i ↔ OccursAt a needle i :=
  occursAt_congr fun k hk => by rw [List.getElem?_append_left (by omega)]

/-- A sum occurs where its first part does and its second part follows. -/
theorem occursAt_append (b x y : Bytes) (i : Nat) :
    OccursAt b (x ++ y) i ↔ OccursAt b x i ∧ OccursAt b y (i + x.length) := by
  constructor
  · intro h
    refine ⟨fun k hk => ?_, fun k hk => ?_⟩
    · have hxy := h k (by rw [List.length_append]; omega)
      rwa [List.getElem_append_left hk] at hxy
    · have hxy := h (x.length + k) (by rw [List.length_append]; omega)
      rw [List.getElem_append_right (by omega)] at hxy
      simpa only [Nat.add_assoc, Nat.add_sub_cancel_left] using hxy
  · rintro ⟨hx, hy⟩ k hk
    rw [List.length_append] at hk
    by_cases hlt : k < x.length
    · rw [List.getElem_append_left hlt]
      exact hx k hlt
    · have hyk := hy (k - x.length) (by omega)
      rw [List.getElem_append_right (by omega), ← hyk]
      congr 1
      omega

theorem occursAt_self (a b c : Bytes) : OccursAt (a ++ b ++ c) b a.length := by
  rw [occursAt_iff_begins, List.append_assoc, List.drop_left]
  exact List.prefix_append b c

/-- A window is what occurs at its start with its length. -/
theorem window?_eq_some_iff {b w : Bytes} {start len : Nat} :
    b.window? start len = some w ↔ w.length = len ∧ OccursAt b w start := by
  rw [occursAt_iff_begins, List.prefix_iff_eq_take, window?]
  constructor
  · intro h
    split at h
    · next hl =>
      obtain rfl := Option.some.inj h
      rw [hl]
      exact ⟨rfl, rfl⟩
    · cases h
  · rintro ⟨rfl, hw⟩
    rw [← hw]
    exact if_pos rfl

theorem eq_of_window? {b w : Bytes} {start len : Nat} (h : b.window? start len = some w) :
    w = (b.drop start).take len := by
  obtain ⟨hlen, hocc⟩ := window?_eq_some_iff.mp h
  rw [occursAt_iff_begins, List.prefix_iff_eq_take, hlen] at hocc
  exact hocc

/-- The least position at which a needle occurs. -/
structure IsFirst (b needle : Bytes) (i : Nat) : Prop where
  occurs : OccursAt b needle i
  least : ∀ j < i, ¬ OccursAt b needle j

/-- Comparing at every position gives the least one, counted from the start of the search. -/
theorem findFrom_spec (needle b : Bytes) (index : Nat) (hn : needle ≠ []) :
    match findFrom needle index b with
    | some i => ∃ k, i = index + k ∧ IsFirst b needle k
    | none => ∀ k, ¬ OccursAt b needle k := by
  induction b generalizing index with
  | nil =>
    intro k h
    have := h.le_length hn
    have := List.length_pos_iff.mpr hn
    simp only [List.length_nil] at *
    omega
  | cons x r ih =>
    have hshift : ∀ k, OccursAt (x :: r) needle (k + 1) ↔ OccursAt r needle k := fun k =>
      occursAt_congr fun m _ => by rw [Nat.add_right_comm, List.getElem?_cons_succ]
    rw [findFrom]
    by_cases hx : needle.isPrefixOf (x :: r) = true
    · rw [if_pos hx]
      refine ⟨0, by simp, ?_, by simp⟩
      rw [occursAt_iff_begins]
      simpa using hx
    · rw [if_neg hx]
      have h0 : ¬ OccursAt (x :: r) needle 0 := by
        rw [occursAt_iff_begins]
        simpa using hx
      have hr := ih (index + 1)
      cases hf : findFrom needle (index + 1) r with
      | none =>
        rw [hf] at hr
        intro k
        cases k with
        | zero => exact h0
        | succ k => rw [hshift]; exact hr k
      | some i =>
        rw [hf] at hr
        obtain ⟨k, hi, hk⟩ := hr
        refine ⟨k + 1, by omega, (hshift k).mpr hk.occurs, ?_⟩
        intro j hj
        cases j with
        | zero => exact h0
        | succ j => rw [hshift]; exact hk.least j (by omega)

theorem firstIndex?_eq_some_iff {b needle : Bytes} {i : Nat} (hn : needle ≠ []) :
    firstIndex? b needle = some i ↔ IsFirst b needle i := by
  have hs := findFrom_spec needle b 0 hn
  rw [firstIndex?_eq, if_neg (by simpa using hn)]
  cases hf : findFrom needle 0 b with
  | none =>
    rw [hf] at hs
    constructor
    · intro h; cases h
    · intro h; exact absurd h.occurs (hs i)
  | some j =>
    rw [hf] at hs
    obtain ⟨k, hj, hk⟩ := hs
    rw [Nat.zero_add] at hj
    subst hj
    constructor
    · intro h
      exact Option.some.inj h ▸ hk
    · intro h
      have h₁ := Nat.le_of_not_lt fun hlt => hk.least i hlt h.occurs
      have h₂ := Nat.le_of_not_lt fun hlt => h.least j hlt hk.occurs
      rw [Nat.le_antisymm h₁ h₂]

theorem firstIndex?_eq_none_iff {b needle : Bytes} (hn : needle ≠ []) :
    firstIndex? b needle = none ↔ ∀ i, ¬ OccursAt b needle i := by
  have hs := findFrom_spec needle b 0 hn
  rw [firstIndex?_eq, if_neg (by simpa using hn)]
  cases hf : findFrom needle 0 b with
  | none => rw [hf] at hs; exact ⟨fun _ => hs, fun _ => rfl⟩
  | some j =>
    rw [hf] at hs
    obtain ⟨k, -, hk⟩ := hs
    constructor
    · intro h; cases h
    · intro h; exact absurd hk.occurs (h k)

/-- What lies before the first possible occurrence can be left out of a search. -/
theorem firstIndex?_drop (b needle : Bytes) (n : Nat) (h : ∀ j < n, ¬ OccursAt b needle j) :
    firstIndex? b needle = (firstIndex? (b.drop n) needle).map (n + ·) := by
  by_cases hn : needle = []
  · subst hn
    simp [firstIndex?]
  · cases hd : firstIndex? (b.drop n) needle with
    | none =>
      rw [firstIndex?_eq_none_iff hn] at hd
      rw [Option.map_none, firstIndex?_eq_none_iff hn]
      intro i hi
      have hle := Nat.le_of_not_lt fun hlt => h i hlt hi
      apply hd (i - n)
      rw [occursAt_drop, Nat.add_sub_cancel' hle]
      exact hi
    | some i =>
      rw [firstIndex?_eq_some_iff hn] at hd
      rw [Option.map_some, firstIndex?_eq_some_iff hn]
      refine ⟨(occursAt_drop ..).mp hd.occurs, ?_⟩
      intro j hj hocc
      have hle := Nat.le_of_not_lt fun hlt => h j hlt hocc
      apply hd.least (j - n) (by omega)
      rw [occursAt_drop, Nat.add_sub_cancel' hle]
      exact hocc

/-- No beginning of a needle is also one of its ends, but for the needle itself. -/
def Unbordered (needle : Bytes) : Prop :=
  ∀ n < needle.length, 0 < n → needle.take n ≠ needle.drop (needle.length - n)

instance (needle : Bytes) : Decidable (Unbordered needle) :=
  inferInstanceAs (Decidable (∀ n < needle.length, 0 < n → _))

/-- Two copies of an unbordered needle are the same or lie apart. -/
theorem Unbordered.apart {b needle : Bytes} {i j : Nat} (h : Unbordered needle)
    (hi : OccursAt b needle i) (hj : OccursAt b needle j) (hlt : i < j) :
    i + needle.length ≤ j := by
  apply Nat.le_of_not_lt
  intro hover
  refine h (needle.length - (j - i)) (by omega) (by omega) ?_
  apply List.ext_getElem?
  intro k
  rw [List.getElem?_take, List.getElem?_drop]
  by_cases hk : k < needle.length - (j - i)
  · have h₁ := hj k (by omega)
    have h₂ := hi (j - i + k) (by omega)
    have he : i + (j - i + k) = j + k := by omega
    rw [if_pos hk, List.getElem?_eq_getElem (by omega), ← h₁, ← he, h₂,
      List.getElem?_eq_getElem (by omega)]
    congr 2
    omega
  · rw [if_neg hk, List.getElem?_eq_none (by omega)]

/-- In front of an unbordered needle that stands behind `a`, only `a` itself can show a copy. -/
theorem isFirst_append (a c needle : Bytes) (h : Unbordered needle)
    (ha : ∀ i, ¬ OccursAt a needle i) : IsFirst (a ++ needle ++ c) needle a.length := by
  have hhere := occursAt_self a needle c
  refine ⟨hhere, ?_⟩
  intro j hj hocc
  apply ha j
  have hle := h.apart hocc hhere hj
  rw [← occursAt_append_left a (needle ++ c) needle j hle, ← List.append_assoc]
  exact hocc

theorem isFirst_append_iff (a c needle : Bytes) (hn : needle ≠ []) (h : Unbordered needle) :
    IsFirst (a ++ needle ++ c) needle a.length ↔ ∀ i, ¬ OccursAt a needle i := by
  constructor
  · intro hfirst i hi
    have hle := hi.le_length hn
    have hpos := List.length_pos_iff.mpr hn
    apply hfirst.least i (by omega)
    rw [List.append_assoc, occursAt_append_left _ _ _ _ hle]
    exact hi
  · exact isFirst_append a c needle h

end SelfExtract.Bytes
