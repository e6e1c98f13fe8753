/-!
# Values under names

A list of pairs gives each name the value of its first pair. Pairs of other
names make no difference, and where names are distinct their order makes none.
-/
namespace SelfExtract

variable {α β : Type} [BEq α] [LawfulBEq α] {l : List (α × β)} {a n : α} {b : β}

theorem lookup_cons_if [DecidableEq α] :
    List.lookup n ((a, b) :: l) = if n = a then some b else List.lookup n l := by
  by_cases h : n = a
  · simp [h]
  · simp [List.lookup_cons, beq_false_of_ne h, h]

theorem lookup_eq_none (h : ∀ p ∈ l, p.1 ≠ n) : List.lookup n l = none := by
  induction l with
  | nil => rfl
  | cons p l ih =>
    rw [List.lookup_cons, beq_false_of_ne (h p List.mem_cons_self).symm]
    exact ih fun q hq => h q (List.mem_cons_of_mem p hq)

theorem lookup_filter_ne [DecidableEq α] :
    List.lookup n (l.filter (·.1 != a)) = if n = a then none else List.lookup n l := by
  induction l with
  | nil => simp
  | cons p l ih =>
    obtain ⟨k, b⟩ := p
    rw [List.filter_cons]
    by_cases hk : k = a
    · rw [if_neg (by simp [hk]), ih, lookup_cons_if, hk]
      by_cases hn : n = a
      · rw [if_pos hn, if_pos hn]
      · rw [if_neg hn, if_neg hn, if_neg hn]
    · rw [if_pos (by simp [hk]), lookup_cons_if, lookup_cons_if, ih]
      by_cases hn : n = k
      · rw [if_pos hn, if_pos hn, if_neg (hn ▸ hk)]
      · rw [if_neg hn, if_neg hn]

theorem lookup_eq_some_of_nodup [DecidableEq α] (h : (l.map Prod.fst).Nodup) :
    List.lookup n l = some b ↔ (n, b) ∈ l := by
  induction l with
  | nil => simp
  | cons p l ih =>
    rw [List.map_cons, List.nodup_cons] at h
    rw [lookup_cons_if, List.mem_cons, Prod.ext_iff]
    by_cases hp : n = p.1
    · have hnot : (n, b) ∉ l := fun hmem => h.1 (hp ▸ List.mem_map_of_mem hmem)
      simp [hp, eq_comm, hp ▸ hnot]
    · simp [hp, ih h.2]

theorem lookup_perm [DecidableEq α] {m : List (α × β)} (h : (l.map Prod.fst).Nodup)
    (hperm : l.Perm m) (n : α) : List.lookup n l = List.lookup n m := by
  ext b
  have hm : (m.map Prod.fst).Nodup := (hperm.map Prod.fst).nodup_iff.1 h
  rw [lookup_eq_some_of_nodup h, lookup_eq_some_of_nodup hm, hperm.mem_iff]

end SelfExtract
