import Mathlib.Data.List.Forall2
import SelfExtract.Update.Pattern

/-!
# What a pattern stands for

A pattern stands for the texts that can be cut into pieces, one for each of its
characters. Matching finds out whether there is such a cut, though it tries no
star again but the one that was met last: between two stars a pattern takes as
many characters as it has, so a later place for the earlier star leaves no more
to the later one than it can take itself.
-/
namespace SelfExtract.Pattern

/-- `*` stands for any run of characters, `?` for any one, and a character for itself. -/
inductive StandsFor : Char → List Char → Prop
  | run (piece : List Char) : StandsFor '*' piece
  | one (c : Char) : StandsFor '?' [c]
  | itself (c : Char) : StandsFor c [c]

/-- A text is made of pieces that the characters of a pattern stand for, in order. -/
def Matches (pattern text : List Char) : Prop :=
  ∃ pieces, List.Forall₂ StandsFor pattern pieces ∧ pieces.flatten = text

theorem standsFor_iff {p : Char} (hp : p ≠ '*') {piece : List Char} :
    StandsFor p piece ↔ ∃ c, piece = [c] ∧ (p = '?' ∨ p = c) := by
  constructor
  · intro h
    cases h with
    | run => exact absurd rfl hp
    | one c => exact ⟨c, rfl, .inl rfl⟩
    | itself => exact ⟨p, rfl, .inr rfl⟩
  · rintro ⟨c, rfl, rfl | rfl⟩
    · exact .one c
    · exact .itself p

section Matches

variable {p q t : List Char}

theorem matches_nil_iff : Matches [] t ↔ t = [] := by
  constructor
  · rintro ⟨_, ⟨⟩, rfl⟩
    rfl
  · rintro rfl
    exact ⟨[], .nil, rfl⟩

theorem matches_cons_iff {c : Char} :
    Matches (c :: q) t ↔ ∃ piece rest, t = piece ++ rest ∧ StandsFor c piece ∧ Matches q rest := by
  constructor
  · rintro ⟨_, h, rfl⟩
    obtain ⟨piece, pieces, hpiece, hpieces, rfl⟩ := List.forall₂_cons_left_iff.mp h
    exact ⟨piece, _, List.flatten_cons, hpiece, pieces, hpieces, rfl⟩
  · rintro ⟨piece, _, rfl, hpiece, pieces, hpieces, rfl⟩
    exact ⟨piece :: pieces, .cons hpiece hpieces, List.flatten_cons⟩

/-- A star stands for a beginning of what is left. -/
theorem matches_star_iff {j : Nat} (hj : j ≤ t.length) :
    Matches ('*' :: q) (t.drop j) ↔ ∃ k, j ≤ k ∧ k ≤ t.length ∧ Matches q (t.drop k) := by
  rw [matches_cons_iff]
  constructor
  · rintro ⟨piece, rest, heq, -, hrest⟩
    have hlen := congrArg List.length heq
    rw [List.length_drop, List.length_append] at hlen
    refine ⟨j + piece.length, Nat.le_add_right _ _, by omega, ?_⟩
    rwa [← List.drop_drop, heq, List.drop_left]
  · rintro ⟨k, hk, -, hrest⟩
    refine ⟨(t.drop j).take (k - j), t.drop k, ?_, .run _, hrest⟩
    have hdrop : (t.drop j).drop (k - j) = t.drop k := by
      rw [List.drop_drop, Nat.add_sub_cancel' hk]
    rw [← hdrop, List.take_append_drop]

/-- Any other character stands for one of the text. -/
theorem matches_one_iff {c : Char} (hc : c ≠ '*') :
    Matches (c :: q) t ↔ ∃ d rest, t = d :: rest ∧ (c = '?' ∨ c = d) ∧ Matches q rest := by
  rw [matches_cons_iff]
  constructor
  · rintro ⟨piece, rest, rfl, hpiece, hrest⟩
    obtain ⟨d, rfl, hd⟩ := (standsFor_iff hc).mp hpiece
    exact ⟨d, rest, rfl, hd, hrest⟩
  · rintro ⟨d, rest, rfl, hd, hrest⟩
    exact ⟨[d], rest, rfl, (standsFor_iff hc).mpr ⟨d, rfl, hd⟩, hrest⟩

theorem matches_append_iff :
    Matches (p ++ q) t ↔ ∃ a b, t = a ++ b ∧ Matches p a ∧ Matches q b := by
  induction p generalizing t with
  | nil => simp [matches_nil_iff]
  | cons c p ih =>
    simp only [List.cons_append, matches_cons_iff, ih]
    constructor
    · rintro ⟨piece, _, rfl, hpiece, a, b, rfl, ha, hb⟩
      exact ⟨piece ++ a, b, (List.append_assoc ..).symm, ⟨piece, a, rfl, hpiece, ha⟩, hb⟩
    · rintro ⟨_, b, rfl, ⟨piece, a, rfl, hpiece, ha⟩, hb⟩
      exact ⟨piece, a ++ b, List.append_assoc .., hpiece, a, b, rfl, ha, hb⟩

/-- Without stars a pattern takes as many characters as it has. -/
theorem Matches.length_eq (hp : '*' ∉ p) (h : Matches p t) : t.length = p.length := by
  induction p generalizing t with
  | nil => rw [matches_nil_iff.mp h]
  | cons c p ih =>
    rw [List.mem_cons, not_or] at hp
    obtain ⟨d, rest, rfl, -, hrest⟩ := (matches_one_iff (Ne.symm hp.1)).mp h
    rw [List.length_cons, List.length_cons, ih hp.2 hrest]

/-- The empty text is matched just by patterns of stars. -/
theorem matches_empty_iff : Matches p [] ↔ ∀ c ∈ p, c = '*' := by
  induction p with
  | nil => simp [matches_nil_iff]
  | cons c p ih =>
    rw [List.forall_mem_cons]
    by_cases hc : c = '*'
    · have hstar : Matches ('*' :: p) [] ↔ Matches p [] := by
        simpa using matches_star_iff (q := p) (t := []) (j := 0) (Nat.le_refl 0)
      rw [hc, hstar, ih]
      simp
    · simp [matches_one_iff hc, hc]

end Matches

namespace Cursor

variable {pattern text : List Char} {c d : Cursor pattern text}

/-- A match can still be found: what is left of pattern and text is one, or the last star can take
more characters so that the rest is one. -/
def Hopes (c : Cursor pattern text) : Prop :=
  Matches (pattern.drop c.inPattern) (text.drop c.inText) ∨
    ∃ s ∈ c.star, ∃ k, s.reach < k ∧ k ≤ text.length ∧
      Matches (pattern.drop (s.position + 1)) (text.drop k)

/-- Since the last star, pattern and text have been passed in step. -/
def InStep (c : Cursor pattern text) : Prop :=
  ∀ s ∈ c.star, ∃ passed, pattern.drop (s.position + 1) = passed ++ pattern.drop c.inPattern ∧
    '*' ∉ passed ∧ c.inText = s.reach + passed.length

theorem inStep_start : (start pattern text).InStep :=
  nofun

theorem hopes_start : (start pattern text).Hopes ↔ Matches pattern text := by
  simp [Hopes, start]

/-- If more for the last star helps, then so does leaving out as much of the text from here. -/
theorem InStep.skip (hc : c.InStep) {s : Star} (hs : s ∈ c.star) {k : Nat} (hk : s.reach < k)
    (hlen : k ≤ text.length) (h : Matches (pattern.drop (s.position + 1)) (text.drop k)) :
    ∃ j, c.inText < j ∧ j ≤ text.length ∧ Matches (pattern.drop c.inPattern) (text.drop j) := by
  obtain ⟨passed, hdrop, hplain, hin⟩ := hc s hs
  rw [hdrop, matches_append_iff] at h
  obtain ⟨a, b, hab, ha, hb⟩ := h
  have hlength : (text.drop k).length = a.length + b.length := by
    rw [hab, List.length_append]
  have hb' : text.drop (k + passed.length) = b := by
    rw [← List.drop_drop, hab, ← ha.length_eq hplain, List.drop_left]
  rw [List.length_drop, ha.length_eq hplain] at hlength
  exact ⟨k + passed.length, by omega, by omega, hb'.symm ▸ hb⟩

theorem not_matches_of_differs {ht : c.inText < text.length} (h : c.Differs ht) :
    ¬ Matches (pattern.drop c.inPattern) (text.drop c.inText) := by
  rw [List.drop_eq_getElem_cons ht]
  by_cases hp : c.inPattern < pattern.length
  · obtain ⟨hstar, hone, hsame⟩ := h hp
    rw [List.drop_eq_getElem_cons hp, matches_one_iff hstar]
    rintro ⟨_, _, ⟨⟩, hany | hd, -⟩
    · exact hone hany
    · exact hsame hd
  · rw [List.drop_eq_nil_of_le (Nat.le_of_not_lt hp), matches_nil_iff]
    exact List.cons_ne_nil _ _

section BehindStar

variable {n : Nat} (hstar : c.star = some ⟨n, c.inText⟩) (hn : c.inPattern = n + 1)
include hstar hn

/-- Right behind a star nothing has been passed. -/
theorem inStep_behind_star : c.InStep := by
  intro s hs
  obtain rfl := Option.some.inj (hstar.symm.trans hs)
  exact ⟨[], by rw [hn, List.nil_append], List.not_mem_nil, rfl⟩

/-- Right behind a star any place in the text may be the end of what it stands for. -/
theorem hopes_behind_star : c.Hopes ↔ ∃ k, c.inText ≤ k ∧ k ≤ text.length ∧
    Matches (pattern.drop c.inPattern) (text.drop k) := by
  rw [Hopes, hstar, hn]
  constructor
  · rintro (h | ⟨s, hs, k, hk, hlen, h⟩)
    · exact ⟨c.inText, Nat.le_refl _, c.inText_le, h⟩
    · obtain rfl := Option.some.inj hs
      exact ⟨k, Nat.le_of_lt hk, hlen, h⟩
  · rintro ⟨k, hk, hlen, h⟩
    rcases Nat.eq_or_lt_of_le hk with rfl | hk
    · exact .inl h
    · exact .inr ⟨_, rfl, k, hk, hlen, h⟩

end BehindStar

/-- A star that is met takes over what the stars before it could do. -/
theorem InStep.hopes_meet (hc : c.InStep) (hp : c.inPattern < pattern.length)
    (hstar : pattern[c.inPattern] = '*') : (c.meet hp).Hopes ↔ c.Hopes := by
  have hdrop : pattern.drop c.inPattern = '*' :: pattern.drop (c.inPattern + 1) := by
    rw [List.drop_eq_getElem_cons hp, hstar]
  have hfirst : (c.meet hp).Hopes ↔ Matches (pattern.drop c.inPattern) (text.drop c.inText) := by
    rw [hdrop, matches_star_iff c.inText_le]
    exact hopes_behind_star rfl rfl
  rw [hfirst, Hopes, iff_self_or]
  -- what an earlier star could still come to, the one that is met comes to as well
  rintro ⟨s, hs, k, hk, hlen, h⟩
  obtain ⟨j, hj, hlen', h'⟩ := hc.skip hs hk hlen h
  rw [hdrop] at h' ⊢
  obtain ⟨i, hi, hlen'', hrest⟩ := (matches_star_iff hlen').mp h'
  exact (matches_star_iff c.inText_le).mpr ⟨i, Nat.le_trans (Nat.le_of_lt hj) hi, hlen'', hrest⟩

theorem InStep.advance (hc : c.InStep) (hp : c.inPattern < pattern.length)
    (ht : c.inText < text.length) (hstar : pattern[c.inPattern] ≠ '*') :
    (c.advance hp ht).InStep := by
  intro s hs
  obtain ⟨passed, hdrop, hplain, hin⟩ := hc s hs
  refine ⟨passed ++ [pattern[c.inPattern]], ?_, ?_, ?_⟩
  · rw [hdrop, List.drop_eq_getElem_cons hp, List.append_assoc]
    rfl
  · rw [List.mem_append, List.mem_singleton, not_or]
    exact ⟨hplain, Ne.symm hstar⟩
  · rw [List.length_append, ← Nat.add_assoc, ← hin]
    rfl

theorem hopes_advance (hp : c.inPattern < pattern.length) (ht : c.inText < text.length)
    (hstar : pattern[c.inPattern] ≠ '*')
    (hsame : pattern[c.inPattern] = '?' ∨ pattern[c.inPattern] = text[c.inText]) :
    (c.advance hp ht).Hopes ↔ c.Hopes := by
  have hfirst : Matches (pattern.drop c.inPattern) (text.drop c.inText) ↔
      Matches (pattern.drop (c.inPattern + 1)) (text.drop (c.inText + 1)) := by
    rw [List.drop_eq_getElem_cons hp, List.drop_eq_getElem_cons ht, matches_one_iff hstar]
    constructor
    · rintro ⟨_, _, ⟨⟩, -, h⟩
      exact h
    · intro h
      exact ⟨_, _, rfl, hsame, h⟩
  rw [Hopes, Hopes, hfirst]
  rfl

theorem hopes_retry {ht : c.inText < text.length} {s : Star} {hs : s ∈ c.star}
    (h : c.Differs ht) : (c.retry ht s hs).Hopes ↔ c.Hopes := by
  rw [hopes_behind_star (c := c.retry ht s hs) rfl rfl, Hopes,
    or_iff_right (not_matches_of_differs h), Option.mem_def.mp hs]
  constructor
  · rintro ⟨k, hk, hlen, hmore⟩
    exact ⟨s, rfl, k, hk, hlen, hmore⟩
  · rintro ⟨_, ⟨⟩, k, hk, hlen, hmore⟩
    exact ⟨k, hk, hlen, hmore⟩

theorem not_hopes_of_differs {ht : c.inText < text.length} (h : c.Differs ht)
    (hs : c.star = none) : ¬ c.Hopes := by
  rw [Hopes, or_iff_right (not_matches_of_differs h), hs]
  rintro ⟨_, ⟨⟩, _⟩

/-- At the end of the text no star can take more. -/
theorem InStep.hopes_finish (hc : c.InStep) (hend : c.inText = text.length) :
    c.Hopes ↔ ∀ x ∈ pattern.drop c.inPattern, x = '*' := by
  rw [← matches_empty_iff, ← List.drop_length (l := text), ← hend]
  refine or_iff_left ?_
  rintro ⟨s, hs, k, hk, hlen, h⟩
  obtain ⟨j, hj, hlen', -⟩ := hc.skip hs hk hlen h
  omega

/-- A turn keeps step, and a match can be found after it just when one could before. -/
theorem InStep.turn (hc : c.InStep) (h : c.turn = .inl d) : d.InStep ∧ (d.Hopes ↔ c.Hopes) := by
  have hturn := c.turn_spec
  rw [h] at hturn
  cases hturn with
  | meet hp hstar => exact ⟨inStep_behind_star rfl rfl, hc.hopes_meet hp hstar⟩
  | advance hp ht hstar hsame => exact ⟨hc.advance hp ht hstar, hopes_advance hp ht hstar hsame⟩
  | retry ht s hs hdiffers => exact ⟨inStep_behind_star rfl rfl, hopes_retry hdiffers⟩

theorem InStep.turn_answer (hc : c.InStep) {b : Bool} (h : c.turn = .inr b) :
    b = true ↔ c.Hopes := by
  have hturn := c.turn_spec
  rw [h] at hturn
  cases hturn with
  | fail ht hdiffers hs => simp [not_hopes_of_differs hdiffers hs]
  | finish hend => simp [hc.hopes_finish hend]

/-- The answer says whether a match could be found at the start. -/
theorem InStep.answer_iff (hc : c.InStep) : c.answer = true ↔ c.Hopes := by
  fun_induction answer c with
  | case1 c d h ih =>
    obtain ⟨hd, hopes⟩ := hc.turn h
    rw [ih hd, hopes]
  | case2 c b h => exact hc.turn_answer h

/-- The answer comes after a number of turns that lead on. -/
inductive Turns : Nat → Cursor pattern text → Bool → Prop
  | last {c : Cursor pattern text} {b : Bool} : c.turn = .inr b → Turns 0 c b
  | more {n : Nat} {c d : Cursor pattern text} {b : Bool} : c.turn = .inl d → Turns n d b →
      Turns (n + 1) c b

theorem exists_turns (c : Cursor pattern text) : ∃ n ≤ c.weight, Turns n c c.answer := by
  fun_induction answer c with
  | case1 c d h ih =>
    obtain ⟨n, hn, hturns⟩ := ih
    exact ⟨n + 1, Nat.lt_of_le_of_lt hn (weight_turn h), .more h hturns⟩
  | case2 c b h => exact ⟨0, Nat.zero_le _, .last h⟩

end Cursor

/-- Matching tells whether a pattern stands for a text. -/
theorem accepts_iff {pattern text : List Char} :
    accepts pattern text = true ↔ Matches pattern text :=
  Cursor.inStep_start.answer_iff.trans Cursor.hopes_start

/-- Matching comes to an end, after no more turns than the lengths of pattern and text allow, and
accepts just the texts that the pattern stands for. A cursor has no positions outside of the two, so
nothing outside is looked at on the way. -/
theorem accepts_what_matches (pattern text : List Char) :
    (∃ n ≤ (text.length + 2) * (pattern.length + text.length + 1),
      Cursor.Turns n (Cursor.start pattern text) (accepts pattern text)) ∧
    (accepts pattern text = true ↔ Matches pattern text) := by
  refine ⟨?_, accepts_iff⟩
  obtain ⟨n, hn, hturns⟩ := (Cursor.start pattern text).exists_turns
  refine ⟨n, Nat.le_trans hn ?_, hturns⟩
  have hweight : (Cursor.start pattern text).weight =
      (text.length + 1) * (pattern.length + text.length + 1) + (pattern.length + text.length) := rfl
  rw [hweight, show text.length + 2 = text.length + 1 + 1 from rfl, Nat.succ_mul (text.length + 1)]
  omega

end SelfExtract.Pattern
