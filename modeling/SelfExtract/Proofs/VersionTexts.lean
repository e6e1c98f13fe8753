import Mathlib.Data.List.Forall2
import SelfExtract.Proofs.VersionOrder

/-!
# What a version shows

Numbers between dots are read up to the fourth, and a date, whose first dotted
piece is no number as a whole, is read up to its third number. A suffix ends
the last number and is not read, though it may hold more dots and hyphens. So
versions compare as the numbers they show do.
-/
namespace SelfExtract.Version

/-- The numerals of a number below `2 ^ 64`: its decimal digits behind any number of zeros. -/
def IsNumeral (n : Nat) (cs : List Char) : Prop :=
  n < 2 ^ 64 ∧ ∃ zeros, cs = List.replicate zeros '0' ++ (toString n).toList

def Joins (separator : Char) (ns : List Nat) (cs : List Char) : Prop :=
  ∃ numerals, List.Forall₂ IsNumeral ns numerals ∧ cs = [separator].intercalate numerals

/-- Two to four numbers between dots, or three between hyphens. -/
inductive Spells (ns : List Nat) (cs : List Char) : Prop
  | dotted : 2 ≤ ns.length → ns.length ≤ 4 → Joins '.' ns cs → Spells ns cs
  | date : ns.length = 3 → Joins '-' ns cs → Spells ns cs

/-- A version shows numbers, with a mark in front or none, and with a suffix that continues none of
the numbers. -/
structure Shows (version : String) (ns : List Nat) : Prop where
  text : ∃ mark cs suffix, version.toList = mark ++ (cs ++ suffix) ∧
    (mark = [] ∨ mark = ['v'] ∨ mark = ['V']) ∧ Spells ns cs ∧
    ∀ c ∈ suffix.head?, c.isDigit = false ∧ c ≠ '.'

/-! ### Numerals -/

theorem IsNumeral.isDigit {n : Nat} {cs : List Char} (h : IsNumeral n cs) :
    ∀ c ∈ cs, c.isDigit = true := by
  obtain ⟨-, zeros, rfl⟩ := h
  intro c hc
  rw [Nat.toString_eq_repr, Nat.toList_repr, List.mem_append] at hc
  rcases hc with hc | hc
  · rw [List.eq_of_mem_replicate hc]
    rfl
  · exact Nat.isDigit_of_mem_toDigits (by decide) (by decide) hc

theorem IsNumeral.ne_nil {n : Nat} {cs : List Char} (h : IsNumeral n cs) : cs ≠ [] := by
  obtain ⟨-, zeros, rfl⟩ := h
  rw [Nat.toString_eq_repr, Nat.toList_repr]
  exact fun hnil => Nat.toDigits_ne_nil (List.append_eq_nil_iff.mp hnil).2

/-- Zeros in front do not count. -/
theorem IsNumeral.value {n : Nat} {cs : List Char} (h : IsNumeral n cs) :
    cs.foldl (fun n c => n * 10 + (c.toNat - 48)) 0 = n := by
  obtain ⟨-, zeros, rfl⟩ := h
  have hzeros : (List.replicate zeros '0').foldl (fun n c => n * 10 + (c.toNat - 48)) 0 = 0 := by
    induction zeros with
    | zero => rfl
    | succ zeros ih => exact ih
  have hdigits := Nat.ofDigitChars_toDigits (b := 10) (n := n) (by decide) (by decide)
  rw [Nat.ofDigitChars_eq_foldl] at hdigits
  rw [List.foldl_append, hzeros, Nat.toString_eq_repr, Nat.toList_repr]
  simp only [Nat.mul_comm 10] at hdigits
  exact hdigits

/-- A numeral is read up to the first character that is no digit. -/
theorem IsNumeral.number? {n : Nat} {cs rest : List Char} (h : IsNumeral n cs)
    (hrest : ∀ c ∈ rest.head?, c.isDigit = false) :
    number? (cs ++ rest) = some (n, decide (rest = [])) := by
  have hdigits : (cs ++ rest).takeWhile Char.isDigit = cs := by
    rw [List.takeWhile_append_of_pos h.isDigit]
    cases rest with
    | nil => simp
    | cons c rest => simp [hrest c rfl]
  have hwhole : (cs.length = (cs ++ rest).length) ↔ rest = [] := by
    simp
  simp only [Version.number?, hdigits, h.value, hwhole]
  rw [if_neg]
  simpa [h.ne_nil] using h.1

/-! ### Numbers between separators -/

/-- The first piece of a text begins with what stands before the first separator. -/
theorem exists_splitOn_append {separator : Char} {cs : List Char} (h : separator ∉ cs)
    (rest : List Char) :
    ∃ s r, (cs ++ rest).splitOn separator = (cs ++ s) :: r ∧
      (rest = s ∧ r = [] ∨ ∃ u, rest = s ++ separator :: u) := by
  by_cases hrest : separator ∈ rest
  · obtain ⟨s, u, rfl, hs⟩ := List.eq_append_cons_of_mem hrest
    have hnot : separator ∉ cs ++ s := fun hmem => (List.mem_append.mp hmem).elim h hs
    refine ⟨s, u.splitOn separator, ?_, .inr ⟨u, rfl⟩⟩
    rw [← List.append_assoc, List.splitOn_append_cons_self_of_not_mem hnot]
  · have hnot : separator ∉ cs ++ rest := fun hmem => (List.mem_append.mp hmem).elim h hrest
    exact ⟨rest, [], List.splitOn_eq_singleton hnot, .inl ⟨rfl, rfl⟩⟩

variable {separator : Char} (hseparator : separator.isDigit = false)
include hseparator

theorem IsNumeral.separator_not_mem {n : Nat} {cs : List Char} (h : IsNumeral n cs) :
    separator ∉ cs := by
  intro hmem
  rw [h.isDigit separator hmem] at hseparator
  cases hseparator

/-- The last number is read, and more only behind another separator. -/
theorem numbers_last {n : Nat} {cs suffix : List Char} (h : IsNumeral n cs)
    (hsuffix : ∀ c ∈ suffix.head?, c.isDigit = false) (count : Nat) :
    ∃ more, numbers (((cs ++ suffix).splitOn separator).take (count + 1)) = n :: more ∧
      (suffix.head? ≠ some separator → more = []) := by
  obtain ⟨s, r, hsplit, hs⟩ := exists_splitOn_append (h.separator_not_mem hseparator) suffix
  have hhead : ∀ c ∈ s.head?, c.isDigit = false := by
    intro c hc
    obtain ⟨s, rfl⟩ := List.head?_eq_some_iff.mp hc
    rcases hs with ⟨rfl, -⟩ | ⟨u, rfl⟩
    · exact hsuffix c rfl
    · exact hsuffix c rfl
  rw [hsplit, List.take_succ_cons, numbers, h.number? hhead]
  by_cases hnil : s = []
  · subst hnil
    rcases hs with ⟨rfl, rfl⟩ | ⟨u, rfl⟩
    · exact ⟨[], by simp [numbers], fun _ => rfl⟩
    · exact ⟨numbers (r.take count), by simp, fun hne => absurd rfl hne⟩
  · exact ⟨[], by simp [hnil], fun _ => rfl⟩

/-- Joined numbers are read, and more only if a separator follows. -/
theorem numbers_joined {ns : List Nat} {cs suffix : List Char} (hne : ns ≠ [])
    (h : Joins separator ns cs) (hsuffix : ∀ c ∈ suffix.head?, c.isDigit = false) {count : Nat}
    (hcount : ns.length ≤ count) :
    ∃ more, numbers (((cs ++ suffix).splitOn separator).take count) = ns ++ more ∧
      (suffix.head? ≠ some separator → more = []) := by
  obtain ⟨numerals, hnumerals, rfl⟩ := h
  induction hnumerals generalizing count with
  | nil => exact absurd rfl hne
  | @cons n numeral ns numerals hn hns ih =>
    obtain ⟨count, rfl⟩ : ∃ k, count = k + 1 :=
      Nat.exists_eq_succ_of_ne_zero (Nat.ne_of_gt (Nat.lt_of_lt_of_le (Nat.succ_pos _) hcount))
    cases hns with
    | nil =>
      rw [List.intercalate_singleton]
      exact numbers_last hseparator hn hsuffix count
    | @cons m numeral' ns numerals hm hns =>
      obtain ⟨more, hmore, hlast⟩ := ih (List.cons_ne_nil _ _) (Nat.le_of_succ_le_succ hcount)
      refine ⟨more, ?_, hlast⟩
      have hwhole : number? (numeral ++ []) = some (n, true) := hn.number? (by simp)
      rw [List.append_nil] at hwhole
      rw [List.intercalate_cons_cons, List.append_assoc, List.append_assoc,
        List.singleton_append,
        List.splitOn_append_cons_self_of_not_mem (hn.separator_not_mem hseparator),
        List.take_succ_cons, numbers, hwhole]
      simp only [hmore, List.cons_append]

/-- A number is all that is read in front of a character that ends the first piece. -/
theorem length_numbers_of_other {n : Nat} {cs rest : List Char} (h : IsNumeral n cs) {c : Char}
    (hc : c.isDigit = false) (hne : c ≠ separator) (count : Nat) :
    (numbers (((cs ++ c :: rest).splitOn separator).take (count + 1))).length = 1 := by
  have hnot : separator ∉ cs ++ [c] := by
    rw [List.mem_append, List.mem_singleton, not_or]
    exact ⟨h.separator_not_mem hseparator, Ne.symm hne⟩
  obtain ⟨s, r, hsplit, -⟩ := exists_splitOn_append hnot rest
  rw [List.append_assoc, List.singleton_append] at hsplit
  rw [hsplit, List.take_succ_cons, numbers, List.append_assoc, h.number? (by simpa using hc)]
  simp

omit hseparator

/-! ### Parts of a version -/

theorem withoutMark_of_digit {cs : List Char} (h : ∀ c ∈ cs.head?, c.isDigit = true) :
    withoutMark cs = cs := by
  cases cs with
  | nil => rfl
  | cons c cs =>
    rw [withoutMark, if_neg]
    have := h c rfl
    rintro (rfl | rfl) <;> simp at this

/-- Joined numbers begin with the first of them, and with a separator behind it if there are more. -/
theorem Joins.front {n : Nat} {ns : List Nat} {cs : List Char} (h : Joins separator (n :: ns) cs) :
    ∃ numeral r, IsNumeral n numeral ∧ cs = numeral ++ r ∧
      (ns ≠ [] → ∃ r', r = separator :: r') := by
  obtain ⟨_, hnumerals, rfl⟩ := h
  obtain ⟨numeral, numerals, hn, hns, rfl⟩ := List.forall₂_cons_left_iff.mp hnumerals
  cases hns with
  | nil =>
    refine ⟨numeral, [], hn, ?_, fun hne => absurd rfl hne⟩
    rw [List.intercalate_singleton, List.append_nil]
  | @cons _ numeral' _ numerals _ _ =>
    refine ⟨numeral, separator :: [separator].intercalate (numeral' :: numerals), hn, ?_,
      fun _ => ⟨_, rfl⟩⟩
    rw [List.intercalate_cons_cons, List.append_assoc, List.singleton_append]

variable {version : String} {ns : List Nat} {cs suffix : List Char}

theorem Joins.isDigit_head? (hne : ns ≠ []) (h : Joins separator ns cs) :
    ∀ c ∈ (cs ++ suffix).head?, c.isDigit = true := by
  obtain ⟨n, ns, rfl⟩ := List.exists_cons_of_ne_nil hne
  obtain ⟨numeral, r, hn, rfl, -⟩ := h.front
  obtain ⟨d, digits, rfl⟩ := List.exists_cons_of_ne_nil hn.ne_nil
  intro c hc
  obtain rfl : d = c := Option.some.inj hc
  exact hn.isDigit d List.mem_cons_self

theorem Spells.isDigit_head? (h : Spells ns cs) :
    ∀ c ∈ (cs ++ suffix).head?, c.isDigit = true := by
  cases h with
  | dotted hmin _ hjoins => exact hjoins.isDigit_head? (by rintro rfl; cases hmin)
  | date hlen hjoins => exact hjoins.isDigit_head? (by rintro rfl; cases hlen)

theorem padded_eq (ns : List Nat) : padded ns = ns.rightpad 4 0 :=
  rfl

theorem leadingNumbers_dotted (hmin : 2 ≤ ns.length) (hmax : ns.length ≤ 4) (h : Joins '.' ns cs)
    (hsuffix : ∀ c ∈ suffix.head?, c.isDigit = false ∧ c ≠ '.') :
    leadingNumbers '.' (cs ++ suffix) = ns := by
  obtain ⟨more, hmore, hlast⟩ := numbers_joined rfl (by rintro rfl; cases hmin) h
    (fun c hc => (hsuffix c hc).1) hmax
  rw [leadingNumbers, hmore, hlast fun hdot => (hsuffix '.' hdot).2 rfl, List.append_nil]

theorem take_leadingNumbers_date (hlen : ns.length = 3) (h : Joins '-' ns cs)
    (hsuffix : ∀ c ∈ suffix.head?, c.isDigit = false) :
    (leadingNumbers '-' (cs ++ suffix)).take 3 = ns := by
  have hmax : ns.length ≤ 4 := by
    rw [hlen]
    decide
  obtain ⟨more, hmore, -⟩ := numbers_joined rfl (by rintro rfl; cases hlen) h hsuffix hmax
  rw [leadingNumbers, hmore, List.take_left' hlen]

/-- Between dots a date shows one number only. -/
theorem length_leadingNumbers_date (hlen : ns.length = 3) (h : Joins '-' ns cs) :
    (leadingNumbers '.' (cs ++ suffix)).length = 1 := by
  obtain ⟨n, ns, rfl⟩ := List.exists_cons_of_ne_nil (l := ns) (by rintro rfl; cases hlen)
  obtain ⟨numeral, r, hn, rfl, hr⟩ := h.front
  obtain ⟨r, rfl⟩ := hr (by rintro rfl; cases hlen)
  rw [leadingNumbers, List.append_assoc, List.cons_append]
  exact length_numbers_of_other rfl hn rfl (by decide) 3

/-- The parts of a version are the numbers that it shows, and zeros. -/
theorem parts_of_shows (h : Shows version ns) : parts version = ns.rightpad 4 0 := by
  obtain ⟨mark, cs, suffix, htext, hmark, hspells, hsuffix⟩ := h.text
  have hwithout : withoutMark version.toList = cs ++ suffix := by
    rw [htext]
    rcases hmark with rfl | rfl | rfl
    · exact withoutMark_of_digit hspells.isDigit_head?
    · rfl
    · rfl
  rw [parts, hwithout, ← padded_eq]
  cases hspells with
  | dotted hmin hmax hjoins =>
    simp only [leadingNumbers_dotted hmin hmax hjoins hsuffix, if_pos hmin]
  | date hlen hjoins =>
    simp only [length_leadingNumbers_date hlen hjoins,
      take_leadingNumbers_date hlen hjoins fun c hc => (hsuffix c hc).1]
    rfl

/-- Versions compare as the numbers that they show, with zeros for those that are missing; marks,
leading zeros and suffixes do not count. -/
theorem compare_shown {v w : String} {ns ms : List Nat} (hv : Shows v ns) (hw : Shows w ms) :
    compare v w = List.compareLex Ord.compare (ns.rightpad 4 0) (ms.rightpad 4 0) := by
  rw [compare, parts_of_shows hv, parts_of_shows hw, compareNumbers_eq]

/-- A date is compared by its three numbers, also where its suffix goes on with more. -/
theorem compare_shown_date :
    Shows "V007.10-rc.9" [7, 10] ∧ Shows "7-010-1-5.8" [7, 10, 1] ∧
      compare "V007.10-rc.9" "7-010-1-5.8" = .lt := by
  have hhyphen : ∀ r : List Char, ∀ c ∈ ('-' :: r).head?, c.isDigit = false ∧ c ≠ '.' := by
    rintro r c ⟨⟩
    decide
  have hv : Shows "V007.10-rc.9" [7, 10] := by
    refine ⟨['V'], "007.10".toList, '-' :: "rc.9".toList, by decide, .inr (.inr rfl), ?_,
      hhyphen _⟩
    refine .dotted (by decide) (by decide) ⟨["007".toList, "10".toList], ?_, by decide⟩
    exact .cons ⟨by decide, 2, by decide⟩ (.cons ⟨by decide, 0, by decide⟩ .nil)
  have hw : Shows "7-010-1-5.8" [7, 10, 1] := by
    refine ⟨[], "7-010-1".toList, '-' :: "5.8".toList, by decide, .inl rfl, ?_, hhyphen _⟩
    refine .date rfl ⟨["7".toList, "010".toList, "1".toList], ?_, by decide⟩
    exact .cons ⟨by decide, 0, by decide⟩ (.cons ⟨by decide, 1, by decide⟩
      (.cons ⟨by decide, 0, by decide⟩ .nil))
  exact ⟨hv, hw, (compare_shown hv hw).trans (by decide)⟩

end SelfExtract.Version
