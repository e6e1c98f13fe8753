import Mathlib.Data.List.TakeWhile
import SelfExtract.Proofs.PatternMatching

/-!
# The version in a tag

The version in a tag is to be what the first star of the pattern stands for. It
is cut out without the match: the text before the star is taken off, and the
end is where the literal text behind the star first stands. That is what the
star stands for exactly when the tag begins with the text before the star, and
the rest of the pattern matches behind that first place.
-/
namespace SelfExtract.Pattern

/-- There is a match of the tag in which the star between `front` and `back` stands for `v`. -/
def StarTakes (front back tag v : List Char) : Prop :=
  ∃ a b, tag = a ++ v ++ b ∧ Matches front a ∧ Matches back b

def IsLiteral (p : List Char) : Prop :=
  ∀ c ∈ p, c ≠ '*' ∧ c ≠ '?'

/-- The first place of a text in another one, told by what stands before and behind it. -/
structure FirstPlace (needle text before behind : List Char) : Prop where
  eq : text = before ++ needle ++ behind
  first : ∀ b r, text = b ++ needle ++ r → before.length ≤ b.length

/-- The end of what a star stands for is found by the literal text behind it: there are only stars,
or what follows the first place of that text matches the rest of the pattern. -/
inductive EndsAtFirst (back rest : List Char) : Prop
  | stars : (∀ c ∈ back, c = '*') → EndsAtFirst back rest
  | literal {l others v behind : List Char} : back = l ++ others → l ≠ [] → IsLiteral l →
      (∀ c ∈ others.head?, c = '*' ∨ c = '?') → FirstPlace l rest v behind →
      Matches others behind → EndsAtFirst back rest

section Literals

variable {l p q t : List Char}

theorem matches_self (p : List Char) : Matches p p := by
  induction p with
  | nil => exact matches_nil_iff.mpr rfl
  | cons c p ih => exact matches_cons_iff.mpr ⟨[c], p, rfl, .itself c, ih⟩

/-- Literal text in front of a pattern is taken off. -/
theorem matches_literal_iff (hl : IsLiteral l) :
    Matches (l ++ q) t ↔ ∃ r, t = l ++ r ∧ Matches q r := by
  induction l generalizing t with
  | nil => simp
  | cons c l ih =>
    obtain ⟨⟨hstar, hone⟩, hl⟩ := List.forall_mem_cons.mp hl
    rw [List.cons_append, matches_one_iff hstar]
    constructor
    · rintro ⟨d, _, rfl, hd, h⟩
      obtain rfl := hd.resolve_left hone
      obtain ⟨r, rfl, hr⟩ := (ih hl).mp h
      exact ⟨r, rfl, hr⟩
    · rintro ⟨r, rfl, hr⟩
      exact ⟨c, l ++ r, rfl, .inr rfl, (ih hl).mpr ⟨r, rfl, hr⟩⟩

theorem FirstPlace.unique {v v' r r' : List Char} (h : FirstPlace l t v r)
    (h' : FirstPlace l t v' r') : v = v' ∧ r = r' := by
  have hlen : v.length = v'.length :=
    Nat.le_antisymm (h.first _ _ h'.eq) (h'.first _ _ h.eq)
  have heq := h.eq.symm.trans h'.eq
  rw [List.append_assoc, List.append_assoc] at heq
  obtain ⟨hv, hrest⟩ := List.append_inj heq hlen
  exact ⟨hv, List.append_cancel_left hrest⟩

theorem dropBeginning?_eq_some_iff : dropBeginning? p t = some q ↔ t = p ++ q := by
  fun_induction dropBeginning? p t with
  | case1 t => simp [eq_comm]
  | case2 => simp
  | case3 c p t ih => simp [ih]
  | case4 p b c r hne => simp [Ne.symm hne]

theorem before?_of_prefix (h : l <+: t) : before? l t = some [] := by
  cases t <;> rw [before?, if_pos (List.isPrefixOf_iff_prefix.mpr h)]

theorem before?_cons {c : Char} (h : ¬ l <+: c :: t) :
    before? l (c :: t) = (before? l t).map (c :: ·) := by
  rw [before?, if_neg (mt List.isPrefixOf_iff_prefix.mp h)]

/-- A place behind the front of a text is one in the rest of it. -/
theorem exists_cons_of_place {c : Char} {b r : List Char} (h : ¬ l <+: c :: t)
    (heq : c :: t = b ++ l ++ r) : ∃ b', b = c :: b' ∧ t = b' ++ l ++ r := by
  cases b with
  | nil => exact absurd ⟨r, heq.symm⟩ h
  | cons d b =>
    rw [List.cons_append, List.cons_append, List.cons.injEq] at heq
    exact ⟨b, by rw [heq.1], heq.2⟩

/-- The search finds the first place. -/
theorem exists_before? {b r : List Char} (h : t = b ++ l ++ r) :
    ∃ v r', before? l t = some v ∧ FirstPlace l t v r' := by
  induction t generalizing b with
  | nil =>
    have hl : l = [] := by
      simp_all
    subst hl
    exact ⟨[], [], before?_of_prefix List.nil_prefix, rfl, fun _ _ _ => Nat.zero_le _⟩
  | cons c t ih =>
    by_cases hp : l <+: c :: t
    · obtain ⟨r', hr'⟩ := hp
      exact ⟨[], r', before?_of_prefix ⟨r', hr'⟩, hr'.symm, fun _ _ _ => Nat.zero_le _⟩
    · obtain ⟨b', -, hb'⟩ := exists_cons_of_place hp h
      obtain ⟨v, r', hv, hfirst⟩ := ih hb'
      refine ⟨c :: v, r', by rw [before?_cons hp, hv]; rfl, by rw [hfirst.eq]; rfl, ?_⟩
      intro b₂ r₂ h₂
      obtain ⟨b₃, rfl, hb₃⟩ := exists_cons_of_place hp h₂
      exact Nat.succ_le_succ (hfirst.first b₃ r₂ hb₃)

end Literals

section Versions

variable {front back tag : List Char}

def literalOf (p : List Char) : List Char :=
  p.takeWhile fun c => c != '*' && c != '?'

def behindLiteral (p : List Char) : List Char :=
  p.dropWhile fun c => c != '*' && c != '?'

theorem literalOf_append_behindLiteral (p : List Char) : literalOf p ++ behindLiteral p = p :=
  List.takeWhile_append_dropWhile

theorem isLiteral_literalOf (p : List Char) : IsLiteral (literalOf p) := by
  intro c hc
  simpa using List.mem_takeWhile_imp hc

theorem head?_behindLiteral (p : List Char) : ∀ c ∈ (behindLiteral p).head?, c = '*' ∨ c = '?' := by
  intro c hc
  have h := List.head?_dropWhile_not (fun c => c != '*' && c != '?') p
  rw [← behindLiteral, Option.mem_def.mp hc] at h
  by_cases hstar : c = '*'
  · exact .inl hstar
  · exact .inr (by simpa [hstar] using h)

/-- There is one way to part a pattern into literal text and a rest that begins with no more of
it. -/
theorem literalOf_append {l others : List Char} (hl : IsLiteral l)
    (hothers : ∀ c ∈ others.head?, c = '*' ∨ c = '?') : literalOf (l ++ others) = l := by
  have hall : ∀ c ∈ l, (c != '*' && c != '?') = true := by
    intro c hc
    simpa using hl c hc
  rw [literalOf, List.takeWhile_append_of_pos hall]
  cases others with
  | nil => simp
  | cons c others =>
    rcases hothers c rfl with rfl | rfl <;> simp

theorem versionIn_of_no_star {pattern : List Char} (h : '*' ∉ pattern) :
    versionIn pattern tag = tag := by
  have hdrop : pattern.dropWhile (· != '*') = [] := by
    rw [List.dropWhile_eq_nil_iff]
    intro c hc
    exact bne_iff_ne.mpr fun hstar => h (hstar ▸ hc)
  simp only [versionIn, hdrop]

theorem versionIn_of_not_matches {pattern : List Char} (h : ¬ Matches pattern tag) :
    versionIn pattern tag = tag := by
  have haccepts : accepts pattern tag = false := by
    rwa [← accepts_iff, Bool.not_eq_true] at h
  rw [versionIn]
  split
  · rfl
  · simp [haccepts]

/-- What is cut out of a tag that matches. -/
theorem versionIn_of_matches (hfront : '*' ∉ front) (h : Matches (front ++ '*' :: back) tag) :
    versionIn (front ++ '*' :: back) tag =
      match dropBeginning? front tag with
      | none => tag
      | some rest =>
        if literalOf back = [] then rest else (before? (literalOf back) rest).getD rest := by
  have hall : ∀ c ∈ front, (c != '*') = true := by
    intro c hc
    exact bne_iff_ne.mpr fun hstar => hfront (hstar ▸ hc)
  have htake : (front ++ '*' :: back).takeWhile (· != '*') = front := by
    rw [List.takeWhile_append_of_pos hall]
    simp
  have hdrop : (front ++ '*' :: back).dropWhile (· != '*') = '*' :: back := by
    rw [List.dropWhile_append_of_pos hall]
    simp
  simp only [versionIn, htake, hdrop, accepts_iff.mpr h, literalOf, List.isEmpty_iff,
    Bool.not_true, Bool.false_eq_true, if_false]
  cases dropBeginning? front tag <;> rfl

variable {rest v : List Char}

/-- Behind the text before a star, a star stands for a beginning that leaves a match. -/
theorem starTakes_iff (hfront : '*' ∉ front) :
    StarTakes front back (front ++ rest) v ↔ ∃ b, rest = v ++ b ∧ Matches back b := by
  constructor
  · rintro ⟨a, b, heq, ha, hb⟩
    rw [List.append_assoc] at heq
    obtain ⟨rfl, hrest⟩ := List.append_inj heq (ha.length_eq hfront).symm
    exact ⟨b, hrest, hb⟩
  · rintro ⟨b, rfl, hb⟩
    exact ⟨front, b, (List.append_assoc ..).symm, matches_self front, hb⟩

theorem exists_rest_of_matches (hfront : '*' ∉ front)
    (h : Matches (front ++ '*' :: back) (front ++ rest)) :
    ∃ v b, rest = v ++ b ∧ Matches back b := by
  obtain ⟨a, c, heq, ha, hc⟩ := matches_append_iff.mp h
  obtain ⟨rfl, rfl⟩ := List.append_inj heq (ha.length_eq hfront).symm
  obtain ⟨v, b, rfl, -, hb⟩ := matches_cons_iff.mp hc
  exact ⟨v, b, rfl, hb⟩

theorem literalOf_eq_nil (h : ∀ c ∈ back, c = '*') : literalOf back = [] := by
  rw [List.eq_nil_iff_forall_not_mem]
  intro c hc
  have hstar := h c ((List.takeWhile_sublist _).subset hc)
  exact (isLiteral_literalOf back c hc).1 hstar

theorem endsAtFirst_iff_of_no_literal (h : literalOf back = []) :
    EndsAtFirst back rest ↔ ∀ c ∈ back, c = '*' := by
  refine ⟨?_, .stars⟩
  rintro (hstars | ⟨rfl, hne, hl, hothers, -, -⟩)
  · exact hstars
  · exact absurd ((literalOf_append hl hothers).symm.trans h) hne

theorem endsAtFirst_iff_of_first {behind : List Char} (h : literalOf back ≠ [])
    (hfirst : FirstPlace (literalOf back) rest v behind) :
    EndsAtFirst back rest ↔ Matches (behindLiteral back) behind := by
  constructor
  · rintro (hstars | @⟨l, others, v', behind', rfl, hne, hl, hothers, hfirst', hmatch⟩)
    · exact absurd (literalOf_eq_nil hstars) h
    · have hlit := literalOf_append hl hothers
      have hparts := literalOf_append_behindLiteral (l ++ others)
      rw [hlit] at hfirst hparts
      rw [List.append_cancel_left hparts, (hfirst.unique hfirst').2]
      exact hmatch
  · exact .literal (literalOf_append_behindLiteral back).symm h (isLiteral_literalOf back)
      (head?_behindLiteral back) hfirst

theorem matches_behindLiteral_iff {r : List Char} :
    Matches back (literalOf back ++ r) ↔ Matches (behindLiteral back) r := by
  have h := matches_literal_iff (q := behindLiteral back) (t := literalOf back ++ r)
    (isLiteral_literalOf back)
  rw [literalOf_append_behindLiteral] at h
  simp [h]

/-- A match has a first place of the literal text behind the star. -/
theorem exists_firstPlace {b : List Char} (hrest : rest = v ++ b) (hb : Matches back b) :
    ∃ w r, before? (literalOf back) rest = some w ∧ FirstPlace (literalOf back) rest w r := by
  rw [← literalOf_append_behindLiteral back, matches_literal_iff (isLiteral_literalOf back)] at hb
  obtain ⟨r, rfl, -⟩ := hb
  exact exists_before? (hrest.trans (List.append_assoc ..).symm)

/-- When what is cut out is what the star stands for. -/
theorem starTakes_versionIn_iff (hfront : '*' ∉ front)
    (h : Matches (front ++ '*' :: back) tag) :
    StarTakes front back tag (versionIn (front ++ '*' :: back) tag) ↔
      ∃ rest, tag = front ++ rest ∧ EndsAtFirst back rest := by
  rw [versionIn_of_matches hfront h]
  cases hdrop : dropBeginning? front tag with
  | none =>
    have hnot : ∀ rest, tag ≠ front ++ rest := fun rest heq =>
      Option.some_ne_none rest ((dropBeginning?_eq_some_iff.mpr heq).symm.trans hdrop)
    refine iff_of_false ?_ fun ⟨rest, heq, _⟩ => hnot rest heq
    rintro ⟨a, b, heq, ha, -⟩
    have hlen := congrArg List.length heq
    simp only [List.length_append, ha.length_eq hfront] at hlen
    have hnil : front = [] := List.eq_nil_of_length_eq_zero (by omega)
    exact hnot tag (by rw [hnil, List.nil_append])
  | some rest =>
    obtain rfl := dropBeginning?_eq_some_iff.mp hdrop
    have hends : (∃ r, front ++ rest = front ++ r ∧ EndsAtFirst back r) ↔
        EndsAtFirst back rest := by
      simp
    obtain ⟨v, b, hrest, hb⟩ := exists_rest_of_matches hfront h
    by_cases hl : literalOf back = []
    · simp only [if_pos hl]
      rw [hends, starTakes_iff hfront, endsAtFirst_iff_of_no_literal hl, ← matches_empty_iff]
      simp
    · obtain ⟨w, r, hw, hfirst⟩ := exists_firstPlace hrest hb
      simp only [if_neg hl, hw, Option.getD_some]
      have hcut : (∃ b, rest = w ++ b ∧ Matches back b) ↔ Matches back (literalOf back ++ r) := by
        rw [hfirst.eq, List.append_assoc]
        simp
      rw [hends, starTakes_iff hfront, hcut, matches_behindLiteral_iff,
        endsAtFirst_iff_of_first hl hfirst]

/-- Text in front does no harm to a pattern that begins with a star. -/
theorem Matches.append_left {q t : List Char} (h : Matches ('*' :: q) t) (u : List Char) :
    Matches ('*' :: q) (u ++ t) := by
  obtain ⟨piece, r, rfl, -, hr⟩ := matches_cons_iff.mp h
  exact matches_cons_iff.mpr ⟨u ++ piece, r, (List.append_assoc ..).symm, .run _, hr⟩

/-- With a star behind the literal text, its first place is as good as any other. -/
theorem endsAtFirst_of_star {l q : List Char} (hl : IsLiteral l) (hne : l ≠ [])
    {b : List Char} (hrest : rest = v ++ b) (hb : Matches (l ++ '*' :: q) b) :
    EndsAtFirst (l ++ '*' :: q) rest := by
  obtain ⟨r, rfl, hr⟩ := (matches_literal_iff hl).mp hb
  rw [← List.append_assoc] at hrest
  obtain ⟨w, s, -, hfirst⟩ := exists_before? hrest
  refine .literal rfl hne hl (by simp) hfirst ?_
  have hle := hfirst.first v r hrest
  have hlen := congrArg List.length (hfirst.eq.symm.trans hrest)
  simp only [List.length_append] at hlen
  obtain ⟨u, rfl⟩ : r <:+ s :=
    List.suffix_of_suffix_length_le ⟨v ++ l, hrest.symm⟩ ⟨w ++ l, hfirst.eq.symm⟩ (by omega)
  exact hr.append_left u

/-- A tag without stars in its pattern or without a match is returned as a whole. Of a tag that
matches, what is cut out is what the first star stands for just when the tag begins with the text
before the star and the first place of the literal text behind it leaves a match of the rest. So it
is always when that text is literal and there follow only stars, or literal text and another
star. -/
theorem version_of_first_star (pattern tag : List Char) :
    ('*' ∉ pattern ∨ accepts pattern tag = false → versionIn pattern tag = tag) ∧
    ∀ front back, pattern = front ++ '*' :: back → '*' ∉ front → accepts pattern tag = true →
      (StarTakes front back tag (versionIn pattern tag) ↔
        ∃ rest, tag = front ++ rest ∧ EndsAtFirst back rest) ∧
      (IsLiteral front →
        (∀ c ∈ back, c = '*') ∨ (∃ l q, back = l ++ '*' :: q ∧ l ≠ [] ∧ IsLiteral l) →
        StarTakes front back tag (versionIn pattern tag)) := by
  refine ⟨?_, ?_⟩
  · rintro (hstar | hnot)
    · exact versionIn_of_no_star hstar
    · exact versionIn_of_not_matches fun h => Bool.false_ne_true (hnot.symm.trans (accepts_iff.mpr h))
  · rintro front back rfl hfront haccepts
    have h := accepts_iff.mp haccepts
    have hiff := starTakes_versionIn_iff hfront h
    refine ⟨hiff, fun hliteral hback => hiff.mpr ?_⟩
    obtain ⟨rest, rfl, -⟩ := (matches_literal_iff hliteral).mp h
    refine ⟨rest, rfl, ?_⟩
    rcases hback with hstars | ⟨l, q, rfl, hne, hl⟩
    · exact .stars hstars
    · obtain ⟨v, b, hrest, hb⟩ := exists_rest_of_matches hfront h
      exact endsAtFirst_of_star hl hne hrest hb

/-- A suffix that is written twice is cut off twice. -/
theorem version_of_first_star_suffix_twice :
    accepts ['v', '*', '-', 'r'] ['v', '1', '-', 'r', '-', 'r'] = true ∧
    versionIn ['v', '*', '-', 'r'] ['v', '1', '-', 'r', '-', 'r'] = ['1'] ∧
    ¬ StarTakes ['v'] ['-', 'r'] ['v', '1', '-', 'r', '-', 'r'] ['1'] ∧
    StarTakes ['v'] ['-', 'r'] ['v', '1', '-', 'r', '-', 'r'] ['1', '-', 'r'] := by
  have haccepts : accepts ['v', '*', '-', 'r'] ['v', '1', '-', 'r', '-', 'r'] = true := by
    cbv
  have hversion : versionIn ['v', '*', '-', 'r'] ['v', '1', '-', 'r', '-', 'r'] = ['1'] := by
    cbv
  obtain ⟨hiff, -⟩ := (version_of_first_star ['v', '*', '-', 'r'] ['v', '1', '-', 'r', '-', 'r']).2
    ['v'] ['-', 'r'] rfl (by decide) haccepts
  rw [hversion] at hiff
  refine ⟨haccepts, hversion, ?_, ?_⟩
  · rw [hiff]
    rintro ⟨rest, heq, hends⟩
    obtain rfl : ['1', '-', 'r', '-', 'r'] = rest := List.cons.inj heq |>.2
    have hfirst : FirstPlace (literalOf ['-', 'r']) ['1', '-', 'r', '-', 'r'] ['1'] ['-', 'r'] := by
      refine ⟨rfl, fun b r h => ?_⟩
      cases b with
      | nil => cases h
      | cons c b => exact Nat.succ_le_succ (Nat.zero_le _)
    rw [endsAtFirst_iff_of_first (by decide) hfirst] at hends
    cases matches_nil_iff.mp hends
  · exact ⟨['v'], ['-', 'r'], rfl, matches_self _, matches_self _⟩

end Versions

end SelfExtract.Pattern
