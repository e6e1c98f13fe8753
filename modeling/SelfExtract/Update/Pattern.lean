/-!
# Patterns of release tags

In a pattern `*` stands for any run of characters and `?` for one. Matching
goes from left to right and lets a star stand for as little as it can. Where
pattern and text differ behind a star, the star that was met last takes one
more character; no star before it is tried again. The version in a tag is what
the first `*` stands for.
-/
namespace SelfExtract.Pattern

structure Star where
  position : Nat
  reach : Nat
  deriving DecidableEq, Repr

/-- How far a text is matched: the positions in pattern and text, and the star that was met last. -/
structure Cursor (pattern text : List Char) where
  inPattern : Nat
  inText : Nat
  star : Option Star
  inPattern_le : inPattern ≤ pattern.length
  inText_le : inText ≤ text.length
  star_le : ∀ s ∈ star, s.position < inPattern ∧ s.reach ≤ inText

namespace Cursor

variable {pattern text : List Char}

def start (pattern text : List Char) : Cursor pattern text :=
  ⟨0, 0, none, Nat.zero_le _, Nat.zero_le _, nofun⟩

/-- A star is met, which stands for nothing at first. -/
def meet (c : Cursor pattern text) (hp : c.inPattern < pattern.length) : Cursor pattern text where
  inPattern := c.inPattern + 1
  inText := c.inText
  star := some ⟨c.inPattern, c.inText⟩
  inPattern_le := hp
  inText_le := c.inText_le
  star_le := by simp

def advance (c : Cursor pattern text) (hp : c.inPattern < pattern.length)
    (ht : c.inText < text.length) : Cursor pattern text where
  inPattern := c.inPattern + 1
  inText := c.inText + 1
  star := c.star
  inPattern_le := hp
  inText_le := ht
  star_le s hs := by
    have := c.star_le s hs
    omega

/-- The star that was met last takes one more character. -/
def retry (c : Cursor pattern text) (ht : c.inText < text.length) (s : Star)
    (hs : s ∈ c.star) : Cursor pattern text where
  inPattern := s.position + 1
  inText := s.reach + 1
  star := some ⟨s.position, s.reach + 1⟩
  inPattern_le := Nat.le_trans (c.star_le s hs).1 c.inPattern_le
  inText_le := Nat.lt_of_le_of_lt (c.star_le s hs).2 ht
  star_le := by simp

def back (c : Cursor pattern text) (ht : c.inText < text.length) : Cursor pattern text ⊕ Bool :=
  match hs : c.star with
  | some s => .inl (c.retry ht s hs)
  | none => .inr false

/-- One turn of the matching: where it goes on, or the answer. -/
def turn (c : Cursor pattern text) : Cursor pattern text ⊕ Bool :=
  if ht : c.inText < text.length then
    if hp : c.inPattern < pattern.length then
      if pattern[c.inPattern] = '*' then .inl (c.meet hp)
      else if pattern[c.inPattern] = '?' ∨ pattern[c.inPattern] = text[c.inText] then
        .inl (c.advance hp ht)
      else c.back ht
    else c.back ht
  else .inr ((pattern.drop c.inPattern).all (· == '*'))

/-- The character of the pattern does not stand for the one of the text. -/
def Differs (c : Cursor pattern text) (ht : c.inText < text.length) : Prop :=
  ∀ hp : c.inPattern < pattern.length, pattern[c.inPattern] ≠ '*' ∧
    pattern[c.inPattern] ≠ '?' ∧ pattern[c.inPattern] ≠ text[c.inText]

inductive Turn (c : Cursor pattern text) : Cursor pattern text ⊕ Bool → Prop
  | meet (hp : c.inPattern < pattern.length) : pattern[c.inPattern] = '*' →
      Turn c (.inl (c.meet hp))
  | advance (hp : c.inPattern < pattern.length) (ht : c.inText < text.length) :
      pattern[c.inPattern] ≠ '*' →
      pattern[c.inPattern] = '?' ∨ pattern[c.inPattern] = text[c.inText] →
      Turn c (.inl (c.advance hp ht))
  | retry (ht : c.inText < text.length) (s : Star) (hs : s ∈ c.star) : c.Differs ht →
      Turn c (.inl (c.retry ht s hs))
  | fail (ht : c.inText < text.length) : c.Differs ht → c.star = none → Turn c (.inr false)
  | finish : c.inText = text.length →
      Turn c (.inr ((pattern.drop c.inPattern).all (· == '*')))

theorem back_spec (c : Cursor pattern text) (ht : c.inText < text.length) (h : c.Differs ht) :
    c.Turn (c.back ht) := by
  rw [back]
  split
  · next s hs => exact .retry ht s hs h
  · next hs => exact .fail ht h hs

theorem turn_spec (c : Cursor pattern text) : c.Turn c.turn := by
  rw [turn]
  split
  · next ht =>
    split
    · next hp =>
      split
      · next hstar => exact .meet hp hstar
      · next hstar =>
        split
        · next hsame => exact .advance hp ht hstar hsame
        · next hsame => exact c.back_spec ht fun _ => ⟨hstar, not_or.mp hsame⟩
    · next hp => exact c.back_spec ht fun hp' => absurd hp' hp
  · next ht => exact .finish (Nat.le_antisymm c.inText_le (Nat.le_of_not_lt ht))

/-- How many characters the last star could still take; more if no star was met. -/
def room (c : Cursor pattern text) : Nat :=
  c.star.elim (text.length + 1) (text.length - ·.reach)

def rest (c : Cursor pattern text) : Nat :=
  (pattern.length - c.inPattern) + (text.length - c.inText)

/-- A bound of the turns to come: what is left may be matched anew for each character that a star
takes. -/
def weight (c : Cursor pattern text) : Nat :=
  c.room * (pattern.length + text.length + 1) + c.rest

theorem weight_lt_of_room {c d : Cursor pattern text} (h : d.room < c.room) :
    d.weight < c.weight := by
  have hrest : d.rest < pattern.length + text.length + 1 := by
    rw [rest]
    omega
  have hroom := Nat.mul_le_mul_right (pattern.length + text.length + 1) h
  rw [Nat.succ_mul] at hroom
  rw [weight, weight]
  omega

theorem weight_lt_of_rest {c d : Cursor pattern text} (hroom : d.room ≤ c.room)
    (h : d.rest < c.rest) : d.weight < c.weight := by
  have := Nat.mul_le_mul_right (pattern.length + text.length + 1) hroom
  rw [weight, weight]
  omega

/-- The star that was met last ends no later than matching stands. -/
theorem le_room (c : Cursor pattern text) : text.length - c.inText ≤ c.room := by
  rw [room]
  cases hs : c.star with
  | none => exact Nat.le_succ_of_le (Nat.sub_le _ _)
  | some s => exact Nat.sub_le_sub_left (c.star_le s hs).2 _

theorem weight_meet (c : Cursor pattern text) (hp : c.inPattern < pattern.length) :
    (c.meet hp).weight < c.weight :=
  weight_lt_of_rest c.le_room (by simp only [rest, meet]; omega)

theorem weight_advance (c : Cursor pattern text) (hp : c.inPattern < pattern.length)
    (ht : c.inText < text.length) : (c.advance hp ht).weight < c.weight :=
  weight_lt_of_rest (Nat.le_refl _) (by simp only [rest, advance]; omega)

theorem weight_retry (c : Cursor pattern text) (ht : c.inText < text.length) (s : Star)
    (hs : s ∈ c.star) : (c.retry ht s hs).weight < c.weight := by
  have := c.star_le s hs
  refine weight_lt_of_room ?_
  rw [Option.mem_def] at hs
  simp only [room, retry, hs, Option.elim_some]
  omega

theorem weight_turn {c d : Cursor pattern text} (h : c.turn = .inl d) : d.weight < c.weight := by
  have hturn := c.turn_spec
  rw [h] at hturn
  cases hturn with
  | meet hp _ => exact c.weight_meet hp
  | advance hp ht _ _ => exact c.weight_advance hp ht
  | retry ht s hs => exact c.weight_retry ht s hs

def answer (c : Cursor pattern text) : Bool :=
  match _h : c.turn with
  | .inl d => d.answer
  | .inr b => b
termination_by c.weight
decreasing_by exact weight_turn _h

end Cursor

def accepts (pattern text : List Char) : Bool :=
  (Cursor.start pattern text).answer

def dropBeginning? : List Char → List Char → Option (List Char)
  | [], t => some t
  | _ :: _, [] => none
  | p :: q, c :: r => if p = c then dropBeginning? q r else none

/-- The text before the first occurrence of another one, if there is one. -/
def before? (needle text : List Char) : Option (List Char) :=
  if needle.isPrefixOf text then some []
  else
    match text with
    | [] => none
    | c :: r => (before? needle r).map (c :: ·)

/-- What the first `*` of a pattern stands for in a tag: the part between the literal text before
it and the first occurrence of the literal text behind it. A tag that does not fit is returned as a
whole. -/
def versionIn (pattern tag : List Char) : List Char :=
  let front := pattern.takeWhile (· != '*')
  match pattern.dropWhile (· != '*') with
  | [] => tag
  | _ :: back =>
    if !accepts pattern tag then tag
    else
      let literal := back.takeWhile fun c => c != '*' && c != '?'
      match dropBeginning? front tag with
      | none => tag
      | some rest => if literal.isEmpty then rest else (before? literal rest).getD rest

end SelfExtract.Pattern
