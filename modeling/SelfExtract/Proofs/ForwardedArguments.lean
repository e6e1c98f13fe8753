import SelfExtract.Arguments
import SelfExtract.Proofs.Utf8

/-!
# Which arguments are handed on

A list of arguments is read from left to right in one way: a flag takes the
next argument, an argument that begins with the flag and an equals sign stands
for itself, and so do all others. What is handed on and which value is found
are told by this reading. An inline value that is no text is not recognized,
and its argument is handed on like an ordinary one.
-/
namespace SelfExtract

namespace Utf8

theorem units_append_text (s : String) (b : Bytes) :
    units (encode s ++ b) = s.toList.map some ++ units b := by
  rw [units, encode, unitsAfter_encode, List.append_nil]
  have h := unitsAfter_append [] (s.toList.map some).reverse b
  rw [List.nil_append, List.reverse_reverse] at h
  exact h

/-- A text in front of other bytes makes no difference to whether these are text. -/
theorem isSome_decode?_append (s : String) (b : Bytes) :
    (decode? (encode s ++ b)).isSome = (decode? b).isSome := by
  have hall : (units (encode s ++ b)).all Option.isSome = (units b).all Option.isSome := by
    rw [units_append_text, List.all_append]
    simp
  simp only [decode?, hall]
  cases (units b).all Option.isSome with
  | false => rfl
  | true => rfl

/-- Bytes that are text are read without a replacement. -/
theorem decodeLossy_of_decode? {b : Bytes} {s : String} (h : decode? b = some s) :
    decodeLossy b = s := by
  simp only [decode?, Option.ite_none_right_eq_some, List.all_eq_true] at h
  obtain ⟨hall, hs⟩ := h
  rw [← Option.some.inj hs, decodeLossy]
  congr 1
  generalize units b = us at hall
  induction us with
  | nil => rfl
  | cons u us ih =>
    obtain ⟨c, rfl⟩ := Option.isSome_iff_exists.mp (hall u List.mem_cons_self)
    simp [ih fun u hu => hall u (List.mem_cons_of_mem _ hu)]

end Utf8

namespace Arguments

def front : Bytes :=
  flag ++ [0x3D]

/-- What stands together in a list of arguments. -/
inductive Piece where
  /-- An argument for the program. -/
  | plain (arg : Bytes)
  /-- The flag, with the argument behind it if there is one. -/
  | spaced (value : Option Bytes)
  /-- The flag and its value in one argument. -/
  | inline (value : Bytes)
  deriving DecidableEq, Repr

namespace Piece

def arguments : Piece → List Bytes
  | plain arg => [arg]
  | spaced value => flag :: value.toList
  | inline value => [front ++ value]

def isInternal : Piece → Bool
  | plain _ => false
  | _ => true

def isTaken : Piece → Bool
  | plain _ => false
  | spaced _ => true
  | inline value => (Utf8.decode? value).isSome

/-- The value for the launcher, with replacements where it is no text. -/
def value? : Piece → Option String
  | plain _ => none
  | spaced value => value.map Utf8.decodeLossy
  | inline value => some (Utf8.decodeLossy value)

theorem isInternal_of_isTaken {p : Piece} (h : p.isTaken = true) : p.isInternal = true := by
  cases p with
  | plain => cases h
  | spaced => rfl
  | inline => rfl

end Piece

inductive Reading : List Bytes → List Piece → Prop
  | nil : Reading [] []
  | last {arg : Bytes} : arg = flag → Reading [arg] [.spaced none]
  | spaced {arg value : Bytes} {rest : List Bytes} {ps : List Piece} : arg = flag →
      Reading rest ps → Reading (arg :: value :: rest) (.spaced (some value) :: ps)
  | inline {arg value : Bytes} {rest : List Bytes} {ps : List Piece} : arg = front ++ value →
      Reading rest ps → Reading (arg :: rest) (.inline value :: ps)
  | plain {arg : Bytes} {rest : List Bytes} {ps : List Piece} : arg ≠ flag → ¬front <+: arg →
      Reading rest ps → Reading (arg :: rest) (.plain arg :: ps)

/-- The first piece for the launcher is the first that it takes, if it does take it. -/
theorem find?_isTaken {ps : List Piece}
    (h : ∀ p, ps.find? Piece.isInternal = some p → p.isTaken = true) :
    ps.find? Piece.isTaken = ps.find? Piece.isInternal := by
  induction ps with
  | nil => rfl
  | cons p ps ih =>
    cases hinternal : p.isInternal with
    | true =>
      have htaken := h p (List.find?_cons_of_pos hinternal)
      rw [List.find?_cons_of_pos hinternal, List.find?_cons_of_pos htaken]
    | false =>
      have htaken : ¬p.isTaken = true := fun htaken => by
        simp [Piece.isInternal_of_isTaken htaken] at hinternal
      have hnot : ¬p.isInternal = true := by simp [hinternal]
      rw [List.find?_cons_of_neg hnot] at h ⊢
      rw [List.find?_cons_of_neg htaken, ih h]

theorem front_append_ne_flag (value : Bytes) : front ++ value ≠ flag := by
  intro h
  have hlen := congrArg List.length h
  rw [front, List.length_append, List.length_append, List.length_singleton] at hlen
  omega

theorem inlineValue?_front (value : Bytes) : inlineValue? (front ++ value) = Utf8.decode? value := by
  have hfront : front = Utf8.encode "--update-config=" := by decide
  have htext : (Utf8.decode? (front ++ value)).isSome = (Utf8.decode? value).isSome := by
    rw [hfront, Utf8.isSome_decode?_append]
  have hbegins : front.isPrefixOf (front ++ value) = true :=
    List.isPrefixOf_iff_prefix.mpr (List.prefix_append front value)
  change (if front.isPrefixOf (front ++ value) && (Utf8.decode? (front ++ value)).isSome then
    Utf8.decode? ((front ++ value).drop front.length) else none) = _
  rw [hbegins, htext, Bool.true_and, List.drop_left]
  cases Utf8.decode? value with
  | none => rfl
  | some s => rfl

theorem inlineValue?_of_other {arg : Bytes} (h : ¬front <+: arg) : inlineValue? arg = none := by
  have hbegins : front.isPrefixOf arg = false := by
    rwa [← List.isPrefixOf_iff_prefix, Bool.not_eq_true] at h
  change (if front.isPrefixOf arg && (Utf8.decode? arg).isSome then
    Utf8.decode? (arg.drop front.length) else none) = none
  rw [hbegins]
  rfl

theorem exists_reading (args : List Bytes) : ∃ ps, Reading args ps := by
  fun_induction forwarded args with
  | case1 => exact ⟨_, .nil⟩
  | case2 => exact ⟨_, .last rfl⟩
  | case3 _ _ ih =>
    obtain ⟨ps, h⟩ := ih
    exact ⟨_, .spaced rfl h⟩
  | case4 arg r hflag hinline ih =>
    obtain ⟨ps, h⟩ := ih
    by_cases hfront : front <+: arg
    · obtain ⟨value, hvalue⟩ := hfront
      exact ⟨_, .inline hvalue.symm h⟩
    · rw [inlineValue?_of_other hfront] at hinline
      cases hinline
  | case5 arg r hflag _ ih =>
    obtain ⟨ps, h⟩ := ih
    by_cases hfront : front <+: arg
    · obtain ⟨value, hvalue⟩ := hfront
      exact ⟨_, .inline hvalue.symm h⟩
    · exact ⟨_, .plain hflag hfront h⟩

namespace Reading

variable {args : List Bytes} {ps ps' : List Piece}

/-- No argument can be taken in two ways. -/
theorem unique (h : Reading args ps) (h' : Reading args ps') : ps' = ps := by
  induction h generalizing ps' with
  | nil =>
    cases h'
    rfl
  | last hflag =>
    cases h' with
    | last => rfl
    | inline hinline => exact absurd (hinline.symm.trans hflag) (front_append_ne_flag _)
    | plain hne => exact absurd hflag hne
  | spaced hflag _ ih =>
    cases h' with
    | spaced _ hrest => rw [ih hrest]
    | inline hinline => exact absurd (hinline.symm.trans hflag) (front_append_ne_flag _)
    | plain hne => exact absurd hflag hne
  | inline hinline _ ih =>
    cases h' with
    | last hflag => exact absurd (hinline.symm.trans hflag) (front_append_ne_flag _)
    | spaced hflag => exact absurd (hinline.symm.trans hflag) (front_append_ne_flag _)
    | inline hinline' hrest =>
      obtain rfl := List.append_cancel_left (hinline.symm.trans hinline')
      rw [ih hrest]
    | plain _ hfront => exact absurd ⟨_, hinline.symm⟩ hfront
  | plain hne hfront _ ih =>
    cases h' with
    | last hflag => exact absurd hflag hne
    | spaced hflag => exact absurd hflag hne
    | inline hinline => exact absurd ⟨_, hinline.symm⟩ hfront
    | plain _ _ hrest => rw [ih hrest]

theorem arguments_eq (h : Reading args ps) : ps.flatMap Piece.arguments = args := by
  induction h with
  | nil => rfl
  | last hflag =>
    rw [hflag]
    rfl
  | spaced hflag _ ih =>
    rw [List.flatMap_cons, ih, hflag]
    rfl
  | inline hinline _ ih =>
    rw [List.flatMap_cons, ih, hinline]
    rfl
  | plain _ _ _ ih =>
    rw [List.flatMap_cons, ih]
    rfl

/-- The pieces that the launcher does not take are handed on. -/
theorem forwarded_eq (h : Reading args ps) :
    forwarded args = (ps.filter (!·.isTaken)).flatMap Piece.arguments := by
  induction h with
  | nil => rfl
  | last hflag =>
    rw [forwarded, if_pos hflag]
    rfl
  | spaced hflag _ ih =>
    rw [forwarded, if_pos hflag]
    exact ih
  | @inline arg value rest ps hinline _ ih =>
    have hne : arg ≠ flag := hinline ▸ front_append_ne_flag value
    rw [forwarded.eq_def]
    simp only [if_neg hne, ih]
    rw [hinline, inlineValue?_front, List.filter_cons]
    cases hvalue : (Utf8.decode? value).isSome with
    | false => simp [Piece.isTaken, Piece.arguments, hvalue]
    | true => simp [Piece.isTaken, hvalue]
  | plain hne hfront _ ih =>
    rw [forwarded.eq_def]
    simp only [if_neg hne, ih, inlineValue?_of_other hfront]
    rfl

/-- The value of the first piece that the launcher takes. -/
theorem override?_eq (h : Reading args ps) :
    override? args = (ps.find? Piece.isTaken).bind Piece.value? := by
  induction h with
  | nil => rfl
  | last hflag =>
    rw [override?, if_pos hflag]
    rfl
  | spaced hflag =>
    rw [override?, if_pos hflag]
    rfl
  | @inline arg value rest ps hinline _ ih =>
    have hne : arg ≠ flag := hinline ▸ front_append_ne_flag value
    rw [override?, if_neg hne, ih, hinline, inlineValue?_front]
    cases hvalue : Utf8.decode? value with
    | none => simp [Piece.isTaken, hvalue]
    | some s => simp [Piece.isTaken, Piece.value?, hvalue, Utf8.decodeLossy_of_decode? hvalue]
  | plain hne hfront _ ih =>
    rw [override?, if_neg hne, ih, inlineValue?_of_other hfront]
    rfl

/-- What is handed on is read as the pieces of which it consists. -/
theorem handed (h : Reading args ps) : Reading (forwarded args) (ps.filter (!·.isTaken)) := by
  rw [h.forwarded_eq]
  induction h with
  | nil => exact .nil
  | last => exact .nil
  | spaced _ _ ih => exact ih
  | @inline arg value rest ps _ _ ih =>
    cases hvalue : (Utf8.decode? value).isSome with
    | false =>
      simp only [List.filter_cons, Piece.isTaken, hvalue]
      exact .inline rfl ih
    | true =>
      simp only [List.filter_cons, Piece.isTaken, hvalue]
      exact ih
  | plain hne hfront _ ih => exact .plain hne hfront ih

theorem plain_spec {arg : Bytes} (h : Reading args ps) (harg : .plain arg ∈ ps) :
    arg ≠ flag ∧ ¬front <+: arg := by
  induction h with
  | nil => cases harg
  | last => simp at harg
  | spaced _ _ ih => exact ih (by simpa using harg)
  | inline _ _ ih => exact ih (by simpa using harg)
  | plain hne hfront _ ih =>
    rcases List.mem_cons.mp harg with heq | hmem
    · cases heq
      exact ⟨hne, hfront⟩
    · exact ih hmem

/-- An argument that is handed on is an ordinary one, or its inline value is no text. -/
theorem mem_forwarded {arg : Bytes} (h : Reading args ps) (harg : arg ∈ forwarded args) :
    .plain arg ∈ ps ∨
      ∃ value, .inline value ∈ ps ∧ arg = front ++ value ∧ Utf8.decode? value = none := by
  rw [h.forwarded_eq, List.mem_flatMap] at harg
  obtain ⟨p, hp, harg⟩ := harg
  obtain ⟨hmem, htaken⟩ := List.mem_filter.mp hp
  cases p with
  | plain other =>
    obtain rfl := List.mem_singleton.mp harg
    exact .inl hmem
  | spaced => cases htaken
  | inline value =>
    refine .inr ⟨value, hmem, List.mem_singleton.mp harg, ?_⟩
    simpa [Piece.isTaken] using htaken

/-- All that is for the launcher is kept from the program just when every inline value is text. -/
theorem forwarded_eq_iff (h : Reading args ps) :
    forwarded args = (ps.filter (!·.isInternal)).flatMap Piece.arguments ↔
      ∀ value, .inline value ∈ ps → (Utf8.decode? value).isSome = true := by
  rw [h.forwarded_eq]
  constructor
  · intro heq value hvalue
    refine Decidable.byContradiction fun htext => ?_
    have hmem : front ++ value ∈ (ps.filter (!·.isTaken)).flatMap Piece.arguments :=
      List.mem_flatMap.mpr ⟨_, List.mem_filter.mpr ⟨hvalue, by simpa [Piece.isTaken] using htext⟩,
        List.mem_singleton_self _⟩
    rw [heq, List.mem_flatMap] at hmem
    obtain ⟨p, hp, harg⟩ := hmem
    obtain ⟨hplain, hinternal⟩ := List.mem_filter.mp hp
    cases p with
    | plain arg =>
      obtain rfl := List.mem_singleton.mp harg
      exact (h.plain_spec hplain).2 (List.prefix_append front value)
    | spaced => cases hinternal
    | inline => cases hinternal
  · intro htext
    rw [List.filter_congr fun p hp => ?_]
    cases p with
    | plain => rfl
    | spaced => rfl
    | inline value => simp [Piece.isTaken, Piece.isInternal, htext value hp]

end Reading

/-- Arguments are read in one way. What the launcher does not take of this reading is handed on, in
order and unchanged, and the first piece that it takes gives the value, which is none for a flag at
the end. Only what is no text may be left of the arguments for the launcher: its flag is never handed
on, nor is an inline value that is text, and nothing more is removed from what has been handed on. -/
theorem handed_on_by_reading (args : List Bytes) : ∃ ps, Reading args ps ∧
    (∀ ps', Reading args ps' → ps' = ps) ∧ ps.flatMap Piece.arguments = args ∧
    forwarded args = (ps.filter (!·.isTaken)).flatMap Piece.arguments ∧
    override? args = (ps.find? Piece.isTaken).bind Piece.value? ∧
    (forwarded args = (ps.filter (!·.isInternal)).flatMap Piece.arguments ↔
      ∀ value, .inline value ∈ ps → (Utf8.decode? value).isSome = true) ∧
    ((∀ p, ps.find? Piece.isInternal = some p → p.isTaken = true) →
      override? args = (ps.find? Piece.isInternal).bind Piece.value?) ∧
    flag ∉ forwarded args ∧
    (∀ value, front ++ value ∈ forwarded args → Utf8.decode? value = none) ∧
    forwarded (forwarded args) = forwarded args := by
  obtain ⟨ps, h⟩ := exists_reading args
  refine ⟨ps, h, fun ps' h' => h.unique h', h.arguments_eq, h.forwarded_eq, h.override?_eq,
    h.forwarded_eq_iff, fun hfirst => ?_, fun hflag => ?_, fun value hvalue => ?_, ?_⟩
  · rw [h.override?_eq, find?_isTaken hfirst]
  · rcases h.mem_forwarded hflag with hplain | ⟨value, -, heq, -⟩
    · exact (h.plain_spec hplain).1 rfl
    · exact front_append_ne_flag value heq.symm
  · rcases h.mem_forwarded hvalue with hplain | ⟨other, -, heq, hnone⟩
    · exact absurd (List.prefix_append front value) (h.plain_spec hplain).2
    · rwa [List.append_cancel_left heq]
  · rw [h.handed.forwarded_eq, h.forwarded_eq, List.filter_filter]
    simp only [Bool.and_self]

/-- An inline value that is no text goes to the program together with the flag. -/
theorem handed_on_by_reading_without_text :
    Reading [front ++ [0xFF]] [.inline [0xFF]] ∧ Utf8.decode? [0xFF] = none ∧
    forwarded [front ++ [0xFF]] = [front ++ [0xFF]] ∧
    override? [front ++ [0xFF]] = none := by
  have hreading : Reading [front ++ [0xFF]] [.inline [0xFF]] := .inline rfl .nil
  have hvalue : Utf8.decode? [0xFF] = none := by decide +kernel
  obtain ⟨ps, -, honly, -, hforwarded, hvalue?, -⟩ := handed_on_by_reading [front ++ [0xFF]]
  obtain rfl := honly _ hreading
  refine ⟨hreading, hvalue, hforwarded.trans ?_, hvalue?.trans ?_⟩
  · simp [Piece.isTaken, Piece.arguments, hvalue]
  · simp [Piece.isTaken, hvalue]

end Arguments

end SelfExtract
