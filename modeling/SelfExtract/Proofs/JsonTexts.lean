import SelfExtract.Proofs.JsonScalars

/-!
# Printed JSON texts

The text that is printed for a value is read as a tree, in either style: each
string and each numeral of the tree is the one that was printed. The text is
cut into tokens first, then the tokens are put together.
-/
namespace SelfExtract.Json

open Utf8 (encodeChar)
open Token (isBlankByte next? scanAfter scan?)

/-! ### From texts to tokens -/

/-- The tokens of a byte string, blanks between them left out. -/
inductive Scans : Bytes → List Token → Prop
  | nil : Scans [] []
  | blank {x : UInt8} {b : Bytes} {ts : List Token} (hx : isBlankByte x = true) (h : Scans b ts) :
      Scans (x :: b) ts
  | token {x : UInt8} (front : Bytes) {b : Bytes} {t : Token} {ts : List Token}
      (hx : isBlankByte x = false) (ht : next? (x :: (front ++ b)) = some (t, b)) (h : Scans b ts) :
      Scans (x :: (front ++ b)) (t :: ts)

theorem Scans.scanAfter {b : Bytes} {ts : List Token} (h : Scans b ts) {fuel : Nat}
    (hfuel : b.length ≤ fuel) (found : List Token) :
    scanAfter fuel found b = some (found.reverse ++ ts) := by
  induction h generalizing fuel found with
  | nil => cases fuel <;> simp [Token.scanAfter]
  | blank hx _ ih =>
    cases fuel with
    | zero => exact absurd hfuel (Nat.not_succ_le_zero _)
    | succ fuel =>
      rw [Token.scanAfter, if_pos hx]
      exact ih (Nat.le_of_succ_le_succ hfuel) found
  | token front hx ht _ ih =>
    cases fuel with
    | zero => exact absurd hfuel (Nat.not_succ_le_zero _)
    | succ fuel =>
      rw [List.length_cons, List.length_append] at hfuel
      rw [Token.scanAfter, hx, if_neg Bool.false_ne_true, ht]
      refine (ih (by omega) _).trans ?_
      simp

theorem Scans.scan? {b : Bytes} {ts : List Token} (h : Scans b ts) : scan? b = some ts :=
  h.scanAfter (Nat.le_refl _) []

/-- All numbers of a value are integers. -/
inductive IsExact : Json → Prop
  | null : IsExact .null
  | bool (b : Bool) : IsExact (.bool b)
  | natural (n : UInt64) : IsExact (.number (.natural n))
  | negative (n : Int64) : IsExact (.number (.negative n))
  | text (s : String) : IsExact (.text s)
  | array {vs : List Json} (h : ∀ v ∈ vs, IsExact v) : IsExact (.array vs)
  | object {ms : List (String × Json)} (h : ∀ m ∈ ms, IsExact m.2) : IsExact (.object ms)

mutual

def written : Json → Tree
  | .null => .null
  | .bool b => .bool b
  | .number n => .number n.numeral
  | .text s => .text (body s)
  | .array vs => .array (writtenElements vs)
  | .object ms => .object (writtenMembers ms)

def writtenElements : List Json → List Tree
  | [] => []
  | v :: vs => written v :: writtenElements vs

def writtenMembers : List (String × Json) → List (Bytes × Tree)
  | [] => []
  | (n, v) :: ms => (body n, written v) :: writtenMembers ms

end

mutual

def Tree.tokens : Tree → List Token
  | .null => [.null]
  | .bool true => [.true]
  | .bool false => [.false]
  | .number n => [.number n]
  | .text raw => [.text raw]
  | .array [] => [.openArray, .closeArray]
  | .array (t :: ts) =>
    .openArray :: (Tree.tokens t ++ Tree.elementTokens ts ++ [.closeArray])
  | .object [] => [.openObject, .closeObject]
  | .object ((raw, t) :: ms) =>
    .openObject :: .text raw :: .colon ::
      (Tree.tokens t ++ Tree.memberTokens ms ++ [.closeObject])

def Tree.elementTokens : List Tree → List Token
  | [] => []
  | t :: ts => .comma :: (Tree.tokens t ++ Tree.elementTokens ts)

def Tree.memberTokens : List (Bytes × Tree) → List Token
  | [] => []
  | (raw, t) :: ms =>
    .comma :: .text raw :: .colon :: (Tree.tokens t ++ Tree.memberTokens ms)

end

section Printing

variable {b : Bytes} {ts : List Token}

/-- A token of one character. -/
theorem Scans.sign {x : UInt8} {t : Token} (h : Scans b ts) (hx : isBlankByte x = false)
    (ht : next? (x :: b) = some (t, b)) : Scans (x :: b) (t :: ts) :=
  .token [] hx ht h

theorem Scans.lineBreak (s : Style) (depth : Nat) (h : Scans b ts) :
    Scans ((s.lineBreak depth).flatMap encodeChar ++ b) ts := by
  cases s with
  | compact => exact h
  | spread =>
    have hblanks : ∀ n, Scans ((List.replicate n ' ').flatMap encodeChar ++ b) ts := by
      intro n
      induction n with
      | zero => exact h
      | succ n ih => exact .blank (x := 0x20) rfl ih
    exact .blank (x := 0x0A) rfl (hblanks (2 * depth))

theorem apart_lineBreak (s : Style) (depth : Nat) (h : Apart b) :
    Apart ((s.lineBreak depth).flatMap encodeChar ++ b) := by
  cases s with
  | compact => exact h
  | spread => exact apart_cons (x := 0x0A) (by decide)

theorem Scans.quote (s : String) (h : Scans b ts) :
    Scans ((quote s).flatMap encodeChar ++ b) (.text (body s) :: ts) := by
  rw [bytes_quote, List.cons_append]
  refine .token _ rfl ?_ h
  rw [next?, List.append_assoc, List.singleton_append, textBody?_body]
  rfl

theorem Scans.colon (s : Style) (h : Scans b ts) :
    Scans (s.colon.flatMap encodeChar ++ b) (.colon :: ts) := by
  cases s with
  | compact => exact h.sign (x := 0x3A) rfl rfl
  | spread => exact (Scans.blank (x := 0x20) rfl h).sign (x := 0x3A) rfl rfl

def PrintScans (s : Style) (v : Json) : Prop :=
  ∀ (depth : Nat) (b : Bytes) (ts : List Token), Apart b → Scans b ts →
    Scans ((print s depth v).flatMap encodeChar ++ b) ((written v).tokens ++ ts)

theorem apart_printRest (s : Style) (depth : Nat) (vs : List Json) (hb : Apart b) :
    Apart ((printRest s depth vs).flatMap encodeChar ++ b) := by
  cases vs with
  | nil => exact hb
  | cons v vs => exact apart_cons (x := 0x2C) (by decide)

theorem scans_printRest {s : Style} {vs : List Json} (hvs : ∀ v ∈ vs, PrintScans s v)
    (depth : Nat) (hb : Apart b) (h : Scans b ts) :
    Scans ((printRest s depth vs).flatMap encodeChar ++ b)
      (Tree.elementTokens (writtenElements vs) ++ ts) := by
  induction vs with
  | nil => exact h
  | cons v vs ih =>
    have hrest := ih fun w hw => hvs w (List.mem_cons_of_mem v hw)
    have hv := hvs v List.mem_cons_self depth _ _ (apart_printRest s depth vs hb) hrest
    simp only [printRest, writtenElements, Tree.elementTokens, List.flatMap_cons,
      List.flatMap_append, List.append_assoc, List.cons_append]
    exact (hv.lineBreak s depth).sign (x := 0x2C) rfl rfl

theorem apart_printMembers (s : Style) (depth : Nat) (ms : List (String × Json)) (hb : Apart b) :
    Apart ((printMembers s depth ms).flatMap encodeChar ++ b) := by
  cases ms with
  | nil => exact hb
  | cons m ms => exact apart_cons (x := 0x2C) (by decide)

theorem scans_printMembers {s : Style} {ms : List (String × Json)}
    (hms : ∀ m ∈ ms, PrintScans s m.2) (depth : Nat) (hb : Apart b) (h : Scans b ts) :
    Scans ((printMembers s depth ms).flatMap encodeChar ++ b)
      (Tree.memberTokens (writtenMembers ms) ++ ts) := by
  induction ms with
  | nil => exact h
  | cons m ms ih =>
    have hrest := ih fun w hw => hms w (List.mem_cons_of_mem m hw)
    have hv := hms m List.mem_cons_self depth _ _ (apart_printMembers s depth ms hb) hrest
    simp only [printMembers, writtenMembers, Tree.memberTokens, List.flatMap_cons,
      List.flatMap_append, List.append_assoc, List.cons_append]
    exact (((hv.colon s).quote m.1).lineBreak s depth).sign (x := 0x2C) rfl rfl

/-- The text of a value is cut into the tokens of its tree, whatever follows apart from it. -/
theorem scans_print {v : Json} (hv : IsExact v) (s : Style) : PrintScans s v := by
  induction hv with
  | null => exact fun _ _ _ _ h => .token (x := 0x6E) [0x75, 0x6C, 0x6C] rfl rfl h
  | bool b =>
    intro _ _ _ _ h
    cases b with
    | true => exact .token (x := 0x74) [0x72, 0x75, 0x65] rfl rfl h
    | false => exact .token (x := 0x66) [0x61, 0x6C, 0x73, 0x65] rfl rfl h
  | natural n =>
    intro _ _ _ hb h
    obtain ⟨x, front, hfront, hx, hread⟩ := next?_print (n := .natural n) nofun hb
    rw [print, hfront]
    exact .token front hx hread h
  | negative n =>
    intro _ _ _ hb h
    obtain ⟨x, front, hfront, hx, hread⟩ := next?_print (n := .negative n) nofun hb
    rw [print, hfront]
    exact .token front hx hread h
  | text t => exact fun _ _ _ _ h => h.quote t
  | @array vs _ ih =>
    intro depth b ts hb h
    have hclose : Scans (0x5D :: b) (.closeArray :: ts) := h.sign rfl rfl
    have happart : Apart (0x5D :: b) := apart_cons (by decide)
    cases vs with
    | nil => exact hclose.sign (x := 0x5B) rfl rfl
    | cons v vs =>
      have hrest := scans_printRest (fun w hw => ih w (List.mem_cons_of_mem v hw)) (depth + 1)
        (apart_lineBreak s depth happart) (hclose.lineBreak s depth)
      have hv := ih v List.mem_cons_self (depth + 1) _ _
        (apart_printRest s (depth + 1) vs (apart_lineBreak s depth happart)) hrest
      simp only [print, written, writtenElements, Tree.tokens, List.flatMap_cons,
        List.flatMap_append, List.append_assoc, List.cons_append, List.flatMap_nil, List.nil_append]
      exact (hv.lineBreak s (depth + 1)).sign (x := 0x5B) rfl rfl
  | @object ms _ ih =>
    intro depth b ts hb h
    have hclose : Scans (0x7D :: b) (.closeObject :: ts) := h.sign rfl rfl
    have happart : Apart (0x7D :: b) := apart_cons (by decide)
    cases ms with
    | nil => exact hclose.sign (x := 0x7B) rfl rfl
    | cons m ms =>
      have hrest := scans_printMembers (fun w hw => ih w (List.mem_cons_of_mem m hw)) (depth + 1)
        (apart_lineBreak s depth happart) (hclose.lineBreak s depth)
      have hv := ih m List.mem_cons_self (depth + 1) _ _
        (apart_printMembers s (depth + 1) ms (apart_lineBreak s depth happart)) hrest
      simp only [print, written, writtenMembers, Tree.tokens, List.flatMap_cons,
        List.flatMap_append, List.append_assoc, List.cons_append, List.flatMap_nil, List.nil_append]
      exact (((hv.colon s).quote m.1).lineBreak s (depth + 1)).sign (x := 0x7B) rfl rfl

end Printing

/-! ### From tokens to trees -/

namespace Tree

mutual

/-- What holds of a tree when it holds of those inside it. -/
theorem induct {P : Tree → Prop} (null : P .null) (bool : ∀ b, P (.bool b))
    (number : ∀ n, P (.number n)) (text : ∀ raw, P (.text raw))
    (array : ∀ ts, (∀ t ∈ ts, P t) → P (.array ts))
    (object : ∀ ms, (∀ m ∈ ms, P m.2) → P (.object ms)) : ∀ t, P t
  | .null => null
  | .bool b => bool b
  | .number n => number n
  | .text raw => text raw
  | .array ts => array ts (induct_elements null bool number text array object ts)
  | .object ms => object ms (induct_members null bool number text array object ms)

theorem induct_elements {P : Tree → Prop} (null : P .null) (bool : ∀ b, P (.bool b))
    (number : ∀ n, P (.number n)) (text : ∀ raw, P (.text raw))
    (array : ∀ ts, (∀ t ∈ ts, P t) → P (.array ts))
    (object : ∀ ms, (∀ m ∈ ms, P m.2) → P (.object ms)) : ∀ ts : List Tree, ∀ t ∈ ts, P t
  | [] => nofun
  | t :: ts => List.forall_mem_cons.mpr ⟨induct null bool number text array object t,
      induct_elements null bool number text array object ts⟩

theorem induct_members {P : Tree → Prop} (null : P .null) (bool : ∀ b, P (.bool b))
    (number : ∀ n, P (.number n)) (text : ∀ raw, P (.text raw))
    (array : ∀ ts, (∀ t ∈ ts, P t) → P (.array ts))
    (object : ∀ ms, (∀ m ∈ ms, P m.2) → P (.object ms)) :
    ∀ ms : List (Bytes × Tree), ∀ m ∈ ms, P m.2
  | [] => nofun
  | (_, t) :: ms => List.forall_mem_cons.mpr ⟨induct null bool number text array object t,
      induct_members null bool number text array object ms⟩

end

/-- A tree is put together from its tokens, and what follows them is left. -/
def IsRead (t : Tree) : Prop :=
  ∀ (fuel : Nat) (rest : List Token), 2 * t.tokens.length ≤ fuel →
    value? fuel (t.tokens ++ rest) = some (t, rest)

/-- The first token of a tree does not close an array. -/
theorem tokens_cons (t : Tree) : ∃ x r, t.tokens = x :: r ∧ x ≠ .closeArray := by
  cases t with
  | bool b => cases b <;> exact ⟨_, _, rfl, nofun⟩
  | array ts => cases ts <;> exact ⟨_, _, rfl, nofun⟩
  | object ms => cases ms <;> exact ⟨_, _, rfl, nofun⟩
  | _ => exact ⟨_, _, rfl, nofun⟩

theorem elements?_tokens {t : Tree} {ts : List Tree} (ht : t.IsRead) (hts : ∀ u ∈ ts, u.IsRead)
    (fuel : Nat) (hfuel : 2 * (t.tokens.length + (elementTokens ts).length) + 1 ≤ fuel)
    (rest : List Token) :
    elements? fuel (t.tokens ++ (elementTokens ts ++ .closeArray :: rest)) =
      some (t :: ts, rest) := by
  induction ts generalizing t fuel with
  | nil =>
    obtain ⟨fuel, rfl⟩ : ∃ f, fuel = f + 1 := ⟨fuel - 1, by omega⟩
    have hfirst := ht fuel (.closeArray :: rest) (by omega)
    simp only [elementTokens, List.nil_append, elements?, hfirst]
  | cons u ts ih =>
    obtain ⟨fuel, rfl⟩ : ∃ f, fuel = f + 1 := ⟨fuel - 1, by omega⟩
    rw [elementTokens, List.length_cons, List.length_append] at hfuel
    have hfirst := ht fuel (.comma :: (u.tokens ++ elementTokens ts) ++ .closeArray :: rest)
      (by omega)
    have hothers := ih (hts u List.mem_cons_self)
      (fun v hv => hts v (List.mem_cons_of_mem u hv)) fuel (by omega)
    rw [elementTokens, elements?, hfirst]
    simp only [List.cons_append, List.append_assoc, hothers, Option.map_some]

theorem members?_tokens (raw : Bytes) {t : Tree} {ms : List (Bytes × Tree)} (ht : t.IsRead)
    (hms : ∀ m ∈ ms, m.2.IsRead) (fuel : Nat)
    (hfuel : 2 * (t.tokens.length + (memberTokens ms).length) + 1 ≤ fuel) (rest : List Token) :
    members? fuel (.text raw :: .colon :: (t.tokens ++ (memberTokens ms ++ .closeObject :: rest))) =
      some ((raw, t) :: ms, rest) := by
  induction ms generalizing raw t fuel with
  | nil =>
    obtain ⟨fuel, rfl⟩ : ∃ f, fuel = f + 1 := ⟨fuel - 1, by omega⟩
    have hfirst := ht fuel (.closeObject :: rest) (by omega)
    simp only [memberTokens, List.nil_append, members?, hfirst]
  | cons m ms ih =>
    obtain ⟨fuel, rfl⟩ : ∃ f, fuel = f + 1 := ⟨fuel - 1, by omega⟩
    rw [memberTokens, List.length_cons, List.length_cons, List.length_cons, List.length_append]
      at hfuel
    have hfirst := ht fuel
      (.comma :: .text m.1 :: .colon :: (m.2.tokens ++ memberTokens ms) ++ .closeObject :: rest)
      (by omega)
    have hothers := ih m.1 (hms m List.mem_cons_self)
      (fun v hv => hms v (List.mem_cons_of_mem m hv)) fuel (by omega)
    rw [memberTokens, members?, hfirst]
    simp only [List.cons_append, List.append_assoc, hothers, Option.map_some]

theorem IsRead.of_succ {t : Tree} (h : ∀ (fuel : Nat) (rest : List Token),
    2 * t.tokens.length ≤ fuel + 1 → value? (fuel + 1) (t.tokens ++ rest) = some (t, rest)) :
    t.IsRead := by
  intro fuel rest hfuel
  cases fuel with
  | zero =>
    obtain ⟨x, r, hcons, -⟩ := t.tokens_cons
    rw [hcons, List.length_cons] at hfuel
    omega
  | succ fuel => exact h fuel rest hfuel

theorem isRead (t : Tree) : t.IsRead := by
  induction t using induct with
  | null | number | text => exact .of_succ fun _ _ _ => rfl
  | bool b => exact .of_succ fun _ _ _ => by cases b <;> rfl
  | array ts ih =>
    refine .of_succ fun fuel rest hfuel => ?_
    cases ts with
    | nil => rfl
    | cons t ts =>
      obtain ⟨x, r, hcons, hclose⟩ := t.tokens_cons
      rw [tokens, List.length_cons, List.length_append, List.length_append, List.length_singleton]
        at hfuel
      have hread := elements?_tokens (ih t List.mem_cons_self)
        (fun u hu => ih u (List.mem_cons_of_mem t hu)) fuel (by omega) rest
      rw [hcons, List.cons_append] at hread
      rw [tokens, List.cons_append, List.append_assoc, List.append_assoc, List.singleton_append,
        hcons, List.cons_append, value?, hread]
      · rfl
      · exact fun _ h => hclose (List.cons.inj h).1
  | object ms ih =>
    refine .of_succ fun fuel rest hfuel => ?_
    cases ms with
    | nil => rfl
    | cons m ms =>
      rw [tokens] at hfuel
      simp only [List.length_cons, List.length_append] at hfuel
      have hread := members?_tokens m.1 (ih m List.mem_cons_self)
        (fun u hu => ih u (List.mem_cons_of_mem m hu)) fuel (by omega) rest
      rw [tokens]
      simp only [List.cons_append, List.append_assoc, List.nil_append]
      rw [value?, hread]
      · rfl
      · exact fun _ h => Token.noConfusion (List.cons.inj h).1

/-- A text with the tokens of a tree is read as the tree. -/
theorem parse?_of_scans {t : Tree} {b : Bytes} (h : Scans b t.tokens) : parse? b = some t := by
  have hread := t.isRead (2 * t.tokens.length + 2) [] (by omega)
  rw [List.append_nil] at hread
  rw [parse?, h.scan?, Option.bind_eq_bind, Option.bind_some, hread]

end Tree

/-- The text of a value is read as its tree, also when a line break follows. -/
theorem parse?_print {v : Json} (hv : IsExact v) (s : Style) {b : Bytes} (hb : Scans b [])
    (happart : Apart b) :
    Tree.parse? ((print s 0 v).flatMap encodeChar ++ b) = some (written v) := by
  have h := scans_print hv s 0 b [] happart hb
  rw [List.append_nil] at h
  exact Tree.parse?_of_scans h

end SelfExtract.Json
