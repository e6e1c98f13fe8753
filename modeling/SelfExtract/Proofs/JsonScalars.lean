import SelfExtract.Json.Printer
import SelfExtract.Proofs.Utf8

/-!
# Printed numbers and strings

An integer is printed as a numeral that is read back digit by digit, as long as
nothing follows that would continue it. A text between its quotes is found up
to the closing quote and stands for the same characters.
-/
namespace SelfExtract.Json

open Utf8 (encodeChar)
open Token (isDigitByte isBlankByte digits fraction? exponent? unsigned? next? textBody?)

/-! ### Digits -/

/-- The decimal digits of a number, the first one first. -/
def decimal (n : Nat) : List Nat :=
  if n < 10 then [n] else decimal (n / 10) ++ [n % 10]
decreasing_by omega

theorem toDigits_eq (n : Nat) : Nat.toDigits 10 n = (decimal n).map Nat.digitChar := by
  fun_induction decimal n with
  | case1 n h => exact Nat.toDigits_of_lt_base h
  | case2 n h ih =>
    rw [Nat.toDigits_of_base_le (by decide) (Nat.le_of_not_lt h), ih, List.map_append,
      List.map_singleton]

theorem lt_of_mem_decimal {n d : Nat} (h : d ∈ decimal n) : d < 10 := by
  fun_induction decimal n with
  | case1 n hn => exact List.mem_singleton.mp h ▸ hn
  | case2 n hn ih =>
    rcases List.mem_append.mp h with h | h
    · exact ih h
    · exact List.mem_singleton.mp h ▸ Nat.mod_lt n (by decide)

/-- The digits stand for the number. -/
theorem foldl_decimal (n : Nat) : (decimal n).foldl (fun e d => e * 10 + d) 0 = n := by
  fun_induction decimal n with
  | case1 n h => exact Nat.zero_add n
  | case2 n h ih =>
    rw [List.foldl_append, ih, List.foldl_cons, List.foldl_nil]
    omega

/-- A zero in front stands alone. -/
theorem decimal_cons (n : Nat) : ∃ d r, decimal n = d :: r ∧ (d = 0 → r = []) := by
  fun_induction decimal n with
  | case1 n h => exact ⟨n, [], rfl, fun _ => rfl⟩
  | case2 n h ih =>
    obtain ⟨d, r, hdr, hzero⟩ := ih
    refine ⟨d, r ++ [n % 10], by rw [hdr, List.cons_append], fun hd => ?_⟩
    have hsmall := foldl_decimal (n / 10)
    rw [hdr, hzero hd, hd] at hsmall
    change 0 * 10 + 0 = n / 10 at hsmall
    omega

def digitByte (d : Nat) : UInt8 :=
  UInt8.ofNat (0x30 + d)

theorem encodeChar_digitChar : ∀ d < 10, encodeChar (Nat.digitChar d) = [digitByte d] := by
  decide

theorem isDigitByte_digitByte : ∀ d < 10, isDigitByte (digitByte d) = true := by
  decide

theorem isBlankByte_digitByte : ∀ d < 10, isBlankByte (digitByte d) = false := by
  decide

theorem digitByte_value : ∀ d < 10, (digitByte d).toNat - 0x30 = d := by
  decide

theorem bytes_toString (n : Nat) :
    (toString n).toList.flatMap encodeChar = (decimal n).map digitByte := by
  have hdigits : ∀ ds : List Nat, (∀ d ∈ ds, d < 10) →
      (ds.map Nat.digitChar).flatMap encodeChar = ds.map digitByte := by
    intro ds
    induction ds with
    | nil => exact fun _ => rfl
    | cons d ds ih =>
      intro h
      rw [List.map_cons, List.flatMap_cons, encodeChar_digitChar d (h d List.mem_cons_self),
        ih fun e he => h e (List.mem_cons_of_mem d he), List.map_cons, List.singleton_append]
  rw [Nat.toString_eq_repr, Nat.toList_repr, toDigits_eq, hdigits _ fun d => lt_of_mem_decimal]

/-! ### Numerals -/

def Number.numeral : Number → Numeral
  | .natural n => ⟨false, decimal n.toNat, [], none⟩
  | .negative n => ⟨decide (n.toInt < 0), decimal n.toInt.natAbs, [], none⟩
  | .binary _ => ⟨false, [], [], none⟩

/-- No byte at the front that would continue a numeral. -/
def Apart (b : Bytes) : Prop :=
  ∀ x ∈ b.head?, isDigitByte x = false ∧ x ≠ 0x2E ∧ x ≠ 0x65 ∧ x ≠ 0x45

theorem apart_cons {x : UInt8} {b : Bytes}
    (h : isDigitByte x = false ∧ x ≠ 0x2E ∧ x ≠ 0x65 ∧ x ≠ 0x45) : Apart (x :: b) := by
  simpa [Apart] using h

variable {rest : Bytes}

theorem digits_append (hrest : Apart rest) {ds : List Nat} (hds : ∀ d ∈ ds, d < 10) :
    digits (ds.map digitByte ++ rest) = (ds, rest) := by
  have hall : ∀ x ∈ ds.map digitByte, isDigitByte x = true := by
    intro x hx
    obtain ⟨d, hd, rfl⟩ := List.mem_map.mp hx
    exact isDigitByte_digitByte d (hds d hd)
  have hstop : rest.takeWhile isDigitByte = [] ∧ rest.dropWhile isDigitByte = rest := by
    cases rest with
    | nil => exact ⟨rfl, rfl⟩
    | cons x rest =>
      have hx := (hrest x rfl).1
      rw [List.takeWhile_cons, List.dropWhile_cons, hx]
      exact ⟨rfl, rfl⟩
  have hvalues : (ds.map digitByte).map (fun d => d.toNat - 0x30) = ds := by
    rw [List.map_map]
    exact (List.map_congr_left fun d hd => digitByte_value d (hds d hd)).trans ds.map_id
  rw [digits, List.takeWhile_append_of_pos hall, List.dropWhile_append_of_pos hall, hstop.1,
    hstop.2, List.append_nil, hvalues]

theorem fraction?_of_apart (hrest : Apart rest) : fraction? rest = some ([], rest) := by
  cases rest with
  | nil => rfl
  | cons x rest =>
    have hx := (hrest x rfl).2.1
    simp [fraction?, hx]

theorem exponent?_of_apart (hrest : Apart rest) : exponent? rest = some (none, rest) := by
  cases rest with
  | nil => rfl
  | cons x rest =>
    obtain ⟨-, -, hsmall, hcapital⟩ := hrest x rfl
    simp [exponent?, hsmall, hcapital]

theorem unsigned?_decimal (hrest : Apart rest) (negative : Bool) (n : Nat) :
    unsigned? negative ((decimal n).map digitByte ++ rest) =
      some (⟨negative, decimal n, [], none⟩, rest) := by
  obtain ⟨d, r, hdr, hzero⟩ := decimal_cons n
  have hwhole : ((decimal n).isEmpty ||
      ((decimal n).head? == some 0 && decide (1 < (decimal n).length))) = false := by
    rw [hdr]
    by_cases hd : d = 0
    · simp [hzero hd]
    · simp [hd]
  rw [unsigned?, digits_append hrest fun d => lt_of_mem_decimal]
  simp [hwhole, fraction?_of_apart hrest, exponent?_of_apart hrest]

/-- A numeral without a sign is not another token. -/
theorem next?_digits {d : Nat} (hd : d < 10) (b : Bytes) :
    next? (digitByte d :: b) = (unsigned? false (digitByte d :: b)).map
      fun (n, r) => (.number n, r) := by
  have hcases : d = 0 ∨ d = 1 ∨ d = 2 ∨ d = 3 ∨ d = 4 ∨ d = 5 ∨ d = 6 ∨ d = 7 ∨ d = 8 ∨ d = 9 := by
    omega
  rcases hcases with rfl | rfl | rfl | rfl | rfl | rfl | rfl | rfl | rfl | rfl <;> rfl

/-- A printed integer is read as its numeral. -/
theorem next?_print {n : Number} (hn : ∀ bits, n ≠ .binary bits) (hrest : Apart rest) :
    ∃ x front, n.print.flatMap encodeChar = x :: front ∧ isBlankByte x = false ∧
      next? (x :: (front ++ rest)) = some (.number n.numeral, rest) := by
  have hunsigned : ∀ m : Nat, ∃ x front, (toString m).toList.flatMap encodeChar = x :: front ∧
      isBlankByte x = false ∧
      next? (x :: (front ++ rest)) = some (.number ⟨false, decimal m, [], none⟩, rest) := by
    intro m
    obtain ⟨d, r, hdr, -⟩ := decimal_cons m
    have hd : d < 10 := lt_of_mem_decimal (n := m) (hdr ▸ List.mem_cons_self)
    have hread := unsigned?_decimal hrest false m
    rw [hdr, List.map_cons, List.cons_append] at hread
    refine ⟨digitByte d, r.map digitByte, ?_, isBlankByte_digitByte d hd, ?_⟩
    · rw [bytes_toString, hdr, List.map_cons]
    · rw [next?_digits hd, hread, hdr]
      rfl
  cases n with
  | natural n => exact hunsigned n.toNat
  | binary bits => exact absurd rfl (hn bits)
  | negative n =>
    cases hm : n.toInt with
    | ofNat m =>
      obtain ⟨x, front, hfront, hx, hread⟩ := hunsigned m
      refine ⟨x, front, ?_, hx, ?_⟩
      · rw [Number.print, hm]
        exact hfront
      · rw [hread, Number.numeral, hm]
        simp
    | negSucc m =>
      refine ⟨0x2D, (decimal (m + 1)).map digitByte, ?_, by decide, ?_⟩
      · rw [Number.print, hm, ← bytes_toString]
        change ("-" ++ toString (m + 1)).toList.flatMap encodeChar = _
        rw [String.toList_append, List.flatMap_append]
        rfl
      · have hread := unsigned?_decimal hrest true (m + 1)
        change (unsigned? true _).map (fun (n, r) => (Token.number n, r)) = _
        rw [hread, Number.numeral, hm]
        simp

/-! ### Strings -/

def body (s : String) : Bytes :=
  s.toList.flatMap fun c => (escapeChar c).flatMap encodeChar

theorem bytes_quote (s : String) :
    (quote s).flatMap encodeChar = 0x22 :: (body s ++ [0x22]) := by
  rw [quote, List.flatMap_cons, List.flatMap_append, List.flatMap_assoc]
  rfl

/-- A byte that stands for itself in a string. -/
def IsPlain (b : UInt8) : Prop :=
  ¬ b < 0x20 ∧ b ≠ 0x22 ∧ b ≠ 0x5C

variable {b : Bytes}

theorem textBody?_plain (hb : ∀ x ∈ b, IsPlain x) (read rest : Bytes) :
    textBody? read (b ++ rest) = textBody? (b.reverse ++ read) rest := by
  induction b generalizing read with
  | nil => rfl
  | cons x b ih =>
    obtain ⟨hcontrol, hquote, hescape⟩ := hb x List.mem_cons_self
    rw [List.cons_append, textBody?, ih fun y hy => hb y (List.mem_cons_of_mem x hy)]
    · simp [hcontrol, hescape]
    · exact hquote
    · exact fun _ _ _ _ _ h _ => hescape h
    · exact fun _ _ h _ => hescape h

theorem unescape?_plain (hb : ∀ x ∈ b, IsPlain x) (read rest : Bytes) :
    unescape? read (b ++ rest) = unescape? (b.reverse ++ read) rest := by
  induction b generalizing read with
  | nil => rfl
  | cons x b ih =>
    obtain ⟨-, -, hescape⟩ := hb x List.mem_cons_self
    rw [List.cons_append, unescape?, ih fun y hy => hb y (List.mem_cons_of_mem x hy)]
    · simp
    all_goals simp [hescape]

/-- Four digits that are not those of a surrogate stand for a character. -/
theorem unescape?_four {a b c d : UInt8} (h : hexNumber a b c d < 0xD800) (read rest : Bytes) :
    unescape? read (0x5C :: 0x75 :: a :: b :: c :: d :: rest) =
      unescape? ((encodeChar (Char.ofNat (hexNumber a b c d))).reverse ++ read) rest := by
  have hlow : (decide (0xDC00 ≤ hexNumber a b c d) && decide (hexNumber a b c d < 0xE000)) =
      false := by
    simp
    omega
  have hhigh : (decide (0xD800 ≤ hexNumber a b c d) && decide (hexNumber a b c d < 0xDC00)) =
      false := by
    simp
    omega
  by_cases hrest : ∃ e f g h r, rest = 0x5C :: 0x75 :: e :: f :: g :: h :: r
  · obtain ⟨e, f, g, h, r, rfl⟩ := hrest
    rw [unescape?]
    simp [hlow, hhigh]
  · rw [unescape?.eq_3]
    · simp [hlow, hhigh]
    · exact fun e f g h r hr => hrest ⟨e, f, g, h, r, hr⟩

variable {c : Char}

theorem isPlain_of_mem_encodeChar (hcontrol : ¬ c.toNat < 0x20) (hquote : c ≠ '"')
    (hescape : c ≠ '\\') : ∀ x ∈ encodeChar c, IsPlain x := by
  have hsame : ∀ x : UInt8, x ∈ encodeChar c → x.toNat < 0x80 → c.toNat = x.toNat :=
    fun x hx hsmall => Utf8.toNat_of_mem_encodeChar hsmall hx
  intro x hx
  refine ⟨fun h => ?_, ?_, ?_⟩
  · have hsmall : x.toNat < 0x20 := UInt8.lt_iff_toNat_lt.mp h
    exact hcontrol (hsame x hx (by omega) ▸ hsmall)
  · rintro rfl
    exact hquote (Char.toNat_inj.mp (hsame _ hx (by decide)))
  · rintro rfl
    exact hescape (Char.toNat_inj.mp (hsame _ hx (by decide)))

theorem encodeChar_hexDigit {n : Nat} (hn : n < 16) :
    ∃ x, encodeChar (Hex.digit n) = [x] ∧ Token.hexDigit? x = some n := by
  have hall : ∀ n < 16, encodeChar (Hex.digit n) = [UInt8.ofNat (Hex.digit n).toNat] ∧
      Token.hexDigit? (UInt8.ofNat (Hex.digit n).toNat) = some n := by
    decide
  exact ⟨_, hall n hn⟩

/-- A character as it is written in a string: by itself, by a short escape or by four digits. -/
inductive Escaped (c : Char) (b : Bytes) : Prop
  | plain (hb : b = encodeChar c) (h : ∀ x ∈ b, IsPlain x)
  | short (e : UInt8) (hb : b = [0x5C, e]) (hne : e ≠ 0x75) (h : Token.isShortEscape e = true)
      (hc : encodeChar c = [shortEscape e])
  | digits (x y : UInt8) (hb : b = [0x5C, 0x75, 0x30, 0x30, x, y])
      (hx : (Token.hexDigit? x).isSome) (hy : (Token.hexDigit? y).isSome)
      (hsmall : hexNumber 0x30 0x30 x y < 0xD800) (hc : c = Char.ofNat (hexNumber 0x30 0x30 x y))

theorem escaped_escapeChar (c : Char) : Escaped c ((escapeChar c).flatMap encodeChar) := by
  rw [escapeChar]
  split
  · next h => exact .short 0x22 rfl (by decide) rfl (h ▸ rfl)
  split
  · next h => exact .short 0x5C rfl (by decide) rfl (h ▸ rfl)
  split
  · next h => exact .short 0x62 rfl (by decide) rfl (h ▸ rfl)
  split
  · next h => exact .short 0x66 rfl (by decide) rfl (h ▸ rfl)
  split
  · next h => exact .short 0x6E rfl (by decide) rfl (h ▸ rfl)
  split
  · next h => exact .short 0x72 rfl (by decide) rfl (h ▸ rfl)
  split
  · next h => exact .short 0x74 rfl (by decide) rfl (h ▸ rfl)
  split
  · next h =>
    obtain ⟨x, hx, hxv⟩ := encodeChar_hexDigit (n := c.toNat / 16) (by omega)
    obtain ⟨y, hy, hyv⟩ := encodeChar_hexDigit (n := c.toNat % 16) (by omega)
    have hnumber : hexNumber 0x30 0x30 x y = c.toNat := by
      have hzero : Token.hexDigit? 0x30 = some 0 := rfl
      simp only [hexNumber, List.foldl_cons, List.foldl_nil, hzero, hxv, hyv, Option.getD_some]
      omega
    refine .digits x y ?_ (by simp [hxv]) (by simp [hyv]) (by omega) ?_
    · simp only [List.flatMap_cons, List.flatMap_nil, hx, hy]
      rfl
    · rw [hnumber, Char.ofNat_toNat]
  · next hquote hescape _ _ _ _ _ hcontrol =>
    rw [List.flatMap_singleton]
    exact .plain rfl (isPlain_of_mem_encodeChar hcontrol hquote hescape)

theorem Escaped.textBody? (h : Escaped c b) (read rest : Bytes) :
    textBody? read (b ++ rest) = textBody? (b.reverse ++ read) rest := by
  cases h with
  | plain hb h => exact textBody?_plain h read rest
  | short e hb hne h =>
    subst hb
    change Token.textBody? read (0x5C :: e :: rest) = _
    rw [Token.textBody?, if_pos h]
    · rfl
    · exact fun _ _ _ _ _ he _ => hne he
  | digits x y hb hx hy =>
    subst hb
    change Token.textBody? read (0x5C :: 0x75 :: 0x30 :: 0x30 :: x :: y :: rest) = _
    rw [Token.textBody?, if_pos]
    · rfl
    · simp [hx, hy]
      decide

theorem Escaped.unescape? (h : Escaped c b) (read rest : Bytes) :
    unescape? read (b ++ rest) = unescape? ((encodeChar c).reverse ++ read) rest := by
  cases h with
  | plain hb h => rw [unescape?_plain h, hb]
  | short e hb hne h hc =>
    subst hb
    change Json.unescape? read (0x5C :: e :: rest) = _
    rw [Json.unescape?, hc]
    · rfl
    · exact fun _ _ _ _ _ he _ => hne he
  | digits x y hb hx hy hsmall hc =>
    subst hb
    exact (unescape?_four hsmall read rest).trans (by rw [← hc])

/-- The closing quote of a printed text is found. -/
theorem textBody?_body (s : String) (rest : Bytes) :
    textBody? [] (body s ++ 0x22 :: rest) = some (body s, rest) := by
  have hchars : ∀ (cs : List Char) (read : Bytes),
      textBody? read ((cs.flatMap fun c => (escapeChar c).flatMap encodeChar) ++ 0x22 :: rest) =
        some (read.reverse ++ cs.flatMap fun c => (escapeChar c).flatMap encodeChar, rest) := by
    intro cs
    induction cs with
    | nil =>
      intro read
      simp [textBody?]
    | cons c cs ih =>
      intro read
      rw [List.flatMap_cons, List.append_assoc, (escaped_escapeChar c).textBody?, ih]
      simp
  exact hchars s.toList []

/-- A printed text is the text of its body. -/
theorem textOf?_body (s : String) : textOf? (body s) = some s := by
  have hchars : ∀ (cs : List Char) (read : Bytes),
      unescape? read (cs.flatMap fun c => (escapeChar c).flatMap encodeChar) =
        some (read.reverse ++ cs.flatMap encodeChar) := by
    intro cs
    induction cs with
    | nil =>
      intro read
      simp [unescape?]
    | cons c cs ih =>
      intro read
      rw [List.flatMap_cons, (escaped_escapeChar c).unescape?, ih]
      simp
  rw [textOf?, body, hchars]
  exact Utf8.decode?_encode s

end SelfExtract.Json
