import SelfExtract.Text.Utf8

/-!
# Reading UTF-8 back

Every text is read back from its bytes. Reading any bytes as text, with a
replacement for each ill-formed piece, makes at most three bytes out of one
and no NUL character unless there was one.
-/
namespace SelfExtract.Utf8

theorem toNat_valid (c : Char) : c.toNat < 0xD800 ∨ 0xDFFF < c.toNat ∧ c.toNat < 0x110000 :=
  c.valid

theorem toNat_ofNat {n : Nat} (h : n < 0xD800 ∨ 0xDFFF < n ∧ n < 0x110000) :
    (Char.ofNat n).toNat = n := by
  rw [Char.ofNat, dif_pos (show n.isValidChar from h)]
  rfl

theorem length_encodeChar (c : Char) : (encodeChar c).length = width c := by
  simp only [encodeChar, width]
  split
  · rfl
  · split
    · rfl
    · split <;> rfl

/-! The tests on bytes, as bounds on numbers. -/

theorem isContinuation_iff (b : UInt8) :
    isContinuation b = true ↔ 0x80 ≤ b.toNat ∧ b.toNat ≤ 0xBF := by
  simp [isContinuation, UInt8.le_iff_toNat_le]

theorem isSecondAfter_iff (a b : UInt8) :
    isSecondAfter a b = true ↔ 0x80 ≤ b.toNat ∧ b.toNat ≤ 0xBF ∧
      (a.toNat = 0xE0 → 0xA0 ≤ b.toNat) ∧ (a.toNat = 0xED → b.toNat ≤ 0x9F) ∧
      (a.toNat = 0xF0 → 0x90 ≤ b.toNat) ∧ (a.toNat = 0xF4 → b.toNat ≤ 0x8F) := by
  simp only [isSecondAfter, isContinuation, ← UInt8.toNat_inj, UInt8.le_iff_toNat_le,
    UInt8.reduceToNat]
  repeat' split
  all_goals
    simp only [Bool.and_eq_true, decide_eq_true_eq]
    omega

/-- The first bytes that begin no character of several bytes. -/
theorem startsNone_iff (a : UInt8) :
    (a < 0xC2 || 0xF4 < a) = true ↔ a.toNat < 0xC2 ∨ 0xF4 < a.toNat := by
  simp [UInt8.lt_iff_toNat_lt]

/-! The numbers that two, three and four bytes make up. -/

theorem low_bounds (b : UInt8) : low b < 64 :=
  Nat.mod_lt _ (by decide)

theorem two_bounds {a b : UInt8} (ha : 0xC2 ≤ a.toNat ∧ a.toNat < 0xE0) :
    0x80 ≤ a.toNat % 32 * 64 + low b ∧ a.toNat % 32 * 64 + low b < 0xD800 := by
  have hb := low_bounds b
  omega

theorem three_bounds {a b c : UInt8} (ha : 0xE0 ≤ a.toNat ∧ a.toNat < 0xF0)
    (hb : isSecondAfter a b = true) :
    0x80 ≤ a.toNat % 16 * 4096 + low b * 64 + low c ∧
    (a.toNat % 16 * 4096 + low b * 64 + low c < 0xD800 ∨
      0xDFFF < a.toNat % 16 * 4096 + low b * 64 + low c ∧
        a.toNat % 16 * 4096 + low b * 64 + low c < 0x110000) := by
  rw [isSecondAfter_iff] at hb
  have hc := low_bounds c
  simp only [low] at hc ⊢
  omega

theorem four_bounds {a b c d : UInt8} (ha : 0xF0 ≤ a.toNat ∧ a.toNat ≤ 0xF4)
    (hb : isSecondAfter a b = true) :
    0xDFFF < a.toNat % 8 * 262144 + low b * 4096 + low c * 64 + low d ∧
    a.toNat % 8 * 262144 + low b * 4096 + low c * 64 + low d < 0x110000 := by
  rw [isSecondAfter_iff] at hb
  have hc := low_bounds c
  have hd := low_bounds d
  simp only [low] at hc hd ⊢
  omega

/-- What a first unit can be: a character of one byte, one of several bytes, or an ill-formed
piece. -/
theorem firstUnit_cases (a : UInt8) (rest : Bytes) :
    (a.toNat < 0x80 ∧ firstUnit a rest = (some (Char.ofNat a.toNat), 0)) ∨
    (∃ n k, firstUnit a rest = (some (Char.ofNat n), k) ∧ 0x80 ≤ n ∧
      (n < 0xD800 ∨ 0xDFFF < n ∧ n < 0x110000) ∧ 1 ≤ k ∧ k ≤ rest.length) ∨
    (∃ k, firstUnit a rest = (none, k) ∧ k ≤ rest.length) := by
  unfold firstUnit
  split
  · next h => exact .inl ⟨UInt8.lt_iff_toNat_lt.mp h, rfl⟩
  · refine .inr ?_
    split
    · exact .inr ⟨0, rfl, Nat.zero_le _⟩
    · next hstart =>
      rw [startsNone_iff, not_or, Nat.not_lt, Nat.not_lt] at hstart
      cases rest with
      | nil => exact .inr ⟨0, rfl, Nat.zero_le _⟩
      | cons b r =>
        dsimp only
        split
        · next htwo =>
          split
          · obtain ⟨hlow, hhigh⟩ := two_bounds (b := b) ⟨hstart.1, UInt8.lt_iff_toNat_lt.mp htwo⟩
            exact .inl ⟨_, 1, rfl, hlow, .inl hhigh, Nat.le_refl 1, Nat.succ_pos _⟩
          · exact .inr ⟨0, rfl, Nat.zero_le _⟩
        · next htwo =>
          rw [UInt8.not_lt, UInt8.le_iff_toNat_le] at htwo
          split
          · exact .inr ⟨0, rfl, Nat.zero_le _⟩
          · next hb =>
            rw [Bool.not_eq_true', Bool.not_eq_false] at hb
            cases r with
            | nil => exact .inr ⟨1, rfl, Nat.succ_pos _⟩
            | cons c r =>
              dsimp only
              split
              · exact .inr ⟨1, rfl, Nat.succ_pos _⟩
              · split
                · next hthree =>
                  obtain ⟨hlow, hvalid⟩ :=
                    three_bounds (c := c) ⟨htwo, UInt8.lt_iff_toNat_lt.mp hthree⟩ hb
                  exact .inl ⟨_, 2, rfl, hlow, hvalid, by omega, by simp⟩
                · next hthree =>
                  rw [UInt8.not_lt, UInt8.le_iff_toNat_le] at hthree
                  cases r with
                  | nil => exact .inr ⟨2, rfl, by simp⟩
                  | cons d r =>
                    dsimp only
                    split
                    · exact .inr ⟨2, rfl, by simp⟩
                    · obtain ⟨hlow, hhigh⟩ := four_bounds (c := c) (d := d) ⟨hthree, hstart.2⟩ hb
                      exact .inl ⟨_, 3, rfl, by omega, .inr ⟨hlow, hhigh⟩, by omega, by simp⟩

/-! Well-formed characters of each length. -/

theorem firstUnit_one (a : UInt8) (r : Bytes) (h : a.toNat < 0x80) :
    firstUnit a r = (some (Char.ofNat a.toNat), 0) := by
  have ha : a < 0x80 := UInt8.lt_iff_toNat_lt.mpr h
  cases r <;> simp only [firstUnit, if_pos ha]

theorem firstUnit_two (a b : UInt8) (r : Bytes) (ha : 0xC2 ≤ a.toNat ∧ a.toNat < 0xE0)
    (hb : 0x80 ≤ b.toNat ∧ b.toNat ≤ 0xBF) :
    firstUnit a (b :: r) = (some (Char.ofNat (a.toNat % 32 * 64 + low b)), 1) := by
  have h₁ : ¬ a < 0x80 := by simp only [UInt8.lt_iff_toNat_lt, UInt8.reduceToNat]; omega
  have h₂ : ¬ (a < 0xC2 || 0xF4 < a) = true := by rw [startsNone_iff]; omega
  have h₃ : a < 0xE0 := UInt8.lt_iff_toNat_lt.mpr ha.2
  simp only [firstUnit, if_neg h₁, if_neg h₂, if_pos h₃, (isContinuation_iff b).mpr hb, if_true]

theorem firstUnit_three (a b c : UInt8) (r : Bytes) (ha : 0xE0 ≤ a.toNat ∧ a.toNat < 0xF0)
    (hb : 0x80 ≤ b.toNat ∧ b.toNat ≤ 0xBF) (hlow : a.toNat = 0xE0 → 0xA0 ≤ b.toNat)
    (hsur : a.toNat = 0xED → b.toNat ≤ 0x9F) (hc : 0x80 ≤ c.toNat ∧ c.toNat ≤ 0xBF) :
    firstUnit a (b :: c :: r) =
      (some (Char.ofNat (a.toNat % 16 * 4096 + low b * 64 + low c)), 2) := by
  have h₁ : ¬ a < 0x80 := by simp only [UInt8.lt_iff_toNat_lt, UInt8.reduceToNat]; omega
  have h₂ : ¬ (a < 0xC2 || 0xF4 < a) = true := by rw [startsNone_iff]; omega
  have h₃ : ¬ a < 0xE0 := by simp only [UInt8.lt_iff_toNat_lt, UInt8.reduceToNat]; omega
  have h₄ : isSecondAfter a b = true := by rw [isSecondAfter_iff]; omega
  have h₅ : a < 0xF0 := UInt8.lt_iff_toNat_lt.mpr ha.2
  simp only [firstUnit, if_neg h₁, if_neg h₂, if_neg h₃, h₄, (isContinuation_iff c).mpr hc,
    if_pos h₅, Bool.not_true, Bool.false_eq_true, if_false]

theorem firstUnit_four (a b c d : UInt8) (r : Bytes) (ha : 0xF0 ≤ a.toNat ∧ a.toNat ≤ 0xF4)
    (hb : 0x80 ≤ b.toNat ∧ b.toNat ≤ 0xBF) (hlow : a.toNat = 0xF0 → 0x90 ≤ b.toNat)
    (hhigh : a.toNat = 0xF4 → b.toNat ≤ 0x8F) (hc : 0x80 ≤ c.toNat ∧ c.toNat ≤ 0xBF)
    (hd : 0x80 ≤ d.toNat ∧ d.toNat ≤ 0xBF) :
    firstUnit a (b :: c :: d :: r) =
      (some (Char.ofNat (a.toNat % 8 * 262144 + low b * 4096 + low c * 64 + low d)), 3) := by
  have h₁ : ¬ a < 0x80 := by simp only [UInt8.lt_iff_toNat_lt, UInt8.reduceToNat]; omega
  have h₂ : ¬ (a < 0xC2 || 0xF4 < a) = true := by rw [startsNone_iff]; omega
  have h₃ : ¬ a < 0xE0 := by simp only [UInt8.lt_iff_toNat_lt, UInt8.reduceToNat]; omega
  have h₄ : isSecondAfter a b = true := by rw [isSecondAfter_iff]; omega
  have h₅ : ¬ a < 0xF0 := by simp only [UInt8.lt_iff_toNat_lt, UInt8.reduceToNat]; omega
  simp only [firstUnit, if_neg h₁, if_neg h₂, if_neg h₃, h₄, (isContinuation_iff c).mpr hc,
    if_neg h₅, (isContinuation_iff d).mpr hd, Bool.not_true, Bool.false_eq_true, if_false]

theorem toNat_ofNat_byte {n : Nat} (h : n < 256) : (UInt8.ofNat n).toNat = n := by
  rw [UInt8.toNat_ofNat', Nat.mod_eq_of_lt h]

/-- A character is the first unit of its bytes, whatever follows them. -/
theorem firstUnit_encodeChar (c : Char) (r : Bytes) :
    ∃ a s, encodeChar c = a :: s ∧ firstUnit a (s ++ r) = (some c, s.length) := by
  have hc := Char.ofNat_toNat c
  have hv := toNat_valid c
  simp only [encodeChar]
  generalize c.toNat = n at hc hv
  by_cases h₁ : n < 0x80
  · rw [if_pos h₁]
    refine ⟨_, [], rfl, ?_⟩
    rw [firstUnit_one _ _ (by rw [toNat_ofNat_byte] <;> omega), toNat_ofNat_byte (by omega), hc]
    rfl
  · rw [if_neg h₁]
    by_cases h₂ : n < 0x800
    · rw [if_pos h₂]
      have ha : (UInt8.ofNat (0xC0 + n / 64)).toNat = 0xC0 + n / 64 := toNat_ofNat_byte (by omega)
      have hb : (UInt8.ofNat (0x80 + n % 64)).toNat = 0x80 + n % 64 := toNat_ofNat_byte (by omega)
      refine ⟨_, [_], rfl, ?_⟩
      rw [List.cons_append, firstUnit_two _ _ _ (by omega) (by omega), ha, low, hb,
        show (0xC0 + n / 64) % 32 * 64 + (0x80 + n % 64) % 64 = n by omega, hc]
      rfl
    · rw [if_neg h₂]
      have hz : (UInt8.ofNat (0x80 + n % 64)).toNat = 0x80 + n % 64 := toNat_ofNat_byte (by omega)
      have hy : (UInt8.ofNat (0x80 + n / 64 % 64)).toNat = 0x80 + n / 64 % 64 :=
        toNat_ofNat_byte (by omega)
      by_cases h₃ : n < 0x10000
      · rw [if_pos h₃]
        have ha : (UInt8.ofNat (0xE0 + n / 4096)).toNat = 0xE0 + n / 4096 :=
          toNat_ofNat_byte (by omega)
        refine ⟨_, [_, _], rfl, ?_⟩
        rw [List.cons_append, List.cons_append, firstUnit_three _ _ _ _ (by omega) (by omega)
          (by omega) (by omega) (by omega), ha, low, low, hy, hz,
          show (0xE0 + n / 4096) % 16 * 4096 + (0x80 + n / 64 % 64) % 64 * 64 +
            (0x80 + n % 64) % 64 = n by omega, hc]
        rfl
      · rw [if_neg h₃]
        have ha : (UInt8.ofNat (0xF0 + n / 262144)).toNat = 0xF0 + n / 262144 :=
          toNat_ofNat_byte (by omega)
        have hx : (UInt8.ofNat (0x80 + n / 4096 % 64)).toNat = 0x80 + n / 4096 % 64 :=
          toNat_ofNat_byte (by omega)
        refine ⟨_, [_, _, _], rfl, ?_⟩
        rw [List.cons_append, List.cons_append, List.cons_append, firstUnit_four _ _ _ _ _
          (by omega) (by omega) (by omega) (by omega) (by omega) (by omega), ha, low, low, low, hx,
          hy, hz, show (0xF0 + n / 262144) % 8 * 262144 + (0x80 + n / 4096 % 64) % 64 * 4096 +
            (0x80 + n / 64 % 64) % 64 * 64 + (0x80 + n % 64) % 64 = n by omega, hc]
        rfl

theorem unitsAfter_encodeChar (found : List (Option Char)) (c : Char) (r : Bytes) :
    unitsAfter found (encodeChar c ++ r) = unitsAfter (some c :: found) r := by
  obtain ⟨a, s, hc, hu⟩ := firstUnit_encodeChar c r
  rw [hc, List.cons_append, unitsAfter, hu]
  simp

theorem unitsAfter_encode (found : List (Option Char)) (cs : List Char) (r : Bytes) :
    unitsAfter found (cs.flatMap encodeChar ++ r) =
      unitsAfter ((cs.map some).reverse ++ found) r := by
  induction cs generalizing found with
  | nil => rfl
  | cons c cs ih =>
    rw [List.flatMap_cons, List.append_assoc, unitsAfter_encodeChar, ih]
    simp

/-- The units of a text's bytes are its characters. -/
theorem units_encode (s : String) : units (encode s) = s.toList.map some := by
  have h := unitsAfter_encode [] s.toList []
  rw [List.append_nil] at h
  rw [units, encode, h, unitsAfter]
  simp

theorem decodeLossy_encode (s : String) : decodeLossy (encode s) = s := by
  rw [decodeLossy, units_encode, List.map_map]
  simp [Function.comp_def]

/-! Any bytes, read as text. -/

theorem unitsAfter_append (found earlier : List (Option Char)) (b : Bytes) :
    unitsAfter (found ++ earlier) b = earlier.reverse ++ unitsAfter found b := by
  fun_induction unitsAfter found b with
  | case1 found => rw [unitsAfter, List.reverse_append]
  | case2 found a rest u ih =>
    rw [unitsAfter]
    exact ih

theorem units_cons (a : UInt8) (rest : Bytes) :
    units (a :: rest) = (firstUnit a rest).1 :: units (rest.drop (firstUnit a rest).2) := by
  rw [units, unitsAfter]
  exact unitsAfter_append [] [_] _

/-- Induction on the units of a byte string. -/
@[elab_as_elim]
theorem unitsInduction {P : Bytes → Prop} (nil : P [])
    (cons : ∀ a rest, P (rest.drop (firstUnit a rest).2) → P (a :: rest)) (b : Bytes) : P b := by
  induction hlen : b.length using Nat.strongRecOn generalizing b with
  | ind n ih =>
    cases b with
    | nil => exact nil
    | cons a rest =>
      rw [List.length_cons] at hlen
      exact cons a rest (ih _ (by rw [List.length_drop]; omega) _ rfl)

/-- The bytes of a lossy reading, unit by unit. -/
theorem encode_decodeLossy (b : Bytes) :
    encode (decodeLossy b) = (units b).flatMap fun u => encodeChar (u.getD replacement) := by
  rw [encode, decodeLossy, String.toList_ofList, List.flatMap_map]

/-- A byte of ASCII stands for its own character only. -/
theorem toNat_of_mem_encodeChar {c : Char} {b : UInt8} (hb : b.toNat < 0x80)
    (h : b ∈ encodeChar c) : c.toNat = b.toNat := by
  have hv := toNat_valid c
  simp only [encodeChar] at h
  split at h
  · simp only [List.mem_singleton, ← UInt8.toNat_inj, UInt8.toNat_ofNat'] at h
    omega
  · split at h
    · simp only [List.mem_cons, List.not_mem_nil, or_false, ← UInt8.toNat_inj,
        UInt8.toNat_ofNat'] at h
      omega
    · split at h
      all_goals
        simp only [List.mem_cons, List.not_mem_nil, or_false, ← UInt8.toNat_inj,
          UInt8.toNat_ofNat'] at h
        omega

theorem zero_not_mem_encodeChar {c : Char} (h : c.toNat ≠ 0) : 0 ∉ encodeChar c :=
  fun hm => h (toNat_of_mem_encodeChar (by decide) hm)

theorem encodeChar_ofNat {n : Nat} (h : n < 0x80) : encodeChar (Char.ofNat n) = [UInt8.ofNat n] := by
  simp only [encodeChar, toNat_ofNat (n := n) (by omega), if_pos h]

theorem width_le (c : Char) : width c ≤ 4 := by
  simp only [width]
  repeat' split
  all_goals omega

/-- One unit makes at most three bytes out of each that it takes, and no NUL byte of its own. -/
theorem firstUnit_bound (a : UInt8) (rest : Bytes) :
    (firstUnit a rest).2 ≤ rest.length ∧
    width ((firstUnit a rest).1.getD replacement) ≤ 3 * ((firstUnit a rest).2 + 1) ∧
    (a ≠ 0 → ((firstUnit a rest).1.getD replacement).toNat ≠ 0) := by
  rcases firstUnit_cases a rest with ⟨ha, hu⟩ | ⟨n, k, hu, hlow, hn, hk, hk'⟩ | ⟨k, hu, hk⟩
  · have hc := toNat_ofNat (n := a.toNat) (by omega)
    rw [hu]
    refine ⟨Nat.zero_le _, ?_, ?_⟩
    · simp only [Option.getD_some, width, hc, if_pos ha]
      omega
    · intro hne
      simp only [Option.getD_some, hc]
      exact fun h => hne (UInt8.toNat_inj.mp h)
  · have hc := toNat_ofNat hn
    rw [hu]
    refine ⟨hk', ?_, fun _ => by simp only [Option.getD_some, hc]; omega⟩
    have := width_le (Char.ofNat n)
    simp only [Option.getD_some]
    omega
  · rw [hu]
    have hr : replacement.toNat ≠ 0 := by decide
    refine ⟨hk, ?_, fun _ => hr⟩
    have : width replacement = 3 := by decide
    simp only [Option.getD_none]
    omega

theorem length_encode_decodeLossy_le (b : Bytes) :
    (encode (decodeLossy b)).length ≤ 3 * b.length := by
  rw [encode_decodeLossy]
  induction b using unitsInduction with
  | nil => simp [units, unitsAfter]
  | cons a rest ih =>
    obtain ⟨hk, hw, -⟩ := firstUnit_bound a rest
    rw [List.length_drop] at ih
    rw [units_cons, List.flatMap_cons, List.length_append, length_encodeChar, List.length_cons]
    omega

theorem zero_not_mem_encode_decodeLossy (b : Bytes) (h : 0 ∉ b) :
    0 ∉ encode (decodeLossy b) := by
  rw [encode_decodeLossy]
  induction b using unitsInduction with
  | nil => simp [units, unitsAfter]
  | cons a rest ih =>
    obtain ⟨-, -, hz⟩ := firstUnit_bound a rest
    rw [units_cons, List.flatMap_cons, List.mem_append]
    rintro (hm | hm)
    · exact zero_not_mem_encodeChar (hz fun ha => h (by simp [ha])) hm
    · exact ih (fun hm => h (List.mem_cons_of_mem _ (List.mem_of_mem_drop hm))) hm

theorem decode?_encode (s : String) : decode? (encode s) = some s := by
  rw [decode?, units_encode]
  simp

theorem encode_inj {s t : String} : encode s = encode t ↔ s = t := by
  constructor
  · intro h
    have hdecoded := decode?_encode s
    rw [h, decode?_encode] at hdecoded
    exact (Option.some.inj hdecoded).symm
  · rintro rfl
    rfl

theorem encode_eq_nil_iff {s : String} : encode s = [] ↔ s = "" :=
  encode_inj (t := "")

end SelfExtract.Utf8
