import Mathlib.Data.List.Basic
import Mathlib.Data.List.Induction
import SelfExtract.AtomicWrite
import SelfExtract.Proofs.CacheKey

/-!
# The names of joined paths

A file name behind a path is one more name, and leaves open or closed whether
the path begins at the root. Cache keys and the names in an entry are such
names.
-/
namespace SelfExtract

namespace Path

/-- Different texts are different paths. -/
theorem ofString_inj {s t : String} (h : ofString s = ofString t) : s = t :=
  Utf8.encode_inj.mp h

theorem names_append_slash (p q : Path) : names (p ++ slash :: q) = names p ++ names q := by
  rw [names, List.splitOn_append_cons_self, List.filter_append]
  rfl

theorem names_nil : names [] = [] :=
  rfl

theorem names_of_no_slash {name : Bytes} (hne : name ≠ []) (hslash : slash ∉ name) :
    names name = [name] := by
  rw [names, List.splitOn_eq_singleton hslash]
  simp [hne]

/-- What stands behind a slash has names of its own. -/
theorem names_append {front : Path} (hfront : (front.isEmpty || front.asksForDirectory) = true)
    (q : Path) : names (front ++ q) = names front ++ names q := by
  rw [Bool.or_eq_true, List.isEmpty_iff] at hfront
  rcases hfront with rfl | hend
  · rfl
  · obtain ⟨init, rfl⟩ : ∃ init, front = init ++ [slash] := by
      rw [asksForDirectory, beq_iff_eq, List.getLast?_eq_some_iff] at hend
      exact hend
    rw [List.append_assoc, List.singleton_append, names_append_slash, names_append_slash,
      names_nil, List.append_nil]

/-- A path is what stands up to its last slash, and behind it. -/
theorem exists_last (p : Path) : ∃ front name : Path,
    (front.isEmpty || front.asksForDirectory) = true ∧ p = front ++ name ∧ slash ∉ name := by
  induction p using List.reverseRecOn with
  | nil => exact ⟨[], [], rfl, rfl, List.not_mem_nil⟩
  | append_singleton p b ih =>
    by_cases hb : b = slash
    · exact ⟨p ++ [b], [], by simp [asksForDirectory, hb], by simp, List.not_mem_nil⟩
    · obtain ⟨front, name, hfront, rfl, hslash⟩ := ih
      exact ⟨front, name ++ [b], hfront, List.append_assoc front name [b],
        by simp [hslash, Ne.symm hb]⟩

structure FileName (name : Bytes) : Prop where
  not_empty : name ≠ []
  no_slash : slash ∉ name
  no_nul : 0 ∉ name
  not_dot : name ≠ dot
  not_dotDot : name ≠ dotDot

namespace FileName

variable {name : Bytes}

theorem names (h : FileName name) : Path.names name = [name] :=
  names_of_no_slash h.not_empty h.no_slash

theorem not_absolute (h : FileName name) : isAbsolute name = false := by
  cases name with
  | nil => rfl
  | cons b r =>
    have hb : b ≠ slash := fun hb => h.no_slash (hb ▸ List.mem_cons_self)
    simp [isAbsolute, hb]

/-- More bytes of an ordinary kind behind a name, as long as it does not become the directory
above. -/
theorem append {rest : Bytes} (h : FileName name) (hslash : slash ∉ rest) (hnul : 0 ∉ rest)
    (hlen : 2 < (name ++ rest).length) : FileName (name ++ rest) where
  not_empty := List.append_ne_nil_of_left_ne_nil h.not_empty rest
  no_slash := by simp [h.no_slash, hslash]
  no_nul := by simp [h.no_nul, hnul]
  not_dot := fun heq => by simp [heq, dot] at hlen
  not_dotDot := fun heq => by simp [heq, dotDot] at hlen

/-- A file behind a path does not ask for a directory. -/
theorem asksForDirectory_append (h : FileName name) (p : Path) :
    asksForDirectory (p ++ name) = false := by
  obtain ⟨init, last, rfl⟩ : ∃ init last, name = init ++ [last] :=
    ⟨_, _, (List.dropLast_concat_getLast h.not_empty).symm⟩
  have hlast : last ≠ slash := by
    rintro rfl
    exact h.no_slash (by simp)
  simp [asksForDirectory, ← List.append_assoc, hlast]

end FileName

section Join

variable {q : Path}

/-- What stands in front of a path that is joined depends on the directory only. -/
theorem join_eq_append (root : Path) :
    ∃ front, ∀ q : Path, q.isAbsolute = false → root.join q = front ++ q := by
  by_cases hend : root.isEmpty || root.asksForDirectory
  · refine ⟨root, fun q hq => ?_⟩
    rw [join, if_neg (by simp [hq]), if_pos hend]
  · refine ⟨root ++ [slash], fun q hq => ?_⟩
    rw [join, if_neg (by simp [hq]), if_neg hend, List.append_assoc, List.singleton_append]

theorem names_join (root : Path) (hq : q.isAbsolute = false) :
    (root.join q).names = root.names ++ q.names := by
  rw [join, if_neg (by simp [hq])]
  split
  · next hend => exact names_append hend q
  · exact names_append_slash root q

theorem isAbsolute_join (root : Path) (hq : q.isAbsolute = false) :
    (root.join q).isAbsolute = root.isAbsolute := by
  rw [join, if_neg (by simp [hq])]
  cases root with
  | nil => simpa [isAbsolute] using hq
  | cons b r =>
    split
    · simp [isAbsolute]
    · simp [isAbsolute]

/-- A file in a directory that is named by a path with a last name. -/
theorem join_of_not_asks {p : Path} (hp : p ≠ []) (hasks : p.asksForDirectory = false)
    (hq : q.isAbsolute = false) : p.join q = p ++ slash :: q := by
  rw [join, if_neg (by simp [hq]), if_neg (by simp [hp, hasks])]

end Join

structure LastName (p : Path) (name : Bytes) : Prop where
  file : FileName name
  split : ∃ front : Path, (front.isEmpty || front.asksForDirectory) = true ∧ p = front ++ name

namespace LastName

variable {p : Path} {name : Bytes}

theorem names (h : LastName p name) : ∃ front, p.names = front ++ [name] := by
  obtain ⟨front, hfront, rfl⟩ := h.split
  exact ⟨front.names, by rw [names_append hfront, h.file.names]⟩

theorem asksForDirectory (h : LastName p name) : p.asksForDirectory = false := by
  obtain ⟨front, -, rfl⟩ := h.split
  exact h.file.asksForDirectory_append front

theorem unique {name' : Bytes} (h : LastName p name) (h' : LastName p name') : name = name' := by
  obtain ⟨front, hnames⟩ := h.names
  obtain ⟨front', hnames'⟩ := h'.names
  rw [hnames] at hnames'
  exact List.singleton_inj.mp (List.append_inj' hnames' rfl).2

theorem join (p : Path) (h : FileName name) : LastName (p.join name) name := by
  refine ⟨h, ?_⟩
  rw [Path.join, if_neg (by simp [h.not_absolute])]
  split
  · next hend => exact ⟨p, hend, rfl⟩
  · exact ⟨p ++ [slash], by simp [Path.asksForDirectory], by simp⟩

end LastName

end Path

section Key

variable {key : Bytes}

theorem toNat_of_isDigitByte {b : UInt8} (h : Hex.isDigitByte b = true) :
    0x2F < b.toNat ∧ b.toNat < 0x80 := by
  simp only [Hex.isDigitByte, Bool.or_eq_true, Bool.and_eq_true, decide_eq_true_eq,
    UInt8.le_iff_toNat_le] at h
  simp only [UInt8.reduceToNat] at h
  omega

theorem toNat_of_mem_key (h : isCacheKey key = true) {b : UInt8} (hb : b ∈ key) :
    0x2F < b.toNat ∧ b.toNat < 0x80 := by
  rw [isCacheKey, Bool.and_eq_true, List.all_eq_true] at h
  exact toNat_of_isDigitByte (h.2 b hb)

theorem length_of_isCacheKey (h : isCacheKey key = true) : key.length = keyLength := by
  rw [isCacheKey, Bool.and_eq_true, beq_iff_eq] at h
  exact h.1

/-- A cache key is the name of a directory. -/
theorem fileName_of_isCacheKey (h : isCacheKey key = true) : Path.FileName key := by
  have hlen := length_of_isCacheKey h
  refine ⟨?_, ?_, ?_, ?_, ?_⟩
  · rintro rfl
    cases hlen
  · intro hb
    exact absurd (toNat_of_mem_key h hb).1 (by decide)
  · intro hb
    exact absurd (toNat_of_mem_key h hb).1 (by decide)
  · rintro rfl
    cases hlen
  · rintro rfl
    cases hlen

/-- The text of an admitted key is the key as it is stored. -/
theorem Metadata.encode_keyText {m : Metadata} (h : isCacheKey m.key = true) :
    Utf8.encode m.keyText = m.key :=
  Utf8.encode_decode?_of_ascii fun _ hb => (toNat_of_mem_key h hb).2

end Key

/-- A number is written in digits. -/
theorem toNat_of_mem_toString {n : Nat} {b : UInt8} (h : b ∈ Utf8.encode (toString n)) :
    48 ≤ b.toNat ∧ b.toNat ≤ 57 := by
  rw [Utf8.encode, List.mem_flatMap] at h
  obtain ⟨c, hc, hb⟩ := h
  rw [Nat.toString_eq_repr, Nat.repr_eq_ofList_toDigits, String.toList_ofList] at hc
  have hdigit : 48 ≤ c.toNat ∧ c.toNat ≤ 57 :=
    Char.isDigit_iff_toNat.mp (Nat.isDigit_of_mem_toDigits (by decide) (by decide) hc)
  rw [← Char.ofNat_toNat c, Utf8.encodeChar_ofNat (by omega), List.mem_singleton] at hb
  rw [hb, Utf8.toNat_ofNat_byte (by omega)]
  exact hdigit

/-- What is put behind the name of a file ends in a dot and the number of the process. -/
theorem temporary_eq (pid : Nat) (name : Bytes) : Proc.temporary pid name =
    name ++ Path.ofString ".tmp" ++ 0x2E :: Utf8.encode (toString pid) := by
  have hdot : Utf8.encode ".tmp." = Path.ofString ".tmp" ++ [0x2E] := by decide
  rw [Proc.temporary, Path.ofString, Utf8.encode, String.toList_append, List.flatMap_append,
    ← Utf8.encode, hdot, ← Utf8.encode]
  simp [List.append_assoc]

/-- It holds no slash and no NUL byte. -/
theorem not_mem_temporary (pid : Nat) {b : UInt8} (hb : b = Path.slash ∨ b = 0) :
    b ∉ Path.ofString (".tmp." ++ toString pid) := by
  have hself := temporary_eq pid []
  rw [Proc.temporary, List.nil_append, List.nil_append] at hself
  rw [hself, List.mem_append, List.mem_cons]
  rintro (h | h | h)
  · rcases hb with rfl | rfl
    · exact absurd h (by decide)
    · exact absurd h (by decide)
  · rcases hb with rfl | rfl
    · exact absurd h (by decide)
    · exact absurd h (by decide)
  · have hdigit := (toNat_of_mem_toString h).1
    have hb47 : b.toNat ≤ 47 := by rcases hb with rfl | rfl <;> decide
    omega

/-- Names that do not end in a digit are not those of temporary files. -/
theorem ne_temporary_of_last {last : Bytes} {b : UInt8} (hlast : last.getLast? = some b)
    (hb : 57 < b.toNat) (pid : Nat) (name : Bytes) : last ≠ Proc.temporary pid name := by
  intro h
  have hne : Utf8.encode (toString pid) ≠ [] := by
    rw [Ne, Utf8.encode_eq_nil_iff, Nat.toString_eq_repr]
    exact Nat.repr_ne_empty
  rw [h, temporary_eq, List.getLast?_append_of_ne_nil _ (List.cons_ne_nil _ _),
    List.getLast?_cons_of_ne_nil hne] at hlast
  have := (toNat_of_mem_toString (List.mem_of_getLast? hlast)).2
  omega

theorem length_temporary (pid : Nat) (name : Bytes) :
    name.length + 5 ≤ (Proc.temporary pid name).length := by
  rw [Proc.temporary, Path.ofString, Utf8.encode, String.toList_append, List.flatMap_append,
    List.length_append, List.length_append]
  exact Nat.add_le_add_left (Nat.le_add_right 5 _) _

theorem ne_temporary (pid : Nat) (name : Bytes) : name ≠ Proc.temporary pid name := by
  intro h
  have hlen := length_temporary pid name
  rw [← h] at hlen
  omega

/-- The name of a temporary file is one that a directory can hold. -/
theorem fileName_temporary (pid : Nat) {name : Bytes} (h : Path.FileName name) :
    Path.FileName (Proc.temporary pid name) := by
  refine h.append (not_mem_temporary pid (.inl rfl)) (not_mem_temporary pid (.inr rfl)) ?_
  have hlen := length_temporary pid name
  rw [Proc.temporary] at hlen
  omega

theorem Path.LastName.temporary {p : Path} {name : Bytes} (pid : Nat) (h : Path.LastName p name) :
    Path.LastName (Proc.temporary pid p) (Proc.temporary pid name) := by
  obtain ⟨front, hfront, rfl⟩ := h.split
  exact ⟨fileName_temporary pid h.file, front, hfront, List.append_assoc front name _⟩

end SelfExtract
