import SelfExtract.Proofs.Utf8
import SelfExtract.Settings

/-!
# Records have one size

Whatever its texts are, the written form of a record has the size of its
layout: a text that is cut to a limit takes no more bytes than that.
-/
namespace SelfExtract

namespace Utf8

/-- The bytes that a list of characters takes. -/
theorem length_flatMap_encodeChar_fitting (limit : Nat) (cs : List Char) :
    ((fitting limit cs).flatMap encodeChar).length ≤ limit := by
  induction cs generalizing limit with
  | nil => simp [fitting]
  | cons c r ih =>
    rw [fitting]
    by_cases h : width c ≤ limit
    · have hr := ih (limit - width c)
      rw [if_pos h, List.flatMap_cons, List.length_append, length_encodeChar]
      omega
    · rw [if_neg h]
      simp

theorem length_encode_truncate (limit : Nat) (s : String) :
    (encode (truncate limit s)).length ≤ limit := by
  rw [encode, truncate, String.toList_ofList]
  exact length_flatMap_encodeChar_fitting limit s.toList

end Utf8

namespace Record

/-- A field takes the same number of bytes whatever its text is. -/
theorem Field.length_encode (f : Field) (text : String) : (f.encode text).length = f.size := by
  have h := Utf8.length_encode_truncate f.limit text
  simp only [Field.encode, Field.size, List.length_append, Bytes.length_ofNatLE,
    List.length_replicate]
  omega

theorem Layout.length_encodeFields (fs : List Field) (ts : List String)
    (h : ts.length = fs.length) : (Layout.encodeFields fs ts).length = Layout.fieldsSize fs := by
  induction fs generalizing ts with
  | nil => cases ts <;> rfl
  | cons f fs ih =>
    cases ts with
    | nil => simp at h
    | cons t ts =>
      rw [Layout.encodeFields, Layout.fieldsSize, List.length_append, Field.length_encode,
        ih ts (by simpa using h)]

theorem Layout.length_encode (l : Layout) (header : Bytes) (texts : List String)
    (hh : header.length = l.headerSize) (ht : texts.length = l.fields.length) :
    (l.encode header texts).length = l.size := by
  simp only [Layout.encode, List.length_append, Bytes.length_ofNatLE,
    Layout.length_encodeFields l.fields texts ht, Layout.size, hh]

end Record

/-- The record of some settings has the size that readers of their kind expect. -/
theorem Settings.length_encode (s : Settings) : s.encode.length = s.kind.layout.size := by
  cases s with
  | update u =>
    apply Record.Layout.length_encode
    · simp [UpdateSettings.header, UpdateSettings.layout]
    · rfl
  | vfs v => exact Record.Layout.length_encode _ _ _ rfl rfl

end SelfExtract
