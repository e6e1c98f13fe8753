import SelfExtract.Codec
import SelfExtract.Zstandard.Store

/-!
# Expanding gives the expected bytes or nothing

A decoder is taken for one stream of bytes that ends or breaks off at some
place, whatever portions are asked for. Collecting stops one byte behind the
expected end, so that nothing which comes later is noticed, and data are
accepted for one size only: that of the whole stream.
-/
namespace SelfExtract

namespace Source

/-- From this state on a source gives one stream of bytes, and then it ends or fails. The portions
may be of any sizes that are asked for, but none is empty before the stream is over. -/
inductive Follows (s : Source) (failure : Option String) : s.State → Bytes → Prop
  | ended {state : s.State} : failure = none →
      (∀ n, 0 < n → ∃ after, s.next n state = .ok ([], after)) → Follows s failure state []
  | failed {state : s.State} {reason : String} : failure = some reason →
      (∀ n, 0 < n → s.next n state = .error reason) → Follows s failure state []
  | more {state : s.State} {bytes : Bytes} : bytes ≠ [] →
      (∀ n, 0 < n → ∃ piece after, s.next n state = .ok (piece, after) ∧ piece ≠ [] ∧
        piece.length ≤ n ∧ piece <+: bytes) →
      (∀ n piece after, 0 < n → s.next n state = .ok (piece, after) →
        Follows s failure after (bytes.drop piece.length)) →
      Follows s failure state bytes

variable {s : Source} {failure : Option String} {state : s.State} {bytes : Bytes}
  {expected got portion : Nat}

/-- Something is asked for until the byte behind the expected end is there, and nothing beyond. -/
theorem request_bounds (hgot : got ≤ expected) (hportion : 0 < portion) :
    0 < request expected got portion ∧ request expected got portion ≤ expected + 1 - got := by
  rw [request, lastFew]
  split
  · omega
  · omega

theorem nextPortion_pos (asked given : Nat) (hportion : 0 < portion) :
    0 < nextPortion portion asked given := by
  rw [nextPortion]
  split
  · omega
  · exact hportion

/-- What is collected of a stream, from where `got` bytes of it are there. -/
theorem collectFrom_of_follows (h : s.Follows failure state bytes) (hgot : got ≤ expected)
    (hportion : 0 < portion) :
    s.collectFrom expected got portion state =
      if expected < got + bytes.length then .ok (bytes.take (expected + 1 - got))
      else failure.elim (.ok bytes) .error := by
  induction h generalizing got portion with
  | ended hnone hover =>
    obtain ⟨after, hnext⟩ := hover _ (request_bounds hgot hportion).1
    rw [collectFrom, if_neg (Nat.not_lt_of_le hgot), if_neg (by simpa using hgot), hnext, hnone]
    rfl
  | failed hsome hover =>
    rw [collectFrom, if_neg (Nat.not_lt_of_le hgot), if_neg (by simpa using hgot),
      hover _ (request_bounds hgot hportion).1, hsome]
    rfl
  | @more state bytes _ hnext _ ih =>
    obtain ⟨hpos, hle⟩ := request_bounds hgot hportion
    obtain ⟨piece, after, hgives, hne, hroom, rest, rfl⟩ := hnext _ hpos
    have hrest := @ih _ piece after hpos hgives
    rw [List.drop_left] at hrest
    obtain ⟨b, r, rfl⟩ := List.exists_cons_of_ne_nil hne
    rw [collectFrom, if_neg (Nat.not_lt_of_le hgot), hgives]
    simp only [List.length_cons, List.length_append] at hroom ⊢
    by_cases hlater : got + (r.length + 1) ≤ expected
    · -- the byte behind the expected end is still to come
      rw [hrest hlater (nextPortion_pos _ _ hportion)]
      have htake : (b :: r ++ rest).take (expected + 1 - got) =
          b :: r ++ rest.take (expected + 1 - (got + (r.length + 1))) := by
        rw [List.take_append, List.take_of_length_le (by simp; omega), List.length_cons]
        congr 2
        omega
      rw [htake, Nat.add_assoc]
      split
      · rfl
      · cases failure with
        | none => rfl
        | some reason => rfl
    · have hall : expected + 1 - got = (b :: r).length := by
        rw [List.length_cons]
        omega
      rw [collectFrom, if_pos (by omega), if_pos (by omega), hall, List.take_left]
      simp [Except.map]

theorem collect_of_follows (h : s.Follows failure s.start bytes) (expected : Nat) :
    s.collect expected =
      if expected < bytes.length then .ok (bytes.take (expected + 1))
      else failure.elim (.ok bytes) .error := by
  rw [collect, collectFrom_of_follows h (Nat.zero_le _) (by decide), Nat.zero_add, Nat.sub_zero]

end Source

structure Stream where
  bytes : Bytes
  failure : Option String

namespace Codec

variable {decode : Bytes → Source} {stream : Stream} {data out : Bytes} {expected : Nat}

/-- What comes of data that are read as a stream. -/
theorem expandWith_of_follows (hdata : data ≠ []) (hexpected : expected ≠ 0)
    (hlimit : expected < addressSpace)
    (h : (decode data).Follows stream.failure (decode data).start stream.bytes) :
    expandWith decode data expected =
      if expected < stream.bytes.length then .error (.wrongSize expected expected true)
      else stream.failure.elim
        (if stream.bytes.length = expected then .ok stream.bytes
        else .error (.wrongSize expected stream.bytes.length false))
        fun reason => .error (.decoder reason) := by
  rw [expandWith, if_neg (by simpa using hdata), if_neg hexpected,
    if_neg (Nat.not_le_of_lt hlimit), collect, Source.collect_of_follows h]
  by_cases hmore : expected < stream.bytes.length
  · have hlen : (stream.bytes.take (expected + 1)).length = expected + 1 := by
      rw [List.length_take]
      omega
    simp [hmore, hlen]
  · rw [if_neg hmore, if_neg hmore]
    cases stream.failure with
    | some reason => rfl
    | none =>
      simp only [Option.elim_none]
      split
      · rfl
      · simp [Nat.min_eq_left (Nat.le_of_not_lt hmore), hmore]

theorem message_tooLong (expected got : Nat) :
    (CodecFault.wrongSize expected got true).message =
      "decompression failed: size mismatch: expected " ++ toString expected ++ " bytes, got " ++
        toString got ++ "+" := by
  delta CodecFault.message
  dsimp only
  rw [if_pos rfl]

theorem message_tooShort (expected got : Nat) :
    (CodecFault.wrongSize expected got false).message =
      "decompression failed: size mismatch: expected " ++ toString expected ++ " bytes, got " ++
        toString got := by
  delta CodecFault.message
  dsimp only
  rw [if_neg Bool.false_ne_true, String.append_empty]

/-- Data are expanded when they are one whole stream of the expected size. More bytes are noticed by
the first of them, whatever comes behind it, and fewer by their number. Any other failure is the
decoder's, with the text that it gives. -/
theorem expands_to_exact_size (hlimit : expected < addressSpace)
    (h : (decode data).Follows stream.failure (decode data).start stream.bytes) :
    (∀ out, expandWith decode data expected = .ok out ↔
      data ≠ [] ∧ expected ≠ 0 ∧ stream.failure = none ∧ stream.bytes.length = expected ∧
        out = stream.bytes) ∧
    (data ≠ [] → expected ≠ 0 → expected < stream.bytes.length →
      ∃ e, expandWith decode data expected = .error e ∧ e = .wrongSize expected expected true ∧
        e.message = "decompression failed: size mismatch: expected " ++ toString expected ++
          " bytes, got " ++ toString expected ++ "+") ∧
    (data ≠ [] → stream.bytes.length < expected → stream.failure = none →
      ∃ e, expandWith decode data expected = .error e ∧
        e = .wrongSize expected stream.bytes.length false ∧
        e.message = "decompression failed: size mismatch: expected " ++ toString expected ++
          " bytes, got " ++ toString stream.bytes.length) ∧
    (∀ other out out', expandWith decode data expected = .ok out →
      expandWith decode data other = .ok out' → other = expected ∧ out' = out) ∧
    (∀ out, expandWith decode data expected = .ok out → out.length ≤ expected) ∧
    ∀ reason, data ≠ [] → expected ≠ 0 → stream.bytes.length ≤ expected →
      stream.failure = some reason →
      expandWith decode data expected = .error (.decoder reason) := by
  have hok : ∀ {n out}, n < addressSpace → (expandWith decode data n = .ok out ↔
      data ≠ [] ∧ n ≠ 0 ∧ stream.failure = none ∧ stream.bytes.length = n ∧
        out = stream.bytes) := by
    intro n out hn
    by_cases hdata : data = []
    · simp [hdata, expandWith]
    · by_cases hzero : n = 0
      · simp [hzero, hdata, expandWith]
      · rw [expandWith_of_follows hdata hzero hn h]
        cases stream.failure <;> grind
  refine ⟨fun out => hok hlimit, fun hdata hzero hmore => ?_, fun hdata hless hends => ?_,
    fun other out out' hfirst hsecond => ?_, fun out hout => ?_,
    fun reason hdata hzero hle hfails => ?_⟩
  · refine ⟨.wrongSize expected expected true, ?_, rfl, message_tooLong _ _⟩
    rw [expandWith_of_follows hdata hzero hlimit h, if_pos hmore]
  · refine ⟨.wrongSize expected stream.bytes.length false, ?_, rfl, message_tooShort _ _⟩
    rw [expandWith_of_follows hdata (by omega) hlimit h, if_neg (by omega), hends,
      Option.elim_none, if_neg (Nat.ne_of_lt hless)]
  · have hother : other < addressSpace := by
      refine Nat.lt_of_not_le fun hlarge => ?_
      rw [expandWith] at hsecond
      grind
    obtain ⟨-, -, -, hlen, rfl⟩ := (hok hlimit).mp hfirst
    obtain ⟨-, -, -, hlen', rfl⟩ := (hok hother).mp hsecond
    exact ⟨hlen'.symm.trans hlen, rfl⟩
  · obtain ⟨-, -, -, hlen, rfl⟩ := (hok hlimit).mp hout
    exact Nat.le_of_eq hlen
  · rw [expandWith_of_follows hdata hzero hlimit h, if_neg (Nat.not_lt_of_le hle), hfails]
    rfl

end Codec

namespace Stream

/-- A source that gives a stream in portions as large as they are asked for. -/
def source (t : Stream) : Source where
  State := Bytes
  start := t.bytes
  next n left :=
    if left.isEmpty then t.failure.elim (.ok ([], [])) .error
    else .ok (left.take n, left.drop n)

theorem follows_source (t : Stream) (left : Bytes) : t.source.Follows t.failure left left := by
  induction hlen : left.length using Nat.strongRecOn generalizing left with
  | ind k ih =>
    cases left with
    | nil =>
      cases hfailure : t.failure with
      | none => exact .ended rfl fun n _ => ⟨[], by simp [source, hfailure]⟩
      | some reason => exact .failed rfl fun n _ => by simp [source, hfailure]
    | cons b r =>
      refine .more (List.cons_ne_nil b r) (fun n hn => ?_) fun n piece after hn hnext => ?_
      · refine ⟨(b :: r).take n, (b :: r).drop n, rfl, ?_, ?_, List.take_prefix n _⟩
        · simp [Nat.ne_of_gt hn]
        · exact List.length_take_le n _
      · obtain ⟨rfl, rfl⟩ := Prod.mk.inj (Except.ok.inj hnext)
        have hdrop : (b :: r).drop ((b :: r).take n).length = (b :: r).drop n := by
          rw [List.length_take, List.drop_eq_drop_iff]
          omega
        rw [hdrop]
        refine ih _ ?_ _ rfl
        rw [List.length_drop, ← hlen, List.length_cons]
        omega

end Stream

namespace Codec

def twoBytes : Stream :=
  ⟨[1, 2], none⟩

def twoBytesFrame : Bytes :=
  Zstandard.store twoBytes.bytes

/-- A decoder that knows this frame only. -/
def twoBytesDecoder (data : Bytes) : Source :=
  if data = twoBytesFrame then twoBytes.source
  else Stream.source ⟨[], some "Unknown frame descriptor"⟩

/-- Two bytes are expanded when two are expected, and neither when one nor when three are. -/
theorem expands_to_exact_size_two_bytes :
    (twoBytesDecoder twoBytesFrame).Follows twoBytes.failure
      (twoBytesDecoder twoBytesFrame).start twoBytes.bytes ∧
    expandWith twoBytesDecoder twoBytesFrame 2 = .ok [1, 2] ∧
    expandWith twoBytesDecoder twoBytesFrame 1 = .error (.wrongSize 1 1 true) ∧
    expandWith twoBytesDecoder twoBytesFrame 3 = .error (.wrongSize 3 2 false) := by
  have hdata : twoBytesFrame ≠ [] := nofun
  have hfollows : (twoBytesDecoder twoBytesFrame).Follows twoBytes.failure
      (twoBytesDecoder twoBytesFrame).start twoBytes.bytes := by
    rw [twoBytesDecoder, if_pos rfl]
    exact twoBytes.follows_source _
  have hlimit : ∀ n, n ≤ 3 → n < addressSpace := fun n hn => Nat.lt_of_le_of_lt hn (by decide)
  obtain ⟨hok, -⟩ := expands_to_exact_size (hlimit 2 (by decide)) hfollows
  obtain ⟨-, hmore, -⟩ := expands_to_exact_size (hlimit 1 (by decide)) hfollows
  obtain ⟨-, -, hless, -⟩ := expands_to_exact_size (hlimit 3 (by decide)) hfollows
  refine ⟨hfollows, (hok _).mpr ⟨hdata, nofun, rfl, rfl, rfl⟩, ?_, ?_⟩
  · obtain ⟨e, he, rfl, -⟩ := hmore hdata nofun (by decide)
    exact he
  · obtain ⟨e, he, rfl, -⟩ := hless hdata (by decide) rfl
    exact he

end Codec

end SelfExtract
