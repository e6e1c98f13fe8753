import SelfExtract.Zstandard.CodeTable

/-!
# Streams of coded literals

Literals are coded in one stream or in four, which give a quarter each. One
stream, or four short ones, must be used up to the last bit. Four long ones
take turns, and their ends are not looked at: a stream that lacks bits goes on
with the bytes before it.
-/
namespace SelfExtract.Zstandard.CodeTable

/-- The last symbol of a stream. A pair gives its first symbol only, and what its code takes beyond
the end is forgiven; with no bits left the look goes to the eight bytes at the start. -/
def lastSymbol? (t : CodeTable) (bits : BackwardBits) : Option (UInt8 × BackwardBits) :=
  if bits.left = 0 then
    let l := t.look { bits with left := 64 }
    if l.second.isSome then some (l.first, bits) else none
  else
    let l := t.look bits
    if l.second.isSome then some (l.first, { bits with left := bits.left - l.bits })
    else if bits.left < l.bits then none
    else some (l.first, bits.skip l.bits)

/-- Decodes `count` symbols. -/
def decodeSymbols (t : CodeTable) :
    Nat → BackwardBits → ByteArray → Option (BackwardBits × ByteArray)
  | 0, bits, out => some (bits, out)
  | 1, bits, out => (t.lastSymbol? bits).map fun (symbol, bits) => (bits, out.push symbol)
  | count + 2, bits, out =>
    let l := t.look bits
    if bits.left < l.bits then none
    else
      match l.second with
      | some second =>
        decodeSymbols t count (bits.skip l.bits) ((out.push l.first).push second)
      | none => decodeSymbols t (count + 1) (bits.skip l.bits) (out.push l.first)

/-- Decodes a stream of `count` symbols that uses up all of its bits. -/
def decodeStream? (t : CodeTable) (data : ByteArray) (count : Nat) (out : ByteArray) :
    Option ByteArray := do
  if data.size = 0 then none
  let bits ← BackwardBits.of? data
  let (bits, out) ← decodeSymbols t count bits out
  if bits.isExhausted then some out else none

structure Lane where
  bits : BackwardBits
  /-- The symbols that it still has to give. -/
  lacking : Nat
  out : ByteArray

namespace Lane

/-- The stream of `count` symbols that ends before byte `stop`. -/
def start (data : ByteArray) (stop count : Nat) : Lane :=
  ⟨BackwardBits.openAt data stop, count, ByteArray.empty⟩

/-- The stream after a look. -/
def step (t : CodeTable) (l : Lane) : Lane :=
  let seen := t.look l.bits
  match seen.second with
  | some second =>
    ⟨l.bits.skip seen.bits, l.lacking - 2, (l.out.push seen.first).push second⟩
  | none => ⟨l.bits.skip seen.bits, l.lacking - 1, l.out.push seen.first⟩

/-- The stream after a turn of five looks. -/
def turn (t : CodeTable) (l : Lane) : Lane :=
  ((((l.step t).step t).step t).step t).step t

/-- A turn of the stream cannot give more symbols than it lacks. -/
def hasRoom (t : CodeTable) (l : Lane) : Bool :=
  (if t.pairs then 10 else 5) ≤ l.lacking

end Lane

structure Lanes where
  first : Lane
  second : Lane
  third : Lane
  fourth : Lane

/-- The streams take turns, at most `turns` times, as long as none can give too much and the first
one has fourteen bytes left, the lengths before it counting as its own. -/
def inTurns (t : CodeTable) : Nat → Lanes → Lanes
  | 0, l => l
  | turns + 1, l =>
    if 112 < l.first.bits.left && l.first.hasRoom t && l.second.hasRoom t && l.third.hasRoom t &&
        l.fourth.hasRoom t then
      inTurns t turns ⟨l.first.turn t, l.second.turn t, l.third.turn t, l.fourth.turn t⟩
    else l

/-- Decodes `count` symbols of a bit string that goes on with its first eight bytes again when it is
used up. -/
def decodeCyclic (t : CodeTable) : Nat → BackwardBits → ByteArray → ByteArray
  | 0, _, out => out
  | 1, bits, out => out.push (t.look bits).first
  | count + 2, bits, out =>
    let l := t.look bits
    match l.second with
    | some second =>
      decodeCyclic t count (bits.skipCyclic l.bits) ((out.push l.first).push second)
    | none => decodeCyclic t (count + 1) (bits.skipCyclic l.bits) (out.push l.first)

/-- All symbols of a stream that begins at byte `start`. What the stream leaves over is not noticed.
What it lacks is taken from the bytes before it, of which the turns must not use a whole one. -/
def Lane.finish? (t : CodeTable) (start : Nat) (l : Lane) : Option ByteArray :=
  if l.bits.left + 8 ≤ 8 * start then none else some (decodeCyclic t l.lacking l.bits l.out)

/-- Decodes four streams behind the lengths of the first three. They are long when each has eight
bytes; codes of the greatest length are decoded as in short ones. -/
def decodeFour? (t : CodeTable) (data : ByteArray) (count : Nat) : Option ByteArray := do
  if data.size < 10 || count < 6 then none
  let a := 6 + numberAt data 0 2
  let b := a + numberAt data 2 2
  let c := b + numberAt data 4 2
  let quarter := (count + 3) / 4
  let last := count - 3 * quarter
  if data.size < c || count < 3 * quarter then none
  let long := 14 ≤ a ∧ a + 8 ≤ b ∧ b + 8 ≤ c ∧ c + 8 ≤ data.size
  if t.log < maxCodeLength ∧ 0 < last ∧ long then
    let l := t.inTurns (count / 20) ⟨.start data a quarter, .start data b quarter,
      .start data c quarter, .start data data.size last⟩
    let first ← l.first.finish? t 6
    let second ← l.second.finish? t a
    let third ← l.third.finish? t b
    let fourth ← l.fourth.finish? t c
    return first ++ second ++ third ++ fourth
  else
    let out ← t.decodeStream? (data.extract 6 a) quarter ByteArray.empty
    let out ← t.decodeStream? (data.extract a b) quarter out
    let out ← t.decodeStream? (data.extract b c) quarter out
    t.decodeStream? (data.extract c data.size) last out

end SelfExtract.Zstandard.CodeTable
