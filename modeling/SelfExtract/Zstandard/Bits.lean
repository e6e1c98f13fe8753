import SelfExtract.Bytes

/-!
# Bit strings inside byte arrays

Bits are numbered from the low end of the first byte. Entropy-coded streams
are read backward: their last byte carries a mark above the first bit to be
read, and reading proceeds toward the first byte.
-/
namespace SelfExtract.Zstandard

/-- The number of `count` bytes from `start` on, least significant first. -/
def numberAt (b : ByteArray) (start : Nat) : Nat → Nat
  | 0 => 0
  | count + 1 => (byteAt b start).toNat + 256 * numberAt b (start + 1) count

def wordAt (b : ByteArray) (start : Nat) : UInt64 :=
  (byteAt b start).toUInt64 ||| ((byteAt b (start + 1)).toUInt64 <<< 8) |||
    ((byteAt b (start + 2)).toUInt64 <<< 16) ||| ((byteAt b (start + 3)).toUInt64 <<< 24) |||
    ((byteAt b (start + 4)).toUInt64 <<< 32) ||| ((byteAt b (start + 5)).toUInt64 <<< 40) |||
    ((byteAt b (start + 6)).toUInt64 <<< 48) ||| ((byteAt b (start + 7)).toUInt64 <<< 56)

/-- The number in the `count` bits from bit `position` on, for at most 56 bits. -/
def bitsAt (b : ByteArray) (position count : Nat) : Nat :=
  let w := wordAt b (position / 8) >>> (position % 8).toUInt64
  (w &&& (((1 : UInt64) <<< count.toUInt64) - 1)).toNat

structure BackwardBits where
  data : ByteArray
  /-- The number of bits not yet read. -/
  left : Nat
  /-- More bits were asked for than there are. -/
  overrun : Bool

namespace BackwardBits

/-- The bits below the mark in the last byte, which must be there. -/
def of? (data : ByteArray) : Option BackwardBits :=
  let last := byteAt data (data.size - 1)
  if last = 0 then none else some ⟨data, 8 * (data.size - 1) + last.toNat.log2, false⟩

/-- The bits of a byte array below byte `stop`, from under the mark in the byte before it if there
is one. -/
def openAt (data : ByteArray) (stop : Nat) : BackwardBits :=
  let last := byteAt data (stop - 1)
  ⟨data, if last = 0 then 8 * stop else 8 * (stop - 1) + last.toNat.log2, false⟩

/-- The next `count` bits as a number, zeros standing for those that are missing. -/
def peek (r : BackwardBits) (count : Nat) : Nat :=
  if count ≤ r.left then bitsAt r.data (r.left - count) count
  else bitsAt r.data 0 r.left * 2 ^ (count - r.left)

/-- The reader after `count` more bits. -/
def skip (r : BackwardBits) (count : Nat) : BackwardBits :=
  { r with left := r.left - count, overrun := r.overrun || r.left < count }

/-- The reader after `count` more bits, at the end of the first eight bytes again when none is left
of them. -/
def skipCyclic (r : BackwardBits) (count : Nat) : BackwardBits :=
  { r with left := if count < r.left then r.left - count else 64 + r.left - count }

/-- The next bits and the reader after them. -/
def read (r : BackwardBits) (count : Nat) : Nat × BackwardBits :=
  (r.peek count, r.skip count)

def isExhausted (r : BackwardBits) : Bool :=
  r.left == 0 && !r.overrun

end BackwardBits

end SelfExtract.Zstandard
