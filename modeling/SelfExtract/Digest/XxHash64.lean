import SelfExtract.Bytes

/-!
# XXH64 with seed zero

The checksum behind a compressed frame is the low half of this hash of its
content.
-/
namespace SelfExtract.XxHash64

def prime1 : UInt64 := 0x9E3779B185EBCA87
def prime2 : UInt64 := 0xC2B2AE3D27D4EB4F
def prime3 : UInt64 := 0x165667B19E3779F9
def prime4 : UInt64 := 0x85EBCA77C2B2AE63
def prime5 : UInt64 := 0x27D4EB2F165667C5

/-- Rotation to the left by less than the width. -/
def rotateLeft (x : UInt64) (n : UInt64) : UInt64 :=
  (x <<< n) ||| (x >>> (64 - n))

/-- The number of `count` bytes from `at` on, least significant first. -/
def word (b : ByteArray) (start : Nat) : Nat → UInt64
  | 0 => 0
  | count + 1 => (byteAt b start).toUInt64 + 256 * word b (start + 1) count

/-- Mixes one word into a lane. -/
def round (lane input : UInt64) : UInt64 :=
  rotateLeft (lane + input * prime2) 31 * prime1

/-- The four lanes of the bulk loop. -/
structure Lanes where
  a : UInt64
  b : UInt64
  c : UInt64
  d : UInt64
  deriving DecidableEq, Repr

/-- Mixes `count` stripes of 32 bytes, the first at `start`. -/
def stripes (b : ByteArray) : Nat → Nat → Lanes → Lanes
  | 0, _, l => l
  | count + 1, start, l =>
    stripes b count (start + 32)
      ⟨round l.a (word b start 8), round l.b (word b (start + 8) 8),
        round l.c (word b (start + 16) 8), round l.d (word b (start + 24) 8)⟩

/-- Folds a lane into the hash. -/
def merge (hash lane : UInt64) : UInt64 :=
  (hash ^^^ round 0 lane) * prime1 + prime4

/-- The hash after all whole stripes. -/
def bulk (b : ByteArray) : UInt64 :=
  if b.size < 32 then prime5
  else
    let l := stripes b (b.size / 32) 0 ⟨prime1 + prime2, prime2, 0, 0 - prime1⟩
    let h := rotateLeft l.a 1 + rotateLeft l.b 7 + rotateLeft l.c 12 + rotateLeft l.d 18
    merge (merge (merge (merge h l.a) l.b) l.c) l.d

/-- Mixes `count` words of eight bytes. -/
def eights (b : ByteArray) : Nat → Nat → UInt64 → UInt64
  | 0, _, h => h
  | count + 1, start, h =>
    eights b count (start + 8) (rotateLeft (h ^^^ round 0 (word b start 8)) 27 * prime1 + prime4)

/-- Mixes `count` single bytes. -/
def ones (b : ByteArray) : Nat → Nat → UInt64 → UInt64
  | 0, _, h => h
  | count + 1, start, h =>
    ones b count (start + 1) (rotateLeft (h ^^^ word b start 1 * prime5) 11 * prime1)

/-- Spreads the last bits over the whole word. -/
def avalanche (h : UInt64) : UInt64 :=
  let h := (h ^^^ (h >>> 33)) * prime2
  let h := (h ^^^ (h >>> 29)) * prime3
  h ^^^ (h >>> 32)

def hash (b : ByteArray) : UInt64 :=
  let n := b.size
  let start := n / 32 * 32
  let h := eights b (n % 32 / 8) start (bulk b + n.toUInt64)
  let start := start + n % 32 / 8 * 8
  let h := if 4 ≤ n % 8 then
      rotateLeft (h ^^^ word b start 4 * prime1) 23 * prime2 + prime3
    else h
  let start := start + n % 8 / 4 * 4
  avalanche (ones b (n % 4) start h)

end SelfExtract.XxHash64
