/-!
# Byte strings and fixed-width numbers

A byte string is a list of bytes. Numbers of a fixed width are read from and
written to byte strings in either byte order; `ofNatLE` and `natLE` undo each
other below `256 ^ width`. A window is a run of bytes that lies wholly inside
a byte string.
-/
namespace SelfExtract

-- A power of natural numbers is the one of core, also in a module that knows monoids.
attribute [instance (high), default_instance (high + 1)] instPowNat

abbrev Bytes := List UInt8

/-- The address space of a process: no run of bytes can be longer. -/
def addressSpace : Nat := 2 ^ 47

/-- The byte of an array at a position, zero behind the end. -/
def byteAt (b : ByteArray) (i : Nat) : UInt8 :=
  if h : i < b.size then b[i] else 0

inductive ByteOrder where
  | little
  | big
  deriving DecidableEq, Repr

namespace Bytes

/-- The number written with its least significant byte first. -/
def natLE : Bytes → Nat
  | [] => 0
  | b :: r => b.toNat + 256 * natLE r

/-- The number written with its most significant byte first. -/
def natBE (b : Bytes) : Nat :=
  natLE b.reverse

/-- The `width` low bytes of a number, least significant first. -/
def ofNatLE : Nat → Nat → Bytes
  | 0, _ => []
  | width + 1, n => UInt8.ofNat n :: ofNatLE width (n / 256)

/-- The `width` low bytes of a number, most significant first. -/
def ofNatBE (width n : Nat) : Bytes :=
  (ofNatLE width n).reverse

@[simp] theorem length_ofNatLE (width n : Nat) : (ofNatLE width n).length = width := by
  induction width generalizing n with
  | zero => rfl
  | succ w ih => simp [ofNatLE, ih]

theorem natLE_lt (b : Bytes) : natLE b < 256 ^ b.length := by
  induction b with
  | nil => simp [natLE]
  | cons x r ih =>
    have hx := x.toNat_lt
    simp only [natLE, List.length_cons, Nat.pow_succ]
    omega

theorem natLE_ofNatLE (width n : Nat) : natLE (ofNatLE width n) = n % 256 ^ width := by
  induction width generalizing n with
  | zero => simp [ofNatLE, natLE, Nat.mod_one]
  | succ w ih =>
    have hb : (UInt8.ofNat n).toNat = n % 256 := by simp
    rw [ofNatLE, natLE, ih, hb, Nat.pow_succ, Nat.mul_comm (256 ^ w) 256, Nat.mod_mul]

/-- The `len` bytes from `start` on, when all of them exist. -/
def window? (b : Bytes) (start len : Nat) : Option Bytes :=
  let w := (b.drop start).take len
  if w.length = len then some w else none

theorem length_of_window? {b w : Bytes} {start len : Nat} (h : b.window? start len = some w) :
    w.length = len := by
  simp only [window?] at h
  split at h
  · next hl => exact (Option.some.inj h) ▸ hl
  · cases h

theorem le_length_of_window? {b w : Bytes} {start len : Nat} (h : b.window? start len = some w) :
    len ≤ b.length - start := by
  simp only [window?] at h
  split at h
  · next hl =>
    rw [← hl, List.length_take, List.length_drop]
    omega
  · cases h

/-- The bytes from `start` up to `stop`, when both bounds are in order and inside. -/
def slice? (b : Bytes) (start stop : Nat) : Option Bytes :=
  if start ≤ stop ∧ stop ≤ b.length then some ((b.drop start).take (stop - start)) else none

/-- The bytes of one replaced by the bytes of `patch`, from `start` on; nothing is added at the
end. -/
def patch (b : Bytes) (start : Nat) (patch : Bytes) : Bytes :=
  b.take start ++ patch.take (b.length - start) ++ b.drop (start + patch.length)

end Bytes

namespace ByteOrder

def nat : ByteOrder → Bytes → Nat
  | .little, b => b.natLE
  | .big, b => b.natBE

/-- A number stored in `width` bytes. -/
def bytes : ByteOrder → Nat → Nat → Bytes
  | .little, width, n => Bytes.ofNatLE width n
  | .big, width, n => Bytes.ofNatBE width n

/-- The number of `width` bytes stored at `start`, when all its bytes exist. -/
def nat? (o : ByteOrder) (b : Bytes) (start width : Nat) : Option Nat :=
  (b.window? start width).map o.nat

end ByteOrder

end SelfExtract
