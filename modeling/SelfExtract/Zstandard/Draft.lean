import SelfExtract.Zstandard.Header
import SelfExtract.Zstandard.Literals

/-!
# Frames of draft formats

Four drafts came before the format was fixed. They have headers of their own
for frames and blocks; a frame ends with a block of a special type, which in
the last draft holds a checksum, or with a block that takes no bytes. Blocks
of repeated bytes are not read. Of compressed blocks, those are read that are
nothing but literals, stored as they are or as one byte repeated.
-/
namespace SelfExtract.Zstandard

inductive Draft where
  | four
  | five
  | six
  | seven
  deriving DecidableEq, Repr

structure DraftHeader where
  window : Nat
  checksum : Bool
  deriving DecidableEq, Repr

inductive DraftBlock where
  | compressed (size : Nat)
  | plain (size : Nat)
  | repeated
  | frameEnd
  deriving DecidableEq, Repr

namespace Draft

def mark : Draft → Nat
  | .four => 0xFD2FB524
  | .five => 0xFD2FB525
  | .six => 0xFD2FB526
  | .seven => 0xFD2FB527

def ofMark? (n : Nat) : Option Draft :=
  [four, five, six, seven].find? (·.mark = n)

def headerSize (d : Draft) (descriptor : Nat) : Nat :=
  match d with
  | .four => 5
  | .five => 5
  | .six => 5 + [0, 1, 2, 8].getD (descriptor / 64) 0
  | .seven => frameHeaderSize descriptor

/-- The window of the last draft: of a window descriptor, whose exponent is at most 27, or the size
of a content, of which the four low bytes count. -/
def lastWindow? (b : ByteArray) (start : Nat) : Option Nat :=
  let descriptor := frameDescriptor b start
  if isSingle descriptor then
    let width := contentWidth descriptor
    let stored := numberAt b (start + 5 + dictionaryWidth descriptor) width
    let window := (if width = 2 then stored + 256 else stored) % 2 ^ 32
    if 2 ^ 27 < window then none else some window
  else (describedWindow? (byteAt b (start + 5)).toNat).filter (· ≤ 2 ^ 27)

/-- Reads the header of a frame of the last draft, which must not need a dictionary. -/
def lastHeader? (b : ByteArray) (start : Nat) : Option DraftHeader := do
  let descriptor := frameDescriptor b start
  let dictionaryStart := start + 5 + if isSingle descriptor then 0 else 1
  if descriptor / 8 % 2 = 1 then none
  if numberAt b dictionaryStart (dictionaryWidth descriptor) != 0 then none
  return ⟨max minWindow (← lastWindow? b start), descriptor / 4 % 2 = 1⟩

/-- Reads the header of a frame at `start`, all of whose bytes are there. -/
def header? (d : Draft) (b : ByteArray) (start : Nat) : Option DraftHeader :=
  let descriptor := frameDescriptor b start
  match d with
  | .four => if 16 ≤ descriptor then none else some ⟨2 ^ (descriptor + 11), false⟩
  | .five => if 16 ≤ descriptor then none else some ⟨2 ^ (descriptor + 11), false⟩
  | .six =>
    if descriptor / 32 % 2 = 1 then none else some ⟨2 ^ (descriptor % 16 + 12), false⟩
  | .seven => lastHeader? b start

def blockLimit (d : Draft) (h : DraftHeader) : Nat :=
  match d with
  | .four => 128 * 1024
  | .five => 128 * 1024
  | .six => min h.window (128 * 1024)
  | .seven => min h.window (128 * 1024)

def outputSize (d : Draft) (h : DraftHeader) : Nat :=
  match d with
  | .four => h.window
  | .five => h.window
  | .six => h.window + d.blockLimit h + 16
  | .seven => h.window + d.blockLimit h + 16

end Draft

def DraftBlock.read (b : ByteArray) (position : Nat) : DraftBlock :=
  let head := (byteAt b position).toNat
  let size := head % 8 * 65536 + (byteAt b (position + 1)).toNat * 256 +
    (byteAt b (position + 2)).toNat
  match head / 64 with
  | 0 => .compressed size
  | 1 => .plain size
  | 2 => .repeated
  | _ => .frameEnd

def DraftBlock.stored : DraftBlock → Nat
  | .compressed size => size
  | .plain size => size
  | .repeated => 1
  | .frameEnd => 0

/-- The length of uncoded literals at `position` and the bytes of their header. Long lengths are
stored with the high bits first. -/
def draftLiteralsHeader (b : ByteArray) (position : Nat) : Nat × Nat :=
  let head := (byteAt b position).toNat
  let second := (byteAt b (position + 1)).toNat
  match head / 16 % 4 with
  | 2 => (head % 16 * 256 + second, 2)
  | 3 => (head % 16 * 65536 + second * 256 + (byteAt b (position + 2)).toNat, 3)
  | _ => (head % 32, 1)

/-- The most literals of a block, and a bound that the size of a compressed block stays below. -/
def draftLimit : Nat := 128 * 1024

/-- The literals of a compressed block of `size` bytes at `position`, and the bytes they take. -/
def draftLiterals? (b : ByteArray) (position size : Nat) : Option (ByteArray × Nat) :=
  let (count, start) := draftLiteralsHeader b position
  match (byteAt b position).toNat / 64 with
  | 2 =>
    if size < start + count then none
    else some (b.extract (position + start) (position + start + count), start + count)
  | 3 =>
    if draftLimit < count || size < start + 1 then none
    else some (pushMany ByteArray.empty (byteAt b (position + start)) count, start + 1)
  | _ => none

/-- The content of a compressed block of `size` bytes at `position`: its literals, behind which no
sequences are counted. What follows the count is not looked at. -/
def Draft.content? (d : Draft) (b : ByteArray) (position size : Nat) : Option ByteArray :=
  if d = .four || size < 3 || draftLimit ≤ size then none
  else
    match draftLiterals? b position size with
    | none => none
    | some (literals, used) =>
      if used < size && byteAt b (position + used) = 0 then some literals else none

/-- The checksum in the block at `position` that ends a frame: twenty-two bits. -/
def draftChecksum (b : ByteArray) (position : Nat) : Nat :=
  (byteAt b position).toNat % 64 * 65536 + (byteAt b (position + 1)).toNat * 256 +
    (byteAt b (position + 2)).toNat

end SelfExtract.Zstandard
