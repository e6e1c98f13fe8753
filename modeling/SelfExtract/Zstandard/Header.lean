import SelfExtract.Zstandard.Bits

/-!
# Headers of frames and blocks

The header of a frame announces a window, the length of the content if it is
known, and whether a checksum follows. A frame of a single segment has a window
of the size of its content.
-/
namespace SelfExtract.Zstandard

structure FrameHeader where
  /-- How far back a match may reach. -/
  window : Nat
  contentSize : Option Nat
  checksum : Bool
  /-- The bytes of the header. -/
  size : Nat
  deriving DecidableEq, Repr

/-- The largest window for which a frame is decoded block by block. -/
def maxWindow : Nat := 2 ^ 27 + 1

/-- The smallest window that is provided. -/
def minWindow : Nat := 1024

/-- The most bytes that a block takes or puts out. -/
def FrameHeader.blockLimit (h : FrameHeader) : Nat :=
  min h.window (128 * 1024)

/-- The window of a window descriptor, whose exponent is at most 31. -/
def describedWindow? (descriptor : Nat) : Option Nat :=
  let log := descriptor / 8 + 10
  if 31 < log then none else some (2 ^ log + 2 ^ log / 8 * (descriptor % 8))

/-- The descriptor of a frame at `start`, behind the four bytes that tell frames from other data. -/
def frameDescriptor (b : ByteArray) (start : Nat) : Nat :=
  (byteAt b (start + 4)).toNat

def isSingle (descriptor : Nat) : Bool :=
  descriptor / 32 % 2 = 1

def dictionaryWidth (descriptor : Nat) : Nat :=
  [0, 1, 2, 4].getD (descriptor % 4) 0

def contentWidth (descriptor : Nat) : Nat :=
  [if isSingle descriptor then 1 else 0, 2, 4, 8].getD (descriptor / 64) 0

def frameHeaderSize (descriptor : Nat) : Nat :=
  5 + (if isSingle descriptor then 0 else 1) + dictionaryWidth descriptor + contentWidth descriptor

/-- The content size in a header, of which two bytes count from 256 on and the largest eight bytes
stand for an unknown size. -/
def contentSizeAt (b : ByteArray) (start width : Nat) : Option Nat :=
  let stored := numberAt b start width
  if width = 0 || stored = 2 ^ 64 - 1 then none
  else some (if width = 2 then stored + 256 else stored)

/-- Reads the header of a frame at `start`, all of whose bytes are there. It must not need a
dictionary. -/
def FrameHeader.read? (b : ByteArray) (start : Nat) : Option FrameHeader := do
  let descriptor := frameDescriptor b start
  let single := isSingle descriptor
  let dictionaryStart := start + 5 + if single then 0 else 1
  let contentStart := dictionaryStart + dictionaryWidth descriptor
  if descriptor / 8 % 2 = 1 then none
  if numberAt b dictionaryStart (dictionaryWidth descriptor) != 0 then none
  let window ← if single then some (numberAt b contentStart (contentWidth descriptor) +
      if contentWidth descriptor = 2 then 256 else 0)
    else describedWindow? (byteAt b (start + 5)).toNat
  some ⟨window, contentSizeAt b contentStart (contentWidth descriptor), descriptor / 4 % 2 = 1,
    frameHeaderSize descriptor⟩

inductive BlockType where
  | plain
  | repeated
  | compressed
  deriving DecidableEq, Repr

structure BlockHeader where
  last : Bool
  type : BlockType
  size : Nat
  deriving DecidableEq, Repr

def blockHeaderSize : Nat := 3

/-- Reads the header of a block at `position`, all of whose bytes are there. -/
def BlockHeader.read? (b : ByteArray) (position : Nat) : Option BlockHeader :=
  let n := numberAt b position blockHeaderSize
  let last := n % 2 = 1
  match n / 2 % 4 with
  | 0 => some ⟨last, .plain, n / 8⟩
  | 1 => some ⟨last, .repeated, n / 8⟩
  | 2 => some ⟨last, .compressed, n / 8⟩
  | _ => none

def BlockHeader.stored (h : BlockHeader) : Nat :=
  match h.type with
  | .repeated => 1
  | _ => h.size

def checksumSize : Nat := 4

end SelfExtract.Zstandard
