import SelfExtract.Digest.XxHash64
import SelfExtract.Zstandard.Block

/-!
# Frames that are decoded at once

A frame whose end is in sight is decoded into room for its whole content. Its
content must then be as long as announced and agree with the checksum.
-/
namespace SelfExtract.Zstandard

/-- The end of the blocks from `position` on, all of which must lie before `stop`. -/
def blocksEnd? (b : ByteArray) (stop : Nat) : Nat → Nat → Option Nat
  | 0, _ => none
  | fuel + 1, position =>
    if stop < position + blockHeaderSize then none
    else
      match BlockHeader.read? b position with
      | none => none
      | some h =>
        let next := position + blockHeaderSize + h.stored
        if stop < next then none
        else if h.last then some next
        else blocksEnd? b stop fuel next

/-- The end of a frame whose blocks begin at `position`, if it lies before `stop`. -/
def frameEnd? (b : ByteArray) (header : FrameHeader) (position stop : Nat) : Option Nat :=
  match blocksEnd? b stop (b.size + 1) position with
  | none => none
  | some next =>
    let next := if header.checksum then next + checksumSize else next
    if stop < next then none else some next

def checksumAgrees (b : ByteArray) (position : Nat) (content : ByteArray) : Bool :=
  numberAt b position checksumSize == (XxHash64.hash content).toNat % 2 ^ 32

/-- The state after all blocks from `position` on and the position behind them. The content has
`room` bytes of space. -/
def decodeBlocks (b : ByteArray) (header : FrameHeader) (room : Nat) :
    Nat → Nat → FrameState → Option (FrameState × Nat)
  | 0, _, _ => none
  | fuel + 1, position, s =>
    match BlockHeader.read? b position with
    | none => none
    | some h =>
      let start := position + blockHeaderSize
      match s.block? b start h ⟨header.blockLimit, room - s.out.size, true⟩ with
      | none => none
      | some s =>
        if h.last then some (s, start + h.stored)
        else decodeBlocks b header room fuel (start + h.stored) s

def decodeWhole? (b : ByteArray) (header : FrameHeader) (position room : Nat) :
    Option ByteArray := do
  let (s, stop) ← decodeBlocks b header room (b.size + 1) position FrameState.initial
  if header.contentSize.any (· ≠ s.out.size) then none
  if header.checksum && !checksumAgrees b stop s.out then none
  some s.out

end SelfExtract.Zstandard
