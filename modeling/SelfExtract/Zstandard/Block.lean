import SelfExtract.Zstandard.Header
import SelfExtract.Zstandard.Literals
import SelfExtract.Zstandard.Sequence

/-!
# Compressed blocks

A compressed block holds literals and sequences. It is decoded against what
its frame has put out so far and against the tables that earlier blocks of the
frame left behind. The output goes to a store that may be used again from its
start, so that matches reach the segment that is being written and the one
before it.
-/
namespace SelfExtract.Zstandard

/-- Where the segments that matches reach begin in the content of a frame. -/
structure Segments where
  /-- The beginning of the segment before the last one. -/
  earlier : Nat
  /-- The beginning of the last segment. -/
  last : Nat
  deriving DecidableEq, Repr

namespace Segments

/-- The byte that is found for a place in the content: one of the earlier segment, where the last
one had already reached its place in the store when copying began, is the byte written there. -/
def byteFrom (s : Segments) (reached : Nat) (out : ByteArray) (place : Nat) : UInt8 :=
  let offset := place - s.earlier
  if place < s.last && offset < reached then byteAt out (s.last + offset) else byteAt out place

/-- Appends `length` bytes, each found `distance` places before its own. -/
def copyMatch (s : Segments) (reached distance : Nat) : Nat → ByteArray → ByteArray
  | 0, out => out
  | length + 1, out =>
    copyMatch s reached distance length (out.push (s.byteFrom reached out (out.size - distance)))

/-- Carries out sequences; literals that are left over come last. -/
def execute (s : Segments) (literals : ByteArray) :
    List Sequence → Nat → ByteArray → Option ByteArray
  | [], position, out => some (out ++ literals.extract position literals.size)
  | q :: r, position, out =>
    if literals.size < position + q.literals then none
    else
      let out := out ++ literals.extract position (position + q.literals)
      if q.offset = 0 || out.size - s.earlier < q.offset then none
      else
        execute s literals r (position + q.literals)
          (s.copyMatch (out.size - s.last) q.offset q.length out)

end Segments

structure FrameState where
  /-- The content of the frame so far. -/
  out : ByteArray
  segments : Segments
  codes : Option CodeTable
  tables : Option SequenceTables
  recent : RecentOffsets

structure Room where
  /-- The most bytes that a block puts out. -/
  blockLimit : Nat
  /-- The bytes that the store still has. -/
  capacity : Nat
  /-- The store was made for the whole content of a frame. -/
  whole : Bool
  deriving DecidableEq, Repr

namespace Room

/-- The most literals of a block. -/
def literals (r : Room) : Nat :=
  min r.blockLimit r.capacity

/-- Bytes that are kept free around literals. -/
def margin : Nat := 32

/-- The most literals that have a place of their own. -/
def ownPlace : Nat := 65536

/-- The most bytes of a compressed block with the given literals. In a store for a whole content,
literals are put behind the place of the block if there is room, and the block must not reach
them; plain literals stay where they are unless they end too close to the end of the block. -/
def output (r : Room) (size : Nat) (l : Literals) : Nat :=
  if !r.whole then min r.capacity r.blockLimit
  else if l.plain && l.size + margin ≤ size then r.capacity
  else if r.blockLimit + 2 * margin + l.bytes.size < r.capacity then r.blockLimit + margin
  else if l.bytes.size ≤ ownPlace then r.capacity
  else r.literals

end Room

namespace FrameState

def initial : FrameState :=
  ⟨ByteArray.empty, ⟨0, 0⟩, none, none, RecentOffsets.initial⟩

/-- How much of the store the last segment takes. -/
def position (s : FrameState) : Nat :=
  s.out.size - s.segments.last

def wrap (s : FrameState) : FrameState :=
  { s with segments := ⟨s.segments.last, s.out.size⟩ }

def append (s : FrameState) (piece : ByteArray) : FrameState :=
  { s with out := s.out ++ piece }

def decodeBlock? (s : FrameState) (b : ByteArray) (room : Room) : Option FrameState := do
  let literals ← Literals.read? b s.codes room.literals
  let sequences ← Sequences.read? (b.extract literals.size b.size) s.tables s.recent
  let limit := s.out.size + room.output b.size literals
  let out ← s.segments.execute literals.bytes sequences.list 0 s.out
  if limit < out.size then none
  some { s with
    out
    codes := literals.codes
    tables := sequences.tables
    recent := sequences.recent }

/-- The state after the block that is stored at `position`, all of whose bytes are there. -/
def block? (s : FrameState) (b : ByteArray) (position : Nat) (h : BlockHeader) (room : Room) :
    Option FrameState :=
  match h.type with
  | .plain =>
    if room.capacity < h.size then none
    else some (s.append (b.extract position (position + h.size)))
  | .repeated =>
    if room.capacity < h.size then none
    else some { s with out := pushMany s.out (byteAt b position) h.size }
  | .compressed =>
    if room.blockLimit < h.size then none
    else s.decodeBlock? (b.extract position (position + h.size)) room

end FrameState

end SelfExtract.Zstandard
