import SelfExtract.Source
import SelfExtract.Zstandard.Draft
import SelfExtract.Zstandard.Whole

/-!
# Decoding on request

A compressed file is a sequence of frames, some of which are skipped. The
decoder takes the file in portions and decodes block by block into a store,
from which requests are served. A block is decoded as soon as all output before
it was given away, even if the request has no room for more, and a failure
spoils the whole request. A request ends when output has to wait, when a frame
or a portion ends after output was given, and with the file.

A frame that lies within a portion, and whose whole content the request has
room for, is decoded at once.
-/
namespace SelfExtract.Zstandard

def portionSize : Nat := 128 * 1024 + 3

structure OpenFrame where
  header : FrameHeader
  state : FrameState

structure Stores where
  input : Nat
  output : Nat
  deriving DecidableEq, Repr

structure OpenDraft where
  kind : Draft
  header : DraftHeader
  blockLimit : Nat
  stores : Stores
  /-- How much of the store for output is taken. -/
  reached : Nat
  /-- The content of the frame so far. -/
  out : ByteArray

inductive Stage where
  /-- A frame, part of whose header may have been taken before. -/
  | frame (begun : Bool)
  /-- The rest of a frame that is skipped. -/
  | skipped (left : Nat)
  /-- The header of a block. -/
  | header (f : OpenFrame)
  /-- The rest of a block. -/
  | block (f : OpenFrame) (h : BlockHeader) (left : Nat)
  | checksum (f : OpenFrame)
  /-- A draft frame. -/
  | draft (kind : Draft)
  /-- The header of a block of a draft frame. -/
  | draftHeader (f : OpenDraft)
  | draftBlock (f : OpenDraft) (h : DraftBlock)
  /-- Nothing more of a frame. -/
  | frameEnd

structure Decoder where
  /-- Where it goes on in the file. -/
  position : Nat
  /-- The end of the portions that it was given. -/
  seen : Nat
  stage : Stage
  stores : Stores
  /-- The stores for frames of the draft that was read last. -/
  draftStores : Option (Draft × Stores)
  /-- Output that has to wait. -/
  pending : ByteArray

inductive Step where
  | failed
  /-- It lacks input. -/
  | starved (d : Decoder)
  /-- It comes to the end of a frame. -/
  | ended (d : Decoder)
  /-- It gives some output, possibly none. -/
  | gave (piece : ByteArray) (d : Decoder)

/-- The stores for a frame: the old ones if both are large enough, otherwise new ones. -/
def Stores.provide (s : Stores) (input output : Nat) : Stores :=
  if s.input < input || s.output < output then ⟨input, output⟩ else s

/-- The least of a size and a content size, if that is known. -/
def atMost (size : Nat) : Option Nat → Nat
  | none => size
  | some n => min n size

/-- The store for the output of a frame keeps a window while two blocks are written. -/
def outputSize (window blockLimit : Nat) (contentSize : Option Nat) : Nat :=
  atMost (max window minWindow + 2 * blockLimit + 2 * Room.margin) contentSize

namespace OpenFrame

def room (f : OpenFrame) (stores : Stores) : Room :=
  ⟨f.header.blockLimit, stores.output - f.state.position, false⟩

/-- The frame after output. The store is used from its start again when it cannot take another block
nor the whole content. -/
def settle (f : OpenFrame) (stores : Stores) : OpenFrame :=
  if f.header.contentSize.all (stores.output < ·) &&
      stores.output < f.state.position + f.header.blockLimit then
    { f with state := f.state.wrap }
  else f

/-- What follows the last block. -/
def afterLast (f : OpenFrame) : Stage :=
  if f.header.checksum then .checksum f else .frameEnd

/-- What follows a block, which is the last one only when the content is complete. -/
def afterBlock? (f : OpenFrame) (last : Bool) (settled : OpenFrame) : Option Stage :=
  if !last then some (.header settled)
  else if f.header.contentSize.all (· = f.state.out.size) then some settled.afterLast
  else none

end OpenFrame

namespace Decoder

/-- A decoder before its first portion. -/
def initial : Decoder :=
  ⟨0, 0, .frame false, ⟨0, 0⟩, none, ByteArray.empty⟩

def available (d : Decoder) : Nat :=
  d.seen - d.position

def move (d : Decoder) (position : Nat) (stage : Stage) : Decoder :=
  { d with position, stage }

def awaitHeader (d : Decoder) : Step :=
  .starved { d with stage := .frame (d.position < d.seen) }

/-- The header of a frame that is decoded block by block is taken. -/
def openFrame (d : Decoder) (h : FrameHeader) : Step :=
  if maxWindow < h.window then .failed
  else
    let stores := d.stores.provide (max h.blockLimit checksumSize)
      (outputSize h.window h.blockLimit h.contentSize)
    .gave ByteArray.empty
      { d with
        position := d.position + h.size
        stage := .header ⟨h, FrameState.initial⟩
        stores }

/-- The end of a frame that is decoded at once: it lies within the portion, and `room` is enough for
its content. -/
def wholeEnd? (d : Decoder) (b : ByteArray) (h : FrameHeader) (begun : Bool) (room : Nat) :
    Option Nat :=
  if !begun && h.contentSize.any (· ≤ room) then frameEnd? b h (d.position + h.size) d.seen
  else none

def beginFrame (d : Decoder) (b : ByteArray) (begun : Bool) (room : Nat) : Step :=
  let size := frameHeaderSize (frameDescriptor b d.position)
  if d.available < size then d.awaitHeader
  else
    match FrameHeader.read? b d.position with
    | none => .failed
    | some h =>
      match d.wholeEnd? b h begun room with
      | none => d.openFrame h
      | some stop =>
        match decodeWhole? b h (d.position + h.size) room with
        | none => .failed
        | some content => .gave content (d.move stop .frameEnd)

/-- A frame that is skipped begins. It has stores, too. -/
def beginSkipped (d : Decoder) (b : ByteArray) : Step :=
  if d.available < 8 then d.awaitHeader
  else
    let size := numberAt b (d.position + 4) 4
    .gave ByteArray.empty
      { d with
        position := d.position + 8
        stage := .skipped size
        stores := d.stores.provide checksumSize (outputSize 0 0 (some size)) }

def frameMark : Nat := 0xFD2FB528

/-- The number at the start of frames that are skipped, without its last digit. -/
def skippedMark : Nat := 0x184D2A5

def begin (d : Decoder) (b : ByteArray) (begun : Bool) (room : Nat) : Step :=
  if d.available < 5 then d.awaitHeader
  else
    let mark := numberAt b d.position 4
    if mark = frameMark then d.beginFrame b begun room
    else if mark / 16 = skippedMark then d.beginSkipped b
    else
      match (Draft.ofMark? mark).filter fun _ => !begun with
      | some kind => .gave ByteArray.empty (d.move d.position (.draft kind))
      | none => .failed

def skip (d : Decoder) (left : Nat) : Step :=
  let count := min left d.available
  let d := d.move (d.position + count) (.skipped (left - count))
  if left = count then .ended { d with stage := .frame false } else .starved d

/-- The header of a block is taken. A block that takes no bytes is over. -/
def takeHeader (d : Decoder) (b : ByteArray) (f : OpenFrame) : Step :=
  if d.available < blockHeaderSize then .starved d
  else
    match BlockHeader.read? b d.position with
    | none => .failed
    | some h =>
      let start := d.position + blockHeaderSize
      if f.header.blockLimit < h.stored then .failed
      else if h.stored = 0 then
        .gave ByteArray.empty (d.move start (if h.last then f.afterLast else .header f))
      else .gave ByteArray.empty (d.move start (.block f h h.stored))

/-- The output of a block, or of a part of a plain one, is given. -/
def give (d : Decoder) (f : OpenFrame) (state : FrameState) (taken : Nat)
    (next : OpenFrame → OpenFrame → Option Stage) : Step :=
  let before := f.state.out.size
  let f' : OpenFrame := { f with state }
  let piece := state.out.extract before state.out.size
  let settled := if piece.isEmpty then f' else f'.settle d.stores
  match next f' settled with
  | none => .failed
  | some stage => .gave piece (d.move (d.position + taken) stage)

/-- A block is taken. Of a plain block, the bytes that are there are given at once. -/
def takeBlock (d : Decoder) (b : ByteArray) (f : OpenFrame) (h : BlockHeader) (left : Nat) : Step :=
  let room := f.room d.stores
  if h.type = .plain then
    let count := min left d.available
    if count = 0 then .starved d
    else
      match f.state.block? b d.position { h with size := count } room with
      | none => .failed
      | some s =>
        d.give f s count fun f' settled =>
          if count < left then some (.block settled h (left - count))
          else f'.afterBlock? h.last settled
  else if d.available < left then .starved d
  else
    match f.state.block? b d.position h room with
    | none => .failed
    | some s =>
      if f.state.out.size + f.header.blockLimit < s.out.size then .failed
      else d.give f s left fun f' settled => f'.afterBlock? h.last settled

def takeChecksum (d : Decoder) (b : ByteArray) (f : OpenFrame) : Step :=
  if d.available < checksumSize then .starved d
  else if checksumAgrees b d.position f.state.out then
    .gave ByteArray.empty (d.move (d.position + checksumSize) .frameEnd)
  else .failed

/-- The stores for frames of a draft, each as large as any before it. -/
def draftRoom (d : Decoder) (kind : Draft) (h : DraftHeader) : Stores :=
  let old : Stores := ((d.draftStores.filter (·.1 = kind)).map (·.2)).getD ⟨0, 0⟩
  ⟨max old.input (kind.blockLimit h), max old.output (kind.outputSize h)⟩

def beginDraft (d : Decoder) (b : ByteArray) (kind : Draft) : Step :=
  let size := kind.headerSize (frameDescriptor b d.position)
  if d.available < size then .starved d
  else
    match kind.header? b d.position with
    | none => .failed
    | some h =>
      let stores := d.draftRoom kind h
      .gave ByteArray.empty
        { d with
          position := d.position + size
          stage := .draftHeader ⟨kind, h, kind.blockLimit h, stores, 0, ByteArray.empty⟩
          draftStores := some (kind, stores) }

/-- The checksum of a draft frame agrees with its content, if it has one. -/
def draftAgrees (b : ByteArray) (position : Nat) (f : OpenDraft) : Bool :=
  !f.header.checksum ||
    draftChecksum b position == (XxHash64.hash f.out).toNat / 2 ^ 11 % 2 ^ 22

def takeDraftHeader (d : Decoder) (b : ByteArray) (f : OpenDraft) : Step :=
  if d.available < blockHeaderSize then .starved d
  else
    let h := DraftBlock.read b d.position
    let next := d.position + blockHeaderSize
    if h = .frameEnd && !draftAgrees b d.position f then .failed
    else .gave ByteArray.empty (d.move next (if h.stored = 0 then .frameEnd else .draftBlock f h))

/-- The output of a block of a draft frame, for which the store must have room. -/
def decodeDraft? (b : ByteArray) (position : Nat) (f : OpenDraft) (h : DraftBlock) :
    Option ByteArray :=
  let content := match h with
    | .plain size => some (b.extract position (position + size))
    | .compressed size => f.kind.content? b position size
    | _ => none
  content.filter fun piece => f.reached + piece.size ≤ f.stores.output

/-- A block of a draft frame is taken. One that has to be put together from two portions must fit
into the store for it. -/
def takeDraftBlock (d : Decoder) (b : ByteArray) (f : OpenDraft) (h : DraftBlock) : Step :=
  if d.available < h.stored then
    if d.available != 0 && f.stores.input < h.stored then .failed else .starved d
  else
    match decodeDraft? b d.position f h with
    | none => .failed
    | some piece =>
      let reached := f.reached + piece.size
      let f : OpenDraft :=
        { f with
          reached := if f.stores.output < reached + f.blockLimit then 0 else reached
          out := f.out ++ piece }
      .gave piece (d.move (d.position + h.stored) (.draftHeader f))

/-- One step of a decoder for a request that has `room` bytes left. -/
def step (d : Decoder) (b : ByteArray) (room : Nat) : Step :=
  match d.stage with
  | .frame begun => d.begin b begun room
  | .skipped left => d.skip left
  | .header f => d.takeHeader b f
  | .block f h left => d.takeBlock b f h left
  | .checksum f => d.takeChecksum b f
  | .draft kind => d.beginDraft b kind
  | .draftHeader f => d.takeDraftHeader b f
  | .draftBlock f h => d.takeDraftBlock b f h
  | .frameEnd => .ended { d with stage := .frame false }

def isBetweenFrames (d : Decoder) : Bool :=
  match d.stage with
  | .frame begun => !begun
  | _ => false

def feed (d : Decoder) (b : ByteArray) : Decoder :=
  { d with seen := min b.size (d.seen + portionSize) }

def serve (b : ByteArray) (room : Nat) : Nat → ByteArray → Decoder → Option (ByteArray × Decoder)
  | 0, _, _ => none
  | fuel + 1, out, d =>
    match d.step b (room - out.size) with
    | .failed => none
    | .starved d =>
      if !out.isEmpty then some (out, d)
      else if d.seen < b.size then serve b room fuel out (d.feed b)
      else if d.isBetweenFrames then some (out, d)
      else none
    | .ended d => if !out.isEmpty then some (out, d) else serve b room fuel out d
    | .gave piece d =>
      let free := room - out.size
      if piece.size ≤ free then serve b room fuel (out ++ piece) d
      else some (out ++ piece.extract 0 free, { d with pending := piece.extract free piece.size })

/-- A request for at most `room` bytes. Output that waits is given by itself. Every step takes at
least a byte, ends a frame or is followed by another portion, of which there are no more than
bytes. -/
def request (b : ByteArray) (room : Nat) (d : Decoder) : Option (Bytes × Decoder) :=
  if d.pending.isEmpty then
    (serve b room (4 * b.size + 4) ByteArray.empty d).map fun (out, d) => (out.toList, d)
  else
    some ((d.pending.extract 0 room).toList,
      { d with pending := d.pending.extract room d.pending.size })

/-- The reply to a request. All failures have one text. -/
def reply (b : ByteArray) (room : Nat) (d : Decoder) : Except String (Bytes × Decoder) :=
  (d.request b room).elim (.error "malformed frame") .ok

end Decoder

def source (data : Bytes) : Source :=
  let b := ByteArray.mk data.toArray
  ⟨Decoder, Decoder.initial, Decoder.reply b⟩

end SelfExtract.Zstandard
