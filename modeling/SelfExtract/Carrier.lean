import SelfExtract.Codec
import SelfExtract.Executable.Resource
import SelfExtract.Marker.NoteScan
import SelfExtract.Metadata
import SelfExtract.Target.Detect

/-!
# Programs that carry a payload

An ELF carrier holds the block in the last note of its last note segment, any
other carrier at its end. `locate` finds the block again: `locate` of a packed
program is the offset behind the marker that `pack` has put there.
-/
namespace SelfExtract

namespace Marker

def findIn (kind : Executable) (m : Marker) (p : Position) (b : Bytes) : Option Nat :=
  match kind with
  | .elf => m.findInNotes p b
  | _ => m.findLinear p b

end Marker

namespace Carrier

def locate (b : Bytes) : Option Nat :=
  match Executable.detect? (b.take 4) with
  | some kind => Marker.payload.findIn kind .after b
  | none => Marker.payload.findLinear .after b

/-- The program header of a note segment as it is written, but for its type and flags. -/
def noteHeader (offset size : Nat) : Bytes :=
  Bytes.ofNatLE 8 offset ++ Bytes.ofNatLE 8 0 ++ Bytes.ofNatLE 8 0 ++ Bytes.ofNatLE 8 size ++
    Bytes.ofNatLE 8 0 ++ Bytes.ofNatLE 8 4

/-- The last note segment and its place among the program headers. -/
def lastNoteSegment? (segments : List Elf.Segment) : Option (Elf.Segment × Nat) :=
  (segments.zipIdx.filter fun s => s.1.type = 4).getLast?

/-- The notes that are kept beside a new payload. -/
def keptNotes (segment : Bytes) : List Elf.Note :=
  (Elf.Note.parse .little segment).filter (·.owner != payloadOwner)

/-- The bytes of a note segment with the kept notes and the block in a last one. -/
def noteSegment (segment block : Bytes) : Bytes :=
  (keptNotes segment).flatMap Elf.Note.encode ++ Elf.Note.encode ⟨payloadOwner, 0, block⟩

/-- Appends a new note segment and leads the last note header to it. The header gets no address, so
that nothing is loaded from it. -/
def embedNote (b block : Bytes) : Except Fault Bytes := do
  let e ← (Elf.read? b).elim (throw .malformedExecutable) pure
  if !e.format.wide || e.format.order != .little then throw (.carrier .notElf64Little)
  if e.segmentEntrySize != 56 then throw (.carrier (.headerSize e.segmentEntrySize))
  let (segment, index) ← (lastNoteSegment? e.segments).elim (throw (.carrier .noNoteSegment)) pure
  let notes := noteSegment ((segment.bytes? b).getD []) block
  let offset := Elf.alignFour b.length
  let out := b ++ List.replicate (offset - b.length) 0 ++ notes
  let header := e.segmentTable + index * 56
  if out.length < header + 56 then throw (.carrier .headerOutOfRange)
  return out.patch (header + 8) (noteHeader offset notes.length)

def embed (b block : Bytes) : Except Fault Bytes :=
  match Executable.detect? b with
  | some .elf => embedNote b block
  | _ => .ok (b ++ block)

structure Summary where
  kind : Option Executable
  carrierSize : Nat
  compressedSize : Nat
  uncompressedSize : Nat
  key : String
  target : Target
  totalSize : Nat
  deriving DecidableEq, Repr

structure Packing where
  codec : Codec
  /-- The target, when it is not to be taken from the carrier. -/
  target : Option Target
  settings : Option Settings

/-- Puts a payload into a carrier that has none yet. -/
def pack (how : Packing) (carrier payload : Bytes) : Except Fault (Bytes × Summary) := do
  if payload.isEmpty then throw (.metadata .emptyPayload)
  if sizeLimit.toNat < payload.length then
    throw (.metadata (.payloadTooLarge payload.length sizeLimit.toNat))
  if (locate carrier).isSome then throw (.carrier .alreadyPressed)
  let target ← (how.target.or (Target.detect? carrier)).elim
    (throw (.carrier .unknownTarget)) pure
  let key := cacheKey payload
  let compressed ← (how.codec.compress payload).mapError .codec
  let m ← (Metadata.make (UInt64.ofNatClamp compressed.length) (UInt64.ofNatClamp payload.length)
    key target how.settings).mapError .metadata
  (m.validate sizeLimit).mapError .metadata
  let image ← embed carrier (m.withPayload compressed)
  return (image, {
    kind := Executable.detect? carrier
    carrierSize := carrier.length
    compressedSize := compressed.length
    uncompressedSize := payload.length
    key
    target
    totalSize := image.length })

end Carrier

end SelfExtract
