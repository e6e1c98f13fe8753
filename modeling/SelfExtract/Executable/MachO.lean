import SelfExtract.Executable.MachO.LoadCommand

/-!
# Mach-O files

A thin file has one list of load commands, a universal file one for each of
its slices. Segments name sections; a segment without sections is listed by
itself. Names have up to sixteen bytes and end at the first NUL.
-/
namespace SelfExtract.MachO

structure Thin where
  format : Format
  cpu : Nat
  segments : List Segment
  deriving DecidableEq, Repr

structure Slice where
  cpu : Nat
  offset : Nat
  size : Nat
  deriving DecidableEq, Repr

/-- The four bytes that begin a thin file. -/
def format? (b : Bytes) : Option Format :=
  match b.take 4 with
  | [0xFE, 0xED, 0xFA, 0xCE] => some ⟨false, .big⟩
  | [0xFE, 0xED, 0xFA, 0xCF] => some ⟨true, .big⟩
  | [0xCE, 0xFA, 0xED, 0xFE] => some ⟨false, .little⟩
  | [0xCF, 0xFA, 0xED, 0xFE] => some ⟨true, .little⟩
  | _ => none

/-- Reads a thin file, which has room for a header of the wide class whatever its own class. -/
def Thin.read? (b : Bytes) : Option Thin := do
  let f ← format? b
  let headerSize := if f.wide then 32 else 28
  let header ← b.window? 0 32
  let count := f.number header 16
  let size := f.number header 20
  if size / 8 < count || b.length < size then none
  let commands ← LoadCommand.all? f b count headerSize
  let segments := commands.filterMap (·.segment? f)
  let cpu := f.number header 4
  if !commands.all (·.isSound f b) || !startIsKnown cpu commands segments then none
  return ⟨f, cpu, segments⟩

/-- The architectures that a universal file lists, up to the first that is not wholly there. -/
def slices (b : Bytes) : Nat → Nat → List (Option Slice)
  | 0, _ => []
  | count + 1, start =>
    match b.window? start 20 with
    | none => [none]
    | some e =>
      let number (at_ : Nat) : Nat := Bytes.natBE ((e.drop at_).take 4)
      some ⟨number 0, number 8, number 12⟩ :: slices b count (start + 20)

inductive File where
  | thin (t : Thin)
  | universal (slices : List (Option Slice))
  deriving DecidableEq, Repr

def File.read? (b : Bytes) : Option File :=
  if b.take 4 = [0xCA, 0xFE, 0xBA, 0xBE] then
    (b.window? 0 8).map fun header => .universal (slices b (Bytes.natBE (header.drop 4)) 8)
  else (Thin.read? b).map .thin

/-- The processor of a thin file, or of the first slice. -/
def File.cpu? : File → Option Nat
  | .thin t => some t.cpu
  | .universal (some s :: _) => some s.cpu
  | .universal _ => none

/-- The bytes of a slice, none at all when it is not wholly in the file. -/
def Slice.bytes (s : Slice) (b : Bytes) : Bytes :=
  (b.slice? s.offset (s.offset + s.size)).getD []

/-- A name in sixteen bytes. -/
def nameOf? (raw : Bytes) : Option String :=
  Utf8.decode? (raw.takeWhile (· != 0))

/-- The names in `count` section headers of `size` bytes. -/
def sectionNames? (b : Bytes) (size : Nat) : Nat → Nat → Option (List String)
  | 0, _ => some []
  | count + 1, start => do
    let name ← nameOf? ((← b.window? start size).take 16)
    let rest ← sectionNames? b size count (start + size)
    return name :: rest

/-- A segment's name paired with the name of each of its sections, or with none when it has no
sections. -/
def Segment.names? (s : Segment) (f : Format) (b : Bytes) :
    Option (List (String × Option String)) := do
  let name ← nameOf? s.name
  let sections ← sectionNames? b (if f.wide then 80 else 68) s.sectionCount s.sectionStart
  return if sections.isEmpty then [(name, none)] else sections.map fun n => (name, some n)

def Thin.names? (t : Thin) (b : Bytes) : Option (List (String × Option String)) := do
  let names ← t.segments.mapM (·.names? t.format b)
  return names.flatten

/-- The names of all segments and sections in the slices of a universal file. -/
def sliceNames? (b : Bytes) : List (Option Slice) → Option (List (String × Option String))
  | [] => some []
  | none :: _ => none
  | some s :: r => do
    let content := s.bytes b
    let t ← Thin.read? content
    let names ← t.names? content
    let rest ← sliceNames? b r
    return names ++ rest

def names? (b : Bytes) : Option (List (String × Option String)) := do
  match ← File.read? b with
  | .thin t => t.names? b
  | .universal slices => sliceNames? b slices

end SelfExtract.MachO
