import SelfExtract.Text.Utf8

/-!
# Load commands of Mach-O files

Load commands stand one after the other behind the header. Each announces its
size, but must have the fields of its kind in the file whatever it announces.
Some lead to further bytes: the content of a segment, symbols, or the path of
a library. A file is refused when these are not there.
-/
namespace SelfExtract.MachO

structure Format where
  wide : Bool
  order : ByteOrder
  deriving DecidableEq, Repr

def Format.number (f : Format) (b : Bytes) (start : Nat) : Nat :=
  f.order.nat ((b.drop start).take 4)

def Format.wideNumber (f : Format) (b : Bytes) (start : Nat) : Nat :=
  f.order.nat ((b.drop start).take 8)

/-- A segment and where the headers of its sections are. -/
structure Segment where
  name : Bytes
  sectionCount : Nat
  sectionStart : Nat
  deriving DecidableEq, Repr

structure LoadCommand where
  kind : Nat
  start : Nat
  fields : Bytes
  deriving DecidableEq, Repr

namespace LoadCommand

def fieldSizes : List (Nat × List Nat) := [
  (12, [0xE, 0xF, 0x12, 0x13, 0x14, 0x15, 0x17, 0x27, 0x8000001C]),
  (16, [0x3, 0x4, 0x5, 0x9, 0x16, 0x1D, 0x1E, 0x24, 0x25, 0x26, 0x29, 0x2A, 0x2B, 0x2D, 0x2E,
    0x2F, 0x30, 0x80000033, 0x80000034]),
  (20, [0x6, 0x7, 0x10, 0x21]),
  (24, [0x2, 0xC, 0xD, 0x1B, 0x20, 0x2C, 0x32, 0x80000018, 0x8000001F, 0x80000023, 0x80000028]),
  (32, [0x80000035]),
  (40, [0x11, 0x31]),
  (48, [0x22, 0x80000022]),
  (56, [0x1]),
  (72, [0x19, 0x1A]),
  (80, [0xB])]

/-- The size of the fields of a kind; kinds that are not known have only a kind and a size. -/
def fieldSize (kind : Nat) : Nat :=
  ((fieldSizes.find? fun (_, kinds) => kinds.contains kind).map (·.1)).getD 8

/-- The `count` load commands from `start` on. -/
def all? (f : Format) (b : Bytes) : Nat → Nat → Option (List LoadCommand)
  | 0, _ => some []
  | count + 1, start => do
    let head ← b.window? start 8
    let size := f.number head 4
    if b.length < start + size then none
    let kind := f.number head 0
    let fields ← b.window? start (fieldSize kind)
    let rest ← all? f b count (start + size)
    return ⟨kind, start, fields⟩ :: rest

def isSegment (c : LoadCommand) : Bool :=
  c.kind = 0x1 || c.kind = 0x19

def isSymbolTable (c : LoadCommand) : Bool :=
  c.kind = 0x2

def isThread (c : LoadCommand) : Bool :=
  c.kind = 0x4 || c.kind = 0x5

def isMainThread (c : LoadCommand) : Bool :=
  c.kind = 0x5

def isEntry (c : LoadCommand) : Bool :=
  c.kind = 0x80000028

/-- Libraries, the library that the file itself is, and paths on which libraries are looked for. -/
def hasPath (c : LoadCommand) : Bool :=
  [0xC, 0xD, 0x20, 0x80000018, 0x8000001C, 0x8000001F, 0x80000023].contains c.kind

/-- The content of a segment is in the file when it has any. -/
def hasContent (f : Format) (b : Bytes) (c : LoadCommand) : Bool :=
  let wide := c.kind = 0x19
  let offset := if wide then f.wideNumber c.fields 40 else f.number c.fields 32
  let size := if wide then f.wideNumber c.fields 48 else f.number c.fields 36
  size = 0 || offset + size ≤ b.length

/-- Symbols begin inside the file or at its end, and not behind their names. -/
def hasSymbols (f : Format) (b : Bytes) (c : LoadCommand) : Bool :=
  f.number c.fields 8 ≤ f.number c.fields 16 && f.number c.fields 8 ≤ b.length

/-- The path, which ends with a NUL byte or with the file, is there and is text. -/
def hasText (f : Format) (b : Bytes) (c : LoadCommand) : Bool :=
  let start := c.start + f.number c.fields 8
  start ≤ b.length && (Utf8.decode? ((b.drop start).takeWhile (· != 0))).isSome

def threadWords : Nat := 70

/-- The state of a thread is in the file and not too large. -/
def hasState (f : Format) (b : Bytes) (c : LoadCommand) : Bool :=
  let words := f.number c.fields 12
  c.start + 16 + 4 * words ≤ b.length && words ≤ threadWords

/-- What a load command leads to is in the file. -/
def isSound (f : Format) (b : Bytes) (c : LoadCommand) : Bool :=
  if c.isSegment then c.hasContent f b
  else if c.isSymbolTable then c.hasSymbols f b
  else if c.isThread then c.hasState f b
  else if c.hasPath then c.hasText f b
  else true

/-- The segment that a load command describes. The headers of its sections follow after the room
that a segment of the file's own class takes. -/
def segment? (f : Format) (c : LoadCommand) : Option Segment :=
  if c.isSegment then
    some {
      name := (c.fields.drop 8).take 16
      sectionCount := f.number c.fields (if c.kind = 0x19 then 64 else 48)
      sectionStart := c.start + if f.wide then 72 else 56 }
  else none

end LoadCommand

def Segment.isText (s : Segment) : Bool :=
  s.name.take 7 == [0x5F, 0x5F, 0x54, 0x45, 0x58, 0x54, 0]

/-- Processors whose thread state tells where a program starts. -/
def threadedCpus : List Nat :=
  [0x7, 0xC, 0x1000007, 0x100000C, 0x200000C]

/-- The place where the program starts can be told, as far as load commands speak of one. -/
def startIsKnown (cpu : Nat) (commands : List LoadCommand) (segments : List Segment) : Bool :=
  (threadedCpus.contains cpu || !commands.any (·.isMainThread)) &&
    (segments.any (·.isText) || !commands.any (·.isEntry))

end SelfExtract.MachO
