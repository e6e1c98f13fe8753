import SelfExtract.Text.Utf8

/-!
# Fixed-size records

A record is a header followed by text fields. Each field holds the length of
its text, the text and zeros up to the field's limit, so that a record has the
same size whatever it holds. Texts are cut at a character boundary to fit.
Reading looks at nothing behind the announced length of a text.
-/
namespace SelfExtract.Record

/-- A text field: the width of its length and the most bytes its text may have. -/
structure Field where
  name : String
  lengthWidth : Nat
  limit : Nat
  deriving DecidableEq, Repr

def Field.size (f : Field) : Nat :=
  f.lengthWidth + f.limit

def Field.encode (f : Field) (text : String) : Bytes :=
  let t := Utf8.encode (Utf8.truncate f.limit text)
  Bytes.ofNatLE f.lengthWidth t.length ++ t ++ List.replicate (f.limit - t.length) 0

/-- The text in the bytes of a field, unless it announces more than it can hold. -/
def Field.decode? (f : Field) (b : Bytes) : Option String :=
  let len := Bytes.natLE (b.take f.lengthWidth)
  if f.limit < len then none else some (Utf8.decodeLossy ((b.drop f.lengthWidth).take len))

structure Layout where
  magic : Nat
  version : Nat
  /-- Bytes between the version and the first field. -/
  headerSize : Nat
  fields : List Field
  deriving DecidableEq, Repr

namespace Layout

def fieldsSize : List Field → Nat
  | [] => 0
  | f :: fs => f.size + fieldsSize fs

def size (l : Layout) : Nat :=
  6 + l.headerSize + fieldsSize l.fields

def encodeFields : List Field → List String → Bytes
  | f :: fs, t :: ts => f.encode t ++ encodeFields fs ts
  | _, _ => []

def encode (l : Layout) (header : Bytes) (texts : List String) : Bytes :=
  Bytes.ofNatLE 4 l.magic ++ Bytes.ofNatLE 2 l.version ++ header ++ encodeFields l.fields texts

def decodeFields? : List Field → Bytes → Option (List String)
  | [], _ => some []
  | f :: fs, b => do
    let t ← f.decode? b
    let ts ← decodeFields? fs (b.drop f.size)
    return t :: ts

def decode? (l : Layout) (b : Bytes) : Option (Bytes × List String) :=
  if b.length = l.size ∧ Bytes.natLE (b.take 4) = l.magic ∧
      Bytes.natLE ((b.drop 4).take 2) = l.version then
    (decodeFields? l.fields (b.drop (6 + l.headerSize))).map fun texts =>
      ((b.drop 6).take l.headerSize, texts)
  else none

end Layout

end SelfExtract.Record
