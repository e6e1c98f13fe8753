import SelfExtract.Json.Tree
import SelfExtract.Text.Utf8

/-!
# JSON values

The value of a tree: strings are texts, numbers are rounded, the members of an
object are sorted by name and the last of several with one name counts. A
value has a greatest depth of nesting; a string has to be well-formed text.
-/
namespace SelfExtract

inductive Json where
  | null
  | bool (b : Bool)
  | number (n : Json.Number)
  | text (s : String)
  | array (elements : List Json)
  | object (members : List (String × Json))
  deriving Repr

namespace Json

def ofInt64 (n : Int64) : Json :=
  .number (if n < 0 then .negative n else .natural n.toUInt64)

def ofNat (n : Nat) : Json :=
  .number (.natural (UInt64.ofNat n))

def ofOption (f : α → Json) : Option α → Json
  | none => .null
  | some x => f x

def hexNumber (a b c d : UInt8) : Nat :=
  [a, b, c, d].foldl (fun n x => n * 16 + (Token.hexDigit? x).getD 0) 0

def shortEscape (e : UInt8) : UInt8 :=
  if e = 0x62 then 0x08
  else if e = 0x66 then 0x0C
  else if e = 0x6E then 0x0A
  else if e = 0x72 then 0x0D
  else if e = 0x74 then 0x09
  else e

/-- The bytes that the body of a string stands for, behind those already read (last first). A
surrogate must have its partner in the next escape. -/
def unescape? (read : Bytes) : Bytes → Option Bytes
  | [] => some read.reverse
  | 0x5C :: 0x75 :: a :: b :: c :: d :: r =>
    let n := hexNumber a b c d
    if 0xDC00 ≤ n && n < 0xE000 then none
    else if 0xD800 ≤ n && n < 0xDC00 then
      match r with
      | 0x5C :: 0x75 :: e :: f :: g :: h :: r =>
        let m := hexNumber e f g h
        if 0xDC00 ≤ m && m < 0xE000 then
          let c := Char.ofNat (0x10000 + (n - 0xD800) * 0x400 + (m - 0xDC00))
          unescape? ((Utf8.encodeChar c).reverse ++ read) r
        else none
      | _ => none
    else unescape? ((Utf8.encodeChar (Char.ofNat n)).reverse ++ read) r
  | 0x5C :: e :: r => unescape? (shortEscape e :: read) r
  | b :: r => unescape? (b :: read) r

def textOf? (raw : Bytes) : Option String :=
  (unescape? [] raw).bind Utf8.decode?

/-- Sorted members with one more, which takes the place of one with the same name. -/
def insertMember (name : String) (v : Json) : List (String × Json) → List (String × Json)
  | [] => [(name, v)]
  | (n, w) :: r =>
    if name < n then (name, v) :: (n, w) :: r
    else if n < name then (n, w) :: insertMember name v r
    else (name, v) :: r

/-- Members in the order of their names, the last of several with one name. -/
def sortMembers (ms : List (String × Json)) : List (String × Json) :=
  ms.foldl (fun sorted (name, v) => insertMember name v sorted) []

mutual

/-- The value of a tree in which at most `depth` arrays and objects are nested. -/
def ofTree? (depth : Nat) : Tree → Option Json
  | .null => some .null
  | .bool b => some (.bool b)
  | .number n => n.value?.map .number
  | .text raw => (textOf? raw).map .text
  | .array es => if depth = 0 then none else (ofTrees? (depth - 1) es).map .array
  | .object ms =>
    if depth = 0 then none else (ofMembers? (depth - 1) ms).map fun ms => .object (sortMembers ms)

def ofTrees? (depth : Nat) : List Tree → Option (List Json)
  | [] => some []
  | t :: r => do
    let v ← ofTree? depth t
    let vs ← ofTrees? depth r
    return v :: vs

def ofMembers? (depth : Nat) : List (Bytes × Tree) → Option (List (String × Json))
  | [] => some []
  | (raw, t) :: r => do
    let name ← textOf? raw
    let v ← ofTree? depth t
    let ms ← ofMembers? depth r
    return (name, v) :: ms

end

end Json

end SelfExtract
