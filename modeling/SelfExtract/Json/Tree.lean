import SelfExtract.Json.Token

/-!
# Syntax trees of JSON texts

A tree keeps numerals and the texts of strings as they are written, and all
members of an object in order, repeated ones included.
-/
namespace SelfExtract.Json

inductive Tree where
  | null
  | bool (b : Bool)
  | number (n : Numeral)
  | text (raw : Bytes)
  | array (elements : List Tree)
  | object (members : List (Bytes × Tree))
  deriving Repr

namespace Tree

mutual

def value? : Nat → List Token → Option (Tree × List Token)
  | 0, _ => none
  | _, [] => none
  | fuel + 1, t :: r =>
    match t with
    | .null => some (.null, r)
    | .true => some (.bool true, r)
    | .false => some (.bool false, r)
    | .number n => some (.number n, r)
    | .text raw => some (.text raw, r)
    | .openArray =>
      match r with
      | .closeArray :: r => some (.array [], r)
      | r => (elements? fuel r).map fun (es, r) => (.array es, r)
    | .openObject =>
      match r with
      | .closeObject :: r => some (.object [], r)
      | r => (members? fuel r).map fun (ms, r) => (.object ms, r)
    | _ => none

def elements? : Nat → List Token → Option (List Tree × List Token)
  | 0, _ => none
  | fuel + 1, ts =>
    match value? fuel ts with
    | some (v, .comma :: r) => (elements? fuel r).map fun (vs, r) => (v :: vs, r)
    | some (v, .closeArray :: r) => some ([v], r)
    | _ => none

def members? : Nat → List Token → Option (List (Bytes × Tree) × List Token)
  | 0, _ => none
  | fuel + 1, .text key :: .colon :: ts =>
    match value? fuel ts with
    | some (v, .comma :: r) => (members? fuel r).map fun (ms, r) => ((key, v) :: ms, r)
    | some (v, .closeObject :: r) => some ([(key, v)], r)
    | _ => none
  | _, _ => none

end

def parse? (b : Bytes) : Option Tree := do
  let ts ← Token.scan? b
  match value? (2 * ts.length + 2) ts with
  | some (v, []) => some v
  | _ => none

end Tree

end SelfExtract.Json
