import SelfExtract.Json

/-!
# Reading trees of a known shape

A record is an object whose members have known names, or an array of the
members' values in a fixed order. A known member may occur once; unknown
members are passed over, whatever they hold.
-/
namespace SelfExtract.Json.Tree

def text? : Tree → Option String
  | .text raw => textOf? raw
  | _ => none

def bool? : Tree → Option Bool
  | .bool b => some b
  | _ => none

def int64? : Tree → Option Int64
  | .number n =>
    match n.value? with
    | some (.natural n) => if n.toNat < 2 ^ 63 then some n.toInt64 else none
    | some (.negative n) => some n
    | _ => none
  | _ => none

/-- An integer of sixty-four bits without a sign. -/
def uint64? : Tree → Option UInt64
  | .number n =>
    match n.value? with
    | some (.natural n) => some n
    | _ => none
  | _ => none

def optional? (read : Tree → Option α) : Tree → Option (Option α)
  | .null => some none
  | t => (read t).map some

/-- The known members of an object, each of which may occur once. -/
def known? (names : List String) : List (Bytes × Tree) → Option (List (String × Tree))
  | [] => some []
  | (raw, t) :: r => do
    let name ← textOf? raw
    let rest ← known? names r
    if names.contains name then
      if rest.any (·.1 == name) then none else some ((name, t) :: rest)
    else some rest

/-- The members of a record in the order of their names. An array must hold at least `least` of
them. -/
def record? (names : List String) (least : Nat) : Tree → Option (List (Option Tree))
  | .array es =>
    if es.length < least || names.length < es.length then none
    else some (es.map some ++ List.replicate (names.length - es.length) none)
  | .object ms => (known? names ms).map fun found => names.map fun n => List.lookup n found
  | _ => none

def member? (read : Tree → Option α) : Option Tree → Option (Option α)
  | none => some none
  | some t => t.optional? read

def required? (read : Tree → Option α) : Option Tree → Option α
  | none => none
  | some t => read t

/-- A member that has a default when it is absent, though not when it is null. -/
def defaulted? (read : Tree → Option α) (default : α) : Option Tree → Option α
  | none => some default
  | some t => read t

end SelfExtract.Json.Tree
