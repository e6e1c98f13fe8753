import SelfExtract.Executable.Pe
import SelfExtract.Text.Utf16

/-!
# Resource directories of PE files

A directory lists entries by name or by number, each leading to data or to a
further directory. Raw data are the entries of the first level with number
ten; their own entries carry the names. Whatever is malformed ends the list
that it belongs to.
-/
namespace SelfExtract.Pe

inductive ResourceKey where
  | number (n : Nat)
  | name (s : String)
  deriving DecidableEq, Repr

structure ResourceEntry where
  key : ResourceKey
  directory : Option Nat
  deriving DecidableEq, Repr

/-- The sixteen-bit units in a byte string, low byte first. -/
def units : Bytes → List Nat
  | a :: b :: r => (a.toNat + 256 * b.toNat) :: units r
  | _ => []

/-- The name at a position: a count of units, then the units. -/
def resourceName? (b : Bytes) (start : Nat) : Option String := do
  let count ← number? b start 2
  let raw ← b.window? (start + 2) (2 * count)
  return Utf16.decodeLossy (units raw)

/-- The top bit, which marks names and directories. -/
def topBit : Nat := 2 ^ 31

def resourceEntry? (b : Bytes) (start : Nat) : Option ResourceEntry := do
  let name ← number? b start 4
  let target ← number? b (start + 4) 4
  let key ← if topBit ≤ name then (resourceName? b (name - topBit)).map .name
    else some (.number (name % 65536))
  return ⟨key, if topBit ≤ target then some (target - topBit) else none⟩

/-- `count` entries from `start` on, up to the first malformed one. -/
def entriesFrom (b : Bytes) : Nat → Nat → List ResourceEntry
  | 0, _ => []
  | count + 1, start =>
    match resourceEntry? b start with
    | none => []
    | some e => e :: entriesFrom b count (start + 8)

def resourceEntries (b : Bytes) (directory : Nat) : List ResourceEntry :=
  match number? b (directory + 12) 2, number? b (directory + 14) 2 with
  | some named, some numbered => entriesFrom b (named + numbered) (directory + 16)
  | _, _ => []

def rawData : Nat := 10

/-- The names in the directory that an entry of raw data leads to. -/
def namesUnder (b : Bytes) (e : ResourceEntry) : List String :=
  match e.key, e.directory with
  | .number n, some directory =>
    if n = rawData then
      (resourceEntries b directory).filterMap fun inner =>
        match inner.key with
        | .name s => some s
        | .number _ => none
    else []
  | _, _ => []

def resourceNames (b : Bytes) : List String :=
  (resourceEntries b 0).flatMap (namesUnder b)

def fileResourceNames (p : Pe) (b : Bytes) : List String :=
  ((p.resourceBytes? b).map resourceNames).getD []

end SelfExtract.Pe
