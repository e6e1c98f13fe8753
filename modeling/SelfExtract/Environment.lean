import SelfExtract.Settings
import SelfExtract.Text.Utf8

/-!
# Environments of processes

Names with values, both byte strings. Setting a variable replaces its value. A
started program receives each variable as one byte string, the name and the
value with an equals sign between them, in the order of the names.
-/
namespace SelfExtract

abbrev Environment := List (Bytes × Bytes)

namespace Environment

def equalsSign : UInt8 := 0x3D

def get? (e : Environment) (name : Bytes) : Option Bytes :=
  List.lookup name e

def text? (e : Environment) (name : String) : Option Bytes :=
  e.get? (Utf8.encode name)

def set (e : Environment) (name value : Bytes) : Environment :=
  (name, value) :: e.filter (·.1 != name)

/-- The environment after several variables were set one after the other. -/
def setAll (e : Environment) (pairs : List (Bytes × Bytes)) : Environment :=
  pairs.foldl (fun e p => e.set p.1 p.2) e

/-- The byte strings that a started program receives. -/
def entries (e : Environment) : List Bytes :=
  (e.mergeSort fun a b => decide (a.1 ≤ b.1)).map fun (name, value) => name ++ equalsSign :: value

/-- The variables in received byte strings. The name ends at the first equals sign, and a later
variable replaces an earlier one of the same name; what has no equals sign is passed over. -/
def ofEntries (l : List Bytes) : Environment :=
  l.foldl (fun e b =>
    let name := b.takeWhile (· != equalsSign)
    if name.length < b.length then e.set name (b.drop (name.length + 1)) else e) []

/-- Unset, empty, `0`, and `false` in any case. A value that is not text counts as unset. -/
def isFalsy (value : Option String) : Bool :=
  match value with
  | none => true
  | some v => v.isEmpty || v == "0" || v.map Char.toLower == "false"

/-- The environment forbids looking for releases: by the variable that settings name, on a machine
that builds, or without a terminal. -/
def forbidsUpdate (e : Environment) (u : UpdateSettings) (terminal : Bool) : Bool :=
  (!u.skipEnv.isEmpty && !isFalsy ((e.text? u.skipEnv).bind Utf8.decode?)) ||
    (e.text? "CI").isSome || (e.text? "CONTINUOUS_INTEGRATION").isSome || !terminal

end Environment

end SelfExtract
