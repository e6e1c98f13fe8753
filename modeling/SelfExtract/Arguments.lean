import SelfExtract.Environment

/-!
# Arguments and environment of a wrapped program

The flag `--update-config` is meant for the launcher, with its value in the
same argument or in the next one; all other arguments are handed on. An
argument with a value of its own is looked at only when it is text.
-/
namespace SelfExtract.Arguments

/-- The flag that is not handed on. -/
def flag : Bytes := Utf8.encode "--update-config"

/-- The value behind `--update-config=` in an argument that is text. -/
def inlineValue? (arg : Bytes) : Option String :=
  let front := flag ++ [0x3D]
  if front.isPrefixOf arg && (Utf8.decode? arg).isSome then Utf8.decode? (arg.drop front.length)
  else none

def forwarded : List Bytes → List Bytes
  | [] => []
  | arg :: r =>
    if arg = flag then
      match r with
      | [] => []
      | _ :: r => forwarded r
    else if (inlineValue? arg).isSome then forwarded r
    else arg :: forwarded r

/-- The value of the first flag; a flag at the end has none. -/
def override? : List Bytes → Option String
  | [] => none
  | arg :: r =>
    if arg = flag then r.head?.map Utf8.decodeLossy
    else
      match inlineValue? arg with
      | some v => some v
      | none => override? r

/-- The variables that are set for a wrapped program, in order. The variable for the invoked name is
announced when it has a name, and made empty when it is not set. -/
def childVariables (launcher : Bytes) (key : String) (fakeArgv : Option String)
    (parent : Environment) : List (Bytes × Bytes) :=
  let base := [(Utf8.encode "SMOL_STUB_PATH", launcher),
    (Utf8.encode "SMOL_CACHE_KEY", Utf8.encode key)]
  match fakeArgv with
  | none => base
  | some name =>
    if name.isEmpty then base
    else
      let name := Utf8.encode name
      base ++ (Utf8.encode "SMOL_FAKE_ARGV_NAME", name) ::
        if (parent.get? name).isNone then [(name, [])] else []

/-- The launcher's own path: a given one that is not empty, else the system's, else the name it was
called by. -/
def selfPath (given : Option Bytes) (system : Except String Bytes) (called : Option Bytes) :
    Except String Bytes :=
  match given.filter (!·.isEmpty), system, called.filter (!·.isEmpty) with
  | some path, _, _ => .ok path
  | none, .ok path, _ => .ok path
  | none, .error _, some path => .ok path
  | none, .error e, none => .error e

end SelfExtract.Arguments
