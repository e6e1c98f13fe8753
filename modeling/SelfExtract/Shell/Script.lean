import SelfExtract.Shell.Token

/-!
# Reading shell scripts

The statements of a script, as far as they can be understood.
-/
namespace SelfExtract.Shell

structure Script where
  statements : List Statement
  complete : Bool
  deriving Repr

/-- A word that is written without quotes. -/
def isWord (text : String) : Token → Bool
  | .word _ w => plainText? w == some (text.toList.map byte)
  | _ => false

def endsBody (t : Token) : Bool :=
  t == .armEnd || isWord "done" t || isWord "esac" t

def isBreak (t : Token) : Bool :=
  t == .lineEnd || t == .semicolon

def leadingWords : List Token → List Word × List Token
  | .word _ w :: r => let (ws, r) := leadingWords r; (w :: ws, r)
  | r => ([], r)

/-- The words of a command, and whether its output goes to the error stream. -/
def commandParts : List Token → List Word × Bool × List Token
  | .word _ w :: r => let (ws, e, r) := commandParts r; (w :: ws, e, r)
  | .toErrors :: r => let (ws, _, r) := commandParts r; (ws, true, r)
  | r => ([], false, r)

def expect (text : String) : List Token → Option (List Token)
  | [] => none
  | t :: r => if isWord text t then some r else none

def patterns? : List Token → Option (List Word × List Token)
  | .word _ w :: .close :: r => some ([w], r)
  | .word _ w :: .bar :: r => (patterns? r).map fun (ws, r) => (w :: ws, r)
  | _ => none

mutual

def statements : Nat → List Token → List Statement × List Token
  | 0, ts => ([], ts)
  | fuel + 1, ts =>
    match ts.dropWhile isBreak with
    | [] => ([], [])
    | t :: r =>
      if endsBody t then ([], t :: r)
      else
        match statement? fuel (t :: r) with
        | none => ([], t :: r)
        | some (s, r) => let (ss, r) := statements fuel r; (s :: ss, r)

def statement? : Nat → List Token → Option (Statement × List Token)
  | 0, _ => none
  | _, [] => none
  | fuel + 1, t :: r =>
    if isWord "for" t then
      match r with
      | .word _ name :: r => do
        let name ← plainText? name
        if !isName name then none
        let r ← expect "in" r
        let (items, r) := leadingWords r
        let r ← expect "do" (r.dropWhile isBreak)
        let (body, r) := statements fuel r
        let r ← expect "done" r
        return (.forEach name items body, r)
      | _ => none
    else if isWord "case" t then
      match r with
      | .word _ subject :: r => do
        let r ← expect "in" r
        let (arms, r) ← arms? fuel r
        return (.choice subject arms, r)
      | _ => none
    else
      match t with
      | .word line _ =>
        let (words, toErrors, r) := commandParts (t :: r)
        match r with
        | [] => some (.simple line words toErrors, [])
        | e :: _ =>
          if isBreak e || endsBody e then some (.simple line words toErrors, r) else none
      | _ => none

def arms? : Nat → List Token → Option (List (List Word × List Statement) × List Token)
  | 0, _ => none
  | fuel + 1, ts => do
    let ts := ts.dropWhile (· == .lineEnd)
    match expect "esac" ts with
    | some r => return ([], r)
    | none =>
      let (ps, r) ← patterns? ts
      let (body, r) := statements fuel r
      match r with
      | .armEnd :: r =>
        let (arms, r) ← arms? fuel r
        return ((ps, body) :: arms, r)
      | r =>
        let r ← expect "esac" r
        return ([(ps, body)], r)

end

def readScript (text : Bytes) : Script :=
  let ts := tokens (text.length + 1) 1 text
  let (ss, rest) := statements (2 * ts.length + 2) ts
  ⟨ss, rest.isEmpty⟩

end SelfExtract.Shell
