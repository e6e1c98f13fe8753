import SelfExtract.Environment
import SelfExtract.Shell.Script
import SelfExtract.Update.Pattern

/-!
# Running shell scripts

A script runs in an environment with arguments and leaves output, an error
stream and a status. The commands that it can use are `echo`, `printf`,
`exit`, `true`, `false` and `:`; any other command is not found.
-/
namespace SelfExtract

structure Ended where
  status : Nat
  output : Bytes
  errors : Bytes
  deriving DecidableEq, Repr

namespace Shell

structure Machine where
  /-- The name by which the script was started. -/
  name : Bytes
  arguments : List Bytes
  bindings : Environment
  output : Bytes
  errors : Bytes
  status : Nat
  exited : Bool

def decimal (n : Nat) : Bytes :=
  (toString n).toList.map byte

namespace Machine

def value? (m : Machine) : Parameter → Option Bytes
  | .variable name => m.bindings.get? name
  | .position n => if n = 0 then some m.name else m.arguments[n - 1]?
  | .all => none
  | .count => some (decimal m.arguments.length)
  | .status => some (decimal m.status)

def expanded (m : Machine) (p : Parameter) (fallback : Option Fallback) : Bytes :=
  match fallback, m.value? p with
  | none, v => v.getD []
  | some f, none => f.text
  | some f, some v => if f.forEmpty && v.isEmpty then f.text else v

end Machine

/-- Fields that are being built: those that are complete, and the one that is not. -/
structure Fields where
  complete : List Bytes
  current : Option Bytes

namespace Fields

def extend (f : Fields) (b : Bytes) : Fields :=
  { f with current := some (f.current.getD [] ++ b) }

def cut (f : Fields) : Fields :=
  ⟨f.complete ++ f.current.toList, none⟩

def split (f : Fields) (b : Bytes) : Fields :=
  b.foldl (fun f b => if isSpace b || b == byte '\n' then f.cut else f.extend [b]) f

/-- Words that stay as they are; the first one goes on with the open field and the last one stays
open. -/
def join (f : Fields) : List Bytes → Fields
  | [] => f
  | [b] => f.extend b
  | b :: r => join (f.extend b).cut r

end Fields

namespace Machine

def addPiece (m : Machine) (f : Fields) : Piece → Fields
  | .plain b => f.extend b
  | .quoted b => f.extend b
  | .expansion .all _ true => f.join m.arguments
  | .expansion .all _ false => m.arguments.foldl (fun f b => (f.split b).cut) f
  | .expansion p fallback true => f.extend (m.expanded p fallback)
  | .expansion p fallback false => f.split (m.expanded p fallback)

def fields (m : Machine) (ws : List Word) : List Bytes :=
  ws.flatMap fun w => (w.foldl m.addPiece ⟨[], none⟩).cut.complete

/-- The text of a word that is not split. -/
def text (m : Machine) (w : Word) : Bytes :=
  w.flatMap fun
    | .plain b => b
    | .quoted b => b
    | .expansion .all _ _ => (m.arguments.intersperse [byte ' ']).flatten
    | .expansion p fallback _ => m.expanded p fallback

end Machine

def escape? (b : UInt8) : Option UInt8 :=
  if b = byte 'a' then some 7
  else if b = byte 'b' then some 8
  else if b = byte 'f' then some 12
  else if b = byte 'n' then some 10
  else if b = byte 'r' then some 13
  else if b = byte 't' then some 9
  else if b = byte 'v' then some 11
  else if b = byte '\\' then some b
  else none

def unescape : Bytes → Bytes
  | [] => []
  | [b] => [b]
  | b :: c :: r =>
    if b = byte '\\' then
      match escape? c with
      | some e => e :: unescape r
      | none => b :: unescape (c :: r)
    else b :: unescape (c :: r)

def echo (args : List Bytes) : Bytes :=
  let (silent, args) := match args with
    | a :: r => if a = [byte '-', byte 'n'] then (true, r) else (false, a :: r)
    | [] => (false, [])
  unescape ((args.intersperse [byte ' ']).flatten) ++ if silent then [] else [byte '\n']

/-- One pass over a format. Gives the text and the arguments that are left; a directive that is not
known ends it. -/
def format : Bytes → List Bytes → Option (Bytes × List Bytes)
  | [], args => some ([], args)
  | [b], args => if b = byte '%' then none else some ([b], args)
  | b :: c :: r, args =>
    if b = byte '%' then
      if c = byte '%' then (format r args).map fun (t, left) => (c :: t, left)
      else if c = byte 's' then
        (format r args.tail).map fun (t, left) => (args.headD [] ++ t, left)
      else none
    else if b = byte '\\' then
      match escape? c with
      | some e => (format r args).map fun (t, left) => (e :: t, left)
      | none => (format (c :: r) args).map fun (t, left) => (b :: t, left)
    else (format (c :: r) args).map fun (t, left) => (b :: t, left)

/-- The output of `printf`: the format is used again as long as it uses up arguments. -/
def printf (f : Bytes) : Nat → List Bytes → Option Bytes
  | 0, _ => some []
  | passes + 1, args =>
    match format f args with
    | none => none
    | some (t, left) =>
      if left.isEmpty || left.length = args.length then some t
      else (printf f passes left).map (t ++ ·)

def statusOf? (b : Bytes) : Option Nat :=
  if b.isEmpty || !b.all isDigit then none
  else some (b.foldl (fun n d => n * 10 + (d.toNat - (byte '0').toNat)) 0 % 256)

namespace Machine

def write (m : Machine) (toErrors : Bool) (b : Bytes) : Machine :=
  if toErrors then { m with errors := m.errors ++ b } else { m with output := m.output ++ b }

def complain (m : Machine) (line : Nat) (message : String) (status : Nat) : Machine :=
  { m with
    errors := m.errors ++ m.name ++ (": " ++ toString line ++ ": ").toList.map byte ++
      Utf8.encode message ++ [byte '\n']
    status := status }

/-- The end of a script with the status that the argument gives, or with the last one. -/
def leave (m : Machine) (line : Nat) : List Bytes → Machine
  | [] => { m with exited := true }
  | b :: _ =>
    match statusOf? b with
    | some n => { m with status := n, exited := true }
    | none =>
      let m := m.complain line ("exit: Illegal number: " ++ Utf8.decodeLossy b) 2
      { m with exited := true }

def command (m : Machine) (line : Nat) (toErrors : Bool) (name : Bytes) (args : List Bytes) :
    Machine :=
  match Utf8.decode? name with
  | some "echo" => { m.write toErrors (echo args) with status := 0 }
  | some "printf" =>
    match args with
    | [] => m.complain line "printf: usage: printf format [arg ...]" 2
    | f :: args =>
      match printf f (args.length + 1) args with
      | some b => { m.write toErrors b with status := 0 }
      | none => m.complain line "printf: invalid directive" 2
  | some "exit" => m.leave line args
  | some "true" => { m with status := 0 }
  | some ":" => { m with status := 0 }
  | some "false" => { m with status := 1 }
  | _ => m.complain line (Utf8.decodeLossy name ++ ": not found") 127

def fits (m : Machine) (subject : Bytes) (pattern : Word) : Bool :=
  let chars (b : Bytes) := b.map fun x => Char.ofNat x.toNat
  Pattern.accepts (chars (m.text pattern)) (chars subject)

mutual

/-- Runs a statement unless the script has ended. -/
def runStatement (m : Machine) : Statement → Machine
  | .simple line words toErrors =>
    if m.exited then m
    else
      match m.fields words with
      | [] => { m with status := 0 }
      | name :: args => m.command line toErrors name args
  | .forEach name items body =>
    if m.exited then m
    else (m.fields items).foldl
      (fun m item => runAll { m with bindings := m.bindings.set name item } body)
      { m with status := 0 }
  | .choice subject arms =>
    if m.exited then m else runArms { m with status := 0 } (m.text subject) arms

/-- Runs statements one after the other. -/
def runAll (m : Machine) : List Statement → Machine
  | [] => m
  | s :: r => runAll (runStatement m s) r

/-- Runs the first arm that has a pattern for the subject. -/
def runArms (m : Machine) (subject : Bytes) : List (List Word × List Statement) → Machine
  | [] => m
  | (patterns, body) :: r =>
    if patterns.any (m.fits subject) then runAll m body else runArms m subject r

end

end Machine

def bindings (entries : List Bytes) : Environment :=
  (Environment.ofEntries entries).filter fun v => isName v.1

/-- Runs the text of a script. Where it stops being understood, the script ends. -/
def run (name : Bytes) (args : List Bytes) (entries : List Bytes) (text : Bytes) : Ended :=
  let script := readScript text
  let m : Machine := ⟨name, args, bindings entries, [], [], 0, false⟩
  let m := m.runAll script.statements
  let m := if script.complete || m.exited then m
    else m.complain (1 + text.count (byte '\n')) "Syntax error" 2
  ⟨m.status, m.output, m.errors⟩

end Shell

end SelfExtract
