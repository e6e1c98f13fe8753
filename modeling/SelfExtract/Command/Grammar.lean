import SelfExtract.Command.Value
import SelfExtract.Path

/-!
# The grammar of command lines

An argument is an option, given by its name behind two hyphens or by its letter
behind one, or an operand. The value of an option stands behind an equals sign,
directly behind the letter, or in the next argument, which then must not look
like an option. Behind a lone `--` all arguments are operands. A grammar says
what options and operands do to what has been read before them.
-/
namespace SelfExtract

inductive UsageFault where
  | noCommand
  | unknownCommand (name : Bytes)
  | unknownOption (argument : Bytes)
  | missingValue (option : String)
  | unwantedValue (option : String)
  | repeated (option : String)
  | unexpected (operand : Bytes)
  | missing (argument : String)
  | empty (argument : String)
  | notText (argument : String)
  | value (e : ValueFault)
  deriving DecidableEq, Repr

def UsageFault.message : UsageFault → String
  | .noCommand => "a command is required"
  | .unknownCommand name => "unknown command: " ++ Utf8.decodeLossy name
  | .unknownOption argument => "unknown option: " ++ Utf8.decodeLossy argument
  | .missingValue option => "a value is required for --" ++ option
  | .unwantedValue option => "--" ++ option ++ " takes no value"
  | .repeated option => "--" ++ option ++ " is given more than once"
  | .unexpected operand => "unexpected argument: " ++ Utf8.decodeLossy operand
  | .missing argument => argument ++ " is required"
  | .empty argument => argument ++ " must not be empty"
  | .notText argument => argument ++ " must be text"
  | .value e => e.message

inductive Stop where
  | help
  | version
  | fault (e : UsageFault)
  deriving DecidableEq, Repr

def hyphen : UInt8 := 0x2D

def equals : UInt8 := 0x3D

inductive Word where
  /-- The argument `--`. -/
  | separator
  | named (name : Bytes) (value : Option Bytes)
  | letters (ls : Bytes)
  | operand (b : Bytes)
  deriving DecidableEq, Repr

/-- The parts of an argument; a lone hyphen is an operand. -/
def Word.ofArgument (b : Bytes) : Word :=
  match b with
  | [] => .operand b
  | c :: r =>
    if c != hyphen then .operand b
    else
      match r with
      | [] => .operand b
      | d :: name =>
        if d != hyphen then .letters r
        else if name.isEmpty then .separator
        else
          let front := name.takeWhile (· != equals)
          .named front ((name.drop front.length).tail?)

/-- Whether an argument can be the value of an option before it. -/
def Word.isOperand : Word → Bool
  | .operand _ => true
  | _ => false

/-- What an option does to what has been read so far. -/
inductive Action (σ : Type) where
  | switch (f : σ → Except Stop σ)
  | value (f : Bytes → σ → Except Stop σ)

structure OptionRule (σ : Type) where
  name : String
  letter : Option Char
  action : Action σ

structure Grammar (σ : Type) where
  options : List (OptionRule σ)
  operand : Bytes → σ → Except Stop σ

def OptionRule.help : OptionRule σ :=
  ⟨"help", some 'h', .switch fun _ => .error .help⟩

/-- What an option has come to: it is complete, or its value is in the next argument. -/
inductive Progress (σ : Type) where
  | complete (s : σ)
  | awaiting (name : String) (f : Bytes → Except Stop σ)

namespace Grammar

/-- Options by their letters, as far as one takes the rest for its value. -/
def applyLetters (g : Grammar σ) (arg : Bytes) (s : σ) : Bytes → Except Stop (Progress σ)
  | [] => .ok (.complete s)
  | l :: r =>
    match g.options.find? fun o => o.letter.any fun c => UInt8.ofNat c.toNat == l with
    | none => .error (.fault (.unknownOption arg))
    | some o =>
      match o.action with
      | .switch f => do applyLetters g arg (← f s) r
      | .value f =>
        match r with
        | [] => .ok (.awaiting o.name (f · s))
        | c :: v => return .complete (← f (if c = equals then v else r) s)

def applyNamed (g : Grammar σ) (arg : Bytes) (s : σ) (name : Bytes) (value : Option Bytes) :
    Except Stop (Progress σ) :=
  match g.options.find? fun o => Utf8.encode o.name == name with
  | none => .error (.fault (.unknownOption arg))
  | some o =>
    match o.action, value with
    | .switch f, none => return .complete (← f s)
    | .switch _, some _ => .error (.fault (.unwantedValue o.name))
    | .value f, some v => return .complete (← f v s)
    | .value f, none => .ok (.awaiting o.name (f · s))

/-- Operands only. -/
def readOperands (g : Grammar σ) (s : σ) : List Bytes → Except Stop σ
  | [] => .ok s
  | arg :: r => do readOperands g (← g.operand arg s) r

/-- What a list of arguments makes of what has been read before. -/
def read (g : Grammar σ) (s : σ) : List Bytes → Except Stop σ
  | [] => .ok s
  | arg :: r => do
    match Word.ofArgument arg with
    | .separator => g.readOperands s r
    | .operand b => read g (← g.operand b s) r
    | word =>
      let progress ← match word with
        | .letters ls => g.applyLetters arg s ls
        | .named name value => g.applyNamed arg s name value
        | _ => .ok (.complete s)
      match progress with
      | .complete s => read g s r
      | .awaiting name f =>
        match r with
        | [] => .error (.fault (.missingValue name))
        | v :: r =>
          if (Word.ofArgument v).isOperand then read g (← f v) r
          else .error (.fault (.missingValue name))

end Grammar

/-- A value that may be given once. -/
def once (name : String) (old : Option α) (new : α) : Except Stop (Option α) :=
  if old.isSome then .error (.fault (.repeated name)) else .ok (some new)

def needed (name : String) (x : Option α) : Except Stop α :=
  x.elim (.error (.fault (.missing name))) .ok

/-- A path, which must not be empty. -/
def pathValue (name : String) (b : Bytes) : Except Stop Path :=
  if b.isEmpty then .error (.fault (.empty name)) else .ok b

def textValue (read : String → Except ValueFault α) (name : String) (b : Bytes) :
    Except Stop α :=
  match Utf8.decode? b with
  | none => .error (.fault (.notText name))
  | some text => (read text).mapError fun e => .fault (.value e)

end SelfExtract
