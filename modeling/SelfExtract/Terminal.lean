import SelfExtract.Program
import SelfExtract.Text.Blank
import SelfExtract.Update.Check
import SelfExtract.Update.Notice

/-!
# Talking with the user

Announcements, questions and the output of commands go to the error stream.
Questions are put only to a terminal; the answer is the first character of a
line that is not blank, and anything but yes or no stands for the default.
-/
namespace SelfExtract

structure Terminal where
  /-- The error stream is shown on a terminal. -/
  interactive : Bool
  /-- What is still to be read. -/
  input : Bytes
  output : Bytes
  errors : Bytes
  deriving DecidableEq, Repr

/-- The first line of an input, with its end, and what follows. -/
def firstLine (input : Bytes) : Bytes × Bytes :=
  let line := input.takeWhile (· != 0x0A)
  (input.take (line.length + 1), input.drop (line.length + 1))

def answerIn (line : Bytes) (default : Bool) : Bool :=
  match (Utf8.decode? line).map fun s => s.toList.dropWhile isBlank with
  | some ('y' :: _) => true
  | some ('Y' :: _) => true
  | some ('n' :: _) => false
  | some ('N' :: _) => false
  | _ => default

def UpdateSettings.defaultsToYes (u : UpdateSettings) : Bool :=
  u.promptDefault = 'y'

namespace Terminal

def start (interactive : Bool) (input : Bytes) : Terminal :=
  ⟨interactive, input, [], []⟩

def display (t : Terminal) (text : String) : Terminal :=
  { t with errors := t.errors ++ Utf8.encode text }

def notify (t : Terminal) (u : UpdateSettings) (current latest : String) : Terminal :=
  t.display (Notice.render true t.interactive u current latest)

def question (u : UpdateSettings) (latest : String) : String :=
  Notice.styled "1" ("Update to " ++ latest ++ "?") ++
    (if u.defaultsToYes then " [Y/n] " else " [y/N] ")

def answer (t : Terminal) (u : UpdateSettings) : Bool :=
  if t.interactive then answerIn (firstLine t.input).1 u.defaultsToYes else u.defaultsToYes

def confirm (t : Terminal) (u : UpdateSettings) (latest : String) : Terminal :=
  if t.interactive then { t.display (question u latest) with input := (firstLine t.input).2 } else t

def absorb (t : Terminal) (e : Ended) : Terminal :=
  { t with output := t.output ++ e.output, errors := t.errors ++ e.errors }

/-- Starts the launcher with the update command. One that cannot be started is passed over. -/
def runUpdate (t : Terminal) (fs : FileSystem) (e : Environment) (launcher : Path)
    (u : UpdateSettings) : Terminal :=
  if u.command.isEmpty then t
  else
    let t := t.display ("Running: \"" ++ displayPath launcher ++ "\" " ++ u.command ++ "\n")
    let args := (blankSeparated u.command.toList).map fun w => Utf8.encode (String.ofList w)
    match fs.execute false launcher args e with
    | .ok ended => t.absorb ended
    | .error _ => t

def play (fs : FileSystem) (e : Environment) (launcher : Path) (u : UpdateSettings)
    (t : Terminal) : UpdateEvent → Terminal
  | .notify current latest => t.notify u current latest
  | .confirm latest => t.confirm u latest
  | .runUpdate => t.runUpdate fs e launcher u

end Terminal

end SelfExtract
