import SelfExtract.Bytes

/-!
# Shell scripts

The part of the shell language that small wrapped programs are written in:
simple commands, loops over words and choices by pattern. Words are made of
text and of expansions of parameters.
-/
namespace SelfExtract.Shell

inductive Parameter where
  | variable (name : Bytes)
  /-- An argument, or the name of the script for zero. -/
  | position (n : Nat)
  /-- All arguments. -/
  | all
  /-- The number of arguments. -/
  | count
  /-- The status of the last command. -/
  | status
  deriving DecidableEq, Repr

structure Fallback where
  /-- Also in place of an empty parameter, and not only of an unset one. -/
  forEmpty : Bool
  text : Bytes
  deriving DecidableEq, Repr

inductive Piece where
  | plain (text : Bytes)
  | quoted (text : Bytes)
  | expansion (p : Parameter) (fallback : Option Fallback) (quoted : Bool)
  deriving DecidableEq, Repr

/-- A word before expansion. -/
abbrev Word := List Piece

inductive Statement where
  /-- A command on a line, possibly with its output sent to the error stream. -/
  | simple (line : Nat) (words : List Word) (toErrors : Bool)
  /-- A loop in which a variable takes the value of each word. -/
  | forEach (name : Bytes) (items : List Word) (body : List Statement)
  /-- The first arm with a pattern for the subject. -/
  | choice (subject : Word) (arms : List (List Word × List Statement))
  deriving Repr

/-- The text of a word without quotes and expansions. -/
def plainText? : Word → Option Bytes
  | [.plain b] => some b
  | _ => none

end SelfExtract.Shell
