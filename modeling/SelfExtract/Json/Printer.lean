import SelfExtract.Decimal.Shortest
import SelfExtract.Json
import SelfExtract.Text.Hex

/-!
# Printing JSON values

On one line without blanks, or spread over lines with two blanks for each
level. Characters outside ASCII stand for themselves.
-/
namespace SelfExtract.Json

def escapeChar (c : Char) : List Char :=
  if c = '"' then ['\\', '"']
  else if c = '\\' then ['\\', '\\']
  else if c = '\x08' then ['\\', 'b']
  else if c = '\x0C' then ['\\', 'f']
  else if c = '\n' then ['\\', 'n']
  else if c = '\r' then ['\\', 'r']
  else if c = '\t' then ['\\', 't']
  else if c.toNat < 0x20 then
    ['\\', 'u', '0', '0', Hex.digit (c.toNat / 16), Hex.digit (c.toNat % 16)]
  else [c]

def quote (s : String) : List Char :=
  '"' :: (s.toList.flatMap escapeChar ++ ['"'])

def Number.print : Number → List Char
  | .natural n => (toString n.toNat).toList
  | .negative n => (toString n.toInt).toList
  | .binary bits => (Shortest.text bits).toList

inductive Style where
  /-- On one line without blanks. -/
  | compact
  /-- Each element on a line of its own. -/
  | spread
  deriving DecidableEq, Repr

def Style.lineBreak (s : Style) (depth : Nat) : List Char :=
  match s with
  | .compact => []
  | .spread => '\n' :: List.replicate (2 * depth) ' '

def Style.colon : Style → List Char
  | .compact => [':']
  | .spread => [':', ' ']

mutual

def print (s : Style) (depth : Nat) : Json → List Char
  | .null => ['n', 'u', 'l', 'l']
  | .bool true => ['t', 'r', 'u', 'e']
  | .bool false => ['f', 'a', 'l', 's', 'e']
  | .number n => n.print
  | .text t => quote t
  | .array [] => ['[', ']']
  | .array (v :: vs) =>
    '[' :: (s.lineBreak (depth + 1) ++ print s (depth + 1) v ++ printRest s (depth + 1) vs ++
      s.lineBreak depth ++ [']'])
  | .object [] => ['\x7b', '\x7d']
  | .object ((n, v) :: ms) =>
    '\x7b' :: (s.lineBreak (depth + 1) ++ quote n ++ s.colon ++ print s (depth + 1) v ++
      printMembers s (depth + 1) ms ++ s.lineBreak depth ++ ['\x7d'])

def printRest (s : Style) (depth : Nat) : List Json → List Char
  | [] => []
  | v :: vs => ',' :: (s.lineBreak depth ++ print s depth v ++ printRest s depth vs)

def printMembers (s : Style) (depth : Nat) : List (String × Json) → List Char
  | [] => []
  | (n, v) :: ms =>
    ',' :: (s.lineBreak depth ++ quote n ++ s.colon ++ print s depth v ++ printMembers s depth ms)

end

def compact (v : Json) : String :=
  String.ofList (print .compact 0 v)

def pretty (v : Json) : String :=
  String.ofList (print .spread 0 v)

end SelfExtract.Json
