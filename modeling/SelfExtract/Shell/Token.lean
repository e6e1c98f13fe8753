import SelfExtract.Shell.Syntax

/-!
# Tokens of shell scripts

Words and operators. Reading stops at the first operator that is not part of
the language.
-/
namespace SelfExtract.Shell

inductive Token where
  | word (line : Nat) (w : Word)
  | lineEnd
  | semicolon
  /-- The end of an arm, two semicolons. -/
  | armEnd
  /-- The bar between patterns. -/
  | bar
  /-- The parenthesis behind patterns. -/
  | close
  /-- Output goes to the error stream. -/
  | toErrors
  /-- Anything else. -/
  | unknown
  deriving DecidableEq, Repr

def byte (c : Char) : UInt8 :=
  UInt8.ofNat c.toNat

def isOneOf (cs : List Char) (b : UInt8) : Bool :=
  cs.any fun c => byte c == b

/-- The mark of a command inside a word, which is not part of the language. -/
def backquote : UInt8 := 0x60

def apostrophe : UInt8 := 0x27

def doubleQuote : UInt8 := 0x22

def isSpace : UInt8 → Bool :=
  isOneOf [' ', '\t']

def endsWord : UInt8 → Bool :=
  isOneOf [' ', '\t', '\n', ';', '&', '|', '<', '>', '(', ')']

def isDigit (b : UInt8) : Bool :=
  byte '0' ≤ b && b ≤ byte '9'

def beginsName (b : UInt8) : Bool :=
  (byte 'a' ≤ b && b ≤ byte 'z') || (byte 'A' ≤ b && b ≤ byte 'Z') || b == byte '_'

def isNameByte (b : UInt8) : Bool :=
  beginsName b || isDigit b

def isName (b : Bytes) : Bool :=
  b.head?.any beginsName && b.all isNameByte

def parameter? : Bytes → Option (Parameter × Bytes)
  | [] => none
  | b :: r =>
    if b = byte '@' then some (.all, r)
    else if b = byte '#' then some (.count, r)
    else if b = byte '?' then some (.status, r)
    else if isDigit b then some (.position (b.toNat - (byte '0').toNat), r)
    else if beginsName b then some (.variable (b :: r.takeWhile isNameByte), r.dropWhile isNameByte)
    else none

def closeBrace : UInt8 := 0x7D

def openBrace : UInt8 := 0x7B

def fallback? (p : Parameter) (forEmpty quoted : Bool) (b : Bytes) : Option (Piece × Bytes) :=
  match b.dropWhile (· != closeBrace) with
  | [] => none
  | _ :: r => some (.expansion p (some ⟨forEmpty, b.takeWhile (· != closeBrace)⟩) quoted, r)

def braced? (quoted : Bool) (b : Bytes) : Option (Piece × Bytes) := do
  let (p, r) ← parameter? b
  match r with
  | [] => none
  | c :: r =>
    if c = closeBrace then some (.expansion p none quoted, r)
    else if c = byte '-' then fallback? p false quoted r
    else if c = byte ':' then
      match r with
      | d :: r => if d = byte '-' then fallback? p true quoted r else none
      | [] => none
    else none

/-- The expansion behind a dollar sign; one that nothing follows stands for itself. -/
def expansion? (quoted : Bool) : Bytes → Option (Piece × Bytes)
  | [] => some (.quoted [byte '$'], [])
  | b :: r =>
    if b = openBrace then braced? quoted r
    else if b = byte '(' then none
    else
      match parameter? (b :: r) with
      | some (p, r) => some (.expansion p none quoted, r)
      | none => some (.quoted [byte '$'], b :: r)

/-- Text in front of pieces, if there is any. -/
def withText (make : Bytes → Piece) (text : Bytes) (w : Word) : Word :=
  if text.isEmpty then w else make text.reverse :: w

/-- The pieces up to the closing double quote; `text` has been read already, last byte first. -/
def doubleQuoted? : Nat → Bytes → Bytes → Option (Word × Bytes)
  | 0, _, _ => none
  | _, _, [] => none
  | fuel + 1, text, b :: r =>
    if b = doubleQuote then some (withText .quoted text [], r)
    else if b = backquote then none
    else if b = byte '\\' then
      match r with
      | [] => none
      | c :: r =>
        if c = byte '\n' then doubleQuoted? fuel text r
        else if c = byte '$' || c = backquote || c = doubleQuote || c = byte '\\' then
          doubleQuoted? fuel (c :: text) r
        else doubleQuoted? fuel (c :: b :: text) r
    else if b = byte '$' then do
      let (piece, r) ← expansion? true r
      let (w, r) ← doubleQuoted? fuel [] r
      return (withText .quoted text (piece :: w), r)
    else doubleQuoted? fuel (b :: text) r

def word? : Nat → Bytes → Bytes → Option (Word × Bytes)
  | 0, _, _ => none
  | _, text, [] => some (withText .plain text [], [])
  | fuel + 1, text, b :: r =>
    if endsWord b then some (withText .plain text [], b :: r)
    else if b = backquote then none
    else if b = apostrophe then do
      let inside := r.takeWhile (· != apostrophe)
      match r.drop inside.length with
      | [] => none
      | _ :: r =>
        let (w, r) ← word? fuel [] r
        return (withText .plain text (.quoted inside :: w), r)
    else if b = doubleQuote then do
      let (inside, r) ← doubleQuoted? fuel [] r
      let (w, r) ← word? fuel [] r
      return (withText .plain text ((if inside.isEmpty then [.quoted []] else inside) ++ w), r)
    else if b = byte '\\' then
      match r with
      | [] => some (withText .plain (b :: text) [], [])
      | c :: r => do
        let (w, r) ← word? fuel [] r
        return (withText .plain text (if c = byte '\n' then w else .quoted [c] :: w), r)
    else if b = byte '$' then do
      let (piece, r) ← expansion? false r
      let (w, r) ← word? fuel [] r
      return (withText .plain text (piece :: w), r)
    else word? fuel (b :: text) r

def operator (b : UInt8) (r : Bytes) : Token × Bytes :=
  if b = byte ';' then
    match r with
    | c :: s => if c = byte ';' then (.armEnd, s) else (.semicolon, r)
    | [] => (.semicolon, r)
  else if b = byte '|' then
    match r with
    | c :: _ => if c = byte '|' then (.unknown, []) else (.bar, r)
    | [] => (.unknown, [])
  else if b = byte ')' then (.close, r)
  else if b = byte '>' then
    match r with
    | c :: d :: s => if c = byte '&' && d = byte '2' then (.toErrors, s) else (.unknown, [])
    | _ => (.unknown, [])
  else (.unknown, [])

def tokens : Nat → Nat → Bytes → List Token
  | 0, _, _ => []
  | _, _, [] => []
  | fuel + 1, line, b :: r =>
    if isSpace b then tokens fuel line r
    else if b = byte '\n' then .lineEnd :: tokens fuel (line + 1) r
    else if b = byte '#' then tokens fuel line (r.dropWhile (· != byte '\n'))
    else if endsWord b then
      let (t, r) := operator b r
      t :: tokens fuel line r
    else
      match word? (r.length + 2) [] (b :: r) with
      | none => [.unknown]
      | some (w, rest) =>
        let breaks := (r.length - rest.length)
        .word line w :: tokens fuel (line + (r.take breaks).count (byte '\n')) rest

end SelfExtract.Shell
