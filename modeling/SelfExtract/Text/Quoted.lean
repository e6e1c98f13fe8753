import SelfExtract.Text.Hex
import SelfExtract.Text.Unprintable

/-!
# Quoted text in messages

Between double quotes, with the usual short escapes and `\u{…}` for
characters that cannot be seen.
-/
namespace SelfExtract.Quoted

def byCodePoint (c : Char) : List Char :=
  ['\\', 'u', '\x7b'] ++ (Hex.ofNat c.toNat).toList ++ ['\x7d']

def encodeChar (c : Char) : List Char :=
  if c = '\x00' then ['\\', '0']
  else if c = '\t' then ['\\', 't']
  else if c = '\r' then ['\\', 'r']
  else if c = '\n' then ['\\', 'n']
  else if c = '"' then ['\\', '"']
  else if c = '\\' then ['\\', '\\']
  else if isUnprintable c then byCodePoint c
  else [c]

def encode (s : String) : String :=
  String.ofList (['"'] ++ s.toList.flatMap encodeChar ++ ['"'])

end SelfExtract.Quoted
