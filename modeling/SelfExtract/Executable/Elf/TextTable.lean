import SelfExtract.Executable.Elf.Header
import SelfExtract.Text.Utf8

/-!
# Tables of texts in ELF files

The texts of a table are separated by NUL bytes. A table is refused when one
of them is not UTF-8 or when the table is not wholly inside the file.
-/
namespace SelfExtract.Elf

/-- Whether every text of a table that is split at NUL bytes is UTF-8. -/
def isTextTable (table : Bytes) : Bool :=
  (table.splitOn 0).all fun piece => (Utf8.decode? piece).isSome

def textTableAt? (b : Bytes) (start len : Nat) : Option Bytes :=
  (b.slice? start (start + len)).filter isTextTable

/-- The text table in a section, empty when there is no such section. -/
def textTable? (b : Bytes) (sections : List Section) (index : Nat) : Option Bytes :=
  let index := if index = 0xFFFF then (sections.head?.map (·.link)).getD 0 else index
  match sections[index]? with
  | none => some []
  | some s => if s.isInside b then textTableAt? b s.offset s.size else none

/-- The name that begins at an offset of a table of names, for an offset inside the table that does
not split a character. -/
def nameAt? (table : Bytes) (offset : Nat) : Option String :=
  if table.length < offset || table.isEmpty then none
  else if offset = table.length && table.getLast? = some 0 then none
  else if (table.getD offset 0 &&& 0xC0) = 0x80 then none
  else Utf8.decode? ((table.drop offset).takeWhile (· != 0))

end SelfExtract.Elf
