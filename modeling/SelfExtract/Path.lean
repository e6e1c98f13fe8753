import SelfExtract.Text.Utf8

/-!
# Paths

A path is a byte string whose names stand between slashes. Two paths are the
same when their names are, with repeated slashes and dots in the middle left
out; a dot in front is kept.
-/
namespace SelfExtract

abbrev Path := Bytes

namespace Path

def slash : UInt8 := 0x2F

def dot : Bytes := [0x2E]

def dotDot : Bytes := [0x2E, 0x2E]

def ofString (s : String) : Path :=
  Utf8.encode s

def isAbsolute (p : Path) : Bool :=
  p.head? == some slash

/-- A path that ends in a slash asks for a directory. -/
def asksForDirectory (p : Path) : Bool :=
  p.getLast? == some slash

def names (p : Path) : List Bytes :=
  (p.splitOn slash).filter (!·.isEmpty)

/-- The path of something below a directory; an absolute path stands for itself. -/
def join (p q : Path) : Path :=
  if q.isAbsolute then q
  else if p.isEmpty || p.asksForDirectory then p ++ q
  else p ++ slash :: q

/-- The names by which paths are compared: dots count in front of a relative path only. -/
def components (p : Path) : Bool × List Bytes :=
  (p.isAbsolute,
    match p.isAbsolute, p.names with
    | false, n :: r => n :: r.filter (· != dot)
    | _, ns => ns.filter (· != dot))

def same (p q : Path) : Bool :=
  p.components == q.components

def ofComponents (absolute : Bool) (ns : List Bytes) : Path :=
  (if absolute then [slash] else []) ++ (ns.intersperse [slash]).flatten

def parent? (p : Path) : Option Path :=
  let (absolute, ns) := p.components
  if ns.isEmpty then none else some (ofComponents absolute ns.dropLast)

/-- A path followed by those of the directories above it, as far as it names them. -/
def ancestors (p : Path) : List Path :=
  if p.isEmpty then []
  else
    let (absolute, ns) := p.components
    p :: ((List.range ns.length).reverse.map fun k => ofComponents absolute (ns.take k)).filter
      (!·.isEmpty)

end Path

end SelfExtract
