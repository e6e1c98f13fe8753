import SelfExtract.Environment
import SelfExtract.Path

/-!
# Where the cache is

A variable names the cache or the directory that holds it; otherwise it is in
the user's home, or in the directory for temporary files.
-/
namespace SelfExtract

structure CachePlaces where
  cache : Option Path
  holder : Option Path
  home : Option Path
  temporary : Path
  deriving DecidableEq, Repr

namespace CachePlaces

/-- A path that is not empty. -/
def given (p : Option Path) : Option Path :=
  p.filter (!·.isEmpty)

def root (c : CachePlaces) : Path :=
  match given c.cache, given c.holder, given c.home with
  | some p, _, _ => p
  | none, some p, _ => p.join (Path.ofString "_dlx")
  | none, none, some p => (p.join (Path.ofString ".socket")).join (Path.ofString "_dlx")
  | none, none, none =>
    (c.temporary.join (Path.ofString ".socket")).join (Path.ofString "_dlx")

/-- The home that the system notes for the user who may do everything. -/
def accountHome : Path :=
  Path.ofString "/root"

/-- The places that an environment names; the system knows a home when the environment does not. -/
def ofEnvironment (e : Environment) : CachePlaces where
  cache := e.text? "SOCKET_DLX_DIR"
  holder := e.text? "SOCKET_HOME"
  home := (given (e.text? "HOME")).or (some accountHome)
  temporary := (e.text? "TMPDIR").getD (Path.ofString "/tmp")

end CachePlaces

end SelfExtract
