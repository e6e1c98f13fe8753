import SelfExtract.Build.Own
import SelfExtract.Launch.Process

/-!
# The launchers that are built here
-/
namespace SelfExtract

/-- A whole launch: the terminal and the status at its end, and the file system. -/
def Launch.run (l : Launch) (t : Terminal) (fs : FileSystem) : (Terminal × Nat) × FileSystem :=
  l.process Zstandard.own t fs

end SelfExtract
