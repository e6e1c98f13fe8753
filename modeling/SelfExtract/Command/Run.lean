import SelfExtract.Build.Own
import SelfExtract.Command.Process

/-!
# The commands that are built here
-/
namespace SelfExtract

/-- Writes the program of a pressed file to another file. Gives the size of the program. -/
def Carrier.restore (pid : Nat) (p output : Path) : Proc (Except CommandFault Nat) :=
  restoreWith .zstd pid p output

def Command.run (pid : Nat) (e : Environment) (c : Command) : Proc Outcome :=
  c.process .own pid e

end SelfExtract
