import SelfExtract.Fault
import SelfExtract.Path
import SelfExtract.SeaConfig

/-!
# Why a command of the user fails

A command fails for a cause of the carrier or the cache, for settings that are
refused, or because it cannot find or use a file.
-/
namespace SelfExtract

inductive CommandFault where
  | carrier (e : Fault)
  | config (e : ConfigFault)
  | fileNotFound (path : Path)
  | entryNotFound (key : String)
  /-- An operation on a file failed. -/
  | io (operation : String) (path : Path) (e : IoError)
  deriving DecidableEq, Repr

def CommandFault.message : CommandFault → String
  | .carrier e => e.message
  | .config e => "invalid config: " ++ e.message
  | .fileNotFound path => "file not found: " ++ displayPath path
  | .entryNotFound key => "cache entry not found: " ++ key
  | .io operation path e => operation ++ " failed: " ++ displayPath path ++ ": " ++ e.message

end SelfExtract
