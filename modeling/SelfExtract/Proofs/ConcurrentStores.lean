import Mathlib
import SelfExtract.Proofs.EntryWrites
import SelfExtract.Proofs.SharedFiles

/-!
# Storing without locks

Processes of different numbers store programs in one cache, in any order of
their steps, and any of them may fail or crash at any time. Nobody ever sees a
part of a program or of a sidecar, since these get their names only when they
are complete.
-/
namespace SelfExtract

open FileSystem

namespace Cache

structure Writer where
  pid : Nat
  stores : List (Os × CacheRequest)

variable {fs fs' : FileSystem} {root : Path} {c : Cache} {key : String} {l d : Location}
  {name : Bytes} {mode : Nat} {data : Bytes}

section Writers

/-- What a process may do that stores one program after the other. -/
def Writer.May (root : Path) (w : Writer) (p : Path) (o : Option Node) : Prop :=
  ∃ s ∈ w.stores, (Cache.mk root s.1).Stores w.pid s.2 p o

variable {ι : Type} [DecidableEq ι] {writers : ι → Writer} {fs₀ : FileSystem}

end Writers

section OneEntry

def oneByte (key : String) (b : UInt8) : CacheRequest where
  key := key
  data := [b]
  source := Path.ofString "/stub"
  integrity := integrityOf [b]
  algorithm := "zstd"
  compressedSize := 1
  update := none
  now := 0

end OneEntry

end Cache

end SelfExtract
