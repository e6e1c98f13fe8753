import SelfExtract.Codec
import SelfExtract.Proc
import SelfExtract.Target.Detect

/-!
# What a program is built with

A program is linked with a library for compression and built for a system, a
processor and possibly for musl. One that is not built for musl still counts
as running on it where the loader of that library is found.
-/
namespace SelfExtract

structure Build where
  compression : Compression
  os : Os
  arch : Arch
  /-- It is built for musl. -/
  musl : Bool

namespace Build

/-- The loaders that only musl systems have. -/
def muslLoaders : List Path :=
  ["/lib/ld-musl-x86_64.so.1", "/lib/ld-musl-aarch64.so.1", "/lib/ld-musl-i386.so.1",
    "/lib/ld-musl-arm.so.1", "/usr/lib/ld-musl-x86_64.so.1",
    "/usr/lib/ld-musl-aarch64.so.1"].map Path.ofString

/-- Whether one of some paths leads to a file or a directory. -/
def findsAny : List Path → Proc Bool
  | [] => return false
  | p :: rest => do
    if ← Proc.call (.isFile p) then return true
    if ← Proc.call (.isDirectory p) then return true
    findsAny rest

def hostLibc (b : Build) : Proc Libc := do
  if b.musl then return .musl
  return if ← findsAny muslLoaders then .musl else .glibc

def host (b : Build) : Proc Target := do
  if b.os = .linux then return .make b.os b.arch (← b.hostLibc)
  return .make b.os b.arch .absent

/-- The target of an executable, which is the host where the executable does not tell. -/
def targetOf (b : Build) (executable : Bytes) : Proc Target :=
  match Target.detect? executable with
  | some target => return target
  | none => b.host

end Build

end SelfExtract
