import SelfExtract.Bytes

/-!
# What a wrapped program runs on

Operating system, processor and C library, each with a one-byte code and a
name. Only Linux programs name a C library.
-/
namespace SelfExtract

inductive Os where
  | linux
  | darwin
  | win32
  deriving DecidableEq, Repr

inductive Arch where
  | x64
  | arm64
  | ia32
  | arm
  deriving DecidableEq, Repr

inductive Libc where
  | glibc
  | musl
  | absent
  deriving DecidableEq, Repr

namespace Os

def code : Os → UInt8
  | .linux => 0
  | .darwin => 1
  | .win32 => 2

def ofCode? : UInt8 → Option Os
  | 0 => some .linux
  | 1 => some .darwin
  | 2 => some .win32
  | _ => none

def name : Os → String
  | .linux => "linux"
  | .darwin => "darwin"
  | .win32 => "win32"

/-- Accepts a second name for two systems. -/
def ofName? : String → Option Os
  | "linux" => some .linux
  | "darwin" | "macos" => some .darwin
  | "win32" | "windows" => some .win32
  | _ => none

theorem ofCode?_code (o : Os) : ofCode? o.code = some o := by
  cases o <;> rfl

end Os

namespace Arch

def code : Arch → UInt8
  | .x64 => 0
  | .arm64 => 1
  | .ia32 => 2
  | .arm => 3

def ofCode? : UInt8 → Option Arch
  | 0 => some .x64
  | 1 => some .arm64
  | 2 => some .ia32
  | 3 => some .arm
  | _ => none

def name : Arch → String
  | .x64 => "x64"
  | .arm64 => "arm64"
  | .ia32 => "ia32"
  | .arm => "arm"

/-- Accepts the usual other names of a processor. -/
def ofName? : String → Option Arch
  | "x64" | "x86_64" | "amd64" => some .x64
  | "arm64" | "aarch64" => some .arm64
  | "ia32" | "x86" | "i686" => some .ia32
  | "arm" => some .arm
  | _ => none

theorem ofCode?_code (a : Arch) : ofCode? a.code = some a := by
  cases a <;> rfl

end Arch

namespace Libc

def code : Libc → UInt8
  | .glibc => 0
  | .musl => 1
  | .absent => 255

def ofCode? : UInt8 → Option Libc
  | 0 => some .glibc
  | 1 => some .musl
  | 255 => some .absent
  | _ => none

def name : Libc → String
  | .glibc => "glibc"
  | .musl => "musl"
  | .absent => "n/a"

def ofName? : String → Option Libc
  | "glibc" | "gnu" => some .glibc
  | "musl" => some .musl
  | "none" | "n/a" => some .absent
  | _ => none

theorem ofCode?_code (l : Libc) : ofCode? l.code = some l := by
  cases l <;> rfl

end Libc

structure TargetCode where
  os : UInt8
  arch : UInt8
  libc : UInt8
  deriving DecidableEq, Repr

def TargetCode.bytes (c : TargetCode) : Bytes :=
  [c.os, c.arch, c.libc]

inductive TargetError where
  | unknownOs (code : UInt8)
  | unknownArch (code : UInt8)
  | unknownLibc (code : UInt8)
  deriving DecidableEq, Repr

def TargetError.message : TargetError → String
  | .unknownOs code => "unknown platform id: " ++ toString code.toNat
  | .unknownArch code => "unknown arch id: " ++ toString code.toNat
  | .unknownLibc code => "unknown libc id: " ++ toString code.toNat

structure Target where
  os : Os
  arch : Arch
  libc : Libc
  deriving DecidableEq, Repr

namespace Target

/-- A target whose C library is kept only on Linux. -/
def make (os : Os) (arch : Arch) (libc : Libc) : Target :=
  ⟨os, arch, if os = .linux then libc else .absent⟩

def code (t : Target) : TargetCode :=
  ⟨t.os.code, t.arch.code, t.libc.code⟩

/-- The target with the given codes; they are taken as they are, also where `make` would not give
them. -/
def ofCode (c : TargetCode) : Except TargetError Target :=
  match Os.ofCode? c.os, Arch.ofCode? c.arch, Libc.ofCode? c.libc with
  | some os, some arch, some libc => .ok ⟨os, arch, libc⟩
  | none, _, _ => .error (.unknownOs c.os)
  | _, none, _ => .error (.unknownArch c.arch)
  | _, _, none => .error (.unknownLibc c.libc)

theorem ofCode_code (t : Target) : ofCode t.code = .ok t := by
  simp [ofCode, code, Os.ofCode?_code, Arch.ofCode?_code, Libc.ofCode?_code]

/-- `linux-x64` or `linux-x64-musl`; the other C libraries go unsaid. -/
def name (t : Target) : String :=
  t.os.name ++ "-" ++ t.arch.name ++ (if t.libc = .musl then "-musl" else "")

end Target

end SelfExtract
