import SelfExtract.Fault
import SelfExtract.Source

/-!
# Compression as seen by carriers

A codec turns bytes into other bytes and back. Expanding is told how many
bytes to expect and never gives any other number of them: decoded bytes are
collected to one byte beyond the expected end and no further. Which library
frames the bytes is left open.
-/
namespace SelfExtract

structure Codec where
  /-- The name recorded in sidecars. -/
  algorithm : String
  compress : Bytes → Except CodecFault Bytes
  /-- Expands to exactly the given number of bytes. -/
  expand : Bytes → Nat → Except CodecFault Bytes

structure Compression where
  /-- The frame of some data at a level of compression, or the library's text of a failure. -/
  frame : Int → Bytes → Except String Bytes
  content : Bytes → Source

namespace Codec

def collect (s : Source) (expected : Nat) : Except CodecFault Bytes :=
  match s.collect expected with
  | .error reason => .error (.decoder reason)
  | .ok out =>
    if out.length = expected then .ok out
    else .error (.wrongSize expected (min out.length expected) (expected < out.length))

def expandWith (decode : Bytes → Source) (data : Bytes) (expected : Nat) :
    Except CodecFault Bytes :=
  if data.isEmpty then .error .emptyInput
  else if expected = 0 then .error .zeroSize
  else if addressSpace ≤ expected then .error (.allocation expected)
  else collect (decode data) expected

/-- The level of compression unless another one is given. -/
def defaultLevel : Int := 19

/-- Frames of a library. Expanding them does not depend on the level. -/
def framed (z : Compression) (level : Int) : Codec where
  algorithm := "zstd"
  compress data :=
    if data.isEmpty then .error .emptyInput else (z.frame level data).mapError .encoder
  expand := expandWith z.content

def standard (z : Compression) : Codec :=
  framed z defaultLevel

end Codec

end SelfExtract
