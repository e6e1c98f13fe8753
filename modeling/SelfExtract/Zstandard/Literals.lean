import SelfExtract.Zstandard.CodeStream

/-!
# Literals of a block

A compressed block begins with its literals: plain bytes, one byte repeated, or
coded symbols, with codes of their own or those used before.
-/
namespace SelfExtract.Zstandard

structure Literals where
  bytes : ByteArray
  codes : Option CodeTable
  size : Nat
  /-- The bytes are stored as they are. -/
  plain : Bool

/-- `count` copies of a byte behind a byte array. -/
def pushMany (out : ByteArray) (x : UInt8) : Nat → ByteArray
  | 0 => out
  | count + 1 => pushMany (out.push x) x count

namespace Literals

def plainHeader (b : ByteArray) : Nat × Nat :=
  match (byteAt b 0).toNat / 4 % 4 with
  | 1 => (numberAt b 0 2 / 16, 2)
  | 3 => (numberAt b 0 3 / 16, 3)
  | _ => ((byteAt b 0).toNat / 8, 1)

/-- Decoded length, coded length, whether there is one stream only, and the bytes of the header. -/
def codedHeader (b : ByteArray) : Nat × Nat × Bool × Nat :=
  match (byteAt b 0).toNat / 4 % 4 with
  | 0 => (numberAt b 0 3 / 16 % 1024, numberAt b 0 3 / 16384, true, 3)
  | 1 => (numberAt b 0 3 / 16 % 1024, numberAt b 0 3 / 16384, false, 3)
  | 2 => (numberAt b 0 4 / 16 % 16384, numberAt b 0 4 / 262144, false, 4)
  | _ => (numberAt b 0 5 / 16 % 262144, numberAt b 0 5 / 4194304, false, 5)

def decode? (t : CodeTable) (single : Bool) (data : ByteArray) (count : Nat) : Option ByteArray :=
  if single then t.decodeStream? data count ByteArray.empty else t.decodeFour? data count

/-- Reads the literals section at the start of a block, which may have at most `limit` literals. -/
def read? (b : ByteArray) (previous : Option CodeTable) (limit : Nat) : Option Literals :=
  if b.size < 2 then none
  else
    match (byteAt b 0).toNat % 4 with
    | 0 =>
      let (count, start) := plainHeader b
      if limit < count || b.size < start + count then none
      else some ⟨b.extract start (start + count), previous, start + count, true⟩
    | 1 =>
      let (count, start) := plainHeader b
      if limit < count || b.size < start + 1 then none
      else some ⟨pushMany ByteArray.empty (byteAt b start) count, previous, start + 1, false⟩
    | type => do
      let (count, coded, single, start) := codedHeader b
      if b.size < 5 || limit < count || b.size < start + coded then none
      let data := b.extract start (start + coded)
      if type = 3 then
        let t ← previous
        let bytes ← decode? t single data count
        some ⟨bytes, some t, start + coded, false⟩
      else
        let pairs := !single && CodeTable.prefersPairs count coded
        let (t, used) ← CodeTable.read? pairs data
        if data.size ≤ used then none
        let bytes ← decode? t single (data.extract used data.size) count
        some ⟨bytes, some t, start + coded, false⟩

end Literals

end SelfExtract.Zstandard
