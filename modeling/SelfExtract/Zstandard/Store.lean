import SelfExtract.Bytes

/-!
# Frames that store data

Data are stored in plain blocks of one frame, which announces their length.
-/
namespace SelfExtract.Zstandard

def plainBlock (last : Bool) (piece : Bytes) : Bytes :=
  Bytes.ofNatLE 3 (piece.length * 8 + (if last then 1 else 0)) ++ piece

/-- Data in plain blocks of at most `65536` bytes, for data of at most `fuel` blocks. -/
def plainBlocks : Nat → Bytes → Bytes
  | 0, _ => []
  | fuel + 1, data =>
    let rest := data.drop 65536
    if rest.isEmpty then plainBlock true data
    else plainBlock false (data.take 65536) ++ plainBlocks fuel rest

/-- A frame that stores data without compressing it. -/
def store (data : Bytes) : Bytes :=
  [0x28, 0xB5, 0x2F, 0xFD, 0xE0] ++ Bytes.ofNatLE 8 data.length ++
    plainBlocks (data.length / 65536 + 1) data

end SelfExtract.Zstandard
