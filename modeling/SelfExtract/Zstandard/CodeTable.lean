import SelfExtract.Zstandard.StateTable

/-!
# Prefix codes for literals

A symbol of weight `w` has a code of `log + 1 - w` bits; the weight of the last
symbol is what the others leave of a power of two. The table is indexed by the
next `log` bits. One look at the bits of a stream gives a symbol or, with a
table of pairs, two when both of their codes can be seen.
-/
namespace SelfExtract.Zstandard

def maxCodeLength : Nat := 12

structure CodeTable where
  log : Nat
  cells : Array (UInt8 × Nat)
  /-- One look may give two symbols. -/
  pairs : Bool

namespace CodeTable

/-- Half-byte weights, the first in the high half. -/
def directWeights (b : ByteArray) : Nat → Nat → List Nat
  | 0, _ => []
  | count + 1, i =>
    let x := (byteAt b (1 + i / 2)).toNat
    (if i % 2 = 0 then x / 16 else x % 16) :: directWeights b count (i + 1)

/-- Two states take turns until the bits run out; then the other one gives the last symbol. -/
def alternate (t : StateTable) : Nat → Nat → Nat → BackwardBits → List Nat → Option (List Nat)
  | 0, _, _, _, _ => none
  | fuel + 1, state, other, bits, found =>
    if 253 < found.length then none
    else
      let cell := t.cell state
      let (n, bits) := bits.read cell.bits
      if bits.overrun then some (((t.cell other).symbol :: cell.symbol :: found).reverse)
      else alternate t fuel other (cell.base + n) bits (cell.symbol :: found)

def codedWeights? (b : ByteArray) : Option (List Nat) := do
  let d ← Distribution.read? b 255
  if 6 < d.log then none
  else
    let t ← StateTable.ofShares? d.log d.shares
    let bits ← BackwardBits.of? (b.extract d.size b.size)
    let (first, bits) := bits.read t.log
    let (second, bits) := bits.read t.log
    if bits.overrun then none else alternate t 256 first second bits []

/-- The weights at the start of a byte array, without the last one, and the bytes they take. -/
def weights? (b : ByteArray) : Option (List Nat × Nat) :=
  if b.size = 0 then none
  else
    let head := (byteAt b 0).toNat
    if 128 ≤ head then
      let count := head - 127
      let size := (count + 1) / 2
      if b.size < 1 + size then none else some (directWeights b count 0, 1 + size)
    else if b.size < 1 + head || head = 0 then none
    else (codedWeights? (b.extract 1 (1 + head))).map fun ws => (ws, 1 + head)

def span (weight : Nat) : Nat :=
  if weight = 0 then 0 else 2 ^ (weight - 1)

def cellsOf (log weight : Nat) (ws : List Nat) (symbol : Nat) (cells : Array (UInt8 × Nat)) :
    Array (UInt8 × Nat) :=
  match ws with
  | [] => cells
  | w :: r =>
    cellsOf log weight r (symbol + 1) <|
      if w = weight then
        cells ++ Array.replicate (span weight) (UInt8.ofNat symbol, log + 1 - weight)
      else cells

def cellsFrom (log : Nat) (ws : List Nat) : Nat → Nat → Array (UInt8 × Nat) → Array (UInt8 × Nat)
  | 0, _, cells => cells
  | fuel + 1, weight, cells =>
    cellsFrom log ws fuel (weight + 1) (cellsOf log weight ws 0 cells)

/-- The table of all weights but the last, which completes them to a power of two. -/
def ofWeights? (pairs : Bool) (ws : List Nat) : Option CodeTable :=
  let total := ws.foldl (fun n w => n + span w) 0
  if ws.any (maxCodeLength < ·) || total = 0 then none
  else
    let log := total.log2 + 1
    let rest := 2 ^ log - total
    let last := rest.log2 + 1
    let all := ws ++ [last]
    let ones := all.count 1
    if maxCodeLength < log || 2 ^ (last - 1) != rest || ones < 2 || ones % 2 != 0 then none
    else some ⟨log, cellsFrom log all maxCodeLength 1 #[], pairs⟩

/-- The table at the start of a byte array and the bytes it takes. -/
def read? (pairs : Bool) (b : ByteArray) : Option (CodeTable × Nat) := do
  let (ws, size) ← weights? b
  let t ← ofWeights? pairs ws
  return (t, size)

/-- The costs of decoding by single symbols and by pairs, for coded sizes of so many sixteenths of
the decoded one: each a fixed part and a part for every 256 symbols. -/
def costs : Array ((Nat × Nat) × (Nat × Nat)) := #[
  ((0, 0), (1, 1)), ((0, 0), (1, 1)), ((150, 216), (381, 119)), ((170, 205), (514, 112)),
  ((177, 199), (539, 110)), ((197, 194), (644, 107)), ((221, 192), (735, 107)),
  ((256, 189), (881, 106)), ((359, 188), (1167, 109)), ((582, 187), (1570, 114)),
  ((688, 187), (1712, 122)), ((825, 186), (1965, 136)), ((976, 185), (2131, 150)),
  ((1180, 186), (2070, 175)), ((1377, 185), (1731, 202)), ((1412, 185), (1695, 202))]

/-- Whether `count` symbols in `coded` bytes are decoded by pairs, which must be clearly cheaper. -/
def prefersPairs (count coded : Nat) : Bool :=
  let sixteenths := if count ≤ coded then 15 else coded * 16 / count
  let (single, double) := costs.getD sixteenths ((0, 0), (0, 0))
  let cost (c : Nat × Nat) : Nat := c.1 + c.2 * (count / 256)
  cost double + cost double / 32 < cost single

structure Look where
  first : UInt8
  /-- The second symbol of a pair. -/
  second : Option UInt8
  /-- The bits of all codes that were seen. -/
  bits : Nat
  deriving DecidableEq, Repr

def width (t : CodeTable) : Nat :=
  max 11 t.log

/-- The symbol whose code begins a run of `width` bits, and the length of its code. -/
def symbolIn (t : CodeTable) (window : Nat) : UInt8 × Nat :=
  t.cells.getD (window / 2 ^ (t.width - t.log)) (0, 0)

def look (t : CodeTable) (bits : BackwardBits) : Look :=
  let window := bits.peek t.width
  let (first, length) := t.symbolIn window
  if t.pairs then
    let (second, more) := t.symbolIn (window * 2 ^ length % 2 ^ t.width)
    if length + more ≤ t.width then ⟨first, some second, length + more⟩
    else ⟨first, none, length⟩
  else ⟨first, none, length⟩

end CodeTable

end SelfExtract.Zstandard
