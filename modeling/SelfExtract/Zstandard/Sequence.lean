import SelfExtract.Zstandard.StateTable

/-!
# Sequences of literals and matches

A sequence copies some literals and then some bytes that were already written.
Its three numbers are coded by a symbol each, which gives a base and a count of
additional bits. Small offset codes stand for one of the three offsets used
last.
-/
namespace SelfExtract.Zstandard

/-- One of the three numbers of a sequence. -/
inductive Part where
  | literals
  | offset
  | match_
  deriving DecidableEq, Repr

namespace Part

def literalCodes : Array (Nat × Nat) := #[
  (0, 0), (1, 0), (2, 0), (3, 0), (4, 0), (5, 0), (6, 0), (7, 0), (8, 0), (9, 0), (10, 0), (11, 0),
  (12, 0), (13, 0), (14, 0), (15, 0), (16, 1), (18, 1), (20, 1), (22, 1), (24, 2), (28, 2), (32, 3),
  (40, 3), (48, 4), (64, 6), (128, 7), (256, 8), (512, 9), (1024, 10), (2048, 11), (4096, 12),
  (8192, 13), (16384, 14), (32768, 15), (65536, 16)]

def matchCodes : Array (Nat × Nat) := #[
  (3, 0), (4, 0), (5, 0), (6, 0), (7, 0), (8, 0), (9, 0), (10, 0), (11, 0), (12, 0), (13, 0),
  (14, 0), (15, 0), (16, 0), (17, 0), (18, 0), (19, 0), (20, 0), (21, 0), (22, 0), (23, 0), (24, 0),
  (25, 0), (26, 0), (27, 0), (28, 0), (29, 0), (30, 0), (31, 0), (32, 0), (33, 0), (34, 0), (35, 1),
  (37, 1), (39, 1), (41, 1), (43, 2), (47, 2), (51, 3), (59, 3), (67, 4), (83, 4), (99, 5),
  (131, 7), (259, 8), (515, 9), (1027, 10), (2051, 11), (4099, 12), (8195, 13), (16387, 14), (32771, 15),
  (65539, 16)]

/-- The base and the additional bits of a code. An offset code is its own count of bits. -/
def code : Part → Nat → Nat × Nat
  | .literals, n => literalCodes.getD n (0, 0)
  | .match_, n => matchCodes.getD n (0, 0)
  | .offset, n => (2 ^ n, n)

def maxCode : Part → Nat
  | .literals => 35
  | .match_ => 52
  | .offset => 31

def maxLog : Part → Nat
  | .literals => 9
  | .match_ => 9
  | .offset => 8

/-- The distribution that needs no description. -/
def standardShares : Part → List Int
  | .literals => [4, 3, 2, 2, 2, 2, 2, 2, 2, 2, 2, 2, 2, 1, 1, 1, 2, 2, 2, 2, 2, 2, 2, 2, 2, 3, 2,
      1, 1, 1, 1, 1, -1, -1, -1, -1]
  | .match_ => [1, 4, 3, 2, 2, 2, 2, 2, 2] ++ List.replicate 37 1 ++ List.replicate 7 (-1)
  | .offset => [1, 1, 1, 1, 1, 1, 2, 2, 2] ++ List.replicate 15 1 ++ List.replicate 5 (-1)

/-- The size of the table that needs no description. -/
def standardLog : Part → Nat
  | .literals => 6
  | .match_ => 6
  | .offset => 5

/-- The table for a part in a block: the standard one, one symbol only, a described one, or the one
used before. Also the bytes that its description takes. -/
def table? (p : Part) (mode : Nat) (previous : Option StateTable) (b : ByteArray) :
    Option (StateTable × Nat) :=
  match mode with
  | 0 => (StateTable.ofShares? p.standardLog p.standardShares).map (·, 0)
  | 1 =>
    let symbol := (byteAt b 0).toNat
    if b.size = 0 || p.maxCode < symbol then none else some (StateTable.single symbol, 1)
  | 2 => do
    let d ← Distribution.read? b p.maxCode
    if p.maxLog < d.log then none
    else
      let t ← StateTable.ofShares? d.log d.shares
      return (t, d.size)
  | _ => previous.map (·, 0)

end Part

structure SequenceTables where
  literals : StateTable
  offset : StateTable
  match_ : StateTable

structure RecentOffsets where
  first : Nat
  second : Nat
  third : Nat
  deriving DecidableEq, Repr

def RecentOffsets.initial : RecentOffsets :=
  ⟨1, 4, 8⟩

/-- The offset that a value stands for, with the offsets after its use. Values above three are new
offsets; the others name a recent one, counted from the second when no literals precede. Zero
stands for an offset that no data can have. -/
def RecentOffsets.use (r : RecentOffsets) (value : Nat) (noLiterals : Bool) :
    Nat × RecentOffsets :=
  if 3 < value then (value - 3, ⟨value - 3, r.first, r.second⟩)
  else
    match value - 1 + (if noLiterals then 1 else 0) with
    | 0 => (r.first, r)
    | 1 => (r.second, ⟨r.second, r.first, r.third⟩)
    | 2 => (r.third, ⟨r.third, r.first, r.second⟩)
    | _ => (r.first - 1, ⟨r.first - 1, r.first, r.second⟩)

structure Sequence where
  literals : Nat
  length : Nat
  offset : Nat
  deriving DecidableEq, Repr

structure SequenceState where
  literals : Nat
  offset : Nat
  match_ : Nat

def nextState (t : StateTable) (state : Nat) (bits : BackwardBits) : Nat × BackwardBits :=
  let cell := t.cell state
  let (n, bits) := bits.read cell.bits
  (cell.base + n, bits)

/-- Decodes `count` sequences that use up all bits; the last one leads to no further state. -/
def decodeSequences (t : SequenceTables) :
    Nat → SequenceState → BackwardBits → RecentOffsets → List Sequence →
    Option (List Sequence × RecentOffsets)
  | 0, _, bits, recent, found =>
    if bits.isExhausted then some (found.reverse, recent) else none
  | count + 1, s, bits, recent, found =>
    let (literalBase, literalBits) := Part.literals.code (t.literals.cell s.literals).symbol
    let (offsetBase, offsetBits) := Part.offset.code (t.offset.cell s.offset).symbol
    let (matchBase, matchBits) := Part.match_.code (t.match_.cell s.match_).symbol
    let (o, bits) := bits.read offsetBits
    let (m, bits) := bits.read matchBits
    let (l, bits) := bits.read literalBits
    let (offset, recent) := recent.use (offsetBase + o) (literalBase + l = 0)
    let found := ⟨literalBase + l, matchBase + m, offset⟩ :: found
    if bits.overrun then none
    else if count = 0 then decodeSequences t 0 s bits recent found
    else
      let (literals, bits) := nextState t.literals s.literals bits
      let (match_, bits) := nextState t.match_ s.match_ bits
      let (offsetState, bits) := nextState t.offset s.offset bits
      decodeSequences t count ⟨literals, offsetState, match_⟩ bits recent found

structure Sequences where
  list : List Sequence
  tables : Option SequenceTables
  recent : RecentOffsets

/-- The number of sequences at the start of a section and the bytes it takes. -/
def sequenceCount? (b : ByteArray) : Option (Nat × Nat) :=
  let head := (byteAt b 0).toNat
  if b.size = 0 then none
  else if head < 128 then some (head, 1)
  else if head < 255 then
    if b.size < 2 then none else some ((head - 128) * 256 + (byteAt b 1).toNat, 2)
  else if b.size < 3 then none
  else some (numberAt b 1 2 + 0x7F00, 3)

def Sequences.read? (b : ByteArray) (previous : Option SequenceTables) (recent : RecentOffsets) :
    Option Sequences := do
  let (count, start) ← sequenceCount? b
  if count = 0 then
    if b.size = start then some ⟨[], previous, recent⟩ else none
  else
    let modes := (byteAt b start).toNat
    if b.size ≤ start || modes % 4 != 0 then none
    let start := start + 1
    let (literals, used) ← Part.literals.table? (modes / 64) (previous.map (·.literals))
      (b.extract start b.size)
    let start := start + used
    let (offset, used) ← Part.offset.table? (modes / 16 % 4) (previous.map (·.offset))
      (b.extract start b.size)
    let start := start + used
    let (match_, used) ← Part.match_.table? (modes / 4 % 4) (previous.map (·.match_))
      (b.extract start b.size)
    let start := start + used
    if b.size ≤ start then none
    let bits ← BackwardBits.of? (b.extract start b.size)
    let (l, bits) := bits.read literals.log
    let (o, bits) := bits.read offset.log
    let (m, bits) := bits.read match_.log
    let tables : SequenceTables := ⟨literals, offset, match_⟩
    let (list, recent) ← decodeSequences tables count ⟨l, o, m⟩ bits recent []
    some ⟨list, some tables, recent⟩

end SelfExtract.Zstandard
