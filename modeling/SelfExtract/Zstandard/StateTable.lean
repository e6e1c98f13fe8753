import SelfExtract.Zstandard.Bits

/-!
# Tables of entropy states

A distribution gives every symbol a share of `2 ^ log` states, or marks it as
rarer than one share. The shares are read from a bit-packed description and
spread over the states; every state names a symbol, and how many bits lead to
which next state.
-/
namespace SelfExtract.Zstandard

structure StateCell where
  symbol : Nat
  bits : Nat
  base : Nat
  deriving DecidableEq, Repr, Inhabited

structure StateTable where
  log : Nat
  cells : Array StateCell
  deriving DecidableEq, Repr

namespace StateTable

def cell (t : StateTable) (state : Nat) : StateCell :=
  t.cells.getD state default

/-- A table whose only state stays where it is. -/
def single (symbol : Nat) : StateTable :=
  ⟨0, #[⟨symbol, 0, 0⟩]⟩

/-- The last state still free when the rare symbols have taken one each from the end. -/
def placeRare (shares : List Int) (symbol : Nat) (states : Array Nat) (high : Nat) :
    Array Nat × Nat :=
  match shares with
  | [] => (states, high)
  | share :: r =>
    if share = -1 then placeRare r (symbol + 1) (states.setIfInBounds high symbol) (high - 1)
    else placeRare r (symbol + 1) states high

/-- The next position of the spreading walk that is not above `high`. -/
def advance (size high step : Nat) : Nat → Nat → Nat
  | 0, position => position
  | fuel + 1, position =>
    let next := (position + step) % size
    if next ≤ high then next else advance size high step fuel next

/-- Gives `count` states of the walk to a symbol. -/
def placeShare (size high step symbol : Nat) : Nat → Array Nat → Nat → Array Nat × Nat
  | 0, states, position => (states, position)
  | count + 1, states, position =>
    placeShare size high step symbol count (states.setIfInBounds position symbol)
      (advance size high step size position)

def placeShares (size high step : Nat) (shares : List Int) (symbol : Nat) (states : Array Nat)
    (position : Nat) : Array Nat × Nat :=
  match shares with
  | [] => (states, position)
  | share :: r =>
    let (states, position) := placeShare size high step symbol share.toNat states position
    placeShares size high step r (symbol + 1) states position

/-- The cells of the states in order; `next` counts the states of each symbol. -/
def fill (log : Nat) : List Nat → Array Nat → Array StateCell → Array StateCell
  | [], _, cells => cells
  | symbol :: r, next, cells =>
    let n := next.getD symbol 1
    let bits := log - n.log2
    fill log r (next.setIfInBounds symbol (n + 1))
      (cells.push ⟨symbol, bits, n * 2 ^ bits - 2 ^ log⟩)

def ofShares? (log : Nat) (shares : List Int) : Option StateTable :=
  let size := 2 ^ log
  let (states, high) := placeRare shares 0 (Array.replicate size 0) (size - 1)
  let (states, position) :=
    placeShares size high (size / 2 + size / 8 + 3) shares 0 states 0
  if position = 0 then
    let next := (shares.map fun share => share.natAbs).toArray
    some ⟨log, fill log states.toList next #[]⟩
  else none

end StateTable

structure Distribution where
  log : Nat
  shares : List Int
  size : Nat
  deriving DecidableEq, Repr

namespace Distribution

/-- Counts symbols without a share: runs of three for each pair of set bits, then up to three
more. -/
def zeroRun (b : ByteArray) : Nat → Nat → Nat → Nat × Nat
  | 0, position, run => (position, run)
  | fuel + 1, position, run =>
    let n := bitsAt b position 2
    if n = 3 then zeroRun b fuel (position + 2) (run + 3) else (position + 2, run + n)

/-- Reads shares until none of the table is left to give. `shares` holds those already read, last
first; `remaining` is one more than the states not yet given. -/
def readShares (b : ByteArray) (maxSymbol : Nat) :
    Nat → Nat → Nat → List Int → Option (List Int × Nat)
  | 0, _, _, _ => none
  | fuel + 1, position, remaining, shares =>
    if remaining ≤ 1 then some (shares.reverse, position)
    else if maxSymbol < shares.length then none
    else
      let bits := remaining.log2 + 1
      let threshold := 2 ^ (bits - 1)
      let spare := 2 * threshold - 1 - remaining
      let short := bitsAt b position (bits - 1)
      let long := bitsAt b position bits
      let (value, used) :=
        if short < spare then (short, bits - 1)
        else (if threshold ≤ long then long - spare else long, bits)
      let share : Int := (value : Int) - 1
      let position := position + used
      let remaining := remaining - share.natAbs
      if share = 0 then
        let (position, run) := zeroRun b (8 * b.size) position 0
        readShares b maxSymbol fuel position remaining (List.replicate run 0 ++ share :: shares)
      else readShares b maxSymbol fuel position remaining (share :: shares)

def read? (b : ByteArray) (maxSymbol : Nat) : Option Distribution :=
  let log := bitsAt b 0 4 + 5
  if 15 < log then none
  else
    match readShares b maxSymbol (maxSymbol + 2) 4 (2 ^ log + 1) [] with
    | none => none
    | some (shares, position) =>
      let size := (position + 7) / 8
      if size ≤ b.size ∧ shares.length ≤ maxSymbol + 1 then some ⟨log, shares, size⟩ else none

end Distribution

end SelfExtract.Zstandard
