import SelfExtract.Executable.Pe.Mapping

/-!
# What the data directories of PE files lead to

Imported libraries with their symbols, the first record for debugging, the
functions that handle exceptions, and certificates must be in the file when
the file names them.
-/
namespace SelfExtract.Pe

def addressSize (wide : Bool) : Nat :=
  if wide then 8 else 4

theorem addressSize_pos (wide : Bool) : 0 < addressSize wide := by
  cases wide <;> decide

/-- The addresses at the start of a byte string, up to the first zero. -/
def addresses? (wide : Bool) (b : Bytes) : Option (List Nat) :=
  match _h : b.window? 0 (addressSize wide) with
  | none => none
  | some e =>
    let n := Bytes.natLE e
    if n = 0 then some [] else (addresses? wide (b.drop (addressSize wide))).map (n :: ·)
termination_by b.length
decreasing_by
  have := Bytes.le_length_of_window? _h
  have := addressSize_pos wide
  simp only [List.length_drop]
  omega

/-- The bit that marks imports by number. -/
def ordinalBit (wide : Bool) : Nat :=
  if wide then 2 ^ 63 else 2 ^ 31

/-- A symbol that is imported by name has a hint and its name in the file, unless its address leads
nowhere. -/
def symbolIsSound (b : Bytes) (m : Mapping) (wide : Bool) (entry : Nat) : Bool :=
  if ordinalBit wide ≤ entry then true
  else
    match m.offset? (entry % 2 ^ 31) with
    | none => true
    | some start => (number? b start 2).isSome && (textAt? b (start + 2)).isSome

def lookupIsSound (b : Bytes) (m : Mapping) (wide : Bool) (start : Nat) : Bool :=
  match addresses? wide (b.drop start) with
  | none => false
  | some entries => entries.all (symbolIsSound b m wide)

/-- An imported library has a name, and addresses, which also stand for its symbols when it has no
table of these. -/
def importIsSound (b : Bytes) (m : Mapping) (wide : Bool) (entry : Bytes) : Bool :=
  let field (start : Nat) : Nat := Bytes.natLE ((entry.drop start).take 4)
  let addresses := m.offset? (field 16)
  (((m.offset? (field 12)).bind (textAt? b)).isSome &&
    (((m.offset? (field 0)).or addresses).all (lookupIsSound b m wide))) &&
    addresses.any fun start => (addresses? wide (b.drop start)).isSome

/-- The entries of a table of imported libraries, up to the one that is all zero. -/
def importEntries? (b : Bytes) : Option (List Bytes) :=
  match _h : b.window? 0 20 with
  | none => none
  | some e =>
    if e.all (· = 0) then some [] else (importEntries? (b.drop 20)).map (e :: ·)
termination_by b.length
decreasing_by
  have := Bytes.le_length_of_window? _h
  simp only [List.length_drop]
  omega

def importsAreSound (b : Bytes) (m : Mapping) (wide : Bool) (d : Directory) : Bool :=
  match (m.offset? d.address).bind fun start => importEntries? (b.drop start) with
  | none => false
  | some entries => entries.all (importIsSound b m wide)

def symbolFileRecord : Nat := 2

/-- The bytes that begin a description of a file with debugging symbols. -/
def symbolFileMark : Nat := 0x53445352

/-- The first record for debugging is there, and when it describes a file with symbols, so is the
description with the name. -/
def debugIsSound (b : Bytes) (m : Mapping) (d : Directory) : Bool :=
  match (m.offset? d.address).bind (b.window? · 28) with
  | none => false
  | some record =>
    let field (start : Nat) : Nat := Bytes.natLE ((record.drop start).take 4)
    let size := field 16
    let start := field 24
    field 12 != symbolFileRecord ||
      (24 ≤ size &&
        match number? b start 4 with
        | none => false
        | some mark => mark != symbolFileMark || start + size ≤ b.length)

/-- Functions that handle exceptions have records of twelve bytes each at a multiple of four. -/
def exceptionsAreSound (m : Mapping) (d : Directory) : Bool :=
  d.size % 12 = 0 && (m.offset? d.address).any (· % 4 = 0)

/-- Certificates follow one another from `start` up to `stop`, at multiples of eight. Each has a
length, a known revision and a known type. -/
def certificatesFrom (b : Bytes) (stop start : Nat) : Bool :=
  if start < stop then
    match b.window? start 8 with
    | none => false
    | some head =>
      let next := start + max 8 (Bytes.natLE (head.take 4))
      next ≤ b.length &&
        [0x100, 0x200].contains (Bytes.natLE ((head.drop 4).take 2)) &&
        [1, 2, 3, 4].contains (Bytes.natLE (head.drop 6)) &&
        certificatesFrom b stop (roundUp 8 next)
  else true
termination_by stop - start
decreasing_by
  simp only [roundUp]
  omega

/-- The certificates, whose place is given in the file and not in memory. -/
def certificatesAreSound (b : Bytes) (d : Directory) : Bool :=
  let stop := d.address + d.size
  stop ≤ b.length && certificatesFrom b stop d.address

/-- The processor whose exception records are read. -/
def machineWithExceptions : Nat := 0x8664

def OptionalHeader.isSound (h : OptionalHeader) (b : Bytes) (machine : Nat)
    (sections : List Section) : Bool :=
  let m : Mapping := ⟨h.fileAlignment, sections⟩
  (h.directory? 1).all (importsAreSound b m h.wide) &&
    (h.directory? 6).all (debugIsSound b m) &&
    (machine != machineWithExceptions || (h.directory? 3).all (exceptionsAreSound m)) &&
    (h.directory? 4).all (certificatesAreSound b)

end SelfExtract.Pe
