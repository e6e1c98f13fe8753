import SelfExtract.Executable.Elf

/-!
# Notes of ELF files

A note has an owner, a type and a description; owner and description are
filled up to a multiple of four bytes. Reading stops at the first record that
does not fit into its segment, and cuts owners at the first NUL byte.
-/
namespace SelfExtract.Elf

structure Note where
  owner : String
  type : UInt32
  description : Bytes
  deriving DecidableEq, Repr

/-- The least multiple of four that is not less. -/
def alignFour (n : Nat) : Nat :=
  (n + 3) / 4 * 4

namespace Note

/-- The bytes of a note whose owner and description have the given sizes. -/
def sizeOf (ownerSize descriptionSize : Nat) : Nat :=
  12 + alignFour ownerSize + alignFour descriptionSize

/-- The note in the bytes of a record whose owner and description have the given sizes. -/
def ofRecord (order : ByteOrder) (record : Bytes) (ownerSize size : Nat) : Note where
  owner := Utf8.decodeLossy (((record.drop 12).take ownerSize).takeWhile (· != 0))
  type := UInt32.ofNat (order.nat ((record.drop 8).take 4))
  description := (record.drop (12 + alignFour ownerSize)).take size

/-- The note at the start of a byte string and what follows it. -/
def first? (order : ByteOrder) (b : Bytes) : Option (Note × Bytes) :=
  match b.window? 0 12 with
  | none => none
  | some head =>
    let ownerSize := order.nat (head.take 4)
    let size := order.nat ((head.drop 4).take 4)
    match b.window? 0 (sizeOf ownerSize size) with
    | none => none
    | some record => some (ofRecord order record ownerSize size, b.drop (sizeOf ownerSize size))

theorem length_lt_of_first? {order : ByteOrder} {b r : Bytes} {n : Note}
    (h : first? order b = some (n, r)) : r.length < b.length := by
  unfold first? at h
  split at h
  · cases h
  · next head hh =>
    have hb : 12 ≤ b.length := by
      have := Bytes.le_length_of_window? hh
      omega
    dsimp only at h
    split at h
    · cases h
    · have hr := congrArg Prod.snd (Option.some.inj h)
      simp only at hr
      rw [← hr, List.length_drop, sizeOf]
      omega

/-- The notes of a segment, after those already found (last first). -/
def parseAfter (order : ByteOrder) (found : List Note) (b : Bytes) : List Note :=
  match _h : first? order b with
  | none => found.reverse
  | some (n, rest) => parseAfter order (n :: found) rest
termination_by b.length
decreasing_by exact length_lt_of_first? _h

def parse (order : ByteOrder) (segment : Bytes) : List Note :=
  parseAfter order [] segment

/-- Zeros that fill up to a multiple of four. -/
def padding (n : Nat) : Bytes :=
  List.replicate (alignFour n - n) 0

def encode (n : Note) : Bytes :=
  let owner := Utf8.encode n.owner ++ [0]
  Bytes.ofNatLE 4 owner.length ++ Bytes.ofNatLE 4 n.description.length ++
    Bytes.ofNatLE 4 n.type.toNat ++ owner ++ padding owner.length ++ n.description ++
    padding n.description.length

end Note

def noteOwners (e : Elf) (b : Bytes) : List String :=
  e.noteSegments.flatMap fun s =>
    match s.bytes? b with
    | none => []
    | some segment => (Note.parse e.format.order segment).map (·.owner)

end SelfExtract.Elf
