import SelfExtract.Digest.Sha512
import SelfExtract.Fault
import SelfExtract.Marker
import SelfExtract.Settings

/-!
# The block behind the marker

Two sizes, the cache key, the target and a flag make up the first thirty-six
bytes. A settings record follows when the flag is set, then the compressed
payload. Reading takes the width of the record from the kind of settings that
writer and reader agree on.
-/
namespace SelfExtract

/-- Both announced sizes are at most 500 MiB. -/
def sizeLimit : UInt64 := 500 * 1024 * 1024

def keyLength : Nat := 16

/-- The name of a payload in the cache: the first sixteen hexadecimal digits of its digest. -/
def cacheKey (data : Bytes) : String :=
  Hex.encode ((Sha512.digest data).take 8)

/-- Sixteen ASCII hexadecimal digits, either case. -/
def isCacheKey (key : Bytes) : Bool :=
  key.length == keyLength && key.all Hex.isDigitByte

/-- What stands between the marker and the compressed payload. -/
structure Metadata where
  compressedSize : UInt64
  uncompressedSize : UInt64
  /-- The cache key as stored, sixteen bytes of any kind. -/
  key : Bytes
  target : TargetCode
  /-- Whether a settings record follows. -/
  hasSettings : Bool
  /-- The settings, when a record is there and of the expected kind. -/
  settings : Option Settings
  /-- Where the compressed payload begins. -/
  dataOffset : Nat
  deriving DecidableEq, Repr

namespace Metadata

/-- The bytes before the settings record. -/
def fixedSize : Nat := 36

def make (compressedSize uncompressedSize : UInt64) (key : String) (target : Target)
    (settings : Option Settings) : Except MetadataFault Metadata :=
  let k := Utf8.encode key
  if k.length = keyLength then
    .ok ⟨compressedSize, uncompressedSize, k, target.code, settings.isSome, settings, 0⟩
  else .error (.keyLength k.length)

/-- The cache key as text, empty when it is not text. -/
def keyText (m : Metadata) : String :=
  (Utf8.decode? m.key).getD ""

def encode (m : Metadata) : Bytes :=
  Bytes.ofNatLE 8 m.compressedSize.toNat ++ Bytes.ofNatLE 8 m.uncompressedSize.toNat ++ m.key ++
    m.target.bytes ++
    match m.settings with
    | some s => 1 :: s.encode
    | none => [0]

/-- The `count` bytes from `start` on. -/
def block (data : Bytes) (start count : Nat) (b : Block) : Except Fault Bytes :=
  match data.window? start count with
  | some w => .ok w
  | none => .error (.truncated b count)

def read (data : Bytes) (start : Nat) (kind : Settings.Kind) : Except Fault Metadata := do
  let fixed ← block data start fixedSize .metadata
  let number (at_ : Nat) : UInt64 := UInt64.ofNat (Bytes.natLE ((fixed.drop at_).take 8))
  let code (at_ : Nat) : UInt8 := fixed.getD at_ 0
  let hasSettings := code 35 != 0
  let m : Metadata :=
    { compressedSize := number 0
      uncompressedSize := number 8
      key := (fixed.drop 16).take 16
      target := ⟨code 32, code 33, code 34⟩
      hasSettings
      settings := none
      dataOffset := start + fixedSize }
  if hasSettings then
    let record ← block data (start + fixedSize) kind.layout.size .record
    return { m with
      settings := Settings.decode? kind record
      dataOffset := start + fixedSize + kind.layout.size }
  else return m

def readPayload (data : Bytes) (m : Metadata) : Except Fault Bytes :=
  if addressSpace ≤ m.compressedSize.toNat then
    .error (.codec (.allocation m.compressedSize.toNat))
  else block data m.dataOffset m.compressedSize.toNat .payload

def checkSize (field : SizeField) (size limit : UInt64) : Except MetadataFault Unit :=
  if size = 0 then .error (.zeroSize field)
  else if limit < size then .error (.overLimit field size limit)
  else .ok ()

def target? (m : Metadata) : Except MetadataFault Target :=
  (Target.ofCode m.target).mapError .target

/-- Admits metadata whose sizes are in `1..=limit`, whose key is a cache key and whose target is
known; the first fault in this order is reported. -/
def validate (m : Metadata) (limit : UInt64) : Except MetadataFault Unit := do
  checkSize .compressed m.compressedSize limit
  checkSize .uncompressed m.uncompressedSize limit
  if !isCacheKey m.key then throw (.malformedKey m.key)
  discard m.target?

def withPayload (m : Metadata) (compressed : Bytes) : Bytes :=
  Marker.payload.bytes ++ m.encode ++ compressed

end Metadata

end SelfExtract
