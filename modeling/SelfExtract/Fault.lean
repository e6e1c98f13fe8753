import SelfExtract.IoError
import SelfExtract.Target
import SelfExtract.Text.Quoted
import SelfExtract.Text.Utf8

/-!
# What can go wrong with an embedded payload

Each constructor is a cause; the messages are made from the causes in one
place. Paths are byte strings and are shown with U+FFFD where they are not
text.
-/
namespace SelfExtract

def displayPath (path : Bytes) : String :=
  Utf8.decodeLossy path

inductive CodecFault where
  /-- There is nothing to work on. -/
  | emptyInput
  /-- No output is expected. -/
  | zeroSize
  /-- More output is expected than memory can ever hold. -/
  | allocation (size : Nat)
  | encoder (reason : String)
  | decoder (reason : String)
  /-- The stream is well formed as far as it was read, but its length is not the expected one;
  `more` tells that output was left over. -/
  | wrongSize (expected got : Nat) (more : Bool)
  /-- A decoder broke its promise to give exactly the expected number of bytes. -/
  | brokenPromise (expected got : Nat)
  deriving DecidableEq, Repr

def CodecFault.message : CodecFault → String
  | .emptyInput => "invalid compression input: empty input"
  | .zeroSize => "invalid compression input: zero expected size"
  | .allocation size => "failed to allocate " ++ toString size ++ " bytes for decompression"
  | .encoder reason => "compression failed: " ++ reason
  | .decoder reason => "decompression failed: " ++ reason
  | .wrongSize expected got more =>
    "decompression failed: size mismatch: expected " ++ toString expected ++ " bytes, got " ++
      toString got ++ (if more then "+" else "")
  | .brokenPromise expected got =>
    "decompression failed: expected " ++ toString expected ++ " bytes, got " ++ toString got

inductive SizeField where
  | compressed
  | uncompressed
  deriving DecidableEq, Repr

def SizeField.name : SizeField → String
  | .compressed => "compressed_size"
  | .uncompressed => "uncompressed_size"

inductive MetadataFault where
  | emptyPayload
  | payloadTooLarge (size limit : Nat)
  /-- A cache key that does not have sixteen bytes. -/
  | keyLength (length : Nat)
  | zeroSize (field : SizeField)
  | overLimit (field : SizeField) (size limit : UInt64)
  | malformedKey (key : Bytes)
  | target (e : TargetError)
  deriving DecidableEq, Repr

def MetadataFault.message : MetadataFault → String
  | .emptyPayload => "payload is empty"
  | .payloadTooLarge size limit =>
    "payload of " ++ toString size ++ " bytes exceeds limit " ++ toString limit
  | .keyLength length => "cache key must be 16 characters, got " ++ toString length
  | .zeroSize field => field.name ++ " is zero"
  | .overLimit field size limit =>
    field.name ++ " " ++ toString size.toNat ++ " exceeds limit " ++ toString limit.toNat
  | .malformedKey key => "malformed cache key: " ++ Quoted.encode (Utf8.decodeLossy key)
  | .target e => e.message

inductive CarrierFault where
  | noStub
  | alreadyPressed
  | unknownTarget
  | notElf64Little
  | headerSize (size : Nat)
  | noNoteSegment
  | headerOutOfRange
  deriving DecidableEq, Repr

def CarrierFault.message : CarrierFault → String
  | .noStub => "no stub executable given"
  | .alreadyPressed => "stub already carries a pressed payload"
  | .unknownTarget => "cannot determine target platform from stub; pass it explicitly"
  | .notElf64Little => "only 64-bit little-endian ELF stubs are supported"
  | .headerSize size => "unexpected program header size " ++ toString size
  | .noNoteSegment => "ELF stub has no PT_NOTE segment"
  | .headerOutOfRange => "program header out of range"

inductive Block where
  | metadata
  | record
  | payload
  deriving DecidableEq, Repr

def Block.name : Block → String
  | .metadata => "metadata"
  | .record => "config record"
  | .payload => "payload"

inductive CacheFault where
  | directory (e : IoError)
  | sidecar (path : Bytes) (e : IoError)
  | noSidecar
  deriving DecidableEq, Repr

/-- A file that could not be replaced. -/
def atomicWriteMessage (path : Bytes) (e : IoError) : String :=
  "atomic write failed: " ++ displayPath path ++ ": " ++ e.message

def CacheFault.message : CacheFault → String
  | .directory e => e.message
  | .sidecar path e => atomicWriteMessage path e
  | .noSidecar => "metadata file missing"

inductive Fault where
  | io (e : IoError)
  /-- A sidecar that is not a JSON text of the right shape. -/
  | sidecarSyntax
  /-- An executable whose headers cannot be read. -/
  | malformedExecutable
  | codec (e : CodecFault)
  | markerNotFound (path : Bytes)
  | metadata (e : MetadataFault)
  /-- A file that ends inside a part of the block. -/
  | truncated (block : Block) (expected : Nat)
  | carrier (e : CarrierFault)
  | atomicWrite (path : Bytes) (e : IoError)
  | cacheWrite (path : Bytes) (e : CacheFault)
  deriving DecidableEq, Repr

def Fault.message : Fault → String
  | .io e => "I/O error: " ++ e.message
  | .sidecarSyntax => "JSON error"
  | .malformedExecutable => "binary parse failed"
  | .codec e => e.message
  | .markerNotFound path => "marker not found: " ++ displayPath path
  | .metadata e => "invalid metadata: " ++ e.message
  | .truncated block expected =>
    "truncated " ++ block.name ++ ": expected " ++ toString expected ++ " bytes"
  | .carrier e => "unsupported binary: " ++ e.message
  | .atomicWrite path e => atomicWriteMessage path e
  | .cacheWrite path e => "cache write failed: " ++ displayPath path ++ ": " ++ e.message

end SelfExtract
