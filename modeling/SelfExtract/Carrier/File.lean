import SelfExtract.AtomicWrite
import SelfExtract.Carrier
import SelfExtract.Command.Fault

/-!
# Carriers in files

A program in one file is pressed into the carrier in another, and the program
of a pressed file is restored. Results take their place at once or not at all.
-/
namespace SelfExtract.Carrier

def programMode : Nat := 0o755

/-- Presses the program in a file into a carrier and writes the result to a file. -/
def packFile (pid : Nat) (how : Packing) (carrier : Option Path) (program output : Path) :
    Proc (Except Fault Summary) := do
  match carrier with
  | none => return .error (.carrier .noStub)
  | some carrier =>
    match ← Proc.call (.read carrier) with
    | .error e => return .error (.io e)
    | .ok carrier =>
      match ← Proc.call (.read program) with
      | .error e => return .error (.io e)
      | .ok program =>
        match pack how carrier program with
        | .error e => return .error e
        | .ok (image, summary) =>
          match ← Proc.writeAtomically pid output programMode image with
          | .error e => return .error (.atomicWrite output e)
          | .ok () => return .ok summary

def metadataIn (p : Path) (data : Bytes) (kind : Settings.Kind) : Except Fault Metadata :=
  match locate data with
  | none => .error (.markerNotFound p)
  | some offset => Metadata.read data offset kind

def readMetadata (p : Path) (kind : Settings.Kind) : Proc (Except Fault Metadata) := do
  match ← Proc.call (.read p) with
  | .error e => return .error (.io e)
  | .ok data => return metadataIn p data kind

def programIn (codec : Codec) (p : Path) (data : Bytes) : Except Fault Bytes := do
  let m ← metadataIn p data .update
  (m.validate sizeLimit).mapError .metadata
  let compressed ← m.readPayload data
  (codec.expand compressed m.uncompressedSize.toNat).mapError .codec

/-- The cause of a file that cannot be opened; a directory can be opened but not read. -/
def openFault (p : Path) : IoError → CommandFault
  | .notFound => .fileNotFound p
  | .isADirectory => .carrier (.io .isADirectory)
  | e => .io "open binary" p e

/-- Writes the program of a pressed file to another file. Gives the size of the program. -/
def restoreWith (codec : Codec) (pid : Nat) (p output : Path) :
    Proc (Except CommandFault Nat) := do
  match ← Proc.call (.read p) with
  | .error e => return .error (openFault p e)
  | .ok data =>
    match programIn codec p data with
    | .error e => return .error (.carrier e)
    | .ok program =>
      match ← Proc.writeAtomically pid output programMode program with
      | .error e => return .error (.carrier (.atomicWrite output e))
      | .ok () => return .ok program.length

end SelfExtract.Carrier
