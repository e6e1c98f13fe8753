import Mathlib
import SelfExtract.Build.Own
import SelfExtract.Carrier.File
import SelfExtract.Proofs.Extraction
import SelfExtract.Proofs.FreshEntries
import SelfExtract.Proofs.NoteLocation
import SelfExtract.Report

/-!
# Restoring and extracting give the same program

A pressed file is restored to any place, extracted into a cache, or reported
on. The three find the same block in it, whatever its content: either the first
two write the same program, which the report describes, or both refuse it for
one reason and write nothing.
-/
namespace SelfExtract

open FileSystem

/-- Exactly the expected number of bytes is expanded. -/
theorem Codec.length_expandWith {decode : Bytes → Source} {data out : Bytes} {expected : Nat}
    (h : expandWith decode data expected = .ok out) : out.length = expected := by
  rw [expandWith] at h
  split at h
  · cases h
  · split at h
    · cases h
    · split at h
      · cases h
      · rw [collect] at h
        split at h
        · cases h
        · split at h
          · next hlen =>
            cases h
            exact hlen
          · cases h

namespace Marker

/-- A marker that a note segment shows stands in the file. -/
theorem occursAt_of_firstShown {data needle : Bytes} (hn : needle ≠ [])
    {segments : List Elf.Segment} {i : Nat} (h : firstShown data needle segments = some i) :
    Bytes.OccursAt data needle i := by
  obtain ⟨s, -, hs⟩ := List.exists_of_findSome?_eq_some h
  obtain ⟨j, hj, rfl⟩ := Option.map_eq_some_iff.mp hs
  have hocc := ((Bytes.firstIndex?_eq_some_iff hn).mp hj).occurs
  have hle := hocc.le_length hn
  rw [List.length_take] at hle
  rw [Bytes.occursAt_take _ _ _ _ (by omega)] at hocc
  exact (Bytes.occursAt_drop ..).mp hocc

end Marker

/-- The marker stands in front of the place that is found, in files of any kind. -/
theorem Carrier.occursAt_of_locate {b : Bytes} {offset : Nat} (h : locate b = some offset) :
    ∃ i, offset = i + 32 ∧ Bytes.OccursAt b Marker.payload.bytes i := by
  by_cases hkind : Executable.detect? b = some .elf
  · rw [locate_eq_firstShown hkind] at h
    obtain ⟨i, hi, rfl⟩ := Option.map_eq_some_iff.mp h
    exact ⟨i, rfl, Marker.occursAt_of_firstShown Marker.payload_ne_nil hi⟩
  · rw [locate_eq_findLinear hkind] at h
    obtain ⟨i, hi, rfl⟩ := Option.map_eq_some_iff.mp h
    exact ⟨i, rfl, ((Bytes.firstIndex?_eq_some_iff Marker.payload_ne_nil).mp hi).occurs⟩

/-- A reason, as restoring and as extracting state it. -/
inductive SameReason (p : Path) : Fault → LaunchFault → Prop
  | noMarker : SameReason p (.markerNotFound p) (.noPayload p)
  | truncated (b : Block) (n : Nat) : SameReason p (.truncated b n) (.other (.truncated b n))
  | metadata (e : MetadataFault) : SameReason p (.metadata e) (.metadata e)
  | codec (e : CodecFault) : SameReason p (.codec e) (.expand e)

/-- What a report says of a payload holds of the file and of the program that was pressed. -/
structure PayloadReport.Describes (z : Compression) (r : PayloadReport) (data program : Bytes) :
    Prop where
  marker : data.window? r.markerOffset 32 = some Marker.payload.bytes
  size : program.length = r.metadata.uncompressedSize.toNat
  payload : ∃ compressed,
    data.window? r.metadata.dataOffset r.metadata.compressedSize.toNat = some compressed ∧
      (Codec.standard z).expand compressed r.metadata.uncompressedSize.toNat = .ok program

/-- The parts of a file whose program can be restored. -/
structure Carrier.Holds (z : Compression) (data : Bytes) (offset : Nat) (md : Metadata)
    (program : Bytes) : Prop where
  located : locate data = some offset
  read : Metadata.read data offset .update = .ok md
  valid : md.validate sizeLimit = .ok ()
  expanded : ∃ compressed, md.readPayload data = .ok compressed ∧
    (Codec.standard z).expand compressed md.uncompressedSize.toNat = .ok program

namespace Carrier.Holds

variable {z : Compression} {data program : Bytes} {offset : Nat} {md : Metadata}

theorem length_eq (h : Holds z data offset md program) :
    program.length = md.uncompressedSize.toNat := by
  obtain ⟨compressed, -, hexpand⟩ := h.expanded
  exact Codec.length_expandWith hexpand

/-- The report on such a file describes it. -/
theorem reported (h : Holds z data offset md program) (p : Path) :
    ∃ report payload, Report.ofBytes p data .update = .ok report ∧
      report.payload = some payload ∧ payload.metadata = md ∧
      payload.Describes z data program := by
  obtain ⟨i, rfl, hocc⟩ := occursAt_of_locate h.located
  obtain ⟨compressed, hread, hexpand⟩ := h.expanded
  have hreport : ∃ report, Report.ofBytes p data .update = .ok report ∧
      report.payload = some ⟨i, md⟩ := by
    rw [Report.ofBytes]
    simp only [h.located, h.read]
    exact ⟨_, rfl, rfl⟩
  obtain ⟨report, hok, hpayload⟩ := hreport
  refine ⟨report, _, hok, hpayload, rfl, ?_, h.length_eq, compressed,
    Metadata.window_of_readPayload hread, hexpand⟩
  exact Bytes.window?_eq_some_iff.mpr ⟨Marker.length_payload, hocc⟩

end Carrier.Holds

namespace Extract

/-- What extracting comes to before anything is stored. -/
def unpacked (codec : Codec) (p : Path) (data : Bytes) :
    Except LaunchFault (Metadata × Target × Bytes) := do
  match Carrier.locate data with
  | none => throw (.noPayload p)
  | some offset =>
    let (md, target) ← admitted data offset
    let program ← expand codec data md
    return (md, target, program)

/-- The payload cannot be read, or it cannot be expanded, or it is expanded; its length is never a
fault of its own. -/
theorem expand_cases (z : Compression) (data : Bytes) (md : Metadata) :
    (∃ e, md.readPayload data = .error e ∧ expand (.standard z) data md = .error (.ofFault e)) ∨
    ∃ compressed, md.readPayload data = .ok compressed ∧
      ((∃ e, (Codec.standard z).expand compressed md.uncompressedSize.toNat = .error e ∧
        expand (.standard z) data md = .error (.expand e)) ∨
      ∃ program, (Codec.standard z).expand compressed md.uncompressedSize.toNat = .ok program ∧
        expand (.standard z) data md = .ok program) := by
  rw [expand]
  cases hread : md.readPayload data with
  | error e => exact .inl ⟨e, rfl, rfl⟩
  | ok compressed =>
    refine .inr ⟨compressed, rfl, ?_⟩
    cases hexpand : (Codec.standard z).expand compressed md.uncompressedSize.toNat with
    | error e =>
      refine .inl ⟨e, rfl, ?_⟩
      simp [bind, Except.bind, Except.mapError, hexpand]
    | ok program =>
      refine .inr ⟨program, rfl, ?_⟩
      have hlen := Codec.length_expandWith hexpand
      simp [bind, Except.bind, Except.mapError, hexpand, hlen, pure, Except.pure]

/-- A file is refused by restoring and by extracting for the same reason, or both find what it
holds. -/
theorem refused_or_holds (z : Compression) (p : Path) (data : Bytes) :
    (∃ e e', Carrier.programIn (.standard z) p data = .error e ∧
      unpacked (.standard z) p data = .error e' ∧ SameReason p e e') ∨
    ∃ offset md target program, Carrier.Holds z data offset md program ∧
      Carrier.programIn (.standard z) p data = .ok program ∧
      unpacked (.standard z) p data = .ok (md, target, program) := by
  rw [Carrier.programIn, Carrier.metadataIn, unpacked]
  cases hloc : Carrier.locate data with
  | none => exact .inl ⟨_, _, rfl, rfl, .noMarker⟩
  | some offset =>
    simp only [admitted]
    cases hread : Metadata.read data offset .update with
    | error e =>
      obtain ⟨b, n, rfl⟩ := Metadata.read_error hread
      exact .inl ⟨_, _, rfl, rfl, .truncated b n⟩
    | ok md =>
      simp only [bind, Except.bind, Except.mapError]
      cases hvalid : md.validate sizeLimit with
      | error e => exact .inl ⟨_, _, rfl, rfl, .metadata e⟩
      | ok u =>
        obtain ⟨-, -, -, target, htarget⟩ := Metadata.validate_eq_ok.mp hvalid
        simp only [Metadata.target?, htarget, Except.mapError, pure, Except.pure]
        rcases expand_cases z data md with ⟨e, hpay, hexpand⟩ | ⟨compressed, hpay, hcases⟩
        · rw [hpay, hexpand]
          rcases Metadata.readPayload_error hpay with ⟨f, rfl⟩ | ⟨b, n, rfl⟩
          · exact .inl ⟨_, _, rfl, rfl, .codec f⟩
          · exact .inl ⟨_, _, rfl, rfl, .truncated b n⟩
        · rw [hpay]
          rcases hcases with ⟨e, hcodec, hexpand⟩ | ⟨program, hcodec, hexpand⟩
          · rw [hexpand]
            simp only [hcodec]
            exact .inl ⟨_, _, rfl, rfl, .codec e⟩
          · rw [hexpand]
            simp only [hcodec]
            exact .inr ⟨offset, md, target, program,
              ⟨hloc, hread, hvalid, compressed, hpay, hcodec⟩, rfl, rfl⟩

section Runs

variable {z : Compression} {fs : FileSystem} {x : Extraction} {p output : Path}
  {data program : Bytes} {md : Metadata}
  {target : Target} {d : Location} {name : Bytes} {pid : Nat}

/-- Without a cache a file is unpacked, and what it gives is stored. -/
theorem run_prepare_absent (x : Extraction) (hread : fs.read p = .ok data)
    (habsent : ∀ r, ¬Cache.IsRoot fs x.root r) : ∃ m, (prepare x none p).run fs =
      match unpacked x.codec p data with
      | .error e => ((.error e, m), fs)
      | .ok (md, target, program) =>
        match ((Cache.mk x.root target.os).store x.pid (request x p md program)).run fs with
        | (.error e, fs₁) => ((.error (.ofFault e), m), fs₁)
        | (.ok b, fs₁) => ((.ok ⟨b, md, ⟨x.root, target.os⟩, false⟩, m), fs₁) := by
  obtain ⟨m, -, hrun⟩ := run_prepare x (LocateMemory.current_none fs p)
  refine ⟨m, ?_⟩
  rw [hrun, payload, hread, unpacked]
  cases hloc : Carrier.locate data with
  | none =>
    simp only [hloc]
    rfl
  | some offset =>
    simp only [hloc]
    cases hadm : admitted data offset with
    | error e => rfl
    | ok found =>
      obtain ⟨md, target⟩ := found
      have hname := fileName_of_isCacheKey (isCacheKey_keyText (admitted_ok hadm))
      have hmiss := Cache.run_lookup_absent (c := ⟨x.root, target.os⟩) habsent hname
        md.uncompressedSize
      simp only [bind, Except.bind]
      rw [run_fetch_miss x p data hmiss]
      cases expand x.codec data md with
      | error e => rfl
      | ok program =>
        simp only [pure, Except.pure]
        generalize ((Cache.mk x.root target.os).store x.pid (request x p md program)).run fs = out
        obtain ⟨result, fs₁⟩ := out
        cases result <;> rfl

/-- Restoring writes what the file holds. -/
theorem run_restoreWith (codec : Codec) (pid : Nat) (output : Path) (hread : fs.read p = .ok data) :
    (Carrier.restoreWith codec pid p output).run fs =
      match Carrier.programIn codec p data with
      | .error e => (.error (.carrier e), fs)
      | .ok program =>
        match (Proc.writeAtomically pid output Carrier.programMode program).run fs with
        | (.error e, fs₁) => (.error (.carrier (.atomicWrite output e)), fs₁)
        | (.ok (), fs₁) => (.ok program.length, fs₁) := by
  rw [Carrier.restoreWith, Proc.run_bind, Proc.run_call, perform, hread]
  simp only []
  cases Carrier.programIn codec p data with
  | error e => rfl
  | ok program =>
    simp only []
    rw [Proc.run_bind]
    generalize (Proc.writeAtomically pid output Carrier.programMode program).run fs = out
    obtain ⟨result, fs₁⟩ := out
    cases result <;> rfl

theorem run_ofFile (settings : Settings.Kind) (hread : fs.read p = .ok data) :
    (Report.ofFile p settings).run fs =
      ((Report.ofBytes p data settings).mapError .carrier, fs) := by
  rw [Report.ofFile, Proc.run_bind, Proc.run_call, perform, hread]
  rfl

/-- Whatever a file holds, and whatever the library makes of it, restoring it to a place that can be
written and extracting it into a cache that can be made both succeed and leave the same program,
which the report on the file describes, or both fail for the same reason and leave everything as it
was. -/
theorem restore_agrees (hread : fs.read p = .ok data) (hcodec : x.codec = .standard z)
    (hcache : Cache.Creatable fs x.root x.pid) (hout : fs.Writable pid output d name) :
    (∃ program prepared memory report payload fs₁ fs₂ l,
      (Carrier.restoreWith (.standard z) pid p output).run fs = (.ok program.length, fs₁) ∧
      fs₁.node? (d ++ [name]) = some (.file 0o755 program) ∧
      (prepare x none p).run fs = ((.ok prepared, memory), fs₂) ∧
      fs₂.existing prepared.binary = .ok (l, .file 0o755 program) ∧
      (Report.ofFile p .update).run fs = (.ok report, fs) ∧ report.payload = some payload ∧
      payload.metadata = prepared.metadata ∧ payload.Describes z data program) ∨
    ∃ e e' memory, (Carrier.restoreWith (.standard z) pid p output).run fs =
        (.error (.carrier e), fs) ∧
      (prepare x none p).run fs = ((.error e', memory), fs) ∧ SameReason p e e' := by
  obtain ⟨memory, hprepare⟩ := run_prepare_absent x hread hcache.absent
  have hrestore := run_restoreWith (.standard z) pid output hread
  rw [hcodec] at hprepare
  rcases refused_or_holds z p data with ⟨e, e', hprogram, hunpacked, hsame⟩ |
    ⟨offset, md, target, program, hholds, hprogram, hunpacked⟩
  · rw [hprogram] at hrestore
    rw [hunpacked] at hprepare
    exact .inr ⟨e, e', memory, hrestore, hprepare, hsame⟩
  · have hkey := isCacheKey_keyText hholds.valid
    obtain ⟨fs₁, place, hmade, he, hnew⟩ := hcache.made _ hkey
    obtain ⟨fs₂, hstore, hbinary⟩ := Cache.run_store_new (c := ⟨x.root, target.os⟩)
      (request x p md program) hkey hmade he hnew (hcache.fits _ hkey)
    obtain ⟨fs₃, fs₄, hgone, hdone, hwrite⟩ :=
      Proc.run_writeAtomically Carrier.programMode program hout
    obtain ⟨report, payload, hreport, hpayload, hmd, hdescribes⟩ := hholds.reported p
    rw [hprogram] at hrestore
    rw [hunpacked] at hprepare
    simp only [hwrite] at hrestore
    simp only [hstore] at hprepare
    have hofFile := run_ofFile .update hread
    rw [hreport] at hofFile
    exact .inl ⟨program, _, memory, report, payload, fs₄, fs₂, _, hrestore, hdone.self, hprepare,
      hbinary, hofFile, hpayload, hmd, hdescribes⟩

end Runs

section OneFrame

def framedStub : Bytes :=
  Metadata.withPayload ⟨18, 2, Path.ofString "bdd81ab233bceb6a", Target.usual.code, false, none, 0⟩
    (Zstandard.store [1, 2])

/-- It is the only file. -/
def onlyStub : FileSystem where
  nodes := [([Path.ofString "stub"], .file 0o755 framedStub)]
  current := []

def intoNew : Extraction :=
  ⟨.standard Zstandard.own, Path.ofString "/cache", 7, 0⟩

theorem read_onlyStub : onlyStub.read (Path.ofString "/stub") = .ok framedStub := by
  unfold onlyStub
  generalize framedStub = image
  cbv

theorem programIn_framedStub :
    Carrier.programIn (.standard Zstandard.own) (Path.ofString "/stub") framedStub =
      .ok [1, 2] := by
  have hkind : Executable.detect? [] ≠ some .elf := by decide
  have hlocate : Carrier.locate framedStub = some 32 := Carrier.locate_append hkind rfl _
  rw [Carrier.programIn, Carrier.metadataIn, hlocate]
  decide +kernel

/-- A file in the root of the file system that is not there can be made. -/
theorem way_onlyStub : onlyStub.Way true [] [] :=
  ⟨nofun, ⟨_, .here⟩, onlyStub.node?_root⟩

theorem creatable_onlyStub : Cache.Creatable onlyStub intoNew.root intoNew.pid := by
  have hfile : Path.FileName (Path.ofString "cache") ∧ (Path.ofString "cache").length ≤ maxName :=
    ⟨⟨by decide, by decide, by decide, by decide, by decide⟩, by decide⟩
  refine .of_missing rfl way_onlyStub (fun below => ?_)
    (List.forall_mem_singleton.mpr hfile) (by decide) (by decide)
  have hother : (Path.ofString "cache" == Path.ofString "stub") = false := by decide
  simp [node?, onlyStub, List.lookup, hother]

theorem writable_onlyStub :
    onlyStub.Writable 9 (Path.ofString "/out") [] (Path.ofString "out") := by
  have hfile : Path.FileName (Path.ofString "out") :=
    ⟨by decide, by decide, by decide, by decide, by decide⟩
  have hfree : onlyStub.node? [Proc.temporary 9 (Path.ofString "out")] = none := by decide
  refine ⟨way_onlyStub.names hfile (by decide) (by decide),
    way_onlyStub.names (fileName_temporary 9 hfile) (by decide) (by decide), ?_, by decide⟩
  exact hfree ▸ free_none

/-- The frame is restored and extracted to the same two bytes. -/
theorem restore_agrees_two_bytes :
    onlyStub.read (Path.ofString "/stub") = .ok framedStub ∧
    intoNew.codec = .standard Zstandard.own ∧
    Cache.Creatable onlyStub intoNew.root intoNew.pid ∧
    onlyStub.Writable 9 (Path.ofString "/out") [] (Path.ofString "out") ∧
    ∃ prepared memory report payload fs₁ fs₂ l,
      (Carrier.restoreWith (.standard Zstandard.own) 9 (Path.ofString "/stub")
        (Path.ofString "/out")).run onlyStub = (.ok 2, fs₁) ∧
      fs₁.node? [Path.ofString "out"] = some (.file 0o755 [1, 2]) ∧
      (prepare intoNew none (Path.ofString "/stub")).run onlyStub = ((.ok prepared, memory), fs₂) ∧
      fs₂.existing prepared.binary = .ok (l, .file 0o755 [1, 2]) ∧
      (Report.ofFile (Path.ofString "/stub") .update).run onlyStub = (.ok report, onlyStub) ∧
      report.payload = some payload ∧ payload.metadata = prepared.metadata ∧
      payload.Describes Zstandard.own framedStub [1, 2] := by
  have hcache := creatable_onlyStub
  have hout := writable_onlyStub
  have hrestore :=
    run_restoreWith (.standard Zstandard.own) 9 (Path.ofString "/out") read_onlyStub
  obtain ⟨fs₃, fs₄, -, hdone, hwrite⟩ := Proc.run_writeAtomically Carrier.programMode [1, 2] hout
  rw [programIn_framedStub] at hrestore
  simp only [hwrite] at hrestore
  refine ⟨read_onlyStub, rfl, hcache, hout, ?_⟩
  rcases restore_agrees read_onlyStub rfl hcache hout with
    ⟨program, prepared, memory, report, payload, fs₁, fs₂, l, hrun, hnode, hrest⟩ |
    ⟨e, e', memory, hrun, -⟩
  · obtain rfl : fs₄ = fs₁ := congrArg Prod.snd (hrestore.symm.trans hrun)
    obtain rfl : [1, 2] = program :=
      (Node.file.inj (Option.some.inj (hdone.self.symm.trans hnode))).2
    exact ⟨prepared, memory, report, payload, fs₄, fs₂, l, hrun, hnode, hrest⟩
  · rw [hrestore] at hrun
    cases hrun

end OneFrame

end Extract

end SelfExtract
