import SelfExtract.Extract
import SelfExtract.Proofs.CacheEntries
import SelfExtract.Proofs.Metadata

/-!
# The course of an extraction

What is remembered of a launcher tells what a search would find, so that an
extraction depends on the content of the launcher only. Its payload is admitted
or refused before the cache is asked for it, and expanded before it is stored.
-/
namespace SelfExtract

open FileSystem

/-- What is remembered of a launcher is where its present content has the block. -/
def LocateMemory.Current (m : LocateMemory) (fs : FileSystem) (launcher : Path) : Prop :=
  ∀ q found, m = some (q, found) → q.same launcher = true →
    ∃ data, fs.read launcher = .ok data ∧ found = Carrier.locate data

theorem LocateMemory.Current.congr {m : LocateMemory} {fs fs' : FileSystem} {launcher : Path}
    (h : m.Current fs launcher) (hread : fs'.read launcher = fs.read launcher) :
    m.Current fs' launcher := by
  intro q found hm hsame
  rw [hread]
  exact h q found hm hsame

theorem LocateMemory.current_none (fs : FileSystem) (launcher : Path) :
    LocateMemory.Current none fs launcher :=
  nofun

/-- A fault of writing the cache, with which nothing but storing ends. -/
def LaunchFault.isCacheWrite : LaunchFault → Bool
  | .other (.cacheWrite _ _) => true
  | .other (.atomicWrite _ _) => true
  | _ => false

namespace Metadata

theorem block_error {data : Bytes} {start count : Nat} {b : Block} {e : Fault}
    (h : block data start count b = .error e) : e = .truncated b count := by
  rw [block] at h
  split at h
  · cases h
  · cases h
    rfl

/-- Reading fails only where the file ends too early. -/
theorem read_error {data : Bytes} {start : Nat} {kind : Settings.Kind} {e : Fault}
    (h : read data start kind = .error e) : ∃ b n, e = .truncated b n := by
  rw [read, bind_eq_error] at h
  rcases h with h | ⟨fixed, -, h⟩
  · exact ⟨_, _, block_error h⟩
  · dsimp only at h
    split at h
    · rw [bind_eq_error] at h
      rcases h with h | ⟨record, -, h⟩
      · exact ⟨_, _, block_error h⟩
      · cases h
    · cases h

/-- Reading the payload fails only for its size or where the file ends too early. -/
theorem readPayload_error {m : Metadata} {data : Bytes} {e : Fault}
    (h : m.readPayload data = .error e) :
    (∃ f, e = .codec f) ∨ ∃ b n, e = .truncated b n := by
  rw [readPayload] at h
  split at h
  · cases h
    exact .inl ⟨_, rfl⟩
  · exact .inr ⟨_, _, block_error h⟩

end Metadata

namespace Extract

section Admission

variable {data : Bytes} {offset : Nat} {e : LaunchFault} {md : Metadata} {target : Target}

theorem admitted_error (h : admitted data offset = .error e) : e.isCacheWrite = false := by
  rw [admitted, bind_eq_error] at h
  rcases h with h | ⟨md, -, h⟩
  · obtain ⟨f, hf, rfl⟩ := mapError_eq_error.mp h
    obtain ⟨b, n, rfl⟩ := Metadata.read_error hf
    rfl
  · rw [bind_eq_error] at h
    rcases h with h | ⟨u, -, h⟩
    · obtain ⟨f, -, rfl⟩ := mapError_eq_error.mp h
      rfl
    · rw [bind_eq_error] at h
      rcases h with h | ⟨target, -, h⟩
      · obtain ⟨f, -, rfl⟩ := mapError_eq_error.mp h
        rfl
      · cases h

theorem admitted_ok (h : admitted data offset = .ok (md, target)) :
    md.validate sizeLimit = .ok () := by
  rw [admitted, bind_eq_ok] at h
  obtain ⟨md', -, h⟩ := h
  obtain ⟨u, hvalid, h⟩ := bind_eq_ok.mp h
  obtain ⟨target', -, h⟩ := bind_eq_ok.mp h
  cases h
  exact mapError_eq_ok.mp hvalid

/-- The key of admitted metadata is a cache key as text too. -/
theorem isCacheKey_keyText (h : md.validate sizeLimit = .ok ()) :
    isCacheKey (Path.ofString md.keyText) = true := by
  have hkey := (Metadata.validate_eq_ok.mp h).2.2.1
  rw [Path.ofString, Metadata.encode_keyText hkey]
  exact hkey

theorem expand_error {codec : Codec} (h : expand codec data md = .error e) :
    e.isCacheWrite = false := by
  rw [expand, bind_eq_error] at h
  rcases h with h | ⟨compressed, -, h⟩
  · obtain ⟨f, hf, rfl⟩ := mapError_eq_error.mp h
    rcases Metadata.readPayload_error hf with ⟨f', rfl⟩ | ⟨b, n, rfl⟩
    · rfl
    · rfl
  · rw [bind_eq_error] at h
    rcases h with h | ⟨program, -, h⟩
    · obtain ⟨f, -, rfl⟩ := mapError_eq_error.mp h
      rfl
    · split at h
      · cases h
      · cases h
        rfl

/-- A program that is expanded is what the codec gives, of the announced length. -/
theorem expand_ok {codec : Codec} {program : Bytes} (h : expand codec data md = .ok program) :
    ∃ compressed, md.readPayload data = .ok compressed ∧
      codec.expand compressed md.uncompressedSize.toNat = .ok program ∧
      program.length = md.uncompressedSize.toNat := by
  rw [expand, bind_eq_ok] at h
  obtain ⟨compressed, hread, h⟩ := h
  obtain ⟨out, hexpand, h⟩ := bind_eq_ok.mp h
  split at h
  · next hlen =>
    cases h
    exact ⟨compressed, mapError_eq_ok.mp hread, mapError_eq_ok.mp hexpand, hlen⟩
  · cases h

end Admission

section Runs

variable {fs fs' : FileSystem} {x : Extraction} {m : LocateMemory} {launcher : Path}
  {data : Bytes} {md : Metadata} {target : Target}

def searched (fs : FileSystem) (p : Path) : Except Fault (Option Nat) :=
  match fs.read p with
  | .error e => .error (.io e)
  | .ok data => .ok (Carrier.locate data)

def payload (fs : FileSystem) (p : Path) : Except LaunchFault (Bytes × Metadata × Target) :=
  match fs.read p with
  | .error e => .error (.other (.io e))
  | .ok data =>
    match Carrier.locate data with
    | none => .error (.noPayload p)
    | some offset =>
      match admitted data offset with
      | .error e => .error e
      | .ok (md, target) => .ok (data, md, target)

theorem payload_congr {p : Path} (h : fs'.read p = fs.read p) : payload fs' p = payload fs p := by
  rw [payload, h, payload]

theorem payload_error {p : Path} {e : LaunchFault} (h : payload fs p = .error e) :
    e.isCacheWrite = false := by
  rw [payload] at h
  split at h
  · cases h
    rfl
  · split at h
    · cases h
      rfl
    · split at h
      · next hadm =>
        cases h
        exact admitted_error hadm
      · cases h

theorem payload_ok {p : Path} (h : payload fs p = .ok (data, md, target)) :
    fs.read p = .ok data ∧ md.validate sizeLimit = .ok () := by
  rw [payload] at h
  split at h
  · cases h
  · next hread =>
    split at h
    · cases h
    · split at h
      · cases h
      · next hadm =>
        cases h
        exact ⟨hread, admitted_ok hadm⟩

theorem run_search (fs : FileSystem) (p : Path) : (search p).run fs = (searched fs p, fs) := by
  rw [search, Proc.run_bind, Proc.run_call, perform, searched]
  cases fs.read p <;> rfl

/-- A memory that is current tells what a search would find. -/
theorem run_locate (hm : m.Current fs launcher) :
    ∃ m' : LocateMemory, m'.Current fs launcher ∧
      (locate m launcher).run fs = ((searched fs launcher, m'), fs) := by
  rw [locate.eq_def]
  split
  · next q found =>
    by_cases hsame : q.same launcher = true
    · obtain ⟨data, hread, rfl⟩ := hm q found rfl hsame
      refine ⟨_, hm, ?_⟩
      rw [if_pos hsame, Proc.run_pure, searched, hread]
    · refine ⟨_, hm, ?_⟩
      rw [if_neg hsame, Proc.run_bind, run_search, Proc.run_pure]
  · rw [Proc.run_bind, run_search]
    simp only [searched]
    cases hread : fs.read launcher with
    | error e => exact ⟨none, LocateMemory.current_none fs launcher, rfl⟩
    | ok data =>
      refine ⟨some (launcher, Carrier.locate data), ?_, rfl⟩
      intro q found heq _
      cases heq
      exact ⟨data, hread, rfl⟩

/-- An admitted payload is fetched. Any other is refused, and nothing is changed. -/
theorem run_prepare (x : Extraction) (hm : m.Current fs launcher) :
    ∃ m' : LocateMemory, m'.Current fs launcher ∧ (prepare x m launcher).run fs =
      match payload fs launcher with
      | .error e => ((.error e, m'), fs)
      | .ok (data, md, target) =>
        ((((fetch x launcher data md target).run fs).1, m'),
          ((fetch x launcher data md target).run fs).2) := by
  obtain ⟨m', hm', hrun⟩ := run_locate hm
  refine ⟨m', hm', ?_⟩
  rw [prepare, Proc.run_bind, hrun]
  simp only [searched, payload]
  cases hread : fs.read launcher with
  | error e => rfl
  | ok data =>
    cases hloc : Carrier.locate data with
    | none =>
      simp only [hloc]
      rfl
    | some offset =>
      simp only [hloc]
      rw [Proc.run_bind, Proc.run_call, perform, hread]
      cases hadm : admitted data offset with
      | error e =>
        simp only [hadm]
        rfl
      | ok a =>
        obtain ⟨md, target⟩ := a
        simp only [hadm]
        rw [Proc.run_bind, Proc.run_pure]

def request (x : Extraction) (launcher : Path) (md : Metadata) (program : Bytes) : CacheRequest where
  key := md.keyText
  data := program
  source := launcher
  integrity := integrityOf program
  algorithm := x.codec.algorithm
  compressedSize := md.compressedSize
  update := none
  now := x.now

/-- A program in the cache is taken as it is. -/
theorem run_fetch_hit {b : Path} (x : Extraction) (launcher : Path) (data : Bytes)
    (h : ((Cache.mk x.root target.os).lookup md.keyText md.uncompressedSize).run fs =
      (some b, fs)) :
    (fetch x launcher data md target).run fs =
      (.ok ⟨b, md, ⟨x.root, target.os⟩, true⟩, fs) := by
  rw [fetch, Proc.run_bind, h]
  rfl

/-- Any other is expanded, and nothing is changed before it is stored. -/
theorem run_fetch_miss (x : Extraction) (launcher : Path) (data : Bytes)
    (h : ((Cache.mk x.root target.os).lookup md.keyText md.uncompressedSize).run fs =
      (none, fs)) :
    (fetch x launcher data md target).run fs =
      match expand x.codec data md with
      | .error e => (.error e, fs)
      | .ok program =>
        match ((Cache.mk x.root target.os).store x.pid (request x launcher md program)).run fs with
        | (.error e, fs') => (.error (.ofFault e), fs')
        | (.ok b, fs') => (.ok ⟨b, md, ⟨x.root, target.os⟩, false⟩, fs') := by
  rw [fetch, Proc.run_bind, h]
  simp only []
  cases expand x.codec data md with
  | error e => rfl
  | ok program =>
    simp only []
    rw [Proc.run_bind, ← request]
    generalize ((Cache.mk x.root target.os).store x.pid (request x launcher md program)).run fs =
      out
    obtain ⟨result, fs'⟩ := out
    cases result <;> rfl

end Runs

end Extract

end SelfExtract
