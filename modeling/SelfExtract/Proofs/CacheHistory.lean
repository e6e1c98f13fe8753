import Mathlib
import SelfExtract.Extract
import SelfExtract.Proofs.AppendedBlock
import SelfExtract.Proofs.Extraction
import SelfExtract.Proofs.FreshEntries
import SelfExtract.Update.Check

/-!
# What a cache holds after any history

A hit trusts the name, the size and the permission to execute. That is enough
as long as all programs in the cache were put there by extractions: whatever
extractions and look-ups of releases have gone before, and however they have
ended, every program is the payload of a launcher and stands under its key.
-/
namespace SelfExtract

open FileSystem

namespace Carrier

variable {how : Packing} {carrier payload compressed image : Bytes} {target : Target}

/-- A carrier that is no ELF file is followed by the block, which is found there. -/
theorem Packed.appended (h : Packed how carrier payload target compressed image)
    (hkind : Executable.detect? carrier ≠ some .elf) :
    image = carrier ++ Marker.payload.bytes ++
        ((how.metadata target payload compressed).encode ++ compressed) ∧
      locate image = some (carrier.length + 32) := by
  have himage : image = carrier ++ Marker.payload.bytes ++
      ((how.metadata target payload compressed).encode ++ compressed) := by
    have he := h.embed_eq
    rw [embed] at he
    split at he
    · next hd => exact absurd hd hkind
    · cases he
      simp only [Metadata.withPayload, List.append_assoc]
  refine ⟨himage, ?_⟩
  rw [himage]
  exact locate_append hkind h.unpacked _

/-- Settings of another kind than are expected take less room, so that too little of the file is
left for the payload. -/
theorem length_record_le (settings : Option Settings) :
    settings.elim 0 (·.encode.length) ≤
      if settings.isSome then Settings.Kind.update.layout.size else 0 := by
  cases settings with
  | none => exact Nat.le_refl 0
  | some s =>
    change s.encode.length ≤ Settings.Kind.update.layout.size
    rw [s.length_encode]
    cases s.kind <;> decide

/-- The payload that is read behind the block is the one that was put there, or none is. -/
theorem Packed.readPayload (h : Packed how carrier payload target compressed image)
    (hkind : Executable.detect? carrier ≠ some .elf) {md : Metadata}
    (hread : Metadata.read image (carrier.length + 32) .update = .ok md) :
    md.keyText = cacheKey payload ∧ md.uncompressedSize.toNat = payload.length ∧
      ∀ c, md.readPayload image = .ok c → c = compressed := by
  obtain ⟨himage, -⟩ := h.appended hkind
  let m := how.metadata target payload compressed
  have hkey : m.key.length = keyLength := by
    rw [Packing.metadata_key]
    exact length_cacheKey payload
  have hself := Bytes.occursAt_self (carrier ++ Marker.payload.bytes) (m.encode ++ compressed) []
  rw [List.append_nil, ← himage, List.length_append, Marker.length_payload, Metadata.encode_eq,
    List.append_assoc, Bytes.occursAt_append, Bytes.occursAt_append,
    Metadata.length_fixedBytes m hkey] at hself
  obtain ⟨hfixed, -, hpayload⟩ := hself
  obtain ⟨hcompressed, huncompressed, hmdkey, hoffset⟩ :=
    Metadata.fixed_of_read hkey rfl hfixed hread
  obtain ⟨hsize, hexpanded, -⟩ := h.sizes
  refine ⟨?_, by rw [huncompressed, hexpanded], fun c hc => ?_⟩
  · rw [Metadata.keyText, hmdkey, Packing.metadata_key, Utf8.decode?_encode]
    rfl
  · have hc := Metadata.window_of_readPayload hc
    rw [hcompressed, hsize] at hc
    obtain ⟨hlen, hocc⟩ := Bytes.window?_eq_some_iff.mp hc
    have hpos := ((Packing.admitted_iff ..).mp h.admitted).1.1
    have hend := hocc.le_length (List.length_pos_iff.mp (by omega))
    have htotal : image.length = carrier.length + 32 +
        (Metadata.fixedSize + m.recordBytes.length + compressed.length) := by
      rw [himage, List.length_append, List.length_append, Marker.length_payload, List.length_append,
        Metadata.encode_eq, List.length_append, Metadata.length_fixedBytes m hkey]
    have hle := length_record_le how.settings
    have hrecord : m.recordBytes.length = how.settings.elim 0 (·.encode.length) := by
      rw [Metadata.recordBytes, Packing.metadata_settings]
      cases how.settings <;> rfl
    have hflag : m.hasSettings = how.settings.isSome := rfl
    rw [hflag] at hoffset
    have hsame : md.dataOffset =
        carrier.length + 32 + Metadata.fixedSize + m.recordBytes.length := by omega
    rw [hsame, Bytes.window?_eq_some_iff.mpr ⟨rfl, hpayload⟩] at hc
    exact (Option.some.inj hc).symm

end Carrier

/-- A launcher that was made by packing. -/
structure Pressing where
  path : Path
  how : Carrier.Packing
  carrier : Bytes
  payload : Bytes
  image : Bytes
  info : Carrier.Summary

structure Pressing.Placed (p : Pressing) (fs : FileSystem) : Prop where
  carrier_kind : Executable.detect? p.carrier ≠ some .elf
  codec : p.how.codec.RoundTrips
  packed : Carrier.pack p.how p.carrier p.payload = .ok (p.image, p.info)
  read : fs.read p.path = .ok p.image

namespace Pressing.Placed

variable {p : Pressing} {fs : FileSystem} {md : Metadata} {target : Target}

theorem located (h : p.Placed fs) : Carrier.locate p.image = some (p.carrier.length + 32) := by
  obtain ⟨target, compressed, hpacked, -⟩ := (Carrier.pack_eq_ok ..).mp h.packed
  exact (hpacked.appended h.carrier_kind).2

/-- What is admitted of a launcher announces its own payload, and nothing else is expanded. -/
theorem admitted (h : p.Placed fs)
    (hadm : Extract.admitted p.image (p.carrier.length + 32) = .ok (md, target)) :
    md.keyText = cacheKey p.payload ∧ md.uncompressedSize.toNat = p.payload.length ∧
      ∀ program, Extract.expand p.how.codec p.image md = .ok program → program = p.payload := by
  obtain ⟨packed, compressed, hpacked, -⟩ := (Carrier.pack_eq_ok ..).mp h.packed
  obtain ⟨read, hread, hrest⟩ := bind_eq_ok.mp hadm
  obtain ⟨u, -, hrest⟩ := bind_eq_ok.mp hrest
  obtain ⟨found, -, hrest⟩ := bind_eq_ok.mp hrest
  cases hrest
  obtain ⟨hkey, hsize, hpayload⟩ :=
    hpacked.readPayload h.carrier_kind (mapError_eq_ok.mp hread)
  refine ⟨hkey, hsize, fun program hexpand => ?_⟩
  obtain ⟨c, hc, hprogram, -⟩ := Extract.expand_ok hexpand
  rw [hpayload c hc, hsize, h.codec _ _ hpacked.compress_eq] at hprogram
  exact (Except.ok.inj hprogram).symm

end Pressing.Placed

/-- Nothing is in a cache, nor comes to be in it when its root is made. -/
def Cache.Empty (fs : FileSystem) (root : Path) : Prop :=
  ∀ fs' r name below, fs.KeepsTree fs' → Cache.IsRoot fs' root r →
    fs.node? (r ++ name :: below) = none

theorem Cache.Empty.noLinks {fs : FileSystem} {root : Path} (h : Cache.Empty fs root) :
    Cache.NoLinks fs root := by
  intro fs' r below target hkeep hr hnode
  cases below with
  | nil =>
    rw [List.append_nil] at hnode
    have hlink := (hkeep.link r target).mpr hnode
    rw [hr.way.1] at hlink
    cases hlink
  | cons name below =>
    rw [h fs' r name below hkeep hr] at hnode
    cases hnode

/-- A cache that is there is empty when nothing is below its root. -/
theorem Cache.Empty.of_root {fs : FileSystem} {root : Path} {r : Location}
    (hr : Cache.IsRoot fs root r) (h : ∀ name below, fs.node? (r ++ name :: below) = none) :
    Cache.Empty fs root := by
  intro fs' r' name below hkeep hr'
  obtain rfl := Cache.IsRoot.unique (hkeep.existing hr) hr'
  exact h name below

namespace Extract

variable {ι : Type} {root : Path} {images : ι → Pressing} {fs₀ fs fs' : FileSystem}
  {m : LocateMemory}

section State

/-- What extractions and look-ups of releases may do to a cache: programs are payloads and stand
under their keys. -/
def May (root : Path) (images : ι → Pressing) (p : Path) (o : Option Node) : Prop :=
  ∃ (c : Cache) (pid : Nat) (key : String), c.root = root ∧ Path.FileName (Path.ofString key) ∧
    c.Fills pid key
      (fun o => o = none ∨ ∃ i, key = cacheKey (images i).payload ∧
        o = some (.file Cache.binaryMode (images i).payload))
      (fun _ => True) p o

theorem may_of_stores {c : Cache} {pid : Nat} {q : CacheRequest} {i : ι} (hroot : c.root = root)
    (hfile : Path.FileName (Path.ofString q.key)) (hkey : q.key = cacheKey (images i).payload)
    (hdata : q.data = (images i).payload) (p : Path) (o : Option Node) (h : c.Stores pid q p o) :
    May root images p o := by
  refine ⟨c, pid, q.key, hroot, hfile, Cache.Fills.mono h (fun o ho => ?_) fun _ _ => trivial⟩
  exact ho.imp id fun h => ⟨i, hkey, by rw [h, hdata]⟩

structure Kept (root : Path) (images : ι → Pressing) (fs₀ fs : FileSystem) : Prop where
  grows : fs₀.Extends fs
  keeps : fs₀.Keeps (May root images) fs

theorem Kept.step (h : Kept root images fs₀ fs) (hempty : Cache.Empty fs₀ root)
    (hwrites : fs.Writes (May root images) fs') : Kept root images fs₀ fs' := by
  have hkeeps := h.keeps.step hwrites fun _ _ h => h
  refine ⟨⟨hkeeps.keeps.current, fun l n hn => ?_⟩, hkeeps⟩
  have hbefore := h.grows.keeps l n hn
  rcases hwrites.change l with hl | ⟨hnone, -⟩ |
    ⟨p, d, name, hnames, rfl, c, pid, key, hc, hkey, hf⟩
  · rw [hl, hbefore]
  · rw [hbefore] at hnone
    cases hnone
  · -- the files of an entry are in the cache, where nothing was
    subst hc
    obtain ⟨r, hr, rfl⟩ := hempty.noLinks.entry hkey hkeeps.keeps (hf.isRoot hnames)
    rw [List.append_assoc, List.singleton_append, hempty fs' r _ _ hkeeps.keeps hr] at hn
    cases hn

/-- Every program in the cache is a payload and stands under its key. -/
theorem Kept.program (h : Kept root images fs₀ fs) (hempty : Cache.Empty fs₀ root) {r : Location}
    {dir name : Bytes} {c : Cache} {mode : Nat} {data : Bytes} (hr : Cache.IsRoot fs root r)
    (hname : name = c.programName)
    (hnode : fs.node? (r ++ [dir] ++ [name]) = some (.file mode data)) :
    ∃ i, data = (images i).payload ∧ dir = Path.ofString (cacheKey data) := by
  rcases h.keeps.file _ mode data hnode with hold |
    ⟨p, d, last, hnames, heq, c', pid, key, hc, hkey, hf⟩
  · rw [List.append_assoc, List.singleton_append, hempty fs r _ _ h.keeps.keeps hr] at hold
    cases hold
  · subst hc
    obtain ⟨rfl, hlast⟩ := List.append_inj' heq rfl
    obtain rfl := List.singleton_inj.mp hlast
    obtain ⟨r', -, hplace⟩ := hempty.noLinks.entry hkey h.keeps.keeps (hf.isRoot hnames)
    obtain ⟨-, hdir⟩ := List.append_inj' hplace rfl
    obtain ⟨last, hp⟩ := hf.exists_last
    obtain rfl := hnames.last_eq hp
    subst hname
    obtain ⟨-, hnone | ⟨i, hi, hfull⟩⟩ := hf.of_programName hp
    · cases hnone
    · cases hfull
      exact ⟨i, rfl, by rw [← hi]; exact List.singleton_inj.mp hdir⟩

end State

section Courses

/-- What is remembered is where the block of a launcher is. -/
def Remembers (images : ι → Pressing) (m : LocateMemory) : Prop :=
  ∀ q found, m = some (q, found) →
    ∃ i, q = (images i).path ∧ found = Carrier.locate (images i).image

theorem remembers_none (images : ι → Pressing) : Remembers images none :=
  nofun

/-- A path leads to the payload of a launcher, unless another payload of the same length has the
same key. -/
def Yields (images : ι → Pressing) (i : ι) (fs : FileSystem) (p : Path) : Prop :=
  fs.read p = .ok (images i).payload ∨
    ∃ j, (images j).payload.length = (images i).payload.length ∧
      (images j).payload ≠ (images i).payload ∧
      cacheKey (images j).payload = cacheKey (images i).payload

variable (himages : ∀ i, (images i).Placed fs₀) (hkept : Kept root images fs₀ fs) (i : ι)
include himages hkept

theorem assures_search : Proc.Assures Eq Eq
    (fun r fs' => fs = fs' ∧ ∀ found, r = .ok found → found = Carrier.locate (images i).image)
    (search (images i).path) fs := by
  have hread := hkept.grows.read (himages i).read
  rw [search]
  refine (Proc.assures_look_alone rfl (fun _ => rfl) fs).bind ?_
  rintro r _ ⟨rfl, rfl | ⟨e, rfl⟩⟩
  · rw [perform, hread]
    refine .pure ⟨rfl, fun found h => ?_⟩
    exact (Except.ok.inj h).symm
  · exact .pure ⟨rfl, by simp⟩

/-- A block is looked for where it is, also when the place is remembered under another spelling of
the path. -/
theorem assures_locate (hm : Remembers images m) : Proc.Assures Eq Eq
    (fun r fs' => fs = fs' ∧ Remembers images r.2 ∧
      ∀ found, r.1 = .ok found → found = Carrier.locate (images i).image)
    (locate m (images i).path) fs := by
  have hsearch := assures_search himages hkept i
  rw [locate.eq_def]
  cases m with
  | none =>
    refine hsearch.bind ?_
    rintro r _ ⟨rfl, hfound⟩
    cases r with
    | error e => exact .pure ⟨rfl, hm, by simp⟩
    | ok found =>
      refine .pure ⟨rfl, fun q place h => ?_, fun place h => ?_⟩
      · cases h
        exact ⟨i, rfl, hfound found rfl⟩
      · exact hfound place h
  | some known =>
    obtain ⟨q, place⟩ := known
    simp only []
    split
    · next hsame =>
      refine .pure ⟨rfl, hm, fun found h => ?_⟩
      obtain ⟨j, rfl, hplace⟩ := hm q place rfl
      obtain rfl := Except.ok.inj h
      rw [hplace, read_of_same hsame (himages i).read (himages j).read]
    · refine hsearch.bind ?_
      rintro r _ ⟨rfl, hfound⟩
      exact .pure ⟨rfl, hm, hfound⟩

variable (hempty : Cache.Empty fs₀ root) {x : Extraction} (hroot : x.root = root)
include hempty hroot

/-- A program that is found is a payload, and one that is stored is the one of the launcher. -/
theorem assures_fetch (hcodec : x.codec = (images i).how.codec) {md : Metadata} {target : Target}
    (hadm : admitted (images i).image ((images i).carrier.length + 32) = .ok (md, target)) :
    Proc.Assures Eq (·.Writes (May root images) ·)
      (fun r fs' => ∀ p, r = .ok p → Yields images i fs' p.binary)
      (fetch x (images i).path (images i).image md target) fs := by
  subst hroot
  obtain ⟨hkey, hsize, hprogram⟩ := (himages i).admitted hadm
  have hfile : Path.FileName (Path.ofString md.keyText) := by
    rw [hkey]
    exact fileName_of_isCacheKey (isCacheKey_cacheKey _)
  have hfree : Cache.LinkFree fs ((Cache.mk x.root target.os).entry md.keyText) :=
    (hempty.noLinks.keep hkept.keeps.keeps).linkFree hfile
  have hlookup := Cache.assures_lookup
    (hfree.unlinked (Cache.mk x.root target.os).fileName_programName) md.uncompressedSize
  rw [fetch]
  refine (hlookup.weaken_guarantee fun _ _ h => h ▸ .refl _ _).bind ?_
  rintro r _ ⟨rfl, hfound⟩
  cases r with
  | some b =>
    refine .pure fun p hp => ?_
    obtain rfl := Except.ok.inj hp
    obtain ⟨rfl, l, mode, data, hex, hlen, -⟩ := hfound b rfl
    have hname := (Cache.mk x.root target.os).fileName_programName
    obtain ⟨d, hnames, rfl, hnode⟩ := existing_ok hex (.join _ hname) (hfree.unlinked hname)
    obtain ⟨r, hr, rfl⟩ := hempty.noLinks.entry hfile hkept.keeps.keeps
      (Cache.isRoot_of_names hname hnames).1
    obtain ⟨j, rfl, hdir⟩ := hkept.program hempty hr rfl hnode
    have hsame := (Path.ofString_inj hdir).symm.trans hkey
    by_cases heq : (images j).payload = (images i).payload
    · exact .inl (by rw [hnames.read hnode, heq])
    · exact .inr ⟨j, hlen.trans hsize, heq, hsame⟩
  | none =>
    simp only []
    cases hexpand : expand x.codec (images i).image md with
    | error e => exact .pure (by simp)
    | ok program =>
      rw [hcodec] at hexpand
      obtain rfl := hprogram program hexpand
      have hstore := (Cache.assures_store leaves_of_eq x.pid (request x (images i).path md
        (images i).payload) (fun _ => trivial) hfree).weaken_guarantee fun fs fs' h =>
          h.mono (may_of_stores rfl hfile hkey rfl)
      refine hstore.bind fun r fs hstored => ?_
      cases r with
      | error e => exact .pure (by simp)
      | ok b =>
        refine .pure fun p hp => ?_
        obtain rfl := Except.ok.inj hp
        exact .inl ((hstored b rfl).2 trivial).read

theorem assures_prepare (hcodec : x.codec = (images i).how.codec) (hm : Remembers images m) :
    Proc.Assures Eq (·.Writes (May root images) ·)
      (fun r fs' => Remembers images r.2 ∧ ∀ p, r.1 = .ok p → Yields images i fs' p.binary)
      (prepare x m (images i).path) fs := by
  have hlook : ∀ fs fs' : FileSystem, fs = fs' → fs.Writes (May root images) fs' :=
    fun fs fs' h => h ▸ .refl fs _
  have hread := hkept.grows.read (himages i).read
  rw [prepare]
  refine ((assures_locate himages hkept i hm).weaken_guarantee hlook).bind ?_
  rintro ⟨found, m'⟩ _ ⟨rfl, hm', hfound⟩
  rcases found with e | offset
  · exact .pure ⟨hm', by simp⟩
  · obtain rfl := (hfound offset rfl).trans (himages i).located
    refine ((Proc.assures_look_alone rfl (fun _ => rfl) fs).weaken_guarantee hlook).bind ?_
    rintro r _ ⟨rfl, rfl | ⟨e, rfl⟩⟩
    · rw [perform, hread]
      simp only []
      cases hadm : admitted (images i).image ((images i).carrier.length + 32) with
      | error e => exact .pure ⟨hm', by simp⟩
      | ok found =>
        obtain ⟨md, target⟩ := found
        exact (assures_fetch himages hkept i hempty hroot hcodec hadm).bind fun r fs hr =>
          .pure ⟨hm', hr⟩
    · exact .pure ⟨hm', by simp⟩

omit himages hkept hroot in
/-- Looking for a release notes its state in the sidecar and changes nothing else. -/
theorem assures_check (hkeeps : fs₀.KeepsTree fs) {u : UpdateContext} (settings : UpdateSettings)
    (hroot : u.cache.root = root) (hkey : Path.FileName (Path.ofString u.key)) :
    Proc.Assures Eq (·.Writes (May root images) ·) (fun _ _ => True) (u.check settings) fs := by
  subst hroot
  have hfree : Cache.LinkFree fs (u.cache.entry u.key) :=
    (hempty.noLinks.keep hkeeps).linkFree hkey
  have hwrite : ∀ state, Proc.Assures Eq (·.Writes (May u.cache.root images) ·) (fun _ _ => True)
      (u.cache.writeState u.pid u.key state) fs := fun state =>
    (Cache.assures_writeState u.pid state hfree).weaken_guarantee fun fs fs' h =>
      h.mono fun p o hf => ⟨u.cache, u.pid, u.key, rfl, hkey,
        hf.mono (fun _ h => h.elim) fun _ h => h⟩
  rw [UpdateContext.check]
  refine ((Cache.assures_readState u.cache u.key fs).weaken_guarantee fun _ _ h =>
    h ▸ .refl _ _).bind ?_
  rintro s _ rfl
  split
  · rw [UpdateContext.remind]
    split
    · exact .pure trivial
    · exact (hwrite _).bind fun _ _ _ => .pure trivial
  · exact (hwrite _).bind fun _ _ _ => .pure trivial

end Courses

/-- What has become of a cache and of the memory of the process that uses it, after extractions and
look-ups of releases that may have failed at any step or were broken off. -/
inductive History (root : Path) (images : ι → Pressing) (fs₀ : FileSystem) :
    FileSystem → LocateMemory → Prop
  | start : History root images fs₀ fs₀ none
  /-- Another process goes on. -/
  | fresh {fs : FileSystem} {m : LocateMemory} : History root images fs₀ fs m →
      History root images fs₀ fs none
  | prepared {fs fs' : FileSystem} {m m' : LocateMemory} {i : ι} {x : Extraction}
      {r : Except LaunchFault Prepared} : History root images fs₀ fs m → x.root = root →
      x.codec = (images i).how.codec →
      (prepare x m (images i).path).Ends fs (r, m') fs' → History root images fs₀ fs' m'
  | checked {fs fs' : FileSystem} {m : LocateMemory} {u : UpdateContext}
      {settings : UpdateSettings} {r : List UpdateEvent × Except Fault UpdateOutcome} :
      History root images fs₀ fs m → u.cache.root = root → Path.FileName (Path.ofString u.key) →
      (u.check settings).Ends fs r fs' → History root images fs₀ fs' m
  /-- An extraction is broken off with its process. -/
  | prepareCut {fs fs' : FileSystem} {m : LocateMemory} {i : ι} {x : Extraction}
      {y : Proc (Except LaunchFault Prepared × LocateMemory)} : History root images fs₀ fs m →
      x.root = root → x.codec = (images i).how.codec →
      Proc.Steps (prepare x m (images i).path) fs y fs' → History root images fs₀ fs' none
  | checkCut {fs fs' : FileSystem} {m : LocateMemory} {u : UpdateContext}
      {settings : UpdateSettings} {y : Proc (List UpdateEvent × Except Fault UpdateOutcome)} :
      History root images fs₀ fs m → u.cache.root = root → Path.FileName (Path.ofString u.key) →
      Proc.Steps (u.check settings) fs y fs' → History root images fs₀ fs' none

section Histories

variable (himages : ∀ i, (images i).Placed fs₀) (hempty : Cache.Empty fs₀ root)
include himages hempty

theorem kept_prepare {i : ι} {x : Extraction} {r : Except LaunchFault Prepared}
    {m' : LocateMemory} (hkept : Kept root images fs₀ fs) (hm : Remembers images m)
    (hroot : x.root = root) (hcodec : x.codec = (images i).how.codec)
    (hends : (prepare x m (images i).path).Ends fs (r, m') fs') :
    Kept root images fs₀ fs' ∧ Remembers images m' ∧
      ∀ p, r = .ok p → Yields images i fs' p.binary :=
  (assures_prepare himages hkept i hempty hroot hcodec hm).ends (fun _ => rfl)
    (fun _ _ h hw => h.step hempty hw) hends hkept

theorem History.kept (h : History root images fs₀ fs m) :
    Kept root images fs₀ fs ∧ Remembers images m := by
  have hstep : ∀ fs fs' : FileSystem, Kept root images fs₀ fs → fs.Writes (May root images) fs' →
      Kept root images fs₀ fs' := fun fs fs' h hw => h.step hempty hw
  induction h with
  | start => exact ⟨⟨.refl fs₀, .refl fs₀ _⟩, remembers_none images⟩
  | fresh _ ih => exact ⟨ih.1, remembers_none images⟩
  | prepared _ hroot hcodec hends ih =>
    obtain ⟨hkept, hm, -⟩ := kept_prepare himages hempty ih.1 ih.2 hroot hcodec hends
    exact ⟨hkept, hm⟩
  | checked _ hroot hkey hends ih =>
    obtain ⟨hkept, -⟩ := (assures_check hempty ih.1.keeps.keeps _ hroot hkey).ends (fun _ => rfl)
      hstep hends ih.1
    exact ⟨hkept, ih.2⟩
  | @prepareCut _ _ _ i _ _ _ hroot hcodec hsteps ih =>
    obtain ⟨hkept, -⟩ := (assures_prepare himages ih.1 i hempty hroot hcodec ih.2).steps
      (fun _ => rfl) hstep hsteps ih.1
    exact ⟨hkept, remembers_none images⟩
  | checkCut _ hroot hkey hsteps ih =>
    obtain ⟨hkept, -⟩ := (assures_check hempty ih.1.keeps.keeps _ hroot hkey).steps (fun _ => rfl)
      hstep hsteps ih.1
    exact ⟨hkept, remembers_none images⟩

/-- Whatever has gone before, every program in the cache is the payload of a launcher and stands
under its key, and an extraction that succeeds gives the payload of its launcher, unless another
payload of the same length has the same key. -/
theorem history_programs (h : History root images fs₀ fs m) :
    (∀ r dir os mode data, Cache.IsRoot fs root r →
      fs.node? (r ++ [dir] ++ [Path.ofString (Cache.binaryName os)]) = some (.file mode data) →
      ∃ i, data = (images i).payload ∧ dir = Path.ofString (cacheKey data)) ∧
    ∀ i x p m' fs', x.root = root → x.codec = (images i).how.codec →
      (prepare x m (images i).path).Ends fs (.ok p, m') fs' →
      fs'.read p.binary = .ok (images i).payload ∨
        ∃ j, (images j).payload.length = (images i).payload.length ∧
          (images j).payload ≠ (images i).payload ∧
          cacheKey (images j).payload = cacheKey (images i).payload := by
  obtain ⟨hkept, hm⟩ := h.kept himages hempty
  refine ⟨fun r dir os mode data hr hnode => ?_, fun i x p m' fs' hroot hcodec hends => ?_⟩
  · exact hkept.program hempty (c := ⟨root, os⟩) hr rfl hnode
  · exact (kept_prepare himages hempty hkept hm hroot hcodec hends).2.2 p rfl

end Histories

section OneLauncher

def pressedBytes : Metadata :=
  ⟨2, 2, Path.ofString "bdd81ab233bceb6a", Target.usual.code, false, none, 0⟩

def pressedStub : Pressing where
  path := Path.ofString "/stub"
  how := ⟨Codec.identity, some Target.usual, none⟩
  carrier := []
  payload := [1, 2]
  image := pressedBytes.withPayload [1, 2]
  info := Carrier.Packing.summary Target.usual [] [1, 2] [1, 2] (pressedBytes.withPayload [1, 2])

def besideCache (image : Bytes) : FileSystem where
  nodes := [([Path.ofString "cache"], .directory), ([Path.ofString "stub"], .file 0o755 image)]
  current := []

def intoEmpty : Extraction :=
  ⟨Codec.identity, Path.ofString "/cache", 7, 0⟩

theorem cacheKey_twoBytes : cacheKey [1, 2] = "bdd81ab233bceb6a" := by
  decide +kernel

theorem read_besideCache (image : Bytes) :
    (besideCache image).read (Path.ofString "/stub") = .ok image := by
  cbv

theorem placed_pressedStub : pressedStub.Placed (besideCache pressedStub.image) := by
  have hmeta : pressedStub.how.metadata Target.usual [1, 2] [1, 2] = pressedBytes := by
    rw [Carrier.Packing.metadata, cacheKey_twoBytes]
    rfl
  have hsize : List.length ([1, 2] : Bytes) ≤ sizeLimit.toNat := by decide
  have hembed : Carrier.embed [] ((pressedStub.how.metadata Target.usual [1, 2] [1, 2]).withPayload
      [1, 2]) = .ok pressedStub.image := by
    rw [hmeta]
    rfl
  have hvalid := (Carrier.Packing.admitted_iff pressedStub.how Target.usual [1, 2] [1, 2]).mpr
    ⟨⟨by decide, hsize⟩, by decide, hsize⟩
  exact ⟨by decide, Codec.roundTrips_identity, (Carrier.pack_eq_ok ..).mpr ⟨Target.usual, [1, 2],
    ⟨by decide, hsize, by decide, rfl, rfl, hvalid, hembed⟩, rfl⟩, read_besideCache _⟩

theorem empty_besideCache (image : Bytes) : Cache.Empty (besideCache image) intoEmpty.root := by
  have hr : Cache.IsRoot (besideCache image) intoEmpty.root [Path.ofString "cache"] := by
    rw [Cache.IsRoot]
    cbv
  refine .of_root hr fun name below => ?_
  simp [node?, besideCache, List.lookup]

theorem way_besideCache (image : Bytes) :
    (besideCache image).Way true [Path.ofString "cache"] [Path.ofString "cache"] := by
  have hroot : (besideCache image).Way true [] [] := ⟨by simp, ⟨_, .here⟩, rfl⟩
  exact hroot.concat ⟨by decide, by decide, by decide, by decide, by decide⟩ (by decide) rfl

theorem run_store_besideCache (image : Bytes) (q : CacheRequest)
    (hkey : q.key = pressedBytes.keyText) : ∃ fs,
      ((Cache.mk intoEmpty.root .linux).store intoEmpty.pid q).run (besideCache image) =
        (.ok ((Cache.mk intoEmpty.root .linux).binary q.key), fs) := by
  have htext : pressedBytes.keyText = "bdd81ab233bceb6a" := by cbv
  rw [htext] at hkey
  have hvalid : isCacheKey (Path.ofString q.key) = true := by
    rw [hkey]
    decide
  have hfile := fileName_of_isCacheKey hvalid
  have hway := way_besideCache image
  have hentry : (Cache.mk intoEmpty.root .linux).entry q.key =
      Path.ofComponents true ([Path.ofString "cache"] ++ [Path.ofString q.key]) :=
    Path.join_ofComponents true hway.files hfile
  have hshort : ([Path.ofString "cache"] ++ [Path.ofString q.key]) ≠ [] ∧
      (Path.ofComponents true ([Path.ofString "cache"] ++ [Path.ofString q.key])).length ≤ maxPath ∧
      ¬TooLong ((Cache.mk intoEmpty.root .linux).entry q.key)
        (Proc.temporary intoEmpty.pid Cache.notesName) := by
    rw [hentry, hkey, TooLong]
    decide
  obtain ⟨hne, hpath, hfits⟩ := hshort
  obtain ⟨fs, hmade, hmadeWay, hnew⟩ := Proc.run_makeDirectories_missing hway
    (fun below => by simp [node?, besideCache, List.lookup])
    (List.forall_mem_singleton.mpr ⟨hfile, (Cache.plainName_of_isCacheKey hvalid).short⟩) hpath
  have he := hmadeWay.existing hne hpath
  rw [← hentry] at hmade he
  obtain ⟨fs', hstore, -⟩ := Cache.run_store_new q hvalid hmade he (fun name => hnew name []) hfits
  exact ⟨fs', hstore⟩

/-- A first extraction succeeds. -/
theorem ends_pressedStub : ∃ p m fs, (prepare intoEmpty none pressedStub.path).Ends
    (besideCache pressedStub.image) (.ok p, m) fs := by
  have hread := read_besideCache pressedStub.image
  have hlocate : Carrier.locate pressedStub.image = some 32 := placed_pressedStub.located
  let md : Metadata := { pressedBytes with dataOffset := 68 }
  have hadmitted : admitted pressedStub.image 32 = .ok (md, .usual) := rfl
  have hpay : Extract.payload (besideCache pressedStub.image) pressedStub.path =
      .ok (pressedStub.image, md, .usual) := by
    rw [Extract.payload, show pressedStub.path = Path.ofString "/stub" from rfl, hread]
    simp only [hlocate, hadmitted]
  have hlookup : ((Cache.mk intoEmpty.root Target.usual.os).lookup md.keyText
      md.uncompressedSize).run (besideCache pressedStub.image) =
        (none, besideCache pressedStub.image) := by
    generalize pressedStub.image = image
    cbv
  have hexpand : expand intoEmpty.codec pressedStub.image md = .ok [1, 2] := rfl
  obtain ⟨m', -, hrun⟩ := run_prepare intoEmpty
    (LocateMemory.current_none (besideCache pressedStub.image) pressedStub.path)
  obtain ⟨fs', hstore⟩ := run_store_besideCache pressedStub.image
    (request intoEmpty pressedStub.path md [1, 2]) rfl
  have husual : Target.usual.os = .linux := rfl
  rw [hpay] at hrun
  simp only [] at hrun
  rw [run_fetch_miss _ _ _ hlookup, hexpand] at hrun
  simp only [] at hrun
  rw [husual, hstore] at hrun
  have hends := Proc.ends_run (prepare intoEmpty none pressedStub.path)
    (besideCache pressedStub.image)
  rw [hrun] at hends
  exact ⟨_, m', fs', hends⟩

/-- It gives the two bytes. -/
theorem history_programs_two_bytes :
    (∀ i : Unit, ((fun _ => pressedStub) i).Placed (besideCache pressedStub.image)) ∧
    Cache.Empty (besideCache pressedStub.image) intoEmpty.root ∧
    ∃ p m fs, (prepare intoEmpty none pressedStub.path).Ends (besideCache pressedStub.image)
      (.ok p, m) fs ∧ History intoEmpty.root (fun _ : Unit => pressedStub)
        (besideCache pressedStub.image) fs m ∧ fs.read p.binary = .ok [1, 2] := by
  have himages : ∀ i : Unit, ((fun _ => pressedStub) i).Placed (besideCache pressedStub.image) :=
    fun _ => placed_pressedStub
  have hempty := empty_besideCache pressedStub.image
  obtain ⟨p, m, fs, hends⟩ := ends_pressedStub
  have hread := (history_programs himages hempty .start).2 () intoEmpty p m fs rfl rfl hends
  refine ⟨himages, hempty, p, m, fs, hends, .prepared (i := ()) .start rfl rfl hends, ?_⟩
  refine hread.resolve_right ?_
  rintro ⟨j, -, hne, -⟩
  exact hne rfl

end OneLauncher

end Extract

end SelfExtract
