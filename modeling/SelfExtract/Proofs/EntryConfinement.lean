import Mathlib
import SelfExtract.Proofs.Extraction
import SelfExtract.Proofs.Packing

/-!
# Extracting touches one entry of the cache

An extraction that fails before it stores, or that finds the program in the
cache, changes nothing. One that stores adds directories on the way to the
entry of the key and writes the two files in it, whatever the launcher holds.
After a success the next extraction finds what this one has left.
-/
namespace SelfExtract

open FileSystem

/-- All that is different belongs to one entry: new directories on the way to it, and its two
files. -/
structure Confined (fs fs' : FileSystem) (c : Cache) (key : String) : Prop where
  current : fs'.current = fs.current
  change : ∀ l, fs'.node? l ≠ fs.node? l →
    (fs.node? l = none ∧ ∃ p ∈ (c.entry key).ancestors, fs'.existing p = .ok (l, .directory)) ∨
    ∃ r, Cache.IsRoot fs' c.root r ∧ l ∈ c.files r key

namespace Confined

variable {fs fs₁ : FileSystem} {c : Cache} {key : String}

theorem refl (fs : FileSystem) (c : Cache) (key : String) : Confined fs fs c key :=
  ⟨rfl, fun _ h => absurd rfl h⟩

theorem of_adds (h : fs.AddsDirectories fs₁ (c.entry key).ancestors) : Confined fs fs₁ c key where
  current := h.current
  change l hl := by
    obtain ⟨hnone, -, hp⟩ := (h.node l).resolve_left hl
    exact .inl ⟨hnone, hp⟩

theorem of_stored {q : CacheRequest} {r : Location} {out : Except Fault Path × FileSystem}
    (h : Cache.Stored c q fs₁ (r ++ [Path.ofString q.key]) out)
    (hadds : fs.AddsDirectories fs₁ (c.entry q.key).ancestors) (hr : Cache.IsRoot fs₁ c.root r)
    (hlinks : ∀ name, ¬fs₁.LinkedDirectory (r ++ [Path.ofString q.key]) name) :
    Confined fs out.2 c q.key where
  current := h.sameBut.current.trans hadds.current
  change l hl := by
    by_cases hmem : l ∈ c.files r q.key
    · exact .inr ⟨r, h.existing hlinks hr, hmem⟩
    · rw [h.sameBut.node l hmem] at hl
      obtain ⟨hnone, -, p, hp, hex⟩ := (hadds.node l).resolve_left hl
      exact .inl ⟨hnone, p, hp, h.existing hlinks hex⟩

end Confined

/-- A path is read the same when some objects are taken away. -/
def Outside (fs : FileSystem) (ls : List Location) (p : Path) : Prop :=
  (fs.without ls).read p = fs.read p

theorem nil_not_mem_files (c : Cache) (r : Location) (key : String) : [] ∉ c.files r key := by
  simp [Cache.files]

/-- What is read outside of an entry is read after it was stored. -/
theorem Outside.read {fs fs₁ fs' : FileSystem} {ls : List Location} {paths : List Path}
    {p : Path} {data : Bytes} (h : Outside fs ls p) (hls : [] ∉ ls)
    (hadds : fs.AddsDirectories fs₁ paths) (hsame : fs₁.SameBut fs' ls)
    (hread : fs.read p = .ok data) : fs'.read p = fs.read p := by
  have hext : (fs.without ls).Extends fs' :=
    extends_of_without hls (hsame.current.trans hadds.current) fun l n hl hn => by
      rw [hsame.node l hl]
      exact hadds.grows.keeps l n hn
  rw [Outside, hread] at h
  rw [hread]
  exact hext.read h

/-- A cache whose entries can be written in their places. This is asked of the tree as it stands when
the directories of an entry are there, since its root may not exist before. -/
def CleanTree (fs : FileSystem) (root : Path) (pid : Nat) : Prop :=
  ∀ key, isCacheKey (Path.ofString key) = true →
    Cache.Tidy ((Proc.makeDirectories (root.join (Path.ofString key))).run fs).2 root
      (Path.ofString key) pid

/-- A cache that is there is clean when nothing in it is a link to a directory or bears the name of a
temporary file. -/
theorem CleanTree.of_root {fs : FileSystem} {root : Path} {r : Location} {pid : Nat}
    (hr : Cache.IsRoot fs root r)
    (hlinks : ∀ here name, r <+: here → ¬fs.LinkedDirectory here name)
    (htemps : ∀ here name, r <+: here → fs.node? (here ++ [Proc.temporary pid name]) = none)
    (hparents : ∀ here name, fs.node? here ≠ some .directory →
      fs.node? (here ++ [name]) = none) :
    CleanTree fs root pid := by
  intro key hkey
  change Cache.Tidy ((Proc.makeDirectories ((Cache.mk root .linux).entry key)).run fs).2 root _ pid
  rcases Cache.run_makeDirectories_entry (c := ⟨root, .linux⟩) hkey hr with heq | ⟨hnone, hwith⟩
  · rw [heq]
    refine ⟨fun r' hr' => ?_, fun r' name hr' => ?_, fun r' name n hr' hn => ?_⟩
    · obtain rfl := hr.unique hr'
      exact hlinks r _ (List.prefix_refl r)
    · obtain rfl := hr.unique hr'
      exact hlinks _ name (List.prefix_append r _)
    · obtain rfl := hr.unique hr'
      rw [htemps _ name (List.prefix_append r _)] at hn
      cases hn
  · generalize ((Proc.makeDirectories ((Cache.mk root .linux).entry key)).run fs).2 = fs₁ at hwith
    have hr₁ : Cache.IsRoot fs₁ root r := (hwith.grows hnone).existing hr
    -- the directory of the entry is new, and empty since everything is in a directory
    have hempty : ∀ name, fs₁.node? (r ++ [Path.ofString key] ++ [name]) = none := by
      intro name
      rw [hwith.other (by simp)]
      exact hparents _ name (by rw [hnone]; exact nofun)
    refine ⟨fun r' hr' => ?_, fun r' name hr' => ?_, fun r' name n hr' hn => ?_⟩
    · obtain rfl := hr₁.unique hr'
      rintro ⟨target, f, hnode, -⟩
      rw [hwith.self] at hnode
      cases hnode
    · obtain rfl := hr₁.unique hr'
      rintro ⟨target, f, hnode, -⟩
      rw [hempty] at hnode
      cases hnode
    · obtain rfl := hr₁.unique hr'
      rw [hempty] at hn
      cases hn

namespace Extract

structure Outcome (x : Extraction) (launcher : Path) (fs : FileSystem)
    (r : Except LaunchFault Prepared) (m : LocateMemory) (fs' : FileSystem) : Prop where
  /-- All changes belong to the entry of a key of sixteen hexadecimal digits. -/
  confined : ∃ c key, c.root = x.root ∧ isCacheKey (Path.ofString key) = true ∧
    (∀ p, r = .ok p → p.cache = c ∧ p.metadata.keyText = key ∧ p.binary = c.binary key) ∧
    Confined fs fs' c key
  /-- A failure before the store changes nothing; any other one comes after the program was
  expanded. -/
  failed : ∀ e, r = .error e → e.isCacheWrite = false ∧ fs' = fs ∨
    e.isCacheWrite = true ∧ ∃ data md target program,
      payload fs launcher = .ok (data, md, target) ∧ expand x.codec data md = .ok program
  admitted : ∀ p, r = .ok p → ∃ data target,
    payload fs launcher = .ok (data, p.metadata, target) ∧ p.cache.os = target.os
  size : ∀ p, r = .ok p → 1 ≤ p.metadata.uncompressedSize.toNat ∧
    p.metadata.uncompressedSize.toNat ≤ 500 * 1024 * 1024
  found : ∀ p, r = .ok p → p.hit = true → fs' = fs
  /-- A program that was not in the cache is there now, as the codec has given it. -/
  extracted : ∀ p, r = .ok p → p.hit = false → ∃ data compressed program,
    fs.read launcher = .ok data ∧ p.metadata.readPayload data = .ok compressed ∧
    x.codec.expand compressed p.metadata.uncompressedSize.toNat = .ok program ∧
    program.length = p.metadata.uncompressedSize.toNat ∧ fs'.read p.binary = .ok program
  /-- Another extraction finds what this one has left, unless it has replaced the launcher. -/
  again : ∀ p, r = .ok p →
    (∀ d, Cache.IsRoot fs' x.root d →
      Outside fs (p.cache.files d p.metadata.keyText) launcher) →
    m.Current fs' launcher ∧
    ∀ (x₂ : Extraction) (m₂ : LocateMemory), x₂.root = x.root → m₂.Current fs' launcher →
      ∃ q m₃, (prepare x₂ m₂ launcher).run fs' = ((.ok q, m₃), fs') ∧ q.hit = true ∧
        q.binary = p.binary

section Course

variable {x : Extraction} {launcher : Path} {fs fs₁ fs' : FileSystem} {m : LocateMemory}
  {data : Bytes} {md : Metadata} {target : Target} {e : LaunchFault} {b : Path}

/-- An extraction that finds its program in the cache is repeated by any other. -/
theorem run_prepare_hit (hpay : payload fs launcher = .ok (data, md, target))
    (hlook : ((Cache.mk x.root target.os).lookup md.keyText md.uncompressedSize).run fs =
      (some b, fs)) (x₂ : Extraction) (m₂ : LocateMemory) (hroot : x₂.root = x.root)
    (hm₂ : m₂.Current fs launcher) :
    ∃ q m₃, (prepare x₂ m₂ launcher).run fs = ((.ok q, m₃), fs) ∧ q.hit = true ∧
      q.binary = b := by
  obtain ⟨m₃, -, hrun⟩ := run_prepare x₂ hm₂
  rw [hpay] at hrun
  simp only [] at hrun
  rw [← hroot] at hlook
  rw [run_fetch_hit x₂ launcher data hlook] at hrun
  exact ⟨_, m₃, hrun, rfl, rfl⟩

theorem Outcome.refused (x : Extraction) (launcher : Path) (m : LocateMemory) (fs : FileSystem)
    (he : e.isCacheWrite = false) : Outcome x launcher fs (.error e) m fs where
  confined := ⟨⟨x.root, .linux⟩, "0000000000000000", rfl, by decide,
    (fun _ h => nomatch h), .refl ..⟩
  failed := by
    rintro _ ⟨⟩
    exact .inl ⟨he, rfl⟩
  admitted := fun _ h => nomatch h
  size := fun _ h => nomatch h
  found := fun _ h => nomatch h
  extracted := fun _ h => nomatch h
  again := fun _ h => nomatch h

theorem size_bounds (h : md.validate sizeLimit = .ok ()) :
    1 ≤ md.uncompressedSize.toNat ∧ md.uncompressedSize.toNat ≤ 500 * 1024 * 1024 := by
  obtain ⟨hpos, hle⟩ := (Metadata.validate_eq_ok.mp h).2.1
  exact ⟨hpos, UInt64.le_iff_toNat_le.mp hle⟩

theorem Outcome.hit (hm : m.Current fs launcher)
    (hpay : payload fs launcher = .ok (data, md, target))
    (hlook : ((Cache.mk x.root target.os).lookup md.keyText md.uncompressedSize).run fs =
      (some b, fs)) :
    Outcome x launcher fs (.ok ⟨b, md, ⟨x.root, target.os⟩, true⟩) m fs := by
  obtain ⟨hread, hvalid⟩ := payload_ok hpay
  have hb : b = (Cache.mk x.root target.os).binary md.keyText :=
    Cache.run_lookup_fst (by rw [hlook])
  refine {
    confined := ⟨⟨x.root, target.os⟩, md.keyText, rfl, isCacheKey_keyText hvalid, ?_, .refl ..⟩
    failed := fun _ h => nomatch h
    admitted := ?_
    size := ?_
    found := fun _ _ _ => rfl
    extracted := ?_
    again := ?_ }
  · rintro _ ⟨⟩
    exact ⟨rfl, rfl, hb⟩
  · rintro _ ⟨⟩
    exact ⟨data, target, hpay, rfl⟩
  · rintro _ ⟨⟩
    exact size_bounds hvalid
  · rintro _ ⟨⟩ ⟨⟩
  · rintro _ ⟨⟩ -
    exact ⟨hm, run_prepare_hit hpay hlook⟩

theorem Outcome.unstored {program : Bytes} (hpay : payload fs launcher = .ok (data, md, target))
    (hexpand : expand x.codec data md = .ok program) (he : e.isCacheWrite = true)
    (hconf : Confined fs fs' ⟨x.root, target.os⟩ md.keyText) :
    Outcome x launcher fs (.error e) m fs' where
  confined := ⟨⟨x.root, target.os⟩, md.keyText, rfl, isCacheKey_keyText (payload_ok hpay).2,
    (fun _ h => nomatch h), hconf⟩
  failed := by
    rintro _ ⟨⟩
    exact .inr ⟨he, data, md, target, program, hpay, hexpand⟩
  admitted := fun _ h => nomatch h
  size := fun _ h => nomatch h
  found := fun _ h => nomatch h
  extracted := fun _ h => nomatch h
  again := fun _ h => nomatch h

/-- Storing ends with faults of its own only. -/
theorem isCacheWrite_of_stored {c : Cache} {q : CacheRequest} {d : Location} {f : Fault}
    (h : Cache.Stored c q fs d (.error f, fs')) : (LaunchFault.ofFault f).isCacheWrite = true := by
  cases h with
  | unwritten => rfl
  | withdrawn => rfl

/-- A program that was stored is found again, as long as the launcher is read as before. -/
theorem Outcome.stored {program : Bytes} {r : Location} (hm : m.Current fs launcher)
    (hpay : payload fs launcher = .ok (data, md, target))
    (hexpand : expand x.codec data md = .ok program)
    (hadds : fs.AddsDirectories fs₁ ((Cache.mk x.root target.os).entry md.keyText).ancestors)
    (hr : Cache.IsRoot fs₁ x.root r)
    (hentry : fs₁.existing ((Cache.mk x.root target.os).entry md.keyText) =
      .ok (r ++ [Path.ofString md.keyText], .directory))
    (hlinks : ∀ name, ¬fs₁.LinkedDirectory (r ++ [Path.ofString md.keyText]) name)
    (hstored : Cache.Stored ⟨x.root, target.os⟩ (request x launcher md program) fs₁
      (r ++ [Path.ofString md.keyText]) (.ok b, fs')) :
    Outcome x launcher fs (.ok ⟨b, md, ⟨x.root, target.os⟩, false⟩) m fs' := by
  obtain ⟨hread, hvalid⟩ := payload_ok hpay
  have hkey := isCacheKey_keyText hvalid
  obtain ⟨compressed, hcompressed, hprogram, hlen⟩ := expand_ok hexpand
  have hconf := Confined.of_stored hstored hadds hr hlinks
  have hentry' := hstored.existing hlinks hentry
  have hroot' := hstored.existing hlinks hr
  have hsame := hstored.sameBut
  cases hstored with
  | done hfit _ _ hwith hwith₂ =>
    have hnode := hwith.self
    rw [← hwith₂.other (place_ne _ (Cache.ne_notesName _))] at hnode
    refine {
      confined := ⟨_, md.keyText, rfl, hkey, ?_, hconf⟩
      failed := fun _ h => nomatch h
      admitted := ?_
      size := ?_
      found := ?_
      extracted := ?_
      again := ?_ }
    · rintro _ ⟨⟩
      exact ⟨rfl, rfl, rfl⟩
    · rintro _ ⟨⟩
      exact ⟨data, target, hpay, rfl⟩
    · rintro _ ⟨⟩
      exact size_bounds hvalid
    · rintro _ ⟨⟩ ⟨⟩
    · rintro _ ⟨⟩ -
      exact ⟨data, compressed, program, hread, hcompressed, hprogram, hlen,
        Cache.read_binary hkey hentry' hfit hnode⟩
    · rintro _ ⟨⟩ hout
      have hread' := (hout r hroot').read (nil_not_mem_files _ r _) hadds hsame hread
      refine ⟨hm.congr hread', run_prepare_hit ((payload_congr hread').trans hpay) ?_⟩
      exact Cache.run_lookup_file hkey hentry' hfit hnode hlen (by decide)

/-- Extracting the payload of any launcher touches one entry of the cache, changes nothing before it
stores, gives what the codec gives, and leaves what the next extraction finds. -/
theorem prepare_outcome (x : Extraction) (m : LocateMemory) (launcher : Path) (fs : FileSystem)
    (hmemory : m.Current fs launcher) (hclean : CleanTree fs x.root x.pid) :
    Outcome x launcher fs ((prepare x m launcher).run fs).1.1 ((prepare x m launcher).run fs).1.2
      ((prepare x m launcher).run fs).2 := by
  obtain ⟨m', hm', hrun⟩ := run_prepare x hmemory
  rw [hrun]
  cases hpay : payload fs launcher with
  | error e => exact .refused x launcher m' fs (payload_error hpay)
  | ok found =>
    obtain ⟨data, md, target⟩ := found
    have hkey := isCacheKey_keyText (payload_ok hpay).2
    simp only []
    cases hfound : (((Cache.mk x.root target.os).lookup md.keyText md.uncompressedSize).run
      fs).1 with
    | some b =>
      have hlook := Cache.run_lookup hfound
      rw [run_fetch_hit x launcher data hlook]
      exact .hit hm' hpay hlook
    | none =>
      rw [run_fetch_miss x launcher data (Cache.run_lookup hfound)]
      cases hexpand : expand x.codec data md with
      | error e => exact .refused x launcher m' _ (expand_error hexpand)
      | ok program =>
        have htidy := hclean md.keyText hkey
        have hadds := (Proc.ensures_makeDirectories
          (Cache.entry_ne_nil hkey ⟨x.root, target.os⟩) fs).adds
        rcases Cache.stored_store ⟨x.root, target.os⟩ x.pid (request x launcher md program) hkey rfl
          htidy with ⟨f, hstore⟩ | ⟨r, hr, he, hstored⟩
        · simp only [hstore]
          exact .unstored hpay hexpand rfl (.of_adds hadds)
        · have hlinks := fun name => htidy.files r name hr
          simp only []
          generalize ((Cache.mk x.root target.os).store x.pid
            (request x launcher md program)).run fs = out at hstored
          obtain ⟨result, fs'⟩ := out
          cases result with
          | error f =>
            exact .unstored hpay hexpand (isCacheWrite_of_stored hstored)
              (.of_stored hstored hadds hr hlinks)
          | ok b => exact .stored hm' hpay hexpand hadds hr he hlinks hstored

end Course

section FirstLaunch

/-- The metadata of the bytes 1 and 2. -/
def twoBytes : Metadata :=
  ⟨2, 2, Path.ofString "0123456789abcdef", Target.usual.code, false, none, 68⟩

def firstLaunch : FileSystem where
  nodes := [([Path.ofString "cache"], .directory),
    ([Path.ofString "stub"], .file 0o755 (twoBytes.withPayload [1, 2]))]
  current := []

def intoCache : Extraction :=
  ⟨Codec.identity, Path.ofString "/cache", 7, 0⟩

theorem node?_firstLaunch {l : Location} {n : Node} (h : firstLaunch.node? l = some n) :
    l.length ≤ 1 ∧ n.IsObject := by
  rw [node?] at h
  split at h
  · next hl =>
    cases h
    exact ⟨by simp [hl], isObject_directory⟩
  · rw [firstLaunch, List.lookup_eq_some_iff] at h
    obtain ⟨l₁, l₂, hnodes, -⟩ := h
    have hmem : (l, n) ∈ firstLaunch.nodes := by
      rw [firstLaunch, hnodes]
      simp
    simp only [firstLaunch, List.mem_cons, Prod.mk.injEq, List.not_mem_nil, or_false] at hmem
    rcases hmem with ⟨rfl, rfl⟩ | ⟨rfl, rfl⟩
    · exact ⟨by simp, isObject_directory⟩
    · exact ⟨by simp, isObject_file _ _⟩

theorem cleanTree_firstLaunch : CleanTree firstLaunch intoCache.root intoCache.pid := by
  have hr : Cache.IsRoot firstLaunch intoCache.root [Path.ofString "cache"] := by
    rw [Cache.IsRoot]
    cbv
  refine .of_root hr ?_ ?_ ?_
  · rintro here name - ⟨target, f, hnode, -⟩
    exact absurd rfl ((node?_firstLaunch hnode).2 target)
  · intro here name hhere
    cases hnode : firstLaunch.node? (here ++ [Proc.temporary intoCache.pid name]) with
    | none => rfl
    | some n =>
      have hlen := (node?_firstLaunch hnode).1
      have hle := hhere.length_le
      rw [List.length_append] at hlen
      simp only [List.length_cons, List.length_nil] at hlen hle
      omega
  · intro here name hdir
    cases hnode : firstLaunch.node? (here ++ [name]) with
    | none => rfl
    | some n =>
      have hlen := (node?_firstLaunch hnode).1
      obtain rfl : here = [] := by simpa using hlen
      exact absurd (node?_root firstLaunch) hdir

def firstEntry : Location :=
  [Path.ofString "cache", Path.ofString "0123456789abcdef"]

theorem run_store_firstLaunch (q : CacheRequest) (hkey : q.key = twoBytes.keyText) :
    ∃ b fs', ((Cache.mk intoCache.root .linux).store intoCache.pid q).run firstLaunch =
      (.ok b, fs') := by
  have htext : q.key = "0123456789abcdef" := hkey.trans (by cbv)
  have hmake : (Proc.makeDirectories ((Cache.mk intoCache.root .linux).entry
      "0123456789abcdef")).run firstLaunch =
      (.ok (), firstLaunch.put firstEntry .directory) := by
    cbv
  have hprogram : ∀ data, (Proc.writeAtomically intoCache.pid
      ((Cache.mk intoCache.root .linux).binary "0123456789abcdef") Cache.binaryMode data).run
        (firstLaunch.put firstEntry .directory) =
      (.ok (), (firstLaunch.put firstEntry .directory).put (firstEntry ++ [Path.ofString "node"])
        (.file 0o755 data)) := by
    intro data
    cbv
  have hnotes : ∀ data notes, ((Proc.writeAtomically intoCache.pid
      ((Cache.mk intoCache.root .linux).sidecar "0123456789abcdef") Cache.sidecarMode notes).run
        ((firstLaunch.put firstEntry .directory).put (firstEntry ++ [Path.ofString "node"])
          (.file 0o755 data))).1 = .ok () := by
    intro data notes
    cbv
  rw [← htext] at hmake hprogram hnotes
  exact ⟨_, _, Cache.run_store_of_writes hmake (hprogram _) (Prod.ext (hnotes _ _) rfl)⟩

theorem outside_firstLaunch (c : Cache) (d : Location) (key : String) :
    Outside firstLaunch (c.files d key) (Path.ofString "/stub") := by
  have hlong : ∀ a name, firstLaunch.erase (d ++ [a] ++ [name]) = firstLaunch := by
    intro a name
    rw [FileSystem.erase, List.filter_eq_self.mpr]
    intro n hn
    rw [bne_iff_ne]
    intro heq
    have hlen := congrArg List.length heq
    simp only [firstLaunch, List.mem_cons, List.not_mem_nil, or_false] at hn
    rcases hn with rfl | rfl
    · simp at hlen
    · simp at hlen
  rw [Outside, FileSystem.without, Cache.files, List.foldl_cons, List.foldl_cons, List.foldl_nil,
    hlong, hlong]

/-- A first launch stores the program, and the second one finds it. -/
theorem prepare_outcome_first_launch :
    LocateMemory.Current none firstLaunch (Path.ofString "/stub") ∧
    CleanTree firstLaunch intoCache.root intoCache.pid ∧
    Outcome intoCache (Path.ofString "/stub") firstLaunch
      ((prepare intoCache none (Path.ofString "/stub")).run firstLaunch).1.1
      ((prepare intoCache none (Path.ofString "/stub")).run firstLaunch).1.2
      ((prepare intoCache none (Path.ofString "/stub")).run firstLaunch).2 ∧
    ∃ p m fs, (prepare intoCache none (Path.ofString "/stub")).run firstLaunch = ((.ok p, m), fs) ∧
      p.hit = false ∧
      ∃ q m', (prepare intoCache m (Path.ofString "/stub")).run fs = ((.ok q, m'), fs) ∧
        q.hit = true := by
  have hmemory : LocateMemory.Current none firstLaunch (Path.ofString "/stub") := nofun
  have houtcome := prepare_outcome intoCache none _ firstLaunch hmemory cleanTree_firstLaunch
  refine ⟨hmemory, cleanTree_firstLaunch, houtcome, ?_⟩
  have hread : firstLaunch.read (Path.ofString "/stub") = .ok (twoBytes.withPayload [1, 2]) := by
    cbv
  have hlocate : Carrier.locate (twoBytes.withPayload [1, 2]) = some 32 := by decide +kernel
  have hadmitted : admitted (twoBytes.withPayload [1, 2]) 32 = .ok (twoBytes, .usual) := rfl
  have hpay : payload firstLaunch (Path.ofString "/stub") =
      .ok (twoBytes.withPayload [1, 2], twoBytes, .usual) := by
    rw [payload, hread]
    simp only [hlocate, hadmitted]
  have hlookup : ((Cache.mk intoCache.root Target.usual.os).lookup twoBytes.keyText
      twoBytes.uncompressedSize).run firstLaunch = (none, firstLaunch) := by
    cbv
  have hexpand : expand intoCache.codec (twoBytes.withPayload [1, 2]) twoBytes = .ok [1, 2] := rfl
  obtain ⟨m', -, hrun⟩ := run_prepare intoCache hmemory
  obtain ⟨b, fs', hstore⟩ := run_store_firstLaunch
    (request intoCache (Path.ofString "/stub") twoBytes [1, 2]) rfl
  have husual : Target.usual.os = .linux := rfl
  rw [hpay] at hrun
  simp only [] at hrun
  rw [run_fetch_miss _ _ _ hlookup, hexpand] at hrun
  simp only [] at hrun
  rw [husual, hstore] at hrun
  rw [hrun] at houtcome
  obtain ⟨hcurrent, hagain⟩ := houtcome.again _ rfl fun d _ => outside_firstLaunch _ d _
  obtain ⟨q, m₃, hsecond, hhit, -⟩ := hagain intoCache m' rfl hcurrent
  exact ⟨_, m', fs', hrun, rfl, q, m₃, hsecond, hhit⟩

end FirstLaunch

end Extract

end SelfExtract
