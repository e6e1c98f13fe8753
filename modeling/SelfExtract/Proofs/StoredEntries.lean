import SelfExtract.Proofs.ConcurrentStores
import SelfExtract.Proofs.SparedEntries

/-!
# An entry that was stored

A store that succeeds leaves an entry in which the program and its sidecar are
found, and that can be stored again. One that fails leaves the program as it was,
or removes it.
-/
namespace SelfExtract

open FileSystem

namespace Cache

variable {fs fs₁ fs₂ fs' : FileSystem} {c : Cache} {key : String} {pid pid₂ : Nat}
  {q q₂ : CacheRequest} {r d : Location} {b b₂ : Path} {e : Fault}
  {out : Except Fault Path}

theorem isRead_newSidecar (q : CacheRequest) : (newSidecar q).IsRead where
  extra := by
    have hsorted : "compressed_size" < "compression_algorithm" := by decide
    exact .object (List.pairwise_pair.mpr hsorted)
      (List.forall_mem_cons.mpr
      ⟨.natural _ _, List.forall_mem_singleton.mpr (.text _ _)⟩)
  sorted := List.Pairwise.nil
  other := nofun
  unknown := nofun

theorem isExact_newSidecar (q : CacheRequest) : (newSidecar q).IsExact where
  extra := .object (List.forall_mem_cons.mpr
    ⟨.natural _, List.forall_mem_singleton.mpr (.text _)⟩)
  other := nofun

/-! ### The files of an entry -/

/-- An entry in its place, with a program and its sidecar, whose files can be written. -/
structure Filled (c : Cache) (pid : Nat) (q : CacheRequest) (r : Location) (fs : FileSystem) :
    Prop where
  root : IsRoot fs c.root r
  entry : fs.existing (c.entry q.key) = .ok (r ++ [Path.ofString q.key], .directory)
  program : fs.node? (r ++ [Path.ofString q.key] ++ [c.programName]) =
    some (.file binaryMode q.data)
  notes : fs.node? (r ++ [Path.ofString q.key] ++ [notesName]) =
    some (.file sidecarMode (newSidecar q).encode)
  fits : ¬TooLong (c.entry q.key) (Proc.temporary pid notesName)

section Filled

variable (hkey : isCacheKey (Path.ofString q.key) = true) (h : c.Filled pid q r fs)
include hkey h

theorem Filled.names : fs.Names (c.binary q.key) (r ++ [Path.ofString q.key]) c.programName := by
  rw [binary_eq hkey]
  exact .of_existing h.entry c.fileName_programName (fits_of_temporary (c.fits_programName h.fits))

theorem Filled.read : fs.read (c.binary q.key) = .ok q.data :=
  (h.names hkey).read h.program

theorem Filled.status :
    fs.status (c.binary q.key) = .ok ⟨true, q.data.length, binaryMode⟩ := by
  have hnames := h.names hkey
  rw [FileSystem.status, hnames.file, hnames.resolve fun _ _ => rfl]
  simp only [bind, Except.bind, h.program]
  rfl

/-- The program is found for its size and for no other one. -/
theorem Filled.lookup (size : UInt64) : ((c.lookup q.key size).run fs).1 =
    if q.data.length = size.toNat then some (c.binary q.key) else none := by
  have hmode : isExecutable binaryMode = true := by decide
  rw [Cache.lookup, Proc.run_bind, Proc.run_call, perform, h.status hkey]
  simp [hmode]

theorem Filled.readSidecar :
    ((c.readSidecar q.key).run fs).1 = .ok (some (newSidecar q)) := by
  have hnames := Names.of_existing h.entry fileName_notesName (fits_of_temporary h.fits)
  rw [← sidecar_eq hkey] at hnames
  have hparse := Sidecar.parse?_encode (isRead_newSidecar q) (isExact_newSidecar q)
  rw [run_readSidecar ⟨_, hnames.read h.notes, hparse⟩]

/-- The directory of the entry is enough as it is. -/
theorem Filled.run_makeDirectories :
    (Proc.makeDirectories (c.entry q.key)).run fs = (.ok (), fs) := by
  have hthere : fs.isDirectory (c.entry q.key) = true := isDirectory_iff.mpr ⟨_, h.entry⟩
  obtain ⟨err, hmake, hne⟩ : ∃ err, fs.makeDirectory (c.entry q.key) = .error err ∧
      err ≠ .notFound := by
    rcases resolve_entry hkey h.root (fun _ _ => rfl) with hlong | hfound
    · exact ⟨.nameTooLong, by rw [makeDirectory, hlong]; rfl, by simp⟩
    · refine ⟨.alreadyExists, ?_, by simp⟩
      rw [makeDirectory, hfound]
      simp only [bind, Except.bind, (existing_eq_ok_iff.mp h.entry).node]
      rfl
  rw [Proc.makeDirectories, Path.ancestors, if_neg (by simpa using entry_ne_nil hkey c),
    Proc.makeDirectoriesIn, Proc.run_bind, Proc.run_call, perform, hmake]
  simp only [change]
  rw [Proc.run_bind, Proc.run_call, perform, hthere]
  rfl

theorem Filled.run_store
    (htemps : ∀ name, fs.node? (r ++ [Path.ofString q.key] ++ [Proc.temporary pid name]) = none) :
    ∃ fs', (c.store pid q).run fs = (.ok (c.binary q.key), fs') := by
  have hfree : ∀ mode data, Free (some (.file mode data)) := free_file
  obtain ⟨fs', hrun, -⟩ := run_store_free q hkey (h.run_makeDirectories hkey) h.entry htemps
    (h.program ▸ hfree _ _) (h.notes ▸ hfree _ _) h.fits
  exact ⟨fs', hrun⟩

end Filled

/-! ### How a store ends -/

/-- A store that succeeds has filled the entry. -/
theorem Course.filled (h : c.Course pid q fs (.ok b) fs') (hclean : c.Clean q.key pid fs) :
    b = c.binary q.key ∧ ∃ r, c.Filled pid q r fs' := by
  cases h with
  | @placed fs₁ _ r _ hadds hr he hfits hstored =>
    have hlinks := hclean.unlinked hadds hr
    have hroot := hstored.existing hlinks hr
    have hentry := hstored.existing hlinks he
    cases hstored with
    | done hfit hdir hdir₂ hwith hwith₂ =>
      refine ⟨rfl, r, hroot, hentry, ?_, hwith₂.self, hfits _ rfl⟩
      rw [hwith₂.other (place_ne _ (ne_notesName c)), hwith.self]

/-- However a store ends, the cache is as clean as before, for this process and for any other. -/
theorem Course.clean (h : c.Course pid q fs out fs') (hclean : c.Clean q.key pid₂ fs)
    (hname : Path.FileName (Path.ofString q.key)) : c.Clean q.key pid₂ fs' := by
  cases h with
  | unmade hadds => exact hclean.of_adds hadds
  | placed hadds hr he _ hstored => exact hclean.stored hadds hr hstored he hname

theorem Course.spares (h : c.Course pid q fs out fs') (hclean : c.Clean q.key pid fs)
    (hname : Path.FileName (Path.ofString q.key)) : c.Spares q.key pid fs fs' := by
  cases h with
  | unmade hadds =>
    exact (Beside.of_adds hclean hname hadds).spares (.of_adds hadds) fun r here name hr hhere =>
      hclean.temporaries fs' r here name hadds hr hhere
  | @placed fs₁ _ r _ hadds hr _ _ hstored =>
    refine (Beside.of_stored hclean hadds hr hstored hname).spares
      (.of_stored hstored hadds hr (hclean.unlinked hadds hr)) fun r' here name hr' hhere => ?_
    obtain rfl := (hstored.isRoot hclean hadds hr).unique hr'
    exact hstored.temporaries hclean hadds hr hhere name

/-- A store that fails leaves the program as it was, or no program. -/
theorem Course.withdrawn (h : c.Course pid q fs (.error e) fs') (hclean : c.Clean q.key pid fs)
    (hname : Path.FileName (Path.ofString q.key)) : fs'.Absent (c.binary q.key) ∨
      fs'.resolve false (c.binary q.key) = fs.resolve false (c.binary q.key) := by
  cases h with
  | unmade hadds => exact hclean.program_kept hname hadds
  | @placed fs₁ _ r _ hadds hr he _ hstored =>
    have hbeside := Beside.of_stored hclean hadds hr hstored hname
    have hroot := hstored.isRoot hclean hadds hr
    cases hstored with
    | unwritten hsame =>
      have hresolve := hsame.resolve false (c.binary q.key)
      refine (hclean.program_kept hname hadds).imp (fun habsent f hf => ?_) hresolve.trans
      exact habsent f (hresolve ▸ hf)
    | withdrawn _ hwith =>
      refine .inl (absent_binary hname fun r' hr' => ?_)
      obtain rfl := hroot.unique hr'
      exact ⟨hbeside.unlinked' r _ hr', hwith.self⟩

/-- What is stored a second time takes the place of what was stored before. -/
theorem Stored.again (h : Stored c q fs d (.ok b, fs₁)) (hsame : fs₁.Same fs₂)
    (h₂ : Stored c q₂ fs₂ d (.ok b₂, fs')) : Stored c q₂ fs d (.ok b₂, fs') := by
  cases h with
  | @done fs₃ _ hfit hdir hdir₂ hwith hwith₂ =>
    cases h₂ with
    | @done fs₄ _ hfit' _ _ hwith' hwith₂' =>
      have hput := (With.refl fs (d ++ [c.programName])).put (List.concat_ne_nil _ d)
        (.file binaryMode q₂.data)
      refine .done hfit' hdir hdir₂ hput ⟨?_, fun m => ?_⟩
      · rw [hwith₂'.current, hwith'.current, hsame.current, hwith₂.current, hwith.current]
        rfl
      · rw [hwith₂'.node, hwith'.node, hsame.node, hwith₂.node, hwith.node, hput.node]
        split
        · rfl
        · split
          · rfl
          · rfl

theorem Course.again (h : c.Course pid q fs (.ok b) fs₁) (h₂ : c.Course pid₂ q₂ fs₁ (.ok b₂) fs')
    (hq : q₂.key = q.key) (hclean : c.Clean q.key pid fs)
    (hname : Path.FileName (Path.ofString q.key)) : c.Course pid₂ q₂ fs (.ok b₂) fs' := by
  cases h with
  | @placed fs₂ _ r _ hadds hr he _ hstored =>
    cases h₂ with
    | @placed fs₃ _ r₂ _ hadds₂ hr₂ he₂ hfits₂ hstored₂ =>
      have hroot := hstored.isRoot hclean hadds hr
      have hentry := hstored.existing (hclean.unlinked hadds hr) he
      obtain rfl : r = r₂ := IsRoot.unique (hadds₂.grows.existing hroot) hr₂
      rw [hq] at hadds₂ hstored₂
      have hsame := same_of_adds hname hroot (existing_eq_ok_iff.mp hentry).node hadds₂
      have hboth := hstored.again hsame hstored₂
      rw [← hq] at hadds he hboth
      exact .placed hadds hr he hfits₂ hboth

/-- What a store that succeeds has done: the program is found, for its size only, and is a file with
its content and mode; the sidecar is read; all else is spared, and other sidecars in their places are
read as before. -/
structure Placed (c : Cache) (pid : Nat) (q : CacheRequest) (fs fs' : FileSystem) : Prop where
  lookup : ∀ size, ((c.lookup q.key size).run fs').1 =
    if q.data.length = size.toNat then some (c.binary q.key) else none
  read : fs'.read (c.binary q.key) = .ok q.data
  status : fs'.status (c.binary q.key) = .ok ⟨true, q.data.length, 0o755⟩
  notes : ((c.readSidecar q.key).run fs').1 = .ok (some (newSidecar q))
  spares : c.Spares q.key pid fs fs'
  sidecars : ∀ k, Other q.key k → c.InPlace k fs →
    ((c.readSidecar k).run fs').1 = ((c.readSidecar k).run fs).1

theorem Course.placed_entry (h : c.Course pid q fs (.ok b) fs')
    (hkey : isCacheKey (Path.ofString q.key) = true) (hclean : c.Clean q.key pid fs) :
    c.Placed pid q fs fs' := by
  have hname := fileName_of_isCacheKey hkey
  obtain ⟨-, r, hfilled⟩ := h.filled hclean
  refine ⟨hfilled.lookup hkey, hfilled.read hkey, hfilled.status hkey, hfilled.readSidecar hkey,
    h.spares hclean hname, fun k hk hplace => ?_⟩
  cases h with
  | placed hadds hr _ _ hstored =>
    exact (Beside.of_stored hclean hadds hr hstored hname).readSidecar hk hplace hfilled.root

/-- Storing is all or nothing, whichever of its calls fail, as long as the removals are carried out.
Where it succeeds the entry is complete, all else is spared, and the same can be stored again. What
is stored under the key a second time, by any process, takes the place of the first. Where it fails
the program is as it was or there is none, and all else is spared. The cache is as clean afterwards
as it was. -/
theorem stores_or_withdraws (pid : Nat) (q : CacheRequest)
    (hkey : isCacheKey (Path.ofString q.key) = true) (hclean : c.Clean q.key pid fs) :
    (∀ b fs', (c.store pid q).SureEnds (c.Removes pid q.key) fs (.ok b) fs' →
      b = c.binary q.key ∧ c.Placed pid q fs fs' ∧
      (∃ fs'', (c.store pid q).run fs' = (.ok b, fs'')) ∧
      ∀ pid₂ q₂ b₂ fs'', q₂.key = q.key → c.Clean q.key pid₂ fs →
        (c.store pid₂ q₂).SureEnds (c.Removes pid₂ q.key) fs' (.ok b₂) fs'' →
        c.Placed pid₂ q₂ fs fs'') ∧
    (∀ e fs', (c.store pid q).SureEnds (c.Removes pid q.key) fs (.error e) fs' →
      (fs'.Absent (c.binary q.key) ∨
        fs'.resolve false (c.binary q.key) = fs.resolve false (c.binary q.key)) ∧
      c.Spares q.key pid fs fs') ∧
    ∀ out fs', (c.store pid q).SureEnds (c.Removes pid q.key) fs out fs' →
      ∀ pid₂, c.Clean q.key pid₂ fs → c.Clean q.key pid₂ fs' := by
  have hname := fileName_of_isCacheKey hkey
  have hcourse : ∀ {out fs'}, (c.store pid q).SureEnds (c.Removes pid q.key) fs out fs' →
      c.Course pid q fs out fs' := fun hends => (upholds_store hkey hclean).ends hends
  refine ⟨fun b fs' hends => ?_, fun e fs' hends => ?_, fun out fs' hends pid₂ hclean₂ => ?_⟩
  · have hfirst := hcourse hends
    obtain ⟨rfl, r, hfilled⟩ := hfirst.filled hclean
    have hspares := hfirst.spares hclean hname
    refine ⟨rfl, hfirst.placed_entry hkey hclean, ?_, fun pid₂ q₂ b₂ fs'' hq hclean₂ hends₂ => ?_⟩
    · exact hfilled.run_store hkey fun name =>
        hspares.temporaries r _ name hfilled.root (List.prefix_append r _)
    · have hclean' := hfirst.clean hclean₂ hname
      rw [← hq] at hclean' hclean₂ hends₂ hkey
      have hsecond := (upholds_store hkey hclean').ends hends₂
      exact (hfirst.again hsecond hq hclean hname).placed_entry hkey hclean₂
  · have hfailed := hcourse hends
    exact ⟨hfailed.withdrawn hclean hname, hfailed.spares hclean hname⟩
  · exact (hcourse hends).clean hclean₂ hname

def emptyCache : FileSystem where
  nodes := [([Path.ofString "cache"], .directory)]
  current := []

/-- No temporary file is there when all names end in letters. -/
theorem node?_temporary_of_nodes
    (h : ∀ m ∈ fs.nodes, (m.1.getLast?.bind List.getLast?).any (57 < ·.toNat) = true) (pid : Nat)
    (here : Location) (name : Bytes) : fs.node? (here ++ [Proc.temporary pid name]) = none := by
  cases hnode : fs.node? (here ++ [Proc.temporary pid name]) with
  | none => rfl
  | some n =>
    have hends := h _ (mem_nodes (List.concat_ne_nil _ here) hnode)
    rw [List.getLast?_concat, Option.bind_some, Option.any_eq_true] at hends
    obtain ⟨b, hlast, hletter⟩ := hends
    exact absurd rfl (ne_temporary_of_last hlast (by simpa using hletter) pid name)

theorem clean_emptyCache : soleCache.Clean soleKey 1 emptyCache := by
  have hr : IsRoot emptyCache soleCache.root [Path.ofString "cache"] := by
    rw [IsRoot]
    cbv
  refine .of_root (by decide) hr (.of_nodes rfl (by decide)) ?_ fun here name _ =>
    node?_temporary_of_nodes (by decide) 1 here name
  intro here target hhere hnode
  have hne : here ≠ [] := by
    rintro rfl
    cases List.prefix_nil.mp hhere
  have hmem := mem_nodes hne hnode
  simp [emptyCache] at hmem

/-- The same with a directory for an entry, and with a program in it. -/
def emptyEntry : FileSystem :=
  emptyCache.put [Path.ofString "cache", Path.ofString soleKey] .directory

def soleProgram : FileSystem :=
  emptyEntry.put [Path.ofString "cache", Path.ofString soleKey, Path.ofString "node"]
    (.file 0o755 [7])

theorem makeDirectories_emptyCache :
    (Proc.makeDirectories (soleCache.entry soleKey)).run emptyCache = (.ok (), emptyEntry) := by
  cbv

theorem writeProgram_emptyEntry :
    (Proc.writeAtomically 1 (soleCache.binary soleKey) binaryMode [7]).run emptyEntry =
      (.ok (), soleProgram) := by
  cbv

/-- A write fails when its temporary file cannot be opened. -/
theorem sureEnds_unopened {sure : Call → Prop} {p : Path} {mode : Nat} {data : Bytes}
    (err : IoError) (hsure : ¬sure (.create (Proc.temporary pid p) mode)) (fs : FileSystem) :
    (Proc.writeAtomically pid p mode data).SureEnds sure fs (.error err)
      (fs.perform (.unlink (Proc.temporary pid p))).2 :=
  .head (.failed _ _ _ err hsure) (.head (.carried _ _ _) (.refl _ _))

/-- A store may fail when the program is there. -/
theorem sureEnds_withoutSidecar : ∃ e fs',
    (soleCache.store 1 (oneByte soleKey 7)).SureEnds (soleCache.Removes 1 soleKey) emptyCache
      (.error e) fs' ∧
    fs'.node? [Path.ofString "cache", Path.ofString soleKey] = some .directory := by
  refine ⟨.cacheWrite (soleCache.sidecar soleKey)
    (.sidecar (soleCache.sidecar soleKey) .notFound),
    ((soleProgram.perform (.unlink (Proc.temporary 1 (soleCache.sidecar soleKey)))).2.perform
      (.unlink (soleCache.binary soleKey))).2, ?_, by cbv⟩
  rw [store]
  refine (Proc.sureEnds_of_run makeDirectories_emptyCache).bind ?_
  refine (Proc.sureEnds_of_run writeProgram_emptyEntry).bind ?_
  refine (sureEnds_unopened .notFound (fun h => by cases h) soleProgram).bind ?_
  exact .head (.carried _ _ _) (.refl _ _)

/-- In an empty cache a store may succeed, and it may fail when the program is there already, which
is removed then. -/
theorem stores_or_withdraws_empty_cache :
    soleCache.Clean soleKey 1 emptyCache ∧
    (∃ fs', (soleCache.store 1 (oneByte soleKey 7)).SureEnds (soleCache.Removes 1 soleKey) emptyCache
        (.ok (soleCache.binary soleKey)) fs' ∧
      soleCache.Placed 1 (oneByte soleKey 7) emptyCache fs') ∧
    ∃ e fs', (soleCache.store 1 (oneByte soleKey 7)).SureEnds (soleCache.Removes 1 soleKey)
        emptyCache (.error e) fs' ∧
      fs'.node? [Path.ofString "cache", Path.ofString soleKey] = some .directory ∧
      fs'.Absent (soleCache.binary soleKey) ∧ soleCache.Spares soleKey 1 emptyCache fs' := by
  have hkey : isCacheKey (Path.ofString (oneByte soleKey 7).key) = true := by decide
  obtain ⟨hdone, hfailed, -⟩ := stores_or_withdraws 1 (oneByte soleKey 7) hkey clean_emptyCache
  refine ⟨clean_emptyCache, ?_, ?_⟩
  · have hnotes : ∀ text, ∃ fs', (Proc.writeAtomically 1 (soleCache.sidecar soleKey) sidecarMode
        text).run soleProgram = (.ok (), fs') := fun text => ⟨_, by cbv⟩
    obtain ⟨fs', hnotes⟩ := hnotes (newSidecar (oneByte soleKey 7)).encode
    have hrun := run_store_of_writes (q := oneByte soleKey 7) makeDirectories_emptyCache
      writeProgram_emptyEntry hnotes
    exact ⟨fs', Proc.sureEnds_of_run hrun, (hdone _ fs' (Proc.sureEnds_of_run hrun)).2.1⟩
  · obtain ⟨e, fs', hends, hentry⟩ := sureEnds_withoutSidecar
    obtain ⟨hprogram, hspares⟩ := hfailed e fs' hends
    refine ⟨e, fs', hends, hentry, ?_, hspares⟩
    rcases hprogram with habsent | hsame
    · exact habsent
    · have hmissing : emptyCache.resolve false (soleCache.binary soleKey) = .error .notFound := by
        cbv
      intro f hf
      change fs'.resolve false (soleCache.binary soleKey) =
        emptyCache.resolve false (soleCache.binary soleKey) at hsame
      rw [hsame, hmissing] at hf
      cases hf

section Links

/-- A file system without links to directories and without temporary files of a process. -/
structure Orderly (fs : FileSystem) (pid : Nat) : Prop where
  tree : fs.IsTree
  links : ∀ here name, ¬fs.LinkedDirectory here name
  temporaries : ∀ here name, fs.node? (here ++ [Proc.temporary pid name]) = none

def otherKey : String := "aaaaaaaaaaaaaaaa"

def linkedKey : String := "bbbbbbbbbbbbbbbb"

/-- The same cache by another path, on which a directory is missing. -/
def roundaboutCache : Cache :=
  ⟨Path.ofString "new/../cache", .linux⟩

/-- A cache with the program of one entry, whose sidecar is a link to that of an entry that is not
there. A second link stands for the directory of that entry. -/
def linkedCache : FileSystem where
  nodes := [([Path.ofString "cache"], .directory),
    ([Path.ofString "cache", Path.ofString otherKey], .directory),
    ([Path.ofString "cache", Path.ofString otherKey, Path.ofString "node"], .file 0o755 [1]),
    ([Path.ofString "cache", Path.ofString otherKey, notesName],
      .link (Path.ofString "../0123456789abcdef/.dlx-metadata.json")),
    ([Path.ofString "cache", Path.ofString linkedKey], .link (Path.ofString soleKey))]
  current := []

theorem orderly_linkedCache : Orderly linkedCache 1 := by
  refine ⟨.of_nodes rfl (by decide), ?_, node?_temporary_of_nodes (by decide) 1⟩
  rintro here name ⟨target, f, hnode, hwalk, hdir⟩
  have hmem := mem_nodes (List.concat_ne_nil name here) hnode
  simp only [linkedCache, List.mem_cons, Prod.mk.injEq, reduceCtorEq, and_false, false_or,
    List.not_mem_nil, or_false] at hmem
  rcases hmem with ⟨heq, -⟩ | ⟨heq, -⟩
  · obtain rfl : here = [Path.ofString "cache", Path.ofString otherKey] := by
      simpa using congrArg List.dropLast heq
    obtain rfl : name = notesName := by simpa using congrArg List.getLast? heq
    have hmissing : linkedCache.walk true maxLinks [Path.ofString "cache", Path.ofString otherKey]
        [notesName] = .error .notFound := by
      cbv
    rw [hmissing] at hwalk
    cases hwalk
  · obtain rfl : here = [Path.ofString "cache"] := by simpa using congrArg List.dropLast heq
    obtain rfl : name = Path.ofString linkedKey := by simpa using congrArg List.getLast? heq
    have hmissing : linkedCache.walk true maxLinks [Path.ofString "cache"]
        [Path.ofString linkedKey] =
          .ok ⟨[Path.ofString "cache", Path.ofString soleKey], none, true⟩ := by
      cbv
    rw [hmissing] at hwalk
    cases hwalk
    cases hdir

/-- Something is found under other keys after a store: a sidecar is read through a link, a key may
have a slash at its end, a link may lead to the entry, and the path of the root may be completed. -/
theorem found_under_other_keys :
    Orderly linkedCache 1 ∧
    (∃ fs', (soleCache.store 1 (oneByte soleKey 7)).run linkedCache =
        (.ok (soleCache.binary soleKey), fs') ∧
      ((soleCache.readSidecar otherKey).run linkedCache).1 = .ok none ∧
      ((soleCache.readSidecar otherKey).run fs').1 =
        .ok (some (newSidecar (oneByte soleKey 7))) ∧
      ((soleCache.lookup (soleKey ++ "/") 1).run linkedCache).1 = none ∧
      ((soleCache.lookup (soleKey ++ "/") 1).run fs').1 = some (soleCache.binary (soleKey ++ "/")) ∧
      ((soleCache.lookup linkedKey 1).run linkedCache).1 = none ∧
      ((soleCache.lookup linkedKey 1).run fs').1 = some (soleCache.binary linkedKey)) ∧
    ∃ fs', (roundaboutCache.store 1 (oneByte soleKey 7)).run linkedCache =
        (.ok (roundaboutCache.binary soleKey), fs') ∧
      ((roundaboutCache.lookup otherKey 1).run linkedCache).1 = none ∧
      ((roundaboutCache.lookup otherKey 1).run fs').1 = some (roundaboutCache.binary otherKey) := by
  have hparse := Sidecar.parse?_encode (isRead_newSidecar (oneByte soleKey 7))
    (isExact_newSidecar (oneByte soleKey 7))
  refine ⟨orderly_linkedCache, ?_, ?_⟩
  · obtain ⟨fs₁, fs₂, hmade, hprogram, hnotes⟩ : ∃ fs₁ fs₂,
        (Proc.makeDirectories (soleCache.entry soleKey)).run linkedCache = (.ok (), fs₁) ∧
        (Proc.writeAtomically 1 (soleCache.binary soleKey) binaryMode [7]).run fs₁ =
          (.ok (), fs₂) ∧
        ∀ text, ∃ fs₃, (Proc.writeAtomically 1 (soleCache.sidecar soleKey) sidecarMode text).run
            fs₂ = (.ok (), fs₃) ∧ fs₃.read (soleCache.sidecar otherKey) = .ok text ∧
          ((soleCache.lookup (soleKey ++ "/") 1).run fs₃).1 =
            some (soleCache.binary (soleKey ++ "/")) ∧
          ((soleCache.lookup linkedKey 1).run fs₃).1 = some (soleCache.binary linkedKey) :=
      ⟨_, _, by cbv, by cbv, fun text => ⟨_, by cbv, by cbv, by cbv, by cbv⟩⟩
    obtain ⟨fs₃, hnoted, hread, hslash, hlink⟩ := hnotes (newSidecar (oneByte soleKey 7)).encode
    refine ⟨fs₃, run_store_of_writes (q := oneByte soleKey 7) hmade hprogram hnoted, by cbv, ?_,
      by cbv, hslash, by cbv, hlink⟩
    rw [run_readSidecar ⟨_, hread, hparse⟩]
  · obtain ⟨fs₁, fs₂, hmade, hprogram, hnotes⟩ : ∃ fs₁ fs₂,
        (Proc.makeDirectories (roundaboutCache.entry soleKey)).run linkedCache = (.ok (), fs₁) ∧
        (Proc.writeAtomically 1 (roundaboutCache.binary soleKey) binaryMode [7]).run fs₁ =
          (.ok (), fs₂) ∧
        ∀ text, ∃ fs₃, (Proc.writeAtomically 1 (roundaboutCache.sidecar soleKey) sidecarMode
            text).run fs₂ = (.ok (), fs₃) ∧
          ((roundaboutCache.lookup otherKey 1).run fs₃).1 =
            some (roundaboutCache.binary otherKey) :=
      ⟨_, _, by cbv, by cbv, fun text => ⟨_, by cbv, by cbv⟩⟩
    obtain ⟨fs₃, hnoted, hfound⟩ := hnotes (newSidecar (oneByte soleKey 7)).encode
    exact ⟨fs₃, run_store_of_writes (q := oneByte soleKey 7) hmade hprogram hnoted, by cbv, hfound⟩

end Links

end Cache

end SelfExtract
