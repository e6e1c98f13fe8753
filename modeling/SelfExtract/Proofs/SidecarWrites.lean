import SelfExtract.Proofs.CacheEntries
import SelfExtract.Proofs.Rewrites
import SelfExtract.Proofs.Sidecars

/-!
# Noting a state of look-ups

The sidecar is read, gets the state and is written again. What it says besides
stays the same, and so does the program of the entry.
-/
namespace SelfExtract

open FileSystem

namespace FileSystem

/-- Another name in the same directory, if it is not longer. -/
theorem Names.sibling {fs : FileSystem} {e : Path} {d : Location} {a b : Bytes}
    (ha : Path.FileName a) (hb : Path.FileName b) (hlen : b.length ≤ a.length)
    (h : fs.Names (e.join a) d a) : fs.Names (e.join b) d b := by
  obtain ⟨front, left, hnames, hway⟩ := h.way
  obtain ⟨path, hpath⟩ := e.join_eq_append
  have hvalid := h.valid
  rw [hpath a ha.not_absolute] at hvalid
  have hshort := hvalid.short
  rw [List.length_append] at hshort
  rw [Path.names_join e ha.not_absolute, ha.names] at hnames
  obtain ⟨rfl, -⟩ := List.append_inj' hnames rfl
  refine ⟨?_, (Path.LastName.join e hb).asksForDirectory,
    ⟨hb.not_dot, hb.not_dotDot, Nat.le_trans hlen h.plain.short⟩, h.directory, e.names, left, ?_, ?_⟩
  · rw [hpath b hb.not_absolute]
    refine ⟨?_, List.append_ne_nil_of_right_ne_nil path hb.not_empty, ?_⟩
    · rw [List.mem_append]
      exact not_or.mpr ⟨fun h => hvalid.no_nul (List.mem_append_left a h), hb.no_nul⟩
    · rw [List.length_append]
      exact Nat.le_trans (Nat.add_le_add_left hlen _) hshort
  · rw [Path.names_join e hb.not_absolute, hb.names]
  · rw [start_congr (Path.isAbsolute_join e hb.not_absolute) rfl,
      ← start_congr (Path.isAbsolute_join e ha.not_absolute) rfl]
    exact hway

end FileSystem

namespace Cache

variable {c : Cache} {key : String} {fs fs₁ : FileSystem} {s : Sidecar} {d : Location} {pid : Nat}
  {state : UpdateState}

/-- The sidecar of an entry is read as `s`. -/
def Reads (c : Cache) (key : String) (fs : FileSystem) (s : Sidecar) : Prop :=
  ∃ text, fs.read (c.sidecar key) = .ok text ∧ Sidecar.parse? text = some s

theorem run_readSidecar (h : c.Reads key fs s) :
    (c.readSidecar key).run fs = (.ok (some s), fs) := by
  obtain ⟨text, hread, hs⟩ := h
  rw [readSidecar, Proc.run_bind, Proc.run_call, perform, hread]
  simp only [hs]
  rfl

theorem run_readState (h : c.Reads key fs s) :
    (c.readState key).run fs = (s.update.getD .initial, fs) := by
  rw [readState, Proc.run_bind, run_readSidecar h]
  rfl

/-- A state is noted by a write of all else that the sidecar says along with it. -/
theorem run_writeState_eq_ok (h : c.Reads key fs s) :
    (c.writeState pid key state).run fs = (.ok (), fs₁) ↔
      (Proc.writeAtomically pid (c.sidecar key) sidecarMode
        { s with update := some state }.encode).run fs = (.ok (), fs₁) := by
  rw [writeState, Proc.run_bind, run_readSidecar h]
  simp only [Proc.run_bind, writeSidecar]
  generalize (Proc.writeAtomically pid (c.sidecar key) sidecarMode
    { s with update := some state }.encode).run fs = out
  obtain ⟨r, fs₂⟩ := out
  cases r with
  | error e => simp
  | ok u => simp

theorem lastName_sidecar (c : Cache) (key : String) : (c.sidecar key).LastName notesName :=
  Path.LastName.join _ fileName_notesName

structure Noted (c : Cache) (key : String) (pid : Nat) (s : Sidecar) (state : UpdateState)
    (d : Location) (fs fs₁ : FileSystem) : Prop where
  rewritten : fs.Rewritten fs₁ pid (c.sidecar key) d notesName sidecarMode
    { s with update := some state }.encode
  reads : c.Reads key fs₁ { s with update := some state }
  program : fs₁.resolve false (c.binary key) = fs.resolve false (c.binary key)

theorem noted_of_ok (h : c.Reads key fs s) (hexact : s.IsExact)
    (hlink : fs.LinkFree (Proc.temporary pid (c.sidecar key)))
    (hrun : (c.writeState pid key state).run fs = (.ok (), fs₁)) :
    ∃ d, Noted c key pid s state d fs fs₁ := by
  obtain ⟨text, hread, hs⟩ := id h
  obtain ⟨d, hrewritten⟩ := Proc.rewritten_of_ok hlink (lastName_sidecar c key) hread
    ((run_writeState_eq_ok h).mp hrun)
  have hparse := Sidecar.parse?_encode ((Sidecar.isRead_of_parse? hs).update (some state))
    (hexact.update (some state))
  have hshort : c.programName.length ≤ notesName.length :=
    Nat.le_trans (length_programName c) (by decide)
  have hbinary : ∀ {fs : FileSystem}, fs.Names (c.sidecar key) d notesName →
      fs.Names (c.binary key) d c.programName :=
    fun h => h.sibling fileName_notesName (fileName_programName c) hshort
  exact ⟨d, hrewritten, ⟨_, hrewritten.read, hparse⟩,
    hrewritten.resolve (hbinary hrewritten.before.target)
      (hbinary hrewritten.after.target) (ne_notesName c)
      (Ne.symm (ne_temporary_notesName c pid))⟩

/-- A state is noted where the sidecar can be written. -/
theorem exists_run_writeState (state : UpdateState) (h : c.Reads key fs s)
    (hw : fs.Writable pid (c.sidecar key) d notesName) :
    ∃ fs₁, (c.writeState pid key state).run fs = (.ok (), fs₁) := by
  obtain ⟨-, fs₁, -, -, hrun⟩ := Proc.run_writeAtomically sidecarMode
    { s with update := some state }.encode hw
  exact ⟨fs₁, (run_writeState_eq_ok h).mpr hrun⟩

/-! ### One entry -/

/-- A cache in a file system that holds nothing but the sidecar of one entry. -/
def soleCache : Cache :=
  ⟨Path.ofString "cache", .linux⟩

def soleKey : String := "0123456789abcdef"

def soleSidecar (text : Bytes) : FileSystem where
  nodes := [([Path.ofString "cache"], .directory),
    ([Path.ofString "cache", Path.ofString soleKey], .directory),
    ([Path.ofString "cache", Path.ofString soleKey, notesName], .file sidecarMode text)]
  current := []

theorem read_soleSidecar (text : Bytes) :
    (soleSidecar text).read (soleCache.sidecar soleKey) = .ok text := by
  cbv

theorem writable_soleSidecar (text : Bytes) : (soleSidecar text).Writable 1
    (soleCache.sidecar soleKey) [Path.ofString "cache", Path.ofString soleKey] notesName := by
  have he : (soleSidecar text).existing (soleCache.entry soleKey) =
      .ok ([Path.ofString "cache", Path.ofString soleKey], .directory) := by
    cbv
  have hfits : ¬TooLong (soleCache.entry soleKey) (Proc.temporary 1 notesName) := by
    rw [TooLong]
    decide
  have hnode : (soleSidecar text).node? ([Path.ofString "cache", Path.ofString soleKey] ++
      [notesName]) = some (.file sidecarMode text) := by
    cbv
  have hnone : (soleSidecar text).node? ([Path.ofString "cache", Path.ofString soleKey] ++
      [Proc.temporary 1 notesName]) = none := by
    cbv
  rw [sidecar_eq (by decide)]
  refine ⟨.of_existing he fileName_notesName (fits_of_temporary hfits), ?_, ?_, ?_⟩
  · rw [Proc.temporary, List.append_assoc]
    exact .of_existing he (fileName_temporary 1 fileName_notesName) hfits
  · rw [hnone]
    exact free_none
  · rw [hnode]
    simp

end Cache

end SelfExtract
