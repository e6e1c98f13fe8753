import Mathlib
import SelfExtract.Proofs.CanonicalSettings
import SelfExtract.SeaConfig

/-!
# Settings that a sea-config file may ask for

A section is accepted when the record can hold what it asks for, member by
member. Settings that were accepted are read from their record just as they are:
nothing is cut and no answer is another one.
-/
namespace SelfExtract

open Record

section Letters

variable (c : Char)

theorem toNat_toLower :
    c.toLower.toNat = if 65 ≤ c.toNat ∧ c.toNat ≤ 90 then c.toNat + 32 else c.toNat := by
  have hiff : (c.val ≥ 'A'.val ∧ c.val ≤ 'Z'.val) ↔ 65 ≤ c.toNat ∧ c.toNat ≤ 90 := by
    simp [UInt32.le_iff_toNat_le]
  by_cases h : 65 ≤ c.toNat ∧ c.toNat ≤ 90
  · rw [Char.toLower, dif_pos (hiff.mpr h), if_pos h, Char.toNat]
    simp [UInt32.toNat_add]
    omega
  · rw [Char.toLower, dif_neg (mt hiff.mp h), if_neg h]

theorem toNat_toUpper :
    c.toUpper.toNat = if 97 ≤ c.toNat ∧ c.toNat ≤ 122 then c.toNat - 32 else c.toNat := by
  have hiff : ('a'.val ≤ c.val ∧ c.val ≤ 'z'.val) ↔ 97 ≤ c.toNat ∧ c.toNat ≤ 122 := by
    simp [UInt32.le_iff_toNat_le]
  by_cases h : 97 ≤ c.toNat ∧ c.toNat ≤ 122
  · rw [Char.toUpper, dif_pos (hiff.mpr h), if_pos h, Char.toNat]
    simp [UInt32.toNat_add]
    omega
  · rw [Char.toUpper, dif_neg (mt hiff.mp h), if_neg h]

variable {c}

/-- A small letter stands for itself and its capital. -/
theorem toLower_eq_iff {w : Char} (hw : w.isLower = true) :
    c.toLower = w ↔ c = w ∨ c = w.toUpper := by
  have hsmall : 97 ≤ w.toNat ∧ w.toNat ≤ 122 := by
    simpa [Char.isLower, UInt32.le_iff_toNat_le] using hw
  have hcapital := toNat_toUpper w
  rw [if_pos hsmall] at hcapital
  simp only [← Char.toNat_inj, hcapital, toNat_toLower]
  split
  · omega
  · omega

end Letters

/-- A text is a word, written with small letters or capitals. -/
def IsWord (word text : String) : Prop :=
  List.Forall₂ (fun c w => c = w ∨ c = w.toUpper) text.toList word.toList

instance (word text : String) : Decidable (IsWord word text) :=
  inferInstanceAs (Decidable (List.Forall₂ _ _ _))

theorem forall₂_of_map_toLower {cs ws : List Char} (hws : ∀ w ∈ ws, w.isLower = true) :
    cs.map Char.toLower = ws ↔ List.Forall₂ (fun c w => c = w ∨ c = w.toUpper) cs ws := by
  induction ws generalizing cs with
  | nil => simp
  | cons w ws ih =>
    cases cs with
    | nil => simp
    | cons c cs =>
      rw [List.map_cons, List.cons.injEq, List.forall₂_cons, toLower_eq_iff (hws w (by simp)),
        ih fun v hv => hws v (List.mem_cons_of_mem w hv)]

theorem map_toLower_eq_iff {word text : String} (hword : word.toList.all Char.isLower = true) :
    text.map Char.toLower = word ↔ IsWord word text := by
  rw [← String.toList_inj, String.toList_map, forall₂_of_map_toLower (List.all_eq_true.mp hword),
    IsWord]

/-- A text takes as many bytes as it is counted to take. -/
theorem Utf8.size_eq (s : String) : Utf8.size s = (Utf8.encode s).length := by
  have hfrom : ∀ (cs : List Char) (n : Nat),
      cs.foldl (fun n c => n + width c) n = n + (cs.flatMap encodeChar).length := by
    intro cs
    induction cs with
    | nil => exact fun n => rfl
    | cons c cs ih =>
      intro n
      rw [List.foldl_cons, ih, List.flatMap_cons, List.length_append, length_encodeChar,
        Nat.add_assoc]
  rw [size, hfrom, Nat.zero_add, encode]

def Record.AllFit (fs : List Field) (ts : List String) : Prop :=
  ∀ p ∈ fs.zip ts, (Utf8.encode p.2).length ≤ p.1.limit

theorem checkLengths_eq_ok {group : String} {fs : List Field} {ts : List String} :
    checkLengths group fs ts = .ok () ↔ AllFit fs ts := by
  induction fs generalizing ts with
  | nil => simp [checkLengths, AllFit]
  | cons f fs ih =>
    cases ts with
    | nil => simp [checkLengths, AllFit]
    | cons t ts =>
      rw [checkLengths, Utf8.size_eq, AllFit, List.zip_cons_cons, List.forall_mem_cons]
      by_cases hlong : f.limit < (Utf8.encode t).length
      · rw [if_pos hlong]
        simp only [reduceCtorEq, false_iff, not_and]
        omega
      · rw [if_neg hlong, ih, AllFit]
        exact (and_iff_right (Nat.le_of_not_lt hlong)).symm

inductive UpdateSection.Means : Option String → Char → Prop
  | unsaid : Means none 'n'
  | yes {text : String} : IsWord "y" text ∨ IsWord "yes" text → Means (some text) 'y'
  | no {text : String} : IsWord "n" text ∨ IsWord "no" text → Means (some text) 'n'

namespace UpdateSection

variable {s : UpdateSection} {u : UpdateSettings}

def described (s : UpdateSection) (answer : Char) : UpdateSettings where
  prompt := s.prompt.getD false
  promptDefault := answer
  interval := s.interval.getD dayMillis
  notifyInterval := s.notifyInterval.getD dayMillis
  binname := s.binname.getD ""
  command := s.command.getD "self-update"
  url := s.url.getD ""
  tag := s.tag.getD ""
  skipEnv := s.skipEnv.getD ""
  fakeArgvEnv := s.fakeArgvEnv.getD "SMOL_FAKE_ARGV"

structure Admissible (s : UpdateSection) : Prop where
  promptDefault : ∀ text, s.promptDefault = some text →
    ∃ word ∈ ["y", "yes", "n", "no"], IsWord word text
  interval : ∀ n, s.interval = some n → 0 ≤ n.toInt
  notifyInterval : ∀ n, s.notifyInterval = some n → 0 ≤ n.toInt
  url : s.url.getD "" = "" ∨ (∃ rest, s.url.getD "" = "http://" ++ rest) ∨
    ∃ rest, s.url.getD "" = "https://" ++ rest
  binname_fits : (Utf8.encode (s.binname.getD "")).length ≤ 127
  command_fits : (Utf8.encode (s.command.getD "self-update")).length ≤ 254
  url_fits : (Utf8.encode (s.url.getD "")).length ≤ 510
  tag_fits : (Utf8.encode (s.tag.getD "")).length ≤ 127
  skipEnv_fits : (Utf8.encode (s.skipEnv.getD "")).length ≤ 63
  fakeArgvEnv_fits : (Utf8.encode (s.fakeArgvEnv.getD "SMOL_FAKE_ARGV")).length ≤ 63

theorem answer_eq_ok {given : Option String} {c : Char} : answer given = .ok c ↔ Means given c := by
  cases given with
  | none =>
    constructor
    · rintro ⟨rfl⟩
      exact .unsaid
    · rintro ⟨⟩
      rfl
  | some text =>
    have hyes : (text.map Char.toLower = "y" ∨ text.map Char.toLower = "yes") ↔
        (IsWord "y" text ∨ IsWord "yes" text) := by
      rw [map_toLower_eq_iff rfl, map_toLower_eq_iff rfl]
    have hno : (text.map Char.toLower = "n" ∨ text.map Char.toLower = "no") ↔
        (IsWord "n" text ∨ IsWord "no" text) := by
      rw [map_toLower_eq_iff rfl, map_toLower_eq_iff rfl]
    constructor
    · intro h
      rw [answer] at h
      split at h
      · next hsaid =>
        cases h
        exact .yes (hyes.mp hsaid)
      · split at h
        · next hsaid =>
          cases h
          exact .no (hno.mp hsaid)
        · cases h
    · intro h
      cases h with
      | yes hsaid => exact if_pos (hyes.mpr hsaid)
      | no hsaid =>
        have hlower := hno.mpr hsaid
        rw [answer, if_neg, if_pos hlower]
        rcases hlower with h | h
        · rw [h]
          decide
        · rw [h]
          decide

/-- An answer is meant when it is one of four words, in any case of its letters. -/
theorem exists_means_iff {given : Option String} : (∃ c, Means given c) ↔
    ∀ text, given = some text → ∃ word ∈ ["y", "yes", "n", "no"], IsWord word text := by
  simp only [List.mem_cons, List.not_mem_nil, or_false, exists_eq_or_imp, exists_eq_left]
  constructor
  · rintro ⟨c, h⟩ text rfl
    cases h with
    | yes h => exact h.imp_right .inl
    | no h => exact .inr (.inr h)
  · intro h
    cases given with
    | none => exact ⟨'n', .unsaid⟩
    | some text =>
      rcases h text rfl with h | h | h
      · exact ⟨'y', .yes (.inl h)⟩
      · exact ⟨'y', .yes (.inr h)⟩
      · exact ⟨'n', .no h⟩

theorem intervalOr_eq_ok {name : String} {default n : Int64} {given : Option Int64} :
    intervalOr name default given = .ok n ↔
      (∀ m, given = some m → 0 ≤ m.toInt) ∧ n = given.getD default := by
  cases given with
  | none => simp [intervalOr, eq_comm]
  | some m =>
    have hsign : m < 0 ↔ m.toInt < 0 := Int64.lt_iff_toInt_lt
    by_cases h : m < 0
    · rw [intervalOr, if_pos h]
      have hneg := hsign.mp h
      simp only [reduceCtorEq, Option.some.injEq, forall_eq', false_iff, not_and]
      omega
    · rw [intervalOr, if_neg h]
      rw [hsign] at h
      simp only [Except.ok.injEq, Option.some.injEq, forall_eq', Option.getD_some]
      rw [and_iff_right (by omega), eq_comm]

theorem isUrl_iff {url : String} : isUrl url = true ↔
    url = "" ∨ (∃ rest, url = "http://" ++ rest) ∨ ∃ rest, url = "https://" ++ rest := by
  have hbegins : ∀ front : String, front.toList.isPrefixOf url.toList = true ↔
      ∃ rest, url = front ++ rest := by
    intro front
    rw [List.isPrefixOf_iff_prefix]
    constructor
    · rintro ⟨rest, h⟩
      exact ⟨String.ofList rest, by rw [← String.toList_inj, String.toList_append,
        String.toList_ofList, h]⟩
    · rintro ⟨rest, rfl⟩
      exact ⟨rest.toList, (String.toList_append ..).symm⟩
  rw [isUrl, Bool.or_eq_true, Bool.or_eq_true, hbegins, hbegins, String.isEmpty_iff, or_assoc]

theorem allFit_iff (u : UpdateSettings) : AllFit UpdateSettings.layout.fields u.texts ↔
    (Utf8.encode u.binname).length ≤ 127 ∧ (Utf8.encode u.command).length ≤ 254 ∧
    (Utf8.encode u.url).length ≤ 510 ∧ (Utf8.encode u.tag).length ≤ 127 ∧
    (Utf8.encode u.skipEnv).length ≤ 63 ∧ (Utf8.encode u.fakeArgvEnv).length ≤ 63 := by
  simp [AllFit, UpdateSettings.layout, UpdateSettings.texts]

/-- The checks that are made of settings once all members are in place. -/
theorem checks_eq_ok (v : UpdateSettings) :
    (if !isUrl v.url then throw .urlScheme
      else do
        checkLengths "smol.update" UpdateSettings.layout.fields v.texts
        return v : Except ConfigFault UpdateSettings) = .ok u ↔
      u = v ∧ isUrl v.url = true ∧ AllFit UpdateSettings.layout.fields v.texts := by
  cases hurl : isUrl v.url with
  | false => simp [throw, throwThe, MonadExceptOf.throw]
  | true =>
    rw [Bool.not_true, if_neg Bool.false_ne_true, bind_eq_ok, ← checkLengths_eq_ok]
    constructor
    · rintro ⟨_, hfit, ⟨rfl⟩⟩
      exact ⟨rfl, rfl, hfit⟩
    · rintro ⟨rfl, -, hfit⟩
      exact ⟨(), hfit, rfl⟩

/-- Settings are accepted when they are admissible, and are then the members of the section. -/
theorem settings_eq_ok : s.settings = .ok u ↔
    s.Admissible ∧ ∃ answer, Means s.promptDefault answer ∧ u = s.described answer := by
  have hall : s.settings = .ok u ↔ ∃ answer, Means s.promptDefault answer ∧
      (∀ n, s.interval = some n → 0 ≤ n.toInt) ∧ (∀ n, s.notifyInterval = some n → 0 ≤ n.toInt) ∧
      u = s.described answer ∧ isUrl (s.described answer).url = true ∧
      AllFit UpdateSettings.layout.fields (s.described answer).texts := by
    rw [settings]
    simp only [bind_eq_ok, answer_eq_ok, intervalOr_eq_ok]
    constructor
    · rintro ⟨answer, hanswer, _, ⟨hinterval, rfl⟩, _, ⟨hnotify, rfl⟩, h⟩
      exact ⟨answer, hanswer, hinterval, hnotify, (checks_eq_ok (s.described answer)).mp h⟩
    · rintro ⟨answer, hanswer, hinterval, hnotify, h⟩
      exact ⟨answer, hanswer, _, ⟨hinterval, rfl⟩, _, ⟨hnotify, rfl⟩,
        (checks_eq_ok (s.described answer)).mpr h⟩
  rw [hall]
  simp only [isUrl_iff, allFit_iff]
  constructor
  · rintro ⟨answer, hanswer, hinterval, hnotify, rfl, hurl, hbinname, hcommand, hurlFits, htag, hskip,
      hfake⟩
    exact ⟨⟨exists_means_iff.mp ⟨answer, hanswer⟩, hinterval, hnotify, hurl, hbinname, hcommand,
      hurlFits, htag, hskip, hfake⟩, answer, hanswer, rfl⟩
  · rintro ⟨hs, answer, hanswer, rfl⟩
    exact ⟨answer, hanswer, hs.interval, hs.notifyInterval, rfl, hs.url, hs.binname_fits,
      hs.command_fits, hs.url_fits, hs.tag_fits, hs.skipEnv_fits, hs.fakeArgvEnv_fits⟩

theorem Means.stored {given : Option String} {c : Char} (h : Means given c) :
    UpdateSettings.storedAnswer c = c := by
  cases h <;> decide

/-- Nothing of accepted settings is lost in their record. -/
theorem kept_of_settings (h : s.settings = .ok u) : u.kept = u := by
  obtain ⟨hs, answer, hanswer, rfl⟩ := settings_eq_ok.mp h
  rw [UpdateSettings.kept]
  simp only [described]
  rw [hanswer.stored, Utf8.truncate_of_fits hs.binname_fits,
    Utf8.truncate_of_fits hs.command_fits, Utf8.truncate_of_fits hs.url_fits,
    Utf8.truncate_of_fits hs.tag_fits, Utf8.truncate_of_fits hs.skipEnv_fits,
    Utf8.truncate_of_fits hs.fakeArgvEnv_fits]

end UpdateSection

namespace VfsSection

variable {s : VfsSection} {v : VfsSettings}

def described (s : VfsSection) : VfsSettings where
  mode := s.mode.getD "in-memory"
  source := s.source.getD "node_modules"
  mount := s.mount.getD "/snapshot"

structure Admissible (s : VfsSection) : Prop where
  mode : s.mode.getD "in-memory" ∈ ["on-disk", "in-memory", "compat"]
  mode_fits : (Utf8.encode (s.mode.getD "in-memory")).length ≤ 32
  source_fits : (Utf8.encode (s.source.getD "node_modules")).length ≤ 256
  mount_fits : (Utf8.encode (s.mount.getD "/snapshot")).length ≤ 64

theorem allFit_iff (v : VfsSettings) : AllFit VfsSettings.layout.fields v.texts ↔
    (Utf8.encode v.mode).length ≤ 32 ∧ (Utf8.encode v.source).length ≤ 256 ∧
    (Utf8.encode v.mount).length ≤ 64 := by
  simp [AllFit, VfsSettings.layout, VfsSettings.texts]

/-- The checks that are made of settings once all members are in place. -/
theorem checks_eq_ok (w : VfsSettings) :
    (if !vfsModes.contains w.mode then throw (.mode w.mode)
      else do
        checkLengths "smol.vfs" VfsSettings.layout.fields w.texts
        return w : Except ConfigFault VfsSettings) = .ok v ↔
      v = w ∧ vfsModes.contains w.mode = true ∧ AllFit VfsSettings.layout.fields w.texts := by
  cases hmode : vfsModes.contains w.mode with
  | false => simp [throw, throwThe, MonadExceptOf.throw]
  | true =>
    rw [Bool.not_true, if_neg Bool.false_ne_true, bind_eq_ok, ← checkLengths_eq_ok]
    constructor
    · rintro ⟨_, hfit, ⟨rfl⟩⟩
      exact ⟨rfl, rfl, hfit⟩
    · rintro ⟨rfl, -, hfit⟩
      exact ⟨(), hfit, rfl⟩

/-- Settings are accepted when they are admissible, and are then the members of the object. -/
theorem settings_eq_ok : s.settings = .ok v ↔ s.Admissible ∧ v = s.described := by
  have hchecks : s.settings = .ok v ↔ _ := checks_eq_ok s.described
  rw [hchecks, allFit_iff, List.contains_iff_mem]
  constructor
  · rintro ⟨hv, hmode, hfits, hsource, hmount⟩
    exact ⟨⟨hmode, hfits, hsource, hmount⟩, hv⟩
  · rintro ⟨hs, hv⟩
    exact ⟨hv, hs.mode, hs.mode_fits, hs.source_fits, hs.mount_fits⟩

/-- Nothing of accepted settings is lost in their record. -/
theorem kept_of_settings (h : s.settings = .ok v) : v.kept = v := by
  obtain ⟨hs, rfl⟩ := settings_eq_ok.mp h
  rw [VfsSettings.kept]
  simp only [described]
  rw [Utf8.truncate_of_fits hs.mode_fits, Utf8.truncate_of_fits hs.source_fits,
    Utf8.truncate_of_fits hs.mount_fits]

end VfsSection

namespace SeaConfig

variable {c : SeaConfig} {u : UpdateSettings} {v : VfsSettings}

theorem updateSettings_eq_ok : c.updateSettings = .ok (some u) ↔
    ∃ s, c.update = some s ∧ s.settings = .ok u := by
  rw [updateSettings]
  cases c.update with
  | none => simp
  | some s => cases hs : s.settings <;> simp [Except.map, hs]

/-- A switch that is on stands for an object without members. -/
theorem vfsSettings_eq_ok : c.vfsSettings = .ok (some v) ↔
    ∃ s, (c.vfs = some (.options s) ∨ c.vfs = some (.enabled true) ∧ s = ⟨none, none, none⟩) ∧
      s.settings = .ok v := by
  rw [vfsSettings]
  cases c.vfs with
  | none => simp
  | some choice =>
    cases choice with
    | enabled b =>
      cases b with
      | false => simp
      | true => cases hs : VfsSection.settings ⟨none, none, none⟩ <;> simp [Except.map, hs]
    | options s => cases hs : s.settings <;> simp [Except.map, hs]

/-- A section is accepted exactly when what it asks for is admissible; the settings are its members
over the defaults. Settings that are accepted are read from their record as they are. -/
theorem accepted_settings_kept (c : SeaConfig) :
    (∀ s, c.update = some s →
      ((∃ u, c.updateSettings = .ok (some u)) ↔ s.Admissible) ∧
      ∀ u, c.updateSettings = .ok (some u) →
        ∃ answer, UpdateSection.Means s.promptDefault answer ∧ u = s.described answer) ∧
    (∀ s, c.vfs = some (.options s) →
      ((∃ v, c.vfsSettings = .ok (some v)) ↔ s.Admissible) ∧
      ∀ v, c.vfsSettings = .ok (some v) → v = s.described) ∧
    (∀ u, c.updateSettings = .ok (some u) →
      u.encode.length = 1176 ∧ UpdateSettings.decode? u.encode = some u) ∧
    ∀ v, c.vfsSettings = .ok (some v) →
      v.encode.length = 366 ∧ VfsSettings.decode? v.encode = some v := by
  refine ⟨fun s hs => ?_, fun s hs => ?_, fun u hu => ?_, fun v hv => ?_⟩
  · have hsettings : ∀ u, c.updateSettings = .ok (some u) ↔ s.settings = .ok u := fun u => by
      rw [updateSettings_eq_ok, hs]
      simp
    simp only [hsettings, UpdateSection.settings_eq_ok]
    refine ⟨⟨fun ⟨_, h, _⟩ => h, fun h => ?_⟩, fun u h => h.2⟩
    obtain ⟨answer, hanswer⟩ := UpdateSection.exists_means_iff.mpr h.promptDefault
    exact ⟨_, h, answer, hanswer, rfl⟩
  · have hsettings : ∀ v, c.vfsSettings = .ok (some v) ↔ s.settings = .ok v := fun v => by
      rw [vfsSettings_eq_ok, hs]
      simp
    simp only [hsettings, VfsSection.settings_eq_ok]
    exact ⟨⟨fun ⟨_, h, _⟩ => h, fun h => ⟨_, h, rfl⟩⟩, fun v h => h.2⟩
  · obtain ⟨s, -, hs⟩ := updateSettings_eq_ok.mp hu
    exact ⟨(Settings.update u).length_encode, by
      rw [u.decode?_encode, UpdateSection.kept_of_settings hs]⟩
  · obtain ⟨s, -, hs⟩ := vfsSettings_eq_ok.mp hv
    exact ⟨(Settings.vfs v).length_encode, by
      rw [v.decode?_encode, VfsSection.kept_of_settings hs]⟩

/-- A file that turns the question on, answers it in capitals and gives an address. -/
def askingFile : SeaConfig where
  update := some {
    binname := some "tool"
    command := none
    url := some "https://"
    tag := none
    skipEnv := none
    fakeArgvEnv := none
    prompt := some true
    promptDefault := some "YES"
    interval := some 0
    notifyInterval := none }
  vfs := some (.options ⟨some "compat", none, some "/"⟩)

theorem accepted_settings_kept_askingFile :
    ∃ u v, askingFile.updateSettings = .ok (some u) ∧ u.promptDefault = 'y' ∧
      u.encode.length = 1176 ∧ UpdateSettings.decode? u.encode = some u ∧
      askingFile.vfsSettings = .ok (some v) ∧ v.mount = "/" ∧
      v.encode.length = 366 ∧ VfsSettings.decode? v.encode = some v := by
  obtain ⟨hupdate, hvfs, hrecord, hvfsRecord⟩ := accepted_settings_kept askingFile
  obtain ⟨hadmitted, hmembers⟩ := hupdate _ rfl
  obtain ⟨u, hu⟩ := hadmitted.mpr
    { promptDefault := by rintro _ ⟨⟩; exact ⟨"yes", by decide, by decide⟩
      interval := by rintro _ ⟨⟩; decide
      notifyInterval := by rintro _ ⟨⟩
      url := .inr (.inr ⟨"", by decide⟩)
      binname_fits := by decide
      command_fits := by decide
      url_fits := by decide
      tag_fits := by decide
      skipEnv_fits := by decide
      fakeArgvEnv_fits := by decide }
  obtain ⟨hvfsAdmitted, hvfsMembers⟩ := hvfs _ rfl
  obtain ⟨v, hv⟩ := hvfsAdmitted.mpr
    { mode := by decide, mode_fits := by decide, source_fits := by decide, mount_fits := by decide }
  obtain ⟨answer, hanswer, rfl⟩ := hmembers u hu
  obtain rfl := hvfsMembers v hv
  refine ⟨_, _, hu, ?_, (hrecord _ hu).1, (hrecord _ hu).2, hv, rfl, hvfsRecord _ hv⟩
  cases hanswer with
  | yes => rfl
  | no h => exact absurd h (by decide)

end SeaConfig

end SelfExtract
