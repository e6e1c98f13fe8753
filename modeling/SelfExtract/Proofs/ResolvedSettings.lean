import SelfExtract.Proofs.JsonMembers
import SelfExtract.Update.Override

/-!
# Settings of a launch

A text on the command line is an override when it is a record whose members can
all be read. Each setting then is what the override says of it or, where it says
nothing, what was embedded. A text that is no override changes nothing.
-/
namespace SelfExtract

open Json (Tree)

namespace UpdateOverride

inductive Key where
  | interval
  | notifyInterval
  | prompt
  | promptDefault
  | binname
  | command
  | url
  | tag
  | skipEnv
  deriving DecidableEq

namespace Key

def name : Key → String
  | interval => "interval"
  | notifyInterval => "notify_interval"
  | prompt => "prompt"
  | promptDefault => "prompt_default"
  | binname => "binname"
  | command => "command"
  | url => "url"
  | tag => "tag"
  | skipEnv => "skip_env"

def Given : Key → Type
  | interval | notifyInterval => Int64
  | prompt => Bool
  | promptDefault | binname | command | url | tag | skipEnv => String

def Value : Key → Type
  | interval | notifyInterval => Int64
  | prompt => Bool
  | promptDefault => Char
  | binname | command | url | tag | skipEnv => String

def read? : (k : Key) → Tree → Option k.Given
  | interval | notifyInterval => Tree.int64?
  | prompt => Tree.bool?
  | promptDefault | binname | command | url | tag | skipEnv => Tree.text?

def said (o : UpdateOverride) : (k : Key) → Option k.Given
  | interval => o.interval
  | notifyInterval => o.notifyInterval
  | prompt => o.prompt
  | promptDefault => o.promptDefault
  | binname => o.binname
  | command => o.command
  | url => o.url
  | tag => o.tag
  | skipEnv => o.skipEnv

def value (u : UpdateSettings) : (k : Key) → k.Value
  | interval => u.interval
  | notifyInterval => u.notifyInterval
  | prompt => u.prompt
  | promptDefault => u.promptDefault
  | binname => u.binname
  | command => u.command
  | url => u.url
  | tag => u.tag
  | skipEnv => u.skipEnv

/-- What the setting becomes when the override says something: of an answer counts whether it begins
with `y` in either case. -/
def meant : (k : Key) → k.Given → k.Value
  | promptDefault, s => if s.toList.head? = some 'y' ∨ s.toList.head? = some 'Y' then 'y' else 'n'
  | interval, n | notifyInterval, n => n
  | prompt, b => b
  | binname, s | command, s | url, s | tag, s | skipEnv, s => s

/-- What the setting becomes when the override says nothing: an empty address or pattern is filled
in. -/
def kept : (k : Key) → k.Value → k.Value
  | url, (s : String) => if s = "" then releasesUrl else s
  | tag, (s : String) => if s = "" then releasesTag else s
  | _, v => v

end Key

structure ReadFrom (t : Tree) (o : UpdateOverride) : Prop where
  record : t.IsRecord names 0
  enabled : Tree.member? Tree.bool? (t.at? names "enabled") = some o.enabled
  said : ∀ k : Key, Tree.member? k.read? (t.at? names k.name) = some (k.said o)

variable {t : Tree} {o : UpdateOverride}

/-- A name at a time, since the reader takes the members of all names at once. -/
theorem map_names (f : String → Option Tree) : names.map f =
    [f "enabled", f "interval", f "notify_interval", f "prompt", f "prompt_default", f "binname",
      f "command", f "url", f "tag", f "skip_env"] :=
  rfl

theorem ofTree?_eq_some : ofTree? t = some o ↔ ReadFrom t o := by
  have hrecord : ∀ {vs}, t.record? names 0 = some vs ↔
      t.IsRecord names 0 ∧ vs = names.map (t.at? names) := Tree.record?_eq_some (by decide)
  constructor
  · intro h
    obtain ⟨vs, hvs, h⟩ := Option.bind_eq_some_iff.mp h
    obtain ⟨hrec, rfl⟩ := hrecord.mp hvs
    rw [map_names] at h
    simp only [Option.bind_eq_bind, Option.bind_eq_some_iff, Option.pure_def,
      Option.some.injEq] at h
    obtain ⟨enabled, henabled, interval, hinterval, notifyInterval, hnotify, prompt, hprompt,
      promptDefault, hdefault, binname, hbinname, command, hcommand, url, hurl, tag, htag, skipEnv,
      hskip, rfl⟩ := h
    refine ⟨hrec, henabled, fun k => ?_⟩
    cases k <;> assumption
  · intro h
    refine Option.bind_eq_some_iff.mpr ⟨_, hrecord.mpr ⟨h.record, rfl⟩, ?_⟩
    rw [map_names]
    simp only [Option.bind_eq_bind, Option.bind_eq_some_iff, Option.pure_def, Option.some.injEq]
    exact ⟨_, h.enabled, _, h.said .interval, _, h.said .notifyInterval, _, h.said .prompt, _,
      h.said .promptDefault, _, h.said .binname, _, h.said .command, _, h.said .url, _,
      h.said .tag, _, h.said .skipEnv, rfl⟩

/-- A launch gives an override. -/
def Gives (given : Option String) (o : UpdateOverride) : Prop :=
  ∃ text, given = some text ∧ ∃ t, Tree.parse? (Utf8.encode text) = some t ∧ ReadFrom t o

theorem gives_iff {given : Option String} : Gives given o ↔ given.bind parse? = some o := by
  simp only [Gives, Option.bind_eq_some_iff, parse?, ofTree?_eq_some]

theorem answerOf_eq (s : String) :
    answerOf s = if s.toList.head? = some 'y' ∨ s.toList.head? = some 'Y' then 'y' else 'n' := by
  rw [answerOf]
  cases s.toList with
  | nil => rfl
  | cons c cs => split <;> simp_all

theorem orDefault_eq (s default : String) :
    orDefault s default = if s = "" then default else s := by
  simp [orDefault]

/-- Each setting is told by its own member, as every slot is filled from the member of its name. -/
theorem value_apply (o : UpdateOverride) (u : UpdateSettings) (k : Key) :
    k.value (o.apply u) = ((k.said o).map k.meant).getD (k.kept (k.value u)) := by
  obtain ⟨enabled, interval, notifyInterval, prompt, promptDefault, binname, command, url, tag,
    skipEnv⟩ := o
  cases k with
  | interval => cases interval <;> rfl
  | notifyInterval => cases notifyInterval <;> rfl
  | prompt => cases prompt <;> rfl
  | promptDefault =>
    cases promptDefault with
    | none => rfl
    | some s => exact answerOf_eq s
  | binname => cases binname <;> rfl
  | command => cases command <;> rfl
  | url =>
    cases url with
    | none => exact orDefault_eq u.url releasesUrl
    | some s => rfl
  | tag =>
    cases tag with
    | none => exact orDefault_eq u.tag releasesTag
    | some s => rfl
  | skipEnv => cases skipEnv <;> rfl

/-- The members and the variable for the invoked name make up the settings. -/
theorem eq_of_value_eq {u v : UpdateSettings} (h : ∀ k : Key, k.value u = k.value v)
    (hargv : u.fakeArgvEnv = v.fakeArgvEnv) : u = v := by
  cases u
  cases v
  rw [UpdateSettings.mk.injEq]
  exact ⟨h .prompt, h .promptDefault, h .interval, h .notifyInterval, h .binname, h .command,
    h .url, h .tag, h .skipEnv, hargv⟩

end UpdateOverride

open UpdateOverride

section Resolve

variable {embedded : Option UpdateSettings} {given : Option String} {o : UpdateOverride}
  {u : UpdateSettings}

theorem resolveSettings_of_not_gives (h : ∀ o, ¬Gives given o) :
    resolveSettings embedded given = embedded := by
  have hnone : given.bind UpdateOverride.parse? = none :=
    Option.eq_none_iff_forall_ne_some.mpr fun o ho => h o (gives_iff.mpr ho)
  unfold resolveSettings
  rw [hnone]
  cases embedded <;> rfl

theorem resolveSettings_of_gives (h : Gives given o) : resolveSettings embedded given =
    if o.enabled = some false then none
    else some (o.apply (embedded.getD UpdateSettings.default)) := by
  unfold resolveSettings
  rw [gives_iff.mp h]
  cases embedded <;> rfl

theorem resolveSettings_eq_none_iff : resolveSettings embedded given = none ↔
    (embedded = none ∧ ∀ o, ¬Gives given o) ∨ ∃ o, Gives given o ∧ o.enabled = some false := by
  by_cases h : ∃ o, Gives given o
  · obtain ⟨o, h⟩ := h
    have hunique : ∀ o', Gives given o' ↔ o' = o := by
      intro o'
      rw [gives_iff, gives_iff.mp h, Option.some.injEq, eq_comm]
    rw [resolveSettings_of_gives h]
    simp [hunique]
  · have hnone := not_exists.mp h
    rw [resolveSettings_of_not_gives hnone]
    simp [hnone]

/-- An override that does not switch the look-up off leads to settings, told by its members. -/
theorem resolveSettings_eq_some_iff (h : Gives given o) :
    resolveSettings embedded given = some u ↔
      o.enabled ≠ some false ∧ u.fakeArgvEnv = (embedded.getD .default).fakeArgvEnv ∧
        ∀ k : Key, k.value u =
          ((k.said o).map k.meant).getD (k.kept (k.value (embedded.getD .default))) := by
  rw [resolveSettings_of_gives h]
  rcases eq_or_ne o.enabled (some false) with henabled | henabled
  · simp [henabled]
  · rw [if_neg henabled, Option.some.injEq, and_iff_right henabled]
    constructor
    · rintro rfl
      exact ⟨rfl, value_apply o _⟩
    · intro hu
      apply eq_of_value_eq
      · intro k
        rw [value_apply, hu.2]
      · exact hu.1.symm

theorem fakeArgvEnv_of_resolveSettings (hu : resolveSettings embedded given = some u) :
    u.fakeArgvEnv = (embedded.getD .default).fakeArgvEnv := by
  by_cases h : ∃ o, Gives given o
  · obtain ⟨o, h⟩ := h
    exact ((resolveSettings_eq_some_iff h).mp hu).2.1
  · rw [resolveSettings_of_not_gives (not_exists.mp h)] at hu
    rw [hu]
    rfl

end Resolve

/-- Without an override the embedded settings count. With one, there are none exactly when it says
so, and else each setting is what the override says of it, or what was embedded before or is the
default. So what an override says of one setting shows in this setting only. -/
theorem resolved_by_key (embedded : Option UpdateSettings) (given : Option String) :
    ((∀ o, ¬Gives given o) → resolveSettings embedded given = embedded) ∧
    (resolveSettings embedded given = none ↔
      (embedded = none ∧ ∀ o, ¬Gives given o) ∨ ∃ o, Gives given o ∧ o.enabled = some false) ∧
    (∀ o, Gives given o → ∀ u, resolveSettings embedded given = some u ↔
      o.enabled ≠ some false ∧ u.fakeArgvEnv = (embedded.getD .default).fakeArgvEnv ∧
        ∀ k : Key, k.value u =
          ((k.said o).map k.meant).getD (k.kept (k.value (embedded.getD .default)))) ∧
    (∀ other u u', resolveSettings embedded given = some u →
      resolveSettings embedded other = some u' → u.fakeArgvEnv = u'.fakeArgvEnv) ∧
    ∀ other o o' k, Gives given o → Gives other o' → o.enabled = o'.enabled →
      (∀ j : Key, j ≠ k → j.said o = j.said o') →
      (resolveSettings embedded given = none ↔ resolveSettings embedded other = none) ∧
      ∀ u u', resolveSettings embedded given = some u → resolveSettings embedded other = some u' →
        ∀ j : Key, j ≠ k → j.value u = j.value u' := by
  refine ⟨resolveSettings_of_not_gives, resolveSettings_eq_none_iff, ?_, ?_, ?_⟩
  · intro o h u
    exact resolveSettings_eq_some_iff h
  · intro other u u' hu hu'
    rw [fakeArgvEnv_of_resolveSettings hu, fakeArgvEnv_of_resolveSettings hu']
  · intro other o o' k h h' henabled hsaid
    constructor
    · rw [resolveSettings_of_gives h, resolveSettings_of_gives h', henabled]
      split <;> simp
    · intro u u' hu hu' j hj
      obtain ⟨-, -, hvalue⟩ := (resolveSettings_eq_some_iff h).mp hu
      obtain ⟨-, -, hvalue'⟩ := (resolveSettings_eq_some_iff h').mp hu'
      rw [hvalue, hvalue', hsaid j hj]

def asking (answer : String) : UpdateOverride :=
  ⟨none, none, none, some true, some answer, none, none, none, none, none⟩

/-- Settings that name a pattern but no address. -/
def patternOnly : UpdateSettings := { UpdateSettings.default with tag := "v*" }

def yesText : String := "\x7b\"prompt\":true,\"prompt_default\":\"Yes\",\"more\":[1.5]\x7d"

def noText : String := "[null,null,null,true,\"no\"]"

/-- An object and an array that ask with different answers lead to settings that differ in the
answer alone. The address is filled in for both. -/
theorem resolved_by_key_answers :
    Gives (some yesText) (asking "Yes") ∧ Gives (some noText) (asking "no") ∧
    ∃ u u', resolveSettings (some patternOnly) (some yesText) = some u ∧
      resolveSettings (some patternOnly) (some noText) = some u' ∧
      u.promptDefault = 'y' ∧ u'.promptDefault = 'n' ∧ u.url = releasesUrl ∧ u.tag = "v*" ∧
      u.fakeArgvEnv = u'.fakeArgvEnv ∧ ∀ j : Key, j ≠ .promptDefault → j.value u = j.value u' := by
  have hyes : Gives (some yesText) (asking "Yes") := by
    rw [gives_iff]
    decide +kernel
  have hno : Gives (some noText) (asking "no") := by
    rw [gives_iff]
    decide +kernel
  obtain ⟨-, -, hmember, hargv, hframe⟩ := resolved_by_key (some patternOnly) (some yesText)
  obtain ⟨-, -, hmember', -⟩ := resolved_by_key (some patternOnly) (some noText)
  have hu : resolveSettings (some patternOnly) (some yesText) =
      some ((asking "Yes").apply patternOnly) := resolveSettings_of_gives hyes
  have hu' : resolveSettings (some patternOnly) (some noText) =
      some ((asking "no").apply patternOnly) := resolveSettings_of_gives hno
  obtain ⟨-, -, hvalue⟩ := (hmember _ hyes _).mp hu
  obtain ⟨-, -, hvalue'⟩ := (hmember' _ hno _).mp hu'
  refine ⟨hyes, hno, _, _, hu, hu', hvalue .promptDefault, hvalue' .promptDefault, hvalue .url,
    hvalue .tag, hargv _ _ _ hu hu', ?_⟩
  apply (hframe _ _ _ .promptDefault hyes hno rfl ?_).2 _ _ hu hu'
  intro j hj
  cases j with
  | promptDefault => exact absurd rfl hj
  | _ => rfl

end SelfExtract
