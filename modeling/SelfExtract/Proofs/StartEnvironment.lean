import SelfExtract.Launch
import SelfExtract.Proofs.Associations
import SelfExtract.Proofs.Utf8

/-!
# The environment of a started program

The launcher sets its variables one after the other, so that the last one of a
name counts. Every variable has the value that is due to it, unless the name
that the settings give is that of a variable of the launcher itself and the
user has not set it: then the variable is empty.
-/
namespace SelfExtract

namespace Environment

variable (e : Environment) (name value v : Bytes)

theorem get?_set : (e.set name value).get? v = if v = name then some value else e.get? v := by
  rw [set, get?, lookup_cons_if, lookup_filter_ne, get?]
  by_cases h : v = name
  · rw [if_pos h, if_pos h]
  · rw [if_neg h, if_neg h, if_neg h]

/-- Of several settings of a variable the last one counts. -/
theorem get?_setAll (pairs : List (Bytes × Bytes)) :
    (e.setAll pairs).get? v = (List.lookup v pairs.reverse).or (e.get? v) := by
  induction pairs generalizing e with
  | nil => rfl
  | cons p pairs ih =>
    have hstep : e.setAll (p :: pairs) = (e.set p.1 p.2).setAll pairs := rfl
    rw [hstep, ih, get?_set, List.reverse_cons, List.lookup_append, lookup_cons_if]
    cases List.lookup v pairs.reverse with
    | some w => rfl
    | none => by_cases h : v = p.1 <;> simp [h]

/-- The variables of the launcher: where it is, which entry of the cache the program comes from, and
which variable is meant for the invoked name. -/
def launcherVariable : Bytes := Utf8.encode "SMOL_STUB_PATH"

def keyVariable : Bytes := Utf8.encode "SMOL_CACHE_KEY"

def nameVariable : Bytes := Utf8.encode "SMOL_FAKE_ARGV_NAME"

theorem key_ne_launcher : keyVariable ≠ launcherVariable := by decide

theorem name_ne_launcher : nameVariable ≠ launcherVariable := by decide

theorem name_ne_key : nameVariable ≠ keyVariable := by decide

/-- The value that is due to a variable of a started program, where `name` is that of the variable
for the invoked name, or empty when there is none. -/
def due (parent : Environment) (launcher key name v : Bytes) : Option Bytes :=
  if v = launcherVariable then some launcher
  else if v = keyVariable then some key
  else if name = [] then parent.get? v
  else if v = nameVariable then some name
  else if v = name then some ((parent.get? v).getD [])
  else parent.get? v

/-- The variable for the invoked name is set by the launcher: to nothing. -/
def Emptied (parent : Environment) (name v : Bytes) : Prop :=
  v = name ∧ name ≠ [] ∧ parent.get? v = none

instance (parent : Environment) (name v : Bytes) : Decidable (Emptied parent name v) :=
  inferInstanceAs (Decidable (_ ∧ _ ∧ _))

end Environment

namespace Arguments

open Environment

/-- The variables by the bytes of the name, where no name and an empty one are the same. -/
theorem childVariables_eq (launcher : Bytes) (key : String) (fakeArgv : Option String)
    (parent : Environment) : childVariables launcher key fakeArgv parent =
      [(launcherVariable, launcher), (keyVariable, Utf8.encode key)] ++
        if Utf8.encode (fakeArgv.getD "") = [] then []
        else (nameVariable, Utf8.encode (fakeArgv.getD "")) ::
          if parent.get? (Utf8.encode (fakeArgv.getD "")) = none then
            [(Utf8.encode (fakeArgv.getD ""), [])]
          else [] := by
  cases fakeArgv with
  | none => rfl
  | some name =>
    rw [Option.getD_some, childVariables]
    by_cases h : name = ""
    · have hnil : Utf8.encode "" = [] := rfl
      simp [h, hnil, launcherVariable, keyVariable]
    · simp [h, Utf8.encode_eq_nil_iff, launcherVariable, keyVariable, nameVariable]

end Arguments

namespace Launch

open Environment

variable (l : Launch) (launcher : Path) (p : Extract.Prepared)

/-- The name of the variable for the invoked name, empty when the settings give none. -/
def argvName (p : Extract.Prepared) : Bytes :=
  Utf8.encode (((embedded p).map (·.fakeArgvEnv)).getD "")

/-- Every variable has its due value, or is the one that the launcher has emptied. -/
theorem get?_handover (v : Bytes) : (l.handover launcher p).environment.get? v =
    if Emptied l.environment (argvName p) v then some []
    else due l.environment launcher (Utf8.encode p.metadata.keyText) (argvName p) v := by
  rw [handover, get?_setAll, Arguments.childVariables_eq, ← argvName]
  have hkey := key_ne_launcher
  have hname := name_ne_launcher
  have hnameKey := name_ne_key
  generalize argvName p = name
  rw [due]
  by_cases hempty : name = []
  · simp only [hempty, Emptied, lookup_cons_if, if_true, List.append_nil, List.reverse_cons,
      List.reverse_nil, List.nil_append, List.cons_append, List.lookup_nil]
    grind
  · cases hset : l.environment.get? name with
    | none =>
      simp only [hempty, Emptied, lookup_cons_if, if_true, if_false, List.reverse_cons,
        List.reverse_nil, List.nil_append, List.cons_append, List.lookup_nil]
      grind
    | some w =>
      simp only [hempty, Emptied, lookup_cons_if, reduceCtorEq, if_false, List.reverse_cons,
        List.reverse_nil, List.nil_append, List.cons_append, List.lookup_nil]
      grind

/-- A variable that the launcher has emptied has its due value all the same, unless it is one of the
launcher's own. -/
theorem due_of_emptied {v : Bytes} (h : Emptied l.environment (argvName p) v) :
    due l.environment launcher (Utf8.encode p.metadata.keyText) (argvName p) v = some [] ↔
      (v = launcherVariable → launcher = []) ∧ (v = keyVariable → p.metadata.keyText = "") ∧
        v ≠ nameVariable := by
  obtain ⟨hname, hsome, hnone⟩ := h
  have hkeyLauncher := key_ne_launcher
  have hnameLauncher := name_ne_launcher
  have hnameKey := name_ne_key
  rw [due, ← Utf8.encode_eq_nil_iff]
  grind

/-- Each variable of the started program has its due value, except that the variable for the invoked
name is empty when the user has not set it, even if it is one of the launcher's own. So all is as it
is due unless the settings name such a variable and the user has not set it. -/
theorem environment_due_iff :
    (∀ v, (l.handover launcher p).environment.get? v =
      if Emptied l.environment (argvName p) v then some []
      else due l.environment launcher (Utf8.encode p.metadata.keyText) (argvName p) v) ∧
    ((∀ v, (l.handover launcher p).environment.get? v =
        due l.environment launcher (Utf8.encode p.metadata.keyText) (argvName p) v) ↔
      (argvName p = launcherVariable → launcher = [] ∨ l.environment.get? (argvName p) ≠ none) ∧
      (argvName p = keyVariable →
        p.metadata.keyText = "" ∨ l.environment.get? (argvName p) ≠ none) ∧
      (argvName p = nameVariable → l.environment.get? (argvName p) ≠ none)) := by
  have hvalue := l.get?_handover launcher p
  have hall : (∀ v, (l.handover launcher p).environment.get? v =
        due l.environment launcher (Utf8.encode p.metadata.keyText) (argvName p) v) ↔
      (Emptied l.environment (argvName p) (argvName p) →
        due l.environment launcher (Utf8.encode p.metadata.keyText) (argvName p) (argvName p) =
          some []) := by
    constructor
    · intro hdue h
      rw [← hdue, hvalue, if_pos h]
    · intro h v
      rw [hvalue]
      split
      · next hv =>
        obtain rfl := hv.1
        exact (h hv).symm
      · rfl
  refine ⟨hvalue, hall.trans ?_⟩
  by_cases h : Emptied l.environment (argvName p) (argvName p)
  · rw [l.due_of_emptied launcher p h]
    simp [h, h.2.2]
  · have hset : argvName p ≠ [] → l.environment.get? (argvName p) ≠ none := fun hsome hnone =>
      h ⟨rfl, hsome, hnone⟩
    have hown : ∀ {w : Bytes}, w ≠ [] → argvName p = w → l.environment.get? (argvName p) ≠ none :=
      fun hw heq => hset (heq ▸ hw)
    simp only [h, false_implies, true_iff]
    exact ⟨fun heq => .inr (hown (by decide) heq), fun heq => .inr (hown (by decide) heq),
      hown (by decide)⟩

/-- A program whose settings call the variable for the invoked name like the one for the launcher's
path. -/
def misnamed : Extract.Prepared where
  binary := Path.ofString "cache/0123456789abcdef/node"
  metadata := {
    compressedSize := 1
    uncompressedSize := 1
    key := Utf8.encode "0123456789abcdef"
    target := ⟨0, 0, 0⟩
    hasSettings := true
    settings := some (.update { UpdateSettings.default with fakeArgvEnv := "SMOL_STUB_PATH" })
    dataOffset := 0 }
  cache := ⟨Path.ofString "cache", .linux⟩
  hit := true

def bareLaunch : Launch where
  arguments := []
  called := none
  system := .ok (Path.ofString "img")
  environment := []
  release := none
  now := 0
  pid := 1

/-- The program is not told where the launcher is. -/
theorem environment_due_iff_misnamed :
    argvName misnamed = launcherVariable ∧
    (bareLaunch.handover (Path.ofString "img") misnamed).environment.get? launcherVariable =
      some [] ∧
    due bareLaunch.environment (Path.ofString "img") (Utf8.encode misnamed.metadata.keyText)
      (argvName misnamed) launcherVariable = some (Path.ofString "img") ∧
    ¬∀ v, (bareLaunch.handover (Path.ofString "img") misnamed).environment.get? v =
      due bareLaunch.environment (Path.ofString "img") (Utf8.encode misnamed.metadata.keyText)
        (argvName misnamed) v := by
  have hname : argvName misnamed = launcherVariable := rfl
  obtain ⟨hvalue, hall⟩ := bareLaunch.environment_due_iff (Path.ofString "img") misnamed
  refine ⟨hname, ?_, if_pos rfl, ?_⟩
  · rw [hvalue, if_pos ⟨hname.symm, by decide, rfl⟩]
  · rw [hall]
    rintro ⟨hlauncher, -⟩
    exact absurd (hlauncher hname) (by decide)

end Launch

end SelfExtract
