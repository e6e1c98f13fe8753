import SelfExtract.Proofs.StartEnvironment
import Mathlib.Data.List.Basic
import Mathlib.Data.List.Induction
import Mathlib.Data.List.TakeWhile

/-!
# Variables as a started program receives them

A variable reaches the started program as one byte string, so a name that holds
an equals sign is read as a shorter name with a longer value. A process has no
such variable from its own start. The settings can give one, and then another
variable of the started program has a second value after its own. Whether the
user has set such a name is asked of the names alone here, although a value that
holds an equals sign can complete one.
-/
namespace SelfExtract

namespace Environment

/-- Distinct names without an equals sign: what a process can have received. -/
structure Readable (e : Environment) : Prop where
  nodup : (e.map Prod.fst).Nodup
  unsigned : ∀ p ∈ e, equalsSign ∉ p.1

/-- The value that one received byte string gives a variable. -/
def valueIn (v b : Bytes) : Option Bytes :=
  if v ++ [equalsSign] <+: b then some (b.drop (v.length + 1)) else none

/-- All values that received byte strings give a variable, in their order. -/
def received (l : List Bytes) (v : Bytes) : List Bytes :=
  l.filterMap (valueIn v)

theorem received_cons (b : Bytes) (l : List Bytes) (v : Bytes) :
    received (b :: l) v = (valueIn v b).toList ++ received l v := by
  rw [received, List.filterMap_cons]
  cases valueIn v b <;> rfl

theorem received_append (l m : List Bytes) (v : Bytes) :
    received (l ++ m) v = received l v ++ received m v :=
  List.filterMap_append

theorem mem_filter_ne {e : Environment} {name : Bytes} {p : Bytes × Bytes} :
    p ∈ e.filter (·.1 != name) ↔ p ∈ e ∧ p.1 ≠ name := by
  rw [List.mem_filter, bne_iff_ne]

theorem nodup_set {e : Environment} (h : (e.map Prod.fst).Nodup) (name value : Bytes) :
    ((e.set name value).map Prod.fst).Nodup := by
  rw [set, List.map_cons, List.nodup_cons]
  refine ⟨?_, h.sublist (List.filter_sublist.map _)⟩
  intro hmem
  obtain ⟨p, hp, hname⟩ := List.mem_map.1 hmem
  exact (mem_filter_ne.1 hp).2 hname

theorem nodup_setAll (pairs : List (Bytes × Bytes)) {e : Environment}
    (h : (e.map Prod.fst).Nodup) : ((e.setAll pairs).map Prod.fst).Nodup := by
  induction pairs generalizing e with
  | nil => exact h
  | cons p pairs ih => exact ih (nodup_set h p.1 p.2)

theorem mem_set {e : Environment} {name value : Bytes} {p : Bytes × Bytes}
    (hp : p ∈ e.set name value) : p ∈ e ∨ p = (name, value) :=
  (List.mem_cons.1 hp).symm.imp_left fun h => (mem_filter_ne.1 h).1

theorem mem_setAll {pairs : List (Bytes × Bytes)} {e : Environment} {p : Bytes × Bytes}
    (hp : p ∈ e.setAll pairs) : p ∈ e ∨ p ∈ pairs := by
  induction pairs generalizing e with
  | nil => exact .inl hp
  | cons q pairs ih =>
    rcases ih hp with h | h
    · rcases mem_set h with h | rfl
      · exact .inl h
      · exact .inr List.mem_cons_self
    · exact .inr (List.mem_cons_of_mem q h)

theorem Readable.set {e : Environment} (h : e.Readable) {name : Bytes} (hname : equalsSign ∉ name)
    (value : Bytes) : (e.set name value).Readable where
  nodup := nodup_set h.nodup name value
  unsigned p hp := by
    rcases mem_set hp with hp | rfl
    · exact h.unsigned p hp
    · exact hname

theorem not_mem_takeWhile (b : Bytes) : equalsSign ∉ b.takeWhile (· != equalsSign) := fun h => by
  simpa using List.mem_takeWhile_imp h

/-- A process starts with such an environment. -/
theorem readable_ofEntries (l : List Bytes) : (ofEntries l).Readable := by
  refine List.foldlRecOn l _ ⟨List.nodup_nil, fun p hp => absurd hp List.not_mem_nil⟩ ?_
  intro e he b _
  dsimp only
  split
  · exact he.set (not_mem_takeWhile b) _
  · exact he

/-- An entry gives a value to its own name, and to what stands before an equals sign of the
name. -/
theorem valueIn_entry {v : Bytes} (hv : equalsSign ∉ v) (name value : Bytes) :
    valueIn v (name ++ equalsSign :: value) =
      if name = v then some value
      else if v ++ [equalsSign] <+: name then
        some (name.drop (v.length + 1) ++ equalsSign :: value)
      else none := by
  have hentry : name ++ equalsSign :: value = (name ++ [equalsSign]) ++ value := by simp
  rw [valueIn]
  by_cases hname : name = v
  · subst hname
    rw [if_pos rfl, hentry, if_pos (List.prefix_append _ _), List.drop_left' (by simp)]
  rw [if_neg hname]
  by_cases hpre : v ++ [equalsSign] <+: name
  · rw [if_pos hpre, if_pos (hpre.trans (List.prefix_append _ _)),
      List.drop_append_of_le_length (by simpa using hpre.length_le)]
  · rw [if_neg hpre, if_neg]
    intro h
    rw [hentry] at h
    -- the shorter of the two beginnings is one of the other
    rcases List.prefix_or_prefix_of_prefix h (List.prefix_append _ _) with h | h
    · rcases List.prefix_concat_iff.1 h with h | h
      · exact hname (List.append_cancel_right h).symm
      · exact hpre h
    · rcases List.prefix_concat_iff.1 h with h | h
      · exact hname (List.append_cancel_right h)
      · exact hv (h.subset (by simp))

/-- Distinct names in their order, of which only one can hold an equals sign: a name without one
receives its own value, and after it what the odd name gives it. -/
theorem received_map {s : Environment} (hs : s.Pairwise fun a b => a.1 < b.1) {v odd : Bytes}
    (hv : equalsSign ∉ v) (hodd : ∀ p ∈ s, equalsSign ∈ p.1 → p.1 = odd) :
    received (s.map fun p => p.1 ++ equalsSign :: p.2) v =
      (List.lookup v s).toList ++
        if v ++ [equalsSign] <+: odd then
          ((List.lookup odd s).map (odd.drop (v.length + 1) ++ equalsSign :: ·)).toList
        else [] := by
  induction s with
  | nil => simp [received]
  | cons p s ih =>
    obtain ⟨name, value⟩ := p
    rw [List.pairwise_cons] at hs
    have hrest := ih hs.2 fun q hq => hodd q (List.mem_cons_of_mem _ hq)
    have hthis := hodd (name, value) List.mem_cons_self
    have hlater : ∀ w, w ≤ name → List.lookup w s = none := fun w hw =>
      lookup_eq_none fun q hq heq => absurd (heq ▸ hs.1 q hq) (List.not_lt.2 hw)
    rw [List.map_cons, received_cons, valueIn_entry hv, hrest, lookup_cons_if, lookup_cons_if]
    by_cases hname : name = v
    · have hne : v ++ [equalsSign] <+: odd → odd ≠ name := by
        intro h heq
        have hlen := h.length_le
        rw [heq, hname, List.length_append, List.length_singleton] at hlen
        omega
      rw [if_pos hname, if_pos hname.symm, hlater v (hname ▸ List.le_refl v)]
      split
      · next h => rw [if_neg (hne h)]; rfl
      · rfl
    rw [if_neg hname, if_neg (Ne.symm hname)]
    by_cases hpre : v ++ [equalsSign] <+: name
    · -- the entry of the odd name, which no later one follows under the name asked for
      obtain rfl : name = odd := hthis (hpre.subset (by simp))
      have hle : v ≤ name := by
        obtain ⟨rest, rfl⟩ := hpre
        rw [List.append_assoc]
        exact List.le_append_left
      rw [if_pos hpre, if_pos hpre, if_pos hpre, if_pos rfl, hlater name (List.le_refl name),
        hlater v hle]
      rfl
    · have hne : v ++ [equalsSign] <+: odd → odd ≠ name := fun h heq => hpre (heq ▸ h)
      rw [if_neg hpre]
      split
      · next h => rw [if_neg (hne h)]; rfl
      · rfl

theorem pairwise_entries {e : Environment} (h : (e.map Prod.fst).Nodup) :
    (e.mergeSort fun a b => decide (a.1 ≤ b.1)).Pairwise fun a b => a.1 < b.1 := by
  have hle : (e.mergeSort fun a b => decide (a.1 ≤ b.1)).Pairwise
      fun a b => decide (a.1 ≤ b.1) = true :=
    List.pairwise_mergeSort
      (fun a b c hab hbc => by
        rw [decide_eq_true_eq] at hab hbc ⊢
        exact List.le_trans hab hbc)
      (fun a b => by simpa using List.le_total a.1 b.1) e
  have hne := ((e.mergeSort_perm fun a b => decide (a.1 ≤ b.1)).map Prod.fst).nodup_iff.2 h
  rw [List.Nodup, List.pairwise_map] at hne
  exact (hle.and hne).imp fun hab => Std.lt_of_le_of_ne (of_decide_eq_true hab.1) hab.2

/-- What a program receives from an environment with one odd name at most. -/
theorem received_entries {e : Environment} (h : (e.map Prod.fst).Nodup) {v odd : Bytes}
    (hv : equalsSign ∉ v) (hodd : ∀ p ∈ e, equalsSign ∈ p.1 → p.1 = odd) :
    received e.entries v = (e.get? v).toList ++
      if v ++ [equalsSign] <+: odd then
        ((e.get? odd).map (odd.drop (v.length + 1) ++ equalsSign :: ·)).toList
      else [] := by
  have hperm := e.mergeSort_perm fun a b => decide (a.1 ≤ b.1)
  have hnodup := (hperm.map Prod.fst).nodup_iff.2 h
  rw [get?, get?, ← lookup_perm hnodup hperm v, ← lookup_perm hnodup hperm odd]
  exact received_map (pairwise_entries h) hv fun p hp => hodd p (hperm.mem_iff.1 hp)

theorem passes_of_unsigned {b : Bytes} (hb : equalsSign ∉ b) :
    ∀ a ∈ b, (a != equalsSign) = true := by
  intro a ha
  rw [bne_iff_ne]
  exact fun heq => hb (heq ▸ ha)

theorem takeWhile_entry {name : Bytes} (hname : equalsSign ∉ name) (value : Bytes) :
    (name ++ equalsSign :: value).takeWhile (· != equalsSign) = name := by
  rw [List.takeWhile_append_of_pos (passes_of_unsigned hname),
    List.takeWhile_cons_of_neg (by simp), List.append_nil]

theorem ofEntries_append_entry (l : List Bytes) {name : Bytes} (hname : equalsSign ∉ name)
    (value : Bytes) :
    ofEntries (l ++ [name ++ equalsSign :: value]) = (ofEntries l).set name value := by
  rw [ofEntries, List.foldl_append, List.foldl_cons, List.foldl_nil, ← ofEntries]
  dsimp only
  rw [takeWhile_entry hname, if_pos (by simp), ← List.drop_drop, List.drop_left]
  rfl

theorem ofEntries_append_unsigned (l : List Bytes) {b : Bytes} (hb : equalsSign ∉ b) :
    ofEntries (l ++ [b]) = ofEntries l := by
  have hall : b.takeWhile (· != equalsSign) = b :=
    List.takeWhile_eq_self_iff.2 (passes_of_unsigned hb)
  rw [ofEntries, List.foldl_append, List.foldl_cons, List.foldl_nil, ← ofEntries]
  dsimp only
  rw [hall, if_neg (Nat.lt_irrefl _)]

/-- Of several received values of a variable the last one counts. -/
theorem get?_ofEntries {v : Bytes} (hv : equalsSign ∉ v) (l : List Bytes) :
    (ofEntries l).get? v = (received l v).getLast? := by
  induction l using List.reverseRecOn with
  | nil => rfl
  | append_singleton l b ih =>
    rw [received_append, received_cons]
    by_cases hb : equalsSign ∈ b
    · obtain ⟨name, value, rfl, hname⟩ := List.eq_append_cons_of_mem hb
      have hpre : ¬v ++ [equalsSign] <+: name := fun h => hname (h.subset (by simp))
      rw [ofEntries_append_entry l hname, get?_set, ih, valueIn_entry hv, if_neg hpre]
      by_cases h : v = name
      · simp [h, received]
      · simp [h, Ne.symm h, received]
    · have hnone : valueIn v b = none := if_neg fun h => hb (h.subset (by simp))
      rw [ofEntries_append_unsigned l hb, ih, hnone]
      simp [received]

end Environment

namespace Launch

open Environment

variable (l : Launch) (launcher : Path) (p : Extract.Prepared)

theorem mem_childVariables (key : String) (fakeArgv : Option String) (parent : Environment)
    {q : Bytes × Bytes} (hq : q ∈ Arguments.childVariables launcher key fakeArgv parent) :
    q.1 ∈ [launcherVariable, keyVariable, nameVariable] ∨
      q.1 = Utf8.encode (fakeArgv.getD "") := by
  rw [Arguments.childVariables_eq, List.mem_append] at hq
  rcases hq with hq | hq
  · rcases List.mem_pair.1 hq with rfl | rfl
    · exact .inl List.mem_cons_self
    · exact .inl (List.mem_cons_of_mem _ List.mem_cons_self)
  · split at hq
    · exact absurd hq List.not_mem_nil
    rcases List.mem_cons.1 hq with rfl | hq
    · exact .inl (List.mem_cons_of_mem _ (List.mem_cons_of_mem _ List.mem_cons_self))
    · split at hq
      · exact .inr (congrArg Prod.fst (List.mem_singleton.1 hq))
      · exact absurd hq List.not_mem_nil

/-- Only the name that the settings give can hold an equals sign. -/
theorem signed_name_handover (hparent : l.environment.Readable) {q : Bytes × Bytes}
    (hq : q ∈ (l.handover launcher p).environment) (hsign : equalsSign ∈ q.1) :
    q.1 = argvName p := by
  have hown : ∀ v ∈ [launcherVariable, keyVariable, nameVariable], equalsSign ∉ v := by decide
  rcases mem_setAll hq with hq | hq
  · exact absurd hsign (hparent.unsigned q hq)
  · exact (mem_childVariables launcher _ _ _ hq).resolve_left fun h => hown q.1 h hsign

/-- Under each name without an equals sign the started program receives the variable's value, and
after it, when that name and an equals sign begin the name that the settings give, the rest of that
name with another equals sign. -/
theorem received_handover (hparent : l.environment.Readable) {v : Bytes} (hv : equalsSign ∉ v) :
    received (l.handover launcher p).environment.entries v =
      ((l.handover launcher p).environment.get? v).toList ++
        if v ++ [equalsSign] <+: argvName p then
          [(argvName p).drop (v.length + 1) ++ [equalsSign]]
        else [] := by
  have hnodup : ((l.handover launcher p).environment.map Prod.fst).Nodup :=
    nodup_setAll _ hparent.nodup
  rw [received_entries hnodup hv fun q hq => l.signed_name_handover launcher p hparent hq]
  split
  · next hpre =>
    have hsign : equalsSign ∈ argvName p := hpre.subset (by simp)
    have hunset : l.environment.get? (argvName p) = none :=
      lookup_eq_none fun q hq heq => hparent.unsigned q hq (heq ▸ hsign)
    have hemptied : Emptied l.environment (argvName p) (argvName p) :=
      ⟨rfl, List.ne_nil_of_mem hsign, hunset⟩
    rw [l.get?_handover launcher p (argvName p), if_pos hemptied]
    rfl
  · rfl

/-- A reader that goes by the last value of a variable sees another variable changed when the name
that the settings give holds an equals sign. -/
theorem get?_ofEntries_handover (hparent : l.environment.Readable) {v : Bytes}
    (hv : equalsSign ∉ v) :
    (ofEntries (l.handover launcher p).environment.entries).get? v =
      if v ++ [equalsSign] <+: argvName p then
        some ((argvName p).drop (v.length + 1) ++ [equalsSign])
      else (l.handover launcher p).environment.get? v := by
  rw [get?_ofEntries hv, l.received_handover launcher p hparent hv]
  split
  · exact List.getLast?_concat
  · cases (l.handover launcher p).environment.get? v <;> rfl

example :
    let settings := { UpdateSettings.default with fakeArgvEnv := "PATH=x" }
    let user := { bareLaunch with environment := [(Utf8.encode "PATH", Utf8.encode "/bin")] }
    let misnaming := { misnamed with
      metadata := { misnamed.metadata with settings := some (.update settings) } }
    received (user.handover (Path.ofString "img") misnaming).environment.entries
      (Utf8.encode "PATH") = [Utf8.encode "/bin", Utf8.encode "x="] := by
  cbv

end Launch

end SelfExtract
