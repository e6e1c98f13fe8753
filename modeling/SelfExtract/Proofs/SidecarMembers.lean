import SelfExtract.Proofs.SidecarWrites

/-!
# What becomes of the members of a sidecar

When a state of look-ups is noted, the members of the sidecar are kept, and so
are those of its details. Of the object that tells where the entry comes from
only the two known members are kept.
-/
namespace SelfExtract

open FileSystem
open Json (Tree body textOf? textOf?_body written writtenMembers Held Sorted IsMember)
open Sidecar (memberDepth details?)

namespace Json

def Denotes (text : Bytes) (v : Json) : Prop :=
  ∃ t depth, Tree.parse? text = some t ∧ ofTree? depth t = some v

variable {n : String} {depth : Nat}

theorem lookup_map {ms : List (String × Json)} (f : String → Json → Json) :
    List.lookup n (ms.map fun m => (m.1, f m.1 m.2)) = (List.lookup n ms).map (f n) := by
  induction ms with
  | nil => rfl
  | cons m ms ih =>
    rw [List.map_cons, lookup_cons_if, lookup_cons_if, ih]
    split
    · next h => rw [h, Option.map_some]
    · rfl

/-- Everything but null that stands under other names than those given stands there again. -/
def Keeps (old new : List (String × Json)) (besides : List String) : Prop :=
  ∀ n v, n ∉ besides → v ≠ .null → List.lookup n old = some v → List.lookup n new = some v

/-- Whether one more name is kept is a matter of what stands under it. -/
theorem Keeps.keeps_iff {old new : List (String × Json)} {besides : List String} {v w : Json}
    (h : Keeps old new (besides ++ [n])) (hn : n ∉ besides) (hv : List.lookup n old = some v)
    (hnull : v ≠ .null) (hw : List.lookup n new = some w) : Keeps old new besides ↔ v = w := by
  constructor
  · intro hkeeps
    have hkept := hkeeps n v hn hnull hv
    rw [hw] at hkept
    exact (Option.some.inj hkept).symm
  · rintro rfl m u hm hnot hu
    by_cases hname : m = n
    · subst hname
      rw [hw, ← hu, hv]
    · exact h m u (by simp [hm, hname]) hnot hu

section Parts

variable {t : Tree} {v : Json}

theorem ofTree?_of_text? {s : String} (h : t.text? = some s) :
    ofTree? depth t = some (.text s) := by
  cases t with
  | text raw =>
    have hraw : textOf? raw = some s := h
    rw [ofTree?, hraw]
    rfl
  | _ => cases h

theorem ofTree?_of_uint64? {k : UInt64} (h : t.uint64? = some k) :
    ofTree? depth t = some (.number (.natural k)) := by
  cases t with
  | number x =>
    rw [Tree.uint64?] at h
    split at h
    · next hx =>
      cases h
      rw [ofTree?, hx]
      rfl
    · cases h
  | _ => cases h

theorem ofTree?_of_required? {α : Type} {read : Tree → Option α} {a : α} {w : Json}
    {o : Option Tree} (hread : ∀ {t}, read t = some a → ofTree? depth t = some w)
    (h : Tree.required? read o = some a) : o.bind (ofTree? depth) = some w := by
  cases o with
  | none => cases h
  | some t => exact hread h

/-- A text that may be absent or null. -/
theorem map_text_of_member? {o : Option Tree} {s : Option String}
    (h : Tree.member? Tree.text? o = some s) (hv : o.bind (ofTree? depth) = some v)
    (hnull : v ≠ .null) : s.map .text = some v := by
  cases o with
  | none => cases hv
  | some t =>
    cases t with
    | null =>
      cases hv
      exact absurd rfl hnull
    | text raw =>
      obtain ⟨s, hs, rfl⟩ := Option.map_eq_some_iff.mp h
      rw [Option.bind_some, ofTree?_of_text? hs] at hv
      exact hv
    | _ => cases h

end Parts

end Json

namespace Sidecar

open Json (last? Keeps lookup_of_members)
open Tree (lookup_of_known)

variable {s : Sidecar} {ms : List (Bytes × Tree)} {found : List (String × Tree)} {depth : Nat}
  {ns : List (String × Json)}

/-- A sidecar that was read from the text of an object was read from the members of the object. -/
theorem readFrom_of_denotes {text : Bytes} {vs : List (String × Json)}
    (hvalue : Json.Denotes text (.object vs)) (hs : parse? text = some s) :
    ∃ ms found depth ns, ReadFrom ms found s ∧ Json.ofMembers? depth ms = some ns ∧
      vs = Json.sortMembers ns := by
  obtain ⟨t, depth, ht, hv⟩ := hvalue
  rw [parse?, ht, Option.bind_some] at hs
  obtain ⟨ms, found, rfl, hfrom⟩ := readFrom_of_ofTree? hs
  cases depth with
  | zero => cases hv
  | succ depth =>
    obtain ⟨ns, hns, hobject⟩ := Option.map_eq_some_iff.mp hv
    cases hobject
    exact ⟨ms, found, depth, ns, hfrom, hns, rfl⟩

/-- Leaving out the known members takes nothing from unknown names. -/
theorem last?_unknown (ms : List (Bytes × Tree)) {n : String} (hn : n ∉ names) :
    last? n (ms.filter fun m => !(textOf? m.1).any names.contains) = last? n ms := by
  rw [last?, last?, ← List.filter_reverse, List.find?_filter]
  congr 2
  funext m
  by_cases hm : textOf? m.1 = some n <;> simp [hm, hn]

/-- Under unknown names the same is found in the object and in the sidecar. -/
theorem lookup_unknown (hs : ReadFrom ms found s) (hns : Json.ofMembers? depth ms = some ns)
    {n : String} (hn : n ∉ names) :
    List.lookup n (Json.sortMembers ns) = List.lookup n s.other := by
  obtain ⟨os, hos, hother⟩ := Option.bind_eq_some_iff.mp hs.other
  have hlast := last?_unknown ms hn
  rw [← Option.some.inj hother, lookup_of_members hos, hlast, lookup_of_members hns]
  cases ht : last? n ms with
  | none => rfl
  | some t =>
    obtain ⟨v, hv⟩ := Json.exists_value_of_last? hns ht
    obtain ⟨w, hw⟩ := Json.exists_value_of_last? hos (hlast.trans ht)
    rw [Option.bind_some, Option.bind_some, hv, hw, Json.ofTree?_unique hv hw]

/-- Kept members hold no other numbers than the object from which they were read. -/
theorem isExact_of_readFrom (hs : ReadFrom ms found s) (hread : s.IsRead)
    (hns : Json.ofMembers? depth ms = some ns)
    (hexact : ∀ m ∈ Json.sortMembers ns, Json.IsExact m.2) : s.IsExact where
  extra := by
    have hdetails := hs.extra
    cases ht : List.lookup "extra" found with
    | none =>
      rw [ht] at hdetails
      have hempty : [] = s.extra := Option.some.inj hdetails
      rw [← hempty]
      exact .object nofun
    | some t =>
      rw [ht] at hdetails
      have hlast := (lookup_of_known hs.known (by decide)).symm.trans ht
      obtain ⟨v, hv⟩ := Json.exists_value_of_last? hns hlast
      have hvalue := lookup_of_members hns "extra"
      rw [hlast, Option.bind_some, hv, Json.ofTree?_unique hv (ofTree?_of_details? hdetails)]
        at hvalue
      exact hexact _ (Json.mem_of_lookup hvalue)
  other m hm := by
    have hlookup := (Json.lookup_eq_some_iff (Sorted.nodup hread.sorted)).mpr hm
    rw [← lookup_unknown hs hns (hread.unknown m hm)] at hlookup
    exact hexact _ (Json.mem_of_lookup hlookup)

/-- What an object holds besides the state and the origin stands in the sidecar that was read from
it, whatever state is noted there. -/
theorem keeps_members (hs : ReadFrom ms found s) (hread : s.IsRead)
    (hns : Json.ofMembers? depth ms = some ns) (u : Option UpdateState) :
    Keeps (Json.sortMembers ns) { s with update := u }.members ["update_check", "source"] := by
  intro n v hn hnull hv
  by_cases hknown : n ∈ names
  · rw [lookup_of_members hns, ← lookup_of_known hs.known hknown] at hv
    have hmembers := lookup_members (hread.update u)
    simp only [names, List.map_cons, List.map_nil, List.cons.injEq, and_true] at hmembers
    obtain ⟨hversion, hkey, htimestamp, hintegrity, hchecksum, hsize, -, hextra, -⟩ := hmembers
    simp only [names, List.mem_cons, List.not_mem_nil, or_false, not_or] at hknown hn
    rcases hknown with rfl | rfl | rfl | rfl | rfl | rfl | rfl | rfl | rfl
    · rw [hversion, ← hv]
      exact (Json.ofTree?_of_required? Json.ofTree?_of_text? hs.version).symm
    · rw [hkey, ← hv]
      exact (Json.ofTree?_of_required? Json.ofTree?_of_text? hs.key).symm
    · rw [htimestamp, ← hv]
      exact (Json.ofTree?_of_required? Json.ofTree?_of_uint64? hs.timestamp).symm
    · rw [hintegrity]
      exact Json.map_text_of_member? hs.integrity hv hnull
    · rw [hchecksum]
      exact Json.map_text_of_member? hs.checksum hv hnull
    · rw [hsize, ← hv]
      exact (Json.ofTree?_of_required? Json.ofTree?_of_uint64? hs.size).symm
    · exact absurd rfl hn.2
    · obtain ⟨t, ht, hvalue⟩ := Option.bind_eq_some_iff.mp hv
      have hdetails := hs.extra
      rw [ht] at hdetails
      rw [hextra, Json.ofTree?_unique hvalue (ofTree?_of_details? hdetails)]
    · exact absurd rfl hn.1
  · rw [lookup_members_unknown hknown, ← lookup_unknown hs hns hknown, hv]

end Sidecar

/-! ### The members of the origin -/

def Origin.members (r : Origin) : List (String × Json) :=
  [("path", .text r.path), ("type", .text r.kind)]

namespace Origin

variable {r : Origin} {o : List (String × Json)} {t : Tree} {depth : Nat}

theorem sorted_members (r : Origin) : Sorted r.members :=
  .cons (List.forall_mem_singleton.mpr (by decide : "path" < "type")) (List.pairwise_singleton _ _)

theorem ofTree?_written_members (hdepth : 0 < depth) (r : Origin) :
    Json.ofTree? depth (written r.toJson) = some (.object r.members) := by
  have htexts : Json.ofMembers? (depth - 1) (writtenMembers [("type", .text r.kind),
      ("path", .text r.path)]) = some [("type", .text r.kind), ("path", .text r.path)] :=
    Json.ofMembers?_written (by simp [written, Json.ofTree?, textOf?_body])
  have hsort : Json.sortMembers [("type", .text r.kind), ("path", .text r.path)] = r.members := by
    have hlt : "path" < "type" := by decide
    simp [Json.sortMembers, Json.insertMember, hlt, members]
  rw [toJson, written, Json.ofTree?, if_neg (by omega), htexts, Option.map_some, hsort]

theorem lookup_members (r : Origin) (n : String) : List.lookup n r.members =
    if n = "path" then some (.text r.path)
    else if n = "type" then some (.text r.kind) else none := by
  rw [members, lookup_cons_if, lookup_cons_if]
  rfl

/-- An object that is read as an origin has its two members, and maybe others. -/
theorem lookup_of_ofTree? (h : ofTree? t = some r) (ho : Json.ofTree? depth t = some (.object o)) :
    List.lookup "type" o = some (.text r.kind) ∧ List.lookup "path" o = some (.text r.path) := by
  cases t with
  | object ms =>
    obtain ⟨depth, rfl⟩ : ∃ d, depth = d + 1 := by
      cases depth with
      | zero => cases ho
      | succ d => exact ⟨d, rfl⟩
    obtain ⟨os, hos, hobject⟩ := Option.map_eq_some_iff.mp ho
    cases hobject
    cases hknown : Tree.known? ["type", "path"] ms with
    | none => simp [ofTree?, Tree.record?, hknown] at h
    | some found =>
      rw [ofTree?, Tree.record?, hknown] at h
      simp only [List.map_cons, List.map_nil, Option.map_some, Option.bind_eq_bind,
        Option.bind_some, Option.bind_eq_some_iff, Option.pure_def, Option.some.injEq] at h
      obtain ⟨kind, hkind, path, hpath, rfl⟩ := h
      rw [Json.lookup_of_members hos, Json.lookup_of_members hos,
        ← Tree.lookup_of_known hknown (by simp), ← Tree.lookup_of_known hknown (by simp)]
      exact ⟨Json.ofTree?_of_required? Json.ofTree?_of_text? hkind,
        Json.ofTree?_of_required? Json.ofTree?_of_text? hpath⟩
  | array ts =>
    obtain ⟨vs, -, hobject⟩ : ∃ vs, _ ∧ Json.array vs = .object o := by
      rw [Json.ofTree?] at ho
      split at ho
      · cases ho
      · exact Option.map_eq_some_iff.mp ho
    cases hobject
  | _ => cases h

section Members

variable (ho : Sorted o) (hkind : List.lookup "type" o = some (.text r.kind))
  (hpath : List.lookup "path" o = some (.text r.path))
include ho hkind hpath

/-- Nothing is lost exactly where there is nothing besides the two members. -/
theorem keeps_members_iff :
    Json.Keeps o r.members [] ↔ ∀ m ∈ o, m.2 ≠ .null → m.1 = "type" ∨ m.1 = "path" := by
  constructor
  · intro h m hm hnull
    have hkept := h m.1 m.2 List.not_mem_nil hnull ((Json.lookup_eq_some_iff ho.nodup).mpr hm)
    rcases List.mem_cons.mp (Json.mem_of_lookup hkept) with hm | hm
    · exact .inr (congrArg Prod.fst hm)
    · exact .inl (congrArg Prod.fst (List.mem_singleton.mp hm))
  · intro h n v _ hnull hv
    rcases h (n, v) (Json.mem_of_lookup hv) hnull with rfl | rfl
    · rw [lookup_members, ← hv, hkind]
      rfl
    · rw [lookup_members, ← hv, hpath]
      rfl

theorem eq_members_iff : o = r.members ↔ ∀ m ∈ o, m.1 = "type" ∨ m.1 = "path" := by
  constructor
  · rintro rfl
    simp [members]
  · intro h
    refine ho.ext r.sorted_members fun n => ?_
    rw [lookup_members]
    split
    · next hn => rw [hn, hpath]
    · next hnotPath =>
      split
      · next hn => rw [hn, hkind]
      · next hnotType =>
        exact lookup_eq_none fun m hm hmn => (h m hm).elim (fun h => hnotType (hmn ▸ h))
          fun h => hnotPath (hmn ▸ h)

end Members

end Origin

namespace Sidecar

variable {s : Sidecar}

theorem held_ofInt64 (depth : Nat) (n : Int64) : Held depth (.ofInt64 n) := by
  rw [Json.ofInt64]
  split
  · next h => exact .negative depth (Int64.lt_iff_toInt_lt.mp h)
  · exact .natural depth _

theorem held_members (hs : s.IsRead) :
    ∀ m ∈ s.members, m.1 ≠ "source" → Held memberDepth m.2 := by
  have htext : ∀ {t : Option String} {v : Json}, t.map .text = some v → Held memberDepth v := by
    intro t v h
    obtain ⟨t, -, rfl⟩ := Option.map_eq_some_iff.mp h
    exact .text _ t
  have hupdate : ∀ {v : Json}, s.update.map (·.toJson) = some v → Held memberDepth v := by
    intro v h
    obtain ⟨u, -, rfl⟩ := Option.map_eq_some_iff.mp h
    have hfirst : "last_check" < "last_notification" := by decide
    have hsecond : "last_notification" < "latest_known" := by decide
    refine Held.object (.cons ?_ (.cons ?_ (List.pairwise_singleton _ _)))
      (by simp [held_ofInt64, Held.text])
    · exact List.forall_mem_cons.mpr ⟨hfirst, List.forall_mem_singleton.mpr (hfirst.trans hsecond)⟩
    · exact List.forall_mem_singleton.mpr hsecond
  simp only [members, optionalMember, List.forall_mem_append, List.forall_mem_map,
    Option.mem_toList, List.forall_mem_cons]
  exact ⟨⟨⟨⟨⟨⟨fun _ => .text _ _, fun _ => .text _ _, fun _ => .natural _ _,
    List.forall_mem_nil _⟩, fun _ h _ => htext h⟩, fun _ h _ => htext h⟩,
    fun _ => .natural _ _, fun h => absurd rfl h, fun _ => hs.extra, List.forall_mem_nil _⟩,
    fun _ h _ => hupdate h⟩, fun m hm _ => hs.other m hm⟩

/-- The text of a sidecar stands for its members. -/
theorem denotes_encode (hs : s.IsRead) (hexact : s.IsExact) : ∃ ms,
    Json.Denotes s.encode (.object ms) ∧
    ∀ n, List.lookup n ms =
      if n = "source" then some (.object s.origin.members) else List.lookup n s.members := by
  have hsource := lookup_source hs
  have hvalues : Json.ofMembers? memberDepth (writtenMembers s.members) = some
      (s.members.map fun m => (m.1, if m.1 = "source" then .object s.origin.members else m.2)) := by
    rw [Json.ofMembers?_eq_some, Json.writtenMembers_eq, List.forall₂_map_left_iff,
      List.forall₂_map_right_iff, List.forall₂_same]
    intro m hm
    refine ⟨textOf?_body m.1, ?_⟩
    by_cases hname : m.1 = "source"
    · have hvalue := (Json.lookup_eq_some_iff (nodup_members hs)).mpr hm
      rw [hname, hsource] at hvalue
      rw [if_pos hname, ← Option.some.inj hvalue]
      exact Origin.ofTree?_written_members (by decide) s.origin
    · rw [if_neg hname]
      exact Json.ofTree?_written (held_members hs m hm hname) (exact_members hexact m hm)
  have hvalue : Json.ofTree? (memberDepth + 1) (written (.object s.members)) = some _ :=
    Option.map_eq_some_iff.mpr ⟨_, hvalues, rfl⟩
  refine ⟨_, ⟨_, _, treeParse_encode hexact, hvalue⟩, fun n => ?_⟩
  have hnodup : ((s.members.map fun m =>
      (m.1, if m.1 = "source" then .object s.origin.members else m.2)).map (·.1)).Nodup := by
    rw [List.map_map]
    exact nodup_members hs
  rw [Json.lookup_sortMembers, Json.lookup_reverse hnodup,
    Json.lookup_map fun m v => if m = "source" then .object s.origin.members else v]
  by_cases hn : n = "source"
  · simp [hn, hsource]
  · simp [hn]

/-- The origin that was read from an object has the two members of the object. -/
theorem lookup_origin {ms : List (Bytes × Tree)} {found : List (String × Tree)} {depth : Nat}
    {ns o : List (String × Json)} (hs : ReadFrom ms found s)
    (hns : Json.ofMembers? depth ms = some ns)
    (hsource : List.lookup "source" (Json.sortMembers ns) = some (.object o)) :
    List.lookup "type" o = some (.text s.origin.kind) ∧
      List.lookup "path" o = some (.text s.origin.path) := by
  have horigin := hs.origin
  rw [Json.lookup_of_members hns, ← Tree.lookup_of_known hs.known (by decide)] at hsource
  obtain ⟨t, ht, hvalue⟩ := Option.bind_eq_some_iff.mp hsource
  rw [ht] at horigin
  exact Origin.lookup_of_ofTree? horigin hvalue

end Sidecar

/-! ### Noting a state -/

namespace Cache

variable {c : Cache} {key : String} {fs fs₁ : FileSystem} {pid : Nat} {state : UpdateState}
  {text : Bytes} {s : Sidecar} {ms o : List (String × Json)}

/-- When a state is noted, it is found under its name, and what the sidecar held under other names
is still there. Of the origin two members are kept: nothing is lost exactly when it has no others
but null. -/
theorem noted_members (hread : fs.read (c.sidecar key) = .ok text)
    (hvalue : Json.Denotes text (.object ms)) (hexact : Json.IsExact (.object ms))
    (haccepted : Sidecar.parse? text = some s)
    (hsource : List.lookup "source" ms = some (.object o))
    (hlink : fs.LinkFree (Proc.temporary pid (c.sidecar key)))
    (hrun : (c.writeState pid key state).run fs = (.ok (), fs₁)) :
    ∃ text₁ ms₁ o₁, fs₁.read (c.sidecar key) = .ok text₁ ∧ Json.Denotes text₁ (.object ms₁) ∧
      List.lookup "update_check" ms₁ = some state.toJson ∧
      Json.Keeps ms ms₁ ["update_check", "source"] ∧
      List.lookup "source" ms₁ = some (.object o₁) ∧
      (Json.Keeps o o₁ [] ↔ ∀ m ∈ o, m.2 ≠ .null → m.1 = "type" ∨ m.1 = "path") ∧
      (Json.Keeps ms ms₁ ["update_check"] ↔ ∀ m ∈ o, m.1 = "type" ∨ m.1 = "path") := by
  obtain ⟨tms, found, depth, ns, hfrom, hns, rfl⟩ := Sidecar.readFrom_of_denotes hvalue haccepted
  obtain ⟨_, _, _, hv⟩ := hvalue
  cases Json.held_of_ofTree? hv with | object hsorted hheld => ?_
  cases hexact with | object hexact => ?_
  have hkept := Sidecar.isRead_of_parse? haccepted
  have hkeptExact := Sidecar.isExact_of_readFrom hfrom hkept hns hexact
  obtain ⟨d, hnoted⟩ := noted_of_ok ⟨text, hread, haccepted⟩ hkeptExact hlink hrun
  obtain ⟨hkind, hpath⟩ := Sidecar.lookup_origin hfrom hns hsource
  have ho : Sorted o := by
    cases hheld _ (Json.mem_of_lookup hsource) with
    | object ho => exact ho
  obtain ⟨ms₁, hvalue₁, hlookup⟩ :=
    Sidecar.denotes_encode (hkept.update (some state)) (hkeptExact.update (some state))
  have hstate : List.lookup "update_check" ms₁ = some state.toJson := by
    rw [hlookup, if_neg (by decide), Sidecar.lookup_update (hkept.update (some state))]
    rfl
  have hbesides : Json.Keeps (Json.sortMembers ns) ms₁ ["update_check", "source"] := by
    intro n v hn hnull hv
    rw [hlookup, if_neg fun h => hn (by simp [h])]
    exact Sidecar.keeps_members hfrom hkept hns (some state) n v hn hnull hv
  have hsource₁ : List.lookup "source" ms₁ = some (.object s.origin.members) := by
    rw [hlookup, if_pos rfl]
  refine ⟨_, ms₁, s.origin.members, hnoted.rewritten.read, hvalue₁, hstate, hbesides, hsource₁,
    Origin.keeps_members_iff ho hkind hpath, ?_⟩
  rw [← Origin.eq_members_iff ho hkind hpath, ← Json.object.injEq]
  exact hbesides.keeps_iff (by decide) hsource (by simp) hsource₁

def longOrigin : List (String × Json) :=
  [("note", .text "n"), ("path", .text "p"), ("type", .text "t")]

def longEntry : List (String × Json) :=
  [("cache_key", .text "k"), ("size", .number (.natural 1)), ("source", .object longOrigin),
    ("timestamp", .number (.natural 1)), ("version", .text "1")]

def longText : Bytes :=
  Utf8.encode (Json.pretty (.object longEntry)) ++ [0x0A]

theorem isExact_longEntry : Json.IsExact (.object longEntry) := by
  have horigin : Json.IsExact (.object longOrigin) :=
    .object (by simp [longOrigin, Json.IsExact.text])
  exact .object (by simp [longEntry, horigin, Json.IsExact.text, Json.IsExact.natural])

theorem treeParse_longText : Tree.parse? longText = some (written (.object longEntry)) := by
  rw [longText, Json.pretty, Utf8.encode, String.toList_ofList]
  exact Json.parse?_print isExact_longEntry .spread (.blank (x := 0x0A) rfl .nil)
    (Json.apart_cons (by decide))

theorem denotes_longText : Json.Denotes longText (.object longEntry) := by
  have horigin : Held 1 (.object longOrigin) :=
    .object (by decide) (by simp [longOrigin, Held.text])
  have hentry : Held 2 (.object longEntry) :=
    .object (by decide) (by simp [longEntry, horigin, Held.text, Held.natural])
  exact ⟨_, 2, treeParse_longText, Json.ofTree?_written hentry isExact_longEntry⟩

theorem parse?_longText : ∃ s, Sidecar.parse? longText = some s := by
  have hnodup : (longEntry.map (·.1)).Nodup := by decide
  have hrecord := Tree.record?_written Sidecar.names hnodup 0
  have horigin : Origin.ofTree? (written (.object longOrigin)) = some ⟨"t", "p"⟩ := by
    rw [Origin.ofTree?, Tree.record?_written _ (by decide)]
    simp [longOrigin, List.lookup, Tree.required?, text?_written]
  have hother : Sidecar.others? (writtenMembers longEntry) = some [] := by
    simp [Sidecar.others?, longEntry, writtenMembers, textOf?_body, Sidecar.names,
      Json.ofMembers?, Json.sortMembers]
  rw [written] at hrecord
  refine ⟨⟨"1", "k", 1, none, none, 1, ⟨"t", "p"⟩, [], none, []⟩, ?_⟩
  rw [Sidecar.parse?, treeParse_longText, Option.bind_some, written, Sidecar.ofTree?, hrecord]
  rw [longEntry] at hother ⊢
  simp [Sidecar.names, List.lookup, Tree.required?, Tree.member?, Tree.defaulted?, text?_written,
    uint64?_written, horigin, hother]

/-- The note about the origin is lost. -/
theorem noted_members_longText :
    ∃ fs₁ text₁ ms₁ o₁,
      (soleCache.writeState 1 soleKey .initial).run (soleSidecar longText) = (.ok (), fs₁) ∧
      fs₁.read (soleCache.sidecar soleKey) = .ok text₁ ∧ Json.Denotes text₁ (.object ms₁) ∧
      List.lookup "source" ms₁ = some (.object o₁) ∧
      List.lookup "note" longOrigin = some (.text "n") ∧ ¬Json.Keeps longOrigin o₁ [] := by
  obtain ⟨s, hs⟩ := parse?_longText
  have hread := read_soleSidecar longText
  have hwritable := writable_soleSidecar longText
  obtain ⟨fs₁, hrun⟩ := exists_run_writeState .initial ⟨_, hread, hs⟩ hwritable
  obtain ⟨text₁, ms₁, o₁, hread₁, hvalue₁, -, -, hsource₁, hlost, -⟩ :=
    noted_members hread denotes_longText isExact_longEntry hs rfl hwritable.linkFree hrun
  refine ⟨fs₁, text₁, ms₁, o₁, hrun, hread₁, hvalue₁, hsource₁, rfl, ?_⟩
  rw [hlost]
  intro h
  exact absurd (h ("note", .text "n") List.mem_cons_self nofun) (by decide)

end Cache

end SelfExtract
