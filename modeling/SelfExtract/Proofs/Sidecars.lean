import SelfExtract.Cache.Sidecar
import SelfExtract.Proofs.JsonMembers

/-!
# The text of a sidecar

A sidecar that was read is read back from its own text as it is, as long as its
kept members hold no number that is not an integer. The state of look-ups is a
member among others, so that a sidecar with another state is read back too.
-/
namespace SelfExtract

open Json (Tree body textOf? textOf?_body written writtenMembers value?_numeral Held Sorted)

/-! ### Parts -/

theorem text?_written (s : String) : Tree.text? (written (.text s)) = some s :=
  textOf?_body s

theorem uint64?_written (n : UInt64) : Tree.uint64? (written (.number (.natural n))) = some n := by
  rw [written, Tree.uint64?, value?_numeral (n := .natural n) trivial]

theorem int64?_written (n : Int64) : Tree.int64? (written (.ofInt64 n)) = some n := by
  rw [Json.ofInt64]
  split
  · next h =>
    have hneg : n.toInt < 0 := Int64.lt_iff_toInt_lt.mp h
    rw [written, Tree.int64?, value?_numeral (n := .negative n) hneg]
  · next h =>
    have hsmall : n.toUInt64.toNat < 2 ^ 63 := by
      rw [Int64.toNat_toUInt64_of_le (Int64.not_lt.mp h)]
      have := n.toInt_lt
      simp only [Int64.toNatClampNeg]
      omega
    rw [written, Tree.int64?, value?_numeral (n := .natural n.toUInt64) trivial]
    simp only [if_pos hsmall]
    exact congrArg some n.toInt64_toUInt64

theorem member?_text_written (t : Option String) :
    Tree.member? Tree.text? ((t.map .text).map written) = some t := by
  cases t with
  | none => rfl
  | some t => exact congrArg (Option.map some) (text?_written t)

theorem Origin.ofTree?_written (o : Origin) : ofTree? (written o.toJson) = some o := by
  rw [ofTree?, toJson, Tree.record?_written _ (by simp)]
  simp [List.lookup, Tree.required?, text?_written]

theorem UpdateState.ofTree?_written (s : UpdateState) : ofTree? (written s.toJson) = some s := by
  rw [ofTree?, toJson, Tree.record?_written _ (by simp)]
  simp [List.lookup, Tree.defaulted?, text?_written, int64?_written]

theorem UpdateState.member?_written (s : Option UpdateState) :
    Tree.member? UpdateState.ofTree? ((s.map (·.toJson)).map written) = some s := by
  cases s with
  | none => rfl
  | some s => exact congrArg (Option.map some) s.ofTree?_written

namespace Sidecar

variable {s : Sidecar}

structure IsRead (s : Sidecar) : Prop where
  extra : Held memberDepth (.object s.extra)
  sorted : Sorted s.other
  other : ∀ m ∈ s.other, Held memberDepth m.2
  unknown : ∀ m ∈ s.other, m.1 ∉ names

structure IsExact (s : Sidecar) : Prop where
  extra : Json.IsExact (.object s.extra)
  other : ∀ m ∈ s.other, Json.IsExact m.2

/-- Another state of look-ups changes nothing that is kept. -/
theorem IsRead.update (hs : s.IsRead) (u : Option UpdateState) : { s with update := u }.IsRead :=
  ⟨hs.extra, hs.sorted, hs.other, hs.unknown⟩

theorem IsExact.update (hs : s.IsExact) (u : Option UpdateState) :
    { s with update := u }.IsExact :=
  ⟨hs.extra, hs.other⟩

/-! ### Members as they are written -/

theorem sublist_optionalMember (name : String) (v : Option Json) :
    ((optionalMember name v).map (·.1)).Sublist [name] := by
  cases v with
  | none => exact List.nil_sublist _
  | some v => exact List.Sublist.refl _

theorem lookup_optionalMember (n name : String) (v : Option Json) :
    List.lookup n (optionalMember name v) = if n = name then v else none := by
  cases v with
  | none => simp [optionalMember]
  | some v => exact lookup_cons_if

/-- The names are the known ones, some of which may be left out, and those of the other members. -/
theorem sublist_members (s : Sidecar) :
    (s.members.map (·.1)).Sublist (names ++ s.other.map (·.1)) := by
  have hknown : names = ["version", "cache_key", "timestamp"] ++ ["integrity"] ++ ["checksum"] ++
      ["size", "source", "extra"] ++ ["update_check"] := rfl
  simp only [members, List.map_append, hknown]
  exact (((((List.Sublist.refl _).append (sublist_optionalMember _ _)).append
    (sublist_optionalMember _ _)).append (List.Sublist.refl _)).append
    (sublist_optionalMember _ _)).append (List.Sublist.refl _)

theorem nodup_members (hs : s.IsRead) : (s.members.map (·.1)).Nodup := by
  refine s.sublist_members.nodup (List.nodup_append.mpr ⟨by decide, ?_, ?_⟩)
  · exact Sorted.nodup hs.sorted
  · rintro n hn _ hm rfl
    obtain ⟨m, hother, rfl⟩ := List.mem_map.mp hm
    exact hs.unknown m hother hn

theorem lookup_other (hs : s.IsRead) : ∀ n ∈ names, List.lookup n s.other = none := fun _ hn =>
  lookup_eq_none fun m hm h => hs.unknown m hm (h ▸ hn)

theorem exact_members (hexact : s.IsExact) : ∀ m ∈ s.members, Json.IsExact m.2 := by
  have hstate : ∀ n, Json.IsExact (.ofInt64 n) := by
    intro n
    rw [Json.ofInt64]
    split
    · exact .negative n
    · exact .natural _
  have htext : ∀ {t : Option String} {v : Json}, t.map .text = some v → Json.IsExact v := by
    intro t v h
    obtain ⟨t, -, rfl⟩ := Option.map_eq_some_iff.mp h
    exact .text t
  have hupdate : ∀ {v : Json}, s.update.map (·.toJson) = some v → Json.IsExact v := by
    intro v h
    obtain ⟨u, -, rfl⟩ := Option.map_eq_some_iff.mp h
    exact .object (by simp [hstate, Json.IsExact.text])
  have horigin : Json.IsExact s.origin.toJson := .object (by simp [Json.IsExact.text])
  simp only [members, optionalMember, List.forall_mem_append, List.forall_mem_map,
    Option.mem_toList, List.forall_mem_cons]
  exact ⟨⟨⟨⟨⟨⟨.text _, .text _, .natural _, nofun⟩, fun _ h => htext h⟩, fun _ h => htext h⟩,
    .natural _, horigin, hexact.extra, nofun⟩, fun _ h => hupdate h⟩, hexact.other⟩

/-- What stands under the known names. -/
theorem lookup_members (hs : s.IsRead) :
    names.map (fun n => List.lookup n s.members) =
      [some (.text s.version), some (.text s.key), some (.number (.natural s.timestamp)),
        s.integrity.map .text, s.checksum.map .text, some (.number (.natural s.size)),
        some s.origin.toJson, some (.object s.extra), s.update.map (·.toJson)] := by
  have hother := lookup_other hs
  simp only [names, List.forall_mem_cons] at hother
  simp [names, members, List.lookup_append, lookup_optionalMember, List.lookup, hother]

theorem lookup_source (hs : s.IsRead) : List.lookup "source" s.members = some s.origin.toJson := by
  have hmembers := lookup_members hs
  simp only [names, List.map_cons, List.map_nil, List.cons.injEq] at hmembers
  obtain ⟨-, -, -, -, -, -, hsource, -⟩ := hmembers
  exact hsource

theorem lookup_update (hs : s.IsRead) :
    List.lookup "update_check" s.members = s.update.map (·.toJson) := by
  have hmembers := lookup_members hs
  simp only [names, List.map_cons, List.map_nil, List.cons.injEq] at hmembers
  obtain ⟨-, -, -, -, -, -, -, -, hupdate, -⟩ := hmembers
  exact hupdate

theorem members_eq (s : Sidecar) :
    ∃ known, s.members = known ++ s.other ∧ ∀ m ∈ known, m.1 ∈ names := by
  refine ⟨_, rfl, fun m hm => ?_⟩
  have hoptional : ∀ {name : String} {v : Option Json}, m ∈ optionalMember name v → m.1 = name := by
    intro name v h
    exact List.mem_singleton.mp ((sublist_optionalMember name v).subset (List.mem_map_of_mem h))
  simp only [List.mem_append, List.mem_cons, List.not_mem_nil, or_false] at hm
  rcases hm with ((((rfl | rfl | rfl) | hm) | hm) | rfl | rfl | rfl) | hm
  case inl.inl.inl.inr | inl.inl.inr | inr =>
    rw [hoptional hm]
    decide
  all_goals exact of_decide_eq_true rfl

/-- What stands under another name. -/
theorem lookup_members_unknown {n : String} (hn : n ∉ names) :
    List.lookup n s.members = List.lookup n s.other := by
  obtain ⟨known, hmembers, hknown⟩ := s.members_eq
  have hnone : List.lookup n known = none :=
    lookup_eq_none fun m hm h => hn (h ▸ hknown m hm)
  rw [hmembers, List.lookup_append, hnone, Option.none_or]

/-! ### Reading what was written -/

theorem others?_written (hs : s.IsRead) (hexact : s.IsExact) :
    others? (writtenMembers s.members) = some s.other := by
  obtain ⟨known, hmembers, hknown⟩ := s.members_eq
  have hunknown : (writtenMembers s.members).filter
      (fun m => !(textOf? m.1).any names.contains) = writtenMembers s.other := by
    have hsame : (fun m : Bytes × Tree => !(textOf? m.1).any names.contains) ∘
        (fun m : String × Json => (body m.1, written m.2)) = fun m => !names.contains m.1 := by
      funext m
      simp [textOf?_body]
    have hnone : known.filter (fun m => !names.contains m.1) = [] := by
      simpa using hknown
    have hall : s.other.filter (fun m => !names.contains m.1) = s.other := by
      simpa using hs.unknown
    rw [Json.writtenMembers_eq, Json.writtenMembers_eq, List.filter_map, hsame, hmembers,
      List.filter_append, hnone, hall, List.nil_append]
  have hread : Json.ofMembers? memberDepth (writtenMembers s.other) = some s.other :=
    Json.ofMembers?_written fun m hm => Json.ofTree?_written (hs.other m hm) (hexact.other m hm)
  rw [others?, hunknown, hread]
  exact congrArg some (Json.sortMembers_of_sorted hs.sorted)

theorem details?_written (hs : s.IsRead) (hexact : s.IsExact) :
    details? (written (.object s.extra)) = some s.extra := by
  rw [details?, Json.ofTree?_written hs.extra hexact.extra]
  rfl

theorem ofTree?_written (hs : s.IsRead) (hexact : s.IsExact) :
    ofTree? (written (.object s.members)) = some s := by
  have hrecord := Tree.record?_written names (nodup_members hs) 0
  have hvalues := congrArg (List.map (Option.map written)) (lookup_members hs)
  rw [List.map_map] at hvalues
  change List.map (fun n => (List.lookup n s.members).map written) names = _ at hvalues
  rw [hvalues] at hrecord
  rw [written] at hrecord ⊢
  refine Option.bind_eq_some_iff.mpr ⟨_, hrecord, ?_⟩
  simp [-Option.map_map, Tree.required?, Tree.defaulted?, text?_written, uint64?_written,
    Origin.ofTree?_written, member?_text_written, UpdateState.member?_written,
    others?_written hs hexact, details?_written hs hexact]

theorem treeParse_encode (hexact : s.IsExact) :
    Tree.parse? s.encode = some (written (.object s.members)) := by
  have htext : s.encode = (Json.print .spread 0 (.object s.members)).flatMap Utf8.encodeChar ++
      [0x0A] := by
    rw [encode, text, Json.pretty, Utf8.encode, String.toList_ofList]
  rw [htext]
  exact Json.parse?_print (.object (exact_members hexact)) .spread (.blank (x := 0x0A) rfl .nil)
    (Json.apart_cons (by decide))

/-- A sidecar is read back from its text. -/
theorem parse?_encode (hs : s.IsRead) (hexact : s.IsExact) : parse? s.encode = some s := by
  rw [parse?, treeParse_encode hexact, Option.bind_some, ofTree?_written hs hexact]

/-! ### What was read -/

structure ReadFrom (ms : List (Bytes × Tree)) (found : List (String × Tree)) (s : Sidecar) :
    Prop where
  known : Tree.known? names ms = some found
  version : Tree.required? Tree.text? (List.lookup "version" found) = some s.version
  key : Tree.required? Tree.text? (List.lookup "cache_key" found) = some s.key
  timestamp : Tree.required? Tree.uint64? (List.lookup "timestamp" found) = some s.timestamp
  integrity : Tree.member? Tree.text? (List.lookup "integrity" found) = some s.integrity
  checksum : Tree.member? Tree.text? (List.lookup "checksum" found) = some s.checksum
  size : Tree.required? Tree.uint64? (List.lookup "size" found) = some s.size
  origin : Tree.required? Origin.ofTree? (List.lookup "source" found) = some s.origin
  extra : Tree.defaulted? details? [] (List.lookup "extra" found) = some s.extra
  update : Tree.member? UpdateState.ofTree? (List.lookup "update_check" found) = some s.update
  other : others? ms = some s.other

/-- A name at a time, since the reader takes the members of all names at once. -/
theorem map_names (f : String → Option Tree) : names.map f =
    [f "version", f "cache_key", f "timestamp", f "integrity", f "checksum", f "size", f "source",
      f "extra", f "update_check"] :=
  rfl

theorem readFrom_of_ofTree? {t : Tree} (h : ofTree? t = some s) :
    ∃ ms found, t = .object ms ∧ ReadFrom ms found s := by
  cases t with
  | object ms =>
    obtain ⟨vs, hvs, h⟩ := Option.bind_eq_some_iff.mp h
    obtain ⟨found, hknown, rfl⟩ := Option.map_eq_some_iff.mp hvs
    rw [map_names] at h
    simp only [Option.bind_eq_bind, Option.bind_eq_some_iff, Option.pure_def,
      Option.some.injEq] at h
    obtain ⟨version, hversion, key, hkey, timestamp, htimestamp, integrity, hintegrity, checksum,
      hchecksum, size, hsize, origin, horigin, extra, hextra, update, hupdate, other, hother,
      rfl⟩ := h
    exact ⟨ms, found, rfl, hknown, hversion, hkey, htimestamp, hintegrity, hchecksum, hsize,
      horigin, hextra, hupdate, hother⟩
  | _ => cases h

theorem ofTree?_of_details? {t : Tree} {ms : List (String × Json)} (h : details? t = some ms) :
    Json.ofTree? memberDepth t = some (.object ms) := by
  obtain ⟨v, hv, h⟩ := Option.bind_eq_some_iff.mp h
  cases v with
  | object ns =>
    cases h
    exact hv
  | _ => cases h

theorem held_of_defaulted {t : Option Tree} {ms : List (String × Json)}
    (h : Tree.defaulted? details? [] t = some ms) : Held memberDepth (.object ms) := by
  cases t with
  | none =>
    cases h
    exact .object .nil nofun
  | some t => exact Json.held_of_ofTree? (ofTree?_of_details? h)

/-- A sidecar that was read is made of values that were read. -/
theorem isRead_of_ofTree? {t : Tree} (h : ofTree? t = some s) : s.IsRead := by
  obtain ⟨ms, found, -, hs⟩ := readFrom_of_ofTree? h
  obtain ⟨ns, hns, hother⟩ := Option.bind_eq_some_iff.mp hs.other
  have hsort : Json.sortMembers ns = s.other := Option.some.inj hother
  have hmember : ∀ n ∈ s.other, Held memberDepth n.2 ∧ n.1 ∉ names := by
    intro n hn
    obtain ⟨m, hm, hname, hvalue⟩ := Json.exists_of_mem_right (Json.ofMembers?_eq_some.mp hns)
      (Json.mem_of_mem_sortMembers (hsort ▸ hn))
    refine ⟨Json.held_of_ofTree? hvalue, ?_⟩
    have hunknown := (List.mem_filter.mp hm).2
    simpa [hname] using hunknown
  exact ⟨held_of_defaulted hs.extra, hsort ▸ Json.sorted_sortMembers ns,
    fun n hn => (hmember n hn).1, fun n hn => (hmember n hn).2⟩

theorem isRead_of_parse? {text : Bytes} (h : parse? text = some s) : s.IsRead := by
  obtain ⟨t, -, h⟩ := Option.bind_eq_some_iff.mp h
  exact isRead_of_ofTree? h

end Sidecar

end SelfExtract
