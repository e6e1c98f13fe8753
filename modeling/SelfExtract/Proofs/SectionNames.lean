import Mathlib
import SelfExtract.Executable.Resource
import SelfExtract.Proofs.Occurrence

/-!
# The listed names of Mach-O sections

A file lists the names of the sections of its slices, in the order in which they
stand there. A name that follows an equal one is left out, so that a name is
listed once exactly when nothing with another name stands between two sections
that bear it.
-/
namespace SelfExtract

/-! ### Lists without repeats -/

section Repeats

variable {α : Type} {l m : List α} {a : α}

/-- Between two equal elements of a list without repeats stands another one. -/
theorem exists_between (hl : l.IsChain (· ≠ ·)) (h : [a, a].Sublist l) :
    ∃ b, a ≠ b ∧ [a, b, a].Sublist l := by
  induction l with
  | nil => cases h
  | cons x l ih =>
    cases h with
    | cons _ h =>
      obtain ⟨b, hb, hsub⟩ := ih hl.tail h
      exact ⟨b, hb, hsub.cons x⟩
    | cons_cons _ h =>
      cases l with
      | nil => cases h
      | cons y l =>
        have hy : a ≠ y := (List.isChain_cons_cons.mp hl).1
        have hmem : a ∈ l := (List.mem_cons.mp (List.singleton_sublist.mp h)).resolve_left hy
        exact ⟨y, hy, ((List.singleton_sublist.mpr hmem).cons_cons y).cons_cons a⟩

variable [BEq α] [LawfulBEq α]

theorem withoutRepeats_eq_destutter [DecidableEq α] (l : List α) :
    withoutRepeats l = l.destutter (· ≠ ·) := by
  fun_induction withoutRepeats l with
  | case1 a b r h ih =>
    obtain rfl := eq_of_beq h
    rw [ih, List.destutter_cons', List.destutter_cons', List.destutter'_cons_neg]
    simp
  | case2 a b r h ih =>
    rw [ih, List.destutter_cons', List.destutter_cons', List.destutter'_cons_pos]
    simpa using h
  | case3 l h =>
    match l, h with
    | [], _ => rfl
    | [a], _ => rfl
    | a :: b :: r, h => exact absurd rfl (h a b r)

theorem sublist_withoutRepeats (l : List α) : (withoutRepeats l).Sublist l := by
  classical
  rw [withoutRepeats_eq_destutter]
  exact List.destutter_sublist _ l

theorem isChain_withoutRepeats (l : List α) : (withoutRepeats l).IsChain (· ≠ ·) := by
  classical
  rw [withoutRepeats_eq_destutter]
  exact List.isChain_destutter _ l

/-- Whatever has no repeats of its own is still there. -/
theorem sublist_withoutRepeats_of_isChain (hm : m.IsChain (· ≠ ·)) (h : m.Sublist l) :
    m.Sublist (withoutRepeats l) := by
  fun_induction withoutRepeats l generalizing m with
  | case1 a b r hab ih =>
    obtain rfl := eq_of_beq hab
    cases h with
    | cons _ h => exact ih hm h
    | @cons_cons m _ _ h =>
      refine ih hm (List.Sublist.cons_cons a ?_)
      cases h with
      | cons _ h => exact h
      | cons_cons _ h => exact absurd rfl (List.isChain_cons_cons.mp hm).1
  | case2 a b r hab ih =>
    cases h with
    | cons _ h => exact (ih hm h).cons a
    | cons_cons _ h => exact (ih hm.tail h).cons_cons a
  | case3 l h' => exact h

theorem mem_withoutRepeats : a ∈ withoutRepeats l ↔ a ∈ l := by
  constructor
  · exact fun h => (sublist_withoutRepeats l).subset h
  · intro h
    rw [← List.singleton_sublist] at h ⊢
    exact sublist_withoutRepeats_of_isChain (.singleton a) h

/-- No element is left twice when nothing else stands between equal ones. -/
theorem nodup_withoutRepeats_iff :
    (withoutRepeats l).Nodup ↔ ∀ a b, [a, b, a].Sublist l → a = b := by
  constructor
  · intro hnodup a b h
    by_contra hab
    have hchain : [a, b, a].IsChain (· ≠ ·) := by simp [hab, Ne.symm hab]
    have hleft := sublist_withoutRepeats_of_isChain hchain h
    have htwice : [a, a].Sublist [a, b, a] := by simp
    exact List.nodup_iff_sublist.mp hnodup a (htwice.trans hleft)
  · intro h
    rw [List.nodup_iff_sublist]
    intro a htwice
    obtain ⟨b, hab, hsub⟩ := exists_between (isChain_withoutRepeats l) htwice
    exact hab (h a b (hsub.trans (sublist_withoutRepeats l)))

end Repeats

/-! ### Places in nested lists -/

structure Place where
  slice : Nat
  segment : Nat
  inner : Nat
  deriving DecidableEq

def Place.Before (p q : Place) : Prop :=
  p.slice < q.slice ∨ p.slice = q.slice ∧
    (p.segment < q.segment ∨ p.segment = q.segment ∧ p.inner < q.inner)

namespace Place

variable {p q r : Place}

theorem Before.asymm (h : p.Before q) : ¬q.Before p := by
  simp only [Before] at *
  omega

theorem Before.trans (h : p.Before q) (h' : q.Before r) : p.Before r := by
  simp only [Before] at *
  omega

theorem Before.ne (h : p.Before q) : p ≠ q := by
  rintro rfl
  exact h.asymm h

end Place

section Nested

variable {α : Type} (lss : List (List (List α)))

def at? (p : Place) : Option α :=
  (lss[p.slice]?.bind (·[p.segment]?)).bind (·[p.inner]?)

def placed : List (Place × α) :=
  lss.zipIdx.flatMap fun (ls, k) => ls.zipIdx.flatMap fun (l, j) =>
    l.zipIdx.map fun (a, i) => (⟨k, j, i⟩, a)

variable {lss} {p : Place} {a b : α}

theorem mem_placed : (p, a) ∈ placed lss ↔ at? lss p = some a := by
  obtain ⟨k, j, i⟩ := p
  simp only [placed, at?, List.mem_flatMap, List.mem_map, Prod.exists, Prod.mk.injEq,
    Place.mk.injEq, List.mk_mem_zipIdx_iff_getElem?, Option.bind_eq_some_iff]
  constructor
  · rintro ⟨ls, _, hls, l, _, hl, _, _, ha, ⟨rfl, rfl, rfl⟩, rfl⟩
    exact ⟨l, ⟨ls, hls, hl⟩, ha⟩
  · rintro ⟨l, ⟨ls, hls, hl⟩, ha⟩
    exact ⟨ls, k, hls, l, j, hl, a, i, ha, ⟨rfl, rfl, rfl⟩, rfl⟩

theorem flatMap_zipIdx {β γ : Type} (l : List β) (f : β → List γ) :
    l.zipIdx.flatMap (fun x => f x.1) = l.flatMap f := by
  rw [← List.flatMap_map Prod.fst f, List.zipIdx_map_fst]

theorem map_placed (lss : List (List (List α))) :
    (placed lss).map (·.2) = lss.flatten.flatten := by
  have hlist : ∀ l : List α, l.zipIdx.map (fun x => x.1) = l := fun l => l.zipIdx_map_fst 0
  have hlists : ∀ ls : List (List α), (ls.zipIdx.flatMap fun x => x.1) = ls.flatten := fun ls =>
    (flatMap_zipIdx ls id).trans ls.flatMap_id
  simp only [placed, List.map_flatMap, List.map_map, Function.comp_def, hlist, hlists]
  rw [flatMap_zipIdx lss List.flatten, List.flatMap_def, List.flatten_flatten]

theorem pairwise_zipIdx {β : Type} (l : List β) : l.zipIdx.Pairwise fun x y => x.2 < y.2 := by
  rw [← List.pairwise_map (f := Prod.snd) (R := (· < ·)), List.zipIdx_map_snd]
  exact List.pairwise_lt_range'

theorem pairwise_placed (lss : List (List (List α))) :
    (placed lss).Pairwise fun x y => x.1.Before y.1 := by
  rw [placed, List.pairwise_flatMap]
  constructor
  · intro ⟨ls, k⟩ _
    rw [List.pairwise_flatMap]
    constructor
    · intro ⟨l, j⟩ _
      rw [List.pairwise_map]
      exact (pairwise_zipIdx l).imp fun hi => .inr ⟨rfl, .inr ⟨rfl, hi⟩⟩
    · refine (pairwise_zipIdx ls).imp fun hj x hx y hy => ?_
      obtain ⟨_, -, rfl⟩ := List.mem_map.mp hx
      obtain ⟨_, -, rfl⟩ := List.mem_map.mp hy
      exact .inr ⟨rfl, .inl hj⟩
  · refine (pairwise_zipIdx lss).imp fun hk x hx y hy => ?_
    obtain ⟨_, -, hx⟩ := List.mem_flatMap.mp hx
    obtain ⟨_, -, hy⟩ := List.mem_flatMap.mp hy
    obtain ⟨_, -, rfl⟩ := List.mem_map.mp hx
    obtain ⟨_, -, rfl⟩ := List.mem_map.mp hy
    exact .inl hk

/-- An element stands before and behind another one when it does so at some places. -/
theorem sublist_flatten_iff : [a, b, a].Sublist lss.flatten.flatten ↔
    ∃ p q r : Place, p.Before q ∧ q.Before r ∧
      at? lss p = some a ∧ at? lss q = some b ∧ at? lss r = some a := by
  rw [← map_placed]
  constructor
  · intro h
    obtain ⟨xs, hxs, hmap⟩ := List.sublist_map_iff.mp h
    match xs, hmap with
    | [(p, _), (q, _), (r, _)], hmap =>
      simp only [List.map_cons, List.map_nil, List.cons.injEq, and_true] at hmap
      obtain ⟨rfl, rfl, rfl⟩ := hmap
      have hordered := (pairwise_placed lss).sublist hxs
      have hmem := hxs.subset
      simp only [List.pairwise_cons, List.forall_mem_cons] at hordered
      exact ⟨p, q, r, hordered.1.1, hordered.2.1.1, mem_placed.mp (hmem (by simp)),
        mem_placed.mp (hmem (by simp)), mem_placed.mp (hmem (by simp))⟩
  · rintro ⟨p, q, r, hpq, hqr, hp, hq, hr⟩
    have hordered : [(p, a), (q, b), (r, a)].Pairwise fun x y => x.1.Before y.1 := by
      simp [hpq, hqr, hpq.trans hqr]
    have hnodup : [(p, a), (q, b), (r, a)].Nodup :=
      hordered.imp fun h heq => h.ne (congrArg Prod.fst heq)
    have hsubset : [(p, a), (q, b), (r, a)] ⊆ placed lss := by
      simp [mem_placed, hp, hq, hr]
    have : Std.Antisymm fun x y : Place × α => x.1.Before y.1 :=
      ⟨fun _ _ h h' => absurd h' h.asymm⟩
    have hsub := List.sublist_of_subperm_of_pairwise (List.subperm_of_subset hnodup hsubset)
      hordered (pairwise_placed lss)
    exact hsub.map Prod.snd

end Nested

/-! ### Sections of a file -/

namespace MachO

def Format.sectionSize (f : Format) : Nat :=
  if f.wide then 80 else 68

/-- The section of a number in a segment has a name of its own, behind that of the segment. -/
def Segment.Holds (s : Segment) (f : Format) (content : Bytes) (i : Nat) (name : String) : Prop :=
  ∃ header segment inner, i < s.sectionCount ∧
    content.window? (s.sectionStart + i * f.sectionSize) f.sectionSize = some header ∧
    nameOf? s.name = some segment ∧ nameOf? (header.take 16) = some inner ∧
    name = segment ++ "/" ++ inner

def Holds (content : Bytes) (j i : Nat) (name : String) : Prop :=
  ∃ t s, Thin.read? content = some t ∧ t.segments[j]? = some s ∧ s.Holds t.format content i name

/-- The slices of a file by their numbers. A thin file is its own only slice; the table of a
universal one says how many there are and where each of them begins and ends. -/
inductive IsSlice (b : Bytes) : Nat → Bytes → Prop
  | thin (h : b.take 4 ≠ [0xCA, 0xFE, 0xBA, 0xBE]) : IsSlice b 0 b
  | universal {k : Nat} {e content : Bytes} (h : b.take 4 = [0xCA, 0xFE, 0xBA, 0xBE])
      (hk : k < Bytes.natBE ((b.drop 4).take 4)) (he : b.window? (8 + 20 * k) 20 = some e)
      (hcontent : b.slice? (Bytes.natBE ((e.drop 8).take 4))
        (Bytes.natBE ((e.drop 8).take 4) + Bytes.natBE ((e.drop 12).take 4)) = some content) :
      IsSlice b k content

/-- A section of a name stands at a place in a file. -/
def Stands (b : Bytes) (p : Place) (name : String) : Prop :=
  ∃ content, IsSlice b p.slice content ∧ Holds content p.segment p.inner name

/-- The name of a section with that of its segment; a segment without sections has none. -/
def joined? (n : String × Option String) : Option String :=
  n.2.map fun inner => n.1 ++ "/" ++ inner

variable {b : Bytes}

theorem sectionNames?_getElem? {size count start : Nat} {ns : List String}
    (h : sectionNames? b size count start = some ns) (i : Nat) (n : String) :
    ns[i]? = some n ↔ i < count ∧ ∃ header,
      b.window? (start + i * size) size = some header ∧ nameOf? (header.take 16) = some n := by
  induction count generalizing start ns i with
  | zero =>
    cases h
    simp
  | succ count ih =>
    simp only [sectionNames?, Option.bind_eq_bind, Option.bind_eq_some_iff, Option.pure_def,
      Option.some.injEq] at h
    obtain ⟨header, hheader, name, hname, rest, hrest, rfl⟩ := h
    cases i with
    | zero => simp [hheader, hname]
    | succ i =>
      have hstart : start + (i + 1) * size = start + size + i * size := by ring
      rw [List.getElem?_cons_succ, ih hrest, hstart, Nat.add_lt_add_iff_right]

theorem Segment.names?_getElem? {s : Segment} {f : Format} {l : List (String × Option String)}
    (h : s.names? f b = some l) (i : Nat) (n : String) :
    (l.filterMap joined?)[i]? = some n ↔ s.Holds f b i n := by
  simp only [names?, Option.bind_eq_bind, Option.bind_eq_some_iff, Option.pure_def,
    Option.some.injEq] at h
  obtain ⟨segment, hsegment, ns, hns, rfl⟩ := h
  have hnames : (if ns.isEmpty then [(segment, none)]
      else ns.map fun n => (segment, some n)).filterMap joined? =
        ns.map fun inner => segment ++ "/" ++ inner := by
    cases ns with
    | nil => rfl
    | cons n ns => simp [joined?, List.filterMap_map, Function.comp_def, List.filterMap_eq_map']
  rw [hnames, List.getElem?_map, Option.map_eq_some_iff]
  simp only [sectionNames?_getElem? hns]
  constructor
  · rintro ⟨inner, ⟨hi, header, hheader, hinner⟩, rfl⟩
    exact ⟨header, segment, inner, hi, hheader, hsegment, hinner, rfl⟩
  · rintro ⟨header, segment', inner, hi, hheader, hsegment', hinner, rfl⟩
    obtain rfl := Option.some.inj (hsegment.symm.trans hsegment')
    exact ⟨inner, ⟨hi, header, hheader, hinner⟩, rfl⟩

/-- All computations of a list have a result. -/
theorem map_of_mapM {α β : Type} {f : α → Option β} {as : List α} {bs : List β}
    (h : as.mapM f = some bs) : as.map f = bs.map some := by
  induction as generalizing bs with
  | nil =>
    cases h
    rfl
  | cons a as ih =>
    simp only [List.mapM_cons, Option.bind_eq_bind, Option.bind_eq_some_iff, Option.pure_def,
      Option.some.injEq] at h
    obtain ⟨b, hb, bs, hbs, rfl⟩ := h
    rw [List.map_cons, List.map_cons, hb, ih hbs]

theorem getElem?_of_mapM {α β : Type} {f : α → Option β} {as : List α} {bs : List β}
    (h : as.mapM f = some bs) (j : Nat) : as[j]?.map f = bs[j]?.map some := by
  rw [← List.getElem?_map, ← List.getElem?_map, map_of_mapM h]

theorem Thin.names?_getElem? {t : Thin} {content : Bytes} {l : List (String × Option String)}
    (ht : Thin.read? content = some t) (h : t.names? content = some l) :
    ∃ ls : List (List String), l.filterMap joined? = ls.flatten ∧
      ∀ j i n, ls[j]?.bind (·[i]?) = some n ↔ Holds content j i n := by
  simp only [names?, Option.bind_eq_bind, Option.bind_eq_some_iff, Option.pure_def,
    Option.some.injEq] at h
  obtain ⟨parts, hparts, rfl⟩ := h
  refine ⟨parts.map (List.filterMap joined?), List.filterMap_flatten, fun j i n => ?_⟩
  have hj := getElem?_of_mapM hparts j
  rw [List.getElem?_map]
  cases hs : t.segments[j]? with
  | none =>
    rw [hs] at hj
    rw [Option.map_eq_none_iff.mp hj.symm]
    simp [Holds, ht, hs]
  | some s =>
    rw [hs] at hj
    obtain ⟨part, hpart, hnames⟩ := Option.map_eq_some_iff.mp hj.symm
    rw [hpart, Option.map_some, Option.bind_some, Segment.names?_getElem? hnames.symm]
    constructor
    · exact fun h => ⟨t, s, ht, hs, h⟩
    · rintro ⟨t', s', ht', hs', h⟩
      obtain rfl := Option.some.inj (ht.symm.trans ht')
      obtain rfl := Option.some.inj (hs.symm.trans hs')
      exact h

/-- What an entry of the table of a universal file says. -/
def Slice.ofEntry (e : Bytes) : Slice :=
  ⟨Bytes.natBE (e.take 4), Bytes.natBE ((e.drop 8).take 4), Bytes.natBE ((e.drop 12).take 4)⟩

theorem slices_getElem? {count start : Nat} (h : none ∉ slices b count start) (k : Nat)
    (s : Slice) : (slices b count start)[k]? = some (some s) ↔
      k < count ∧ ∃ e, b.window? (start + 20 * k) 20 = some e ∧ s = .ofEntry e := by
  induction count generalizing start k with
  | zero => simp [slices]
  | succ count ih =>
    rw [slices] at h ⊢
    cases he : b.window? start 20 with
    | none => simp [he] at h
    | some e =>
      simp only [he, List.mem_cons, reduceCtorEq, false_or] at h
      cases k with
      | zero => simp [he, Slice.ofEntry, eq_comm]
      | succ k =>
        have hstart : start + 20 * (k + 1) = start + 20 + 20 * k := by ring
        rw [hstart, Nat.add_lt_add_iff_right, ← ih h]
        rfl

theorem sliceNames?_at? {ss : List (Option Slice)} {l : List (String × Option String)}
    (h : sliceNames? b ss = some l) :
    none ∉ ss ∧ ∃ lss : List (List (List String)), l.filterMap joined? = lss.flatten.flatten ∧
      ∀ p n, at? lss p = some n ↔
        ∃ s, ss[p.slice]? = some (some s) ∧ Holds (s.bytes b) p.segment p.inner n := by
  induction ss generalizing l with
  | nil =>
    cases h
    exact ⟨List.not_mem_nil, [], rfl, by simp [at?]⟩
  | cons o ss ih =>
    cases o with
    | none => cases h
    | some s =>
      simp only [sliceNames?, Option.bind_eq_bind, Option.bind_eq_some_iff, Option.pure_def,
        Option.some.injEq] at h
      obtain ⟨t, ht, names, hnames, rest, hrest, rfl⟩ := h
      obtain ⟨ls, hls, hfirst⟩ := Thin.names?_getElem? ht hnames
      obtain ⟨hnone, lss, hlss, hothers⟩ := ih hrest
      refine ⟨by simp [hnone], ls :: lss, by simp [hls, hlss], fun p n => ?_⟩
      obtain ⟨k, j, i⟩ := p
      cases k with
      | zero => simpa [at?] using hfirst j i n
      | succ k => exact hothers ⟨k, j, i⟩ n

theorem not_holds_nil {j i : Nat} {n : String} : ¬Holds [] j i n := by
  rintro ⟨t, s, ht, -⟩
  cases ht

/-- The names that are found in a file stand at its places. -/
theorem names?_at? {l : List (String × Option String)} (h : names? b = some l) :
    ∃ lss : List (List (List String)), l.filterMap joined? = lss.flatten.flatten ∧
      ∀ p n, at? lss p = some n ↔ Stands b p n := by
  simp only [names?, Option.bind_eq_bind, Option.bind_eq_some_iff] at h
  obtain ⟨file, hfile, h⟩ := h
  rw [File.read?] at hfile
  split at hfile
  · next hmagic =>
    obtain ⟨header, hheader, rfl⟩ := Option.map_eq_some_iff.mp hfile
    obtain ⟨hnone, lss, hlss, hplaces⟩ := sliceNames?_at? h
    have hcount : header.drop 4 = (b.drop 4).take 4 := by
      rw [Bytes.eq_of_window? hheader, List.drop_zero, List.drop_take]
    rw [hcount] at hnone hplaces
    refine ⟨lss, hlss, fun ⟨k, j, i⟩ n => ?_⟩
    rw [hplaces]
    constructor
    · rintro ⟨s, hs, hholds⟩
      obtain ⟨hk, e, he, rfl⟩ := (slices_getElem? hnone k s).mp hs
      rw [Slice.bytes] at hholds
      cases hcontent : b.slice? (Slice.ofEntry e).offset
          ((Slice.ofEntry e).offset + (Slice.ofEntry e).size) with
      | none =>
        rw [hcontent] at hholds
        exact absurd hholds not_holds_nil
      | some content =>
        rw [hcontent] at hholds
        exact ⟨content, .universal hmagic hk he hcontent, hholds⟩
    · rintro ⟨content, hslice, hholds⟩
      cases hslice with
      | thin hthin => exact absurd hmagic hthin
      | @universal _ e _ _ hk he hcontent =>
        refine ⟨.ofEntry e, (slices_getElem? hnone _ _).mpr ⟨hk, e, he, rfl⟩, ?_⟩
        have hbytes : (Slice.ofEntry e).bytes b = content := by
          rw [Slice.bytes]
          exact congrArg (·.getD []) hcontent
        rwa [hbytes]
  · next hmagic =>
    obtain ⟨t, ht, rfl⟩ := Option.map_eq_some_iff.mp hfile
    obtain ⟨ls, hls, hplaces⟩ := Thin.names?_getElem? ht h
    refine ⟨[ls], by simp [hls], fun ⟨k, j, i⟩ n => ?_⟩
    constructor
    · intro hn
      cases k with
      | zero => exact ⟨b, .thin hmagic, (hplaces j i n).mp hn⟩
      | succ k => cases hn
    · rintro ⟨content, hslice, hholds⟩
      cases hslice with
      | thin => exact (hplaces j i n).mpr hholds
      | universal huniversal => exact absurd huniversal hmagic

end MachO

namespace Executable

open MachO (Stands)

/-- The listed names are those of the sections that stand somewhere in a slice, and two of them that
follow each other are different. No name is listed twice exactly when no section with another name
stands between two that bear it. -/
theorem listed_sections {b : Bytes} {names : List String} (h : resources? .machO b = some names) :
    (∀ n, n ∈ names ↔ ∃ p, Stands b p n) ∧ names.IsChain (· ≠ ·) ∧
    (names.Nodup ↔ ∀ p q r n m, p.Before q → q.Before r → Stands b p n → Stands b q m →
      Stands b r n → n = m) := by
  obtain ⟨found, hfound, hlist⟩ := Option.map_eq_some_iff.mp h
  obtain ⟨lss, hlss, hplaces⟩ := MachO.names?_at? hfound
  have hnames : names = withoutRepeats lss.flatten.flatten :=
    hlist.symm.trans (congrArg withoutRepeats hlss)
  refine ⟨?_, hnames ▸ isChain_withoutRepeats _, ?_⟩
  · intro n
    rw [hnames, mem_withoutRepeats, ← map_placed, List.mem_map]
    simp only [← hplaces, ← mem_placed, Prod.exists, exists_eq_right]
  · rw [hnames, nodup_withoutRepeats_iff]
    simp only [sublist_flatten_iff, hplaces]
    constructor
    · intro h p q r n m hpq hqr hp hq hr
      exact h n m ⟨p, q, r, hpq, hqr, hp, hq, hr⟩
    · intro h n m hplaced
      obtain ⟨p, q, r, hpq, hqr, hp, hq, hr⟩ := hplaced
      exact h p q r n m hpq hqr hp hq hr

def paddedName (s : String) : Bytes :=
  let b := Utf8.encode s
  b ++ List.replicate (16 - b.length) 0

/-- A thin file with two sections in its only segment. -/
def twoSections : Bytes :=
  [0xCE, 0xFA, 0xED, 0xFE, 7, 0, 0, 0, 3, 0, 0, 0, 2, 0, 0, 0, 1, 0, 0, 0, 192, 0, 0, 0, 0, 0, 0,
      0] ++
    ([1, 0, 0, 0, 192, 0, 0, 0] ++ paddedName "NODE_SEA" ++ List.replicate 24 0 ++
      [2, 0, 0, 0, 0, 0, 0, 0]) ++
    (paddedName "__a" ++ List.replicate 52 0) ++ (paddedName "__b" ++ List.replicate 52 0)

/-- A universal file with the same slice for two processors. -/
def twins : Bytes :=
  [0xCA, 0xFE, 0xBA, 0xBE, 0, 0, 0, 2,
    0, 0, 0, 7, 0, 0, 0, 3, 0, 0, 0, 48, 0, 0, 0, 220, 0, 0, 0, 0,
    0, 0, 0, 12, 0, 0, 0, 3, 0, 0, 1, 12, 0, 0, 0, 220, 0, 0, 0, 0] ++ twoSections ++ twoSections

/-- Both names of the slice are listed twice, since the second section of the one slice stands
between the first sections of both. -/
theorem listed_sections_twins :
    resources? .machO twins =
      some ["NODE_SEA/__a", "NODE_SEA/__b", "NODE_SEA/__a", "NODE_SEA/__b"] ∧
    (∃ p, Stands twins p "NODE_SEA/__b") ∧
    ∃ p q r n m, p.Before q ∧ q.Before r ∧ Stands twins p n ∧ Stands twins q m ∧
      Stands twins r n ∧ n ≠ m := by
  have hlisted : resources? .machO twins =
      some ["NODE_SEA/__a", "NODE_SEA/__b", "NODE_SEA/__a", "NODE_SEA/__b"] := by
    decide +kernel
  obtain ⟨hmem, -, hnodup⟩ := listed_sections hlisted
  refine ⟨hlisted, (hmem _).mp (by simp), ?_⟩
  have htwice : ¬["NODE_SEA/__a", "NODE_SEA/__b", "NODE_SEA/__a", "NODE_SEA/__b"].Nodup := by
    decide
  rw [hnodup] at htwice
  push Not at htwice
  exact htwice

end Executable

end SelfExtract
