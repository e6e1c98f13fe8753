import SelfExtract.Proofs.Metadata

/-!
# What is left of settings in their record

A record keeps of every text as many whole characters as fit, and of the
prompt's answer whether it is a yes. Reading gives just that back, so that two
settings have the same record when this is all the same, and what was read has
the record that it was read from.
-/
namespace SelfExtract

namespace Utf8

/-- The longest beginning of a text, in whole characters, that takes at most `limit` bytes. -/
structure IsCut (limit : Nat) (s t : String) : Prop where
  begins : t.toList <+: s.toList
  fits : (encode t).length ≤ limit
  longest : ∀ u : String, u.toList <+: s.toList → (encode u).length ≤ limit →
    u.toList <+: t.toList

/-- There is only one. -/
theorem IsCut.unique {limit : Nat} {s t t' : String} (h : IsCut limit s t)
    (h' : IsCut limit s t') : t = t' := by
  have hle := h'.longest t h.begins h.fits
  have hge := h.longest t' h'.begins h'.fits
  exact String.toList_inj.mp (hle.eq_of_length_le hge.length_le)

theorem fitting_prefix (limit : Nat) (cs : List Char) : fitting limit cs <+: cs := by
  induction cs generalizing limit with
  | nil => exact List.nil_prefix
  | cons c r ih =>
    rw [fitting]
    split
    · exact List.cons_prefix_cons.mpr ⟨rfl, ih _⟩
    · exact List.nil_prefix

/-- A beginning that fits is a beginning of what is kept. -/
theorem prefix_fitting {limit : Nat} {cs front : List Char} (hfront : front <+: cs)
    (hfit : (front.flatMap encodeChar).length ≤ limit) : front <+: fitting limit cs := by
  induction cs generalizing limit front with
  | nil => rw [List.prefix_nil.mp hfront]; exact List.nil_prefix
  | cons c r ih =>
    cases front with
    | nil => exact List.nil_prefix
    | cons d front =>
      obtain ⟨rfl, hrest⟩ := List.cons_prefix_cons.mp hfront
      rw [List.flatMap_cons, List.length_append, length_encodeChar] at hfit
      rw [fitting, if_pos (by omega)]
      exact List.cons_prefix_cons.mpr ⟨rfl, ih hrest (by omega)⟩

theorem isCut_truncate (limit : Nat) (s : String) : IsCut limit s (truncate limit s) where
  begins := by
    rw [truncate, String.toList_ofList]
    exact fitting_prefix limit s.toList
  fits := length_encode_truncate limit s
  longest u hu hfit := by
    rw [truncate, String.toList_ofList]
    exact prefix_fitting hu hfit

/-- A text that fits is kept as it is. -/
theorem truncate_of_fits {limit : Nat} {s : String} (h : (encode s).length ≤ limit) :
    truncate limit s = s :=
  (isCut_truncate limit s).unique ⟨List.prefix_refl _, h, fun _ hu _ => hu⟩

end Utf8

namespace Record

def keptTexts : List Field → List String → List String
  | f :: fs, t :: ts => Utf8.truncate f.limit t :: keptTexts fs ts
  | _, _ => []

/-- A text is read back from its field as far as it was kept, whatever follows. -/
theorem Field.decode?_encode {f : Field} (hf : f.limit < 256 ^ f.lengthWidth) (text : String)
    (rest : Bytes) : f.decode? (f.encode text ++ rest) = some (Utf8.truncate f.limit text) := by
  have hfit := Utf8.length_encode_truncate f.limit text
  have hlen : Bytes.natLE ((f.encode text ++ rest).take f.lengthWidth) =
      (Utf8.encode (Utf8.truncate f.limit text)).length := by
    rw [Field.encode, List.append_assoc, List.append_assoc,
      List.take_left' (Bytes.length_ofNatLE _ _), Bytes.natLE_ofNatLE,
      Nat.mod_eq_of_lt (Nat.lt_of_le_of_lt hfit hf)]
  have htext : ((f.encode text ++ rest).drop f.lengthWidth).take
      (Utf8.encode (Utf8.truncate f.limit text)).length =
        Utf8.encode (Utf8.truncate f.limit text) := by
    rw [Field.encode, List.append_assoc, List.append_assoc,
      List.drop_left' (Bytes.length_ofNatLE _ _), List.take_left' rfl]
  simp only [Field.decode?, hlen, htext]
  rw [if_neg (Nat.not_lt_of_le hfit), Utf8.decodeLossy_encode]

/-- What is kept of a text is written as the text is. -/
theorem Field.encode_truncate (f : Field) (text : String) :
    f.encode (Utf8.truncate f.limit text) = f.encode text := by
  rw [Field.encode, Utf8.truncate_of_fits (Utf8.length_encode_truncate f.limit text), Field.encode]

namespace Layout

theorem decodeFields?_encodeFields {fs : List Field} {ts : List String}
    (hfs : ∀ f ∈ fs, f.limit < 256 ^ f.lengthWidth) (hts : ts.length = fs.length) :
    decodeFields? fs (encodeFields fs ts) = some (keptTexts fs ts) := by
  induction fs generalizing ts with
  | nil => cases ts <;> rfl
  | cons f fs ih =>
    cases ts with
    | nil => cases hts
    | cons t ts =>
      have hrest := ih (fun g hg => hfs g (List.mem_cons_of_mem f hg)) (Nat.succ.inj hts)
      rw [encodeFields, decodeFields?, Field.decode?_encode (hfs f List.mem_cons_self),
        List.drop_left' (Field.length_encode f t), hrest]
      rfl

theorem encodeFields_keptTexts (fs : List Field) (ts : List String) :
    encodeFields fs (keptTexts fs ts) = encodeFields fs ts := by
  induction fs generalizing ts with
  | nil => cases ts <;> rfl
  | cons f fs ih =>
    cases ts with
    | nil => rfl
    | cons t ts => rw [keptTexts, encodeFields, encodeFields, Field.encode_truncate, ih]

theorem encode_keptTexts (l : Layout) (header : Bytes) (texts : List String) :
    l.encode header (keptTexts l.fields texts) = l.encode header texts := by
  rw [encode, encodeFields_keptTexts, encode]

/-- The numbers of a layout fit the bytes that they are written to. -/
structure Fits (l : Layout) : Prop where
  magic : l.magic < 256 ^ 4
  version : l.version < 256 ^ 2
  fields : ∀ f ∈ l.fields, f.limit < 256 ^ f.lengthWidth

/-- A record is read as it was written, with the texts as far as they were kept. -/
theorem decode?_encode {l : Layout} (hl : l.Fits) {header : Bytes} {texts : List String}
    (hh : header.length = l.headerSize) (ht : texts.length = l.fields.length) :
    l.decode? (l.encode header texts) = some (header, keptTexts l.fields texts) := by
  have hencode : l.encode header texts = Bytes.ofNatLE 4 l.magic ++
      (Bytes.ofNatLE 2 l.version ++ (header ++ encodeFields l.fields texts)) := by
    simp only [encode, List.append_assoc]
  have hmagic : (l.encode header texts).take 4 = Bytes.ofNatLE 4 l.magic := by
    rw [hencode, List.take_left' (Bytes.length_ofNatLE 4 _)]
  have hdrop : (l.encode header texts).drop 4 =
      Bytes.ofNatLE 2 l.version ++ (header ++ encodeFields l.fields texts) := by
    rw [hencode, List.drop_left' (Bytes.length_ofNatLE 4 _)]
  have hversion : ((l.encode header texts).drop 4).take 2 = Bytes.ofNatLE 2 l.version := by
    rw [hdrop, List.take_left' (Bytes.length_ofNatLE 2 _)]
  have hrest : (l.encode header texts).drop 6 = header ++ encodeFields l.fields texts := by
    rw [show 6 = 4 + 2 from rfl, ← List.drop_drop, hdrop,
      List.drop_left' (Bytes.length_ofNatLE 2 _)]
  have hfields : (l.encode header texts).drop (6 + l.headerSize) = encodeFields l.fields texts := by
    rw [← List.drop_drop, hrest, List.drop_left' hh]
  rw [decode?, if_pos, hfields, decodeFields?_encodeFields hl.fields ht, hrest, List.take_left' hh]
  · rfl
  · rw [hmagic, hversion, Bytes.natLE_ofNatLE, Bytes.natLE_ofNatLE, Nat.mod_eq_of_lt hl.magic,
      Nat.mod_eq_of_lt hl.version]
    exact ⟨length_encode l header texts hh ht, rfl, rfl⟩

end Layout

end Record

open Record

structure UpdateSettings.IsKept (u kept : UpdateSettings) : Prop where
  prompt : kept.prompt = u.prompt
  promptDefault : kept.promptDefault =
    if u.promptDefault = 'y' ∨ u.promptDefault = 'Y' then 'y' else 'n'
  interval : kept.interval = u.interval
  notifyInterval : kept.notifyInterval = u.notifyInterval
  binname : Utf8.IsCut 127 u.binname kept.binname
  command : Utf8.IsCut 254 u.command kept.command
  url : Utf8.IsCut 510 u.url kept.url
  tag : Utf8.IsCut 127 u.tag kept.tag
  skipEnv : Utf8.IsCut 63 u.skipEnv kept.skipEnv
  fakeArgvEnv : Utf8.IsCut 63 u.fakeArgvEnv kept.fakeArgvEnv

structure VfsSettings.IsKept (v kept : VfsSettings) : Prop where
  mode : Utf8.IsCut 32 v.mode kept.mode
  source : Utf8.IsCut 256 v.source kept.source
  mount : Utf8.IsCut 64 v.mount kept.mount

inductive Settings.IsKept : Settings → Settings → Prop
  | update {u kept : UpdateSettings} : u.IsKept kept → IsKept (.update u) (.update kept)
  | vfs {v kept : VfsSettings} : v.IsKept kept → IsKept (.vfs v) (.vfs kept)

namespace UpdateSettings

theorem fits_layout : layout.Fits :=
  ⟨by decide, by decide, by decide⟩

def kept (u : UpdateSettings) : UpdateSettings where
  prompt := u.prompt
  promptDefault := storedAnswer u.promptDefault
  interval := u.interval
  notifyInterval := u.notifyInterval
  binname := Utf8.truncate 127 u.binname
  command := Utf8.truncate 254 u.command
  url := Utf8.truncate 510 u.url
  tag := Utf8.truncate 127 u.tag
  skipEnv := Utf8.truncate 63 u.skipEnv
  fakeArgvEnv := Utf8.truncate 63 u.fakeArgvEnv

theorem isKept_kept (u : UpdateSettings) : u.IsKept u.kept :=
  ⟨rfl, rfl, rfl, rfl, Utf8.isCut_truncate .., Utf8.isCut_truncate .., Utf8.isCut_truncate ..,
    Utf8.isCut_truncate .., Utf8.isCut_truncate .., Utf8.isCut_truncate ..⟩

theorem IsKept.unique {u a b : UpdateSettings} (ha : u.IsKept a) (hb : u.IsKept b) : a = b := by
  cases a
  cases b
  simp only [mk.injEq]
  exact ⟨ha.prompt.trans hb.prompt.symm, ha.promptDefault.trans hb.promptDefault.symm,
    ha.interval.trans hb.interval.symm, ha.notifyInterval.trans hb.notifyInterval.symm,
    ha.binname.unique hb.binname, ha.command.unique hb.command, ha.url.unique hb.url,
    ha.tag.unique hb.tag, ha.skipEnv.unique hb.skipEnv, ha.fakeArgvEnv.unique hb.fakeArgvEnv⟩

theorem storedAnswer_cases (c : Char) : storedAnswer c = 'y' ∨ storedAnswer c = 'n' := by
  rw [storedAnswer]
  split
  · exact .inl rfl
  · exact .inr rfl

/-- An answer is read as it was stored. -/
theorem storedAnswer_ofNat (c : Char) :
    storedAnswer (Char.ofNat (Bytes.natLE [UInt8.ofNat (storedAnswer c).toNat])) =
      storedAnswer c := by
  rcases storedAnswer_cases c with h | h
  · rw [h]
    decide
  · rw [h]
    decide

/-- A number in two's complement is read as it was written. -/
theorem interval?_toUInt64 (n : Int64) (rest : Bytes) :
    interval? ((Bytes.ofNatLE 8 n.toUInt64.toNat ++ rest).take 8) = n := by
  rw [interval?, Metadata.word_append]
  rfl

theorem ofParts?_header (u : UpdateSettings) :
    ofParts? u.header (keptTexts layout.fields u.texts) = some u.kept := by
  have hprompt : (u.header.head? != some 0) = u.prompt := by
    rw [header]
    cases u.prompt <;> rfl
  have hanswer : (u.header.drop 1).take 1 = [UInt8.ofNat (storedAnswer u.promptDefault).toNat] :=
    rfl
  have hinterval : interval? ((u.header.drop 2).take 8) = u.interval :=
    interval?_toUInt64 u.interval (Bytes.ofNatLE 8 u.notifyInterval.toUInt64.toNat)
  have hnotify : interval? ((u.header.drop 10).take 8) = u.notifyInterval := by
    have h := interval?_toUInt64 u.notifyInterval []
    rw [List.append_nil] at h
    exact h
  simp only [texts, layout, keptTexts, ofParts?, hprompt, hanswer, hinterval, hnotify,
    storedAnswer_ofNat]
  rfl

/-- The header keeps of the answer what is kept of it. -/
theorem header_kept (u : UpdateSettings) : u.kept.header = u.header := by
  have hanswer : storedAnswer u.kept.promptDefault = storedAnswer u.promptDefault := by
    change storedAnswer (storedAnswer u.promptDefault) = _
    rcases storedAnswer_cases u.promptDefault with h | h
    · rw [h]
      decide
    · rw [h]
      decide
  rw [header, hanswer, header]
  rfl

theorem decode?_encode (u : UpdateSettings) : decode? u.encode = some u.kept := by
  have hheader : u.header.length = layout.headerSize := by
    simp [header, layout]
  rw [decode?, encode, Layout.decode?_encode fits_layout hheader rfl]
  exact u.ofParts?_header

theorem encode_kept (u : UpdateSettings) : u.kept.encode = u.encode := by
  have htexts : u.kept.texts = keptTexts layout.fields u.texts := rfl
  rw [encode, header_kept, htexts, Layout.encode_keptTexts, encode]

end UpdateSettings

namespace VfsSettings

theorem fits_layout : layout.Fits :=
  ⟨by decide, by decide, by decide⟩

def kept (v : VfsSettings) : VfsSettings where
  mode := Utf8.truncate 32 v.mode
  source := Utf8.truncate 256 v.source
  mount := Utf8.truncate 64 v.mount

theorem isKept_kept (v : VfsSettings) : v.IsKept v.kept :=
  ⟨Utf8.isCut_truncate .., Utf8.isCut_truncate .., Utf8.isCut_truncate ..⟩

theorem IsKept.unique {v a b : VfsSettings} (ha : v.IsKept a) (hb : v.IsKept b) : a = b := by
  cases a
  cases b
  simp only [mk.injEq]
  exact ⟨ha.mode.unique hb.mode, ha.source.unique hb.source, ha.mount.unique hb.mount⟩

theorem decode?_encode (v : VfsSettings) : decode? v.encode = some v.kept := by
  rw [decode?, encode, Layout.decode?_encode fits_layout rfl rfl]
  rfl

theorem encode_kept (v : VfsSettings) : v.kept.encode = v.encode := by
  have htexts : v.kept.texts = keptTexts layout.fields v.texts := rfl
  rw [encode, htexts, Layout.encode_keptTexts, encode]

end VfsSettings

namespace Settings

def kept : Settings → Settings
  | .update u => .update u.kept
  | .vfs v => .vfs v.kept

theorem isKept_kept (s : Settings) : s.IsKept s.kept := by
  cases s with
  | update u => exact .update u.isKept_kept
  | vfs v => exact .vfs v.isKept_kept

theorem IsKept.eq_kept {s a : Settings} (ha : s.IsKept a) : a = s.kept := by
  cases ha with
  | update ha => rw [ha.unique (UpdateSettings.isKept_kept _), kept]
  | vfs ha => rw [ha.unique (VfsSettings.isKept_kept _), kept]

theorem decode?_encode (s : Settings) : decode? s.kind s.encode = some s.kept := by
  cases s with
  | update u =>
    change (UpdateSettings.decode? u.encode).map update = _
    rw [u.decode?_encode]
    rfl
  | vfs v =>
    change (VfsSettings.decode? v.encode).map vfs = _
    rw [v.decode?_encode]
    rfl

theorem encode_kept (s : Settings) : s.kept.encode = s.encode := by
  cases s with
  | update u => exact u.encode_kept
  | vfs v => exact v.encode_kept

def Kind.recordSize : Kind → Nat
  | .update => 1176
  | .vfs => 366

theorem Kind.size_layout (k : Kind) : k.layout.size = k.recordSize := by
  cases k <;> rfl

theorem kind_eq_of_recordSize {k k' : Kind} (h : k.recordSize = k'.recordSize) : k = k' := by
  cases k with
  | update =>
    cases k' with
    | update => rfl
    | vfs => cases h
  | vfs =>
    cases k' with
    | update => cases h
    | vfs => rfl

/-- Records are equal when what is kept is. -/
theorem encode_eq_iff (s t : Settings) : s.encode = t.encode ↔ s.kept = t.kept := by
  constructor
  · intro h
    have hkind : s.kind = t.kind := by
      have hlen := congrArg List.length h
      rw [length_encode, length_encode, Kind.size_layout, Kind.size_layout] at hlen
      exact kind_eq_of_recordSize hlen
    have hs := s.decode?_encode
    rw [hkind, h, t.decode?_encode] at hs
    exact (Option.some.inj hs).symm
  · intro h
    rw [← s.encode_kept, h, t.encode_kept]

/-- The record of any settings has the size of its kind and is read as what is kept of them. What is
kept decides which record it is, and has the same record itself. -/
theorem record_keeps (s : Settings) :
    s.encode.length = s.kind.recordSize ∧
    ∃ c, s.IsKept c ∧ (∀ d, s.IsKept d → d = c) ∧ decode? s.kind s.encode = some c ∧
      (∀ t d : Settings, t.IsKept d → (s.encode = t.encode ↔ c = d)) ∧
      c.encode = s.encode ∧ decode? c.kind c.encode = some c := by
  have hkind : s.kept.kind = s.kind := by
    cases s <;> rfl
  refine ⟨by rw [length_encode, Kind.size_layout], s.kept, s.isKept_kept,
    fun d hd => hd.eq_kept, s.decode?_encode, fun t d hd => ?_, s.encode_kept, ?_⟩
  · rw [encode_eq_iff, hd.eq_kept]
  · rw [hkind, s.encode_kept, s.decode?_encode]

end Settings

end SelfExtract
