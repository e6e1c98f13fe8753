import SelfExtract.Build.Own
import SelfExtract.Command.Process
import SelfExtract.Proofs.AtomicReplacement
import SelfExtract.Proofs.Restoring

/-!
# What commands do to files

A command reads whatever it needs before it writes, and it writes one file at
most. So the file system is as before whenever a command fails, be it over its
arguments, its input or any step of the write, and a command that succeeds has
put the complete new file in its place.
-/
namespace SelfExtract

open FileSystem Proc

variable {α β ε ε' : Type} {sure : Call → Prop} {fs fs' : FileSystem} {p : Path} {pid : Nat}

namespace Proc

/-- A process that changes nothing, whatever call of it fails. What it gives when it does not fail
is good. -/
def Reads (fs : FileSystem) (good : α → Prop) (x : Proc (Except ε α)) : Prop :=
  ∀ sure, Upholds sure (· = fs) (Attempt (fun a fs' => fs' = fs ∧ good a) (· = fs)) x fs

namespace Reads

variable {good : α → Prop}

theorem error (e : ε) : Reads fs good (pure (.error e)) :=
  fun _ => .pure rfl (.error rfl)

theorem ok {a : α} (h : good a) : Reads fs good (pure (.ok a) : Proc (Except ε α)) :=
  fun _ => .pure rfl (.ok ⟨rfl, h⟩)

theorem result {r : Except ε α} (h : ∀ a, r = .ok a → good a) : Reads fs good (pure r) := by
  cases r with
  | error e => exact .error e
  | ok a => exact .ok (h a rfl)

/-- A process that may change something follows one that does not. -/
theorem attempt {through : FileSystem → Prop} {post : β → FileSystem → Prop}
    {x : Proc (Except ε α)} {f : Except ε α → Proc β} (h : Reads fs good x) (hnow : through fs)
    (herror : ∀ e, Upholds sure through post (f (.error e)) fs)
    (hok : ∀ a, good a → Upholds sure through post (f (.ok a)) fs) :
    Upholds sure through post (x >>= f) fs := by
  refine ((h sure).weaken_through fun fs₁ hsame => hsame ▸ hnow).attempt ?_ ?_
  · rintro e fs₁ - rfl
    exact herror e
  · rintro a fs₁ - ⟨rfl, ha⟩
    exact hok a ha

theorem bind {better : β → Prop} {x : Proc (Except ε α)} {f : Except ε α → Proc (Except ε' β)}
    (h : Reads fs good x) (herror : ∀ e, Reads fs better (f (.error e)))
    (hok : ∀ a, good a → Reads fs better (f (.ok a))) : Reads fs better (x >>= f) :=
  fun sure => h.attempt rfl (fun e => herror e sure) fun a ha => hok a ha sure

end Reads

theorem reads_read (fs : FileSystem) (p : Path) :
    Reads fs (fun data => fs.read p = .ok data) (call (.read p)) := by
  intro sure
  have hdone : Attempt (fun data fs' => fs' = fs ∧ fs.read p = .ok data) (· = fs)
      (fs.read p) fs := by
    cases fs.read p with
    | error e => exact .error rfl
    | ok data => exact .ok ⟨rfl, rfl⟩
  exact .look (c := .read p) rfl rfl rfl hdone fun e => .error rfl

theorem reads_load (fs : FileSystem) (p : Path) : Reads fs
    (fun c => ∃ text, fs.read p = .ok text ∧ SeaConfig.parse text = .ok c) (SeaConfig.load p) := by
  rw [SeaConfig.load]
  refine (reads_read fs p).bind ?_ ?_
  · exact fun e => .error _
  · intro text htext
    by_cases hdecoded : (Utf8.decode? text).isNone
    · simp only [hdecoded, if_true]
      exact .error _
    · simp only [hdecoded]
      exact .result fun c hc => ⟨text, htext, mapError_eq_ok.mp hc⟩

end Proc

namespace Build

variable (b : Build)

/-- What the program itself may run on. A look-up that fails finds no loader. -/
inductive Hosts (fs : FileSystem) : Target → Prop
  | musl : b.os = .linux →
      (b.musl = true ∨ ∃ p ∈ muslLoaders, fs.isFile p = true ∨ fs.isDirectory p = true) →
      Hosts fs (.make b.os b.arch .musl)
  | glibc : b.os = .linux → b.musl = false → Hosts fs (.make b.os b.arch .glibc)
  | other : b.os ≠ .linux → Hosts fs (.make b.os b.arch .absent)

theorem upholds_findsAny (fs : FileSystem) (paths : List Path) : Upholds sure (· = fs)
    (fun found fs' => fs' = fs ∧
      (found = true → ∃ p ∈ paths, fs.isFile p = true ∨ fs.isDirectory p = true))
    (findsAny paths) fs := by
  induction paths with
  | nil => exact .pure rfl ⟨rfl, nofun⟩
  | cons p rest ih =>
    have hfile : Upholds sure (· = fs) (fun r fs' => fs' = fs ∧ (r = true → fs.isFile p = true))
        (call (.isFile p)) fs :=
      .look (c := .isFile p) rfl rfl rfl ⟨rfl, id⟩ fun e => ⟨rfl, nofun⟩
    have hdirectory : Upholds sure (· = fs)
        (fun r fs' => fs' = fs ∧ (r = true → fs.isDirectory p = true))
        (call (.isDirectory p)) fs :=
      .look (c := .isDirectory p) rfl rfl rfl ⟨rfl, id⟩ fun e => ⟨rfl, nofun⟩
    rw [findsAny]
    refine hfile.bind ?_
    rintro found fs₁ - ⟨rfl, hfound⟩
    cases found with
    | true => exact .pure rfl ⟨rfl, fun _ => ⟨p, List.mem_cons_self, .inl (hfound rfl)⟩⟩
    | false =>
      refine hdirectory.bind ?_
      rintro found fs₂ - ⟨rfl, hfound⟩
      cases found with
      | true => exact .pure rfl ⟨rfl, fun _ => ⟨p, List.mem_cons_self, .inr (hfound rfl)⟩⟩
      | false =>
        refine ih.weaken_post fun found fs₃ hrest => ⟨hrest.1, fun h => ?_⟩
        obtain ⟨q, hq, hthere⟩ := hrest.2 h
        exact ⟨q, List.mem_cons_of_mem p hq, hthere⟩

theorem upholds_hostLibc (fs : FileSystem) : Upholds sure (· = fs)
    (fun libc fs' => fs' = fs ∧ (libc = .musl ∧
      (b.musl = true ∨ ∃ p ∈ muslLoaders, fs.isFile p = true ∨ fs.isDirectory p = true) ∨
      libc = .glibc ∧ b.musl = false)) b.hostLibc fs := by
  rw [hostLibc]
  cases b.musl with
  | true => exact .pure rfl ⟨rfl, .inl ⟨rfl, .inl rfl⟩⟩
  | false =>
    refine (upholds_findsAny fs muslLoaders).bind ?_
    rintro found fs₁ - ⟨rfl, hfound⟩
    cases found with
    | true => exact .pure rfl ⟨rfl, .inl ⟨rfl, .inr (hfound rfl)⟩⟩
    | false => exact .pure rfl ⟨rfl, .inr ⟨rfl, rfl⟩⟩

theorem upholds_host (fs : FileSystem) :
    Upholds sure (· = fs) (fun t fs' => fs' = fs ∧ b.Hosts fs t) b.host fs := by
  rw [host]
  by_cases hos : b.os = .linux
  · rw [if_pos hos]
    refine (b.upholds_hostLibc fs).bind ?_
    rintro libc fs₁ - ⟨rfl, ⟨rfl, hmusl⟩ | ⟨rfl, hglibc⟩⟩
    · exact .pure rfl ⟨rfl, .musl hos hmusl⟩
    · exact .pure rfl ⟨rfl, .glibc hos hglibc⟩
  · rw [if_neg hos]
    exact .pure rfl ⟨rfl, .other hos⟩

inductive TargetOf (fs : FileSystem) (executable : Bytes) : Target → Prop
  | detected {t : Target} : Target.detect? executable = some t → TargetOf fs executable t
  | host {t : Target} : Target.detect? executable = none → b.Hosts fs t → TargetOf fs executable t

theorem upholds_targetOf (fs : FileSystem) (executable : Bytes) :
    Upholds sure (· = fs) (fun t fs' => fs' = fs ∧ b.TargetOf fs executable t)
      (b.targetOf executable) fs := by
  rw [targetOf]
  cases hdetect : Target.detect? executable with
  | some t => exact .pure rfl ⟨rfl, .detected hdetect⟩
  | none =>
    exact (b.upholds_host fs).weaken_post fun t fs' h => ⟨h.1, .host hdetect h.2⟩

end Build

namespace PressOptions

variable (b : Build) (o : PressOptions)

inductive Configured (fs : FileSystem) : Option Settings → Prop
  | absent : o.config = none → Configured fs none
  | present {p : Path} {text : Bytes} {c : SeaConfig} {v : Option VfsSettings}
      {u : Option UpdateSettings} :
      o.config = some p → fs.read p = .ok text → SeaConfig.parse text = .ok c →
      c.vfsSettings = .ok v → c.updateSettings = .ok u → Configured fs (u.map .update)

inductive Targeted (fs : FileSystem) : Option Target → Prop
  | own : o.os = none → o.arch = none → o.libc = none → Targeted fs none
  | given {carrier : Bytes} {base : Target} : fs.read o.carrier = .ok carrier →
      b.TargetOf fs carrier base →
      Targeted fs (some (.make (o.os.getD base.os) (o.arch.getD base.arch) (o.libc.getD base.libc)))

theorem reads_settings : Reads fs (o.Configured fs) o.settings := by
  rw [settings]
  cases hconfig : o.config with
  | none => exact Reads.ok (.absent hconfig)
  | some p =>
    refine (reads_load fs p).bind ?_ ?_
    · exact fun e => .error _
    · rintro c ⟨text, htext, hc⟩
      refine .result fun s hs => ?_
      obtain ⟨_, hdiscard, hs⟩ := bind_eq_ok.mp (mapError_eq_ok.mp hs)
      obtain ⟨u, hu, hs⟩ := bind_eq_ok.mp hs
      cases hs
      cases hv : c.vfsSettings with
      | error e =>
        rw [hv] at hdiscard
        cases hdiscard
      | ok v => exact .present hconfig htext hc hv hu

theorem reads_target : Reads fs (o.Targeted b fs) (o.target b) := by
  rw [target]
  by_cases hown : o.os.isNone && o.arch.isNone && o.libc.isNone
  · rw [if_pos hown]
    simp only [Bool.and_eq_true, Option.isNone_iff_eq_none] at hown
    exact Reads.ok (.own hown.1.1 hown.1.2 hown.2)
  · rw [if_neg hown]
    refine (reads_read fs o.carrier).bind ?_ ?_
    · exact fun e => .error _
    · intro carrier hread sure
      refine (b.upholds_targetOf fs carrier).bind ?_
      rintro base fs₁ - ⟨rfl, hbase⟩
      exact Reads.ok (.given hread hbase) sure

theorem upholds_missingFile : Upholds sure (fun _ => True)
    (fun r fs' => fs' = fs ∧
      (r = none → fs.isFile o.program = true ∧ fs.isFile o.carrier = true)) o.missingFile fs := by
  have hlook : ∀ p, Upholds sure (fun _ => True)
      (fun r fs' => fs' = fs ∧ (r = true → fs.isFile p = true)) (call (.isFile p)) fs := fun p =>
    .look (c := .isFile p) rfl rfl trivial ⟨rfl, id⟩ fun e => ⟨rfl, nofun⟩
  rw [missingFile]
  refine (hlook o.program).bind ?_
  rintro program fs₁ - ⟨rfl, hprogram⟩
  cases program with
  | false => exact .pure trivial ⟨rfl, nofun⟩
  | true =>
    refine (hlook o.carrier).bind ?_
    rintro carrier fs₂ - ⟨rfl, hcarrier⟩
    cases carrier with
    | false => exact .pure trivial ⟨rfl, nofun⟩
    | true => exact .pure trivial ⟨rfl, fun _ => ⟨hprogram rfl, hcarrier rfl⟩⟩

end PressOptions

namespace Command

def output? : Command → Option Path
  | .press o => some o.output
  | .unpress _ output => some output
  | .record _ _ output => some output
  | .inspect .. | .cacheDirectory | .cacheEntry _ => none

def outputMode : Command → Nat
  | .record .. => 0o644
  | _ => 0o755

/-- The content that a command is to write, by what it finds in the file system. -/
inductive Produces (b : Build) (fs : FileSystem) : Command → Bytes → Prop
  | press {o : PressOptions} {settings : Option Settings} {target : Option Target}
      {carrier program image : Bytes} {summary : Carrier.Summary} :
      fs.isFile o.program = true → fs.isFile o.carrier = true → o.Configured fs settings →
      o.Targeted b fs target → fs.read o.carrier = .ok carrier → fs.read o.program = .ok program →
      Carrier.pack ⟨.framed b.compression o.level, target, settings⟩ carrier program =
        .ok (image, summary) →
      Produces b fs (.press o) image
  | unpress {file output : Path} {data program : Bytes} :
      fs.read file = .ok data →
      Carrier.programIn (.standard b.compression) file data = .ok program →
      Produces b fs (.unpress file output) program
  | record {kind : Settings.Kind} {config output : Path} {text record : Bytes} {c : SeaConfig} :
      fs.read config = .ok text → SeaConfig.parse text = .ok c → c.record kind = .ok record →
      Produces b fs (.record kind config output) record

/-- The only call of a command that is sure not to fail: the removal of its own temporary file. -/
def Removes (pid : Nat) (c : Command) (call : Call) : Prop :=
  ∃ output, c.output? = some output ∧ call = .unlink (temporary pid output)

inductive Concludes (b : Build) (fs : FileSystem) (c : Command) : Outcome → FileSystem → Prop
  | failed {printed : List String} {fault : CommandFault} :
      Concludes b fs c (.failure printed fault) fs
  | shown {printed : List String} : c.output? = none → Concludes b fs c (.success printed) fs
  | written {printed : List String} {output : Path} {l : Location} {bytes : Bytes}
      {fs' : FileSystem} : c.output? = some output → c.Produces b fs bytes →
      fs.Replaced fs' output l c.outputMode bytes → Concludes b fs c (.success printed) fs'

theorem unchanged {good : α → FileSystem → Prop} {e : ε} :
    Upholds sure (fun _ => True) (Attempt good (· = fs)) (pure (.error e)) fs :=
  .pure trivial (.error rfl)

theorem Concludes.fail {b : Build} {c : Command} {printed : List String} (e : CommandFault) :
    Upholds sure (fun _ => True) (Concludes b fs c) (pure (.failure printed e)) fs :=
  .pure trivial .failed

section Writes

variable {output : Path} (hfree : fs.Absent (temporary pid output))
  (hsure : sure (.unlink (temporary pid output)))
include hfree hsure

/-- The last step of a command that writes a file. -/
theorem upholds_written {mode : Nat} {data : Bytes} {post : β → FileSystem → Prop}
    {f : Except IoError Unit → Proc β}
    (herror : ∀ e, Upholds sure (fun _ => True) post (f (.error e)) fs)
    (hok : ∀ l fs', fs.Replaced fs' output l (permissions mode) data →
      Upholds sure (fun _ => True) post (f (.ok ())) fs') :
    Upholds sure (fun _ => True) post (writeAtomically pid output mode data >>= f) fs := by
  have hwrite := (upholds_writeAtomically mode data hfree hsure).weaken_through fun _ _ => trivial
  refine hwrite.attempt ?_ ?_
  · rintro e fs₁ - rfl
    exact herror e
  · rintro - fs₁ - ⟨l, hreplaced⟩
    exact hok l fs₁ hreplaced

theorem upholds_packFile (how : Carrier.Packing) (carrier program : Path) :
    Upholds sure (fun _ => True)
      (Attempt (fun _ fs' => ∃ c p image summary l, fs.read carrier = .ok c ∧
        fs.read program = .ok p ∧ Carrier.pack how c p = .ok (image, summary) ∧
        fs.Replaced fs' output l 0o755 image) (· = fs))
      (Carrier.packFile pid how (some carrier) program output) fs := by
  rw [Carrier.packFile]
  refine (reads_read fs carrier).attempt trivial (fun _ => unchanged) fun c hc => ?_
  refine (reads_read fs program).attempt trivial (fun _ => unchanged) fun p hp => ?_
  simp only []
  cases hpack : Carrier.pack how c p with
  | error e => exact unchanged
  | ok r =>
    refine upholds_written hfree hsure (fun _ => unchanged) fun l fs' hl => ?_
    exact .pure trivial (.ok ⟨c, p, r.1, r.2, l, hc, hp, hpack, hl⟩)

theorem upholds_restoreWith (codec : Codec) (file : Path) :
    Upholds sure (fun _ => True)
      (Attempt (fun _ fs' => ∃ data program l, fs.read file = .ok data ∧
        Carrier.programIn codec file data = .ok program ∧
        fs.Replaced fs' output l 0o755 program) (· = fs))
      (Carrier.restoreWith codec pid file output) fs := by
  rw [Carrier.restoreWith]
  refine (reads_read fs file).attempt trivial (fun _ => unchanged) fun d hd => ?_
  simp only []
  cases hprogram : Carrier.programIn codec file d with
  | error e => exact unchanged
  | ok program =>
    refine upholds_written hfree hsure (fun _ => unchanged) fun l fs' hl => ?_
    exact .pure trivial (.ok ⟨d, program, l, hd, hprogram, hl⟩)

theorem upholds_writeRecord (kind : Settings.Kind) (config : Path) :
    Upholds sure (fun _ => True)
      (Attempt (fun _ fs' => ∃ text c record l, fs.read config = .ok text ∧
        SeaConfig.parse text = .ok c ∧ c.record kind = .ok record ∧
        fs.Replaced fs' output l 0o644 record) (· = fs))
      (SeaConfig.writeRecord pid kind config output) fs := by
  rw [SeaConfig.writeRecord]
  refine (reads_load fs config).attempt trivial (fun _ => unchanged) ?_
  rintro c ⟨text, htext, hc⟩
  simp only []
  cases hrecord : c.record kind with
  | error e => exact unchanged
  | ok record =>
    refine upholds_written hfree hsure (fun _ => unchanged) fun l fs' hl => ?_
    exact .pure trivial (.ok ⟨text, c, record, l, htext, hc, hrecord, hl⟩)

end Writes

section Asks

theorem upholds_ofFile (file : Path) (settings : Settings.Kind) :
    Upholds sure (fun _ => True) (fun _ fs' => fs' = fs) (Report.ofFile file settings) fs := by
  rw [Report.ofFile]
  refine (reads_read fs file).attempt trivial (fun e => ?_) fun data _ => .pure trivial rfl
  cases e <;> exact .pure trivial rfl

theorem upholds_sidecarOf (c : Cache) (key : String) :
    Upholds sure (fun _ => True) (fun _ fs' => fs' = fs) (c.sidecarOf key) fs := by
  have hread : Upholds sure (fun _ => True) (fun _ fs' => fs' = fs) (c.readSidecar key) fs := by
    rw [Cache.readSidecar]
    refine (reads_read fs _).attempt trivial (fun e => ?_) fun text _ => ?_
    · cases e <;> exact .pure trivial rfl
    · simp only []
      cases Sidecar.parse? text <;> exact .pure trivial rfl
  rw [Cache.sidecarOf]
  refine hread.bind ?_
  rintro r fs₁ - rfl
  rcases r with e | _ | s <;> exact .pure trivial rfl

theorem upholds_lookup (c : Cache) (key : String) (size : UInt64) :
    Upholds sure (fun _ => True) (fun _ fs' => fs' = fs) (c.lookup key size) fs := by
  have hstatus : Upholds sure (fun _ => True) (fun _ fs' => fs' = fs)
      (call (.status (c.binary key))) fs :=
    .look (c := .status (c.binary key)) rfl rfl trivial rfl fun e => rfl
  rw [Cache.lookup]
  refine hstatus.bind ?_
  rintro r fs₁ - rfl
  cases r <;> exact .pure trivial rfl

end Asks

theorem upholds_process (b : Build) (pid : Nat) (e : Environment) (c : Command)
    (hfree : ∀ output, c.output? = some output → fs.Absent (temporary pid output)) :
    Upholds (c.Removes pid) (fun _ => True) (Concludes b fs c) (c.process b pid e) fs := by
  cases c with
  | press o =>
    rw [process, PressOptions.process]
    refine o.upholds_missingFile.bind ?_
    rintro r fs₁ - ⟨rfl, hfiles⟩
    cases r with
    | some p => exact Concludes.fail _
    | none =>
      obtain ⟨hprogram, hcarrier⟩ := hfiles rfl
      refine o.reads_settings.attempt trivial (fun e => Concludes.fail e) fun settings hs => ?_
      refine (o.reads_target b).attempt trivial (fun e => Concludes.fail e) fun target ht => ?_
      refine (upholds_packFile (hfree o.output rfl) ⟨o.output, rfl, rfl⟩
        ⟨.framed b.compression o.level, target, settings⟩ o.carrier o.program).attempt ?_ ?_
      · rintro e fs₂ - rfl
        exact Concludes.fail _
      · rintro summary fs₂ - ⟨c, p, image, summary', l, hc, hp, hpack, hl⟩
        exact .pure trivial (.written rfl (.press hprogram hcarrier hs ht hc hp hpack) hl)
  | inspect file settings json =>
    rw [process]
    refine (upholds_ofFile file settings).bind ?_
    rintro r fs₁ - rfl
    cases r with
    | error e => exact Concludes.fail e
    | ok report => exact .pure trivial (.shown rfl)
  | unpress file output =>
    rw [process]
    refine (upholds_restoreWith (hfree output rfl) ⟨output, rfl, rfl⟩ (.standard b.compression)
      file).attempt ?_ ?_
    · rintro e fs₁ - rfl
      exact Concludes.fail e
    · rintro n fs₁ - ⟨data, program, l, hdata, hprogram, hl⟩
      exact .pure trivial (.written rfl (.unpress hdata hprogram) hl)
  | record kind config output =>
    rw [process]
    refine (upholds_writeRecord (hfree output rfl) ⟨output, rfl, rfl⟩ kind config).attempt ?_ ?_
    · rintro e fs₁ - rfl
      exact Concludes.fail e
    · rintro n fs₁ - ⟨text, c, record, l, htext, hc, hrecord, hl⟩
      exact .pure trivial (.written rfl (.record htext hc hrecord) hl)
  | cacheDirectory => exact .pure trivial (.shown rfl)
  | cacheEntry key =>
    rw [process, Cache.showEntry]
    refine (upholds_sidecarOf _ key).bind ?_
    rintro r fs₁ - rfl
    cases r with
    | error e => exact Concludes.fail e
    | ok s =>
      refine (upholds_lookup _ key s.size).bind ?_
      rintro found fs₂ - rfl
      exact .pure trivial (.shown rfl)

/-- A command does all that it is asked for or nothing at all, whichever of its calls fail, as long
as it can remove its own temporary file and no other one of that name was there. A command that
fails leaves the file system as it was, and so does one that writes no file. One that succeeds has
put the content that it is to write where its output path leads without following a last link, and
has changed nothing else. The path then leads to the new file, unless it goes through the link that
was replaced. -/
theorem process_all_or_nothing (b : Build) (pid : Nat) (e : Environment) (c : Command) {o : Outcome}
    (hfree : ∀ output, c.output? = some output → fs.Absent (temporary pid output))
    (h : (c.process b pid e).SureEnds (c.Removes pid) fs o fs') :
    (∀ fault, o.result = .error fault → fs' = fs) ∧
    (c.output? = none → fs' = fs) ∧
    ∀ output, c.output? = some output → o.result = .ok () → ∃ bytes l,
      c.Produces b fs bytes ∧ fs.Replaced fs' output l c.outputMode bytes ∧
      (∀ m, fs'.node? m = if m = l then some (.file c.outputMode bytes) else fs.node? m) ∧
      ((∀ target, fs.node? l = some (.link target) →
          (fs.erase l).resolve false output = .ok ⟨l, none, true⟩) →
        ∀ follow, fs'.resolve follow output = .ok ⟨l, some (.file c.outputMode bytes), true⟩) := by
  cases (upholds_process b pid e c hfree).ends h with
  | failed => exact ⟨fun _ _ => rfl, fun _ => rfl, fun _ _ hok => by cases hok⟩
  | shown hnone =>
    refine ⟨fun _ _ => rfl, fun _ => rfl, fun output hsome => ?_⟩
    rw [hnone] at hsome
    cases hsome
  | @written _ output l bytes _ houtput hproduces hreplaced =>
    refine ⟨fun _ herror => (by cases herror), fun hnone => ?_, fun output' hsome _ => ?_⟩
    · rw [hnone] at houtput
      cases houtput
    · obtain rfl : output = output' := Option.some.inj (houtput.symm.trans hsome)
      exact ⟨bytes, l, hproduces, hreplaced, hreplaced.node, hreplaced.found⟩

/-- A pressed file, and a link to it under the name of the output. -/
def linkedStub : FileSystem where
  nodes := [([Path.ofString "out"], .link (Path.ofString "stub")),
    ([Path.ofString "stub"], .file 0o755 Extract.framedStub)]
  current := []

theorem read_linkedStub : linkedStub.read (Path.ofString "/stub") = .ok Extract.framedStub := by
  unfold linkedStub
  generalize Extract.framedStub = image
  cbv

theorem writable_linkedStub :
    linkedStub.Writable 9 (Path.ofString "/out") [] (Path.ofString "out") := by
  have hway : linkedStub.Way true [] [] := ⟨nofun, ⟨_, .here⟩, linkedStub.node?_root⟩
  have hfile : Path.FileName (Path.ofString "out") :=
    ⟨by decide, by decide, by decide, by decide, by decide⟩
  have hfree : linkedStub.node? [temporary 9 (Path.ofString "out")] = none := by decide
  refine ⟨hway.names hfile (by decide) (by decide),
    hway.names (fileName_temporary 9 hfile) (by decide) (by decide), ?_, by decide⟩
  exact hfree ▸ free_none

/-- The link is replaced by the restored program, and the file that it leads to stays. -/
theorem process_all_or_nothing_linked_output :
    let c := Command.unpress (Path.ofString "/stub") (Path.ofString "/out")
    linkedStub.Absent (temporary 9 (Path.ofString "/out")) ∧
    ∃ o fs', (c.process .own 9 []).SureEnds (c.Removes 9) linkedStub o fs' ∧
      o.result = .ok () ∧ fs'.node? [Path.ofString "out"] = some (.file 0o755 [1, 2]) ∧
      fs'.node? [Path.ofString "stub"] = some (.file 0o755 Extract.framedStub) := by
  intro c
  have hout := writable_linkedStub
  have habsent : linkedStub.Absent (temporary 9 (Path.ofString "/out")) := by
    intro f hf
    rw [hout.draft.resolve fun _ _ => rfl] at hf
    cases hf
    decide
  refine ⟨habsent, ?_⟩
  have hrestore := Extract.run_restoreWith (.standard Zstandard.own) 9 (Path.ofString "/out")
    read_linkedStub
  obtain ⟨fs₁, fs₂, -, -, hwrite⟩ := Proc.run_writeAtomically Carrier.programMode [1, 2] hout
  rw [Extract.programIn_framedStub] at hrestore
  simp only [hwrite] at hrestore
  have hends := sureEnds_run (c.Removes 9) (c.process .own 9 []) linkedStub
  rw [process, run_bind, show Build.own.compression = Zstandard.own from rfl, hrestore] at hends
  obtain ⟨-, -, hwritten⟩ :=
    process_all_or_nothing .own 9 [] c (fun _ h => Option.some.inj h ▸ habsent) hends
  obtain ⟨bytes, l, hproduces, hreplaced, hnode, -⟩ := hwritten _ rfl rfl
  obtain rfl : l = [Path.ofString "out"] := by
    have hnamed := hreplaced.named
    rw [hout.target.resolve fun _ _ => rfl] at hnamed
    exact (congrArg Found.location (Except.ok.inj hnamed)).symm
  obtain rfl : bytes = [1, 2] := by
    change Produces .own linkedStub (.unpress (Path.ofString "/stub") (Path.ofString "/out")) bytes
      at hproduces
    cases hproduces with
    | unpress hread hprogram =>
      rw [read_linkedStub] at hread
      obtain rfl := Except.ok.inj hread
      exact (Except.ok.inj (Extract.programIn_framedStub.symm.trans hprogram)).symm
  refine ⟨_, _, hends, rfl, ?_, ?_⟩
  · rw [hnode, if_pos rfl]
    rfl
  · rw [hnode, if_neg (by decide)]
    unfold linkedStub
    generalize Extract.framedStub = image
    rfl

/-- The text of a config file with the section for file systems switched on. -/
def switchedOn : Bytes :=
  Utf8.encode "\x7b\"smol\":\x7b\"vfs\":true\x7d\x7d"

def linkedOutput : FileSystem where
  nodes := [([Path.ofString "c"], .file 0o644 switchedOn), ([Path.ofString "d"], .directory),
    ([Path.ofString "l"], .link (Path.ofString "d"))]
  current := []

theorem run_load_linkedOutput : (SeaConfig.load (Path.ofString "c")).run linkedOutput =
    (.ok ⟨none, some (.enabled true)⟩, linkedOutput) := by
  have hread : linkedOutput.read (Path.ofString "c") = .ok switchedOn := by
    unfold linkedOutput
    generalize switchedOn = text
    cbv
  have htext : (Utf8.decode? switchedOn).isNone = false := by decide +kernel
  have hparse : SeaConfig.parse switchedOn = .ok ⟨none, some (.enabled true)⟩ := by
    decide +kernel
  rw [SeaConfig.load, run_bind, run_call, perform, hread]
  simp only [htext, hparse]
  rfl

/-- A command may succeed and its output path lead nowhere, when it passes the link that is
replaced. -/
theorem process_through_replaced_link :
    let c := Command.record .vfs (Path.ofString "c") (Path.ofString "l/../l")
    linkedOutput.Absent (temporary 7 (Path.ofString "l/../l")) ∧
    ∃ o fs', (c.process .own 7 []).SureEnds (c.Removes 7) linkedOutput o fs' ∧
      o.result = .ok () ∧ fs'.resolve false (Path.ofString "l/../l") = .error .notADirectory := by
  intro c
  obtain ⟨bytes, hrecord⟩ : ∃ bytes, SeaConfig.record ⟨none, some (.enabled true)⟩ .vfs =
      .ok bytes := ⟨_, rfl⟩
  have habsent : linkedOutput.Absent (temporary 7 (Path.ofString "l/../l")) := by
    have hvacant : linkedOutput.resolve false (temporary 7 (Path.ofString "l/../l")) =
        .ok ⟨[Path.ofString "l.tmp.7"], none, true⟩ := by
      unfold linkedOutput
      generalize switchedOn = text
      cbv
    exact .of_resolve hvacant
  have hwrite : (writeAtomically 7 (Path.ofString "l/../l") SeaConfig.recordMode bytes).run
      linkedOutput = (.ok (), linkedOutput.put [Path.ofString "l"] (.file 0o644 bytes)) := by
    unfold linkedOutput
    generalize switchedOn = text
    cbv
  have hwritten : (SeaConfig.writeRecord 7 .vfs (Path.ofString "c") (Path.ofString "l/../l")).run
      linkedOutput =
        (.ok bytes.length, linkedOutput.put [Path.ofString "l"] (.file 0o644 bytes)) := by
    rw [SeaConfig.writeRecord, run_bind, run_load_linkedOutput]
    simp only [hrecord, run_bind, hwrite]
    rfl
  have hends := sureEnds_run (c.Removes 7) (c.process .own 7 []) linkedOutput
  rw [process, run_bind, hwritten] at hends
  refine ⟨habsent, _, _, hends, rfl, ?_⟩
  unfold linkedOutput
  generalize switchedOn = text
  cbv

end Command

end SelfExtract
