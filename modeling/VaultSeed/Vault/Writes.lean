import VaultSeed.Vault.Sealing

/-! # What a write leaves behind

Every file of the vault is written by `writeWithMirror`. Its outcome and the media
it leaves are determined by the fate of five operations: `Wrote` says so for one
medium, `Mirrored` for the SD card followed by the mirror. All later results about
stored files go through these two relations.
-/

namespace VaultSeed.Vault

open Python Effect Proc

/-- The fate of the next occurrence of an operation. -/
def Env.fate (env : Env) (device : Device) (op : FileOp) : Fault :=
  env.fault op (device.trace.count op)

/-- The end of an operation that meets a fault. -/
inductive Stops {α : Type} : Fault → Outcome Exn α → Prop where
  | raised : Stops .raise (.raised .osError)
  | cut (left : Nat) : Stops (.cut left) .off

/-- Some occurrence of the operation fails. -/
def Env.Faulty (env : Env) (op : FileOp) : Prop := ∃ count, env.fault op count ≠ .none

/-- An operation that is never faulty goes well. -/
theorem fate_of_not_faulty {env : Env} {op : FileOp} (reliable : ¬ env.Faulty op)
    (device : Device) :
    env.fate device op = .none := by
  by_contra fault
  exact reliable ⟨_, fault⟩

/-- How much of its content a faulty write leaves. -/
def Fault.left : Fault → Nat
  | .cut left => left
  | _ => 0

@[simp] theorem left_raise : Fault.raise.left = 0 := rfl

@[simp] theorem left_cut (left : Nat) : (Fault.cut left).left = left := rfl

section FileOp

variable {env : Env} {device : Device} {op : FileOp} {torn : Nat → Device → Device}
variable {α : Type} {body : Run α}

/-- A file operation that goes well. -/
theorem fileOp_none (fate : env.fate device op = .none) :
    fileOp env op torn body device = body (device.push op) := by
  unfold Env.fate at fate
  simp only [fileOp, fate]

/-- A file operation that raises. -/
theorem fileOp_raise (fate : env.fate device op = .raise) :
    fileOp env op torn body device = (.raised .osError, device.push op) := by
  unfold Env.fate at fate
  simp only [fileOp, fate]

/-- A file operation that is cut. -/
theorem fileOp_cut {left : Nat} (fate : env.fate device op = .cut left) :
    fileOp env op torn body device = (.off, torn left (device.push op)) := by
  unfold Env.fate at fate
  simp only [fileOp, fate]

/-- An operation without effect on a cut either stops at a fault or runs its body. -/
theorem fileOp_holds {post : Outcome Exn α → Device → Prop}
    (still : ∀ left device, torn left device = device)
    (stopped : ∀ fault outcome, env.fate device op = fault → Stops fault outcome →
      post outcome (device.push op))
    (ran : env.fate device op = .none → Holds body (device.push op) post) :
    Holds (fileOp env op torn body) device post := by
  unfold Holds
  cases fate : env.fate device op with
  | none =>
      rw [fileOp_none fate]
      exact ran fate
  | raise =>
      rw [fileOp_raise fate]
      exact stopped _ _ fate .raised
  | cut left =>
      rw [fileOp_cut fate, still]
      exact stopped _ _ fate (.cut left)

end FileOp

@[simp] theorem push_trace (device : Device) (op : FileOp) :
    (device.push op).trace = op :: device.trace := rfl

@[simp] theorem push_toMedia (device : Device) (op : FileOp) :
    (device.push op).toMedia = device.toMedia := rfl

@[simp] theorem push_vault (device : Device) (op : FileOp) :
    (device.push op).vault = device.vault := rfl

@[simp] theorem push_history (device : Device) (op : FileOp) :
    (device.push op).history = device.history := rfl

/-- The medium that was set. -/
@[simp] theorem setDisk_disk (media : Media) (disk : Disk) (medium : Medium) :
    (media.setDisk disk medium).disk disk = medium := by
  cases disk <;> rfl

@[simp] theorem setDisk_setDisk (media : Media) (disk : Disk) (first second : Medium) :
    (media.setDisk disk first).setDisk disk second = media.setDisk disk second := by
  cases disk <;> rfl

/-- Setting a medium to what it is changes nothing. -/
@[simp] theorem setDisk_self (media : Media) (disk : Disk) :
    media.setDisk disk (media.disk disk) = media := by
  cases disk <;> rfl

@[simp] theorem put_put (medium : Medium) (path : Path) (first second : Bytes) :
    (medium.put path first).put path second = medium.put path second := by
  simp only [Medium.put, AList.insert_insert]

/-- Two devices that differ in their media and in the given operations of their
traces only. -/
structure Alike (before after : Device) (touched : FileOp → Prop) : Prop where
  vault : after.vault = before.vault
  history : after.history = before.history
  count : ∀ op, ¬ touched op → after.trace.count op = before.trace.count op

/-- A device has the same fates as itself. -/
theorem Alike.refl (device : Device) (touched : FileOp → Prop) : Alike device device touched :=
  ⟨rfl, rfl, fun _ _ => rfl⟩

/-- One operation more, whatever it did to the media. -/
theorem Alike.push (device : Device) (media : Media) {op : FileOp} {touched : FileOp → Prop}
    (covers : touched op) : Alike device { device.push op with toMedia := media } touched := by
  refine ⟨rfl, rfl, fun other untouched => ?_⟩
  change (op :: device.trace).count other = _
  rw [List.count_cons_of_ne]
  rintro rfl
  exact untouched covers

/-- Having the same fates is transitive. -/
theorem Alike.trans {first second third : Device} {touched : FileOp → Prop}
    (begins : Alike first second touched) (continues : Alike second third touched) :
    Alike first third touched :=
  ⟨continues.vault.trans begins.vault, continues.history.trans begins.history,
    fun op untouched => (continues.count op untouched).trans (begins.count op untouched)⟩

/-- More operations may have been touched. -/
theorem Alike.mono {before after : Device} {touched wider : FileOp → Prop}
    (alike : Alike before after touched) (covers : ∀ op, touched op → wider op) :
    Alike before after wider :=
  ⟨alike.vault, alike.history, fun op untouched => alike.count op fun holds =>
    untouched (covers op holds)⟩

/-- An untouched operation keeps its fate. -/
theorem Alike.fate {before after : Device} {touched : FileOp → Prop} (env : Env)
    (alike : Alike before after touched) {op : FileOp} (untouched : ¬ touched op) :
    env.fate after op = env.fate before op := by
  rw [Env.fate, Env.fate, alike.count op untouched]

/-- The operations that write a file. -/
def FileOp.Writes (disk : Disk) (path : Path) (op : FileOp) : Prop :=
  op = .openWrite disk path ∨ op = .write disk path

/-- The operations of `writeWithMirror`. -/
def FileOp.Mirrors (path : Path) (op : FileOp) : Prop :=
  op = .mount (.writeWithMirror path) ∨ ∃ disk, op.Writes disk path

/-- **One file on one medium.** Writing it is refused, torn, or done. -/
inductive Wrote (fate : FileOp → Fault) (disk : Disk) (path : Path) (data : Bytes)
    (before : Medium) : Outcome Exn Unit → Medium → Prop where
  | refused {fault : Fault} {outcome : Outcome Exn Unit} (stops : Stops fault outcome)
      (cause : fate (.openWrite disk path) = fault ∨
        (fault = .raise ∧ fate (.openWrite disk path) = .none ∧ before.hasDir path.dir = false)) :
      Wrote fate disk path data before outcome before
  | torn {fault : Fault} {outcome : Outcome Exn Unit} (stops : Stops fault outcome)
      (opened : fate (.openWrite disk path) = .none) (present : before.hasDir path.dir = true)
      (nonempty : data ≠ []) (cause : fate (.write disk path) = fault) :
      Wrote fate disk path data before outcome (before.put path (data.take fault.left))
  | done (opened : fate (.openWrite disk path) = .none) (present : before.hasDir path.dir = true)
      (written : data ≠ [] → fate (.write disk path) = .none) :
      Wrote fate disk path data before (.ok ()) (before.put path data)

/-- What was written depends on the fates of the write's own operations. -/
theorem Wrote.congr {first second : FileOp → Fault} {disk : Disk} {path : Path} {data : Bytes}
    {before after : Medium} {outcome : Outcome Exn Unit}
    (agree : ∀ op, op.Writes disk path → first op = second op)
    (wrote : Wrote first disk path data before outcome after) :
    Wrote second disk path data before outcome after := by
  have opening := agree (.openWrite disk path) (.inl rfl)
  have writing := agree (.write disk path) (.inr rfl)
  cases wrote with
  | refused stops cause =>
      rw [opening] at cause
      exact .refused stops cause
  | torn stops opened present nonempty cause =>
      rw [opening] at opened
      rw [writing] at cause
      exact .torn stops opened present nonempty cause
  | done opened present written =>
      rw [opening] at opened
      rw [writing] at written
      exact .done opened present written

namespace Wrote

variable {fate : FileOp → Fault} {disk : Disk} {path : Path} {data : Bytes}
variable {before after : Medium} {outcome : Outcome Exn Unit}

/-- A write leaves the other files alone. -/
theorem get_of_ne (wrote : Wrote fate disk path data before outcome after) {other : Path}
    (different : other ≠ path) : after.get other = before.get other := by
  cases wrote with
  | refused => rfl
  | torn => exact Medium.get_put_of_ne different _
  | done => exact Medium.get_put_of_ne different _

private theorem hasDir (wrote : Wrote fate disk path data before outcome after) (dir : Dir) :
    after.hasDir dir = before.hasDir dir := by
  cases wrote with
  | refused => rfl
  | torn => exact Medium.hasDir_put _ _ _
  | done => exact Medium.hasDir_put _ _ _

/-- The file is as before, or a part of the new content. -/
theorem get_path (wrote : Wrote fate disk path data before outcome after) :
    after.get path = before.get path ∨ ∃ left, after.get path = some (data.take left) := by
  cases wrote with
  | refused => exact .inl rfl
  | torn => exact .inr ⟨_, Medium.get_put_self _ _⟩
  | done => exact .inr ⟨data.length, by rw [Medium.get_put_self, List.take_length]⟩

/-- A write that returned has put the data. -/
theorem eq_put (wrote : Wrote fate disk path data before (.ok ()) after) :
    after = before.put path data := by
  cases wrote with
  | refused stops => cases stops
  | torn stops => cases stops
  | done => rfl

/-- A write that no fault hits succeeds where its directory is. -/
theorem of_clean (opened : fate (.openWrite disk path) = .none)
    (written : fate (.write disk path) = .none)
    (wrote : Wrote fate disk path data before outcome after) :
    (before.hasDir path.dir = true ∧ outcome = .ok () ∧ after = before.put path data) ∨
      (before.hasDir path.dir = false ∧ outcome = .raised .osError ∧ after = before) := by
  cases wrote with
  | refused stops cause =>
      rcases cause with hit | ⟨rfl, _, missing⟩
      · rw [opened] at hit
        subst hit
        cases stops
      · cases stops
        exact .inr ⟨missing, rfl, rfl⟩
  | torn stops _ present _ cause =>
      rw [written] at cause
      subst cause
      cases stops
  | done _ present _ => exact .inl ⟨present, rfl, rfl⟩

end Wrote

variable (env : Env)

/-- A card is mounted, or mounting it stopped. -/
theorem mount_holds (caller : Caller) (device : Device) :
    Holds (mount env caller) device fun outcome after =>
      after = device.push (.mount caller) ∧
      ((∃ fault, Stops fault outcome ∧ env.fate device (.mount caller) = fault) ∨
        (outcome = .ok () ∧ env.fate device (.mount caller) = .none)) := by
  refine fileOp_holds (fun _ _ => rfl) ?_ ?_
  · intro fault outcome cause stops
    exact ⟨rfl, .inl ⟨fault, stops, cause⟩⟩
  · intro spared
    exact ⟨rfl, .inr ⟨rfl, spared⟩⟩

/-- A file is read, is missing, or reading it stopped. -/
theorem read_holds (disk : Disk) (path : Path) (device : Device) :
    Holds (read env disk path) device fun outcome after =>
      after = device.push (.read disk path) ∧
      ((∃ fault, Stops fault outcome ∧ env.fate device (.read disk path) = fault) ∨
        (env.fate device (.read disk path) = .none ∧
          outcome = match (device.disk disk).get path with
            | some data => .ok data
            | none => .raised .osError)) := by
  refine fileOp_holds (fun _ _ => rfl) ?_ ?_
  · intro fault outcome cause stops
    exact ⟨rfl, .inl ⟨fault, stops, cause⟩⟩
  · intro spared
    unfold Holds
    cases stored : (device.disk disk).get path <;> simp only [push_toMedia, stored] <;>
      exact ⟨trivial, .inr ⟨spared, trivial⟩⟩

private theorem openWrite_holds (disk : Disk) (path : Path) (device : Device) :
    Holds (openWrite env disk path) device fun outcome after =>
      Alike device after (· = .openWrite disk path) ∧
      ((∃ fault, Stops fault outcome ∧ after.toMedia = device.toMedia ∧
          (env.fate device (.openWrite disk path) = fault ∨
            (fault = .raise ∧ env.fate device (.openWrite disk path) = .none ∧
              (device.disk disk).hasDir path.dir = false))) ∨
        (outcome = .ok () ∧ env.fate device (.openWrite disk path) = .none ∧
          (device.disk disk).hasDir path.dir = true ∧
          after.toMedia = device.toMedia.setDisk disk ((device.disk disk).put path []))) := by
  refine fileOp_holds (fun _ _ => rfl) ?_ ?_
  · intro fault outcome cause stops
    exact ⟨.push device _ rfl, .inl ⟨fault, stops, rfl, .inl cause⟩⟩
  · intro spared
    unfold Holds
    by_cases present : (device.disk disk).hasDir path.dir = true
    · simp only [push_toMedia, present, ↓reduceIte]
      exact ⟨.push device _ rfl, .inr ⟨trivial, spared, trivial, rfl⟩⟩
    · simp only [push_toMedia, present]
      exact ⟨.push device _ rfl, .inl ⟨.raise, .raised, rfl,
        .inr ⟨rfl, spared, by simp⟩⟩⟩

private theorem writeContent_holds (disk : Disk) (path : Path) (data : Bytes) (device : Device) :
    Holds (writeContent env disk path data) device fun outcome after =>
      Alike device after (· = .write disk path) ∧
      ((∃ fault, Stops fault outcome ∧ data ≠ [] ∧ env.fate device (.write disk path) = fault ∧
          after.toMedia = device.toMedia.setDisk disk (if fault = .raise then device.disk disk else
            (device.disk disk).put path (data.take fault.left))) ∨
        (outcome = .ok () ∧ (data ≠ [] → env.fate device (.write disk path) = .none) ∧
          after.toMedia = device.toMedia.setDisk disk (if data = [] then device.disk disk else
            (device.disk disk).put path data))) := by
  unfold writeContent
  by_cases empty : data = []
  · simp only [empty, ↓reduceIte]
    exact ⟨.refl device _, .inr ⟨rfl, fun nonempty => absurd rfl nonempty, by simp⟩⟩
  · simp only [empty, ↓reduceIte]
    unfold Holds
    cases fate : env.fate device (.write disk path) with
    | none =>
        rw [fileOp_none fate]
        exact ⟨.push device _ rfl, .inr ⟨rfl, fun _ => rfl, rfl⟩⟩
    | raise =>
        rw [fileOp_raise fate]
        exact ⟨.push device _ rfl, .inl ⟨.raise, .raised, empty, rfl, by simp⟩⟩
    | cut left =>
        rw [fileOp_cut fate]
        exact ⟨.push device _ rfl, .inl ⟨.cut left, .cut left, empty, rfl, rfl⟩⟩

/-- What `SDHandler.write` and its flash counterpart do. -/
theorem writeFile_wrote (disk : Disk) (path : Path) (data : Bytes) (device : Device) :
    Holds (writeFile env disk path data) device fun outcome after =>
      Alike device after (FileOp.Writes disk path) ∧
      ∃ medium, after.toMedia = device.toMedia.setDisk disk medium ∧
        Wrote (env.fate device) disk path data (device.disk disk) outcome medium := by
  have refused : ∀ {outcome after}, Alike device after (· = .openWrite disk path) →
      (∃ fault, Stops fault outcome ∧ after.toMedia = device.toMedia ∧
        (env.fate device (.openWrite disk path) = fault ∨
          (fault = .raise ∧ env.fate device (.openWrite disk path) = .none ∧
            (device.disk disk).hasDir path.dir = false))) →
      Alike device after (FileOp.Writes disk path) ∧
      ∃ medium, after.toMedia = device.toMedia.setDisk disk medium ∧
        Wrote (env.fate device) disk path data (device.disk disk) outcome medium := by
    rintro outcome after alike ⟨fault, stops, media, cause⟩
    exact ⟨alike.mono fun _ => .inl, device.disk disk, by rw [media, setDisk_self],
      .refused stops cause⟩
  refine Holds.bind (openWrite_holds env disk path device) ?_ ?_ ?_
  · rintro _ middle ⟨begins, ⟨_, stops, _⟩ | ⟨_, opened, present, media⟩⟩
    · cases stops
    have writing : env.fate middle (.write disk path) = env.fate device (.write disk path) :=
      begins.fate env (by simp)
    refine (writeContent_holds env disk path data middle).mono ?_
    rintro outcome after ⟨continues, rest⟩
    refine ⟨(begins.mono fun _ => .inl).trans (continues.mono fun _ => .inr), ?_⟩
    simp only [writing, media, setDisk_disk, setDisk_setDisk] at rest
    rcases rest with ⟨fault, stops, nonempty, cause, left⟩ | ⟨rfl, written, left⟩
    · refine ⟨_, left, ?_⟩
      have torn : Wrote (env.fate device) disk path data (device.disk disk) outcome _ :=
        .torn stops opened present nonempty cause
      cases stops with
      | raised => simpa using torn
      | cut left => simpa using torn
    · refine ⟨_, left, ?_⟩
      have done : Wrote (env.fate device) disk path data (device.disk disk) (.ok ()) _ :=
        .done opened present written
      by_cases empty : data = []
      · simpa [empty] using done
      · simpa [empty] using done
  · rintro exn after ⟨alike, failed | ⟨same, _⟩⟩
    · exact refused alike failed
    · cases same
  · rintro after ⟨alike, failed | ⟨same, _⟩⟩
    · exact refused alike failed
    · cases same

/-- A handler that ignores exceptions. -/
def swallow : Outcome Exn Unit → Outcome Exn Unit
  | .raised _ => .ok ()
  | outcome => outcome

private theorem ignoring_holds {body : Run Unit} {device : Device}
    {post : Outcome Exn Unit → Device → Prop} (valid : Holds body device post) :
    Holds (ignoring body) device fun outcome after =>
      ∃ inner, outcome = swallow inner ∧ post inner after := by
  refine Holds.tryExcept valid ?_ ?_ ?_
  · intro value after done
    exact ⟨.ok value, rfl, done⟩
  · intro exn after failed
    exact ⟨.raised exn, rfl, failed⟩
  · intro after lost
    exact ⟨.off, rfl, lost⟩

/-- **One file on both media.** The card is not there, the card fails, or the card
takes the file and the mirror follows; what the mirror raises is ignored. -/
inductive Mirrored (fate : FileOp → Fault) (path : Path) (data : Bytes) (before : Media) :
    Outcome Exn Unit → Media → Prop where
  | unmounted {fault : Fault} {outcome : Outcome Exn Unit} (stops : Stops fault outcome)
      (cause : fate (.mount (.writeWithMirror path)) = fault) :
      Mirrored fate path data before outcome before
  | failed {outcome : Outcome Exn Unit} {sd : Medium}
      (mounted : fate (.mount (.writeWithMirror path)) = .none)
      (primary : Wrote fate .sd path data before.sd outcome sd) (notDone : outcome ≠ .ok ()) :
      Mirrored fate path data before outcome { before with sd := sd }
  | written {outcome : Outcome Exn Unit} {sd flash : Medium}
      (mounted : fate (.mount (.writeWithMirror path)) = .none)
      (primary : Wrote fate .sd path data before.sd (.ok ()) sd)
      (mirror : Wrote fate .flash path data before.flash outcome flash) :
      Mirrored fate path data before (swallow outcome) ⟨sd, flash⟩

/-- What `_write_with_mirror` does. -/
theorem writeWithMirror_mirrored (path : Path) (data : Bytes) (device : Device) :
    Holds (writeWithMirror env path data) device fun outcome after =>
      Alike device after (FileOp.Mirrors path) ∧
      Mirrored (env.fate device) path data device.toMedia outcome after.toMedia := by
  have mounts : Alike device (device.push (.mount (.writeWithMirror path)))
      (· = .mount (.writeWithMirror path)) := .push device _ rfl
  refine Holds.bind (mount_holds env _ device) ?_ ?_ ?_
  · rintro _ middle ⟨rfl, ⟨_, stops, _⟩ | ⟨_, mounted⟩⟩
    · cases stops
    refine Holds.bind (writeFile_wrote env .sd path data _) ?_ ?_ ?_
    · rintro _ last ⟨writes, sd, media, primary⟩
      have begins : Alike device last fun op =>
          op = .mount (.writeWithMirror path) ∨ op.Writes .sd path :=
        (mounts.mono fun _ => .inl).trans (writes.mono fun _ => .inr)
      refine (ignoring_holds (writeFile_wrote env .flash path data last)).mono ?_
      rintro _ after ⟨outcome, rfl, mirrors, flash, finished, mirror⟩
      refine ⟨(begins.mono ?_).trans (mirrors.mono fun _ holds => .inr ⟨.flash, holds⟩), ?_⟩
      · rintro op (mountOp | writeOp)
        · exact .inl mountOp
        · exact .inr ⟨.sd, writeOp⟩
      · rw [finished, media]
        refine .written mounted (primary.congr fun op writes => ?_) ?_
        · refine mounts.fate env ?_
          rcases writes with rfl | rfl <;> simp
        · rw [show last.disk .flash = device.flash by rw [media]; rfl] at mirror
          refine mirror.congr fun op writes => begins.fate env ?_
          rcases writes with rfl | rfl <;> simp [FileOp.Writes]
    · rintro exn after ⟨writes, sd, media, primary⟩
      refine ⟨(mounts.mono fun _ => .inl).trans (writes.mono fun _ holds => .inr ⟨.sd, holds⟩), ?_⟩
      rw [media]
      refine .failed mounted (primary.congr fun op writes => mounts.fate env ?_) nofun
      rcases writes with rfl | rfl <;> simp
    · rintro after ⟨writes, sd, media, primary⟩
      refine ⟨(mounts.mono fun _ => .inl).trans (writes.mono fun _ holds => .inr ⟨.sd, holds⟩), ?_⟩
      rw [media]
      refine .failed mounted (primary.congr fun op writes => mounts.fate env ?_) nofun
      rcases writes with rfl | rfl <;> simp
  · rintro exn after ⟨rfl, ⟨fault, stops, cause⟩ | ⟨same, _⟩⟩
    · exact ⟨mounts.mono fun _ => .inl, .unmounted stops cause⟩
    · cases same
  · rintro after ⟨rfl, ⟨fault, stops, cause⟩ | ⟨same, _⟩⟩
    · exact ⟨mounts.mono fun _ => .inl, .unmounted stops cause⟩
    · cases same

namespace Mirrored

variable {env : Env} {fate : FileOp → Fault} {path : Path} {data : Bytes}
variable {before after : Media} {outcome : Outcome Exn Unit}

/-- A mirrored write leaves the other files. -/
theorem get_of_ne (mirrored : Mirrored fate path data before outcome after) (disk : Disk)
    {other : Path} (different : other ≠ path) :
    (after.disk disk).get other = (before.disk disk).get other := by
  cases mirrored with
  | unmounted => rfl
  | failed mounted primary =>
      cases disk with
      | sd => exact primary.get_of_ne different
      | flash => rfl
  | written mounted primary mirror =>
      cases disk with
      | sd => exact primary.get_of_ne different
      | flash => exact mirror.get_of_ne different

/-- A mirrored write leaves the directories. -/
theorem hasDir (mirrored : Mirrored fate path data before outcome after) (disk : Disk) (dir : Dir) :
    (after.disk disk).hasDir dir = (before.disk disk).hasDir dir := by
  cases mirrored with
  | unmounted => rfl
  | failed mounted primary =>
      cases disk with
      | sd => exact primary.hasDir dir
      | flash => rfl
  | written mounted primary mirror =>
      cases disk with
      | sd => exact primary.hasDir dir
      | flash => exact mirror.hasDir dir

/-- On either medium the file is as before, or a part of the new content. -/
theorem get_path (mirrored : Mirrored fate path data before outcome after) (disk : Disk) :
    (after.disk disk).get path = (before.disk disk).get path ∨
      ∃ left, (after.disk disk).get path = some (data.take left) := by
  cases mirrored with
  | unmounted => exact .inl rfl
  | failed mounted primary =>
      cases disk with
      | sd => exact primary.get_path
      | flash => exact .inl rfl
  | written mounted primary mirror =>
      cases disk with
      | sd => exact primary.get_path
      | flash => exact mirror.get_path

/-- A write that returns has put its content on the card. -/
theorem sd_eq_put (mirrored : Mirrored fate path data before (.ok ()) after) :
    after.sd = before.sd.put path data := by
  generalize same : (Outcome.ok () : Outcome Exn Unit) = outcome at mirrored
  cases mirrored with
  | unmounted stops => cases stops <;> cases same
  | failed mounted primary notDone => exact absurd same.symm notDone
  | written mounted primary mirror => exact primary.eq_put

/-- A write that no fault hits does not happen for want of the card, or succeeds on
both media. -/
theorem of_clean (clean : ∀ disk, fate (.openWrite disk path) = .none ∧
      fate (.write disk path) = .none) (ready : before.sd.hasDir path.dir = true)
    (mirrored : Mirrored fate path data before outcome after) :
    (outcome ≠ .ok () ∧ after = before ∧ fate (.mount (.writeWithMirror path)) ≠ .none) ∨
      (outcome = .ok () ∧ after.sd = before.sd.put path data ∧
        (before.flash.hasDir path.dir = true → after.flash = before.flash.put path data)) := by
  cases mirrored with
  | unmounted stops cause =>
      refine .inl ⟨?_, rfl, ?_⟩
      · cases stops <;> exact nofun
      · rw [cause]
        cases stops <;> exact nofun
  | failed mounted primary notDone =>
      rcases primary.of_clean (clean .sd).1 (clean .sd).2 with ⟨_, done, _⟩ | ⟨missing, _⟩
      · exact absurd done notDone
      · rw [ready] at missing
        cases missing
  | written mounted primary mirror =>
      refine .inr ⟨?_, primary.eq_put, fun present => ?_⟩
      · rcases mirror.of_clean (clean .flash).1 (clean .flash).2 with ⟨_, rfl, _⟩ | ⟨_, rfl, _⟩ <;>
          rfl
      · rcases mirror.of_clean (clean .flash).1 (clean .flash).2 with ⟨_, _, same⟩ | ⟨missing, _⟩
        · exact same
        · rw [present] at missing
          cases missing

end Mirrored

/-- `random_bytes(12)`, the vector of the next envelope. -/
def Env.vector (env : Env) (device : Device) : Bytes :=
  (List.range 12).map (env.entropy device.trace.length)

/-- An initialisation vector has 12 bytes. -/
theorem length_vector (device : Device) : (env.vector device).length = 12 := by
  simp [Env.vector]

section Saved

variable (platform : Platform) (cipher : Kef.Cipher) (id : Bytes) (path : Path)
variable (plaintext : Bytes) (device : Device)

/-- **One envelope on both media.** Its sealing is refused, or it is written. -/
inductive Saved : Outcome Exn Unit → Device → Prop where
  | refused {exn : Exn}
      (refusal : sealEnvelope platform cipher id plaintext (env.vector device) = .error exn) :
      Saved (.raised exn) device
  | mirrored {envelope : Bytes} {outcome : Outcome Exn Unit} {after : Device}
      (sealed : sealEnvelope platform cipher id plaintext (env.vector device) = .ok envelope)
      (alike : Alike device after (FileOp.Mirrors path))
      (mirrored : Mirrored (env.fate device) path envelope device.toMedia outcome after.toMedia) :
      Saved outcome after

variable {env platform cipher id path plaintext device}

/-- The envelope that is written seals the plaintext. -/
theorem Saved.seals {envelope : Bytes}
    (sealed : sealEnvelope platform cipher id plaintext (env.vector device) = .ok envelope) :
    Seals platform cipher id plaintext envelope :=
  ⟨_, length_vector env device, sealed⟩

/-- A save that returns has put an envelope on the card. -/
theorem Saved.sd_eq_put {after : Device}
    (saved : Saved env platform cipher id path plaintext device (.ok ()) after) :
    ∃ envelope, Seals platform cipher id plaintext envelope ∧
      after.sd = device.sd.put path envelope := by
  cases saved with
  | mirrored sealed alike mirrored => exact ⟨_, Saved.seals sealed, mirrored.sd_eq_put⟩

variable (env platform cipher id path plaintext device)

/-- What `saveEnvelope` does, however its call is noted. -/
theorem saveEnvelope_saved (call : Bytes → Save) :
    Holds (saveEnvelope platform env cipher id path plaintext call) device
      (Saved env platform cipher id path plaintext device) := by
  unfold Holds saveEnvelope
  rw [bind_ok (show randomBytes env 12 device = (.ok (env.vector device), device) from rfl)]
  cases sealed : sealEnvelope platform cipher id plaintext (env.vector device) with
  | error exn =>
      rw [ofExcept_error, bind_raised (throw_apply exn)]
      exact .refused sealed
  | ok envelope =>
      rw [ofExcept_ok, bind_ok (pure_apply envelope), bind_ok (modify_apply _)]
      have ⟨alike, mirrored⟩ :=
        writeWithMirror_mirrored env path envelope (device.noteSave (call envelope))
      exact .mirrored sealed ⟨alike.vault, alike.history, alike.count⟩ mirrored

end Saved

/-- The environments in which no write of a file fails. -/
def Env.CleanWrites (env : Env) : Prop := ∀ disk path count,
  env.fault (.openWrite disk path) count = .none ∧ env.fault (.write disk path) count = .none

/-- A save that no fault hits is refused, or not made for want of the card, or
succeeds on both media. -/
theorem Saved.of_clean {env : Env} {platform : Platform} {cipher : Kef.Cipher} {id : Bytes}
    {path : Path} {plaintext : Bytes} {device after : Device} {outcome : Outcome Exn Unit}
    (clean : env.CleanWrites) (ready : device.sd.hasDir path.dir = true)
    (saved : Saved env platform cipher id path plaintext device outcome after) :
    (outcome ≠ .ok () ∧ after.toMedia = device.toMedia ∧
      ((∃ exn, sealEnvelope platform cipher id plaintext (env.vector device) = .error exn) ∨
        env.Faulty (.mount (.writeWithMirror path)))) ∨
    (outcome = .ok () ∧ ∃ envelope, Seals platform cipher id plaintext envelope ∧
      after.sd = device.sd.put path envelope ∧
      (device.flash.hasDir path.dir = true → after.flash = device.flash.put path envelope)) := by
  cases saved with
  | refused refusal => exact .inl ⟨nofun, rfl, .inl ⟨_, refusal⟩⟩
  | mirrored sealed alike mirrored =>
      rcases mirrored.of_clean
        (fun disk => ⟨(clean disk path _).1, (clean disk path _).2⟩) ready with
        ⟨notDone, same, fault⟩ | ⟨rfl, sd, flash⟩
      · exact .inl ⟨notDone, same, .inr ⟨_, fault⟩⟩
      · exact .inr ⟨rfl, _, Saved.seals sealed, sd, flash⟩

/-- **The removal of one file from one medium**, its exceptions ignored. -/
inductive Removed (fate : FileOp → Fault) (disk : Disk) (path : Path) (before : Medium) :
    Outcome Exn Unit → Medium → Prop where
  | kept (cause : fate (.remove disk path) = .raise) :
      Removed fate disk path before (.ok ()) before
  | cut {left : Nat} (cause : fate (.remove disk path) = .cut left) :
      Removed fate disk path before .off before
  | gone (spared : fate (.remove disk path) = .none) :
      Removed fate disk path before (.ok ()) (before.erase path)

private theorem Removed.congr {first second : FileOp → Fault} {disk : Disk} {path : Path}
    {before after : Medium} {outcome : Outcome Exn Unit}
    (agree : first (.remove disk path) = second (.remove disk path))
    (removed : Removed first disk path before outcome after) :
    Removed second disk path before outcome after := by
  cases removed with
  | kept cause => exact .kept (agree ▸ cause)
  | cut cause => exact .cut (agree ▸ cause)
  | gone spared => exact .gone (agree ▸ spared)

private theorem erase_of_get_eq_none {medium : Medium} {path : Path}
    (absent : medium.get path = none) :
    medium.erase path = medium := by
  have missing : path ∉ medium.files := AList.lookup_eq_none.mp absent
  simp only [Medium.erase]
  congr 1
  exact AList.ext (List.kerase_of_notMem_keys missing)

private theorem remove_holds (disk : Disk) (path : Path) (device : Device) :
    Holds (remove env disk path) device fun outcome after =>
      Alike device after (· = .remove disk path) ∧
      ∃ medium, after.toMedia = device.toMedia.setDisk disk medium ∧
        Removed (env.fate device) disk path (device.disk disk) (swallow outcome) medium := by
  refine fileOp_holds (fun _ _ => rfl) ?_ ?_
  · intro fault outcome cause stops
    refine ⟨.push device _ rfl, _, (setDisk_self _ _).symm, ?_⟩
    cases stops with
    | raised => exact .kept cause
    | cut left => exact .cut cause
  · intro spared
    unfold Holds
    cases stored : (device.disk disk).get path with
    | none =>
        simp only [push_toMedia, stored, Option.isSome_none]
        refine ⟨.push device _ rfl, (device.disk disk).erase path, ?_, .gone spared⟩
        rw [erase_of_get_eq_none stored, setDisk_self]
        rfl
    | some data =>
        simp only [push_toMedia, stored, Option.isSome_some]
        exact ⟨.push device _ rfl, _, rfl, .gone spared⟩

private theorem remove_removed (disk : Disk) (path : Path) (device : Device) :
    Holds (ignoring (remove env disk path)) device fun outcome after =>
      Alike device after (· = .remove disk path) ∧
      ∃ medium, after.toMedia = device.toMedia.setDisk disk medium ∧
        Removed (env.fate device) disk path (device.disk disk) outcome medium := by
  refine (ignoring_holds (remove_holds env disk path device)).mono ?_
  rintro _ after ⟨outcome, rfl, removed⟩
  exact removed

/-- **The removal of one file from both media.** -/
inductive Deleted (fate : FileOp → Fault) (path : Path) (before : Media) :
    Outcome Exn Unit → Media → Prop where
  | cut (stopped : Removed fate .sd path before.sd .off before.sd) :
      Deleted fate path before .off before
  | removed {outcome : Outcome Exn Unit} {sd flash : Medium}
      (primary : Removed fate .sd path before.sd (.ok ()) sd)
      (mirror : Removed fate .flash path before.flash outcome flash) :
      Deleted fate path before outcome ⟨sd, flash⟩

/-- A deletion raises nothing. -/
theorem Deleted.not_raised {fate : FileOp → Fault} {path : Path} {before after : Media} {exn : Exn}
    (deleted : Deleted fate path before (.raised exn) after) : False := by
  cases deleted with
  | removed primary mirror => cases mirror

private theorem Removed.get_of_ne {fate : FileOp → Fault} {disk : Disk} {path other : Path}
    {before after : Medium} {outcome : Outcome Exn Unit}
    (removed : Removed fate disk path before outcome after) (different : other ≠ path) :
    after.get other = before.get other := by
  cases removed with
  | kept => rfl
  | cut => rfl
  | gone => exact Medium.get_erase_of_ne different

/-- A deletion leaves the other files alone. -/
theorem Deleted.get_of_ne {fate : FileOp → Fault} {path other : Path} {before after : Media}
    {outcome : Outcome Exn Unit} (deleted : Deleted fate path before outcome after) (disk : Disk)
    (different : other ≠ path) : (after.disk disk).get other = (before.disk disk).get other := by
  cases deleted with
  | cut => rfl
  | removed primary mirror =>
      cases disk with
      | sd => exact primary.get_of_ne different
      | flash => exact mirror.get_of_ne different

/-- The operations of `deleteWithMirror`. -/
def FileOp.Removes (path : Path) (op : FileOp) : Prop := ∃ disk, op = .remove disk path

/-- What `_delete_with_mirror` does. -/
theorem deleteWithMirror_deleted (path : Path) (device : Device) :
    Holds (deleteWithMirror env path) device fun outcome after =>
      Alike device after (FileOp.Removes path) ∧
      Deleted (env.fate device) path device.toMedia outcome after.toMedia := by
  refine Holds.bind (remove_removed env .sd path device) ?_ ?_ ?_
  · rintro _ middle ⟨begins, sd, media, primary⟩
    refine (remove_removed env .flash path middle).mono ?_
    rintro outcome after ⟨continues, flash, finished, mirror⟩
    refine ⟨(begins.mono fun _ same => ⟨.sd, same⟩).trans
      (continues.mono fun _ same => ⟨.flash, same⟩), ?_⟩
    rw [finished, media]
    rw [show middle.disk .flash = device.flash by rw [media]; rfl] at mirror
    exact .removed primary (mirror.congr (begins.fate env (by simp)))
  · rintro exn after ⟨_, _, _, removed⟩
    cases removed
  · rintro after ⟨alike, sd, media, removed⟩
    refine ⟨alike.mono fun _ same => ⟨.sd, same⟩, ?_⟩
    cases removed with
    | cut cause =>
        rw [media]
        exact .cut (.cut cause)

end VaultSeed.Vault
