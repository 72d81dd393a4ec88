import VaultSeed.Vault.Store
import VaultSeed.Vault.Copying

/-! # Restoring from the mirror

`restore_from_flash` copies three groups of files from flash to the card: `vault.meta`
first, where an exception is reported, then the manifest and the secrets, where an
`OSError` is swallowed. Once `vault.meta` is opened on the card, no restore is offered
any more: a fault that comes later leaves a vault with missing files that counts as
restored. `restores_or_retries_iff` says exactly when that does not happen.
-/

namespace VaultSeed.Vault

open Python Effect Proc

variable {platform : Platform} {env : Env}

/-- The faults up to the opening of `vault.meta` on the card. -/
def openingFaults (fate : FileOp → Fault) (sd : Medium) : List Fault :=
  (dirOps sd .vault ++ dirOps sd .secrets).map fate ++ copyFaults fate (some .restoreMeta) .metaFile

/-- The restore ends before `vault.meta` is opened on the card. -/
def Blocked (env : Env) (device : Device) : Prop :=
  firstFault (openingFaults (env.fate device) device.sd) ≠ .none ∨
    ∃ data, device.flash.get .metaFile = some data ∧ decode data = none

/-- The faults after the opening of `vault.meta` leave the card as if there were none. -/
structure RestFine (env : Env) (device : Device) : Prop where
  written : device.flash.get .metaFile = some [] ∨ env.fate device (.write .sd .metaFile) = .none
  manifest : CopyFine (env.fate device) (some .restoreManifest) .manifestFile device.toMedia
  secrets : GroupFine (env.later device) device.toMedia

/-- **The ends of a restore.** -/
inductive Restored (env : Env) (before : Device) : Outcome Exn Unit → Device → Prop where
  | blocked {outcome : Outcome Exn Unit} {after : Device} (blocked : Blocked env before)
      (failed : outcome ≠ .ok ()) (same : SameFiles before after) :
      Restored env before outcome after
  | opened {outcome : Outcome Exn Unit} {after : Device} (reached : ¬ Blocked env before)
      (flash : after.flash = before.flash) (marked : after.sd.get .metaFile ≠ none)
      (others : ∀ path, before.flash.get path = none → after.sd.get path = before.sd.get path)
      (fine_iff : (outcome = .ok () ∧ ∀ path, Matches before.flash after.sd path) ↔
        RestFine env before) :
      Restored env before outcome after

/-- The restoring of metadata that are text is a copy. -/
theorem restoreMeta_eq {device : Device} {data : Bytes} {text : Text}
    (stored : device.flash.get .metaFile = some data) (decoded : decode data = some text) :
    restoreMeta env device = copyFile env (some .restoreMeta) .metaFile device := by
  cases fate : env.fate device (.read .flash .metaFile) with
  | raise =>
      have ran : read env .flash .metaFile device = (.raised .osError, _) := fileOp_raise fate
      exact (bind_raised (bind_raised ran)).trans (bind_raised ran).symm
  | cut left =>
      have ran : read env .flash .metaFile device = (.off, _) := fileOp_cut fate
      exact (bind_off (bind_off ran)).trans (bind_off ran).symm
  | none =>
      have ran : read env .flash .metaFile device = (.ok data, _) := read_found fate stored
      have text : readText env .flash .metaFile device =
          (.ok text, device.push (.read .flash .metaFile)) := by
        refine (bind_ok ran).trans ?_
        rw [decoded]
        rfl
      refine (bind_ok text).trans (Eq.trans ?_ (bind_ok ran).symm)
      rw [encode_of_decode decoded]
      rfl

/-- Metadata that are no text are not restored. -/
theorem restoreMeta_unreadable {device : Device} {data : Bytes}
    (stored : device.flash.get .metaFile = some data) (undecoded : decode data = none) :
    Holds (restoreMeta env) device fun outcome after => outcome ≠ .ok () ∧ Still device after := by
  have unread : Holds (readText env .flash .metaFile) device fun outcome after =>
      (∀ text, outcome ≠ .ok text) ∧ Still device after := by
    refine Holds.bind (read_holds env .flash .metaFile device) ?_ ?_ ?_
    · rintro content _ ⟨rfl, ⟨_, stops, _⟩ | ⟨_, result⟩⟩
      · cases stops
      · simp only [Media.disk, stored] at result
        cases result
        rw [undecoded]
        exact ⟨by simp, rfl, rfl⟩
    · rintro exn _ ⟨rfl, _⟩
      exact ⟨by simp, rfl, rfl⟩
    · rintro _ ⟨rfl, _⟩
      exact ⟨by simp, rfl, rfl⟩
  refine Holds.bind unread ?_ ?_ ?_
  · exact fun text after ended => absurd rfl (ended.1 text)
  · exact fun exn after ended => ⟨by simp, ended.2⟩
  · exact fun after ended => ⟨by simp, ended.2⟩

/-- The operations of the restoring of the secrets whose fates matter. -/
def FileOp.RestoresSecrets (op : FileOp) : Prop :=
  (∃ dir, op = .statDir .sd dir) ∨ op = .listSecrets .flash ∨ op = .mount .restoreSecrets ∨
    ∃ name, op.Copies none (.secretFile name)

/-- What restores the manifest makes no directory and restores no metadata. -/
theorem FileOp.Copies.spares_meta {op : FileOp}
    (copies : op.Copies (some .restoreManifest) .manifestFile) :
    (∀ dir, op ≠ .mkdir .sd dir) ∧ ¬ op.Copies (some .restoreMeta) .metaFile := by
  rcases copies with rfl | ⟨_, mounts, rfl⟩ | rfl | rfl
  · simp [FileOp.Copies, FileOp.Writes]
  · cases mounts
    simp [FileOp.Copies, FileOp.Writes]
  · simp [FileOp.Copies, FileOp.Writes]
  · simp [FileOp.Copies, FileOp.Writes]

/-- What restores the secrets makes no directory, and restores neither the metadata nor
the manifest. -/
theorem FileOp.RestoresSecrets.spares {op : FileOp} (restores : op.RestoresSecrets) :
    (∀ dir, op ≠ .mkdir .sd dir) ∧ ¬ op.Copies (some .restoreMeta) .metaFile ∧
      ¬ op.Copies (some .restoreManifest) .manifestFile := by
  rcases restores with ⟨dir, rfl⟩ | rfl | rfl | ⟨name, copies⟩
  · simp [FileOp.Copies, FileOp.Writes]
  · simp [FileOp.Copies, FileOp.Writes]
  · simp [FileOp.Copies, FileOp.Writes]
  · rcases copies.of_none with rfl | rfl | rfl
    · simp [FileOp.Copies, FileOp.Writes]
    · simp [FileOp.Copies, FileOp.Writes]
    · simp [FileOp.Copies, FileOp.Writes]

private theorem GroupFine.congr {first second : FileOp → Fault} {before after : Media}
    (fates : ∀ op : FileOp, op.RestoresSecrets → first op = second op)
    (flash : after.flash = before.flash)
    (sd : ∀ name, after.sd.get (.secretFile name) = before.sd.get (.secretFile name)) :
    GroupFine first before ↔ GroupFine second after := by
  have loop := SecretsFine.congr before.flash.secretNames
    (fun name _ op copies => fates op (.inr (.inr (.inr ⟨name, copies⟩)))) flash fun name _ =>
      sd name
  unfold GroupFine listFaults AfterFault Matches
  rw [fates _ (.inl ⟨.vault, rfl⟩), fates _ (.inl ⟨.secrets, rfl⟩), fates _ (.inr (.inl rfl)),
    fates _ (.inr (.inr (.inl rfl))), flash, loop]
  simp only [sd]

/-- `except OSError: pass` around a body that raises nothing else. -/
theorem ignoringOsError_holds {body : Run Unit} {device : Device}
    {post : Outcome Exn Unit → Device → Prop} (valid : Holds body device post)
    (only : ∀ exn after, post (.raised exn) after → exn = .osError) :
    Holds (ignoringOsError body) device fun outcome after =>
      ∃ inner, outcome = swallow inner ∧ post inner after := by
  refine Holds.tryExcept valid ?_ ?_ ?_
  · exact fun value after done => ⟨.ok value, rfl, done⟩
  · intro exn after failed
    have same := only exn after failed
    rw [if_pos same]
    exact ⟨.raised exn, rfl, failed⟩
  · exact fun after lost => ⟨.off, rfl, lost⟩

/-- The manifest and the secrets restored. -/
structure RestRestored (env : Env) (before : Device) (outcome : Outcome Exn Unit) (after : Device) :
    Prop where
  flash : after.flash = before.flash
  others : ∀ path, path = .metaFile ∨ before.flash.get path = none →
    after.sd.get path = before.sd.get path
  fine_iff : (outcome = .ok () ∧ ∀ path, path ≠ .metaFile → Matches before.flash after.sd path) ↔
    CopyFine (env.fate before) (some .restoreManifest) .manifestFile before.toMedia ∧
      GroupFine (env.fate before) before.toMedia

private theorem restoreRest_restored (raises : env.RestoreRaises) (device : Device)
    (ready : device.sd.Ready) (housed : device.flash.Housed) :
    Holds (do
      ignoringOsError (restoreManifest env)
      ignoringOsError (restoreSecrets env)) device (RestRestored env device) := by
  refine Holds.bind (ignoringOsError_holds (copyFile_copied (some .restoreManifest) .manifestFile
    device (ready.hasDir .vault)) ?_) ?_ ?_ ?_
  · intro exn after ended
    obtain ⟨_, _, _, copied⟩ := ended
    exact copied.osError
  · rintro _ middle ⟨inner, returned, alike, sd, media, copied⟩
    have flash : middle.flash = device.flash := by rw [media]; rfl
    have card : middle.sd = sd := by rw [media]; rfl
    have first := copied.fine_iff
    have stillReady : middle.sd.Ready := by
      rw [card]
      exact ⟨(copied.hasDir .vault).trans ready.1, (copied.hasDir .secrets).trans ready.2⟩
    refine (ignoringOsError_holds
      (restoreSecrets_restored raises middle stillReady (flash ▸ housed))
      fun exn after restored => restored.osError exn rfl).mono ?_
    rintro _ after ⟨last, rfl, restored⟩
    have kept : ∀ path, path ≠ .manifestFile → middle.sd.get path = device.sd.get path := by
      intro path different
      rw [card, copied.get_of_ne different]
    have group : GroupFine (env.fate middle) middle.toMedia ↔
        GroupFine (env.fate device) device.toMedia := by
      exact (GroupFine.congr (fun op restores => (alike.fate env restores.spares.2.2).symm)
        flash fun name => kept _ (by simp)).symm
    have second := restored.fine_iff
    rw [flash, group] at second
    have manifest : after.sd.get .manifestFile = middle.sd.get .manifestFile :=
      restored.others _ (by simp)
    refine ⟨restored.flash.trans flash, fun path outside => ?_, ?_⟩
    · refine (restored.others path fun name same => ?_).trans ?_
      · rcases outside with rfl | absent
        · cases same
        · rw [flash, absent]
      · rw [card]
        rcases outside with rfl | absent
        · exact copied.get_of_ne (by simp)
        · exact copied.get_of_absent absent
    · have same : Matches device.flash sd .manifestFile ↔
          Matches device.flash after.sd .manifestFile := by
        rw [Matches, Matches, manifest, card]
      rw [← first, ← second, ← returned, same]
      constructor
      · rintro ⟨done, all⟩
        exact ⟨⟨rfl, all _ (by simp)⟩, done, fun name => all _ (by simp)⟩
      · rintro ⟨⟨_, listing⟩, done, secrets⟩
        refine ⟨done, fun path notMeta => ?_⟩
        cases path with
        | metaFile => exact absurd rfl notMeta
        | manifestFile => exact listing
        | secretFile name => exact secrets name
  · rintro exn after ⟨inner, ended, _⟩
    cases inner <;> cases ended
  · rintro after ⟨inner, ended, alike, sd, media, copied⟩
    have lost := copied.fine_iff
    rw [← ended] at lost
    refine ⟨by rw [media]; rfl, ?_, ?_⟩
    · rintro path outside
      rw [show after.sd = sd by rw [media]; rfl]
      rcases outside with rfl | absent
      · exact copied.get_of_ne (by simp)
      · exact copied.get_of_absent absent
    · rw [← lost]
      simp

/-- **The ends of the restoring of the metadata.** -/
inductive MetaRestored (env : Env) (before : Device) : Outcome Exn Unit → Device → Prop where
  | blocked {outcome : Outcome Exn Unit} {after : Device} (blocked : Blocked env before)
      (failed : outcome ≠ .ok ()) (same : SameFiles before after) :
      MetaRestored env before outcome after
  | written {outcome : Outcome Exn Unit} {after : Device} (reached : ¬ Blocked env before)
      (flash : after.flash = before.flash) (ready : after.sd.Ready)
      (marked : after.sd.get .metaFile ≠ none)
      (others : ∀ path, path ≠ .metaFile → after.sd.get path = before.sd.get path)
      (fates : ∀ op : FileOp, (∀ dir, op ≠ .mkdir .sd dir) →
        ¬ op.Copies (some .restoreMeta) .metaFile → env.fate after op = env.later before op)
      (ok_iff : outcome = .ok () ↔
        before.flash.get .metaFile = some [] ∨ env.fate before (.write .sd .metaFile) = .none)
      (copied : outcome = .ok () → after.sd.get .metaFile = before.flash.get .metaFile) :
      MetaRestored env before outcome after

section Metadata

variable {device middle : Device} {data : Bytes}

/-- The copy of the metadata meets the faults it would have met before the directories. -/
theorem DirsEnsured.copies_fate (ensured : DirsEnsured env device (.ok ()) middle) {op : FileOp}
    (copies : op.Copies (some .restoreMeta) .metaFile) :
    env.fate device op = env.fate middle op := by
  have spared : (∀ dir, op ≠ .mkdir .sd dir) → env.fate middle op = env.later device op :=
    ensured.fate
  rcases copies with rfl | ⟨_, _, rfl⟩ | rfl | rfl <;> exact (spared nofun).symm

private theorem DirsEnsured.firstFault_opening (ensured : DirsEnsured env device (.ok ()) middle) :
    firstFault (openingFaults (env.fate device) device.sd) =
      firstFault (copyFaults (env.fate middle) (some .restoreMeta) .metaFile) := by
  rw [openingFaults, firstFault_append (ensured.ok_iff.mp rfl),
    copyFaults_congr fun _ => ensured.copies_fate]

/-- The metadata were copied. -/
theorem MetaRestored.of_copied (ensured : DirsEnsured env device (.ok ()) middle)
    (mirrored : device.flash.get .metaFile = some data) {text : Text}
    (decoded : decode data = some text) {outcome : Outcome Exn Unit} {after : Device} {sd : Medium}
    (alike : Alike middle after (FileOp.Copies (some .restoreMeta) .metaFile))
    (media : after.toMedia = middle.toMedia.setDisk .sd sd)
    (copied : Copied (env.fate middle) (some .restoreMeta) .metaFile middle.toMedia outcome sd) :
    MetaRestored env device outcome after := by
  have flash : middle.flash = device.flash := ensured.prepared.other .flash nofun
  have stored : middle.flash.get .metaFile = some data := by rw [flash, mirrored]
  have copying := ensured.firstFault_opening
  have reached : firstFault (copyFaults (env.fate middle) (some .restoreMeta) .metaFile) =
      .none → ¬ Blocked env device := by
    rintro opened (hit | ⟨content, held, undecoded⟩)
    · exact hit (copying.trans opened)
    · rw [mirrored] at held
      cases held
      rw [decoded] at undecoded
      cases undecoded
  have card : after.sd = sd := by rw [media]; rfl
  have others : ∀ path, path ≠ .metaFile → after.sd.get path = device.sd.get path := by
    intro path different
    rw [card, copied.get_of_ne different]
    exact ensured.prepared.get path
  have ready : after.sd.Ready := by
    rw [card]
    exact ⟨(copied.hasDir .vault).trans (ensured.ready rfl).1,
      (copied.hasDir .secrets).trans (ensured.ready rfl).2⟩
  have sameFlash : after.flash = device.flash := by rw [media]; exact flash
  have later : ∀ op : FileOp, (∀ dir, op ≠ .mkdir .sd dir) →
      ¬ op.Copies (some .restoreMeta) .metaFile → env.fate after op = env.later device op :=
    fun op unmade other => (alike.fate env other).trans (ensured.fate unmade)
  have writeFate := ensured.copies_fate (.inr (.inr (.inr rfl)) :
    (FileOp.write .sd .metaFile).Copies (some .restoreMeta) .metaFile)
  cases copied with
  | missing absent => exact absurd (absent.symm.trans stored) nofun
  | stopped held stops cause =>
      refine .blocked (.inl ?_) (by cases stops <;> exact nofun)
        (ensured.prepared.sameFiles.trans (Still.sameFiles ⟨?_, alike.vault⟩))
      · rw [copying, cause]
        cases stops <;> exact nofun
      · rw [media]
        exact setDisk_self middle.toMedia .sd
  | torn held opened nonempty stops cause =>
      rw [stored] at held
      cases held
      refine .written (reached opened) sameFlash ready ?_ others later ?_ ?_
      · rw [card, Medium.get_put_self]
        exact nofun
      · rw [mirrored, writeFate, cause]
        cases stops <;> simp [nonempty]
      · cases stops <;> exact nofun
  | done held opened written =>
      rw [stored] at held
      cases held
      refine .written (reached opened) sameFlash ready ?_ others later ?_ fun _ => ?_
      · rw [card, Medium.get_put_self]
        exact nofun
      · rw [mirrored, writeFate]
        by_cases empty : data = []
        · simp [empty]
        · simp [written empty]
      · rw [card, Medium.get_put_self, mirrored]

private theorem restoreMeta_restored (ensured : DirsEnsured env device (.ok ()) middle)
    (mirrored : device.flash.get .metaFile = some data) :
    Holds (restoreMeta env) middle (MetaRestored env device) := by
  have flash : middle.flash = device.flash := ensured.prepared.other .flash nofun
  have stored : middle.flash.get .metaFile = some data := by rw [flash, mirrored]
  cases decoded : decode data with
  | none =>
      refine (restoreMeta_unreadable stored decoded).mono fun outcome after ⟨failed, still⟩ => ?_
      exact .blocked (.inr ⟨data, mirrored, decoded⟩) failed
        (ensured.prepared.sameFiles.trans still.sameFiles)
  | some text =>
      unfold Holds
      rw [restoreMeta_eq stored decoded]
      refine (copyFile_copied (some .restoreMeta) .metaFile middle
        ((ensured.ready rfl).hasDir .vault)).mono ?_
      rintro outcome after ⟨alike, sd, media, copied⟩
      exact .of_copied ensured mirrored decoded alike media copied

end Metadata

section Whole

variable {device third after : Device} {outcome : Outcome Exn Unit}

/-- A restore that does not go on after the metadata. -/
theorem MetaRestored.stopped (restored : MetaRestored env device outcome after)
    (mirrored : device.flash.get .metaFile ≠ none) (failed : outcome ≠ .ok ()) :
    Restored env device outcome after := by
  cases restored with
  | blocked blocked _ same => exact .blocked blocked failed same
  | written reached flash ready marked others fates ok_iff copied =>
      refine .opened reached flash marked (fun path absent => others path ?_) ?_
      · rintro rfl
        exact mirrored absent
      · constructor
        · exact fun done => absurd done.1 failed
        · exact fun fine => absurd (ok_iff.mpr fine.written) failed

/-- A restore that goes on to the manifest and the secrets. -/
theorem MetaRestored.rest (restored : MetaRestored env device (.ok ()) third)
    (mirrored : device.flash.get .metaFile ≠ none) (rest : RestRestored env third outcome after) :
    Restored env device outcome after := by
  cases restored with
  | blocked _ failed => exact absurd rfl failed
  | written reached flash ready marked others fates ok_iff copied =>
      have notMeta : ∀ path, device.flash.get path = none → path ≠ .metaFile := by
        rintro _ absent rfl
        exact mirrored absent
      have done := copied rfl
      rw [← rest.others .metaFile (.inl rfl)] at done marked
      have manifest : CopyFine (env.fate device) (some .restoreManifest) .manifestFile
          device.toMedia ↔ CopyFine (env.fate third) (some .restoreManifest) .manifestFile
            third.toMedia := by
        refine CopyFine.congr (fun op copies => ?_) flash (others _ (by simp))
        obtain ⟨unmade, other⟩ := copies.spares_meta
        rw [fates op unmade other]
        rcases copies with rfl | ⟨_, _, rfl⟩ | rfl | rfl <;> rfl
      have group : GroupFine (env.later device) device.toMedia ↔
          GroupFine (env.fate third) third.toMedia := by
        refine GroupFine.congr (fun op restores => ?_) flash fun name => others _ (by simp)
        obtain ⟨unmade, other, _⟩ := restores.spares
        exact (fates op unmade other).symm
      refine .opened reached (rest.flash.trans flash) marked (fun path absent => ?_) ?_
      · refine (rest.others path (.inr ?_)).trans (others path (notMeta path absent))
        rw [flash, absent]
      · have all := rest.fine_iff
        rw [flash, ← manifest, ← group] at all
        constructor
        · rintro ⟨ended, whole⟩
          obtain ⟨listing, secrets⟩ := all.mp ⟨ended, fun path _ => whole path⟩
          exact ⟨ok_iff.mp rfl, listing, secrets⟩
        · rintro ⟨_, listing, secrets⟩
          obtain ⟨ended, rest⟩ := all.mpr ⟨listing, secrets⟩
          refine ⟨ended, fun path => ?_⟩
          by_cases same : path = .metaFile
          · subst same
            intro content held
            rw [done, held]
          · exact rest path same

/-- Where the rest of a restore begins. -/
theorem MetaRestored.reaches (restored : MetaRestored env device (.ok ()) third) :
    third.flash = device.flash ∧ third.sd.Ready := by
  cases restored with
  | blocked _ failed => exact absurd rfl failed
  | written _ flash ready => exact ⟨flash, ready⟩

/-- What `restore_from_flash` does on a device whose mirror has metadata. -/
theorem restoreFromFlash_restored (raises : env.RestoreRaises) (device : Device) {data : Bytes}
    (mirrored : device.flash.get .metaFile = some data) (housed : device.flash.Housed) :
    Holds (restoreFromFlash env) device (Restored env device) := by
  have some : device.flash.get .metaFile ≠ none := by
    rw [mirrored]
    exact nofun
  refine Holds.bind (ensureDirs_ensured raises device) ?_ ?_ ?_
  · intro _ middle ensured
    refine Holds.bind (restoreMeta_restored ensured mirrored) ?_ ?_ ?_
    · intro _ third restored
      obtain ⟨flash, ready⟩ := restored.reaches
      exact (restoreRest_restored raises third ready (flash ▸ housed)).mono
        fun outcome after rest => restored.rest some rest
    · exact fun exn after restored => restored.stopped some (by simp)
    · exact fun after restored => restored.stopped some (by simp)
  · exact fun exn after ensured => absurd rfl (ensured.not_raised exn)
  · intro after ensured
    refine .blocked (.inl ?_) (by simp) ensured.prepared.sameFiles
    rw [openingFaults, Ne, firstFault_append_eq_none, ← ensured.ok_iff]
    simp

end Whole

section Offer

variable (platform)

/-- A later boot offers the restore: when the user declines, this question is all that was
asked and shown. -/
def OffersRestore (device : Device) : Prop := ∀ env : Env, env.Quiet → 0 < env.patience →
  (∀ count, env.answer .restoreBackup count = false) →
  (perform platform device.restarted ⟨.boot, env⟩).history = [.asked .restoreBackup false]

variable {platform} {device : Device}

/-- A user who answers no and enters nothing. -/
def Env.declining : Env := ⟨fun _ _ => .none, fun _ _ => false, fun _ _ => none, fun _ _ => 0,
  fun _ => 0, 1⟩

/-- The restore was not offered so far. -/
def Device.Unasked (device : Device) : Prop :=
  ∀ answer, .asked .restoreBackup answer ∉ device.history

private theorem Device.Unasked.record (unasked : device.Unasked) {event : Event}
    (other : event.isAsked .restoreBackup = false) : (device.record event).Unasked := by
  intro answer member
  rcases List.mem_cons.mp member with rfl | earlier
  · cases other
  · exact unasked answer earlier

private theorem loadMeta_unasked : Proc.Keeps Device.Unasked (loadMeta platform env) := by
  have mounts : Proc.Keeps Device.Unasked (mount env .loadMeta) := fun device unasked =>
    (mount_holds env .loadMeta device).mono fun _ _ ⟨same, _⟩ => same ▸ unasked
  have reads : Proc.Keeps Device.Unasked (read env .sd .metaFile) := fun device unasked =>
    (read_holds env .sd .metaFile device).mono fun _ _ ⟨same, _⟩ => same ▸ unasked
  refine mounts.bind fun _ => Proc.Keeps.bind (reads.bind fun data => ?_) fun text => ?_
  · cases decode data with
    | none => exact Proc.Keeps.throw _
    | some text => exact Proc.Keeps.pure text
  · cases platform.metas.loads text with
    | none => exact Proc.Keeps.throw _
    | some metadata => exact Proc.Keeps.pure metadata

private theorem saltBytes_unasked (metadata : Meta) :
    Proc.Keeps Device.Unasked (saltBytes metadata) := by
  unfold saltBytes
  cases unhexlify metadata.salt with
  | none => exact Proc.Keeps.throw _
  | some salt => exact Proc.Keeps.pure salt

/-- The unlocking of a vault offers no restore. -/
theorem unlockExistingVault_unasked :
    Proc.Keeps Device.Unasked (unlockExistingVault platform .declining) := by
  have reports : ∀ message, Proc.Keeps Device.Unasked (flashMessage message) :=
    fun message _ unasked =>
    unasked.record rfl
  refine Proc.Keeps.bind (Proc.Keeps.tryExcept (loadMeta_unasked.bind fun metadata =>
    (saltBytes_unasked metadata).bind fun salt => Proc.Keeps.pure (some salt)) fun exn =>
      (reports _).bind fun _ => Proc.Keeps.pure none) fun loaded => ?_
  cases loaded with
  | none => exact Proc.Keeps.pure _
  | some salt =>
      refine Proc.Keeps.loop ?_ ((reports _).bind fun _ => Proc.Keeps.pure _) _
      intro device unasked
      have cancelled : Env.declining.entry .passphrase device = none := rfl
      exact Holds.bind_ok (getPassphrase_none cancelled) (unasked.record rfl)

/-- With metadata on the card no restore is offered. -/
theorem not_offersRestore (marked : device.sd.get .metaFile ≠ none) :
    ¬ OffersRestore platform device := by
  intro offers
  have asked := offers .declining (fun _ _ => rfl) Nat.one_pos fun _ => rfl
  have quiet : Env.declining.Quiet := fun _ _ => rfl
  let checked := device.restarted.ready.push (.mount .checkSdCard)
  let looked := (checked.push (.stat .sd .metaFile)).push (.stat .sd .metaFile)
  have mounted : checkSdCard .declining device.restarted.ready = (.ok true, checked) :=
    tryExcept_ok ((bind_ok (quiet.mount .checkSdCard _)).trans rfl)
  have found : ∀ later : Device, later.sd = device.sd → vaultExists .declining .sd later =
      (.ok true, later.push (.stat .sd .metaFile)) := by
    intro later same
    refine (vaultExists_apply .sd later (quiet.fate _ _)).trans ?_
    rw [show later.disk .sd = device.sd from same, Option.isSome_iff_ne_none.mpr marked]
  have turn : Holds (unlockPageTurn platform .declining) device.restarted.ready
      fun _ after => after.Unasked := by
    refine Holds.bind_ok mounted (Holds.bind_ok (found checked rfl) ?_)
    refine Holds.bind_ok (found _ rfl) ?_
    exact (unlockExistingVault_unasked.bind fun _ => Proc.Keeps.pure _) looked nofun
  have body : Holds (Action.body platform .declining .boot) device.restarted.ready
      fun _ after => after.Unasked := by
    refine reachedWhen_holds rfl ?_
    have page : Holds (vaultUnlock platform .declining) device.restarted.ready
        fun _ after => after.Unasked := by
      refine Holds.bind turn ?_ (fun _ _ unasked => unasked) fun _ unasked => unasked
      intro value after unasked
      cases value <;> exact unasked
    exact Holds.bind page (fun _ _ unasked => unasked) (fun _ _ unasked => unasked)
      fun _ unasked => unasked
  obtain ⟨outcome, after, unasked, result⟩ := perform_holds platform .declining body
  have shown : (perform platform device.restarted ⟨.boot, .declining⟩).history = after.history := by
    rw [result]
    split <;> rfl
  refine unasked false ?_
  rw [← shown, asked]
  exact List.mem_cons_self

end Offer

end VaultSeed.Vault
