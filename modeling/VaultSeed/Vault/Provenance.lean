import VaultSeed.Foundation.Runs
import VaultSeed.Vault.Saving

/-! # Where the files come from

Every call of `save_secret` and of `save_manifest` is noted with the envelope it made
(`VaultSeed.Vault.Device.saves`). Whatever fails in a run, what a file holds is the
envelope of a noted call for this file, or the part of it that a torn write left
(`run_provenance`); `vault.meta` alone is written by others.
-/

namespace VaultSeed.Vault

open Python Effect Proc

/-- The envelope of one of the saves of a file, or a part of it. -/
def Owned (saves : List Save) (path : Path) (data : Bytes) : Prop :=
  ∃ save ∈ saves, save.path = path ∧ ∃ left, data = save.envelope.take left

section Owned

variable {saves : List Save} {path : Path} {data : Bytes}

private theorem Owned.take (owned : Owned saves path data) (left : Nat) :
    Owned saves path (data.take left) := by
  obtain ⟨save, member, same, longer, rfl⟩ := owned
  exact ⟨save, member, same, min left longer, List.take_take⟩

private theorem Owned.cons (owned : Owned saves path data) (save : Save) :
    Owned (save :: saves) path data := by
  obtain ⟨earlier, member, written⟩ := owned
  exact ⟨earlier, List.mem_cons_of_mem _ member, written⟩

private theorem Owned.head (save : Save) : Owned (save :: saves) save.path save.envelope :=
  ⟨save, List.mem_cons_self, rfl, save.envelope.length, List.take_length.symm⟩

end Owned

/-- The device on which these saves were made: their envelopes are sealed, and the files
hold what they wrote. -/
structure Written (platform : Platform) (saves : List Save) (device : Device) : Prop where
  noted : device.saves = saves
  sealed : ∀ save ∈ saves, save.Sealed platform
  content : ∀ disk path data, path ≠ .metaFile → (device.disk disk).get path = some data →
    Owned saves path data

/-- **The invariant of provenance**: what a file holds was written by a noted save of it. -/
def Provenance (platform : Platform) (device : Device) : Prop :=
  Written platform device.saves device

variable {platform : Platform} {env : Env} {saves : List Save} {device : Device} {α : Type}

namespace Written

private theorem provenance (written : Written platform saves device) :
    Provenance platform device := by
  rw [Provenance, written.noted]
  exact written

private theorem of_files {after : Device} (written : Written platform saves device)
    (noted : after.saves = device.saves)
    (get : ∀ disk path, (after.disk disk).get path = (device.disk disk).get path) :
    Written platform saves after :=
  ⟨noted.trans written.noted, written.sealed, fun disk path data notMeta stored =>
    written.content disk path data notMeta (get disk path ▸ stored)⟩

private theorem setDisk (written : Written platform saves device) (disk : Disk) {medium : Medium}
    (content : ∀ path data, path ≠ .metaFile → medium.get path = some data →
      Owned saves path data) : Written platform saves (device.setDisk disk medium) := by
  refine ⟨written.noted, written.sealed, fun other path data notMeta stored => ?_⟩
  by_cases same : other = disk
  · subst same
    rw [Device.setDisk, setDisk_disk] at stored
    exact content path data notMeta stored
  · rw [Device.setDisk, disk_setDisk_of_ne _ _ same] at stored
    exact written.content other path data notMeta stored

/-- A file is written with what is its own. -/
theorem put (written : Written platform saves device) (disk : Disk) {path : Path} {data : Bytes}
    (owned : path ≠ .metaFile → Owned saves path data) :
    Written platform saves (device.setDisk disk ((device.disk disk).put path data)) := by
  refine written.setDisk disk fun file content notMeta stored => ?_
  rw [Medium.get_put] at stored
  split at stored
  · rename_i same
    cases stored
    subst same
    exact owned notMeta
  · exact written.content disk file content notMeta stored

private theorem erase (written : Written platform saves device) (disk : Disk) (path : Path) :
    Written platform saves (device.setDisk disk ((device.disk disk).erase path)) := by
  refine written.setDisk disk fun file content notMeta stored => ?_
  rw [Medium.get_erase] at stored
  split at stored
  · cases stored
  · exact written.content disk file content notMeta stored

end Written

section Operations

/-- An operation keeps what its body keeps, when a cut in it does. -/
theorem fileOp_written {op : FileOp} {torn : Nat → Device → Device} {body : Run α}
    (cut : ∀ left device, Written platform saves device →
      Written platform saves (torn left device))
    (runs : Keeps (Written platform saves) body) :
    Keeps (Written platform saves) (fileOp env op torn body) := by
  intro device written
  have begun : Written platform saves (device.push op) := written.of_files rfl fun _ _ => rfl
  unfold Holds
  cases fate : env.fate device op with
  | none =>
      rw [fileOp_none fate]
      exact runs _ begun
  | raise =>
      rw [fileOp_raise fate]
      exact begun
  | cut left =>
      rw [fileOp_cut fate]
      exact cut left _ begun

/-- An operation that only looks. -/
theorem look_written {op : FileOp} {body : Run α} (still : ∀ device, (body device).2 = device) :
    Keeps (Written platform saves) (fileOp env op (fun _ device => device) body) := by
  refine fileOp_written (fun _ _ => id) fun device written => ?_
  unfold Holds
  rwa [still device]

private theorem mount_written (caller : Caller) :
    Keeps (Written platform saves) (mount env caller) :=
  look_written fun _ => rfl

private theorem stat_written (disk : Disk) (path : Path) :
    Keeps (Written platform saves) (stat env disk path) :=
  look_written fun _ => by split <;> rfl

private theorem listSecrets_written (disk : Disk) :
    Keeps (Written platform saves) (listSecrets env disk) :=
  look_written fun _ => by split <;> rfl

private theorem read_written (disk : Disk) (path : Path) :
    Keeps (Written platform saves) (read env disk path) :=
  look_written fun _ => by split <;> rfl

private theorem ensureDir_written (disk : Disk) (dir : Dir) :
    Keeps (Written platform saves) (ensureDir env disk dir) := by
  refine Keeps.tryExcept (look_written fun _ => by split <;> rfl) fun _ => ?_
  refine fileOp_written (fun _ _ => id) fun device written => ?_
  unfold Holds
  beta_reduce
  split
  · exact written
  · refine written.setDisk disk fun path data notMeta stored => ?_
    rw [Medium.get_addDir] at stored
    exact written.content disk path data notMeta stored

private theorem ensureDirs_written (disk : Disk) :
    Keeps (Written platform saves) (ensureDirs env disk) :=
  (ensureDir_written disk .vault).bind fun _ => ensureDir_written disk .secrets

private theorem writeFile_written (disk : Disk) {path : Path} {data : Bytes}
    (owned : path ≠ .metaFile → Owned saves path data) :
    Keeps (Written platform saves) (writeFile env disk path data) := by
  refine Keeps.bind (fileOp_written (fun _ _ => id) fun device written => ?_) fun _ => ?_
  · unfold Holds
    beta_reduce
    split
    · exact written.put disk fun notMeta => (owned notMeta).take 0
    · exact written
  · refine Keeps.ite (Keeps.pure ()) (fileOp_written (fun left device written => ?_) ?_)
    · exact written.put disk fun notMeta => (owned notMeta).take left
    · exact Keeps.modify fun _ written => written.put disk owned

private theorem writeWithMirror_written {path : Path} {data : Bytes}
    (owned : path ≠ .metaFile → Owned saves path data) :
    Keeps (Written platform saves) (writeWithMirror env path data) := by
  apply (mount_written _).bind
  intro _
  apply (writeFile_written .sd owned).bind
  intro _
  exact (writeFile_written .flash owned).tryExcept fun _ => Keeps.pure ()

private theorem deleteWithMirror_written (path : Path) :
    Keeps (Written platform saves) (deleteWithMirror env path) := by
  have removes : ∀ disk, Keeps (Written platform saves) (ignoring (remove env disk path)) := by
    intro disk
    refine Keeps.tryExcept ?_ fun _ => Keeps.pure ()
    refine fileOp_written (fun _ _ => id) fun device written => ?_
    unfold Holds
    beta_reduce
    split
    · exact written.erase disk path
    · exact written
  exact (removes .sd).bind fun _ => removes .flash

/-- A conversation with the user, and a change of the vault in RAM. -/
theorem modify_written {change : Device → Device} (noted : ∀ device, (change device).saves =
    device.saves) (media : ∀ device, (change device).toMedia = device.toMedia) :
    Keeps (Written platform saves) (Proc.modify change : Run Unit) := fun device written =>
  written.of_files (noted device) fun disk path =>
    congrArg (fun media : Media => (media.disk disk).get path) (media device)

private theorem flashMessage_written (message : Message) :
    Keeps (Written platform saves) (flashMessage message) :=
  modify_written (fun _ => rfl) fun _ => rfl

private theorem prompt_written (question : Question) :
    Keeps (Written platform saves) (prompt env question) :=
  fun _ written => written.of_files rfl fun _ _ => rfl

private theorem captureFromKeypad_written (title : Title) :
    Keeps (Written platform saves) (captureFromKeypad env title) :=
  fun _ written => written.of_files rfl fun _ _ => rfl

private theorem captureEntry_written (title : Title) :
    Keeps (Written platform saves) (captureEntry env title) :=
  (captureFromKeypad_written title).bind fun _ => Keeps.pure _

end Operations

section Reading

private theorem vaultExists_written (disk : Disk) :
    Keeps (Written platform saves) (vaultExists env disk) :=
  ((stat_written disk .metaFile).bind fun _ => Keeps.pure true).tryExcept fun _ =>
    Keeps.pure false

private theorem readText_written (disk : Disk) (path : Path) :
    Keeps (Written platform saves) (readText env disk path) := by
  apply (read_written disk path).bind
  intro data
  cases decode data with
  | none => exact Keeps.throw _
  | some text => exact Keeps.pure text

private theorem loadMeta_written : Keeps (Written platform saves) (loadMeta platform env) := by
  apply (mount_written .loadMeta).bind
  intro _
  apply (readText_written .sd .metaFile).bind
  intro text
  cases platform.metas.loads text with
  | none => exact Keeps.throw _
  | some metadata => exact Keeps.pure metadata

private theorem loadManifest_written {Doc : Type} (json : Ujson Doc) (empty : Doc)
    (cipher : Kef.Cipher) :
    Keeps (Written platform saves) (loadManifest platform env json empty cipher) := by
  refine Keeps.bind (Keeps.tryExcept ?_ fun _ => Keeps.pure none) fun data => ?_
  · exact (mount_written .loadManifest).bind fun _ =>
      (read_written .sd .manifestFile).bind fun _ => Keeps.pure _
  · cases data with
    | none => exact Keeps.pure _
    | some data => exact Keeps.pure _

private theorem saltBytes_written (metadata : Meta) :
    Keeps (Written platform saves) (saltBytes metadata) := by
  unfold saltBytes
  cases unhexlify metadata.salt with
  | none => exact Keeps.throw _
  | some salt => exact Keeps.pure salt

end Reading

section Restoring

/-- A file copied from flash to the card keeps its owner. -/
theorem copy_written (path : Path) (notMeta : path ≠ .metaFile) {between : Run Unit}
    (keeps : Keeps (Written platform saves) between) :
    Keeps (Written platform saves) (do
      let data ← read env .flash path
      between
      writeFile env .sd path data) := by
  intro device written
  have looked : Written platform saves (device.push (.read .flash path)) :=
    written.of_files rfl fun _ _ => rfl
  refine Holds.bind (read_holds env .flash path device) ?_ ?_ ?_
  · rintro data _ ⟨rfl, ⟨_, stops, _⟩ | ⟨_, result⟩⟩
    · cases stops
    cases stored : (device.disk .flash).get path with
    | none =>
        rw [stored] at result
        cases result
    | some content =>
        rw [stored] at result
        cases result
        have owned : Owned saves path data := written.content .flash path data notMeta stored
        exact keeps.bind (fun _ => writeFile_written .sd fun _ => owned) _ looked
  · rintro _ _ ⟨rfl, _⟩
    exact looked
  · rintro _ ⟨rfl, _⟩
    exact looked

private theorem ignoringOsError_written {body : Run Unit}
    (keeps : Keeps (Written platform saves) body) :
    Keeps (Written platform saves) (ignoringOsError body) :=
  keeps.tryExcept fun exn => (Keeps.pure ()).ite (Keeps.throw exn)

private theorem restoreFromFlash_written : Keeps (Written platform saves)
    (restoreFromFlash env) := by
  have header : Keeps (Written platform saves) (restoreMeta env) := by
    apply (readText_written .flash .metaFile).bind
    intro text
    apply (mount_written .restoreMeta).bind
    exact fun _ => writeFile_written .sd fun notMeta => absurd rfl notMeta
  have secrets : Keeps (Written platform saves) (restoreSecrets env) := by
    apply (ensureDirs_written .sd).bind
    intro _
    apply (listSecrets_written .flash).bind
    intro names
    apply (mount_written .restoreSecrets).bind
    intro _
    exact Keeps.forM (fun filename => copy_written (.secretFile filename) nofun (Keeps.pure ()))
      names
  apply (ensureDirs_written .sd).bind
  intro _
  apply header.bind
  intro _
  apply (ignoringOsError_written (copy_written .manifestFile nofun (mount_written _))).bind
  exact fun _ => ignoringOsError_written secrets

private theorem initializeVault_written :
    Keeps (Written platform saves) (initializeVault platform env) := by
  apply (ensureDirs_written .sd).bind
  intro _
  apply (ensureDirs_written .flash).bind
  intro _
  refine Keeps.bind (fun _ written => written) fun salt => ?_
  exact (writeWithMirror_written fun notMeta => absurd rfl notMeta).bind fun _ => Keeps.pure _

end Restoring

/-- A procedure that makes no save. -/
theorem Written.keeps {body : Run α}
    (keeps : ∀ saves, Keeps (Written platform saves) body) : Keeps (Provenance platform) body :=
  fun device kept => (keeps device.saves device kept).mono fun _ _ => Written.provenance

section Saving

/-- **A save owns what it writes.** -/
theorem saveEnvelope_provenance {cipher : Kef.Cipher} {id plaintext : Bytes} {path : Path}
    {call : Bytes → Save} (named : ∀ envelope, (call envelope).path = path)
    (made : ∀ envelope, (call envelope).envelope = envelope)
    (seals : ∀ envelope, Seals platform cipher id plaintext envelope →
      (call envelope).Sealed platform) :
    Keeps (Provenance platform) (saveEnvelope platform env cipher id path plaintext call) := by
  intro device kept
  unfold Holds saveEnvelope
  rw [bind_ok (show randomBytes env 12 device = (.ok (env.vector device), device) from rfl)]
  cases sealed : sealEnvelope platform cipher id plaintext (env.vector device) with
  | error exn =>
      rw [ofExcept_error, bind_raised (throw_apply exn)]
      exact kept
  | ok envelope =>
      rw [ofExcept_ok, bind_ok (pure_apply envelope), bind_ok (modify_apply _)]
      have noted : Written platform (call envelope :: device.saves)
          (device.noteSave (call envelope)) := by
        refine ⟨rfl, List.forall_mem_cons.mpr ⟨seals envelope (Saved.seals sealed), kept.sealed⟩,
          fun disk path data notMeta stored => ?_⟩
        exact (kept.content disk path data notMeta stored).cons _
      have owned : Owned (call envelope :: device.saves) path envelope := by
        have head := @Owned.head device.saves (call envelope)
        rwa [named, made] at head
      exact (writeWithMirror_written (fun _ => owned) _ noted).provenance

private theorem saveManifest_provenance (cipher : Kef.Cipher) (manifest : Manifest) :
    Keeps (Provenance platform) (saveManifest platform env cipher manifest) :=
  saveEnvelope_provenance (fun _ => rfl) (fun _ => rfl) fun _ => id

private theorem saveSecret_provenance (cipher : Kef.Cipher) (secretId : Text) (plaintext : Bytes) :
    Keeps (Provenance platform) (saveSecret platform env cipher secretId plaintext) :=
  saveEnvelope_provenance (fun _ => rfl) (fun _ => rfl) fun _ => id

private theorem setVault_provenance (cipher : Kef.Cipher) (manifest : Manifest) :
    Keeps (Provenance platform) (setVault cipher manifest) :=
  Written.keeps fun _ => modify_written (fun _ => rfl) fun _ => rfl

/-- A message and a value. -/
theorem report_provenance (message : Message) (value : α) :
    Keeps (Provenance platform) (do flashMessage message; pure value : Run α) :=
  (Written.keeps fun _ => flashMessage_written message).bind fun _ => Keeps.pure value

end Saving

section Boot

private theorem getPassphrase_provenance : Keeps (Provenance platform) (getPassphrase env) := by
  apply (Written.keeps fun _ => captureEntry_written .passphrase).bind
  intro entry
  cases entry with
  | none => exact Keeps.pure _
  | some passphrase => exact report_provenance _ _

private theorem getConfirmedPassphrase_provenance :
    Keeps (Provenance platform) (getConfirmedPassphrase env) := by
  apply getPassphrase_provenance.bind
  intro entry
  cases entry with
  | none => exact Keeps.pure _
  | some first =>
      apply (Written.keeps fun _ => captureEntry_written .confirmPassphrase).bind
      intro again
      cases again with
      | none => exact Keeps.pure _
      | some second => exact (report_provenance _ _).ite (Keeps.pure _)

private theorem finishCreation_provenance (metadata : Meta) (passphrase : Text) :
    Keeps (Provenance platform) (finishCreation platform env metadata passphrase) := by
  refine Keeps.tryExcept ?_ fun exn => report_provenance _ _
  apply (Written.keeps fun _ => saltBytes_written metadata).bind
  intro salt
  apply (saveManifest_provenance _ _).bind
  intro _
  exact (setVault_provenance _ _).bind fun _ => Keeps.pure true

private theorem createNewVault_provenance :
    Keeps (Provenance platform) (createNewVault platform env) := by
  refine Keeps.bind (Keeps.tryExcept ?_ fun exn => report_provenance _ _) fun initialized => ?_
  · exact (Written.keeps fun _ => initializeVault_written).map some
  · cases initialized with
    | none => exact Keeps.pure _
    | some metadata =>
        refine Keeps.loop (getConfirmedPassphrase_provenance.bind fun entry => ?_) Keeps.off _
        cases entry with
        | mismatched => exact Keeps.pure _
        | cancelled => exact Keeps.pure _
        | entered passphrase => exact (finishCreation_provenance metadata passphrase).map some

private theorem unlockTurn_provenance (salt : Bytes) :
    Keeps (Provenance platform) (unlockTurn platform env salt) := by
  apply getPassphrase_provenance.bind
  intro entry
  cases entry with
  | none => exact Keeps.pure _
  | some passphrase =>
      apply (Written.keeps fun _ => loadManifest_written _ _ _).bind
      intro loaded
      cases loaded with
      | none => exact report_provenance _ _
      | some manifest => exact (setVault_provenance _ _).bind fun _ => Keeps.pure _

private theorem unlockExistingVault_provenance :
    Keeps (Provenance platform) (unlockExistingVault platform env) := by
  refine Keeps.bind (Keeps.tryExcept ?_ fun exn => report_provenance _ _) fun loaded => ?_
  · exact (Written.keeps fun _ => loadMeta_written).bind fun metadata =>
      (Written.keeps fun _ => saltBytes_written metadata).map some
  · cases loaded with
    | none => exact Keeps.pure _
    | some salt => exact Keeps.loop (unlockTurn_provenance salt) (report_provenance _ _) 5

private theorem unlockWhenPresent_provenance :
    Keeps (Provenance platform) (unlockWhenPresent platform env) := by
  apply (Written.keeps fun _ => vaultExists_written .sd).bind
  intro present
  exact (unlockExistingVault_provenance.map some).ite (Keeps.pure none)

/-- **The boot flow keeps the provenance of the files**, whatever fails in it. -/
theorem vaultUnlock_provenance : Keeps (Provenance platform) (vaultUnlock platform env) := by
  have checking : Keeps (Provenance platform) (checkSdCard env) := by
    refine Written.keeps fun _ => Keeps.tryExcept ?_ fun _ => prompt_written _
    exact (mount_written _).bind fun _ => Keeps.pure true
  have restoring : Keeps (Provenance platform) (restoreVault env) := by
    refine Keeps.tryExcept ?_ fun exn => report_provenance _ _
    exact (Written.keeps fun _ => restoreFromFlash_written).bind fun _ => report_provenance _ _
  refine Keeps.loop (checking.bind fun found => Keeps.ite ?_ (Keeps.pure _)) Keeps.off _
  apply (Written.keeps fun _ => vaultExists_written .sd).bind
  intro present
  apply unlockWhenPresent_provenance.ite
  apply (Written.keeps fun _ => vaultExists_written .flash).bind
  intro mirrored
  apply Keeps.ite
  · apply (Written.keeps fun _ => prompt_written .restoreBackup).bind
    intro agreed
    apply Keeps.ite _ (Keeps.pure _)
    apply restoring.bind
    intro restored
    exact unlockWhenPresent_provenance.ite (Keeps.pure none)
  · apply (Written.keeps fun _ => prompt_written .createNewVault).bind
    intro agreed
    exact (createNewVault_provenance.map some).ite (Keeps.pure _)

end Boot

section Pages

private theorem currentVault_provenance : Keeps (Provenance platform) currentVault := by
  intro device kept
  unfold Holds currentVault
  split <;> exact kept

private theorem setManifest_provenance (manifest : Manifest) :
    Keeps (Provenance platform) (setManifest manifest) :=
  Written.keeps fun _ => modify_written (fun _ => rfl) fun _ => rfl

private theorem storeSecret_provenance (text label : Text) (secretType : SecretType) :
    Keeps (Provenance platform) (storeSecret platform env text label secretType) := by
  apply currentVault_provenance.bind
  intro vault
  apply (Keeps.ofExcept _).bind
  intro secretId
  apply (saveSecret_provenance _ _ _).bind
  intro _
  refine Keeps.bind (fun _ kept => kept) fun createdAt => ?_
  apply (setManifest_provenance _).bind
  intro _
  apply (saveManifest_provenance _ _).bind
  exact fun _ => Written.keeps fun _ => flashMessage_written _

private theorem vaultAdd_provenance (text : Text) :
    Keeps (Provenance platform) (vaultAdd platform env text) := by
  have confirms : ∀ secretType, Keeps (Provenance platform) (confirmStore env secretType) := by
    intro secretType
    have warned : Keeps (Provenance platform) (confirmWarning env secretType) :=
      (Written.keeps fun _ => prompt_written _).ite (Keeps.pure true)
    refine warned.bind fun goesOn => Keeps.ite ?_ (Keeps.pure none)
    apply (Written.keeps fun _ => captureFromKeypad_written .label).bind
    intro entry
    cases entry with
    | none => exact Keeps.pure none
    | some entry =>
        refine Keeps.ite (Keeps.pure none) ?_
        exact (Written.keeps fun _ => prompt_written _).bind fun _ =>
          (Keeps.pure _).ite (Keeps.pure none)
  refine Keeps.ite (Keeps.pure ()) ((confirms _).bind fun label => ?_)
  cases label with
  | none => exact Keeps.pure ()
  | some label =>
      exact (storeSecret_provenance text label _).tryExcept fun exn =>
        Written.keeps fun _ => flashMessage_written _

private theorem vaultViewDelete_provenance (secretId : Text) :
    Keeps (Provenance platform) (vaultViewDelete platform env secretId) := by
  apply (Written.keeps fun _ => prompt_written .deleteSecret).bind
  intro agreed
  refine Keeps.ite (Keeps.tryExcept ?_ fun exn => Written.keeps fun _ => flashMessage_written _)
    (Keeps.pure ())
  apply (Written.keeps fun _ => deleteWithMirror_written (secretPath secretId)).bind
  intro _
  apply currentVault_provenance.bind
  intro vault
  apply (setManifest_provenance _).bind
  intro _
  apply (saveManifest_provenance _ _).bind
  exact fun _ => Written.keeps fun _ => flashMessage_written _

end Pages

/-- **A step keeps the provenance of the files**, whatever fails in it. -/
theorem perform_provenance (kept : Provenance platform device) (step : Step) :
    Provenance platform (perform platform device step) := by
  have ready : Provenance platform device.ready := ⟨rfl, kept.sealed, kept.content⟩
  have reached : ∀ {unlocked : Bool} {page : Run Unit}, Keeps (Provenance platform) page →
      Keeps (Provenance platform) (reachedWhen unlocked page) := by
    intro unlocked page keeps device kept
    unfold Holds reachedWhen
    split
    · exact keeps device kept
    · exact kept
  have body : Keeps (Provenance platform) (step.action.body platform step.env) := by
    cases step.action with
    | boot => exact reached (vaultUnlock_provenance.bind fun _ => Keeps.pure ())
    | add text => exact reached (vaultAdd_provenance text)
    | delete secretId => exact reached (vaultViewDelete_provenance secretId)
    | lock => exact Written.keeps fun _ => modify_written (fun _ => rfl) fun _ => rfl
  have ended := body device.ready ready
  unfold Holds at ended
  unfold perform
  split
  · rename_i after ran
    rw [ran] at ended
    exact ⟨rfl, ended.sealed, ended.content⟩
  · rename_i after _ ran
    rwa [ran] at ended

/-- The saves of a run. -/
def savesOf (platform : Platform) (steps : List Step) : List Save :=
  (run platform .fresh steps).saves

/-- **Every file of a run was written by one of its saves.** -/
theorem run_provenance (platform : Platform) (steps : List Step) :
    Provenance platform (run platform .fresh steps) := by
  have blank : Provenance platform .fresh := by
    refine ⟨rfl, fun _ none => absurd none List.not_mem_nil, fun disk path data _ stored => ?_⟩
    cases disk <;> cases stored
  have stepped : ∀ device step, True → Provenance platform device →
      Provenance platform (perform platform device step) :=
    fun _ step _ kept => perform_provenance kept step
  exact Runs.foldl_invariant stepped _ _ (Runs.along_of_forall _ _ fun _ _ _ => trivial) blank

end VaultSeed.Vault
