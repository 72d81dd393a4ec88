import VaultSeed.Vault.Boot

/-! # The shape of the boot flow

Most of `VaultUnlock.run` only looks at the media and talks to the user (`Looks`). A
property that survives such steps (`Sheltered`) is kept by the whole flow as soon as the
parts that write keep it: the restore, the creation of a vault, and the opening of one.
-/

namespace VaultSeed.Vault

open Python Effect Proc

variable {platform : Platform} {env : Env} {α β : Type}

/-- A procedure that changes neither the media nor the vault in RAM. -/
def Looks (body : Run α) : Prop := ∀ device, Holds body device fun _ after => Still device after

section Looks

/-- Returning only looks. -/
theorem Looks.pure (value : α) : Looks (pure value) := Still.refl

private theorem Looks.throw (exn : Exn) : Looks (throw exn : Run α) := Still.refl

private theorem Looks.bind {first : Run α} {next : α → Run β} (begins : Looks first)
    (continues : ∀ value, Looks (next value)) : Looks (first >>= next) := by
  intro device
  refine Holds.bind (begins device) ?_ (fun _ _ still => still) (fun _ still => still)
  intro value middle still
  exact (continues value middle).mono fun _ _ => still.trans

private theorem Looks.tryExcept {body : Run α} {handler : Exn → Run α} (begins : Looks body)
    (handled : ∀ exn, Looks (handler exn)) : Looks (tryExcept body handler) := by
  intro device
  refine Holds.tryExcept (begins device) (fun _ _ still => still) ?_ (fun _ still => still)
  intro exn middle still
  exact (handled exn middle).mono fun _ _ => still.trans

/-- Mounting only looks. -/
theorem mount_looks (caller : Caller) : Looks (mount env caller) := by
  intro device
  refine (mount_holds env caller device).mono ?_
  rintro _ _ ⟨rfl, _⟩
  exact ⟨rfl, rfl⟩

/-- Reading only looks. -/
theorem read_looks (disk : Disk) (path : Path) : Looks (read env disk path) := by
  intro device
  refine (read_holds env disk path device).mono ?_
  rintro _ _ ⟨rfl, _⟩
  exact ⟨rfl, rfl⟩

/-- Reading a text only looks. -/
theorem readText_looks (disk : Disk) (path : Path) : Looks (readText env disk path) := by
  apply (read_looks disk path).bind
  intro data
  cases decode data with
  | none => exact Looks.throw _
  | some text => exact Looks.pure text

/-- Drawing random bytes only looks. -/
theorem randomBytes_looks (count : Nat) : Looks (randomBytes env count) := fun _ => ⟨rfl, rfl⟩

private theorem listSecrets_looks (disk : Disk) : Looks (listSecrets env disk) := by
  intro device
  refine fileOp_holds (fun _ _ => rfl) (fun _ _ _ _ => ⟨rfl, rfl⟩) fun _ => ?_
  unfold Holds
  beta_reduce
  split <;> exact ⟨rfl, rfl⟩

private theorem vaultExists_looks (disk : Disk) : Looks (vaultExists env disk) := by
  have stats : Looks (stat env disk .metaFile) := by
    intro device
    refine fileOp_holds (fun _ _ => rfl) (fun _ _ _ _ => ⟨rfl, rfl⟩) fun _ => ?_
    unfold Holds
    beta_reduce
    split <;> exact ⟨rfl, rfl⟩
  exact (stats.bind fun _ => Looks.pure true).tryExcept fun _ => Looks.pure false

private theorem prompt_looks (question : Question) : Looks (prompt env question) := fun _ =>
    ⟨rfl, rfl⟩

/-- A message and a value. -/
theorem report_looks (message : Message) (value : α) :
    Looks (do flashMessage message; pure value : Run α) := fun _ => ⟨rfl, rfl⟩

private theorem captureEntry_looks (title : Title) : Looks (captureEntry env title) := fun _ =>
    ⟨rfl, rfl⟩

private theorem saltBytes_looks (metadata : Meta) : Looks (saltBytes metadata) := by
  unfold saltBytes
  cases unhexlify metadata.salt with
  | none => exact Looks.throw _
  | some salt => exact Looks.pure salt

private theorem getPassphrase_looks : Looks (getPassphrase env) := by
  apply (captureEntry_looks .passphrase).bind
  intro entry
  cases entry with
  | none => exact Looks.pure _
  | some passphrase => exact report_looks _ _

private theorem getConfirmedPassphrase_looks : Looks (getConfirmedPassphrase env) := by
  apply getPassphrase_looks.bind
  intro entry
  cases entry with
  | none => exact Looks.pure _
  | some first =>
      apply (captureEntry_looks .confirmPassphrase).bind
      intro again
      cases again with
      | none => exact Looks.pure _
      | some second =>
          change Looks (if first ≠ second then _ else _)
          split
          · exact report_looks _ _
          · exact Looks.pure _

private theorem checkSdCard_looks : Looks (checkSdCard env) := fun device =>
  (checkSdCard_holds device).mono fun _ _ checked => checked.1

end Looks

/-- A property of the device that depends on its files, its directories and the vault in
RAM, and what is left of it when the power is lost. -/
structure Sheltered (kept lost : Device → Prop) : Prop where
  sameFiles : ∀ {before after : Device}, kept before → SameFiles before after → kept after
  weaker : ∀ device, kept device → lost device

namespace Sheltered

variable {kept begun lost : Device → Prop}

/-- What only looks guards a sheltered property. -/
theorem looks (sheltered : Sheltered kept lost) {body : Run α} (still : Looks body) :
    Guards kept lost body := fun device holds =>
  (still device).mono fun _ _ same =>
    guarded_of_kept sheltered.weaker (sheltered.sameFiles holds same.sameFiles)

/-- Making directories guards a sheltered property. -/
theorem ensureDirs (sheltered : Sheltered kept lost) (disk : Disk) :
    Guards kept lost (ensureDirs env disk) := by
  intro device holds
  refine (ensureDirs_holds disk device).mono fun _ after ended => ?_
  exact guarded_of_kept sheltered.weaker (sheltered.sameFiles holds ended.1.sameFiles)

private theorem ignoringOsError {body : Run Unit} (begins : Guards kept lost body) :
    Guards kept lost (ignoringOsError body) :=
  begins.tryExcept fun exn => (Guards.pure _).ite (Guards.throw exn)

/-- The restore, in two phases: what holds before the metadata are on the card, and what
holds from then on. -/
theorem restoreFromFlash (sheltered : Sheltered kept lost) (sheltering : Sheltered begun lost)
    (weaker : ∀ device, begun device → kept device)
    (header : Leads kept begun lost (restoreMeta env))
    (manifest : Guards begun lost (restoreManifest env))
    (secret : ∀ filename, Guards begun lost (restoreSecret env filename)) :
    Guards kept lost (restoreFromFlash env) := by
  have secrets : Guards begun lost (restoreSecrets env) :=
    (sheltering.ensureDirs .sd).bind fun _ => (sheltering.looks (listSecrets_looks .flash)).bind
      fun names => (sheltering.looks (mount_looks .restoreSecrets)).bind fun _ =>
        Guards.forM secret names
  apply (sheltered.ensureDirs .sd).bind
  intro _
  apply Leads.guards _ weaker
  apply header.bind weaker
  intro _
  exact (ignoringOsError manifest).bind fun _ => ignoringOsError secrets

/-- The loop of the creation keeps what the saving of the first manifest keeps. -/
theorem creation (sheltering : Sheltered begun lost)
    (saves : ∀ passphrase salt,
      Guards begun lost (saveManifest platform env (deriveKey platform passphrase salt) .empty))
    (sets : ∀ cipher manifest, Guards begun lost (setVault cipher manifest)) (metadata : Meta)
    (count : Nat) :
    Guards begun lost (Proc.loop (creationTurn platform env metadata) Proc.off count) := by
  apply Guards.loop _ (Guards.off sheltering.weaker)
  apply (sheltering.looks getConfirmedPassphrase_looks).bind
  intro entry
  cases entry with
  | mismatched => exact Guards.pure _
  | cancelled => exact Guards.pure _
  | entered passphrase =>
      apply Guards.map
      apply Guards.tryExcept
      · apply (sheltering.looks (saltBytes_looks metadata)).bind
        intro salt
        exact (saves passphrase salt).bind fun _ => (sets _ _).bind fun _ => Guards.pure true
      · exact fun exn => sheltering.looks (report_looks _ _)

/-- The creation, in two phases: what holds before the metadata are written, and what holds
from then on. -/
theorem createNewVault (sheltered : Sheltered kept lost) (sheltering : Sheltered begun lost)
    (weaker : ∀ device, begun device → kept device)
    (initializes : Leads kept begun lost (initializeVault platform env))
    (saves : ∀ passphrase salt,
      Guards begun lost (saveManifest platform env (deriveKey platform passphrase salt) .empty))
    (sets : ∀ cipher manifest, Guards begun lost (setVault cipher manifest)) :
    Guards kept lost (createNewVault platform env) := by
  intro device holds
  have initializing : Holds (tryExcept (some <$> initializeVault platform env) fun exn => (do
      flashMessage (.failedToInitialize exn)
      pure none : Run (Option Meta))) device fun outcome after =>
      (∃ metadata, outcome = .ok (some metadata) ∧ begun after) ∨
      (outcome = .ok none ∧ kept after) ∨ (outcome = .off ∧ lost after) := by
    refine Holds.tryExcept (Holds.map (initializes device holds)) ?_ ?_ ?_
    · rintro value after ⟨inner, ended, same⟩
      cases inner <;> cases same
      exact .inl ⟨_, rfl, ended⟩
    · rintro exn after ⟨inner, ended, same⟩
      cases inner <;> cases same
      refine .inr (.inl ⟨rfl, sheltered.sameFiles ended ?_⟩)
      exact Still.sameFiles ⟨rfl, rfl⟩
    · rintro after ⟨inner, ended, same⟩
      cases inner <;> cases same
      exact .inr (.inr ⟨rfl, ended⟩)
  refine Holds.bind initializing ?_ ?_ ?_
  · rintro value after (⟨metadata, same, started⟩ | ⟨same, still⟩ | ⟨same, _⟩) <;> cases same
    · refine (sheltering.creation saves sets metadata env.patience after started).mono ?_
      intro outcome later ended
      cases outcome with
      | ok value => exact weaker later ended
      | raised exn => exact weaker later ended
      | off => exact ended
    · exact still
  · rintro exn after (⟨metadata, same, _⟩ | ⟨same, _⟩ | ⟨same, _⟩) <;> cases same
  · rintro after (⟨metadata, same, _⟩ | ⟨same, _⟩ | ⟨same, ended⟩) <;> cases same
    exact ended

/-- A property that the opening of a vault keeps. -/
def Opens (platform : Platform) (env : Env) (kept : Device → Prop) : Prop :=
  ∀ {before after : Device} {salt : Bytes} {passphrase : Text} {manifest : Manifest},
    kept before → Opened platform env before after salt passphrase manifest → kept after

private theorem unlockExistingVault (sheltered : Sheltered kept lost)
    (opens : Opens platform env kept) :
    Guards kept lost (unlockExistingVault platform env) := by
  intro device holds
  refine (unlockExistingVault_holds device).mono fun outcome after ended => ?_
  apply guarded_of_kept sheltered.weaker
  rcases ended.2 with still | ⟨_, salt, passphrase, manifest, opened⟩
  · exact sheltered.sameFiles holds still.sameFiles
  · exact opens holds opened

private theorem unlockWhenPresent (sheltered : Sheltered kept lost)
    (opens : Opens platform env kept) :
    Guards kept lost (unlockWhenPresent platform env) := by
  apply (sheltered.looks (vaultExists_looks .sd)).bind
  intro present
  exact (Guards.map some (sheltered.unlockExistingVault opens)).ite (Guards.pure none)

/-- **The boot flow keeps what its parts keep.** -/
theorem vaultUnlock (sheltered : Sheltered kept lost) (opens : Opens platform env kept)
    (restores : Guards kept lost (Vault.restoreFromFlash env))
    (creates : Guards kept lost (Vault.createNewVault platform env)) :
    Guards kept lost (vaultUnlock platform env) := by
  have restoring : Guards kept lost (restoreVault env) :=
    (restores.bind fun _ => sheltered.looks (report_looks _ _)).tryExcept fun exn =>
      sheltered.looks (report_looks _ _)
  apply Guards.loop _ (Guards.off sheltered.weaker)
  apply (sheltered.looks checkSdCard_looks).bind
  intro found
  apply Guards.ite _ (Guards.pure _)
  apply (sheltered.looks (vaultExists_looks .sd)).bind
  intro present
  apply Guards.ite (sheltered.unlockWhenPresent opens)
  apply (sheltered.looks (vaultExists_looks .flash)).bind
  intro mirrored
  apply Guards.ite
  · apply (sheltered.looks (prompt_looks .restoreBackup)).bind
    intro agreed
    apply Guards.ite _ (Guards.pure _)
    apply restoring.bind
    intro restored
    exact (sheltered.unlockWhenPresent opens).ite (Guards.pure none)
  · apply (sheltered.looks (prompt_looks .createNewVault)).bind
    intro agreed
    exact (Guards.map some creates).ite (Guards.pure _)

end Sheltered

/-- **What a boot leaves of a locked device**: the property, or after a cut what is left of
it. -/
theorem perform_boot_guarded {kept lost : Device → Prop} {device : Device}
    (locked : device.vault = none) (guards : Guards kept lost (vaultUnlock platform env))
    (holds : kept device.ready) :
    kept (perform platform device ⟨.boot, env⟩) ∨
      ∃ after, lost after ∧ perform platform device ⟨.boot, env⟩ = after.restarted := by
  have body : Holds (Action.body platform env .boot) device.ready (guarded kept lost) := by
    refine reachedWhen_holds (by rw [unlocked_ready locked]; rfl) ?_
    exact guards.bind (fun _ => Guards.pure _) _ holds
  obtain ⟨outcome, after, ended, result⟩ := perform_holds platform env body
  rw [result]
  cases outcome with
  | ok value => exact .inl ended
  | raised exn => exact .inl ended
  | off => exact .inr ⟨after, ended, rfl⟩

end VaultSeed.Vault
