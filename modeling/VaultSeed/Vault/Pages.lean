import VaultSeed.Vault.Manager

/-! # The pages of the vault

`VaultUnlock`, `VaultAdd` and the deletion of `VaultView`, and the runs of the
device as sequences of such actions. The manifest in RAM is one object: the pages
change it in place, before they save it.
-/

namespace VaultSeed.Vault

open Python Effect

/-- The result of `_get_passphrase`: cancelled (`None`), mismatched (`""`), or the
passphrase. -/
inductive Passphrase where
  | cancelled
  | mismatched
  | entered (passphrase : Text)
  deriving DecidableEq, Repr

section VaultUnlock

variable (platform : Platform) (env : Env)

/-- `_check_sd_card`. -/
def checkSdCard : Run Bool :=
  Proc.tryExcept (do mount env .checkSdCard; pure true) fun _ => prompt env .retry

/-- An entry of the passphrase keypad; escape and the empty entry cancel. -/
def captureEntry (title : Title) : Run (Option Text) := do
  let entry ← captureFromKeypad env title
  pure (entry.filter (· ≠ []))

/-- `_get_passphrase(confirm=False)`. -/
def getPassphrase : Run (Option Text) := do
  match ← captureEntry env .passphrase with
  | none => pure none
  | some first => do
      flashMessage .strength
      pure (some first)

/-- `_get_passphrase(confirm=True)`. -/
def getConfirmedPassphrase : Run Passphrase := do
  match ← getPassphrase env with
  | none => pure .cancelled
  | some first =>
      match ← captureEntry env .confirmPassphrase with
      | none => pure .cancelled
      | some second =>
          if first ≠ second then do
            flashMessage .passphrasesDoNotMatch
            pure .mismatched
          else pure (.entered first)

/-- `unhexlify(meta["salt"])`. -/
def saltBytes (metadata : Meta) : Run Bytes :=
  match unhexlify metadata.salt with
  | some salt => pure salt
  | none => Proc.throw (.valueError "non-hex digit found")

/-- `_derive_key_with_ui`. -/
def deriveKey (passphrase : Text) (salt : Bytes) : Kef.Cipher :=
  Kef.Cipher.new platform.crypto (encode passphrase) salt kefIterations

/-- `ctx.vault = VaultState(...)`. -/
def setVault (cipher : Kef.Cipher) (manifest : Manifest) : Run Unit :=
  Proc.modify fun device =>
    { device with vault := some ⟨cipher, manifest, kefVersion, kefIterations⟩ }

/-- The end of the creation, with the passphrase. -/
def finishCreation (metadata : Meta) (passphrase : Text) : Run Bool :=
  Proc.tryExcept (do
    let salt ← saltBytes metadata
    let cipher := deriveKey platform passphrase salt
    saveManifest platform env cipher .empty
    setVault cipher .empty
    pure true) fun exn => do
      flashMessage (.createFailed exn)
      pure false

/-- One turn of the loop in `_create_new_vault`. -/
def creationTurn (metadata : Meta) : Run (Option Bool) := do
  match ← getConfirmedPassphrase env with
  | .mismatched => pure none
  | .cancelled => pure (some false)
  | .entered passphrase => some <$> finishCreation platform env metadata passphrase

/-- `_create_new_vault`. -/
def createNewVault : Run Bool := do
  let initialized ← Proc.tryExcept (some <$> initializeVault platform env) fun exn => do
    flashMessage (.failedToInitialize exn)
    pure none
  match initialized with
  | none => pure false
  | some metadata => Proc.loop (creationTurn platform env metadata) Proc.off env.patience

/-- One turn of the loop in `_unlock_existing_vault`. -/
def unlockTurn (salt : Bytes) : Run (Option Bool) := do
  match ← getPassphrase env with
  | none => pure (some false)
  | some passphrase =>
      let cipher := deriveKey platform passphrase salt
      match ← loadManifest platform env platform.manifests .empty cipher with
      | none => do
          flashMessage .wrongPassphrase
          pure none
      | some manifest => do
          setVault cipher manifest
          pure (some true)

/-- `_unlock_existing_vault`. -/
def unlockExistingVault : Run Bool := do
  let loaded ← Proc.tryExcept (do
      let metadata ← loadMeta platform env
      some <$> saltBytes metadata) fun exn => do
    flashMessage (.invalidMetadata exn)
    pure none
  match loaded with
  | none => pure false
  | some salt =>
      Proc.loop (unlockTurn platform env salt) (do
        flashMessage .tooManyAttempts
        pure false) 5

/-- The restoring inside `VaultUnlock.run`: whether the loop goes on from here. -/
def restoreVault : Run Bool :=
  Proc.tryExcept (do
    restoreFromFlash env
    flashMessage .vaultRestored
    pure true) fun exn => do
      flashMessage (.restoreFailed exn)
      pure false

/-- The end of a turn of `VaultUnlock.run`. -/
def unlockWhenPresent : Run (Option Bool) := do
  if ← vaultExists env .sd then some <$> unlockExistingVault platform env
  else pure none

/-- One turn of the loop in `VaultUnlock.run`. -/
def unlockPageTurn : Run (Option Bool) := do
  if ← checkSdCard env then
    if ← vaultExists env .sd then unlockWhenPresent platform env
    else if ← vaultExists env .flash then
      if ← prompt env .restoreBackup then
        if ← restoreVault env then unlockWhenPresent platform env
        else pure none
      else pure (some false)
    else if ← prompt env .createNewVault then some <$> createNewVault platform env
    else pure (some false)
  else pure (some false)

/-- `VaultUnlock.run`. -/
def vaultUnlock : Run Bool := Proc.loop (unlockPageTurn platform env) Proc.off env.patience

end VaultUnlock

/-- `ctx.vault.manifest` is changed in place. -/
def setManifest (manifest : Manifest) : Run Unit :=
  Proc.modify fun device =>
    { device with vault := device.vault.map fun vault => { vault with manifest := manifest } }

section VaultAdd

variable (platform : Platform) (env : Env)

/-- The store step of `VaultAdd.run`, the body of its `try`. -/
def storeSecret (text label : Text) (secretType : SecretType) : Run Unit := do
  let plaintext := encode text
  let hashPreview := computeHashPreview platform plaintext
  let vault ← currentVault
  let secretId ← Proc.ofExcept (nextSecretId vault.manifest)
  saveSecret platform env vault.cipher secretId plaintext
  let createdAt ← currentTime env
  let manifest := addToManifest vault.manifest ⟨secretId, label, secretType, createdAt, hashPreview⟩
  setManifest manifest
  saveManifest platform env vault.cipher manifest
  flashMessage .secretStored

/-- The warning about a type, for the types that have one. -/
def confirmWarning (secretType : SecretType) : Run Bool :=
  if typeWarning secretType then prompt env .storeAnyway else pure true

/-- The confirmations before the store step: the label when the user goes on. -/
def confirmStore (secretType : SecretType) : Run (Option Text) := do
  if ← confirmWarning env secretType then
    match ← captureFromKeypad env .label with
    | none => pure none
    | some entry =>
        let label := entry.take 20
        if label = [] then pure none
        else if ← prompt env .storeSecret then pure (some label)
        else pure none
  else pure none

/-- `VaultAdd.run`, once the text is scanned or typed. -/
def vaultAdd (text : Text) : Run Unit := do
  if text = [] then pure ()
  else
    let secretType := detectSecretType platform text
    match ← confirmStore env secretType with
    | none => pure ()
    | some label =>
        Proc.tryExcept (storeSecret platform env text label secretType) fun exn =>
          flashMessage (.failedToStore exn)

end VaultAdd

section VaultView

variable (platform : Platform) (env : Env)

/-- The body of the `try` of `VaultView.delete_secret`. -/
def eraseSecret (secretId : Text) : Run Unit := do
  deleteSecret env secretId
  let vault ← currentVault
  let manifest := removeFromManifest vault.manifest secretId
  setManifest manifest
  saveManifest platform env vault.cipher manifest
  flashMessage .secretDeleted

/-- `VaultView.delete_secret`. -/
def vaultViewDelete (secretId : Text) : Run Unit := do
  if ← prompt env .deleteSecret then
    Proc.tryExcept (eraseSecret platform env secretId) fun exn =>
      flashMessage (.deleteFailed exn)
  else pure ()

end VaultView

/-- The actions of a run: a boot (or the unlock page after a lock), adding a text,
deleting an identifier and locking. -/
inductive Action where
  | boot
  | add (text : Text)
  | delete (secretId : Text)
  | lock
  deriving DecidableEq, Repr

/-- The pages of an unlocked vault are out of reach of a locked one, and the
unlock page out of reach of an unlocked one. -/
def reachedWhen (unlocked : Bool) (page : Run Unit) : Run Unit := fun device =>
  if device.vault.isSome = unlocked then page device else (.ok (), device)

/-- The procedure of an action. -/
def Action.body (platform : Platform) (env : Env) : Action → Run Unit
  | .boot => reachedWhen false (vaultUnlock platform env >>= fun _ => pure ())
  | .add text => reachedWhen true (vaultAdd platform env text)
  | .delete secretId => reachedWhen true (vaultViewDelete platform env secretId)
  | .lock => Proc.modify fun device => { device with vault := none }

/-- One step of a run: an action in its environment. -/
structure Step where
  action : Action
  env : Env

/-- The device at the start of an action. -/
def Device.ready (device : Device) : Device := { device with trace := [], history := [] }

/-- Perform an action. A power cut loses what is in RAM. -/
def perform (platform : Platform) (device : Device) (step : Step) : Device :=
  match step.action.body platform step.env device.ready with
  | (.off, after) => { after with vault := none }
  | (_, after) => after

/-- Perform the steps of a run. -/
def run (platform : Platform) (device : Device) (steps : List Step) : Device :=
  steps.foldl (perform platform) device

/-- The device after the power was off. -/
def Device.restarted (device : Device) : Device := { device with vault := none }

/-- A device without a vault. -/
def Device.fresh : Device := ⟨⟨.blank, .blank⟩, none, [], [], []⟩

end VaultSeed.Vault
