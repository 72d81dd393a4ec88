import VaultSeed.Kef.Envelope
import VaultSeed.Vault.Platform

/-! # The vault manager

`VaultManager`: every file of a vault is written to the SD card, which may raise,
and then mirrored to flash, which may not. Reading goes to the SD card only.
-/

namespace VaultSeed.Vault

open Python Effect

/-- `SALT_LENGTH`. -/
def saltLength : Nat := 32

/-- `KEF_VERSION`. -/
def kefVersion : Nat := 20

/-- `KEF_ITERATIONS`. -/
def kefIterations : Nat := 100000

/-- `FORMAT_VERSION`. -/
def formatVersion : Nat := 1

/-- `MANIFEST_ID`. -/
def manifestId : Bytes := encode "vault-manifest".toList

/-- The file of a secret, `secret_id + ".kef"`. -/
def secretPath (secretId : Text) : Path := .secretFile (secretId ++ ".kef".toList)

/-- No secret is in the file of the metadata. -/
@[simp] theorem secretPath_ne_metaFile (secretId : Text) : secretPath secretId ≠ .metaFile := nofun

@[simp] theorem secretPath_ne_manifestFile (secretId : Text) :
    secretPath secretId ≠ .manifestFile := nofun

@[simp] theorem metaFile_ne_secretPath (secretId : Text) : .metaFile ≠ secretPath secretId := nofun

@[simp] theorem manifestFile_ne_secretPath (secretId : Text) :
    .manifestFile ≠ secretPath secretId := nofun

/-- `{"secrets": []}`. -/
def Manifest.empty : Manifest := ⟨[]⟩

/-- A bare `except: pass`. -/
def ignoring (body : Run Unit) : Run Unit := Proc.tryExcept body fun _ => pure ()

/-- `except OSError: pass`; any other exception goes on. -/
def ignoringOsError (body : Run Unit) : Run Unit :=
  Proc.tryExcept body fun exn => if exn = .osError then pure () else Proc.throw exn

/-- One step of `_ensure_dirs`: make a directory that cannot be found. -/
def ensureDir (env : Env) (disk : Disk) (dir : Dir) : Run Unit :=
  Proc.tryExcept (statDir env disk dir) fun _ => mkdir env disk dir

/-- `_ensure_dirs`. -/
def ensureDirs (env : Env) (disk : Disk) : Run Unit := do
  ensureDir env disk .vault
  ensureDir env disk .secrets

/-- `_write_with_mirror`. -/
def writeWithMirror (env : Env) (path : Path) (data : Bytes) : Run Unit := do
  mount env (.writeWithMirror path)
  writeFile env .sd path data
  ignoring (writeFile env .flash path data)

/-- `_delete_with_mirror`. -/
def deleteWithMirror (env : Env) (path : Path) : Run Unit := do
  ignoring (remove env .sd path)
  ignoring (remove env .flash path)

/-- `vault_exists_sd` and `vault_exists_flash`. -/
def vaultExists (env : Env) (disk : Disk) : Run Bool :=
  Proc.tryExcept (do stat env disk .metaFile; pure true) fun _ => pure false

section Manager

variable (platform : Platform) (env : Env)

/-- `initialize_vault`. -/
def initializeVault : Run Meta := do
  ensureDirs env .sd
  ensureDirs env .flash
  let salt ← randomBytes env saltLength
  let metadata : Meta := ⟨hexlify salt, formatVersion⟩
  writeWithMirror env .metaFile (encode (platform.metas.dumps metadata))
  pure metadata

/-- A file read in text mode. -/
def readText (disk : Disk) (path : Path) : Run Text := do
  let data ← read env disk path
  match decode data with
  | some text => pure text
  | none => Proc.throw (.valueError "UnicodeError")

/-- The restoring of one secret, the body of the loop in `restore_from_flash`. -/
def restoreSecret (filename : Text) : Run Unit := do
  let data ← read env .flash (.secretFile filename)
  writeFile env .sd (.secretFile filename) data

/-- The restoring of `vault.meta`. -/
def restoreMeta : Run Unit := do
  let metaJson ← readText env .flash .metaFile
  mount env .restoreMeta
  writeFile env .sd .metaFile (encode metaJson)

/-- The restoring of the manifest. -/
def restoreManifest : Run Unit := do
  let manifestData ← read env .flash .manifestFile
  mount env .restoreManifest
  writeFile env .sd .manifestFile manifestData

/-- The restoring of the secrets. -/
def restoreSecrets : Run Unit := do
  ensureDirs env .sd
  let secrets ← listSecrets env .flash
  mount env .restoreSecrets
  secrets.forM (restoreSecret env)

/-- `restore_from_flash`. -/
def restoreFromFlash : Run Unit := do
  ensureDirs env .sd
  restoreMeta env
  ignoringOsError (restoreManifest env)
  ignoringOsError (restoreSecrets env)

/-- `load_meta`. -/
def loadMeta : Run Meta := do
  mount env .loadMeta
  let metaJson ← readText env .sd .metaFile
  match platform.metas.loads metaJson with
  | some metadata => pure metadata
  | none => Proc.throw (.valueError "syntax error in JSON")

/-- The envelope of a plaintext. -/
def sealEnvelope (cipher : Kef.Cipher) (id plaintext iv : Bytes) : Except Exn Bytes := do
  let payload ← cipher.encrypt platform.crypto plaintext kefVersion iv true
  Kef.wrap id kefVersion kefIterations payload

/-- Encrypt a plaintext and write its envelope, the common part of `save_manifest`
and `save_secret`. The call is noted with the envelope it made. -/
def saveEnvelope (cipher : Kef.Cipher) (id : Bytes) (path : Path) (plaintext : Bytes)
    (call : Bytes → Save) : Run Unit := do
  let iv ← randomBytes env 12
  let envelope ← Proc.ofExcept (sealEnvelope platform cipher id plaintext iv)
  Proc.modify fun device => device.noteSave (call envelope)
  writeWithMirror env path envelope

/-- `save_manifest`. -/
def saveManifest (cipher : Kef.Cipher) (manifest : Manifest) : Run Unit :=
  saveEnvelope platform env cipher manifestId .manifestFile
    (encode (platform.manifests.dumps manifest)) (.manifest cipher manifest)

/-- The plaintext of an envelope, `none` when it does not authenticate. -/
def openEnvelope (cipher : Kef.Cipher) (data : Bytes) : Except Exn (Option Bytes) := do
  let (_id, version, _iterations, payload) ← Kef.unwrap data
  cipher.decrypt platform.crypto payload version

/-- The second half of `load_manifest`: an envelope that does not open, and a
plaintext that is not a document, both give `None`. -/
def decodeManifest {Doc : Type} (json : Ujson Doc) (cipher : Kef.Cipher) (data : Bytes) :
    Option Doc :=
  match openEnvelope platform cipher data with
  | .ok (some plaintext) => (decode plaintext).bind json.loads
  | _ => none

/-- `load_manifest`, for documents of any shape: a file that cannot be read counts
as an empty manifest. -/
def loadManifest {Doc : Type} (json : Ujson Doc) (empty : Doc) (cipher : Kef.Cipher) :
    Run (Option Doc) := do
  let data ← Proc.tryExcept (do
    mount env .loadManifest
    let data ← read env .sd .manifestFile
    pure (some data)) fun _ => pure none
  match data with
  | none => pure (some empty)
  | some data => pure (decodeManifest platform json cipher data)

/-- `save_secret`. -/
def saveSecret (cipher : Kef.Cipher) (secretId : Text) (plaintext : Bytes) : Run Unit :=
  saveEnvelope platform env cipher (encode secretId) (secretPath secretId) plaintext
    (.secret cipher secretId plaintext)

/-- `load_secret`. -/
def loadSecret (cipher : Kef.Cipher) (secretId : Text) : Run (Option Bytes) :=
  Proc.tryExcept (do
    mount env .loadSecret
    let data ← read env .sd (secretPath secretId)
    Proc.ofExcept (openEnvelope platform cipher data)) fun _ => pure none

/-- `delete_secret`. -/
def deleteSecret (secretId : Text) : Run Unit := deleteWithMirror env (secretPath secretId)

end Manager

/-- `next_secret_id`: the identifiers are compared as numbers, one that is not a
number raises. -/
def nextSecretId (manifest : Manifest) : Except Exn Text :=
  if manifest.secrets = [] then .ok "001".toList
  else
    match manifest.secrets.mapM fun entry => int 0 entry.id with
    | some ids => .ok (signed03d (ids.max?.getD 0 + 1))
    | none => .error (.valueError "invalid syntax for integer")

/-- `add_to_manifest`, for an entry with its time. -/
def addToManifest (manifest : Manifest) (entry : Entry) : Manifest :=
  ⟨manifest.secrets ++ [entry]⟩

/-- `remove_from_manifest`. -/
def removeFromManifest (manifest : Manifest) (secretId : Text) : Manifest :=
  ⟨manifest.secrets.filter fun entry => entry.id ≠ secretId⟩

/-- `compute_hash_preview`. -/
def computeHashPreview (platform : Platform) (plaintext : Bytes) : Text :=
  (hexlify (platform.crypto.sha256 plaintext)).take 8

end VaultSeed.Vault
