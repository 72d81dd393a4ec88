import VaultSeed.Vault.Flow

/-! # The saves of a step

`save_secret` and `save_manifest` are called by an add, a deletion and the creation of a
vault, with the texts and the manifests that `VaultSeed.Vault.Calls` lists. What these
savings and the removals of a deletion keep, an add and a deletion keep (`Updating`).
-/

namespace VaultSeed.Vault

open Python Effect

namespace Save

def cipher : Save → Kef.Cipher
  | .secret cipher _ _ _ => cipher
  | .manifest cipher _ _ => cipher

def id : Save → Bytes
  | .secret _ secretId _ _ => encode secretId
  | .manifest _ _ _ => manifestId

def path : Save → Path
  | .secret _ secretId _ _ => secretPath secretId
  | .manifest _ _ _ => .manifestFile

def plaintext (platform : Platform) : Save → Bytes
  | .secret _ _ plaintext _ => plaintext
  | .manifest _ listing _ => encode (platform.manifests.dumps listing)

def envelope : Save → Bytes
  | .secret _ _ _ envelope => envelope
  | .manifest _ _ envelope => envelope

/-- No save is in the file of the metadata. -/
theorem path_ne_metaFile (save : Save) : save.path ≠ .metaFile := by
  cases save <;> exact nofun

end Save

section Saves

variable (platform : Platform)

/-- The envelope of a save is what the sealing made. -/
def Save.Sealed (save : Save) : Prop :=
  Seals platform save.cipher save.id (save.plaintext platform) save.envelope

/-- The saves that a step can make: of the new secret, and of the manifest after an
addition, after a removal and of a new vault. -/
inductive Calls (before : Device) : Step → Save → Prop where
  | secret {vault : VaultState} {env : Env} {text secretId : Text} {envelope : Bytes}
      (unlocked : before.vault = some vault) (next : nextSecretId vault.manifest = .ok secretId) :
      Calls before ⟨.add text, env⟩ (.secret vault.cipher secretId (encode text) envelope)
  | added {vault : VaultState} {env : Env} {text label secretId : Text} {middle : Device}
      {envelope : Bytes} (unlocked : before.vault = some vault)
      (next : nextSecretId vault.manifest = .ok secretId) :
      Calls before ⟨.add text, env⟩ (.manifest vault.cipher (addToManifest vault.manifest
        (newEntry platform env text label (detectSecretType platform text) secretId middle))
          envelope)
  | removed {vault : VaultState} {env : Env} {secretId : Text} {envelope : Bytes}
      (unlocked : before.vault = some vault) :
      Calls before ⟨.delete secretId, env⟩
        (.manifest vault.cipher (removeFromManifest vault.manifest secretId) envelope)
  | created {env : Env} {passphrase : Text} {salt envelope : Bytes} (locked : before.vault = none) :
      Calls before ⟨.boot, env⟩ (.manifest (deriveKey platform passphrase salt) .empty envelope)

/-- The first manifest of a new vault is a good content. -/
def FirstGood (good : Path → Bytes → Prop) : Prop :=
  ∀ passphrase salt envelope, Seals platform (deriveKey platform passphrase salt) manifestId
    (encode (platform.manifests.dumps .empty)) envelope → good .manifestFile envelope

end Saves

section Updating

variable (platform : Platform) (device : Device) (step : Step)

/-- A saving of the step: its envelopes are those of the saves that the step can make. -/
def Called (cipher : Kef.Cipher) (id : Bytes) (path : Path) (plaintext : Bytes) : Prop :=
  ∀ envelope, Seals platform cipher id plaintext envelope →
    ∃ save, Calls platform device step save ∧ save.Sealed platform ∧ save.path = path ∧
      save.envelope = envelope

/-- A property of the media that the savings and the removals of a step keep unless the
power is lost in them, and what is left of it then. -/
structure Updating (kept lost : Device → Prop) : Prop where
  filed : ∀ {before after : Device}, kept before → after.toMedia = before.toMedia → kept after
  spilled : ∀ {before after : Device}, lost before → after.toMedia = before.toMedia → lost after
  saves : ∀ {cipher : Kef.Cipher} {id : Bytes} {path : Path} {plaintext : Bytes} {start : Device}
    {outcome : Outcome Exn Unit} {after : Device},
      Called platform device step cipher id path plaintext →
    kept start → Saved step.env platform cipher id path plaintext start outcome after →
    Proc.guarded kept lost outcome after
  removes : ∀ {secretId : Text} {start : Device} {outcome : Outcome Exn Unit} {after : Device},
    step.action = .delete secretId → kept start →
    Deleted (step.env.fate start) (secretPath secretId) start.toMedia outcome after.toMedia →
    Proc.guarded kept lost outcome after

namespace Updating

variable {platform device step} {kept lost : Device → Prop} {env : Env} {vault : VaultState}

/-- What an update leaves, from what its body left. -/
theorem ended (updating : Updating platform device step kept lost) {message : Message}
    {outcome : Outcome Exn Unit} {final result : Device}
    (guarded : Proc.guarded kept lost outcome final) (ended : Ended message outcome final result) :
    kept result ∨ lost result := by
  cases outcome with
  | ok value => exact .inl (updating.filed guarded ended.media)
  | raised exn => exact .inl (updating.filed guarded ended.media)
  | off => exact .inr (updating.spilled guarded ended.media)

/-- The end of a saving, with the message about it. -/
theorem finished (updating : Updating platform device step kept lost) (message : Message)
    {outcome : Outcome Exn Unit} {after : Device} (guarded : Proc.guarded kept lost outcome after) :
    Proc.guarded kept lost outcome (finish message outcome after) := by
  cases outcome with
  | ok value => exact updating.filed guarded rfl
  | raised exn => exact guarded
  | off => exact guarded

/-- What an add leaves. -/
theorem perform_add {text : Text} (updating : Updating platform device ⟨.add text, env⟩ kept lost)
    (unlocked : device.vault = some vault) (holds : kept device) :
    kept (perform platform device ⟨.add text, env⟩) ∨
      lost (perform platform device ⟨.add text, env⟩) := by
  rcases Vault.perform_add platform env text unlocked with declined |
    ⟨start, label, outcome, final, talked, stored, ended⟩
  · exact .inl (updating.filed holds declined.media)
  apply updating.ended _ ended
  have begun : kept start := updating.filed holds talked.media
  have secrets : ∀ {secretId}, nextSecretId vault.manifest = .ok secretId →
      Called platform device ⟨.add text, env⟩ vault.cipher (encode secretId) (secretPath secretId)
        (encode text) :=
    fun next envelope seals => ⟨.secret vault.cipher _ _ envelope, .secret unlocked next, seals,
      rfl, rfl⟩
  cases stored with
  | noId => exact begun
  | secretFailed next secret notDone => exact updating.saves (secrets next) begun secret
  | @saved secretId _ middle after manifest next secret added stored =>
      have saved : kept middle := updating.saves (secrets next) begun secret
      have listed : kept (middle.withManifest vault manifest) := updating.filed saved rfl
      refine updating.finished _ (updating.saves (fun envelope seals => ?_) listed stored)
      rw [added] at seals
      exact ⟨.manifest vault.cipher _ envelope, .added unlocked next, seals, rfl, rfl⟩

/-- What a deletion leaves. -/
theorem perform_delete {secretId : Text}
    (updating : Updating platform device ⟨.delete secretId, env⟩ kept lost)
    (unlocked : device.vault = some vault) (holds : kept device) :
    kept (perform platform device ⟨.delete secretId, env⟩) ∨
      lost (perform platform device ⟨.delete secretId, env⟩) := by
  rcases Vault.perform_delete platform env secretId unlocked with declined |
    ⟨start, outcome, final, _, talked, erased, ended⟩
  · exact .inl (updating.filed holds declined.media)
  apply updating.ended _ ended
  have begun : kept start := updating.filed holds talked.media
  cases erased with
  | cut alike deleted => exact updating.removes rfl begun deleted
  | @saved _ middle after manifest alike deleted removed stored =>
      have erased : kept middle := updating.removes rfl begun deleted
      have listed : kept (middle.withManifest vault manifest) := updating.filed erased rfl
      refine updating.finished _ (updating.saves (fun envelope seals => ?_) listed stored)
      rw [removed] at seals
      exact ⟨.manifest vault.cipher _ envelope, .removed unlocked, seals, rfl, rfl⟩

end Updating

end Updating

end VaultSeed.Vault
