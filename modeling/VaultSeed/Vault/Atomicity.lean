import VaultSeed.Vault.Store

/-! # Updates that end in an exception

When an update of the vault ends in its exception branch, nothing should have
changed. A write to the card that raises either never opened the file or has emptied
it (`WriteEnd`), and by then the update may have removed a file and changed the
manifest in RAM. `failsAtomically_iff` says exactly when it has not.
-/

namespace VaultSeed.Vault

open Python Effect Proc

/-- The ends of a write to the card without a power cut: it raises before the file is
opened, it raises once the file is emptied, or it is done. -/
inductive WriteEnd where
  | refused
  | torn
  | done
  deriving DecidableEq, Repr

/-- The end of a write, from the fates of its operations and its directory. -/
def WriteEnd.of (mounted opened : Fault) (present : Bool) (written : Fault) : WriteEnd :=
  if mounted = .none ∧ opened = .none ∧ present then
    if written = .none then .done else .torn
  else .refused

/-- How the next write of a file to the card ends. -/
def writeEnd (env : Env) (device : Device) (path : Path) : WriteEnd :=
  .of (env.fate device (.mount (.writeWithMirror path))) (env.fate device (.openWrite .sd path))
    (device.sd.hasDir path.dir) (env.fate device (.write .sd path))

variable {platform : Platform} {env : Env} {device : Device}

/-- A fault that is no cut makes the operation raise. -/
theorem Stops.raised_of_uncut (uncut : env.Uncut) {op : FileOp} {fault : Fault}
    {outcome : Outcome Exn Unit} (stops : Stops fault outcome)
    (cause : env.fate device op = fault) :
    fault = .raise ∧ outcome = .raised .osError := by
  cases stops with
  | raised => exact ⟨rfl, rfl⟩
  | cut left => exact absurd cause (uncut op _ left)

/-- Without a power cut the end of a write is determined. -/
theorem Mirrored.of_uncut (uncut : env.Uncut) {path : Path} {data : Bytes} (nonempty : data ≠ [])
    {outcome : Outcome Exn Unit} {after : Media}
    (mirrored : Mirrored (env.fate device) path data device.toMedia outcome after) :
    (writeEnd env device path = .refused ∧ outcome = .raised .osError ∧ after = device.toMedia) ∨
    (writeEnd env device path = .torn ∧ outcome = .raised .osError ∧
      after.sd = device.sd.put path []) ∨
    (writeEnd env device path = .done ∧ outcome = .ok () ∧ after.sd = device.sd.put path data) := by
  cases mirrored with
  | unmounted stops cause =>
      obtain ⟨rfl, rfl⟩ := stops.raised_of_uncut uncut cause
      exact .inl ⟨by simp [writeEnd, WriteEnd.of, cause], rfl, rfl⟩
  | failed mounted primary notDone =>
      cases primary with
      | refused stops cause =>
          rcases cause with hit | ⟨rfl, _, missing⟩
          · obtain ⟨rfl, rfl⟩ := stops.raised_of_uncut uncut hit
            exact .inl ⟨by simp [writeEnd, WriteEnd.of, hit], rfl, rfl⟩
          · cases stops
            exact .inl ⟨by simp [writeEnd, WriteEnd.of, missing], rfl, rfl⟩
      | torn stops opened present _ cause =>
          obtain ⟨rfl, rfl⟩ := stops.raised_of_uncut uncut cause
          exact .inr (.inl ⟨by simp [writeEnd, WriteEnd.of, mounted, opened, present, cause], rfl,
            rfl⟩)
      | done => exact absurd rfl notDone
  | @written inner sd flash mounted primary mirror =>
      have ended : swallow inner = .ok () := by
        cases mirror with
        | refused stops cause =>
            rcases cause with hit | ⟨rfl, _, _⟩
            · rw [(stops.raised_of_uncut uncut hit).2]
              rfl
            · cases stops
              rfl
        | torn stops _ _ _ cause =>
            rw [(stops.raised_of_uncut uncut cause).2]
            rfl
        | done => rfl
      cases primary with
      | refused stops => cases stops
      | torn stops => cases stops
      | done opened present written =>
          exact .inr (.inr ⟨by simp [writeEnd, WriteEnd.of, mounted, opened, present,
            written nonempty], ended, rfl⟩)

/-- What happened to other operations does not change the end of a write. -/
theorem writeEnd_congr {path : Path} {later : Device}
    (counts : ∀ op, op.Mirrors path → later.trace.count op = device.trace.count op)
    (dirs : later.sd.hasDir path.dir = device.sd.hasDir path.dir) :
    writeEnd env later path = writeEnd env device path := by
  simp only [writeEnd, Env.fate, dirs, counts _ (.inl rfl), counts _ (.inr ⟨.sd, .inl rfl⟩),
    counts _ (.inr ⟨.sd, .inr rfl⟩)]

/-- The write of the manifest after other operations, which leave its directory. -/
theorem writeEnd_manifest {touched : FileOp → Prop} {middle later : Device}
    (alike : Alike device middle touched) (spares : ∀ op, op.Mirrors .manifestFile → ¬ touched op)
    (dirs : middle.sd.hasDir .vault = device.sd.hasDir .vault) (sd : later.sd = middle.sd)
    (trace : later.trace = middle.trace) :
    writeEnd env later .manifestFile = writeEnd env device .manifestFile := by
  refine writeEnd_congr (fun op mirrors => ?_) ?_
  · rw [trace]
    exact alike.count op (spares op mirrors)
  · rw [sd]
    exact dirs

/-- Writing the manifest neither writes nor removes a secret. -/
theorem FileOp.Mirrors.spares_secret {op : FileOp} (mirrors : op.Mirrors .manifestFile)
    (secretId : Text) :
    ¬ op.Mirrors (secretPath secretId) ∧ ¬ op.Removes (secretPath secretId) := by
  rcases mirrors with rfl | ⟨_, rfl | rfl⟩ <;>
    simp [FileOp.Mirrors, FileOp.Writes, FileOp.Removes]

section Unchanged

variable (platform) (cipher : Kef.Cipher)

/-- The manifest in RAM, the manifest of the card and the files of the secrets it
lists are as before. -/
structure Unchanged (before after : Device) : Prop where
  vault : after.vault = before.vault
  manifest : after.sd.get .manifestFile = before.sd.get .manifestFile
  secrets : ∀ secretId, Listed platform cipher before secretId →
    after.sd.get (secretPath secretId) = before.sd.get (secretPath secretId)

/-- An update that changes nothing when it ends in an exception. -/
def FailsAtomically (update : Run Unit) (device : Device) : Prop :=
  ∀ exn after, update device = (.raised exn, after) → Unchanged platform cipher device after

/-- The condition of an add: the write of the secret does not empty a file that the
card lists, and when it is done, so is the write of the manifest. -/
def AddSafe (env : Env) (manifest : Manifest) (device : Device) : Prop :=
  ∀ secretId, nextSecretId manifest = .ok secretId → (encode secretId).length ≤ 252 →
    (writeEnd env device (secretPath secretId) = .torn → Listed platform cipher device secretId →
      device.sd.get (secretPath secretId) = some []) ∧
    (writeEnd env device (secretPath secretId) = .done →
      writeEnd env device .manifestFile = .done)

/-- The condition of a deletion: the write of the manifest is done, or there was
nothing to delete in RAM and on the card, and nothing to empty. -/
def DeleteSafe (env : Env) (manifest : Manifest) (device : Device) (secretId : Text) : Prop :=
  writeEnd env device .manifestFile = .done ∨
  ((∀ entry ∈ manifest.secrets, entry.id ≠ secretId) ∧
    (writeEnd env device .manifestFile = .torn → device.sd.get .manifestFile = some []) ∧
    (Listed platform cipher device secretId →
      env.fate device (.remove .sd (secretPath secretId)) = .raise ∨
      device.sd.get (secretPath secretId) = none))

variable {platform cipher}

private theorem failsAtomically_of_holds {update : Run Unit} {condition : Prop}
    (valid : Holds update device fun outcome after =>
      ((∃ exn, outcome = .raised exn) → Unchanged platform cipher device after) ↔ condition) :
    FailsAtomically platform cipher update device ↔ condition := by
  have ends : ((∃ exn, (update device).1 = .raised exn) →
      Unchanged platform cipher device (update device).2) ↔ condition := valid
  rw [← ends]
  constructor
  · rintro atomic ⟨exn, raised⟩
    exact atomic exn _ (Prod.ext raised rfl)
  · intro unchanged exn after ended
    rw [ended] at unchanged
    exact unchanged ⟨exn, rfl⟩

private theorem Unchanged.of_media {after : Device} (media : after.toMedia = device.toMedia)
    (vault : after.vault = device.vault) : Unchanged platform cipher device after :=
  ⟨vault, by rw [media], fun _ _ => by rw [media]⟩

end Unchanged

/-- A save of the manifest without a power cut. -/
theorem manifestSaved_uncut (uncut : env.Uncut) {vault : VaultState} {manifest : Manifest}
    (keyLength : vault.cipher.key.length = 32) {after : Device} {outcome : Outcome Exn Unit}
    (saved : ManifestSaved platform env vault manifest device outcome after) :
    (writeEnd env device .manifestFile = .done ∧ outcome = .ok ()) ∨
    (writeEnd env device .manifestFile = .refused ∧ outcome = .raised .osError ∧
      after.sd = device.sd) ∨
    (writeEnd env device .manifestFile = .torn ∧ outcome = .raised .osError ∧
      after.sd = device.sd.put .manifestFile []) := by
  cases saved with
  | refused refusal =>
      exact absurd refusal (sealEnvelope_manifest_ne_error keyLength (length_vector env device) _)
  | mirrored sealed alike mirrored =>
      rcases mirrored.of_uncut uncut (sealEnvelope_ne_nil sealed) with
        ⟨ends, raised, media⟩ | ⟨ends, raised, sd⟩ | ⟨ends, done, _⟩
      · exact .inr (.inl ⟨ends, raised, by rw [media]⟩)
      · exact .inr (.inr ⟨ends, raised, sd⟩)
      · exact .inl ⟨ends, done⟩

/-- A save of the manifest that fails without a power cut: no secret changes, and the file of the
manifest is at most emptied. -/
theorem manifestSaved_failed (uncut : env.Uncut) {vault : VaultState} {manifest : Manifest}
    (keyLength : vault.cipher.key.length = 32) {after : Device} {outcome : Outcome Exn Unit}
    (saved : ManifestSaved platform env vault manifest device outcome after)
    (notDone : writeEnd env device .manifestFile ≠ .done) :
    outcome = .raised .osError ∧
      (∀ other, after.sd.get (secretPath other) = device.sd.get (secretPath other)) ∧
      (after.sd.get .manifestFile = device.sd.get .manifestFile ↔
        (writeEnd env device .manifestFile = .torn →
          device.sd.get .manifestFile = some [])) := by
  rcases manifestSaved_uncut uncut keyLength saved with
    ⟨done, _⟩ | ⟨fails, raised, sd⟩ | ⟨fails, raised, sd⟩
  · exact absurd done notDone
  · exact ⟨raised, fun _ => by rw [sd], iff_of_true (by rw [sd]) (by simp [fails])⟩
  · refine ⟨raised, fun other => ?_, ?_⟩
    · rw [sd, Medium.get_put_of_ne (by simp)]
    · simp [sd, fails, eq_comm]

/-- The identifier of an envelope is short. -/
theorem id_length_of_sealEnvelope {cipher : Kef.Cipher} (keyLength : cipher.key.length = 32)
    {id plaintext iv envelope : Bytes} (ivLength : iv.length = 12)
    (sealed : sealEnvelope platform cipher id plaintext iv = .ok envelope) : id.length ≤ 252 := by
  by_contra long
  rw [sealEnvelope_eq keyLength ivLength, if_pos (by omega)] at sealed
  cases sealed

/-- The store step, in terms of its condition. -/
theorem storeSecret_atomic_iff (uncut : env.Uncut) {vault : VaultState}
    (keyLength : vault.cipher.key.length = 32) (unlocked : device.vault = some vault)
    (text label : Text) (secretType : SecretType) :
    FailsAtomically platform vault.cipher (storeSecret platform env text label secretType) device ↔
      AddSafe platform vault.cipher env vault.manifest device := by
  refine failsAtomically_of_holds ((storeSecret_stored text label secretType unlocked).mono ?_)
  intro outcome after stored
  have ivLength := length_vector env device
  cases stored with
  | noId refused =>
      refine iff_of_true (fun _ => .of_media rfl rfl) fun secretId next => ?_
      rw [refused] at next
      cases next
  | @secretFailed secretId _ _ next secret notDone =>
      have only : ∀ {condition : Text → Prop}, condition secretId →
          ∀ other, nextSecretId vault.manifest = .ok other → condition other := by
        intro condition holds other same
        rw [next] at same
        cases same
        exact holds
      cases secret with
      | refused refusal =>
          rw [sealEnvelope_eq keyLength (length_vector env device)] at refusal
          refine iff_of_true (fun _ => .of_media rfl rfl) (only fun short => ?_)
          rw [if_neg (by omega)] at refusal
          cases refusal
      | mirrored sealed alike mirrored =>
          rcases mirrored.of_uncut uncut (sealEnvelope_ne_nil sealed) with
            ⟨ends, rfl, media⟩ | ⟨ends, rfl, sd⟩ | ⟨_, done, _⟩
          · refine iff_of_true (fun _ => .of_media media alike.vault) (only fun _ => ?_)
            simp [ends]
          · constructor
            · refine fun unchanged => only fun _ => ⟨fun _ listed => ?_, by simp [ends]⟩
              rw [← (unchanged ⟨_, rfl⟩).secrets secretId listed, sd, Medium.get_put_self]
            · intro safe _
              refine ⟨alike.vault, ?_, fun other listed => ?_⟩
              · rw [sd, Medium.get_put_of_ne (by simp)]
              · rw [sd, Medium.get_put]
                split
                · rename_i same
                  rw [secretPath_injective same] at listed ⊢
                  exact ((safe secretId next
                    (id_length_of_sealEnvelope keyLength ivLength sealed)).1 ends listed).symm
                · rfl
          · exact absurd done notDone
  | @saved secretId outcome middle after manifest next secret added stored =>
      cases secret with
      | mirrored sealed alike mirrored =>
          rcases mirrored.of_uncut uncut (sealEnvelope_ne_nil sealed) with
            ⟨_, raised, _⟩ | ⟨_, raised, _⟩ | ⟨ends, _, _⟩
          · cases raised
          · cases raised
          have manifestEnd : writeEnd env (middle.withManifest vault manifest) .manifestFile =
              writeEnd env device .manifestFile :=
            writeEnd_manifest alike (fun _ mirrors => (mirrors.spares_secret _).1)
              (mirrored.hasDir .sd .vault) rfl rfl
          have vaultAfter : (finish .secretStored outcome after).vault ≠ device.vault := by
            rw [finish_vault, stored.vault, unlocked, added]
            intro same
            exact addToManifest_ne _ _ (congrArg VaultState.manifest (Option.some.inj same))
          have saved := manifestSaved_uncut uncut keyLength stored
          rw [manifestEnd] at saved
          rcases saved with ⟨done, rfl⟩ | ⟨fails, rfl, _⟩ | ⟨fails, rfl, _⟩
          · refine iff_of_true nofun fun other same _ => ⟨?_, fun _ => done⟩
            rw [next] at same
            cases same
            simp [ends]
          all_goals
            refine iff_of_false (fun unchanged => vaultAfter (unchanged ⟨_, rfl⟩).vault) ?_
            intro safe
            have done := (safe secretId next
              (id_length_of_sealEnvelope keyLength ivLength sealed)).2 ends
            rw [fails] at done
            cases done

/-- The card after the removal of a file, without a power cut. -/
theorem Deleted.of_uncut (uncut : env.Uncut) {path : Path} {outcome : Outcome Exn Unit}
    {after : Media} (deleted : Deleted (env.fate device) path device.toMedia outcome after) :
    outcome = .ok () ∧
      ((env.fate device (.remove .sd path) = .raise ∧ after.sd = device.sd) ∨
        (env.fate device (.remove .sd path) = .none ∧ after.sd = device.sd.erase path)) := by
  cases deleted with
  | cut stopped =>
      cases stopped with
      | cut cause => exact absurd cause (uncut _ _ _)
  | removed primary mirror =>
      refine ⟨?_, ?_⟩
      · cases mirror with
        | kept => rfl
        | cut cause => exact absurd cause (uncut _ _ _)
        | gone => rfl
      · cases primary with
        | kept cause => exact .inl ⟨cause, rfl⟩
        | gone spared => exact .inr ⟨spared, rfl⟩

/-- What a removal leaves of the card: every other file, and the file itself when it is kept or was
not there. -/
theorem Deleted.get_of_uncut (uncut : env.Uncut) {path : Path} {outcome : Outcome Exn Unit}
    {after : Media} (deleted : Deleted (env.fate device) path device.toMedia outcome after) :
    (∀ other, other ≠ path → after.sd.get other = device.sd.get other) ∧
      (after.sd.get path = device.sd.get path ↔
        env.fate device (.remove .sd path) = .raise ∨ device.sd.get path = none) ∧
      after.sd.hasDir .vault = device.sd.hasDir .vault := by
  rcases (deleted.of_uncut uncut).2 with ⟨kept, same⟩ | ⟨spared, gone⟩
  · exact ⟨fun _ _ => by rw [same], by simp [kept, same], by rw [same]⟩
  · refine ⟨fun other different => ?_, by simp [spared, gone, eq_comm], ?_⟩
    · rw [gone, Medium.get_erase_of_ne different]
    · rw [gone, Medium.hasDir_erase]

/-- The deletion, in terms of its condition. -/
theorem eraseSecret_atomic_iff (uncut : env.Uncut) {vault : VaultState}
    (keyLength : vault.cipher.key.length = 32) (unlocked : device.vault = some vault)
    (secretId : Text) :
    FailsAtomically platform vault.cipher (eraseSecret platform env secretId) device ↔
      DeleteSafe platform vault.cipher env vault.manifest device secretId := by
  refine failsAtomically_of_holds ((eraseSecret_erased secretId unlocked).mono ?_)
  intro outcome after erased
  cases erased with
  | cut alike deleted => cases (deleted.of_uncut uncut).1
  | @saved outcome middle after manifest alike deleted removed stored =>
      obtain ⟨others, itself, dirs⟩ := deleted.get_of_uncut uncut
      have manifestEnd : writeEnd env (middle.withManifest vault manifest) .manifestFile =
          writeEnd env device .manifestFile :=
        writeEnd_manifest alike (fun _ mirrors => (mirrors.spares_secret _).2) dirs rfl rfl
      have ramUnchanged : (finish .secretDeleted outcome after).vault = device.vault ↔
          ∀ entry ∈ vault.manifest.secrets, entry.id ≠ secretId := by
        rw [finish_vault, stored.vault, unlocked, removed, ← removeFromManifest_eq_self]
        constructor
        · exact fun same => congrArg VaultState.manifest (Option.some.inj same)
        · intro same
          rw [same]
          rfl
      by_cases done : writeEnd env device .manifestFile = .done
      · have saved := manifestSaved_uncut uncut keyLength stored
        rw [manifestEnd, done] at saved
        rcases saved with ⟨_, rfl⟩ | ⟨⟨⟩, _⟩ | ⟨⟨⟩, _⟩
        exact iff_of_true nofun (.inl done)
      obtain ⟨rfl, unmoved, manifestKept⟩ :=
        manifestSaved_failed uncut keyLength stored (by rw [manifestEnd]; exact done)
      have secretsAfter : ∀ other,
          after.sd.get (secretPath other) = middle.sd.get (secretPath other) := unmoved
      have manifestAfter : after.sd.get .manifestFile = device.sd.get .manifestFile ↔
          (writeEnd env device .manifestFile = .torn →
            device.sd.get .manifestFile = some []) := by
        rw [← manifestEnd, ← others .manifestFile (by simp)]
        exact manifestKept
      constructor
      · intro unchanged
        obtain ⟨ram, manifest, secrets⟩ := unchanged ⟨_, rfl⟩
        refine .inr ⟨ramUnchanged.mp ram, manifestAfter.mp manifest, fun listed => itself.mp ?_⟩
        rw [← secrets secretId listed, ← secretsAfter]
        rfl
      · rintro (saved | ⟨ram, manifest, secrets⟩) _
        · exact absurd saved done
        · refine ⟨ramUnchanged.mpr ram, manifestAfter.mpr manifest, fun other listed => ?_⟩
          refine (secretsAfter other).trans ?_
          by_cases same : other = secretId
          · subst same
            exact itself.mpr (secrets listed)
          · exact others _ fun equal => same (secretPath_injective equal)

/-- **When a failing update changes nothing.** For every unlocked vault and every
choice of the operations that raise: an add is atomic exactly when its secret is not
written before a manifest that fails, and empties no file the card lists; a deletion
exactly when its manifest is written, or it finds nothing to delete and to empty. -/
theorem failsAtomically_iff (lawful : platform.Lawful) (uncut : env.Uncut) {salt : Bytes}
    {passphrase : Text} {manifest : Manifest}
    (unlocked : device.vault = some (openVault platform salt passphrase manifest)) :
    (∀ text label secretType,
      FailsAtomically platform (deriveKey platform passphrase salt)
          (storeSecret platform env text label secretType) device ↔
        AddSafe platform (deriveKey platform passphrase salt) env manifest device) ∧
    ∀ secretId,
      FailsAtomically platform (deriveKey platform passphrase salt)
          (eraseSecret platform env secretId) device ↔
        DeleteSafe platform (deriveKey platform passphrase salt) env manifest device secretId :=
  ⟨storeSecret_atomic_iff uncut (length_deriveKey lawful passphrase salt) unlocked,
    eraseSecret_atomic_iff uncut (length_deriveKey lawful passphrase salt) unlocked⟩

private theorem Sample.failing_uncut (entry : Text) (op : FileOp) :
    (Sample.failing entry op .raise).Uncut := by
  intro other count left
  simp only [Sample.failing]
  split <;> exact nofun

private theorem Sample.single_unlocked :
    Sample.single.vault = some (openVault Sample.platform Sample.salt ['a'] Sample.listing) := by
  decide +kernel

/-- Both conditions at a vault with one secret whose manifest file cannot be opened. -/
theorem failsAtomically_iff_single :
    let env := Sample.failing ['a'] (.openWrite .sd .manifestFile) .raise
    (∀ text label secretType,
      FailsAtomically Sample.platform (deriveKey Sample.platform ['a'] Sample.salt)
          (storeSecret Sample.platform env text label secretType) Sample.single ↔
        AddSafe Sample.platform (deriveKey Sample.platform ['a'] Sample.salt) env Sample.listing
          Sample.single) ∧
    ∀ secretId,
      FailsAtomically Sample.platform (deriveKey Sample.platform ['a'] Sample.salt)
          (eraseSecret Sample.platform env secretId) Sample.single ↔
        DeleteSafe Sample.platform (deriveKey Sample.platform ['a'] Sample.salt) env Sample.listing
          Sample.single secretId :=
  failsAtomically_iff Sample.platform_lawful (Sample.failing_uncut _ _) Sample.single_unlocked

/-- A vault with one secret whose manifest file cannot be opened: a failing add leaves
the new entry in RAM, a failing deletion has removed the file and the entry. -/
theorem updates_not_atomic :
    let env := Sample.failing ['a'] (.openWrite .sd .manifestFile) .raise
    let cipher := deriveKey Sample.platform ['a'] Sample.salt
    Sample.single.vault = some (openVault Sample.platform Sample.salt ['a'] Sample.listing) ∧
    ¬ FailsAtomically Sample.platform cipher
      (storeSecret Sample.platform env ['y'] ['b'] .text) Sample.single ∧
    ¬ FailsAtomically Sample.platform cipher
      (eraseSecret Sample.platform env ['0', '0', '1']) Sample.single := by
  intro env cipher
  have added : (storeSecret Sample.platform env ['y'] ['b'] .text Sample.single).1 =
      .raised .osError ∧
      (storeSecret Sample.platform env ['y'] ['b'] .text Sample.single).2.vault ≠
        Sample.single.vault := by decide +kernel
  have deleted : (eraseSecret Sample.platform env ['0', '0', '1'] Sample.single).1 =
      .raised .osError ∧
      (eraseSecret Sample.platform env ['0', '0', '1'] Sample.single).2.vault ≠
        Sample.single.vault := by decide +kernel
  refine ⟨Sample.single_unlocked, fun atomic => ?_, fun atomic => ?_⟩
  · exact added.2 (atomic _ _ (Prod.ext added.1 rfl)).vault
  · exact deleted.2 (atomic _ _ (Prod.ext deleted.1 rfl)).vault

end VaultSeed.Vault
