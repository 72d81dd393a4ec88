import VaultSeed.Vault.Pages
import VaultSeed.Vault.Writes

/-! # What adding and deleting a secret do

The store step of `VaultAdd` and the deletion of `VaultView` are each two changes of
the media with a change of the manifest in RAM in between. `Stored` and `Erased`
list the ways they can end; `perform_add` and `perform_delete` say what the actions
of a run do in these terms.
-/

namespace VaultSeed.Vault

open Python Effect Proc

/-- The unlocked device with another manifest in RAM. -/
def Device.withManifest (device : Device) (vault : VaultState) (manifest : Manifest) : Device :=
  { device with vault := some { vault with manifest := manifest } }

/-- The message at the end of an update that returned. -/
def finish (message : Message) (outcome : Outcome Exn Unit) (after : Device) : Device :=
  match outcome with
  | .ok _ => after.record (.shown message)
  | _ => after

/-- The last message leaves the media. -/
@[simp] theorem finish_toMedia (message : Message) (outcome : Outcome Exn Unit) (after : Device) :
    (finish message outcome after).toMedia = after.toMedia := by
  cases outcome <;> rfl

/-- The last message leaves the vault as it is open or locked. -/
@[simp] theorem finish_vault (message : Message) (outcome : Outcome Exn Unit) (after : Device) :
    (finish message outcome after).vault = after.vault := by
  cases outcome <;> rfl

section Relations

variable (platform : Platform) (env : Env) (vault : VaultState) (device : Device)

/-- A save of the manifest. -/
abbrev ManifestSaved (manifest : Manifest) :=
  Saved env platform vault.cipher manifestId .manifestFile
    (encode (platform.manifests.dumps manifest))

/-- A save of a secret. -/
abbrev SecretSaved (secretId : Text) (plaintext : Bytes) :=
  Saved env platform vault.cipher (encode secretId) (secretPath secretId) plaintext

/-- The entry a store step appends. -/
def newEntry (text label : Text) (secretType : SecretType) (secretId : Text) (middle : Device) :
    Entry :=
  ⟨secretId, label, secretType, env.time middle.trace.length,
    computeHashPreview platform (encode text)⟩

/-- **The ends of a store step.** -/
inductive Stored (text label : Text) (secretType : SecretType) :
    Outcome Exn Unit → Device → Prop where
  | noId {exn : Exn} (refused : nextSecretId vault.manifest = .error exn) :
      Stored text label secretType (.raised exn) device
  | secretFailed {secretId : Text} {outcome : Outcome Exn Unit} {after : Device}
      (next : nextSecretId vault.manifest = .ok secretId)
      (secret : SecretSaved platform env vault secretId (encode text) device outcome after)
      (notDone : outcome ≠ .ok ()) :
      Stored text label secretType outcome after
  | saved {secretId : Text} {outcome : Outcome Exn Unit} {middle after : Device}
      {manifest : Manifest} (next : nextSecretId vault.manifest = .ok secretId)
      (secret : SecretSaved platform env vault secretId (encode text) device (.ok ()) middle)
      (added : manifest = addToManifest vault.manifest
        (newEntry platform env text label secretType secretId middle))
      (stored : ManifestSaved platform env vault manifest (middle.withManifest vault manifest)
        outcome after) :
      Stored text label secretType outcome (finish .secretStored outcome after)

/-- **The ends of a deletion.** -/
inductive Erased (secretId : Text) : Outcome Exn Unit → Device → Prop where
  | cut {after : Device} (alike : Alike device after (FileOp.Removes (secretPath secretId)))
      (deleted : Deleted (env.fate device) (secretPath secretId) device.toMedia .off
        after.toMedia) :
      Erased secretId .off after
  | saved {outcome : Outcome Exn Unit} {middle after : Device} {manifest : Manifest}
      (alike : Alike device middle (FileOp.Removes (secretPath secretId)))
      (deleted : Deleted (env.fate device) (secretPath secretId) device.toMedia (.ok ())
        middle.toMedia)
      (removed : manifest = removeFromManifest vault.manifest secretId)
      (stored : ManifestSaved platform env vault manifest (middle.withManifest vault manifest)
        outcome after) :
      Erased secretId outcome (finish .secretDeleted outcome after)

end Relations

section Saved

variable {platform : Platform} {env : Env} {cipher : Kef.Cipher} {id : Bytes} {path : Path}
variable {plaintext : Bytes} {device after : Device} {outcome : Outcome Exn Unit}

/-- A save leaves the vault in RAM as it is. -/
theorem Saved.vault (saved : Saved env platform cipher id path plaintext device outcome after) :
    after.vault = device.vault := by
  cases saved with
  | refused => rfl
  | mirrored sealed alike mirrored => exact alike.vault

/-- Saving a file records nothing. -/
theorem Saved.history (saved : Saved env platform cipher id path plaintext device outcome after) :
    after.history = device.history := by
  cases saved with
  | refused => rfl
  | mirrored sealed alike mirrored => exact alike.history

end Saved

section Holds

variable {platform : Platform} {env : Env} {vault : VaultState} {device : Device}

private theorem currentVault_apply (unlocked : device.vault = some vault) :
    currentVault device = (.ok vault, device) := by
  simp only [currentVault, unlocked]

private theorem setManifest_apply (manifest : Manifest) (unlocked : device.vault = some vault) :
    setManifest manifest device = (.ok (), device.withManifest vault manifest) := by
  simp only [setManifest, modify_apply, unlocked, Option.map_some, Device.withManifest]

/-- The last two steps of both updates: save the manifest and report. -/
theorem saveAndReport {manifest : Manifest} {message : Message}
    {post : Outcome Exn Unit → Device → Prop}
    (done : ∀ outcome after, ManifestSaved platform env vault manifest device outcome after →
      post outcome (finish message outcome after)) :
    Holds (do
      saveManifest platform env vault.cipher manifest
      flashMessage message) device post :=
  Holds.bind (saveEnvelope_saved env platform vault.cipher manifestId .manifestFile _ device _)
    (fun _ _ saved => done _ _ saved) (fun _ _ saved => done _ _ saved)
    (fun _ saved => done _ _ saved)

/-- What the store step of `VaultAdd.run` does. -/
theorem storeSecret_stored (text label : Text) (secretType : SecretType)
    (unlocked : device.vault = some vault) :
    Holds (storeSecret platform env text label secretType) device
      (Stored platform env vault device text label secretType) := by
  unfold storeSecret Holds
  rw [bind_ok (currentVault_apply unlocked)]
  cases next : nextSecretId vault.manifest with
  | error exn =>
      rw [ofExcept_error, bind_raised (throw_apply exn)]
      exact .noId next
  | ok secretId =>
      rw [ofExcept_ok, bind_ok (pure_apply secretId)]
      refine Holds.bind (saveEnvelope_saved env platform vault.cipher (encode secretId)
        (secretPath secretId) (encode text) device _) ?_ ?_ ?_
      · intro _ middle secret
        unfold Holds
        rw [bind_ok (show currentTime env middle = (.ok (env.time middle.trace.length), middle)
          from rfl), bind_ok (setManifest_apply _ (secret.vault.trans unlocked))]
        exact saveAndReport fun outcome after stored => .saved next secret rfl stored
      · intro exn after failed
        exact .secretFailed next failed nofun
      · intro after failed
        exact .secretFailed next failed nofun

/-- What `VaultView.delete_secret` does once it is confirmed. -/
theorem eraseSecret_erased (secretId : Text) (unlocked : device.vault = some vault) :
    Holds (eraseSecret platform env secretId) device
      (Erased platform env vault device secretId) := by
  refine Holds.bind (deleteWithMirror_deleted env (secretPath secretId) device) ?_ ?_ ?_
  · rintro _ middle ⟨alike, deleted⟩
    unfold Holds
    rw [bind_ok (currentVault_apply (alike.vault.trans unlocked)),
      bind_ok (setManifest_apply _ (alike.vault.trans unlocked))]
    exact saveAndReport fun outcome after stored => .saved alike deleted rfl stored
  · rintro exn after ⟨_, deleted⟩
    exact deleted.not_raised.elim
  · rintro after ⟨alike, deleted⟩
    exact .cut alike deleted

end Holds

/-- Two devices between which only the user was asked. -/
structure Talked (before after : Device) : Prop where
  media : after.toMedia = before.toMedia
  vault : after.vault = before.vault
  trace : after.trace = before.trace
  shown : ∀ message, .shown message ∈ after.history ↔ .shown message ∈ before.history

private theorem Talked.refl (device : Device) : Talked device device :=
    ⟨rfl, rfl, rfl, fun _ => .rfl⟩

private theorem Talked.trans {first second third : Device} (begins : Talked first second)
    (continues : Talked second third) : Talked first third :=
  ⟨continues.media.trans begins.media, continues.vault.trans begins.vault,
    continues.trace.trans begins.trace, fun message => (continues.shown message).trans
      (begins.shown message)⟩

private theorem prompt_talked (env : Env) (question : Question) (device : Device) :
    Holds (prompt env question) device fun outcome after =>
      Talked device after ∧ ∃ answer, outcome = .ok answer :=
  ⟨⟨rfl, rfl, rfl, fun _ => by simp [prompt, Device.record]⟩, _, rfl⟩

private theorem captureFromKeypad_talked (env : Env) (title : Title) (device : Device) :
    Holds (captureFromKeypad env title) device fun outcome after =>
      Talked device after ∧ ∃ entry, outcome = .ok entry :=
  ⟨⟨rfl, rfl, rfl, fun _ => by simp [captureFromKeypad, Device.record]⟩, _, rfl⟩

/-- A sequence of conversations is one. -/
theorem talked_bind {α β : Type} {first : Run α} {next : α → Run β} {device : Device}
    (begins : Holds first device fun outcome after =>
      Talked device after ∧ ∃ value, outcome = .ok value)
    (continues : ∀ value middle, Holds (next value) middle fun outcome after =>
      Talked middle after ∧ ∃ value, outcome = .ok value) :
    Holds (first >>= next) device fun outcome after =>
      Talked device after ∧ ∃ value, outcome = .ok value := by
  refine Holds.bind begins ?_ ?_ ?_
  · rintro value middle ⟨talked, _⟩
    exact (continues value middle).mono fun _ _ ⟨more, done⟩ => ⟨talked.trans more, done⟩
  · rintro exn after ⟨_, _, same⟩
    cases same
  · rintro after ⟨_, _, same⟩
    cases same

private theorem talked_pure {α : Type} (value : α) (device : Device) :
    Holds (pure value : Run α) device fun outcome after =>
      Talked device after ∧ ∃ value, outcome = .ok value :=
  ⟨.refl device, value, rfl⟩

private theorem confirmStore_talked (env : Env) (secretType : SecretType) (device : Device) :
    Holds (confirmStore env secretType) device fun outcome after =>
      Talked device after ∧ ∃ label, outcome = .ok label := by
  unfold confirmStore
  refine talked_bind ?_ fun goesOn middle => ?_
  · unfold confirmWarning
    split
    · exact prompt_talked env _ _
    · exact talked_pure _ _
  split
  · refine talked_bind (captureFromKeypad_talked env _ _) fun entry middle => ?_
    cases entry with
    | none => exact talked_pure _ _
    | some entry =>
        change Holds (if entry.take 20 = [] then _ else _) middle _
        split
        · exact talked_pure _ _
        · refine talked_bind (prompt_talked env _ _) fun confirmed middle => ?_
          split <;> exact talked_pure _ _
  · exact talked_pure _ _

/-- The end of a page whose body ended in one of three ways: an exception is
reported, a power loss ends everything. -/
inductive Reported (message : Exn → Message) :
    Outcome Exn Unit → Device → Outcome Exn Unit → Device → Prop where
  | returned (device : Device) : Reported message (.ok ()) device (.ok ()) device
  | raised (exn : Exn) (device : Device) :
      Reported message (.raised exn) device (.ok ()) (device.record (.shown (message exn)))
  | lost (device : Device) : Reported message .off device .off device

private theorem reporting_holds {body : Run Unit} {message : Exn → Message} {device : Device}
    {post : Outcome Exn Unit → Device → Prop} (valid : Holds body device post) :
    Holds (tryExcept body fun exn => flashMessage (message exn)) device fun outcome after =>
      ∃ inner final, post inner final ∧ Reported message inner final outcome after := by
  refine Holds.tryExcept valid ?_ ?_ ?_
  · intro _ after done
    exact ⟨_, after, done, .returned after⟩
  · intro exn after failed
    exact ⟨_, after, failed, .raised exn after⟩
  · intro after lost
    exact ⟨_, after, lost, .lost after⟩

/-- The device after an action of which the body ended so. -/
structure Ended (message : Message) (outcome : Outcome Exn Unit) (final result : Device) :
    Prop where
  media : result.toMedia = final.toMedia
  vault : result.vault = if outcome = .off then none else final.vault
  shown : .shown message ∈ result.history ↔ .shown message ∈ final.history

section Perform

variable (platform : Platform) (env : Env) {vault : VaultState} {device : Device}

/-- An action leaves the media and the vault as they are, and does not report. -/
structure Declined (message : Message) (device result : Device) : Prop where
  media : result.toMedia = device.toMedia
  vault : result.vault = device.vault
  silent : .shown message ∉ result.history

/-- A device that gets ready for a step keeps its open vault. -/
theorem unlocked_ready {state : Option VaultState} (same : device.vault = state) :
    device.ready.vault = state := same

/-- A page that is reached does what it does. -/
theorem reachedWhen_holds {unlocked : Bool} {page : Run Unit}
    {post : Outcome Exn Unit → Device → Prop} (reached : device.vault.isSome = unlocked)
    (valid : Holds page device post) : Holds (reachedWhen unlocked page) device post := by
  unfold Holds reachedWhen
  simp only [reached, ↓reduceIte]
  exact valid

/-- The device after an action, from what its body does. -/
theorem perform_holds {action : Action} {post : Outcome Exn Unit → Device → Prop}
    (valid : Holds (action.body platform env) device.ready post) :
    ∃ outcome after, post outcome after ∧
      perform platform device ⟨action, env⟩ =
        if outcome = .off then { after with vault := none } else after := by
  unfold Holds at valid
  refine ⟨_, _, valid, ?_⟩
  unfold perform
  cases action.body platform env device.ready with
  | mk outcome after => cases outcome <;> rfl

/-- **What an add does to an unlocked device.** -/
theorem perform_add (text : Text) (unlocked : device.vault = some vault) :
    Declined .secretStored device (perform platform device ⟨.add text, env⟩) ∨
    ∃ start label outcome final, Talked device.ready start ∧
      Stored platform env vault start text label (detectSecretType platform text) outcome final ∧
      Ended .secretStored outcome final (perform platform device ⟨.add text, env⟩) := by
  have body : Holds (Action.body platform env (.add text)) device.ready fun outcome after =>
      (outcome = .ok () ∧ Talked device.ready after) ∨
      ∃ start label inner final, Talked device.ready start ∧
        Stored platform env vault start text label (detectSecretType platform text) inner final ∧
        Reported .failedToStore inner final outcome after := by
    refine reachedWhen_holds (by rw [unlocked_ready unlocked]; rfl) ?_
    unfold vaultAdd
    split
    · exact .inl ⟨rfl, .refl _⟩
    refine Holds.bind (confirmStore_talked env _ _) ?_ ?_ ?_
    · rintro label start ⟨talked, _⟩
      cases label with
      | none => exact .inl ⟨rfl, talked⟩
      | some label =>
          refine (reporting_holds (storeSecret_stored text label _
            (talked.vault.trans unlocked))).mono ?_
          rintro outcome after ⟨inner, final, stored, reported⟩
          exact .inr ⟨start, label, inner, final, talked, stored, reported⟩
    · rintro exn after ⟨_, _, same⟩
      cases same
    · rintro after ⟨_, _, same⟩
      cases same
  obtain ⟨outcome, after, valid, result⟩ := perform_holds platform env body
  rw [result]
  rcases valid with ⟨rfl, talked⟩ | ⟨start, label, inner, final, talked, stored, reported⟩
  · refine .inl ⟨talked.media, talked.vault, fun member => ?_⟩
    exact absurd ((talked.shown _).mp member) (List.not_mem_nil)
  · refine .inr ⟨start, label, inner, final, talked, stored, ?_⟩
    cases reported with
    | returned => exact ⟨rfl, rfl, .rfl⟩
    | raised exn => exact ⟨rfl, rfl, by simp [Device.record]⟩
    | lost => exact ⟨rfl, rfl, .rfl⟩

/-- **What a deletion does to an unlocked device.** -/
theorem perform_delete (secretId : Text) (unlocked : device.vault = some vault) :
    Declined .secretDeleted device (perform platform device ⟨.delete secretId, env⟩) ∨
    ∃ start outcome final, env.answer .deleteSecret 0 = true ∧ Talked device.ready start ∧
      Erased platform env vault start secretId outcome final ∧
      Ended .secretDeleted outcome final (perform platform device ⟨.delete secretId, env⟩) := by
  have body : Holds (Action.body platform env (.delete secretId)) device.ready fun outcome after =>
      (outcome = .ok () ∧ Talked device.ready after) ∨
      ∃ start inner final, env.answer .deleteSecret 0 = true ∧ Talked device.ready start ∧
        Erased platform env vault start secretId inner final ∧
        Reported .deleteFailed inner final outcome after := by
    refine reachedWhen_holds (by rw [unlocked_ready unlocked]; rfl) ?_
    have talked := (prompt_talked env .deleteSecret device.ready).1
    refine Holds.bind_ok (show prompt env .deleteSecret device.ready =
      (.ok (env.answer .deleteSecret 0), _) from rfl) ?_
    split
    · rename_i confirmed
      refine (reporting_holds (eraseSecret_erased secretId (talked.vault.trans unlocked))).mono ?_
      rintro outcome after ⟨inner, final, erased, reported⟩
      exact .inr ⟨_, inner, final, confirmed, talked, erased, reported⟩
    · exact .inl ⟨rfl, talked⟩
  obtain ⟨outcome, after, valid, result⟩ := perform_holds platform env body
  rw [result]
  rcases valid with ⟨rfl, talked⟩ | ⟨start, inner, final, confirmed, talked, erased, reported⟩
  · refine .inl ⟨talked.media, talked.vault, fun member => ?_⟩
    exact absurd ((talked.shown _).mp member) (List.not_mem_nil)
  · refine .inr ⟨start, inner, final, confirmed, talked, erased, ?_⟩
    cases reported with
    | returned => exact ⟨rfl, rfl, .rfl⟩
    | raised exn => exact ⟨rfl, rfl, by simp [Device.record]⟩
    | lost => exact ⟨rfl, rfl, .rfl⟩

/-- The pages of an unlocked vault are out of reach of a locked device. -/
theorem perform_add_locked (text : Text) (locked : device.vault = none) :
    perform platform device ⟨.add text, env⟩ = device.ready := by
  have body : Action.body platform env (.add text) device.ready = (.ok (), device.ready) :=
    if_neg (by rw [unlocked_ready locked]; simp)
  simp only [perform, body]

/-- In a locked vault nothing is deleted. -/
theorem perform_delete_locked (secretId : Text) (locked : device.vault = none) :
    perform platform device ⟨.delete secretId, env⟩ = device.ready := by
  have body : Action.body platform env (.delete secretId) device.ready = (.ok (), device.ready) :=
    if_neg (by rw [unlocked_ready locked]; simp)
  simp only [perform, body]

end Perform

end VaultSeed.Vault
