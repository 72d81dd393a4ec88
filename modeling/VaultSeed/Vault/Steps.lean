import VaultSeed.Vault.Boot
import VaultSeed.Vault.Identifiers

/-! # One step on the card

When a write to the card, once begun, is completed, a step of a run changes the card
in a few ways only: `AddedTo` lists those of an add, `DeletedFrom` those of a
deletion, `CreatedOn` those of the creation of a vault. Operations may raise and the
power may be cut at any other point.
-/

namespace VaultSeed.Vault

open Python Effect Proc

/-- A write to the card that is begun is completed. -/
def Env.Whole (env : Env) : Prop := ∀ path count, env.fault (.write .sd path) count = .none

variable {platform : Platform} {env : Env}

/-- The operations before a write to the card begins. -/
def FileOp.Opens (path : Path) (op : FileOp) : Prop :=
  op = .mount (.writeWithMirror path) ∨ op = .openWrite .sd path

section Whole

variable {device : Device} {after : Device} {path : Path} {outcome : Outcome Exn Unit}

private theorem Stops.ne_ok {fault : Fault} (stops : Stops fault outcome) : outcome ≠ .ok () := by
  cases stops <;> exact nofun

private theorem Stops.ne_none {fault : Fault} (stops : Stops fault outcome) : fault ≠ .none := by
  cases stops <;> exact nofun

/-- A completed write changes the card, or it has not begun. -/
theorem Mirrored.of_whole (whole : env.Whole) {data : Bytes} {before after : Media}
    (mirrored : Mirrored (env.fate device) path data before outcome after) :
    (outcome ≠ .ok () ∧ after = before ∧
      ((∃ op, op.Opens path ∧ Stops (env.fate device op) outcome) ∨
        before.sd.hasDir path.dir = false)) ∨
    ((∀ exn, outcome ≠ .raised exn) ∧ after.sd = before.sd.put path data ∧
      (outcome = .ok () ∨ ∃ op, op.Writes .flash path ∧ env.fate device op ≠ .none)) := by
  cases mirrored with
  | unmounted stops cause =>
      subst cause
      exact .inl ⟨stops.ne_ok, rfl, .inl ⟨_, .inl rfl, stops⟩⟩
  | failed mounted primary notDone =>
      cases primary with
      | refused stops cause =>
          refine .inl ⟨notDone, rfl, ?_⟩
          rcases cause with cause | ⟨_, _, missing⟩
          · subst cause
            exact .inl ⟨_, .inr rfl, stops⟩
          · exact .inr missing
      | torn stops _ _ _ cause =>
          have spared : env.fate device (.write .sd path) = .none := whole path _
          rw [spared] at cause
          subst cause
          cases stops
      | done => exact absurd rfl notDone
  | @written inner sd flash mounted primary mirror =>
      refine .inr ⟨by cases inner <;> exact nofun, primary.eq_put, ?_⟩
      cases mirror with
      | refused stops cause =>
          rcases cause with cause | ⟨rfl, _, _⟩
          · exact .inr ⟨_, .inl rfl, cause ▸ stops.ne_none⟩
          · cases stops
            exact .inl rfl
      | torn stops _ _ _ cause => exact .inr ⟨_, .inr rfl, cause ▸ stops.ne_none⟩
      | done => exact .inl rfl

/-- A save changes the card by a whole envelope, or not at all. -/
theorem Saved.of_whole (whole : env.Whole) {cipher : Kef.Cipher} {id plaintext : Bytes}
    (saved : Saved env platform cipher id path plaintext device outcome after) :
    (outcome ≠ .ok () ∧ after.toMedia = device.toMedia ∧
      ((∃ exn, sealEnvelope platform cipher id plaintext (env.vector device) = .error exn) ∨
        (∃ op, op.Opens path ∧ Stops (env.fate device op) outcome) ∨
        device.sd.hasDir path.dir = false)) ∨
    ((∀ exn, outcome ≠ .raised exn) ∧ ∃ envelope, Seals platform cipher id plaintext envelope ∧
      after.sd = device.sd.put path envelope) := by
  cases saved with
  | refused refusal => exact .inl ⟨nofun, rfl, .inl ⟨_, refusal⟩⟩
  | mirrored sealed alike mirrored =>
      rcases mirrored.of_whole whole with ⟨notDone, same, cause⟩ | ⟨never, put, _⟩
      · exact .inl ⟨notDone, same, .inr cause⟩
      · exact .inr ⟨never, _, Saved.seals sealed, put⟩

/-- A save of a manifest that does not begin is stopped at an operation. -/
theorem manifestSaved_whole (whole : env.Whole) {cipher : Kef.Cipher} {plaintext : Bytes}
    (keyLength : cipher.key.length = 32) (ready : device.sd.Ready)
    (saved : Saved env platform cipher manifestId .manifestFile plaintext device outcome after) :
    (outcome ≠ .ok () ∧ after.toMedia = device.toMedia ∧
      ∃ op, op.Opens .manifestFile ∧ Stops (env.fate device op) outcome) ∨
    ((∀ exn, outcome ≠ .raised exn) ∧
      ∃ envelope, Seals platform cipher manifestId plaintext envelope ∧
        after.sd = device.sd.put .manifestFile envelope) := by
  rcases saved.of_whole whole with ⟨notDone, same, ⟨exn, refused⟩ | stopped | missing⟩ | put
  · exact absurd refused (sealEnvelope_manifest_ne_error keyLength (length_vector env device) exn)
  · exact .inl ⟨notDone, same, stopped⟩
  · rw [ready.hasDir] at missing
    cases missing
  · exact .inr put

end Whole

/-- Some operation raises. -/
def Env.Raises (env : Env) : Prop := ∃ op count, env.fault op count = .raise

private theorem Stops.off_of_not_raises {device : Device} {op : FileOp} {outcome : Outcome Exn Unit}
    (calm : ¬ env.Raises) (stops : Stops (env.fate device op) outcome) : outcome = .off := by
  generalize same : env.fate device op = fault at stops
  cases stops with
  | raised => exact absurd ⟨op, _, same⟩ calm
  | cut left => rfl

/-- The vault with another manifest. -/
def VaultState.listing (vault : VaultState) (manifest : Manifest) : VaultState :=
  { vault with manifest := manifest }

/-- **The card and the vault in RAM after an add.** -/
inductive AddedTo (platform : Platform) (env : Env) (vault : VaultState) (text : Text)
    (sd : Medium) : Medium → Option VaultState → Prop where
  | nothing {state : Option VaultState} (kept : state = none ∨ state = some vault) :
      AddedTo platform env vault text sd sd state
  | secretOnly {entry : Entry} {envelope : Bytes} {state : Option VaultState}
      (next : nextSecretId vault.manifest = .ok entry.id)
      (secret : Seals platform vault.cipher (encode entry.id) (encode text) envelope)
      (listed : state = none ∨
        (state = some (vault.listing (addToManifest vault.manifest entry)) ∧ env.Raises)) :
      AddedTo platform env vault text sd (sd.put (secretPath entry.id) envelope) state
  | both {entry : Entry} {envelope manifest : Bytes} {state : Option VaultState}
      (next : nextSecretId vault.manifest = .ok entry.id)
      (secret : Seals platform vault.cipher (encode entry.id) (encode text) envelope)
      (list : Seals platform vault.cipher manifestId
        (encode (platform.manifests.dumps (addToManifest vault.manifest entry))) manifest)
      (listed : state = none ∨ state = some (vault.listing (addToManifest vault.manifest entry))) :
      AddedTo platform env vault text sd
        ((sd.put (secretPath entry.id) envelope).put .manifestFile manifest) state

/-- An operation between the removal of a file from the card and the writing of the
manifest. -/
def FileOp.AfterRemoval (secretId : Text) (op : FileOp) : Prop :=
  op = .remove .flash (secretPath secretId) ∨ op = .mount (.writeWithMirror .manifestFile) ∨
    op = .openWrite .sd .manifestFile

/-- The removal of a secret from the card, not cut by a power loss. -/
def CardRemoved (env : Env) (secretId : Text) (sd after : Medium) : Prop :=
  (after = sd.erase (secretPath secretId) ∧
    env.fault (.remove .sd (secretPath secretId)) 0 = .none) ∨
  (after = sd ∧ env.fault (.remove .sd (secretPath secretId)) 0 = .raise)

/-- **The card and the vault in RAM after a deletion.** -/
inductive DeletedFrom (platform : Platform) (env : Env) (vault : VaultState) (secretId : Text)
    (sd : Medium) : Medium → Option VaultState → Prop where
  | nothing {state : Option VaultState} (kept : state = none ∨ state = some vault) :
      DeletedFrom platform env vault secretId sd sd state
  | unsaved {after : Medium} {state : Option VaultState}
      (agreed : env.answer .deleteSecret 0 = true)
      (fault : ∃ op, op.AfterRemoval secretId ∧ env.fault op 0 ≠ .none)
      (removed : CardRemoved env secretId sd after)
      (listed : state = none ∨
        state = some (vault.listing (removeFromManifest vault.manifest secretId))) :
      DeletedFrom platform env vault secretId sd after state
  | saved {after : Medium} {manifest : Bytes} {state : Option VaultState}
      (agreed : env.answer .deleteSecret 0 = true) (removed : CardRemoved env secretId sd after)
      (list : Seals platform vault.cipher manifestId
        (encode (platform.manifests.dumps (removeFromManifest vault.manifest secretId))) manifest)
      (listed : state = none ∨
        state = some (vault.listing (removeFromManifest vault.manifest secretId))) :
      DeletedFrom platform env vault secretId sd (after.put .manifestFile manifest) state

/-- The manifest on a card under a key; a card without a manifest lists nothing. -/
def Lists (platform : Platform) (cipher : Kef.Cipher) (sd : Medium) (manifest : Manifest) : Prop :=
  (sd.get .manifestFile = none ∧ manifest = .empty) ∨
  ∃ envelope, sd.get .manifestFile = some envelope ∧ Seals platform cipher manifestId
    (encode (platform.manifests.dumps manifest)) envelope

namespace Lists

variable {cipher : Kef.Cipher} {sd after : Medium} {manifest : Manifest}

/-- The listed manifest is the one that is read. -/
theorem manifestOn (lawful : platform.Lawful) (lists : Lists platform cipher sd manifest) :
    manifestOn platform cipher sd = some manifest := by
  rcases lists with ⟨absent, rfl⟩ | ⟨envelope, stored, seals⟩
  · exact manifestOn_of_none absent
  · exact manifestOn_of_seals lawful stored seals

/-- What is listed depends on the manifest's file only. -/
theorem congr (lists : Lists platform cipher sd manifest)
    (same : after.get .manifestFile = sd.get .manifestFile) :
    Lists platform cipher after manifest := by
  unfold Lists
  rw [same]
  exact lists

/-- A card lists the manifest whose envelope was put there. -/
theorem of_put {envelope : Bytes} (seals : Seals platform cipher manifestId
    (encode (platform.manifests.dumps manifest)) envelope) :
    Lists platform cipher (sd.put .manifestFile envelope) manifest :=
  .inr ⟨envelope, Medium.get_put_self _ _, seals⟩

end Lists

section Perform

variable {device : Device} {vault : VaultState}

/-- The vault in RAM after an update of which the body ended so. -/
theorem Ended.vault_cases {message : Message} {outcome : Outcome Exn Unit} {final result : Device}
    {state : Option VaultState} (ended : Ended message outcome final result)
    (same : final.vault = state) : result.vault = none ∨ result.vault = state := by
  rw [ended.vault]
  split
  · exact .inl rfl
  · exact .inr same

/-- What an add does to the card. -/
theorem perform_add_card (whole : env.Whole) (keyLength : vault.cipher.key.length = 32)
    (ready : device.sd.Ready) (unlocked : device.vault = some vault) (text : Text) :
    AddedTo platform env vault text device.sd (perform platform device ⟨.add text, env⟩).sd
      (perform platform device ⟨.add text, env⟩).vault := by
  rcases perform_add platform env text unlocked with
    declined | ⟨start, label, outcome, final, talked, stored, ended⟩
  · rw [declined.media]
    exact .nothing (.inr (declined.vault.trans unlocked))
  have sd : start.sd = device.sd := congrArg Media.sd talked.media
  have known : start.vault = some vault := talked.vault.trans unlocked
  rw [ended.media, ← sd]
  cases stored with
  | noId refused => exact .nothing (ended.vault_cases known)
  | @secretFailed secretId _ _ next secret notDone =>
      have states := ended.vault_cases (secret.vault.trans known)
      rcases secret.of_whole whole with ⟨_, same, _⟩ | ⟨never, envelope, seals, put⟩
      · rw [same]
        exact .nothing states
      · have lost : outcome = .off := by
          rcases outcome with _ | exn | _
          · exact absurd rfl notDone
          · exact absurd rfl (never exn)
          · rfl
        have written : AddedTo platform env vault text start.sd (start.sd.put (secretPath
            (newEntry platform env text label .text secretId start).id) envelope) none :=
          .secretOnly next seals (.inl rfl)
        rw [put, ended.vault, if_pos lost]
        exact written
  | @saved secretId outcome middle after manifest next secret added stored =>
      obtain ⟨envelope, seals, middleSd⟩ := secret.sd_eq_put
      have states := ended.vault_cases ((finish_vault _ _ _).trans stored.vault)
      rw [show (middle.withManifest vault manifest).vault = some (vault.listing (addToManifest
        vault.manifest (newEntry platform env text label (detectSecretType platform text) secretId
          middle))) by rw [← added]; rfl] at states
      have middleReady : (middle.withManifest vault manifest).sd.Ready := by
        change middle.sd.Ready
        rw [middleSd, sd]
        exact ready
      rw [finish_toMedia]
      rcases manifestSaved_whole whole keyLength middleReady stored with
        ⟨_, same, _, _, stops⟩ | ⟨_, second, list, put⟩
      · rw [same]
        change AddedTo platform env vault text start.sd middle.sd _
        rw [middleSd]
        refine .secretOnly next seals (states.imp id fun listed => ⟨listed, ?_⟩)
        by_contra calm
        rw [ended.vault, if_pos (stops.off_of_not_raises calm)] at listed
        cases listed
      · rw [put]
        change AddedTo platform env vault text start.sd (middle.sd.put _ _) _
        rw [middleSd]
        exact .both next seals (added ▸ list) states

/-- A vault that is still unlocked is the one that is known. -/
theorem eq_of_stays {state : Option VaultState} {listing other : VaultState}
    (kept : state = none ∨ state = some listing) (same : state = some other) :
    other = listing := by
  rcases kept with none | known
  · rw [none] at same
    cases same
  · rw [known] at same
    exact (Option.some.inj same).symm

section CardRemoved

variable {secretId : Text} {sd after : Medium}

/-- The part of the card in a removal whose operations are the first of their kinds. -/
theorem CardRemoved.of_removed {fate : FileOp → Fault}
    (first : ∀ op, fate op = env.fault op 0)
    (primary : Removed fate .sd (secretPath secretId) sd (.ok ()) after) :
    CardRemoved env secretId sd after := by
  cases primary with
  | kept cause => exact .inr ⟨rfl, (first _).symm.trans cause⟩
  | gone spared => exact .inl ⟨rfl, (first _).symm.trans spared⟩

private theorem CardRemoved.of_deleted {fate : FileOp → Fault} {before media : Media}
    (first : ∀ op, fate op = env.fault op 0)
    (deleted : Deleted fate (secretPath secretId) before (.ok ()) media) :
    CardRemoved env secretId before.sd media.sd := by
  cases deleted with
  | removed primary => exact .of_removed first primary

/-- Removing a secret leaves a card ready. -/
theorem CardRemoved.ready (removed : CardRemoved env secretId sd after) (ready : sd.Ready) :
    after.Ready := by
  rcases removed with ⟨rfl, _⟩ | ⟨rfl, _⟩
  · exact ready
  · exact ready

/-- Removing a secret leaves the other files. -/
theorem CardRemoved.get_of_ne (removed : CardRemoved env secretId sd after) {path : Path}
    (different : path ≠ secretPath secretId) : after.get path = sd.get path := by
  rcases removed with ⟨rfl, _⟩ | ⟨rfl, _⟩
  · exact Medium.get_erase_of_ne different
  · rfl

end CardRemoved

/-- What a deletion does to the card. -/
theorem perform_delete_card (whole : env.Whole) (keyLength : vault.cipher.key.length = 32)
    (ready : device.sd.Ready) (unlocked : device.vault = some vault) (secretId : Text) :
    DeletedFrom platform env vault secretId device.sd
      (perform platform device ⟨.delete secretId, env⟩).sd
      (perform platform device ⟨.delete secretId, env⟩).vault := by
  rcases perform_delete platform env secretId unlocked with
    declined | ⟨start, outcome, final, agreed, talked, erased, ended⟩
  · rw [declined.media]
    exact .nothing (.inr (declined.vault.trans unlocked))
  have sd : start.sd = device.sd := congrArg Media.sd talked.media
  have known : start.vault = some vault := talked.vault.trans unlocked
  have first : ∀ op, env.fate start op = env.fault op 0 := by
    intro op
    rw [Env.fate, talked.trace]
    rfl
  rw [ended.media, ← sd]
  cases erased with
  | cut alike deleted =>
      have locked : (perform platform device ⟨.delete secretId, env⟩).vault = none := by
        rw [ended.vault, if_pos rfl]
      generalize final.toMedia = media at deleted
      cases deleted with
      | cut stopped => exact .nothing (.inl locked)
      | removed primary mirror =>
          refine .unsaved agreed ⟨_, .inl rfl, ?_⟩ ?_ (.inl locked)
          · cases mirror with
            | cut cause =>
                rw [← first, cause]
                simp
          · exact .of_removed first primary
  | @saved _ middle after manifest alike deleted removed stored =>
      have states := ended.vault_cases ((finish_vault _ _ _).trans stored.vault)
      rw [show (middle.withManifest vault manifest).vault = some (vault.listing
        (removeFromManifest vault.manifest secretId)) by rw [← removed]; rfl] at states
      have onCard : CardRemoved env secretId start.sd middle.sd := .of_deleted first deleted
      have later : ∀ op, op.AfterRemoval secretId → op ≠ .remove .flash (secretPath secretId) →
          env.fate (middle.withManifest vault manifest) op = env.fault op 0 := by
        intro op after different
        rw [← first]
        refine congrArg (env.fault op) (alike.count op ?_)
        rintro ⟨disk, rfl⟩
        rcases after with same | same | same <;> cases same
        exact different rfl
      rw [finish_toMedia]
      have middleReady : (middle.withManifest vault manifest).sd.Ready :=
        onCard.ready (sd ▸ ready)
      rcases manifestSaved_whole whole keyLength middleReady stored with
        ⟨_, same, op, opens, stops⟩ | ⟨_, envelope, list, put⟩
      · rw [same]
        refine .unsaved agreed ⟨op, .inr opens, ?_⟩ onCard states
        rw [← later op (.inr opens) (by rcases opens with rfl | rfl <;> simp)]
        exact stops.ne_none
      · rw [put]
        exact .saved agreed onCard (removed ▸ list) states

/-- The operations whose failure leaves a new vault without a manifest. -/
def FileOp.Creates (op : FileOp) : Prop :=
  op.Writes .flash .metaFile ∨ op = .mount (.writeWithMirror .manifestFile) ∨
    op = .openWrite .sd .manifestFile

/-- **The device after the creation of a vault** on a card without files. -/
inductive CreatedOn (platform : Platform) (env : Env) (result : Device) : Prop where
  | nothing (absent : ∀ disk path, (result.disk disk).get path = none)
      (locked : result.vault = none)
  | unkeyed (salt : Bytes) (ready : result.sd.Ready)
      (salted : result.sd.get .metaFile = some (metaData platform salt))
      (others : ∀ path, path ≠ .metaFile → result.sd.get path = none)
      (locked : result.vault = none)
      (cause : (∀ passphrase, ¬ env.Chooses passphrase 0 env.patience) ∨
        ∃ op, op.Creates ∧ env.Faulty op)
  | keyed (salt : Bytes) (passphrase : Text) (envelope : Bytes) (ready : result.sd.Ready)
      (salted : result.sd.get .metaFile = some (metaData platform salt))
      (stored : result.sd.get .manifestFile = some envelope)
      (list : Seals platform (deriveKey platform passphrase salt) manifestId
        (encode (platform.manifests.dumps .empty)) envelope)
      (others : ∀ path, path ≠ .metaFile → path ≠ .manifestFile → result.sd.get path = none)
      (chooses : env.Chooses passphrase 0 env.patience)
      (confirmed : ConfirmedIn passphrase result.history)
      (state : result.vault = none ∨
        result.vault = some (openVault platform salt passphrase .empty))

/-- A boot with a card without files. -/
theorem perform_boot_blank (lawful : platform.Lawful) (whole : env.Whole) (sees : env.SeesMeta)
    (absent : ∀ disk path, (device.disk disk).get path = none) (locked : device.vault = none) :
    CreatedOn platform env (perform platform device ⟨.boot, env⟩) := by
  rcases perform_boot platform sees (fun _ => absent .flash .metaFile) locked with
    still | ⟨salt, entered, manifest, opened⟩ | ⟨_, _, outcome, after, created, media,
      vault, history⟩
  · exact .nothing (fun disk path => by rw [still.media, absent]) (still.vault.trans locked)
  · have salted := opened.salted
    simp [saltOn, show device.sd.get .metaFile = none from absent .sd .metaFile] at salted
  cases created with
  | unprepared same _ =>
      refine .nothing (fun disk path => ?_) ?_
      · rw [media, same.get, absent]
      · rw [vault, same.vault, locked, ite_self]
  | uninitialized initialized notDone _ =>
      have unlocked : (perform platform device ⟨.boot, env⟩).vault = none := by
        rw [vault, initialized.vault, locked, ite_self]
      rcases initialized.mirrored.of_whole whole with ⟨_, same, _⟩ | ⟨_, sd, done⟩
      · refine .nothing (fun disk path => ?_) unlocked
        rw [media, same]
        exact (initialized.prepared.get disk path).trans (absent disk path)
      · obtain ⟨ready, salted, others⟩ := initialized.on_blank (absent .sd) sd
        refine .unkeyed _ (by rw [media]; exact ready) (by rw [media]; exact salted)
          (by rw [media]; exact others) unlocked (.inr ?_)
        rcases done with done | ⟨op, writes, fault⟩
        · exact absurd done notDone
        · exact ⟨op, .inl writes, _, fault⟩
  | abandoned initialized _ never =>
      obtain ⟨ready, salted, others⟩ :=
        initialized.on_blank (absent .sd) initialized.mirrored.sd_eq_put
      refine .unkeyed _ (by rw [media]; exact ready) (by rw [media]; exact salted)
        (by rw [media]; exact others) ?_ (.inl never)
      rw [vault, initialized.vault, locked, ite_self]
  | @keyed salt middle start final _ passphrase inner initialized nonempty chooses keyed ended =>
      obtain ⟨ready, salted, others⟩ :=
        initialized.on_blank (absent .sd) initialized.mirrored.sd_eq_put
      have startLocked : start.vault = none := initialized.vault.trans locked
      have sd : (perform platform device ⟨.boot, env⟩).sd = final.sd := by rw [media, keyed.media]
      rcases manifestSaved_whole whole (length_key_new lawful.inverts _ _ _) ready keyed.saved with
        ⟨notDone, same, op, opens, stops⟩ | ⟨_, envelope, list, put⟩
      · refine .unkeyed salt ?_ ?_ ?_ ?_ (.inr ?_)
        · rw [sd, same]
          exact ready
        · rw [sd, same]
          exact salted
        · rw [sd, same]
          exact others
        · rw [vault, keyed.vault]
          cases inner with
          | ok => exact absurd rfl notDone
          | raised => simp [vaultAfter, startLocked]
          | off => simp [vaultAfter, startLocked]
        · exact ⟨op, .inr opens, _, stops.ne_none⟩
      · refine .keyed salt passphrase envelope ?_ ?_ ?_ list ?_ chooses ?_ ?_
        · rw [sd, put]
          exact ready
        · rw [sd, put, Medium.get_put_of_ne (by simp)]
          exact salted
        · rw [sd, put, Medium.get_put_self]
        · intro path notMeta notManifest
          rw [sd, put, Medium.get_put_of_ne notManifest]
          exact others path notMeta
        · rw [history]
          exact keyed.confirmed
        · rw [vault, keyed.vault]
          cases inner with
          | ok =>
              rw [ended, if_neg (show ¬ endOfCreation (.ok _) = .off by simp [endOfCreation])]
              exact .inr rfl
          | raised => simp [vaultAfter, startLocked]
          | off => simp [vaultAfter, startLocked]

/-- A boot with a card that has metadata. -/
theorem perform_boot_present (platform : Platform) (sees : env.SeesMeta) {data : Bytes}
    (present : device.sd.get .metaFile = some data) (locked : device.vault = none) :
    Still device (perform platform device ⟨.boot, env⟩) ∨
    ∃ salt passphrase manifest, Opened platform env device
      (perform platform device ⟨.boot, env⟩) salt passphrase manifest := by
  have noRestore : device.NoRestore := by
    intro missing
    rw [present] at missing
    cases missing
  rcases perform_boot platform sees noRestore locked with still | opened | ⟨missing, _⟩
  · exact .inl still
  · exact .inr opened
  · rw [present] at missing
    cases missing

/-- **A property of the device after a step**, from what each action does to a locked
and to an unlocked device. -/
theorem perform_cases (property : Device → Prop) (step : Step) (idle : property device.ready)
    (boot : step.action = .boot → device.vault = none →
      property (perform platform device ⟨.boot, step.env⟩))
    (add : ∀ vault text, step.action = .add text → device.vault = some vault →
      property (perform platform device ⟨.add text, step.env⟩))
    (delete : ∀ vault secretId, step.action = .delete secretId → device.vault = some vault →
      property (perform platform device ⟨.delete secretId, step.env⟩))
    (lock : property { device.ready with vault := none }) :
    property (perform platform device step) := by
  obtain ⟨action, env⟩ := step
  cases state : device.vault with
  | none =>
      cases action with
      | boot => exact boot rfl state
      | add text =>
          rw [perform_add_locked platform env text state]
          exact idle
      | delete secretId =>
          rw [perform_delete_locked platform env secretId state]
          exact idle
      | lock => exact lock
  | some vault =>
      cases action with
      | boot =>
          rw [perform_boot_unlocked platform env state]
          exact idle
      | add text => exact add vault text rfl state
      | delete secretId => exact delete vault secretId rfl state
      | lock => exact lock

end Perform

end VaultSeed.Vault
