import VaultSeed.Vault.Updates

/-! # Opening the vault of a card

What `_unlock_existing_vault` reads from a card is a function of the card
(`saltOn`, `manifestOn`, `secretOn`); `Opened` says what it leaves in RAM. A manifest
that cannot be read counts as an empty one (`Reads`).
-/

namespace VaultSeed.Vault

open Python Effect Proc

section Views

variable (platform : Platform) (cipher : Kef.Cipher) (medium : Medium)

/-- The salt in the metadata of a medium, when they can be read. -/
def saltOn : Option Bytes := do
  let data ← medium.get .metaFile
  let text ← decode data
  let metadata ← platform.metas.loads text
  unhexlify metadata.salt

/-- What `load_manifest` returns when nothing fails. -/
def manifestOn : Option Manifest :=
  match medium.get .manifestFile with
  | none => some .empty
  | some data => decodeManifest platform platform.manifests cipher data

/-- What `load_secret` returns when nothing fails. -/
def secretOn (secretId : Text) : Option Bytes :=
  match medium.get (secretPath secretId) with
  | none => none
  | some data =>
      match openEnvelope platform cipher data with
      | .ok plaintext => plaintext
      | .error _ => none

/-- The manifest on the card lists a secret. -/
def Listed (device : Device) (secretId : Text) : Prop :=
  ∃ manifest, manifestOn platform cipher device.sd = some manifest ∧
    ∃ entry ∈ manifest.secrets, entry.id = secretId

/-- The bytes of `vault.meta` for a salt. -/
def metaData (salt : Bytes) : Bytes :=
  encode (platform.metas.dumps ⟨hexlify salt, formatVersion⟩)

end Views

section Views

variable {platform : Platform} {cipher : Kef.Cipher} {medium : Medium}

/-- The salt is read from the metadata that were written with it. -/
theorem saltOn_of_meta (lawful : platform.Lawful) {salt : Bytes}
    (stored : medium.get .metaFile = some (metaData platform salt)) :
    saltOn platform medium = some salt := by
  simp [saltOn, stored, metaData, lawful.metas _]

/-- Without a file the manifest is empty. -/
theorem manifestOn_of_none (absent : medium.get .manifestFile = none) :
    manifestOn platform cipher medium = some .empty := by
  rw [manifestOn, absent]

/-- The manifest is what its file is decoded to. -/
theorem manifestOn_of_some {data : Bytes} (stored : medium.get .manifestFile = some data) :
    manifestOn platform cipher medium = decodeManifest platform platform.manifests cipher data := by
  rw [manifestOn, stored]

/-- The manifest is read from the envelope that was sealed of it. -/
theorem manifestOn_of_seals (lawful : platform.Lawful) {id envelope : Bytes} {manifest : Manifest}
    (stored : medium.get .manifestFile = some envelope)
    (seals : Seals platform cipher id (encode (platform.manifests.dumps manifest)) envelope) :
    manifestOn platform cipher medium = some manifest :=
  (manifestOn_of_some stored).trans (seals.decodeManifest lawful)

/-- A secret is read from the envelope that was sealed of it. -/
theorem secretOn_of_seals (lawful : platform.Lawful) {secretId : Text}
    {id plaintext envelope : Bytes} (stored : medium.get (secretPath secretId) = some envelope)
    (seals : Seals platform cipher id plaintext envelope) :
    secretOn platform cipher medium secretId = some plaintext := by
  simp [secretOn, stored, seals.opens lawful.inverts]

end Views

/-- Two devices with the same media and the same vault in RAM. -/
structure Still (before after : Device) : Prop where
  media : after.toMedia = before.toMedia
  vault : after.vault = before.vault

/-- Doing nothing, a device stands still. -/
theorem Still.refl (device : Device) : Still device device := ⟨rfl, rfl⟩

/-- Standing still is transitive. -/
theorem Still.trans {first second third : Device} (begins : Still first second)
    (continues : Still second third) : Still first third :=
  ⟨continues.media.trans begins.media, continues.vault.trans begins.vault⟩

/-- The operations that look for metadata never raise, so that metadata are found
where they are. -/
def Env.SeesMeta (env : Env) : Prop := ∀ disk count, env.fault (.stat disk .metaFile) count ≠ .raise

variable {platform : Platform} {env : Env}

/-- A vault exists where the metadata are. -/
theorem vaultExists_apply (disk : Disk) (device : Device)
    (spared : env.fate device (.stat disk .metaFile) = .none) :
    vaultExists env disk device =
      (.ok ((device.disk disk).get .metaFile).isSome, device.push (.stat disk .metaFile)) := by
  have ran : stat env disk .metaFile device = (if ((device.disk disk).get .metaFile).isSome then
      (.ok (), device.push (.stat disk .metaFile)) else
      (.raised .osError, device.push (.stat disk .metaFile))) := fileOp_none spared
  unfold vaultExists
  cases stored : (device.disk disk).get .metaFile with
  | none =>
      simp only [stored] at ran
      exact tryExcept_raised (bind_raised ran)
  | some data =>
      simp only [stored] at ran
      refine tryExcept_ok ?_
      rw [bind_ok ran]
      rfl

/-- Looking for metadata finds them, unless the power is cut. -/
theorem vaultExists_bind {α : Type} (sees : env.SeesMeta) (disk : Disk) (device : Device)
    {next : Bool → Run α} {post : Outcome Exn α → Device → Prop}
    (lost : post .off (device.push (.stat disk .metaFile)))
    (found : Holds (next ((device.disk disk).get .metaFile).isSome)
      (device.push (.stat disk .metaFile)) post) :
    Holds (vaultExists env disk >>= next) device post := by
  cases fate : env.fate device (.stat disk .metaFile) with
  | none => exact Holds.bind_ok (vaultExists_apply disk device fate) found
  | raise => exact absurd fate (sees disk _)
  | cut left =>
      have ran : vaultExists env disk device = (.off, device.push (.stat disk .metaFile)) :=
        tryExcept_off (bind_off (fileOp_cut fate))
      unfold Holds
      rw [bind_off ran]
      exact lost

/-- Looking for the card leaves the files and the entries, and does not raise. -/
theorem checkSdCard_holds (device : Device) :
    Holds (checkSdCard env) device fun outcome after =>
      Still device after ∧ (∀ title, after.entries title = device.entries title) ∧
        ∀ exn, outcome ≠ .raised exn := by
  have mounting : Holds (do mount env .checkSdCard; pure true) device fun _ after =>
      Still device after ∧ ∀ title, after.entries title = device.entries title := by
    refine Holds.bind (mount_holds env .checkSdCard device) ?_ ?_ ?_
    · rintro _ _ ⟨rfl, _⟩
      exact ⟨⟨rfl, rfl⟩, fun _ => rfl⟩
    · rintro _ _ ⟨rfl, _⟩
      exact ⟨⟨rfl, rfl⟩, fun _ => rfl⟩
    · rintro _ ⟨rfl, _⟩
      exact ⟨⟨rfl, rfl⟩, fun _ => rfl⟩
  refine Holds.tryExcept mounting ?_ ?_ ?_
  · exact fun _ after ⟨still, entries⟩ => ⟨still, entries, nofun⟩
  · intro exn middle ⟨still, entries⟩
    exact ⟨⟨still.media, still.vault⟩, entries, nofun⟩
  · exact fun after ⟨still, entries⟩ => ⟨still, entries, nofun⟩

/-- `load_meta` and the salt in it, as `_unlock_existing_vault` reads them. -/
theorem loadSalt_holds (device : Device) :
    Holds (do
      let metadata ← loadMeta platform env
      some <$> saltBytes metadata) device fun outcome after =>
      Still device after ∧ ∀ value, outcome = .ok value →
        ∃ salt, value = some salt ∧ saltOn platform device.sd = some salt := by
  have text : Holds (readText env .sd .metaFile) (device.push (.mount .loadMeta))
      fun outcome after => Still device after ∧ ∀ value, outcome = .ok value →
        ∃ data, device.sd.get .metaFile = some data ∧ decode data = some value := by
    refine Holds.bind (read_holds env .sd .metaFile _) ?_ ?_ ?_
    · rintro data _ ⟨rfl, ⟨_, stops, _⟩ | ⟨_, result⟩⟩
      · cases stops
      cases stored : device.sd.get .metaFile with
      | none => simp [Media.disk, stored] at result
      | some content =>
          simp only [Media.disk, push_toMedia, stored, Outcome.ok.injEq] at result
          subst result
          cases decoded : decode data with
          | none => exact ⟨⟨rfl, rfl⟩, nofun⟩
          | some text => exact ⟨⟨rfl, rfl⟩,
              fun value same => ⟨data, rfl, by cases same; exact decoded⟩⟩
    · rintro exn _ ⟨rfl, _⟩
      exact ⟨⟨rfl, rfl⟩, nofun⟩
    · rintro _ ⟨rfl, _⟩
      exact ⟨⟨rfl, rfl⟩, nofun⟩
  have metadata : Holds (loadMeta platform env) device fun outcome after =>
      Still device after ∧ ∀ value, outcome = .ok value →
        ∃ data text, device.sd.get .metaFile = some data ∧ decode data = some text ∧
          platform.metas.loads text = some value := by
    refine Holds.bind (mount_holds env .loadMeta device) ?_ ?_ ?_
    · rintro _ _ ⟨rfl, _⟩
      refine Holds.bind text ?_ ?_ ?_
      · rintro value after ⟨still, known⟩
        obtain ⟨data, stored, decoded⟩ := known value rfl
        cases loaded : platform.metas.loads value with
        | none => exact ⟨still, nofun⟩
        | some metadata => exact ⟨still, fun value' same => ⟨data, value, stored, decoded, by
            cases same; exact loaded⟩⟩
      · exact fun _ _ ⟨still, _⟩ => ⟨still, nofun⟩
      · exact fun _ ⟨still, _⟩ => ⟨still, nofun⟩
    · rintro _ _ ⟨rfl, _⟩
      exact ⟨⟨rfl, rfl⟩, nofun⟩
    · rintro _ ⟨rfl, _⟩
      exact ⟨⟨rfl, rfl⟩, nofun⟩
  refine Holds.bind metadata ?_ ?_ ?_
  · rintro value after ⟨still, known⟩
    obtain ⟨data, text, stored, decoded, loaded⟩ := known value rfl
    unfold saltBytes
    cases salted : unhexlify value.salt with
    | none => exact ⟨still, nofun⟩
    | some salt =>
        refine ⟨still, fun result same => ⟨salt, ?_, ?_⟩⟩
        · cases same
          rfl
        · simp [saltOn, stored, decoded, loaded, salted]
  · exact fun _ _ ⟨still, _⟩ => ⟨still, nofun⟩
  · exact fun _ ⟨still, _⟩ => ⟨still, nofun⟩

/-- The power is never cut. -/
def Env.Uncut (env : Env) : Prop := ∀ op count left, env.fault op count ≠ .cut left

/-- Some occurrence of the operation raises. -/
def Env.Raising (env : Env) (op : FileOp) : Prop := ∃ count, env.fault op count = .raise

private theorem Stops.raising {α : Type} {device : Device} {op : FileOp} {fault : Fault} {exn : Exn}
    (stops : Stops fault (.raised exn : Outcome Exn α)) (cause : env.fate device op = fault) :
    env.Raising op := by
  cases stops
  exact ⟨_, cause⟩

private theorem Stops.not_uncut {α : Type} {device : Device} {op : FileOp} {fault : Fault}
    (stops : Stops fault (.off : Outcome Exn α)) (cause : env.fate device op = fault) :
    ¬ env.Uncut := by
  intro uncut
  cases stops
  exact uncut _ _ _ cause

/-- Reading the manifest raises at some point. -/
def Env.MissesManifest (env : Env) : Prop :=
  env.Raising (.mount .loadManifest) ∨ env.Raising (.read .sd .manifestFile)

/-- The file of the manifest, as `load_manifest` reads it. -/
theorem readManifest_holds (device : Device) :
    Holds (do
      mount env .loadManifest
      let data ← read env .sd .manifestFile
      pure (some data)) device fun outcome after =>
      (Still device after ∧ after.history = device.history) ∧
      (∀ value, outcome = .ok value → value = device.sd.get .manifestFile) ∧
      (∀ exn, outcome = .raised exn →
        device.sd.get .manifestFile = none ∨ env.MissesManifest) ∧
      (outcome = .off → ¬ env.Uncut) := by
  refine Holds.bind (mount_holds env .loadManifest device) ?_ ?_ ?_
  · rintro _ _ ⟨rfl, _⟩
    refine Holds.bind (read_holds env .sd .manifestFile _) ?_ ?_ ?_
    · rintro data _ ⟨rfl, ⟨_, stops, _⟩ | ⟨_, result⟩⟩
      · cases stops
      refine ⟨⟨⟨rfl, rfl⟩, rfl⟩, fun value same => ?_, nofun, nofun⟩
      cases same
      cases stored : device.sd.get .manifestFile with
      | none => simp [Media.disk, stored] at result
      | some content =>
          simp only [Media.disk, push_toMedia, stored, Outcome.ok.injEq] at result
          rw [result]
    · rintro exn _ ⟨rfl, ⟨fault, stops, cause⟩ | ⟨_, result⟩⟩
      · exact ⟨⟨⟨rfl, rfl⟩, rfl⟩, nofun, fun _ _ => .inr (.inr (stops.raising cause)), nofun⟩
      · refine ⟨⟨⟨rfl, rfl⟩, rfl⟩, nofun, fun _ _ => .inl ?_, nofun⟩
        cases stored : device.sd.get .manifestFile with
        | none => rfl
        | some content => simp [Media.disk, stored] at result
    · rintro _ ⟨rfl, ⟨fault, stops, cause⟩ | ⟨_, result⟩⟩
      · exact ⟨⟨⟨rfl, rfl⟩, rfl⟩, nofun, nofun, fun _ => stops.not_uncut cause⟩
      · cases stored : device.sd.get .manifestFile <;> simp [Media.disk, stored] at result
  · rintro exn _ ⟨rfl, ⟨fault, stops, cause⟩ | ⟨same, _⟩⟩
    · exact ⟨⟨⟨rfl, rfl⟩, rfl⟩, nofun, fun _ _ => .inr (.inl (stops.raising cause)), nofun⟩
    · cases same
  · rintro _ ⟨rfl, ⟨fault, stops, cause⟩ | ⟨same, _⟩⟩
    · exact ⟨⟨⟨rfl, rfl⟩, rfl⟩, nofun, nofun, fun _ => stops.not_uncut cause⟩
    · cases same

/-- The manifest a boot works with: the one on the card, or an empty one when the
card could not be read. -/
def Reads (env : Env) (result stored : Option Manifest) : Prop :=
  result = stored ∨ (result = some .empty ∧ env.MissesManifest)

/-- What `load_manifest` does. -/
theorem loadManifest_holds (cipher : Kef.Cipher) (device : Device) :
    Holds (loadManifest platform env platform.manifests .empty cipher) device fun outcome after =>
      (Still device after ∧ after.history = device.history) ∧ (∀ exn, outcome ≠ .raised exn) ∧
      (∀ result, outcome = .ok result → Reads env result (manifestOn platform cipher device.sd)) ∧
      (outcome = .off → ¬ env.Uncut) := by
  have reading : Holds (tryExcept (do
      mount env .loadManifest
      let data ← read env .sd .manifestFile
      pure (some data)) fun _ => (pure none : Run (Option Bytes))) device fun outcome after =>
      (Still device after ∧ after.history = device.history) ∧ (∀ exn, outcome ≠ .raised exn) ∧
      (∀ value, outcome = .ok value →
        value = device.sd.get .manifestFile ∨ (value = none ∧ env.MissesManifest)) ∧
      (outcome = .off → ¬ env.Uncut) := by
    refine Holds.tryExcept (readManifest_holds device) ?_ ?_ ?_
    · rintro value after ⟨still, known, _⟩
      exact ⟨still, nofun, fun other same => .inl (by cases same; exact known value rfl), nofun⟩
    · rintro exn after ⟨still, _, failed, _⟩
      refine ⟨still, nofun, fun other same => ?_, nofun⟩
      cases same
      rcases failed exn rfl with absent | missed
      · exact .inl absent.symm
      · exact .inr ⟨rfl, missed⟩
    · rintro after ⟨still, _, _, missed⟩
      exact ⟨still, nofun, nofun, missed⟩
  refine Holds.bind reading ?_ ?_ ?_
  · rintro data after ⟨still, _, known, _⟩
    rcases known data rfl with stored | ⟨rfl, missed⟩
    · cases data with
      | none => exact ⟨still, nofun, fun result same => .inl (by
          cases same; rw [manifestOn, ← stored]), nofun⟩
      | some data => exact ⟨still, nofun, fun result same => .inl (by
          cases same; rw [manifestOn, ← stored]), nofun⟩
    · exact ⟨still, nofun, fun result same => .inr ⟨by cases same; rfl, missed⟩, nofun⟩
  · exact fun exn _ ⟨_, never, _⟩ => absurd rfl (never exn)
  · exact fun _ ⟨still, _, _, missed⟩ => ⟨still, nofun, nofun, fun _ => missed rfl⟩

/-- `load_manifest` returns what is on the card, unless reading fails. -/
theorem loadManifest_fst (cipher : Kef.Cipher) (device : Device) (reliable : ¬ env.MissesManifest)
    (uncut : env.Uncut) :
    (loadManifest platform env platform.manifests .empty cipher device).1 =
      .ok (manifestOn platform cipher device.sd) := by
  have valid : Holds (loadManifest platform env platform.manifests .empty cipher) device _ :=
    loadManifest_holds cipher device
  obtain ⟨_, never, reads, lost⟩ := valid
  cases ended : (loadManifest platform env platform.manifests .empty cipher device).1 with
  | ok result =>
      rcases reads result ended with same | ⟨_, missed⟩
      · rw [same]
      · exact absurd missed reliable
  | raised exn => exact absurd ended (never exn)
  | off => exact absurd uncut (lost ended)

/-- Reading a secret fails at some point. -/
def Env.MissesSecret (env : Env) (secretId : Text) : Prop :=
  env.Faulty (.mount .loadSecret) ∨ env.Faulty (.read .sd (secretPath secretId))

/-- `load_secret` returns what is on the card, unless reading fails. -/
theorem loadSecret_fst (cipher : Kef.Cipher) (secretId : Text) (device : Device)
    (reliable : ¬ env.MissesSecret secretId) :
    (loadSecret platform env cipher secretId device).1 =
      .ok (secretOn platform cipher device.sd secretId) := by
  have mounted : mount env .loadSecret device = (.ok (), device.push (.mount .loadSecret)) :=
    fileOp_none (fate_of_not_faulty (fun fault => reliable (.inl fault)) device)
  have reading : ∀ later : Device, later.sd = device.sd →
      read env .sd (secretPath secretId) later =
        ((device.sd.get (secretPath secretId)).elim (.raised .osError) .ok,
          later.push (.read .sd (secretPath secretId))) := by
    intro later same
    rw [← same]
    refine (fileOp_none (fate_of_not_faulty (fun fault => reliable (.inr fault)) later)).trans ?_
    cases stored : later.sd.get (secretPath secretId) <;> simp [Media.disk, stored]
  have read := reading (device.push (.mount .loadSecret)) rfl
  unfold loadSecret secretOn
  cases stored : device.sd.get (secretPath secretId) with
  | none =>
      rw [stored] at read
      rw [tryExcept_raised ((bind_ok mounted).trans (bind_raised read))]
      rfl
  | some data =>
      rw [stored] at read
      have body : (do
          mount env .loadSecret
          let data ← Vault.read env .sd (secretPath secretId)
          ofExcept (openEnvelope platform cipher data) : Run (Option Bytes)) device =
          ofExcept (openEnvelope platform cipher data) _ :=
        (bind_ok mounted).trans (bind_ok read)
      cases opened : openEnvelope platform cipher data with
      | error exn =>
          rw [opened] at body
          rw [tryExcept_raised body]
          simp [opened]
      | ok plaintext =>
          rw [opened] at body
          rw [tryExcept_ok body]
          simp [opened]

/-- What the user enters next at a keypad; escape and the empty entry cancel. -/
def Env.entry (env : Env) (title : Title) (device : Device) : Option Text :=
  (env.keypad title (device.entries title)).filter (· ≠ [])

/-- What is typed is recorded. -/
theorem captureEntry_apply (title : Title) (device : Device) :
    captureEntry env title device = (.ok (env.entry title device),
      device.record (.typed title (env.keypad title (device.entries title)))) := rfl

/-- An entry that is taken is what the keypad gave, and not empty. -/
theorem entry_eq_some {title : Title} {device : Device} {passphrase : Text}
    (entered : env.entry title device = some passphrase) :
    env.keypad title (device.entries title) = some passphrase ∧ passphrase ≠ [] := by
  obtain ⟨typed, nonempty⟩ := Option.filter_eq_some_iff.mp entered
  exact ⟨typed, by simpa using nonempty⟩

/-- The device after an entry at the passphrase keypad that is not empty. -/
def Device.typedPassphrase (device : Device) (passphrase : Text) : Device :=
  (device.record (.typed .passphrase (some passphrase))).record (.shown .strength)

/-- A cancelled entry is recorded. -/
theorem getPassphrase_none {device : Device} (cancelled : env.entry .passphrase device = none) :
    getPassphrase env device = (.ok none,
      device.record (.typed .passphrase
        (env.keypad .passphrase (device.entries .passphrase)))) := by
  unfold getPassphrase
  rw [bind_ok (captureEntry_apply _ _), cancelled]
  rfl

/-- A typed passphrase is recorded. -/
theorem getPassphrase_some {device : Device} {passphrase : Text}
    (entered : env.entry .passphrase device = some passphrase) :
    getPassphrase env device = (.ok (some passphrase), device.typedPassphrase passphrase) := by
  unfold getPassphrase
  rw [bind_ok (captureEntry_apply _ _), entered, (entry_eq_some entered).1]
  rfl

/-- The vault in RAM once it is opened with a passphrase. -/
def openVault (platform : Platform) (salt : Bytes) (passphrase : Text) (manifest : Manifest) :
    VaultState :=
  ⟨deriveKey platform passphrase salt, manifest, kefVersion, kefIterations⟩

/-- The vault of the card opened with a passphrase. -/
structure Opened (platform : Platform) (env : Env) (before after : Device) (salt : Bytes)
    (passphrase : Text) (manifest : Manifest) : Prop where
  salted : saltOn platform before.sd = some salt
  typed : ∃ count, env.keypad .passphrase count = some passphrase
  nonempty : passphrase ≠ []
  reads : Reads env (some manifest) (manifestOn platform (deriveKey platform passphrase salt)
    before.sd)
  media : after.toMedia = before.toMedia
  vault : after.vault = some (openVault platform salt passphrase manifest)
  history : ∃ rest, after.history = .shown .strength :: .typed .passphrase (some passphrase) :: rest

/-- The ends of an attempt to open the vault of the card. -/
def Unlocked (platform : Platform) (env : Env) (before : Device) (opened : Prop) (after : Device) :
    Prop :=
  Still before after ∨ (opened ∧ ∃ salt passphrase manifest,
    Opened platform env before after salt passphrase manifest)

private theorem unlockTurn_holds {device : Device} {salt : Bytes}
    (salted : saltOn platform device.sd = some salt) :
    Holds (unlockTurn platform env salt) device fun outcome after =>
      (∀ exn, outcome ≠ .raised exn) ∧
      Unlocked platform env device (outcome = .ok (some true)) after := by
  cases entered : env.entry .passphrase device with
  | none => exact Holds.bind_ok (getPassphrase_none entered) ⟨nofun, .inl ⟨rfl, rfl⟩⟩
  | some passphrase =>
      refine Holds.bind_ok (getPassphrase_some entered) ?_
      refine Holds.bind (loadManifest_holds _ _) ?_ ?_ ?_
      · rintro result after ⟨⟨still, history⟩, _, reads, _⟩
        cases result with
        | none => exact ⟨nofun, .inl ⟨still.media, still.vault⟩⟩
        | some manifest =>
            refine ⟨nofun, .inr ⟨rfl, salt, passphrase, manifest, ?_⟩⟩
            exact ⟨salted, ⟨_, (entry_eq_some entered).1⟩, (entry_eq_some entered).2,
              reads _ rfl, still.media, rfl, _, history⟩
      · exact fun exn _ ⟨_, never, _⟩ => absurd rfl (never exn)
      · exact fun after ⟨⟨still, _⟩, _⟩ => ⟨nofun, .inl ⟨still.media, still.vault⟩⟩

/-- A vault may be opened after the device stood still. -/
theorem Opened.of_still {before middle after : Device} {salt : Bytes} {passphrase : Text}
    {manifest : Manifest} (still : Still before middle)
    (opened : Opened platform env middle after salt passphrase manifest) :
    Opened platform env before after salt passphrase manifest := by
  have same : middle.sd = before.sd := congrArg Media.sd still.media
  exact ⟨same ▸ opened.salted, opened.typed, opened.nonempty, same ▸ opened.reads,
    opened.media.trans still.media, opened.vault, opened.history⟩

/-- A vault may be unlocked after the device stood still. -/
theorem Unlocked.of_still {before middle after : Device} {opened : Prop}
    (still : Still before middle) (unlocked : Unlocked platform env middle opened after) :
    Unlocked platform env before opened after := by
  rcases unlocked with same | ⟨done, salt, passphrase, manifest, opening⟩
  · exact .inl (still.trans same)
  · exact .inr ⟨done, salt, passphrase, manifest, opening.of_still still⟩

/-- What `_unlock_existing_vault` does. -/
theorem unlockExistingVault_holds (device : Device) :
    Holds (unlockExistingVault platform env) device fun outcome after =>
      (∀ exn, outcome ≠ .raised exn) ∧
      Unlocked platform env device (outcome = .ok true) after := by
  have loading : Holds (tryExcept (do
      let metadata ← loadMeta platform env
      some <$> saltBytes metadata) fun exn => (do
        flashMessage (.invalidMetadata exn)
        pure none : Run (Option Bytes))) device fun outcome after =>
      (Still device after ∧ ∀ exn, outcome ≠ .raised exn) ∧
      ∀ salt, outcome = .ok (some salt) → saltOn platform device.sd = some salt := by
    refine Holds.tryExcept (loadSalt_holds device) ?_ ?_ ?_
    · rintro value after ⟨still, known⟩
      refine ⟨⟨still, nofun⟩, fun salt same => ?_⟩
      cases same
      obtain ⟨_, same, salted⟩ := known _ rfl
      cases same
      exact salted
    · rintro exn after ⟨still, _⟩
      exact ⟨⟨⟨still.media, still.vault⟩, nofun⟩, nofun⟩
    · rintro after ⟨still, _⟩
      exact ⟨⟨still, nofun⟩, nofun⟩
  refine Holds.bind loading ?_ ?_ ?_
  · rintro value middle ⟨⟨still, _⟩, known⟩
    cases value with
    | none => exact ⟨nofun, .inl still⟩
    | some salt =>
        have salted := known salt rfl
        -- Every turn starts from the media and the vault of the first one.
        refine Holds.loop (fun before => Still device before) ?_ ?_ 5 still
        · intro before same
          refine (unlockTurn_holds ?_).mono ?_
          · rw [show before.sd = device.sd from congrArg Media.sd same.media]
            exact salted
          · rintro outcome after ⟨never, unlocked⟩
            have whole := unlocked.of_still same
            rcases outcome with (_ | value) | exn | _
            · exact whole.elim id fun ⟨impossible, _⟩ => by cases impossible
            · exact ⟨nofun, whole.imp_right fun ⟨done, opening⟩ => ⟨by cases done; rfl, opening⟩⟩
            · exact absurd rfl (never exn)
            · exact ⟨nofun, whole.imp_right fun ⟨done, _⟩ => by cases done⟩
        · exact fun before same => ⟨nofun, .inl ⟨same.media, same.vault⟩⟩
  · exact fun exn _ ⟨⟨_, never⟩, _⟩ => absurd rfl (never exn)
  · exact fun after ⟨⟨still, _⟩, _⟩ => ⟨nofun, .inl still⟩

end VaultSeed.Vault
