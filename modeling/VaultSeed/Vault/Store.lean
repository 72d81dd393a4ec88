import VaultSeed.Foundation.Runs
import VaultSeed.Vault.Boot
import VaultSeed.Vault.Identifiers
import VaultSeed.Vault.Sample

/-! # The vault is a store of secrets

A vault is for keeping a ledger: the entries the user stored and did not delete, each
with its plaintext. The ledger is told from what the user did and saw
(`noteUpdate`). In every run in which no file operation fails and the vault is opened
with one passphrase, the manifest, the files of the card and the vault in RAM hold
exactly the ledger (`Holds`).
-/

namespace VaultSeed.Vault

open Python Effect

/-- The entries of the vault with their plaintexts, in the order of their adding. -/
abbrev Ledger := List (Entry × Bytes)

/-- The manifest of a ledger. -/
def Ledger.manifest (ledger : Ledger) : Manifest := ⟨ledger.map Prod.fst⟩

/-- What an action reports to have done to the ledger: a stored secret is the last
entry of the manifest, a deleted one is gone. -/
def noteUpdate (ledger : Ledger) (_before : Device) (step : Step) (after : Device) : Ledger :=
  match step.action with
  | .add text =>
      if .shown .secretStored ∈ after.history then
        match after.vault.bind fun vault => vault.manifest.secrets.getLast? with
        | some entry => ledger ++ [(entry, encode text)]
        | none => ledger
      else ledger
  | .delete secretId =>
      if .shown .secretDeleted ∈ after.history then
        ledger.filter fun record => record.1.id ≠ secretId
      else ledger
  | _ => ledger

section Notes

variable {ledger : Ledger} {before after : Device} {env : Env} {text secretId : Text}

private theorem noteUpdate_add_silent (silent : .shown .secretStored ∉ after.history) :
    noteUpdate ledger before ⟨.add text, env⟩ after = ledger := if_neg silent

private theorem noteUpdate_add {vault : VaultState} {manifest : Manifest} {entry : Entry}
    (shown : .shown .secretStored ∈ after.history) (unlocked : after.vault = some vault)
    (added : vault.manifest = addToManifest manifest entry) :
    noteUpdate ledger before ⟨.add text, env⟩ after = ledger ++ [(entry, encode text)] := by
  refine (if_pos shown).trans ?_
  simp [unlocked, added, addToManifest]

private theorem noteUpdate_delete_silent (silent : .shown .secretDeleted ∉ after.history) :
    noteUpdate ledger before ⟨.delete secretId, env⟩ after = ledger := if_neg silent

private theorem noteUpdate_delete (shown : .shown .secretDeleted ∈ after.history) :
    noteUpdate ledger before ⟨.delete secretId, env⟩ after =
      ledger.filter fun record => record.1.id ≠ secretId := if_pos shown

end Notes

/-- Whoever enters a passphrase enters this one. -/
def Env.Types (env : Env) (passphrase : Text) : Prop := ∀ count entry,
  env.keypad .passphrase count = some entry → entry = [] ∨ entry = passphrase

section Invariant

variable (platform : Platform) (passphrase : Text)

/-- A card that holds the ledger under the key of the passphrase, and a device that
knows it when it is unlocked. -/
structure Keeps (device : Device) (ledger : Ledger) (salt : Bytes) : Prop where
  salted : device.sd.get .metaFile = some (metaData platform salt)
  ready : device.sd.Ready
  manifest : (device.sd.get .manifestFile = none ∧ ledger = []) ∨
    ∃ envelope, device.sd.get .manifestFile = some envelope ∧
      Seals platform (deriveKey platform passphrase salt) manifestId
        (encode (platform.manifests.dumps ledger.manifest)) envelope
  files : ∀ name, (device.sd.get (.secretFile name)).isSome ↔
    ∃ record ∈ ledger, .secretFile name = secretPath record.1.id
  secrets : ∀ record ∈ ledger, ∃ envelope, device.sd.get (secretPath record.1.id) = some envelope ∧
    Seals platform (deriveKey platform passphrase salt) (encode record.1.id) record.2 envelope
  numbered : ledger.manifest.Numbered
  distinct : (ledger.map fun record => record.1.id).Nodup
  vault : ∀ vault, device.vault = some vault →
    vault.cipher = deriveKey platform passphrase salt ∧ vault.manifest = ledger.manifest

/-- **The invariant of the store**: no vault yet, or one that keeps the ledger. -/
inductive StoreInvariant (device : Device) (ledger : Ledger) : Prop where
  | blank (absent : ∀ disk path, (device.disk disk).get path = none) (locked : device.vault = none)
      (empty : ledger = [])
  | kept (salt : Bytes) (keeps : Keeps platform passphrase device ledger salt)

end Invariant

variable {platform : Platform} {passphrase : Text}

/-- The invariant depends on the card and the vault in RAM only. -/
theorem Keeps.congr {before after : Device} {ledger : Ledger} {salt : Bytes}
    (keeps : Keeps platform passphrase before ledger salt) (sd : after.sd = before.sd)
    (vault : ∀ state, after.vault = some state → before.vault = some state) :
    Keeps platform passphrase after ledger salt :=
  ⟨sd ▸ keeps.salted, sd ▸ keeps.ready, sd ▸ keeps.manifest, sd ▸ keeps.files, sd ▸ keeps.secrets,
    keeps.numbered, keeps.distinct, fun state unlocked => keeps.vault state (vault state unlocked)⟩

private theorem manifest_append (ledger : Ledger) (entry : Entry) (plaintext : Bytes) :
    Ledger.manifest (ledger ++ [(entry, plaintext)]) = addToManifest ledger.manifest entry := by
  simp [Ledger.manifest, addToManifest]

private theorem manifest_filter (ledger : Ledger) (secretId : Text) :
    Ledger.manifest (ledger.filter fun record => record.1.id ≠ secretId) =
      removeFromManifest ledger.manifest secretId := by
  simp only [Ledger.manifest, removeFromManifest, List.filter_map]
  rfl

section Updates

variable {device after : Device} {ledger : Ledger} {salt : Bytes}

/-- A new secret and the manifest that lists it extend the ledger. -/
theorem Keeps.add (keeps : Keeps platform passphrase device ledger salt) {entry : Entry}
    {plaintext secret manifest : Bytes}
    (sd : after.sd = (device.sd.put (secretPath entry.id) secret).put .manifestFile manifest)
    (new : ∀ other ∈ ledger.manifest.secrets, other.id ≠ entry.id) (numeral : entry.Numbered)
    (sealsSecret : Seals platform (deriveKey platform passphrase salt) (encode entry.id) plaintext
      secret)
    (sealsManifest : Seals platform (deriveKey platform passphrase salt) manifestId
      (encode (platform.manifests.dumps (addToManifest ledger.manifest entry))) manifest)
    (vault : ∀ vault, after.vault = some vault →
      vault.cipher = deriveKey platform passphrase salt ∧
        vault.manifest = addToManifest ledger.manifest entry) :
    Keeps platform passphrase after (ledger ++ [(entry, plaintext)]) salt := by
  have other : ∀ record ∈ ledger, secretPath record.1.id ≠ secretPath entry.id := by
    intro record member same
    exact new record.1 (List.mem_map_of_mem member) (secretPath_injective same)
  refine ⟨?_, ?_, .inr ⟨manifest, ?_, ?_⟩, ?_, ?_, ?_, ?_, ?_⟩
  · rw [sd, Medium.get_put_of_ne (by simp), Medium.get_put_of_ne (by simp), keeps.salted]
  · rw [sd]
    exact keeps.ready
  · rw [sd, Medium.get_put_self]
  · rw [manifest_append]
    exact sealsManifest
  · intro name
    rw [sd, Medium.get_put_of_ne (by simp), Medium.get_put]
    constructor
    · intro present
      split at present
      · rename_i same
        exact ⟨_, List.mem_append_right _ List.mem_cons_self, same⟩
      · obtain ⟨record, member, same⟩ := (keeps.files name).mp present
        exact ⟨record, List.mem_append_left _ member, same⟩
    · rintro ⟨record, member, same⟩
      rcases List.mem_append.mp member with before | new
      · split
        · rfl
        · exact (keeps.files name).mpr ⟨record, before, same⟩
      · rw [List.mem_singleton.mp new] at same
        rw [if_pos same]
        rfl
  · intro record member
    rw [sd, Medium.get_put_of_ne (by simp), Medium.get_put]
    rcases List.mem_append.mp member with before | new
    · rw [if_neg (other record before)]
      exact keeps.secrets record before
    · rw [List.mem_singleton.mp new, if_pos rfl]
      exact ⟨secret, rfl, sealsSecret⟩
  · rw [manifest_append]
    exact addToManifest_numbered keeps.numbered numeral
  · rw [List.map_append, List.nodup_append]
    refine ⟨keeps.distinct, List.nodup_singleton _, ?_⟩
    intro id member other single same
    obtain ⟨record, found, rfl⟩ := List.mem_map.mp member
    rw [List.mem_singleton.mp single] at same
    exact new record.1 (List.mem_map_of_mem found) same
  · rw [manifest_append]
    exact vault

/-- A file removed and the manifest without its entry shorten the ledger. -/
theorem Keeps.delete (keeps : Keeps platform passphrase device ledger salt) {secretId : Text}
    {manifest : Bytes}
    (sd : after.sd = (device.sd.erase (secretPath secretId)).put .manifestFile manifest)
    (sealsManifest : Seals platform (deriveKey platform passphrase salt) manifestId
      (encode (platform.manifests.dumps (removeFromManifest ledger.manifest secretId))) manifest)
    (vault : ∀ vault, after.vault = some vault →
      vault.cipher = deriveKey platform passphrase salt ∧
        vault.manifest = removeFromManifest ledger.manifest secretId) :
    Keeps platform passphrase after (ledger.filter fun record => record.1.id ≠ secretId) salt := by
  refine ⟨?_, ?_, .inr ⟨manifest, ?_, ?_⟩, ?_, ?_, ?_, ?_, ?_⟩
  · rw [sd, Medium.get_put_of_ne (by simp), Medium.get_erase_of_ne (by simp), keeps.salted]
  · rw [sd]
    exact keeps.ready
  · rw [sd, Medium.get_put_self]
  · rw [manifest_filter]
    exact sealsManifest
  · intro name
    rw [sd, Medium.get_put_of_ne (by simp), Medium.get_erase]
    constructor
    · intro present
      split at present
      · cases present
      · rename_i different
        obtain ⟨record, member, same⟩ := (keeps.files name).mp present
        refine ⟨record, List.mem_filter.mpr ⟨member, ?_⟩, same⟩
        simp only [ne_eq, decide_not, Bool.not_eq_eq_eq_not, Bool.not_true, decide_eq_false_iff_not]
        rintro rfl
        exact different same
    · rintro ⟨record, member, same⟩
      obtain ⟨before, kept⟩ := List.mem_filter.mp member
      rw [if_neg]
      · exact (keeps.files name).mpr ⟨record, before, same⟩
      · intro erased
        exact (of_decide_eq_true kept) (secretPath_injective (same.symm.trans erased))
  · intro record member
    obtain ⟨before, kept⟩ := List.mem_filter.mp member
    rw [sd, Medium.get_put_of_ne (by simp), Medium.get_erase_of_ne]
    · exact keeps.secrets record before
    · exact fun same => (of_decide_eq_true kept) (secretPath_injective same)
  · rw [manifest_filter]
    exact removeFromManifest_numbered keeps.numbered secretId
  · exact keeps.distinct.sublist (List.filter_sublist.map _)
  · rw [manifest_filter]
    exact vault

end Updates

section Steps

variable {env : Env} {device : Device} {ledger : Ledger} {salt : Bytes}

/-- The key has 32 bytes. -/
theorem length_deriveKey (lawful : platform.Lawful) (passphrase : Text) (salt : Bytes) :
    (deriveKey platform passphrase salt).key.length = 32 :=
  length_key_new lawful.inverts _ _ _

/-- A save of the manifest that no fault hits succeeds. -/
theorem manifestSaved_quiet (quiet : env.Quiet) {cipher : Kef.Cipher}
    (keyLength : cipher.key.length = 32) {plaintext : Bytes} {start after : Device}
    {outcome : Outcome Exn Unit} (ready : start.sd.Ready)
    (saved : Saved env platform cipher manifestId .manifestFile plaintext start outcome after) :
    outcome = .ok () ∧ ∃ envelope, Seals platform cipher manifestId plaintext envelope ∧
      after.sd = start.sd.put .manifestFile envelope := by
  rcases saved.of_clean quiet.clean (ready.hasDir _) with ⟨_, _, ⟨exn, refused⟩ | fault⟩ |
    ⟨done, envelope, seals, sd, _⟩
  · exact absurd refused (sealEnvelope_manifest_ne_error keyLength (length_vector env start) exn)
  · exact absurd fault (quiet.not_faulty _)
  · exact ⟨done, envelope, seals, sd⟩

/-- Adding a secret. -/
theorem Keeps.perform_add (lawful : platform.Lawful) (quiet : env.Quiet)
    (keeps : Keeps platform passphrase device ledger salt) {vault : VaultState}
    (unlocked : device.vault = some vault) (text : Text) :
    Keeps platform passphrase (perform platform device ⟨.add text, env⟩)
      (noteUpdate ledger device ⟨.add text, env⟩ (perform platform device ⟨.add text, env⟩))
      salt := by
  obtain ⟨key, listed⟩ := keeps.vault vault unlocked
  rcases Vault.perform_add platform env text unlocked with
    declined | ⟨start, label, outcome, final, talked, stored, ended⟩
  · rw [noteUpdate_add_silent declined.silent]
    exact keeps.congr (congrArg Media.sd declined.media) fun _ same => declined.vault ▸ same
  have unshown : .shown .secretStored ∉ start.history := fun shown =>
    absurd ((talked.shown _).mp shown) List.not_mem_nil
  have sd : start.sd = device.sd := congrArg Media.sd talked.media
  obtain ⟨number, next, new⟩ := nextSecretId_fresh keeps.numbered
  cases stored with
  | noId refused =>
      rw [listed, next] at refused
      cases refused
  | secretFailed next' secret notDone =>
      -- With every operation spared only a refused identifier is left, before any change.
      rcases secret.of_clean quiet.clean (by rw [sd]; exact keeps.ready.hasDir _) with
        ⟨_, same, _⟩ | ⟨done, _⟩
      · rw [noteUpdate_add_silent]
        · refine keeps.congr ?_ ?_
          · rw [ended.media, same, talked.media]
            rfl
          · intro state unlockedAfter
            rw [ended.vault] at unlockedAfter
            split at unlockedAfter
            · cases unlockedAfter
            · rw [← unlockedAfter, secret.vault, talked.vault]
              rfl
        · rw [ended.shown, secret.history]
          exact unshown
      · exact absurd done notDone
  | @saved secretId outcome middle after manifest next' secret added stored =>
      rw [listed, next] at next'
      cases next'
      obtain ⟨envelope, sealsSecret, middleSd⟩ := secret.sd_eq_put
      obtain ⟨rfl, second, sealsManifest, afterSd⟩ := manifestSaved_quiet quiet
        (key ▸ length_deriveKey lawful passphrase salt)
        (show (middle.withManifest vault manifest).sd.Ready by
          change middle.sd.Ready
          rw [middleSd, sd]
          exact keeps.ready) stored
      rw [key] at sealsSecret sealsManifest
      have vaultAfter : (perform platform device ⟨.add text, env⟩).vault =
          some { vault with manifest := manifest } := by
        rw [ended.vault, if_neg nofun, finish_vault, stored.vault]
        rfl
      have recorded : noteUpdate ledger device ⟨.add text, env⟩
          (perform platform device ⟨.add text, env⟩) = ledger ++ [(newEntry platform env text label
            (detectSecretType platform text) (format03d number) middle, encode text)] :=
        noteUpdate_add (ended.shown.mpr List.mem_cons_self) vaultAfter added
      have sdAfter : (perform platform device ⟨.add text, env⟩).sd =
          (device.sd.put (secretPath (format03d number)) envelope).put .manifestFile second := by
        rw [ended.media, finish_toMedia, afterSd]
        change middle.sd.put _ _ = _
        rw [middleSd, sd]
      rw [recorded]
      refine keeps.add sdAfter new ⟨number, rfl⟩ sealsSecret ?_ ?_
      · rw [← listed, ← added]
        exact sealsManifest
      · intro state same
        rw [vaultAfter] at same
        cases same
        exact ⟨key, by rw [added, listed]⟩

/-- Without faults a deletion erases the file of the secret. -/
theorem Deleted.of_quiet (quiet : env.Quiet) {path : Path} {start : Device} {before after : Media}
    {outcome : Outcome Exn Unit} (deleted : Deleted (env.fate start) path before outcome after) :
    outcome ≠ .off ∧ after.sd = before.sd.erase path := by
  have spared : ∀ disk, env.fate start (.remove disk path) = .none := fun disk => quiet _ _
  cases deleted with
  | cut stopped =>
      cases stopped with
      | cut cause =>
          rw [spared] at cause
          cases cause
  | removed primary mirror =>
      refine ⟨?_, ?_⟩
      · cases mirror with
        | kept => exact nofun
        | cut cause =>
            rw [spared] at cause
            cases cause
        | gone => exact nofun
      · cases primary with
        | kept cause =>
            rw [spared] at cause
            cases cause
        | gone => rfl

/-- Deleting a secret. -/
theorem Keeps.perform_delete (lawful : platform.Lawful) (quiet : env.Quiet)
    (keeps : Keeps platform passphrase device ledger salt) {vault : VaultState}
    (unlocked : device.vault = some vault) (secretId : Text) :
    Keeps platform passphrase (perform platform device ⟨.delete secretId, env⟩)
      (noteUpdate ledger device ⟨.delete secretId, env⟩
        (perform platform device ⟨.delete secretId, env⟩)) salt := by
  obtain ⟨key, listed⟩ := keeps.vault vault unlocked
  rcases Vault.perform_delete platform env secretId unlocked with
    declined | ⟨start, outcome, final, _, talked, erased, ended⟩
  · rw [noteUpdate_delete_silent declined.silent]
    exact keeps.congr (congrArg Media.sd declined.media) fun _ same => declined.vault ▸ same
  have sd : start.sd = device.sd := congrArg Media.sd talked.media
  cases erased with
  | cut alike deleted => exact absurd rfl (deleted.of_quiet quiet).1
  | @saved outcome middle after manifest alike deleted removed stored =>
      have middleSd : middle.sd = device.sd.erase (secretPath secretId) := by
        rw [(deleted.of_quiet quiet).2, sd]
      obtain ⟨rfl, envelope, seals, afterSd⟩ := manifestSaved_quiet quiet
        (key ▸ length_deriveKey lawful passphrase salt)
        (show (middle.withManifest vault manifest).sd.Ready by
          change middle.sd.Ready
          rw [middleSd]
          exact keeps.ready) stored
      have sdAfter : (perform platform device ⟨.delete secretId, env⟩).sd =
          (device.sd.erase (secretPath secretId)).put .manifestFile envelope := by
        rw [ended.media, finish_toMedia, afterSd]
        change middle.sd.put _ _ = _
        rw [middleSd]
      rw [noteUpdate_delete (ended.shown.mpr List.mem_cons_self)]
      refine keeps.delete sdAfter ?_ ?_
      · rw [← listed, ← removed, ← key]
        exact seals
      · intro state same
        rw [ended.vault, if_neg nofun, finish_vault, stored.vault] at same
        cases same
        exact ⟨key, by rw [removed, listed]⟩

private theorem Env.Chooses.typed {env : Env} {passphrase : Text} {turn left : Nat}
    (chooses : env.Chooses passphrase turn left) :
    ∃ count, env.keypad .passphrase count = some passphrase ∧ passphrase ≠ [] := by
  induction left generalizing turn with
  | zero => exact chooses.elim
  | succ left ih =>
      obtain ⟨first, second, typed, _, ⟨_, rfl⟩ | ⟨_, later⟩⟩ := chooses
      · obtain ⟨entered, nonempty⟩ := Option.filter_eq_some_iff.mp typed
        exact ⟨turn, entered, by simpa using nonempty⟩
      · exact ih later

/-- Whoever confirms a passphrase for a new vault confirms the one typed. -/
theorem Env.Types.chooses (types : env.Types passphrase) {other : Text} {turn left : Nat}
    (chooses : env.Chooses other turn left) : other = passphrase := by
  obtain ⟨count, typed, nonempty⟩ := chooses.typed
  exact (types count other typed).resolve_left nonempty

/-- A new card after its metadata are written. -/
theorem Keeps.of_initialized (absent : ∀ disk path, (device.disk disk).get path = none)
    {middle after : Device}
    (initialized : Initialized platform env device salt (.ok ()) middle after)
    (locked : after.vault = none) : Keeps platform passphrase after [] salt := by
  obtain ⟨ready, salted, others⟩ :=
    initialized.on_blank (absent .sd) initialized.mirrored.sd_eq_put
  refine ⟨salted, ready, .inl ⟨others _ (by simp), rfl⟩, ?_, nofun, nofun, List.nodup_nil, ?_⟩
  · intro name
    rw [others _ (by simp)]
    simp
  · intro vault unlocked
    rw [locked] at unlocked
    cases unlocked

/-- The first manifest of a new vault lists nothing. -/
theorem Keeps.of_keyed (keeps : Keeps platform passphrase device [] salt) {envelope : Bytes}
    {after : Device} (sd : after.sd = device.sd.put .manifestFile envelope)
    (seals : Seals platform (deriveKey platform passphrase salt) manifestId
      (encode (platform.manifests.dumps .empty)) envelope)
    (vault : ∀ vault, after.vault = some vault →
      vault.cipher = deriveKey platform passphrase salt ∧ vault.manifest = .empty) :
    Keeps platform passphrase after [] salt := by
  refine ⟨?_, ?_, .inr ⟨envelope, ?_, seals⟩, ?_, nofun, nofun, List.nodup_nil, vault⟩
  · rw [sd, Medium.get_put_of_ne (by simp), keeps.salted]
  · rw [sd]
    exact keeps.ready
  · rw [sd, Medium.get_put_self]
  · intro name
    rw [sd, Medium.get_put_of_ne (by simp)]
    exact keeps.files name

/-- What the card holds is what a boot finds on it. -/
theorem Keeps.manifestOn (lawful : platform.Lawful)
    (keeps : Keeps platform passphrase device ledger salt) :
    manifestOn platform (deriveKey platform passphrase salt) device.sd = some ledger.manifest := by
  rcases keeps.manifest with ⟨absent, rfl⟩ | ⟨envelope, stored, seals⟩
  · exact manifestOn_of_none absent
  · exact manifestOn_of_seals lawful stored seals

/-- A vault that was created on a card without files has no secrets. -/
theorem StoreInvariant.of_created (lawful : platform.Lawful) (quiet : env.Quiet)
    (types : env.Types passphrase) (absent : ∀ disk path, (device.disk disk).get path = none)
    (locked : device.vault = none) {outcome : Outcome Exn Bool} {after result : Device}
    (created : Created platform env device outcome after)
    (media : result.toMedia = after.toMedia)
    (vault : result.vault = if outcome = .off then none else after.vault) :
    StoreInvariant platform passphrase result [] := by
  cases created with
  | unprepared same _ =>
      refine .blank (fun disk path => ?_) ?_ rfl
      · rw [media, same.get, absent]
      · rw [vault, same.vault, locked, ite_self]
  | uninitialized initialized notDone _ =>
      rcases initialized.mirrored.of_clean (fun disk => ⟨quiet _ _, quiet _ _⟩)
        ((initialized.ready .sd).hasDir _) with ⟨_, _, fault⟩ | ⟨done, _⟩
      · exact absurd (quiet _ _) fault
      · exact absurd done notDone
  | abandoned initialized _ _ =>
      have unlocked := initialized.vault.trans locked
      have keeps : Keeps platform passphrase after [] _ :=
        .of_initialized absent initialized unlocked
      refine .kept _ (keeps.congr (congrArg Media.sd media) fun state same => ?_)
      rw [vault, unlocked, ite_self] at same
      cases same
  | keyed initialized _ chooses keyed _ =>
      rw [types.chooses chooses] at keyed
      have unlocked := initialized.vault.trans locked
      have keeps : Keeps platform passphrase _ [] _ :=
        .of_initialized absent initialized unlocked
      obtain ⟨rfl, envelope, seals, sd⟩ := manifestSaved_quiet quiet
        (length_deriveKey lawful _ _) keeps.ready keyed.saved
      refine .kept _ (keeps.of_keyed ?_ seals ?_)
      · rw [media, keyed.media, sd]
      · intro state same
        rw [vault, keyed.vault] at same
        split at same
        · cases same
        · cases same
          exact ⟨rfl, rfl⟩

/-- Booting: the vault is opened, or a new one is made, or nothing happens. -/
theorem StoreInvariant.perform_boot (lawful : platform.Lawful) (quiet : env.Quiet)
    (types : env.Types passphrase) (kept : StoreInvariant platform passphrase device ledger)
    (locked : device.vault = none) :
    StoreInvariant platform passphrase (perform platform device ⟨.boot, env⟩) ledger := by
  have noRestore : device.NoRestore := by
    intro missing
    cases kept with
    | blank absent => exact absent .flash .metaFile
    | kept salt keeps =>
        rw [keeps.salted] at missing
        cases missing
  rcases Vault.perform_boot platform quiet.sees noRestore locked with
    still | ⟨salt, entered, manifest, opened⟩ | ⟨missing, _, outcome, after, created,
      media, vault, _⟩
  · cases kept with
    | blank absent _ empty =>
        exact .blank (fun disk path => by rw [still.media]; exact absent disk path)
          (still.vault.trans locked) empty
    | kept salt keeps =>
        exact .kept salt (keeps.congr (congrArg Media.sd still.media) fun _ same =>
          still.vault ▸ same)
  · cases kept with
    | blank absent =>
        have salted := opened.salted
        simp [saltOn, show device.sd.get .metaFile = none from absent .sd .metaFile] at salted
    | kept salt' keeps =>
        have salted := opened.salted
        rw [saltOn_of_meta lawful keeps.salted] at salted
        cases salted
        obtain ⟨count, typed⟩ := opened.typed
        obtain rfl := (types count entered typed).resolve_left opened.nonempty
        rcases opened.reads with same | ⟨_, missed⟩
        · rw [keeps.manifestOn lawful] at same
          cases same
          have sd := congrArg Media.sd opened.media
          refine .kept salt ⟨sd ▸ keeps.salted, sd ▸ keeps.ready, sd ▸ keeps.manifest,
            sd ▸ keeps.files, sd ▸ keeps.secrets, keeps.numbered, keeps.distinct, ?_⟩
          intro vault unlocked
          rw [opened.vault] at unlocked
          cases unlocked
          exact ⟨rfl, rfl⟩
        · exact absurd missed quiet.not_missesManifest
  · cases kept with
    | kept salt keeps =>
        rw [keeps.salted] at missing
        cases missing
    | blank absent _ empty =>
        subst empty
        exact .of_created lawful quiet types absent locked created media vault

/-- **One step of a run keeps the invariant of the store.** -/
theorem StoreInvariant.step (lawful : platform.Lawful) {step : Step} (quiet : step.env.Quiet)
    (types : step.env.Types passphrase)
    (kept : StoreInvariant platform passphrase device ledger) :
    StoreInvariant platform passphrase (perform platform device step)
      (noteUpdate ledger device step (perform platform device step)) := by
  obtain ⟨action, env⟩ := step
  have relock : StoreInvariant platform passphrase device.ready ledger := by
    cases kept with
    | blank absent locked empty => exact .blank absent locked empty
    | kept salt keeps => exact .kept salt (keeps.congr rfl fun _ same => same)
  cases state : device.vault with
  | none =>
      cases action with
      | boot => exact kept.perform_boot lawful quiet types state
      | add text =>
          rw [perform_add_locked platform env text state]
          exact relock
      | delete secretId =>
          rw [perform_delete_locked platform env secretId state]
          exact relock
      | lock =>
          cases relock with
          | blank absent locked empty => exact .blank absent rfl empty
          | kept salt keeps => exact .kept salt (keeps.congr rfl nofun)
  | some vault =>
      cases kept with
      | blank absent locked empty =>
          rw [locked] at state
          cases state
      | kept salt keeps =>
          cases action with
          | boot =>
              rw [perform_boot_unlocked platform env state]
              exact relock
          | add text => exact .kept salt (keeps.perform_add lawful quiet state text)
          | delete secretId => exact .kept salt (keeps.perform_delete lawful quiet state secretId)
          | lock => exact .kept salt (keeps.congr rfl nofun)

end Steps

/-- The ledger of a run from a device without a vault. -/
def ledgerOf (platform : Platform) (steps : List Step) : Ledger :=
  (Runs.track (perform platform) noteUpdate (Device.fresh, []) steps).2

/-- A device on which the program finds the ledger: in the manifest of the card, in
RAM when the vault is unlocked, in the files of the secrets and in their contents. -/
structure Represents (platform : Platform) (passphrase : Text) (salt : Bytes) (device : Device)
    (ledger : Ledger) : Prop where
  salted : saltOn platform device.sd = some salt
  loadManifest : ∀ env : Env, env.Quiet →
    (loadManifest platform env platform.manifests .empty (deriveKey platform passphrase salt)
      device).1 = .ok (some ledger.manifest)
  vault : ∀ vault, device.vault = some vault →
    vault.cipher = deriveKey platform passphrase salt ∧ vault.manifest = ledger.manifest
  distinct : (ledger.map fun record => record.1.id).Nodup
  files : ∀ name, name ∈ device.sd.secretNames ↔
    ∃ record ∈ ledger, name = record.1.id ++ ".kef".toList
  loadSecret : ∀ env : Env, env.Quiet → ∀ record ∈ ledger,
    (loadSecret platform env (deriveKey platform passphrase salt) record.1.id device).1 =
      .ok (some record.2)

private theorem Keeps.represents (lawful : platform.Lawful) {device : Device} {ledger : Ledger}
    {salt : Bytes} (keeps : Keeps platform passphrase device ledger salt) :
    Represents platform passphrase salt device ledger := by
  refine ⟨saltOn_of_meta lawful keeps.salted, ?_, keeps.vault, keeps.distinct, ?_, ?_⟩
  · intro env quiet
    rw [loadManifest_fst _ _ quiet.not_missesManifest quiet.uncut, keeps.manifestOn lawful]
  · intro name
    rw [Medium.mem_secretNames, keeps.files]
    simp only [secretPath, Path.secretFile.injEq]
  · intro env quiet record member
    obtain ⟨envelope, stored, seals⟩ := keeps.secrets record member
    rw [loadSecret_fst _ _ _ fun missed => missed.elim (quiet.not_faulty _) (quiet.not_faulty _),
      secretOn_of_seals lawful stored seals]

/-- **The vault is a store.** After every run of boots, adds, deletions and locks in
which no file operation fails and the vault is opened with one passphrase, either
there is no vault yet, or the program finds on the card and in RAM exactly the
secrets that were stored and not deleted. -/
theorem run_represents_ledger (lawful : platform.Lawful) (passphrase : Text) (steps : List Step)
    (quiet : ∀ step ∈ steps, step.env.Quiet) (types : ∀ step ∈ steps, step.env.Types passphrase) :
    (∃ salt, Represents platform passphrase salt (run platform .fresh steps)
      (ledgerOf platform steps)) ∨
    ((∀ disk path, ((run platform .fresh steps).disk disk).get path = none) ∧
      (run platform .fresh steps).vault = none ∧ ledgerOf platform steps = []) := by
  have kept : StoreInvariant platform passphrase
      (Runs.track (perform platform) noteUpdate (Device.fresh, []) steps).1
      (ledgerOf platform steps) := by
    have along : Runs.Along (perform platform)
        (fun _ step => step.env.Quiet ∧ step.env.Types passphrase) Device.fresh steps :=
      Runs.along_of_forall _ _ fun step member _ => ⟨quiet step member, types step member⟩
    refine Runs.track_invariant (fun device ledger step allowed kept =>
      kept.step lawful allowed.1 allowed.2) _ _ along ?_
    exact .blank (fun disk path => by cases disk <;> rfl) rfl rfl
  rw [Runs.track_fst] at kept
  cases kept with
  | blank absent locked empty => exact .inr ⟨absent, locked, empty⟩
  | kept salt keeps => exact .inl ⟨salt, keeps.represents lawful⟩

/-- A run on the concrete platform, every action in the environment without faults. -/
def Sample.steps (entry : Text) (actions : List Action) : List Step :=
  actions.map fun action => ⟨action, Sample.env entry⟩

/-- The salt of the first vault on the concrete platform. -/
def Sample.salt : Bytes := (List.range saltLength).map fun index => UInt8.ofNat (11 + index)

/-- A vault with one secret. -/
def Sample.single : Device := run Sample.platform .fresh (Sample.steps ['a'] [.boot, .add ['x']])

/-- Its manifest. -/
def Sample.listing : Manifest :=
  ⟨[⟨['0', '0', '1'], ['a'], .text, 5, ['7', '9', '7', '9', '7', '9', '7', '9']⟩]⟩

/-- The sample's environment is quiet. -/
theorem Sample.env_quiet (entry : Text) : (Sample.env entry).Quiet := fun _ _ => rfl

/-- In the sample's environment one text is typed. -/
theorem Sample.env_types (entry : Text) : (Sample.env entry).Types entry := by
  intro count other typed
  cases typed
  exact .inr rfl

/-- A vault in which the identifier of a deleted secret is in use again. -/
theorem run_represents_ledger_reused :
    let steps := Sample.steps ['a']
      [.boot, .add ['x'], .add ['y'], .delete ['0', '0', '2'], .add ['z'], .lock, .boot]
    ((run Sample.platform .fresh steps).vault.isSome = true ∧
      (ledgerOf Sample.platform steps).map (fun record => (record.1.id, record.2)) =
        [(['0', '0', '1'], encode ['x']), (['0', '0', '2'], encode ['z'])]) ∧
    ((∃ salt, Represents Sample.platform ['a'] salt (run Sample.platform .fresh steps)
      (ledgerOf Sample.platform steps)) ∨
    ((∀ disk path, ((run Sample.platform .fresh steps).disk disk).get path = none) ∧
      (run Sample.platform .fresh steps).vault = none ∧ ledgerOf Sample.platform steps = [])) := by
  intro steps
  have environments : ∀ step ∈ steps, step.env = Sample.env ['a'] := by
    intro step member
    obtain ⟨action, _, rfl⟩ := List.mem_map.mp member
    rfl
  refine ⟨by decide +kernel, run_represents_ledger Sample.platform_lawful ['a'] steps ?_ ?_⟩
  · intro step member
    rw [environments step member]
    exact Sample.env_quiet _
  · intro step member
    rw [environments step member]
    exact Sample.env_types _

end VaultSeed.Vault
