import VaultSeed.Vault.Steps
import VaultSeed.Vault.Store

/-! # Reads of the card that fail

Mounting the card and reading from it may raise at any time. `load_manifest` takes a
manifest it cannot read for an empty one, and then any passphrase opens the vault and
the next add writes over the first secret. Every other failed read costs nothing: in
all runs in which the manifest itself is read, every step spares the stored secrets
(`step_spares_stored`).
-/

namespace VaultSeed.Vault

open Python Effect

/-- Nothing fails but for mounts of the card and reads from it, which may raise. -/
def Env.ReadsRaise (env : Env) : Prop := ∀ op count, env.fault op count = .none ∨
  (env.fault op count = .raise ∧ ((∃ caller, op = .mount caller) ∨ ∃ path, op = .read .sd path))

/-- What is typed as a passphrase. -/
def Env.typed (env : Env) : Set Text := { entry | ∃ count, env.keypad .passphrase count =
    some entry }

/-- What is sealed under the key of the passphrase is rejected with the key of any other
one of these. -/
def RejectsOthers (platform : Platform) (typed : Set Text) (passphrase : Text) : Prop :=
  ∀ salt, ∀ other ∈ typed, other ≠ passphrase →
    Rejects platform (deriveKey platform passphrase salt) (deriveKey platform other salt)

/-- The entries the user chose to delete, as the manifest in RAM showed them. -/
def noteDeletion (deletions : List Entry) (before : Device) (step : Step) (_after : Device) :
    List Entry :=
  match step.action, before.vault with
  | .delete secretId, some vault =>
      if step.env.answer .deleteSecret 0 then
        vault.manifest.secrets.filter (fun entry => entry.id = secretId) ++ deletions
      else deletions
  | _, _ => deletions

/-- **A step spares what is stored**: it leaves the file of a listed secret alone
unless it deletes it, it drops no entry from the stored manifest but those the user
deleted, and it opens the vault with the passphrase only. -/
structure Spares (platform : Platform) (passphrase : Text) (salt : Bytes) (deletions : List Entry)
    (action : Action) (before after : Device) : Prop where
  files : ∀ secretId data, Listed platform (deriveKey platform passphrase salt) before secretId →
    before.sd.get (secretPath secretId) = some data →
    after.sd.get (secretPath secretId) = some data ∨
      (action = .delete secretId ∧ after.sd.get (secretPath secretId) = none)
  entries : ∀ manifest,
    manifestOn platform (deriveKey platform passphrase salt) before.sd = some manifest →
    ∃ later, manifestOn platform (deriveKey platform passphrase salt) after.sd = some later ∧
      ∀ entry ∈ manifest.secrets, entry ∈ later.secrets ∨ entry ∈ deletions
  unlock : before.vault = none → after.vault ≠ none → ∃ rest,
    after.history = .shown .strength :: .typed .passphrase (some passphrase) :: rest

section Invariant

variable (platform : Platform) (passphrase : Text)

/-- A manifest in RAM that has every stored entry but the deleted ones, and every
identifier that is listed and has a file. -/
structure Covers (sd : Medium) (stored : Manifest) (deletions : List Entry) (manifest : Manifest) :
    Prop where
  numbered : manifest.Numbered
  entries : ∀ entry ∈ stored.secrets, entry ∈ deletions ∨ entry ∈ manifest.secrets
  files : ∀ entry ∈ stored.secrets, (sd.get (secretPath entry.id)).isSome = true →
    ∃ other ∈ manifest.secrets, other.id = entry.id

/-- A card with a vault under the key of the passphrase. -/
structure Guarded (device : Device) (deletions : List Entry) (salt : Bytes) (stored : Manifest) :
    Prop where
  salted : device.sd.get .metaFile = some (metaData platform salt)
  ready : device.sd.Ready
  lists : Lists platform (deriveKey platform passphrase salt) device.sd stored
  numbered : stored.Numbered
  vault : ∀ vault, device.vault = some vault →
    vault.cipher = deriveKey platform passphrase salt ∧
      Covers device.sd stored deletions vault.manifest

/-- What a step from a guarded device keeps. -/
def Keep (salt : Bytes) (deletions : List Entry) (action : Action) (before after : Device) : Prop :=
  Spares platform passphrase salt deletions action before after ∧
  (∃ stored, Guarded platform passphrase after deletions salt stored) ∧
  (before.sd.get .manifestFile ≠ none → after.sd.get .manifestFile ≠ none)

end Invariant

variable {platform : Platform} {passphrase : Text}

section Env

variable {env : Env}

private theorem Env.ReadsRaise.spares (reads : env.ReadsRaise) {op : FileOp}
    (other : ∀ caller, op ≠ .mount caller) (others : ∀ path, op ≠ .read .sd path) (count : Nat) :
    env.fault op count = .none := by
  rcases reads op count with spared | ⟨_, ⟨caller, same⟩ | ⟨path, same⟩⟩
  · exact spared
  · exact absurd same (other caller)
  · exact absurd same (others path)

private theorem Env.ReadsRaise.whole (reads : env.ReadsRaise) : env.Whole :=
  fun _ => reads.spares nofun nofun

private theorem Env.ReadsRaise.sees (reads : env.ReadsRaise) : env.SeesMeta := by
  intro disk count raised
  have spared : env.fault (.stat disk .metaFile) count = .none :=
    reads.spares (by simp) (by simp) count
  rw [raised] at spared
  cases spared

end Env

section Steps

variable {env : Env} {device result : Device} {deletions : List Entry} {salt : Bytes}
variable {stored : Manifest} {action : Action}

/-- A manifest in RAM that is the stored one covers it. -/
theorem Covers.self {sd : Medium} (numbered : stored.Numbered) :
    Covers sd stored deletions stored :=
  ⟨numbered, fun _ member => .inr member, fun entry member _ => ⟨entry, member, rfl⟩⟩

/-- A step that leaves the card alone. -/
theorem Guarded.unmoved
    (guarded : Guarded platform passphrase device deletions salt stored)
    (sd : result.sd = device.sd)
    (vault : ∀ vault, result.vault = some vault → device.vault = some vault) :
    Keep platform passphrase salt deletions action device result := by
  refine ⟨⟨fun secretId data _ present => .inl (sd ▸ present), fun manifest found => ?_, ?_⟩,
    ⟨stored, sd ▸ guarded.salted, sd ▸ guarded.ready, sd ▸ guarded.lists, guarded.numbered, ?_⟩,
    fun present => sd ▸ present⟩
  · exact ⟨manifest, sd ▸ found, fun entry member => .inl member⟩
  · intro locked unlocked
    obtain ⟨state, same⟩ := Option.ne_none_iff_exists'.mp unlocked
    rw [vault state same] at locked
    cases locked
  · intro state same
    exact sd ▸ guarded.vault state (vault state same)

/-- A manifest that covers the stored one in its place. -/
theorem Covers.entries_later (lawful : platform.Lawful) {cipher : Kef.Cipher} {sd after : Medium}
    {manifest : Manifest} (covers : Covers sd stored deletions manifest)
    (lists : Lists platform cipher sd stored) {later : Manifest}
    (more : ∀ entry ∈ manifest.secrets, entry ∈ later.secrets ∨ entry ∈ deletions)
    (laterLists : Lists platform cipher after later) :
    ∀ found, manifestOn platform cipher sd = some found →
      ∃ found', manifestOn platform cipher after = some found' ∧
        ∀ entry ∈ found.secrets, entry ∈ found'.secrets ∨ entry ∈ deletions := by
  intro found same
  rw [lists.manifestOn lawful] at same
  cases same
  refine ⟨later, laterLists.manifestOn lawful, fun entry member => ?_⟩
  rcases covers.entries entry member with deleted | kept
  · exact .inr deleted
  · exact more entry kept

private theorem Guarded.listed (lawful : platform.Lawful)
    (guarded : Guarded platform passphrase device deletions salt stored) {secretId : Text}
    (listed : Listed platform (deriveKey platform passphrase salt) device secretId) :
    ∃ entry ∈ stored.secrets, entry.id = secretId := by
  obtain ⟨manifest, found, entry, member, same⟩ := listed
  rw [guarded.lists.manifestOn lawful] at found
  cases found
  exact ⟨entry, member, same⟩

/-- Deletions that were noted besides. -/
theorem Guarded.note (guarded : Guarded platform passphrase device deletions salt stored)
    (step : Step) (after : Device) :
    Guarded platform passphrase device (noteDeletion deletions device step after) salt stored := by
  have more : ∀ entry ∈ deletions, entry ∈ noteDeletion deletions device step after := by
    intro entry member
    unfold noteDeletion
    split
    · split
      · exact List.mem_append_right _ member
      · exact member
    · exact member
  refine { guarded with vault := fun vault unlocked => ?_ }
  obtain ⟨key, covers⟩ := guarded.vault vault unlocked
  exact ⟨key, { covers with
    entries := fun entry member => (covers.entries entry member).imp (more entry) id }⟩

/-- A new secret that is listed in RAM only. -/
theorem Covers.add {sd : Medium} {manifest : Manifest} {entry : Entry} {envelope : Bytes}
    (covers : Covers sd stored deletions manifest) (named : ∃ number, entry.id = format03d number) :
    Covers (sd.put (secretPath entry.id) envelope) stored deletions
      (addToManifest manifest entry) := by
  refine ⟨addToManifest_numbered covers.numbered named, ?_, ?_⟩
  · intro other member
    exact (covers.entries other member).imp id (List.mem_append_left _)
  · intro other member present
    by_cases equal : other.id = entry.id
    · exact ⟨entry, List.mem_append_right _ List.mem_cons_self, equal.symm⟩
    · rw [Medium.get_put_of_ne fun same => equal (secretPath_injective same)] at present
      obtain ⟨found, listed, shared⟩ := covers.files other member present
      exact ⟨found, List.mem_append_left _ listed, shared⟩

private theorem mem_removeFromManifest {manifest : Manifest} {entry : Entry} {secretId : Text}
    (member : entry ∈ manifest.secrets) (different : entry.id ≠ secretId) :
    entry ∈ (removeFromManifest manifest secretId).secrets := by
  apply List.mem_filter.mpr
  exact ⟨member, by simpa using different⟩

/-- A secret whose file is removed, and which is no longer listed in RAM. -/
theorem Covers.remove {sd : Medium} {manifest : Manifest} {secretId : Text}
    (covers : Covers sd stored deletions manifest)
    (noted : ∀ entry ∈ manifest.secrets, entry.id = secretId → entry ∈ deletions) :
    Covers (sd.erase (secretPath secretId)) stored deletions
      (removeFromManifest manifest secretId) := by
  refine ⟨removeFromManifest_numbered covers.numbered secretId, ?_, ?_⟩
  · intro entry member
    rcases covers.entries entry member with deleted | held
    · exact .inl deleted
    · by_cases same : entry.id = secretId
      · exact .inl (noted entry held same)
      · exact .inr (mem_removeFromManifest held same)
  · intro entry member present
    have different : entry.id ≠ secretId := by
      intro same
      rw [same, Medium.get_erase_self] at present
      cases present
    rw [Medium.get_erase_of_ne fun same => different (secretPath_injective same)] at present
    obtain ⟨other, held, shared⟩ := covers.files entry member present
    exact ⟨other, mem_removeFromManifest held fun same => different (shared.symm.trans same),
      shared⟩

section Unlocked

variable {vault : VaultState}

/-- The files of the listed secrets are left alone, but for one that is deleted. -/
def FilesSpared (platform : Platform) (cipher : Kef.Cipher) (action : Action)
    (before after : Device) : Prop :=
  ∀ secretId data, Listed platform cipher before secretId →
    before.sd.get (secretPath secretId) = some data →
    after.sd.get (secretPath secretId) = some data ∨
      (action = .delete secretId ∧ after.sd.get (secretPath secretId) = none)

/-- The vault in RAM after a step, if it is not locked, has the key and a manifest that covers
the stored one. -/
theorem vault_covers {manifest : Manifest}
    (key : vault.cipher = deriveKey platform passphrase salt)
    (covers : Covers result.sd stored deletions manifest)
    (kept : result.vault = none ∨ result.vault = some (vault.listing manifest)) :
    ∀ vault, result.vault = some vault → vault.cipher = deriveKey platform passphrase salt ∧
      Covers result.sd stored deletions vault.manifest := by
  intro other same
  rw [eq_of_stays kept same]
  exact ⟨key, covers⟩

/-- A step of an unlocked vault that does not save the manifest. -/
theorem Guarded.unsaved (lawful : platform.Lawful)
    (guarded : Guarded platform passphrase device deletions salt stored)
    (unlocked : device.vault = some vault)
    (files : FilesSpared platform (deriveKey platform passphrase salt) action device result)
    (salted : result.sd.get .metaFile = device.sd.get .metaFile) (ready : result.sd.Ready)
    (same : result.sd.get .manifestFile = device.sd.get .manifestFile) {manifest : Manifest}
    (covers : Covers result.sd stored deletions manifest)
    (kept : result.vault = none ∨ result.vault = some (vault.listing manifest)) :
    Keep platform passphrase salt deletions action device result := by
  have lists := guarded.lists.congr same
  refine ⟨⟨files, ?_, ?_⟩, ⟨stored, salted.trans guarded.salted, ready, lists, guarded.numbered,
    vault_covers (guarded.vault vault unlocked).1 covers kept⟩, ?_⟩
  · intro found read
    refine ⟨found, ?_, fun entry member => .inl member⟩
    rw [lists.manifestOn lawful, ← guarded.lists.manifestOn lawful, read]
  · intro locked
    rw [unlocked] at locked
    cases locked
  · rw [same]
    exact id

/-- A step of an unlocked vault that saves a manifest. -/
theorem Guarded.saved (lawful : platform.Lawful)
    (guarded : Guarded platform passphrase device deletions salt stored)
    (unlocked : device.vault = some vault)
    (files : FilesSpared platform (deriveKey platform passphrase salt) action device result)
    (salted : result.sd.get .metaFile = device.sd.get .metaFile) (ready : result.sd.Ready)
    {later : Manifest} {envelope : Bytes}
    (list : Seals platform vault.cipher manifestId
      (encode (platform.manifests.dumps later)) envelope)
    (written : result.sd.get .manifestFile = some envelope) (numbered : later.Numbered)
    (more : ∀ entry ∈ vault.manifest.secrets, entry ∈ later.secrets ∨ entry ∈ deletions)
    (kept : result.vault = none ∨ result.vault = some (vault.listing later)) :
    Keep platform passphrase salt deletions action device result := by
  obtain ⟨key, covers⟩ := guarded.vault vault unlocked
  rw [key] at list
  have lists : Lists platform (deriveKey platform passphrase salt) result.sd later :=
    .inr ⟨envelope, written, list⟩
  refine ⟨⟨files, ?_, ?_⟩, ⟨later, salted.trans guarded.salted, ready, lists, numbered,
    vault_covers key (.self numbered) kept⟩, ?_⟩
  · exact covers.entries_later lawful guarded.lists more lists
  · intro locked
    rw [unlocked] at locked
    cases locked
  · rw [written]
    simp

end Unlocked

/-- A new identifier has a number, and is that of no listed file: those are all in RAM. -/
theorem Covers.next_fresh {sd : Medium} {manifest : Manifest} {secretId : Text}
    (covers : Covers sd stored deletions manifest) (next : nextSecretId manifest = .ok secretId) :
    (∃ number, secretId = format03d number) ∧ ∀ entry ∈ stored.secrets,
      (sd.get (secretPath entry.id)).isSome = true → entry.id ≠ secretId := by
  obtain ⟨number, same, fresh⟩ := nextSecretId_fresh covers.numbered
  rw [same] at next
  cases next
  refine ⟨⟨number, rfl⟩, ?_⟩
  intro entry member present equal
  obtain ⟨other, listed, shared⟩ := covers.files entry member present
  exact fresh other listed (shared.trans equal)

/-- An add. -/
theorem Guarded.perform_add (lawful : platform.Lawful) (reads : env.ReadsRaise)
    (guarded : Guarded platform passphrase device deletions salt stored) {vault : VaultState}
    (unlocked : device.vault = some vault) (text : Text) :
    Keep platform passphrase salt deletions action device
      (perform platform device ⟨.add text, env⟩) := by
  obtain ⟨key, covers⟩ := guarded.vault vault unlocked
  have added : AddedTo platform env vault text device.sd _ _ := perform_add_card reads.whole
    (key ▸ length_deriveKey lawful passphrase salt) guarded.ready unlocked text
  generalize perform platform device ⟨.add text, env⟩ = result at added
  generalize after : result.sd = sd at added
  generalize known : result.vault = state at added
  have files : ∀ {entry : Entry}, nextSecretId vault.manifest = .ok entry.id →
      (∀ path, path ≠ secretPath entry.id → path ≠ .manifestFile →
        result.sd.get path = device.sd.get path) →
      FilesSpared platform (deriveKey platform passphrase salt) action device result := by
    intro entry next others secretId data listed present
    obtain ⟨other, member, rfl⟩ := guarded.listed lawful listed
    have different := (covers.next_fresh next).2 other member (by rw [present]; rfl)
    refine .inl ?_
    rw [others _ (fun same => different (secretPath_injective same)) (by simp), present]
  cases added with
  | nothing kept =>
      refine guarded.unmoved after fun other same => ?_
      rw [known] at same
      rw [eq_of_stays kept same, unlocked]
  | @secretOnly entry envelope _ next secret kept =>
      have spared := files next fun path notSecret _ => by
        rw [after, Medium.get_put_of_ne notSecret]
      apply guarded.unsaved lawful unlocked spared
      · rw [after, Medium.get_put_of_ne (by simp)]
      · rw [after]
        exact guarded.ready
      · rw [after, Medium.get_put_of_ne (by simp)]
      · rw [after]
        exact covers.add (covers.next_fresh next).1
      · rw [known]
        exact kept.imp id And.left
  | @both entry envelope second _ next secret list kept =>
      have spared := files next fun path notSecret notManifest => by
        rw [after, Medium.get_put_of_ne notManifest, Medium.get_put_of_ne notSecret]
      apply guarded.saved lawful unlocked spared _ _ list
      · rw [after, Medium.get_put_self]
      · exact addToManifest_numbered covers.numbered (covers.next_fresh next).1
      · intro other member
        exact .inl (List.mem_append_left _ member)
      · rw [known]
        exact kept
      · rw [after, Medium.get_put_of_ne (by simp), Medium.get_put_of_ne (by simp)]
      · rw [after]
        exact guarded.ready

/-- A deletion. -/
theorem Guarded.perform_delete (lawful : platform.Lawful) (reads : env.ReadsRaise)
    (guarded : Guarded platform passphrase device deletions salt stored) {vault : VaultState}
    (unlocked : device.vault = some vault) (secretId : Text)
    (noted : env.answer .deleteSecret 0 = true →
      ∀ entry ∈ vault.manifest.secrets, entry.id = secretId → entry ∈ deletions) :
    Keep platform passphrase salt deletions (.delete secretId) device
      (perform platform device ⟨.delete secretId, env⟩) := by
  obtain ⟨key, covers⟩ := guarded.vault vault unlocked
  have deleted : DeletedFrom platform env vault secretId device.sd _ _ := perform_delete_card
    reads.whole (key ▸ length_deriveKey lawful passphrase salt) guarded.ready unlocked secretId
  generalize perform platform device ⟨.delete secretId, env⟩ = result at deleted
  generalize after : result.sd = sd at deleted
  generalize known : result.vault = state at deleted
  have gone : ∀ {middle}, CardRemoved env secretId device.sd middle →
      middle = device.sd.erase (secretPath secretId) := by
    rintro middle (⟨gone, _⟩ | ⟨_, raised⟩)
    · exact gone
    · have spared : env.fault (.remove .sd (secretPath secretId)) 0 = .none :=
        reads.spares (by simp) (by simp) 0
      rw [spared] at raised
      cases raised
  have files : (∀ path, path ≠ .manifestFile →
        result.sd.get path = (device.sd.erase (secretPath secretId)).get path) →
      FilesSpared platform (deriveKey platform passphrase salt) (.delete secretId)
        device result := by
    intro others other data _ present
    rw [others _ (by simp)]
    by_cases same : other = secretId
    · subst same
      exact .inr ⟨rfl, Medium.get_erase_self _⟩
    · rw [Medium.get_erase_of_ne fun equal => same (secretPath_injective equal)]
      exact .inl present
  cases deleted with
  | nothing kept =>
      refine guarded.unmoved after fun other same => ?_
      rw [known] at same
      rw [eq_of_stays kept same, unlocked]
  | unsaved agreed fault removed kept =>
      rw [gone removed] at after
      have spared := files fun path _ => by rw [after]
      apply guarded.unsaved lawful unlocked spared
      · rw [after, Medium.get_erase_of_ne (by simp)]
      · rw [after]
        exact guarded.ready
      · rw [after, Medium.get_erase_of_ne (by simp)]
      · rw [after]
        exact covers.remove (noted agreed)
      · rw [known]
        exact kept
  | saved agreed removed list kept =>
      rw [gone removed] at after
      have spared := files fun path notManifest => by
        rw [after, Medium.get_put_of_ne notManifest]
      apply guarded.saved lawful unlocked spared _ _ list
      · rw [after, Medium.get_put_self]
      · exact removeFromManifest_numbered covers.numbered secretId
      · intro entry member
        by_cases same : entry.id = secretId
        · exact .inr (noted agreed entry member same)
        · exact .inl (mem_removeFromManifest member same)
      · rw [known]
        exact kept
      · rw [after, Medium.get_put_of_ne (by simp), Medium.get_erase_of_ne (by simp)]
      · rw [after]
        exact guarded.ready

/-- A boot that reads the manifest. -/
theorem Guarded.perform_boot (lawful : platform.Lawful) (reads : env.ReadsRaise)
    (reliable : ¬ env.MissesManifest)
    (guarded : Guarded platform passphrase device deletions salt stored)
    (wrong : ∀ count entry, env.keypad .passphrase count = some entry → entry ≠ [] →
      entry ≠ passphrase → manifestOn platform (deriveKey platform entry salt) device.sd = none)
    (locked : device.vault = none) :
    Keep platform passphrase salt deletions action device
      (perform platform device ⟨.boot, env⟩) := by
  rcases perform_boot_present platform reads.sees guarded.salted locked with
    still | ⟨salt', entered, found, opened⟩
  · exact guarded.unmoved (congrArg Media.sd still.media) fun _ same => still.vault ▸ same
  have salted := opened.salted
  rw [saltOn_of_meta lawful guarded.salted] at salted
  cases salted
  obtain ⟨count, typed⟩ := opened.typed
  have read := opened.reads.resolve_right fun missed => reliable missed.2
  obtain rfl : entered = passphrase := by
    by_contra other
    rw [wrong count entered typed opened.nonempty other] at read
    cases read
  rw [guarded.lists.manifestOn lawful] at read
  cases read
  have sd := congrArg Media.sd opened.media
  refine ⟨⟨fun _ _ _ present => .inl (sd ▸ present), fun manifest found => ?_, fun _ _ =>
    opened.history⟩, ⟨stored, sd ▸ guarded.salted, sd ▸ guarded.ready, sd ▸ guarded.lists,
      guarded.numbered, ?_⟩, fun present => sd ▸ present⟩
  · exact ⟨manifest, sd ▸ found, fun entry member => .inl member⟩
  · intro vault unlocked
    rw [opened.vault] at unlocked
    cases unlocked
    exact ⟨rfl, .self guarded.numbered⟩

/-- **One step from a guarded device spares what is stored.** -/
theorem Guarded.step (lawful : platform.Lawful) {step : Step} (reads : step.env.ReadsRaise)
    (reliable : ¬ step.env.MissesManifest)
    (guarded : Guarded platform passphrase device deletions salt stored)
    (wrong : ∀ count entry, step.env.keypad .passphrase count = some entry → entry ≠ [] →
      entry ≠ passphrase → manifestOn platform (deriveKey platform entry salt) device.sd = none) :
    Keep platform passphrase salt
      (noteDeletion deletions device step (perform platform device step))
      step.action device (perform platform device step) := by
  have noted := guarded.note step device
  change Keep platform passphrase salt (noteDeletion deletions device step device) _ _ _
  refine perform_cases (fun result => Keep platform passphrase salt
    (noteDeletion deletions device step device) step.action device result) step ?_ ?_ ?_ ?_ ?_
  · exact noted.unmoved rfl fun _ => id
  · intro _ locked
    exact noted.perform_boot lawful reads reliable wrong locked
  · intro vault text _ unlocked
    exact noted.perform_add lawful reads unlocked text
  · intro vault secretId action unlocked
    rw [action]
    refine noted.perform_delete lawful reads unlocked secretId fun agreed entry member same => ?_
    simp only [noteDeletion, action, unlocked, agreed, ↓reduceIte]
    exact List.mem_append_left _ (List.mem_filter.mpr ⟨member, by simpa using same⟩)
  · exact noted.unmoved rfl nofun

end Steps

/-- The invariant of the runs that make the vault. -/
inductive GuardedInvariant (platform : Platform) (passphrase : Text) (device : Device)
    (deletions : List Entry) : Prop where
  | blank (absent : ∀ disk path, (device.disk disk).get path = none) (locked : device.vault = none)
  | guarded (salt : Bytes) (stored : Manifest)
      (guarded : Guarded platform passphrase device deletions salt stored)

section Runs

variable {device : Device} {deletions : List Entry} {salt : Bytes} {stored : Manifest}

private theorem GuardedInvariant.step (lawful : platform.Lawful) {step : Step}
    (reads : step.env.ReadsRaise)
    (reliable : ¬ step.env.MissesManifest) (types : step.env.Types passphrase)
    (kept : GuardedInvariant platform passphrase device deletions) :
    GuardedInvariant platform passphrase (perform platform device step)
      (noteDeletion deletions device step (perform platform device step)) := by
  cases kept with
  | guarded salt stored guarded =>
      obtain ⟨_, ⟨later, held⟩, _⟩ := guarded.step lawful reads reliable
        fun count entry typed nonempty other =>
          absurd ((types count entry typed).resolve_left nonempty) other
      exact .guarded salt later held
  | blank absent locked =>
      refine perform_cases (fun result => GuardedInvariant platform passphrase result
        (noteDeletion deletions device step result)) step ?_ ?_ ?_ ?_ ?_
      · exact .blank absent locked
      · intro _ _
        have unopened : ∀ {result : Device} {salt : Bytes}, result.vault = none →
            ∀ vault, result.vault = some vault →
              vault.cipher = deriveKey platform passphrase salt ∧ Covers result.sd .empty
                (noteDeletion deletions device step result) vault.manifest := by
          intro result salt none vault unlocked
          rw [none] at unlocked
          cases unlocked
        cases perform_boot_blank lawful reads.whole reads.sees absent locked with
        | nothing absent locked => exact .blank absent locked
        | unkeyed salt ready salted others locked _ =>
            exact .guarded salt .empty ⟨salted, ready, .inl ⟨others _ (by simp), rfl⟩, nofun,
              unopened locked⟩
        | keyed salt entered envelope ready salted present list others chooses _ state =>
            rw [types.chooses chooses] at list state
            refine .guarded salt .empty ⟨salted, ready, .inr ⟨envelope, present, list⟩, nofun, ?_⟩
            rcases state with none | opened
            · exact unopened none
            · intro vault unlocked
              rw [opened] at unlocked
              cases unlocked
              exact ⟨rfl, .self nofun⟩
      · intro vault _ _ unlocked
        rw [locked] at unlocked
        cases unlocked
      · intro vault _ _ unlocked
        rw [locked] at unlocked
        cases unlocked
      · exact .blank absent rfl

/-- A stored manifest does not open with any other passphrase that is typed. -/
theorem Guarded.wrong (lawful : platform.Lawful) {typed : Set Text}
    (rejects : RejectsOthers platform typed passphrase)
    (guarded : Guarded platform passphrase device deletions salt stored)
    (present : device.sd.get .manifestFile ≠ none) {other : Text} (entered : other ∈ typed)
    (different : other ≠ passphrase) :
    manifestOn platform (deriveKey platform other salt) device.sd = none := by
  rcases guarded.lists with ⟨absent, _⟩ | ⟨envelope, held, seals⟩
  · exact absurd absent present
  · rw [manifestOn_of_some held]
    exact seals.decodeManifest_rejected lawful.inverts (length_deriveKey lawful _ _)
      (length_deriveKey lawful _ _) (rejects salt other entered different)

/-- The deletions of a run from a device without a vault. -/
def deletionsOf (platform : Platform) (steps : List Step) : List Entry :=
  (Runs.track (perform platform) noteDeletion (Device.fresh, []) steps).2

/-- A run and its deletions. -/
theorem track_fresh (steps : List Step) :
    Runs.track (perform platform) noteDeletion (Device.fresh, []) steps =
      (run platform .fresh steps, deletionsOf platform steps) :=
  Prod.ext (Runs.track_fst _ _) rfl

/-- A run in which only the passphrase is typed, and the manifest is read, leaves a vault
under its key or none. -/
theorem guardedInvariant_run (lawful : platform.Lawful) (made : List Step)
    (making : ∀ other ∈ made, other.env.ReadsRaise ∧ ¬ other.env.MissesManifest ∧
      other.env.Types passphrase) :
    GuardedInvariant platform passphrase (run platform .fresh made)
      (deletionsOf platform made) := by
  have along : Runs.Along (perform platform) (fun _ other => other.env.ReadsRaise ∧
      ¬ other.env.MissesManifest ∧ other.env.Types passphrase) Device.fresh made :=
    Runs.along_of_forall _ _ fun other member _ => making other member
  have onward : ∀ device deletions (other : Step), (other.env.ReadsRaise ∧
      ¬ other.env.MissesManifest ∧ other.env.Types passphrase) →
      GuardedInvariant platform passphrase device deletions →
      GuardedInvariant platform passphrase (perform platform device other)
        (noteDeletion deletions device other (perform platform device other)) :=
    fun _ _ _ allowed kept => kept.step lawful allowed.1 allowed.2.1 allowed.2.2
  have kept := Runs.track_invariant onward (Device.fresh, []) made along
    (.blank (fun disk path => by cases disk <;> rfl) rfl)
  rwa [track_fresh] at kept

/-- A vault under the key of the passphrase, with a manifest file. -/
def HoldsManifest (platform : Platform) (passphrase : Text) (salt : Bytes) (device : Device)
    (deletions : List Entry) : Prop :=
  (∃ stored, Guarded platform passphrase device deletions salt stored) ∧
    device.sd.get .manifestFile ≠ none

/-- The file of a manifest with an entry is there. -/
theorem GuardedInvariant.holdsManifest (lawful : platform.Lawful)
    (kept : GuardedInvariant platform passphrase device deletions)
    (salted : saltOn platform device.sd = some salt) {manifest : Manifest}
    (listed : manifestOn platform (deriveKey platform passphrase salt) device.sd = some manifest)
    (nonempty : manifest.secrets ≠ []) :
    HoldsManifest platform passphrase salt device deletions := by
  cases kept with
  | blank absent =>
      simp [saltOn, show device.sd.get .metaFile = none from absent .sd .metaFile] at salted
  | guarded salt' stored guarded =>
      rw [saltOn_of_meta lawful guarded.salted] at salted
      cases salted
      refine ⟨⟨stored, guarded⟩, fun absent => nonempty ?_⟩
      rw [manifestOn_of_none absent] at listed
      cases listed
      rfl

/-- The manifest file rejects every other passphrase, and stays. -/
theorem HoldsManifest.step (lawful : platform.Lawful) {step : Step}
    (rejects : RejectsOthers platform step.env.typed passphrase) (reads : step.env.ReadsRaise)
    (reliable : ¬ step.env.MissesManifest)
    (holding : HoldsManifest platform passphrase salt device deletions) :
    Spares platform passphrase salt
        (noteDeletion deletions device step (perform platform device step)) step.action device
        (perform platform device step) ∧
      HoldsManifest platform passphrase salt (perform platform device step)
        (noteDeletion deletions device step (perform platform device step)) := by
  obtain ⟨⟨stored, guarded⟩, present⟩ := holding
  obtain ⟨spared, again, stays⟩ := guarded.step lawful reads reliable
    fun count _ entered _ different =>
      guarded.wrong lawful rejects present ⟨count, entered⟩ different
  exact ⟨spared, again, stays present⟩

/-- **Failed reads cost no stored secret**, as long as the manifest itself is read.
From every state that holds a manifest with an entry, made with one passphrase, and in
every continuation with any passphrases, in which mounts and reads of the card may
raise but those of `load_manifest` do not, every step spares what is stored. -/
theorem step_spares_stored (lawful : platform.Lawful) (made early : List Step) (step : Step)
    (rejects : ∀ other ∈ early ++ [step], RejectsOthers platform other.env.typed passphrase)
    (making : ∀ other ∈ made, other.env.ReadsRaise ∧ ¬ other.env.MissesManifest ∧
      other.env.Types passphrase)
    (continuing : ∀ other ∈ early ++ [step], other.env.ReadsRaise ∧ ¬ other.env.MissesManifest)
    {manifest : Manifest} (salted : saltOn platform (run platform .fresh made).sd = some salt)
    (listed : manifestOn platform (deriveKey platform passphrase salt)
      (run platform .fresh made).sd = some manifest) (nonempty : manifest.secrets ≠ []) :
    Spares platform passphrase salt (deletionsOf platform (made ++ early ++ [step])) step.action
      (run platform .fresh (made ++ early)) (run platform .fresh (made ++ early ++ [step])) := by
  have now : HoldsManifest platform passphrase salt (run platform .fresh made)
      (deletionsOf platform made) :=
    (guardedInvariant_run lawful made making).holdsManifest lawful salted listed nonempty
  have later : HoldsManifest platform passphrase salt (run platform .fresh (made ++ early))
      (deletionsOf platform (made ++ early)) := by
    have along : Runs.Along (perform platform) (fun _ other =>
        RejectsOthers platform other.env.typed passphrase ∧ other.env.ReadsRaise ∧
          ¬ other.env.MissesManifest) (run platform .fresh made) early :=
      Runs.along_of_forall _ _ fun other member _ =>
        ⟨rejects other (List.mem_append_left _ member),
          continuing other (List.mem_append_left _ member)⟩
    have onward : ∀ device deletions (other : Step),
        (RejectsOthers platform other.env.typed passphrase ∧ other.env.ReadsRaise ∧
          ¬ other.env.MissesManifest) → HoldsManifest platform passphrase salt device deletions →
        HoldsManifest platform passphrase salt (perform platform device other)
          (noteDeletion deletions device other (perform platform device other)) :=
      fun _ _ _ allowed holding => (holding.step lawful allowed.1 allowed.2.1 allowed.2.2).2
    have kept := Runs.track_invariant onward
      (run platform .fresh made, deletionsOf platform made) early along now
    rwa [← track_fresh, ← Runs.track_append, track_fresh] at kept
  have last : step ∈ early ++ [step] := List.mem_append_right _ List.mem_cons_self
  obtain ⟨reads, reliable⟩ := continuing step last
  have spared := (later.step lawful (rejects step last) reads reliable).1
  have ended : run platform .fresh (made ++ early ++ [step]) =
      perform platform (run platform .fresh (made ++ early)) step := List.foldl_append
  have noted : deletionsOf platform (made ++ early ++ [step]) =
      noteDeletion (deletionsOf platform (made ++ early)) (run platform .fresh (made ++ early)) step
        (perform platform (run platform .fresh (made ++ early)) step) := by
    unfold deletionsOf
    rw [Runs.track_append, track_fresh]
    rfl
  rw [ended, noted]
  exact spared

end Runs

private theorem Env.Quiet.readsRaise {env : Env} (quiet : env.Quiet) : env.ReadsRaise :=
  fun _ _ => .inl (quiet _ _)

private theorem Sample.failing_readsRaise (entry : Text) {op : FileOp}
    (reading : (∃ caller, op = .mount caller) ∨ ∃ path, op = .read .sd path) :
    (Sample.failing entry op .raise).ReadsRaise := by
  intro other count
  by_cases same : other = op
  · subst same
    exact .inr ⟨if_pos rfl, reading⟩
  · exact .inl (if_neg same)

private theorem Sample.failing_reliable (entry : Text) {op : FileOp}
    (notMount : op ≠ .mount .loadManifest)
    (notRead : op ≠ .read .sd .manifestFile) :
    ¬ (Sample.failing entry op .raise).MissesManifest := by
  rintro (⟨count, raised⟩ | ⟨count, raised⟩)
  · exact absurd ((if_neg notMount.symm).symm.trans raised) nofun
  · exact absurd ((if_neg notRead.symm).symm.trans raised) nofun

/-- The key of every passphrase but one on the concrete platform. -/
theorem Sample.key_other (salt : Bytes) {other : Text} (different : other ≠ ['a']) :
    (deriveKey Sample.platform other salt).key = List.replicate 32 2 := by
  refine congrArg (List.replicate 32) (if_neg fun same => different ?_)
  have decoded := congrArg decode same
  rw [decode_encode] at decoded
  exact Option.some.inj (decoded.trans (by decide))

/-- The sample's vault opens for the passphrase a only. -/
theorem Sample.rejects_others (typed : Set Text) : RejectsOthers Sample.platform typed ['a'] := by
  intro salt other _ different iv data
  have own : (deriveKey Sample.platform ['a'] salt).key = List.replicate 32 1 := rfl
  change List.replicate 4 ((deriveKey Sample.platform other salt).key.headD 0) ≠
    List.replicate 4 ((deriveKey Sample.platform ['a'] salt).key.headD 0)
  rw [Sample.key_other salt different, own]
  decide

/-- A locked vault with one secret. -/
def Sample.madeLocked : List Step := Sample.steps ['a'] [.boot, .add ['x'], .lock]

private theorem Sample.madeLocked_env : ∀ step ∈ Sample.madeLocked, step.env =
    Sample.env ['a'] := by
  intro step member
  obtain ⟨action, _, rfl⟩ := List.mem_map.mp member
  rfl

private theorem Sample.madeLocked_stored :
    saltOn Sample.platform (run Sample.platform .fresh Sample.madeLocked).sd = some Sample.salt ∧
    manifestOn Sample.platform (deriveKey Sample.platform ['a'] Sample.salt)
      (run Sample.platform .fresh Sample.madeLocked).sd = some Sample.listing := by
  decide +kernel

/-- A boot with another passphrase, and one at which the metadata cannot be read. -/
theorem step_spares_stored_meta :
    let early := Sample.steps ['b'] [.boot]
    let step : Step := ⟨.boot, Sample.failing ['a'] (.read .sd .metaFile) .raise⟩
    Spares Sample.platform ['a'] Sample.salt
      (deletionsOf Sample.platform (Sample.madeLocked ++ early ++ [step])) step.action
      (run Sample.platform .fresh (Sample.madeLocked ++ early))
      (run Sample.platform .fresh (Sample.madeLocked ++ early ++ [step])) := by
  refine step_spares_stored Sample.platform_lawful _ _ _ (fun _ _ => Sample.rejects_others _) ?_ ?_
    Sample.madeLocked_stored.1 Sample.madeLocked_stored.2 nofun
  · intro other member
    rw [Sample.madeLocked_env other member]
    have quiet := Sample.env_quiet ['a']
    exact ⟨quiet.readsRaise, quiet.not_missesManifest, Sample.env_types _⟩
  · intro other member
    rcases List.mem_append.mp member with early | last
    · obtain ⟨action, _, rfl⟩ := List.mem_map.mp early
      have quiet := Sample.env_quiet ['b']
      exact ⟨quiet.readsRaise, quiet.not_missesManifest⟩
    · rw [List.mem_singleton.mp last]
      exact ⟨Sample.failing_readsRaise _ (.inr ⟨_, rfl⟩), Sample.failing_reliable _ nofun nofun⟩

/-- A boot at which the manifest cannot be read, with another passphrase. -/
def Sample.blind : Step := ⟨.boot, Sample.failing ['b'] (.read .sd .manifestFile) .raise⟩

/-- An add after it. -/
def Sample.blindAdd : Step := ⟨.add ['y'], Sample.env ['b']⟩

/-- **A manifest that cannot be read costs the stored secrets**: another passphrase
opens the vault, and the next add writes over the first secret. -/
theorem unread_manifest_not_spared :
    (∀ step ∈ Sample.madeLocked ++ [Sample.blind, Sample.blindAdd], step.env.ReadsRaise) ∧
    ¬ Spares Sample.platform ['a'] Sample.salt
      (deletionsOf Sample.platform (Sample.madeLocked ++ [Sample.blind])) .boot
      (run Sample.platform .fresh Sample.madeLocked)
      (run Sample.platform .fresh (Sample.madeLocked ++ [Sample.blind])) ∧
    ¬ Spares Sample.platform ['a'] Sample.salt
      (deletionsOf Sample.platform (Sample.madeLocked ++ [Sample.blind, Sample.blindAdd]))
      (.add ['y']) (run Sample.platform .fresh (Sample.madeLocked ++ [Sample.blind]))
      (run Sample.platform .fresh (Sample.madeLocked ++ [Sample.blind, Sample.blindAdd])) := by
  refine ⟨?_, fun spares => ?_, fun spares => ?_⟩
  · intro step member
    rcases List.mem_append.mp member with early | late
    · rw [Sample.madeLocked_env step early]
      exact (Sample.env_quiet ['a']).readsRaise
    · rcases List.mem_cons.mp late with rfl | last
      · exact Sample.failing_readsRaise _ (.inr ⟨_, rfl⟩)
      · rw [List.mem_singleton.mp last]
        exact (Sample.env_quiet ['b']).readsRaise
  · have opened : (run Sample.platform .fresh Sample.madeLocked).vault = none ∧
        (run Sample.platform .fresh (Sample.madeLocked ++ [Sample.blind])).vault ≠ none ∧
        (run Sample.platform .fresh (Sample.madeLocked ++ [Sample.blind])).history =
          [.shown .strength, .typed .passphrase (some ['b'])] := by decide +kernel
    obtain ⟨rest, history⟩ := spares.unlock opened.1 opened.2.1
    rw [opened.2.2] at history
    cases history
  · have written : manifestOn Sample.platform (deriveKey Sample.platform ['a'] Sample.salt)
          (run Sample.platform .fresh (Sample.madeLocked ++ [Sample.blind])).sd =
            some Sample.listing ∧
        ((run Sample.platform .fresh (Sample.madeLocked ++ [Sample.blind])).sd.get
          (secretPath ['0', '0', '1'])).isSome = true ∧
        (run Sample.platform .fresh (Sample.madeLocked ++ [Sample.blind, Sample.blindAdd])).sd.get
          (secretPath ['0', '0', '1']) ≠
        (run Sample.platform .fresh (Sample.madeLocked ++ [Sample.blind])).sd.get
          (secretPath ['0', '0', '1']) := by decide +kernel
    obtain ⟨data, stored⟩ := Option.isSome_iff_exists.mp written.2.1
    rcases spares.files ['0', '0', '1'] data ⟨_, written.1, _, List.mem_cons_self, rfl⟩ stored with
      same | ⟨deleted, _⟩
    · exact written.2.2 (same.trans stored.symm)
    · cases deleted

end VaultSeed.Vault
