import VaultSeed.Vault.Atomicity
import VaultSeed.Vault.Reading

/-! # The passphrase of a vault is a confirmed one

A vault gets its passphrase when it is created, from two equal entries. But the
metadata are on the card before the passphrase is asked for: a creation that is
abandoned, or whose first manifest is not written, leaves a vault without a manifest,
and `load_manifest` opens such a vault with any passphrase. In all runs in which every
creation is brought to its end, everything in the vault is sealed under a confirmed
passphrase and no other passphrase opens it (`run_passphrase_confirmed`).
-/

namespace VaultSeed.Vault

open Python Effect

/-- Nothing fails but the saving of the manifest, which may raise. -/
def Env.SavesRaise (env : Env) : Prop := ∀ op count, env.fault op count = .none ∨
  (env.fault op count = .raise ∧ op.Mirrors .manifestFile)

/-- A creation that the user agrees to is brought to its end: a passphrase is entered
twice, and the file of the first manifest is opened. -/
def CompletesCreation (device : Device) (step : Step) : Prop :=
  step.action = .boot → device.sd.get .metaFile = none →
  (∃ count, step.env.answer .createNewVault count = true) →
  (∃ passphrase, step.env.Chooses passphrase 0 step.env.patience) ∧
    ¬ step.env.Raising (.mount (.writeWithMirror .manifestFile)) ∧
    ¬ step.env.Raising (.openWrite .sd .manifestFile)

/-- Media whose envelopes are as before, emptied, or sealed anew. -/
structure Resealed (platform : Platform) (cipher : Kef.Cipher) (before after : Media) : Prop where
  salted : after.sd.get .metaFile = before.sd.get .metaFile
  hasDir : ∀ dir, after.sd.hasDir dir = before.sd.hasDir dir
  content : ∀ disk path data, (after.disk disk).get path = some data →
    (before.disk disk).get path = some data ∨ data = [] ∨
      ∃ id plaintext, Seals platform cipher id plaintext data
  manifest : before.sd.get .manifestFile ≠ none → after.sd.get .manifestFile ≠ none

variable {platform : Platform} {env : Env} {cipher : Kef.Cipher}

namespace Resealed

private theorem refl (media : Media) : Resealed platform cipher media media :=
  ⟨rfl, fun _ => rfl, fun _ _ _ stored => .inl stored, id⟩

private theorem trans {first second third : Media} (begins : Resealed platform cipher first second)
    (continues : Resealed platform cipher second third) : Resealed platform cipher first third := by
  refine ⟨continues.salted.trans begins.salted, fun dir => (continues.hasDir dir).trans
    (begins.hasDir dir), fun disk path data stored => ?_, fun present =>
      continues.manifest (begins.manifest present)⟩
  rcases continues.content disk path data stored with earlier | new
  · exact begins.content disk path data earlier
  · exact .inr new

end Resealed

/-- Without a power cut a write leaves a file as it was, empty, or whole. -/
theorem Wrote.content (uncut : env.Uncut) {device : Device} {disk : Disk} {path other : Path}
    {data content : Bytes} {before after : Medium} {outcome : Outcome Exn Unit}
    (wrote : Wrote (env.fate device) disk path data before outcome after)
    (stored : after.get other = some content) :
    before.get other = some content ∨ content = [] ∨ content = data := by
  have put : ∀ {written : Bytes}, (before.put path written).get other = some content →
      before.get other = some content ∨ content = written := by
    intro written stored
    rw [Medium.get_put] at stored
    split at stored
    · cases stored
      exact .inr rfl
    · exact .inl stored
  cases wrote with
  | refused => exact .inl stored
  | torn stops _ _ _ cause =>
      obtain ⟨rfl, _⟩ := stops.raised_of_uncut uncut cause
      exact (put stored).imp id fun same => .inl same
  | done => exact (put stored).imp id .inr

private theorem Mirrored.resealed (uncut : env.Uncut) {device : Device} {path : Path}
    {envelope : Bytes}
    {id plaintext : Bytes} {before after : Media} {outcome : Outcome Exn Unit}
    (seals : Seals platform cipher id plaintext envelope) (notMeta : path ≠ .metaFile)
    (mirrored : Mirrored (env.fate device) path envelope before outcome after) :
    Resealed platform cipher before after := by
  have sealed : ∀ {disk other content outcome} {first last : Medium},
      Wrote (env.fate device) disk path envelope first outcome last →
      last.get other = some content → first.get other = some content ∨ content = [] ∨
        ∃ id plaintext, Seals platform cipher id plaintext content := by
    intro disk other content outcome first last wrote stored
    rcases wrote.content uncut stored with earlier | empty | whole
    · exact .inl earlier
    · exact .inr (.inl empty)
    · exact .inr (.inr ⟨id, plaintext, whole ▸ seals⟩)
  refine ⟨mirrored.get_of_ne .sd notMeta.symm, mirrored.hasDir .sd, ?_, ?_⟩
  · intro disk other content stored
    cases mirrored with
    | unmounted => exact .inl stored
    | failed mounted primary =>
        cases disk with
        | sd => exact sealed primary stored
        | flash => exact .inl stored
    | written mounted primary mirror =>
        cases disk with
        | sd => exact sealed primary stored
        | flash => exact sealed mirror stored
  · intro present
    by_cases same : path = .manifestFile
    · rcases mirrored.get_path .sd with kept | ⟨left, put⟩
      · rw [same] at kept
        exact fun absent => present (kept.symm.trans absent)
      · rw [same] at put
        exact fun absent => by cases put.symm.trans absent
    · exact fun absent => present ((mirrored.get_of_ne .sd (Ne.symm same)).symm.trans absent)

private theorem Saved.resealed (uncut : env.Uncut) {device after : Device} {path : Path}
    {id plaintext : Bytes} {outcome : Outcome Exn Unit} (notMeta : path ≠ .metaFile)
    (saved : Saved env platform cipher id path plaintext device outcome after) :
    Resealed platform cipher device.toMedia after.toMedia := by
  cases saved with
  | refused => exact .refl _
  | mirrored sealed _ mirrored => exact mirrored.resealed uncut (Saved.seals sealed) notMeta

private theorem Removed.get_eq_some {fate : FileOp → Fault} {disk : Disk} {path other : Path}
    {before after : Medium} {outcome : Outcome Exn Unit} {data : Bytes}
    (removed : Removed fate disk path before outcome after) (stored : after.get other = some data) :
    before.get other = some data := by
  cases removed with
  | kept => exact stored
  | cut => exact stored
  | gone =>
      rw [Medium.get_erase] at stored
      split at stored
      · cases stored
      · exact stored

private theorem Deleted.resealed {fate : FileOp → Fault} {secretId : Text} {before after : Media}
    {outcome : Outcome Exn Unit}
    (deleted : Deleted fate (secretPath secretId) before outcome after) :
    Resealed platform cipher before after := by
  have salted := deleted.get_of_ne .sd (show Path.metaFile ≠ secretPath secretId by simp)
  have listing := deleted.get_of_ne .sd (show Path.manifestFile ≠ secretPath secretId by simp)
  cases deleted with
  | cut => exact .refl _
  | removed primary mirror =>
      refine ⟨salted, ?_, ?_, fun present absent => present (listing.symm.trans absent)⟩
      · cases primary with
        | kept => exact fun _ => rfl
        | gone => exact fun dir => Medium.hasDir_erase _ dir
      · intro disk path data stored
        cases disk with
        | sd => exact .inl (primary.get_eq_some stored)
        | flash => exact .inl (mirror.get_eq_some stored)

section Perform

variable {device : Device} {vault : VaultState}

/-- What an add does to the envelopes. -/
theorem perform_add_resealed (platform : Platform) (uncut : env.Uncut)
    (unlocked : device.vault = some vault) (text : Text) :
    Resealed platform vault.cipher device.toMedia
      (perform platform device ⟨.add text, env⟩).toMedia ∧
    ∀ state, (perform platform device ⟨.add text, env⟩).vault = some state →
      state.cipher = vault.cipher := by
  rcases perform_add platform env text unlocked with
    declined | ⟨start, label, outcome, final, talked, stored, ended⟩
  · rw [declined.media, declined.vault, unlocked]
    exact ⟨.refl _, fun state same => by cases same; rfl⟩
  have known : start.vault = some vault := talked.vault.trans unlocked
  have media : device.toMedia = start.toMedia := talked.media.symm
  rw [ended.media, media]
  have relocked : ∀ {held : VaultState}, final.vault = some held → held.cipher = vault.cipher →
      ∀ state, (perform platform device ⟨.add text, env⟩).vault = some state →
        state.cipher = vault.cipher := by
    intro held same key state unlocked
    rcases ended.vault_cases same with none | some
    · rw [none] at unlocked
      cases unlocked
    · rw [some] at unlocked
      cases unlocked
      exact key
  cases stored with
  | noId => exact ⟨.refl _, relocked known rfl⟩
  | secretFailed _ secret _ =>
      exact ⟨secret.resealed uncut (by simp), relocked (secret.vault.trans known) rfl⟩
  | saved _ secret _ stored =>
      rw [finish_toMedia]
      have second := stored.resealed uncut (show Path.manifestFile ≠ .metaFile from nofun)
      exact ⟨(secret.resealed uncut (by simp)).trans second,
        relocked ((finish_vault _ _ _).trans stored.vault) rfl⟩

/-- What a deletion does to the envelopes. -/
theorem perform_delete_resealed (platform : Platform) (uncut : env.Uncut)
    (unlocked : device.vault = some vault) (secretId : Text) :
    Resealed platform vault.cipher device.toMedia
      (perform platform device ⟨.delete secretId, env⟩).toMedia ∧
    ∀ state, (perform platform device ⟨.delete secretId, env⟩).vault = some state →
      state.cipher = vault.cipher := by
  rcases perform_delete platform env secretId unlocked with
    declined | ⟨start, outcome, final, _, talked, erased, ended⟩
  · rw [declined.media, declined.vault, unlocked]
    exact ⟨.refl _, fun state same => by cases same; rfl⟩
  have media : device.toMedia = start.toMedia := talked.media.symm
  rw [ended.media, media]
  cases erased with
  | cut alike deleted =>
      refine ⟨deleted.resealed, fun state unlocked => ?_⟩
      rw [ended.vault, if_pos rfl] at unlocked
      cases unlocked
  | saved alike deleted _ stored =>
      rw [finish_toMedia]
      have second := stored.resealed uncut (show Path.manifestFile ≠ .metaFile from nofun)
      refine ⟨deleted.resealed.trans second, fun state unlocked => ?_⟩
      rcases ended.vault_cases ((finish_vault _ _ _).trans stored.vault) with none | some
      · rw [none] at unlocked
        cases unlocked
      · rw [some] at unlocked
        cases unlocked
        rfl

end Perform

/-- The passphrases that were confirmed in the boots of a run. -/
def noteConfirmed (confirmed : Set Text) (_before : Device) (_step : Step) (after : Device) :
    Set Text :=
  confirmed ∪ { passphrase | ConfirmedIn passphrase after.history }

section Invariant

variable (platform : Platform) (typed : Set Text)

/-- A vault that is sealed under a confirmed passphrase, and rejects the others that are
typed. -/
structure Confirmed (device : Device) (confirmed : Set Text) (salt : Bytes) (passphrase : Text) :
    Prop where
  confirmed : passphrase ∈ confirmed
  salted : device.sd.get .metaFile = some (metaData platform salt)
  rejects : RejectsOthers platform typed passphrase
  manifest : device.sd.get .manifestFile ≠ none
  content : ∀ disk path data, path ≠ .metaFile → (device.disk disk).get path = some data →
    data = [] ∨ ∃ id plaintext,
      Seals platform (deriveKey platform passphrase salt) id plaintext data
  vault : ∀ vault, device.vault = some vault → vault.cipher = deriveKey platform passphrase salt

/-- **The invariant of confirmed passphrases**: no vault yet, or a confirmed one. -/
inductive ConfirmedInvariant (device : Device) (confirmed : Set Text) : Prop where
  | blank (absent : ∀ disk path, (device.disk disk).get path = none) (locked : device.vault = none)
  | vault (salt : Bytes) (passphrase : Text)
      (held : Confirmed platform typed device confirmed salt passphrase)

end Invariant

private theorem Env.SavesRaise.spares {op : FileOp} (saves : env.SavesRaise)
    (other : ¬ op.Mirrors .manifestFile) (count : Nat) : env.fault op count = .none :=
  (saves op count).resolve_right fun raised => other raised.2

private theorem Env.SavesRaise.uncut (saves : env.SavesRaise) : env.Uncut := by
  intro op count left cut
  rcases saves op count with spared | ⟨raised, _⟩
  · rw [spared] at cut
    cases cut
  · rw [raised] at cut
    cases cut

private theorem Env.SavesRaise.sees (saves : env.SavesRaise) : env.SeesMeta := by
  intro disk count raised
  rw [saves.spares (by simp [FileOp.Mirrors, FileOp.Writes])] at raised
  cases raised

private theorem Env.SavesRaise.not_missesManifest (saves : env.SavesRaise) :
    ¬ env.MissesManifest := by
  rintro (⟨count, raised⟩ | ⟨count, raised⟩)
  all_goals
    rw [saves.spares (by simp [FileOp.Mirrors, FileOp.Writes])] at raised
    cases raised

section Steps

variable {device result : Device} {typed confirmed later : Set Text} {salt : Bytes}
variable {passphrase : Text}

/-- A step that keeps the vault sealed under its passphrase. -/
theorem Confirmed.resealed (held : Confirmed platform typed device confirmed salt passphrase)
    (more : confirmed ⊆ later)
    (resealed : Resealed platform (deriveKey platform passphrase salt) device.toMedia
      result.toMedia)
    (vault : ∀ vault, result.vault = some vault →
      vault.cipher = deriveKey platform passphrase salt) :
    Confirmed platform typed result later salt passphrase := by
  refine ⟨more held.confirmed, resealed.salted.trans held.salted, held.rejects,
    resealed.manifest held.manifest, fun disk path data notMeta stored => ?_, vault⟩
  rcases resealed.content disk path data stored with earlier | new
  · exact held.content disk path data notMeta earlier
  · exact new

/-- Only the passphrase of a confirmed vault opens it. -/
theorem Confirmed.opened (lawful : platform.Lawful)
    (held : Confirmed platform typed device confirmed salt passphrase)
    (within : env.typed ⊆ typed) (reliable : ¬ env.MissesManifest)
    {salt' : Bytes} {entered : Text} {manifest : Manifest}
    (opened : Opened platform env device result salt' entered manifest) :
    salt' = salt ∧ entered = passphrase := by
  have salted := opened.salted
  rw [saltOn_of_meta lawful held.salted] at salted
  cases salted
  refine ⟨rfl, ?_⟩
  by_contra other
  have read := opened.reads.resolve_right fun missed => reliable missed.2
  obtain ⟨data, stored⟩ := Option.ne_none_iff_exists'.mp held.manifest
  rw [manifestOn_of_some stored] at read
  rcases held.content .sd .manifestFile data nofun stored with rfl | ⟨id, plaintext, seals⟩
  · cases read
  · rw [seals.decodeManifest_rejected lawful.inverts (length_deriveKey lawful _ _)
      (length_deriveKey lawful _ _) (held.rejects salt entered (within opened.typed) other)] at read
    cases read

/-- A boot with a confirmed vault. -/
theorem Confirmed.perform_boot (lawful : platform.Lawful) (saves : env.SavesRaise)
    (within : env.typed ⊆ typed)
    (held : Confirmed platform typed device confirmed salt passphrase) (more : confirmed ⊆ later)
    (locked : device.vault = none) :
    Confirmed platform typed (perform platform device ⟨.boot, env⟩) later salt passphrase := by
  rcases perform_boot_present platform saves.sees held.salted locked with
    still | ⟨salt', entered, manifest, opened⟩
  · refine held.resealed more (still.media ▸ .refl _) fun vault unlocked => ?_
    exact held.vault vault (still.vault ▸ unlocked)
  · obtain ⟨rfl, rfl⟩ := held.opened lawful within saves.not_missesManifest opened
    refine held.resealed more (opened.media ▸ .refl _) fun vault unlocked => ?_
    rw [opened.vault] at unlocked
    cases unlocked
    rfl

/-- The first manifest of a vault whose creation is brought to its end. -/
theorem Keyed.confirmed_vault (lawful : platform.Lawful) (uncut : env.Uncut) {start final : Device}
    {inner : Outcome Exn Unit} (salted : start.sd.get .metaFile = some (metaData platform salt))
    (ready : start.sd.Ready)
    (others : ∀ disk path, path ≠ .metaFile → (start.disk disk).get path = none)
    (locked : start.vault = none)
    (mounts : ¬ env.Raising (.mount (.writeWithMirror .manifestFile)))
    (opens : ¬ env.Raising (.openWrite .sd .manifestFile))
    (rejects : RejectsOthers platform typed passphrase)
    (keyed : Keyed platform env salt passphrase start inner final result) :
    ∀ state, (state = none ∨ state = result.vault) →
      Confirmed platform typed { result with vault := state }
        { other | ConfirmedIn other result.history } salt passphrase := by
  intro state states
  have resealed := keyed.saved.resealed uncut (show Path.manifestFile ≠ .metaFile by simp)
  have spared : ∀ op, ¬ env.Raising op → env.fate start op = .none := by
    intro op calm
    cases fate : env.fate start op with
    | none => rfl
    | raise => exact absurd ⟨_, fate⟩ calm
    | cut left => exact absurd fate (uncut _ _ _)
  have media : result.toMedia = final.toMedia := keyed.media
  refine ⟨keyed.confirmed, ?_, rejects, ?_, ?_, ?_⟩
  · change result.sd.get .metaFile = _
    rw [media, resealed.salted, salted]
  · change result.sd.get .manifestFile ≠ none
    rw [media]
    cases keyed.saved with
    | refused refusal =>
        exact absurd refusal (sealEnvelope_manifest_ne_error (length_deriveKey lawful _ _)
          (length_vector env start) _)
    | mirrored sealed _ mirrored =>
        rcases mirrored.of_uncut uncut (sealEnvelope_ne_nil sealed) with
          ⟨refused, _⟩ | ⟨_, _, put⟩ | ⟨_, _, put⟩
        · simp [writeEnd, WriteEnd.of, spared _ mounts, spared _ opens, ready.hasDir] at refused
          split at refused <;> cases refused
        · rw [put, Medium.get_put_self]
          simp
        · rw [put, Medium.get_put_self]
          simp
  · intro disk path data notMeta stored
    change (result.toMedia.disk disk).get path = some data at stored
    rw [media] at stored
    refine (resealed.content disk path data stored).resolve_left fun earlier => ?_
    rw [others disk path notMeta] at earlier
    cases earlier
  · intro vault unlocked
    change state = some vault at unlocked
    rcases states with none | same
    · rw [none] at unlocked
      cases unlocked
    · rw [same, keyed.vault] at unlocked
      cases inner with
      | ok =>
          cases unlocked
          rfl
      | raised =>
          exact absurd (locked.symm.trans unlocked) (by simp)
      | off =>
          exact absurd (locked.symm.trans unlocked) (by simp)

/-- A boot with a card without files whose creation is brought to its end. -/
theorem ConfirmedInvariant.of_blank (lawful : platform.Lawful) (saves : env.SavesRaise)
    (completes : CompletesCreation device ⟨.boot, env⟩)
    (rejects : ∀ passphrase, env.Chooses passphrase 0 env.patience →
      RejectsOthers platform typed passphrase)
    (absent : ∀ disk path, (device.disk disk).get path = none) (locked : device.vault = none)
    (more : { other | ConfirmedIn other (perform platform device ⟨.boot, env⟩).history } ⊆ later) :
    ConfirmedInvariant platform typed (perform platform device ⟨.boot, env⟩) later := by
  rcases perform_boot platform saves.sees (fun _ => absent .flash .metaFile) locked with
    still | ⟨salt, entered, manifest, opened⟩ | ⟨missing, agreed, outcome, after, created, media,
      vault, history⟩
  · exact .blank (fun disk path => by rw [still.media, absent]) (still.vault.trans locked)
  · have salted := opened.salted
    simp [saltOn, show device.sd.get .metaFile = none from absent .sd .metaFile] at salted
  obtain ⟨⟨chosen, chooses⟩, mounts, opens⟩ := completes rfl missing agreed
  cases created with
  | unprepared same _ =>
      refine .blank (fun disk path => ?_) ?_
      · rw [media, same.get, absent]
      · rw [vault, same.vault, locked, ite_self]
  | uninitialized initialized notDone _ =>
      have spared : ∀ op, ¬ op.Mirrors .manifestFile → ∀ device, env.fate device op = .none :=
        fun op other device => saves.spares other _
      rcases initialized.mirrored.of_clean (fun disk =>
          ⟨spared _ (by simp [FileOp.Mirrors, FileOp.Writes]) _,
            spared _ (by simp [FileOp.Mirrors, FileOp.Writes]) _⟩)
          ((initialized.ready .sd).hasDir _) with ⟨_, _, fault⟩ | ⟨done, _⟩
      · exact absurd (spared _ (by simp [FileOp.Mirrors, FileOp.Writes]) _) fault
      · exact absurd done notDone
  | abandoned _ _ never => exact absurd chooses (never chosen)
  | @keyed salt middle start final _ passphrase inner initialized _ chooses keyed ended =>
      have sd : start.sd = middle.sd.put .metaFile (metaData platform salt) :=
        initialized.mirrored.sd_eq_put
      have held := keyed.confirmed_vault lawful saves.uncut
        (by rw [sd, Medium.get_put_self]) (by rw [sd]; exact initialized.ready .sd)
        (fun disk path notMeta => by
          rw [initialized.mirrored.get_of_ne disk notMeta]
          exact (initialized.prepared.get disk path).trans (absent disk path))
        (initialized.vault.trans locked) mounts opens (rejects passphrase chooses)
        (perform platform device ⟨.boot, env⟩).vault (by
          rw [vault]
          split
          · exact .inl rfl
          · exact .inr rfl)
      refine .vault salt passphrase ⟨more ?_, ?_, held.rejects, ?_, ?_, held.vault⟩
      · exact history ▸ held.confirmed
      · rw [media]
        exact held.salted
      · rw [media]
        exact held.manifest
      · rw [media]
        exact held.content

/-- **One step keeps the invariant of confirmed passphrases.** -/
theorem ConfirmedInvariant.step (lawful : platform.Lawful) {step : Step}
    (saves : step.env.SavesRaise) (completes : CompletesCreation device step)
    (within : step.env.typed ⊆ typed)
    (rejects : ∀ passphrase, step.env.Chooses passphrase 0 step.env.patience →
      RejectsOthers platform typed passphrase)
    (kept : ConfirmedInvariant platform typed device confirmed) :
    ConfirmedInvariant platform typed (perform platform device step)
      (noteConfirmed confirmed device step (perform platform device step)) := by
  cases kept with
  | blank absent locked =>
      refine perform_cases (fun result => ConfirmedInvariant platform typed result
        (noteConfirmed confirmed device step result)) step ?_ ?_ ?_ ?_ ?_
      · exact .blank absent locked
      · intro action _
        refine .of_blank lawful saves (fun _ => completes action) rejects absent locked ?_
        exact Set.subset_union_right
      · intro vault _ _ unlocked
        exact absurd (locked.symm.trans unlocked) nofun
      · intro vault _ _ unlocked
        exact absurd (locked.symm.trans unlocked) nofun
      · exact .blank absent rfl
  | vault salt passphrase held =>
      have more : ∀ result, confirmed ⊆ noteConfirmed confirmed device step result :=
        fun _ => Set.subset_union_left
      refine perform_cases (fun result => ConfirmedInvariant platform typed result
        (noteConfirmed confirmed device step result)) step ?_ ?_ ?_ ?_ ?_
      · exact .vault salt passphrase (held.resealed (more _) (.refl _) held.vault)
      · intro _ locked
        exact .vault salt passphrase (held.perform_boot lawful saves within (more _) locked)
      · intro vault text _ unlocked
        obtain ⟨resealed, key⟩ := perform_add_resealed platform saves.uncut unlocked text
        rw [held.vault vault unlocked] at resealed key
        exact .vault salt passphrase (held.resealed (more _) resealed key)
      · intro vault secretId _ unlocked
        obtain ⟨resealed, key⟩ := perform_delete_resealed platform saves.uncut unlocked secretId
        rw [held.vault vault unlocked] at resealed key
        exact .vault salt passphrase (held.resealed (more _) resealed key)
      · exact .vault salt passphrase (held.resealed (more _) (.refl _) nofun)

end Steps

/-- The passphrases confirmed in a run from a device without a vault. -/
def confirmedOf (platform : Platform) (steps : List Step) : Set Text :=
  (Runs.track (perform platform) noteConfirmed (Device.fresh, ∅) steps).2

/-- The invariant of confirmed passphrases holds along a run, with all that is typed in it. -/
theorem confirmedInvariant_run (lawful : platform.Lawful) {typed : Set Text} (steps : List Step)
    (along : Runs.Along (perform platform) (fun device step =>
      step.env.SavesRaise ∧ CompletesCreation device step) .fresh steps)
    (rejects : ∀ step ∈ steps, step.env.typed ⊆ typed ∧
      ∀ passphrase, step.env.Chooses passphrase 0 step.env.patience →
        RejectsOthers platform typed passphrase) :
    ConfirmedInvariant platform typed (run platform .fresh steps)
      (confirmedOf platform steps) := by
  have kept : ConfirmedInvariant platform typed
      (Runs.track (perform platform) noteConfirmed (Device.fresh, ∅) steps).1
      (confirmedOf platform steps) := by
    refine Runs.track_invariant (fun device confirmed step allowed kept =>
      kept.step lawful allowed.1.1 allowed.1.2 allowed.2.1 allowed.2.2) _ _
        (along.and_forall rejects) ?_
    exact .blank (fun disk path => by cases disk <;> rfl) rfl
  rwa [Runs.track_fst] at kept

/-- **The passphrase of a vault is a confirmed one**, in every run in which each
creation is brought to its end: whatever is in a file of the vault is sealed under a
passphrase that was entered twice, and a restart opens the vault with such a passphrase
only. -/
theorem run_passphrase_confirmed (lawful : platform.Lawful) (steps : List Step)
    (along : Runs.Along (perform platform) (fun device step =>
      step.env.SavesRaise ∧ CompletesCreation device step) .fresh steps)
    (rejects : ∀ maker ∈ steps, ∀ passphrase,
      maker.env.Chooses passphrase 0 maker.env.patience →
      ∀ step ∈ steps, RejectsOthers platform step.env.typed passphrase) :
    (∀ disk path data, path ≠ .metaFile →
      ((run platform .fresh steps).disk disk).get path = some data →
      data = [] ∨ ∃ passphrase ∈ confirmedOf platform steps, ∃ salt id plaintext,
        saltOn platform (run platform .fresh steps).sd = some salt ∧
        Seals platform (deriveKey platform passphrase salt) id plaintext data) ∧
    ∀ env : Env, env.SavesRaise → (run platform .fresh steps).sd.get .metaFile ≠ none →
      (∀ maker ∈ steps, ∀ passphrase, maker.env.Chooses passphrase 0 maker.env.patience →
        RejectsOthers platform env.typed passphrase) →
      let booted := perform platform (run platform .fresh steps).restarted ⟨.boot, env⟩
      booted.vault ≠ none → ∃ passphrase ∈ confirmedOf platform steps, ∃ rest,
        booted.history = .shown .strength :: .typed .passphrase (some passphrase) :: rest := by
  refine ⟨fun disk path data notMeta stored => ?_, fun env saves present later unlocked => ?_⟩
  · have kept := @confirmedInvariant_run platform lawful
      { entry | ∃ step ∈ steps, entry ∈ step.env.typed } steps along fun maker member =>
        ⟨fun _ entered => ⟨maker, member, entered⟩, fun passphrase chooses salt other entered =>
          have ⟨step, inside, typed⟩ := entered
          rejects maker member passphrase chooses step inside salt other typed⟩
    cases kept with
    | blank absent locked => exact absurd ((absent disk path).symm.trans stored) nofun
    | vault salt passphrase held =>
        refine (held.content disk path data notMeta stored).imp id ?_
        rintro ⟨id, plaintext, seals⟩
        exact ⟨passphrase, held.confirmed, salt, id, plaintext, saltOn_of_meta lawful held.salted,
          seals⟩
  · have kept := @confirmedInvariant_run platform lawful
      ({ entry | ∃ step ∈ steps, entry ∈ step.env.typed } ∪ env.typed) steps along
      fun maker member =>
        ⟨fun _ entered => .inl ⟨maker, member, entered⟩,
          fun passphrase chooses salt other entered =>
          entered.elim (fun ⟨step, inside, typed⟩ =>
            rejects maker member passphrase chooses step inside salt other typed)
            (later maker member passphrase chooses salt other)⟩
    cases kept with
    | blank absent locked => exact absurd (absent .sd .metaFile) present
    | vault salt passphrase held =>
        have restarted : Confirmed platform _ (run platform .fresh steps).restarted
            (confirmedOf platform steps) salt passphrase := held.resealed subset_rfl (.refl _) nofun
        rcases perform_boot_present platform saves.sees restarted.salted rfl with
          still | ⟨salt', entered, manifest, opened⟩
        · exact absurd still.vault unlocked
        · obtain ⟨rfl, rfl⟩ := restarted.opened lawful Set.subset_union_right
            saves.not_missesManifest opened
          exact ⟨entered, held.confirmed, opened.history⟩

private theorem Env.Quiet.savesRaise (quiet : env.Quiet) : env.SavesRaise := fun _ _ =>
    .inl (quiet _ _)

private theorem Sample.failing_savesRaise (entry : Text) {op : FileOp}
    (saving : op.Mirrors .manifestFile) :
    (Sample.failing entry op .raise).SavesRaise := by
  intro other count
  by_cases same : other = op
  · subst same
    exact .inr ⟨if_pos rfl, saving⟩
  · exact .inl (if_neg same)

/-- A vault made with a confirmed passphrase, and an add that fails to save. -/
def Sample.confirmedSteps : List Step :=
  Sample.steps ['a'] [.boot, .add ['x']] ++
    [⟨.add ['y'], Sample.failing ['a'] (.write .sd .manifestFile) .raise⟩]

/-- The vault made with a confirmed passphrase. -/
theorem run_passphrase_confirmed_failing :
    (∀ disk path data, path ≠ .metaFile →
      ((run Sample.platform .fresh Sample.confirmedSteps).disk disk).get path = some data →
      data = [] ∨ ∃ passphrase ∈ confirmedOf Sample.platform Sample.confirmedSteps,
        ∃ salt id plaintext,
          saltOn Sample.platform (run Sample.platform .fresh Sample.confirmedSteps).sd = some salt ∧
          Seals Sample.platform (deriveKey Sample.platform passphrase salt) id plaintext data) ∧
    ∀ env : Env, env.SavesRaise →
      (run Sample.platform .fresh Sample.confirmedSteps).sd.get .metaFile ≠ none →
      (∀ maker ∈ Sample.confirmedSteps, ∀ passphrase,
        maker.env.Chooses passphrase 0 maker.env.patience →
        RejectsOthers Sample.platform env.typed passphrase) →
      let booted := perform Sample.platform
        (run Sample.platform .fresh Sample.confirmedSteps).restarted ⟨.boot, env⟩
      booted.vault ≠ none → ∃ passphrase ∈ confirmedOf Sample.platform Sample.confirmedSteps,
        ∃ rest, booted.history = .shown .strength ::
          .typed .passphrase (some passphrase) :: rest := by
  have quiet := Sample.env_quiet ['a']
  have calm : ∀ op, ¬ (Sample.env ['a']).Raising op := by
    rintro op ⟨count, raised⟩
    exact absurd ((quiet op count).symm.trans raised) nofun
  refine run_passphrase_confirmed Sample.platform_lawful _
    (Runs.along_of_forall _ _ fun step member device => ?_) fun step member passphrase chooses => ?_
  · rcases List.mem_append.mp member with early | last
    · obtain ⟨action, _, rfl⟩ := List.mem_map.mp early
      refine ⟨quiet.savesRaise, fun _ _ _ => ⟨⟨['a'], ?_⟩, calm _, calm _⟩⟩
      exact ⟨['a'], ['a'], rfl, rfl, .inl ⟨rfl, rfl⟩⟩
    · rw [List.mem_singleton.mp last]
      exact ⟨Sample.failing_savesRaise _ (.inr ⟨.sd, .inr rfl⟩), nofun⟩
  · have types : step.env.Types ['a'] := by
      rcases List.mem_append.mp member with early | last
      · obtain ⟨action, _, rfl⟩ := List.mem_map.mp early
        exact Sample.env_types _
      · rw [List.mem_singleton.mp last]
        exact Sample.env_types _
    rw [types.chooses chooses]
    exact fun _ _ => Sample.rejects_others _

/-- A creation that is abandoned at the passphrase. -/
def Sample.abandoned : List Step := [⟨.boot, Sample.env []⟩]

/-- **An abandoned creation leaves a vault that any passphrase opens.** -/
theorem abandoned_creation_opens :
    (∀ step ∈ Sample.abandoned, step.env.SavesRaise) ∧
    (run Sample.platform .fresh Sample.abandoned).sd.get .metaFile ≠ none ∧
    let booted := perform Sample.platform (run Sample.platform .fresh Sample.abandoned).restarted
      ⟨.boot, Sample.env ['b']⟩
    booted.vault ≠ none ∧ ¬ ∃ passphrase ∈ confirmedOf Sample.platform Sample.abandoned, ∃ rest,
      booted.history = .shown .strength :: .typed .passphrase (some passphrase) :: rest := by
  have opened : (run Sample.platform .fresh Sample.abandoned).sd.get .metaFile ≠ none ∧
      (perform Sample.platform (run Sample.platform .fresh Sample.abandoned).restarted
        ⟨.boot, Sample.env ['b']⟩).vault ≠ none ∧
      (perform Sample.platform (run Sample.platform .fresh Sample.abandoned).restarted
        ⟨.boot, Sample.env ['b']⟩).history = [.shown .strength, .typed .passphrase (some ['b'])] ∧
      (run Sample.platform .fresh Sample.abandoned).history.countP
        (Event.isTyped .confirmPassphrase) = 0 := by decide +kernel
  refine ⟨?_, opened.1, opened.2.1, ?_⟩
  · intro step member
    rw [List.mem_singleton.mp member]
    exact (Sample.env_quiet []).savesRaise
  · rintro ⟨passphrase, confirmed | confirmed, _⟩
    · exact confirmed
    · have typed : .typed .confirmPassphrase (some passphrase) ∈
          (run Sample.platform .fresh Sample.abandoned).history :=
        confirmed.subset List.mem_cons_self
      exact List.countP_eq_zero.mp opened.2.2.2 _ typed rfl

end VaultSeed.Vault
