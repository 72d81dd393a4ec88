import VaultSeed.Vault.Mirror

/-! # Recovery from a torn write

A power cut in the middle of a write leaves a part of the file on the card, while flash
still has the file whole. The unlock page offers the restore only when `vault.meta` is
missing on the card; but a vault in RAM and a manifest on the card always come with it
(`Vouched`), and the torn file is there as well. So flash is not read any more after such
a cut, and the vault comes back exactly when what is left on the card is read by itself
(`recovers_iff`).
-/

namespace VaultSeed.Vault

open Python Effect Proc

variable {platform : Platform} {env : Env} {before after : Device}

/-- The card has metadata, whole or torn. -/
def Marked (device : Device) : Prop := device.sd.get .metaFile ≠ none

/-- A vault in RAM and a manifest on the card come with metadata on the card. -/
def Vouched (device : Device) : Prop :=
  device.vault ≠ none ∨ device.sd.get .manifestFile ≠ none → Marked device

private theorem Marked.vouched (marked : Marked before) : Vouched before := fun _ => marked

private theorem Marked.of_get (marked : Marked before)
    (get : after.sd.get .metaFile = before.sd.get .metaFile) : Marked after := by
  unfold Marked
  rw [get]
  exact marked

private theorem Marked.sheltered : Sheltered Marked Vouched :=
  ⟨fun marked same => marked.of_get (same.get .sd .metaFile), fun _ => Marked.vouched⟩

private theorem Vouched.of_sameFiles (vouched : Vouched before) (same : SameFiles before after) :
    Vouched after := by
  have listing : after.sd.get .manifestFile = before.sd.get .manifestFile :=
    same.get .sd .manifestFile
  intro there
  rw [same.vault, listing] at there
  exact (vouched there).of_get (same.get .sd .metaFile)

private theorem Vouched.sheltered : Sheltered Vouched Vouched :=
  ⟨fun vouched same => vouched.of_sameFiles same, fun _ => id⟩

/-- A write to the card takes no metadata away. -/
theorem Marked.of_wrote {fate : FileOp → Fault} {path : Path} {data : Bytes}
    {outcome : Outcome Exn Unit} (marked : Marked before)
    (wrote : Wrote fate .sd path data before.sd outcome after.sd) : Marked after := by
  by_cases same : path = .metaFile
  · subst same
    rcases wrote.get_path with kept | ⟨left, put⟩
    · exact marked.of_get kept
    · simp [Marked, put]
  · exact marked.of_get (wrote.get_of_ne (Ne.symm same))

private theorem writeFile_marked (path : Path) (data : Bytes) :
    Guards Marked Vouched (writeFile env .sd path data) := by
  intro device marked
  refine (writeFile_wrote env .sd path data device).mono ?_
  rintro outcome after ⟨_, medium, media, wrote⟩
  have card : after.sd = medium := by rw [media]; rfl
  apply guarded_of_kept fun _ => Marked.vouched
  exact marked.of_wrote (card ▸ wrote)

/-- A copy from flash takes no metadata away. -/
theorem copyFile_marked (caller : Option Caller) (path : Path) :
    Guards Marked Vouched (copyFile env caller path) := by
  apply (Marked.sheltered.looks (read_looks .flash path)).bind
  intro data
  have mounts : Looks (mounting env caller) := by
    cases caller with
    | none => exact Looks.pure ()
    | some caller => exact mount_looks caller
  apply (Marked.sheltered.looks mounts).bind
  exact fun _ => writeFile_marked path data

/-- A file of which the write began is there; otherwise the medium is as it was. -/
theorem Wrote.began {fate : FileOp → Fault} {disk : Disk} {path : Path} {data : Bytes}
    {first last : Medium} {outcome : Outcome Exn Unit}
    (wrote : Wrote fate disk path data first outcome last) :
    (last = first ∧ outcome ≠ .ok ()) ∨ last.get path ≠ none := by
  cases wrote with
  | refused stops => exact .inl ⟨rfl, by cases stops <;> simp⟩
  | torn => exact .inr (by simp [Medium.get_put_self])
  | done => exact .inr (by simp [Medium.get_put_self])

/-- A write that begins marks the card, and one that does not leaves it alone. -/
theorem leads_marked {body : Run Unit} (began : ∀ device, Holds body device fun outcome after =>
    after.vault = device.vault ∧ ((after.sd = device.sd ∧ outcome ≠ .ok ()) ∨ Marked after)) :
    Leads Vouched Marked Vouched body := by
  intro device vouched
  refine (began device).mono fun outcome after ended => ?_
  obtain ⟨vault, ⟨card, notDone⟩ | marked⟩ := ended
  · have still : Vouched after := by
      intro there
      rw [vault, card] at there
      exact (vouched there).of_get (by rw [card])
    cases outcome with
    | ok value => exact absurd rfl notDone
    | raised exn => exact still
    | off => exact still
  · cases outcome with
    | ok value => exact marked
    | raised exn => exact marked.vouched
    | off => exact marked.vouched

private theorem restoreMeta_leads : Leads Vouched Marked Vouched (restoreMeta env) := by
  apply (Vouched.sheltered.looks (readText_looks .flash .metaFile)).bind_leads
  intro text
  apply (Vouched.sheltered.looks (mount_looks .restoreMeta)).bind_leads
  intro _
  apply leads_marked
  intro device
  refine (writeFile_wrote env .sd .metaFile _ device).mono ?_
  rintro outcome after ⟨alike, medium, media, wrote⟩
  have card : after.sd = medium := by rw [media]; rfl
  refine ⟨alike.vault, ?_⟩
  rw [Marked, card]
  exact wrote.began

private theorem initializeVault_marks : Leads Vouched Marked Vouched
    (initializeVault platform env) := by
  apply (Vouched.sheltered.ensureDirs .sd).bind_leads
  intro _
  apply (Vouched.sheltered.ensureDirs .flash).bind_leads
  intro _
  apply (Vouched.sheltered.looks (randomBytes_looks saltLength)).bind_leads
  intro salt
  apply Leads.bind _ (fun _ => Marked.vouched) (fun _ => Guards.pure _)
  apply leads_marked
  intro device
  refine (writeWithMirror_mirrored env .metaFile _ device).mono ?_
  rintro outcome after ⟨alike, mirrored⟩
  refine ⟨alike.vault, ?_⟩
  generalize known : after.toMedia = media at mirrored
  have card : after.sd = media.sd := congrArg Media.sd known
  rw [Marked, card]
  cases mirrored with
  | unmounted stops => exact .inl ⟨rfl, by cases stops <;> simp⟩
  | failed mounted primary notDone => exact primary.began
  | written mounted primary mirror => exact .inr (by simp [primary.eq_put, Medium.get_put_self])

private theorem Marked.of_saved {cipher : Kef.Cipher} {id plaintext : Bytes} {path : Path}
    {outcome : Outcome Exn Unit} (marked : Marked before)
    (notMeta : ∀ envelope, Seals platform cipher id plaintext envelope → path ≠ .metaFile)
    (saved : Saved env platform cipher id path plaintext before outcome after) : Marked after := by
  cases saved with
  | refused => exact marked
  | mirrored sealed alike mirrored =>
      exact marked.of_get (mirrored.get_of_ne .sd (notMeta _ (Saved.seals sealed)).symm)

/-- An update takes no metadata away. -/
theorem updating_marked (step : Step) : Updating platform before step Marked Marked where
  filed marked media := marked.of_get (by rw [media])
  spilled marked media := marked.of_get (by rw [media])
  saves := by
    intro cipher id path plaintext start outcome after called marked saved
    apply guarded_of_kept (fun _ kept => kept)
    refine marked.of_saved (fun envelope seals => ?_) saved
    obtain ⟨save, _, _, rfl, _⟩ := called envelope seals
    exact save.path_ne_metaFile
  removes := by
    intro secretId start outcome after _ marked deleted
    apply guarded_of_kept (fun _ kept => kept)
    exact marked.of_get (deleted.get_of_ne .sd (by simp))

/-- **A step keeps the vault vouched for**, whatever fails in it. -/
theorem perform_vouched (step : Step) (vouched : Vouched before) :
    Vouched (perform platform before step) := by
  obtain ⟨action, env⟩ := step
  have ready : Vouched before.ready := vouched
  have locked : ∀ {device : Device}, Vouched device → Vouched device.restarted := by
    intro device known there
    exact known (there.imp (fun unlocked => absurd rfl unlocked) fun listed => listed)
  refine perform_cases Vouched ⟨action, env⟩ ready ?_ ?_ ?_ (locked ready)
  · rintro rfl off
    have restores : Guards Vouched Vouched (restoreFromFlash env) :=
      Vouched.sheltered.restoreFromFlash Marked.sheltered (fun _ => Marked.vouched)
        restoreMeta_leads (copyFile_marked (some .restoreManifest) .manifestFile)
        fun filename => copyFile_marked none (.secretFile filename)
    have creates : Guards Vouched Vouched (createNewVault platform env) := by
      refine Vouched.sheltered.createNewVault Marked.sheltered (fun _ => Marked.vouched)
        initializeVault_marks (fun passphrase salt device marked => ?_) fun _ _ _ marked => marked
      refine (saveEnvelope_saved env platform _ _ _ _ device _).mono fun _ after saved => ?_
      apply guarded_of_kept fun _ => Marked.vouched
      exact marked.of_saved (fun _ _ => by simp) saved
    have opens : Sheltered.Opens platform env Vouched := by
      intro device after salt passphrase manifest _ opened _
      obtain ⟨data, stored, _⟩ := Option.bind_eq_some_iff.mp opened.salted
      have marked : Marked device := by simp [Marked, stored]
      exact marked.of_get (by rw [opened.media])
    rcases perform_boot_guarded off
      (Vouched.sheltered.vaultUnlock opens restores creates) ready with
      kept | ⟨after, kept, result⟩
    · exact kept
    · rw [result]
      exact locked kept
  · rintro vault text rfl unlocked
    have marked : Marked before := vouched (.inl (by simp [unlocked]))
    exact ((updating_marked _).perform_add unlocked marked).elim Marked.vouched Marked.vouched
  · rintro vault secretId rfl unlocked
    have marked : Marked before := vouched (.inl (by simp [unlocked]))
    exact ((updating_marked _).perform_delete unlocked marked).elim Marked.vouched Marked.vouched

/-- The vault of a run is vouched for after every action, whatever fails. -/
theorem run_vouched (platform : Platform) (steps : List Step) :
    Vouched (run platform .fresh steps) := by
  have blank : Vouched Device.fresh := by
    intro there
    rcases there with unlocked | listed
    · exact absurd rfl unlocked
    · exact absurd rfl listed
  exact Runs.foldl_invariant (fun _ step _ vouched => perform_vouched step vouched) _ _
    (Runs.along_of_forall _ _ fun _ _ _ => trivial) blank

section Recovering

variable (platform)

/-- **A write on the card that a power cut tears**: the power is lost in the write of a file,
and a part of the file is left. -/
structure Torn (before : Device) (step : Step) (path : Path) (rest : Bytes) : Prop where
  off : (step.action.body platform step.env before.ready).1 = .off
  writing : (perform platform before step).trace.head? = some (.write .sd path)
  stored : (perform platform before step).sd.get path = some rest

/-- The manifest from before a step, or the one that the step was to save. -/
def Due (before : Device) (step : Step) (passphrase : Text) (manifest : Manifest) : Prop :=
  (∃ salt, OpensWith platform passphrase before.sd salt manifest) ∨
    ∃ cipher envelope, Calls platform before step (.manifest cipher manifest envelope)

/-- **Recovery**: after the step, a boot opens the vault with a manifest that is due. -/
def Recovers (before : Device) (step : Step) (passphrase : Text) (env : Env) : Prop :=
  ∃ vault, (perform platform (perform platform before step).restarted ⟨.boot, env⟩).vault =
      some vault ∧ Due platform before step passphrase vault.manifest

/-- The salt in the content of `vault.meta`. -/
def saltIn (data : Bytes) : Option Bytes := do
  let text ← decode data
  let metadata ← platform.metas.loads text
  unhexlify metadata.salt

/-- What is left of `vault.meta` or of the manifest is read by itself, next to the other
files of the card. -/
def ReadsAlone (passphrase : Text) (card : Medium) (manifest : Manifest) (rest : Bytes) :
    Path → Prop
  | .metaFile => ∃ salt, saltIn platform rest = some salt ∧
      manifestOn platform (deriveKey platform passphrase salt) card = some manifest
  | .manifestFile => ∃ salt, saltOn platform card = some salt ∧
      decodeManifest platform platform.manifests (deriveKey platform passphrase salt) rest =
        some manifest
  | .secretFile _ => False

end Recovering

private theorem saltOn_eq_bind (card : Medium) :
    saltOn platform card = (card.get .metaFile).bind (saltIn platform) := rfl

/-- A card opens with a file exactly when the file is read by itself. -/
theorem readsAlone_iff {passphrase : Text} {card : Medium} {manifest : Manifest} {rest : Bytes}
    {path : Path} (stored : card.get path = some rest)
    (vaultFile : path = .metaFile ∨ path = .manifestFile) :
    ReadsAlone platform passphrase card manifest rest path ↔
      ∃ salt, OpensWith platform passphrase card salt manifest := by
  rcases vaultFile with rfl | rfl
  · simp only [ReadsAlone, OpensWith, saltOn_eq_bind, stored, Option.bind_some]
  · simp only [ReadsAlone, OpensWith, manifestOn_of_some stored]

/-- **What a boot opens on a card with metadata**, when no file operation fails and one
passphrase is entered. -/
theorem perform_boot_opens_iff {device : Device} {passphrase : Text} (quiet : env.Quiet)
    (patient : 0 < env.patience) (typed : ∀ count, env.keypad .passphrase count = some passphrase)
    (nonempty : passphrase ≠ []) (locked : device.vault = none) (marked : Marked device)
    (due : Manifest → Prop) :
    (∃ vault, (perform platform device ⟨.boot, env⟩).vault = some vault ∧ due vault.manifest) ↔
      ∃ manifest, due manifest ∧ ∃ salt, OpensWith platform passphrase device.sd salt manifest := by
  constructor
  · intro opening
    obtain ⟨vault, unlocked, wanted⟩ := opening
    obtain ⟨data, stored⟩ := Option.ne_none_iff_exists'.mp marked
    rcases perform_boot_present platform quiet.sees stored locked with
      still | ⟨salt, entered, manifest, opened⟩
    · rw [still.vault, locked] at unlocked
      cases unlocked
    · obtain ⟨count, keyed⟩ := opened.typed
      rw [typed count] at keyed
      cases keyed
      rw [opened.vault] at unlocked
      cases unlocked
      have listed := opened.reads.resolve_right fun missed => quiet.not_missesManifest missed.2
      exact ⟨manifest, wanted, salt, opened.salted, listed.symm⟩
  · intro readable
    obtain ⟨manifest, wanted, salt, opens⟩ := readable
    have opened := perform_boot_opens quiet patient locked opens.1 (typed 0) nonempty opens.2
    exact ⟨_, opened.2, wanted⟩

/-- **Recovery from a torn write.** When the power is cut in the write of `vault.meta` or of
the manifest on the card, in any run and whatever failed before, a boot with the passphrase
opens the old or the new manifest, or the restore is offered again, exactly when what is left
of the file is read by itself. -/
theorem recovers_iff (steps : List Step) {last : Step} {path : Path} {rest : Bytes}
    (torn : Torn platform (run platform .fresh steps) last path rest)
    (vaultFile : path = .metaFile ∨ path = .manifestFile) {passphrase : Text}
    (quiet : env.Quiet) (patient : 0 < env.patience)
    (typed : ∀ count, env.keypad .passphrase count = some passphrase) (nonempty : passphrase ≠ []) :
    (Recovers platform (run platform .fresh steps) last passphrase env ∨
      OffersRestore platform (run platform .fresh (steps ++ [last]))) ↔
    ∃ manifest, Due platform (run platform .fresh steps) last passphrase manifest ∧
      ReadsAlone platform passphrase (run platform .fresh (steps ++ [last])).sd manifest rest
        path := by
  have extended : run platform .fresh (steps ++ [last]) =
      perform platform (run platform .fresh steps) last := by
    rw [run, List.foldl_append]
    rfl
  have marked : Marked (perform platform (run platform .fresh steps) last) := by
    rcases vaultFile with rfl | rfl
    · simp [Marked, torn.stored]
    · apply perform_vouched last (run_vouched platform steps)
      simp [torn.stored]
  rw [extended]
  have locked : (perform platform (run platform .fresh steps) last).restarted.vault = none := rfl
  simp only [not_offersRestore marked, or_false, readsAlone_iff torn.stored vaultFile]
  exact perform_boot_opens_iff quiet patient typed nonempty locked marked
    (Due platform (run platform .fresh steps) last passphrase)

/-- Libraries that read metadata also without their last character. -/
def Sample.lenient : Platform :=
  { Sample.platform with
    metas := ⟨Sample.metas.dumps, fun text => (Sample.metas.loads text).or
      (Sample.metas.loads (text ++ ['.']))⟩ }

/-- A creation that is cut before the last byte of the metadata. -/
def Sample.tornCreation : Step := ⟨.boot, Sample.failing ['a'] (.write .sd .metaFile) (.cut 135)⟩

/-- A vault of which only the last byte of the metadata is missing is read as it is. -/
theorem recovers_iff_lenient :
    Recovers Sample.lenient .fresh Sample.tornCreation ['a'] (Sample.env ['a']) ∨
      OffersRestore Sample.lenient (run Sample.lenient .fresh [Sample.tornCreation]) := by
  have found : ((perform Sample.lenient .fresh Sample.tornCreation).sd.get .metaFile).isSome ∧
      (perform Sample.lenient .fresh Sample.tornCreation).sd.get .manifestFile = none ∧
      (saltOn Sample.lenient (perform Sample.lenient .fresh Sample.tornCreation).sd).isSome := by
    decide +kernel
  obtain ⟨rest, stored⟩ := Option.isSome_iff_exists.mp found.1
  obtain ⟨salt, salted⟩ := Option.isSome_iff_exists.mp found.2.2
  have torn : Torn Sample.lenient (run Sample.lenient .fresh []) Sample.tornCreation
      .metaFile rest :=
    ⟨by decide +kernel, by decide +kernel, stored⟩
  apply (recovers_iff [] torn (.inl rfl) (Sample.env_quiet ['a']) (by decide) (fun _ => rfl)
    (by simp)).mpr
  refine ⟨.empty, .inr ⟨deriveKey Sample.lenient ['a'] salt, [], .created rfl⟩, salt, ?_, ?_⟩
  · rw [saltOn_eq_bind, stored] at salted
    exact salted
  · exact manifestOn_of_none found.2.1

/-- **A vault that is not recovered**: no file operation failed before, the power is cut
while the card's manifest is written, and flash has the metadata and the manifest whole. The
boot with the right passphrase opens nothing, and no restore is offered. -/
theorem torn_manifest_not_recovered :
    let before := run Sample.platform .fresh Sample.thinned
    let after := run Sample.platform .fresh (Sample.thinned ++ [Sample.tornAdd])
    (∀ step ∈ Sample.thinned, step.env.Quiet) ∧
    Torn Sample.platform before Sample.tornAdd .manifestFile [14, 118, 97, 117, 108, 116, 45] ∧
    after.flash.get .metaFile = before.sd.get .metaFile ∧
    after.flash.get .manifestFile = before.sd.get .manifestFile ∧
    (perform Sample.platform before.restarted ⟨.boot, Sample.env ['a']⟩).vault.isSome ∧
    ¬ (Recovers Sample.platform before Sample.tornAdd ['a'] (Sample.env ['a']) ∨
      OffersRestore Sample.platform after) := by
  have lost : (perform Sample.platform (perform Sample.platform
      (run Sample.platform .fresh Sample.thinned) Sample.tornAdd).restarted
        ⟨.boot, Sample.env ['a']⟩).vault.isSome = false := by decide +kernel
  have marked : Marked (run Sample.platform .fresh (Sample.thinned ++ [Sample.tornAdd])) := by
    unfold Marked
    decide +kernel
  refine ⟨?_, ⟨by decide +kernel, by decide +kernel, by decide +kernel⟩, by decide +kernel,
    by decide +kernel, by decide +kernel, ?_⟩
  · intro step member
    obtain ⟨action, _, rfl⟩ := List.mem_map.mp member
    exact Sample.env_quiet _
  · rintro (⟨vault, unlocked, _⟩ | offers)
    · rw [unlocked] at lost
      cases lost
    · exact not_offersRestore marked offers

end VaultSeed.Vault
