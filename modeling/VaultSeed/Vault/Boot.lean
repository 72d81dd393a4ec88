import VaultSeed.Vault.Creation

/-! # What the boot flow does

`VaultUnlock.run` opens the vault of the card, or makes a new one. A device whose
mirror holds no metadata that its card lacks is never asked to restore, and one turn
of the page decides.
-/

namespace VaultSeed.Vault

open Python Effect Proc

variable {platform : Platform} {env : Env}

/-- A device that is never asked to restore: its mirror has metadata only together
with its card. -/
def Device.NoRestore (device : Device) : Prop :=
  device.sd.get .metaFile = none → device.flash.get .metaFile = none

/-- **The ends of a boot** on a device that is never asked to restore. -/
inductive Booted (platform : Platform) (env : Env) (before : Device) :
    Outcome Exn Bool → Device → Prop where
  | idle {outcome : Outcome Exn Bool} {after : Device} (still : Still before after) :
      Booted platform env before outcome after
  | opened {after : Device} {salt : Bytes} {passphrase : Text} {manifest : Manifest}
      (opened : Opened platform env before after salt passphrase manifest) :
      Booted platform env before (.ok true) after
  | created {outcome : Outcome Exn Bool} {after : Device}
      (absent : before.sd.get .metaFile = none)
      (agreed : ∃ count, env.answer .createNewVault count = true)
      (created : Created platform env before outcome after) :
      Booted platform env before outcome after

private theorem Booted.of_still {before middle after : Device} {outcome : Outcome Exn Bool}
    (still : Still before middle) (booted : Booted platform env middle outcome after) :
    Booted platform env before outcome after := by
  cases booted with
  | idle same => exact .idle (still.trans same)
  | opened opened => exact .opened (opened.of_still still)
  | created absent agreed created =>
      refine .created ?_ agreed (created.of_still still)
      rw [← show middle.sd = before.sd from congrArg Media.sd still.media]
      exact absent

private theorem unlockWhenPresent_holds (sees : env.SeesMeta) (device : Device)
    (present : ((device.disk .sd).get .metaFile).isSome = true) :
    Holds (unlockWhenPresent platform env) device fun outcome after =>
      ∃ inner, outcome = inner.map some ∧ (∀ exn, inner ≠ .raised exn) ∧
        Booted platform env device inner after := by
  refine vaultExists_bind sees .sd device ⟨.off, rfl, nofun, .idle ⟨rfl, rfl⟩⟩ ?_
  rw [if_pos present]
  refine (Holds.map (unlockExistingVault_holds _)).mono ?_
  rintro outcome after ⟨inner, ⟨never, unlocked⟩, rfl⟩
  refine ⟨inner, rfl, never, ?_⟩
  have pushed : Still device (device.push (.stat .sd .metaFile)) := ⟨rfl, rfl⟩
  rcases unlocked.of_still pushed with still | ⟨rfl, _, _, _, opened⟩
  · exact .idle still
  · exact .opened opened

/-- One turn of `VaultUnlock.run` is enough. -/
theorem unlockPageTurn_holds (sees : env.SeesMeta) (device : Device) (noRestore : device.NoRestore)
    (fresh : ∀ title, device.entries title = 0) :
    Holds (unlockPageTurn platform env) device fun outcome after =>
      ∃ inner, outcome = inner.map some ∧ (∀ exn, inner ≠ .raised exn) ∧
        Booted platform env device inner after := by
  refine Holds.bind (checkSdCard_holds device) ?_ ?_ ?_
  · rintro found start ⟨still, entries, _⟩
    split
    · have sd : start.sd = device.sd := congrArg Media.sd still.media
      have flash : start.flash = device.flash := congrArg Media.flash still.media
      refine vaultExists_bind sees .sd start
        ⟨.off, rfl, by simp, .idle ⟨still.media, still.vault⟩⟩ ?_
      split
      · rename_i present
        refine (unlockWhenPresent_holds sees (start.push _) present).mono ?_
        rintro outcome after ⟨inner, ended, never, booted⟩
        refine ⟨inner, ended, never, Booted.of_still ?_ booted⟩
        exact ⟨still.media, still.vault⟩
      · rename_i missing
        have absent : device.sd.get .metaFile = none := by
          rw [← sd]
          simpa [Media.disk] using missing
        have unmirrored := noRestore absent
        refine vaultExists_bind sees .flash _
          ⟨.off, rfl, by simp, .idle ⟨still.media, still.vault⟩⟩ ?_
        rw [if_neg (by simp [Media.disk, flash, unmirrored])]
        refine Holds.bind_ok (show prompt env .createNewVault _ = (.ok _, _) from rfl) ?_
        split
        · rename_i agreed
          refine (Holds.map (createNewVault_created _ ?_)).mono ?_
          · intro title
            rw [entries_record_of_not rfl]
            exact (entries title).trans (fresh title)
          · rintro outcome after ⟨inner, created, rfl⟩
            refine ⟨inner, rfl, created.ne_raised, .created absent ⟨_, agreed⟩
              (Created.of_still ?_ created)⟩
            exact ⟨still.media, still.vault⟩
        · exact ⟨.ok false, rfl, by simp, .idle ⟨still.media, still.vault⟩⟩
    · exact ⟨.ok false, rfl, by simp, .idle still⟩
  · intro exn after checked
    exact absurd rfl (checked.2.2 exn)
  · intro after checked
    exact ⟨.off, rfl, by simp, .idle checked.1⟩

/-- What `VaultUnlock.run` does. -/
theorem vaultUnlock_booted (sees : env.SeesMeta) (device : Device) (noRestore : device.NoRestore)
    (fresh : ∀ title, device.entries title = 0) :
    Holds (vaultUnlock platform env) device (Booted platform env device) := by
  unfold vaultUnlock
  cases env.patience with
  | zero => exact .idle (.refl device)
  | succ left =>
      rw [Proc.loop]
      refine Holds.bind (unlockPageTurn_holds sees device noRestore fresh) ?_ ?_ ?_
      · rintro value after ⟨inner, ended, _, booted⟩
        cases inner <;> cases ended
        exact booted
      · rintro exn after ⟨inner, ended, never, _⟩
        cases inner <;> cases ended
        exact absurd rfl (never _)
      · rintro after ⟨inner, ended, _, booted⟩
        cases inner <;> cases ended
        exact booted

/-- **What a boot does to a locked device** that is never asked to restore. -/
theorem perform_boot (platform : Platform) {env : Env} (sees : env.SeesMeta) {device : Device}
    (noRestore : device.NoRestore) (locked : device.vault = none) :
    Still device (perform platform device ⟨.boot, env⟩) ∨
    (∃ salt passphrase manifest, Opened platform env device (perform platform device ⟨.boot, env⟩)
      salt passphrase manifest) ∨
    (device.sd.get .metaFile = none ∧ (∃ count, env.answer .createNewVault count = true) ∧
      ∃ outcome after, Created platform env device outcome after ∧
        (perform platform device ⟨.boot, env⟩).toMedia = after.toMedia ∧
        (perform platform device ⟨.boot, env⟩).vault =
          (if outcome = .off then none else after.vault) ∧
        (perform platform device ⟨.boot, env⟩).history = after.history) := by
  have body : Holds (Action.body platform env .boot) device.ready fun outcome after =>
      ∃ inner, Booted platform env device.ready inner after ∧ (outcome = .off ↔ inner = .off) := by
    refine reachedWhen_holds (by rw [unlocked_ready locked]; rfl) ?_
    refine Holds.bind (vaultUnlock_booted sees device.ready noRestore fun _ => rfl) ?_ ?_ ?_
    · exact fun value after booted => ⟨_, booted, by simp⟩
    · exact fun exn after booted => ⟨_, booted, by simp⟩
    · exact fun after booted => ⟨_, booted, by simp⟩
  obtain ⟨outcome, after, ⟨inner, booted, off⟩, result⟩ := perform_holds platform env body
  rw [result]
  have restarted : Still device device.ready := ⟨rfl, rfl⟩
  cases booted.of_still restarted with
  | idle still =>
      refine .inl ⟨?_, ?_⟩
      · split <;> exact still.media
      · split
        · exact locked.symm
        · exact still.vault
  | opened opened =>
      rw [if_neg (by simp [off])]
      exact .inr (.inl ⟨_, _, _, opened⟩)
  | created absent agreed created =>
      refine .inr (.inr ⟨absent, agreed, inner, after, created, ?_⟩)
      by_cases lost : outcome = .off
      · simp [lost, off.mp lost]
      · have kept : inner ≠ .off := fun same => lost (off.mpr same)
        simp [lost, kept]

/-- The unlock page is out of reach of an unlocked device. -/
theorem perform_boot_unlocked (platform : Platform) (env : Env) {device : Device}
    {vault : VaultState} (unlocked : device.vault = some vault) :
    perform platform device ⟨.boot, env⟩ = device.ready := by
  have body : Action.body platform env .boot device.ready = (.ok (), device.ready) :=
    if_neg (by rw [unlocked_ready unlocked]; simp)
  simp only [perform, body]

/-- No file operation fails. -/
def Env.Quiet (env : Env) : Prop := ∀ op count, env.fault op count = .none

/-- In a quiet environment the metadata are seen. -/
theorem Env.Quiet.sees {env : Env} (quiet : env.Quiet) : env.SeesMeta := fun _ _ raised => by
  rw [quiet] at raised
  cases raised

/-- In a quiet environment writes fail cleanly, as none fails. -/
theorem Env.Quiet.clean {env : Env} (quiet : env.Quiet) : env.CleanWrites :=
  fun _ _ _ => ⟨quiet _ _, quiet _ _⟩

/-- In a quiet environment no operation is faulty. -/
theorem Env.Quiet.not_faulty {env : Env} (quiet : env.Quiet) (op : FileOp) : ¬ env.Faulty op :=
  fun ⟨_, fault⟩ => fault (quiet _ _)

/-- In a quiet environment the power stays on. -/
theorem Env.Quiet.uncut {env : Env} (quiet : env.Quiet) : env.Uncut := by
  intro op count left cut
  rw [quiet] at cut
  cases cut

/-- In a quiet environment the manifest is read. -/
theorem Env.Quiet.not_missesManifest {env : Env} (quiet : env.Quiet) : ¬ env.MissesManifest := by
  rintro (⟨count, raised⟩ | ⟨count, raised⟩)
  all_goals
    rw [quiet] at raised
    cases raised

section Quiet

variable {device : Device}

/-- In a quiet environment every operation goes well. -/
theorem Env.Quiet.fate (quiet : env.Quiet) (device : Device) (op : FileOp) :
    env.fate device op = .none := quiet op _

/-- In a quiet environment the card is mounted. -/
theorem Env.Quiet.mount (quiet : env.Quiet) (caller : Caller) (device : Device) :
    mount env caller device = (.ok (), device.push (.mount caller)) :=
  fileOp_none (quiet.fate device _)

private theorem Env.Quiet.read (quiet : env.Quiet) {disk : Disk} {path : Path} {data : Bytes}
    (stored : (device.disk disk).get path = some data) :
    read env disk path device = (.ok data, device.push (.read disk path)) := by
  refine (fileOp_none (quiet.fate device _)).trans ?_
  simp [stored]

/-- The metadata of a card that has a salt are read. -/
theorem Env.Quiet.loadSalt (quiet : env.Quiet) {salt : Bytes}
    (salted : saltOn platform device.sd = some salt) :
    ∃ later, (do
      let metadata ← loadMeta platform env
      some <$> saltBytes metadata : Run (Option Bytes)) device = (.ok (some salt), later) ∧
      Still device later ∧ later.history = device.history := by
  obtain ⟨data, stored, rest⟩ := Option.bind_eq_some_iff.mp salted
  obtain ⟨text, decoded, rest⟩ := Option.bind_eq_some_iff.mp rest
  obtain ⟨metadata, loaded, digits⟩ := Option.bind_eq_some_iff.mp rest
  let mounted := device.push (.mount .loadMeta)
  let later := mounted.push (.read .sd .metaFile)
  have reading : Vault.read env .sd .metaFile mounted = (.ok data, later) := quiet.read stored
  have read : readText env .sd .metaFile mounted = (.ok text, later) := by
    refine (bind_ok reading).trans ?_
    rw [decoded]
    rfl
  have ran : loadMeta platform env device = (.ok metadata, later) := by
    refine (bind_ok (quiet.mount .loadMeta device)).trans ((bind_ok read).trans ?_)
    rw [loaded]
    rfl
  refine ⟨later, (bind_ok ran).trans ?_, ⟨rfl, rfl⟩, rfl⟩
  simp only [saltBytes, digits]
  rfl

/-- The manifest of a card is read. -/
theorem Env.Quiet.loadManifest (quiet : env.Quiet) (cipher : Kef.Cipher) (device : Device) :
    ∃ later, Vault.loadManifest platform env platform.manifests .empty cipher device =
      (.ok (manifestOn platform cipher device.sd), later) ∧ later.toMedia = device.toMedia := by
  have valid : Holds (Vault.loadManifest platform env platform.manifests .empty cipher) device _ :=
    loadManifest_holds cipher device
  exact ⟨_, Prod.ext (loadManifest_fst cipher device quiet.not_missesManifest quiet.uncut) rfl,
    valid.1.1.media⟩

/-- **A boot opens the vault of the card** with the right passphrase, when no file
operation fails. -/
theorem perform_boot_opens (quiet : env.Quiet) (patient : 0 < env.patience) {salt : Bytes}
    {passphrase : Text} {manifest : Manifest} (locked : device.vault = none)
    (salted : saltOn platform device.sd = some salt)
    (entered : env.keypad .passphrase 0 = some passphrase) (nonempty : passphrase ≠ [])
    (found : manifestOn platform (deriveKey platform passphrase salt) device.sd = some manifest) :
    (perform platform device ⟨.boot, env⟩).toMedia = device.toMedia ∧
    (perform platform device ⟨.boot, env⟩).vault =
      some (openVault platform salt passphrase manifest) := by
  have present : ((device.disk .sd).get .metaFile).isSome = true := by
    obtain ⟨data, stored, _⟩ := Option.bind_eq_some_iff.mp salted
    exact Option.isSome_iff_exists.mpr ⟨data, stored⟩
  let checked := device.ready.push (.mount .checkSdCard)
  let looked := (checked.push (.stat .sd .metaFile)).push (.stat .sd .metaFile)
  obtain ⟨started, loading, still, history⟩ :=
    (quiet.loadSalt salted : ∃ later, _ = (Outcome.ok (some salt), later) ∧ Still looked later ∧ _)
  have typed : env.entry .passphrase started = some passphrase := by
    have untyped : started.entries .passphrase = 0 := by
      rw [Device.entries, history]
      rfl
    rw [Env.entry, untyped, entered]
    simpa using nonempty
  obtain ⟨later, listing, media⟩ :=
    quiet.loadManifest (deriveKey platform passphrase salt) (started.typedPassphrase passphrase)
  have sd : (started.typedPassphrase passphrase).sd = device.sd := congrArg Media.sd still.media
  rw [sd, found] at listing
  let final : Device := { later with vault := some (openVault platform salt passphrase manifest) }
  have turn : unlockTurn platform env salt started = (.ok (some true), final) := by
    refine (bind_ok (getPassphrase_some typed)).trans ?_
    exact (bind_ok listing).trans rfl
  have existing : unlockExistingVault platform env looked = (.ok true, final) :=
    (bind_ok (tryExcept_ok loading)).trans (loop_done turn)
  have whenPresent : unlockWhenPresent platform env (checked.push (.stat .sd .metaFile)) =
      (.ok (some true), final) := by
    refine (bind_ok (vaultExists_apply .sd _ (quiet.fate _ _))).trans ?_
    exact (congrFun (if_pos present) looked).trans (bind_ok existing)
  have page : unlockPageTurn platform env device.ready = (.ok (some true), final) := by
    have mounted : checkSdCard env device.ready = (.ok true, checked) :=
      tryExcept_ok ((bind_ok (quiet.mount .checkSdCard device.ready)).trans rfl)
    refine (bind_ok mounted).trans ?_
    rw [if_pos rfl]
    refine (bind_ok (vaultExists_apply .sd _ (quiet.fate _ _))).trans ?_
    exact (congrFun (if_pos present) _).trans whenPresent
  have body : Action.body platform env .boot device.ready = (.ok (), final) := by
    refine (if_pos (by rw [unlocked_ready locked]; rfl)).trans ?_
    obtain ⟨left, turns⟩ := Nat.exists_eq_succ_of_ne_zero patient.ne'
    refine (bind_ok (?_ : vaultUnlock platform env device.ready = (.ok true, final))).trans rfl
    rw [vaultUnlock, turns]
    exact loop_done page
  have result : perform platform device ⟨.boot, env⟩ = final := by simp only [perform, body]
  rw [result]
  exact ⟨media.trans (show started.toMedia = device.toMedia from still.media), rfl⟩

end Quiet

end VaultSeed.Vault
