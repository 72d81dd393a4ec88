import VaultSeed.Vault.Unlocking

/-! # Making a new vault

`_create_new_vault` writes the metadata before it asks for a passphrase, and the
first manifest after the passphrase is confirmed. `Created` lists the ways it ends.
-/

namespace VaultSeed.Vault

open Python Effect Proc

variable {platform : Platform} {env : Env}

/-- Two devices between which directories were made on one medium. -/
structure Prepared (disk : Disk) (before after : Device) : Prop where
  vault : after.vault = before.vault
  history : after.history = before.history
  other : ∀ other, other ≠ disk → after.disk other = before.disk other
  get : ∀ path, (after.disk disk).get path = (before.disk disk).get path
  hasDir : ∀ dir, (before.disk disk).hasDir dir = true → (after.disk disk).hasDir dir = true

/-- An operation on a medium prepares it. -/
theorem Prepared.push (disk : Disk) (device : Device) (op : FileOp) :
    Prepared disk device (device.push op) :=
  ⟨rfl, rfl, fun _ _ => rfl, fun _ => rfl, fun _ present => present⟩

/-- Preparing goes on. -/
theorem Prepared.trans {disk : Disk} {first second third : Device}
    (begins : Prepared disk first second) (continues : Prepared disk second third) :
    Prepared disk first third :=
  ⟨continues.vault.trans begins.vault, continues.history.trans begins.history,
    fun other different => (continues.other other different).trans (begins.other other different),
    fun path => (continues.get path).trans (begins.get path),
    fun dir present => continues.hasDir dir (begins.hasDir dir present)⟩

private theorem hasDir_addDir_self (medium : Medium) (dir : Dir) :
    (medium.addDir dir).hasDir dir = true := by
  cases dir <;> rfl

private theorem hasDir_addDir (medium : Medium) (dir other : Dir)
    (present : medium.hasDir other = true) :
    (medium.addDir dir).hasDir other = true := by
  cases dir <;> cases other <;> first | exact present | rfl

/-- Setting one medium leaves the other. -/
theorem disk_setDisk_of_ne (media : Media) {disk other : Disk} (medium : Medium)
    (different : other ≠ disk) : (media.setDisk disk medium).disk other = media.disk other := by
  cases disk <;> cases other <;> first | rfl | exact absurd rfl different

/-- A directory that was made is there, and nothing else has changed. -/
theorem mkdir_holds (disk : Disk) (dir : Dir) (device : Device) :
    Holds (mkdir env disk dir) device fun outcome after =>
      Prepared disk device after ∧ (outcome = .ok () → (after.disk disk).hasDir dir = true) := by
  refine fileOp_holds (fun _ _ => rfl) ?_ ?_
  · intro fault outcome _ stops
    refine ⟨.push disk device _, ?_⟩
    cases stops <;> exact nofun
  · intro _
    unfold Holds
    by_cases refused : (device.disk disk).hasDir dir = true ∨
        (dir = .secrets ∧ ¬ (device.disk disk).hasDir .vault = true)
    · simp only [push_toMedia, refused, ↓reduceIte]
      exact ⟨.push disk device _, nofun⟩
    · simp only [push_toMedia, refused, ↓reduceIte]
      refine ⟨⟨rfl, rfl, fun other different => ?_, fun path => ?_, fun other present => ?_⟩, ?_⟩
      · exact disk_setDisk_of_ne _ _ different
      · change ((device.toMedia.setDisk disk _).disk disk).get path = _
        rw [setDisk_disk, Medium.get_addDir]
      · change ((device.toMedia.setDisk disk _).disk disk).hasDir other = true
        rw [setDisk_disk]
        exact hasDir_addDir _ _ _ present
      · intro _
        change ((device.toMedia.setDisk disk _).disk disk).hasDir dir = true
        rw [setDisk_disk]
        exact hasDir_addDir_self _ _

private theorem ensureDir_holds (disk : Disk) (dir : Dir) (device : Device) :
    Holds (ensureDir env disk dir) device fun outcome after =>
      Prepared disk device after ∧ (outcome = .ok () → (after.disk disk).hasDir dir = true) := by
  have looking : Holds (statDir env disk dir) device fun outcome after =>
      Prepared disk device after ∧ (outcome = .ok () → (after.disk disk).hasDir dir = true) := by
    refine fileOp_holds (fun _ _ => rfl) ?_ ?_
    · intro fault outcome _ stops
      refine ⟨.push disk device _, ?_⟩
      cases stops <;> exact nofun
    · intro _
      unfold Holds
      by_cases present : (device.disk disk).hasDir dir = true
      · simp only [push_toMedia, present, ↓reduceIte]
        exact ⟨.push disk device _, fun _ => trivial⟩
      · simp only [push_toMedia, present]
        exact ⟨.push disk device _, nofun⟩
  refine Holds.tryExcept looking ?_ ?_ ?_
  · exact fun _ after prepared => prepared
  · rintro exn middle ⟨prepared, _⟩
    refine (mkdir_holds disk dir middle).mono ?_
    rintro outcome after ⟨more, present⟩
    exact ⟨prepared.trans more, present⟩
  · exact fun after prepared => ⟨prepared.1, nofun⟩

/-- What `_ensure_dirs` does. -/
theorem ensureDirs_holds (disk : Disk) (device : Device) :
    Holds (ensureDirs env disk) device fun outcome after =>
      Prepared disk device after ∧ (outcome = .ok () → (after.disk disk).Ready) := by
  refine Holds.bind (ensureDir_holds disk .vault device) ?_ ?_ ?_
  · rintro _ middle ⟨prepared, first⟩
    refine (ensureDir_holds disk .secrets middle).mono ?_
    rintro outcome after ⟨more, second⟩
    exact ⟨prepared.trans more, fun done => ⟨more.hasDir .vault (first rfl), second done⟩⟩
  · exact fun exn after ⟨prepared, _⟩ => ⟨prepared, nofun⟩
  · exact fun after ⟨prepared, _⟩ => ⟨prepared, nofun⟩

/-- Two devices with the same files. -/
structure SameFiles (before after : Device) : Prop where
  vault : after.vault = before.vault
  get : ∀ disk path, (after.disk disk).get path = (before.disk disk).get path
  hasDir : ∀ disk dir, (before.disk disk).hasDir dir = true → (after.disk disk).hasDir dir = true

/-- Preparing leaves the files. -/
theorem Prepared.sameFiles {disk : Disk} {before after : Device}
    (prepared : Prepared disk before after) : SameFiles before after := by
  refine ⟨prepared.vault, fun other path => ?_, fun other dir present => ?_⟩
  · by_cases same : other = disk
    · rw [same, prepared.get]
    · rw [prepared.other other same]
  · by_cases same : other = disk
    · rw [same] at present ⊢
      exact prepared.hasDir dir present
    · rwa [prepared.other other same]

/-- Leaving the files is transitive. -/
theorem SameFiles.trans {first second third : Device} (begins : SameFiles first second)
    (continues : SameFiles second third) : SameFiles first third :=
  ⟨continues.vault.trans begins.vault, fun disk path => (continues.get disk path).trans
    (begins.get disk path), fun disk dir present => continues.hasDir disk dir
      (begins.hasDir disk dir present)⟩

/-- A device that stands still keeps its files. -/
theorem Still.sameFiles {before after : Device} (still : Still before after) :
    SameFiles before after :=
  ⟨still.vault, fun disk path => by rw [still.media], fun disk dir present => by rwa [still.media]⟩

/-- The metadata of a new vault written, or not. -/
structure Initialized (platform : Platform) (env : Env) (before : Device) (salt : Bytes)
    (inner : Outcome Exn Unit) (middle after : Device) : Prop where
  prepared : SameFiles before middle
  ready : ∀ disk, (middle.disk disk).Ready
  length : salt.length = saltLength
  mirrored : Mirrored (env.fate middle) .metaFile (metaData platform salt) middle.toMedia inner
    after.toMedia
  vault : after.vault = before.vault

/-- What `initialize_vault` does. -/
theorem initializeVault_holds (device : Device) :
    Holds (initializeVault platform env) device fun outcome after =>
      after.history = device.history ∧
      ((SameFiles device after ∧ ∀ value, outcome ≠ .ok value) ∨
        ∃ salt inner middle, Initialized platform env device salt inner middle after ∧
          (∀ value, outcome = .ok value → inner = .ok () ∧ value = ⟨hexlify salt, formatVersion⟩) ∧
          ((∀ value, outcome ≠ .ok value) → inner ≠ .ok ())) := by
  refine Holds.bind (ensureDirs_holds .sd device) ?_ ?_ ?_
  · rintro _ first ⟨onSd, sdReady⟩
    refine Holds.bind (ensureDirs_holds .flash first) ?_ ?_ ?_
    · rintro _ middle ⟨onFlash, flashReady⟩
      have prepared := onSd.sameFiles.trans onFlash.sameFiles
      have ready : ∀ disk, (middle.disk disk).Ready := by
        intro disk
        cases disk with
        | sd => exact (onFlash.other .sd nofun) ▸ sdReady rfl
        | flash => exact flashReady rfl
      refine Holds.bind_ok (show randomBytes env saltLength middle =
        (.ok ((List.range saltLength).map (env.entropy middle.trace.length)), middle) from rfl) ?_
      have length : ((List.range saltLength).map (env.entropy middle.trace.length)).length =
        saltLength := by simp
      refine Holds.bind (writeWithMirror_mirrored env .metaFile _ middle) ?_ ?_ ?_
      · rintro _ after ⟨alike, mirrored⟩
        refine ⟨alike.history.trans (onFlash.history.trans onSd.history), .inr ⟨_, _, middle,
          ⟨prepared, ready, length, mirrored, alike.vault.trans prepared.vault⟩, ?_, ?_⟩⟩
        · intro value same
          cases same
          exact ⟨rfl, rfl⟩
        · exact fun never => absurd rfl (never _)
      · rintro exn after ⟨alike, mirrored⟩
        exact ⟨alike.history.trans (onFlash.history.trans onSd.history), .inr ⟨_, _, middle,
          ⟨prepared, ready, length, mirrored, alike.vault.trans prepared.vault⟩, nofun,
          fun _ => nofun⟩⟩
      · rintro after ⟨alike, mirrored⟩
        exact ⟨alike.history.trans (onFlash.history.trans onSd.history), .inr ⟨_, _, middle,
          ⟨prepared, ready, length, mirrored, alike.vault.trans prepared.vault⟩, nofun,
          fun _ => nofun⟩⟩
    · rintro exn after ⟨onFlash, _⟩
      exact ⟨onFlash.history.trans onSd.history,
        .inl ⟨onSd.sameFiles.trans onFlash.sameFiles, nofun⟩⟩
    · rintro after ⟨onFlash, _⟩
      exact ⟨onFlash.history.trans onSd.history,
        .inl ⟨onSd.sameFiles.trans onFlash.sameFiles, nofun⟩⟩
  · exact fun exn after ⟨onSd, _⟩ => ⟨onSd.history, .inl ⟨onSd.sameFiles, nofun⟩⟩
  · exact fun after ⟨onSd, _⟩ => ⟨onSd.history, .inl ⟨onSd.sameFiles, nofun⟩⟩

/-- The passphrase that the creation ends with, from the entries of the user: at
every turn before the last one two different entries, at the last one the same
entry twice. -/
def Env.Chooses (env : Env) (passphrase : Text) : Nat → Nat → Prop
  | _, 0 => False
  | turn, left + 1 =>
      ∃ first second, (env.keypad .passphrase turn).filter (· ≠ []) = some first ∧
        (env.keypad .confirmPassphrase turn).filter (· ≠ []) = some second ∧
        ((first = second ∧ first = passphrase) ∨
          (first ≠ second ∧ env.Chooses passphrase (turn + 1) left))

/-- A passphrase confirmed in the history of an action. -/
def ConfirmedIn (passphrase : Text) (history : List Event) : Prop :=
  [.typed .confirmPassphrase (some passphrase), .shown .strength,
    .typed .passphrase (some passphrase)] <:+: history

/-- The vault in RAM after the first save of a manifest. -/
def vaultAfter (platform : Platform) (salt : Bytes) (passphrase : Text) (start : Device) :
    Outcome Exn Unit → Option VaultState
  | .ok _ => some (openVault platform salt passphrase .empty)
  | _ => start.vault

/-- How the creation ends after the first save of a manifest. -/
def endOfCreation : Outcome Exn Unit → Outcome Exn Bool
  | .ok _ => .ok true
  | .raised _ => .ok false
  | .off => .off

private theorem endOfCreation_ne_raised (inner : Outcome Exn Unit) (exn : Exn) :
    endOfCreation inner ≠ .raised exn := by
  cases inner <;> exact nofun

/-- The first manifest of a new vault saved, or not. -/
structure Keyed (platform : Platform) (env : Env) (salt : Bytes) (passphrase : Text)
    (start : Device) (inner : Outcome Exn Unit) (final after : Device) : Prop where
  saved : Saved env platform (deriveKey platform passphrase salt) manifestId .manifestFile
    (encode (platform.manifests.dumps .empty)) start inner final
  media : after.toMedia = final.toMedia
  vault : after.vault = vaultAfter platform salt passphrase start inner
  confirmed : ConfirmedIn passphrase after.history

/-- What the end of the creation does with a passphrase. -/
theorem finishCreation_holds (salt : Bytes) (passphrase : Text) (device : Device)
    (confirmed : ConfirmedIn passphrase device.history) :
    Holds (finishCreation platform env ⟨hexlify salt, formatVersion⟩ passphrase) device
      fun outcome after => ∃ inner final,
        Keyed platform env salt passphrase device inner final after ∧
        outcome = endOfCreation inner := by
  have body : Holds (do
      let salt ← saltBytes ⟨hexlify salt, formatVersion⟩
      let cipher := deriveKey platform passphrase salt
      saveManifest platform env cipher .empty
      setVault cipher .empty
      pure true) device fun outcome after => ∃ inner final,
        Saved env platform (deriveKey platform passphrase salt) manifestId .manifestFile
          (encode (platform.manifests.dumps .empty)) device inner final ∧
        after = { final with vault := vaultAfter platform salt passphrase device inner } ∧
        outcome = match inner with
          | .ok _ => .ok true
          | .raised exn => .raised exn
          | .off => .off := by
    refine Holds.bind_ok (show saltBytes ⟨hexlify salt, formatVersion⟩ device =
      (.ok salt, device) by
      simp [saltBytes]) ?_
    refine Holds.bind (saveEnvelope_saved env platform _ manifestId .manifestFile _ device _) ?_ ?_
      ?_
    · intro _ final saved
      exact ⟨.ok (), final, saved, rfl, rfl⟩
    · intro exn final saved
      refine ⟨.raised exn, final, saved, ?_, rfl⟩
      change final = { final with vault := device.vault }
      rw [← saved.vault]
    · intro final saved
      refine ⟨.off, final, saved, ?_, rfl⟩
      change final = { final with vault := device.vault }
      rw [← saved.vault]
  have kept : ∀ {inner final} (state : Option VaultState),
      Saved env platform (deriveKey platform passphrase salt) manifestId .manifestFile
        (encode (platform.manifests.dumps .empty)) device inner final →
      ConfirmedIn passphrase ({ final with vault := state } : Device).history := by
    intro inner final state saved
    change ConfirmedIn passphrase final.history
    rw [saved.history]
    exact confirmed
  refine Holds.tryExcept body ?_ ?_ ?_
  · rintro value after ⟨inner, final, saved, rfl, same⟩
    refine ⟨inner, final, ⟨saved, rfl, rfl, kept _ saved⟩, ?_⟩
    cases inner <;> cases same
    rfl
  · rintro exn after ⟨inner, final, saved, rfl, same⟩
    refine ⟨inner, final, ⟨saved, rfl, rfl, ?_⟩, ?_⟩
    · exact (kept _ saved).trans (List.infix_cons (List.infix_refl _))
    · cases inner <;> cases same
      rfl
  · rintro after ⟨inner, final, saved, rfl, same⟩
    refine ⟨inner, final, ⟨saved, rfl, rfl, kept _ saved⟩, ?_⟩
    cases inner <;> cases same
    rfl

/-- The ends of the loop in `_create_new_vault`. -/
inductive Chosen (platform : Platform) (env : Env) (salt : Bytes) (turn left : Nat)
    (before : Device) : Outcome Exn Bool → Device → Prop where
  | abandoned {outcome : Outcome Exn Bool} {after : Device} (still : Still before after)
      (failed : outcome = .ok false ∨ outcome = .off)
      (never : ∀ passphrase, ¬ env.Chooses passphrase turn left) :
      Chosen platform env salt turn left before outcome after
  | keyed {passphrase : Text} {start final after : Device} {inner : Outcome Exn Unit}
      {outcome : Outcome Exn Bool} (still : Still before start) (nonempty : passphrase ≠ [])
      (chooses : env.Chooses passphrase turn left)
      (keyed : Keyed platform env salt passphrase start inner final after)
      (ended : outcome = endOfCreation inner) :
      Chosen platform env salt turn left before outcome after

private theorem entries_record_typed (device : Device) (title : Title) (entry : Option Text) :
    (device.record (.typed title entry)).entries title = device.entries title + 1 := by
  simp [Device.record, Device.entries, Event.isTyped]

/-- Only an entry of the title counts as one. -/
theorem entries_record_of_not {device : Device} {event : Event} {title : Title}
    (other : Event.isTyped title event = false) :
    (device.record event).entries title = device.entries title := by
  simp [Device.record, Device.entries, other]

section Confirmation

variable {device : Device} {first second : Text}

/-- The device after both keypads. -/
def Device.typedTwice (device : Device) (first second : Text) : Device :=
  (device.typedPassphrase first).record (.typed .confirmPassphrase (some second))

private theorem getConfirmedPassphrase_cancelled (cancelled : env.entry .passphrase device = none) :
    getConfirmedPassphrase env device = (.ok .cancelled, device.record
      (.typed .passphrase (env.keypad .passphrase (device.entries .passphrase)))) := by
  unfold getConfirmedPassphrase
  rw [bind_ok (getPassphrase_none cancelled)]
  rfl

private theorem getConfirmedPassphrase_unconfirmed
    (entered : env.entry .passphrase device = some first)
    (cancelled : env.entry .confirmPassphrase (device.typedPassphrase first) = none) :
    getConfirmedPassphrase env device = (.ok .cancelled, (device.typedPassphrase first).record
      (.typed .confirmPassphrase (env.keypad .confirmPassphrase
        ((device.typedPassphrase first).entries .confirmPassphrase)))) := by
  unfold getConfirmedPassphrase
  rw [bind_ok (getPassphrase_some entered)]
  refine (bind_ok (captureEntry_apply _ _)).trans ?_
  rw [cancelled]
  rfl

private theorem getConfirmedPassphrase_entered (entered : env.entry .passphrase device = some first)
    (confirmed : env.entry .confirmPassphrase (device.typedPassphrase first) = some second) :
    getConfirmedPassphrase env device =
      if first = second then (.ok (.entered first), device.typedTwice first second)
      else (.ok .mismatched, (device.typedTwice first second).record
        (.shown .passphrasesDoNotMatch)) := by
  unfold getConfirmedPassphrase
  rw [bind_ok (getPassphrase_some entered)]
  refine (bind_ok (captureEntry_apply _ _)).trans ?_
  rw [confirmed, (entry_eq_some confirmed).1]
  by_cases same : first = second
  · rw [if_pos same]
    exact congrFun (if_neg (not_not.mpr same)) _
  · rw [if_neg same]
    exact congrFun (if_pos same) _

end Confirmation

/-- Passphrases that differ are asked for again. -/
theorem Chosen.again {salt : Bytes} {turn left : Nat} {device started after : Device}
    {first second : Text} {outcome : Outcome Exn Bool}
    (entered : (env.keypad .passphrase turn).filter (· ≠ []) = some first)
    (confirmed : (env.keypad .confirmPassphrase turn).filter (· ≠ []) = some second)
    (differ : first ≠ second) (still : Still device started)
    (chosen : Chosen platform env salt (turn + 1) left started outcome after) :
    Chosen platform env salt turn (left + 1) device outcome after := by
  cases chosen with
  | abandoned later failed never =>
      refine .abandoned (still.trans later) failed ?_
      rintro passphrase ⟨_, _, typed, typedAgain, ⟨equal, _⟩ | ⟨_, chooses⟩⟩
      · rw [entered] at typed
        rw [confirmed] at typedAgain
        cases typed
        cases typedAgain
        exact differ equal
      · exact never passphrase chooses
  | keyed later nonempty chooses keyed ended =>
      exact .keyed (still.trans later) nonempty
        ⟨first, second, entered, confirmed, .inr ⟨differ, chooses⟩⟩ keyed ended

/-- The loop of the creation: at each turn both keypads are shown once more. -/
theorem creationLoop_holds (salt : Bytes) (left turn : Nat) (device : Device)
    (shown : device.entries .passphrase = turn)
    (shownAgain : device.entries .confirmPassphrase = turn) :
    Holds (Proc.loop (creationTurn platform env ⟨hexlify salt, formatVersion⟩) Proc.off left) device
      (Chosen platform env salt turn left device) := by
  induction left generalizing turn device with
  | zero => exact .abandoned (.refl device) (.inr rfl) fun _ => id
  | succ left ih =>
      have atFirst : env.entry .passphrase device =
          (env.keypad .passphrase turn).filter (· ≠ []) := by rw [Env.entry, shown]
      rw [Proc.loop]
      cases entered : env.entry .passphrase device with
      | none =>
          refine Holds.bind_ok (bind_ok (getConfirmedPassphrase_cancelled entered)) ?_
          refine .abandoned ⟨rfl, rfl⟩ (.inl rfl) ?_
          rintro passphrase ⟨entry, _, typed, _⟩
          rw [← atFirst, entered] at typed
          cases typed
      | some first =>
          have counted : (device.typedPassphrase first).entries .confirmPassphrase = turn := by
            unfold Device.typedPassphrase
            rw [entries_record_of_not rfl, entries_record_of_not rfl, shownAgain]
          have atSecond : env.entry .confirmPassphrase (device.typedPassphrase first) =
              (env.keypad .confirmPassphrase turn).filter (· ≠ []) := by rw [Env.entry, counted]
          cases confirmed : env.entry .confirmPassphrase (device.typedPassphrase first) with
          | none =>
              refine Holds.bind_ok (bind_ok (getConfirmedPassphrase_unconfirmed entered confirmed))
                ?_
              refine .abandoned ⟨rfl, rfl⟩ (.inl rfl) ?_
              rintro passphrase ⟨_, entry, _, typed, _⟩
              rw [← atSecond, confirmed] at typed
              cases typed
          | some second =>
              have both := getConfirmedPassphrase_entered entered confirmed
              by_cases same : first = second
              · rw [if_pos same] at both
                subst same
                have chooses : env.Chooses first turn (left + 1) :=
                  ⟨first, first, atFirst ▸ entered, atSecond ▸ confirmed, .inl ⟨rfl, rfl⟩⟩
                have started : Still device (device.typedTwice first first) := ⟨rfl, rfl⟩
                have turned : Holds (some <$> finishCreation platform env
                    ⟨hexlify salt, formatVersion⟩ first) (device.typedTwice first first) _ :=
                  Holds.map (finishCreation_holds salt first _ ⟨[], device.history, rfl⟩)
                refine Holds.bind (Holds.bind_ok both turned) ?_ ?_ ?_
                · rintro value after ⟨outcome, ⟨inner, final, keyed, ended⟩, same⟩
                  cases outcome <;> cases same
                  exact .keyed started (entry_eq_some entered).2 chooses keyed ended
                · rintro exn after ⟨outcome, ⟨inner, final, keyed, ended⟩, same⟩
                  cases outcome <;> cases same
                  cases inner <;> cases ended
                · rintro after ⟨outcome, ⟨inner, final, keyed, ended⟩, same⟩
                  cases outcome <;> cases same
                  exact .keyed started (entry_eq_some entered).2 chooses keyed ended
              · rw [if_neg same] at both
                refine Holds.bind_ok (bind_ok both) ?_
                have again := ih (turn + 1) ((device.typedTwice first second).record
                  (.shown .passphrasesDoNotMatch)) (by
                    rw [entries_record_of_not rfl, Device.typedTwice, entries_record_of_not rfl,
                      Device.typedPassphrase, entries_record_of_not rfl,
                        entries_record_typed, shown])
                  (by
                    rw [entries_record_of_not rfl, Device.typedTwice,
                      entries_record_typed, counted])
                have started : Still device ((device.typedTwice first second).record
                  (.shown .passphrasesDoNotMatch)) := ⟨rfl, rfl⟩
                exact again.mono fun outcome after chosen =>
                  chosen.again (atFirst ▸ entered) (atSecond ▸ confirmed) same started

/-- What the initialization leaves on a card without files, whether or not a passphrase is chosen
afterwards. -/
theorem Initialized.on_blank {device middle start : Device} {salt : Bytes}
    {inner : Outcome Exn Unit}
    (initialized : Initialized platform env device salt inner middle start)
    (absent : ∀ path, device.sd.get path = none)
    (sd : start.sd = middle.sd.put .metaFile (metaData platform salt)) :
    start.sd.Ready ∧ start.sd.get .metaFile = some (metaData platform salt) ∧
      ∀ path, path ≠ .metaFile → start.sd.get path = none := by
  refine ⟨?_, by rw [sd, Medium.get_put_self], fun path different => ?_⟩
  · rw [sd]
    exact initialized.ready .sd
  · rw [sd, Medium.get_put_of_ne different]
    exact (initialized.prepared.get .sd path).trans (absent path)

private theorem Initialized.of_still {before middle after later : Device} {salt : Bytes}
    {inner : Outcome Exn Unit} (still : Still after later)
    (initialized : Initialized platform env before salt inner middle after) :
    Initialized platform env before salt inner middle later :=
  ⟨initialized.prepared, initialized.ready, initialized.length,
    still.media ▸ initialized.mirrored, still.vault.trans initialized.vault⟩

/-- **The ends of a creation.** Either no metadata were written, or their writing
failed, or the passphrase was never confirmed, or the first manifest was saved under
the confirmed one, successfully or not. -/
inductive Created (platform : Platform) (env : Env) (before : Device) :
    Outcome Exn Bool → Device → Prop where
  | unprepared {outcome : Outcome Exn Bool} {after : Device} (same : SameFiles before after)
      (failed : outcome = .ok false ∨ outcome = .off) :
      Created platform env before outcome after
  | uninitialized {outcome : Outcome Exn Bool} {salt : Bytes} {inner : Outcome Exn Unit}
      {middle after : Device}
      (initialized : Initialized platform env before salt inner middle after)
      (notDone : inner ≠ .ok ()) (failed : outcome = .ok false ∨ outcome = .off) :
      Created platform env before outcome after
  | abandoned {outcome : Outcome Exn Bool} {salt : Bytes} {middle after : Device}
      (initialized : Initialized platform env before salt (.ok ()) middle after)
      (failed : outcome = .ok false ∨ outcome = .off)
      (never : ∀ passphrase, ¬ env.Chooses passphrase 0 env.patience) :
      Created platform env before outcome after
  | keyed {outcome : Outcome Exn Bool} {salt : Bytes} {middle start final after : Device}
      {passphrase : Text} {inner : Outcome Exn Unit}
      (initialized : Initialized platform env before salt (.ok ()) middle start)
      (nonempty : passphrase ≠ []) (chooses : env.Chooses passphrase 0 env.patience)
      (keyed : Keyed platform env salt passphrase start inner final after)
      (ended : outcome = endOfCreation inner) :
      Created platform env before outcome after

/-- What `_create_new_vault` does. -/
theorem createNewVault_created (device : Device) (fresh : ∀ title, device.entries title = 0) :
    Holds (createNewVault platform env) device (Created platform env device) := by
  have initializing : Holds (tryExcept (some <$> initializeVault platform env) fun exn => (do
      flashMessage (.failedToInitialize exn)
      pure none : Run (Option Meta))) device fun outcome after =>
      ((outcome = .ok none ∨ outcome = .off) ∧ (SameFiles device after ∨
        ∃ salt inner middle, Initialized platform env device salt inner middle after ∧
          inner ≠ .ok ())) ∨
      ∃ salt middle, outcome = .ok (some ⟨hexlify salt, formatVersion⟩) ∧
        after.history = device.history ∧
        Initialized platform env device salt (.ok ()) middle after := by
    refine Holds.tryExcept (Holds.map (initializeVault_holds device)) ?_ ?_ ?_
    · rintro value after ⟨outcome, ⟨history, same | ⟨salt, inner, middle, written, done, _⟩⟩, ended⟩
      · cases outcome <;> cases ended
        exact absurd rfl (same.2 _)
      · cases outcome <;> cases ended
        obtain ⟨rfl, rfl⟩ := done _ rfl
        exact .inr ⟨salt, middle, rfl, history, written⟩
    · rintro exn after ⟨outcome, ⟨history, same | ⟨salt, inner, middle, written, _, failed⟩⟩, ended⟩
      · cases outcome <;> cases ended
        exact .inl ⟨.inl rfl, .inl ⟨same.1.vault, same.1.get, same.1.hasDir⟩⟩
      · cases outcome <;> cases ended
        exact .inl ⟨.inl rfl, .inr ⟨salt, inner, middle, Initialized.of_still
          (show Still after _ from ⟨rfl, rfl⟩) written, failed nofun⟩⟩
    · rintro after ⟨outcome, ⟨history, same | ⟨salt, inner, middle, written, _, failed⟩⟩, ended⟩
      · cases outcome <;> cases ended
        exact .inl ⟨.inr rfl, .inl same.1⟩
      · cases outcome <;> cases ended
        exact .inl ⟨.inr rfl, .inr ⟨salt, inner, middle, written, failed nofun⟩⟩
  refine Holds.bind initializing ?_ ?_ ?_
  · rintro value start (⟨ended, failed⟩ | ⟨salt, middle, ended, history, initialized⟩)
    · obtain rfl : value = none := by
        rcases ended with same | same <;> cases same
        rfl
      rcases failed with same | ⟨salt, inner, middle, initialized, notDone⟩
      · exact .unprepared same (.inl rfl)
      · exact .uninitialized initialized notDone (.inl rfl)
    · cases ended
      have untyped : ∀ title, start.entries title = 0 := by
        intro title
        rw [Device.entries, history]
        exact fresh title
      refine (creationLoop_holds salt env.patience 0 start (untyped _) (untyped _)).mono ?_
      intro outcome after chosen
      cases chosen with
      | abandoned still failed never => exact .abandoned (initialized.of_still still) failed never
      | keyed still nonempty chooses keyed ended =>
          exact .keyed (initialized.of_still still) nonempty chooses keyed ended
  · rintro exn after (⟨ended | ended, _⟩ | ⟨_, _, ended, _⟩) <;> cases ended
  · rintro after (⟨_, failed⟩ | ⟨_, _, ended, _⟩)
    · rcases failed with same | ⟨salt, inner, middle, initialized, notDone⟩
      · exact .unprepared same (.inr rfl)
      · exact .uninitialized initialized notDone (.inr rfl)
    · cases ended

/-- Making a vault does not raise. -/
theorem Created.ne_raised {before after : Device} {outcome : Outcome Exn Bool}
    (created : Created platform env before outcome after) (exn : Exn) : outcome ≠ .raised exn := by
  cases created with
  | unprepared _ failed => rcases failed with rfl | rfl <;> exact nofun
  | uninitialized _ _ failed => rcases failed with rfl | rfl <;> exact nofun
  | abandoned _ failed _ => rcases failed with rfl | rfl <;> exact nofun
  | keyed _ _ _ _ ended =>
      rw [ended]
      exact endOfCreation_ne_raised _ exn

/-- A vault may be made after the device stood still. -/
theorem Created.of_still {before start after : Device} {outcome : Outcome Exn Bool}
    (still : Still before start) (created : Created platform env start outcome after) :
    Created platform env before outcome after := by
  have same := still.sameFiles
  have earlier : ∀ {salt inner middle after},
      Initialized platform env start salt inner middle after →
      Initialized platform env before salt inner middle after := fun initialized =>
    ⟨same.trans initialized.prepared, initialized.ready, initialized.length, initialized.mirrored,
      initialized.vault.trans still.vault⟩
  cases created with
  | unprepared prepared failed => exact .unprepared (same.trans prepared) failed
  | uninitialized initialized notDone failed =>
      exact .uninitialized (earlier initialized) notDone failed
  | abandoned initialized failed never => exact .abandoned (earlier initialized) failed never
  | keyed initialized nonempty chooses keyed ended =>
      exact .keyed (earlier initialized) nonempty chooses keyed ended

end VaultSeed.Vault
