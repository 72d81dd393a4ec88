import VaultSeed.Vault.Steps
import VaultSeed.Vault.Store

/-! # Power cuts between the operations of an update

The power is cut between two file operations, and the vault is opened again. An add
writes the secret before the manifest that lists it, so the manifest never lists a
secret that is not there. A deletion removes the secret first: cut before the new
manifest is opened for writing, it leaves a manifest that lists a missing file. All
other cuts are survived (`run_survives_cuts`).
-/

namespace VaultSeed.Vault

open Python Effect

/-- The texts of a run with the identifiers they were given, latest first. -/
abbrev Attempts := List (Text × Bytes)

/-- An add gives its text the next identifier of the manifest in RAM. -/
def noteAttempt (attempts : Attempts) (before : Device) (step : Step) (_after : Device) :
    Attempts :=
  match step.action, before.vault with
  | .add text, some vault =>
      match nextSecretId vault.manifest with
      | .ok secretId => (secretId, encode text) :: attempts
      | .error _ => attempts
  | _, _ => attempts

/-- Nothing fails but for power cuts between two file operations. -/
def Env.CutsBetween (env : Env) : Prop := ∀ op count, env.fault op count = .none ∨
  ((∃ left, env.fault op count = .cut left) ∧ ∀ disk path, op ≠ .write disk path)

/-- The power is not cut in a deletion between the removal of a listed secret from
the card and the writing of the manifest. -/
def DeletesWhole (device : Device) (step : Step) : Prop :=
  ∀ secretId vault, step.action = .delete secretId → device.vault = some vault →
    (∃ entry ∈ vault.manifest.secrets, entry.id = secretId) →
    step.env.answer .deleteSecret 0 = true →
    step.env.fault (.remove .sd (secretPath secretId)) 0 = .none →
    ∀ op, op.AfterRemoval secretId → step.env.fault op 0 = .none

section Invariant

variable (platform : Platform) (passphrase : Text)

/-- A card on which every listed secret is sealed in its file. -/
structure Intact (device : Device) (attempts : Attempts) (salt : Bytes) (manifest : Manifest) :
    Prop where
  salted : device.sd.get .metaFile = some (metaData platform salt)
  ready : device.sd.Ready
  lists : Lists platform (deriveKey platform passphrase salt) device.sd manifest
  secrets : ∀ entry ∈ manifest.secrets, ∃ plaintext envelope,
    attempts.lookup entry.id = some plaintext ∧
    device.sd.get (secretPath entry.id) = some envelope ∧
    Seals platform (deriveKey platform passphrase salt) (encode entry.id) plaintext envelope
  numbered : manifest.Numbered
  vault : ∀ vault, device.vault = some vault →
    vault.cipher = deriveKey platform passphrase salt ∧ vault.manifest = manifest

/-- **The invariant under power cuts**: no vault yet, or an intact one. -/
inductive CrashInvariant (device : Device) (attempts : Attempts) : Prop where
  | blank (absent : ∀ disk path, (device.disk disk).get path = none) (locked : device.vault = none)
  | intact (salt : Bytes) (manifest : Manifest)
      (intact : Intact platform passphrase device attempts salt manifest)

end Invariant

variable {platform : Platform} {passphrase : Text}

private theorem Env.CutsBetween.whole {env : Env} (cuts : env.CutsBetween) : env.Whole := by
  intro path count
  rcases cuts (.write .sd path) count with spared | ⟨_, other⟩
  · exact spared
  · exact absurd rfl (other .sd path)

private theorem Env.CutsBetween.not_raises {env : Env} (cuts : env.CutsBetween) : ¬ env.Raises := by
  rintro ⟨op, count, raised⟩
  rcases cuts op count with spared | ⟨⟨left, cut⟩, _⟩
  · rw [raised] at spared
    cases spared
  · rw [raised] at cut
    cases cut

private theorem Env.SeesMeta.of_not_raises {env : Env} (calm : ¬ env.Raises) : env.SeesMeta :=
  fun _ _ raised => calm ⟨_, _, raised⟩

private theorem Env.MissesManifest.raises {env : Env} (missed : env.MissesManifest) :
    env.Raises := by
  rcases missed with ⟨count, raised⟩ | ⟨count, raised⟩ <;> exact ⟨_, count, raised⟩

section Steps

variable {env : Env} {device result : Device} {attempts : Attempts} {salt : Bytes}
variable {manifest : Manifest}

/-- The invariant depends on the card and the vault in RAM only. -/
theorem Intact.congr (intact : Intact platform passphrase device attempts salt manifest)
    (sd : result.sd = device.sd)
    (vault : ∀ state, result.vault = some state → device.vault = some state) :
    Intact platform passphrase result attempts salt manifest :=
  ⟨sd ▸ intact.salted, sd ▸ intact.ready, sd ▸ intact.lists, sd ▸ intact.secrets, intact.numbered,
    fun state unlocked => intact.vault state (vault state unlocked)⟩

/-- A new attempt takes an identifier that no listed secret has. -/
theorem CrashInvariant.note (kept : CrashInvariant platform passphrase device attempts)
    (step : Step) (after : Device) :
    CrashInvariant platform passphrase device (noteAttempt attempts device step after) := by
  cases kept with
  | blank absent locked => exact .blank absent locked
  | intact salt manifest intact =>
      refine .intact salt manifest { intact with secrets := fun entry member => ?_ }
      obtain ⟨plaintext, envelope, known, rest⟩ := intact.secrets entry member
      refine ⟨plaintext, envelope, ?_, rest⟩
      unfold noteAttempt
      split
      · rename_i text vault _ unlocked
        obtain ⟨number, next, new⟩ := nextSecretId_fresh intact.numbered
        rw [(intact.vault vault unlocked).2, next]
        have other : (entry.id == format03d number) = false := by
          simpa using new entry member
        simpa [List.lookup_cons, other] using known
      · exact known

/-- The attempt of an add. -/
theorem noteAttempt_add {vault : VaultState} {text secretId : Text} {step : Step}
    (action : step.action = .add text) (unlocked : device.vault = some vault)
    (next : nextSecretId vault.manifest = .ok secretId) :
    (noteAttempt attempts device step result).lookup secretId = some (encode text) := by
  simp only [noteAttempt, action, unlocked, next, List.lookup_cons, BEq.rfl]

/-- A secret written to a file that no listed secret uses. -/
theorem Intact.put_secret (intact : Intact platform passphrase device attempts salt manifest)
    {secretId : Text} {envelope : Bytes}
    (new : ∀ entry ∈ manifest.secrets, entry.id ≠ secretId)
    (sd : result.sd = device.sd.put (secretPath secretId) envelope) (locked : result.vault = none) :
    Intact platform passphrase result attempts salt manifest := by
  refine ⟨?_, ?_, ?_, ?_, intact.numbered, ?_⟩
  · rw [sd, Medium.get_put_of_ne (by simp), intact.salted]
  · rw [sd]
    exact intact.ready
  · refine intact.lists.congr ?_
    rw [sd, Medium.get_put_of_ne (by simp)]
  · intro entry member
    rw [sd, Medium.get_put_of_ne fun same => new entry member (secretPath_injective same)]
    exact intact.secrets entry member
  · intro state unlocked
    rw [locked] at unlocked
    cases unlocked

/-- The next identifier, as the manifest of the card tells it. -/
theorem Intact.next_fresh (intact : Intact platform passphrase device attempts salt manifest)
    {secretId : Text} (next : nextSecretId manifest = .ok secretId) :
    (∃ number, secretId = format03d number) ∧ ∀ entry ∈ manifest.secrets, entry.id ≠ secretId := by
  obtain ⟨number, same, new⟩ := nextSecretId_fresh intact.numbered
  rw [same] at next
  cases next
  exact ⟨⟨number, rfl⟩, new⟩

/-- An add. -/
theorem Intact.perform_add (lawful : platform.Lawful) (cuts : env.CutsBetween)
    (intact : Intact platform passphrase device attempts salt manifest) {vault : VaultState}
    (unlocked : device.vault = some vault) (text : Text)
    (attempted : ∀ secretId, nextSecretId vault.manifest = .ok secretId →
      attempts.lookup secretId = some (encode text)) :
    CrashInvariant platform passphrase (perform platform device ⟨.add text, env⟩) attempts := by
  obtain ⟨key, listed⟩ := intact.vault vault unlocked
  have added : AddedTo platform env vault text device.sd _ _ := perform_add_card cuts.whole
    (key ▸ length_deriveKey lawful passphrase salt) intact.ready unlocked text
  generalize perform platform device ⟨.add text, env⟩ = result at added
  generalize after : result.sd = sd at added
  generalize known : result.vault = state at added
  cases added with
  | nothing kept =>
      refine .intact salt manifest (intact.congr after fun other same => ?_)
      rw [known] at same
      rw [eq_of_stays kept same, unlocked]
  | secretOnly next secret kept =>
      rw [listed] at next
      refine .intact salt manifest (intact.put_secret (intact.next_fresh next).2 after ?_)
      rcases kept with none | ⟨_, raises⟩
      · exact known.trans none
      · exact absurd raises cuts.not_raises
  | @both entry envelope second _ next secret list kept =>
      have written := attempted _ next
      rw [listed] at next
      obtain ⟨numeral, new⟩ := intact.next_fresh next
      rw [key] at secret list
      rw [listed] at list
      refine .intact salt (addToManifest manifest entry) ⟨?_, ?_, ?_, ?_, ?_, ?_⟩
      · rw [after, Medium.get_put_of_ne (by simp), Medium.get_put_of_ne (by simp), intact.salted]
      · rw [after]
        exact intact.ready
      · rw [after]
        exact .of_put list
      · intro other member
        rw [after, Medium.get_put_of_ne (by simp)]
        rcases List.mem_append.mp member with before | last
        · rw [Medium.get_put_of_ne fun same => new other before (secretPath_injective same)]
          exact intact.secrets other before
        · rw [List.mem_singleton.mp last, Medium.get_put_self]
          exact ⟨_, _, written, rfl, secret⟩
      · exact addToManifest_numbered intact.numbered numeral
      · intro other same
        rw [known] at same
        rw [eq_of_stays kept same]
        exact ⟨key, by rw [← listed]; rfl⟩

/-- A secret that the manifest does not list removed from the card, or nothing. -/
theorem Intact.remove_unlisted (intact : Intact platform passphrase device attempts salt manifest)
    {secretId : Text} {after : Medium} (removed : CardRemoved env secretId device.sd after)
    (unlisted : ∀ entry ∈ manifest.secrets, entry.id ≠ secretId) (sd : result.sd = after)
    (vault : ∀ state, result.vault = some state →
      state.cipher = deriveKey platform passphrase salt ∧ state.manifest = manifest) :
    Intact platform passphrase result attempts salt manifest := by
  have others : ∀ path, path ≠ secretPath secretId → result.sd.get path = device.sd.get path := by
    intro path different
    rw [sd, removed.get_of_ne different]
  refine ⟨?_, ?_, intact.lists.congr (others _ (by simp)), ?_, intact.numbered, vault⟩
  · rw [others _ (by simp), intact.salted]
  · rw [sd]
    exact removed.ready intact.ready
  · intro entry member
    rw [others _ fun same => unlisted entry member (secretPath_injective same)]
    exact intact.secrets entry member

/-- A deletion. -/
theorem Intact.perform_delete (lawful : platform.Lawful) (cuts : env.CutsBetween)
    (intact : Intact platform passphrase device attempts salt manifest) {vault : VaultState}
    (unlocked : device.vault = some vault) (secretId : Text)
    (whole : DeletesWhole device ⟨.delete secretId, env⟩) :
    CrashInvariant platform passphrase (perform platform device ⟨.delete secretId, env⟩)
      attempts := by
  obtain ⟨key, listed⟩ := intact.vault vault unlocked
  have deleted : DeletedFrom platform env vault secretId device.sd _ _ := perform_delete_card
    cuts.whole (key ▸ length_deriveKey lawful passphrase salt) intact.ready unlocked secretId
  generalize perform platform device ⟨.delete secretId, env⟩ = result at deleted
  generalize after : result.sd = sd at deleted
  generalize known : result.vault = state at deleted
  have states : state = none ∨ state = some (vault.listing
      (removeFromManifest vault.manifest secretId)) → ∀ other, result.vault = some other →
      other.cipher = deriveKey platform passphrase salt ∧
        other.manifest = removeFromManifest manifest secretId := by
    intro kept other same
    rw [known] at same
    rw [eq_of_stays kept same]
    exact ⟨key, by rw [← listed]; rfl⟩
  cases deleted with
  | nothing kept =>
      refine .intact salt manifest (intact.congr after fun other same => ?_)
      rw [known] at same
      rw [eq_of_stays kept same, unlocked]
  | unsaved agreed fault removed kept =>
      obtain ⟨op, between, hit⟩ := fault
      -- A listed secret is out of the question: the cut would come after its removal.
      have unlisted : ∀ entry ∈ manifest.secrets, entry.id ≠ secretId := by
        intro entry member same
        rcases removed with ⟨_, spared⟩ | ⟨_, raised⟩
        · exact hit (whole secretId vault rfl unlocked ⟨entry, listed ▸ member, same⟩
            agreed spared op between)
        · exact absurd ⟨_, _, raised⟩ cuts.not_raises
      refine .intact salt manifest
        (intact.remove_unlisted removed unlisted after fun other same => ?_)
      rw [← removeFromManifest_eq_self.mpr unlisted]
      exact states kept other same
  | @saved middle second _ _ removed list kept =>
      rw [key, listed] at list
      have others : ∀ path, path ≠ secretPath secretId → path ≠ .manifestFile →
          result.sd.get path = device.sd.get path := by
        intro path notSecret notManifest
        rw [after, Medium.get_put_of_ne notManifest]
        exact removed.get_of_ne notSecret
      refine .intact salt (removeFromManifest manifest secretId) ⟨?_, ?_, ?_, ?_, ?_, states kept⟩
      · rw [others _ (by simp) (by simp), intact.salted]
      · rw [after]
        exact removed.ready intact.ready
      · rw [after]
        exact .of_put list
      · intro entry member
        obtain ⟨before, different⟩ := List.mem_filter.mp member
        rw [others _ (fun same =>
          (of_decide_eq_true different) (secretPath_injective same)) (by simp)]
        exact intact.secrets entry before
      · exact removeFromManifest_numbered intact.numbered secretId

/-- A boot: the vault is opened as it is on the card, or a new one is made. -/
theorem CrashInvariant.perform_boot (lawful : platform.Lawful) (cuts : env.CutsBetween)
    (types : env.Types passphrase) (kept : CrashInvariant platform passphrase device attempts)
    (locked : device.vault = none) :
    CrashInvariant platform passphrase (perform platform device ⟨.boot, env⟩) attempts := by
  have sees := Env.SeesMeta.of_not_raises cuts.not_raises
  cases kept with
  | blank absent _ =>
      cases perform_boot_blank lawful cuts.whole sees absent locked with
      | nothing absent locked => exact .blank absent locked
      | unkeyed salt ready salted others locked _ =>
          refine .intact salt .empty
            ⟨salted, ready, .inl ⟨others _ (by simp), rfl⟩, nofun, nofun, ?_⟩
          intro vault unlocked
          rw [locked] at unlocked
          cases unlocked
      | keyed salt entered envelope ready salted stored list others chooses _ state =>
          rw [types.chooses chooses] at list state
          refine .intact salt .empty
            ⟨salted, ready, .inr ⟨envelope, stored, list⟩, nofun, nofun, ?_⟩
          intro vault unlocked
          rcases state with none | opened
          · rw [none] at unlocked
            cases unlocked
          · rw [opened] at unlocked
            cases unlocked
            exact ⟨rfl, rfl⟩
  | intact salt manifest intact =>
      rcases perform_boot_present platform sees intact.salted locked with
        still | ⟨salt', entered, found, opened⟩
      · exact .intact salt manifest (intact.congr (congrArg Media.sd still.media) fun _ same =>
          still.vault ▸ same)
      · have salted := opened.salted
        rw [saltOn_of_meta lawful intact.salted] at salted
        cases salted
        obtain ⟨count, typed⟩ := opened.typed
        obtain rfl := (types count entered typed).resolve_left opened.nonempty
        rcases opened.reads with same | ⟨_, missed⟩
        · rw [intact.lists.manifestOn lawful] at same
          cases same
          have sd := congrArg Media.sd opened.media
          refine .intact salt manifest ⟨sd ▸ intact.salted, sd ▸ intact.ready, sd ▸ intact.lists,
            sd ▸ intact.secrets, intact.numbered, ?_⟩
          intro vault unlocked
          rw [opened.vault] at unlocked
          cases unlocked
          exact ⟨rfl, rfl⟩
        · exact absurd missed.raises cuts.not_raises

/-- **One step keeps the invariant under power cuts.** -/
theorem CrashInvariant.step (lawful : platform.Lawful) {step : Step} (cuts : step.env.CutsBetween)
    (types : step.env.Types passphrase) (whole : DeletesWhole device step)
    (kept : CrashInvariant platform passphrase device attempts) :
    CrashInvariant platform passphrase (perform platform device step)
      (noteAttempt attempts device step (perform platform device step)) := by
  have noted := kept.note step device
  change CrashInvariant platform passphrase _ (noteAttempt attempts device step device)
  refine perform_cases (fun result => CrashInvariant platform passphrase result
    (noteAttempt attempts device step device)) step ?_ ?_ ?_ ?_ ?_
  · cases noted with
    | blank absent locked => exact .blank absent locked
    | intact salt manifest intact => exact .intact salt manifest (intact.congr rfl fun _ => id)
  · intro _ locked
    exact noted.perform_boot lawful cuts types locked
  · intro vault text action unlocked
    cases noted with
    | blank _ locked =>
        rw [locked] at unlocked
        cases unlocked
    | intact salt manifest intact =>
        exact intact.perform_add lawful cuts unlocked text fun secretId next =>
          noteAttempt_add action unlocked next
  · intro vault secretId action unlocked
    cases noted with
    | blank _ locked =>
        rw [locked] at unlocked
        cases unlocked
    | intact salt manifest intact =>
        refine intact.perform_delete lawful cuts unlocked secretId ?_
        rw [← action]
        exact whole
  · cases noted with
    | blank absent locked => exact .blank absent rfl
    | intact salt manifest intact => exact .intact salt manifest (intact.congr rfl nofun)

end Steps

/-- The attempts of a run from a device without a vault. -/
def attemptsOf (platform : Platform) (steps : List Step) : Attempts :=
  (Runs.track (perform platform) noteAttempt (Device.fresh, []) steps).2

/-- **Power cuts between file operations are survived**, except in a deletion between
the removal of a listed secret and the writing of the manifest: after every other run
there is no vault yet, or a restart with the passphrase opens it, and every secret it
lists is loaded with the plaintext that was added. -/
theorem run_survives_cuts (lawful : platform.Lawful) (passphrase : Text)
    (nonempty : passphrase ≠ []) (steps : List Step)
    (along : Runs.Along (perform platform) (fun device step => step.env.CutsBetween ∧
      step.env.Types passphrase ∧ DeletesWhole device step) .fresh steps) :
    (∀ disk path, ((run platform .fresh steps).disk disk).get path = none) ∨
    ∀ env : Env, env.Quiet → 0 < env.patience → env.keypad .passphrase 0 = some passphrase →
      let booted := perform platform (run platform .fresh steps).restarted ⟨.boot, env⟩
      ∃ vault, booted.vault = some vault ∧ ∀ entry ∈ vault.manifest.secrets, ∃ plaintext,
        (attemptsOf platform steps).lookup entry.id = some plaintext ∧
        (loadSecret platform env vault.cipher entry.id booted).1 = .ok (some plaintext) := by
  have kept : CrashInvariant platform passphrase
      (Runs.track (perform platform) noteAttempt (Device.fresh, []) steps).1
      (attemptsOf platform steps) := by
    refine Runs.track_invariant (fun device attempts step allowed kept =>
      kept.step lawful allowed.1 allowed.2.1 allowed.2.2) _ _ along ?_
    exact .blank (fun disk path => by cases disk <;> rfl) rfl
  rw [Runs.track_fst] at kept
  cases kept with
  | blank absent _ => exact .inl absent
  | intact salt manifest intact =>
      refine .inr fun env quiet patient entered => ?_
      have locked : (run platform .fresh steps).restarted.vault = none := rfl
      obtain ⟨media, opened⟩ := perform_boot_opens quiet patient locked
        (saltOn_of_meta lawful intact.salted) entered nonempty (intact.lists.manifestOn lawful)
      refine ⟨_, opened, fun entry member => ?_⟩
      obtain ⟨plaintext, envelope, attempted, stored, seals⟩ := intact.secrets entry member
      refine ⟨plaintext, attempted, ?_⟩
      rw [loadSecret_fst _ _ _ fun missed => missed.elim (quiet.not_faulty _) (quiet.not_faulty _),
        media]
      exact congrArg Outcome.ok (secretOn_of_seals lawful stored seals)

private theorem Env.Quiet.cutsBetween {env : Env} (quiet : env.Quiet) : env.CutsBetween :=
  fun _ _ => .inl (quiet _ _)

private theorem Sample.failing_cutsBetween (entry : Text) {op : FileOp} (left : Nat)
    (between : ∀ disk path, op ≠ .write disk path) :
    (Sample.failing entry op (.cut left)).CutsBetween := by
  intro other count
  by_cases same : other = op
  · subst same
    exact .inr ⟨⟨left, if_pos rfl⟩, between⟩
  · exact .inl (if_neg same)

private theorem DeletesWhole.of_quiet {step : Step} (quiet : step.env.Quiet) (device : Device) :
    DeletesWhole device step :=
  fun _ _ _ _ _ _ _ _ _ => quiet _ _

private theorem DeletesWhole.of_add {text : Text} {env : Env} (device : Device) :
    DeletesWhole device ⟨.add text, env⟩ :=
  fun _ _ impossible => by cases impossible

/-- A power cut between the secret and the manifest of an add. -/
def Sample.cutAdd : List Step :=
  Sample.steps ['a'] [.boot, .add ['x'], .add ['y'], .delete ['0', '0', '1']] ++
    [⟨.add ['z'], Sample.failing ['a'] (.openWrite .sd .manifestFile) (.cut 0)⟩]

/-- A power cut in an add leaves the vault as it was. -/
theorem run_survives_cuts_add :
    (∀ disk path, ((run Sample.platform .fresh Sample.cutAdd).disk disk).get path = none) ∨
    ∀ env : Env, env.Quiet → 0 < env.patience → env.keypad .passphrase 0 = some ['a'] →
      let booted := perform Sample.platform (run Sample.platform .fresh Sample.cutAdd).restarted
        ⟨.boot, env⟩
      ∃ vault, booted.vault = some vault ∧ ∀ entry ∈ vault.manifest.secrets, ∃ plaintext,
        (attemptsOf Sample.platform Sample.cutAdd).lookup entry.id = some plaintext ∧
        (loadSecret Sample.platform env vault.cipher entry.id booted).1 = .ok (some plaintext) := by
  refine run_survives_cuts Sample.platform_lawful ['a'] nofun Sample.cutAdd
    (Runs.along_of_forall _ _ fun step member device => ?_)
  rcases List.mem_append.mp member with early | last
  · obtain ⟨action, _, rfl⟩ := List.mem_map.mp early
    have quiet := Sample.env_quiet ['a']
    exact ⟨quiet.cutsBetween, Sample.env_types _, .of_quiet quiet device⟩
  · rw [List.mem_singleton.mp last]
    exact ⟨Sample.failing_cutsBetween _ 0 nofun, Sample.env_types _, .of_add device⟩

/-- A power cut between the removal of a secret and the manifest of a deletion. -/
def Sample.cutDelete : List Step :=
  Sample.steps ['a'] [.boot, .add ['x']] ++
    [⟨.delete ['0', '0', '1'], Sample.failing ['a']
      (.remove .flash (secretPath ['0', '0', '1'])) (.cut 0)⟩]

/-- **A power cut in a deletion leaves a manifest that lists a missing secret.** -/
theorem deletion_cut_lists_missing :
    let booted := perform Sample.platform (run Sample.platform .fresh Sample.cutDelete).restarted
      ⟨.boot, Sample.env ['a']⟩
    (∀ step ∈ Sample.cutDelete, step.env.CutsBetween ∧ step.env.Types ['a']) ∧
    ∃ vault, booted.vault = some vault ∧ ∃ entry ∈ vault.manifest.secrets,
      (loadSecret Sample.platform (Sample.env ['a']) vault.cipher entry.id booted).1 =
        .ok none := by
  intro booted
  refine ⟨?_, ?_⟩
  · intro step member
    rcases List.mem_append.mp member with early | last
    · obtain ⟨action, _, rfl⟩ := List.mem_map.mp early
      exact ⟨(Sample.env_quiet ['a']).cutsBetween, Sample.env_types _⟩
    · rw [List.mem_singleton.mp last]
      exact ⟨Sample.failing_cutsBetween _ 0 (by simp), Sample.env_types _⟩
  · have opened : (booted.vault.any fun vault => vault.manifest.secrets.any fun entry =>
        (loadSecret Sample.platform (Sample.env ['a']) vault.cipher entry.id booted).1 ==
          .ok none) = true := by decide +kernel
    obtain ⟨vault, unlocked, listed⟩ := (Option.any_eq_true _ _).mp opened
    obtain ⟨entry, member, missing⟩ := List.any_eq_true.mp listed
    exact ⟨vault, unlocked, entry, member, by simpa using missing⟩

end VaultSeed.Vault
