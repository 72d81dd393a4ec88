import VaultSeed.Vault.Provenance
import VaultSeed.Vault.Store

/-! # Which envelope is loaded

Every envelope carries the identifier it was sealed under, but `load_secret` and
`load_manifest` do not look at it: under one key all envelopes are interchangeable, and
someone without the key can exchange them. What is loaded from a rearranged card is
still the plaintext of a save of the same vault (`rearranged_loads_saved`), whatever
the faults of the run.
-/

namespace VaultSeed.Vault

open Python Effect

section Loading

variable {platform : Platform} {env : Env} {cipher : Kef.Cipher} {device : Device}

/-- A plaintext that `load_secret` returns is the one of the file. -/
theorem loadSecret_returned {secretId : Text} {plaintext : Bytes}
    (returned : (loadSecret platform env cipher secretId device).1 = .ok (some plaintext)) :
    ∃ data, device.sd.get (secretPath secretId) = some data ∧
      openEnvelope platform cipher data = .ok (some plaintext) := by
  have reading : Proc.Holds (do
      mount env .loadSecret
      let data ← read env .sd (secretPath secretId)
      Proc.ofExcept (openEnvelope platform cipher data)) device fun outcome _ =>
      ∀ found, outcome = .ok (some found) → ∃ data,
        device.sd.get (secretPath secretId) = some data ∧
        openEnvelope platform cipher data = .ok (some found) := by
    refine Proc.Holds.bind (mount_holds env .loadSecret device) ?_
      (by simp) (by simp)
    rintro _ _ ⟨rfl, _⟩
    refine Proc.Holds.bind (read_holds env .sd (secretPath secretId) _) ?_
      (by simp) (by simp)
    rintro data _ ⟨rfl, ⟨_, stops, _⟩ | ⟨_, result⟩⟩
    · cases stops
    cases stored : device.sd.get (secretPath secretId) with
    | none =>
        simp only [Media.disk, Device.push, stored] at result
        cases result
    | some content =>
        simp only [Media.disk, Device.push, stored] at result
        cases result
        intro found
        cases opened : openEnvelope platform cipher data with
        | error exn => simp
        | ok value =>
            intro same
            cases same
            exact ⟨data, rfl, opened⟩
  have handled : Proc.Holds (loadSecret platform env cipher secretId) device fun outcome _ =>
      ∀ found, outcome = .ok (some found) → ∃ data,
        device.sd.get (secretPath secretId) = some data ∧
        openEnvelope platform cipher data = .ok (some found) := by
    refine Proc.Holds.tryExcept reading (fun _ _ known => known) ?_ (by simp)
    intro exn after _ found same
    cases same
  exact handled plaintext returned

/-- A document that `load_manifest` returns is the one of the file, unless the file is
missing or reading it raises. -/
theorem loadManifest_returned {Doc : Type} {json : Ujson Doc} {empty doc : Doc}
    (reliable : ¬ env.MissesManifest) (present : device.sd.get .manifestFile ≠ none)
    (returned : (loadManifest platform env json empty cipher device).1 = .ok (some doc)) :
    ∃ data plaintext, device.sd.get .manifestFile = some data ∧
      openEnvelope platform cipher data = .ok (some plaintext) ∧
      (decode plaintext).bind json.loads = some doc := by
  have reading : Proc.Holds (Proc.tryExcept (do
      mount env .loadManifest
      let data ← read env .sd .manifestFile
      pure (some data)) fun _ => (pure none : Run (Option Bytes))) device fun outcome _ =>
      ∀ value, outcome = .ok value → value = device.sd.get .manifestFile := by
    refine Proc.Holds.tryExcept (readManifest_holds device) (fun _ _ known => known.2.1) ?_
      fun _ _ _ off => nomatch off
    rintro exn _ ⟨_, _, missing, _⟩
    exact absurd (missing exn rfl) (not_or.mpr ⟨present, reliable⟩)
  have decoding : Proc.Holds (loadManifest platform env json empty cipher) device fun outcome _ =>
      ∀ found, outcome = .ok (some found) → ∃ data, device.sd.get .manifestFile = some data ∧
        decodeManifest platform json cipher data = some found := by
    refine Proc.Holds.bind reading ?_ (fun _ _ _ _ raised => nomatch raised)
      fun _ _ _ off => nomatch off
    intro value after known found
    cases value with
    | none => exact absurd (known none rfl).symm present
    | some data =>
        intro same
        exact ⟨data, (known _ rfl).symm, by injection same⟩
  obtain ⟨data, stored, decoded⟩ := decoding doc returned
  refine ⟨data, ?_⟩
  unfold decodeManifest at decoded
  split at decoded
  · rename_i plaintext opened
    exact ⟨plaintext, stored, opened, decoded⟩
  · cases decoded

end Loading

section Rearranging

/-- A card whose files, the metadata apart, are files of another card under any names. -/
def Rearranged (sd card : Medium) : Prop := ∀ path data, path ≠ .metaFile →
  card.get path = some data → ∃ source, source ≠ .metaFile ∧ sd.get source = some data

/-- The authentication under a key: of what a save wrote, nothing opens that was sealed
under another key, and nothing that is torn. -/
structure Authenticates (platform : Platform) (cipher : Kef.Cipher) (save : Save) : Prop where
  otherKey : save.cipher ≠ cipher → ∀ plaintext,
    openEnvelope platform cipher save.envelope ≠ .ok (some plaintext)
  torn : ∀ left < save.envelope.length, ∀ plaintext,
    openEnvelope platform cipher (save.envelope.take left) ≠ .ok (some plaintext)

variable {platform : Platform}

/-- What opens under a key is the whole envelope of a save under it. -/
theorem Provenance.opened (inverts : platform.crypto.GcmInverts) {device : Device}
    (kept : Provenance platform device) {cipher : Kef.Cipher} {path : Path}
    {data plaintext : Bytes}
    (authentic : ∀ save ∈ device.saves, Authenticates platform cipher save)
    (notMeta : path ≠ .metaFile) (stored : device.sd.get path = some data)
    (opened : openEnvelope platform cipher data = .ok (some plaintext)) :
    ∃ save ∈ device.saves, save.path = path ∧ data = save.envelope ∧ save.cipher = cipher ∧
      save.plaintext platform = plaintext := by
  obtain ⟨save, member, same, left, rfl⟩ := kept.content .sd path data notMeta stored
  have whole : save.envelope.length ≤ left := by
    by_contra less
    exact (authentic save member).torn left (not_le.mp less) plaintext opened
  rw [List.take_of_length_le whole] at opened ⊢
  have key : save.cipher = cipher := by
    by_contra other
    exact (authentic save member).otherKey other plaintext opened
  have sealed := (kept.sealed save member).opens inverts
  rw [key, opened] at sealed
  injection sealed with sealed
  injection sealed with sealed
  exact ⟨save, member, same, rfl, key, sealed.symm⟩

/-- **What is loaded from a rearranged card was saved in the run** under the same key,
by a save whose envelope was moved there; which save it was, `load_secret` and
`load_manifest` do not check. -/
theorem rearranged_loads_saved (lawful : platform.Lawful) (steps : List Step) {card : Medium}
    (rearranged : Rearranged (run platform .fresh steps).sd card) {cipher : Kef.Cipher}
    (authentic : ∀ save ∈ savesOf platform steps, Authenticates platform cipher save)
    {device : Device} (inserted : device.sd = card) (env : Env) :
    (∀ secretId plaintext,
      (loadSecret platform env cipher secretId device).1 = .ok (some plaintext) →
      ∃ save ∈ savesOf platform steps, card.get (secretPath secretId) = some save.envelope ∧
        save.cipher = cipher ∧ save.plaintext platform = plaintext) ∧
    ∀ {Doc : Type} (json : Ujson Doc) (empty doc : Doc), card.get .manifestFile ≠ none →
      ¬ env.MissesManifest →
      (loadManifest platform env json empty cipher device).1 = .ok (some doc) →
      ∃ save ∈ savesOf platform steps, card.get .manifestFile = some save.envelope ∧
        save.cipher = cipher ∧ (decode (save.plaintext platform)).bind json.loads = some doc := by
  subst inserted
  have kept := run_provenance platform steps
  have source : ∀ path data plaintext, path ≠ .metaFile → device.sd.get path = some data →
      openEnvelope platform cipher data = .ok (some plaintext) →
      ∃ save ∈ savesOf platform steps, device.sd.get path = some save.envelope ∧
        save.cipher = cipher ∧ save.plaintext platform = plaintext := by
    intro path data plaintext notMeta stored opened
    obtain ⟨origin, named, found⟩ := rearranged path data notMeta stored
    obtain ⟨save, member, _, rfl, key, same⟩ :=
      kept.opened lawful.inverts authentic named found opened
    exact ⟨save, member, stored, key, same⟩
  refine ⟨fun secretId plaintext returned => ?_, fun json empty doc present reliable returned => ?_⟩
  · obtain ⟨data, stored, opened⟩ := loadSecret_returned returned
    exact source _ data plaintext (secretPath_ne_metaFile secretId) stored opened
  · obtain ⟨data, plaintext, stored, opened, loads⟩ :=
      loadManifest_returned reliable present returned
    obtain ⟨save, member, held, key, rfl⟩ := source .manifestFile data plaintext nofun stored opened
    exact ⟨save, member, held, key, loads⟩

end Rearranging

/-- A card on which one file is copied over another. -/
def Medium.copied (medium : Medium) (source target : Path) : Medium :=
  match medium.get source with
  | some data => medium.put target data
  | none => medium

/-- A card on which two files are exchanged. -/
def Medium.swapped (medium : Medium) (first second : Path) : Medium :=
  match medium.get first with
  | some data => (medium.copied second first).put second data
  | none => medium

private theorem Rearranged.put {sd card : Medium} (rearranged : Rearranged sd card)
    {source target : Path}
    {data : Bytes} (notMeta : source ≠ .metaFile) (held : sd.get source = some data) :
    Rearranged sd (card.put target data) := by
  intro path content named stored
  rw [Medium.get_put] at stored
  split at stored
  · cases stored
    exact ⟨source, notMeta, held⟩
  · exact rearranged path content named stored

private theorem rearranged_copied (sd : Medium) {source : Path} (target : Path)
    (notMeta : source ≠ .metaFile) : Rearranged sd (sd.copied source target) := by
  have same : Rearranged sd sd := fun path _ named stored => ⟨path, named, stored⟩
  unfold Medium.copied
  split
  · rename_i held
    exact same.put notMeta held
  · exact same

private theorem rearranged_swapped (sd : Medium) {first second : Path}
    (firstNamed : first ≠ .metaFile)
    (secondNamed : second ≠ .metaFile) : Rearranged sd (sd.swapped first second) := by
  unfold Medium.swapped
  split
  · rename_i held
    exact (rearranged_copied sd first secondNamed).put firstNamed held
  · exact fun path _ named stored => ⟨path, named, stored⟩

namespace Sample

/-- A vault with two secrets. -/
def pair : List Step := steps ['a'] [.boot, .add ['x'], .add ['y']]

/-- The key of the vault. -/
def pairKey : Kef.Cipher := deriveKey platform ['a'] salt

/-- Nothing opens these data. -/
def refuses (cipher : Kef.Cipher) (data : Bytes) : Bool :=
  match openEnvelope platform cipher data with
  | .ok (some _) => false
  | _ => true

private theorem ne_of_refuses {cipher : Kef.Cipher} {data : Bytes}
    (refused : refuses cipher data = true)
    (plaintext : Bytes) : openEnvelope platform cipher data ≠ .ok (some plaintext) := by
  intro opened
  rw [refuses, opened] at refused
  cases refused

/-- All saves are under the one key, and nothing torn opens. -/
theorem pair_authentic (save : Save) (member : save ∈ savesOf platform pair) :
    Authenticates platform pairKey save := by
  have checked : (savesOf platform pair).all (fun save => decide (save.cipher = pairKey) &&
      (List.range save.envelope.length).all fun left =>
        refuses pairKey (save.envelope.take left)) = true := by decide +kernel
  obtain ⟨key, torn⟩ := Bool.and_eq_true_iff.mp (List.all_eq_true.mp checked save member)
  refine ⟨fun other => absurd (of_decide_eq_true key) other, fun left less => ?_⟩
  exact ne_of_refuses (List.all_eq_true.mp torn left (List.mem_range.mpr less))

/-- The card of the vault, the files of its two secrets exchanged. -/
def swappedCard : Medium :=
  (run platform .fresh pair).sd.swapped (secretPath ['0', '0', '1']) (secretPath ['0', '0', '2'])

end Sample

/-- Each of two secrets loaded as the other one. -/
theorem rearranged_loads_saved_swapped :
    ((loadSecret Sample.platform (Sample.env ['a']) Sample.pairKey ['0', '0', '1']
      { Device.fresh with sd := Sample.swappedCard }).1 = .ok (some (encode ['y'])) ∧
    ∃ save ∈ savesOf Sample.platform Sample.pair,
      Sample.swappedCard.get (secretPath ['0', '0', '1']) = some save.envelope ∧
      save.cipher = Sample.pairKey ∧ save.plaintext Sample.platform = encode ['y']) ∧
    ((loadSecret Sample.platform (Sample.env ['a']) Sample.pairKey ['0', '0', '2']
      { Device.fresh with sd := Sample.swappedCard }).1 = .ok (some (encode ['x'])) ∧
    ∃ save ∈ savesOf Sample.platform Sample.pair,
      Sample.swappedCard.get (secretPath ['0', '0', '2']) = some save.envelope ∧
      save.cipher = Sample.pairKey ∧ save.plaintext Sample.platform = encode ['x']) := by
  have second : (loadSecret Sample.platform (Sample.env ['a']) Sample.pairKey ['0', '0', '1']
      { Device.fresh with sd := Sample.swappedCard }).1 = .ok (some (encode ['y'])) := by
    decide +kernel
  have first : (loadSecret Sample.platform (Sample.env ['a']) Sample.pairKey ['0', '0', '2']
      { Device.fresh with sd := Sample.swappedCard }).1 = .ok (some (encode ['x'])) := by
    decide +kernel
  have rearranged : Rearranged (run Sample.platform .fresh Sample.pair).sd Sample.swappedCard :=
    rearranged_swapped _ (secretPath_ne_metaFile _) (secretPath_ne_metaFile _)
  have inserted : ({ Device.fresh with sd := Sample.swappedCard } : Device).sd =
      Sample.swappedCard := rfl
  have loads := (rearranged_loads_saved Sample.platform_lawful Sample.pair rearranged
    Sample.pair_authentic inserted (Sample.env ['a'])).1
  exact ⟨⟨second, loads _ _ second⟩, first, loads _ _ first⟩

/-- **The envelope of one secret is loaded as another one**: with the file of the second
copied over the first, `load_secret` of the first returns a text that was never saved
under its identifier. -/
theorem copied_secret_not_bound :
    let card := (run Sample.platform .fresh Sample.pair).sd.copied (secretPath ['0', '0', '2'])
      (secretPath ['0', '0', '1'])
    let cipher := deriveKey Sample.platform ['a'] Sample.salt
    Rearranged (run Sample.platform .fresh Sample.pair).sd card ∧
    (loadSecret Sample.platform (Sample.env ['a']) cipher ['0', '0', '1']
      { Device.fresh with sd := card }).1 = .ok (some (encode ['y'])) ∧
    ¬ ∃ envelope, .secret cipher ['0', '0', '1'] (encode ['y']) envelope ∈
      savesOf Sample.platform Sample.pair := by
  refine ⟨rearranged_copied _ _ (secretPath_ne_metaFile _), by decide +kernel, ?_⟩
  rintro ⟨envelope, member⟩
  have others : (savesOf Sample.platform Sample.pair).all (fun save =>
      decide (save.path = secretPath ['0', '0', '1'] → save.plaintext Sample.platform ≠
        encode ['y'])) = true := by decide +kernel
  exact of_decide_eq_true (List.all_eq_true.mp others _ member) rfl rfl

end VaultSeed.Vault
