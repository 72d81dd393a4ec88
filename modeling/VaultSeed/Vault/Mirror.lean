import VaultSeed.Vault.Restore
import VaultSeed.Vault.Steps

/-! # The two media as mirrors of each other

Every file is written to the card first and to flash second, and a secret is removed in
the same order. As long as no write raises, the two media hold the same files after every
action, and a power cut inside a write finds the file whole on the other medium
(`Twin` and `Surviving`, kept by every procedure).
-/

namespace VaultSeed.Vault

open Python Effect

section Twin

variable (good : Path → Bytes → Prop) (wanted : Path → Prop)

/-- Two media with the same files, all of them good, the wanted ones among them. -/
structure Twin (device : Device) : Prop where
  agree : ∀ path, device.sd.get path = device.flash.get path
  content : ∀ path data, device.sd.get path = some data → good path data
  kept : ∀ path, wanted path → device.sd.get path ≠ none

/-- Both media have the vault directories. -/
def BothReady (device : Device) : Prop := ∀ disk, (device.disk disk).Ready

/-- Twins that are ready to be written to. -/
structure Founded (device : Device) : Prop extends Twin good wanted device where
  ready : BothReady device

/-- Twins that are ready to be written to once there is a file, or a vault in RAM. -/
structure Paired (device : Device) : Prop extends Twin good wanted device where
  founded : device.vault ≠ none ∨ (∃ path, device.sd.get path ≠ none) → BothReady device

/-- Every wanted file is good on one of the media. -/
def Surviving (device : Device) : Prop :=
  ∀ path, wanted path → ∃ disk data, (device.disk disk).get path = some data ∧ good path data

end Twin

/-- No write and no removal raises. -/
def Env.WritesHold (env : Env) : Prop := ∀ disk path count,
  env.fault (.openWrite disk path) count ≠ .raise ∧ env.fault (.write disk path) count ≠ .raise ∧
    env.fault (.remove disk path) count ≠ .raise

variable {platform : Platform} {env : Env} {good : Path → Bytes → Prop} {wanted : Path → Prop}
variable {before after : Device}

private theorem Founded.paired (founded : Founded good wanted before) : Paired good wanted before :=
  ⟨founded.toTwin, fun _ => founded.ready⟩

private theorem Twin.surviving (twin : Twin good wanted before) : Surviving good wanted before := by
  intro path want
  obtain ⟨data, stored⟩ := Option.ne_none_iff_exists'.mp (twin.kept path want)
  exact ⟨.sd, data, stored, twin.content path data stored⟩

private theorem Twin.of_files (twin : Twin good wanted before)
    (get : ∀ disk path, (after.disk disk).get path = (before.disk disk).get path) :
    Twin good wanted after := by
  have sd : ∀ path, after.sd.get path = before.sd.get path := get .sd
  have flash : ∀ path, after.flash.get path = before.flash.get path := get .flash
  refine ⟨fun path => ?_, fun path data stored => ?_, fun path want => ?_⟩
  · rw [sd, flash, twin.agree]
  · exact twin.content path data (sd path ▸ stored)
  · rw [sd]
    exact twin.kept path want

private theorem Founded.of_media (founded : Founded good wanted before)
    (media : after.toMedia = before.toMedia) : Founded good wanted after := by
  refine ⟨founded.toTwin.of_files fun _ _ => by rw [media], ?_⟩
  rw [BothReady, media]
  exact founded.ready

private theorem Paired.of_sameFiles (paired : Paired good wanted before)
    (same : SameFiles before after) :
    Paired good wanted after := by
  refine ⟨paired.toTwin.of_files same.get, fun there disk => ?_⟩
  have ready : (before.disk disk).Ready := by
    refine paired.founded (there.imp (fun unlocked => ?_) ?_) disk
    · rw [← same.vault]
      exact unlocked
    · rintro ⟨path, stored⟩
      exact ⟨path, fun absent => stored ((same.get .sd path).trans absent)⟩
  exact ⟨same.hasDir disk .vault (ready.hasDir .vault), same.hasDir disk .secrets
    (ready.hasDir .secrets)⟩

/-- Twins with a file are ready to be written to. -/
theorem Paired.of_stored (paired : Paired good wanted before) {path : Path}
    (stored : before.sd.get path ≠ none) : Founded good wanted before :=
  ⟨paired.toTwin, paired.founded (.inr ⟨path, stored⟩)⟩

/-- Twins with the same good file more. -/
theorem Founded.of_put (founded : Founded good wanted before) {path : Path} {data : Bytes}
    (fine : good path data) {media : Media} (sd : media.sd = before.sd.put path data)
    (flash : media.flash = before.flash.put path data) (same : after.toMedia = media) :
    Founded good wanted after := by
  subst same
  refine ⟨⟨fun other => ?_, fun other content stored => ?_, fun other want => ?_⟩, fun disk => ?_⟩
  · rw [sd, flash, Medium.get_put, Medium.get_put, founded.agree]
  · rw [sd, Medium.get_put] at stored
    split at stored
    · rename_i target
      cases stored
      rw [target]
      exact fine
    · exact founded.content other content stored
  · rw [sd, Medium.get_put]
    split
    · exact nofun
    · exact founded.kept other want
  · have ready := founded.ready disk
    cases disk with
    | sd =>
        rw [show after.disk .sd = before.sd.put path data from sd]
        exact ready
    | flash =>
        rw [show after.disk .flash = before.flash.put path data from flash]
        exact ready

/-- An operation that does not raise stops at a cut only. -/
theorem Stops.cut_of_not_raise {α : Type} {fault : Fault} {outcome : Outcome Exn α} {op : FileOp}
    (stops : Stops fault outcome) (cause : env.fate before op = fault)
    (never : ∀ count, env.fault op count ≠ .raise) : outcome = .off ∧ ¬ env.Uncut := by
  cases stops with
  | raised => exact absurd cause (never _)
  | cut left => exact ⟨rfl, fun uncut => uncut _ _ _ cause⟩

/-- A write that does not raise is done, or the power is lost in it. -/
theorem Wrote.of_holds (holds : env.WritesHold) {disk : Disk} {path : Path} {data : Bytes}
    {medium result : Medium} {outcome : Outcome Exn Unit} (ready : medium.Ready)
    (wrote : Wrote (env.fate before) disk path data medium outcome result) :
    (outcome = .ok () ∧ result = medium.put path data) ∨ (outcome = .off ∧ ¬ env.Uncut) := by
  cases wrote with
  | refused stops cause =>
      rcases cause with hit | ⟨_, _, missing⟩
      · exact .inr (stops.cut_of_not_raise hit fun count => (holds disk path count).1)
      · rw [ready.hasDir] at missing
        cases missing
  | torn stops opened present nonempty cause =>
      exact .inr (stops.cut_of_not_raise cause fun count => (holds disk path count).2.1)
  | done => exact .inl ⟨rfl, rfl⟩

/-- The ends of a procedure that works on twins. -/
def Ends (good : Path → Bytes → Prop) (wanted : Path → Prop) (env : Env)
    (outcome : Outcome Exn α) (after : Device) : Prop :=
  (outcome ≠ .off ∧ Founded good wanted after) ∨
    (outcome = .off ∧ ¬ env.Uncut ∧ Surviving good wanted after)

/-- A write of good content on both media: it ends with twins again, or the power is lost
while one medium has the file whole. -/
theorem Founded.of_mirrored (holds : env.WritesHold) (founded : Founded good wanted before)
    {path : Path} {data : Bytes} {outcome : Outcome Exn Unit} (fine : good path data)
    (mirrored : Mirrored (env.fate before) path data before.toMedia outcome after.toMedia) :
    Ends good wanted env outcome after := by
  generalize known : after.toMedia = media at mirrored
  cases mirrored with
  | unmounted stops cause =>
      cases stops with
      | raised => exact .inl ⟨nofun, founded.of_media known⟩
      | cut left =>
          exact .inr ⟨rfl, fun uncut => uncut _ _ _ cause, (founded.of_media known).surviving⟩
  | failed mounted primary notDone =>
      rcases primary.of_holds holds (founded.ready .sd) with ⟨done, _⟩ | ⟨lost, cut⟩
      · exact absurd done notDone
      · refine .inr ⟨lost, cut, fun other want => ?_⟩
        -- The card is torn at one file; flash still has every file as it was.
        obtain ⟨content, stored⟩ := Option.ne_none_iff_exists'.mp (founded.kept other want)
        refine ⟨.flash, content, ?_, founded.content other content stored⟩
        rw [known]
        exact (founded.agree other).symm.trans stored
  | written mounted primary mirror =>
      have card : after.sd = before.sd.put path data :=
        (congrArg Media.sd known).trans primary.eq_put
      rcases mirror.of_holds holds (founded.ready .flash) with ⟨done, copied⟩ | ⟨lost, cut⟩
      · rw [done]
        have flash : after.flash = before.flash.put path data :=
          (congrArg Media.flash known).trans copied
        exact .inl ⟨nofun, founded.of_put fine card flash rfl⟩
      · rw [lost]
        refine .inr ⟨rfl, cut, fun other want => ?_⟩
        obtain ⟨content, stored⟩ := Option.ne_none_iff_exists'.mp (founded.kept other want)
        by_cases target : other = path
        · refine ⟨.sd, data, ?_, target ▸ fine⟩
          rw [target, show after.disk .sd = before.sd.put path data from card, Medium.get_put_self]
        · refine ⟨.sd, content, ?_, founded.content other content stored⟩
          rw [show after.disk .sd = before.sd.put path data from card, Medium.get_put_of_ne target,
            stored]

private theorem Founded.of_saved (holds : env.WritesHold) (founded : Founded good wanted before)
    {cipher : Kef.Cipher} {id plaintext : Bytes} {path : Path} {outcome : Outcome Exn Unit}
    (fine : ∀ envelope, Seals platform cipher id plaintext envelope → good path envelope)
    (saved : Saved env platform cipher id path plaintext before outcome after) :
    Ends good wanted env outcome after := by
  cases saved with
  | refused => exact .inl ⟨nofun, founded⟩
  | mirrored sealed alike mirrored =>
      exact founded.of_mirrored holds (fine _ (Saved.seals sealed)) mirrored

/-- A removal that does not raise is done, or the power is lost at it. -/
theorem Removed.of_holds (holds : env.WritesHold) {disk : Disk} {path : Path}
    {medium result : Medium} {outcome : Outcome Exn Unit}
    (removed : Removed (env.fate before) disk path medium outcome result) :
    (outcome = .ok () ∧ result = medium.erase path) ∨
      (outcome = .off ∧ result = medium ∧ ¬ env.Uncut) := by
  cases removed with
  | kept cause => exact absurd cause (holds disk path _).2.2
  | cut cause => exact .inr ⟨rfl, rfl, fun uncut => uncut _ _ _ cause⟩
  | gone => exact .inl ⟨rfl, rfl⟩

/-- The removal of a file that is not wanted from both media. -/
theorem Founded.of_deleted (holds : env.WritesHold) (founded : Founded good wanted before)
    {path : Path} {outcome : Outcome Exn Unit} (unwanted : ¬ wanted path)
    (deleted : Deleted (env.fate before) path before.toMedia outcome after.toMedia) :
    Ends good wanted env outcome after := by
  have different : ∀ other, wanted other → other ≠ path := by
    rintro other want rfl
    exact unwanted want
  generalize known : after.toMedia = media at deleted
  cases deleted with
  | cut stopped =>
      rcases stopped.of_holds holds with ⟨done, _⟩ | ⟨_, _, cut⟩
      · cases done
      · exact .inr ⟨rfl, cut, (founded.of_media known).surviving⟩
  | removed primary mirror =>
      have card : after.sd = before.sd.erase path := by
        rcases primary.of_holds holds with ⟨_, gone⟩ | ⟨lost, _⟩
        · exact (congrArg Media.sd known).trans gone
        · cases lost
      rcases mirror.of_holds holds with ⟨done, gone⟩ | ⟨lost, _, cut⟩
      · have flash : after.flash = before.flash.erase path :=
          (congrArg Media.flash known).trans gone
        rw [done]
        refine .inl ⟨nofun, ⟨fun other => ?_, fun other content stored => ?_, fun other want => ?_⟩,
          fun disk => ?_⟩
        · rw [card, flash, Medium.get_erase, Medium.get_erase, founded.agree]
        · rw [card, Medium.get_erase] at stored
          split at stored
          · cases stored
          · exact founded.content other content stored
        · rw [card, Medium.get_erase_of_ne (different other want)]
          exact founded.kept other want
        · have ready := founded.ready disk
          cases disk with
          | sd =>
              rw [show after.disk .sd = before.sd.erase path from card]
              exact ready
          | flash =>
              rw [show after.disk .flash = before.flash.erase path from flash]
              exact ready
      · rw [lost]
        refine .inr ⟨rfl, cut, fun other want => ?_⟩
        obtain ⟨content, stored⟩ := Option.ne_none_iff_exists'.mp (founded.kept other want)
        refine ⟨.sd, content, ?_, founded.content other content stored⟩
        rw [show after.disk .sd = before.sd.erase path from card,
          Medium.get_erase_of_ne (different other want), stored]

/-- What a step leaves: twins, or after a cut every wanted file whole on one medium. -/
def Lasting (good : Path → Bytes → Prop) (wanted : Path → Prop) (env : Env) (device : Device) :
    Prop :=
  Paired good wanted device ∨ (¬ env.Uncut ∧ Surviving good wanted device)

private theorem Surviving.of_media (surviving : Surviving good wanted before)
    (media : after.toMedia = before.toMedia) : Surviving good wanted after := by
  intro path want
  obtain ⟨disk, data, stored, fine⟩ := surviving path want
  exact ⟨disk, data, by rw [media, stored], fine⟩

private theorem Ends.guarded {α : Type} {outcome : Outcome Exn α} {lost : Device → Prop}
    (ends : Ends good wanted env outcome after)
    (implies : ¬ env.Uncut ∧ Surviving good wanted after → lost after) :
    Proc.guarded (Founded good wanted) lost outcome after := by
  rcases ends with ⟨running, founded⟩ | ⟨rfl, cut, surviving⟩
  · cases outcome with
    | ok value => exact founded
    | raised exn => exact founded
    | off => exact absurd rfl running
  · exact implies ⟨cut, surviving⟩

/-- The saves of a step make good contents. -/
def GoodSaves (platform : Platform) (good : Path → Bytes → Prop) (device : Device) (step : Step) :
    Prop :=
  ∀ save, Calls platform device step save → save.Sealed platform → good save.path save.envelope

/-- An add, and the deletion of a secret that is not wanted, leave twins, or after a cut
every wanted file. -/
theorem updating_founded {step : Step} (holds : step.env.WritesHold)
    (saves : GoodSaves platform good before step)
    (unwanted : ∀ secretId, step.action = .delete secretId → ¬ wanted (secretPath secretId)) :
    Updating platform before step (Founded good wanted) fun after =>
      ¬ step.env.Uncut ∧ Surviving good wanted after where
  filed founded media := founded.of_media media
  spilled spilled media := ⟨spilled.1, spilled.2.of_media media⟩
  saves := by
    intro cipher id path plaintext start outcome after called founded saved
    refine (founded.of_saved holds (fun envelope seals => ?_) saved).guarded fun lost => lost
    obtain ⟨save, calls, sealed, rfl, rfl⟩ := called envelope seals
    exact saves save calls sealed
  removes := by
    intro secretId start outcome after deletes founded deleted
    exact (founded.of_deleted holds (unwanted secretId deletes) deleted).guarded fun lost => lost

section Boot

open Proc

private theorem Paired.still (paired : Paired good wanted before) (still : Still before after) :
    Paired good wanted after :=
  paired.of_sameFiles still.sameFiles

private theorem Paired.push (paired : Paired good wanted before) (op : FileOp) :
    Paired good wanted (before.push op) :=
  paired.still ⟨rfl, rfl⟩

private theorem Paired.lasting (paired : Paired good wanted before) :
    Lasting good wanted env before :=
  .inl paired

private theorem Paired.sheltered : Sheltered (Paired good wanted) (Lasting good wanted env) :=
  ⟨fun paired same => paired.of_sameFiles same, fun _ paired => paired.lasting⟩

/-- Writing back to the card what flash has. -/
theorem writeBack_holds (holds : env.WritesHold) (paired : Paired good wanted before) {path : Path}
    {data : Bytes} (stored : before.flash.get path = some data) :
    Holds (writeFile env .sd path data) before
      (guarded (Paired good wanted) (Lasting good wanted env)) := by
  have held : before.sd.get path = some data := (paired.agree path).trans stored
  have founded : Founded good wanted before := paired.of_stored (show before.sd.get path ≠ none by
    rw [held]
    exact nofun)
  refine (writeFile_wrote env .sd path data before).mono ?_
  rintro outcome after ⟨alike, medium, media, wrote⟩
  have card : after.sd = medium := by rw [media]; rfl
  have flash : after.flash = before.flash := by rw [media]; rfl
  rcases wrote.of_holds holds (founded.ready .sd) with ⟨rfl, done⟩ | ⟨rfl, cut⟩
  · have sameSd : ∀ other, after.sd.get other = before.sd.get other := by
      intro other
      rw [card, done, Medium.get_put]
      split
      · rename_i target
        rw [target, held]
      · rfl
    refine Founded.paired ⟨founded.toTwin.of_files fun disk other => ?_, fun disk => ?_⟩
    · cases disk with
      | sd => exact sameSd other
      | flash => exact congrArg (fun medium => Medium.get medium other) flash
    · have ready := founded.ready disk
      cases disk with
      | sd =>
          rw [show after.disk .sd = before.sd.put path data from card.trans done]
          exact ready
      | flash =>
          rw [show after.disk .flash = before.flash from flash]
          exact ready
  · refine .inr ⟨cut, fun other want => ?_⟩
    obtain ⟨content, here⟩ := Option.ne_none_iff_exists'.mp (paired.kept other want)
    refine ⟨.flash, content, ?_, paired.content other content here⟩
    rw [show after.disk .flash = before.flash from flash, ← paired.agree]
    exact here

private theorem copyFile_guards (holds : env.WritesHold) (caller : Option Caller) (path : Path) :
    Guards (Paired good wanted) (Lasting good wanted env) (copyFile env caller path) := by
  intro device paired
  refine Holds.bind (read_holds env .flash path device) ?_ ?_ ?_
  · rintro data _ ⟨rfl, ⟨_, stops, _⟩ | ⟨_, result⟩⟩
    · cases stops
    cases stored : (device.disk .flash).get path with
    | none =>
        rw [stored] at result
        cases result
    | some content =>
        rw [stored] at result
        cases result
        have looked := paired.push (.read .flash path)
        refine Holds.bind (mounting_holds caller _) ?_ ?_ ?_
        · rintro _ mounted ⟨⟨alike, media⟩, _⟩
          refine writeBack_holds holds (looked.still ⟨media, alike.vault⟩) ?_
          rw [show mounted.flash = device.flash from congrArg Media.flash media]
          exact stored
        · rintro exn mounted ⟨⟨alike, media⟩, _⟩
          exact looked.still ⟨media, alike.vault⟩
        · rintro mounted ⟨⟨alike, media⟩, _⟩
          exact (looked.still ⟨media, alike.vault⟩).lasting
  · rintro exn _ ⟨rfl, _⟩
    exact paired.push _
  · rintro _ ⟨rfl, _⟩
    exact (paired.push _).lasting

/-- Good metadata are text. -/
def TextMeta (good : Path → Bytes → Prop) : Prop :=
  ∀ data, good .metaFile data → ∃ text, decode data = some text

private theorem restoreMeta_guards (holds : env.WritesHold) (texts : TextMeta good) :
    Guards (Paired good wanted) (Lasting good wanted env) (restoreMeta env) := by
  intro device paired
  cases stored : device.flash.get .metaFile with
  | none =>
      have ran : read env .flash .metaFile device = _ := read_missing stored
      by_cases cut : (env.fate device (.read .flash .metaFile)).isCut = true
      · rw [if_pos cut] at ran
        exact Holds.bind_off (bind_off ran) (paired.push _).lasting
      · rw [if_neg cut] at ran
        exact Holds.bind_raised (bind_raised ran) (paired.push _)
  | some data =>
      obtain ⟨text, decoded⟩ := texts data (paired.content _ _ ((paired.agree _).trans stored))
      unfold Holds
      rw [restoreMeta_eq stored decoded]
      exact copyFile_guards holds _ _ device paired

private theorem restoreFromFlash_guards (holds : env.WritesHold) (texts : TextMeta good) :
    Guards (Paired good wanted) (Lasting good wanted env) (restoreFromFlash env) :=
  Paired.sheltered.restoreFromFlash Paired.sheltered (fun _ => id)
    (restoreMeta_guards holds texts).leads
      (copyFile_guards holds (some .restoreManifest) .manifestFile)
    fun filename => copyFile_guards holds none (.secretFile filename)

/-- A vault is opened only where there are metadata. -/
theorem Paired.opened (paired : Paired good wanted before) {salt : Bytes} {passphrase : Text}
    {manifest : Manifest} (opened : Opened platform env before after salt passphrase manifest) :
    Paired good wanted after := by
  obtain ⟨data, stored, _⟩ := Option.bind_eq_some_iff.mp opened.salted
  have present : before.sd.get .metaFile ≠ none := by
    rw [stored]
    simp
  exact ((paired.of_stored present).of_media opened.media).paired

private theorem Founded.lasting (founded : Founded good wanted before) :
    Lasting good wanted env before :=
  founded.paired.lasting

private theorem Founded.sheltered : Sheltered (Founded good wanted) (Lasting good wanted env) := by
  refine ⟨fun founded same => ⟨founded.toTwin.of_files same.get, fun disk => ?_⟩, fun _ founded =>
    founded.lasting⟩
  have ready := founded.ready disk
  exact ⟨same.hasDir disk .vault (ready.hasDir .vault), same.hasDir disk .secrets
    (ready.hasDir .secrets)⟩

/-- A new vault is founded, or nothing is written, or the power is lost. -/
theorem initializeVault_leads (holds : env.WritesHold)
    (metas : ∀ salt, good .metaFile (metaData platform salt)) :
    Leads (Paired good wanted) (Founded good wanted) (Lasting good wanted env)
      (initializeVault platform env) := by
  intro device paired
  refine Holds.bind (ensureDirs_holds .sd device) ?_ ?_ ?_
  · rintro _ first ⟨onSd, sdReady⟩
    have made := paired.of_sameFiles onSd.sameFiles
    refine Holds.bind (ensureDirs_holds .flash first) ?_ ?_ ?_
    · rintro _ middle ⟨onFlash, flashReady⟩
      have founded : Founded good wanted middle := by
        refine ⟨(made.of_sameFiles onFlash.sameFiles).toTwin, fun disk => ?_⟩
        cases disk with
        | sd =>
            rw [onFlash.other .sd (by simp)]
            exact sdReady rfl
        | flash => exact flashReady rfl
      refine Holds.bind_ok (show randomBytes env saltLength middle = (.ok _, middle) from rfl) ?_
      have writing : ∀ data, good .metaFile data → Holds (writeWithMirror env .metaFile data) middle
          (guarded (Founded good wanted) (Lasting good wanted env)) := fun data fine =>
        (writeWithMirror_mirrored env .metaFile data middle).mono fun _ after mirrored =>
          (founded.of_mirrored holds fine mirrored.2).guarded .inr
      refine Holds.bind (writing _ (metas _)) ?_ ?_ ?_
      · exact fun _ after founded => founded
      · exact fun exn after founded => Founded.paired founded
      · exact fun after lasting => lasting
    · exact fun exn after ended => made.of_sameFiles ended.1.sameFiles
    · exact fun after ended => (made.of_sameFiles ended.1.sameFiles).lasting
  · exact fun exn after ended => paired.of_sameFiles ended.1.sameFiles
  · exact fun after ended => (paired.of_sameFiles ended.1.sameFiles).lasting

private theorem createNewVault_guards (holds : env.WritesHold)
    (metas : ∀ salt, good .metaFile (metaData platform salt)) (first : FirstGood platform good) :
    Guards (Paired good wanted) (Lasting good wanted env) (createNewVault platform env) := by
  refine Paired.sheltered.createNewVault Founded.sheltered (fun _ => Founded.paired)
    (initializeVault_leads holds metas) (fun passphrase salt device founded => ?_)
    fun _ _ _ founded => founded.of_media rfl
  exact (saveEnvelope_saved env platform _ _ _ _ device _).mono fun _ after saved =>
    (founded.of_saved holds (first passphrase salt) saved).guarded .inr

/-- The boot flow keeps twins. -/
theorem vaultUnlock_guards (holds : env.WritesHold) (texts : TextMeta good)
    (metas : ∀ salt, good .metaFile (metaData platform salt)) (first : FirstGood platform good) :
    Guards (Paired good wanted) (Lasting good wanted env) (vaultUnlock platform env) :=
  Paired.sheltered.vaultUnlock (fun paired opened => paired.opened opened)
    (restoreFromFlash_guards holds texts) (createNewVault_guards holds metas first)

private theorem Lasting.locked (lasting : Lasting good wanted env before) :
    Lasting good wanted env before.restarted := by
  rcases lasting with paired | ⟨cut, surviving⟩
  · refine .inl ⟨paired.toTwin.of_files fun _ _ => rfl, fun there => paired.founded (.inr ?_)⟩
    rcases there with unlocked | stored
    · exact absurd rfl unlocked
    · exact stored
  · exact .inr ⟨cut, surviving⟩

private theorem perform_boot_lasting (holds : env.WritesHold) (locked : before.vault = none)
    (paired : Paired good wanted before) (texts : TextMeta good)
    (metas : ∀ salt, good .metaFile (metaData platform salt)) (first : FirstGood platform good) :
    Lasting good wanted env (perform platform before ⟨.boot, env⟩) := by
  rcases perform_boot_guarded locked (vaultUnlock_guards holds texts metas first)
    (paired.still ⟨rfl, rfl⟩) with kept | ⟨after, lasting, result⟩
  · exact kept.lasting
  · rw [result]
    exact lasting.locked

end Boot

/-- What a step asks of good contents: metadata are text, and what it writes is good. -/
structure Agreeable (platform : Platform) (good : Path → Bytes → Prop) (device : Device)
    (step : Step) : Prop where
  texts : TextMeta good
  metas : step.action = .boot → ∀ salt, good .metaFile (metaData platform salt)
  saves : GoodSaves platform good device step

/-- **What a step leaves of twins**, when no write raises in it. -/
theorem perform_lasting {step : Step} (holds : step.env.WritesHold)
    (paired : Paired good wanted before) (agreeable : Agreeable platform good before step)
    (unwanted : ∀ secretId, step.action = .delete secretId → ¬ wanted (secretPath secretId)) :
    Lasting good wanted step.env (perform platform before step) := by
  obtain ⟨action, env⟩ := step
  have idle : Paired good wanted before.ready := paired.still ⟨rfl, rfl⟩
  refine perform_cases (Lasting good wanted env) ⟨action, env⟩ idle.lasting ?_ ?_ ?_
    idle.lasting.locked
  · rintro rfl locked
    refine perform_boot_lasting holds locked paired agreeable.texts (agreeable.metas rfl) ?_
    intro passphrase salt envelope seals
    exact agreeable.saves (.manifest (deriveKey platform passphrase salt) .empty envelope)
      (.created locked) seals
  · rintro vault text rfl unlocked
    have founded : Founded good wanted before :=
      ⟨paired.toTwin, paired.founded (.inl (by simp [unlocked]))⟩
    exact ((updating_founded holds agreeable.saves unwanted).perform_add unlocked founded).imp
      Founded.paired id
  · rintro vault secretId rfl unlocked
    have founded : Founded good wanted before :=
      ⟨paired.toTwin, paired.founded (.inl (by simp [unlocked]))⟩
    exact ((updating_founded holds agreeable.saves unwanted).perform_delete unlocked founded).imp
      Founded.paired id

/-- Metadata that are text, and anything in the other files. -/
def Legible (path : Path) (data : Bytes) : Prop :=
  path = .metaFile → ∃ text, decode data = some text

private theorem legible_metaData (salt : Bytes) : Legible .metaFile (metaData platform salt) :=
  fun _ => ⟨_, decode_encode _⟩

private theorem legible_agreeable (step : Step) : Agreeable platform Legible before step where
  texts _ good := good rfl
  metas _ := legible_metaData
  saves save _ _ target := absurd target save.path_ne_metaFile

/-- **The two media of a run are twins** after every action, when no write raises and the
power is not cut. -/
theorem run_paired (steps : List Step) (holds : ∀ step ∈ steps, step.env.WritesHold)
    (uncut : ∀ step ∈ steps, step.env.Uncut) :
    Paired Legible (fun _ => False) (run platform .fresh steps) := by
  have blank : Paired Legible (fun _ => False) Device.fresh := by
    refine ⟨⟨fun _ => rfl, nofun, nofun⟩, ?_⟩
    rintro (unlocked | ⟨path, stored⟩)
    · exact absurd rfl unlocked
    · exact absurd rfl stored
  refine Runs.foldl_invariant (fun device step (allowed : step.env.WritesHold ∧ step.env.Uncut)
    paired => ?_) _ _ (Runs.along_of_forall _ _ fun step member _ =>
      ⟨holds step member, uncut step member⟩) blank
  rcases perform_lasting allowed.1 paired (legible_agreeable step) (fun _ _ => id) with
    kept | ⟨cut, _⟩
  · exact kept
  · exact absurd allowed.2 cut

/-- New content of a file: the envelope of a save that the step makes, or the metadata of a
vault that it creates. -/
def NewContent (platform : Platform) (before : Device) (step : Step) (path : Path) (data : Bytes) :
    Prop :=
  (∃ save, Calls platform before step save ∧ save.Sealed platform ∧ save.path = path ∧
    data = save.envelope) ∨
  (step.action = .boot ∧ path = .metaFile ∧ ∃ salt, data = metaData platform salt)

/-- **What a cut leaves of a file**: one medium has its old content or its new one. -/
theorem Paired.survives {step : Step} (paired : Paired Legible (fun _ => False) before)
    (holds : step.env.WritesHold) {path : Path} (stored : before.sd.get path ≠ none)
    (spared : ∀ secretId, step.action = .delete secretId → path ≠ secretPath secretId) :
    ∃ disk data, ((perform platform before step).disk disk).get path = some data ∧
      (before.sd.get path = some data ∨ NewContent platform before step path data) := by
  let good : Path → Bytes → Prop := fun path data =>
    before.sd.get path = some data ∨ NewContent platform before step path data
  have agreeable : Agreeable platform good before step := by
    refine ⟨?_, fun boot salt => .inr (.inr ⟨boot, rfl, salt, rfl⟩), fun save called sealed =>
      .inr (.inl ⟨save, called, sealed, rfl, rfl⟩)⟩
    rintro data (old | ⟨save, _, _, target, _⟩ | ⟨_, _, salt, rfl⟩)
    · exact paired.content _ _ old rfl
    · exact absurd target save.path_ne_metaFile
    · exact legible_metaData salt rfl
  have start : Paired good (fun other => other = path) before := by
    refine ⟨⟨paired.agree, fun _ _ held => .inl held, ?_⟩, paired.founded⟩
    rintro other rfl
    exact stored
  have unwanted : ∀ secretId, step.action = .delete secretId → ¬ secretPath secretId = path :=
    fun secretId deletes same => spared secretId deletes same.symm
  have lasting := perform_lasting holds start agreeable unwanted
  have surviving : Surviving good (fun other => other = path) (perform platform before step) := by
    rcases lasting with kept | ⟨_, surviving⟩
    · exact kept.surviving
    · exact surviving
  exact surviving path rfl

section Replacing

/-- The device with another card. -/
def Device.withCard (device : Device) (card : Medium) : Device := { device with sd := card }

private theorem firstFault_of_none {faults : List Fault} (none : ∀ fault ∈ faults, fault = .none) :
    firstFault faults = .none := by
  by_contra stopped
  exact stopped (none _ (firstFault_mem stopped))

variable (quiet : env.Quiet)
include quiet

private theorem Env.Quiet.firstFault_map (device : Device) (ops : List FileOp) :
    firstFault (ops.map (env.fate device)) = .none := by
  refine firstFault_of_none fun fault member => ?_
  obtain ⟨op, _, rfl⟩ := List.mem_map.mp member
  exact quiet.fate device op

private theorem Env.Quiet.copyFaults (device : Device) (caller : Option Caller) (path : Path) :
    firstFault (Vault.copyFaults (env.fate device) caller path) = .none := by
  refine firstFault_of_none fun fault member => ?_
  simp only [Vault.copyFaults, List.cons_append, List.mem_cons, List.mem_append, List.mem_map,
    List.not_mem_nil, or_false] at member
  rcases member with rfl | ⟨mounting, _, rfl⟩ | rfl <;> exact quiet.fate device _

private theorem Env.Quiet.later (device : Device) : env.later device = env.fate device := by
  funext op
  rw [quiet.fate]
  unfold Env.later
  split
  · exact quiet _ _
  · exact quiet.fate device _

private theorem Env.Quiet.not_blocked {device : Device} {text : Text} {data : Bytes}
    (stored : device.flash.get .metaFile = some data) (decoded : decode data = some text) :
    ¬ Blocked env device := by
  rintro (stopped | ⟨content, held, undecoded⟩)
  · refine stopped ?_
    rw [openingFaults, firstFault_append (quiet.firstFault_map device _)]
    exact quiet.copyFaults device _ _
  · rw [stored] at held
    cases held
    rw [decoded] at undecoded
    cases undecoded

private theorem Env.Quiet.restFine (device : Device) : RestFine env device := by
  have secrets : ∀ names, SecretsFine (env.fate device) device.toMedia names := by
    intro names
    induction names with
    | nil => trivial
    | cons name rest ih =>
        rw [SecretsFine, quiet.copyFaults device]
        exact ⟨.inr (quiet.fate device _), ih⟩
  refine ⟨.inr (quiet.fate device _), ?_, ?_⟩
  · unfold CopyFine
    rw [quiet.copyFaults device, quiet.fate device, quiet.fate device]
    split
    · rfl
    · exact .inr rfl
  · have listed : firstFault ([env.fate device (.statDir .sd .vault),
        env.fate device (.statDir .sd .secrets)] ++ listFaults (env.fate device) device.flash) =
          .none := by
      refine firstFault_of_none fun fault member => ?_
      rw [listFaults, quiet.fate, quiet.fate, quiet.fate, quiet.fate] at member
      split at member <;> simpa using member
    rw [quiet.later device, GroupFine, listed]
    exact secrets _

/-- A restore without a fault makes the card hold the files of the mirror, when it has no
others. -/
theorem Env.Quiet.restores {device : Device} {text : Text} {data : Bytes}
    (stored : device.flash.get .metaFile = some data) (decoded : decode data = some text)
    (housed : device.flash.Housed)
    (foreign : ∀ path, device.flash.get path = none → device.sd.get path = none) :
    (restoreFromFlash env device).1 = .ok () ∧
      ∀ path, (restoreFromFlash env device).2.sd.get path = device.flash.get path := by
  have raises : env.RestoreRaises := fun op count raised => by
    rw [quiet op count] at raised
    cases raised
  have restored : Proc.Holds (restoreFromFlash env) device (Restored env device) :=
    restoreFromFlash_restored raises device stored housed
  unfold Proc.Holds at restored
  cases restored with
  | blocked blocked => exact absurd blocked (quiet.not_blocked stored decoded)
  | opened reached flash marked others fine_iff =>
      obtain ⟨done, copied⟩ := fine_iff.mpr (quiet.restFine device)
      refine ⟨done, fun path => ?_⟩
      cases mirrored : device.flash.get path with
      | none => rw [others path mirrored, foreign path mirrored]
      | some content => exact copied path content mirrored

private theorem Env.Quiet.not_missesSecret (secretId : Text) : ¬ env.MissesSecret secretId := by
  rintro (mounting | reading)
  · exact quiet.not_faulty _ mounting
  · exact quiet.not_faulty _ reading

end Replacing

/-- The card opens under a passphrase with a manifest. -/
def OpensWith (platform : Platform) (passphrase : Text) (sd : Medium) (salt : Bytes)
    (manifest : Manifest) : Prop :=
  saltOn platform sd = some salt ∧
    manifestOn platform (deriveKey platform passphrase salt) sd = some manifest

/-- **A card replaced by another**: a boot with the passphrase opens the same vault on
both, and both load the same secrets. -/
structure Replaces (platform : Platform) (device other : Device) : Prop where
  boots : ∀ (env : Env) (passphrase : Text) (salt : Bytes) (manifest : Manifest), env.Quiet →
    0 < env.patience → env.keypad .passphrase 0 = some passphrase → passphrase ≠ [] →
    OpensWith platform passphrase device.sd salt manifest →
    (perform platform device.restarted ⟨.boot, env⟩).vault =
        some (openVault platform salt passphrase manifest) ∧
      (perform platform other.restarted ⟨.boot, env⟩).vault =
        some (openVault platform salt passphrase manifest)
  loads : ∀ (env : Env) (cipher : Kef.Cipher) (secretId : Text), env.Quiet →
    (loadSecret platform env cipher secretId other).1 =
      (loadSecret platform env cipher secretId device).1

private theorem Replaces.of_files {other : Device}
    (files : ∀ path, other.sd.get path = before.sd.get path) :
    Replaces platform before other := by
  refine ⟨fun env passphrase salt manifest quiet patient typed nonempty opens => ⟨?_, ?_⟩,
    fun env cipher secretId quiet => ?_⟩
  · have locked : before.restarted.vault = none := rfl
    exact (perform_boot_opens quiet patient locked opens.1 typed nonempty opens.2).2
  · have locked : other.restarted.vault = none := rfl
    have salted : saltOn platform other.sd = some salt := by
      rw [saltOn, files]
      exact opens.1
    have listed : manifestOn platform (deriveKey platform passphrase salt) other.sd =
        some manifest := by
      rw [manifestOn, files]
      exact opens.2
    exact (perform_boot_opens quiet patient locked salted typed nonempty listed).2
  · rw [loadSecret_fst cipher secretId _ (quiet.not_missesSecret secretId),
      loadSecret_fst cipher secretId _ (quiet.not_missesSecret secretId), secretOn, secretOn, files]

/-- **The mirror of a run.** When no write raises and no action is cut, the two media have
the same files after every action, and a restore to a card without other vault files
replaces the card. When one more action is cut anywhere, every file that it does not
delete is whole, old or new, on one of the media. -/
theorem mirror_replaces_card (steps : List Step) (holds : ∀ step ∈ steps, step.env.WritesHold)
    (uncut : ∀ step ∈ steps, step.env.Uncut) :
    (∀ path, (run platform .fresh steps).sd.get path = (run platform .fresh steps).flash.get path) ∧
    (∀ (card : Medium) (env : Env), (run platform .fresh steps).flash.get .metaFile ≠ none →
      (∀ path, (run platform .fresh steps).flash.get path = none → card.get path = none) →
      env.Quiet →
      (restoreFromFlash env ((run platform .fresh steps).withCard card)).1 = .ok () ∧
      (∀ path, (restoreFromFlash env ((run platform .fresh steps).withCard card)).2.sd.get path =
        (run platform .fresh steps).sd.get path) ∧
      Replaces platform (run platform .fresh steps)
        (restoreFromFlash env ((run platform .fresh steps).withCard card)).2) ∧
    (∀ (last : Step) (path : Path), last.env.WritesHold →
      (run platform .fresh steps).sd.get path ≠ none →
      (∀ secretId, last.action = .delete secretId → path ≠ secretPath secretId) →
      ∃ disk data, ((run platform .fresh (steps ++ [last])).disk disk).get path = some data ∧
        ((run platform .fresh steps).sd.get path = some data ∨
          NewContent platform (run platform .fresh steps) last path data)) := by
  have paired : Paired Legible (fun _ => False) (run platform .fresh steps) :=
    run_paired steps holds uncut
  refine ⟨paired.agree, fun card env mirrored foreign quiet => ?_,
    fun last path lastHolds stored spared => ?_⟩
  · obtain ⟨data, stored⟩ := Option.ne_none_iff_exists'.mp mirrored
    obtain ⟨text, decoded⟩ := paired.content _ _ ((paired.agree _).trans stored) rfl
    have present : (run platform .fresh steps).sd.get .metaFile ≠ none := by
      rw [paired.agree]
      exact mirrored
    have ready : (run platform .fresh steps).flash.Ready := (paired.of_stored present).ready .flash
    have housed : (run platform .fresh steps).flash.Housed := by
      intro missing
      rw [ready.hasDir .secrets] at missing
      cases missing
    have held : ((run platform .fresh steps).withCard card).flash.get .metaFile =
        some data := stored
    obtain ⟨done, files⟩ := quiet.restores held decoded housed foreign
    have same : ∀ path, (restoreFromFlash env ((run platform .fresh steps).withCard card)).2.sd.get
        path = (run platform .fresh steps).sd.get path := fun path =>
      (files path).trans (paired.agree path).symm
    exact ⟨done, same, .of_files same⟩
  · rw [run, List.foldl_append]
    exact paired.survives lastHolds stored spared

private theorem Env.Quiet.writesHold (quiet : env.Quiet) : env.WritesHold := by
  intro disk path count
  rw [quiet, quiet, quiet]
  exact ⟨nofun, nofun, nofun⟩

/-- A vault with two secrets, the first of them deleted. -/
def Sample.thinned : List Step :=
  Sample.steps ['a'] [.boot, .add ['x'], .add ['y'], .delete ['0', '0', '1']]

/-- An add that is cut while it writes the manifest to the card. -/
def Sample.tornAdd : Step := ⟨.add ['z'], Sample.failing ['a'] (.write .sd .manifestFile) (.cut 7)⟩

/-- A restore to a blank card brings the vault back, and an add that is cut spares the
manifest on one of the media. -/
theorem mirror_replaces_card_cut :
    Replaces Sample.platform (run Sample.platform .fresh Sample.thinned)
      (restoreFromFlash (Sample.env ['a'])
        ((run Sample.platform .fresh Sample.thinned).withCard .blank)).2 ∧
    ∃ disk data, ((run Sample.platform .fresh (Sample.thinned ++ [Sample.tornAdd])).disk disk).get
        .manifestFile = some data ∧
      ((run Sample.platform .fresh Sample.thinned).sd.get .manifestFile = some data ∨
        NewContent Sample.platform (run Sample.platform .fresh Sample.thinned) Sample.tornAdd
          .manifestFile data) := by
  have quiet : ∀ step ∈ Sample.thinned, step.env.Quiet := by
    intro step member
    obtain ⟨action, _, rfl⟩ := List.mem_map.mp member
    exact Sample.env_quiet _
  obtain ⟨_, replaced, survives⟩ := mirror_replaces_card Sample.thinned
    (fun step member => (quiet step member).writesHold)
    (fun step member => (quiet step member).uncut)
  refine ⟨(replaced .blank (Sample.env ['a']) ?_ (fun _ _ => rfl) (Sample.env_quiet _)).2.2,
    survives Sample.tornAdd .manifestFile ?_ ?_ nofun⟩
  · decide +kernel
  · intro disk path count
    refine ⟨?_, ?_, ?_⟩ <;>
    · unfold Sample.tornAdd Sample.failing
      dsimp only
      split <;> exact nofun
  · decide +kernel

end VaultSeed.Vault
