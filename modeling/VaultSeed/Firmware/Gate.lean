import VaultSeed.Firmware.Selection
import VaultSeed.Firmware.Writing

/-! # The gate of the upgrade

The checks of `upgrade` let it write to the flash when an active entry is found, the file is
small enough, signed, for this board and newer, and the user does not cancel. The hash shown
with the question is bound only where a signature is checked, so they also ask for a configured
key (`exists_approve_iff`): without one, every acceptable file is refused (`meets_iff`).
-/

namespace VaultSeed.Firmware

open Python Effect Proc

section Approval

variable {Key Sig : Type} (setup : Setup Key Sig) (card : Card) (button : Button)

/-- A public key is configured, and `embit` is there to use it. -/
def KeyConfigured : Prop := setup.ec.isSome = true ∧ setup.signerPubkey ≠ []

/-- Where a public key is configured, the signature of the file verifies. -/
def Signed (firmware : Bytes) : Prop :=
  ∀ ec, setup.ec = some ec → setup.signerPubkey ≠ [] →
    ∃ pubkey signature, ec.fromString setup.signerPubkey = some pubkey ∧
      card.signature = some signature ∧
      verifies ec pubkey signature (setup.sha256 firmware) = true

/-- An active entry is found in the main or in the backup configuration. -/
def HasActive (flash : Memory) : Prop :=
  (findActiveFirmware (flash.read mainBootConfigSectorAddress bootConfigSectorSize)).isSome = true ∨
  (findActiveFirmware (flash.read backupBootConfigSectorAddress bootConfigSectorSize)).isSome = true

/-- What an upgrade asks for, besides a key: the file may be installed. -/
structure Acceptable (flash : Memory) (firmware : Bytes) : Prop where
  active : HasActive flash
  small : firmware.length ≤ maxFirmwareSize
  signed : Signed setup card firmware
  device : setup.board.quoted <:+: firmware
  newer : Newer setup.version firmware
  confirmed : button ≠ .page ∧ button ≠ .pagePrev

variable {setup card button} {flash : Memory} {firmware : Bytes} {config : Bytes × Nat × Nat}

/-- The configuration to start from is one with an active entry. -/
theorem exists_activeConfig_iff :
    (∃ config, activeConfig flash = some config) ↔ HasActive flash := by
  unfold activeConfig HasActive
  dsimp only
  generalize findActiveFirmware (flash.read mainBootConfigSectorAddress _) = main
  generalize findActiveFirmware (flash.read backupBootConfigSectorAddress _) = backup
  rcases main with _ | entry
  · rcases backup with _ | entry
    · simp
    · exact ⟨fun _ => .inr rfl, fun _ => ⟨_, rfl⟩⟩
  · exact ⟨fun _ => .inl rfl, fun _ => ⟨_, rfl⟩⟩

/-- Without a key the signature is not checked. -/
theorem signerKey_of_not_configured (missing : ¬ KeyConfigured setup) :
    signerKey setup = .ok none := by
  unfold signerKey
  unfold KeyConfigured at missing
  cases found : setup.ec with
  | none => rfl
  | some ec =>
      have empty : setup.signerPubkey = [] := by simpa [found] using missing
      exact if_pos empty

/-- With a key the checks bind the hash exactly when the signature verifies. -/
theorem exists_hash_iff (configured : KeyConfigured setup) :
    (∃ signer hash, signerKey setup = .ok signer ∧
      checkSignature setup card signer firmware = .ok (some hash)) ↔
    Signed setup card firmware := by
  obtain ⟨present, nonempty⟩ := configured
  obtain ⟨ec, found⟩ := Option.isSome_iff_exists.mp present
  unfold signerKey Signed
  rw [found]
  dsimp only
  rw [if_neg nonempty]
  constructor
  · rintro ⟨signer, hash, key, checked⟩ ec' same _
    cases same
    split at key
    · rename_i pubkey parsed
      cases key
      unfold checkSignature at checked
      split at checked
      · rename_i none
        cases none
      · rename_i same
        cases same
        split at checked
        · cases checked
        · rename_i signature given
          split at checked
          · rename_i valid
            exact ⟨pubkey, signature, parsed, given, valid⟩
          · cases checked
    · cases key
  · intro signed
    obtain ⟨pubkey, signature, parsed, given, valid⟩ := signed ec rfl nonempty
    refine ⟨some (ec, pubkey), setup.sha256 firmware, by rw [parsed], ?_⟩
    unfold checkSignature
    rw [given]
    exact if_pos valid

/-- The last check passes. -/
theorem confirmInstall_ok_iff {hash : Option Bytes} :
    confirmInstall setup button firmware hash = .ok () ↔
      Newer setup.version firmware ∧ hash.isSome = true ∧
        button ≠ .page ∧ button ≠ .pagePrev := by
  rw [← isVersionGreater_iff]
  unfold confirmInstall
  rcases isVersionGreater setup.version firmware with exn | _ | newVersion
  · exact ⟨nofun, fun ⟨⟨_, impossible⟩, _⟩ => nomatch impossible⟩
  · exact ⟨nofun, fun ⟨⟨_, impossible⟩, _⟩ => nomatch impossible⟩
  · cases hash with
    | none => exact ⟨nofun, fun ⟨_, impossible, _⟩ => nomatch impossible⟩
    | some hash =>
        dsimp only
        split
        · rename_i cancelled
          exact ⟨nofun, fun ⟨_, _, enter, _⟩ => absurd cancelled (by tauto)⟩
        · rename_i confirmed
          exact ⟨fun _ => ⟨⟨newVersion, rfl⟩, rfl, by tauto⟩, fun _ => rfl⟩

/-- The checks pass in their order. -/
theorem approve_ok_iff : approve setup card button flash firmware = .ok config ↔
    activeConfig flash = some config ∧ firmware.length ≤ maxFirmwareSize ∧
      setup.board.quoted <:+: firmware ∧
      ∃ signer hash, signerKey setup = .ok signer ∧
        checkSignature setup card signer firmware = .ok hash ∧
        confirmInstall setup button firmware hash = .ok () := by
  rw [← isThisDevice_iff, ← fsize_eq]
  unfold approve
  constructor
  · intro passed
    split at passed
    · cases passed
    · rename_i found active
      obtain ⟨signer, key, passed⟩ := bind_eq_ok.mp passed
      dsimp only at passed
      by_cases large : maxFirmwareSize < fsize firmware
      · rw [if_pos large] at passed
        cases passed
      · rw [if_neg large] at passed
        obtain ⟨hash, checked, passed⟩ := bind_eq_ok.mp passed
        by_cases other : isThisDevice setup.board firmware = false
        · rw [if_pos other] at passed
          cases passed
        · rw [if_neg other] at passed
          obtain ⟨_, confirmed, passed⟩ := bind_eq_ok.mp passed
          cases passed
          exact ⟨active, by omega, by simpa using other, signer, hash, key, checked, confirmed⟩
  · rintro ⟨active, small, device, signer, hash, key, checked, confirmed⟩
    rw [active]
    dsimp only
    rw [key, ok_bind, if_neg (by omega), checked, device, ok_bind, if_neg (by simp), confirmed]
    rfl

/-- **The gate**: an upgrade is approved exactly when a key is configured and the file is
acceptable. -/
theorem exists_approve_iff : (∃ config, approve setup card button flash firmware = .ok config) ↔
    KeyConfigured setup ∧ Acceptable setup card button flash firmware := by
  constructor
  · rintro ⟨config, passed⟩
    obtain ⟨active, small, device, signer, hash, key, checked, confirmed⟩ :=
      approve_ok_iff.mp passed
    obtain ⟨newer, bound, agreed⟩ := confirmInstall_ok_iff.mp confirmed
    obtain ⟨hash, rfl⟩ := Option.isSome_iff_exists.mp bound
    have configured : KeyConfigured setup := by
      -- Without a key the hash is not bound.
      by_contra missing
      rw [signerKey_of_not_configured missing] at key
      cases key
      cases checked
    have signed := (exists_hash_iff configured).mp ⟨signer, hash, key, checked⟩
    exact ⟨configured, exists_activeConfig_iff.mp ⟨config, active⟩, small, signed, device, newer,
      agreed⟩
  · rintro ⟨configured, active, small, signed, device, newer, confirmed⟩
    obtain ⟨config, active⟩ := exists_activeConfig_iff.mpr active
    obtain ⟨signer, hash, key, checked⟩ := (exists_hash_iff configured).mpr signed
    exact ⟨config, approve_ok_iff.mpr ⟨active, small, device, signer, some hash, key, checked,
      confirmInstall_ok_iff.mpr ⟨newer, rfl, confirmed⟩⟩⟩

end Approval

section Touching

variable {Source : Type} {read : Source → Nat → Bytes × Source} {unread : Source → Bytes}
  {res : Bool} (power : Option Cut) {address dataSize chunkSize : Nat} {header : Bool}
  {shaSuffix : Option Bytes}

/-- An operation on the flash was begun. -/
def Touched (chip : Chip) : Prop := chip.ops ≠ []

private theorem eraseFlash_keeps {size : Nat} :
    Keeps Touched (eraseFlash res power address size) := by
  intro chip touched
  unfold Holds eraseFlash
  split
  · dsimp only
    cases lostAt power chip <;> exact List.cons_ne_nil _ _
  · split <;> exact touched

private theorem writeFlash_keeps {data : Bytes} : Keeps Touched (writeFlash power address data) :=
  fun chip _ => (writeFlash_holds power chip address data).mono
    fun _ after ⟨ops, _⟩ => by simp [Touched, ops]

private theorem writeHeader_keeps {i : Nat} :
    Keeps Touched (writeHeader power dataSize header i address) := by
  unfold writeHeader
  split
  · exact writeFlash_keeps power
  · exact Keeps.pure ()

private theorem streamTurn_keeps (transfer : Transfer Source) : Keeps Touched
    (streamTurn read res power address dataSize chunkSize header shaSuffix transfer) := by
  have finish : ∀ transfer : Transfer Source, Keeps Touched
      (finishTransfer res power address dataSize chunkSize header shaSuffix transfer) := by
    intro transfer
    refine Keeps.bind ?_ fun _ => Keeps.pure _
    exact Keeps.bind (eraseFlash_keeps power) fun _ =>
      Keeps.bind (writeHeader_keeps power) fun _ => writeFlash_keeps power
  unfold streamTurn
  refine Keeps.ite (Keeps.throw _) (Keeps.ite (Keeps.pure _) (Keeps.ite ?_ ?_))
  · exact Keeps.ite (Keeps.pure _) (Keeps.throw _)
  · exact Keeps.ite (Keeps.pure _) (finish _)

private theorem streamLoop_keeps (fuel : Nat) (transfer : Transfer Source) : Keeps Touched
    (streamLoop read res power address dataSize chunkSize header shaSuffix fuel transfer) := by
  induction fuel generalizing transfer with
  | zero => exact Keeps.throw _
  | succ fuel ih =>
      refine Keeps.bind (streamTurn_keeps power transfer) fun next => ?_
      cases next with
      | none => exact Keeps.pure ()
      | some next => exact ih next

/-- While data are left, the loop comes to a flush. -/
theorem streamLoop_touches (delivers : Delivers read unread) (erasable : Erasable address chunkSize)
    {data : Bytes} {fuel i total filled : Nat} {transfer : Transfer Source} {chip : Chip}
    (here : Filling unread shaSuffix data transfer i total filled)
    (space : filled < chunkSize - headerOffset header i) (before : total + filled < data.length)
    (enough : data.length - (total + filled) < fuel) :
    Holds (streamLoop read res power address data.length chunkSize header shaSuffix fuel transfer)
      chip fun _ after => Touched after := by
  induction fuel generalizing filled transfer with
  | zero => omega
  | succ fuel ih =>
      rw [streamLoop]
      rcases streamTurn_data delivers here rfl space before with
        ⟨buffer, next, turned, taken, _⟩ | ⟨next, further, turned, more, room, there⟩
      · have flushed := flushBuffer_holds res power data.length header i erasable chip
          (by omega : chunkSize = headerOffset header i + (chunkSize - headerOffset header i)) taken
          (length_chunkAt _ _ _)
        rw [turned, bind_assoc, pure_bind]
        exact Holds.bind flushed (fun _ after done => streamLoop_keeps power fuel next after done.1)
          (fun _ _ done => done.1) (fun _ done => done.1)
      · have inside := there.inside
        rw [turned]
        exact Holds.bind_ok (pure_apply _) (ih there room (by omega) (by omega))

/-- Data that are written begin with an erase. -/
theorem writeData_touches {data : Bytes} (chip : Chip) (erasable : Erasable address chunkSize)
    (nonempty : data ≠ []) (roomy : headerOffset header 0 < chunkSize) :
    Holds (writeData power address data.length chunkSize header shaSuffix data) chip
      fun _ after => Touched after := by
  have positive : 0 < data.length := List.length_pos_of_ne_nil nonempty
  have start : Filling id shaSuffix data ⟨0, 0, 0, 0, List.replicate chunkSize 0, data⟩ 0 0 0 :=
    ⟨rfl, rfl, rfl, rfl, rfl, .inl rfl⟩
  exact streamLoop_touches power readBytes_delivers erasable start (by omega) (by omega) (by omega)

/-- The writing of an upgrade begins. -/
theorem install_touches (sha256 : Bytes → Bytes) {firmware : Bytes} (sector : Bytes)
    (address entryIndex : Nat) (chip : Chip) (nonempty : firmware ≠ []) :
    Holds (install sha256 power firmware sector address entryIndex) chip
      fun _ after => Touched after := by
  unfold install
  dsimp only
  rw [fsize_eq]
  have writing : ∀ {place : Nat} {data : Bytes}, Keeps Touched
      (writeData power place data.length bootConfigSectorSize false none data) :=
    streamLoop_keeps power _ _
  refine Holds.tryExcept (?_ : Holds _ _ fun _ after => Touched after)
    (fun _ _ touched => touched) (fun _ _ touched => touched) (fun _ touched => touched)
  refine Holds.bind (writeData_touches power chip (otherSlot_erasable address) nonempty (by decide))
    ?_
    (fun _ _ touched => touched) (fun _ touched => touched)
  intro _ after touched
  exact Keeps.bind writing (fun _ => Keeps.bind writing fun _ => Keeps.pure _) after touched

end Touching

/-- What is asked of an upgrade: it begins to write to the flash when the file is there and
acceptable, and otherwise returns `False` and leaves the flash alone. -/
def Meets {Key Sig : Type} (setup : Setup Key Sig) (card : Card) (button : Button)
    (power : Option Cut) (flash : Memory) : Prop :=
  let ran := upgrade setup card button power ⟨flash, [], []⟩
  ((∃ firmware, card.firmware = some firmware ∧ Acceptable setup card button flash firmware) →
    ran.2.ops ≠ []) ∧
  ((¬ ∃ firmware, card.firmware = some firmware ∧ Acceptable setup card button flash firmware) →
    ran.1 = .ok false ∧ ran.2.ops = [] ∧ ran.2.flash = flash)

section Meets

variable {Key Sig : Type} {setup : Setup Key Sig} {card : Card} {button : Button}
  (power : Option Cut) {flash : Memory}

/-- An upgrade that is not approved. -/
theorem upgrade_refused (refused : ∀ firmware, card.firmware = some firmware →
    ¬ ∃ config, approve setup card button flash firmware = .ok config) :
    Holds (upgrade setup card button power) ⟨flash, [], []⟩ fun outcome after =>
      outcome = .ok false ∧ after.ops = [] ∧ after.flash = flash := by
  unfold upgrade
  cases given : card.firmware with
  | none => exact ⟨rfl, rfl, rfl⟩
  | some firmware =>
      refine Holds.bind_ok (get_apply) ?_
      cases checked : approve setup card button flash firmware with
      | ok config => exact absurd ⟨config, checked⟩ (refused firmware given)
      | error text =>
          cases text with
          | none => exact ⟨rfl, rfl, rfl⟩
          | some text => exact ⟨rfl, rfl, rfl⟩

/-- An upgrade that is approved goes on to write. -/
theorem upgrade_eq_install {firmware sector : Bytes} {address entryIndex : Nat}
    (given : card.firmware = some firmware)
    (passed : approve setup card button flash firmware = .ok (sector, address, entryIndex)) :
    upgrade setup card button power ⟨flash, [], []⟩ =
      install setup.sha256 power firmware sector address entryIndex ⟨flash, [], []⟩ := by
  unfold upgrade
  rw [given]
  refine (bind_ok get_apply).trans ?_
  rw [passed]

private theorem upgrade_approved {firmware : Bytes} {config : Bytes × Nat × Nat}
    (given : card.firmware = some firmware)
    (passed : approve setup card button flash firmware = .ok config) :
    Holds (upgrade setup card button power) ⟨flash, [], []⟩ fun _ after => Touched after := by
  have nonempty : firmware ≠ [] := by
    rintro rfl
    obtain ⟨_, accepted⟩ := exists_approve_iff.mp ⟨config, passed⟩
    exact quoted_ne_nil setup.board (List.infix_nil.mp accepted.device)
  unfold Holds
  rw [upgrade_eq_install power given passed]
  exact install_touches power setup.sha256 _ _ _ _ nonempty

/-- **When the gate meets its purpose**: exactly when a key is configured or the file is not
acceptable. -/
theorem meets_iff : Meets setup card button power flash ↔ (KeyConfigured setup ∨
    ¬ ∃ firmware, card.firmware = some firmware ∧
      Acceptable setup card button flash firmware) := by
  constructor
  · rintro ⟨writes, _⟩
    by_contra neither
    obtain ⟨missing, acceptable⟩ := not_or.mp neither
    rw [not_not] at acceptable
    have refused := @upgrade_refused _ _ setup card button power flash fun firmware _ approved =>
      missing (exists_approve_iff.mp approved).1
    exact writes acceptable refused.2.1
  · intro condition
    constructor
    · rintro ⟨firmware, given, acceptable⟩
      have configured := condition.resolve_right fun none => none ⟨firmware, given, acceptable⟩
      obtain ⟨config, passed⟩ := exists_approve_iff.mpr ⟨configured, acceptable⟩
      exact upgrade_approved power given passed
    · intro unacceptable
      exact upgrade_refused power fun firmware given approved =>
        unacceptable ⟨firmware, given, (exists_approve_iff.mp approved).2⟩

/-- A file for a board, newer than the `VERSION` of the repository. -/
def newerFile : Bytes := encode "\"amigo\" krux/metadata.py 26.03.0".toList

/-- The sample file names its board. -/
theorem newerFile_device : Board.amigo.quoted <:+: newerFile :=
  (isThisDevice_iff _ _).mp (by decide +kernel)

/-- The sample file names a newer version. -/
theorem newerFile_newer : Newer "0.1.0".toList newerFile :=
  (isVersionGreater_iff _ _).mp ⟨"26.03.0".toList, by decide +kernel⟩

/-- A flash with an active entry in the main configuration. -/
def activeFlash : Memory := Memory.write (fun _ => 0xFF) mainBootConfigSectorAddress
  (toBytesBig 4 entryFlags ++ toBytesBig 4 firmwareSlot1 ++ toBytesBig 4 maxFirmwareSize)

/-- With the `VERSION` and the empty `SIGNER_PUBKEY` of the repository a newer file for the
board is refused, whatever `embit` and the hash function are. -/
theorem not_meets_without_key : ¬ ∃ (Key Sig : Type) (ec : Option (Embit Key Sig))
    (sha256 : Bytes → Bytes), Meets ⟨.amigo, "0.1.0".toList, [], ec, sha256⟩
      ⟨some newerFile, none⟩ .enter none activeFlash := by
  rintro ⟨Key, Sig, ec, sha256, writes, _⟩
  have refused := @upgrade_refused _ _ ⟨.amigo, "0.1.0".toList, [], ec, sha256⟩
    ⟨some newerFile, none⟩ .enter none activeFlash
    fun _ _ approved => (exists_approve_iff.mp approved).1.2 rfl
  exact writes ⟨newerFile, rfl, {
    active := .inl (by decide +kernel)
    small := by decide
    signed := fun _ _ configured => absurd rfl configured
    device := newerFile_device
    newer := newerFile_newer
    confirmed := by decide }⟩ refused.2.1

end Meets

end VaultSeed.Firmware
