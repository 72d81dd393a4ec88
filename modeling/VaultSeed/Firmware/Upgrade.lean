import VaultSeed.Firmware.Inspection
import VaultSeed.Firmware.Kboot
import VaultSeed.Firmware.WriteData

/-! # The upgrade

`firmware.py`: an upgrade from the card finds the active entry of the boot configuration,
checks the file, its signature, its board and its version, and asks the user. It then writes
the new image to the other slot, the configuration it started from to the backup sector, and
the updated configuration to the main sector.
-/

namespace VaultSeed.Firmware

open Python Effect

/-- `MAX_FIRMWARE_SIZE`. -/
def maxFirmwareSize : Nat := 0x300000

/-- `FIRMWARE_SLOT_1`. -/
def firmwareSlot1 : Nat := 0x00080000

/-- `FIRMWARE_SLOT_2`. -/
def firmwareSlot2 : Nat := 0x00390000

/-- `FIRMWARE_WRITE_CHUNCK_SIZE`. -/
def firmwareWriteChunkSize : Nat := 2 ^ 16

/-- The buttons `wait_for_button` returns. -/
inductive Button where
  | enter
  | page
  | pagePrev
  | touch
  | swipeRight
  | swipeLeft
  | swipeUp
  | swipeDown
  | activating
  deriving DecidableEq, Repr

/-- The part of `embit.ec` that checks signatures; `none` stands for an exception. -/
structure Embit (Key Sig : Type) where
  fromString : Text → Option Key
  parse : Bytes → Option Sig
  serialize : Sig → Option Bytes
  verify : Key → Sig → Bytes → Option Bool

/-- What is built into the device: its board, `VERSION`, `SIGNER_PUBKEY`, `embit.ec` when it can
be imported, and the hash function. -/
structure Setup (Key Sig : Type) where
  board : Board
  version : Text
  signerPubkey : Text
  ec : Option (Embit Key Sig)
  sha256 : Bytes → Bytes

/-- The firmware file on the card and its signature. -/
structure Card where
  firmware : Option Bytes
  signature : Option Bytes

/-- `find_active_firmware`: the address, the size and the index of the first entry with the
lowest bit set. -/
def findActiveFirmware (sector : Bytes) : Option (Nat × Nat × Nat) :=
  (List.range 8).findSome? fun i =>
    let configFlags := Kboot.word sector (i * 32)
    if configFlags &&& 0b1 = 0b1 then
      some (Kboot.word sector (i * 32 + 4), Kboot.word sector (i * 32 + 8), i)
    else none

/-- An erased configuration. -/
def erasedSector : Bytes := List.replicate bootConfigSectorSize 0xFF

/-- The first entry of an erased configuration has the lowest bit set. -/
theorem findActiveFirmware_erasedSector :
    findActiveFirmware erasedSector = some (0xFFFFFFFF, 0xFFFFFFFF, 0) := by
  have word : ∀ offset ≤ 8, Kboot.word erasedSector offset = 0xFFFFFFFF := by
    intro offset early
    have inside : 4 ≤ bootConfigSectorSize - offset := by
      rw [bootConfigSectorSize]
      omega
    rw [Kboot.word, erasedSector, List.drop_replicate, List.take_replicate, Nat.min_eq_left inside]
    rfl
  rw [findActiveFirmware, List.range_eq_range', List.range'_succ, List.findSome?_cons,
    word _ (by omega), word _ (by omega), word _ (by omega)]
  rfl

/-- The flags of an entry the upgrade writes. -/
def entryFlags : Nat := 0x5AA5D0C0 ||| 0b1101

/-- `update_boot_config_sector`. -/
def updateBootConfigSector (sector : Bytes) (entryIndex newFirmwareAddress newFirmwareSize : Nat) :
    Bytes :=
  splice sector (entryIndex * 32)
    (toBytesBig 4 entryFlags ++ toBytesBig 4 newFirmwareAddress ++ toBytesBig 4 newFirmwareSize)

section Approval

variable {Key Sig : Type} (setup : Setup Key Sig) (card : Card) (button : Button)

/-- `str(e)`, for the exceptions of the version check. -/
def exceptionText : Exn → Text
  | .valueError message => message.toList
  | .nameError => "local variable referenced before assignment".toList
  | _ => []

/-- The boot configuration with an active entry, main or backup: the sector, the address and
the index of the entry. -/
def activeConfig (flash : Memory) : Option (Bytes × Nat × Nat) :=
  let main := flash.read mainBootConfigSectorAddress bootConfigSectorSize
  match findActiveFirmware main with
  | some (address, _, entryIndex) => some (main, address, entryIndex)
  | none =>
      let backup := flash.read backupBootConfigSectorAddress bootConfigSectorSize
      match findActiveFirmware backup with
      | some (address, _, entryIndex) => some (backup, address, entryIndex)
      | none => none

/-- The public key of the signer: without `embit` or without a key the check is skipped. -/
def signerKey : Except (Option Text) (Option (Embit Key Sig × Key)) :=
  match setup.ec with
  | none => .ok none
  | some ec =>
      if setup.signerPubkey = [] then .ok none
      else
        match ec.fromString setup.signerPubkey with
        | some pubkey => .ok (some (ec, pubkey))
        | none => .error (some "Invalid public key".toList)

/-- The signature of a hash verifies; it is parsed, serialized and parsed again before. -/
def verifies (ec : Embit Key Sig) (pubkey : Key) (signature hash : Bytes) : Bool :=
  ((((ec.parse signature).bind ec.serialize).bind ec.parse).bind fun sig =>
    ec.verify pubkey sig hash) = some true

/-- The signature check. It binds `firmware_hash`, and only where it is made. -/
def checkSignature (signer : Option (Embit Key Sig × Key)) (firmware : Bytes) :
    Except (Option Text) (Option Bytes) :=
  match signer with
  | none => .ok none
  | some (ec, pubkey) =>
      match card.signature with
      | none => .error (some "Missing signature file".toList)
      | some signature =>
          if verifies ec pubkey signature (setup.sha256 firmware) then
            .ok (some (setup.sha256 firmware))
          else .error (some "Bad signature".toList)

/-- The version check and the question to the user. The hash of the file is shown with the
question. -/
def confirmInstall (firmware : Bytes) (firmwareHash : Option Bytes) :
    Except (Option Text) Unit :=
  match isVersionGreater setup.version firmware with
  | .error exn => .error (some (exceptionText exn))
  | .ok none => .error (some ("Firmware not newer than current ".toList ++ setup.version))
  | .ok (some _) =>
      match firmwareHash with
      | none => .error (some (exceptionText .nameError))
      | some _ => if button = .page ∨ button = .pagePrev then .error none else .ok ()

/-- The checks of `upgrade`, in their order: the configuration to start from, or the text that
is shown when it returns `False`. -/
def approve (flash : Memory) (firmware : Bytes) : Except (Option Text) (Bytes × Nat × Nat) :=
  match activeConfig flash with
  | none => .error (some "Invalid bootloader".toList)
  | some config => do
      let signer ← signerKey setup
      if maxFirmwareSize < fsize firmware then
        throw (some ("Firmware exceeds max size: ".toList ++ decimal maxFirmwareSize))
      let firmwareHash ← checkSignature setup card signer firmware
      if isThisDevice setup.board firmware = false then
        throw (some "Firmware not for this device".toList)
      confirmInstall setup button firmware firmwareHash
      pure config

end Approval

/-- The writing of `upgrade`: the image, the backup and the main configuration. -/
def install (sha256 : Bytes → Bytes) (power : Option Cut) (firmware sector : Bytes)
    (address entryIndex : Nat) : Flashing Bool :=
  let newAddress := if address = firmwareSlot1 then firmwareSlot2 else firmwareSlot1
  let newSize := fsize firmware
  let hash := sha256 (imageHeader newSize ++ firmware)
  let updated := updateBootConfigSector sector entryIndex newAddress newSize
  Proc.tryExcept (do
      writeData power newAddress newSize firmwareWriteChunkSize true (some hash) firmware
      writeData power backupBootConfigSectorAddress sector.length bootConfigSectorSize false none
        sector
      writeData power mainBootConfigSectorAddress updated.length bootConfigSectorSize false none
        updated
      pure true) fun _ => do
    flashText "Error read/write data".toList
    pure false

/-- `upgrade`. -/
def upgrade {Key Sig : Type} (setup : Setup Key Sig) (card : Card) (button : Button)
    (power : Option Cut) : Flashing Bool := do
  match card.firmware with
  | none => pure false
  | some firmware =>
      match approve setup card button (← Proc.get).flash firmware with
      | .error none => pure false
      | .error (some text) =>
          flashText text
          pure false
      | .ok (sector, address, entryIndex) =>
          install setup.sha256 power firmware sector address entryIndex

end VaultSeed.Firmware
