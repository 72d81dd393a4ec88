import VaultSeed.Firmware.Gate
import VaultSeed.Firmware.Sectors
import VaultSeed.Foundation.Runs

/-! # Upgrades and power loss

An upgrade that starts from the entry the bootloader starts survives a power cut at every
operation: the bootloader then starts the image it started before, or the new one
(`run_survives`). It does not survive it from another entry: after a cut that leaves the main
configuration erased, the next upgrade writes over the running image.
-/

namespace VaultSeed.Firmware

open Python Effect Proc Kboot

section Images

variable {sha256 : Bytes → Bytes} {flash before after : Memory} {address size : Nat}

/-- Four bytes of flash are a number, the lowest byte first. -/
theorem flash2uint32_eq (flash : Memory) (address : Nat) :
    flash2uint32 flash address = fromBytesBig (flash.read address 4).reverse := by
  simp only [flash2uint32, fromBytesBig, Memory.read, List.range_succ, List.range_zero,
    List.nil_append, List.cons_append, List.map_cons, List.map_nil, List.reverse_cons,
    List.reverse_nil, List.foldl_cons, List.foldl_nil, Nat.add_zero]
  omega

/-- The bytes of the stored hash. -/
theorem stored_eq (flash : Memory) {start : Nat} (low : start + 32 ≤ 2 ^ 32) :
    ((List.range 32).map fun n => flash ((start + n) % 2 ^ 32)) = flash.read start 32 := by
  refine List.map_congr_left fun n inside => ?_
  have less := List.mem_range.mp inside
  rw [Nat.mod_eq_of_lt (by omega)]

/-- `app_sha256` for a size that fits. -/
theorem appSha256_eq (low : address ≤ maxAppFlashAddr) (small : size ≤ maxAppFlashSize) :
    appSha256 sha256 flash address size =
      ((sha256 (flash.read address (size + 5))).take 32 == flash.read
        (address + (size + 5)) 32) := by
  unfold maxAppFlashAddr at low
  unfold maxAppFlashSize at small
  have total : (size + 5) % 2 ^ 32 = size + 5 := Nat.mod_eq_of_lt (by omega)
  unfold appSha256
  dsimp only
  rw [total, if_pos (by omega), stored_eq flash (by omega)]

/-- The checks of an application read nothing but its image. -/
theorem appCheck_congr {params : Params} (low : params.address ≤ maxAppFlashAddr)
    (same : flash2uint32 before (params.address + 1) = size) (small : size ≤ maxAppFlashSize)
    (agree : Memory.Agree after before params.address (size + 37)) :
    flash2uint32 after (params.address + 1) = size ∧
      appCheck sha256 after params = appCheck sha256 before params := by
  have header : flash2uint32 after (params.address + 1) = size := by
    rw [← same, flash2uint32_eq, flash2uint32_eq, (agree.mono (by omega) (by omega)).read]
  have first : after params.address = before params.address := agree _ (by omega) (by omega)
  have hash : appSha256 sha256 after params.address size =
      appSha256 sha256 before params.address size := by
    rw [appSha256_eq low small, appSha256_eq low small, (agree.mono (by omega) (by omega)).read,
      (agree.mono (by omega) (by omega)).read]
  have checksum : appCrc32 after params.address size params.crc =
      appCrc32 before params.address size params.crc := by
    unfold appCrc32
    rw [(agree.mono (by omega) ?_).read]
    have fits : (size + 5) % 2 ^ 32 ≤ size + 5 := Nat.mod_le _ _
    omega
  refine ⟨header, ?_⟩
  unfold appCheck
  dsimp only
  rw [header, same, first, hash, checksum]

/-- The image of a firmware file. -/
def imageFor (sha256 : Bytes → Bytes) (firmware : Bytes) : Bytes :=
  imageOf true (some (sha256 (imageHeader firmware.length ++ firmware))) firmware

variable {firmware : Bytes}

/-- An image is the header and the firmware, and their hash behind them. -/
theorem imageFor_eq : imageFor sha256 firmware = (imageHeader firmware.length ++ firmware) ++
    sha256 (imageHeader firmware.length ++ firmware) := (List.append_assoc _ _ _).symm

/-- The header has five bytes. -/
theorem length_imageHeader (size : Nat) : (imageHeader size).length = 5 := by simp [imageHeader]

/-- An image is 37 bytes longer than its firmware. -/
theorem length_imageFor (hashes : ∀ data, (sha256 data).length = 32) :
    (imageFor sha256 firmware).length = firmware.length + 37 := by
  rw [imageFor_eq, List.length_append, List.length_append, hashes, length_imageHeader]
  omega

/-- The header of a complete image. -/
theorem header_of_image (hashes : ∀ data, (sha256 data).length = 32)
    (small : firmware.length ≤ maxFirmwareSize)
    (complete : flash.read address (imageFor sha256 firmware).length = imageFor sha256 firmware) :
    flash address = 0 ∧ flash2uint32 flash (address + 1) = firmware.length := by
  unfold maxFirmwareSize at small
  rw [length_imageFor hashes] at complete
  constructor
  · have first := congrArg (·[0]?) complete
    rw [Memory.getElem?_read (by omega)] at first
    exact Option.some.inj first
  · have part := @Memory.read_slice flash address (firmware.length + 37) 1 4 (by omega)
    have size : ((imageFor sha256 firmware).drop 1).take 4 =
        (toBytesBig 4 firmware.length).reverse := by
      rw [imageFor_eq, imageHeader]
      change List.take 4 ((toBytesBig 4 firmware.length).reverse ++ firmware ++ _) = _
      rw [List.append_assoc, List.take_left' (by simp)]
    rw [flash2uint32_eq, ← part, complete, size, List.reverse_reverse,
      fromBytesBig_toBytesBig 4 _ (by omega)]

/-- **A complete image is started** by an entry for it. -/
theorem starts_of_image (hashes : ∀ data, (sha256 data).length = 32)
    (large : minAppFlashSize ≤ firmware.length) (small : firmware.length ≤ maxFirmwareSize)
    (high : minAppFlashAddr ≤ address) (low : address ≤ maxAppFlashAddr)
    (complete : flash.read address (imageFor sha256 firmware).length = imageFor sha256 firmware)
    (crc : Nat) : starts sha256 flash ⟨entryFlags, address, firmware.length, crc⟩ = true := by
  obtain ⟨first, header⟩ := header_of_image hashes small complete
  have front : (imageHeader firmware.length ++ firmware).length = firmware.length + 5 := by
    rw [List.length_append, length_imageHeader, Nat.add_comm]
  rw [length_imageFor hashes] at complete
  have code : flash.read address (firmware.length + 5) = imageHeader firmware.length ++
      firmware := by
    rw [← @Memory.read_take flash address (firmware.length + 37) _ (by omega),
      complete, imageFor_eq]
    exact List.take_left' front
  have stored : flash.read (address + (firmware.length + 5)) 32 =
      sha256 (imageHeader firmware.length ++ firmware) := by
    have rest := @Memory.read_drop flash address (firmware.length + 37)
      (firmware.length + 5) (by omega)
    rw [complete, imageFor_eq, List.drop_left' front] at rest
    rw [rest]
    congr 1
    omega
  have magic : (entryFlags &&& magicIdMask == magicId) = true := by decide
  have active : (entryFlags &&& flagActive != 0) = true := by decide
  refine starts_eq_true.mpr ⟨magic, decide_eq_true ⟨high, low⟩, decide_eq_true ⟨large, small⟩,
    active, ?_⟩
  unfold appCheck
  dsimp only
  rw [header, if_neg (by simp [first]), if_neg (by simp), if_pos (by decide),
    appSha256_eq low small, code, stored, List.take_of_length_le (hashes _).le, beq_self_eq_true]

end Images

section Install

variable {sha256 : Bytes → Bytes} {firmware sector : Bytes} {address i : Nat}

/-- What an upgrade can leave in the flash: it is cut in the slot, in the backup configuration
or in the main one, or is complete. -/
inductive Left (sha256 : Bytes → Bytes) (firmware sector : Bytes) (address i : Nat)
    (before : Memory) : Memory → Prop where
  | slot {after : Memory} (within : Within (otherSlot address) 0x310000 before after) :
      Left sha256 firmware sector address i before after
  | backup {middle : Memory} (within : Within (otherSlot address) 0x310000 before middle)
      (left : Nat) :
      Left sha256 firmware sector address i before
        (middle.write backupBootConfigSectorAddress (torn sector left))
  | main {middle : Memory} (within : Within (otherSlot address) 0x310000 before middle)
      (complete : middle.read (otherSlot address) (imageFor sha256 firmware).length =
        imageFor sha256 firmware) (left : Nat) :
      Left sha256 firmware sector address i before
        ((middle.write backupBootConfigSectorAddress sector).write mainBootConfigSectorAddress
          (torn (updateBootConfigSector sector i (otherSlot address) firmware.length) left))

private theorem torn_length (content : Bytes) : torn content content.length = content := by
  rw [torn, List.take_length, Nat.sub_self, List.replicate_zero, List.append_nil]

/-- The writing of an upgrade, cut anywhere. -/
theorem install_left (hashes : ∀ data, (sha256 data).length = 32) (power : Option Cut) (chip : Chip)
    (length : sector.length = bootConfigSectorSize) (less : i < 8)
    (small : firmware.length ≤ maxFirmwareSize) :
    Holds (install sha256 power firmware sector address i) chip fun _ after =>
      Left sha256 firmware sector address i chip.flash after.flash := by
  unfold install
  dsimp only
  rw [fsize_eq]
  refine Holds.tryExcept (?_ : Holds _ _ fun outcome after => (∀ exn, outcome ≠ .raised exn) ∧
    Left sha256 firmware sector address i chip.flash after.flash)
    (fun _ _ done => done.2) (fun exn _ done => absurd rfl (done.1 exn)) (fun _ done => done.2)
  refine Holds.bind (writeData_image power (otherSlot_erasable address) chip (hashes _) small) ?_
    (fun exn _ wrote => absurd rfl (wrote.returns exn)) fun after wrote =>
      ⟨nofun, .slot wrote.within⟩
  intro _ middle wrote
  have complete := wrote.complete rfl
  refine Holds.bind (writeData_sector power backupBootConfig_erasable middle length) ?_ ?_ ?_
  · rintro _ after (⟨_, flash⟩ | ⟨impossible, _⟩)
    · refine Holds.bind (writeData_sector power mainBootConfig_erasable after
        (length_updateBootConfigSector length less)) ?_ ?_ ?_
      · rintro _ last (⟨_, written⟩ | ⟨impossible, _⟩)
        · refine ⟨nofun, ?_⟩
          change Left sha256 firmware sector address i chip.flash last.flash
          rw [written, flash, ← torn_length (updateBootConfigSector _ _ _ _)]
          exact .main wrote.within complete _
        · cases impossible
      · rintro exn last (⟨impossible, _⟩ | ⟨impossible, _⟩) <;> cases impossible
      · rintro last (⟨impossible, _⟩ | ⟨_, left, written⟩)
        · cases impossible
        · rw [written, flash]
          exact ⟨nofun, .main wrote.within complete left⟩
    · cases impossible
  · rintro exn after (⟨impossible, _⟩ | ⟨impossible, _⟩) <;> cases impossible
  · rintro after (⟨impossible, _⟩ | ⟨_, left, flash⟩)
    · cases impossible
    · rw [flash]
      exact ⟨nofun, .backup wrote.within left⟩

section Lost

variable {power : Option Cut} {chip middle after last : Chip}

/-- The power is lost while the image is written. -/
theorem install_lost_slot
    (image : writeData power (otherSlot address) firmware.length firmwareWriteChunkSize true
      (some (sha256 (imageHeader firmware.length ++ firmware))) firmware chip = (.off, last)) :
    install sha256 power firmware sector address i chip = (.off, last) := by
  unfold install
  rw [fsize_eq]
  exact tryExcept_off (bind_off image)

/-- The power is lost while the main configuration is written. -/
theorem install_lost_main
    (image : writeData power (otherSlot address) firmware.length firmwareWriteChunkSize true
      (some (sha256 (imageHeader firmware.length ++ firmware))) firmware chip = (.ok (), middle))
    (backup : writeData power backupBootConfigSectorAddress sector.length bootConfigSectorSize false
      none sector middle = (.ok (), after))
    (main : writeData power mainBootConfigSectorAddress
      (updateBootConfigSector sector i (otherSlot address) firmware.length).length
      bootConfigSectorSize false none
      (updateBootConfigSector sector i (otherSlot address) firmware.length) after = (.off, last)) :
    install sha256 power firmware sector address i chip = (.off, last) := by
  unfold install
  rw [fsize_eq]
  refine tryExcept_off ((bind_ok image).trans ?_)
  exact (bind_ok backup).trans (bind_off main)

end Lost

end Install

section Boot

variable {sha256 : Bytes → Bytes} {before after : Memory} {sector firmware : Bytes}
  {i address size : Nat}

/-- The first active entry of a sector is one the bootloader starts. -/
structure FirstStarts (sha256 : Bytes → Bytes) (flash : Memory) (sector : Bytes) (i : Nat) :
    Prop where
  less : i < 8
  inactive : ∀ j < i, isActive (getParams sector j) = false
  here : starts sha256 flash (getParams sector i) = true

/-- The bootloader then starts it. -/
theorem FirstStarts.checkCfg {flash : Memory} {sectorAddress : Nat}
    (first : FirstStarts sha256 flash sector i)
    (read : flash.read sectorAddress bootConfigSectorSize = sector) :
    checkCfg sha256 flash sectorAddress = some ((getParams sector i).address,
      flash2uint32 flash ((getParams sector i).address + 1)) := by
  subst read
  exact checkCfg_eq_some first.less
    (fun j earlier => not_starts_of_inactive (first.inactive j earlier)) first.here

/-- It does so as long as the image is there. -/
theorem FirstStarts.congr (first : FirstStarts sha256 before sector i)
    (same : flash2uint32 before ((getParams sector i).address + 1) = size)
    (small : size ≤ maxFirmwareSize)
    (agree : Memory.Agree after before (getParams sector i).address (size + 37)) :
    flash2uint32 after ((getParams sector i).address + 1) = size ∧
      FirstStarts sha256 after sector i := by
  obtain ⟨magic, address, inRange, active, checked⟩ := starts_eq_true.mp first.here
  obtain ⟨header, kept⟩ := @appCheck_congr sha256 _ _ _ _ (of_decide_eq_true address).2 same small
    agree
  exact ⟨header, first.less, first.inactive,
    starts_eq_true.mpr ⟨magic, address, inRange, active, kept.trans checked⟩⟩

/-- One of the two slots. -/
def IsSlot (address : Nat) : Prop := address = firmwareSlot1 ∨ address = firmwareSlot2

/-- The other slot is a slot. -/
theorem isSlot_otherSlot (address : Nat) : IsSlot (otherSlot address) := by
  unfold otherSlot
  split
  · exact .inr rfl
  · exact .inl rfl

/-- The image in a slot is apart from the other slot. -/
theorem IsSlot.apart (slot : IsSlot address) (small : size ≤ maxFirmwareSize) :
    address + (size + 37) ≤ otherSlot address ∨ otherSlot address + 0x310000 ≤ address := by
  unfold maxFirmwareSize at small
  rcases slot with rfl | rfl
  · have other : otherSlot firmwareSlot1 = 0x390000 := rfl
    unfold firmwareSlot1 at other ⊢
    omega
  · have other : otherSlot firmwareSlot2 = 0x80000 := rfl
    unfold firmwareSlot2 at other ⊢
    omega

/-- The slots are behind the configurations. -/
theorem IsSlot.behind (slot : IsSlot address) : 0x6000 ≤ address := by
  rcases slot with rfl | rfl <;> decide

/-- A slot is in the range that Kboot asks for. -/
theorem IsSlot.inRange (slot : IsSlot address) :
    minAppFlashAddr ≤ address ∧ address ≤ maxAppFlashAddr := by
  rcases slot with rfl | rfl <;> decide

/-- A write to a configuration sector leaves the slots alone. -/
theorem agree_sector {memory : Memory} {start place count : Nat} {content : Bytes}
    (sectors : start + content.length ≤ 0x6000) (slot : IsSlot place) :
    Memory.Agree (memory.write start content) memory place count :=
  Memory.agree_write (.inr (sectors.trans slot.behind))

/-- Both configurations after they are written; the slots are as before. -/
theorem read_sectors {memory : Memory} {backup main : Bytes}
    (backupLength : backup.length = bootConfigSectorSize)
    (mainLength : main.length = bootConfigSectorSize) :
    let after := (memory.write backupBootConfigSectorAddress backup).write
      mainBootConfigSectorAddress main
    after.read mainBootConfigSectorAddress bootConfigSectorSize = main ∧
      after.read backupBootConfigSectorAddress bootConfigSectorSize = backup ∧
      ∀ place count, IsSlot place → Memory.Agree after memory place count := by
  have low : mainBootConfigSectorAddress + main.length ≤ backupBootConfigSectorAddress := by
    rw [mainLength]
    decide
  have high : backupBootConfigSectorAddress + backup.length ≤ 0x6000 := by
    rw [backupLength]
    decide
  refine ⟨?_, ?_, fun place count slot => ?_⟩
  · rw [← mainLength, Memory.read_write]
  · rw [(Memory.agree_write (.inr low)).read, ← backupLength, Memory.read_write]
  · exact (agree_sector (low.trans (by decide)) slot).trans (agree_sector high slot)

/-- The sectors after a change in a slot. -/
theorem Within.readSector {place start : Nat} (within : Within place 0x310000 before after)
    (slot : IsSlot place) (sectors : start + bootConfigSectorSize ≤ 0x6000) :
    after.read start bootConfigSectorSize = before.read start bootConfigSectorSize :=
  (within.agree (.inl (sectors.trans slot.behind))).read

/-- What is left of an upgrade has the image before where it was. -/
theorem Left.agree (left : Left sha256 firmware sector address i before after)
    (slot : IsSlot address) (length : sector.length = bootConfigSectorSize) (less : i < 8)
    (small : size ≤ maxFirmwareSize) : Memory.Agree after before address (size + 37) := by
  cases left with
  | slot within => exact within.agree (slot.apart small)
  | backup within left =>
      refine (agree_sector ?_ slot).trans (within.agree (slot.apart small))
      rw [length_torn, length]
      decide
  | main within complete left =>
      have whole := @length_updateBootConfigSector sector i (otherSlot address) firmware.length
        length less
      obtain ⟨_, _, kept⟩ := read_sectors length ((length_torn _ left).trans whole)
      exact (kept address (size + 37) slot).trans (within.agree (slot.apart small))

/-- **An upgrade survives**: from the first active entry of the main configuration, when it is
the one the bootloader starts, whatever is left of the upgrade boots the image before or the new
one. -/
theorem Left.boots (hashes : ∀ data, (sha256 data).length = 32)
    (left : Left sha256 firmware sector address i before after) (slot : IsSlot address)
    (main : before.read mainBootConfigSectorAddress bootConfigSectorSize = sector)
    (first : FirstStarts sha256 before sector i) (entry : (getParams sector i).address = address)
    (same : flash2uint32 before (address + 1) = size) (fits : size ≤ maxFirmwareSize)
    (small : firmware.length ≤ maxFirmwareSize)
    (last : minAppFlashSize ≤ firmware.length ∨ ∀ j, i < j → j < 8 →
      ¬ (isMagic (getParams sector j) = true ∧ isActive (getParams sector j) = true)) :
    choose sha256 after = some (address, size) ∨
      choose sha256 after = some (otherSlot address, firmware.length) ∧
        after.read (otherSlot address) (imageFor sha256 firmware).length =
          imageFor sha256 firmware := by
  have length : sector.length = bootConfigSectorSize := by rw [← main, Memory.length_read]
  subst entry
  obtain ⟨header, still⟩ := first.congr same fits (left.agree slot length first.less fits)
  have old : ∀ {sectorAddress}, after.read sectorAddress bootConfigSectorSize = sector →
      checkCfg sha256 after sectorAddress = some ((getParams sector i).address, size) := by
    intro sectorAddress read
    rw [still.checkCfg read, header]
  unfold choose
  cases left with
  | slot within =>
      rw [old ((within.readSector (isSlot_otherSlot _) (by decide)).trans main)]
      exact .inl rfl
  | @backup middle within left =>
      have kept : (middle.write backupBootConfigSectorAddress (torn sector left)).read
          mainBootConfigSectorAddress bootConfigSectorSize = sector := by
        rw [(Memory.agree_write (.inl (by decide))).read,
          within.readSector (isSlot_otherSlot _) (by decide), main]
      rw [old kept]
      exact .inl rfl
  | @main middle within complete left =>
      have whole := @length_updateBootConfigSector sector i
        (otherSlot (getParams sector i).address) firmware.length length first.less
      obtain ⟨readMain, readBackup, kept⟩ := read_sectors length ((length_torn _ left).trans whole)
      have there := (kept _ _ (isSlot_otherSlot _)).read.trans complete
      have inRange := (isSlot_otherSlot (getParams sector i).address).inRange
      have low : otherSlot (getParams sector i).address < 256 ^ 4 :=
        inRange.2.trans_lt (by decide)
      rcases checkCfg_torn_updated length first.less low (small.trans_lt (by decide)) first.inactive
        (last.imp_left fun large => starts_of_image hashes large small inRange.1 inRange.2 there)
        readMain with new | none
      · rw [new, (header_of_image hashes small there).2]
        exact .inr ⟨rfl, there⟩
      · rw [none, old readBackup]
        exact .inl rfl

end Boot

section Runs

variable {Key Sig : Type} (sha256 : Bytes → Bytes)

/-- A start of the device with a card: the version that runs, the card, the answer of the user,
and where the power is lost. -/
structure Attempt (Key Sig : Type) where
  setup : Setup Key Sig
  card : Card
  button : Button
  power : Option Cut

/-- The flash after an upgrade, complete or cut; the hash function is the one of the
bootloader. -/
def step (flash : Memory) (attempt : Attempt Key Sig) : Memory :=
  (upgrade { attempt.setup with sha256 := sha256 } attempt.card attempt.button attempt.power
    ⟨flash, [], []⟩).2.flash

/-- The bootloader starts an image in one of the slots. -/
def Boots (flash : Memory) : Prop :=
  ∃ address size, choose sha256 flash = some (address, size) ∧ IsSlot address ∧
    size ≤ maxFirmwareSize

/-- The condition of an upgrade: the first entry of the main configuration with the active bit
is one the bootloader starts, and when the file is too short for the bootloader no later entry
is active. -/
def Agreed (flash : Memory) (attempt : Attempt Key Sig) : Prop :=
  ∀ firmware, attempt.card.firmware = some firmware →
    let sector := flash.read mainBootConfigSectorAddress bootConfigSectorSize
    ∃ i, FirstStarts sha256 flash sector i ∧
      (minAppFlashSize ≤ firmware.length ∨ ∀ j, i < j → j < 8 →
        ¬ (isMagic (getParams sector j) = true ∧ isActive (getParams sector j) = true))

/-- What an upgrade leaves boots: the image before, or the complete new one. -/
def Survives (before : Memory) (attempt : Attempt Key Sig) (after : Memory) : Prop :=
  booted sha256 after ≠ none ∧ (booted sha256 after = booted sha256 before ∨
    ∃ firmware, attempt.card.firmware = some firmware ∧
      booted sha256 after = some (imageFor sha256 firmware))

variable {sha256} {flash : Memory} {attempt : Attempt Key Sig}

/-- The updater starts from the first active entry of the main configuration. -/
theorem activeConfig_of_first {i : Nat} (first : FirstStarts sha256 flash
    (flash.read mainBootConfigSectorAddress bootConfigSectorSize) i) :
    activeConfig flash = some (flash.read mainBootConfigSectorAddress bootConfigSectorSize,
      (getParams (flash.read mainBootConfigSectorAddress bootConfigSectorSize) i).address, i) := by
  have found := findActiveFirmware_eq_some.mpr ⟨first.less, (starts_eq_true.mp first.here).2.2.2.1,
    first.inactive, rfl, rfl⟩
  unfold activeConfig
  dsimp only
  rw [found]

private theorem booted_eq {address size : Nat}
    (chosen : choose sha256 flash = some (address, size)) :
    booted sha256 flash = some (flash.read address (size + 37)) := by
  rw [booted, chosen]
  rfl

/-- An upgrade that is not approved leaves the flash alone. -/
theorem step_refused (refused : ∀ firmware, attempt.card.firmware = some firmware →
    ¬ ∃ config, approve { attempt.setup with sha256 := sha256 } attempt.card attempt.button flash
      firmware = .ok config) : step sha256 flash attempt = flash :=
  (upgrade_refused attempt.power refused).2.2

/-- An upgrade that is approved, from the first active entry of the main configuration. -/
theorem step_left (hashes : ∀ data, (sha256 data).length = 32) {firmware : Bytes}
    {config : Bytes × Nat × Nat} {i : Nat} (given : attempt.card.firmware = some firmware)
    (passed : approve { attempt.setup with sha256 := sha256 } attempt.card attempt.button flash
      firmware = .ok config)
    (first : FirstStarts sha256 flash
      (flash.read mainBootConfigSectorAddress bootConfigSectorSize) i) :
    firmware.length ≤ maxFirmwareSize ∧
      Left sha256 firmware (flash.read mainBootConfigSectorAddress bootConfigSectorSize)
        (getParams (flash.read mainBootConfigSectorAddress bootConfigSectorSize) i).address i flash
        (step sha256 flash attempt) := by
  obtain ⟨active, small, _⟩ := approve_ok_iff.mp passed
  rw [activeConfig_of_first first] at active
  obtain rfl := Option.some.inj active
  refine ⟨small, ?_⟩
  unfold step
  rw [upgrade_eq_install attempt.power given passed]
  exact install_left hashes attempt.power ⟨flash, [], []⟩ Memory.length_read first.less small

/-- **One upgrade survives** a power cut. -/
theorem step_boots (hashes : ∀ data, (sha256 data).length = 32) (boots : Boots sha256 flash)
    (agreed : Agreed sha256 flash attempt) :
    Boots sha256 (step sha256 flash attempt) ∧
      Survives sha256 flash attempt (step sha256 flash attempt) := by
  obtain ⟨address, size, chosen, slot, fits⟩ := boots
  have image := booted_eq chosen
  by_cases approved : ∃ firmware, attempt.card.firmware = some firmware ∧ ∃ config,
      approve { attempt.setup with sha256 := sha256 } attempt.card attempt.button flash firmware =
        .ok config
  · obtain ⟨firmware, given, config, passed⟩ := approved
    obtain ⟨i, first, last⟩ := agreed firmware given
    obtain ⟨small, left⟩ := step_left hashes given passed first
    -- The main configuration comes first, so its entry is the one that was started.
    have selected := chosen
    rw [choose, first.checkCfg rfl, Option.some_or] at selected
    obtain ⟨rfl, rfl⟩ := Prod.mk.inj (Option.some.inj selected)
    rcases left.boots hashes slot rfl first rfl rfl fits small last with old | ⟨new, complete⟩
    · have kept := booted_eq old
      rw [(left.agree slot Memory.length_read first.less fits).read, ← image] at kept
      exact ⟨⟨_, _, old, slot, fits⟩, by simp [kept, image], .inl kept⟩
    · have fresh := booted_eq new
      rw [← length_imageFor hashes, complete] at fresh
      exact ⟨⟨_, _, new, isSlot_otherSlot _, small⟩, by simp [fresh], .inr ⟨firmware, given, fresh⟩⟩
  · rw [step_refused fun firmware given passed => approved ⟨firmware, given, passed⟩]
    exact ⟨⟨address, size, chosen, slot, fits⟩, by simp [image], .inl rfl⟩

/-- **Upgrades survive power loss**: in a run in which every upgrade starts from the entry the
bootloader starts, each of them leaves the image before or the new one to boot. -/
theorem run_survives (hashes : ∀ data, (sha256 data).length = 32) {start : Memory}
    (boots : Boots sha256 start) (attempts : List (Attempt Key Sig)) (attempt : Attempt Key Sig)
    (along : Runs.Along (step sha256) (Agreed sha256) start (attempts ++ [attempt])) :
    Survives sha256 (attempts.foldl (step sha256) start) attempt
      ((attempts ++ [attempt]).foldl (step sha256) start) := by
  rw [List.foldl_append]
  induction attempts generalizing start with
  | nil => exact (step_boots hashes boots along.1).2
  | cons first rest ih => exact ih (step_boots hashes boots along.1).1 along.2

end Runs

section Lost

variable {sha256 : Bytes → Bytes}

/-- A flash as the tools write it: both configurations start the same valid image. -/
def Ready (sha256 : Bytes → Bytes) (flash : Memory) : Prop :=
  let main := flash.read mainBootConfigSectorAddress bootConfigSectorSize
  let backup := flash.read backupBootConfigSectorAddress bootConfigSectorSize
  FirstStarts sha256 flash main 0 ∧ FirstStarts sha256 flash backup 0 ∧
    (getParams main 0).magic = entryFlags ∧ main = backup ∧ IsSlot (getParams main 0).address

/-- The smallest firmware the bootloader starts. -/
def runningFirmware : Bytes := List.replicate minAppFlashSize 0

/-- A configuration with one entry. -/
def startSector : Bytes :=
  updateBootConfigSector erasedSector 0 firmwareSlot1 runningFirmware.length

/-- A flash with an image in the first slot. -/
def startFlash (sha256 : Bytes → Bytes) : Memory :=
  ((Memory.write (fun _ => 0xFF) firmwareSlot1 (imageFor sha256 runningFirmware)).write
    backupBootConfigSectorAddress startSector).write mainBootConfigSectorAddress startSector

/-- A setup with a public key. -/
def keyedSetup : Setup Unit Unit :=
  ⟨.amigo, "0.1.0".toList, "key".toList, some ⟨fun _ => some (), fun _ => some (),
    fun _ => some [], fun _ _ _ => some true⟩, id⟩

/-- An upgrade that is cut at an operation. -/
def cutAttempt (operation : Nat) : Attempt Unit Unit :=
  ⟨keyedSetup, ⟨some newerFile, some []⟩, .enter, some ⟨operation, 0⟩⟩

private theorem length_startSector : startSector.length = bootConfigSectorSize :=
  length_updateBootConfigSector (by simp [erasedSector]) (by decide)

private theorem erasedSector_unknown : ∀ i < 8, isMagic (getParams erasedSector i) = false := by
  decide +kernel

/-- The entries after the first are erased. -/
theorem startSector_unknown {i : Nat} (positive : 0 < i) (less : i < 8) :
    isMagic (getParams startSector i) = false := by
  rw [startSector, getParams_updated_of_ne (by simp [erasedSector]) (by decide) (by omega)]
  exact erasedSector_unknown i less

/-- The first entry of the sample sector starts the running firmware. -/
theorem getParams_startSector : ∃ crc, getParams startSector 0 =
    ⟨entryFlags, firmwareSlot1, runningFirmware.length, crc⟩ :=
  getParams_updated (by simp [erasedSector]) (by decide) (by decide)
    (by rw [runningFirmware, List.length_replicate]; decide)

/-- An entry for the first image starts it where it is in the flash. -/
theorem startSector_first (hashes : ∀ data, (sha256 data).length = 32) {flash : Memory}
    (complete : flash.read firmwareSlot1 (imageFor sha256 runningFirmware).length =
      imageFor sha256 runningFirmware) : FirstStarts sha256 flash startSector 0 := by
  obtain ⟨crc, entry⟩ := getParams_startSector
  refine ⟨by decide, nofun, ?_⟩
  rw [entry]
  refine starts_of_image hashes ?_ ?_ (by decide) (by decide) complete crc
  · rw [runningFirmware, List.length_replicate]
  · rw [runningFirmware, List.length_replicate]
    decide

/-- The file of the attempts is accepted. -/
theorem approve_newerFile {flash : Memory} {config : Bytes × Nat × Nat}
    (active : activeConfig flash = some config) (operation : Nat) :
    approve { keyedSetup with sha256 := sha256 } (cutAttempt operation).card .enter
      flash newerFile = .ok config := by
  have accepted : ∃ config, approve { keyedSetup with sha256 := sha256 } (cutAttempt operation).card
      .enter flash newerFile = .ok config := exists_approve_iff.mpr ⟨⟨rfl, nofun⟩, {
    active := exists_activeConfig_iff.mp ⟨config, active⟩
    small := by decide
    signed := fun ec same _ => by
      obtain rfl := Option.some.inj same
      exact ⟨(), [], rfl, rfl, rfl⟩
    device := newerFile_device
    newer := newerFile_newer
    confirmed := by decide }⟩
  obtain ⟨found, passed⟩ := accepted
  rw [(approve_ok_iff.mp passed).1, Option.some.injEq] at active
  rw [passed, active]

private theorem step_cutAttempt {flash : Memory} {sector : Bytes} {address i : Nat}
    (active : activeConfig flash = some (sector, address, i)) (operation : Nat) :
    step sha256 flash (cutAttempt operation) =
      (install sha256 (some ⟨operation, 0⟩) newerFile sector address i ⟨flash, [], []⟩).2.flash :=
  congrArg (·.2.flash) (upgrade_eq_install _ rfl (approve_newerFile active operation))

/-- The flash before the upgrades. -/
theorem read_startFlash (sha256 : Bytes → Bytes) :
    (startFlash sha256).read mainBootConfigSectorAddress bootConfigSectorSize = startSector ∧
      (startFlash sha256).read backupBootConfigSectorAddress bootConfigSectorSize = startSector ∧
      (startFlash sha256).read firmwareSlot1 (imageFor sha256 runningFirmware).length =
        imageFor sha256 runningFirmware := by
  obtain ⟨main, backup, kept⟩ := @read_sectors
    (Memory.write (fun _ => 0xFF) firmwareSlot1 (imageFor sha256 runningFirmware)) _ _
    length_startSector length_startSector
  exact ⟨main, backup, (kept _ _ (.inl rfl)).read.trans Memory.read_write⟩

/-- The sample flash starts its first entry. -/
theorem startFlash_first (hashes : ∀ data, (sha256 data).length = 32) :
    FirstStarts sha256 (startFlash sha256) startSector 0 :=
  startSector_first hashes (read_startFlash sha256).2.2

private theorem startFlash_ready (hashes : ∀ data, (sha256 data).length = 32) :
    Ready sha256 (startFlash sha256) := by
  obtain ⟨main, backup, _⟩ := read_startFlash sha256
  have first := startFlash_first hashes
  obtain ⟨crc, entry⟩ := getParams_startSector
  unfold Ready
  dsimp only
  rw [main, backup, entry]
  exact ⟨first, first, rfl, rfl, .inl rfl⟩

/-- The first upgrade is cut at the erase of the main configuration. -/
theorem step_first (hashes : ∀ data, (sha256 data).length = 32) :
    ∃ middle, Within firmwareSlot2 0x310000 (startFlash sha256) middle ∧
      step sha256 (startFlash sha256) (cutAttempt 5) =
        (middle.write backupBootConfigSectorAddress startSector).write mainBootConfigSectorAddress
          erasedSector := by
  have main := (read_startFlash sha256).1
  obtain ⟨crc, entry⟩ := getParams_startSector
  have active : activeConfig (startFlash sha256) = some (startSector, firmwareSlot1, 0) := by
    have found := @activeConfig_of_first sha256 (startFlash sha256) 0
    rw [main, entry] at found
    exact found (startFlash_first hashes)
  have nonempty : startSector ≠ [] := by
    rw [← List.length_pos_iff, length_startSector]
    decide
  -- Three operations for the image, two for the backup, and the cut at the next one.
  obtain ⟨middle, image, three⟩ := @writeData_before ⟨5, 0⟩ (otherSlot firmwareSlot1)
    firmwareWriteChunkSize true
      (some (sha256 (imageHeader newerFile.length ++ newerFile))) newerFile
    ⟨startFlash sha256, [], []⟩ (otherSlot_erasable _) nofun (by
      rw [Option.getD_some, List.length_append, hashes]
      decide) (by simp [chunkOps])
  obtain ⟨after, backup, five⟩ := @writeData_before ⟨5, 0⟩ backupBootConfigSectorAddress
    bootConfigSectorSize false none startSector middle backupBootConfig_erasable nonempty (by
      rw [Option.getD_none, List.append_nil, length_startSector]
      decide) (by rw [three]; simp [chunkOps])
  have wrote := writeData_image (some ⟨5, 0⟩) (otherSlot_erasable firmwareSlot1)
    ⟨startFlash sha256, [], []⟩ (hashes (imageHeader newerFile.length ++ newerFile))
    (by decide : newerFile.length ≤ maxFirmwareSize)
  have copied := writeData_sector (some ⟨5, 0⟩) backupBootConfig_erasable middle
    length_startSector
  unfold Holds at wrote copied
  rw [image] at wrote
  rw [backup] at copied
  rcases copied with ⟨_, copied⟩ | ⟨impossible, _⟩
  · refine ⟨middle.flash, wrote.within, ?_⟩
    have whole := @length_updateBootConfigSector startSector 0 (otherSlot firmwareSlot1)
      newerFile.length length_startSector (by decide)
    obtain ⟨last, main, flash⟩ :=
      @writeData_lost ⟨5, 0⟩ mainBootConfigSectorAddress bootConfigSectorSize
      false none (updateBootConfigSector startSector 0 (otherSlot firmwareSlot1) newerFile.length)
      after mainBootConfig_erasable (by rw [← List.length_pos_iff, whole]; decide) (by decide)
      (Nat.zero_le _)
      (by rw [five, three]; simp [chunkOps])
    rw [step_cutAttempt active, install_lost_main image backup main, flash, copied]
    rfl
  · cases impossible

/-- From an erased main configuration an upgrade erases the first slot. -/
theorem step_second (hashes : ∀ data, (sha256 data).length = 32) {flash : Memory}
    (main : flash.read mainBootConfigSectorAddress bootConfigSectorSize = erasedSector) :
    step sha256 flash (cutAttempt 0) =
      flash.write firmwareSlot1 (List.replicate firmwareWriteChunkSize 0xFF) := by
  have active : activeConfig flash = some (erasedSector, 0xFFFFFFFF, 0) := by
    unfold activeConfig
    rw [main]
    dsimp only
    rw [findActiveFirmware_erasedSector]
  obtain ⟨last, image, erased⟩ := @writeData_lost ⟨0, 0⟩ (otherSlot 0xFFFFFFFF)
    firmwareWriteChunkSize true
      (some (sha256 (imageHeader newerFile.length ++ newerFile))) newerFile
    ⟨flash, [], []⟩ (otherSlot_erasable _) nofun (by decide) (by
      rw [Option.getD_some, hashes]
      decide) rfl
  rw [step_cutAttempt active, install_lost_slot image]
  exact erased

/-- An application that does not begin with zero is not started. -/
theorem not_starts_of_key {flash : Memory} {params : Params} (key : flash params.address ≠ 0) :
    starts sha256 flash params = false := by
  have refused : appCheck sha256 flash params = false := if_pos key
  simp [starts, refused]

/-- Whatever the hash function is: a cut at the erase of the main configuration, and another at
the beginning of the next upgrade, leave nothing to boot. -/
theorem lost_after_two_cuts : ¬ ∃ sha256 : Bytes → Bytes, (∀ data, (sha256 data).length = 32) ∧
    (Ready sha256 (startFlash sha256) →
      booted sha256 ([cutAttempt 5, cutAttempt 0].foldl (step sha256) (startFlash sha256)) ≠
        none) := by
  rintro ⟨sha256, hashes, claim⟩
  obtain ⟨middle, _, first⟩ := step_first hashes
  obtain ⟨main, backup, _⟩ := @read_sectors middle _ _ length_startSector
    (by simp [erasedSector] : erasedSector.length = bootConfigSectorSize)
  refine claim (startFlash_ready hashes) ?_
  rw [List.foldl_cons, List.foldl_cons, List.foldl_nil, first, step_second hashes main]
  generalize (middle.write backupBootConfigSectorAddress startSector).write
    mainBootConfigSectorAddress erasedSector = flash at main backup ⊢
  have nothing : choose sha256 (flash.write firmwareSlot1
      (List.replicate firmwareWriteChunkSize 0xFF)) = none := by
    rw [choose, checkCfg_eq_none, checkCfg_eq_none]
    · rfl
    · intro i less
      rw [(Memory.agree_write (.inl (by decide))).read, backup]
      by_cases later : 0 < i
      · exact not_starts_of_not_magic (startSector_unknown later less)
      · obtain rfl : i = 0 := by omega
        obtain ⟨crc, entry⟩ := getParams_startSector
        refine not_starts_of_key ?_
        rw [entry, Memory.write_inside (Nat.le_refl _)
          (by rw [List.length_replicate]; decide)]
        rw [Nat.sub_self, List.getD_eq_getElem?_getD, List.getElem?_replicate, if_pos (by decide)]
        decide
    · intro i less
      rw [(Memory.agree_write (.inl (by decide))).read, main]
      exact not_starts_of_not_magic (erasedSector_unknown i less)
  rw [booted, nothing]
  rfl

/-- The digests of the files of the example, by their lengths. -/
def sampleHash (data : Bytes) : Bytes :=
  if data.length = 0x4005 then
    toBytesBig 32 0x047E264BAF820BD76C95251C562FACE13FF26A76FAF023ECE154854B3C4379D7
  else if data.length = newerFile.length + 5 then
    toBytesBig 32 0x0CFC346331108C2BDA10CF2988715E01B4E7484434A6F6F36BD6B14FE6625CF2
  else
    toBytesBig 32 0xD2C24BB38E86CE196B546CF9B96877C9D6A2C3752AC0E6A380C2A9E55EC31890

/-- The sample hash has 32 bytes. -/
theorem length_sampleHash (data : Bytes) : (sampleHash data).length = 32 := by
  unfold sampleHash
  split
  · exact length_toBytesBig _ _
  · split <;> exact length_toBytesBig _ _

/-- The condition holds before the first upgrade. -/
theorem startFlash_agreed (hashes : ∀ data, (sha256 data).length = 32) (operation : Nat) :
    Agreed sha256 (startFlash sha256) (cutAttempt operation) := by
  intro firmware _
  dsimp only
  rw [(read_startFlash sha256).1]
  refine ⟨0, startFlash_first hashes, .inr fun j positive less known => ?_⟩
  rw [startSector_unknown positive less] at known
  exact absurd known.1 (by decide)

/-- A start without a card. -/
def idleAttempt : Attempt Unit Unit := ⟨keyedSetup, ⟨none, none⟩, .enter, none⟩

private theorem step_idleAttempt (flash : Memory) : step sha256 flash idleAttempt = flash := rfl

private theorem startFlash_boots (hashes : ∀ data, (sha256 data).length = 32) :
    Boots sha256 (startFlash sha256) := by
  obtain ⟨main, _, complete⟩ := read_startFlash sha256
  obtain ⟨crc, entry⟩ := getParams_startSector
  have small : runningFirmware.length ≤ maxFirmwareSize := by
    rw [runningFirmware, List.length_replicate]
    decide
  have selected := (startFlash_first hashes).checkCfg main
  rw [entry, (header_of_image hashes small complete).2] at selected
  refine ⟨firmwareSlot1, runningFirmware.length, ?_, .inl rfl, small⟩
  rw [choose, selected, Option.some_or]

/-- A start without a card, and an upgrade that is cut at the erase of the main
configuration. -/
theorem run_survives_erased : Boots sampleHash (startFlash sampleHash) ∧
    Survives sampleHash ([idleAttempt].foldl (step sampleHash) (startFlash sampleHash))
      (cutAttempt 5)
      (([idleAttempt] ++ [cutAttempt 5]).foldl (step sampleHash) (startFlash sampleHash)) := by
  have boots := startFlash_boots length_sampleHash
  refine ⟨boots, run_survives length_sampleHash boots _ _ ⟨fun _ => nofun, ?_, trivial⟩⟩
  rw [step_idleAttempt]
  exact startFlash_agreed length_sampleHash 5

end Lost

end VaultSeed.Firmware
