import VaultSeed.Firmware.PowerLoss

/-! # The updated entry and the bootloader

The updater writes one entry of a configuration sector. The bootloader, which scans the whole
sector, stops at that entry exactly when the image it names is there, with the header and the
hash that the updater writes around a file (`updated_entry_selected`).
-/

namespace VaultSeed.Firmware

open Python Kboot

/-- The entry at which the loop at `check_cfg` stops. -/
def selectedEntry (sha256 : Bytes → Bytes) (flash : Memory) (sectorAddress : Nat) : Option Nat :=
  (List.range bootConfigItems).findSome? fun i =>
    if starts sha256 flash (getParams (flash.read sectorAddress bootConfigSectorSize) i) then
      some i
    else none

/-- At an address there is the image of a file of a size. -/
def HasImage (sha256 : Bytes → Bytes) (flash : Memory) (address size : Nat) : Prop :=
  ∃ firmware : Bytes, firmware.length = size ∧
    flash.read address (size + 37) = imageFor sha256 firmware

section Selected

variable {sha256 : Bytes → Bytes} {flash : Memory} {sectorAddress i : Nat}

private theorem selectedEntry_eq_some : selectedEntry sha256 flash sectorAddress = some i ↔
    i < 8 ∧ starts sha256 flash
        (getParams (flash.read sectorAddress bootConfigSectorSize) i) = true ∧
      ∀ j < i, starts sha256 flash
        (getParams (flash.read sectorAddress bootConfigSectorSize) j) = false := by
  unfold selectedEntry
  rw [findSome?_range_eq_some]
  constructor
  · rintro ⟨j, less, here, before⟩
    split at here
    · rename_i started
      cases here
      refine ⟨less, started, fun k earlier => ?_⟩
      have nothing := before k earlier
      simpa using nothing
    · cases here
  · rintro ⟨less, here, before⟩
    exact ⟨i, less, if_pos here, fun j earlier => by simp [before j earlier]⟩

/-- What is loaded is what the entry names, with the size in the header. -/
theorem checkCfg_of_selected (selected : selectedEntry sha256 flash sectorAddress = some i) :
    checkCfg sha256 flash sectorAddress =
      some ((getParams (flash.read sectorAddress bootConfigSectorSize) i).address,
        flash2uint32 flash
          ((getParams (flash.read sectorAddress bootConfigSectorSize) i).address + 1)) := by
  obtain ⟨less, here, before⟩ := selectedEntry_eq_some.mp selected
  exact checkCfg_eq_some less before here

end Selected

section Images

variable {sha256 : Bytes → Bytes} {flash : Memory} {address size : Nat}

private theorem hasImage_complete (hashes : ∀ data, (sha256 data).length = 32) {firmware : Bytes}
    (complete : flash.read address (imageFor sha256 firmware).length = imageFor sha256 firmware) :
    HasImage sha256 flash address firmware.length := by
  rw [length_imageFor hashes] at complete
  exact ⟨firmware, rfl, complete⟩

/-- The first five bytes of an image the bootloader accepts are its header. -/
theorem read_header (first : flash address = 0) (header : flash2uint32 flash (address + 1) = size) :
    flash.read address 5 = imageHeader size := by
  have split := flash.read_add address 1 4
  have zero : flash.read address 1 = [0] := by
    rw [Memory.read, List.range_one, List.map_singleton, Nat.add_zero, first]
  have bytes := toBytesBig_fromBytesBig (flash.read (address + 1) 4).reverse
  rw [List.length_reverse, Memory.length_read, ← flash2uint32_eq, header] at bytes
  rw [split, zero, imageHeader, bytes, List.reverse_reverse]
  rfl

/-- **The checks an updated entry asks for** pass exactly on the image of a file. -/
theorem starts_iff_hasImage (hashes : ∀ data, (sha256 data).length = 32)
    (large : minAppFlashSize ≤ size) (small : size ≤ maxFirmwareSize)
    (high : minAppFlashAddr ≤ address) (low : address ≤ maxAppFlashAddr) (crc : Nat) :
    starts sha256 flash ⟨entryFlags, address, size, crc⟩ = true ↔
      HasImage sha256 flash address size := by
  constructor
  · intro started
    have checked := (starts_eq_true.mp started).2.2.2.2
    unfold appCheck at checked
    dsimp only at checked
    by_cases first : flash address = 0
    · rw [if_neg (not_not.mpr first)] at checked
      by_cases header : flash2uint32 flash (address + 1) = size
      · rw [header, if_neg (fun refused => refused.2 rfl), if_pos (by decide),
          appSha256_eq low small, List.take_of_length_le (hashes _).le, beq_iff_eq] at checked
        have front : flash.read address (size + 5) =
            imageHeader size ++ flash.read (address + 5) size := by
          rw [Nat.add_comm, Memory.read_add, read_header first header]
        refine ⟨flash.read (address + 5) size, Memory.length_read, ?_⟩
        rw [imageFor_eq, Memory.length_read, ← front, checked]
        exact flash.read_add address (size + 5) 32
      · rw [if_pos ⟨by decide, fun same => header same.symm⟩] at checked
        cases checked
    · rw [if_pos first] at checked
      cases checked
  · intro image
    obtain ⟨firmware, rfl, complete⟩ := image
    rw [← length_imageFor hashes] at complete
    exact starts_of_image hashes large small high low complete crc

end Images

section Updated

variable {sector : Bytes} {i address size : Nat}

/-- An updated sector differs from the sector in twelve bytes only. -/
theorem getElem?_updated (length : sector.length = bootConfigSectorSize) (less : i < 8)
    {place : Nat} (outside : place < 32 * i ∨ 32 * i + 12 ≤ place) :
    (updateBootConfigSector sector i address size)[place]? = sector[place]? := by
  unfold bootConfigSectorSize at length
  have entry : (toBytesBig 4 entryFlags ++ toBytesBig 4 address ++
      toBytesBig 4 size).length = 12 := by simp
  have front : (sector.take (i * 32)).length = i * 32 := by
    rw [List.length_take]
    omega
  unfold updateBootConfigSector splice
  rw [entry]
  rcases outside with before | behind
  · rw [List.append_assoc, List.getElem?_append_left (by omega),
      List.getElem?_take_of_lt (by omega)]
  · rw [List.getElem?_append_right (by rw [List.length_append]; omega), List.length_append, front,
      entry, List.getElem?_drop]
    congr 1
    omega

/-- The updater finds the entry it has written. -/
theorem findActiveFirmware_updated {oldAddress oldSize : Nat}
    (length : sector.length = bootConfigSectorSize)
    (found : findActiveFirmware sector = some (oldAddress, oldSize, i))
    (low : address < 256 ^ 4) (small : size < 256 ^ 4) :
    findActiveFirmware (updateBootConfigSector sector i address size) =
      some (address, size, i) := by
  obtain ⟨less, _, before, _⟩ := findActiveFirmware_eq_some.mp found
  obtain ⟨crc, entry⟩ := getParams_updated length less low small
  refine findActiveFirmware_eq_some.mpr ⟨less, ?_, fun j earlier => ?_, ?_, ?_⟩
  · rw [entry]
    change (entryFlags &&& flagActive != 0) = true
    decide
  · rw [getParams_updated_of_ne length less (by omega)]
    exact before j earlier
  · rw [entry]
  · rw [entry]

end Updated

/-- **The bootloader selects the updated entry** exactly when the image it names is there. It
then loads that image; the entry is the one the updater finds again, and the rest of the sector
is as before. -/
theorem updated_entry_selected {sha256 : Bytes → Bytes}
    (hashes : ∀ data, (sha256 data).length = 32) {sector : Bytes}
    (length : sector.length = bootConfigSectorSize) {address size i : Nat}
    (found : findActiveFirmware sector = some (address, size, i)) {newAddress newSize : Nat}
    (slot : IsSlot newAddress) (large : minAppFlashSize ≤ newSize)
    (small : newSize ≤ maxFirmwareSize) :
    (updateBootConfigSector sector i newAddress newSize).length = bootConfigSectorSize ∧
    (∀ place, place < 32 * i ∨ 32 * i + 12 ≤ place →
      (updateBootConfigSector sector i newAddress newSize)[place]? = sector[place]?) ∧
    findActiveFirmware (updateBootConfigSector sector i newAddress newSize) =
      some (newAddress, newSize, i) ∧
    ∀ flash : Memory, ∀ sectorAddress : Nat, flash.read sectorAddress bootConfigSectorSize =
        updateBootConfigSector sector i newAddress newSize →
      (selectedEntry sha256 flash sectorAddress = some i ↔
        HasImage sha256 flash newAddress newSize) ∧
      (HasImage sha256 flash newAddress newSize →
        checkCfg sha256 flash sectorAddress = some (newAddress, newSize)) := by
  obtain ⟨less, _, before, _⟩ := findActiveFirmware_eq_some.mp found
  obtain ⟨high, low⟩ := slot.inRange
  have lowWord : newAddress < 256 ^ 4 := lt_of_le_of_lt low (by decide)
  have smallWord : newSize < 256 ^ 4 := lt_of_le_of_lt small (by decide)
  refine ⟨length_updateBootConfigSector length less,
    fun place outside => getElem?_updated length less outside,
    findActiveFirmware_updated length found lowWord smallWord, ?_⟩
  intro flash sectorAddress read
  obtain ⟨crc, entry⟩ := getParams_updated length less lowWord smallWord
  have here := @starts_iff_hasImage sha256 flash newAddress newSize hashes large small high low crc
  have selected : selectedEntry sha256 flash sectorAddress = some i ↔
      HasImage sha256 flash newAddress newSize := by
    rw [selectedEntry_eq_some, read, entry, here]
    constructor
    · intro chosen
      exact chosen.2.1
    · intro image
      refine ⟨less, image, fun j earlier => ?_⟩
      rw [getParams_updated_of_ne length less (by omega)]
      exact not_starts_of_inactive (before j earlier)
  refine ⟨selected, fun image => ?_⟩
  obtain ⟨firmware, rfl, complete⟩ := image
  have header := (header_of_image hashes small
    (by rw [length_imageFor hashes]; exact complete)).2
  rw [checkCfg_of_selected (selected.mpr ⟨firmware, rfl, complete⟩), read, entry, header]

/-- The first entry written to an erased sector. -/
theorem updated_entry_selected_first :
    selectedEntry sampleHash (startFlash sampleHash) mainBootConfigSectorAddress = some 0 ∧
    checkCfg sampleHash (startFlash sampleHash) mainBootConfigSectorAddress =
      some (firmwareSlot1, runningFirmware.length) := by
  have length : erasedSector.length = bootConfigSectorSize := List.length_replicate
  have size : runningFirmware.length = minAppFlashSize := List.length_replicate
  have large : minAppFlashSize ≤ runningFirmware.length := size.ge
  have small : runningFirmware.length ≤ maxFirmwareSize := by
    rw [size]
    decide
  obtain ⟨_, _, _, boots⟩ := updated_entry_selected length_sampleHash length
    findActiveFirmware_erasedSector (.inl rfl) large small
  obtain ⟨main, _, complete⟩ := read_startFlash sampleHash
  obtain ⟨selected, loaded⟩ := boots (startFlash sampleHash) mainBootConfigSectorAddress main
  have image := hasImage_complete length_sampleHash complete
  exact ⟨selected.mpr image, loaded image⟩

end VaultSeed.Firmware
