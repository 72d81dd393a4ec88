import VaultSeed.Firmware.BootEntry

/-! # What an upgrade may touch

Every erase and every write of an upgrade is an operation on a range of the flash. Chunk for
chunk `write_data` stays in the slot that is not running, and the two configurations fill
their sectors exactly (`upgrade_contained`). The bound is tight: header, largest file and hash
end in the last chunk of a slot.
-/

namespace VaultSeed.Firmware

open Python Effect Proc Kboot

/-- `SPIFFS_ADDR`. -/
def spiffsAddr : Nat := 0xD00000

/-- The number of bytes from `FIRMWARE_SLOT_1` to `FIRMWARE_SLOT_2`. -/
def slotSize : Nat := 0x310000

namespace FlashOp

/-- The first address an operation changes. -/
def start : FlashOp → Nat
  | erase address _ => address
  | write address _ => address

/-- The number of bytes an operation changes. -/
def length : FlashOp → Nat
  | erase _ size => size
  | write _ data => data.length

/-- An operation changes nothing outside a range. -/
def Inside (start length : Nat) (op : FlashOp) : Prop :=
  start ≤ op.start ∧ op.start + op.length ≤ start + length

end FlashOp

/-- The operations of an upgrade so far satisfy a predicate. -/
def OnlyOps (allowed : FlashOp → Prop) (chip : Chip) : Prop := ∀ op ∈ chip.ops, allowed op

section Operations

variable {allowed : FlashOp → Prop} {res : Bool} {power : Option Cut} {address size : Nat}
  {data : Bytes}

private theorem eraseFlash_onlyOps (erasable : Erasable address size)
    (erase : allowed (.erase address size)) :
    Keeps (OnlyOps allowed) (eraseFlash res power address size) := by
  intro chip before
  refine (eraseFlash_holds erasable).mono ?_
  rintro _ after ⟨_, ops, _⟩
  unfold OnlyOps
  rw [ops]
  exact List.forall_mem_cons.mpr ⟨erase, before⟩

private theorem writeFlash_onlyOps (write : allowed (.write address data)) :
    Keeps (OnlyOps allowed) (writeFlash power address data) := by
  intro chip before
  refine (writeFlash_holds power chip address data).mono ?_
  rintro _ after ⟨ops, _⟩
  unfold OnlyOps
  rw [ops]
  exact List.forall_mem_cons.mpr ⟨write, before⟩

end Operations

section Chunk

variable {allowed : FlashOp → Prop} {res : Bool} {power : Option Cut}
  {address dataSize chunkSize limit : Nat} {header : Bool} {shaSuffix : Option Bytes} {i : Nat}
  {buffer block data : Bytes}

/-- A flushed chunk is erased, and its header and its block are written. -/
theorem flushBuffer_onlyOps (erasable : Erasable address chunkSize)
    (filled : buffer.take (chunkSize - headerOffset header i) = block)
    (erase : allowed (.erase (i * chunkSize + address) chunkSize))
    (front : header = true ∧ i = 0 →
      allowed (.write (i * chunkSize + address) (imageHeader dataSize)))
    (write : allowed (.write (i * chunkSize + address + headerOffset header i) block)) :
    Keeps (OnlyOps allowed)
      (flushBuffer res power address dataSize chunkSize header i buffer) := by
  refine Keeps.bind (eraseFlash_onlyOps (erasable.chunk i) erase) fun _ => Keeps.bind ?_ fun _ => ?_
  · unfold writeHeader
    split
    · rename_i first
      exact writeFlash_onlyOps (front first)
    · exact Keeps.pure ()
  · rw [filled]
    exact writeFlash_onlyOps write

/-- The chunks that begin before the end of the image are all inside the limit, and so are their
operations. -/
theorem flushesAll_onlyOps {count : Nat} (erasable : Erasable address chunkSize)
    (small : headerOffset header 0 < chunkSize) (inside : ∀ i < count, (i + 1) * chunkSize ≤ limit)
    (each : ∀ op : FlashOp, op.Inside address limit → allowed op) :
    FlushesAll res power address chunkSize header shaSuffix data count
      (fun _ => OnlyOps allowed) fun _ => OnlyOps allowed := by
  intro i less before begins buffer taken
  have offset := headerOffset_le header i
  have space := inside i less
  rw [Nat.succ_mul] at space
  have flush : Keeps (OnlyOps allowed)
      (flushBuffer res power address data.length chunkSize header i buffer) := by
    refine flushBuffer_onlyOps erasable taken (each _ ⟨?_, ?_⟩) ?_ (each _ ⟨?_, ?_⟩)
    · exact Nat.le_add_left _ _
    · dsimp only [FlashOp.start, FlashOp.length]
      omega
    · intro first
      have five : headerOffset header i = 5 := if_pos first
      refine each _ ⟨Nat.le_add_left _ _, ?_⟩
      dsimp only [FlashOp.start, FlashOp.length]
      rw [length_imageHeader]
      omega
    · dsimp only [FlashOp.start]
      omega
    · dsimp only [FlashOp.start, FlashOp.length]
      rw [length_blockOf]
      omega
  refine (flush before begins).mono ?_
  rintro (_ | _ | _) after kept <;> exact kept

end Chunk

section Parts

variable {allowed : FlashOp → Prop} {power : Option Cut} {address : Nat}

/-- The image is written inside its slot. -/
theorem writeData_image_onlyOps (erasable : Erasable address firmwareWriteChunkSize)
    {data hash : Bytes} (length : hash.length = 32) (fits : data.length ≤ maxFirmwareSize)
    (each : ∀ op : FlashOp, op.Inside address slotSize → allowed op) :
    Keeps (OnlyOps allowed)
      (writeData power address data.length firmwareWriteChunkSize true (some hash) data) := by
  intro chip before
  obtain ⟨count, -, counts⟩ := zeroPadded_count (by decide : 0 < firmwareWriteChunkSize)
    (imageOf true (some hash) data)
  have flush := @flushesAll_onlyOps allowed false power address firmwareWriteChunkSize slotSize true
    (some hash) data count erasable (by decide)
    (fun i less => image_chunks_inside length fits i ((counts i).mpr less)) each
  refine (streamData_holds readBytes_delivers (by decide) ?_ ?_ counts flush rfl before).mono ?_
  · rw [Option.getD_some, length]
    decide
  · rw [List.length_append, Option.getD_some, length]
    omega
  · rintro (_ | _ | _) after kept <;> exact kept

/-- A configuration sector is erased and written. -/
theorem writeData_sector_onlyOps (erasable : Erasable address bootConfigSectorSize)
    {sector : Bytes} (length : sector.length = bootConfigSectorSize)
    (erase : allowed (.erase address bootConfigSectorSize))
    (write : allowed (.write address sector)) :
    Keeps (OnlyOps allowed)
      (writeData power address sector.length bootConfigSectorSize false none sector) := by
  have start : 0 * bootConfigSectorSize + address = address := by
    rw [Nat.zero_mul, Nat.zero_add]
  intro chip before
  refine writeData_sector_of_flush length fun buffer taken => ?_
  have filled : buffer.take (bootConfigSectorSize - headerOffset false 0) = sector := taken
  refine flushBuffer_onlyOps erasable filled ?_ (fun first => nomatch first.1) ?_ chip before
  · rw [start]
    exact erase
  · rw [start]
    exact write

end Parts

section Install

variable {sha256 : Bytes → Bytes} {firmware sector updated : Bytes} {address slot i : Nat}

/-- What an upgrade does to the flash: it stays in a slot, and erases and writes the two
configuration sectors. -/
def Allowed (slot : Nat) (sector updated : Bytes) (op : FlashOp) : Prop :=
  op.Inside slot slotSize ∨
  op = .erase backupBootConfigSectorAddress bootConfigSectorSize ∨
  op = .write backupBootConfigSectorAddress sector ∨
  op = .erase mainBootConfigSectorAddress bootConfigSectorSize ∨
  op = .write mainBootConfigSectorAddress updated

/-- Both configurations are written behind an image. -/
def Complete (slot : Nat) (sector updated : Bytes) (before after : Memory) : Prop :=
  ∃ middle, Within slot slotSize before middle ∧
    after = (middle.write backupBootConfigSectorAddress sector).write mainBootConfigSectorAddress
      updated

/-- **The operations of an upgrade** are the allowed ones. -/
theorem install_onlyOps (hashes : ∀ data, (sha256 data).length = 32) (power : Option Cut)
    (length : sector.length = bootConfigSectorSize) (less : i < 8)
    (small : firmware.length ≤ maxFirmwareSize)
    (changed : updateBootConfigSector sector i (otherSlot address) firmware.length = updated) :
    Keeps (OnlyOps (Allowed (otherSlot address) sector updated))
      (install sha256 power firmware sector address i) := by
  have updatedLength : updated.length = bootConfigSectorSize := by
    rw [← changed]
    exact length_updateBootConfigSector length less
  have image := @writeData_image_onlyOps (Allowed (otherSlot address) sector updated) power
    (otherSlot address) (otherSlot_erasable address) _ _
    (hashes (imageHeader firmware.length ++ firmware)) small
    fun op inside => .inl inside
  have backup := @writeData_sector_onlyOps (Allowed (otherSlot address) sector updated) power
    backupBootConfigSectorAddress backupBootConfig_erasable sector length (.inr (.inl rfl))
      (.inr (.inr (.inl rfl)))
  have main := @writeData_sector_onlyOps (Allowed (otherSlot address) sector updated) power
    mainBootConfigSectorAddress mainBootConfig_erasable updated updatedLength
      (.inr (.inr (.inr (.inl rfl))))
    (.inr (.inr (.inr (.inr rfl))))
  subst changed
  unfold install
  dsimp only
  rw [fsize_eq]
  apply Keeps.tryExcept
  · exact Keeps.bind image fun _ => Keeps.bind backup fun _ => Keeps.bind main fun _ =>
      Keeps.pure true
  · exact fun _ => Keeps.bind (Keeps.modify fun _ kept => kept) fun _ => Keeps.pure false

/-- **The writing of an upgrade is complete** when the power is not lost. -/
theorem install_complete (hashes : ∀ data, (sha256 data).length = 32) (power : Option Cut)
    (chip : Chip) (length : sector.length = bootConfigSectorSize) (less : i < 8)
    (small : firmware.length ≤ maxFirmwareSize) :
    Holds (install sha256 power firmware sector address i) chip fun outcome after =>
      outcome = .off ∨ outcome = .ok true ∧ Complete (otherSlot address) sector
        (updateBootConfigSector sector i (otherSlot address) firmware.length) chip.flash
        after.flash := by
  unfold install
  dsimp only
  rw [fsize_eq]
  refine Holds.tryExcept (?_ : Holds _ _ fun outcome after =>
      outcome = .off ∨ outcome = .ok true ∧ Complete (otherSlot address) sector
        (updateBootConfigSector sector i (otherSlot address) firmware.length) chip.flash
        after.flash)
    (fun _ _ done => done) ?_ (fun _ done => done)
  · refine Holds.bind (writeData_image power (otherSlot_erasable address) chip (hashes _) small) ?_
      (fun exn _ wrote => absurd rfl (wrote.returns exn)) (fun _ _ => .inl rfl)
    intro _ middle wrote
    refine Holds.bind (writeData_sector power backupBootConfig_erasable middle length) ?_ ?_
      (fun _ _ => .inl rfl)
    · rintro _ next (⟨_, copied⟩ | ⟨impossible, _⟩)
      · refine Holds.bind (writeData_sector power mainBootConfig_erasable next
          (length_updateBootConfigSector length less)) ?_ ?_ (fun _ _ => .inl rfl)
        · rintro _ last (⟨_, written⟩ | ⟨impossible, _⟩)
          · refine .inr ⟨rfl, middle.flash, wrote.within, ?_⟩
            change last.flash = _
            rw [written, copied]
            rfl
          · cases impossible
        · rintro exn last (⟨impossible, _⟩ | ⟨impossible, _⟩) <;> cases impossible
      · cases impossible
    · rintro exn next (⟨impossible, _⟩ | ⟨impossible, _⟩) <;> cases impossible
  · rintro exn after (impossible | ⟨impossible, _⟩) <;> cases impossible

variable {before after : Memory}

/-- The first configuration sector, the second one behind it and the slots. -/
theorem Left.outside (left : Left sha256 firmware sector address i before after)
    (length : sector.length = bootConfigSectorSize) (less : i < 8) {place : Nat}
    (sectors : place < 0x4000 ∨ 0x6000 ≤ place)
    (apart : place < otherSlot address ∨ otherSlot address + slotSize ≤ place) :
    after place = before place := by
  have backup : ∀ content : Bytes, content.length = bootConfigSectorSize → ∀ memory : Memory,
      memory.write backupBootConfigSectorAddress content place = memory place := by
    intro content size memory
    unfold bootConfigSectorSize at size
    refine Memory.write_outside ?_
    unfold backupBootConfigSectorAddress
    omega
  have main : ∀ content : Bytes, content.length = bootConfigSectorSize → ∀ memory : Memory,
      memory.write mainBootConfigSectorAddress content place = memory place := by
    intro content size memory
    unfold bootConfigSectorSize at size
    refine Memory.write_outside ?_
    unfold mainBootConfigSectorAddress
    omega
  cases left with
  | slot within => exact within place apart
  | backup within left =>
      rw [backup _ ((length_torn _ _).trans length)]
      exact within place apart
  | main within complete left =>
      rw [main _ ((length_torn _ _).trans (length_updateBootConfigSector length less)),
        backup _ length]
      exact within place apart

/-- The main configuration after a complete upgrade. -/
theorem Complete.main {slot : Nat} (complete : Complete slot sector updated before after)
    (length : updated.length = bootConfigSectorSize) :
    after.read mainBootConfigSectorAddress bootConfigSectorSize = updated := by
  obtain ⟨middle, _, rfl⟩ := complete
  rw [← length, Memory.read_write]

end Install

/-- What is asked of an upgrade that starts from an entry of a configuration: its operations lie
in the other slot and in the two configuration sectors, and leave the slot that is running, the
file system and the rest of the configuration alone. -/
structure Contained (before : Memory) (sector : Bytes) (address i : Nat)
    (outcome : Outcome Exn Bool) (after : Chip) : Prop where
  ops : ∀ op ∈ after.ops, op.Inside (otherSlot address) slotSize ∨
    op.Inside mainBootConfigSectorAddress bootConfigSectorSize ∨
    op.Inside backupBootConfigSectorAddress bootConfigSectorSize
  running : Memory.Agree after.flash before address slotSize
  spiffs : ∀ place, spiffsAddr ≤ place → after.flash place = before place
  /-- The bytes written to the main sector are those of the configuration outside the entry. -/
  entries : ∀ data, .write mainBootConfigSectorAddress data ∈ after.ops →
    ∀ place, place < 32 * i ∨ 32 * i + 12 ≤ place → data[place]? = sector[place]?
  /-- So is, in the end, the main sector, when the configuration was read from it. -/
  main : sector = before.read mainBootConfigSectorAddress bootConfigSectorSize →
    outcome ≠ .off → ∀ place < bootConfigSectorSize, place < 32 * i ∨ 32 * i + 12 ≤ place →
      after.flash (mainBootConfigSectorAddress + place) =
        before (mainBootConfigSectorAddress + place)

section Contained

variable {Key Sig : Type} {setup : Setup Key Sig} {card : Card} {button : Button}
  {power : Option Cut} {flash : Memory} {sector : Bytes} {address i : Nat}

/-- The configuration an upgrade starts from. -/
theorem of_activeConfig (active : activeConfig flash = some (sector, address, i)) :
    sector.length = bootConfigSectorSize ∧ i < 8 := by
  unfold activeConfig at active
  dsimp only at active
  split at active
  · rename_i found
    simp only [Option.some.injEq, Prod.mk.injEq] at active
    obtain ⟨rfl, _, rfl⟩ := active
    exact ⟨Memory.length_read, (findActiveFirmware_eq_some.mp found).1⟩
  · split at active
    · rename_i found
      simp only [Option.some.injEq, Prod.mk.injEq] at active
      obtain ⟨rfl, _, rfl⟩ := active
      exact ⟨Memory.length_read, (findActiveFirmware_eq_some.mp found).1⟩
    · cases active

/-- The slot that is running is apart from the other one. -/
theorem IsSlot.apart_otherSlot (slot : IsSlot address) {place : Nat} (low : address ≤ place)
    (high : place < address + slotSize) :
    place < otherSlot address ∨ otherSlot address + slotSize ≤ place := by
  unfold slotSize at high ⊢
  rcases slot with rfl | rfl
  · have other : otherSlot firmwareSlot1 = 0x390000 := rfl
    rw [other]
    unfold firmwareSlot1 at low high
    omega
  · have other : otherSlot firmwareSlot2 = 0x80000 := rfl
    rw [other]
    unfold firmwareSlot2 at low high
    omega

/-- The writing of an upgrade stays where it may. -/
theorem install_contained {sha256 : Bytes → Bytes} {firmware : Bytes}
    (hashes : ∀ data, (sha256 data).length = 32) (power : Option Cut) (slot : IsSlot address)
    (length : sector.length = bootConfigSectorSize) (less : i < 8)
    (small : firmware.length ≤ maxFirmwareSize) :
    Holds (install sha256 power firmware sector address i) ⟨flash, [], []⟩
      (Contained flash sector address i) := by
  have left := @install_left sha256 firmware sector address i hashes power ⟨flash, [], []⟩ length
    less small
  have nothing : OnlyOps (Allowed (otherSlot address) sector
      (updateBootConfigSector sector i (otherSlot address) firmware.length)) ⟨flash, [], []⟩ := by
    simp [OnlyOps]
  have updatedLength := @length_updateBootConfigSector sector i (otherSlot address) firmware.length
    length less
  have allowed := @install_onlyOps sha256 firmware sector _ address i hashes power length less small
    rfl ⟨flash, [], []⟩ nothing
  refine (left.and (allowed.and (install_complete hashes power _ length less small))).mono ?_
  rintro outcome after ⟨left, allowed, ends⟩
  exact {
    ops := fun op member => by
      rcases allowed op member with inside | rfl | rfl | rfl | rfl
      · exact .inl inside
      · exact .inr (.inr ⟨le_rfl, le_rfl⟩)
      · exact .inr (.inr ⟨le_rfl, Nat.add_le_add_left length.le _⟩)
      · exact .inr (.inl ⟨le_rfl, le_rfl⟩)
      · exact .inr (.inl ⟨le_rfl, Nat.add_le_add_left updatedLength.le _⟩)
    running := fun place low high =>
      left.outside length less (.inr (slot.behind.trans low)) (slot.apart_otherSlot low high)
    spiffs := fun place low => by
      unfold spiffsAddr at low
      refine left.outside length less (.inr (by omega)) (.inr ?_)
      have last : otherSlot address + slotSize ≤ 0xD00000 := by
        rcases isSlot_otherSlot address with same | same <;> rw [same] <;> decide
      omega
    entries := fun data member place outside => by
      rcases allowed _ member with inside | same | same | same | same
      · have low := (isSlot_otherSlot address).behind.trans inside.1
        exact absurd low (by decide : ¬ 0x6000 ≤ mainBootConfigSectorAddress)
      · cases same
      · exact absurd (FlashOp.write.inj same).1 (by decide)
      · cases same
      · rw [(FlashOp.write.inj same).2]
        exact getElem?_updated length less outside
    main := fun same alive place inside outside => by
      rcases ends with off | ⟨_, complete⟩
      · exact absurd off alive
      · have byte := congrArg (·[place]?) (complete.main updatedLength)
        rw [Memory.getElem?_read inside, getElem?_updated length less outside, same,
          Memory.getElem?_read inside] at byte
        exact Option.some.inj byte }

/-- **An upgrade touches only the other slot and the configurations**, whatever file is on the
card, and wherever the power is lost. -/
theorem upgrade_contained (hashes : ∀ data, (setup.sha256 data).length = 32)
    (active : activeConfig flash = some (sector, address, i)) (slot : IsSlot address) :
    Holds (upgrade setup card button power) ⟨flash, [], []⟩
      (Contained flash sector address i) := by
  obtain ⟨length, less⟩ := of_activeConfig active
  by_cases approved : ∃ firmware, card.firmware = some firmware ∧ ∃ config,
      approve setup card button flash firmware = .ok config
  · obtain ⟨firmware, given, config, passed⟩ := approved
    obtain ⟨started, small, _⟩ := approve_ok_iff.mp passed
    obtain rfl := Option.some.inj (started.symm.trans active)
    unfold Holds
    rw [upgrade_eq_install power given passed]
    exact install_contained hashes power slot length less small
  · have refused := @upgrade_refused _ _ setup card button power flash fun firmware given config =>
      approved ⟨firmware, given, config⟩
    refine refused.mono ?_
    rintro _ after ⟨rfl, ops, kept⟩
    exact {
      ops := by simp [ops]
      running := by
        rw [kept]
        exact Memory.Agree.refl _ _ _
      spiffs := fun _ _ => by rw [kept]
      entries := by simp [ops]
      main := fun _ _ _ _ _ => by rw [kept] }

/-- An upgrade that is cut at the erase of the main configuration. -/
theorem upgrade_contained_cut :
    Holds (upgrade { keyedSetup with sha256 := sampleHash } (cutAttempt 5).card .enter
      (some ⟨5, 0⟩)) ⟨startFlash sampleHash, [], []⟩
      (Contained (startFlash sampleHash) startSector firmwareSlot1 0) := by
  obtain ⟨main, _, _⟩ := read_startFlash sampleHash
  obtain ⟨crc, entry⟩ := getParams_startSector
  have first := startFlash_first length_sampleHash
  have active : activeConfig (startFlash sampleHash) = some (startSector, firmwareSlot1, 0) := by
    have started := activeConfig_of_first (main.symm ▸ first)
    rw [main, entry] at started
    exact started
  exact upgrade_contained length_sampleHash active (.inl rfl)

end Contained

end VaultSeed.Firmware
