import VaultSeed.Foundation.Bytes
import VaultSeed.Foundation.Memory

/-! # The bootloader

The part of Kboot that chooses the application, without the interactive mode: the eight
entries of the main configuration sector are checked in order, and the first active one
whose application passes its checks is started; when there is none, the entries of the
backup sector are checked, and at last the default application is loaded.
-/

namespace VaultSeed.Firmware

open Python

/-- `BOOT_CONFIG_ADDR`, `MAIN_BOOT_CONFIG_SECTOR_ADDRESS`. -/
def mainBootConfigSectorAddress : Nat := 0x00004000

/-- `BACKUP_BOOT_CONFIG_SECTOR_ADDRESS`. -/
def backupBootConfigSectorAddress : Nat := 0x00005000

/-- `BOOT_CONFIG_SECTOR_SIZE`. -/
def bootConfigSectorSize : Nat := 4096

namespace Kboot

/-- `BOOT_CONFIG_ITEMS`. -/
def bootConfigItems : Nat := 8

/-- `MAGIC_ID`. -/
def magicId : Nat := 0x5AA5D0C0

/-- `MAGIC_ID_MASK`. -/
def magicIdMask : Nat := 0xFFFFFFF0

/-- `CFG_APP_FLAG_ACTIVE`. -/
def flagActive : Nat := 0x1

/-- `CFG_APP_FLAG_CRC32`. -/
def flagCrc32 : Nat := 0x2

/-- `CFG_APP_FLAG_SHA256`. -/
def flagSha256 : Nat := 0x4

/-- `CFG_APP_FLAG_SIZE`. -/
def flagSize : Nat := 0x8

/-- `MIN_APP_FLASH_ADDR`. -/
def minAppFlashAddr : Nat := 0x00010000

/-- `MAX_APP_FLASH_ADDR`. -/
def maxAppFlashAddr : Nat := 0x00800000

/-- `MIN_APP_FLASH_SIZE`. -/
def minAppFlashSize : Nat := 0x00004000

/-- `MAX_APP_FLASH_SIZE`. -/
def maxAppFlashSize : Nat := 0x00300000

/-- A word of a configuration sector. Words are read from the flash with the high byte
first. -/
def word (sector : Bytes) (offset : Nat) : Nat := fromBytesBig ((sector.drop offset).take 4)

/-- The parameters of an entry: `cfg_magic`, `cfg_address`, `cfg_size` and `cfg_crc`. -/
structure Params where
  magic : Nat
  address : Nat
  size : Nat
  crc : Nat
  deriving DecidableEq

/-- `get_params`. -/
def getParams (sector : Bytes) (i : Nat) : Params where
  magic := word sector (i * 32)
  address := word sector (i * 32 + 4)
  size := word sector (i * 32 + 8)
  crc := word sector (i * 32 + 12)

/-- `flash2uint32`: single bytes are read with the low byte first. -/
def flash2uint32 (flash : Memory) (address : Nat) : Nat :=
  (flash address).toNat + (flash (address + 1)).toNat * 2 ^ 8 +
    (flash (address + 2)).toNat * 2 ^ 16 + (flash (address + 3)).toNat * 2 ^ 24

/-- `app_sha256`: the hash is taken over the header and the code, and stored after them. A size
that is negative as a signed number reads nothing. -/
def appSha256 (sha256 : Bytes → Bytes) (flash : Memory) (address size : Nat) : Bool :=
  let total := (size + 5) % 2 ^ 32
  let code := flash.read address (if total < 2 ^ 31 then total else 0)
  let stored := (List.range 32).map fun n => flash ((address + total + n) % 2 ^ 32)
  (sha256 code).take 32 == stored

/-- One bit of the checksum. -/
def crcBit (crc : Nat) : Nat := if crc % 2 = 1 then crc / 2 ^^^ 0xEDB88320 else crc / 2

/-- One byte of the checksum. -/
def crcByte (crc : Nat) (byte : UInt8) : Nat := crcBit^[8] (crc ^^^ byte.toNat)

/-- `app_crc32`: the checksum of the code alone. -/
def appCrc32 (flash : Memory) (address size crc : Nat) : Bool :=
  let code := flash.read (address + 5) ((size + 5) % 2 ^ 32 - 5)
  code.foldl crcByte 0xFFFFFFFF ^^^ 0xFFFFFFFF == crc

/-- `app_check`: the first byte is zero, the size in the header is the one of the entry when
the entry asks for it, and the hash or the checksum fits when the entry asks for one. -/
def appCheck (sha256 : Bytes → Bytes) (flash : Memory) (params : Params) : Bool :=
  let size := flash2uint32 flash (params.address + 1)
  if flash params.address ≠ 0 then false
  else if params.magic &&& flagSize ≠ 0 ∧ params.size ≠ size then false
  else if params.magic &&& flagSha256 ≠ 0 then appSha256 sha256 flash params.address size
  else if params.magic &&& flagCrc32 ≠ 0 then appCrc32 flash params.address size params.crc
  else true

/-- The entry carries the magic number. -/
def isMagic (params : Params) : Bool := params.magic &&& magicIdMask == magicId

/-- The entry is active. -/
def isActive (params : Params) : Bool := params.magic &&& flagActive != 0

/-- The address of the entry is in range. -/
def addressInRange (params : Params) : Bool :=
  decide (minAppFlashAddr ≤ params.address ∧ params.address ≤ maxAppFlashAddr)

/-- The size of the entry is in range. -/
def sizeInRange (params : Params) : Bool :=
  decide (minAppFlashSize ≤ params.size ∧ params.size ≤ maxAppFlashSize)

/-- An entry that is started when it is reached. -/
def starts (sha256 : Bytes → Bytes) (flash : Memory) (params : Params) : Bool :=
  isMagic params && addressInRange params && sizeInRange params && isActive params &&
    appCheck sha256 flash params

/-- The loop at `check_cfg`: the address and the size of the application of a sector. -/
def checkCfg (sha256 : Bytes → Bytes) (flash : Memory) (sectorAddress : Nat) :
    Option (Nat × Nat) :=
  let sector := flash.read sectorAddress bootConfigSectorSize
  (List.range bootConfigItems).findSome? fun i =>
    let params := getParams sector i
    if starts sha256 flash params then
      some (params.address, flash2uint32 flash (params.address + 1))
    else none

/-- The choice of `main`: `none` stands for the default application. -/
def choose (sha256 : Bytes → Bytes) (flash : Memory) : Option (Nat × Nat) :=
  (checkCfg sha256 flash mainBootConfigSectorAddress).or
    (checkCfg sha256 flash backupBootConfigSectorAddress)

/-- The header, the code and the hash of the application that is started. -/
def booted (sha256 : Bytes → Bytes) (flash : Memory) : Option Bytes :=
  (choose sha256 flash).map fun (address, size) => flash.read address (size + 37)

/-- The first entry that gives something. -/
theorem findSome?_range_eq_some {α : Type} {count : Nat} {look : Nat → Option α} {found : α} :
    (List.range count).findSome? look = some found ↔
      ∃ i < count, look i = some found ∧ ∀ j < i, look j = none := by
  induction count with
  | zero => simp
  | succ count ih =>
      rw [List.range_succ, List.findSome?_append, Option.or_eq_some_iff, ih]
      constructor
      · rintro (⟨i, less, here, before⟩ | ⟨nothing, here⟩)
        · exact ⟨i, by omega, here, before⟩
        · rw [List.findSome?_eq_none_iff] at nothing
          rw [List.findSome?_singleton] at here
          exact ⟨count, by omega, here, fun j less => nothing j (List.mem_range.mpr less)⟩
      · rintro ⟨i, less, here, before⟩
        by_cases last : i = count
        · subst last
          refine .inr ⟨List.findSome?_eq_none_iff.mpr fun j member => ?_, ?_⟩
          · exact before j (List.mem_range.mp member)
          · rw [List.findSome?_singleton]
            exact here
        · exact .inl ⟨i, by omega, here, before⟩

/-- No entry gives anything. -/
theorem findSome?_range_eq_none {α : Type} {count : Nat} {look : Nat → Option α} :
    (List.range count).findSome? look = none ↔ ∀ i < count, look i = none := by
  simp [List.findSome?_eq_none_iff]

end Kboot

end VaultSeed.Firmware
