import VaultSeed.Foundation.Bytes
import VaultSeed.Foundation.Effect
import VaultSeed.Foundation.Memory

/-! # The flash chip

`flash.c`: a write puts its bytes where it is asked to, an erase knows two sizes only and
clears the whole sector or block an address is in. Every erase and every write is one
operation, at which the power may be lost: an erase is then done, and a write has put a
beginning of its bytes.
-/

namespace VaultSeed.Firmware

open Python Effect Proc

/-- The operations that change the flash. -/
inductive FlashOp where
  | erase (address size : Nat)
  | write (address : Nat) (data : Bytes)
  deriving DecidableEq

/-- The flash chip with the operations of the current upgrade, latest first, and the errors
that were shown. -/
structure Chip where
  flash : Memory
  ops : List FlashOp
  shown : List Text

/-- Where the power is lost: at the operation with a number, after some bytes of a write. -/
structure Cut where
  operation : Nat
  left : Nat
  deriving DecidableEq, Repr

/-- A procedure of the upgrade. -/
abbrev Flashing (α : Type) := Proc Chip Exn α

/-- The sizes `flash.erase` knows: a sector, and a block of 64 KiB. -/
def EraseSize (size : Nat) : Prop := size = 4096 ∨ size = 65536

instance (size : Nat) : Decidable (EraseSize size) := inferInstanceAs (Decidable (_ ∨ _))

section Operations

variable (res : Bool) (power : Option Cut)

/-- How much of the next operation is done when the power is lost at it. -/
def lostAt (chip : Chip) : Option Nat :=
  match power with
  | some cut => if chip.ops.length = cut.operation then some cut.left else none
  | none => none

/-- `flash.erase`. For a size it does not know nothing is erased, and the status it tests is
what its variable `res` holds by chance: whether that is `W25QXX_OK`. -/
def eraseFlash (address size : Nat) : Flashing Unit := fun chip =>
  if EraseSize size then
    let start := address / size * size
    let after : Chip := { chip with
      flash := chip.flash.write start (List.replicate size 0xFF)
      ops := .erase start size :: chip.ops }
    match lostAt power chip with
    | some _ => (.off, after)
    | none => (.ok (), after)
  else if res then (.ok (), chip)
  else (.raised (.valueError "error erasing flash"), chip)

/-- `flash.write`. -/
def writeFlash (address : Nat) (data : Bytes) : Flashing Unit := fun chip =>
  let ops := .write address data :: chip.ops
  match lostAt power chip with
  | some left => (.off, { chip with flash := chip.flash.write address (data.take left), ops })
  | none => (.ok (), { chip with flash := chip.flash.write address data, ops })

end Operations

/-- `display.flash_text` of an error. -/
def flashText (text : Text) : Flashing Unit :=
  Proc.modify fun chip => { chip with shown := text :: chip.shown }

/-- The ranges `flash.erase` erases exactly: a sector or a block, from its beginning on. -/
structure Erasable (address size : Nat) : Prop where
  known : EraseSize size
  aligned : size ∣ address

/-- The chunks after an erasable one. -/
theorem Erasable.chunk {address size : Nat} (erasable : Erasable address size) (i : Nat) :
    Erasable (i * size + address) size :=
  ⟨erasable.known, Nat.dvd_add (Nat.dvd_mul_left _ _) erasable.aligned⟩

section Rules

variable {res : Bool} {power : Option Cut} {chip : Chip} {address size : Nat} {data : Bytes}

/-- Before the operation of a cut nothing is lost. -/
theorem lostAt_before {cut : Cut} (later : chip.ops.length < cut.operation) :
    lostAt (some cut) chip = none := if_neg later.ne

/-- A whole sector or block is erased. -/
theorem eraseFlash_goes (erasable : Erasable address size) (goes : lostAt power chip = none) :
    eraseFlash res power address size chip = (.ok (), { chip with
      flash := chip.flash.write address (List.replicate size 0xFF)
      ops := .erase address size :: chip.ops }) := by
  rw [eraseFlash, if_pos erasable.known, goes, Nat.div_mul_cancel erasable.aligned]

/-- The power is lost at an erase. -/
theorem eraseFlash_lost (erasable : Erasable address size) {left : Nat}
    (lost : lostAt power chip = some left) :
    eraseFlash res power address size chip = (.off, { chip with
      flash := chip.flash.write address (List.replicate size 0xFF)
      ops := .erase address size :: chip.ops }) := by
  rw [eraseFlash, if_pos erasable.known, lost, Nat.div_mul_cancel erasable.aligned]

/-- A write that is not cut writes the data. -/
theorem writeFlash_goes (goes : lostAt power chip = none) :
    writeFlash power address data chip = (.ok (), { chip with
      flash := chip.flash.write address data
      ops := .write address data :: chip.ops }) := by
  rw [writeFlash, goes]

/-- **An erase** of a whole sector or block is done also when the power is lost at it. -/
theorem eraseFlash_holds (erasable : Erasable address size) :
    Holds (eraseFlash res power address size) chip fun outcome after =>
      (outcome = .ok () ∨ outcome = .off) ∧ after.ops = .erase address size :: chip.ops ∧
        after.flash = chip.flash.write address (List.replicate size 0xFF) := by
  unfold Holds
  cases lost : lostAt power chip with
  | none =>
      rw [eraseFlash_goes erasable lost]
      exact ⟨.inl rfl, rfl, rfl⟩
  | some left =>
      rw [eraseFlash_lost erasable lost]
      exact ⟨.inr rfl, rfl, rfl⟩

/-- **A write**, or a beginning of it when the power is lost. -/
theorem writeFlash_holds (power : Option Cut) (chip : Chip) (address : Nat) (data : Bytes) :
    Holds (writeFlash power address data) chip fun outcome after =>
      after.ops = .write address data :: chip.ops ∧
      (outcome = .ok () ∧ after.flash = chip.flash.write address data ∨
        outcome = .off ∧ ∃ left, after.flash = chip.flash.write address (data.take left)) := by
  unfold Holds writeFlash
  cases lostAt power chip with
  | none => exact ⟨rfl, .inl ⟨rfl, rfl⟩⟩
  | some left => exact ⟨rfl, .inr ⟨rfl, left, rfl⟩⟩

end Rules

end VaultSeed.Firmware
