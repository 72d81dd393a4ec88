import VaultSeed.Firmware.Upgrade

/-! # Two readings of one boot configuration

The updater takes the first entry with the lowest bit set for the active one, the bootloader
asks for its magic number and for an address in range as well. They agree on a sector exactly
when the first entry with that bit is one of the bootloader's (`agree_iff`); on an erased
sector they do not.
-/

namespace VaultSeed.Firmware

open Python Kboot

/-- An entry the bootloader can select: its magic number with the active flag, and an address
in range. -/
def CanSelect (params : Params) : Prop :=
  isMagic params = true ∧ isActive params = true ∧ addressInRange params = true

instance (params : Params) : Decidable (CanSelect params) := inferInstanceAs (Decidable (_ ∧ _))

section Active

variable {sector : Bytes}

/-- Both test the lowest bit. -/
theorem isActive_iff (sector : Bytes) (i : Nat) :
    isActive (getParams sector i) = true ↔ word sector (i * 32) &&& 0b1 = 0b1 := by
  simp only [isActive, getParams, flagActive, Nat.and_one_is_mod, bne_iff_ne, ne_eq]
  omega

/-- The updater finds the first active entry. -/
theorem findActiveFirmware_eq_some {address size i : Nat} :
    findActiveFirmware sector = some (address, size, i) ↔
      i < 8 ∧ isActive (getParams sector i) = true ∧
        (∀ j < i, isActive (getParams sector j) = false) ∧
        address = (getParams sector i).address ∧ size = (getParams sector i).size := by
  have look : ∀ j, (if word sector (j * 32) &&& 0b1 = 0b1 then
      some (word sector (j * 32 + 4), word sector (j * 32 + 8), j) else none) =
      if isActive (getParams sector j) = true then
        some ((getParams sector j).address, (getParams sector j).size, j) else none := by
    intro j
    simp only [isActive_iff]
    rfl
  simp only [findActiveFirmware, look]
  rw [findSome?_range_eq_some]
  constructor
  · rintro ⟨j, less, here, before⟩
    split at here
    · rename_i active
      cases here
      refine ⟨less, active, fun k earlier => ?_, rfl, rfl⟩
      have nothing := before k earlier
      simpa using nothing
    · cases here
  · rintro ⟨less, active, before, rfl, rfl⟩
    exact ⟨i, less, if_pos active, fun j earlier => by simp [before j earlier]⟩

private theorem findActiveFirmware_eq_none :
    findActiveFirmware sector = none ↔ ∀ i < 8, isActive (getParams sector i) = false := by
  constructor
  · intro nothing i less
    by_contra active
    have some := findSome?_range_eq_none.mp nothing i less
    rw [Bool.not_eq_false, isActive_iff] at active
    simp [active] at some
  · intro inactive
    refine findSome?_range_eq_none.mpr fun i less => if_neg fun active => ?_
    rw [← isActive_iff, inactive i less] at active
    cases active

/-- There is a first active entry, or none is active. -/
theorem first_active_or (sector : Bytes) :
    (∃ i < 8, isActive (getParams sector i) = true ∧
      ∀ j < i, isActive (getParams sector j) = false) ∨
    ∀ i < 8, isActive (getParams sector i) = false := by
  cases found : findActiveFirmware sector with
  | none => exact .inr (findActiveFirmware_eq_none.mp found)
  | some entry =>
      obtain ⟨address, size, i⟩ := entry
      obtain ⟨less, active, before, _⟩ := findActiveFirmware_eq_some.mp found
      exact .inl ⟨i, less, active, before⟩

end Active

/-- The updater and the bootloader agree on a sector: the entry the updater finds is the first
one the bootloader can select, and where the bootloader can select none the updater finds
none. -/
def Agree (sector : Bytes) : Prop :=
  (∀ address size i, findActiveFirmware sector = some (address, size, i) →
    CanSelect (getParams sector i) ∧ ∀ j < i, ¬ CanSelect (getParams sector j)) ∧
  ((∀ i < 8, ¬ CanSelect (getParams sector i)) → findActiveFirmware sector = none)

/-- **The two readings agree** exactly when the first entry with the active bit, if there is
one, has the magic number and an address in range. -/
theorem agree_iff (sector : Bytes) : Agree sector ↔
    ∀ i < 8, isActive (getParams sector i) = true →
      (∀ j < i, isActive (getParams sector j) = false) →
      isMagic (getParams sector i) = true ∧ addressInRange (getParams sector i) = true := by
  constructor
  · rintro ⟨found, _⟩ i less active before
    obtain ⟨⟨magic, _, inRange⟩, _⟩ := found _ _ i
      (findActiveFirmware_eq_some.mpr ⟨less, active, before, rfl, rfl⟩)
    exact ⟨magic, inRange⟩
  · intro known
    constructor
    · intro address size i found
      obtain ⟨less, active, before, _⟩ := findActiveFirmware_eq_some.mp found
      obtain ⟨magic, inRange⟩ := known i less active before
      refine ⟨⟨magic, active, inRange⟩, fun j earlier selectable => ?_⟩
      have inactive := before j earlier
      rw [selectable.2.1] at inactive
      cases inactive
    · intro nothing
      rcases first_active_or sector with ⟨i, less, active, before⟩ | inactive
      · obtain ⟨magic, inRange⟩ := known i less active before
        exact absurd ⟨magic, active, inRange⟩ (nothing i less)
      · exact findActiveFirmware_eq_none.mpr inactive

/-- An erased sector has no entry for the bootloader; the updater takes its first one. -/
theorem not_agree_erased : ¬ ∀ sector : Bytes, sector.length = bootConfigSectorSize →
    Agree sector := by
  intro claim
  have agree := claim (List.replicate 4096 0xFF) List.length_replicate
  have none := agree.2 (by decide +kernel)
  exact absurd none (by decide +kernel)

end VaultSeed.Firmware
