import VaultSeed.Firmware.Selection
import VaultSeed.Firmware.Writing

/-! # What the bootloader reads in a torn sector

A configuration sector is written from its beginning. A word that is not completely written
ends in an erased byte, so an entry whose flags are not complete has not the magic number, and
one whose size is not begun is out of range. Of a torn new configuration the bootloader
therefore starts the new image or nothing (`checkCfg_torn_updated`).
-/

namespace VaultSeed.Firmware

open Python Kboot

section Words

variable {data front back : Bytes} {offset count : Nat}

private theorem word_append_left (inside : offset + 4 ≤ front.length) :
    word (front ++ back) offset = word front offset := by
  rw [word, word, List.drop_append_of_le_length (by omega), List.take_append_of_le_length]
  rw [List.length_drop]
  omega

private theorem word_append_right (offset : Nat) :
    word (front ++ back) (front.length + offset) = word back offset := by
  rw [word, word, List.drop_append, List.drop_of_length_le (by omega), List.nil_append,
    Nat.add_sub_cancel_left]

private theorem word_take (inside : offset + 4 ≤ count) :
    word (data.take count) offset = word data offset := by
  rw [word, word, List.drop_take, List.take_take, Nat.min_eq_left (by omega)]

private theorem word_drop : word (data.drop count) offset = word data (count + offset) := by
  rw [word, word, List.drop_drop]

/-- The first word after some words. -/
theorem word_toBytesBig {value : Nat} (fits : value < 256 ^ 4) :
    word (front ++ (toBytesBig 4 value ++ back)) front.length = value := by
  have first := @word_append_right front (toBytesBig 4 value ++ back) 0
  rw [Nat.add_zero] at first
  rw [first, word_append_left (by simp), word, List.drop_zero, List.take_of_length_le (by simp),
    fromBytesBig_toBytesBig 4 value fits]

end Words

section Splice

variable {buffer data : Bytes} {start : Nat}

/-- A slice assignment changes no word outside it. -/
theorem word_splice_outside {offset : Nat} (fits : start + data.length ≤ buffer.length)
    (outside : offset + 4 ≤ start ∨ start + data.length ≤ offset) :
    word (splice buffer start data) offset = word buffer offset := by
  have length : (buffer.take start ++ data).length = start + data.length := by
    rw [List.length_append, List.length_take]
    omega
  unfold splice
  rcases outside with before | behind
  · rw [List.append_assoc, word_append_left (by rw [List.length_take]; omega), word_take before]
  · obtain ⟨rest, rfl⟩ := Nat.exists_eq_add_of_le behind
    rw [← length, word_append_right, word_drop, length]

/-- A word of the assigned bytes. -/
theorem word_splice_inside {offset : Nat} (fits : start ≤ buffer.length)
    (inside : offset + 4 ≤ data.length) :
    word (splice buffer start data) (start + offset) = word data offset := by
  have length : (buffer.take start).length = start := by
    rw [List.length_take]
    omega
  have shifted := @word_append_right (buffer.take start) (data ++ buffer.drop (start + data.length))
    offset
  rw [length] at shifted
  rw [splice, List.append_assoc, shifted, word_append_left inside]

end Splice

section Entries

variable {sector : Bytes} {i address size : Nat}

/-- An updated sector has the same length. -/
theorem length_updateBootConfigSector (length : sector.length = bootConfigSectorSize)
    (less : i < 8) :
    (updateBootConfigSector sector i address size).length = bootConfigSectorSize := by
  unfold bootConfigSectorSize at length
  simp only [updateBootConfigSector, splice, List.length_append, List.length_take, List.length_drop,
    length_toBytesBig, length, bootConfigSectorSize]
  omega

/-- The entry of an updated sector. -/
theorem getParams_updated (length : sector.length = bootConfigSectorSize) (less : i < 8)
    (low : address < 256 ^ 4) (small : size < 256 ^ 4) :
    ∃ crc, getParams (updateBootConfigSector sector i address size) i =
      ⟨entryFlags, address, size, crc⟩ := by
  unfold bootConfigSectorSize at length
  have entry : ∀ offset value, offset + 4 ≤ 12 →
      word (toBytesBig 4 entryFlags ++ toBytesBig 4 address ++ toBytesBig 4 size) offset = value →
      word (updateBootConfigSector sector i address size) (i * 32 + offset) = value := by
    intro offset value inside same
    rw [← same]
    exact word_splice_inside (by omega) (by simpa using inside)
  refine ⟨_, Params.mk.injEq .. |>.mpr ⟨?_, ?_, ?_, rfl⟩⟩
  · refine entry 0 entryFlags (by omega) ?_
    rw [List.append_assoc]
    exact @word_toBytesBig [] _ _ (by decide)
  · refine entry 4 address (by omega) ?_
    rw [List.append_assoc]
    exact @word_toBytesBig (toBytesBig 4 entryFlags) _ _ low
  · refine entry 8 size (by omega) ?_
    have last := @word_toBytesBig (toBytesBig 4 entryFlags ++ toBytesBig 4 address) [] _ small
    rw [List.append_nil] at last
    simpa using last

/-- The other entries of an updated sector are the ones before. -/
theorem getParams_updated_of_ne {j : Nat} (length : sector.length = bootConfigSectorSize)
    (less : i < 8) (other : j ≠ i) :
    getParams (updateBootConfigSector sector i address size) j = getParams sector j := by
  unfold bootConfigSectorSize at length
  have same : ∀ offset, offset + 4 ≤ 32 →
      word (updateBootConfigSector sector i address size) (j * 32 + offset) =
        word sector (j * 32 + offset) := by
    intro offset inside
    refine word_splice_outside ?_ ?_
    · simp only [List.length_append, length_toBytesBig]
      omega
    · simp only [List.length_append, length_toBytesBig]
      omega
  unfold getParams
  rw [same 4 (by omega), same 8 (by omega), same 12 (by omega)]
  exact congrArg (Params.mk · _ _ _) (same 0 (by omega))

end Entries

section Torn

variable {content : Bytes} {left : Nat}

/-- A word that is completely written. -/
theorem word_torn_written {offset : Nat} (inside : offset + 4 ≤ content.length)
    (written : offset + 4 ≤ left) : word (torn content left) offset = word content offset := by
  rw [torn, word_append_left (by rw [List.length_take]; omega), word_take written]

/-- A word that is not begun. -/
theorem word_torn_erased {offset : Nat} (inside : offset + 4 ≤ content.length)
    (unwritten : left ≤ offset) : word (torn content left) offset = 0xFFFFFFFF := by
  have erased : ((torn content left).drop offset).take 4 = List.replicate 4 0xFF := by
    rw [torn, List.drop_append, List.drop_of_length_le (by rw [List.length_take]; omega),
      List.nil_append, List.drop_replicate, List.take_replicate, List.length_take]
    congr 1
    omega
  rw [word, erased]
  rfl

end Torn

section Starting

variable {sha256 : Bytes → Bytes} {flash : Memory} {params : Params}

/-- An entry starts when Kboot's checks all hold. -/
theorem starts_eq_true : starts sha256 flash params = true ↔
    isMagic params = true ∧ addressInRange params = true ∧ sizeInRange params = true ∧
      isActive params = true ∧ appCheck sha256 flash params = true := by
  simp only [starts, Bool.and_eq_true, and_assoc]

/-- An entry that is unknown does not start. -/
theorem not_starts_of_not_magic (unknown : isMagic params = false) :
    starts sha256 flash params = false := by
  simp [starts, unknown]

/-- An inactive entry does not start. -/
theorem not_starts_of_inactive (inactive : isActive params = false) :
    starts sha256 flash params = false := by
  simp [starts, inactive]

/-- The bootloader takes the first entry of a sector that it starts. -/
theorem checkCfg_eq_some {sectorAddress i : Nat} (less : i < 8)
    (before : ∀ j < i, starts sha256 flash
      (getParams (flash.read sectorAddress bootConfigSectorSize) j) = false)
    (here : starts sha256 flash
      (getParams (flash.read sectorAddress bootConfigSectorSize) i) = true) :
    checkCfg sha256 flash sectorAddress =
      some ((getParams (flash.read sectorAddress bootConfigSectorSize) i).address,
        flash2uint32 flash
          ((getParams (flash.read sectorAddress bootConfigSectorSize) i).address + 1)) :=
  findSome?_range_eq_some.mpr ⟨i, less, if_pos here, fun j earlier => by simp [before j earlier]⟩

/-- A sector starts nothing when none of its entries starts. -/
theorem checkCfg_eq_none {sectorAddress : Nat}
    (nothing : ∀ i < 8, starts sha256 flash
      (getParams (flash.read sectorAddress bootConfigSectorSize) i) = false) :
    checkCfg sha256 flash sectorAddress = none :=
  findSome?_range_eq_none.mpr fun i less => by simp [nothing i less]

end Starting

section TornUpdated

variable {sha256 : Bytes → Bytes} {flash : Memory}

/-- A started entry of a torn sector is written up to its size. -/
theorem torn_starts {content : Bytes} {j left : Nat}
    (length : content.length = bootConfigSectorSize)
    (less : j < 8) (here : starts sha256 flash (getParams (torn content left) j) = true) :
    j * 32 + 8 < left ∧
      (getParams (torn content left) j).magic = (getParams content j).magic ∧
      (getParams (torn content left) j).address = (getParams content j).address := by
  unfold bootConfigSectorSize at length
  have begun : j * 32 + 8 < left := by
    by_contra unwritten
    have size : (getParams (torn content left) j).size = 0xFFFFFFFF :=
      word_torn_erased (by omega) (by omega)
    have inRange := (starts_eq_true.mp here).2.2.1
    rw [sizeInRange, size] at inRange
    exact absurd inRange (by decide)
  exact ⟨begun, word_torn_written (by omega) (by omega), word_torn_written (by omega) (by omega)⟩

/-- An entry that is completely written. -/
theorem getParams_torn_written {content : Bytes} {j left : Nat}
    (length : content.length = bootConfigSectorSize) (less : j < 8) (written : j * 32 + 16 ≤ left) :
    getParams (torn content left) j = getParams content j := by
  unfold bootConfigSectorSize at length
  unfold getParams
  rw [word_torn_written (by omega) (by omega), word_torn_written (by omega) (by omega),
    word_torn_written (by omega) (by omega), word_torn_written (by omega) (by omega)]

variable {sector : Bytes} {i address size : Nat}

/-- **A torn new configuration**: the bootloader starts the new image or nothing. It would go on
to later entries only when the new one is refused for its size. -/
theorem checkCfg_torn_updated {sectorAddress left : Nat}
    (length : sector.length = bootConfigSectorSize) (less : i < 8)
    (low : address < 256 ^ 4) (small : size < 256 ^ 4)
    (inactive : ∀ j < i, isActive (getParams sector j) = false)
    (last : (∀ crc, starts sha256 flash ⟨entryFlags, address, size, crc⟩ = true) ∨
      ∀ j, i < j → j < 8 → ¬ (isMagic (getParams sector j) = true ∧
        isActive (getParams sector j) = true))
    (read : flash.read sectorAddress bootConfigSectorSize =
      torn (updateBootConfigSector sector i address size) left) :
    checkCfg sha256 flash sectorAddress = some (address, flash2uint32 flash (address + 1)) ∨
      checkCfg sha256 flash sectorAddress = none := by
  have whole := @length_updateBootConfigSector sector i address size length less
  obtain ⟨crc, entry⟩ := getParams_updated length less low small
  have before : ∀ j < i, starts sha256 flash
      (getParams (flash.read sectorAddress bootConfigSectorSize) j) = false := by
    intro j earlier
    by_contra started
    rw [Bool.not_eq_false, read] at started
    obtain ⟨_, magic, _⟩ := torn_starts whole (by omega) started
    have active := (starts_eq_true.mp started).2.2.2.1
    rw [isActive, magic, getParams_updated_of_ne length less (by omega)] at active
    exact absurd ((inactive j earlier).symm.trans active) (by decide)
  by_cases here : starts sha256 flash
      (getParams (flash.read sectorAddress bootConfigSectorSize) i) = true
  · refine .inl ((checkCfg_eq_some less before here).trans ?_)
    rw [read] at here ⊢
    obtain ⟨_, _, same⟩ := torn_starts whole less here
    rw [entry] at same
    rw [same]
  · refine .inr (checkCfg_eq_none fun j inside => ?_)
    by_contra started
    rw [Bool.not_eq_false] at started
    have behind : i < j := by
      rcases Nat.lt_trichotomy j i with earlier | rfl | behind
      · rw [before j earlier] at started
        cases started
      · exact absurd started here
      · exact behind
    rw [read] at started here
    obtain ⟨begun, magic, _⟩ := torn_starts whole inside started
    rcases last with complete | alone
    · -- The updated entry is completely written when a later one is begun.
      rw [getParams_torn_written whole less (by omega), entry] at here
      exact here (complete crc)
    · refine alone j behind inside ?_
      obtain ⟨magical, _, _, active, _⟩ := starts_eq_true.mp started
      rw [isMagic, magic, getParams_updated_of_ne length less (by omega)] at magical
      rw [isActive, magic, getParams_updated_of_ne length less (by omega)] at active
      exact ⟨magical, active⟩

end TornUpdated

end VaultSeed.Firmware
