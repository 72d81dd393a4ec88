import Mathlib.Data.Nat.Bitwise
import Mathlib.Data.List.Basic

/-! # Packed bits

Bits in bytes, the low one of a byte first. Setting one bit of such an array changes no other
(`Packed.bit_setBit`), and so does flipping it. Cells in rows of one width are told apart by their
indices (`Packed.index_eq_iff`), and rows put one after another are read by them
(`Packed.getElem?_rows`).
-/

namespace Packed

/-- The bit at an index; there is none past the end. -/
def bit (data : List UInt8) (index : Nat) : Bool :=
  (data.getD (index / 8) 0).toNat.testBit (index % 8)

/-- Set the bit at an index. -/
def setBit (data : List UInt8) (index : Nat) : List UInt8 :=
  data.set (index / 8) (UInt8.ofNat ((data.getD (index / 8) 0).toNat ||| 1 <<< (index % 8)))

section Bits

variable {data : List UInt8} {index other : Nat}

/-- Setting a bit keeps the length. -/
@[simp] theorem length_setBit (data : List UInt8) (index : Nat) :
    (setBit data index).length = data.length := List.length_set

/-- Bytes of zeros have no bit set. -/
@[simp] theorem bit_replicate (count index : Nat) : bit (List.replicate count 0) index = false := by
  have zero : (List.replicate count (0 : UInt8)).getD (index / 8) 0 = 0 := by
    rw [List.getD_eq_getElem?_getD, List.getElem?_replicate]
    split <;> rfl
  rw [bit, zero]
  exact Nat.zero_testBit _

/-- **Setting a bit changes no other.** -/
theorem bit_setBit (inside : index / 8 < data.length) :
    bit (setBit data index) other = (bit data other || decide (other = index)) := by
  have low : index % 8 < 8 := Nat.mod_lt _ (by decide)
  by_cases same : other / 8 = index / 8
  · have byte : (setBit data index).getD (other / 8) 0 =
        UInt8.ofNat ((data.getD (index / 8) 0).toNat ||| 1 <<< (index % 8)) := by
      rw [same, setBit, List.getD_eq_getElem?_getD, List.getElem?_set_self inside]
      rfl
    have small : (data.getD (index / 8) 0).toNat ||| 1 <<< (index % 8) < 2 ^ 8 := by
      apply Nat.or_lt_two_pow (UInt8.toNat_lt _)
      rw [Nat.one_shiftLeft]
      exact Nat.pow_lt_pow_right (by decide) low
    have here : index % 8 = other % 8 ↔ other = index := by omega
    rw [bit, byte, UInt8.toNat_ofNat', Nat.mod_eq_of_lt small, Nat.testBit_or, Nat.one_shiftLeft,
      Nat.testBit_two_pow, bit, same]
    simp only [here]
  · have byte : (setBit data index).getD (other / 8) 0 = data.getD (other / 8) 0 := by
      rw [setBit, List.getD_eq_getElem?_getD, List.getElem?_set_ne fun equal => same equal.symm,
        ← List.getD_eq_getElem?_getD]
    have differ : other ≠ index := by
      intro equal
      exact same (by rw [equal])
    rw [bit, byte, bit, decide_eq_false differ, Bool.or_false]

/-- Flip the bit at an index. -/
def flipBit (data : List UInt8) (index : Nat) : List UInt8 :=
  data.set (index / 8) (data.getD (index / 8) 0 ^^^ UInt8.ofNat (1 <<< (index % 8)))

/-- **Flipping a bit changes no other.** -/
theorem bit_flipBit (inside : index / 8 < data.length) :
    bit (flipBit data index) other = (bit data other ^^ decide (other = index)) := by
  have low : index % 8 < 8 := Nat.mod_lt _ (by decide)
  by_cases same : other / 8 = index / 8
  · have byte : (flipBit data index).getD (other / 8) 0 =
        data.getD (index / 8) 0 ^^^ UInt8.ofNat (1 <<< (index % 8)) := by
      rw [same, flipBit, List.getD_eq_getElem?_getD, List.getElem?_set_self inside]
      rfl
    have small : 1 <<< (index % 8) < 2 ^ 8 := by
      rw [Nat.one_shiftLeft]
      exact Nat.pow_lt_pow_right (by decide) low
    have here : index % 8 = other % 8 ↔ other = index := by omega
    rw [bit, byte, UInt8.toNat_xor, UInt8.toNat_ofNat', Nat.mod_eq_of_lt small, Nat.testBit_xor,
      Nat.one_shiftLeft, Nat.testBit_two_pow, bit, same]
    simp only [here]
  · have byte : (flipBit data index).getD (other / 8) 0 = data.getD (other / 8) 0 := by
      rw [flipBit, List.getD_eq_getElem?_getD, List.getElem?_set_ne fun equal => same equal.symm,
        ← List.getD_eq_getElem?_getD]
    have differ : other ≠ index := by
      intro equal
      exact same (by rw [equal])
    rw [bit, byte, bit, decide_eq_false differ, Bool.xor_false]

end Bits

section Rows

variable {width row column : Nat}

/-- A cell is inside the rows. -/
theorem index_lt {count : Nat} (inRows : row < count) (inColumns : column < width) :
    row * width + column < count * width := by
  have next := Nat.mul_le_mul_right width (Nat.succ_le_of_lt inRows)
  rw [Nat.succ_mul] at next
  omega

/-- Cells are told apart by their indices. -/
theorem index_eq_iff {otherRow otherColumn : Nat} (inside : column < width)
    (otherInside : otherColumn < width) :
    row * width + column = otherRow * width + otherColumn ↔
      row = otherRow ∧ column = otherColumn := by
  constructor
  · intro same
    have quotient := congrArg (· / width) same
    have remainder := congrArg (· % width) same
    simp only [Nat.mul_comm _ width, Nat.mul_add_mod, Nat.mod_eq_of_lt inside,
      Nat.mod_eq_of_lt otherInside, Nat.mul_add_div (Nat.zero_lt_of_lt inside),
      Nat.div_eq_of_lt inside, Nat.div_eq_of_lt otherInside, Nat.add_zero] at quotient remainder
    exact ⟨quotient, remainder⟩
  · rintro ⟨rfl, rfl⟩
    rfl

variable {α : Type} {rows : Nat → List α}

/-- Rows of one width have the length of a rectangle. -/
@[simp] theorem length_rows (wide : ∀ row, (rows row).length = width) (count : Nat) :
    ((List.range count).flatMap rows).length = count * width := by
  induction count with
  | zero => simp
  | succ count ih =>
      rw [List.range_succ, List.flatMap_append, List.length_append, ih, List.flatMap_singleton,
        wide, Nat.succ_mul]

/-- Rows put one after another, by the row and the column. -/
theorem getElem?_rows (wide : ∀ row, (rows row).length = width) {count : Nat}
    (inRows : row < count) (inColumns : column < width) :
    ((List.range count).flatMap rows)[row * width + column]? = (rows row)[column]? := by
  induction count with
  | zero => cases inRows
  | succ count ih =>
      rw [List.range_succ, List.flatMap_append, List.flatMap_singleton]
      rcases Nat.lt_succ_iff_lt_or_eq.mp inRows with earlier | rfl
      · rw [List.getElem?_append_left (by rw [length_rows wide]; exact index_lt earlier inColumns),
          ih earlier]
      · rw [List.getElem?_append_right (by rw [length_rows wide]; omega), length_rows wide,
          Nat.add_sub_cancel_left]

end Rows

end Packed
