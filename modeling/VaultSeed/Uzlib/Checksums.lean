import Mathlib.Data.Nat.Bitwise
import Mathlib.Data.List.Basic
import Mathlib.Tactic.Common
import Mathlib.Tactic.Linarith

/-! # Checksums

`lib/uzlib/adler32.c` and `lib/uzlib/crc32.c`. A checksum that goes on over the next bytes is the
checksum of all of them (`VaultSeed.Uzlib.adler32_append`, `VaultSeed.Uzlib.crc32_append`), and the
sums of a turn fit in 32 bits (`VaultSeed.Uzlib.adlerByte_lt`).
-/

namespace VaultSeed.Uzlib

/-- `A32_BASE`. -/
def a32Base : Nat := 65521

/-- `A32_NMAX`. -/
def a32Nmax : Nat := 5552

/-- `uzlib_adler32`: a byte, for `s1` and `s2`. -/
def adlerByte (sums : Nat × Nat) (byte : UInt8) : Nat × Nat :=
  (sums.1 + byte.toNat, sums.2 + (sums.1 + byte.toNat))

/-- `uzlib_adler32`, the loop. -/
def adler32Turns : Nat → List UInt8 → Nat × Nat → Nat × Nat
  | 0, _, sums => sums
  | fuel + 1, buf, sums =>
    if 0 < buf.length then
      let k := if buf.length < a32Nmax then buf.length else a32Nmax
      let added := (buf.take k).foldl adlerByte sums
      adler32Turns fuel (buf.drop k) (added.1 % a32Base, added.2 % a32Base)
    else sums

/-- `uzlib_adler32`. -/
def adler32 (data : List UInt8) (prevSum : Nat) : Nat :=
  let sums := adler32Turns data.length data (prevSum &&& 0xffff, prevSum >>> 16)
  sums.2 <<< 16 ||| sums.1

/-- `tinf_crc32tab`. -/
def crc32tab : List Nat :=
  [0x00000000, 0x1db71064, 0x3b6e20c8, 0x26d930ac, 0x76dc4190, 0x6b6b51f4, 0x4db26158, 0x5005713c,
    0xedb88320, 0xf00f9344, 0xd6d6a3e8, 0xcb61b38c, 0x9b64c2b0, 0x86d3d2d4, 0xa00ae278, 0xbdbdf21c]

/-- `uzlib_crc32`: four bits. -/
def crcNibble (crc : Nat) : Nat := crc32tab.getD (crc &&& 0x0f) 0 ^^^ (crc >>> 4)

/-- `uzlib_crc32`. -/
def crc32 (data : List UInt8) (crc : Nat) : Nat :=
  data.foldl (fun crc byte => crcNibble (crcNibble (crc ^^^ byte.toNat))) crc

section Adler

variable {data first second : List UInt8} {sums other : Nat × Nat}

/-- The sums of a turn of the loop stay below 2 ^ 32. -/
theorem adlerByte_lt (few : data.length ≤ a32Nmax) (small : sums.1 < 2 ^ 16)
    (smallOther : sums.2 < 2 ^ 16) : (data.foldl adlerByte sums).1 < 2 ^ 32 ∧
      (data.foldl adlerByte sums).2 < 2 ^ 32 := by
  have bound : ∀ (data : List UInt8) (sums : Nat × Nat),
      (data.foldl adlerByte sums).1 ≤ sums.1 + 255 * data.length ∧
        2 * (data.foldl adlerByte sums).2 ≤ 2 * sums.2 + 2 * (data.length * sums.1) +
          255 * (data.length * (data.length + 1)) := by
    intro data
    induction data with
    | nil => exact fun sums => ⟨by simp, by simp⟩
    | cons byte data ih =>
        intro sums
        have digit := byte.toNat_lt
        obtain ⟨low, high⟩ := ih (adlerByte sums byte)
        rw [List.foldl_cons, List.length_cons]
        simp only [adlerByte] at low high ⊢
        have scaled : data.length * byte.toNat ≤ data.length * 255 :=
          Nat.mul_le_mul_left _ (by omega)
        constructor
        · omega
        · nlinarith
  obtain ⟨low, high⟩ := bound data sums
  have few' : data.length ≤ 5552 := few
  have product := Nat.mul_le_mul few' small.le
  have square := Nat.mul_le_mul few' (Nat.succ_le_succ few')
  constructor
  · omega
  · simp only [Nat.succ_eq_add_one] at square
    omega

/-- The sums modulo the base. -/
def reduced (sums : Nat × Nat) : Nat × Nat := (sums.1 % a32Base, sums.2 % a32Base)

private theorem reduced_foldl (data : List UInt8) (same : reduced sums = reduced other) :
    reduced (data.foldl adlerByte sums) = reduced (data.foldl adlerByte other) := by
  induction data generalizing sums other with
  | nil => exact same
  | cons byte data ih =>
      refine ih ?_
      obtain ⟨low, high⟩ := Prod.mk.inj same
      simp only [reduced, adlerByte, a32Base] at low high ⊢
      exact Prod.ext (by simp only; omega) (by simp only; omega)

private theorem reduced_reduced (sums : Nat × Nat) : reduced (reduced sums) = reduced sums :=
  Prod.ext (Nat.mod_mod _ _) (Nat.mod_mod _ _)

/-- The loop adds all bytes, and reduces the sums. -/
theorem adler32Turns_eq {fuel : Nat} (enough : data.length ≤ fuel) (nonempty : data ≠ []) :
    adler32Turns fuel data sums = reduced (data.foldl adlerByte sums) := by
  induction fuel generalizing data sums with
  | zero => exact absurd (List.eq_nil_of_length_eq_zero (Nat.le_zero.mp enough)) nonempty
  | succ fuel ih =>
      have positive : 0 < data.length := List.length_pos_iff.mpr nonempty
      have part : 0 < if data.length < a32Nmax then data.length else a32Nmax := by
        split
        · exact positive
        · decide
      rw [adler32Turns, if_pos positive]
      generalize (if data.length < a32Nmax then data.length else a32Nmax) = k at part
      have split := List.take_append_drop k data
      have whole : data.foldl adlerByte sums =
          (data.drop k).foldl adlerByte ((data.take k).foldl adlerByte sums) := by
        rw [← List.foldl_append, split]
      rw [whole]
      by_cases last : data.drop k = []
      · simp only [last]
        cases fuel <;> rfl
      · have fewer : (data.drop k).length ≤ fuel := by
          rw [List.length_drop]
          omega
        exact (ih fewer last).trans (reduced_foldl _ (reduced_reduced _))

private theorem unpack {low high : Nat} (small : low < 2 ^ 16) :
    (high <<< 16 ||| low) &&& 0xffff = low ∧ (high <<< 16 ||| low) >>> 16 = high := by
  rw [← Nat.shiftLeft_add_eq_or_of_lt small, Nat.shiftLeft_eq, Nat.shiftRight_eq_div_pow]
  have mask : ∀ value : Nat, value &&& 0xffff = value % 2 ^ 16 :=
    fun value => Nat.and_two_pow_sub_one_eq_mod value 16
  rw [mask]
  omega

/-- No byte leaves the sum. -/
theorem adler32_nil (prevSum : Nat) : adler32 [] prevSum = prevSum := by
  have mask : prevSum &&& 0xffff = prevSum % 2 ^ 16 := Nat.and_two_pow_sub_one_eq_mod prevSum 16
  show (prevSum >>> 16) <<< 16 ||| (prevSum &&& 0xffff) = prevSum
  rw [mask, ← Nat.shiftLeft_add_eq_or_of_lt (Nat.mod_lt _ (by decide)), Nat.shiftLeft_eq,
    Nat.shiftRight_eq_div_pow]
  omega

private theorem adler32_of_ne_nil (nonempty : data ≠ []) (prevSum : Nat) : adler32 data prevSum =
    (reduced (data.foldl adlerByte (prevSum &&& 0xffff, prevSum >>> 16))).2 <<< 16 |||
      (reduced (data.foldl adlerByte (prevSum &&& 0xffff, prevSum >>> 16))).1 := by
  rw [adler32, adler32Turns_eq (Nat.le_refl _) nonempty]

/-- A checksum that goes on is the checksum of everything. -/
theorem adler32_append (first second : List UInt8) (prevSum : Nat) :
    adler32 (first ++ second) prevSum = adler32 second (adler32 first prevSum) := by
  by_cases noFirst : first = []
  · rw [noFirst, List.nil_append, adler32_nil]
  · by_cases noSecond : second = []
    · rw [noSecond, List.append_nil, adler32_nil]
    · have small : (reduced (first.foldl adlerByte (prevSum &&& 0xffff, prevSum >>> 16))).1 <
          2 ^ 16 := lt_trans (Nat.mod_lt _ (by decide)) (by decide)
      have both : first ++ second ≠ [] := List.append_ne_nil_of_left_ne_nil noFirst second
      rw [adler32_of_ne_nil noSecond, adler32_of_ne_nil noFirst, (unpack small).1,
        (unpack small).2, adler32_of_ne_nil both, List.foldl_append,
        reduced_foldl second (reduced_reduced _).symm]

/-- The sum is a word of 32 bits. -/
theorem adler32_lt (data : List UInt8) {prevSum : Nat} (small : prevSum < 2 ^ 32) :
    adler32 data prevSum < 2 ^ 32 := by
  by_cases nonempty : data = []
  · rwa [nonempty, adler32_nil]
  · rw [adler32_of_ne_nil nonempty]
    have low : ∀ sums, (reduced sums).1 < 2 ^ 16 := fun sums =>
      lt_trans (Nat.mod_lt _ (by decide)) (by decide)
    have high : ∀ sums, (reduced sums).2 < 2 ^ 16 := fun sums =>
      lt_trans (Nat.mod_lt _ (by decide)) (by decide)
    refine Nat.or_lt_two_pow ?_ (lt_trans (low _) (by decide))
    rw [Nat.shiftLeft_eq]
    exact Nat.mul_lt_mul_of_pos_right (high _) (Nat.two_pow_pos 16)

end Adler

section Crc

/-- The sum over data that follow one another. -/
theorem crc32_append (first second : List UInt8) (crc : Nat) :
    crc32 (first ++ second) crc = crc32 second (crc32 first crc) := List.foldl_append

private theorem crc32tab_lt : ∀ index < 16, crc32tab.getD index 0 < 2 ^ 32 := by
  decide +kernel

private theorem crcNibble_lt {crc : Nat} (small : crc < 2 ^ 32) : crcNibble crc < 2 ^ 32 := by
  refine Nat.xor_lt_two_pow (crc32tab_lt _ ?_) ?_
  · exact lt_of_le_of_lt Nat.and_le_right (by decide)
  · exact lt_of_le_of_lt (Nat.shiftRight_le crc 4) small

/-- The sum is a word of 32 bits. -/
theorem crc32_lt (data : List UInt8) {crc : Nat} (small : crc < 2 ^ 32) :
    crc32 data crc < 2 ^ 32 := by
  induction data generalizing crc with
  | nil => exact small
  | cons byte data ih =>
      refine ih (crcNibble_lt (crcNibble_lt (Nat.xor_lt_two_pow small ?_)))
      exact lt_trans byte.toNat_lt (by decide)

end Crc

end VaultSeed.Uzlib
