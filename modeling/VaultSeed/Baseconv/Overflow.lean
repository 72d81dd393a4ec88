import VaultSeed.Baseconv.Base43
import Mathlib.Logic.Function.Iterate

/-! # Base 43 does not overflow

What the loops of `base43.c` compute in between fits the words and bytes it is kept in, so that
multiplying and dividing are exact (`VaultSeed.Baseconv.base43_exact`). Dividing comes to zero
before the buffer of the encoder is full: `n + n / 2 + 2` digits of base 43 are more than `n`
bytes hold.
-/

namespace VaultSeed.Baseconv

open Python Positional

/-- No turn of the loop of a product overflows: the product and the sum fit a word, and what is
left of it as a carry fits a byte. -/
def MultiplyAddFits (multiplier : UInt8) : Bytes → UInt32 → Prop
  | [], carry => carry.toNat < 2 ^ 8
  | digit :: digits, carry =>
      let sum := (multiplyAddLoop multiplier digits carry).2.toNat +
        digit.toNat * multiplier.toNat
      MultiplyAddFits multiplier digits carry ∧ digit.toNat * multiplier.toNat < 2 ^ 32 ∧
        sum < 2 ^ 32 ∧ sum / 2 ^ 8 < 2 ^ 8

/-- No turn of the loop of a division overflows: shifting the remainder loses none of it, the
quotient fits a byte, and the next remainder is one. -/
def DivideFits : UInt32 → Bytes → Prop
  | remainder, [] => remainder.toNat < 43
  | remainder, digit :: digits =>
      let temp := remainder.toNat * 2 ^ 8 + digit.toNat
      remainder.toNat < 43 ∧ temp < 2 ^ 32 ∧ temp / 43 < 2 ^ 8 ∧
        DivideFits (((remainder <<< 8) ||| digit.toUInt32) % 43) digits

/-- The number after a turn of the loop of `base43_encode`. -/
def quotientBy43 (num : BigInt) : BigInt := (bigintDivideBy43 num).2

section Words

private theorem multiplyAdd_fits (multiplier : UInt8) (digits : Bytes) {carry : UInt32}
    (small : carry.toNat < 2 ^ 8) : MultiplyAddFits multiplier digits carry := by
  induction digits with
  | nil => exact small
  | cons digit digits ih =>
      have below := (multiplyAddLoop_spec multiplier digits small).1
      have product : digit.toNat * multiplier.toNat ≤ 255 * 255 :=
        Nat.mul_le_mul (Nat.le_of_lt_succ digit.toNat_lt) (Nat.le_of_lt_succ multiplier.toNat_lt)
      refine ⟨ih, ?_, ?_, ?_⟩
      · omega
      · omega
      · omega

private theorem divide_fits (digits : Bytes) {remainder : UInt32} (small : remainder.toNat < 43) :
    DivideFits remainder digits := by
  induction digits generalizing remainder with
  | nil => exact small
  | cons digit digits ih =>
      have byte := digit.toNat_lt
      refine ⟨small, by omega, by omega, ih ?_⟩
      rw [UInt32.toNat_mod]
      exact Nat.mod_lt _ (by decide)

end Words

section Turns

private theorem byteValue_iterate_quotientBy43 (turns : Nat) (num : BigInt) :
    byteValue (quotientBy43^[turns] num).digits = byteValue num.digits / 43 ^ turns := by
  induction turns with
  | zero => simp
  | succ turns ih =>
      rw [Function.iterate_succ_apply', quotientBy43, (bigintDivideBy43_spec _).2, ih,
        Nat.div_div_eq_div_mul, pow_succ]

private theorem maxOutLen_false (length : Nat) : maxOutLen length false = length + length / 2 + 2 :=
    rfl

private theorem bigintFromBytes_lt (data : Bytes) :
    byteValue (bigintFromBytes data).digits < 43 ^ maxOutLen data.length false := by
  have same : byteValue (bigintFromBytes data).digits = byteValue data := by
    unfold bigintFromBytes
    split
    · next empty => rw [empty]; rfl
    · rfl
  rw [same]
  exact (byteValue_lt data).trans (pow_lt_pow_maxOutLen data.length false)

/-- The loop of the encoder comes to zero. -/
theorem exists_turns (data : Bytes) :
    ∃ turns ≤ maxOutLen data.length false,
      bigintIsZero (quotientBy43^[turns] (bigintFromBytes data)) = true := by
  refine ⟨_, le_rfl, (bigintIsZero_iff _).mpr ?_⟩
  rw [byteValue_iterate_quotientBy43]
  exact Nat.div_eq_of_lt (bigintFromBytes_lt data)

end Turns

section Encoding

variable {data : Bytes}

/-- Rounding up to padding only adds room. -/
theorem maxOutLen_le (length : Nat) (addPadding : Bool) :
    maxOutLen length false ≤ maxOutLen length addPadding := by
  cases addPadding with
  | false => exact le_rfl
  | true =>
      change _ ≤ (length + length / 2 + 2 + 3) / 4 * 4
      rw [maxOutLen_false]
      omega

/-- The characters fit the buffer even before it is rounded up. -/
theorem exists_encodedChars (data : Bytes) (addPadding : Bool) :
    ∃ output, encodedChars data (maxOutLen data.length addPadding) = .ok output ∧
      output.length ≤ maxOutLen data.length false := by
  rw [encodedChars]
  split
  · refine ⟨_, rfl, ?_⟩
    rw [List.length_singleton, maxOutLen_false]
    omega
  · have less := bigintFromBytes_lt data
    have fits := less.trans_le (Nat.pow_le_pow_right (by decide) (maxOutLen_le _ addPadding))
    refine ⟨_, by rw [digitLoop_eq fits]; rfl, ?_⟩
    rw [List.length_reverse, List.length_map, List.length_reverse, numeral, List.length_reverse,
      Nat.digits_length_le_iff (by decide)]
    exact less

/-- The encoder raises nothing. -/
theorem exists_base43Encode (data : Bytes) (addPadding : Bool) :
    ∃ text, base43Encode data addPadding = .ok text := by
  obtain ⟨output, written, short⟩ := exists_encodedChars data addPadding
  rw [base43Encode]
  by_cases empty : data = []
  · exact ⟨_, if_pos empty⟩
  · rw [if_neg empty, written]
    cases addPadding with
    | false => exact ⟨_, rfl⟩
    | true =>
        have room : ¬ maxOutLen data.length true < (output.length + 3) / 4 * 4 := by
          rw [maxOutLen_false] at short
          change ¬ (data.length + data.length / 2 + 2 + 3) / 4 * 4 < _
          omega
        refine ⟨output ++ List.replicate ((output.length + 3) / 4 * 4 - output.length) '=', ?_⟩
        dsimp only [bind, Except.bind]
        rw [if_pos rfl, if_neg room]
        rfl

/-- **The arithmetic of base 43 is exact**: no turn of a product or of a division overflows, they
compute what their names say, and encoding comes to zero and raises nothing. -/
theorem base43_exact :
    (∀ (num : BigInt) (addend : UInt8),
      MultiplyAddFits 43 num.digits addend.toUInt32 ∧
      (multiplyAddLoop 43 num.digits addend.toUInt32).2.toNat < 2 ^ 8 ∧
      byteValue (bigintMultiplyAdd num 43 addend).digits =
        43 * byteValue num.digits + addend.toNat) ∧
    (∀ num : BigInt, DivideFits 0 num.digits ∧
      (bigintDivideBy43 num).1.toNat = byteValue num.digits % 43 ∧
      byteValue (bigintDivideBy43 num).2.digits = byteValue num.digits / 43) ∧
    (∀ length, 256 ^ length < 43 ^ (length + length / 2 + 2)) ∧
    ∀ data, (∃ turns ≤ maxOutLen data.length false,
        bigintIsZero (quotientBy43^[turns] (bigintFromBytes data)) = true) ∧
      ∀ addPadding, ∃ text, base43Encode data addPadding = .ok text := by
  refine ⟨fun num addend => ?_, fun num => ?_, pow_lt_pow_chars, fun data => ?_⟩
  · have small : addend.toUInt32.toNat < 2 ^ 8 := by
      rw [UInt8.toNat_toUInt32]
      exact addend.toNat_lt
    refine ⟨multiplyAdd_fits 43 num.digits small, (multiplyAddLoop_spec 43 num.digits small).1, ?_⟩
    rw [byteValue_bigintMultiplyAdd, Nat.mul_comm]
    rfl
  · exact ⟨divide_fits num.digits (by decide), bigintDivideBy43_spec num⟩
  · exact ⟨exists_turns data, exists_base43Encode data⟩

end Encoding

end VaultSeed.Baseconv
