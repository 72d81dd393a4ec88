import VaultSeed.Quirc.Correction

/-! # The format of a code

`correct_format` of `omv/img/qrcode.c` corrects up to three wrong bits of a format
(`VaultSeed.Quirc.correctFormat_eq`), and `read_format` reads both copies.
-/

open Polynomial

namespace VaultSeed.Quirc

open Accumulate Locators

/-- `FORMAT_MAX_ERROR * 2`. -/
def formatSyndromeCount : Nat := 6

/-- `FORMAT_BITS`. -/
def formatBitCount : Nat := 15

/-- `format_syndromes`, a turn of the inner loop. -/
def formatSyndromeTurn (u : BitVec 16) (i : Nat) (value : UInt8) (j : Nat) : UInt8 :=
  if u.getLsbD j then value ^^^ gf16.expAt ((i + 1) * j % 15) else value

/-- `format_syndromes`: `s[i]`. -/
def formatSyndrome (u : BitVec 16) (i : Nat) : UInt8 :=
  (List.range formatBitCount).foldl (formatSyndromeTurn u i) 0

/-- `format_syndromes`. -/
def formatSyndromes (u : BitVec 16) : Bool × List UInt8 :=
  syndromes (formatSyndrome u) formatSyndromeCount

/-- `correct_format`, a turn of the loop that corrects. -/
def correctFormatTurn (sigma : List UInt8) (u : BitVec 16) (i : Nat) : BitVec 16 :=
  if polyEval gf16 sigma (gf16.expAt (15 - i)) = 0 then u ^^^ BitVec.twoPow 16 i else u

/-- `correct_format`. -/
def correctFormat (u : BitVec 16) : Except DecodeError (BitVec 16) :=
  let s := formatSyndromes u
  if s.1 = false then .ok u
  else
    let sigma := berlekampMassey gf16 s.2 formatSyndromeCount
    let corrected := (List.range formatBitCount).foldl (correctFormatTurn sigma) u
    if (formatSyndromes corrected).1 then .error .formatEcc else .ok corrected

section Correct

variable {u sent : BitVec 16}

/-- In which places two formats differ. -/
def wrongBits (u sent : BitVec 16) : Finset Nat :=
  (Finset.range formatBitCount).filter fun j => u.getLsbD j ≠ sent.getLsbD j

/-- A format without syndromes. -/
def FormatCode (sent : BitVec 16) : Prop := ∀ i < formatSyndromeCount, formatSyndrome sent i = 0

instance (sent : BitVec 16) : Decidable (FormatCode sent) :=
  inferInstanceAs (Decidable (∀ i < formatSyndromeCount, formatSyndrome sent i = 0))

private theorem element_formatSyndrome (u : BitVec 16) (i : Nat) :
    gf16_lawful.Small (formatSyndrome u i) ∧
      gf16_lawful.element (formatSyndrome u i) = ∑ j ∈ Finset.range formatBitCount,
        if u.getLsbD j then gf16_lawful.generator ^ ((i + 1) * j) else 0 := by
  rw [← zero_add (∑ j ∈ _, _), ← gf16_lawful.element_zero, formatSyndrome]
  refine foldl_range gf16_lawful.element gf16_lawful.Small (fun value j _ kept => ?_)
    GaloisField.Lawful.small_zero
  rw [formatSyndromeTurn]
  split
  · rw [gf16_lawful.element_xor]
    exact ⟨GaloisField.Lawful.small_xor kept (GaloisField.Lawful.small_expAt_mod _),
      congrArg (gf16_lawful.element value + ·) (GaloisField.Lawful.element_expAt_mod _)⟩
  · exact ⟨kept, (add_zero _).symm⟩

/-- The errors of a format: every one has the value of its locator. -/
def formatErrors (u sent : BitVec 16) : Errors gf16_lawful.Carrier Nat where
  places := wrongBits u sent
  locate place := gf16_lawful.generator ^ place
  value place := gf16_lawful.generator ^ place
  apart _ firstInside _ secondInside same :=
    (GaloisField.Lawful.generator_pow_inj
      (Finset.mem_range.mp (Finset.mem_filter.mp firstInside).1)
      (Finset.mem_range.mp (Finset.mem_filter.mp secondInside).1)).mp same
  locate_ne_zero _ _ := pow_ne_zero _ GaloisField.Lawful.generator_ne_zero
  value_ne_zero _ _ := pow_ne_zero _ GaloisField.Lawful.generator_ne_zero

private theorem measured_format (code : FormatCode sent) (few : (wrongBits u sent).card ≤ 3) :
    Measured gf16_lawful (formatErrors u sent) (formatSyndrome u) formatSyndromeCount where
  locate _ := rfl
  inside _ member := Finset.mem_range.mp (Finset.mem_filter.mp member).1
  small i := (element_formatSyndrome u i).1
  element i less := by
    have zero := (element_formatSyndrome sent i).2
    rw [code i less, gf16_lawful.element_zero] at zero
    rw [← add_zero (gf16_lawful.element _), zero, (element_formatSyndrome u i).2,
      ← Finset.sum_add_distrib, Errors.syndrome]
    change _ = ∑ place ∈ wrongBits u sent, _
    rw [wrongBits, Finset.sum_filter]
    refine Finset.sum_congr rfl fun j _ => ?_
    have power : gf16_lawful.generator ^ ((i + 1) * j) =
        (formatErrors u sent).value j * (formatErrors u sent).locate j ^ i := by
      change _ = gf16_lawful.generator ^ j * (gf16_lawful.generator ^ j) ^ i
      rw [← pow_succ', ← pow_mul, Nat.mul_comm]
    rw [power]
    cases u.getLsbD j <;> cases sent.getLsbD j <;> simp [CharTwo.add_self_eq_zero]
  fits := by decide
  few := by
    change (wrongBits u sent).card * 2 ≤ 6
    omega

/-- The loop that corrects: the low bits are right after as many turns. -/
theorem getLsbD_corrected
    (measured : Measured gf16_lawful (formatErrors u sent) (formatSyndrome u)
      formatSyndromeCount) {turns : Nat} (fewer : turns ≤ formatBitCount) (index : Nat) :
    ((List.range turns).foldl (correctFormatTurn
      (berlekampMassey gf16 (formatSyndromes u).2 formatSyndromeCount)) u).getLsbD index =
        if index < turns then sent.getLsbD index else u.getLsbD index := by
  induction turns with
  | zero => rfl
  | succ turns ih =>
      have before := ih (Nat.le_of_succ_le fewer)
      have root : polyEval gf16 (berlekampMassey gf16 (formatSyndromes u).2 formatSyndromeCount)
          (gf16.expAt (15 - turns)) = 0 ↔ turns ∈ (formatErrors u sent).places :=
        measured.root_iff fewer
      have wrong : turns ∈ (formatErrors u sent).places ↔
          u.getLsbD turns ≠ sent.getLsbD turns := by
        change turns ∈ wrongBits u sent ↔ _
        rw [wrongBits, Finset.mem_filter, Finset.mem_range]
        exact and_iff_right fewer
      rw [List.range_succ, List.foldl_append, List.foldl_cons, List.foldl_nil, correctFormatTurn]
      have small : turns < 16 := Nat.lt_succ_of_lt fewer
      by_cases same : index = turns
      · subst same
        rw [if_neg (Nat.lt_irrefl index)] at before
        rw [if_pos (Nat.lt_succ_self index)]
        split
        · next found =>
            have differ := wrong.mp (root.mp found)
            rw [BitVec.getLsbD_xor, before, BitVec.getLsbD_twoPow]
            revert differ
            cases u.getLsbD index <;> cases sent.getLsbD index <;> simp [small]
        · next missed =>
            rw [before]
            exact not_not.mp (mt wrong.mpr (mt root.mpr missed))
      · have later : index < turns + 1 ↔ index < turns := by omega
        simp only [later]
        split
        · rw [BitVec.getLsbD_xor, before, BitVec.getLsbD_twoPow,
            decide_eq_false (Ne.symm same), Bool.and_false, Bool.xor_false]
        · exact before

/-- **Correcting a format** with at most three wrong bits. -/
theorem correctFormat_eq (code : FormatCode sent) (few : (wrongBits u sent).card ≤ 3)
    (top : u.getLsbD 15 = sent.getLsbD 15) : correctFormat u = .ok sent := by
  have measured := measured_format code few
  have clean : (formatSyndromes sent).1 = false := by
    refine (measured_format code (?_ : (wrongBits sent sent).card ≤ 3)).fst_eq_false.mpr ?_
    · simp [wrongBits]
    · simp [formatErrors, wrongBits]
  have corrected : (List.range formatBitCount).foldl (correctFormatTurn
      (berlekampMassey gf16 (formatSyndromes u).2 formatSyndromeCount)) u = sent := by
    refine BitVec.eq_of_getLsbD_eq fun index less => ?_
    rw [getLsbD_corrected measured (Nat.le_refl _)]
    split
    · rfl
    · next past =>
        have last : index = 15 := by
          simp only [formatBitCount] at past
          omega
        rw [last, top]
  rw [correctFormat]
  dsimp only
  split
  · next none =>
      have places : wrongBits u sent = ∅ := measured.fst_eq_false.mp none
      refine congrArg Except.ok (BitVec.eq_of_getLsbD_eq fun index less => ?_)
      by_cases inside : index < formatBitCount
      · rw [wrongBits, Finset.filter_eq_empty_iff] at places
        exact not_not.mp (places (Finset.mem_range.mpr inside))
      · have last : index = 15 := by
          simp only [formatBitCount] at inside
          omega
        rw [last, top]
  · rw [corrected, clean, if_neg Bool.false_ne_true]

end Correct

end VaultSeed.Quirc
