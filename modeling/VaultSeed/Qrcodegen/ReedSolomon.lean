import VaultSeed.Quirc.Correction

/-! # Codewords of the generator

`qrcodegen.c` divides a block by a polynomial with the first powers of a generator as its roots
(`VaultSeed.Qrcodegen.evaluated_reedSolomonComputeDivisor`) and appends the remainder. A block with
its remainder vanishes at these powers (`VaultSeed.Qrcodegen.codeword_append`): it is a block that
the scanner of `omv/img/qrcode.c` corrects.
-/

open Polynomial

namespace VaultSeed.Qrcodegen

open Accumulate Quirc

/-- `reedSolomonMultiply`: doubling. -/
def doubled (z : UInt8) : UInt8 := UInt8.ofNat ((z.toNat <<< 1) ^^^ ((z.toNat >>> 7) * 0x11D))

/-- `reedSolomonMultiply`, a turn of the loop, which counts down. -/
def reedSolomonMultiplyTurn (x y z : UInt8) (i : Nat) : UInt8 :=
  doubled z ^^^ UInt8.ofNat ((y.toNat >>> i) % 2 * x.toNat)

/-- `reedSolomonMultiply`. -/
def reedSolomonMultiply (x y : UInt8) : UInt8 :=
  (List.range 8).reverse.foldl (reedSolomonMultiplyTurn x y) 0

/-- `reedSolomonComputeDivisor`, a turn of the inner loop. -/
def divisorTurn (degree : Nat) (root : UInt8) (result : List UInt8) (j : Nat) : List UInt8 :=
  let scaled := result.set j (reedSolomonMultiply (result.getD j 0) root)
  if j + 1 < degree then xorAt scaled j (scaled.getD (j + 1) 0) else scaled

/-- `reedSolomonComputeDivisor`, a turn of the outer loop: `result` and `root`. -/
def divisorRound (degree : Nat) (found : List UInt8 × UInt8) (_ : Nat) : List UInt8 × UInt8 :=
  ((List.range degree).foldl (divisorTurn degree found.2) found.1,
    reedSolomonMultiply found.2 0x02)

/-- `reedSolomonComputeDivisor`: `result`. -/
def reedSolomonComputeDivisor (degree : Nat) : List UInt8 :=
  ((List.range degree).foldl (divisorRound degree)
    ((List.replicate degree 0).set (degree - 1) 1, 1)).1

/-- `reedSolomonComputeRemainder`, a turn of the loop. -/
def remainderTurn (generator result : List UInt8) (datum : UInt8) : List UInt8 :=
  let factor := datum ^^^ result.getD 0 0
  List.zipWith (fun held coefficient => held ^^^ reedSolomonMultiply coefficient factor)
    (result.drop 1 ++ [0]) generator

/-- `reedSolomonComputeRemainder`: `result`. -/
def reedSolomonComputeRemainder (data generator : List UInt8) (degree : Nat) : List UInt8 :=
  data.foldl (remainderTurn generator) (List.replicate degree 0)

section Multiply

/-- A byte as an element. -/
abbrev elem (byte : UInt8) : Byte := gf256_lawful.element byte

private theorem word_doubled : ∀ value < 256, word 8 (doubled (UInt8.ofNat value)) =
    double (word 8 0x1d) (word 8 (UInt8.ofNat value)) := by
  decide +kernel

/-- Doubling multiplies by the generator. -/
theorem elem_doubled (z : UInt8) : elem (doubled z) = gf256_lawful.generator * elem z := by
  have same := word_doubled z.toNat z.toNat_lt
  rw [UInt8.ofNat_toNat] at same
  have doubles : gf256_lawful.powers.element (gf256_lawful.powers.double (word 8 z)) =
      gf256_lawful.generator * elem z := Galois.Powers.element_double (word 8 z)
  exact (congrArg gf256_lawful.powers.element same).trans doubles

/-- Without an overflow, doubling shifts. -/
theorem shift_eq : ∀ value < 256, ∀ i < 8, UInt8.ofNat (value >>> i) =
    doubled (UInt8.ofNat (value >>> (i + 1))) ^^^ UInt8.ofNat ((value >>> i) % 2) := by
  decide +kernel

private theorem elem_bit (bit : Nat) (x : UInt8) :
    elem (UInt8.ofNat (bit % 2 * x.toNat)) = elem x * elem (UInt8.ofNat (bit % 2)) := by
  rcases Nat.mod_two_eq_zero_or_one bit with zero | one
  · rw [zero, Nat.zero_mul]
    exact (gf256_lawful.element_zero.trans (mul_zero _).symm).trans
      (congrArg _ gf256_lawful.element_zero.symm)
  · rw [one, Nat.one_mul, UInt8.ofNat_toNat]
    exact ((mul_one _).symm).trans (congrArg _ GaloisField.Lawful.element_one.symm)

/-- **The product of two bytes.** -/
theorem elem_reedSolomonMultiply (x y : UInt8) :
    elem (reedSolomonMultiply x y) = elem x * elem y := by
  have turns : ∀ count ≤ 8, elem (((List.range 8).reverse.take count).foldl
      (reedSolomonMultiplyTurn x y) 0) = elem x * elem (UInt8.ofNat (y.toNat >>> (8 - count))) := by
    intro count fits
    induction count with
    | zero =>
        have high : y.toNat >>> 8 = 0 := by
          rw [Nat.shiftRight_eq_div_pow]
          exact Nat.div_eq_of_lt y.toNat_lt
        rw [Nat.sub_zero, high]
        exact gf256_lawful.element_zero.trans
          ((mul_zero _).symm.trans (congrArg _ gf256_lawful.element_zero.symm))
    | succ count ih =>
        have place : (List.range 8).reverse[count]? = some (7 - count) := by
          rw [List.getElem?_reverse (by rw [List.length_range]; omega), List.length_range,
            List.getElem?_range (by omega)]
        have shifted := shift_eq y.toNat y.toNat_lt (7 - count) (by omega)
        rw [show 7 - count + 1 = 8 - count by omega] at shifted
        rw [List.take_add_one, place, Option.toList_some, List.foldl_append, List.foldl_cons,
          List.foldl_nil, reedSolomonMultiplyTurn, elem, gf256_lawful.element_xor]
        change elem (doubled _) + elem _ = _
        rw [elem_doubled, ih (Nat.le_of_succ_le fits), elem_bit,
          show 8 - (count + 1) = 7 - count by omega, shifted]
        change _ = elem x * gf256_lawful.element (_ ^^^ _)
        rw [gf256_lawful.element_xor]
        change _ = elem x * (elem (doubled _) + elem _)
        rw [elem_doubled]
        ring
  have last := turns 8 (Nat.le_refl 8)
  rw [Nat.sub_self, Nat.shiftRight_zero, UInt8.ofNat_toNat] at last
  exact last

end Multiply

section Divisor

variable {degree : Nat} {root : UInt8} {result : List UInt8}

private theorem length_divisorTurn (j : Nat) :
    (divisorTurn degree root result j).length = result.length := by
  rw [divisorTurn]
  split <;> simp

/-- The inner loop multiplies by a linear factor; the leading term is lost. -/
theorem getD_divisorTurns (root : UInt8) (length : result.length = degree) {turns : Nat}
    (fewer : turns ≤ degree) :
    ((List.range turns).foldl (divisorTurn degree root) result).length = degree ∧
      ∀ j < degree, elem (((List.range turns).foldl (divisorTurn degree root) result).getD j 0) =
        if j < turns then elem (result.getD j 0) * elem root + elem (result.getD (j + 1) 0)
        else elem (result.getD j 0) := by
  induction turns with
  | zero => exact ⟨length, fun j _ => rfl⟩
  | succ turns ih =>
      obtain ⟨heldLength, held⟩ := ih (Nat.le_of_succ_le fewer)
      rw [List.range_succ, List.foldl_append, List.foldl_cons, List.foldl_nil]
      refine ⟨length_divisorTurn turns |>.trans heldLength, fun j inside => ?_⟩
      have scaledLength : turns < (((List.range turns).foldl (divisorTurn degree root)
          result).set turns (reedSolomonMultiply (((List.range turns).foldl
            (divisorTurn degree root) result).getD turns 0) root)).length := by
        rw [List.length_set, heldLength]
        exact fewer
      have here := held turns fewer
      rw [if_neg (Nat.lt_irrefl turns)] at here
      have past : ¬turns + 1 < degree → result.getD (turns + 1) 0 = 0 := fun outside => by
        rw [List.getD_eq_default _ _ (by omega)]
      rw [divisorTurn]
      by_cases same : j = turns
      · subst same
        rw [if_pos (Nat.lt_succ_self j)]
        split
        · next next =>
            have after := held (j + 1) next
            rw [if_neg (by omega)] at after
            rw [getD_xorAt _ _ _ _ scaledLength, if_pos rfl, getD_set _ _ _ _ _ (by omega),
              if_pos rfl, getD_set _ _ _ _ _ (by omega), if_neg (by omega), elem,
              gf256_lawful.element_xor]
            change elem (reedSolomonMultiply _ root) + elem _ = _
            rw [elem_reedSolomonMultiply, here, after]
        · next last =>
            rw [getD_set _ _ _ _ _ (by omega), if_pos rfl, elem_reedSolomonMultiply, here,
              past last]
            exact ((congrArg _ gf256_lawful.element_zero).trans (add_zero _)).symm
      · have kept := held j inside
        have later : j < turns + 1 ↔ j < turns := by omega
        simp only [later]
        rw [← kept]
        split
        · rw [getD_xorAt _ _ _ _ scaledLength, if_neg same, getD_set _ _ _ _ _ (by omega),
            if_neg same]
        · rw [getD_set _ _ _ _ _ (by omega), if_neg same]

/-- The product of the linear factors. -/
noncomputable def factors (count : Nat) : Byte[X] :=
  ∏ power ∈ Finset.range count, (X + C (gf256_lawful.generator ^ power))

private theorem factors_succ (count : Nat) :
    factors (count + 1) = factors count * (X + C (gf256_lawful.generator ^ count)) :=
  Finset.prod_range_succ _ _

private theorem monic_factors (count : Nat) : (factors count).Monic :=
  monic_prod_of_monic _ _ fun _ _ => monic_X_add_C _

private theorem natDegree_factors (count : Nat) : (factors count).natDegree = count := by
  rw [factors, natDegree_prod_of_monic _ _ fun _ _ => monic_X_add_C _]
  simp only [natDegree_X_add_C, Finset.sum_const, Finset.card_range, smul_eq_mul, mul_one]

private theorem eval_factors {count power : Nat} (less : power < count) :
    (factors count).eval (gf256_lawful.generator ^ power) = 0 := by
  rw [factors, eval_prod]
  refine Finset.prod_eq_zero (Finset.mem_range.mpr less) ?_
  rw [eval_add, eval_X, eval_C, CharTwo.add_self_eq_zero]

/-- The outer loop: the low coefficients of the product so far. -/
theorem divisorRounds (positive : 0 < degree) (rounds : Nat) :
    let found := (List.range rounds).foldl (divisorRound degree)
      ((List.replicate degree 0).set (degree - 1) 1, 1)
    found.1.length = degree ∧ elem found.2 = gf256_lawful.generator ^ rounds ∧
      ∀ j < degree, elem (found.1.getD j 0) = (factors rounds).coeff (degree - 1 - j) := by
  induction rounds with
  | zero =>
      refine ⟨by simp, GaloisField.Lawful.element_one.trans (pow_zero _).symm, fun j inside => ?_⟩
      change elem (((List.replicate degree 0).set (degree - 1) 1).getD j 0) =
        (factors 0).coeff (degree - 1 - j)
      rw [factors, Finset.range_zero, Finset.prod_empty, coeff_one,
        getD_set _ _ _ _ _ (by rw [List.length_replicate]; omega)]
      split
      · next same =>
          rw [if_pos (by omega)]
          exact GaloisField.Lawful.element_one
      · next differ =>
          rw [if_neg (by omega), getD_replicate_zero]
          exact gf256_lawful.element_zero
  | succ rounds ih =>
      obtain ⟨length, rooted, held⟩ := ih
      dsimp only at length rooted held ⊢
      rw [List.range_succ, List.foldl_append, List.foldl_cons, List.foldl_nil, divisorRound]
      obtain ⟨newLength, values⟩ := getD_divisorTurns ((List.range rounds).foldl
        (divisorRound degree) ((List.replicate degree 0).set (degree - 1) 1, 1)).2 length
        (Nat.le_refl degree)
      refine ⟨newLength, ?_, fun j inside => ?_⟩
      · rw [elem_reedSolomonMultiply, rooted, pow_succ]
        refine congrArg _ ?_
        have two := elem_doubled 1
        rw [elem, elem, GaloisField.Lawful.element_one, mul_one] at two
        exact two
      · rw [values j inside, if_pos inside, held j inside, rooted, factors_succ, mul_add,
          coeff_add, coeff_mul_C]
        rw [add_comm]
        congr 1
        by_cases last : j + 1 < degree
        · rw [held (j + 1) last, show degree - 1 - j = degree - 1 - (j + 1) + 1 by omega,
            coeff_mul_X]
        · rw [List.getD_eq_default _ _ (by omega), show degree - 1 - j = 0 by omega,
            coeff_mul_X_zero]
          exact gf256_lawful.element_zero

/-- **The divisor** vanishes, with its leading term, at the first powers of the generator. -/
theorem evaluated_reedSolomonComputeDivisor {power : Nat} (less : power < degree) :
    evaluated (gf256_lawful.generator ^ power) (reedSolomonComputeDivisor degree) =
      (gf256_lawful.generator ^ power) ^ degree := by
  obtain ⟨length, -, values⟩ := divisorRounds (Nat.zero_lt_of_lt less) degree
  have root := eval_factors less
  rw [eval_eq_sum_range, natDegree_factors, Finset.sum_range_succ,
    show (factors degree).coeff degree = 1 by
      have monic := (monic_factors degree).coeff_natDegree
      rwa [natDegree_factors] at monic, one_mul, CharTwo.add_eq_zero] at root
  rw [← root, reedSolomonComputeDivisor, evaluated_eq_sum]
  rw [length]
  refine Finset.sum_congr rfl fun j member => ?_
  have inside := Finset.mem_range.mp member
  have value := values (degree - j - 1) (by omega)
  rw [show degree - 1 - (degree - j - 1) = j by omega] at value
  exact congrArg (· * _) value

private theorem length_reedSolomonComputeDivisor (positive : 0 < degree) :
    (reedSolomonComputeDivisor degree).length = degree :=
  (divisorRounds positive degree).1

end Divisor

section Remainder

variable {degree : Nat} {generator result data : List UInt8} {point : Byte}

private theorem evaluated_cons (point : Byte) (byte : UInt8) (bytes : List UInt8) :
    evaluated point (byte :: bytes) = elem byte * point ^ bytes.length + evaluated point bytes := by
  induction bytes using List.reverseRecOn with
  | nil =>
      change 0 * point + elem byte = elem byte * 1 + 0
      rw [zero_mul, zero_add, mul_one, add_zero]
  | append_singleton bytes last ih =>
      rw [← List.cons_append, evaluated_append_singleton, ih, evaluated_append_singleton,
        List.length_append, List.length_singleton]
      ring

private theorem evaluated_append (point : Byte) (first second : List UInt8) :
    evaluated point (first ++ second) =
      evaluated point first * point ^ second.length + evaluated point second := by
  induction second using List.reverseRecOn with
  | nil =>
      change evaluated point (first ++ []) = evaluated point first * 1 + 0
      rw [List.append_nil, mul_one, add_zero]
  | append_singleton second last ih =>
      rw [← List.append_assoc, evaluated_append_singleton, ih, evaluated_append_singleton,
        List.length_append, List.length_singleton]
      ring

/-- Adding a multiple of a polynomial to another. -/
theorem evaluated_zipWith (point : Byte) (factor : UInt8) {held generator : List UInt8}
    (length : held.length = generator.length) :
    evaluated point (List.zipWith
      (fun value coefficient => value ^^^ reedSolomonMultiply coefficient factor) held
        generator) = evaluated point held + evaluated point generator * elem factor := by
  induction held generalizing generator with
  | nil =>
      rw [List.eq_nil_of_length_eq_zero length.symm]
      change (0 : Byte) = 0 + 0 * elem factor
      rw [zero_mul, add_zero]
  | cons value held ih =>
      obtain ⟨coefficient, generator, rfl⟩ :=
        List.exists_cons_of_length_eq_add_one length.symm
      have rest : held.length = generator.length := Nat.succ_inj.mp length
      rw [List.zipWith_cons_cons, evaluated_cons, ih rest, evaluated_cons, evaluated_cons,
        List.length_zipWith, rest, Nat.min_self, elem, gf256_lawful.element_xor]
      change (elem value + elem (reedSolomonMultiply coefficient factor)) * _ + _ = _
      rw [elem_reedSolomonMultiply]
      ring

private theorem length_remainderTurn (positive : 0 < degree)
    (generatorLength : generator.length = degree)
    (length : result.length = degree) (datum : UInt8) :
    (remainderTurn generator result datum).length = degree := by
  rw [remainderTurn, List.length_zipWith, List.length_append, List.length_drop,
    List.length_singleton]
  omega

/-- A turn of the division, at a root of the divisor. -/
theorem evaluated_remainderTurn (positive : 0 < degree)
    (generatorLength : generator.length = degree) (length : result.length = degree)
    (root : evaluated point generator = point ^ degree) (datum : UInt8) :
    evaluated point (remainderTurn generator result datum) =
      evaluated point result * point + elem datum * point ^ degree := by
  obtain ⟨first, rest, rfl⟩ := List.exists_cons_of_length_pos (length ▸ positive)
  have restLength : rest.length + 1 = degree := length
  have zero : elem 0 = 0 := gf256_lawful.element_zero
  have sum : elem (datum ^^^ first) = elem datum + elem first := gf256_lawful.element_xor _ _
  rw [remainderTurn, evaluated_zipWith _ _ (by simp [generatorLength, ← restLength]), root]
  change evaluated point (rest ++ [0]) + point ^ degree * elem (datum ^^^ first) = _
  rw [evaluated_append_singleton, evaluated_cons, ← restLength, sum]
  change evaluated point rest * point + elem 0 + _ = _
  rw [zero]
  ring

private theorem evaluated_reedSolomonComputeRemainder (positive : 0 < degree)
    (generatorLength : generator.length = degree)
    (root : evaluated point generator = point ^ degree) (data : List UInt8) :
    (reedSolomonComputeRemainder data generator degree).length = degree ∧
      evaluated point (reedSolomonComputeRemainder data generator degree) =
        evaluated point data * point ^ degree := by
  induction data using List.reverseRecOn with
  | nil =>
      refine ⟨List.length_replicate, ?_⟩
      change evaluated point (List.replicate degree 0) = 0 * _
      rw [zero_mul, evaluated_eq_sum]
      refine Finset.sum_eq_zero fun j _ => ?_
      rw [getD_replicate_zero]
      exact (congrArg (· * _) gf256_lawful.element_zero).trans (zero_mul _)
  | append_singleton data datum ih =>
      obtain ⟨length, value⟩ := ih
      rw [reedSolomonComputeRemainder] at length value ⊢
      rw [List.foldl_append, List.foldl_cons, List.foldl_nil]
      refine ⟨length_remainderTurn positive generatorLength length datum, ?_⟩
      rw [evaluated_remainderTurn positive generatorLength length root, value,
        evaluated_append_singleton]
      change _ = (_ + elem datum) * _
      ring

/-- **A block with its remainder** is one that the scanner corrects. -/
theorem codeword_append (positive : 0 < degree) (data : List UInt8) :
    Codeword degree
      (data ++ reedSolomonComputeRemainder data (reedSolomonComputeDivisor degree) degree) := by
  intro power less
  obtain ⟨length, value⟩ := evaluated_reedSolomonComputeRemainder positive
    (length_reedSolomonComputeDivisor positive) (evaluated_reedSolomonComputeDivisor less) data
  rw [evaluated_append, value, length, CharTwo.add_self_eq_zero]

/-- The remainder has as many bytes as the degree says. -/
theorem length_reedSolomonComputeRemainder (positive : 0 < degree) (data : List UInt8) :
    (reedSolomonComputeRemainder data (reedSolomonComputeDivisor degree) degree).length = degree :=
  (evaluated_reedSolomonComputeRemainder positive (length_reedSolomonComputeDivisor positive)
    (evaluated_reedSolomonComputeDivisor positive) data).1

end Remainder

end VaultSeed.Qrcodegen
