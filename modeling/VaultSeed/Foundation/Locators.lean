import VaultSeed.Foundation.Registers
import Mathlib.Algebra.Polynomial.BigOperators
import Mathlib.Algebra.Polynomial.Derivative
import Mathlib.Algebra.Ring.GeomSum
import Mathlib.RingTheory.Coprime.Lemmas
import Mathlib.Tactic.LinearCombination

/-! # Locating errors

The syndromes of errors at distinct places are the sequence of a register: the polynomial that
vanishes at the inverses of the places (`Locators.locates`). What the register leaves of the
syndromes, over its derivative, is the value of an error (`Locators.value_eq`).
-/

open Polynomial Registers

namespace Locators

variable {F ι : Type} [Field F]

/-- Errors: in which places they are, the locator of a place, and how large they are. -/
structure Errors (F ι : Type) [Field F] where
  places : Finset ι
  locate : ι → F
  value : ι → F
  apart : ∀ first ∈ places, ∀ second ∈ places, locate first = locate second → first = second
  locate_ne_zero : ∀ place ∈ places, locate place ≠ 0
  value_ne_zero : ∀ place ∈ places, value place ≠ 0

namespace Errors

variable (errors : Errors F ι)

/-- The factor of a place. -/
noncomputable def factor (place : ι) : F[X] := 1 - C (errors.locate place) * X

/-- The polynomial that vanishes at the inverses of the locators. -/
noncomputable def locator : F[X] := ∏ place ∈ errors.places, errors.factor place

/-- A sum of powers of the locators, weighed by the values. -/
def syndrome (power : Nat) : F :=
  ∑ place ∈ errors.places, errors.value place * errors.locate place ^ power

/-- The first syndromes, as a sequence. -/
noncomputable def syndromes (count : Nat) : F[X] :=
  ∑ power ∈ Finset.range count, C (errors.syndrome power) * X ^ power

/-- The errors, weighed by their locators. -/
def weighed : Errors F ι where
  places := errors.places
  locate := errors.locate
  value place := errors.value place * errors.locate place
  apart := errors.apart
  locate_ne_zero := errors.locate_ne_zero
  value_ne_zero place inside :=
    mul_ne_zero (errors.value_ne_zero place inside) (errors.locate_ne_zero place inside)

variable {errors} {place : ι}

/-- Weighed errors have the next syndromes. -/
theorem syndrome_weighed (power : Nat) :
    errors.weighed.syndrome power = errors.syndrome (power + 1) := by
  simp only [syndrome, weighed, pow_succ', mul_assoc]

/-- Other values at the same places have the same locator. -/
theorem locator_weighed : errors.weighed.locator = errors.locator := rfl

/-- The coefficients of the syndromes. -/
theorem coeff_syndromes (count power : Nat) :
    (errors.syndromes count).coeff power = if power < count then errors.syndrome power else 0 := by
  rw [syndromes, finsetSum_coeff]
  simp only [coeff_C_mul_X_pow]
  simp only [Finset.sum_ite_eq, Finset.mem_range]

private theorem eval_factor (place : ι) (point : F) :
    (errors.factor place).eval point = 1 - errors.locate place * point := by
  simp [factor]

private theorem natDegree_factor (inside : place ∈ errors.places) :
    (errors.factor place).natDegree = 1 := by
  have linear : errors.factor place = C (-errors.locate place) * X + C 1 := by
    rw [factor, map_neg, map_one]
    ring
  rw [linear, natDegree_linear (neg_ne_zero.mpr (errors.locate_ne_zero place inside))]

private theorem factor_ne_zero (place : ι) : errors.factor place ≠ 0 := by
  intro zero
  have one : (errors.factor place).eval 0 = 1 - errors.locate place * 0 := eval_factor place 0
  rw [zero, eval_zero, mul_zero, sub_zero] at one
  exact zero_ne_one one

private theorem natDegree_locator : errors.locator.natDegree = errors.places.card := by
  rw [locator, natDegree_prod _ _ fun place _ => factor_ne_zero place,
    Finset.sum_congr rfl fun place inside => natDegree_factor inside, Finset.sum_const,
    smul_eq_mul, mul_one]

private theorem locator_coeff_zero : errors.locator.coeff 0 = 1 := by
  rw [coeff_zero_eq_eval_zero, locator, eval_prod]
  exact Finset.prod_eq_one fun place _ => by rw [eval_factor, mul_zero, sub_zero]

/-- One factor takes a geometric sum down to its ends. -/
theorem factor_mul_sum (place : ι) (count : Nat) :
    errors.factor place * ∑ power ∈ Finset.range count, (C (errors.locate place) * X) ^ power =
      1 - (C (errors.locate place) * X) ^ count :=
  mul_neg_geom_sum _ _

/-- The syndromes are geometric sums. -/
theorem syndromes_eq (count : Nat) :
    errors.syndromes count = ∑ place ∈ errors.places, C (errors.value place) *
      ∑ power ∈ Finset.range count, (C (errors.locate place) * X) ^ power := by
  simp only [syndromes, syndrome, map_sum, map_mul, map_pow, Finset.sum_mul, Finset.mul_sum,
    mul_pow, mul_assoc]
  exact Finset.sum_comm

/-- The locator vanishes at the inverses of the locators, and nowhere else. -/
theorem eval_locator_eq_zero {point : F} :
    errors.locator.eval point = 0 ↔ ∃ place ∈ errors.places, errors.locate place * point = 1 := by
  rw [locator, eval_prod, Finset.prod_eq_zero_iff]
  simp only [eval_factor, sub_eq_zero, eq_comm (a := (1 : F))]

/-- A factor has nothing in common with a polynomial that does not vanish at its root. -/
theorem isCoprime_factor (inside : place ∈ errors.places) {polynomial : F[X]}
    (nonzero : polynomial.eval (errors.locate place)⁻¹ ≠ 0) :
    IsCoprime (errors.factor place) polynomial := by
  have some := errors.locate_ne_zero place inside
  have linear : errors.factor place =
      C (-errors.locate place) * (X - C (errors.locate place)⁻¹) := by
    rw [factor, mul_sub, ← C_mul, neg_mul, mul_inv_cancel₀ some, map_neg, map_neg, map_one]
    ring
  rw [linear, isCoprime_mul_unit_left_left (isUnit_C.mpr (neg_ne_zero.mpr some).isUnit)]
  refine (irreducible_X_sub_C _).coprime_iff_not_dvd.mpr fun divides => nonzero ?_
  exact dvd_iff_isRoot.mp divides

variable [DecidableEq ι]

/-- What the locator leaves of the syndromes. -/
noncomputable def evaluator (errors : Errors F ι) : F[X] :=
  ∑ place ∈ errors.places,
    C (errors.value place) * ∏ other ∈ errors.places.erase place, errors.factor other

/-- The locator, with one factor apart. -/
theorem locator_eq (inside : place ∈ errors.places) :
    errors.locator =
      errors.factor place * ∏ other ∈ errors.places.erase place, errors.factor other :=
  (Finset.mul_prod_erase _ _ inside).symm

/-- The evaluator has a smaller degree than there are errors. -/
theorem evaluator_mem_degreeLT : errors.evaluator ∈ degreeLT F errors.places.card := by
  refine Submodule.sum_mem _ fun place inside => ?_
  rw [C_mul']
  refine Submodule.smul_mem _ _ (mem_degreeLT.mpr ?_)
  have degree : (∏ other ∈ errors.places.erase place, errors.factor other).natDegree =
      errors.places.card - 1 := by
    rw [natDegree_prod _ _ fun other _ => factor_ne_zero other,
      Finset.sum_congr rfl fun other inside => natDegree_factor (Finset.mem_of_mem_erase inside),
      Finset.sum_const, smul_eq_mul, mul_one, Finset.card_erase_of_mem inside]
  refine degree_le_natDegree.trans_lt ?_
  rw [degree]
  exact_mod_cast Nat.sub_lt (Finset.card_pos.mpr ⟨place, inside⟩) Nat.one_pos

/-- The locator annihilates the syndromes, with the evaluator. -/
theorem annihilates (count : Nat) :
    Annihilates (errors.syndromes count) errors.locator errors.evaluator count := by
  rw [Annihilates, syndromes_eq, evaluator, Finset.mul_sum, ← Finset.sum_sub_distrib]
  refine Finset.dvd_sum fun place inside => ?_
  generalize rest : ∏ other ∈ errors.places.erase place, errors.factor other = others
  have split : errors.locator * (C (errors.value place) *
      ∑ power ∈ Finset.range count, (C (errors.locate place) * X) ^ power) -
        C (errors.value place) * others =
      X ^ count * (-(C (errors.value place) * others * C (errors.locate place) ^ count)) := by
    have sum : errors.factor place *
        ∑ power ∈ Finset.range count, (C (errors.locate place) * X) ^ power =
          1 - (C (errors.locate place) * X) ^ count := factor_mul_sum place count
    rw [locator_eq inside, rest]
    linear_combination C (errors.value place) * others * sum
  rw [split]
  exact dvd_mul_right _ _

/-- The evaluator at the inverse of a locator. -/
theorem eval_evaluator (inside : place ∈ errors.places) :
    errors.evaluator.eval (errors.locate place)⁻¹ = errors.value place *
      ∏ other ∈ errors.places.erase place,
        (1 - errors.locate other * (errors.locate place)⁻¹) := by
  have own : 1 - errors.locate place * (errors.locate place)⁻¹ = 0 := by
    rw [mul_inv_cancel₀ (errors.locate_ne_zero place inside), sub_self]
  rw [evaluator, eval_finsetSum, Finset.sum_eq_single_of_mem place inside]
  · rw [eval_C_mul, eval_prod]
    simp only [eval_factor]
  · intro other _ different
    rw [eval_C_mul, eval_prod]
    simp only [eval_factor]
    rw [Finset.prod_eq_zero (Finset.mem_erase.mpr ⟨different.symm, inside⟩) own, mul_zero]

private theorem others_ne_zero (inside : place ∈ errors.places) :
    ∏ other ∈ errors.places.erase place,
      (1 - errors.locate other * (errors.locate place)⁻¹) ≠ 0 := by
  refine Finset.prod_ne_zero_iff.mpr fun other member zero => ?_
  have nonzero := errors.locate_ne_zero place inside
  have same : errors.locate other = errors.locate place := by
    rw [← div_eq_mul_inv, sub_eq_zero, eq_comm, div_eq_one_iff_eq nonzero] at zero
    exact zero
  exact (Finset.mem_erase.mp member).1
    (errors.apart _ (Finset.mem_of_mem_erase member) _ inside same)

private theorem isCoprime (errors : Errors F ι) : IsCoprime errors.locator errors.evaluator := by
  refine IsCoprime.prod_left fun place inside => isCoprime_factor inside ?_
  rw [eval_evaluator inside]
  exact mul_ne_zero (errors.value_ne_zero place inside) (others_ne_zero inside)

/-- **The locator is the register of the syndromes.** -/
theorem locates (errors : Errors F ι) (count : Nat) :
    Locates (errors.syndromes count) count errors.places.card errors.locator
      errors.evaluator where
  monic := locator_coeff_zero
  degree := natDegree_locator
  evaluatorLow := evaluator_mem_degreeLT
  annihilates := annihilates count
  coprime := errors.isCoprime

/-- Errors that are few enough show in the syndromes. -/
theorem places_eq_empty {count : Nat} (few : errors.places.card ≤ count)
    (none : ∀ power < count, errors.syndrome power = 0) : errors.places = ∅ := by
  have zero : errors.syndromes count = 0 :=
    Finset.sum_eq_zero fun power less => by
      rw [none power (Finset.mem_range.mp less), map_zero, zero_mul]
  have divides := errors.annihilates count
  rw [Annihilates, zero, mul_zero, zero_sub, dvd_neg] at divides
  have low := mem_degreeLT.mp errors.evaluator_mem_degreeLT
  have gone : errors.evaluator = 0 := eq_zero_of_dvd_of_degree_lt divides (by
    rw [degree_X_pow]
    exact low.trans_le (by exact_mod_cast few))
  have coprime := errors.isCoprime
  rw [gone, isCoprime_zero_right] at coprime
  rw [← Finset.card_eq_zero, ← natDegree_locator, natDegree_eq_zero_of_isUnit coprime]

/-- The derivative of the locator at the inverse of a locator. -/
theorem eval_derivative_locator (inside : place ∈ errors.places) :
    (derivative errors.locator).eval (errors.locate place)⁻¹ = -errors.locate place *
      ∏ other ∈ errors.places.erase place,
        (1 - errors.locate other * (errors.locate place)⁻¹) := by
  have nonzero := errors.locate_ne_zero place inside
  have slope : derivative (errors.factor place) = -C (errors.locate place) := by
    rw [factor, derivative_sub, derivative_one, derivative_C_mul, derivative_X, mul_one, zero_sub]
  rw [locator_eq inside, derivative_mul, slope, eval_add, eval_mul, eval_mul, eval_factor,
    mul_inv_cancel₀ nonzero, sub_self, zero_mul, add_zero, eval_neg, eval_C, eval_prod]
  simp only [eval_factor]

/-- **The value of an error**, from the evaluator of its weighed values and the derivative of the
locator. -/
theorem value_eq (inside : place ∈ errors.places) :
    errors.evaluator.eval (errors.locate place)⁻¹ /
        (derivative errors.locator).eval (errors.locate place)⁻¹ =
      -(errors.value place / errors.locate place) := by
  have nonzero := errors.locate_ne_zero place inside
  rw [eval_evaluator inside, eval_derivative_locator inside,
    mul_div_mul_right _ _ (others_ne_zero inside), div_neg]

end Errors

end Locators
