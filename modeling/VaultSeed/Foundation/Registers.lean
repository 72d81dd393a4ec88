import Mathlib.RingTheory.Polynomial.Basic
import Mathlib.Algebra.Polynomial.FieldDivision

/-! # Shortest registers

The shortest linear register that produces a sequence, found one element after the other by the
algorithm of Berlekamp and Massey. A sequence is the polynomial of its elements. A register
annihilates it up to a remainder of low degree; when another register of at most half as many
places as there are elements does so too, with a remainder that shares no factor, the algorithm
ends with that register (`Registers.run_eq`).
-/

open Polynomial

namespace Registers

variable {F : Type} [Field F]

/-- What the algorithm keeps: the register and its length, the multiple of the former register that
repairs the next discrepancy, and the discrepancy it removed. -/
structure Search (F : Type) [Field F] where
  register : F[X]
  former : F[X]
  length : Nat
  last : F

/-- Before the first element. -/
noncomputable def Search.start : Search F := ⟨1, X, 0, 1⟩

open Classical in
/-- The next element of the sequence. -/
noncomputable def Search.step (sequence : F[X]) (search : Search F) (count : Nat) : Search F :=
  let discrepancy := (search.register * sequence).coeff count
  if discrepancy = 0 then { search with former := X * search.former }
  else if search.length * 2 ≤ count then
    { register := search.register - C (discrepancy / search.last) * search.former
      former := X * search.register
      length := count + 1 - search.length
      last := discrepancy }
  else
    { search with
      register := search.register - C (discrepancy / search.last) * search.former
      former := X * search.former }

/-- The elements one after the other. -/
noncomputable def Search.run (sequence : F[X]) (count : Nat) : Search F :=
  (List.range count).foldl (Search.step sequence) .start

/-- A register annihilates the first elements up to a remainder of low degree. -/
def Annihilates (sequence register remainder : F[X]) (count : Nat) : Prop :=
  X ^ count ∣ register * sequence - remainder

/-- What is true of a search after some elements. -/
structure Search.Correct (sequence : F[X]) (count : Nat) (search : Search F) : Prop where
  monic : search.register.coeff 0 = 1
  degree : search.register.natDegree ≤ search.length
  formerDegree : search.former.natDegree + search.length ≤ count + 1
  formerLow : search.former.coeff 0 = 0
  short : search.length ≤ count
  last : search.last ≠ 0
  annihilates : ∃ remainder ∈ degreeLT F search.length,
    Annihilates sequence search.register remainder count
  repairs : ∃ remainder ∈ degreeLT F (count + 1 - search.length),
    Annihilates sequence search.former remainder count ∧
    (search.former * sequence - remainder).coeff count = search.last

section Steps

variable {sequence : F[X]} {count : Nat} {search : Search F}

private theorem coeff_of_annihilates {register remainder : F[X]}
    (annihilates : Annihilates sequence register remainder count) {index : Nat}
    (before : index < count) : (register * sequence - remainder).coeff index = 0 :=
  X_pow_dvd_iff.mp annihilates index before

/-- One element more is annihilated when its coefficient vanishes. -/
theorem annihilates_succ {register remainder : F[X]}
    (annihilates : Annihilates sequence register remainder count)
    (vanishes : (register * sequence - remainder).coeff count = 0) :
    Annihilates sequence register remainder (count + 1) := by
  refine X_pow_dvd_iff.mpr fun index before => ?_
  rcases Nat.lt_succ_iff_lt_or_eq.mp before with less | rfl
  · exact coeff_of_annihilates annihilates less
  · exact vanishes

private theorem mul_X_sub (register remainder : F[X]) :
    X * register * sequence - X * remainder = X * (register * sequence - remainder) := by
  ring

private theorem annihilates_mul_X {register remainder : F[X]}
    (annihilates : Annihilates sequence register remainder count) :
    Annihilates sequence (X * register) (X * remainder) (count + 1) := by
  rw [Annihilates, mul_X_sub, pow_succ']
  exact mul_dvd_mul_left X annihilates

private theorem mul_X_mem_degreeLT {remainder : F[X]} {bound : Nat}
    (low : remainder ∈ degreeLT F bound) :
    X * remainder ∈ degreeLT F (bound + 1) := by
  rw [mem_degreeLT] at low ⊢
  rw [degree_mul, degree_X, add_comm, Nat.cast_add, Nat.cast_one]
  exact WithBot.add_lt_add_right WithBot.one_ne_bot low

private theorem natDegree_X_mul_le (register : F[X]) :
    (X * register).natDegree ≤ register.natDegree + 1 := by
  refine natDegree_mul_le.trans ?_
  rw [natDegree_X, add_comm]

/-- The discrepancy is the coefficient left over. -/
theorem discrepancy_eq {register remainder : F[X]} {length : Nat}
    (low : remainder ∈ degreeLT F length) (short : length ≤ count) :
    (register * sequence - remainder).coeff count = (register * sequence).coeff count := by
  have none : remainder.coeff count = 0 :=
    coeff_eq_zero_of_degree_lt (mem_degreeLT.mp (degreeLT_mono short low))
  rw [coeff_sub, none, sub_zero]

private theorem start_correct : Search.start.Correct sequence 0 where
  monic := coeff_one_zero
  degree := natDegree_one.le
  formerDegree := natDegree_X_le
  formerLow := coeff_X_zero
  short := Nat.le_refl 0
  last := one_ne_zero
  annihilates := ⟨0, Submodule.zero_mem _, by
    rw [Annihilates, pow_zero]
    exact one_dvd _⟩
  repairs := by
    refine ⟨-1, ?_, ?_, ?_⟩
    · rw [mem_degreeLT, degree_neg, degree_one]
      exact_mod_cast Nat.one_pos
    · rw [Annihilates, pow_zero]
      exact one_dvd _
    · change (X * sequence - -1).coeff 0 = 1
      rw [coeff_sub, mul_coeff_zero, coeff_X_zero, zero_mul, coeff_neg, coeff_one_zero, zero_sub,
        neg_neg]

/-- The former register, one element later. -/
theorem Search.Correct.repairs_succ (correct : search.Correct sequence count) :
    ∃ remainder ∈ degreeLT F (count + 2 - search.length),
      Annihilates sequence (X * search.former) remainder (count + 1) ∧
      (X * search.former * sequence - remainder).coeff (count + 1) = search.last := by
  obtain ⟨remainder, low, annihilates, last⟩ := correct.repairs
  have bound : count + 2 - search.length = count + 1 - search.length + 1 := by
    have short := correct.short
    omega
  refine ⟨X * remainder, ?_, annihilates_mul_X annihilates, ?_⟩
  · rw [bound]
    exact mul_X_mem_degreeLT low
  · rw [mul_X_sub, coeff_X_mul, last]

/-- The register that an element lengthens repairs the discrepancies after it. -/
theorem Search.Correct.register_repairs (correct : search.Correct sequence count) :
    ∃ remainder ∈ degreeLT F (search.length + 1),
      Annihilates sequence (X * search.register) remainder (count + 1) ∧
      (X * search.register * sequence - remainder).coeff (count + 1) =
        (search.register * sequence).coeff count := by
  obtain ⟨remainder, low, annihilates⟩ := correct.annihilates
  refine ⟨X * remainder, mul_X_mem_degreeLT low, annihilates_mul_X annihilates, ?_⟩
  rw [mul_X_sub, coeff_X_mul, discrepancy_eq low correct.short]

/-- The repaired register annihilates one element more. -/
theorem Search.Correct.repaired (correct : search.Correct sequence count) :
    ∃ remainder ∈ degreeLT F (max search.length (count + 1 - search.length)),
      Annihilates sequence (search.register -
        C ((search.register * sequence).coeff count / search.last) * search.former) remainder
        (count + 1) := by
  obtain ⟨remainder, low, annihilates⟩ := correct.annihilates
  obtain ⟨formerRemainder, formerLow, formerAnnihilates, last⟩ := correct.repairs
  generalize ratio : (search.register * sequence).coeff count / search.last = factor
  have split : (search.register - C factor * search.former) * sequence -
      (remainder - C factor * formerRemainder) =
      (search.register * sequence - remainder) -
        C factor * (search.former * sequence - formerRemainder) := by
    ring
  refine ⟨remainder - C factor * formerRemainder, ?_, annihilates_succ ?_ ?_⟩
  · rw [C_mul']
    exact Submodule.sub_mem _ (degreeLT_mono (Nat.le_max_left _ _) low)
      (Submodule.smul_mem _ _ (degreeLT_mono (Nat.le_max_right _ _) formerLow))
  · rw [Annihilates, split]
    exact dvd_sub annihilates (dvd_mul_of_dvd_right formerAnnihilates _)
  · rw [split, coeff_sub, coeff_C_mul, last, discrepancy_eq low correct.short, ← ratio,
      div_mul_cancel₀ _ correct.last, sub_self]

private theorem Search.Correct.repaired_monic (correct : search.Correct sequence count)
    (factor : F) :
    (search.register - C factor * search.former).coeff 0 = 1 := by
  rw [coeff_sub, coeff_C_mul, correct.formerLow, mul_zero, sub_zero, correct.monic]

private theorem natDegree_repaired (register former : F[X]) (factor : F) :
    (register - C factor * former).natDegree ≤ max register.natDegree former.natDegree :=
  (natDegree_sub_le _ _).trans (max_le_max (Nat.le_refl _) (natDegree_C_mul_le _ _))

/-- **A step keeps the search correct.** -/
theorem Search.Correct.step (correct : search.Correct sequence count) :
    (search.step sequence count).Correct sequence (count + 1) := by
  have degree := correct.degree
  have formerDegree := correct.formerDegree
  have short := correct.short
  have shifted := natDegree_X_mul_le search.former
  have repairedDegree := natDegree_repaired search.register search.former
    ((search.register * sequence).coeff count / search.last)
  obtain ⟨remainder, low, annihilates⟩ := correct.annihilates
  have repairs := correct.repairs_succ
  unfold Search.step
  by_cases none : (search.register * sequence).coeff count = 0
  · rw [if_pos none]
    exact {
      monic := correct.monic
      degree := degree
      formerDegree := by dsimp only; omega
      formerLow := coeff_X_mul_zero _
      short := by dsimp only; omega
      last := correct.last
      annihilates := ⟨remainder, low, annihilates_succ annihilates
        ((discrepancy_eq low short).trans none)⟩
      repairs := repairs }
  rw [if_neg none]
  obtain ⟨repairedRemainder, repairedLow, repaired⟩ := correct.repaired
  by_cases grows : search.length * 2 ≤ count
  · rw [if_pos grows]
    have lengthened := natDegree_X_mul_le search.register
    have bound : max search.length (count + 1 - search.length) = count + 1 - search.length := by
      omega
    rw [bound] at repairedLow
    have places : count + 1 + 1 - (count + 1 - search.length) = search.length + 1 := by omega
    exact {
      monic := correct.repaired_monic _
      degree := by dsimp only; omega
      formerDegree := by dsimp only; omega
      formerLow := coeff_X_mul_zero _
      short := by dsimp only; omega
      last := none
      annihilates := ⟨repairedRemainder, repairedLow, repaired⟩
      repairs := by
        dsimp only
        rw [places]
        exact correct.register_repairs }
  · rw [if_neg grows]
    have bound : max search.length (count + 1 - search.length) = search.length := by omega
    rw [bound] at repairedLow
    exact {
      monic := correct.repaired_monic _
      degree := by dsimp only; omega
      formerDegree := by dsimp only; omega
      formerLow := coeff_X_mul_zero _
      short := by dsimp only; omega
      last := correct.last
      annihilates := ⟨repairedRemainder, repairedLow, repaired⟩
      repairs := repairs }

/-- The search takes one step after the other. -/
theorem run_succ (sequence : F[X]) (count : Nat) :
    Search.run sequence (count + 1) = (Search.run sequence count).step sequence count := by
  rw [Search.run, List.range_succ, List.foldl_append]
  rfl

/-- The register of the search is correct after every step. -/
theorem run_correct (sequence : F[X]) (count : Nat) :
    (Search.run sequence count).Correct sequence count := by
  induction count with
  | zero => exact start_correct
  | succ count ih =>
      rw [run_succ]
      exact ih.step

end Steps

section Uniqueness

variable {sequence locator evaluator : F[X]} {size elements : Nat}

/-- A register that annihilates all elements, up to a remainder with no common factor, of at most
half as many places. -/
structure Locates (sequence : F[X]) (elements size : Nat) (locator evaluator : F[X]) : Prop where
  monic : locator.coeff 0 = 1
  degree : locator.natDegree = size
  evaluatorLow : evaluator ∈ degreeLT F size
  annihilates : Annihilates sequence locator evaluator elements
  coprime : IsCoprime locator evaluator

/-- Two registers for one sequence, crosswise. -/
theorem cross_eq (register remainder : F[X]) :
    register * evaluator - locator * remainder =
      locator * (register * sequence - remainder) -
        register * (locator * sequence - evaluator) := by
  ring

private theorem natDegree_cross_lt {register remainder : F[X]} {length : Nat}
    (locates : Locates sequence elements size locator evaluator)
    (degree : register.natDegree ≤ length) (low : remainder ∈ degreeLT F length) :
    register * evaluator - locator * remainder ∈ degreeLT F (length + size) := by
  have product : ∀ {first second : F[X]} {bound other : Nat}, first.natDegree ≤ bound →
      second ∈ degreeLT F other → first * second ∈ degreeLT F (bound + other) := by
    intro first second bound other small few
    rw [mem_degreeLT] at few ⊢
    rcases eq_or_ne second 0 with rfl | nonzero
    · rw [mul_zero, degree_zero]
      exact WithBot.bot_lt_coe _
    · rw [degree_eq_natDegree nonzero, Nat.cast_lt] at few
      exact (degree_mul_le _ _).trans_lt ((add_le_add (degree_le_of_natDegree_le small)
        (degree_le_natDegree)).trans_lt (by exact_mod_cast Nat.add_lt_add_left few bound))
  refine Submodule.sub_mem _ (product degree locates.evaluatorLow) ?_
  rw [Nat.add_comm]
  exact product locates.degree.le low

/-- A search is never longer than a register that annihilates all elements. -/
theorem Search.Correct.length_step_le {count : Nat} {search : Search F}
    (locates : Locates sequence elements size locator evaluator)
    (correct : search.Correct sequence count) (less : count < elements)
    (length : search.length ≤ size) : (search.step sequence count).length ≤ size := by
  unfold Search.step
  by_cases none : (search.register * sequence).coeff count = 0
  · rw [if_pos none]
    exact length
  rw [if_neg none]
  by_cases grows : search.length * 2 ≤ count
  swap
  · rw [if_neg grows]
    exact length
  rw [if_pos grows]
  by_contra longer
  obtain ⟨remainder, low, annihilates⟩ := correct.annihilates
  -- The coefficient of the crosswise difference is the discrepancy, and past its degree.
  have past : (search.register * evaluator - locator * remainder).coeff count = 0 := by
    apply coeff_eq_zero_of_degree_lt
    refine (mem_degreeLT.mp (natDegree_cross_lt locates correct.degree low)).trans_le ?_
    exact_mod_cast (by dsimp only at longer; omega : search.length + size ≤ count)
  obtain ⟨quotient, whole⟩ := annihilates
  have front : (search.register * sequence - remainder).coeff count = quotient.coeff 0 := by
    rw [whole, coeff_X_pow_mul', if_pos (Nat.le_refl _), Nat.sub_self]
  rw [cross_eq, coeff_sub, whole, mul_left_comm, coeff_X_pow_mul', if_pos (Nat.le_refl _),
    Nat.sub_self, mul_coeff_zero, locates.monic, one_mul, ← front,
    discrepancy_eq low correct.short,
    X_pow_dvd_iff.mp (dvd_mul_of_dvd_right locates.annihilates search.register) count less,
    sub_zero] at past
  exact none past

private theorem length_run_le (locates : Locates sequence elements size locator evaluator)
    {count : Nat}
    (few : count ≤ elements) : (Search.run sequence count).length ≤ size := by
  induction count with
  | zero => exact Nat.zero_le _
  | succ count ih =>
      rw [run_succ]
      exact (run_correct sequence count).length_step_le locates few (ih (Nat.le_of_succ_le few))

/-- **The search finds the register** that annihilates all elements, when it has at most half as
many places. -/
theorem run_eq (locates : Locates sequence elements size locator evaluator)
    (half : size * 2 ≤ elements) : (Search.run sequence elements).register = locator := by
  have correct := run_correct sequence elements
  have length := length_run_le locates (Nat.le_refl elements)
  generalize Search.run sequence elements = search at correct length
  obtain ⟨remainder, low, annihilates⟩ := correct.annihilates
  have same : search.register * evaluator = locator * remainder := by
    have vanishes : X ^ elements ∣ search.register * evaluator - locator * remainder := by
      rw [cross_eq]
      exact dvd_sub (dvd_mul_of_dvd_right annihilates _)
        (dvd_mul_of_dvd_right locates.annihilates _)
    have small := mem_degreeLT.mp (natDegree_cross_lt locates correct.degree low)
    refine sub_eq_zero.mp (eq_zero_of_dvd_of_degree_lt vanishes ?_)
    rw [degree_X_pow]
    exact small.trans_le (by exact_mod_cast (by omega : search.length + size ≤ elements))
  obtain ⟨factor, whole⟩ := locates.coprime.dvd_of_dvd_mul_right (Dvd.intro _ same.symm)
  have nonzero : locator ≠ 0 := by
    rintro rfl
    exact zero_ne_one locates.monic
  have some : factor ≠ 0 := by
    rintro rfl
    have monic := correct.monic
    rw [whole, mul_zero, coeff_zero] at monic
    exact zero_ne_one monic
  have degree := correct.degree
  rw [whole, natDegree_mul nonzero some, locates.degree] at degree
  obtain ⟨unit, rfl⟩ := natDegree_eq_zero.mp (by omega : factor.natDegree = 0)
  have monic := correct.monic
  rw [whole, mul_coeff_zero, locates.monic, one_mul, coeff_C_zero] at monic
  rw [whole, monic, map_one, mul_one]

end Uniqueness

end Registers
