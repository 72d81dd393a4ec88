import Mathlib.Algebra.Field.Basic
import Mathlib.Algebra.Group.Hom.Basic
import Mathlib.Algebra.Group.MinimalAxioms
import Mathlib.Algebra.CharP.Two

/-! # Fields of characteristic two from the powers of a generator

Words of bits are added without carries. When doubling is additive and takes each power of a
generator to the next, and every word but zero is a power, the words are a field: the product adds
exponents (`Galois.Powers.Element`). A table of the powers and one of their exponents compute in it.
-/

namespace Galois

variable {width : Nat}

/-- Words of bits, added without carries. -/
@[ext] structure Word (width : Nat) where
  bits : BitVec width
  deriving DecidableEq

namespace Word

instance : Zero (Word width) := ⟨⟨0⟩⟩

instance : Add (Word width) := ⟨fun first second => ⟨first.bits ^^^ second.bits⟩⟩

instance : Neg (Word width) := ⟨id⟩

/-- The bits of zero. -/
theorem bits_zero : (0 : Word width).bits = 0 := rfl

/-- Words are added bit by bit. -/
theorem bits_add (first second : Word width) :
    (first + second).bits = first.bits ^^^ second.bits := rfl

/-- Every word is its own negative. -/
theorem add_self (word : Word width) : word + word = 0 := by
  ext1
  exact BitVec.xor_self

instance : AddCommGroup (Word width) :=
  { AddGroup.ofLeftAxioms
      (fun _ _ _ => Word.ext (BitVec.xor_assoc ..)) (fun _ => Word.ext BitVec.zero_xor)
      add_self with
    add_comm := fun _ _ => Word.ext (BitVec.xor_comm ..) }

end Word

/-- The powers of a generator, and their exponents. -/
structure Powers (width : Nat) where
  double : Word width →+ Word width
  exp : Nat → Word width
  log : Word width → Nat
  period : Nat
  positive : 0 < period
  exp_succ : ∀ power, exp (power + 1) = double (exp power)
  exp_period : exp period = exp 0
  exp_ne_zero : ∀ power, exp power ≠ 0
  exp_log : ∀ word, word ≠ 0 → exp (log word) = word

namespace Powers

variable (powers : Powers width)

/-- The words, with the product that adds exponents. -/
def Element (_ : Powers width) : Type := Word width

variable {powers}

private theorem exp_add (first second : Nat) :
    powers.exp (first + second) = powers.double^[second] (powers.exp first) := by
  induction second with
  | zero => rfl
  | succ second ih => rw [← Nat.add_assoc, powers.exp_succ, ih, Function.iterate_succ_apply']

private theorem exp_mul_period (turns : Nat) : powers.exp (turns * powers.period) =
    powers.exp 0 := by
  induction turns with
  | zero => rw [Nat.zero_mul]
  | succ turns ih =>
      rw [Nat.succ_mul, Nat.add_comm, exp_add, powers.exp_period, ← exp_add, Nat.zero_add, ih]

/-- The exponent of a power stands for the power. -/
theorem exp_log_exp_add (first second : Nat) :
    powers.exp (powers.log (powers.exp first) + second) = powers.exp (first + second) := by
  rw [exp_add, powers.exp_log _ (powers.exp_ne_zero first), ← exp_add]

/-- The product of two words. -/
def mul (powers : Powers width) (first second : Word width) : Word width :=
  if first = 0 then 0 else powers.double^[powers.log first] second

/-- The inverse of a word. -/
def inv (powers : Powers width) (word : Word width) : Word width :=
  if word = 0 then 0 else powers.exp (powers.log word * (powers.period - 1))

private theorem iterate_double_zero (count : Nat) : powers.double^[count] 0 = 0 := by
  induction count with
  | zero => rfl
  | succ count ih => rw [Function.iterate_succ_apply', ih, map_zero]

private theorem iterate_double_add (count : Nat) (first second : Word width) :
    powers.double^[count] (first + second) =
      powers.double^[count] first + powers.double^[count] second := by
  induction count with
  | zero => rfl
  | succ count ih => rw [Function.iterate_succ_apply', ih, map_add, Function.iterate_succ_apply',
      Function.iterate_succ_apply']

private theorem zero_mul (word : Word width) : powers.mul 0 word = 0 := if_pos rfl

private theorem mul_zero (word : Word width) : powers.mul word 0 = 0 := by
  rw [mul, iterate_double_zero, ite_self]

/-- The product adds exponents. -/
theorem exp_mul_exp (first second : Nat) :
    powers.mul (powers.exp first) (powers.exp second) = powers.exp (first + second) := by
  rw [mul, if_neg (powers.exp_ne_zero first), ← exp_add, Nat.add_comm, exp_log_exp_add]

private theorem eq_zero_or_exp (word : Word width) : word = 0 ∨ ∃ power, word =
    powers.exp power := by
  by_cases zero : word = 0
  · exact .inl zero
  · exact .inr ⟨_, (powers.exp_log word zero).symm⟩

private theorem mul_comm (first second : Word width) :
    powers.mul first second = powers.mul second first := by
  rcases powers.eq_zero_or_exp first with rfl | ⟨power, rfl⟩
  · rw [zero_mul, mul_zero]
  rcases powers.eq_zero_or_exp second with rfl | ⟨other, rfl⟩
  · rw [zero_mul, mul_zero]
  · rw [exp_mul_exp, exp_mul_exp, Nat.add_comm]

private theorem mul_assoc (first second third : Word width) :
    powers.mul (powers.mul first second) third = powers.mul first (powers.mul second third) := by
  rcases powers.eq_zero_or_exp first with rfl | ⟨power, rfl⟩
  · simp only [zero_mul]
  rcases powers.eq_zero_or_exp second with rfl | ⟨other, rfl⟩
  · simp only [zero_mul, mul_zero]
  rcases powers.eq_zero_or_exp third with rfl | ⟨another, rfl⟩
  · simp only [mul_zero]
  · simp only [exp_mul_exp, Nat.add_assoc]

private theorem mul_add (first second third : Word width) :
    powers.mul first (second + third) = powers.mul first second + powers.mul first third := by
  rw [mul, mul, mul]
  split
  · rw [add_zero]
  · exact iterate_double_add _ _ _

private theorem add_mul (first second third : Word width) :
    powers.mul (first + second) third = powers.mul first third + powers.mul second third := by
  rw [mul_comm, mul_add, mul_comm third, mul_comm third]

private theorem exp_zero_mul (word : Word width) : powers.mul (powers.exp 0) word = word := by
  rcases powers.eq_zero_or_exp word with rfl | ⟨power, rfl⟩
  · exact mul_zero _
  · rw [exp_mul_exp, Nat.zero_add]

private theorem mul_inv {word : Word width} (nonzero : word ≠ 0) :
    powers.mul word (powers.inv word) = powers.exp 0 := by
  have whole : powers.log word + powers.log word * (powers.period - 1) =
      powers.log word * powers.period := by
    obtain ⟨before, size⟩ := Nat.exists_eq_succ_of_ne_zero powers.positive.ne'
    rw [size, Nat.succ_sub_one, Nat.mul_succ, Nat.add_comm]
  rw [inv, if_neg nonzero, ← exp_mul_period (powers.log word), ← whole, ← exp_mul_exp,
    powers.exp_log word nonzero]

instance (powers : Powers width) : AddCommGroup powers.Element :=
  inferInstanceAs (AddCommGroup (Word width))

instance (powers : Powers width) : Field powers.Element where
  mul := powers.mul
  one := powers.exp 0
  inv := powers.inv
  left_distrib := mul_add
  right_distrib := add_mul
  zero_mul := zero_mul
  mul_zero := mul_zero
  mul_assoc := mul_assoc
  one_mul := exp_zero_mul
  mul_one word := (mul_comm word _).trans (exp_zero_mul word)
  mul_comm := mul_comm
  exists_pair_ne := ⟨0, powers.exp 0, (powers.exp_ne_zero 0).symm⟩
  mul_inv_cancel _ nonzero := mul_inv nonzero
  inv_zero := if_pos rfl
  nnqsmul := _
  nnqsmul_def _ _ := rfl
  qsmul := _
  qsmul_def _ _ := rfl

instance (powers : Powers width) : CharP powers.Element 2 :=
  CharTwo.of_one_ne_zero_of_two_eq_zero one_ne_zero (by
  rw [← one_add_one_eq_two]
  exact Word.add_self (powers.exp 0))

/-- A word as an element of the field. -/
def element (powers : Powers width) (word : Word width) : powers.Element := word

/-- The generator. -/
def generator (powers : Powers width) : powers.Element := powers.element (powers.exp 1)

/-- The element of the word zero. -/
@[simp] theorem element_zero : powers.element 0 = 0 := rfl

/-- The element of a sum. -/
theorem element_add (first second : Word width) :
    powers.element (first + second) = powers.element first + powers.element second := rfl

/-- A word is known by its element. -/
theorem element_injective : Function.Injective powers.element := fun _ _ same => same

/-- The words of the table are the powers of the generator. -/
theorem element_exp (power : Nat) :
    powers.element (powers.exp power) = powers.generator ^ power := by
  induction power with
  | zero => exact (pow_zero _).symm
  | succ power ih =>
      rw [pow_succ, ← ih]
      exact (exp_mul_exp power 1).symm

/-- Doubling multiplies by the generator. -/
theorem element_double (word : Word width) :
    powers.element (powers.double word) = powers.generator * powers.element word := by
  rcases powers.eq_zero_or_exp word with rfl | ⟨power, rfl⟩
  · rw [map_zero, element_zero, MulZeroClass.mul_zero]
  · rw [← powers.exp_succ, element_exp, element_exp, pow_succ']

/-- The generator is not zero. -/
theorem generator_ne_zero : powers.generator ≠ 0 := powers.exp_ne_zero 1

/-- The powers of the generator go around. -/
theorem generator_pow_period : powers.generator ^ powers.period = 1 := by
  rw [← element_exp, powers.exp_period]
  rfl

end Powers

end Galois
