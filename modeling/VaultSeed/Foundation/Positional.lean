import Mathlib.Data.Nat.Digits.Lemmas
import Mathlib.Tactic.Ring

/-! # Positional numerals

Digits of a base, the first one the highest. A numeral has no zeros in front: digits without the
zeros they begin with are the numeral of what they stand for (`Positional.numeral_value`).
-/

namespace Positional

/-- The number that digits of a base stand for. -/
def value (base : Nat) (digits : List Nat) : Nat := Nat.ofDigits base digits.reverse

/-- The digits of a number, without zeros in front. -/
def numeral (base number : Nat) : List Nat := (Nat.digits base number).reverse

/-- The number of zeros in front. -/
def zeros (digits : List Nat) : Nat := (digits.takeWhile (· == 0)).length

variable {base : Nat} {digits : List Nat}

@[simp] theorem value_nil : value base [] = 0 := rfl

/-- The first digit is the highest. -/
theorem value_cons (digit : Nat) (digits : List Nat) :
    value base (digit :: digits) = digit * base ^ digits.length + value base digits := by
  rw [value, Nat.ofDigits_reverse_cons, value]
  ring

/-- Digits are a number below a power of the base. -/
theorem value_lt (large : 1 < base) (small : ∀ digit ∈ digits, digit < base) :
    value base digits < base ^ digits.length := by
  have bounded := Nat.ofDigits_lt_base_pow_length large
    (fun digit member => small digit (List.mem_reverse.mp member))
  rwa [List.length_reverse] at bounded

/-- Only zeros stand for zero. -/
theorem value_eq_zero (positive : 0 < base) :
    value base digits = 0 ↔ ∀ digit ∈ digits, digit = 0 := by
  induction digits with
  | nil => simp
  | cons digit digits ih =>
      rw [value_cons, Nat.add_eq_zero_iff, ih, List.forall_mem_cons, Nat.mul_eq_zero]
      have power : base ^ digits.length ≠ 0 := (Nat.pow_pos positive).ne'
      rw [or_iff_left power]

/-- A numeral stands for its number. -/
@[simp] theorem value_numeral (base number : Nat) : value base (numeral base number) = number := by
  rw [value, numeral, List.reverse_reverse, Nat.ofDigits_digits]

/-- Only the numeral of zero is empty. -/
theorem numeral_eq_nil_iff {number : Nat} : numeral base number = [] ↔ number = 0 := by
  rw [numeral, List.reverse_eq_nil_iff, Nat.digits_eq_nil_iff_eq_zero]

/-- A numeral has digits of its base. -/
theorem numeral_lt (large : 1 < base) {number digit : Nat} (member : digit ∈ numeral base number) :
    digit < base :=
  Nat.digits_lt_base large (List.mem_reverse.mp member)

/-- The last digit is the remainder, those before it the numeral of the quotient. -/
theorem numeral_of_pos (large : 1 < base) {number : Nat} (positive : 0 < number) :
    numeral base number = numeral base (number / base) ++ [number % base] := by
  rw [numeral, Nat.digits_def' large positive, List.reverse_cons, numeral]

/-- The digits of a number without the zeros in front are its numeral. -/
theorem numeral_value (large : 1 < base) (small : ∀ digit ∈ digits, digit < base) :
    numeral base (value base digits) = digits.dropWhile (· == 0) := by
  induction digits with
  | nil => simp [numeral]
  | cons digit digits ih =>
      have rest : ∀ other ∈ digits, other < base := fun other member =>
        small other (List.mem_cons_of_mem _ member)
      by_cases zero : digit = 0
      · subst zero
        rw [value_cons, Nat.zero_mul, Nat.zero_add, ih rest]
        rfl
      · have last : ∀ nonempty : (digit :: digits).reverse ≠ [],
            (digit :: digits).reverse.getLast nonempty ≠ 0 := by
          intro nonempty
          rw [List.getLast_reverse]
          exact zero
        rw [numeral, value, Nat.digits_ofDigits _ large _
          (fun other member => small other (List.mem_reverse.mp member)) last,
          List.reverse_reverse, List.dropWhile_cons_of_neg (by simp [zero])]

/-- Digits are the numeral of their number exactly when there is no zero in front. -/
theorem numeral_value_eq_iff (large : 1 < base) (small : ∀ digit ∈ digits, digit < base) :
    numeral base (value base digits) = digits ↔ digits.head? ≠ some 0 := by
  rw [numeral_value large small]
  cases digits with
  | nil => simp
  | cons digit digits =>
      by_cases zero : digit = 0
      · subst zero
        have shorter : ((0 :: digits).dropWhile (· == 0)).length < (0 :: digits).length := by
          rw [List.dropWhile_cons_of_pos rfl, List.length_cons, Nat.lt_succ_iff]
          exact (List.dropWhile_sublist _).length_le
        have differ : (0 :: digits).dropWhile (· == 0) ≠ 0 :: digits := by
          intro same
          rw [same] at shorter
          exact lt_irrefl _ shorter
        exact iff_of_false differ fun nonzero => nonzero rfl
      · simp [zero]

/-! ## Numerals with zeros in front -/

/-- A numeral has no zero in front. -/
theorem head?_numeral (large : 1 < base) (number : Nat) : (numeral base number).head? ≠ some 0 := by
  rw [← numeral_value_eq_iff large fun digit => numeral_lt large, value_numeral]

/-- The zeros in front of what does not begin with a zero. -/
theorem zeros_append {count : Nat} (plain : digits.head? ≠ some 0) :
    zeros (List.replicate count 0 ++ digits) = count := by
  induction count with
  | zero =>
      cases digits with
      | nil => rfl
      | cons digit digits =>
          have nonzero : digit ≠ 0 := fun same => plain (by rw [same, List.head?_cons])
          simp [zeros, nonzero]
  | succ count ih =>
      simp only [zeros, List.replicate_succ, List.cons_append] at ih ⊢
      rw [List.takeWhile_cons_of_pos rfl, List.length_cons, ih]

/-- Zeros in front leave the number. -/
theorem value_append (count : Nat) (digits : List Nat) :
    value base (List.replicate count 0 ++ digits) = value base digits := by
  induction count with
  | zero => rfl
  | succ count ih => rw [List.replicate_succ, List.cons_append, value_cons, ih, zero_mul, zero_add]

/-- **Digits are their zeros and the numeral of their number.** -/
theorem padded_numeral (large : 1 < base) (small : ∀ digit ∈ digits, digit < base) :
    List.replicate (zeros digits) 0 ++ numeral base (value base digits) = digits := by
  have front : digits.takeWhile (· == 0) = List.replicate (zeros digits) 0 := by
    apply List.eq_replicate_iff.mpr
    refine ⟨rfl, fun digit member => ?_⟩
    exact beq_iff_eq.mp (List.all_eq_true.mp List.all_takeWhile digit member)
  rw [numeral_value large small, ← front, List.takeWhile_append_dropWhile]

/-- A text over an alphabet is a text of digits. -/
theorem exists_digits {α : Type} {alphabet text : List α} (blank : α)
    (known : ∀ char ∈ text, char ∈ alphabet) :
    ∃ digits : List Nat, (∀ digit ∈ digits, digit < alphabet.length) ∧
      text = digits.map (alphabet.getD · blank) := by
  induction text with
  | nil => exact ⟨[], by simp, rfl⟩
  | cons char text ih =>
      obtain ⟨digits, small, rfl⟩ :=
        ih fun other member => known other (List.mem_cons_of_mem _ member)
      obtain ⟨digit, inside, same⟩ := List.mem_iff_getElem.mp (known char List.mem_cons_self)
      refine ⟨digit :: digits, List.forall_mem_cons.mpr ⟨inside, small⟩, ?_⟩
      rw [List.map_cons, List.getD_eq_getElem?_getD, List.getElem?_eq_getElem inside,
        Option.getD_some, same]

end Positional
