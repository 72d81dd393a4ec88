import VaultSeed.Baseconv.Base43
import VaultSeed.Foundation.Effect

/-! # Base 43 and base 58 in Python

The reference of `baseconv.py`: the number of the data is taken apart by division, and the
zeros in front of the data are counted and written as zeros.
-/

namespace VaultSeed.Baseconv

open Python Effect Positional

/-- `B58CHARS`. -/
def b58Chars : Text := "123456789ABCDEFGHJKLMNPQRSTUVWXYZabcdefghijkmnopqrstuvwxyz".toList

/-- The bases of the pure Python encoder. -/
inductive Base where
  | base43
  | base58
  deriving DecidableEq, Repr

namespace Base

def radix : Base → Nat
  | base43 => 43
  | base58 => 58

/-- `chars`. -/
def chars : Base → Text
  | base43 => b43Chars
  | base58 => b58Chars

/-- `chars[digit]`. -/
def char (base : Base) (digit : Nat) : Char := base.chars.getD digit '0'

/-- There is more than one digit. -/
theorem one_lt_radix (base : Base) : 1 < base.radix := by
  cases base <;> decide

end Base

/-- One turn of the loop over `reversed(v)`: the number so far and the next power. -/
def accumulate (radix : Nat) (sofar : Nat × Nat) (digit : Nat) : Nat × Nat :=
  (sofar.1 + digit * sofar.2, sofar.2 * radix)

/-- `while long_value >= radix`, and the last digit: the digits of a number, the lowest
first. -/
def divideOut (radix : Nat) (large : 1 < radix) (longValue : Nat) : List Nat :=
  if radix ≤ longValue then longValue % radix :: divideOut radix large (longValue / radix)
  else if 0 < longValue then [longValue]
  else []
termination_by longValue
decreasing_by exact Nat.div_lt_self (by omega) large

/-- `n_pad`. -/
def nPad {α : Type} [BEq α] (zero : α) (items : List α) : Nat :=
  (items.takeWhile (· == zero)).length

/-- `chars.find(char)`. -/
def findDigit (base : Base) (char : Char) : Except Exn Nat :=
  match base.chars.idxOf? char with
  | some digit => .ok digit
  | none => .error (.valueError
      ("forbidden character " ++ toString char ++ " for base " ++ toString base.radix))

/-- `pure_python_base_decode`. -/
def purePythonBaseDecode (v : Text) (base : Base) : Except Exn Bytes := do
  let digits ← v.reverse.mapM (findDigit base)
  let (longValue, _) := digits.foldl (accumulate base.radix) (0, 1)
  let result := divideOut 256 (by decide) longValue ++ List.replicate (nPad (base.char 0) v) 0
  pure (result.reverse.map UInt8.ofNat)

/-- `pure_python_base_encode`. -/
def purePythonBaseEncode (v : Bytes) (base : Base) : Text :=
  let (longValue, _) := v.reverse.foldl (fun sofar byte => accumulate 256 sofar byte.toNat) (0, 1)
  let result := (divideOut base.radix base.one_lt_radix longValue).map base.char ++
    List.replicate (nPad 0 v) (base.char 0)
  result.reverse

section Loops

private theorem divideOut_eq {radix : Nat} (large : 1 < radix) (longValue : Nat) :
    divideOut radix large longValue = Nat.digits radix longValue := by
  fun_induction divideOut radix large longValue with
  | case1 longValue more ih =>
      rw [ih]
      exact (Nat.digits_def' large (by omega)).symm
  | case2 longValue less positive => rw [Nat.digits_of_lt _ _ positive.ne' (by omega)]
  | case3 longValue less zero =>
      have none : longValue = 0 := by omega
      rw [none, Nat.digits_zero]

/-- The loop over the digits from the last one computes the number they stand for. -/
theorem foldl_accumulate (radix : Nat) (digits : List Nat) (sofar : Nat × Nat) :
    (digits.foldl (accumulate radix) sofar).1 = sofar.1 + sofar.2 * Nat.ofDigits radix digits := by
  induction digits generalizing sofar with
  | nil => simp
  | cons digit digits ih =>
      rw [List.foldl_cons, ih, accumulate, Nat.ofDigits_cons]
      ring

private theorem longValue_eq (radix : Nat) (digits : List Nat) :
    (digits.reverse.foldl (accumulate radix) (0, 1)).1 = value radix digits := by
  rw [foldl_accumulate, Nat.zero_add, Nat.one_mul, value]

private theorem longValue_bytes (v : Bytes) :
    (v.reverse.foldl (fun sofar byte => accumulate 256 sofar byte.toNat) (0, 1)).1 =
      byteValue v := by
  rw [byteValue, ← longValue_eq, ← List.map_reverse, List.foldl_map]

end Loops

/-- **What the reference writes**: a zero for each zero in front, and the digits of the number. -/
theorem purePythonBaseEncode_eq (v : Bytes) (base : Base) : purePythonBaseEncode v base =
    List.replicate (nPad 0 v) (base.char 0) ++
      (numeral base.radix (byteValue v)).map base.char := by
  unfold purePythonBaseEncode
  simp only [longValue_bytes, divideOut_eq, List.reverse_append, List.reverse_replicate,
    ← List.map_reverse]
  rfl

section Alphabet

variable {base : Base} {digits : List Nat}

private theorem findDigit_char {digit : Nat} (small : digit < base.radix) :
    findDigit base (base.char digit) = .ok digit := by
  cases base with
  | base43 =>
      change digit < 43 at small
      interval_cases digit <;> rfl
  | base58 =>
      change digit < 58 at small
      interval_cases digit <;> rfl

private theorem char_eq_zero_iff {digit : Nat} (small : digit < base.radix) :
    (base.char digit == base.char 0) = (digit == 0) := by
  by_cases zero : digit = 0
  · rw [zero]
    simp
  · have differ : base.char digit ≠ base.char 0 := by
      intro same
      have found := findDigit_char small
      rw [same, findDigit_char (Nat.zero_lt_of_lt small)] at found
      cases found
      exact zero rfl
    simp [zero, differ]

private theorem nPad_map_char (small : ∀ digit ∈ digits, digit < base.radix) :
    nPad (base.char 0) (digits.map base.char) = zeros digits := by
  induction digits with
  | nil => rfl
  | cons digit digits ih =>
      have first := char_eq_zero_iff (small digit List.mem_cons_self)
      have rest := ih fun other member => small other (List.mem_cons_of_mem _ member)
      simp only [nPad, zeros, List.map_cons, List.takeWhile_cons, first] at rest ⊢
      split
      · rw [List.length_cons, List.length_cons, rest]
      · rfl

end Alphabet

/-- **What the reference reads**: a zero for each zero in front, and the bytes of the number. -/
theorem purePythonBaseDecode_map {base : Base} {digits : List Nat}
    (small : ∀ digit ∈ digits, digit < base.radix) :
    purePythonBaseDecode (digits.map base.char) base = .ok (List.replicate (zeros digits) 0 ++
      (numeral 256 (value base.radix digits)).map UInt8.ofNat) := by
  have found : (digits.map base.char).reverse.mapM (findDigit base) = .ok digits.reverse := by
    rw [← List.map_reverse, List.mapM_map]
    refine (mapM_ok fun digit member => ?_).trans (congrArg Except.ok (List.map_id _))
    exact findDigit_char (small digit (List.mem_reverse.mp member))
  unfold purePythonBaseDecode
  rw [found, ok_bind]
  simp only [longValue_eq, divideOut_eq, nPad_map_char small, List.reverse_append,
    List.reverse_replicate, List.map_append, List.map_replicate]
  rfl

end VaultSeed.Baseconv
