import VaultSeed.Foundation.Bytes
import Mathlib.Tactic.IntervalCases

/-! # Reading numbers

`int(text)` and `int(text, base)` as the firmware's interpreter reads them: blanks around
the numeral, a sign, the prefix of a base, underscores between the digits, and a second
reading without underscores for numbers beyond the small integers. Decimal numerals and
two digits of base 36 are read back as the numbers they were written for.
-/

namespace Python

/-- `unichar_isspace`. -/
def isBlank (char : Char) : Bool :=
  decide (9 ≤ char.toNat ∧ char.toNat ≤ 13 ∨ char.toNat = ' '.toNat)

/-- The value of a digit in any base up to 36. -/
def digitValue (char : Char) : Option Nat :=
  if '0'.toNat ≤ char.toNat ∧ char.toNat ≤ '9'.toNat then some (char.toNat - '0'.toNat)
  else if 'a'.toNat ≤ char.toNat ∧ char.toNat ≤ 'z'.toNat then some (char.toNat - 'a'.toNat + 10)
  else if 'A'.toNat ≤ char.toNat ∧ char.toNat ≤ 'Z'.toNat then some (char.toNat - 'A'.toNat + 10)
  else none

/-- Read digits of a base, and underscores where they are allowed: the number and the rest
of the text. -/
def readDigits (underscores : Bool) (base : Nat) : Nat → Text → Nat × Text
  | value, [] => (value, [])
  | value, char :: rest =>
      if underscores ∧ char = '_' then readDigits underscores base value rest
      else
        match digitValue char with
        | some digit =>
            if digit < base then readDigits underscores base (value * base + digit) rest
            else (value, char :: rest)
        | none => (value, char :: rest)

/-- The sign of a numeral. -/
def splitSign : Text → Bool × Text
  | '+' :: rest => (false, rest)
  | '-' :: rest => (true, rest)
  | text => (false, text)

/-- `mp_parse_num_base`: the base a prefix stands for, and the text after it. -/
def splitBase (base : Nat) (text : Text) : Nat × Text :=
  match text with
  | '0' :: marker :: rest =>
      if (base = 0 ∨ base = 16) ∧ (marker = 'x' ∨ marker = 'X') then (16, rest)
      else if (base = 0 ∨ base = 8) ∧ (marker = 'o' ∨ marker = 'O') then (8, rest)
      else if (base = 0 ∨ base = 2) ∧ (marker = 'b' ∨ marker = 'B') then (2, rest)
      else (if base = 0 then 10 else base, text)
  | _ => (if base = 0 then 10 else base, text)

/-- `mp_parse_num_integer`: `int(text)` reads with base 0. -/
def int (base : Nat) (text : Text) : Option Int :=
  let (negative, text) := splitSign (text.dropWhile isBlank)
  let (base, text) := splitBase base text
  let small := readDigits true base 0 text
  let (value, rest) := if 2 ^ 62 ≤ small.1 then readDigits false base 0 text else small
  if rest = text ∨ rest.dropWhile isBlank ≠ [] then none
  else some (if negative then -(value : Int) else value)

private theorem digitValue_of_isDigit {char : Char} (digit : char.isDigit = true) :
    digitValue char = some (char.toNat - '0'.toNat) ∧ char.toNat - '0'.toNat < 10 := by
  have range := Char.isDigit_iff_toNat.mp digit
  refine ⟨if_pos range, ?_⟩
  simp only [Char.reduceToNat] at range ⊢
  omega

/-- A digit is not blank. -/
theorem isBlank_of_digitValue {char : Char} {digit : Nat} (valued : digitValue char = some digit) :
    isBlank char = false := by
  unfold digitValue at valued
  simp only [isBlank, decide_eq_false_iff_not, Char.reduceToNat] at valued ⊢
  split_ifs at valued <;> omega

/-- Digits are read to the end. -/
theorem readDigits_of_digits (underscores : Bool) {base : Nat} {digits : Text}
    (known : ∀ char ∈ digits, ∃ digit < base, digitValue char = some digit)
    (plain : '_' ∉ digits) (value : Nat) :
    readDigits underscores base value digits =
      (digits.foldl (fun sofar char => sofar * base + (digitValue char).getD 0) value, []) := by
  induction digits generalizing value with
  | nil => rfl
  | cons char rest ih =>
      obtain ⟨digit, small, valued⟩ := known char List.mem_cons_self
      have different : char ≠ '_' := fun same => plain (same ▸ List.mem_cons_self)
      rw [readDigits, if_neg (by simp [different]), valued]
      simp only [small, ↓reduceIte, List.foldl_cons, valued, Option.getD_some]
      exact ih (fun other member => known other (List.mem_cons_of_mem _ member))
        (fun member => plain (List.mem_cons_of_mem _ member)) _

/-- A numeral of digits alone, without sign and prefix, is read as its number. -/
theorem int_of_digits {base : Nat} {digits : Text} (nonempty : digits ≠ [])
    (known : ∀ char ∈ digits, ∃ digit < (if base = 0 then 10 else base),
      digitValue char = some digit)
    (unprefixed : splitBase base digits = (if base = 0 then 10 else base, digits)) :
    int base digits = some ((digits.foldl (fun sofar char =>
      sofar * (if base = 0 then 10 else base) + (digitValue char).getD 0) 0 : Nat) : Int) := by
  have excluded : ∀ char, digitValue char = none → char ∉ digits := by
    intro char absent member
    obtain ⟨digit, _, valued⟩ := known char member
    rw [absent] at valued
    cases valued
  have unspaced : digits.dropWhile isBlank = digits := by
    cases digits with
    | nil => rfl
    | cons char rest =>
        obtain ⟨digit, _, valued⟩ := known char List.mem_cons_self
        simp [isBlank_of_digitValue valued]
  have unsigned : splitSign digits = (false, digits) := by
    unfold splitSign
    split
    · exact absurd List.mem_cons_self (excluded '+' rfl)
    · exact absurd List.mem_cons_self (excluded '-' rfl)
    · rfl
  have plain : '_' ∉ digits := excluded '_' rfl
  have read : ∀ underscores, readDigits underscores (if base = 0 then 10 else base) 0 digits =
      (digits.foldl (fun sofar char => sofar * (if base = 0 then 10 else base) +
        (digitValue char).getD 0) 0, []) := fun underscores =>
    readDigits_of_digits underscores known plain 0
  unfold int
  simp only [unspaced, unsigned, unprefixed, read]
  simp [nonempty.symm]

/-- `"%d" % value`. -/
def decimal (value : Nat) : Text := Nat.toDigits 10 value

/-- A decimal has digits only. -/
theorem decimal_isDigit {value : Nat} {char : Char} (member : char ∈ decimal value) :
    char.isDigit = true :=
  Nat.isDigit_of_mem_toDigits (by decide) (by decide) member

/-- A decimal is not empty. -/
theorem decimal_ne_nil (value : Nat) : decimal value ≠ [] := Nat.toDigits_ne_nil

/-- Decimal digits are no prefix of another base. -/
theorem splitBase_of_isDigit {digits : Text} (known : ∀ char ∈ digits, char.isDigit = true) :
    splitBase 0 digits = (10, digits) := by
  have other : ∀ char, char.isDigit = false → char ∉ digits := by
    intro char letter member
    rw [known char member] at letter
    cases letter
  unfold splitBase
  split
  · rename_i marker rest
    have differs : ∀ char, char.isDigit = false → marker ≠ char := by
      intro char letter same
      apply other char letter
      simp [same]
    rw [if_neg (by simp [differs]), if_neg (by simp [differs]), if_neg (by simp [differs])]
    rfl
  · rfl

/-- Decimal digits are read as their number, zeros in front included. -/
theorem int_of_isDigit {digits : Text} (nonempty : digits ≠ [])
    (known : ∀ char ∈ digits, char.isDigit = true) :
    int 0 digits = some (Nat.ofDigitChars 10 digits 0 : Int) := by
  have valued : ∀ char ∈ digits, ∃ digit < 10, digitValue char = some digit :=
    fun char member => ⟨_, (digitValue_of_isDigit (known char member)).2,
      (digitValue_of_isDigit (known char member)).1⟩
  have number : digits.foldl (fun sofar char => sofar * 10 + (digitValue char).getD 0) 0 =
      Nat.ofDigitChars 10 digits 0 := by
    apply List.foldl_ext
    intro sofar char member
    rw [(digitValue_of_isDigit (known char member)).1, Option.getD_some, Nat.mul_comm]
  have read := @int_of_digits 0 digits nonempty valued (splitBase_of_isDigit known)
  rw [read]
  exact congrArg (fun number : Nat => some (number : Int)) number

/-- A number is read back from its numeral. -/
theorem int_decimal (value : Nat) : int 0 (decimal value) = some (value : Int) := by
  rw [int_of_isDigit (decimal_ne_nil value) fun char => decimal_isDigit, decimal,
    Nat.ofDigitChars_ten_toDigits]

/-- `"{:03d}".format(value)`: at least three digits, zeros on the left. -/
def format03d (value : Nat) : Text :=
  List.replicate (3 - (decimal value).length) '0' ++ decimal value

/-- `"{:03d}".format(value)` for any integer: the zeros come after the sign. -/
def signed03d : Int → Text
  | .ofNat value => format03d value
  | .negSucc less =>
      '-' :: List.replicate (2 - (decimal (less + 1)).length) '0' ++ decimal (less + 1)

/-- A formatted number is not empty. -/
theorem format03d_ne_nil (value : Nat) : format03d value ≠ [] :=
  List.append_ne_nil_of_right_ne_nil _ (decimal_ne_nil value)

/-- A formatted number has digits only. -/
theorem format03d_isDigit (value : Nat) : (format03d value).all Char.isDigit := by
  rw [List.all_eq_true]
  intro char member
  rcases List.mem_append.mp member with padding | digit
  · rw [List.eq_of_mem_replicate padding]
    rfl
  · exact decimal_isDigit digit

/-- A number is read back from its numeral with zeros in front. -/
@[simp] theorem int_format03d (value : Nat) : int 0 (format03d value) = some (value : Int) := by
  rw [int_of_isDigit (format03d_ne_nil value) (List.all_eq_true.mp (format03d_isDigit value)),
    format03d, Nat.ofDigitChars_append, Nat.ofDigitChars_replicate_zero, Nat.mul_zero, decimal,
    Nat.ofDigitChars_ten_toDigits]

/-- Distinct numbers have distinct numerals. -/
theorem format03d_injective : Function.Injective format03d := by
  intro first second same
  have parsed := int_format03d first
  rw [same, int_format03d] at parsed
  exact (Int.ofNat_inj.mp (Option.some.inj parsed)).symm

end Python
