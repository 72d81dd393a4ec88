import VaultSeed.Foundation.Positional
import VaultSeed.Foundation.Text

/-! # Base 43 on the device

`base43.c`: a number is an array of bytes, the highest first, which is multiplied by 43 and
divided by 43 in place. Encoding divides until the number is zero, decoding multiplies one
character after the other. Both work on the number the data stand for, so the zeros in front
of it are not seen (`base43Encode_eq`, `base43Decode_map`).
-/

namespace VaultSeed.Baseconv

open Python Positional

/-- `B43CHARS`. -/
def b43Chars : Text := "0123456789ABCDEFGHIJKLMNOPQRSTUVWXYZ$*+-./:".toList

/-- `B43CHARS[digit]`. -/
def b43Char (digit : Nat) : Char := b43Chars.getD digit '0'

/-- `base43_index[byte]`; nothing for -1. -/
def base43Index (byte : UInt8) : Option UInt8 :=
  (b43Chars.idxOf? (Char.ofNat byte.toNat)).map UInt8.ofNat

/-- `BigInt`. There is at least one digit. -/
structure BigInt where
  digits : Bytes
  nonempty : digits ≠ []

/-- `bigint_from_bytes`. -/
def bigintFromBytes (bytes : Bytes) : BigInt :=
  if empty : bytes = [] then ⟨[0], by simp⟩ else ⟨bytes, empty⟩

/-- The loop of `bigint_multiply_add`, from the last digit to the first. -/
def multiplyAddLoop (multiplier : UInt8) : Bytes → UInt32 → Bytes × UInt32
  | [], carry => ([], carry)
  | digit :: digits, carry =>
      let below := multiplyAddLoop multiplier digits carry
      let carry := below.2 + digit.toUInt32 * multiplier.toUInt32
      ((carry &&& 0xFF).toUInt8 :: below.1, carry >>> 8)

private theorem multiplyAddLoop_length (multiplier : UInt8) (digits : Bytes) (carry : UInt32) :
    (multiplyAddLoop multiplier digits carry).1.length = digits.length := by
  induction digits with
  | nil => rfl
  | cons digit digits ih => simp [multiplyAddLoop, ih]

private theorem ne_nil_of_length_eq {first second : Bytes} (same : first.length = second.length)
    (nonempty : second ≠ []) : first ≠ [] := by
  rw [← List.length_pos_iff] at nonempty ⊢
  omega

/-- `bigint_multiply_add`. A carry that is left becomes a new first digit. -/
def bigintMultiplyAdd (num : BigInt) (multiplier addend : UInt8) : BigInt :=
  let product := multiplyAddLoop multiplier num.digits addend.toUInt32
  if product.2 ≠ 0 then ⟨product.2.toUInt8 :: product.1, by simp⟩
  else ⟨product.1, ne_nil_of_length_eq (multiplyAddLoop_length _ _ _) num.nonempty⟩

/-- `bigint_is_zero`. -/
def bigintIsZero (num : BigInt) : Bool := num.digits.all (· == 0)

/-- The loop of `bigint_divide_by_43`, from the first digit to the last. -/
def divideLoop : UInt32 → Bytes → Bytes × UInt32
  | remainder, [] => ([], remainder)
  | remainder, digit :: digits =>
      let temp := (remainder <<< 8) ||| digit.toUInt32
      let below := divideLoop (temp % 43) digits
      ((temp / 43).toUInt8 :: below.1, below.2)

private theorem divideLoop_length (remainder : UInt32) (digits : Bytes) :
    (divideLoop remainder digits).1.length = digits.length := by
  induction digits generalizing remainder with
  | nil => rfl
  | cons digit digits ih => simp [divideLoop, ih]

/-- Zeros in front are removed, but not the last digit. -/
def stripZeros : Bytes → Bytes
  | [] => []
  | [digit] => [digit]
  | digit :: next :: digits =>
      if digit = 0 then stripZeros (next :: digits) else digit :: next :: digits

private theorem stripZeros_ne_nil {digits : Bytes} (nonempty : digits ≠ []) :
    stripZeros digits ≠ [] := by
  fun_induction stripZeros digits with
  | case1 => exact absurd rfl nonempty
  | case2 digit => simp
  | case3 next digits ih => exact ih (by simp)
  | case4 digit next digits => simp

/-- `bigint_divide_by_43`: the remainder, and the number that is left. -/
def bigintDivideBy43 (num : BigInt) : UInt8 × BigInt :=
  let quotient := divideLoop 0 num.digits
  (quotient.2.toUInt8, ⟨stripZeros quotient.1,
    stripZeros_ne_nil (ne_nil_of_length_eq (divideLoop_length _ _) num.nonempty)⟩)

/-- The loop of `base43_encode`: the characters in the order in which they are written, into
the room that is left in the buffer. -/
def digitLoop : Nat → BigInt → Except Exn Text
  | 0, num => if bigintIsZero num then .ok [] else .error (.valueError "Output buffer overflow")
  | room + 1, num =>
      if bigintIsZero num then .ok []
      else (digitLoop room (bigintDivideBy43 num).2).map
        (b43Char (bigintDivideBy43 num).1.toNat :: ·)

/-- `max_out_len`. -/
def maxOutLen (dataLen : Nat) (addPadding : Bool) : Nat :=
  if addPadding then (dataLen + dataLen / 2 + 2 + 3) / 4 * 4 else dataLen + dataLen / 2 + 2

/-- The characters of `base43_encode` before the padding. -/
def encodedChars (data : Bytes) (room : Nat) : Except Exn Text :=
  if data.all (· == 0) then .ok [b43Char 0]
  else (digitLoop room (bigintFromBytes data)).map List.reverse

/-- `base43.encode(data, add_padding)`. -/
def base43Encode (data : Bytes) (addPadding : Bool) : Except Exn Text :=
  if data = [] then .ok []
  else do
    let output ← encodedChars data (maxOutLen data.length addPadding)
    let targetLen := (output.length + 3) / 4 * 4
    if addPadding then
      if maxOutLen data.length addPadding < targetLen then
        throw (.valueError "Padding overflow")
      pure (output ++ List.replicate (targetLen - output.length) '=')
    else pure output

/-- One turn of the loop of `base43_decode`. -/
def decodeStep (num : BigInt) (byte : UInt8) : Except Exn BigInt :=
  match base43Index byte with
  | some val => .ok (bigintMultiplyAdd num 43 val)
  | none => .error (.valueError "Invalid Base43 character")

/-- `base43.decode(encoded_str)`. -/
def base43Decode (encodedStr : Text) : Except Exn Bytes :=
  let encoded := (encode encodedStr).rdropWhile (· == 0x3D)
  if encoded = [] then .ok []
  else if encoded = [0x30] then .ok [0]
  else do
    let num ← encoded.foldlM decodeStep (bigintFromBytes [])
    pure (stripZeros num.digits)

/-- The number that bytes stand for. -/
def byteValue (bytes : Bytes) : Nat := value 256 (bytes.map UInt8.toNat)

section Arithmetic

private theorem byteValue_cons (digit : UInt8) (digits : Bytes) :
    byteValue (digit :: digits) = digit.toNat * 256 ^ digits.length + byteValue digits := by
  rw [byteValue, List.map_cons, value_cons, List.length_map, byteValue]

/-- Bytes are digits of base 256. -/
theorem map_toNat_lt (bytes : Bytes) : ∀ digit ∈ bytes.map UInt8.toNat, digit < 256 := by
  intro digit member
  obtain ⟨byte, _, rfl⟩ := List.mem_map.mp member
  exact byte.toNat_lt

/-- Bytes are a number below a power of 256. -/
theorem byteValue_lt (bytes : Bytes) : byteValue bytes < 256 ^ bytes.length := by
  have bounded := value_lt (by decide) (map_toNat_lt bytes)
  rwa [List.length_map] at bounded

/-- Only zeros stand for zero. -/
theorem byteValue_eq_zero {bytes : Bytes} : byteValue bytes = 0 ↔ bytes.all (· == 0) = true := by
  rw [byteValue, value_eq_zero (by decide), List.all_eq_true, List.forall_mem_map]
  have same : ∀ byte : UInt8, byte.toNat = 0 ↔ (byte == 0) = true := by
    intro byte
    rw [beq_iff_eq, ← UInt8.toNat_inj]
    rfl
  simp only [same]

/-- The low byte of a word, and the rest of it. -/
theorem toNat_low (word : UInt32) : (word &&& 0xFF).toUInt8.toNat = word.toNat % 256 := by
  rw [UInt32.toNat_toUInt8, UInt32.toNat_and]
  change (word.toNat &&& (2 ^ 8 - 1)) % 2 ^ 8 = word.toNat % 2 ^ 8
  rw [Nat.and_two_pow_sub_one_eq_mod, Nat.mod_mod]

private theorem toNat_high (word : UInt32) : (word >>> 8).toNat = word.toNat / 256 := by
  rw [UInt32.toNat_shiftRight, Nat.shiftRight_eq_div_pow]
  rfl

/-- **What the loop of a product computes**: the product and the addend, of which the carry is
what does not fit. -/
theorem multiplyAddLoop_spec (multiplier : UInt8) (digits : Bytes) {carry : UInt32}
    (small : carry.toNat < 256) :
    (multiplyAddLoop multiplier digits carry).2.toNat < 256 ∧
      (multiplyAddLoop multiplier digits carry).2.toNat * 256 ^ digits.length +
        byteValue (multiplyAddLoop multiplier digits carry).1 =
      byteValue digits * multiplier.toNat + carry.toNat := by
  induction digits with
  | nil => exact ⟨small, by simp [multiplyAddLoop, byteValue]⟩
  | cons digit digits ih =>
      obtain ⟨below, number⟩ := ih
      have length := multiplyAddLoop_length multiplier digits carry
      rw [multiplyAddLoop]
      generalize multiplyAddLoop multiplier digits carry = product at below number length ⊢
      have product_le : digit.toNat * multiplier.toNat ≤ 255 * 255 :=
        Nat.mul_le_mul (Nat.le_of_lt_succ digit.toNat_lt) (Nat.le_of_lt_succ multiplier.toNat_lt)
      have word : (product.2 + digit.toUInt32 * multiplier.toUInt32).toNat =
          product.2.toNat + digit.toNat * multiplier.toNat := by
        rw [UInt32.toNat_add, UInt32.toNat_mul, UInt8.toNat_toUInt32, UInt8.toNat_toUInt32]
        omega
      refine ⟨?_, ?_⟩
      · rw [toNat_high, word]
        omega
      · simp only [byteValue_cons, toNat_high, toNat_low, word, length, List.length_cons, pow_succ]
        generalize total : product.2.toNat + digit.toNat * multiplier.toNat = sum
        generalize 256 ^ digits.length = power at number ⊢
        calc sum / 256 * (power * 256) + (sum % 256 * power + byteValue product.1)
            = (256 * (sum / 256) + sum % 256) * power + byteValue product.1 := by ring
          _ = sum * power + byteValue product.1 := by rw [Nat.div_add_mod]
          _ = digit.toNat * multiplier.toNat * power +
                (product.2.toNat * power + byteValue product.1) := by rw [← total]; ring
          _ = (digit.toNat * power + byteValue digits) * multiplier.toNat + carry.toNat := by
                rw [number]
                ring

/-- A number is multiplied, and the addend is added. -/
theorem byteValue_bigintMultiplyAdd (num : BigInt) (multiplier addend : UInt8) :
    byteValue (bigintMultiplyAdd num multiplier addend).digits =
      byteValue num.digits * multiplier.toNat + addend.toNat := by
  have start : addend.toUInt32.toNat < 256 := by
    rw [UInt8.toNat_toUInt32]
    exact addend.toNat_lt
  obtain ⟨small, number⟩ := multiplyAddLoop_spec multiplier num.digits start
  have length := multiplyAddLoop_length multiplier num.digits addend.toUInt32
  have grown : (bigintMultiplyAdd num multiplier addend).digits =
      if (multiplyAddLoop multiplier num.digits addend.toUInt32).2 ≠ 0 then
        (multiplyAddLoop multiplier num.digits addend.toUInt32).2.toUInt8 ::
          (multiplyAddLoop multiplier num.digits addend.toUInt32).1
      else (multiplyAddLoop multiplier num.digits addend.toUInt32).1 := by
    exact apply_ite BigInt.digits _ _ _
  rw [UInt8.toNat_toUInt32] at number
  rw [grown]
  generalize multiplyAddLoop multiplier num.digits addend.toUInt32 = product
    at small number length ⊢
  by_cases none : product.2 = 0
  · rw [none] at number
    rw [if_neg (not_not.mpr none), ← number]
    simp
  · have carry : product.2.toUInt8.toNat = product.2.toNat := by
      rw [UInt32.toNat_toUInt8]
      exact Nat.mod_eq_of_lt small
    rw [if_pos none, ← number, byteValue_cons, carry, length]

/-- **What the loop of a division computes**: the quotient and the remainder. -/
theorem divideLoop_spec (digits : Bytes) {remainder : UInt32} (small : remainder.toNat < 43) :
    (divideLoop remainder digits).2.toNat < 43 ∧
      byteValue (divideLoop remainder digits).1 * 43 + (divideLoop remainder digits).2.toNat =
        remainder.toNat * 256 ^ digits.length + byteValue digits := by
  induction digits generalizing remainder with
  | nil => exact ⟨small, by simp [divideLoop, byteValue]⟩
  | cons digit digits ih =>
      have digitSmall := digit.toNat_lt
      have temp : ((remainder <<< 8) ||| digit.toUInt32).toNat =
          remainder.toNat * 256 + digit.toNat := by
        rw [UInt32.toNat_or, UInt32.toNat_shiftLeft, UInt8.toNat_toUInt32]
        change (remainder.toNat <<< 8 % 2 ^ 32) ||| digit.toNat = _
        rw [Nat.shiftLeft_eq, Nat.mod_eq_of_lt (by omega), ← Nat.shiftLeft_eq,
          ← Nat.shiftLeft_add_eq_or_of_lt digitSmall, Nat.shiftLeft_eq]
      rw [divideLoop]
      generalize (remainder <<< 8) ||| digit.toUInt32 = word at temp ⊢
      have rest : (word % 43).toNat = word.toNat % 43 := UInt32.toNat_mod _ _
      have quotient : (word / 43).toUInt8.toNat = word.toNat / 43 := by
        rw [UInt32.toNat_toUInt8, UInt32.toNat_div]
        change word.toNat / 43 % 256 = word.toNat / 43
        omega
      obtain ⟨below, number⟩ := @ih (word % 43) (by omega)
      refine ⟨below, ?_⟩
      simp only [byteValue_cons, quotient, divideLoop_length, List.length_cons, pow_succ]
      generalize 256 ^ digits.length = power at number ⊢
      rw [rest] at number
      calc (word.toNat / 43 * power + byteValue (divideLoop (word % 43) digits).1) * 43 +
            (divideLoop (word % 43) digits).2.toNat
          = word.toNat / 43 * power * 43 + (byteValue (divideLoop (word % 43) digits).1 * 43 +
              (divideLoop (word % 43) digits).2.toNat) := by ring
        _ = (43 * (word.toNat / 43) + word.toNat % 43) * power + byteValue digits := by
              rw [number]
              ring
        _ = remainder.toNat * (power * 256) + (digit.toNat * power + byteValue digits) := by
              rw [Nat.div_add_mod, temp]
              ring

@[simp] theorem byteValue_stripZeros (digits : Bytes) :
    byteValue (stripZeros digits) = byteValue digits := by
  fun_induction stripZeros digits with
  | case1 => rfl
  | case2 digit => rfl
  | case3 next digits ih => rw [ih, byteValue_cons 0, UInt8.toNat_zero, Nat.zero_mul, Nat.zero_add]
  | case4 digit next digits => rfl

/-- A number is divided by 43, and the remainder is returned. -/
theorem bigintDivideBy43_spec (num : BigInt) :
    (bigintDivideBy43 num).1.toNat = byteValue num.digits % 43 ∧
      byteValue (bigintDivideBy43 num).2.digits = byteValue num.digits / 43 := by
  obtain ⟨small, number⟩ := @divideLoop_spec num.digits 0 (by decide)
  have returned : (divideLoop 0 num.digits).2.toUInt8.toNat =
      (divideLoop 0 num.digits).2.toNat := by
    rw [UInt32.toNat_toUInt8]
    omega
  have zero : (0 : UInt32).toNat = 0 := rfl
  rw [zero, Nat.zero_mul, Nat.zero_add] at number
  unfold bigintDivideBy43
  simp only [returned, byteValue_stripZeros]
  omega

/-- `bigint_is_zero` finds out whether the number is zero. -/
theorem bigintIsZero_iff (num : BigInt) : bigintIsZero num = true ↔ byteValue num.digits = 0 :=
  byteValue_eq_zero.symm

end Arithmetic

section Alphabet

private theorem base43Index_b43Char {digit : Nat} (small : digit < 43) :
    base43Index (UInt8.ofNat (b43Char digit).toNat) = some (UInt8.ofNat digit) := by
  interval_cases digit <;> rfl

private theorem utf8EncodeChar_b43Char {digit : Nat} (small : digit < 43) :
    String.utf8EncodeChar (b43Char digit) = [UInt8.ofNat (b43Char digit).toNat] := by
  interval_cases digit <;> rfl

/-- A digit is known by its character. -/
theorem b43Char_injective {first second : Nat} (firstSmall : first < 43) (secondSmall : second < 43)
    (same : b43Char first = b43Char second) : first = second := by
  have index := base43Index_b43Char firstSmall
  rw [same, base43Index_b43Char secondSmall] at index
  have numbers := congrArg UInt8.toNat (Option.some.inj index)
  rw [toNat_utf8Byte (by omega), toNat_utf8Byte (by omega)] at numbers
  exact numbers.symm

private theorem encode_map_b43Char {digits : List Nat} (small : ∀ digit ∈ digits, digit < 43) :
    encode (digits.map b43Char) = digits.map fun digit => UInt8.ofNat (b43Char digit).toNat := by
  induction digits with
  | nil => rfl
  | cons digit digits ih =>
      have rest := ih fun other member => small other (List.mem_cons_of_mem _ member)
      rw [encode] at rest ⊢
      rw [List.map_cons, List.flatMap_cons, rest,
        utf8EncodeChar_b43Char (small digit List.mem_cons_self)]
      rfl

end Alphabet

section Codec

/-- The characters are the digits of the number, the lowest first, when there is room for
them. -/
theorem digitLoop_eq {room : Nat} {num : BigInt} (fits : byteValue num.digits < 43 ^ room) :
    digitLoop room num = .ok ((numeral 43 (byteValue num.digits)).reverse.map b43Char) := by
  induction room generalizing num with
  | zero =>
      have zero : byteValue num.digits = 0 := by omega
      rw [digitLoop, if_pos ((bigintIsZero_iff num).mpr zero), zero]
      rfl
  | succ room ih =>
      by_cases zero : byteValue num.digits = 0
      · rw [digitLoop, if_pos ((bigintIsZero_iff num).mpr zero), zero]
        rfl
      · obtain ⟨remainder, quotient⟩ := bigintDivideBy43_spec num
        have less : byteValue (bigintDivideBy43 num).2.digits < 43 ^ room := by
          rw [quotient]
          apply Nat.div_lt_of_lt_mul
          rwa [← Nat.pow_succ']
        rw [digitLoop, if_neg (mt (bigintIsZero_iff num).mp zero), ih less, remainder, quotient,
          numeral_of_pos (by decide) (Nat.pos_of_ne_zero zero), List.reverse_append]
        rfl

/-- The buffer has room to spare: three characters hold more than two bytes. -/
theorem pow_lt_pow_chars (length : Nat) : 256 ^ length < 43 ^ (length + length / 2 + 2) := by
  induction length using Nat.twoStepInduction with
  | zero => decide
  | one => decide
  | more length ih _ =>
      have longer : length + 2 + (length + 2) / 2 + 2 = length + length / 2 + 2 + 3 := by omega
      rw [longer, pow_add, pow_add]
      exact Nat.mul_lt_mul_of_lt_of_le ih (by decide) (by positivity)

/-- The buffer has room for every number. -/
theorem pow_lt_pow_maxOutLen (length : Nat) (addPadding : Bool) :
    256 ^ length < 43 ^ maxOutLen length addPadding := by
  unfold maxOutLen
  split
  · exact (pow_lt_pow_chars length).trans_le (Nat.pow_le_pow_right (by decide) (by omega))
  · exact pow_lt_pow_chars length

/-- **What is written**: the digits of the number the data stand for. -/
theorem base43Encode_eq {data : Bytes} (nonzero : byteValue data ≠ 0) :
    base43Encode data false = .ok ((numeral 43 (byteValue data)).map b43Char) := by
  have nonempty : data ≠ [] := by
    rintro rfl
    exact nonzero rfl
  have number : (bigintFromBytes data).digits = data := by
    rw [bigintFromBytes, dif_neg nonempty]
  have fits : byteValue (bigintFromBytes data).digits < 43 ^ maxOutLen data.length false := by
    rw [number]
    exact (byteValue_lt data).trans (pow_lt_pow_maxOutLen _ _)
  have written := digitLoop_eq fits
  rw [number] at written
  rw [base43Encode, if_neg nonempty, encodedChars, if_neg (mt byteValue_eq_zero.mpr nonzero),
    written]
  simp [Except.map]

/-- Zeros are written as one zero. -/
theorem base43Encode_zero {data : Bytes} (nonempty : data ≠ []) (zero : byteValue data = 0) :
    base43Encode data false = .ok ['0'] := by
  rw [base43Encode, if_neg nonempty, encodedChars, if_pos (byteValue_eq_zero.mp zero)]
  rfl

private theorem foldlM_decodeStep {digits : List Nat} (small : ∀ digit ∈ digits, digit < 43)
    (num : BigInt) :
    ∃ result, (digits.map fun digit => UInt8.ofNat (b43Char digit).toNat).foldlM decodeStep num =
        .ok result ∧
      byteValue result.digits = byteValue num.digits * 43 ^ digits.length + value 43 digits := by
  induction digits generalizing num with
  | nil => exact ⟨num, rfl, by simp⟩
  | cons digit digits ih =>
      have digitSmall := small digit List.mem_cons_self
      obtain ⟨result, decoded, number⟩ := ih
        (fun other member => small other (List.mem_cons_of_mem _ member))
        (bigintMultiplyAdd num 43 (UInt8.ofNat digit))
      refine ⟨result, ?_, ?_⟩
      · rw [List.map_cons, List.foldlM_cons, decodeStep, base43Index_b43Char digitSmall]
        exact decoded
      · have multiplier : (43 : UInt8).toNat = 43 := rfl
        rw [number, byteValue_bigintMultiplyAdd, toNat_utf8Byte (by omega), multiplier, value_cons,
          List.length_cons, pow_succ]
        ring

/-- Bytes are those of the number they stand for exactly when there is no zero in front. -/
theorem map_numeral_byteValue_eq_iff (bytes : Bytes) :
    (numeral 256 (byteValue bytes)).map UInt8.ofNat = bytes ↔ bytes.head? ≠ some 0 := by
  have small := map_toNat_lt bytes
  have back : (bytes.map UInt8.toNat).map UInt8.ofNat = bytes := by
    rw [List.map_map]
    exact (List.map_congr_left fun byte _ => UInt8.ofNat_toNat).trans (List.map_id bytes)
  have forth : ((numeral 256 (byteValue bytes)).map UInt8.ofNat).map UInt8.toNat =
      numeral 256 (byteValue bytes) := by
    rw [List.map_map]
    refine (List.map_congr_left fun digit member => ?_).trans (List.map_id _)
    exact toNat_utf8Byte (numeral_lt (by decide) member)
  have numbers : (numeral 256 (byteValue bytes)).map UInt8.ofNat = bytes ↔
      numeral 256 (byteValue bytes) = bytes.map UInt8.toNat := by
    constructor
    · intro same
      rw [same] at forth
      exact forth.symm
    · intro same
      rw [same, back]
  have heads : (bytes.map UInt8.toNat).head? ≠ some 0 ↔ bytes.head? ≠ some 0 := by
    rw [List.head?_map, ne_eq, Option.map_eq_some_iff]
    apply not_congr
    constructor
    · rintro ⟨byte, first, zero⟩
      rw [first, ← UInt8.ofNat_toNat (x := byte), zero]
      rfl
    · intro first
      exact ⟨0, first, rfl⟩
  rw [numbers, byteValue, numeral_value_eq_iff (by decide) small, heads]

/-- A number without zeros in front, or a single zero. -/
theorem stripZeros_eq {bytes : Bytes} (nonempty : bytes ≠ []) :
    stripZeros bytes = if byteValue bytes = 0 then [0]
      else (numeral 256 (byteValue bytes)).map UInt8.ofNat := by
  fun_induction stripZeros bytes with
  | case1 => exact absurd rfl nonempty
  | case2 digit =>
      by_cases zero : digit = 0
      · rw [zero]
        rfl
      · have first : [digit].head? ≠ some 0 := by simpa using zero
        have nonzero : byteValue [digit] ≠ 0 := by
          rw [ne_eq, byteValue_eq_zero]
          simpa using zero
        rw [if_neg nonzero, (map_numeral_byteValue_eq_iff _).mpr first]
  | case3 next digits ih =>
      have same : byteValue (0 :: next :: digits) = byteValue (next :: digits) := by
        rw [byteValue_cons 0, UInt8.toNat_zero, Nat.zero_mul, Nat.zero_add]
      rw [ih (by simp), same]
  | case4 digit next digits zero =>
      have first : (digit :: next :: digits).head? ≠ some 0 := by simpa using zero
      have nonzero : byteValue (digit :: next :: digits) ≠ 0 := by
        rw [ne_eq, byteValue_eq_zero]
        simp [zero]
      rw [if_neg nonzero, (map_numeral_byteValue_eq_iff _).mpr first]

/-- There is no padding in a text over the alphabet. -/
theorem rdropWhile_map {digits : List Nat} (small : ∀ digit ∈ digits, digit < 43) :
    (digits.map fun digit => UInt8.ofNat (b43Char digit).toNat).rdropWhile (· == 0x3D) =
      digits.map fun digit => UInt8.ofNat (b43Char digit).toNat := by
  rw [List.rdropWhile_eq_self_iff]
  intro nonempty last
  obtain ⟨digit, inside, same⟩ := List.mem_map.mp (List.getLast_mem nonempty)
  have index := base43Index_b43Char (small digit inside)
  rw [same, beq_iff_eq.mp last] at index
  cases index

/-- **What is read**: the bytes of the number the digits stand for, at least one. -/
theorem base43Decode_map {digits : List Nat} (small : ∀ digit ∈ digits, digit < 43)
    (nonempty : digits ≠ []) :
    base43Decode (digits.map b43Char) = .ok (if value 43 digits = 0 then [0]
      else (numeral 256 (value 43 digits)).map UInt8.ofNat) := by
  obtain ⟨num, decoded, number⟩ := foldlM_decodeStep small (bigintFromBytes [])
  have start : byteValue (bigintFromBytes []).digits = 0 := rfl
  rw [start, Nat.zero_mul, Nat.zero_add] at number
  unfold base43Decode
  simp only [encode_map_b43Char small, rdropWhile_map small]
  rw [if_neg (by simpa using nonempty)]
  by_cases single : (digits.map fun digit => UInt8.ofNat (b43Char digit).toNat) = [0x30]
  · obtain ⟨digit, rfl, same⟩ := List.map_eq_singleton_iff.mp single
    have digitSmall := small digit List.mem_cons_self
    have zero : digit = 0 := by
      have index := base43Index_b43Char digitSmall
      rw [same] at index
      have number := congrArg UInt8.toNat (Option.some.inj index)
      rw [@toNat_utf8Byte digit (by omega)] at number
      exact number.symm
    subst zero
    rfl
  · rw [if_neg single, decoded, ← number, ← stripZeros_eq num.nonempty]
    rfl

end Codec

end VaultSeed.Baseconv
