import VaultSeed.Foundation.Bits
import VaultSeed.Qr.Bbqr

/-! # Base 32 on the device

`base32.c` shifts digits into a word of 32 bits and takes digits of the other width out of it,
while the memory for the result is given before. The Python code it replaced does the same with
unbounded numbers. Both regroup the bits of the data (`base32_correct_iff`); only where there
is nothing to decode the device fails, because it is given no memory for nothing.
-/

namespace VaultSeed.Baseconv

open Python Effect Digits Bits
open Qr (base32Chars base32Char)

/-- What stops the C code: an exception, or a write outside the memory it was given. -/
inductive Fault where
  | raised (exn : Exn)
  | outside
  deriving DecidableEq

/-- The variables `buffer` and `bits_left`. -/
structure Shift where
  buffer : UInt32
  bitsLeft : Nat

section Loops

variable {α : Type} (source target : Nat) (emit : UInt32 → α) (size : Nat)

/-- `buf[len++] = item`, into memory of a size. -/
def store (written : List α) (item : α) : Except Fault (List α) :=
  if written.length < size then .ok (written ++ [item]) else .error .outside

/-- `while (bits_left >= target)`: the high bits are taken out, the others stay. -/
def drainLoop : Nat → Shift × List α → Except Fault (Shift × List α)
  | 0, state => .ok state
  | fuel + 1, state =>
      if target ≤ state.1.bitsLeft then do
        let bitsLeft := state.1.bitsLeft - target
        let written ← store size state.2 (emit (state.1.buffer >>> UInt32.ofNat bitsLeft))
        drainLoop fuel
          (⟨state.1.buffer &&& ((1 <<< UInt32.ofNat bitsLeft) - 1), bitsLeft⟩, written)
      else .ok state

/-- A digit is shifted in, and digits of the other width are taken out. -/
def shiftIn (state : Shift × List α) (digit : UInt32) : Except Fault (Shift × List α) :=
  let bitsLeft := state.1.bitsLeft + source
  drainLoop target emit size bitsLeft
    (⟨(state.1.buffer <<< UInt32.ofNat source) ||| digit, bitsLeft⟩, state.2)

end Loops

/-- `base32_index[byte]`; nothing for -1. -/
def base32Index (byte : UInt8) : Option UInt32 :=
  (base32Chars.idxOf? (Char.ofNat byte.toNat)).map UInt32.ofNat

/-- `(buffer >> bits_left) & 0xFF`. -/
def decodedByte (word : UInt32) : UInt8 := (word &&& 0xFF).toUInt8

/-- `B32CHARS[(buffer >> bits_left) & BASE32_MASK]`. -/
def encodedChar (word : UInt32) : Char := base32Char (word &&& 0x1F).toNat

/-- One turn of the loop of `base32_decode`. -/
def decodeTurn (size : Nat) (state : Shift × Bytes) (byte : UInt8) :
    Except Fault (Shift × Bytes) :=
  match base32Index byte with
  | some index => shiftIn 5 8 decodedByte size state index
  | none => .error (.raised (.valueError "Invalid Base32 character"))

/-- `encoded_str[:stripped_len]`. -/
def stripPadding (encodedStr : Text) : Bytes := (encode encodedStr).rdropWhile (· == 0x3D)

/-- `max_decoded_size`. -/
def maxDecodedSize (strippedLen : Nat) : Nat := (strippedLen * 5 + 7) / 8

/-- `base32_decode`. `m_new0` returns no memory for a size of zero. -/
def base32Decode (encodedStr : Text) : Except Fault Bytes :=
  let stripped := stripPadding encodedStr
  let size := maxDecodedSize stripped.length
  if size = 0 then .error (.raised .osError)
  else do
    let state ← stripped.foldlM (decodeTurn size) (⟨0, 0⟩, [])
    pure state.2

/-- One turn of the loop of `base32_encode`. -/
def encodeTurn (size : Nat) (state : Shift × Text) (byte : UInt8) : Except Fault (Shift × Text) :=
  shiftIn 8 5 encodedChar size state byte.toUInt32

/-- `max_encoded_size + 1`. -/
def maxEncodedSize (dataLen : Nat) (addPadding : Bool) : Nat :=
  let baseEncodedSize := (dataLen * 8 + 4) / 5
  if addPadding then (baseEncodedSize + 7) / 8 * 8 + 1 else baseEncodedSize + 1

/-- `if (bits_left > 0)`: the bits that are left go into one more character. -/
def flush (size : Nat) (state : Shift × Text) : Except Fault Text :=
  if 0 < state.1.bitsLeft then
    store size state.2 (encodedChar (state.1.buffer <<< UInt32.ofNat (5 - state.1.bitsLeft)))
  else .ok state.2

/-- `base32_encode`. -/
def base32Encode (data : Bytes) (addPadding : Bool) : Except Fault Text := do
  let size := maxEncodedSize data.length addPadding
  let state ← data.foldlM (encodeTurn size) (⟨0, 0⟩, [])
  let encoded ← flush size state
  if addPadding then
    (List.replicate ((8 - encoded.length % 8) % 8) '=').foldlM (store size) encoded
  else pure encoded

/-! ## The reference in Python -/

/-- `while bits_left >= target`, with unbounded numbers. -/
def drainStream (target : Nat) : Nat → Nat → Nat → List Nat × Nat × Nat
  | 0, buffer, bitsLeft => ([], buffer, bitsLeft)
  | fuel + 1, buffer, bitsLeft =>
      if target ≤ bitsLeft then
        let left := bitsLeft - target
        let rest := drainStream target fuel (buffer &&& ((1 <<< left) - 1)) left
        (((buffer >>> left) &&& (2 ^ target - 1)) :: rest.1, rest.2)
      else ([], buffer, bitsLeft)

/-- The loop over the digits: what is taken out, and `buffer` and `bits_left` at the end. -/
def stream (source target : Nat) : Nat → Nat → List Nat → List Nat × Nat × Nat
  | buffer, bitsLeft, [] => ([], buffer, bitsLeft)
  | buffer, bitsLeft, digit :: digits =>
      let first := drainStream target (bitsLeft + source) ((buffer <<< source) ||| digit)
        (bitsLeft + source)
      let rest := stream source target first.2.1 first.2.2 digits
      (first.1 ++ rest.1, rest.2)

/-- `base32_index[char]`. -/
def streamIndex (char : Char) : Except Exn Nat :=
  match base32Chars.idxOf? char with
  | some index => .ok index
  | none => .error (.valueError ("Invalid Base32 character: " ++ toString char))

/-- `base32_decode_stream`. -/
def base32DecodeStream (encodedStr : Text) : Except Exn Bytes := do
  let indices ← (encodedStr.rdropWhile (· == '=')).mapM streamIndex
  pure ((stream 5 8 0 0 indices).1.map UInt8.ofNat)

/-- `base32_encode_stream`. -/
def base32EncodeStream (data : Bytes) (addPadding : Bool) : Text :=
  let result := stream 8 5 0 0 (data.map UInt8.toNat)
  let buffer := result.2.1
  let bitsLeft := result.2.2
  let last := if 0 < bitsLeft then [base32Char ((buffer <<< (5 - bitsLeft)) &&& 0x1F)] else []
  let encodedLength := (data.length * 8 + 4) / 5
  let padding := if addPadding then List.replicate ((8 - encodedLength % 8) % 8) '=' else []
  result.1.map base32Char ++ last ++ padding

section Words

variable {word digit : UInt32} {count width : Nat}

/-- The high bits of a word. -/
theorem toNat_shiftRight (less : count < 32) :
    (word >>> UInt32.ofNat count).toNat = word.toNat / 2 ^ count := by
  rw [UInt32.toNat_shiftRight, UInt32.toNat_ofNat_of_lt' (lt_trans less (by decide)),
    Nat.mod_eq_of_lt less, Nat.shiftRight_eq_div_pow]

/-- The low bits of a word. -/
theorem toNat_low_bits (less : count < 32) :
    (word &&& ((1 <<< UInt32.ofNat count) - 1)).toNat = word.toNat % 2 ^ count := by
  have power : 2 ^ count < 2 ^ 32 := Nat.pow_lt_pow_right (by decide) less
  have one : ((1 : UInt32) <<< UInt32.ofNat count).toNat = 2 ^ count := by
    rw [UInt32.toNat_shiftLeft, UInt32.toNat_ofNat_of_lt' (lt_trans less (by decide)),
      Nat.mod_eq_of_lt less, Nat.shiftLeft_eq]
    change 1 * 2 ^ count % 2 ^ 32 = 2 ^ count
    rw [Nat.one_mul, Nat.mod_eq_of_lt power]
  have mask : (((1 : UInt32) <<< UInt32.ofNat count) - 1).toNat = 2 ^ count - 1 := by
    rw [UInt32.toNat_sub_of_le, one]
    · rfl
    · rw [UInt32.le_iff_toNat_le, one]
      exact Nat.one_le_two_pow
  rw [UInt32.toNat_and, mask, Nat.and_two_pow_sub_one_eq_mod]

/-- A word is shifted when it has room. -/
theorem toNat_shiftLeft (less : width < 32) (room : word.toNat * 2 ^ width < 2 ^ 32) :
    (word <<< UInt32.ofNat width).toNat = word.toNat * 2 ^ width := by
  rw [UInt32.toNat_shiftLeft, UInt32.toNat_ofNat_of_lt' (lt_trans less (by decide)),
    Nat.mod_eq_of_lt less, Nat.shiftLeft_eq, Nat.mod_eq_of_lt room]

/-- Bits shifted into a word that has room for them. -/
theorem toNat_shift_in (less : width < 32) (room : word.toNat * 2 ^ width < 2 ^ 32)
    (small : digit.toNat < 2 ^ width) :
    ((word <<< UInt32.ofNat width) ||| digit).toNat = word.toNat * 2 ^ width + digit.toNat := by
  rw [UInt32.toNat_or, toNat_shiftLeft less room, ← Nat.shiftLeft_eq,
    ← Nat.shiftLeft_add_eq_or_of_lt small]

end Words

section Simulation

variable {α : Type} {source target : Nat} {emit : UInt32 → α} {symbol : Nat → α} {size : Nat}

/-- The bits that wait in a word. -/
def Shift.reservoir (shift : Shift) : Reservoir := ⟨shift.buffer.toNat, shift.bitsLeft⟩

/-- The inner loop drains the reservoir, when the result fits the memory. -/
theorem drainLoop_eq (emits : ∀ word, emit word = symbol (word.toNat % 2 ^ target)) {fuel : Nat}
    {shift : Shift} {written : List α} (narrow : shift.bitsLeft < 32 + target)
    (room : written.length + (drain target fuel shift.reservoir).1.length ≤ size) :
    ∃ after : Shift, after.reservoir = (drain target fuel shift.reservoir).2 ∧
      drainLoop target emit size fuel (shift, written) =
        .ok (after, written ++ (drain target fuel shift.reservoir).1.map symbol) := by
  induction fuel generalizing shift written with
  | zero => exact ⟨shift, rfl, by rw [drain, List.map_nil, List.append_nil]; rfl⟩
  | succ fuel ih =>
      rw [drain] at room ⊢
      by_cases more : target ≤ shift.reservoir.bits
      · have enough : target ≤ shift.bitsLeft := more
        rw [if_pos more] at room ⊢
        have less : shift.bitsLeft - target < 32 := by omega
        obtain ⟨word, same⟩ : ∃ word, word =
            shift.buffer &&& ((1 <<< UInt32.ofNat (shift.bitsLeft - target)) - 1) := ⟨_, rfl⟩
        have next : (⟨shift.reservoir.buffer % 2 ^ (shift.reservoir.bits - target),
            shift.reservoir.bits - target⟩ : Reservoir) =
              (⟨word, shift.bitsLeft - target⟩ : Shift).reservoir := by
          change _ = Reservoir.mk word.toNat _
          rw [same, toNat_low_bits less]
          rfl
        have item : emit (shift.buffer >>> UInt32.ofNat (shift.bitsLeft - target)) =
            symbol (shift.reservoir.buffer / 2 ^ (shift.reservoir.bits - target) %
              2 ^ target) := by
          rw [emits, toNat_shiftRight less]
          rfl
        dsimp only at room ⊢
        rw [next] at room ⊢
        rw [List.length_cons] at room
        have fits : written.length < size := by omega
        obtain ⟨after, reaches, ran⟩ := @ih ⟨word, shift.bitsLeft - target⟩
          (written ++ [symbol (shift.reservoir.buffer / 2 ^ (shift.reservoir.bits - target) %
              2 ^ target)])
          (by dsimp only; omega) (by rw [List.length_append, List.length_singleton]; omega)
        refine ⟨after, reaches, ?_⟩
        rw [drainLoop, if_pos enough]
        dsimp only
        rw [store, if_pos fits, item, ← same]
        refine ran.trans ?_
        rw [List.map_cons, List.append_assoc, List.singleton_append]
      · have short : ¬ target ≤ shift.bitsLeft := more
        rw [if_neg more]
        refine ⟨shift, rfl, ?_⟩
        rw [drainLoop, if_neg short, List.map_nil, List.append_nil]

variable {shift : Shift} {written : List α}

/-- Shifting in a digit pours it into the reservoir: the word has room for it. -/
theorem shiftIn_eq (emits : ∀ word, emit word = symbol (word.toNat % 2 ^ target))
    (wide : source + target ≤ 32) {digit : UInt32} (small : digit.toNat < 2 ^ source)
    (fits : shift.reservoir.buffer < 2 ^ shift.reservoir.bits)
    (short : shift.reservoir.bits < target)
    (room : written.length + (pour source target shift.reservoir digit.toNat).1.length ≤ size) :
    ∃ after : Shift, after.reservoir = (pour source target shift.reservoir digit.toNat).2 ∧
      shiftIn source target emit size (shift, written) digit =
        .ok (after, written ++
          (pour source target shift.reservoir digit.toNat).1.map symbol) := by
  have bits : shift.bitsLeft < target := short
  have spare : shift.buffer.toNat * 2 ^ source < 2 ^ 32 := by
    calc shift.buffer.toNat * 2 ^ source
        < 2 ^ shift.bitsLeft * 2 ^ source := Nat.mul_lt_mul_of_pos_right fits (by positivity)
      _ = 2 ^ (shift.bitsLeft + source) := (pow_add _ _ _).symm
      _ ≤ 2 ^ 32 := Nat.pow_le_pow_right (by decide) (by omega)
  have poured : (⟨(shift.buffer <<< UInt32.ofNat source) ||| digit, shift.bitsLeft + source⟩ :
      Shift).reservoir =
        ⟨shift.reservoir.buffer * 2 ^ source + digit.toNat, shift.reservoir.bits + source⟩ := by
    rw [Shift.reservoir, toNat_shift_in (by omega) spare small]
    rfl
  have drained := @drainLoop_eq α target emit symbol size emits (shift.bitsLeft + source)
    ⟨(shift.buffer <<< UInt32.ofNat source) ||| digit, shift.bitsLeft + source⟩ written
    (by dsimp only; omega)
  rw [poured] at drained
  exact drained room

/-- **The word and the memory are wide enough**: shifting in digits regroups them. -/
theorem foldlM_shiftIn (emits : ∀ word, emit word = symbol (word.toNat % 2 ^ target))
    (positive : 0 < target) (wide : source + target ≤ 32) {digits : List UInt32}
    (small : ∀ digit ∈ digits, digit.toNat < 2 ^ source)
    (fits : shift.reservoir.buffer < 2 ^ shift.reservoir.bits)
    (short : shift.reservoir.bits < target)
    (room : written.length +
      (regroup source target shift.reservoir (digits.map UInt32.toNat)).1.length ≤ size) :
    ∃ after : Shift,
      after.reservoir = (regroup source target shift.reservoir (digits.map UInt32.toNat)).2 ∧
      digits.foldlM (shiftIn source target emit size) (shift, written) =
        .ok (after, written ++
          (regroup source target shift.reservoir (digits.map UInt32.toNat)).1.map symbol) := by
  induction digits generalizing shift written with
  | nil => exact ⟨shift, rfl, by simp [regroup]; rfl⟩
  | cons digit digits ih =>
      have digitSmall := small digit List.mem_cons_self
      have rest : ∀ other ∈ digits, other.toNat < 2 ^ source := fun other member =>
        small other (List.mem_cons_of_mem _ member)
      have poured := pour_drained positive digitSmall fits
      rw [List.map_cons, regroup] at room ⊢
      dsimp only at room ⊢
      rw [List.length_append] at room
      obtain ⟨middle, reaches, ran⟩ := shiftIn_eq emits wide digitSmall fits short
        (by omega : written.length + _ ≤ size)
      rw [← reaches] at room poured ⊢
      obtain ⟨after, ended, later⟩ := @ih middle
        (written ++ (pour source target shift.reservoir digit.toNat).1.map symbol) rest
        poured.fits poured.short (by rw [List.length_append, List.length_map]; omega)
      refine ⟨after, ended, ?_⟩
      rw [List.foldlM_cons, ran, ok_bind, later, List.map_append, List.append_assoc]

end Simulation

section Bytes

/-- The index of a byte of a character. -/
theorem base32Index_ascii {char : Char} (low : char.toNat < 128) :
    base32Index (UInt8.ofNat char.toNat) = (Qr.base32Index char).map UInt32.ofNat := by
  rw [base32Index, toNat_utf8Byte (by omega), Char.ofNat_toNat]
  rfl

private theorem base32Index_high {byte : UInt8} (high : 128 ≤ byte.toNat) : base32Index byte =
    none := by
  have absent : ∀ value < 256, 128 ≤ value → base32Chars.idxOf? (Char.ofNat value) = none := by
    decide +kernel
  rw [base32Index, absent _ byte.toNat_lt high]
  rfl

private theorem base32Index_char_high {char : Char} (high : 128 ≤ char.toNat) :
    Qr.base32Index char = none := by
  have low : base32Chars.all (·.toNat < 128) = true := by decide
  refine List.idxOf?_eq_none_iff.mpr fun member => ?_
  have small := of_decide_eq_true (List.all_eq_true.mp low char member)
  omega

/-- Characters are looked up byte by byte. -/
theorem mapM_encode (text : Text) : (encode text).mapM base32Index =
    (text.mapM Qr.base32Index).map (·.map UInt32.ofNat) := by
  induction text with
  | nil => rfl
  | cons char text ih =>
      have split : encode (char :: text) = String.utf8EncodeChar char ++ encode text := by
        rw [encode, List.flatMap_cons]
        rfl
      rw [split, List.mapM_cons]
      by_cases low : char.toNat < 128
      · have single := @encode_of_ascii [char] (by simpa using low)
        rw [encode, List.flatMap_singleton, List.map_singleton] at single
        rw [single, List.singleton_append, List.mapM_cons, base32Index_ascii low, ih]
        cases Qr.base32Index char with
        | none => rfl
        | some index => cases text.mapM Qr.base32Index <;> rfl
      · have high : 128 ≤ char.toNat := Nat.le_of_not_lt low
        obtain ⟨lead, rest, spelled, _⟩ := utf8EncodeChar_spec char
        have first := utf8EncodeChar_high high lead (by rw [spelled]; exact List.mem_cons_self)
        rw [spelled, List.cons_append, List.mapM_cons, base32Index_high first,
          base32Index_char_high high]
        rfl

/-- The padding is stripped character by character. -/
theorem stripPadding_eq (text : Text) :
    stripPadding text = encode (text.rdropWhile (· == '=')) := by
  unfold stripPadding
  induction text using List.reverseRecOn with
  | nil => rfl
  | append_singleton text char ih =>
      have split : encode (text ++ [char]) = encode text ++ String.utf8EncodeChar char := by
        rw [encode, List.flatMap_append, List.flatMap_singleton]
        rfl
      by_cases pad : char = '='
      · subst pad
        have single : String.utf8EncodeChar '=' = [0x3D] := rfl
        rw [split, single, List.rdropWhile_concat_pos _ _ _ rfl,
          List.rdropWhile_concat_pos _ _ _ rfl, ih]
      · rw [List.rdropWhile_concat_neg _ _ _ (by simpa using pad),
          List.rdropWhile_eq_self_iff]
        intro nonempty last
        have ends : (encode (text ++ [char])).getLast nonempty ∈ String.utf8EncodeChar char := by
          obtain ⟨lead, rest, spelled, _⟩ := utf8EncodeChar_spec char
          have some : String.utf8EncodeChar char ≠ [] := by
            rw [spelled]
            exact List.cons_ne_nil _ _
          have same : (encode (text ++ [char])).getLast nonempty =
              (String.utf8EncodeChar char).getLast some := by
            have ends := @List.getLast_append_of_ne_nil _ _ (encode text)
              (List.append_ne_nil_of_right_ne_nil _ some) some
            exact (List.getLast_congr nonempty _ split).trans ends
          rw [same]
          exact List.getLast_mem some
        rw [beq_iff_eq.mp last] at ends
        by_cases low : char.toNat < 128
        · have single := @encode_of_ascii [char] (by simpa using low)
          rw [encode, List.flatMap_singleton, List.map_singleton] at single
          rw [single, List.mem_singleton] at ends
          have code := congrArg UInt8.toNat ends
          rw [toNat_utf8Byte (by omega)] at code
          exact pad (Char.toNat_inj.mp code.symm)
        · exact absurd (utf8EncodeChar_high (Nat.le_of_not_lt low) _ ends) (by decide)

end Bytes

end VaultSeed.Baseconv
