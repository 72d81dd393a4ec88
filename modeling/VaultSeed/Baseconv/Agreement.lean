import VaultSeed.Baseconv.PurePython

/-! # The device and the reference

On the device base 43 is `base43.c`, everywhere else it is the pure Python code, and the
tests know only the latter. The two agree, and what was encoded is decoded again, exactly on
what has no zero in front, a single zero apart: the device does not write the zeros that the
reference writes, and does not read those it finds.
-/

namespace VaultSeed.Baseconv

open Python Effect Positional

/-- `base_encode(v, 43)` on the device. -/
def baseEncode43 (v : Bytes) : Except Exn Text := if v = [] then .ok [] else base43Encode v false

/-- `base_decode(v, 43)` on the device. -/
def baseDecode43 (v : Text) : Except Exn Bytes := if v = [] then .ok [] else base43Decode v

/-- No zero in front, or a zero alone. -/
def Plain {α : Type} (zero : α) (items : List α) : Prop := items.head? ≠ some zero ∨ items = [zero]

section Padding

variable {α β : Type} {zero : α} {items : List α}

/-- Of zeros only a single one is plain. -/
theorem plain_iff_of_all (nonempty : items ≠ []) (all : ∀ item ∈ items, item = zero) :
    Plain zero items ↔ items = [zero] := by
  have head : items.head? = some zero := by
    cases items with
    | nil => exact absurd rfl nonempty
    | cons item items => rw [all item List.mem_cons_self, List.head?_cons]
  rw [Plain, head, or_iff_right (not_not.mpr rfl)]

private theorem plain_iff_of_not_all (other : ¬ ∀ item ∈ items, item = zero) :
    Plain zero items ↔ items.head? ≠ some zero := by
  have several : items ≠ [zero] := by
    intro same
    apply other
    rw [same]
    simp
  rw [Plain, or_iff_left several]

variable [BEq α] [LawfulBEq α]

private theorem nPad_eq_zero_iff : nPad zero items = 0 ↔ items.head? ≠ some zero := by
  cases items with
  | nil => simp [nPad]
  | cons item items =>
      by_cases same : item = zero
      · simp [nPad, same]
      · simp [nPad, same]

private theorem nPad_of_all (all : ∀ item ∈ items, item = zero) : nPad zero items =
    items.length := by
  rw [nPad, List.takeWhile_eq_self_iff.mpr]
  intro item member
  rw [all item member, beq_self_eq_true]

/-- Digits that are written once when there is nothing but zeros are the padded ones exactly
on plain data. -/
theorem padded_eq_iff (nonempty : items ≠ []) {mark : β} {digits : List β}
    (empty : digits = [] ↔ ∀ item ∈ items, item = zero) {vanishes : Prop} [Decidable vanishes]
    (blank : vanishes ↔ digits = []) :
    (if vanishes then [mark] else digits) = List.replicate (nPad zero items) mark ++ digits ↔
      Plain zero items := by
  by_cases none : digits = []
  · have all := empty.mp none
    rw [if_pos (blank.mpr none), none, List.append_nil, nPad_of_all all,
      plain_iff_of_all nonempty all]
    constructor
    · intro same
      have single : items.length = 1 := by
        simpa using (congrArg List.length same).symm
      obtain ⟨item, rfl⟩ := List.length_eq_one_iff.mp single
      rw [all item List.mem_cons_self]
    · intro same
      rw [same]
      rfl
  · rw [if_neg (mt blank.mp none), plain_iff_of_not_all (mt empty.mpr none), ← nPad_eq_zero_iff]
    constructor
    · intro same
      have lengths := congrArg List.length same
      rw [List.length_append, List.length_replicate] at lengths
      omega
    · intro unpadded
      rw [unpadded]
      rfl

end Padding

section Agreement

/-- What the device writes of data that are there. -/
theorem base43Encode_of_ne_nil {data : Bytes} (nonempty : data ≠ []) :
    base43Encode data false = .ok (if byteValue data = 0 then ['0']
      else (numeral 43 (byteValue data)).map b43Char) := by
  by_cases zero : byteValue data = 0
  · rw [if_pos zero, base43Encode_zero nonempty zero]
  · rw [if_neg zero, base43Encode_eq zero]

private theorem all_zero_iff {data : Bytes} : byteValue data = 0 ↔ ∀ byte ∈ data, byte = 0 := by
  rw [byteValue_eq_zero, List.all_eq_true]
  simp only [beq_iff_eq]

private theorem map_numeral_eq_nil_iff {α : Type} {base number : Nat} {symbol : Nat → α} :
    (numeral base number).map symbol = [] ↔ number = 0 := by
  rw [List.map_eq_nil_iff, numeral_eq_nil_iff]

private theorem encode_agrees_iff (data : Bytes) :
    base43Encode data false = .ok (purePythonBaseEncode data .base43) ↔ Plain 0 data := by
  by_cases nonempty : data = []
  · subst nonempty
    rw [purePythonBaseEncode_eq]
    simp [Plain, base43Encode, nPad, byteValue, numeral]
  rw [base43Encode_of_ne_nil nonempty, purePythonBaseEncode_eq, Except.ok.injEq]
  exact padded_eq_iff nonempty (map_numeral_eq_nil_iff.trans all_zero_iff)
    map_numeral_eq_nil_iff.symm

private theorem b43Char_eq_zero_iff {digit : Nat} (small : digit < 43) :
    b43Char digit = '0' ↔ digit = 0 := by
  constructor
  · intro same
    exact b43Char_injective small (by decide) same
  · intro zero
    rw [zero]
    rfl

/-- A text of digits begins with the character of the first digit. -/
theorem plain_map_iff {digits : List Nat} (small : ∀ digit ∈ digits, digit < 43) :
    Plain '0' (digits.map b43Char) ↔ Plain 0 digits := by
  cases digits with
  | nil => simp [Plain]
  | cons digit digits =>
      have zero := b43Char_eq_zero_iff (small digit List.mem_cons_self)
      simp [Plain, zero]

private theorem decode_agrees_iff {digits : List Nat} (small : ∀ digit ∈ digits, digit < 43) :
    base43Decode (digits.map b43Char) = purePythonBaseDecode (digits.map b43Char) .base43 ↔
      Plain 0 digits := by
  have reference : purePythonBaseDecode (digits.map b43Char) .base43 = .ok _ :=
    @purePythonBaseDecode_map .base43 digits small
  by_cases nonempty : digits = []
  · subst nonempty
    have read : base43Decode ([].map b43Char) = .ok [] := rfl
    rw [reference, read]
    simp [Plain, zeros, numeral]
  rw [base43Decode_map small nonempty, reference, Except.ok.injEq]
  exact padded_eq_iff nonempty (map_numeral_eq_nil_iff.trans (value_eq_zero (by decide)))
    map_numeral_eq_nil_iff.symm

private theorem round_trip_iff (data : Bytes) :
    (baseEncode43 data >>= baseDecode43) = .ok data ↔ Plain 0 data := by
  by_cases nonempty : data = []
  · subst nonempty
    simp [Plain, baseEncode43, baseDecode43]
  rw [baseEncode43, if_neg nonempty, base43Encode_of_ne_nil nonempty, ok_bind]
  by_cases zero : byteValue data = 0
  · have single : baseDecode43 ['0'] = .ok [0] := rfl
    rw [if_pos zero, single, Except.ok.injEq, plain_iff_of_all nonempty (all_zero_iff.mp zero)]
    exact eq_comm
  · have written : numeral 43 (byteValue data) ≠ [] := mt numeral_eq_nil_iff.mp zero
    have small : ∀ digit ∈ numeral 43 (byteValue data), digit < 43 := fun digit =>
      numeral_lt (by decide)
    rw [if_neg zero, baseDecode43, if_neg (mt List.map_eq_nil_iff.mp written),
      base43Decode_map small written, value_numeral, if_neg zero, Except.ok.injEq,
      map_numeral_byteValue_eq_iff, plain_iff_of_not_all (mt all_zero_iff.mpr zero)]

end Agreement

/-- **When the device agrees with the reference**: in writing, in reading, and in reading what
it wrote, exactly on what has no zero in front, a single zero apart. -/
theorem base43_agrees_iff (data : Bytes) {text : Text} (known : ∀ char ∈ text, char ∈ b43Chars) :
    (base43Encode data false = .ok (purePythonBaseEncode data .base43) ↔ Plain 0 data) ∧
    (base43Decode text = purePythonBaseDecode text .base43 ↔ Plain '0' text) ∧
    ((baseEncode43 data >>= baseDecode43) = .ok data ↔ Plain 0 data) := by
  refine ⟨encode_agrees_iff data, ?_, round_trip_iff data⟩
  obtain ⟨digits, small, rfl⟩ := exists_digits '0' known
  change _ ↔ Plain '0' (digits.map b43Char)
  rw [plain_map_iff small]
  exact decode_agrees_iff small

/-- The device and the reference agree on `2B`, the letter a. -/
theorem base43_agrees_iff_letter :
    base43Encode [0x61] false = .ok (purePythonBaseEncode [0x61] .base43) ∧
    base43Decode "2B".toList = purePythonBaseDecode "2B".toList .base43 ∧
    (baseEncode43 [0x61] >>= baseDecode43) = .ok [0x61] := by
  have known : ∀ char ∈ "2B".toList, char ∈ b43Chars := by
    have second : b43Chars[2]? = some '2' := rfl
    have last : b43Chars[11]? = some 'B' := rfl
    exact List.forall_mem_cons.mpr ⟨List.mem_of_getElem? second,
      List.forall_mem_singleton.mpr (List.mem_of_getElem? last)⟩
  obtain ⟨encodes, decodes, travels⟩ := base43_agrees_iff [0x61] known
  refine ⟨encodes.mpr (.inl ?_), decodes.mpr (.inl ?_), travels.mpr (.inl ?_)⟩
  · decide
  · decide
  · decide

/-- A zero in front is lost on the device: of the bytes 0 and 1 it writes `1`, where the
reference writes `01`, and of `01` it reads the byte 1, where the reference reads 0 and 1. -/
theorem leading_zero_lost :
    base43Encode [0, 1] false ≠ .ok (purePythonBaseEncode [0, 1] .base43) ∧
    base43Decode "01".toList ≠ purePythonBaseDecode "01".toList .base43 ∧
    (baseEncode43 [0, 1] >>= baseDecode43) ≠ .ok [0, 1] := by
  have written : base43Encode [0, 1] false = .ok "1".toList := rfl
  have read : base43Decode "01".toList = .ok [1] := rfl
  have back : (baseEncode43 [0, 1] >>= baseDecode43) = .ok [1] := rfl
  have numeral43 : numeral 43 (byteValue [0, 1]) = [1] := by
    simp [numeral, byteValue, value, Nat.ofDigits]
  have numeral256 : numeral 256 (value Base.base43.radix [0, 1]) = [1] := by
    simp [numeral, value, Nat.ofDigits]
  have padded : purePythonBaseEncode [0, 1] .base43 = "01".toList := by
    rw [purePythonBaseEncode_eq, Base.radix, numeral43]
    rfl
  have zeroRead : purePythonBaseDecode "01".toList .base43 = .ok [0, 1] := by
    have digits := @purePythonBaseDecode_map .base43 [0, 1] (by decide)
    rw [numeral256] at digits
    exact digits
  rw [written, padded, read, zeroRead, back]
  decide

end VaultSeed.Baseconv
