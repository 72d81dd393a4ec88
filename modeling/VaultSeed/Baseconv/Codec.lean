import VaultSeed.Baseconv.Base32

/-! # The base 32 of the device is a codec

Both loops keep every bit they read, in what they wrote and in the word, and write within their
memory (`Kept`). So the device encodes by groups of five bits, decodes what it encoded, and
agrees with the reference, whenever there is something to encode and to decode
(`base32_correct_iff`).
-/

namespace VaultSeed.Baseconv

open Python Effect Digits Bits
open Qr (base32Chars base32Char)

/-- The groups of five bits of data over the alphabet, padded to a multiple of eight or not. -/
def base32Text (data : Bytes) (addPadding : Bool) : Text :=
  let text := (groups 5 (spell 8 (data.map UInt8.toNat))).map base32Char
  if addPadding then text ++ List.replicate ((8 - text.length % 8) % 8) '=' else text

/-- The start of both loops. -/
def startState {α : Type} : Shift × List α := (⟨0, 0⟩, [])

/-- A loop that read digits wrote within its memory, and every bit is written or waits. -/
structure Kept {α : Type} (source target size : Nat) (symbol : Nat → α) (digits : List Nat)
    (state : Shift × List α) : Prop where
  inside : state.2.length ≤ size
  short : state.1.bitsLeft < target
  pending : ∃ written, (∀ digit ∈ written, digit < 2 ^ target) ∧ state.2 = written.map symbol ∧
    spell target written ++ ofDigit state.1.bitsLeft state.1.buffer.toNat = spell source digits

/-- The device and the reference decode the same, or both meet a character that is not base 32. -/
inductive Agree : Except Fault Bytes → Except Exn Bytes → Prop
  | decoded (data : Bytes) : Agree (.ok data) (.ok data)
  | invalid (device reference : String) :
      Agree (.error (.raised (.valueError device))) (.error (.valueError reference))

/-- Characters that encode something: of the alphabet, as many as whole bytes need, and the bits
that belong to no byte are zero. -/
def Canonical (text : Text) : Prop :=
  ∃ indices, text.mapM Qr.base32Index = some indices ∧ text.length % 8 ∈ [0, 2, 4, 5, 7] ∧
    ∀ bit ∈ (spell 5 indices).drop (text.length * 5 / 8 * 8), bit = false

/-- What a base 32 codec does with data and with a text. -/
structure Correct (data : Bytes) (addPadding : Bool) (text : Text) : Prop where
  encodes : base32Encode data addPadding = .ok (base32Text data addPadding)
  travels : base32Encode data addPadding >>= base32Decode = .ok data
  canonical : base32Decode text >>= (base32Encode · false) = .ok text ↔ Canonical text
  keepsEncoding : ∀ front, front <+: data → ∃ state,
    front.foldlM (encodeTurn (maxEncodedSize data.length addPadding)) startState = .ok state ∧
      Kept 8 5 (maxEncodedSize data.length addPadding) base32Char (front.map UInt8.toNat) state
  keepsDecoding : ∀ front indices, front <+: stripPadding text →
    front.mapM base32Index = some indices → ∃ state,
      front.foldlM (decodeTurn (maxDecodedSize (stripPadding text).length)) startState =
          .ok state ∧
        Kept 5 8 (maxDecodedSize (stripPadding text).length) UInt8.ofNat
          (indices.map UInt32.toNat) state
  inside : base32Encode data addPadding ≠ .error .outside ∧ base32Decode text ≠ .error .outside
  agreesEncode : base32Encode data addPadding = .ok (base32EncodeStream data addPadding)
  agreesDecode : Agree (base32Decode text) (base32DecodeStream text)

section Loops

variable {α : Type} {source target : Nat} {emit : UInt32 → α} {symbol : Nat → α} {size : Nat}

private theorem toNats_lt {digits : List UInt32}
    (small : ∀ digit ∈ digits, digit.toNat < 2 ^ source) :
    ∀ digit ∈ digits.map UInt32.toNat, digit < 2 ^ source := by
  intro digit member
  obtain ⟨word, inside, rfl⟩ := List.mem_map.mp member
  exact small word inside

/-- The digits taken out fit into memory for the bits. -/
theorem length_regroup_le (positive : 0 < target) {digits : List Nat}
    (small : ∀ digit ∈ digits, digit < 2 ^ source)
    (room : digits.length * source < (size + 1) * target) :
    (regroup source target .empty digits).1.length ≤ size := by
  have fitsEmpty : Reservoir.empty.buffer < 2 ^ Reservoir.empty.bits := Nat.one_pos
  have bits := (regroup_drained positive digits small fitsEmpty positive).bits_eq
  change _ = 0 + source * digits.length at bits
  rw [Nat.zero_add, Nat.mul_comm source] at bits
  have below : (regroup source target .empty digits).1.length * target < (size + 1) * target := by
    omega
  exact Nat.le_of_lt_succ (Nat.lt_of_mul_lt_mul_right below)

/-- From the start the loop regroups the digits. -/
theorem foldlM_shiftIn_start (emits : ∀ word, emit word = symbol (word.toNat % 2 ^ target))
    (positive : 0 < target) (wide : source + target ≤ 32) {digits : List UInt32}
    (small : ∀ digit ∈ digits, digit.toNat < 2 ^ source)
    (room : digits.length * source < (size + 1) * target) :
    ∃ after : Shift,
      after.reservoir = (regroup source target .empty (digits.map UInt32.toNat)).2 ∧
      digits.foldlM (shiftIn source target emit size) startState =
        .ok (after, (regroup source target .empty (digits.map UInt32.toNat)).1.map symbol) := by
  have fitsEmpty : Reservoir.empty.buffer < 2 ^ Reservoir.empty.bits := Nat.one_pos
  have fewer := length_regroup_le positive (toNats_lt small)
    (by rw [List.length_map]; exact room : _ < (size + 1) * target)
  exact @foldlM_shiftIn α source target emit symbol size ⟨0, 0⟩ [] emits positive wide digits small
    fitsEmpty positive (by rw [List.length_nil, Nat.zero_add]; exact fewer)

/-- **The loop keeps every bit** and stays inside its memory. -/
theorem foldlM_shiftIn_kept (emits : ∀ word, emit word = symbol (word.toNat % 2 ^ target))
    (positive : 0 < target) (wide : source + target ≤ 32) {digits : List UInt32}
    (small : ∀ digit ∈ digits, digit.toNat < 2 ^ source)
    (room : digits.length * source < (size + 1) * target) :
    ∃ state, digits.foldlM (shiftIn source target emit size) startState = .ok state ∧
      Kept source target size symbol (digits.map UInt32.toNat) state := by
  obtain ⟨after, reaches, ran⟩ := foldlM_shiftIn_start emits positive wide small room
  have smallNats := toNats_lt small
  have fitsEmpty : Reservoir.empty.buffer < 2 ^ Reservoir.empty.bits := Nat.one_pos
  have drained := regroup_drained positive _ smallNats fitsEmpty positive
  have kept := spell_regroup positive smallNats
  have fewer := length_regroup_le positive smallNats
    (by rw [List.length_map]; exact room : _ < (size + 1) * target)
  rw [← reaches] at drained kept
  refine ⟨_, ran, ?_, drained.short, _, drained.small, rfl, kept⟩
  rw [List.length_map]
  exact fewer

/-- What is stored into memory that has room for it. -/
theorem foldlM_store {items written : List α} (room : written.length + items.length ≤ size) :
    items.foldlM (store size) written = .ok (written ++ items) := by
  induction items generalizing written with
  | nil =>
      rw [List.append_nil]
      rfl
  | cons item items ih =>
      rw [List.length_cons] at room
      have later := @ih (written ++ [item])
        (by rw [List.length_append, List.length_singleton]; omega)
      rw [List.foldlM_cons, store, if_pos (by omega), ok_bind, later, List.append_assoc,
        List.singleton_append]

end Loops

section Encoding

variable (data : Bytes)

/-- `B32CHARS` is looked up at the low five bits. -/
theorem encodedChar_eq (word : UInt32) : encodedChar word = base32Char (word.toNat % 2 ^ 5) := by
  have mask : (word &&& 0x1F).toNat = word.toNat % 2 ^ 5 := by
    rw [UInt32.toNat_and]
    exact Nat.and_two_pow_sub_one_eq_mod _ 5
  rw [encodedChar, mask]

/-- The low eight bits are stored. -/
theorem decodedByte_eq (word : UInt32) : decodedByte word = UInt8.ofNat (word.toNat % 2 ^ 8) := by
  have mask : (word &&& 0xFF).toNat = word.toNat % 2 ^ 8 := by
    rw [UInt32.toNat_and]
    exact Nat.and_two_pow_sub_one_eq_mod _ 8
  have small : word.toNat % 2 ^ 8 < 256 := Nat.mod_lt _ (by decide)
  apply UInt8.toNat_inj.mp
  rw [decodedByte, UInt32.toNat_toUInt8, mask, toNat_utf8Byte small, Nat.mod_mod]

/-- The loop over the bytes is the loop over words. -/
theorem foldlM_encodeTurn (size : Nat) (state : Shift × Text) :
    data.foldlM (encodeTurn size) state =
      (data.map UInt8.toUInt32).foldlM (shiftIn 8 5 encodedChar size) state := by
  rw [List.foldlM_map]
  rfl

private theorem words_toNat : (data.map UInt8.toUInt32).map UInt32.toNat =
    data.map UInt8.toNat := by
  rw [List.map_map]
  exact List.map_congr_left fun byte _ => UInt8.toNat_toUInt32 byte

private theorem words_small : ∀ digit ∈ data.map UInt8.toUInt32, digit.toNat < 2 ^ 8 := by
  intro digit member
  obtain ⟨byte, _, rfl⟩ := List.mem_map.mp member
  rw [UInt8.toNat_toUInt32]
  exact byte.toNat_lt

/-- The groups of five bits are the regrouped bytes. -/
theorem groups_eq_complete : groups 5 (spell 8 (data.map UInt8.toNat)) =
    complete 8 5 (data.map UInt8.toNat) :=
  (complete_eq_groups (by decide) (bytes_small data)).symm

private theorem length_groups : (groups 5 (spell 8 (data.map UInt8.toNat))).length =
    (data.length * 8 + 4) / 5 := by
  rw [groups, length_groupsOf, length_spell, List.length_map]
  rfl

/-- The bits that are left are completed with zeros. -/
theorem encodedChar_last {shift : Shift} (fits : shift.buffer.toNat < 2 ^ shift.bitsLeft)
    (short : shift.bitsLeft < 5) :
    encodedChar (shift.buffer <<< UInt32.ofNat (5 - shift.bitsLeft)) =
      base32Char (shift.buffer.toNat * 2 ^ (5 - shift.bitsLeft) % 2 ^ 5) := by
  have small : 5 - shift.bitsLeft < 32 := by omega
  have room : shift.buffer.toNat * 2 ^ (5 - shift.bitsLeft) < 2 ^ 32 := by
    calc shift.buffer.toNat * 2 ^ (5 - shift.bitsLeft)
        < 2 ^ shift.bitsLeft * 2 ^ (5 - shift.bitsLeft) :=
          Nat.mul_lt_mul_of_pos_right fits (by positivity)
      _ = 2 ^ (shift.bitsLeft + (5 - shift.bitsLeft)) := (pow_add _ _ _).symm
      _ ≤ 2 ^ 32 := Nat.pow_le_pow_right (by decide) (by omega)
  rw [encodedChar_eq, toNat_shiftLeft small room]

/-- **The device encodes by groups of five bits.** -/
theorem base32Encode_eq (addPadding : Bool) :
    base32Encode data addPadding = .ok (base32Text data addPadding) := by
  have length := length_groups data
  have size : (data.length * 8 + 4) / 5 + (8 - (data.length * 8 + 4) / 5 % 8) % 8 <
      maxEncodedSize data.length true := by
    unfold maxEncodedSize
    rw [if_pos rfl]
    omega
  have plain : (data.length * 8 + 4) / 5 < maxEncodedSize data.length addPadding := by
    cases addPadding
    · exact Nat.lt_succ_self _
    · omega
  obtain ⟨after, reaches, ran⟩ := @foldlM_shiftIn_start Char 8 5 encodedChar base32Char
    (maxEncodedSize data.length addPadding) encodedChar_eq (by decide) (by decide)
    (data.map UInt8.toUInt32) (words_small data) (by rw [List.length_map]; omega)
  rw [words_toNat] at reaches ran
  have fitsEmpty : Reservoir.empty.buffer < 2 ^ Reservoir.empty.bits := Nat.one_pos
  have drained := regroup_drained (by decide : 0 < 5) _ (bytes_small data) fitsEmpty (by decide)
  have completed : complete 8 5 (data.map UInt8.toNat) =
      (regroup 8 5 .empty (data.map UInt8.toNat)).1 ++
        if 0 < after.bitsLeft then [after.buffer.toNat * 2 ^ (5 - after.bitsLeft) % 2 ^ 5]
        else [] := by
    rw [complete, ← reaches]
    rfl
  rw [← groups_eq_complete] at completed
  rw [← reaches] at drained
  -- What is left goes into one more character, which the memory has room for.
  have flushed : flush (maxEncodedSize data.length addPadding)
        (after, (regroup 8 5 .empty (data.map UInt8.toNat)).1.map base32Char) =
      .ok ((groups 5 (spell 8 (data.map UInt8.toNat))).map base32Char) := by
    rw [flush]
    by_cases some : 0 < after.bitsLeft
    · have count := congrArg List.length completed
      rw [length, if_pos some, List.length_append, List.length_singleton] at count
      rw [if_pos some, store, List.length_map, if_pos (by omega),
        encodedChar_last drained.fits drained.short, completed, if_pos some, List.map_append]
      rfl
    · rw [if_neg some, completed, if_neg some, List.append_nil]
  rw [base32Encode, foldlM_encodeTurn]
  change (data.map UInt8.toUInt32).foldlM _ startState >>= _ = _
  rw [ran, ok_bind]
  rw [flushed, ok_bind, base32Text]
  cases addPadding with
  | false => rfl
  | true =>
      rw [if_pos rfl, if_pos rfl, foldlM_store]
      rw [List.length_map, List.length_replicate, length]
      exact size.le

end Encoding

section Decoding

variable {bytes : Bytes} {digits : List UInt32} {size : Nat}

private theorem base32Index_lt {byte : UInt8} {digit : UInt32}
    (known : base32Index byte = some digit) :
    digit.toNat < 2 ^ 5 := by
  obtain ⟨index, found, rfl⟩ := Option.map_eq_some_iff.mp known
  have small : index < 32 := List.findIdx?_eq_some_iff_getElem.mp found |>.1
  rw [UInt32.toNat_ofNat_of_lt' (lt_trans small (by decide))]
  exact small

private theorem digits_small (known : bytes.mapM base32Index = some digits) :
    ∀ digit ∈ digits, digit.toNat < 2 ^ 5 := by
  have looked := mapM_eq_some_iff.mp known
  intro digit member
  have image : some digit ∈ bytes.map base32Index := by
    rw [looked]
    exact List.mem_map_of_mem member
  obtain ⟨byte, _, found⟩ := List.mem_map.mp image
  exact base32Index_lt found

private theorem digits_length (known : bytes.mapM base32Index = some digits) :
    digits.length = bytes.length := by
  have looked := congrArg List.length (mapM_eq_some_iff.mp known)
  rw [List.length_map, List.length_map] at looked
  exact looked.symm

/-- The loop over bytes of the alphabet is the loop over their indices. -/
theorem foldlM_decodeTurn (known : bytes.mapM base32Index = some digits) (state : Shift × Bytes) :
    bytes.foldlM (decodeTurn size) state =
      digits.foldlM (shiftIn 5 8 decodedByte size) state := by
  have looked := mapM_eq_some_iff.mp known
  induction bytes generalizing digits state with
  | nil =>
      rw [List.map_nil] at looked
      rw [List.map_eq_nil_iff.mp looked.symm]
      rfl
  | cons byte bytes ih =>
      cases digits with
      | nil => cases looked
      | cons digit digits =>
          rw [List.map_cons, List.map_cons] at looked
          obtain ⟨first, rest⟩ := List.cons.inj looked
          have turn : decodeTurn size state byte = shiftIn 5 8 decodedByte size state digit := by
            rw [decodeTurn, first]
          rw [List.foldlM_cons, List.foldlM_cons, turn]
          exact congrArg _ (funext fun next => ih (mapM_eq_some_iff.mpr rest) next rest)

/-- What is decoded from a front of bytes fits into the memory for all of them. -/
theorem front_room {front : Bytes} (length : front.length ≤ bytes.length)
    (known : front.mapM base32Index = some digits) :
    digits.length * 5 < (maxDecodedSize bytes.length + 1) * 8 := by
  rw [digits_length known, maxDecodedSize]
  omega

/-- A byte that is not of the alphabet raises. -/
theorem foldlM_decodeTurn_invalid (missing : bytes.mapM base32Index = none) :
    bytes.foldlM (decodeTurn (maxDecodedSize bytes.length)) startState =
      .error (.raised (.valueError "Invalid Base32 character")) := by
  obtain ⟨front, byte, back, digits, rfl, known, absent⟩ := exists_of_mapM_none missing
  obtain ⟨state, ran, _⟩ := @foldlM_shiftIn_kept UInt8 5 8 decodedByte UInt8.ofNat
    (maxDecodedSize (front ++ byte :: back).length) decodedByte_eq (by decide) (by decide) digits
    (digits_small known) (front_room (by rw [List.length_append]; omega) known)
  rw [List.foldlM_append, foldlM_decodeTurn known, ran, ok_bind, List.foldlM_cons, decodeTurn,
    absent]
  rfl

private theorem encode_eq_nil_iff {text : Text} : encode text = [] ↔ text = [] := by
  have length := length_le_length_encode text
  constructor
  · intro none
    rw [none, List.length_nil] at length
    exact List.length_eq_zero_iff.mp (Nat.le_zero.mp length)
  · rintro rfl
    rfl

private theorem stream_digits {text : Text} {indices : List Nat}
    (known : text.mapM Qr.base32Index = some indices) :
    (indices.map UInt32.ofNat).map UInt32.toNat = indices ∧ ∀ index ∈ indices, index < 2 ^ 5 := by
  have looked := mapM_eq_some_iff.mp known
  have small : ∀ index ∈ indices, index < 2 ^ 5 := by
    intro index member
    have image : some index ∈ text.map Qr.base32Index := by
      rw [looked]
      exact List.mem_map_of_mem member
    obtain ⟨char, _, found⟩ := List.mem_map.mp image
    exact List.findIdx?_eq_some_iff_getElem.mp found |>.1
  refine ⟨?_, small⟩
  rw [List.map_map]
  refine (List.map_congr_left fun index member => ?_).trans (List.map_id indices)
  exact UInt32.toNat_ofNat_of_lt' (lt_trans (small index member) (by decide))

/-- **The device decodes by regrouping**, where there is something to decode. -/
theorem base32Decode_eq (text : Text) :
    base32Decode text = (Qr.base32Decode text).mapError .raised := by
  have stripped := stripPadding_eq text
  have looked := mapM_encode (text.rdropWhile (· == '='))
  rw [base32Decode, Qr.base32Decode, stripped]
  generalize text.rdropWhile (· == '=') = rest at looked ⊢
  by_cases empty : rest = []
  · subst empty
    rfl
  · have some : 0 < (encode rest).length :=
      List.length_pos_iff.mpr (mt encode_eq_nil_iff.mp empty)
    have given : maxDecodedSize (encode rest).length ≠ 0 := by
      unfold maxDecodedSize
      omega
    rw [if_neg given, if_neg empty]
    change (encode rest).foldlM _ startState >>= _ = _
    cases known : rest.mapM Qr.base32Index with
    | none =>
        rw [known] at looked
        rw [foldlM_decodeTurn_invalid looked]
        rfl
    | some indices =>
        rw [known] at looked
        obtain ⟨after, _, ran⟩ := @foldlM_shiftIn_start UInt8 5 8 decodedByte UInt8.ofNat
          (maxDecodedSize (encode rest).length) decodedByte_eq (by decide) (by decide) _
          (digits_small looked) (front_room (Nat.le_refl _) looked)
        rw [foldlM_decodeTurn looked, ran, ok_bind, (stream_digits known).1]
        rfl

end Decoding

section Reference

private theorem drainStream_eq (target fuel buffer bits : Nat) :
    drainStream target fuel buffer bits =
      ((drain target fuel ⟨buffer, bits⟩).1, (drain target fuel ⟨buffer, bits⟩).2.buffer,
        (drain target fuel ⟨buffer, bits⟩).2.bits) := by
  induction fuel generalizing buffer bits with
  | zero => rfl
  | succ fuel ih =>
      rw [drainStream, drain]
      by_cases more : target ≤ bits
      · rw [if_pos more, if_pos more]
        dsimp only
        rw [ih, Nat.shiftLeft_eq, Nat.one_mul, Nat.and_two_pow_sub_one_eq_mod,
          Nat.and_two_pow_sub_one_eq_mod, Nat.shiftRight_eq_div_pow]
      · rw [if_neg more, if_neg more]

/-- The reference regroups the digits. -/
theorem stream_eq {source target : Nat} {digits : List Nat}
    (small : ∀ digit ∈ digits, digit < 2 ^ source) (buffer bits : Nat) :
    stream source target buffer bits digits =
      ((regroup source target ⟨buffer, bits⟩ digits).1,
        (regroup source target ⟨buffer, bits⟩ digits).2.buffer,
        (regroup source target ⟨buffer, bits⟩ digits).2.bits) := by
  induction digits generalizing buffer bits with
  | nil => rfl
  | cons digit digits ih =>
      have first := small digit List.mem_cons_self
      have poured : (buffer <<< source) ||| digit = buffer * 2 ^ source + digit := by
        rw [← Nat.shiftLeft_add_eq_or_of_lt first, Nat.shiftLeft_eq]
      rw [stream, regroup, pour, poured]
      dsimp only
      rw [drainStream_eq]
      dsimp only
      rw [ih fun other member => small other (List.mem_cons_of_mem _ member)]

/-- **The reference encodes as the device.** -/
theorem base32EncodeStream_eq (data : Bytes) (addPadding : Bool) :
    base32EncodeStream data addPadding = base32Text data addPadding := by
  have length := length_groups data
  have completed := groups_eq_complete data
  rw [complete] at completed
  have streamed := @stream_eq 8 5 _ (bytes_small data) 0 0
  change _ = ((regroup 8 5 .empty (data.map UInt8.toNat)).1,
    (regroup 8 5 .empty (data.map UInt8.toNat)).2.buffer,
    (regroup 8 5 .empty (data.map UInt8.toNat)).2.bits) at streamed
  rw [base32EncodeStream, streamed, base32Text, List.length_map, length, completed]
  generalize regroup 8 5 .empty (data.map UInt8.toNat) = regrouped
  have last : (if 0 < regrouped.2.bits then
        [base32Char ((regrouped.2.buffer <<< (5 - regrouped.2.bits)) &&& 0x1F)] else []) =
      (if 0 < regrouped.2.bits then
        [regrouped.2.buffer * 2 ^ (5 - regrouped.2.bits) % 2 ^ 5] else []).map base32Char := by
    have low := Nat.and_two_pow_sub_one_eq_mod
      (regrouped.2.buffer * 2 ^ (5 - regrouped.2.bits)) 5
    by_cases some : 0 < regrouped.2.bits
    · rw [if_pos some, if_pos some, Nat.shiftLeft_eq, List.map_singleton, ← low]
    · rw [if_neg some, if_neg some, List.map_nil]
  rw [List.map_append, ← last]
  cases addPadding with
  | true => rfl
  | false => exact List.append_nil _

private theorem streamIndex_eq (char : Char) : streamIndex char = (Qr.base32Index char).elim
    (.error (.valueError ("Invalid Base32 character: " ++ toString char))) .ok := by
  rw [streamIndex, Qr.base32Index]
  cases base32Chars.idxOf? char <;> rfl

/-- **The reference decodes as the device**, where there is something to decode. -/
theorem base32DecodeStream_agree {text : Text} (some : text.rdropWhile (· == '=') ≠ []) :
    Agree (base32Decode text) (base32DecodeStream text) := by
  rw [base32Decode_eq, Qr.base32Decode, if_neg some, base32DecodeStream]
  generalize text.rdropWhile (· == '=') = rest
  cases known : rest.mapM Qr.base32Index with
  | some indices =>
      rw [mapM_of_lookup streamIndex_eq known, ok_bind, stream_eq (stream_digits known).2]
      exact .decoded _
  | none =>
      obtain ⟨char, raised⟩ := mapM_raises streamIndex_eq known
      rw [raised]
      exact .invalid _ _

end Reference

section RoundTrip

private theorem groups_small (data : Bytes) :
    ∀ index ∈ groups 5 (spell 8 (data.map UInt8.toNat)), index < 32 := groups_lt 5 _

/-- What the device encoded it decodes, padded or not. -/
theorem base32Decode_base32Text {data : Bytes} (some : data ≠ []) (addPadding : Bool) :
    base32Decode (base32Text data addPadding) = .ok data := by
  have small := groups_small data
  have back := Qr.base32Bytes_complete data
  rw [← groups_eq_complete] at back
  have length := length_groups data
  have positive := List.length_pos_iff.mpr some
  rw [base32Text, base32Decode_eq, Qr.base32Decode]
  generalize groups 5 (spell 8 (data.map UInt8.toNat)) = indices at small back length ⊢
  have nonempty : indices ≠ [] := by
    intro none
    rw [none, List.length_nil] at length
    omega
  have clean := Qr.pad_not_mem small
  have stripped : (if addPadding then indices.map base32Char ++
        List.replicate ((8 - (indices.map base32Char).length % 8) % 8) '='
      else indices.map base32Char).rdropWhile (· == '=') = indices.map base32Char := by
    cases addPadding with
    | true => exact Qr.rdropWhile_pad clean _
    | false =>
        have plain := Qr.rdropWhile_pad clean 0
        rw [List.replicate_zero, List.append_nil] at plain
        exact plain
  rw [stripped, if_neg (mt List.map_eq_nil_iff.mp nonempty), Qr.mapM_base32Index small]
  exact congrArg Except.ok back

/-- **What is encoded is canonical.** -/
theorem canonical_base32Text (data : Bytes) : Canonical (base32Text data false) := by
  have small := groups_small data
  have spelled := spell_groups (by decide : 0 < 5) (spell 8 (data.map UInt8.toNat))
  have length := length_groups data
  have bits := length_spell 8 (data.map UInt8.toNat)
  rw [List.length_map] at bits
  refine ⟨_, Qr.mapM_base32Index small, ?_, ?_⟩
  · change ((groups 5 (spell 8 (data.map UInt8.toNat))).map base32Char).length % 8 ∈ _
    rw [List.length_map, length]
    simp only [List.mem_cons, List.not_mem_nil, or_false]
    omega
  · change ∀ bit ∈ (spell 5 _).drop
      (((groups 5 (spell 8 (data.map UInt8.toNat))).map base32Char).length * 5 / 8 * 8), _
    have whole : (data.length * 8 + 4) / 5 * 5 / 8 * 8 = data.length * 8 := by omega
    rw [List.length_map, length, spelled, whole, fill, ← bits, List.drop_left]
    intro bit member
    exact List.eq_of_mem_replicate member

/-- Indices whose spare bits are zero are the groups of the bytes they stand for. -/
theorem groups_regroup {indices : List Nat} (small : ∀ index ∈ indices, index < 2 ^ 5)
    (residue : indices.length % 8 ∈ [0, 2, 4, 5, 7])
    (zero : ∀ bit ∈ (spell 5 indices).drop (indices.length * 5 / 8 * 8), bit = false) :
    groups 5 (spell 8 (regroup 5 8 .empty indices).1) = indices := by
  have fitsEmpty : Reservoir.empty.buffer < 2 ^ Reservoir.empty.bits := Nat.one_pos
  have drained := regroup_drained (by decide : 0 < 8) indices small fitsEmpty (by decide)
  have kept := spell_regroup (by decide : 0 < 8) small
  generalize regroup 5 8 .empty indices = regrouped at drained kept ⊢
  have bits := drained.bits_eq
  have short := drained.short
  rw [Reservoir.empty, Nat.zero_add] at bits
  have count : indices.length * 5 / 8 * 8 = regrouped.1.length * 8 := by omega
  have length := length_spell 8 regrouped.1
  rw [← kept, count, ← length, List.drop_left] at zero
  have spare : ofDigit regrouped.2.bits regrouped.2.buffer =
      List.replicate regrouped.2.bits false :=
    List.eq_replicate_iff.mpr ⟨length_ofDigit _ _, zero⟩
  apply eq_of_spell_eq (by decide : 0 < 5) (groups_lt 5 _) small
  simp only [List.mem_cons, List.not_mem_nil, or_false] at residue
  have whole : (regrouped.1.length * 8 + 5 - 1) / 5 * 5 - regrouped.1.length * 8 =
      regrouped.2.bits := by omega
  rw [spell_groups (by decide), fill, length, whole, ← kept, spare]

/-- The characters of indices are the characters that were looked up. -/
theorem map_base32Char {text : Text} {indices : List Nat}
    (known : text.mapM Qr.base32Index = some indices) : indices.map base32Char = text := by
  have looked := mapM_eq_some_iff.mp known
  have char : ∀ {char index}, Qr.base32Index char = some index → base32Char index = char := by
    intro char index found
    obtain ⟨small, same, _⟩ := List.findIdx?_eq_some_iff_getElem.mp found
    rw [base32Char, List.getD_eq_getElem?_getD, List.getElem?_eq_getElem small]
    exact beq_iff_eq.mp same
  induction text generalizing indices with
  | nil =>
      rw [List.map_eq_nil_iff.mp looked.symm]
      rfl
  | cons first text ih =>
      cases indices with
      | nil => cases looked
      | cons index indices =>
          obtain ⟨found, rest⟩ := List.cons.inj looked
          rw [List.map_cons, char found, ih (mapM_eq_some_iff.mpr rest) rest]

/-- **Exactly the canonical texts are encoded again**, where there is something to decode. -/
theorem canonical_iff {text : Text} (some : text.rdropWhile (· == '=') ≠ []) :
    base32Decode text >>= (base32Encode · false) = .ok text ↔ Canonical text := by
  constructor
  · intro again
    obtain ⟨data, _, encoded⟩ := bind_eq_ok.mp again
    rw [base32Encode_eq] at encoded
    rw [← Except.ok.inj encoded]
    exact canonical_base32Text data
  · rintro ⟨indices, known, residue, zero⟩
    have chars := map_base32Char known
    have small := (stream_digits known).2
    have clean : '=' ∉ text := by
      rw [← chars]
      intro member
      obtain ⟨index, inside, same⟩ := List.mem_map.mp member
      exact Qr.base32Char_ne_pad (small index inside) same
    have plain := Qr.rdropWhile_pad clean 0
    rw [List.replicate_zero, List.append_nil] at plain
    have length : indices.length = text.length := by rw [← chars, List.length_map]
    rw [← length] at residue zero
    have fitsEmpty : Reservoir.empty.buffer < 2 ^ Reservoir.empty.bits := Nat.one_pos
    have written := (regroup_drained (by decide : 0 < 8) indices small fitsEmpty (by decide)).small
    have bytes : ((regroup 5 8 .empty indices).1.map UInt8.ofNat).map UInt8.toNat =
        (regroup 5 8 .empty indices).1 := by
      rw [List.map_map]
      exact (List.map_congr_left fun byte member => toNat_utf8Byte (written byte member)).trans
        (List.map_id _)
    have decoded : base32Decode text = .ok ((regroup 5 8 .empty indices).1.map UInt8.ofNat) := by
      rw [base32Decode_eq, Qr.base32Decode, if_neg some, plain, known]
      rfl
    rw [decoded, ok_bind, base32Encode_eq, base32Text, bytes, groups_regroup small residue zero,
      chars]
    rfl

end RoundTrip

/-! ## The codec -/

section Codec

variable (data : Bytes) (addPadding : Bool) (text : Text)

private theorem decode_ne_outside : base32Decode text ≠ .error .outside := by
  rw [base32Decode_eq]
  cases Qr.base32Decode text <;> nofun

/-- The loop of `base32_encode` keeps what it reads. -/
theorem keeps_encoding {front : Bytes} (start : front <+: data) : ∃ state,
    front.foldlM (encodeTurn (maxEncodedSize data.length addPadding)) startState = .ok state ∧
      Kept 8 5 (maxEncodedSize data.length addPadding) base32Char (front.map UInt8.toNat)
        state := by
  have length := start.length_le
  have room : (front.map UInt8.toUInt32).length * 8 <
      (maxEncodedSize data.length addPadding + 1) * 5 := by
    rw [List.length_map, maxEncodedSize]
    cases addPadding with
    | true =>
        rw [if_pos rfl]
        omega
    | false =>
        rw [if_neg Bool.false_ne_true]
        omega
  have kept := foldlM_shiftIn_kept encodedChar_eq (by decide) (by decide) (words_small front) room
  rw [words_toNat, ← foldlM_encodeTurn] at kept
  exact kept

/-- The loop of `base32_decode` keeps what it reads. -/
theorem keeps_decoding {front : Bytes} {digits : List UInt32}
    (start : front <+: stripPadding text) (known : front.mapM base32Index = some digits) :
    ∃ state, front.foldlM (decodeTurn (maxDecodedSize (stripPadding text).length)) startState =
        .ok state ∧
      Kept 5 8 (maxDecodedSize (stripPadding text).length) UInt8.ofNat (digits.map UInt32.toNat)
        state := by
  rw [foldlM_decodeTurn known]
  exact foldlM_shiftIn_kept decodedByte_eq (by decide) (by decide) (digits_small known)
    (front_room start.length_le known)

/-- **The base 32 of the device is a correct codec exactly where there is something to encode
and something to decode.** -/
theorem base32_correct_iff :
    Correct data addPadding text ↔ data ≠ [] ∧ text.rdropWhile (· == '=') ≠ [] := by
  constructor
  · intro correct
    refine ⟨?_, ?_⟩
    · rintro rfl
      have travels := correct.travels
      rw [base32Encode_eq] at travels
      cases addPadding <;> cases travels
    · intro empty
      have agrees := correct.agreesDecode
      rw [base32Decode_eq, Qr.base32Decode, if_pos empty] at agrees
      generalize base32DecodeStream text = reference at agrees
      cases agrees
  · rintro ⟨someData, someText⟩
    exact {
      encodes := base32Encode_eq data addPadding
      travels := by
        rw [base32Encode_eq, ok_bind]
        exact base32Decode_base32Text someData addPadding
      canonical := canonical_iff someText
      keepsEncoding := fun _ start => keeps_encoding data addPadding start
      keepsDecoding := fun _ _ start known => keeps_decoding text start known
      inside := by
        refine ⟨?_, decode_ne_outside text⟩
        rw [base32Encode_eq]
        intro outside
        cases outside
      agreesEncode := by rw [base32Encode_eq, base32EncodeStream_eq]
      agreesDecode := base32DecodeStream_agree someText }

/-- Nothing cannot be decoded: there is no memory of size zero. -/
theorem not_correct_empty : ¬ Correct [] false [] := by
  intro correct
  have travels := correct.travels
  cases travels

end Codec

end VaultSeed.Baseconv
