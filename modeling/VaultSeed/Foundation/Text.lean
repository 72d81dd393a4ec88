import VaultSeed.Foundation.Bytes
import Mathlib.Tactic.IntervalCases

/-! # Decimal, hexadecimal and UTF-8 text

The decimal numerals of `"{:03d}".format` and the reading of them by `int`, the
hexadecimal text of `binascii.hexlify` and `unhexlify`, and `str.encode`.
-/

namespace Python

/-- `text.encode()`. -/
def encode (text : Text) : Bytes := text.flatMap String.utf8EncodeChar

/-- The number of bytes of a character and the marker bits of its first one, from
that byte. -/
def utf8Lead (lead : UInt8) : Nat × Nat :=
  if lead.toNat < 0x80 then (1, 0)
  else if lead.toNat < 0xe0 then (2, 0xc0)
  else if lead.toNat < 0xf0 then (3, 0xe0)
  else (4, 0xf0)

/-- Each further byte of a character adds six bits to its code point. -/
def utf8Continue (value : Nat) (byte : UInt8) : Nat := value * 0x40 + (byte.toNat - 0x80)

/-- Decode at most `fuel` characters. A character counts only in the spelling
`encode` gives it. -/
def decodeWithin : Nat → Bytes → Option Text
  | _, [] => some []
  | 0, _ :: _ => none
  | fuel + 1, lead :: rest =>
      let more := rest.take ((utf8Lead lead).1 - 1)
      let char := Char.ofNat (more.foldl utf8Continue (lead.toNat - (utf8Lead lead).2))
      if String.utf8EncodeChar char = lead :: more then
        (decodeWithin fuel (rest.drop ((utf8Lead lead).1 - 1))).map (char :: ·)
      else none

/-- `data.decode()`; bytes that are not UTF-8 raise. -/
def decode (data : Bytes) : Option Text := decodeWithin data.length data

private theorem utf8Lead_of_toNat {lead : UInt8} {value : Nat} (same : lead.toNat = value) :
    utf8Lead lead = if value < 0x80 then (1, 0) else if value < 0xe0 then (2, 0xc0)
      else if value < 0xf0 then (3, 0xe0) else (4, 0xf0) := by
  rw [utf8Lead, same]

/-- A small number is the byte's own. -/
theorem toNat_utf8Byte {value : Nat} (small : value < 256) : (UInt8.ofNat value).toNat = value :=
  UInt8.toNat_ofNat_of_lt' small

/-- The bytes of a character give its length and its code point. -/
theorem utf8EncodeChar_spec (char : Char) : ∃ lead rest, String.utf8EncodeChar char = lead :: rest ∧
    (utf8Lead lead).1 - 1 = rest.length ∧
    rest.foldl utf8Continue (lead.toNat - (utf8Lead lead).2) = char.toNat := by
  have valid : char.val.toNat < 0x110000 := by
    rcases char.valid with low | high
    · exact lt_trans low (by decide)
    · exact high.2
  unfold String.utf8EncodeChar
  change ∃ lead rest, (if char.val.toNat ≤ 0x7f then _ else _) = lead :: rest ∧ _ ∧
    _ = char.val.toNat
  generalize char.val.toNat = value at valid ⊢
  -- One case for each length of the encoding; the bytes never wrap around.
  by_cases one : value ≤ 0x7f
  · have first : (UInt8.ofNat value).toNat = value := toNat_utf8Byte (by omega)
    refine ⟨_, _, if_pos one, ?_, ?_⟩
    · rw [utf8Lead_of_toNat first, if_pos (by omega)]
      rfl
    · rw [utf8Lead_of_toNat first, if_pos (by omega), List.foldl_nil, first, Nat.sub_zero]
  have last : (UInt8.ofNat (value % 0x40 + 0x80)).toNat = value % 0x40 + 0x80 :=
    toNat_utf8Byte (by omega)
  by_cases two : value ≤ 0x7ff
  · have first : (UInt8.ofNat (value / 64 % 0x20 + 0xc0)).toNat = value / 64 % 0x20 + 0xc0 :=
      toNat_utf8Byte (by omega)
    have kind : utf8Lead (UInt8.ofNat (value / 64 % 0x20 + 0xc0)) = (2, 0xc0) := by
      rw [utf8Lead_of_toNat first, if_neg (by omega), if_pos (by omega)]
    refine ⟨_, _, (if_neg one).trans (if_pos two), by rw [kind]; rfl, ?_⟩
    rw [kind]
    change utf8Continue (_ - 0xc0) _ = value
    unfold utf8Continue
    omega
  have middle : (UInt8.ofNat (value / 64 % 0x40 + 0x80)).toNat = value / 64 % 0x40 + 0x80 :=
    toNat_utf8Byte (by omega)
  by_cases three : value ≤ 0xffff
  · have first : (UInt8.ofNat (value / 4096 % 0x10 + 0xe0)).toNat = value / 4096 % 0x10 + 0xe0 :=
      toNat_utf8Byte (by omega)
    have kind : utf8Lead (UInt8.ofNat (value / 4096 % 0x10 + 0xe0)) = (3, 0xe0) := by
      rw [utf8Lead_of_toNat first, if_neg (by omega), if_neg (by omega), if_pos (by omega)]
    refine ⟨_, _, (if_neg one).trans ((if_neg two).trans (if_pos three)), by rw [kind]; rfl, ?_⟩
    rw [kind]
    change utf8Continue (utf8Continue (_ - 0xe0) _) _ = value
    unfold utf8Continue
    omega
  · have first : (UInt8.ofNat (value / 262144 % 0x08 + 0xf0)).toNat =
        value / 262144 % 0x08 + 0xf0 := toNat_utf8Byte (by omega)
    have second : (UInt8.ofNat (value / 4096 % 0x40 + 0x80)).toNat = value / 4096 % 0x40 + 0x80 :=
      toNat_utf8Byte (by omega)
    have kind : utf8Lead (UInt8.ofNat (value / 262144 % 0x08 + 0xf0)) = (4, 0xf0) := by
      rw [utf8Lead_of_toNat first, if_neg (by omega), if_neg (by omega), if_neg (by omega)]
    refine ⟨_, _, (if_neg one).trans ((if_neg two).trans (if_neg three)), by rw [kind]; rfl, ?_⟩
    rw [kind]
    change utf8Continue (utf8Continue (utf8Continue (_ - 0xf0) _) _) _ = value
    unfold utf8Continue
    omega

/-- A character of the first 128 is its own byte. -/
theorem encode_of_ascii {text : Text} (known : ∀ char ∈ text, char.toNat < 128) :
    encode text = text.map fun char => UInt8.ofNat char.toNat := by
  induction text with
  | nil => rfl
  | cons char rest ih =>
      have single : String.utf8EncodeChar char = [UInt8.ofNat char.toNat] := by
        have small : char.val.toNat ≤ 0x7f := Nat.le_of_lt_succ (known char List.mem_cons_self)
        unfold String.utf8EncodeChar
        exact if_pos small
      have later := ih fun other member => known other (List.mem_cons_of_mem _ member)
      unfold encode at later ⊢
      rw [List.flatMap_cons, single, later]
      rfl

private theorem decodeWithin_encode (text : Text) (fuel : Nat) (enough : text.length ≤ fuel) :
    decodeWithin fuel (encode text) = some text := by
  induction text generalizing fuel with
  | nil => cases fuel <;> rfl
  | cons char text ih =>
      obtain ⟨lead, rest, spelled, size, value⟩ := utf8EncodeChar_spec char
      obtain ⟨fuel, rfl⟩ : ∃ less, fuel = less + 1 := ⟨fuel - 1, by
        rw [List.length_cons] at enough
        omega⟩
      have encoded : encode (char :: text) = lead :: (rest ++ encode text) := by
        rw [encode, List.flatMap_cons, spelled]
        rfl
      rw [encoded, decodeWithin]
      simp only [size, List.take_left, List.drop_left, value, Char.ofNat_toNat, spelled,
        ↓reduceIte, ih fuel (by rw [List.length_cons] at enough; omega), Option.map_some]

/-- Encoding is no shorter than the text. -/
theorem length_le_length_encode (text : Text) : text.length ≤ (encode text).length := by
  induction text with
  | nil => exact Nat.le_refl _
  | cons char text ih =>
      obtain ⟨lead, rest, spelled, _, _⟩ := utf8EncodeChar_spec char
      rw [encode, List.flatMap_cons, spelled, List.length_append, List.length_cons,
        List.length_cons]
      change text.length + 1 ≤ rest.length + 1 + (encode text).length
      omega

/-- A character beyond ASCII has no byte of ASCII. -/
theorem utf8EncodeChar_high {char : Char} (high : 128 ≤ char.toNat) :
    ∀ byte ∈ String.utf8EncodeChar char, 128 ≤ byte.toNat := by
  have large : ¬ char.val.toNat ≤ 0x7f := Nat.not_le.mpr high
  have valid : char.val.toNat < 0x110000 := by
    rcases char.valid with low | above
    · exact lt_trans low (by decide)
    · exact above.2
  intro byte member
  unfold String.utf8EncodeChar at member
  dsimp only at member
  rw [if_neg large] at member
  generalize char.val.toNat = value at large valid member
  have toNat : ∀ {number : Nat}, number < 256 → (UInt8.ofNat number).toNat = number :=
    fun small => toNat_utf8Byte small
  split at member
  · simp only [List.mem_cons, List.not_mem_nil, or_false] at member
    rcases member with rfl | rfl <;> rw [toNat (by omega)] <;> omega
  · split at member
    · simp only [List.mem_cons, List.not_mem_nil, or_false] at member
      rcases member with rfl | rfl | rfl <;> rw [toNat (by omega)] <;> omega
    · simp only [List.mem_cons, List.not_mem_nil, or_false] at member
      rcases member with rfl | rfl | rfl | rfl <;> rw [toNat (by omega)] <;> omega

/-- A character beyond ASCII takes more than one byte. -/
theorem length_lt_length_encode {text : Text} {char : Char} (member : char ∈ text)
    (high : 128 ≤ char.toNat) : text.length < (encode text).length := by
  have several : 2 ≤ (String.utf8EncodeChar char).length := by
    have large : ¬ char.val.toNat ≤ 0x7f := Nat.not_le.mpr high
    unfold String.utf8EncodeChar
    simp only [large, ↓reduceIte]
    split_ifs <;> simp
  obtain ⟨front, back, rfl⟩ := List.append_of_mem member
  have before := length_le_length_encode front
  have after := length_le_length_encode back
  simp only [encode, List.flatMap_append, List.flatMap_cons, List.length_append,
    List.length_cons] at before after ⊢
  omega

/-- Decoding inverts encoding. -/
@[simp] theorem decode_encode (text : Text) : decode (encode text) = some text :=
  decodeWithin_encode text _ (length_le_length_encode text)

private theorem encode_of_decodeWithin {fuel : Nat} {data : Bytes} {text : Text}
    (decoded : decodeWithin fuel data = some text) : encode text = data := by
  induction fuel generalizing data text with
  | zero =>
      cases data with
      | nil =>
          cases decoded
          rfl
      | cons lead rest => cases decoded
  | succ fuel ih =>
      cases data with
      | nil =>
          cases decoded
          rfl
      | cons lead rest =>
          rw [decodeWithin] at decoded
          split at decoded
          · rename_i spelled
            obtain ⟨tail, rest, rfl⟩ := Option.map_eq_some_iff.mp decoded
            rw [encode, List.flatMap_cons, spelled]
            change lead :: _ ++ encode tail = _
            rw [ih rest, List.cons_append, List.take_append_drop]
          · cases decoded

/-- Encoding inverts decoding. -/
theorem encode_of_decode {data : Bytes} {text : Text} (decoded : decode data = some text) :
    encode text = data :=
  encode_of_decodeWithin decoded

/-- `binascii.hexlify(data).decode()`. -/
def hexlify (data : Bytes) : Text :=
  data.flatMap fun byte => [Nat.digitChar (byte.toNat / 16), Nat.digitChar (byte.toNat % 16)]

/-- The value of one hexadecimal digit. -/
def hexValue (char : Char) : Option Nat :=
  if '0' ≤ char ∧ char ≤ '9' then some (char.toNat - '0'.toNat)
  else if 'a' ≤ char ∧ char ≤ 'f' then some (char.toNat - 'a'.toNat + 10)
  else if 'A' ≤ char ∧ char ≤ 'F' then some (char.toNat - 'A'.toNat + 10)
  else none

/-- `binascii.unhexlify(text)`; an odd length or another character raises. -/
def unhexlify : Text → Option Bytes
  | [] => some []
  | [_] => none
  | high :: low :: rest => do
      let upper ← hexValue high
      let lower ← hexValue low
      let tail ← unhexlify rest
      some (UInt8.ofNat (16 * upper + lower) :: tail)

private theorem hexValue_digitChar (digit : Nat) (small : digit < 16) :
    hexValue (Nat.digitChar digit) = some digit := by
  interval_cases digit <;> decide

/-- Hexadecimal digits are read back. -/
@[simp] theorem unhexlify_hexlify (data : Bytes) : unhexlify (hexlify data) = some data := by
  induction data with
  | nil => rfl
  | cons byte rest ih =>
      have upper := hexValue_digitChar (byte.toNat / 16) (by have := byte.toNat_lt; omega)
      have lower := hexValue_digitChar (byte.toNat % 16) (by omega)
      have value : 16 * (byte.toNat / 16) + byte.toNat % 16 = byte.toNat := by omega
      change unhexlify (Nat.digitChar (byte.toNat / 16) :: Nat.digitChar (byte.toNat % 16) ::
        hexlify rest) = some (byte :: rest)
      simp only [unhexlify, upper, lower, ih, Option.bind_eq_bind, Option.bind_some, value,
        UInt8.ofNat_toNat]

/-- `data.find(pattern)`: where a pattern occurs first. -/
def find {α : Type} [BEq α] (pattern : List α) : List α → Option Nat
  | [] => if pattern.isEmpty then some 0 else none
  | item :: rest =>
      if pattern.isPrefixOf (item :: rest) then some 0 else (find pattern rest).map (· + 1)

/-- A pattern is found exactly when it occurs. -/
theorem find_isSome {α : Type} [BEq α] [LawfulBEq α] (pattern data : List α) :
    (find pattern data).isSome = true ↔ pattern <:+: data := by
  induction data with
  | nil =>
      rw [find, List.infix_nil]
      cases pattern <;> simp
  | cons item rest ih =>
      rw [find, List.infix_cons_iff]
      by_cases here : pattern.isPrefixOf (item :: rest) = true
      · simp [here, List.isPrefixOf_iff_prefix.mp here]
      · have absent : ¬ pattern <+: item :: rest := fun start =>
          here (List.isPrefixOf_iff_prefix.mpr start)
        simp [here, absent, ih]

/-- The pattern stands where it is found. -/
theorem exists_of_find {α : Type} [BEq α] [LawfulBEq α] {pattern data : List α} {position : Nat}
    (found : find pattern data = some position) :
    ∃ back, data = data.take position ++ pattern ++ back := by
  induction data generalizing position with
  | nil =>
      rw [find] at found
      cases pattern with
      | nil => exact ⟨[], by simp⟩
      | cons first pattern => cases found
  | cons item rest ih =>
      rw [find] at found
      by_cases here : pattern.isPrefixOf (item :: rest) = true
      · rw [if_pos here] at found
        cases found
        obtain ⟨back, same⟩ := List.isPrefixOf_iff_prefix.mp here
        exact ⟨back, same.symm⟩
      · rw [if_neg here] at found
        obtain ⟨before, later, rfl⟩ := Option.map_eq_some_iff.mp found
        obtain ⟨back, same⟩ := ih later
        refine ⟨back, ?_⟩
        rw [List.take_succ_cons, List.cons_append, List.cons_append, ← same]

/-- A pattern is found right after a text without its first character. -/
theorem find_append {first : Char} {pattern front : Text} (absent : first ∉ front) (back : Text) :
    find (first :: pattern) (front ++ (first :: pattern ++ back)) = some front.length := by
  induction front with
  | nil =>
      change find (first :: pattern) (first :: (pattern ++ back)) = some 0
      have here : (first :: pattern).isPrefixOf (first :: (pattern ++ back)) = true :=
        List.isPrefixOf_iff_prefix.mpr ⟨back, rfl⟩
      rw [find, if_pos here]
  | cons char front ih =>
      have different : first ≠ char := fun same => absent (same ▸ List.mem_cons_self)
      have later := ih fun member => absent (List.mem_cons_of_mem _ member)
      rw [List.cons_append, find, if_neg, later]
      · rfl
      · simp [List.isPrefixOf, different]

end Python
