import VaultSeed.Baseconv.PurePython

/-! # Pure Python base 43 and base 58 is a bijection

Data are the zeros in front and the number behind them, and so is a text over the alphabet.
Both directions keep the number of zeros and the number, and either determines its side.
-/

namespace VaultSeed.Baseconv

open Python Effect Positional

section Alphabet

variable {base : Base} {text : Text}

private theorem length_chars (base : Base) : base.chars.length = base.radix := by
  cases base <;> rfl

/-- A text over the alphabet of a base is a text of digits. -/
theorem exists_digits_of_known (known : ∀ char ∈ text, char ∈ base.chars) :
    ∃ digits : List Nat, (∀ digit ∈ digits, digit < base.radix) ∧
      text = digits.map base.char := by
  obtain ⟨digits, small, same⟩ := exists_digits '0' known
  rw [length_chars] at small
  exact ⟨digits, small, same⟩

/-- What `findDigit` raises for a character that is not in the alphabet. -/
def Base.forbidden (base : Base) (char : Char) : Exn :=
  .valueError ("forbidden character " ++ toString char ++ " for base " ++ toString base.radix)

private theorem findDigit_eq (base : Base) (char : Char) :
    (char ∈ base.chars ∧ ∃ digit, findDigit base char = .ok digit) ∨
      (char ∉ base.chars ∧ findDigit base char = .error (base.forbidden char)) := by
  cases found : base.chars.idxOf? char with
  | some digit =>
      have known : char ∈ base.chars := by
        by_contra unknown
        rw [List.idxOf?_eq_none_iff.mpr unknown] at found
        cases found
      exact .inl ⟨known, digit, by rw [findDigit, found]⟩
  | none =>
      exact .inr ⟨List.idxOf?_eq_none_iff.mp found, by rw [findDigit, found]; rfl⟩

/-- Reading the characters stops at one that is not in the alphabet, if there is one. -/
theorem mapM_findDigit (foreign : ∃ char ∈ text, char ∉ base.chars) :
    ∃ char ∈ text, char ∉ base.chars ∧
      text.mapM (findDigit base) = .error (base.forbidden char) := by
  induction text with
  | nil => simp at foreign
  | cons char text ih =>
      rw [List.mapM_cons]
      rcases findDigit_eq base char with ⟨known, digit, found⟩ | ⟨unknown, raised⟩
      · have later : ∃ other ∈ text, other ∉ base.chars := by
          obtain ⟨other, member, unknown⟩ := foreign
          rcases List.mem_cons.mp member with rfl | member
          · exact absurd known unknown
          · exact ⟨other, member, unknown⟩
        obtain ⟨other, member, unknown, stopped⟩ := ih later
        refine ⟨other, List.mem_cons_of_mem _ member, unknown, ?_⟩
        rw [found, ok_bind, stopped, error_bind]
      · exact ⟨char, List.mem_cons_self, unknown, by rw [raised, error_bind]⟩

end Alphabet

section Data

variable {data : Bytes}

private theorem ofNat_toNat_map (data : Bytes) : (data.map UInt8.toNat).map UInt8.ofNat = data := by
  rw [List.map_map]
  exact (List.map_congr_left fun byte _ => UInt8.ofNat_toNat).trans (List.map_id _)

private theorem toNat_ofNat_map {digits : List Nat} (small : ∀ digit ∈ digits, digit < 256) :
    (digits.map UInt8.ofNat).map UInt8.toNat = digits := by
  rw [List.map_map]
  refine (List.map_congr_left fun digit member => ?_).trans (List.map_id _)
  exact UInt8.toNat_ofNat_of_lt' (small digit member)

private theorem nPad_eq_zeros (data : Bytes) : nPad 0 data = zeros (data.map UInt8.toNat) := by
  have same : ((fun digit : Nat => digit == 0) ∘ UInt8.toNat) = fun byte : UInt8 => byte == 0 := by
    funext byte
    by_cases zero : byte = 0
    · rw [zero]
      rfl
    · have nonzero : byte.toNat ≠ 0 := fun none => zero (UInt8.toNat_inj.mp none)
      simp [zero, nonzero]
  rw [nPad, zeros, List.takeWhile_map, List.length_map, same]

end Data

/-- What the encoder writes is a text of digits. -/
theorem purePythonBaseEncode_digits (data : Bytes) (base : Base) :
    purePythonBaseEncode data base = (List.replicate (zeros (data.map UInt8.toNat)) 0 ++
      numeral base.radix (byteValue data)).map base.char := by
  rw [purePythonBaseEncode_eq, nPad_eq_zeros, List.map_append, List.map_replicate]

private theorem decode_encode (data : Bytes) (base : Base) :
    purePythonBaseDecode (purePythonBaseEncode data base) base = .ok data := by
  have large := base.one_lt_radix
  have small : ∀ digit ∈ List.replicate (zeros (data.map UInt8.toNat)) 0 ++
      numeral base.radix (byteValue data), digit < base.radix := by
    intro digit member
    rcases List.mem_append.mp member with zero | later
    · rw [List.eq_of_mem_replicate zero]
      omega
    · exact numeral_lt large later
  rw [purePythonBaseEncode_digits, purePythonBaseDecode_map small,
    zeros_append (head?_numeral large _), value_append, value_numeral, byteValue]
  have whole := padded_numeral (by decide) (map_toNat_lt data)
  have back := congrArg (List.map UInt8.ofNat) whole
  rw [List.map_append, List.map_replicate, ofNat_toNat_map] at back
  exact congrArg Except.ok back

private theorem encode_decode {base : Base} {text : Text}
    (known : ∀ char ∈ text, char ∈ base.chars) :
    ∃ data, purePythonBaseDecode text base = .ok data ∧ purePythonBaseEncode data base = text := by
  obtain ⟨digits, small, rfl⟩ := exists_digits_of_known known
  have large : 1 < 256 := by decide
  have bytes : ((List.replicate (zeros digits) 0 ++
      (numeral 256 (value base.radix digits)).map UInt8.ofNat).map UInt8.toNat) =
      List.replicate (zeros digits) 0 ++ numeral 256 (value base.radix digits) := by
    rw [List.map_append, List.map_replicate, toNat_ofNat_map fun digit => numeral_lt large]
    rfl
  refine ⟨_, purePythonBaseDecode_map small, ?_⟩
  rw [purePythonBaseEncode_digits, byteValue, bytes, zeros_append (head?_numeral large _),
    value_append, value_numeral, padded_numeral base.one_lt_radix small]

private theorem decode_foreign {base : Base} {text : Text}
    (foreign : ∃ char ∈ text, char ∉ base.chars) :
    ∃ char, char ∉ base.chars ∧ purePythonBaseDecode text base = .error (base.forbidden char) := by
  have reversed : ∃ char ∈ text.reverse, char ∉ base.chars := by
    obtain ⟨char, member, unknown⟩ := foreign
    exact ⟨char, List.mem_reverse.mpr member, unknown⟩
  obtain ⟨char, _, unknown, stopped⟩ := mapM_findDigit reversed
  exact ⟨char, unknown, by rw [purePythonBaseDecode, stopped, error_bind]⟩

/-- **Pure Python base 43 and base 58 is a bijection** between the byte strings and the texts
over the alphabet. What is not such a text is refused. -/
theorem purePython_bijective (base : Base) (data : Bytes) (text : Text) :
    purePythonBaseDecode (purePythonBaseEncode data base) base = .ok data ∧
    (∀ char ∈ purePythonBaseEncode data base, char ∈ base.chars) ∧
    ((∃ data, purePythonBaseDecode text base = .ok data ∧ purePythonBaseEncode data base = text) ↔
      ∀ char ∈ text, char ∈ base.chars) ∧
    ((∃ message, purePythonBaseDecode text base = .error (.valueError message)) ↔
      ∃ char ∈ text, char ∉ base.chars) := by
  have travels := decode_encode data base
  refine ⟨travels, ?_, ?_, ?_⟩
  · intro char member
    by_contra unknown
    obtain ⟨_, _, raised⟩ := decode_foreign ⟨char, member, unknown⟩
    rw [travels] at raised
    cases raised
  · constructor
    · intro read
      obtain ⟨data, decoded, _⟩ := read
      by_contra foreign
      push Not at foreign
      obtain ⟨_, _, raised⟩ := decode_foreign foreign
      rw [decoded] at raised
      cases raised
    · exact encode_decode
  · constructor
    · intro refused
      obtain ⟨message, raised⟩ := refused
      by_contra known
      push Not at known
      obtain ⟨data, decoded, _⟩ := encode_decode known
      rw [decoded] at raised
      cases raised
    · intro foreign
      obtain ⟨char, _, raised⟩ := decode_foreign foreign
      exact ⟨_, raised⟩

end VaultSeed.Baseconv
