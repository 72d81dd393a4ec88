import VaultSeed.Bip39.Encoding

/-! # Decoding inverts encoding

The loop over the words accumulates the number of the bits the words spell, and the shifts and
the mask cut these bits where the entropy ends. So the accepted mnemonics are the ones with the
words of an entropy, and what is returned is that entropy (`VaultSeed.Bip39.accepted_iff`).
-/

namespace VaultSeed.Bip39

open Python Effect Bits
open Vault (isSpace strip split)

section Numbers

variable {bits : List Bool}

private theorem number_bitsOf (data : Bytes) : number (bitsOf data) = fromBytesBig data := by
  induction data using List.reverseRecOn with
  | nil => rfl
  | append_singleton data byte ih =>
      have last : bitsOf [byte] = ofDigit 8 byte.toNat := List.append_nil _
      rw [bitsOf_append, number_append, ih, last, length_ofDigit, number_ofDigit,
        Nat.mod_eq_of_lt byte.toNat_lt, fromBytesBig_concat]
      rfl

/-- Bytes are their bits. -/
theorem toBytesBig_number_bitsOf (data : Bytes) :
    toBytesBig data.length (number (bitsOf data)) = data := by
  rw [number_bitsOf, toBytesBig_fromBytesBig]

private theorem bitsOf_injective : Function.Injective bitsOf := by
  intro first second same
  have length := congrArg List.length same
  rw [length_bitsOf, length_bitsOf] at length
  rw [← toBytesBig_number_bitsOf first, same, Nat.eq_of_mul_eq_mul_right (by decide) length,
    toBytesBig_number_bitsOf]

/-- Bits of whole bytes are the bits of bytes. -/
theorem bitsOf_toBytesBig {width : Nat} (length : bits.length = width * 8) :
    bitsOf (toBytesBig width (number bits)) = bits := by
  have fits := number_lt bits
  rw [length, Nat.mul_comm, Nat.pow_mul] at fits
  apply eq_of_number_eq
  · rw [length_bitsOf, length_toBytesBig, length]
  · rw [number_bitsOf, fromBytesBig_toBytesBig _ _ fits]

/-- The checksum is the number of the first bits of the digest. -/
theorem entropyChecksum_eq (library : Library) (entropy : Bytes) {count : Nat} (few : count ≤ 8) :
    entropyChecksum library entropy count =
      number ((bitsOf (library.sha256 entropy).toList).take count) := by
  have first : (library.sha256 entropy).toList[0]? = some (library.sha256 entropy)[0] := by
    rw [Vector.getElem?_toList]
    rfl
  cases digest : (library.sha256 entropy).toList with
  | nil =>
      rw [digest] at first
      cases first
  | cons byte rest =>
      rw [digest, List.getElem?_cons_zero] at first
      have front : (bitsOf (byte :: rest)).take count = (ofDigit 8 byte.toNat).take count := by
        change (ofDigit 8 byte.toNat ++ bitsOf rest).take count = _
        rw [List.take_append_of_le_length (by rw [length_ofDigit]; exact few)]
      rw [front, number_take, number_ofDigit, length_ofDigit, Nat.mod_eq_of_lt byte.toNat_lt,
        Option.some.inj first, entropyChecksum, Nat.shiftRight_eq_div_pow]

end Numbers

section Words

variable {wordlist : Wordlist} {words : List Text}

/-- One turn appends the bits of a position. -/
theorem accumulate_word {index : Nat} (small : index < 2 ^ 11) (bits : List Bool) :
    accumulate (search wordlist) (number bits) (wordlist.word index) =
      .ok (number (bits ++ ofDigit 11 index)) := by
  rw [accumulate, search_word small, number_append, number_ofDigit, length_ofDigit,
    Nat.mod_eq_of_lt small, Nat.shiftLeft_eq]

/-- **The loop accumulates the bits of the positions.** -/
theorem foldlM_accumulate {indices : List Nat} (small : ∀ index ∈ indices, index < 2 ^ 11)
    (bits : List Bool) :
    (indices.map wordlist.word).foldlM (accumulate (search wordlist)) (number bits) =
      .ok (number (bits ++ spell 11 indices)) := by
  induction indices generalizing bits with
  | nil =>
      rw [spell, List.flatMap_nil, List.append_nil]
      rfl
  | cons index indices ih =>
      obtain ⟨first, later⟩ := List.forall_mem_cons.mp small
      rw [List.map_cons, List.foldlM_cons, accumulate_word first, ok_bind, ih later,
        List.append_assoc]
      rfl

/-- A loop that ended found every word. -/
theorem exists_indices {start total : Nat}
    (ran : words.foldlM (accumulate (search wordlist)) start = .ok total) :
    ∃ indices : List Nat, (∀ index ∈ indices, index < 2 ^ 11) ∧
      indices.map wordlist.word = words := by
  induction words generalizing start with
  | nil => exact ⟨[], nofun, rfl⟩
  | cons word words ih =>
      rw [List.foldlM_cons] at ran
      obtain ⟨middle, turn, rest⟩ := bind_eq_ok.mp ran
      obtain ⟨indices, small, rfl⟩ := ih rest
      unfold accumulate at turn
      split at turn
      · rename_i index found
        obtain ⟨first, same⟩ := word_of_search found
        exact ⟨index :: indices, List.forall_mem_cons.mpr ⟨first, small⟩, by
          rw [List.map_cons, same]⟩
      · cases turn

end Words

section Decoding

variable {library : Library} {text : Text} {wordlist : Option Wordlist} {indices : List Nat}
  {data : Bytes} {ignoreChecksum : Bool}

/-- The checksum that was read is the one of the data when the bits are those of its mnemonic. -/
theorem checksum_eq_iff (library : Library) {quads : Nat} (few : quads ≤ 8) {bits : List Bool}
    (bytes : data.length = 4 * quads) (length : bits.length = 33 * quads)
    (front : bitsOf data = bits.take (32 * quads)) :
    number (bits.drop (32 * quads)) = entropyChecksum library data quads ↔
      checkedBits library data = bits := by
  have quarter : data.length * 8 / 32 = quads := by omega
  have tail : ((bitsOf (library.sha256 data).toList).take quads).length =
      (bits.drop (32 * quads)).length := by
    rw [List.length_take, length_bitsOf, Vector.length_toList, List.length_drop, length]
    omega
  rw [entropyChecksum_eq library data few, checkedBits, quarter, front]
  constructor
  · intro same
    rw [eq_of_number_eq tail same.symm, List.take_append_drop]
  · intro same
    have whole := List.take_append_drop (32 * quads) bits
    rw [List.append_cancel_left (same.trans whole.symm)]

/-- **What positions are decoded to**: the bytes of the bits before the checksum, when the
checksum is ignored or theirs. -/
theorem kMnemonicBytes_spelled (library : Library) {quads : Nat} (low : 4 ≤ quads)
    (high : quads ≤ 8) (small : ∀ index ∈ indices, index < 2 ^ 11)
    (length : indices.length = 3 * quads)
    (spelled : indices.map (wordlist.getD library.wordlist).word = split text) :
    ∃ data, data.length = 4 * quads ∧ bitsOf data = (spell 11 indices).take (32 * quads) ∧
      ∀ ignoreChecksum, kMnemonicBytes library text ignoreChecksum wordlist =
        if ignoreChecksum = true ∨ checkedBits library data = spell 11 indices then .ok data
        else .error (.valueError "Checksum verification failed") := by
  have count : (split (strip text)).length = 3 * quads := by
    rw [Vault.split_strip, ← spelled, List.length_map, length]
  have total := length_spell 11 indices
  rw [length] at total
  have front : ((spell 11 indices).take (32 * quads)).length = 4 * quads * 8 := by
    rw [List.length_take, total]
    omega
  have rest : (spell 11 indices).length - 32 * quads = quads := by omega
  have shift : number (spell 11 indices) / 2 ^ quads =
      number ((spell 11 indices).take (32 * quads)) := by
    rw [number_take, rest]
  have mask : number (spell 11 indices) % 2 ^ quads =
      number ((spell 11 indices).drop (32 * quads)) := by
    rw [number_drop, rest]
  have bytes := length_toBytesBig (4 * quads) (number ((spell 11 indices).take (32 * quads)))
  have dataBits := bitsOf_toBytesBig front
  refine ⟨toBytesBig (4 * quads) (number ((spell 11 indices).take (32 * quads))), bytes, dataBits,
    fun ignoreChecksum => ?_⟩
  have loop : readWords library (split (strip text)) wordlist =
      .ok (number (spell 11 indices)) := by
    rw [readWords_eq, Vault.split_strip, ← spelled]
    exact foldlM_accumulate small []
  rw [kMnemonicBytes]
  simp only [count]
  rw [if_neg (by omega), loop, ok_bind]
  simp only [show 3 * quads * 11 / 33 = quads by omega, show quads * 32 / 8 = 4 * quads by omega,
    Nat.and_two_pow_sub_one_eq_mod, Nat.shiftRight_eq_div_pow, shift, mask]
  generalize toBytesBig (4 * quads) (number ((spell 11 indices).take (32 * quads))) = data
    at bytes dataBits ⊢
  have checked := checksum_eq_iff library high bytes (by rw [total]; omega) dataBits
  cases ignoreChecksum with
  | true => rw [if_pos rfl, if_pos (Or.inl rfl)]; rfl
  | false =>
      rw [if_neg Bool.false_ne_true]
      by_cases same : checkedBits library data = spell 11 indices
      · rw [if_neg (not_not.mpr (checked.mpr same)), if_pos (Or.inr same)]
        rfl
      · rw [if_pos (mt checked.mp same), if_neg (by simp [same])]
        rfl

/-- What is decoded are positions of words, five counts of them. -/
theorem exists_spelled (ran : kMnemonicBytes library text ignoreChecksum wordlist = .ok data) :
    ∃ (quads : Nat) (indices : List Nat), 4 ≤ quads ∧ quads ≤ 8 ∧
      (∀ index ∈ indices, index < 2 ^ 11) ∧ indices.length = 3 * quads ∧
      indices.map (wordlist.getD library.wordlist).word = split text := by
  rw [kMnemonicBytes] at ran
  simp only [Vault.split_strip] at ran
  split at ran
  · cases ran
  · rename_i counted
    obtain ⟨total, loop, _⟩ := bind_eq_ok.mp ran
    rw [readWords_eq] at loop
    obtain ⟨indices, small, spelled⟩ := exists_indices loop
    have length := congrArg List.length spelled
    rw [List.length_map] at length
    exact ⟨indices.length / 3, indices, by omega, by omega, small, by omega, spelled⟩

/-- **The accepted mnemonics** are those with the words of the mnemonic of an entropy, and it is
returned. -/
theorem accepted_iff : kMnemonicBytes library text false wordlist = .ok data ↔
    data.length ∈ entropyLengths ∧
      phrase library data (wordlist.getD library.wordlist) = split text := by
  constructor
  · intro ran
    obtain ⟨quads, indices, low, high, small, length, spelled⟩ := exists_spelled ran
    obtain ⟨found, bytes, _, decoded⟩ :=
      kMnemonicBytes_spelled library low high small length spelled
    have result := (decoded false).symm.trans ran
    split at result
    · rename_i checked
      have same := checked.resolve_left Bool.false_ne_true
      cases result
      refine ⟨mem_entropyLengths.mpr ⟨quads, low, high, bytes⟩, ?_⟩
      rw [phrase, same, groups_spell (by decide) small, spelled]
    · cases result
  · rintro ⟨listed, spelled⟩
    obtain ⟨quads, low, high, bytes⟩ := mem_entropyLengths.mp listed
    have bits := @length_checkedBits library _ _ high bytes
    have back := spell_groups_of_dvd (by decide : 0 < 11)
      (by rw [bits]; exact ⟨3 * quads, by ring⟩ : 11 ∣ (checkedBits library data).length)
    have length := length_spell 11 (groups 11 (checkedBits library data))
    rw [back, bits] at length
    obtain ⟨found, _, foundBits, decoded⟩ := kMnemonicBytes_spelled library low high
      (groups_lt 11 (checkedBits library data)) (by omega) spelled
    have same : found = data := by
      apply bitsOf_injective
      rw [foundBits, back, checkedBits]
      exact List.take_left' (by rw [length_bitsOf, bytes]; ring)
    rw [decoded, back, same, if_pos (Or.inr rfl)]

/-- A mnemonic that is accepted is decoded to the same when the checksum is ignored. -/
theorem ignored_of_accepted (accepted : kMnemonicBytes library text false wordlist = .ok data)
    (ignoreChecksum : Bool) : kMnemonicBytes library text ignoreChecksum wordlist = .ok data := by
  cases ignoreChecksum with
  | false => exact accepted
  | true =>
      obtain ⟨quads, indices, low, high, small, length, spelled⟩ := exists_spelled accepted
      obtain ⟨found, _, _, decoded⟩ := kMnemonicBytes_spelled library low high small length spelled
      have result := (decoded false).symm.trans accepted
      split at result
      · cases result
        rw [decoded, if_pos (Or.inl rfl)]
      · cases result

/-- **The valid mnemonics** are those with the words of the mnemonic of an entropy. -/
theorem kMnemonicIsValid_iff : kMnemonicIsValid library text wordlist = true ↔
    ∃ entropy, entropy.length ∈ entropyLengths ∧
      phrase library entropy (wordlist.getD library.wordlist) = split text := by
  rw [kMnemonicIsValid]
  constructor
  · intro valid
    split at valid
    · rename_i entropy accepted
      exact ⟨entropy, accepted_iff.mp accepted⟩
    · cases valid
  · rintro ⟨entropy, accepted⟩
    rw [accepted_iff.mpr accepted]

end Decoding

/-- BIP39 decoding over a library: what is written is read again, what is read is written
again, either list is read in the same way, and without a checksum only the words count. -/
structure RoundTrips (library : Library) : Prop where
  written : ∀ wordlist entropy, entropy.length ∈ entropyLengths →
    mnemonicFromBytes library entropy wordlist = .ok (mnemonicOf library entropy wordlist)
  decoded : ∀ wordlist ignoreChecksum entropy, entropy.length ∈ entropyLengths →
    kMnemonicBytes library (mnemonicOf library entropy (wordlist.getD library.wordlist))
      ignoreChecksum wordlist = .ok entropy
  encoded : ∀ wordlist mnemonic entropy,
    kMnemonicBytes library mnemonic false wordlist = .ok entropy →
      entropy.length ∈ entropyLengths ∧
        phrase library entropy (wordlist.getD library.wordlist) = split (strip mnemonic)
  paths : ∀ mnemonic ignoreChecksum,
    kMnemonicBytes library mnemonic ignoreChecksum none =
      kMnemonicBytes library mnemonic ignoreChecksum (some library.wordlist)
  ignoring : ∀ wordlist sha256 first second, split (strip first) = split (strip second) →
    kMnemonicBytes library first true wordlist =
      kMnemonicBytes { library with sha256 } second true wordlist

/-- **BIP39 decoding inverts encoding.** -/
theorem mnemonics_roundTrip (library : Library) : RoundTrips library where
  written wordlist entropy listed := mnemonicFromBytes_eq library listed wordlist
  decoded wordlist ignoreChecksum entropy listed := by
    have accepted := (@accepted_iff library _ wordlist entropy).mpr
      ⟨listed, (split_mnemonicOf library entropy (wordlist.getD library.wordlist)).symm⟩
    exact ignored_of_accepted accepted ignoreChecksum
  encoded wordlist mnemonic entropy accepted := by
    rw [Vault.split_strip]
    exact accepted_iff.mp accepted
  paths mnemonic ignoreChecksum := by
    rw [kMnemonicBytes, kMnemonicBytes]
    simp only [readWords_eq, Option.getD_none, Option.getD_some]
  ignoring wordlist sha256 first second same := by
    rw [kMnemonicBytes, kMnemonicBytes]
    simp only [same, ↓reduceIte, readWords_eq]

end VaultSeed.Bip39
