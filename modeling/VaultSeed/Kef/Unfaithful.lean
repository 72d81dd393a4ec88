import VaultSeed.Kef.Retries

/-! # Unfaithful NUL padding

With `fail_unsafe=False` the NUL-padded versions also encrypt what their padding hides: a
plaintext that ends in NULs, or one whose checksum does. The retries of the decryption recover
it within their limits (`Cipher.decrypt_recovers_nuls`).
-/

namespace VaultSeed.Kef

open Python Effect

namespace Cipher

variable {crypto : Crypto} {cipher : Cipher} {version : Nat} {spec : Version} {iv : Bytes}

/-- The AES encryption of a plaintext. -/
def encipher (crypto : Crypto) (key : Bytes) (mode : Mode) (iv plain : Bytes) : Bytes :=
  match mode with
  | .ecb => crypto.ecbEncrypt key plain
  | .cbc => crypto.cbcEncrypt key iv plain
  | .ctr => crypto.ctrEncrypt key iv plain
  | .gcm => (crypto.gcmEncrypt key iv plain).1

private theorem decipher_encipher (inverts : crypto.Inverts) {mode : Mode}
    (block : mode = .ecb ∨ mode = .cbc) {plain : Bytes} (aligned : plain.length % 16 = 0)
    (key iv : Bytes) :
    decipher crypto key mode iv (encipher crypto key mode iv plain) = plain ∧
      (encipher crypto key mode iv plain).length = plain.length := by
  rcases block with rfl | rfl
  · exact ⟨inverts.ecb key plain aligned, inverts.ecb_length key plain⟩
  · exact ⟨inverts.cbc key iv plain aligned, inverts.cbc_length key iv plain⟩

/-- What a NUL-padded version encrypts: with appended bytes the plaintext, with hidden bytes the
plaintext and them. -/
def bodyOf (crypto : Crypto) (spec : Version) (plain : Bytes) : Bytes :=
  if spec.auth < 0 then plain ++ hiddenAuth crypto plain (-spec.auth).toNat else plain

/-- What a NUL-padded version appends to the ciphertext. -/
def appendedTo (crypto : Crypto) (cipher : Cipher) (version : Nat) (spec : Version)
    (iv plain : Bytes) : Bytes :=
  if spec.auth < 0 then [] else publicAuth crypto cipher version iv plain spec.auth.toNat

private theorem attachAuth_nulPadded (nulPadded : spec.NulPadded) (nonzero : spec.auth ≠ 0)
    (plain : Bytes) :
    attachAuth crypto cipher version spec iv plain false =
      .ok (bodyOf crypto spec plain, appendedTo crypto cipher version spec iv plain) := by
  have notGcm : spec.mode ≠ .gcm := by
    rcases nulPadded.block with mode | mode <;> rw [mode] <;> decide
  unfold attachAuth bodyOf appendedTo
  rw [if_neg notGcm]
  by_cases negative : spec.auth < 0
  · rw [if_neg (by omega), if_pos negative, if_pos negative, if_pos negative]
    rfl
  · rw [if_pos (by omega), if_neg negative, if_neg negative]
    rfl

/-- The cipher object of a block mode, for the encryption. -/
theorem encrypt_block {mode : Mode} (block : mode = .ecb ∨ mode = .cbc)
    (key : cipher.key.length = 32) (length : iv.length = modeIvs mode) {data : Bytes}
    (aligned : data.length % 16 = 0) :
    ∃ aes, Aes.new cipher.key mode (if iv = [] then none else some iv) = .ok aes ∧
      aes.encrypt crypto data = .ok (encipher crypto cipher.key mode iv data, [0, 0, 0, 0]) := by
  rcases block with rfl | rfl
  · obtain rfl : iv = [] := List.length_eq_zero_iff.mp length
    refine ⟨⟨cipher.key, .ecb, List.replicate 16 0⟩, by simp [Aes.new, key], ?_⟩
    unfold Aes.encrypt Aes.checkAligned
    simp [aligned, encipher]
  · have sixteen : iv.length = 16 := length
    have nonempty : iv ≠ [] := by
      intro empty
      rw [empty] at sixteen
      cases sixteen
    refine ⟨⟨cipher.key, .cbc, iv⟩, by simp [Aes.new, key, modeIvs, sixteen, nonempty], ?_⟩
    unfold Aes.encrypt Aes.checkAligned
    simp [aligned, encipher]

/-- An initialisation vector of the mode's length is accepted. -/
theorem checkIv_block {mode : Mode} (length : iv.length = modeIvs mode) :
    checkIv mode iv = .ok () := by
  unfold checkIv
  by_cases needed : 0 < modeIvs mode
  · rw [if_pos needed, if_pos length]
  · have empty : iv = [] := List.length_eq_zero_iff.mp (by omega)
    rw [if_neg needed, if_neg (by simp [empty])]

/-- **An encryption without refusals** under a NUL-padded version. -/
theorem encrypt_nulPadded (known : versions version = some spec) (nulPadded : spec.NulPadded)
    (key : cipher.key.length = 32) (ivLength : iv.length = modeIvs spec.mode) (plain : Bytes) :
    encrypt crypto cipher plain version iv false =
      .ok (iv ++ encipher crypto cipher.key spec.mode iv
          (pad (bodyOf crypto spec plain) (some false)) ++
        appendedTo crypto cipher version spec iv plain) := by
  have nonzero := (versions_wellFormed known).nonzero
  have aligned := length_pad_mod (bodyOf crypto spec plain) (some false) (by simp)
  have notGcm : spec.mode ≠ .gcm := by
    rcases nulPadded.block with mode | mode <;> rw [mode] <;> decide
  have duplicates : ∀ body, refuseDuplicates false spec.mode body = .ok () :=
    fun body => if_neg (by simp)
  obtain ⟨aes, made, ran⟩ :=
    @encrypt_block crypto cipher iv spec.mode nulPadded.block key ivLength _ aligned
  unfold encrypt lookupVersion
  simp only [known, ok_bind, compressFor, nulPadded.packed, nulPadded.rule, Bool.false_eq_true,
    ↓reduceIte, Bool.false_and, refuseNulSuffix, attachAuth_nulPadded nulPadded nonzero, duplicates,
    checkIv_block ivLength, made, ran, notGcm]
  rfl

/-- What a decryption finds in such a payload. -/
structure Reads (crypto : Crypto) (cipher : Cipher) (spec : Version)
    (payload iv body appended : Bytes) :
    Prop where
  readable : Readable spec payload
  vector : payload.take (modeIvs spec.mode) = iv
  appended : (splitAuth spec (payload.drop (modeIvs spec.mode))).2 = appended
  blocks : decryptedBlocks crypto cipher spec payload = pad body (some false)

private theorem reads_nulPadded (inverts : crypto.Inverts) (known : versions version = some spec)
    (nulPadded : spec.NulPadded) (ivLength : iv.length = modeIvs spec.mode) {plain : Bytes}
    (nonempty : bodyOf crypto spec plain ≠ []) :
    Reads crypto cipher spec
      (iv ++ encipher crypto cipher.key spec.mode iv
        (pad (bodyOf crypto spec plain) (some false)) ++
        appendedTo crypto cipher version spec iv plain) iv (bodyOf crypto spec plain)
      (appendedTo crypto cipher version spec iv plain) := by
  have wellFormed := versions_wellFormed known
  have upper := wellFormed.upper
  have nonzero := wellFormed.nonzero
  have aligned := length_pad_mod (bodyOf crypto spec plain) (some false) (by simp)
  obtain ⟨undone, length⟩ := decipher_encipher inverts nulPadded.block aligned cipher.key iv
  have filled := length_le_length_pad (bodyOf crypto spec plain) (some false)
  have begun := List.length_pos_of_ne_nil nonempty
  generalize encipher crypto cipher.key spec.mode iv (pad (bodyOf crypto spec plain) (some false)) =
    encrypted at undone length ⊢
  have size : (appendedTo crypto cipher version spec iv plain).length = spec.auth.toNat := by
    unfold appendedTo
    by_cases negative : spec.auth < 0
    · rw [if_pos negative, List.length_nil]
      omega
    · rw [if_neg negative, length_publicAuth inverts _ _ _ (by omega)]
  have vector : (iv ++ encrypted ++ appendedTo crypto cipher version spec iv plain).take
      (modeIvs spec.mode) = iv := by
    rw [List.append_assoc]
    exact List.take_left' ivLength
  have parts : splitAuth spec ((iv ++ encrypted ++ appendedTo crypto cipher version spec iv
      plain).drop (modeIvs spec.mode)) =
      (encrypted, appendedTo crypto cipher version spec iv plain) := by
    rw [List.append_assoc, List.drop_left' ivLength]
    exact splitAuth_append spec _ _ size
  refine ⟨⟨?_, ?_⟩, vector, by rw [parts], ?_⟩
  · unfold minPayload aesBlockSize
    rw [if_neg (by rcases nulPadded.block with mode | mode <;> rw [mode] <;> decide),
      List.length_append, List.length_append, ivLength, length, size]
    omega
  · rw [parts, length, aligned]
  · rw [decryptedBlocks, vector, parts, undone]

/-- Without refusals a NUL-padded version encrypts, and its payload is read back. -/
theorem encrypt_reads (inverts : crypto.Inverts) (known : versions version = some spec)
    (nulPadded : spec.NulPadded) (key : cipher.key.length = 32)
    (ivLength : iv.length = modeIvs spec.mode) {plain : Bytes}
    (nonempty : bodyOf crypto spec plain ≠ []) :
    ∃ payload, encrypt crypto cipher plain version iv false = .ok payload ∧
      Reads crypto cipher spec payload iv (bodyOf crypto spec plain)
        (appendedTo crypto cipher version spec iv plain) :=
  ⟨_, encrypt_nulPadded known nulPadded key ivLength plain,
    reads_nulPadded inverts known nulPadded ivLength nonempty⟩

/-- NULs after a string change nothing about what is left of it. -/
theorem rstrip_append_nuls (data : Bytes) (count : Nat) :
    rstrip 0 (data ++ List.replicate count 0) = rstrip 0 data := by
  obtain ⟨some, whole⟩ := exists_rstrip_append 0 data
  have stripped := rstrip_append_replicate 0 (rstrip 0 data) (some + count) (getLast?_rstrip 0 data)
  rwa [← List.replicate_append_replicate, ← List.append_assoc, ← whole] at stripped

private theorem strippedNuls_append (data : Bytes) (count : Nat) :
    strippedNuls (data ++ List.replicate count 0) = strippedNuls data + count := by
  have total := length_eq_rstrip data
  rw [strippedNuls, rstrip_append_nuls, List.length_append, List.length_replicate]
  omega

private theorem eq_rstrip_append (data : Bytes) :
    data = rstrip 0 data ++ List.replicate (strippedNuls data) 0 := by
  obtain ⟨count, whole⟩ := exists_rstrip_append 0 data
  have total := congrArg List.length whole
  rw [List.length_append, List.length_replicate] at total
  rw [show strippedNuls data = count by unfold strippedNuls; omega]
  exact whole

/-- With appended bytes, the NULs at the end of a plaintext are recovered up to the limit. -/
theorem recovers_appended (inverts : crypto.Inverts) (known : versions version = some spec)
    (nulPadded : spec.NulPadded) (positive : 0 < spec.auth) (key : cipher.key.length = 32)
    (ivLength : iv.length = modeIvs spec.mode) {plain : Bytes} (nonempty : plain ≠ [])
    (apart : ∀ fewer < strippedNuls plain,
      publicAuth crypto cipher version iv (rstrip 0 plain ++ List.replicate fewer 0)
        spec.auth.toNat ≠ publicAuth crypto cipher version iv plain spec.auth.toNat) :
    ∃ payload, encrypt crypto cipher plain version iv false = .ok payload ∧
      (decrypt crypto cipher payload version = .ok (some plain) ↔
        strippedNuls plain ≤ spec.auth.toNat + 1) := by
  have notNegative : ¬ spec.auth < 0 := by omega
  have body : bodyOf crypto spec plain = plain := if_neg notNegative
  have appended : appendedTo crypto cipher version spec iv plain =
      publicAuth crypto cipher version iv plain spec.auth.toNat := if_neg notNegative
  obtain ⟨payload, sealed, readable, vector, tag, blocks⟩ := @encrypt_reads crypto cipher version
    spec iv inverts known nulPadded key ivLength plain (by rwa [body])
  refine ⟨payload, sealed, ?_⟩
  rw [body] at blocks
  rw [decrypt_appended_iff known nulPadded positive key, vector, tag, blocks, appended, pad,
    rstrip_append_nuls, strippedNuls_append]
  have whole := eq_rstrip_append plain
  constructor
  · rintro ⟨-, nuls, less, -, same⟩
    have total := congrArg List.length (whole.symm.trans same)
    simp only [List.length_append, List.length_replicate] at total
    omega
  · intro few
    refine ⟨readable, strippedNuls plain, by omega, ⟨?_, apart⟩, whole⟩
    dsimp only
    rw [← whole]

/-- What is left of a plaintext and a checksum that is not all NULs. -/
theorem rstrip_append (plain tag : Bytes) (marked : rstrip 0 tag ≠ []) :
    rstrip 0 (plain ++ tag) = plain ++ rstrip 0 tag := by
  have last : (plain ++ rstrip 0 tag).getLast? ≠ some 0 := by
    rw [List.getLast?_append_of_ne_nil _ marked]
    exact getLast?_rstrip 0 tag
  have stripped := rstrip_append_replicate 0 (plain ++ rstrip 0 tag) (strippedNuls tag) last
  rwa [List.append_assoc, ← eq_rstrip_append] at stripped

/-- With NULs given back, the stripped blocks are a beginning of the plaintext and its checksum. -/
theorem rstrip_append_replicate_eq_take {plain tag : Bytes} {nuls : Nat}
    (less : nuls ≤ strippedNuls tag) :
    plain ++ rstrip 0 tag ++ List.replicate nuls 0 =
      (plain ++ tag).take (plain.length + (rstrip 0 tag).length + nuls) := by
  have whole := eq_rstrip_append tag
  have cut : plain ++ tag = plain ++ rstrip 0 tag ++ List.replicate nuls 0 ++
      List.replicate (strippedNuls tag - nuls) 0 := by
    rw [List.append_assoc _ (List.replicate nuls 0), List.replicate_append_replicate,
      show nuls + (strippedNuls tag - nuls) = strippedNuls tag by omega, List.append_assoc, ← whole]
  rw [cut, List.take_left' (by simp [Nat.add_assoc])]

/-- The candidate with some NULs, in the words of the plaintext and its checksum. -/
theorem hidden_candidate (plain : Bytes) {tag : Bytes} {nuls : Nat} (sixteen : tag.length = 16)
    (few : strippedNuls tag ≤ min 15 plain.length) (less : nuls ≤ strippedNuls tag) :
    (plain ++ rstrip 0 tag).length + nuls - 16 = plain.length - strippedNuls tag + nuls ∧
      (plain ++ rstrip 0 tag ++ List.replicate nuls 0).take
          (plain.length - strippedNuls tag + nuls) =
        plain.take (plain.length - strippedNuls tag + nuls) ∧
      (plain ++ rstrip 0 tag ++ List.replicate nuls 0).drop
          (plain.length - strippedNuls tag + nuls) =
        ((plain ++ tag).drop (plain.length - strippedNuls tag + nuls)).take 16 := by
  have total := length_eq_rstrip tag
  refine ⟨by rw [List.length_append]; omega, ?_, ?_⟩
  · rw [List.append_assoc, List.take_append_of_le_length (by omega)]
  · rw [rstrip_append_replicate_eq_take less, List.drop_take]
    congr 1
    omega

/-- With hidden bytes, a checksum that ends in NULs is recovered. -/
theorem recovers_hidden (inverts : crypto.Inverts) (known : versions version = some spec)
    (nulPadded : spec.NulPadded) (hidden : spec.auth = -16) (key : cipher.key.length = 32)
    (ivLength : iv.length = modeIvs spec.mode) {plain : Bytes}
    (few : strippedNuls (hiddenAuth crypto plain 16) ≤ min 15 plain.length)
    (apart : ∀ fewer < strippedNuls (hiddenAuth crypto plain 16),
      hiddenAuth crypto (plain.take (plain.length -
          strippedNuls (hiddenAuth crypto plain 16) + fewer)) 16 ≠
        ((plain ++ hiddenAuth crypto plain 16).drop (plain.length -
          strippedNuls (hiddenAuth crypto plain 16) + fewer)).take 16) :
    ∃ payload, encrypt crypto cipher plain version iv false = .ok payload ∧
      decrypt crypto cipher payload version = .ok (some plain) := by
  have body : bodyOf crypto spec plain = plain ++ hiddenAuth crypto plain 16 := by
    rw [bodyOf, if_pos (by omega), hidden]
    rfl
  have sixteen : (hiddenAuth crypto plain 16).length = 16 :=
    length_hiddenAuth inverts plain (by omega)
  have nonempty : bodyOf crypto spec plain ≠ [] := by
    rw [body]
    intro empty
    have none := congrArg List.length empty
    rw [List.length_append, sixteen] at none
    cases none
  obtain ⟨payload, sealed, readable, -, -, blocks⟩ := @encrypt_reads crypto cipher version spec iv
    inverts known nulPadded key ivLength plain nonempty
  refine ⟨payload, sealed, ?_⟩
  rw [body] at blocks
  generalize authentic : hiddenAuth crypto plain 16 = tag at *
  have total := length_eq_rstrip tag
  have marked : rstrip 0 tag ≠ [] := by
    intro empty
    rw [empty, List.length_nil] at total
    omega
  rw [decrypt_hidden_iff inverts.sha256_length known nulPadded hidden key, blocks, pad,
    rstrip_append_nuls, strippedNuls_append, rstrip_append plain tag marked]
  have stripped : strippedNuls tag ≤ strippedNuls (plain ++ tag) := by
    rw [strippedNuls, strippedNuls, rstrip_append plain tag marked, List.length_append,
      List.length_append]
    omega
  obtain ⟨place, front, back⟩ := hidden_candidate plain sixteen few (Nat.le_refl _)
  have whole : plain.length - strippedNuls tag + strippedNuls tag = plain.length := by omega
  refine ⟨⟨readable, by rw [List.length_append]; omega⟩, strippedNuls tag, by omega, ⟨?_, ?_⟩, ?_⟩
  · unfold Fits
    rw [place, front, back, whole, List.take_length, List.drop_left, authentic,
      List.take_of_length_le (by omega)]
  · intro fewer less fits
    obtain ⟨place, front, back⟩ := hidden_candidate plain sixteen few (Nat.le_of_lt less)
    unfold Fits at fits
    rw [place, front, back] at fits
    exact apart fewer less fits
  · rw [place, front, whole, List.take_length]

/-- **What is recovered of unsafely padded plaintexts.** Without refusals, the versions with
appended bytes give a plaintext back exactly when it ends in at most as many NULs as there are
appended bytes and one more; those with sixteen hidden bytes give it back when the NULs at the end
of the checksum are at most fifteen and no more than the plaintext is long. In both cases no
candidate with fewer NULs has the same checksum. -/
theorem decrypt_recovers_nuls (inverts : crypto.Inverts) (key salt : Bytes) (iterations : Nat)
    (known : versions version = some spec) (ivLength : iv.length = modeIvs spec.mode)
    (plain : Bytes) :
    (version = 5 ∨ version = 10 → plain ≠ [] →
      (∀ fewer < strippedNuls plain,
        publicAuth crypto (new crypto key salt iterations) version iv
            (rstrip 0 plain ++ List.replicate fewer 0) spec.auth.toNat ≠
          publicAuth crypto (new crypto key salt iterations) version iv plain
            spec.auth.toNat) →
      ∃ payload,
        encrypt crypto (new crypto key salt iterations) plain version iv false = .ok payload ∧
        (decrypt crypto (new crypto key salt iterations) payload version = .ok (some plain) ↔
          strippedNuls plain ≤ spec.auth.toNat + 1)) ∧
    (version = 0 ∨ version = 1 →
      strippedNuls (hiddenAuth crypto plain 16) ≤ min 15 plain.length →
      (∀ fewer < strippedNuls (hiddenAuth crypto plain 16),
        hiddenAuth crypto (plain.take (plain.length -
            strippedNuls (hiddenAuth crypto plain 16) + fewer)) 16 ≠
          ((plain ++ hiddenAuth crypto plain 16).drop (plain.length -
            strippedNuls (hiddenAuth crypto plain 16) + fewer)).take 16) →
      ∃ payload,
        encrypt crypto (new crypto key salt iterations) plain version iv false = .ok payload ∧
        decrypt crypto (new crypto key salt iterations) payload version = .ok (some plain)) := by
  constructor
  · intro appended nonempty apart
    have facts : spec.pkcsPad = some false ∧ 0 < spec.auth := by
      rcases appended with rfl | rfl <;> cases known <;> decide
    exact recovers_appended inverts known (versions_nulPadded known facts.1) facts.2
      (inverts.key_length _ _ _) ivLength nonempty apart
  · intro hidden few apart
    have facts : spec.pkcsPad = some false ∧ spec.auth = -16 := by
      rcases hidden with rfl | rfl <;> cases known <;> decide
    exact recovers_hidden inverts known (versions_nulPadded known facts.1) facts.2
      (inverts.key_length _ _ _) ivLength few apart

/-- A plaintext that ends in a NUL, and one whose checksum does. -/
theorem decrypt_recovers_nuls_recorded :
    (∃ payload, encrypt recorded (new recorded [107, 101, 121] [115, 97, 108, 116] 100000) [56, 0] 5
        [] false = .ok payload ∧
      (decrypt recorded (new recorded [107, 101, 121] [115, 97, 108, 116] 100000) payload 5 =
          .ok (some [56, 0]) ↔ strippedNuls [56, 0] ≤ 4)) ∧
    ∃ payload, encrypt recorded (new recorded [107, 101, 121] [115, 97, 108, 116] 100000) [56] 0 []
        false = .ok payload ∧
      decrypt recorded (new recorded [107, 101, 121] [115, 97, 108, 116] 100000) payload 0 =
        .ok (some [56]) := by
  constructor
  · exact (@decrypt_recovers_nuls recorded 5 _ [] recorded_inverts [107, 101, 121]
      [115, 97, 108, 116] 100000 rfl rfl [56, 0]).1 (.inl rfl) (by simp) (by decide +kernel)
  · exact (@decrypt_recovers_nuls recorded 0 _ [] recorded_inverts [107, 101, 121]
      [115, 97, 108, 116] 100000 rfl rfl [56]).2 (.inl rfl) (by decide +kernel) (by decide +kernel)

end Cipher

end VaultSeed.Kef
