import VaultSeed.Kef.Acceptance
import VaultSeed.Kef.Unfaithful

/-! # Suggested versions

`suggest_versions` eliminates the versions of a mode that do not suit a plaintext, and the page
that seals an envelope takes the first one left. Exactly one is left
(`suggestVersions_eq`). It encrypts the plaintext in every mode but ECB; in ECB the
suggestion looks for repeated blocks in the plaintext and the encryption in what it encrypts, the
padding and the checksum included (`suggestion_encrypts_iff`).
-/

namespace VaultSeed.Kef

open Python Effect

/-- The keys of `VERSIONS`, in their order. -/
def versionNumbers : List Nat := [0, 1, 5, 6, 7, 10, 11, 12, 15, 16, 20, 21]

/-- What `suggest_versions` knows about a plaintext. -/
structure Metrics where
  pLength : Nat
  pDuplicates : Bool
  pNulSuffix : Bool
  deriving DecidableEq

/-- `p_duplicates`: `unique_blocks < p_length / 16`, with the division of floats. -/
def hasDuplicates (plaintext : Bytes) : Bool :=
  (blocks plaintext).dedup.length * 16 < plaintext.length

/-- `gather metrics on plaintext`; `plaintext[-1]` raises for an empty one. -/
def metrics (plaintext : Bytes) : Except Exn Metrics := do
  let pNulSuffix ← Cipher.endsInNul plaintext
  pure ⟨plaintext.length, hasDuplicates plaintext, pNulSuffix⟩

/-- `small_thresh`. -/
def smallThresh : Nat := 32

/-- `big_thresh`. -/
def bigThresh : Nat := 120

/-- The elimination by the size of the plaintext. -/
def eliminatedBySize (found : Metrics) (mode : Mode) (spec : Version) : Bool :=
  if found.pLength ≤ smallThresh then
    if mode = .ecb ∧ found.pDuplicates then false
    else if spec.pkcsPad = some true ∧ ¬ found.pNulSuffix then true
    else spec.compress
  else if spec.pkcsPad = some false then true
  else if mode = .ecb ∧ found.pDuplicates then false
  else if found.pLength < bigThresh then spec.compress
  else !spec.compress

/-- A turn of the loop of `suggest_versions` goes on with the next version. -/
def eliminated (found : Metrics) (mode : Mode) (spec : Version) : Bool :=
  if spec.mode ≠ mode then true
  else if found.pDuplicates ∧ mode = .ecb ∧ ¬ spec.compress then true
  else if (mode = .ecb ∨ mode = .cbc) ∧ spec.auth = -16 then true
  else if eliminatedBySize found mode spec then true
  else if found.pNulSuffix ∧ spec.pkcsPad = some false then true
  else false

/-- `suggest_versions`, for bytes and the mode of a name. -/
def suggestVersions (plaintext : Bytes) (mode : Mode) : Except Exn (List Nat) := do
  let found ← metrics plaintext
  pure (versionNumbers.filter fun version =>
    match versions version with
    | some spec => !eliminated found mode spec
    | none => false)

/-- The one version that is left. -/
def suggestion (found : Metrics) : Mode → Nat
  | .ecb =>
      if found.pDuplicates ∨ bigThresh ≤ found.pLength then 7
      else if found.pLength ≤ smallThresh ∧ found.pNulSuffix = false then 5
      else 6
  | .cbc =>
      if bigThresh ≤ found.pLength then 12
      else if found.pLength ≤ smallThresh ∧ found.pNulSuffix = false then 10
      else 11
  | .ctr => if found.pLength < bigThresh then 15 else 16
  | .gcm => if found.pLength < bigThresh then 20 else 21

/-- Two lengths on the same sides of the thresholds. -/
def SameSize (first second : Nat) : Prop :=
  (first ≤ smallThresh ↔ second ≤ smallThresh) ∧ (first < bigThresh ↔ second < bigThresh)

section Size

variable {first second : Nat} (same : SameSize first second) (pDuplicates pNulSuffix : Bool)
include same

private theorem eliminated_sameSize (mode : Mode) (spec : Version) :
    eliminated ⟨first, pDuplicates, pNulSuffix⟩ mode spec =
      eliminated ⟨second, pDuplicates, pNulSuffix⟩ mode spec := by
  simp only [eliminated, eliminatedBySize, same.1, same.2]

private theorem suggestion_sameSize (mode : Mode) :
    suggestion ⟨first, pDuplicates, pNulSuffix⟩ mode =
      suggestion ⟨second, pDuplicates, pNulSuffix⟩ mode := by
  cases mode <;> simp only [suggestion, same.1, same.2, ← Nat.not_lt]

end Size

private theorem filter_eliminated (found : Metrics) (mode : Mode) :
    (versionNumbers.filter fun version =>
      match versions version with
      | some spec => !eliminated found mode spec
      | none => false) = [suggestion found mode] := by
  obtain ⟨pLength, pDuplicates, pNulSuffix⟩ := found
  obtain ⟨size, among, same⟩ : ∃ size ∈ [0, 33, 120], SameSize pLength size := by
    unfold SameSize smallThresh bigThresh
    rcases Nat.lt_or_ge 32 pLength with long | small
    · rcases Nat.lt_or_ge pLength 120 with middle | big
      · exact ⟨33, by decide, by omega⟩
      · exact ⟨120, by decide, by omega⟩
    · exact ⟨0, by decide, by omega⟩
  simp only [eliminated_sameSize same, suggestion_sameSize same]
  clear same
  revert size
  cases mode <;> cases pDuplicates <;> cases pNulSuffix <;> decide

/-- **Exactly one version is suggested.** -/
theorem suggestVersions_eq {plaintext : Bytes} (nonempty : plaintext ≠ []) (mode : Mode) :
    suggestVersions plaintext mode = .ok [suggestion ⟨plaintext.length, hasDuplicates plaintext,
      decide (plaintext.getLast? = some 0)⟩ mode] := by
  have last : Cipher.endsInNul plaintext = .ok (decide (plaintext.getLast? = some 0)) := by
    unfold Cipher.endsInNul
    cases ends : plaintext.getLast? with
    | none => exact absurd (List.getLast?_eq_none_iff.mp ends) nonempty
    | some byte => simp [beq_eq_decide]
  unfold suggestVersions metrics
  rw [last]
  simp only [ok_bind]
  exact congrArg Except.ok (filter_eliminated _ mode)

namespace Cipher

variable {crypto : Crypto} {cipher : Cipher} {version : Nat} {spec : Version} {iv packed : Bytes}

private theorem length_blocks {data : Bytes} (aligned : data.length % 16 = 0) :
    (blocks data).length = data.length / 16 := by
  rw [blocks, List.length_map, List.length_range]
  omega

/-- Whole blocks are refused when one of them is repeated. -/
theorem refuseDuplicates_eq_ok_iff {mode : Mode} {data : Bytes}
    (aligned : mode = .ecb → data.length % 16 = 0) :
    refuseDuplicates true mode data = .ok () ↔ (mode = .ecb → (blocks data).Nodup) := by
  unfold refuseDuplicates
  by_cases ecb : mode = .ecb
  · have length := length_blocks (aligned ecb)
    have unique : (blocks data).dedup.length = data.length / 16 ↔ (blocks data).Nodup := by
      rw [← length, ← List.dedup_eq_self]
      constructor
      · intro same
        exact (List.dedup_sublist _).eq_of_length same
      · intro same
        rw [same]
    simp only [ecb, true_and, forall_const, ← unique]
    split_ifs with repeated
    · simp [repeated]
    · simpa using repeated
  · simp [ecb]

/-- What is encrypted: the plaintext, with its checksum when that is hidden. -/
def sealedBody (crypto : Crypto) (spec : Version) (packed : Bytes) : Bytes :=
  if spec.mode ≠ .gcm ∧ spec.auth < 0 then packed ++ hiddenAuth crypto packed (-spec.auth).toNat
  else packed

/-- A plaintext that the padding of the version does not hide. -/
def Faithful (spec : Version) (packed : Bytes) : Prop :=
  spec.pkcsPad = some false → 0 < spec.auth ∧ packed ≠ [] ∧ packed.getLast? ≠ some 0

private theorem refuseNulSuffix_faithful (faithful : Faithful spec packed) :
    refuseNulSuffix (true && spec.pkcsPad == some false && decide (0 < spec.auth)) packed =
      .ok () := by
  unfold refuseNulSuffix
  by_cases rule : spec.pkcsPad = some false
  · obtain ⟨positive, nonempty, last⟩ := faithful rule
    simp only [rule, positive, BEq.rfl, Bool.and_self, decide_true, ↓reduceIte, endsInNul]
    cases ends : packed.getLast? with
    | none => exact absurd (List.getLast?_eq_none_iff.mp ends) nonempty
    | some byte =>
        have different : byte ≠ 0 := by
          intro zero
          exact last (by rw [ends, zero])
        simp [different]
        rfl
  · simp [rule]
    rfl

private theorem attachAuth_faithful (wellFormed : spec.WellFormed)
    (faithful : Faithful spec packed) :
    ∃ auth, attachAuth crypto cipher version spec iv packed true =
      .ok (sealedBody crypto spec packed, auth) := by
  unfold attachAuth sealedBody
  by_cases gcm : spec.mode = .gcm
  · exact ⟨_, by simp [gcm]; rfl⟩
  · rw [if_neg gcm]
    by_cases positive : 0 < spec.auth
    · have notNegative : ¬ spec.auth < 0 := by omega
      exact ⟨_, by simp [positive, notNegative]; rfl⟩
    · have negative : spec.auth < 0 := by
        have := wellFormed.nonzero
        omega
      have rule : spec.pkcsPad ≠ some false := fun rule => positive (faithful rule).1
      refine ⟨[], ?_⟩
      simp [gcm, positive, negative, rule, refuseNulSuffix]
      rfl

/-- A cipher object with the vector of its mode encrypts what is padded for it. -/
theorem new_encrypts {mode : Mode} (key : cipher.key.length = 32)
    (ivLength : iv.length = modeIvs mode) {data : Bytes}
    (aligned : mode ≠ .ctr → mode ≠ .gcm → data.length % 16 = 0) :
    ∃ aes output, Aes.new cipher.key mode (if iv = [] then none else some iv) = .ok aes ∧
      aes.encrypt crypto data = .ok output := by
  cases mode with
  | ecb =>
      obtain ⟨aes, made, ran⟩ := @encrypt_block crypto cipher iv .ecb (.inl rfl) key ivLength data
        (aligned (by decide) (by decide))
      exact ⟨aes, _, made, ran⟩
  | cbc =>
      obtain ⟨aes, made, ran⟩ := @encrypt_block crypto cipher iv .cbc (.inr rfl) key ivLength data
        (aligned (by decide) (by decide))
      exact ⟨aes, _, made, ran⟩
  | ctr =>
      have twelve : iv.length = 12 := ivLength
      have nonempty : iv ≠ [] := by
        intro empty
        rw [empty] at twelve
        cases twelve
      exact ⟨⟨cipher.key, .ctr, iv⟩, _, by simp [Aes.new, key, twelve, nonempty], rfl⟩
  | gcm =>
      have twelve : iv.length = 12 := ivLength
      have nonempty : iv ≠ [] := by
        intro empty
        rw [empty] at twelve
        cases twelve
      exact ⟨⟨cipher.key, .gcm, iv⟩, _, by simp [Aes.new, key, modeIvs, twelve, nonempty], rfl⟩

/-- **When an encryption is not refused**, for a plaintext that the padding does not hide. -/
theorem encrypt_isOk_iff (known : versions version = some spec) (key : cipher.key.length = 32)
    (ivLength : iv.length = modeIvs spec.mode) {plain : Bytes}
    (compressed : compressFor crypto spec plain = .ok packed) (faithful : Faithful spec packed) :
    (∃ payload, encrypt crypto cipher plain version iv true = .ok payload) ↔
      (spec.mode = .ecb → (blocks (pad (sealedBody crypto spec packed) spec.pkcsPad)).Nodup) := by
  have wellFormed := versions_wellFormed known
  have stream := wellFormed.stream
  obtain ⟨auth, attached⟩ := @attachAuth_faithful crypto cipher version spec iv packed wellFormed
    faithful
  have blocked : spec.mode ≠ .ctr → spec.mode ≠ .gcm →
      (pad (sealedBody crypto spec packed) spec.pkcsPad).length % 16 = 0 := by
    intro notCtr notGcm
    exact length_pad_mod _ _ fun none => (stream.mp none).elim notCtr notGcm
  have aligned : spec.mode = .ecb →
      (pad (sealedBody crypto spec packed) spec.pkcsPad).length % 16 = 0 :=
    fun ecb => blocked (by rw [ecb]; decide) (by rw [ecb]; decide)
  rw [← refuseDuplicates_eq_ok_iff aligned]
  obtain ⟨aes, output, made, ran⟩ := @new_encrypts crypto cipher iv spec.mode key ivLength _ blocked
  unfold encrypt lookupVersion
  simp only [known, ok_bind, compressed, refuseNulSuffix_faithful faithful, attached]
  cases repeated : refuseDuplicates true spec.mode
    (pad (sealedBody crypto spec packed) spec.pkcsPad)
      with
  | error exn => simp
  | ok done =>
      simp only [ok_bind, checkIv_block ivLength, made, ran, iff_true]
      exact ⟨_, rfl⟩

/-- A payload that was encrypted is wrapped. -/
theorem checkPayload_encrypted (inverts : crypto.Inverts) (known : versions version = some spec)
    (ivLength : iv.length = modeIvs spec.mode) {plain payload : Bytes}
    (encrypted : encrypt crypto cipher plain version iv true = .ok payload) :
    checkPayload spec payload = .ok () := by
  obtain ⟨spec', packed, body, auth, aes, output, tag, known', -, suffix, attached,
    made, ran, rfl⟩ :=
    encrypt_eq_ok encrypted
  obtain rfl : spec = spec' := Option.some.inj (known.symm.trans known')
  have wellFormed := versions_wellFormed known
  obtain ⟨-, outputLength, tagLength⟩ := Aes.decrypt_encrypt inverts ran
  have trailerLength := length_trailer inverts wellFormed
    (fun gcm => tagLength ((Aes.new_mode made).trans gcm)) attached
  unfold checkPayload
  by_cases stream : spec.pkcsPad = none
  · rw [if_pos stream]
  · have filled := length_pad_body wellFormed stream suffix attached
    have whole := length_pad_mod body spec.pkcsPad stream
    unfold trailer at trailerLength
    simp only [List.length_append, ivLength, outputLength, trailerLength, stream, ↓reduceIte]
    have size : (if 0 < spec.auth then spec.auth else 0) = (spec.auth.toNat : Int) := by
      split <;> omega
    rw [size, if_neg (by push_cast; omega), if_neg (by push_cast; omega)]

/-- Up to two NUL-padded blocks are different unless the second one, padded, is the first. -/
theorem nodup_blocks_padded {plain : Bytes} (nonempty : 0 < plain.length)
    (small : plain.length ≤ 32) :
    (blocks (pad plain (some false))).Nodup ↔
      ¬ (16 < plain.length ∧
        plain.take 16 = plain.drop 16 ++ List.replicate (32 - plain.length) 0) := by
  rcases Nat.lt_or_ge 16 plain.length with two | one
  · have padding : lenPadding plain.length = 32 - plain.length := by
      unfold lenPadding aesBlockSize
      omega
    have length : (pad plain (some false)).length = 32 := by
      rw [pad, List.length_append, List.length_replicate, padding]
      omega
    have front : (pad plain (some false)).take 16 = plain.take 16 :=
      List.take_append_of_le_length (by omega)
    have back : ((pad plain (some false)).drop 16).take 16 =
        plain.drop 16 ++ List.replicate (32 - plain.length) 0 := by
      rw [List.take_of_length_le (by rw [List.length_drop, length]), pad, padding,
        List.drop_append_of_le_length (by omega)]
    have both : blocks (pad plain (some false)) =
        [(pad plain (some false)).take 16, ((pad plain (some false)).drop 16).take 16] := by
      rw [blocks, length]
      rfl
    rw [both, front, back]
    simp [two]
  · have length : (pad plain (some false)).length = 16 := by
      rw [pad, List.length_append, List.length_replicate]
      unfold lenPadding aesBlockSize
      omega
    have single : blocks (pad plain (some false)) = [(pad plain (some false)).take 16] := by
      rw [blocks, length]
      rfl
    rw [single]
    simp [Nat.not_lt.mpr one]

end Cipher

/-- The end of `seal_ui`: the first suggested version, the encryption and the envelope. -/
def sealSuggested (crypto : Crypto) (key label : Bytes) (iterations : Nat) (mode : Mode)
    (iv plaintext : Bytes) : Except Exn Bytes := do
  match ← suggestVersions plaintext mode with
  | [] => throw .indexError
  | version :: _ =>
      let ciphertext ← Cipher.encrypt crypto (Cipher.new crypto key label iterations) plaintext
        version iv true
      wrap label version iterations ciphertext

section Usable

variable (crypto : Crypto) (key label : Bytes) (iterations : Nat) (mode : Mode) (plaintext : Bytes)

/-- The blocks of a compressed plaintext with its checksum, padded, are different. -/
def CompressedApart : Prop :=
  ∀ packed, crypto.deflate plaintext = some packed →
    (blocks (pad (packed ++ Cipher.hiddenAuth crypto packed 4) (some true))).Nodup

/-- **The suggested versions are usable**: there is one, every one of them encrypts the plaintext
with any vector of the mode, and so does the page that seals an envelope. Version 7, compressed
ECB, is excused where the blocks of the compressed plaintext repeat. -/
structure Usable : Prop where
  suggests : ∃ suggested, suggestVersions plaintext mode = .ok suggested ∧ suggested ≠ [] ∧
    ∀ version ∈ suggested, ∀ spec iv, versions version = some spec →
      iv.length = modeIvs spec.mode →
      (version = 7 → CompressedApart crypto plaintext) →
      ∃ payload, Cipher.encrypt crypto (Cipher.new crypto key label iterations) plaintext version iv
        true = .ok payload
  seals : ∀ iv field, iv.length = modeIvs mode → label.length ≤ 252 →
    encodeIterations iterations = .ok field →
    (suggestVersions plaintext mode = .ok [7] → CompressedApart crypto plaintext) →
    ∃ envelope, sealSuggested crypto key label iterations mode iv plaintext = .ok envelope

/-- Two blocks of what an uncompressed ECB version encrypts are the same, although those of the
plaintext are different: for a short plaintext without a NUL at its end the first block and the
padded rest of it, else any two blocks with the checksum and the padding. -/
def Repeats : Prop :=
  if plaintext.length ≤ smallThresh ∧ plaintext.getLast? ≠ some 0 then
    16 < plaintext.length ∧
      plaintext.take 16 = plaintext.drop 16 ++ List.replicate (32 - plaintext.length) 0
  else ¬ (blocks (pad (plaintext ++ Cipher.hiddenAuth crypto plaintext 4) (some true))).Nodup

variable {crypto} {key label iterations mode plaintext}

private theorem compressFor_isOk (compresses : ∀ data, (crypto.deflate data).isSome)
    (spec : Version)
    (plain : Bytes) :
    ∃ packed, Cipher.compressFor crypto spec plain = .ok packed ∧
      (spec.compress = false → packed = plain) ∧
      (spec.compress = true → crypto.deflate plain = some packed) := by
  unfold Cipher.compressFor deflate
  cases compress : spec.compress with
  | false => exact ⟨plain, by simp, fun _ => rfl, by simp⟩
  | true =>
      obtain ⟨packed, deflated⟩ := Option.isSome_iff_exists.mp (compresses plain)
      exact ⟨packed, by simp [deflated], by simp, fun _ => deflated⟩

/-- Outside ECB nothing is refused that the padding does not hide. -/
theorem encrypts_of_not_ecb (compresses : ∀ data, (crypto.deflate data).isSome) {cipher : Cipher}
    (keyLength : cipher.key.length = 32) {version : Nat} {spec : Version} {iv : Bytes}
    (known : versions version = some spec) (ivLength : iv.length = modeIvs spec.mode)
    (notEcb : spec.mode ≠ .ecb)
    (faithful : spec.pkcsPad = some false → spec.compress = false ∧ 0 < spec.auth ∧
      plaintext ≠ [] ∧ plaintext.getLast? ≠ some 0) :
    ∃ payload, Cipher.encrypt crypto cipher plaintext version iv true = .ok payload := by
  obtain ⟨packed, compressed, same, -⟩ := compressFor_isOk compresses spec plaintext
  have hides : Cipher.Faithful spec packed := by
    intro rule
    obtain ⟨plain, positive, nonempty, last⟩ := faithful rule
    rw [same plain]
    exact ⟨positive, nonempty, last⟩
  exact (Cipher.encrypt_isOk_iff known keyLength ivLength compressed hides).mpr
    fun ecb => absurd ecb notEcb

/-- When the uncompressed ECB versions encrypt. -/
theorem encrypts_ecb_iff {cipher : Cipher} (keyLength : cipher.key.length = 32)
    (nonempty : plaintext ≠ []) (middle : plaintext.length < bigThresh)
    (apart : hasDuplicates plaintext = false) :
    (∃ payload, Cipher.encrypt crypto cipher plaintext (suggestion ⟨plaintext.length,
        hasDuplicates plaintext, decide (plaintext.getLast? = some 0)⟩ .ecb) [] true =
          .ok payload) ↔ ¬ Repeats crypto plaintext := by
  have positive := List.length_pos_of_ne_nil nonempty
  unfold suggestion Repeats
  rw [if_neg (by simp [apart, middle])]
  by_cases short : plaintext.length ≤ smallThresh ∧ plaintext.getLast? ≠ some 0
  · have accepted := @Cipher.encrypt_isOk_iff crypto cipher 5 _ [] plaintext rfl keyLength rfl
      plaintext rfl (fun _ => ⟨by decide, nonempty, short.2⟩)
    rw [if_pos (by simpa using short), if_pos short, ← Cipher.nodup_blocks_padded positive short.1,
      accepted]
    exact ⟨fun unique => unique rfl, fun unique _ => unique⟩
  · have accepted := @Cipher.encrypt_isOk_iff crypto cipher 6 _ [] plaintext rfl keyLength rfl
      plaintext rfl (fun rule => by simp at rule)
    rw [if_neg (by simpa using short), if_neg short, Classical.not_not, accepted]
    exact ⟨fun unique => unique rfl, fun unique _ => unique⟩

/-- A suggestion is a version of its mode; it pads with NULs only where none is hidden. -/
theorem suggestion_spec (found : Metrics) (mode : Mode) :
    ∃ spec, versions (suggestion found mode) = some spec ∧ spec.mode = mode ∧
      (spec.pkcsPad = some false →
        spec.compress = false ∧ 0 < spec.auth ∧ found.pNulSuffix = false) := by
  cases mode with
  | ecb =>
      simp only [suggestion]
      split_ifs with compressed short
      · exact ⟨_, rfl, rfl, by simp⟩
      · exact ⟨_, rfl, rfl, fun _ => ⟨rfl, by decide, short.2⟩⟩
      · exact ⟨_, rfl, rfl, by simp⟩
  | cbc =>
      simp only [suggestion]
      split_ifs with big short
      · exact ⟨_, rfl, rfl, by simp⟩
      · exact ⟨_, rfl, rfl, fun _ => ⟨rfl, by decide, short.2⟩⟩
      · exact ⟨_, rfl, rfl, by simp⟩
  | ctr =>
      simp only [suggestion]
      split_ifs
      · exact ⟨_, rfl, rfl, by simp⟩
      · exact ⟨_, rfl, rfl, by simp⟩
  | gcm =>
      simp only [suggestion]
      split_ifs
      · exact ⟨_, rfl, rfl, by simp⟩
      · exact ⟨_, rfl, rfl, by simp⟩

/-- **When the suggestion encrypts.** -/
theorem suggestion_encrypts_iff (keys : ∀ key salt iterations,
      (crypto.pbkdf2HmacSha256 key salt iterations).length = 32)
    (compresses : ∀ data, (crypto.deflate data).isSome) (nonempty : plaintext ≠ []) {version : Nat}
    (suggested : version = suggestion ⟨plaintext.length, hasDuplicates plaintext,
      decide (plaintext.getLast? = some 0)⟩ mode) {iv : Bytes}
        (ivLength : iv.length = modeIvs mode) :
    ((version = 7 → CompressedApart crypto plaintext) →
      ∃ payload, Cipher.encrypt crypto (Cipher.new crypto key label iterations) plaintext version iv
        true = .ok payload) ↔
    (mode = .ecb → hasDuplicates plaintext = false → plaintext.length < bigThresh →
      ¬ Repeats crypto plaintext) := by
  have keyLength : (Cipher.new crypto key label iterations).key.length = 32 := keys _ _ _
  obtain ⟨spec, known, rfl, faithful⟩ := suggestion_spec ⟨plaintext.length, hasDuplicates plaintext,
    decide (plaintext.getLast? = some 0)⟩ mode
  rw [← suggested] at known
  by_cases ecb : spec.mode = .ecb
  · rw [ecb] at suggested ivLength ⊢
    obtain rfl : iv = [] := List.length_eq_zero_iff.mp ivLength
    by_cases uncompressed : hasDuplicates plaintext = false ∧ plaintext.length < bigThresh
    · have accepted := @encrypts_ecb_iff crypto plaintext (Cipher.new crypto key label iterations)
        keyLength nonempty uncompressed.2 uncompressed.1
      have other : version ≠ 7 := by
        rw [suggested, suggestion, if_neg (by simp [uncompressed])]
        split_ifs <;> decide
      rw [← suggested] at accepted
      simp only [uncompressed, other, false_implies, forall_const, accepted]
    · have seven : version = 7 := by
        rw [suggested, suggestion, if_pos]
        simp only [Bool.not_eq_false, not_and_or, Nat.not_lt] at uncompressed
        exact uncompressed
      refine ⟨fun _ _ apart middle => absurd ⟨apart, middle⟩ uncompressed, fun _ apart => ?_⟩
      subst seven
      obtain ⟨packed, compressed, -, deflated⟩ := compressFor_isOk compresses _ plaintext
      refine (Cipher.encrypt_isOk_iff rfl keyLength rfl compressed
        (fun rule => by simp at rule)).mpr fun _ => ?_
      exact apart rfl packed (deflated rfl)
  · refine ⟨fun _ same => absurd same ecb, fun _ _ => ?_⟩
    refine encrypts_of_not_ecb compresses keyLength known ivLength ecb fun rule => ?_
    obtain ⟨plain, positive, last⟩ := faithful rule
    exact ⟨plain, positive, nonempty, by simpa using last⟩

/-- **When the suggested versions are usable**: unless ECB mode is asked for, the plaintext is
shorter than the big threshold and has no repeated block, and what is encrypted has one. -/
theorem suggested_usable_iff (inverts : crypto.Inverts)
    (compresses : ∀ data, (crypto.deflate data).isSome) (nonempty : plaintext ≠ []) :
    Usable crypto key label iterations mode plaintext ↔
      ¬ (mode = .ecb ∧ hasDuplicates plaintext = false ∧ plaintext.length < bigThresh ∧
        Repeats crypto plaintext) := by
  obtain ⟨spec, known, modes, -⟩ := suggestion_spec ⟨plaintext.length, hasDuplicates plaintext,
    decide (plaintext.getLast? = some 0)⟩ mode
  have one := suggestVersions_eq nonempty mode
  generalize chosen : suggestion ⟨plaintext.length, hasDuplicates plaintext,
    decide (plaintext.getLast? = some 0)⟩ mode = version at known one
  have encrypts := fun iv (ivLength : iv.length = modeIvs mode) =>
    @suggestion_encrypts_iff crypto key label iterations mode plaintext
      inverts.key_length compresses nonempty version chosen.symm iv ivLength
  constructor
  · rintro ⟨⟨suggested, found, -, all⟩, -⟩ ⟨ecb, apart, middle, repeated⟩
    obtain rfl : [version] = suggested := Except.ok.inj (one.symm.trans found)
    have iv : (List.replicate (modeIvs mode) (0 : UInt8)).length = modeIvs mode :=
      List.length_replicate
    refine (encrypts _ iv).mp (all version (by simp) spec _ known ?_) ecb apart middle repeated
    rw [modes, iv]
  · intro usable
    have accepted := fun iv ivLength => (encrypts iv ivLength).mpr
      fun ecb apart middle repeated => usable ⟨ecb, apart, middle, repeated⟩
    constructor
    · refine ⟨[version], one, by simp, ?_⟩
      intro other member spec' iv known' ivLength excused
      obtain rfl := List.mem_singleton.mp member
      obtain rfl : spec = spec' := Option.some.inj (known.symm.trans known')
      exact accepted iv (by rw [ivLength, modes]) excused
    · intro iv field ivLength short encoded excused
      obtain ⟨payload, encrypted⟩ :=
        accepted iv ivLength (fun seven => excused (by rw [one, seven]))
      have aligned := Cipher.checkPayload_encrypted inverts known
        (by rw [ivLength, modes]) encrypted
      have wrapped := wrap_of_parts short known encoded aligned
      unfold sealSuggested
      rw [one]
      simp only [ok_bind, encrypted]
      exact ⟨_, wrapped⟩

/-- A plaintext of 32 bytes whose blocks are different. -/
theorem suggested_usable_iff_apart :
    Usable .additive [] [] 10000 .ecb (List.replicate 16 1 ++ List.replicate 16 2) := by
  refine (suggested_usable_iff Crypto.additive_inverts (fun _ => rfl) (by simp)).mpr ?_
  rintro ⟨-, -, -, repeated⟩
  revert repeated
  unfold Repeats
  decide +kernel

/-- Seventeen bytes: a one, fifteen NULs and a one. The rest of the plaintext, padded, is its first
block, and the suggested version refuses to encrypt it. -/
theorem suggested_version_refuses :
    ¬ Usable Cipher.recorded [107, 101, 121] [115, 97, 108, 116] 100000 .ecb
      (1 :: List.replicate 15 0 ++ [1]) := by
  rintro ⟨⟨suggested, found, -, all⟩, -⟩
  have five : suggestVersions (1 :: List.replicate 15 0 ++ [1]) .ecb = .ok [5] := by
    decide +kernel
  obtain rfl : [5] = suggested := Except.ok.inj (five.symm.trans found)
  obtain ⟨payload, encrypted⟩ := all 5 (by simp) _ [] rfl rfl (by simp)
  have refused : Cipher.encrypt Cipher.recorded
      (Cipher.new Cipher.recorded [107, 101, 121] [115, 97, 108, 116] 100000)
      (1 :: List.replicate 15 0 ++ [1]) 5 [] true =
        .error (.valueError "Duplicate blocks in ECB mode") := by
    decide +kernel
  rw [refused] at encrypted
  cases encrypted

end Usable

end VaultSeed.Kef
