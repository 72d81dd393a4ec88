import VaultSeed.Kef.Authentication
import Mathlib.Logic.Equiv.Basic

/-! # The retries of `_authenticate`

NUL padding cannot be stripped exactly, so `Cipher._authenticate` gives NULs back, one more in
every turn of its loop, until the checksum fits. With appended bytes the NULs go to the
plaintext; with hidden bytes they go to the end of the checksum, whose first byte moves to the
plaintext. The loop finds the least number of NULs that fits, up to a limit
(`Cipher.decrypt_appended_iff`, `Cipher.decrypt_hidden_iff`).
-/

namespace VaultSeed.Kef

open Python Effect

/-- The versions with NUL padding. -/
structure Version.NulPadded (spec : Version) : Prop where
  rule : spec.pkcsPad = some false
  packed : spec.compress = false
  block : spec.mode = .ecb ∨ spec.mode = .cbc

/-- A version that pads with NULs is a padded one. -/
theorem versions_nulPadded {version : Nat} {spec : Version} (known : versions version = some spec)
    (rule : spec.pkcsPad = some false) : spec.NulPadded := by
  unfold versions at known
  split at known <;> cases known <;> first
    | exact ⟨rfl, rfl, .inl rfl⟩
    | exact ⟨rfl, rfl, .inr rfl⟩
    | cases rule

private theorem versions_auth_ge {version : Nat} {spec : Version}
    (known : versions version = some spec) :
    -16 ≤ spec.auth := by
  unfold versions at known
  split at known <;> cases known <;> simp

namespace Cipher

variable {crypto : Crypto} {cipher : Cipher}

/-- The least number with a property. -/
def Least (holds : Nat → Prop) (number : Nat) : Prop :=
  holds number ∧ ∀ fewer < number, ¬ holds fewer

private theorem map_find_range {α : Type} {holds : Nat → Prop} [DecidablePred holds] {count : Nat}
    {value : Nat → α} {found : α} :
    ((List.range count).find? fun number => holds number).map value = some found ↔
      ∃ number < count, Least holds number ∧ found = value number := by
  simp only [Option.map_eq_some_iff, List.find?_range_eq_some, decide_eq_true_eq, List.mem_range,
    Bool.not_eq_eq_eq_not, Bool.not_true, decide_eq_false_iff_not, Least]
  constructor
  · rintro ⟨number, ⟨fits, less, none⟩, rfl⟩
    exact ⟨number, less, ⟨fits, none⟩, rfl⟩
  · rintro ⟨number, less, ⟨fits, none⟩, rfl⟩
    exact ⟨number, ⟨fits, less, none⟩, rfl⟩

section Search

variable {version : Nat} {iv : Bytes} {vAuth : Int}

/-- The loop with appended bytes is a search for a number of NULs. -/
theorem attempt_appended_eq (positive : 0 < vAuth) (count : Nat) (decrypted auth : Bytes) :
    attempt crypto cipher version iv vAuth count decrypted auth =
      ((List.range count).find? fun nuls => publicAuth crypto cipher version iv
        (decrypted ++ List.replicate nuls 0) vAuth.toNat = auth).map
          fun nuls => decrypted ++ List.replicate nuls 0 := by
  have notNegative : ¬ vAuth < 0 := by omega
  induction count generalizing decrypted with
  | zero => rfl
  | succ count ih =>
      rw [attempt, List.range_succ_eq_map, List.find?_cons]
      simp only [positive, notNegative, ↓reduceIte, List.replicate_zero, List.append_nil]
      by_cases fits : publicAuth crypto cipher version iv decrypted vAuth.toNat = auth
      · simp only [fits, ↓reduceIte, decide_true, Option.map_some, List.replicate_zero,
          List.append_nil]
      · have shift : ∀ nuls, decrypted ++ [0] ++ List.replicate nuls (0 : UInt8) =
            decrypted ++ List.replicate (nuls + 1) 0 := by
          intro nuls
          rw [List.append_assoc, List.replicate_succ]
          rfl
        simp only [fits, ↓reduceIte, decide_false, ih, shift, List.find?_map, Option.map_map,
          Function.comp_def]

/-- With the last `width` bytes as its checksum, a plaintext and some NULs after it fit. -/
def Fits (crypto : Crypto) (width : Nat) (stripped : Bytes) (nuls : Nat) : Prop :=
  hiddenAuth crypto ((stripped ++ List.replicate nuls 0).take (stripped.length + nuls - width))
    width = (stripped ++ List.replicate nuls 0).drop (stripped.length + nuls - width)

instance (width : Nat) (stripped : Bytes) (nuls : Nat) :
    Decidable (Fits crypto width stripped nuls) :=
  inferInstanceAs (Decidable (_ = _))

/-- The loop with hidden bytes is a search for a number of NULs. -/
theorem attempt_hidden_eq {width : Nat} (negative : vAuth = -(width : Int)) (some : 0 < width)
    (count : Nat) (decrypted auth : Bytes) (length : auth.length = width) :
    attempt crypto cipher version iv vAuth count decrypted auth =
      ((List.range count).find? fun nuls => Fits crypto width (decrypted ++ auth) nuls).map
        fun nuls => (decrypted ++ auth ++ List.replicate nuls 0).take
          ((decrypted ++ auth).length + nuls - width) := by
  have below : vAuth < 0 := by omega
  have notPositive : ¬ 0 < vAuth := by omega
  have size : (-vAuth).toNat = width := by omega
  induction count generalizing decrypted auth with
  | zero => rfl
  | succ count ih =>
      have whole : (decrypted ++ auth).length + 0 - width = decrypted.length := by
        rw [List.length_append]
        omega
      have first : Fits crypto width (decrypted ++ auth) 0 ↔
          hiddenAuth crypto decrypted width = auth := by
        unfold Fits
        rw [List.replicate_zero, List.append_nil, whole, List.take_left, List.drop_left]
      rw [attempt, List.range_succ_eq_map, List.find?_cons]
      simp only [below, notPositive, ↓reduceIte, size, first]
      by_cases fits : hiddenAuth crypto decrypted width = auth
      · simp only [fits, ↓reduceIte, decide_true, Option.map_some, List.replicate_zero,
          List.append_nil, whole, List.take_left]
      · -- The next turn looks at the same bytes with one more NUL.
        have moved : decrypted ++ auth.take 1 ++ (auth.drop 1 ++ [0]) = decrypted ++
            auth ++ [0] := by
          rw [List.append_assoc, ← List.append_assoc (auth.take 1), List.take_append_drop,
            List.append_assoc]
        have shift : ∀ nuls, decrypted ++ auth ++ [0] ++ List.replicate nuls (0 : UInt8) =
            decrypted ++ auth ++ List.replicate (nuls + 1) 0 := by
          intro nuls
          rw [List.append_assoc (decrypted ++ auth), List.replicate_succ]
          rfl
        have grown : ∀ nuls, (decrypted ++ auth ++ [0]).length + nuls =
            (decrypted ++ auth).length + (nuls + 1) := by
          intro nuls
          rw [List.length_append, List.length_singleton]
          omega
        have later : ∀ nuls, Fits crypto width (decrypted ++ auth ++ [0]) nuls ↔
            Fits crypto width (decrypted ++ auth) (nuls + 1) := by
          intro nuls
          unfold Fits
          rw [shift, grown]
        have again := ih (decrypted ++ auth.take 1) (auth.drop 1 ++ [0]) (by
          rw [List.length_append, List.length_drop, List.length_singleton]
          omega)
        simp only [moved, later, shift, grown] at again
        simp only [fits, ↓reduceIte, decide_false, again, List.find?_map, Option.map_map,
          Function.comp_def]

/-- Hidden bytes that are too few never fit. -/
theorem attempt_hidden_short (digests : ∀ data, (crypto.sha256 data).length = 32) {width : Nat}
    (negative : vAuth = -(width : Int)) (several : 1 < width) (small : width ≤ 32) (count : Nat)
    (decrypted auth : Bytes) (length : auth.length < width) :
    attempt crypto cipher version iv vAuth count decrypted auth = none := by
  have below : vAuth < 0 := by omega
  have notPositive : ¬ 0 < vAuth := by omega
  have size : (-vAuth).toNat = width := by omega
  induction count generalizing decrypted auth with
  | zero => rfl
  | succ count ih =>
      have differs : hiddenAuth crypto decrypted width ≠ auth := by
        intro same
        have count := congrArg List.length same
        rw [hiddenAuth, List.length_take, digests] at count
        omega
      rw [attempt]
      simp only [below, notPositive, ↓reduceIte, size, differs]
      apply ih
      rw [List.length_append, List.length_drop, List.length_singleton]
      omega

end Search

section Payloads

variable {version : Nat} {spec : Version} {payload : Bytes}

/-- A payload that reaches the decryption: more than a vector, and whole blocks of ciphertext. -/
def Readable (spec : Version) (payload : Bytes) : Prop :=
  minPayload spec < payload.length ∧
    (splitAuth spec (payload.drop (modeIvs spec.mode))).1.length % 16 = 0

/-- The decrypted blocks of a payload. -/
def decryptedBlocks (crypto : Crypto) (cipher : Cipher) (spec : Version) (payload : Bytes) :
    Bytes :=
  decipher crypto cipher.key spec.mode (payload.take (modeIvs spec.mode))
    (splitAuth spec (payload.drop (modeIvs spec.mode))).1

/-- What the retries of a NUL-padded version find. -/
theorem releaseFor_nulPadded (small : version < 256) (wellFormed : spec.WellFormed)
    (nulPadded : spec.NulPadded) (iv decrypted kept auth : Bytes) (aes : Aes) :
    releaseFor crypto cipher version spec iv decrypted aes kept auth =
      attempt crypto cipher version iv spec.auth
        (min (decrypted.length - (if spec.auth < 0 then sliceTo (rstrip 0 decrypted) spec.auth
          else rstrip 0 decrypted).length) (spec.auth.natAbs + 1) + 1)
        (if spec.auth < 0 then sliceTo (rstrip 0 decrypted) spec.auth else rstrip 0 decrypted)
        (if spec.auth < 0 then sliceFrom (rstrip 0 decrypted) spec.auth else auth) := by
  have called : version ≤ 255 ∧ -32 ≤ spec.auth ∧ spec.auth ≤ 32 :=
    ⟨by omega, wellFormed.lower, wellFormed.upper⟩
  have notGcm : spec.mode ≠ .gcm := by
    rcases nulPadded.block with mode | mode <;> rw [mode] <;> decide
  unfold releaseFor authenticate
  rw [if_pos wellFormed.nonzero]
  simp only [called, and_self, not_true_eq_false, ↓reduceIte, nulPadded.rule, unpad, notGcm]
  by_cases negative : spec.auth < 0
  · simp only [negative, ↓reduceIte]
    rfl
  · simp only [negative, ↓reduceIte]
    rfl

/-- Without compression nothing is inflated. -/
theorem inflateFor_packed (packed : spec.compress = false) (released : Option Bytes) :
    inflateFor crypto spec released = .ok released := by
  cases released with
  | none => rfl
  | some plain =>
      simp only [inflateFor, packed, Bool.false_eq_true, and_false, ↓reduceIte]
      rfl

/-- The cipher object of a block mode. -/
theorem new_block {mode : Mode} {iv : Bytes} (block : mode = .ecb ∨ mode = .cbc)
    (key : cipher.key.length = 32) (length : iv.length = modeIvs mode) :
    ∃ aes, Aes.new cipher.key mode (if modeIvs mode = 0 then none else some iv) = .ok aes ∧
      ∀ data, aes.decrypt crypto data =
        if data.length % 16 = 0 then .ok (decipher crypto cipher.key mode iv data, [0, 0, 0, 0])
        else .error (.valueError "input length must be multiple of 16") := by
  rcases block with rfl | rfl
  · refine ⟨⟨cipher.key, .ecb, List.replicate 16 0⟩, by simp [Aes.new, key, modeIvs], ?_⟩
    intro data
    unfold Aes.decrypt Aes.checkAligned
    by_cases aligned : data.length % 16 = 0
    · simp [aligned, decipher]
    · simp [aligned]
  · have sixteen : iv.length = 16 := length
    refine ⟨⟨cipher.key, .cbc, iv⟩, by simp [Aes.new, key, modeIvs, sixteen], ?_⟩
    intro data
    unfold Aes.decrypt Aes.checkAligned
    by_cases aligned : data.length % 16 = 0
    · simp [aligned, decipher]
    · simp [aligned]

/-- A NUL-padded version decrypts the payloads it can read, and no others. -/
theorem decrypt_nulPadded (known : versions version = some spec) (nulPadded : spec.NulPadded)
    (key : cipher.key.length = 32) (payload : Bytes) :
    (Readable spec payload ∧ ∃ aes kept, decrypt crypto cipher payload version =
      .ok (releaseFor crypto cipher version spec (payload.take (modeIvs spec.mode))
        (decryptedBlocks crypto cipher spec payload) aes kept
        (splitAuth spec (payload.drop (modeIvs spec.mode))).2)) ∨
    (¬ Readable spec payload ∧ ∃ exn, decrypt crypto cipher payload version = .error exn) := by
  have lower := versions_auth_ge known
  by_cases long : minPayload spec < payload.length
  swap
  · refine .inr ⟨fun readable => long readable.1, .valueError "Invalid Payload", ?_⟩
    unfold decrypt lookupVersion
    rw [known]
    simp only [ok_bind]
    rw [if_pos (by omega)]
    rfl
  have ivLength : (payload.take (modeIvs spec.mode)).length = modeIvs spec.mode := by
    rw [List.length_take]
    unfold minPayload aesBlockSize at long
    rw [if_neg (by rcases nulPadded.block with mode | mode <;> rw [mode] <;> decide)] at long
    omega
  obtain ⟨aes, made, runs⟩ := @new_block crypto cipher spec.mode _ nulPadded.block key ivLength
  have opened : decrypt crypto cipher payload version =
      aes.decrypt crypto (splitAuth spec (payload.drop (modeIvs spec.mode))).1 >>= fun result =>
        inflateFor crypto spec (releaseFor crypto cipher version spec
          (payload.take (modeIvs spec.mode)) result.1 aes result.2
          (splitAuth spec (payload.drop (modeIvs spec.mode))).2) := by
    unfold decrypt lookupVersion
    rw [known]
    simp only [ok_bind, made]
    rw [if_neg (by omega)]
  rw [opened, runs]
  by_cases aligned : (splitAuth spec (payload.drop (modeIvs spec.mode))).1.length % 16 = 0
  · rw [if_pos aligned]
    exact .inl ⟨⟨long, aligned⟩, aes, _, inflateFor_packed nulPadded.packed _⟩
  · rw [if_neg aligned]
    exact .inr ⟨fun readable => aligned readable.2, _, rfl⟩

/-- The NULs that were stripped from the decrypted blocks. -/
def strippedNuls (decrypted : Bytes) : Nat := decrypted.length - (rstrip 0 decrypted).length

/-- **What a decryption with appended bytes releases**: the stripped plaintext with the least
number of NULs that fits the bytes. -/
theorem decrypt_appended_iff (known : versions version = some spec) (nulPadded : spec.NulPadded)
    (positive : 0 < spec.auth) (key : cipher.key.length = 32) {payload plain : Bytes} :
    decrypt crypto cipher payload version = .ok (some plain) ↔ Readable spec payload ∧
      ∃ nuls ≤ min (strippedNuls (decryptedBlocks crypto cipher spec payload))
          (spec.auth.toNat + 1),
        Least (fun nuls => publicAuth crypto cipher version (payload.take (modeIvs spec.mode))
          (rstrip 0 (decryptedBlocks crypto cipher spec payload) ++ List.replicate nuls 0)
          spec.auth.toNat = (splitAuth spec (payload.drop (modeIvs spec.mode))).2) nuls ∧
        plain = rstrip 0 (decryptedBlocks crypto cipher spec payload) ++ List.replicate nuls 0 := by
  have notNegative : ¬ spec.auth < 0 := by omega
  have size : spec.auth.natAbs = spec.auth.toNat := by omega
  rcases @decrypt_nulPadded crypto cipher version spec known nulPadded key payload with
    ⟨readable, aes, kept, opened⟩ | ⟨unreadable, exn, raised⟩
  · rw [opened, releaseFor_nulPadded (versions_lt known) (versions_wellFormed known) nulPadded]
    simp only [notNegative, ↓reduceIte, size, readable, true_and, Except.ok.injEq]
    rw [attempt_appended_eq positive, map_find_range]
    simp only [Nat.lt_succ_iff, strippedNuls]
  · rw [raised]
    simp [unreadable]

/-- **What a decryption with sixteen hidden bytes releases**: of the stripped blocks with the
least number of NULs after them that fits, what precedes the last sixteen bytes. -/
theorem decrypt_hidden_iff (digests : ∀ data, (crypto.sha256 data).length = 32)
    (known : versions version = some spec) (nulPadded : spec.NulPadded)
    (hidden : spec.auth = -16) (key : cipher.key.length = 32) {payload plain : Bytes} :
    decrypt crypto cipher payload version = .ok (some plain) ↔
      (Readable spec payload ∧
        16 ≤ (rstrip 0 (decryptedBlocks crypto cipher spec payload)).length) ∧
      ∃ nuls ≤ min (strippedNuls (decryptedBlocks crypto cipher spec payload) + 16) 17,
        Least (Fits crypto 16 (rstrip 0 (decryptedBlocks crypto cipher spec payload))) nuls ∧
        plain = (rstrip 0 (decryptedBlocks crypto cipher spec payload) ++
          List.replicate nuls 0).take
            ((rstrip 0 (decryptedBlocks crypto cipher spec payload)).length + nuls - 16) := by
  rcases @decrypt_nulPadded crypto cipher version spec known nulPadded key payload with
    ⟨readable, aes, kept, opened⟩ | ⟨unreadable, exn, raised⟩
  swap
  · rw [raised]
    simp [unreadable]
  rw [opened, releaseFor_nulPadded (versions_lt known) (versions_wellFormed known) nulPadded]
  have negative : spec.auth = -((16 : Nat) : Int) := hidden
  have below : spec.auth < 0 := by omega
  obtain ⟨count, whole⟩ := exists_rstrip_append 0 (decryptedBlocks crypto cipher spec payload)
  have total := congrArg List.length whole
  rw [List.length_append, List.length_replicate] at total
  simp only [below, ↓reduceIte, readable, true_and, Except.ok.injEq]
  rw [negative, sliceTo, sliceFrom, bound_neg _ _ (by decide), strippedNuls]
  generalize rstrip 0 (decryptedBlocks crypto cipher spec payload) = stripped at total ⊢
  by_cases long : 16 ≤ stripped.length
  · have limit : min ((decryptedBlocks crypto cipher spec payload).length -
          (stripped.take (stripped.length - 16)).length) ((-((16 : Nat) : Int)).natAbs + 1) =
        min ((decryptedBlocks crypto cipher spec payload).length - stripped.length + 16) 17 := by
      have front : (stripped.take (stripped.length - 16)).length = stripped.length - 16 := by
        rw [List.length_take]
        omega
      have size : (-((16 : Nat) : Int)).natAbs = 16 := rfl
      rw [front, size]
      omega
    rw [limit, attempt_hidden_eq rfl (by decide) _ _ _ (by rw [List.length_drop]; omega),
      List.take_append_drop, map_find_range]
    simp only [Nat.lt_succ_iff, long, true_and]
  · rw [attempt_hidden_short digests rfl (by decide) (by decide) _ _ _
      (by rw [List.length_drop]; omega)]
    simp [long]

/-- The least number of NULs that fits is larger than the number of NULs that were stripped, and
within the limit of the loop. -/
def Overhangs (crypto : Crypto) (decrypted : Bytes) : Prop :=
  16 ≤ (rstrip 0 decrypted).length ∧
    ∃ nuls, strippedNuls decrypted < nuls ∧ nuls ≤ min (strippedNuls decrypted + 16) 17 ∧
      Least (Fits crypto 16 (rstrip 0 decrypted)) nuls

/-- What is decrypted is what is left of it and the stripped NULs. -/
theorem length_eq_rstrip (decrypted : Bytes) :
    decrypted.length = (rstrip 0 decrypted).length + strippedNuls decrypted := by
  obtain ⟨count, whole⟩ := exists_rstrip_append 0 decrypted
  have total := congrArg List.length whole
  rw [List.length_append] at total
  unfold strippedNuls
  omega

/-- **When a released plaintext and its checksum fit in the decrypted blocks**, for the first two
versions: unless the loop must give back more NULs than were stripped. -/
theorem decrypt_within_blocks_iff (digests : ∀ data, (crypto.sha256 data).length = 32)
    (keys : ∀ key salt iterations, (crypto.pbkdf2HmacSha256 key salt iterations).length = 32)
    (first : version = 0 ∨ version = 1) (known : versions version = some spec)
    (key salt : Bytes) (iterations : Nat) (payload : Bytes) :
    (∀ plain, decrypt crypto (new crypto key salt iterations) payload version = .ok (some plain) →
      plain.length + 16 ≤
        (decryptedBlocks crypto (new crypto key salt iterations) spec payload).length) ↔
    ¬ (Readable spec payload ∧
      Overhangs crypto (decryptedBlocks crypto (new crypto key salt iterations) spec payload)) := by
  have hidden : spec.auth = -16 := by
    rcases first with rfl | rfl <;> cases known <;> rfl
  have rule : spec.pkcsPad = some false := by
    rcases first with rfl | rfl <;> cases known <;> rfl
  have released := fun plain => @decrypt_hidden_iff crypto (new crypto key salt iterations) version
    spec digests known (versions_nulPadded known rule) hidden (keys _ _ _) payload plain
  have total := length_eq_rstrip
    (decryptedBlocks crypto (new crypto key salt iterations) spec payload)
  unfold Overhangs
  generalize decryptedBlocks crypto (new crypto key salt iterations) spec payload = decrypted at *
  constructor
  · rintro within ⟨readable, long, nuls, more, less, least⟩
    have fits := within _ ((released _).mpr ⟨⟨readable, long⟩, nuls, less, least, rfl⟩)
    rw [List.length_take, List.length_append, List.length_replicate] at fits
    omega
  · intro apart plain done
    obtain ⟨⟨readable, long⟩, nuls, less, least, rfl⟩ := (released plain).mp done
    have few : nuls ≤ strippedNuls decrypted := by
      by_contra more
      exact apart ⟨readable, long, nuls, by omega, less, least⟩
    rw [List.length_take, List.length_append, List.length_replicate]
    omega

end Payloads

/-- The PBKDF2 of `key` and `salt` after 100000 rounds. -/
def recordedKey : Bytes :=
  [247, 217, 62, 214, 250, 179, 241, 27, 24, 177, 251, 65, 174, 178, 190, 197,
    166, 224, 244, 179, 71, 220, 236, 119, 237, 167, 7, 243, 90, 136, 159, 29]

/-- SHA-256 of the empty string, of `8`, and of what version 5 hashes for `8` with and without a
NUL. -/
def recordedDigest (data : Bytes) : Bytes :=
  if data = [56] then
    [44, 98, 66, 50, 205, 210, 33, 119, 18, 148, 223, 187, 49, 10, 202, 0,
      10, 13, 246, 172, 139, 102, 182, 150, 217, 14, 240, 111, 222, 251, 100, 163]
  else if data = [5, 56] ++ recordedKey then
    [121, 108, 26, 124, 39, 94, 132, 109, 133, 5, 82, 226, 23, 216, 22, 71,
      127, 238, 204, 86, 168, 69, 29, 36, 171, 227, 184, 214, 172, 39, 23, 52]
  else if data = [5, 56, 0] ++ recordedKey then
    [190, 240, 125, 15, 27, 84, 33, 237, 164, 181, 17, 160, 93, 201, 219, 189,
      193, 169, 22, 51, 251, 250, 231, 144, 223, 78, 164, 193, 62, 45, 188, 183]
  else
    [227, 176, 196, 66, 152, 252, 28, 20, 154, 251, 244, 200, 153, 111, 185, 36,
      39, 174, 65, 228, 100, 155, 147, 76, 164, 149, 153, 27, 120, 82, 184, 85]

/-- AES-256 under the recorded key, on three plaintexts. -/
def recordedAes : Bytes ≃ Bytes :=
  ((Equiv.swap
      [56, 44, 98, 66, 50, 205, 210, 33, 119, 18, 148, 223, 187, 49, 10, 202]
      [161, 221, 162, 164, 167, 35, 48, 234, 206, 38, 166, 167, 241, 73, 77, 126]).trans
    (Equiv.swap
      ([56, 44, 98, 66, 50, 205, 210, 33, 119, 18, 148, 223, 187, 49, 10, 202] ++
        List.replicate 16 0)
      [161, 221, 162, 164, 167, 35, 48, 234, 206, 38, 166, 167, 241, 73, 77, 126,
        78, 68, 0, 193, 208, 52, 90, 60, 79, 14, 166, 169, 79, 238, 225, 223])).trans
    (Equiv.swap (56 :: List.replicate 15 0)
      [34, 205, 109, 183, 137, 188, 214, 20, 55, 172, 75, 229, 108, 252, 145, 109])

/-- Primitives with the values of the real ones on the inputs of the examples below. -/
def recorded : Crypto := { Crypto.additive with
  sha256 := recordedDigest
  pbkdf2HmacSha256 := fun _ _ _ => recordedKey
  ecbEncrypt := fun _ => recordedAes
  ecbDecrypt := fun _ => recordedAes.symm }

private theorem length_swap {first second : Bytes} (same : first.length = second.length)
    (data : Bytes) :
    (Equiv.swap first second data).length = data.length := by
  rw [Equiv.swap_apply_def]
  split_ifs with left right
  · rw [left, same]
  · rw [right, same]
  · rfl

/-- The cipher with a recorded tag inverts. -/
theorem recorded_inverts : recorded.Inverts := { Crypto.additive_inverts with
  sha256_length := by
    intro data
    change (recordedDigest data).length = 32
    unfold recordedDigest
    split_ifs <;> rfl
  key_length := fun _ _ _ => rfl
  ecb := fun _ data _ => recordedAes.symm_apply_apply data
  ecb_length := by
    intro _ data
    change (recordedAes data).length = data.length
    unfold recordedAes
    simp only [Equiv.trans_apply]
    exact (length_swap (by rfl) _).trans
      ((length_swap (by rfl) _).trans (length_swap (by rfl) _)) }

/-- A block with a plaintext of one byte and fifteen bytes of its checksum, the last of which is
NUL: the loop gives back a NUL although none was stripped. -/
theorem released_beyond_blocks :
    let cipher := new recorded [107, 101, 121] [115, 97, 108, 116] 100000
    ¬ ∀ payload plain, decrypt recorded cipher payload 0 = .ok (some plain) →
      plain.length + 16 ≤
        (decryptedBlocks recorded cipher ⟨"AES-ECB v1", .ecb, some false, -16, false⟩
          payload).length := by
  intro cipher within
  have fits := within
    [161, 221, 162, 164, 167, 35, 48, 234, 206, 38, 166, 167, 241, 73, 77, 126] [56]
    (by decide +kernel)
  revert fits
  decide +kernel

/-- Two blocks of which fifteen bytes are padding. -/
theorem decrypt_within_blocks_iff_padded :
    let cipher := new .additive [] [] 0
    let payload : Bytes := (pad ([1] ++ hiddenAuth .additive [1] 16) (some false)).map (· + 2)
    ∀ plain, decrypt .additive cipher payload 0 = .ok (some plain) →
      plain.length + 16 ≤ (decryptedBlocks .additive cipher
        ⟨"AES-ECB v1", .ecb, some false, -16, false⟩ payload).length := by
  intro cipher payload
  refine (decrypt_within_blocks_iff Crypto.additive_inverts.sha256_length
    Crypto.additive_inverts.key_length (.inl rfl) rfl [] [] 0 payload).mpr ?_
  rintro ⟨-, -, nuls, more, -, -, none⟩
  exact none 0 (Nat.zero_lt_of_lt more) (by decide +kernel)

end Cipher

end VaultSeed.Kef
