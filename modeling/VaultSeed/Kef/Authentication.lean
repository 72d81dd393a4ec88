import VaultSeed.Kef.RoundTrip

/-! # What a decryption releases

Whatever the payload, `Cipher.decrypt` releases only what the payload authenticates. The
padding, the slices and the retry loop of `Cipher._authenticate` work on bytes that anyone
may have chosen: the loop moves bytes from the checksum to the plaintext or assumes NULs
that were stripped, and keeps the two in a row all the while.
-/

namespace VaultSeed.Kef

open Python Effect

/-- The AES decryption of a ciphertext. -/
def decipher (crypto : Crypto) (key : Bytes) (mode : Mode) (iv ciphertext : Bytes) : Bytes :=
  match mode with
  | .ecb => crypto.ecbDecrypt key ciphertext
  | .cbc => crypto.cbcDecrypt key iv ciphertext
  | .ctr => crypto.ctrDecrypt key iv ciphertext
  | .gcm => (crypto.gcmDecrypt key iv ciphertext).1

namespace Cipher

variable {crypto : Crypto} {cipher : Cipher}

/-- What authenticates a plaintext `packed` (before inflation) under the versions without a
tag of their own: the bytes after the ciphertext and NULs for the smallest versions, the
hidden bytes up to trailing NULs for the first ones, the hidden bytes and as much padding
as its last byte says, and the hidden bytes alone. -/
def Authentic (crypto : Crypto) (cipher : Cipher) (version : Nat)
    (iv tag decrypted packed : Bytes) :
    Prop :=
  match version with
  | 5 | 10 =>
      publicAuth crypto cipher version iv packed tag.length = tag ∧
        ∃ count, decrypted = packed ++ List.replicate count 0
  | 0 | 1 => rstrip 0 (packed ++ hiddenAuth crypto packed 16) = rstrip 0 decrypted
  | 6 | 7 | 11 | 12 =>
      ∃ padding last, decrypted = packed ++ hiddenAuth crypto packed 4 ++ padding ∧
        decrypted.getLast? = some last ∧ padding.length = last.toNat
  | 15 | 16 => decrypted = packed ++ hiddenAuth crypto packed 4
  | _ => False

section Attempts

variable {version : Nat} {iv decrypted auth packed : Bytes} {vAuth : Int} {count : Nat}

/-- The attempts with appended bytes assume more and more NULs. -/
theorem attempt_public (positive : 0 < vAuth)
    (found : attempt crypto cipher version iv vAuth count decrypted auth = some packed) :
    publicAuth crypto cipher version iv packed vAuth.toNat = auth ∧
      ∃ nuls < count, packed = decrypted ++ List.replicate nuls 0 := by
  induction count generalizing decrypted with
  | zero => cases found
  | succ count ih =>
      unfold attempt at found
      simp only [positive, ↓reduceIte, show ¬ vAuth < 0 by omega] at found
      split at found
      · rename_i matching
        cases found
        exact ⟨matching, 0, by omega, by simp⟩
      · obtain ⟨matching, nuls, less, rfl⟩ := ih found
        refine ⟨matching, nuls + 1, by omega, ?_⟩
        rw [List.append_assoc, List.replicate_succ]
        rfl

/-- The attempts with hidden bytes keep the candidate and its checksum in a row, with more
and more NULs after them. -/
theorem attempt_hidden (negative : vAuth < 0)
    (found : attempt crypto cipher version iv vAuth count decrypted auth = some packed) :
    ∃ nuls < count, packed ++ hiddenAuth crypto packed (-vAuth).toNat =
      decrypted ++ auth ++ List.replicate nuls 0 := by
  induction count generalizing decrypted auth with
  | zero => cases found
  | succ count ih =>
      unfold attempt at found
      simp only [negative, ↓reduceIte, show ¬ 0 < vAuth by omega] at found
      split at found
      · rename_i matching
        cases found
        exact ⟨0, by omega, by rw [matching]; simp⟩
      · obtain ⟨nuls, less, same⟩ := ih found
        refine ⟨nuls + 1, by omega, same.trans ?_⟩
        calc decrypted ++ auth.take 1 ++ (auth.drop 1 ++ [0]) ++ List.replicate nuls 0
            = decrypted ++ (auth.take 1 ++ auth.drop 1) ++ ([0] ++ List.replicate nuls 0) := by
              simp only [List.append_assoc]
          _ = decrypted ++ auth ++ List.replicate (nuls + 1) 0 := by
              rw [List.take_append_drop, List.replicate_succ]
              rfl

end Attempts

section Release

variable {version : Nat} {spec : Version} {iv decrypted kept auth packed : Bytes} {aes : Aes}

/-- Everything a release without a tag went through. -/
theorem releaseFor_eq_some (notGcm : spec.mode ≠ .gcm) (authenticates : spec.auth ≠ 0)
    (released : releaseFor crypto cipher version spec iv decrypted aes kept auth = some packed) :
    ∃ stripped, unpad decrypted spec.pkcsPad = .ok stripped ∧
      attempt crypto cipher version iv spec.auth
        (if spec.pkcsPad = some false then
          min (decrypted.length - (if spec.auth < 0 then sliceTo stripped spec.auth
            else stripped).length) (spec.auth.natAbs + 1) + 1
        else 1)
        (if spec.auth < 0 then sliceTo stripped spec.auth else stripped)
        (if spec.auth < 0 then sliceFrom stripped spec.auth else auth) = some packed := by
  unfold releaseFor at released
  rw [if_pos authenticates] at released
  unfold authenticate at released
  split at released
  · rename_i ended
    subst released
    by_cases called : version ≤ 255 ∧ -32 ≤ spec.auth ∧ spec.auth ≤ 32
    swap
    · simp only [called, not_false_eq_true, ↓reduceIte] at ended
      cases ended
    simp only [called, and_self, not_true_eq_false, ↓reduceIte] at ended
    obtain ⟨stripped, unpadded, done⟩ := bind_eq_ok.mp ended
    refine ⟨stripped, unpadded, ?_⟩
    by_cases negative : spec.auth < 0
    · simp only [negative, ↓reduceIte, notGcm] at done ⊢
      exact Except.ok.inj done
    · simp only [negative, ↓reduceIte, notGcm] at done ⊢
      exact Except.ok.inj done
  · cases released

variable (notGcm : spec.mode ≠ .gcm)
  (released : releaseFor crypto cipher version spec iv decrypted aes kept auth = some packed)
include notGcm released

/-- Appended bytes and NUL padding. -/
theorem release_public (rule : spec.pkcsPad = some false) (positive : 0 < spec.auth) :
    publicAuth crypto cipher version iv packed spec.auth.toNat = auth ∧
      ∃ count, decrypted = packed ++ List.replicate count 0 := by
  obtain ⟨stripped, unpadded, found⟩ := releaseFor_eq_some notGcm (by omega) released
  rw [rule] at unpadded
  cases unpadded
  simp only [rule, show ¬ spec.auth < 0 by omega, ↓reduceIte] at found
  obtain ⟨matching, nuls, less, rfl⟩ := attempt_public positive found
  obtain ⟨count, whole⟩ := exists_rstrip_append 0 decrypted
  have length := congrArg List.length whole
  rw [List.length_append, List.length_replicate] at length
  refine ⟨matching, count - nuls, ?_⟩
  rw [List.append_assoc, List.replicate_append_replicate,
    show nuls + (count - nuls) = count by omega]
  exact whole

/-- Hidden bytes and NUL padding. -/
theorem release_nul (rule : spec.pkcsPad = some false) (negative : spec.auth < 0) :
    rstrip 0 (packed ++ hiddenAuth crypto packed (-spec.auth).toNat) = rstrip 0 decrypted := by
  obtain ⟨stripped, unpadded, found⟩ := releaseFor_eq_some notGcm (by omega) released
  rw [rule] at unpadded
  cases unpadded
  simp only [negative, ↓reduceIte] at found
  obtain ⟨nuls, _, same⟩ := attempt_hidden negative found
  rw [same, sliceTo_append_sliceFrom]
  exact rstrip_append_replicate 0 _ nuls (getLast?_rstrip 0 decrypted)

/-- Hidden bytes under any padding that is stripped at once. -/
theorem release_hidden (rule : spec.pkcsPad ≠ some false) (negative : spec.auth < 0) :
    unpad decrypted spec.pkcsPad =
      .ok (packed ++ hiddenAuth crypto packed (-spec.auth).toNat) := by
  obtain ⟨stripped, unpadded, found⟩ := releaseFor_eq_some notGcm (by omega) released
  simp only [rule, negative, ↓reduceIte] at found
  obtain ⟨nuls, less, same⟩ := attempt_hidden negative found
  rw [show nuls = 0 by omega, List.replicate_zero, List.append_nil,
    sliceTo_append_sliceFrom] at same
  rw [unpadded, same]

/-- Hidden bytes and PKCS padding: a length of zero or beyond the data would leave nothing
to authenticate. -/
theorem release_pkcs (digests : ∀ data, (crypto.sha256 data).length = 32)
    (rule : spec.pkcsPad = some true) (negative : spec.auth < 0) :
    ∃ padding last,
      decrypted = packed ++ hiddenAuth crypto packed (-spec.auth).toNat ++ padding ∧
        decrypted.getLast? = some last ∧ padding.length = last.toNat := by
  have unpadded := release_hidden notGcm released (by simp [rule]) negative
  have nonempty : 0 < (packed ++ hiddenAuth crypto packed (-spec.auth).toNat).length := by
    rw [List.length_append, hiddenAuth, List.length_take, digests]
    omega
  rw [rule, unpad] at unpadded
  cases final : decrypted.getLast? with
  | none =>
      rw [final] at unpadded
      cases unpadded
  | some last =>
      rw [final] at unpadded
      have kept := Except.ok.inj unpadded
      rw [← kept] at nonempty ⊢
      have positive : 0 < last.toNat := by
        by_contra zero
        rw [show last.toNat = 0 by omega] at nonempty
        simp [sliceTo, bound] at nonempty
      have bounded := bound_neg decrypted.length last.toNat positive
      refine ⟨sliceFrom decrypted (-(last.toNat : Int)), last,
        (sliceTo_append_sliceFrom decrypted _).symm, rfl, ?_⟩
      rw [sliceTo, bounded, List.length_take] at nonempty
      rw [sliceFrom, bounded, List.length_drop]
      omega

end Release

/-- Everything a decryption that releases something went through. -/
theorem decrypt_eq_some {version : Nat} {spec : Version} (known : versions version = some spec)
    {payload plain : Bytes}
    (released : decrypt crypto cipher payload version = .ok (some plain)) :
    ∃ aes decrypted kept packed, minPayload spec < payload.length ∧
      Aes.new cipher.key spec.mode (if modeIvs spec.mode = 0 then none else
        some (payload.take (modeIvs spec.mode))) = .ok aes ∧
      aes.decrypt crypto (splitAuth spec (payload.drop (modeIvs spec.mode))).1 =
        .ok (decrypted, kept) ∧
      releaseFor crypto cipher version spec (payload.take (modeIvs spec.mode)) decrypted aes kept
        (splitAuth spec (payload.drop (modeIvs spec.mode))).2 = some packed ∧
      inflateFor crypto spec (some packed) = .ok (some plain) := by
  unfold decrypt lookupVersion at released
  rw [known] at released
  simp only [ok_bind] at released
  split at released
  · cases released
  rename_i long
  obtain ⟨aes, made, released⟩ := bind_eq_ok.mp released
  obtain ⟨⟨decrypted, kept⟩, ran, released⟩ := bind_eq_ok.mp released
  refine ⟨aes, decrypted, kept, ?_⟩
  dsimp only at released
  cases release : releaseFor crypto cipher version spec (payload.take (modeIvs spec.mode)) decrypted
      aes kept (splitAuth spec (payload.drop (modeIvs spec.mode))).2 with
  | none =>
      rw [release] at released
      cases released
  | some packed =>
      rw [release] at released
      exact ⟨packed, by omega, made, ran, rfl, released⟩

/-- A cipher object that is no GCM object decrypts with its mode's decryption. -/
theorem decipher_of_decrypt {mode : Mode} {iv ciphertext decrypted kept : Bytes} {aes : Aes}
    (notGcm : mode ≠ .gcm)
    (made : Aes.new cipher.key mode (if modeIvs mode = 0 then none else some iv) = .ok aes)
    (ran : aes.decrypt crypto ciphertext = .ok (decrypted, kept)) :
    decrypted = decipher crypto cipher.key mode iv ciphertext ∧ modeIvs mode ≤ iv.length := by
  unfold Aes.new at made
  unfold Aes.decrypt at ran
  obtain ⟨_, _, output⟩ := bind_eq_ok.mp ran
  split at made
  · cases made
  cases mode with
  | gcm => exact absurd rfl notGcm
  | ecb =>
      cases made
      cases output
      exact ⟨rfl, Nat.zero_le _⟩
  | cbc =>
      change (if iv.length = 16 then Except.ok (Aes.mk cipher.key .cbc iv) else _) = _ at made
      split at made
      · rename_i length
        cases made
        cases output
        exact ⟨rfl, length.ge⟩
      · cases made
  | ctr =>
      change (if iv.length = 12 then Except.ok (Aes.mk cipher.key .ctr iv) else _) = _ at made
      split at made
      · rename_i length
        cases made
        cases output
        exact ⟨rfl, length.ge⟩
      · cases made

private theorem splitAuth_append_eq (spec : Version) (payload : Bytes) :
    (splitAuth spec payload).1 ++ (splitAuth spec payload).2 = payload := by
  unfold splitAuth
  split
  · exact sliceTo_append_sliceFrom payload _
  · exact List.append_nil payload

private theorem length_splitAuth {spec : Version} {payload : Bytes}
    (long : spec.auth ≤ payload.length) :
    (splitAuth spec payload).2.length = spec.auth.toNat := by
  unfold splitAuth
  split
  · rename_i positive
    obtain ⟨count, same⟩ : ∃ count : Nat, spec.auth = count := ⟨spec.auth.toNat, by omega⟩
    rw [same] at positive long ⊢
    rw [sliceFrom, bound_neg _ _ (by omega), List.length_drop]
    omega
  · rw [List.length_nil]
    omega

private theorem versions_auth_le {version : Nat} {spec : Version}
    (known : versions version = some spec) :
    spec.auth ≤ 4 := by
  unfold versions at known
  split at known <;> cases known <;> simp

/-- **What is released is authentic.** For every key, every version but those of GCM and
every payload: a value that is released is, before inflation, authenticated by the parts
of the payload. -/
theorem decrypt_releases_authentic (digests : ∀ data, (crypto.sha256 data).length = 32)
    {version : Nat} {spec : Version} (known : versions version = some spec)
    (notGcm : spec.mode ≠ .gcm) {payload plain : Bytes}
    (released : decrypt crypto cipher payload version = .ok (some plain)) :
    ∃ iv ciphertext tag packed, payload = iv ++ ciphertext ++ tag ∧
      iv.length = modeIvs spec.mode ∧ tag.length = spec.auth.toNat ∧
      inflateFor crypto spec (some packed) = .ok (some plain) ∧
      Authentic crypto cipher version iv tag
        (decipher crypto cipher.key spec.mode iv ciphertext) packed := by
  obtain ⟨aes, decrypted, kept, packed, long, made, ran, release, inflated⟩ :=
    decrypt_eq_some known released
  obtain ⟨rfl, filled⟩ := decipher_of_decrypt notGcm made ran
  have ivLength : (payload.take (modeIvs spec.mode)).length = modeIvs spec.mode := by
    rw [List.length_take] at filled ⊢
    omega
  have tagLength : (splitAuth spec (payload.drop (modeIvs spec.mode))).2.length =
      spec.auth.toNat := by
    refine length_splitAuth ?_
    have small := versions_auth_le known
    have wellFormed := versions_wellFormed known
    unfold minPayload aesBlockSize at long
    rw [List.length_drop]
    split at long
    · rename_i stream
      have := wellFormed.counter (stream.resolve_right notGcm)
      omega
    · omega
  refine ⟨_, (splitAuth spec (payload.drop (modeIvs spec.mode))).1, _, packed, ?_, ivLength,
    tagLength, inflated, ?_⟩
  · rw [List.append_assoc, splitAuth_append_eq, List.take_append_drop]
  have appended := release_public notGcm release
  have nul := release_nul notGcm release
  have hidden := release_hidden notGcm release
  have pkcs := release_pkcs notGcm release digests
  rw [← tagLength] at appended
  unfold versions at known
  split at known <;> cases known
  · exact nul rfl (by decide)
  · exact nul rfl (by decide)
  · exact appended rfl (by decide)
  · exact pkcs rfl (by decide)
  · exact pkcs rfl (by decide)
  · exact appended rfl (by decide)
  · exact pkcs rfl (by decide)
  · exact pkcs rfl (by decide)
  · exact Except.ok.inj (hidden (by decide) (by decide))
  · exact Except.ok.inj (hidden (by decide) (by decide))
  · exact absurd rfl notGcm
  · exact absurd rfl notGcm

/-- A payload of the padded ECB version that is released. -/
theorem decrypt_releases_authentic_padded :
    let cipher : Cipher := ⟨List.replicate 32 1⟩
    let payload : Bytes := (pad ([7] ++ hiddenAuth .additive [7] 4) (some true)).map (· + 1)
    ∃ iv ciphertext tag packed, payload = iv ++ ciphertext ++ tag ∧
      iv.length = 0 ∧ tag.length = 0 ∧
      inflateFor .additive ⟨"AES-ECB +p", .ecb, some true, -4, false⟩ (some packed) =
        .ok (some [7]) ∧
      Authentic .additive cipher 6 iv tag (decipher .additive cipher.key .ecb iv ciphertext)
        packed := by
  intro cipher payload
  have known : versions 6 = some ⟨"AES-ECB +p", .ecb, some true, -4, false⟩ := rfl
  have released : decrypt .additive cipher payload 6 = .ok (some [7]) := by decide +kernel
  exact decrypt_releases_authentic (fun _ => List.length_replicate) known (by decide) released

end Cipher

end VaultSeed.Kef
