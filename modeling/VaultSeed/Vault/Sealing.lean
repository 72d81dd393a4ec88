import VaultSeed.Kef.RoundTrip
import VaultSeed.Vault.Manager

/-! # Sealing and opening the vault's envelopes

The vault uses one version of the format, GCM without compression. With a derived
key nothing but an identifier of more than 252 bytes refuses to be sealed, the
layout of an envelope is known, and opening it gives back the plaintext.
-/

namespace VaultSeed.Vault

open Python Effect

variable (platform : Platform)

/-- The bytes of an envelope before its payload. -/
def envelopeHeader (id : Bytes) : Bytes := UInt8.ofNat id.length :: id ++ [20, 0, 0, 10]

/-- The payload of a plaintext: the vector, the ciphertext and the tag. -/
def envelopePayload (cipher : Kef.Cipher) (plaintext iv : Bytes) : Bytes :=
  iv ++ (platform.crypto.gcmEncrypt cipher.key iv plaintext).1 ++
    (platform.crypto.gcmEncrypt cipher.key iv plaintext).2.take 4

/-- The plaintext `cipher` sealed under the identifier. -/
structure Seals (cipher : Kef.Cipher) (id plaintext envelope : Bytes) : Prop where
  sealed : ∃ iv, iv.length = 12 ∧ sealEnvelope platform cipher id plaintext iv = .ok envelope

variable {platform} {cipher : Kef.Cipher} {id plaintext iv envelope : Bytes}

/-- The lengths of a key that AES takes. -/
def AesKey (cipher : Kef.Cipher) : Prop :=
  cipher.key.length = 16 ∨ cipher.key.length = 24 ∨ cipher.key.length = 32

/-- GCM starts with a key that AES takes. -/
theorem new_gcm (key : AesKey cipher) (ivLength : iv.length = 12) :
    Kef.Aes.new cipher.key .gcm (some iv) = .ok ⟨cipher.key, .gcm, iv⟩ := by
  unfold AesKey at key
  unfold Kef.Aes.new
  rw [if_neg (by omega)]
  exact if_pos ivLength

/-- GCM without compression encrypts every plaintext. -/
theorem encrypt_gcm (key : AesKey cipher) (ivLength : iv.length = 12) :
    cipher.encrypt platform.crypto plaintext kefVersion iv true =
      .ok (envelopePayload platform cipher plaintext iv) := by
  have nonempty : iv ≠ [] := by
    rintro rfl
    cases ivLength
  simp [Kef.Cipher.encrypt, kefVersion, Kef.lookupVersion, Kef.versions, Kef.Cipher.compressFor,
    Kef.Cipher.refuseNulSuffix, Kef.Cipher.attachAuth, Kef.pad, Kef.Cipher.refuseDuplicates,
    Kef.Cipher.checkIv, Kef.modeIvs, ivLength, new_gcm key ivLength, nonempty, Kef.Aes.encrypt,
    Kef.Aes.checkAligned, envelopePayload, pure, Except.pure]

/-- Nothing is encrypted with another key. -/
theorem aesKey_of_encrypt {payload : Bytes}
    (encrypted : cipher.encrypt platform.crypto plaintext kefVersion iv true = .ok payload) :
    AesKey cipher := by
  obtain ⟨_, _, _, _, aes, _, _, _, _, _, _, made, _⟩ := Kef.Cipher.encrypt_eq_ok encrypted
  unfold Kef.Aes.new at made
  split at made
  · cases made
  · unfold AesKey
    omega

/-- A derived key is one that AES takes. -/
theorem aesKey_of_length (keyLength : cipher.key.length = 32) : AesKey cipher :=
  .inr (.inr keyLength)

/-- The layout of an envelope; only a long identifier is refused. -/
theorem sealEnvelope_eq (keyLength : cipher.key.length = 32) (ivLength : iv.length = 12) :
    sealEnvelope platform cipher id plaintext iv =
      if 252 < id.length then .error (.valueError "Invalid ID")
      else .ok (envelopeHeader id ++ envelopePayload platform cipher plaintext iv) := by
  unfold sealEnvelope
  rw [encrypt_gcm (aesKey_of_length keyLength) ivLength]
  by_cases long : 252 < id.length
  · simp [Kef.wrap, long]
    rfl
  · have field : Kef.encodeIterations kefIterations = .ok [0, 0, 10] := by decide
    simp [Kef.wrap, long, kefVersion, Kef.versions, field, Kef.checkPayload, envelopeHeader,
      pure, Except.pure]

/-- Decryption of a payload: what GCM releases when the tag is the computed one. -/
theorem decrypt_gcm {body tag : Bytes} (key : AesKey cipher)
    (ivLength : iv.length = 12) (tagLength : tag.length = 4) :
    cipher.decrypt platform.crypto (iv ++ body ++ tag) kefVersion =
      .ok (if (platform.crypto.gcmDecrypt cipher.key iv body).2 = tag then
        some (platform.crypto.gcmDecrypt cipher.key iv body).1 else none) := by
  have ivTaken : (iv ++ body ++ tag).take 12 = iv := by
    rw [List.append_assoc]
    exact List.take_left' ivLength
  have ivDropped : (iv ++ body ++ tag).drop 12 = body ++ tag := by
    rw [List.append_assoc]
    exact List.drop_left' ivLength
  have long : ¬ ((iv ++ body ++ tag).length : Int) ≤ 13 := by
    simp only [List.length_append, ivLength, tagLength]
    omega
  have known : Kef.lookupVersion kefVersion = .ok ⟨"AES-GCM", .gcm, none, 4, false⟩ := rfl
  have least : Kef.Cipher.minPayload ⟨"AES-GCM", .gcm, none, 4, false⟩ = 13 := rfl
  have made := new_gcm key ivLength
  have split : Kef.Cipher.splitAuth ⟨"AES-GCM", .gcm, none, 4, false⟩ (body ++ tag) = (body, tag) :=
    Kef.Cipher.splitAuth_append _ body tag tagLength
  have ran : Kef.Aes.decrypt platform.crypto ⟨cipher.key, .gcm, iv⟩ body =
      .ok (platform.crypto.gcmDecrypt cipher.key iv body) := rfl
  unfold Kef.Cipher.decrypt
  simp only [known, ok_bind, least, long, ↓reduceIte, Kef.modeIvs, ivTaken, ivDropped, made, split,
    ran, OfNat.ofNat_ne_zero]
  have released : Kef.Cipher.releaseFor platform.crypto cipher kefVersion
      ⟨"AES-GCM", .gcm, none, 4, false⟩ iv (platform.crypto.gcmDecrypt cipher.key iv body).1
      ⟨cipher.key, .gcm, iv⟩ (platform.crypto.gcmDecrypt cipher.key iv body).2 tag =
      if (platform.crypto.gcmDecrypt cipher.key iv body).2 = tag then
        some (platform.crypto.gcmDecrypt cipher.key iv body).1 else none := by
    by_cases same : (platform.crypto.gcmDecrypt cipher.key iv body).2 = tag <;>
      simp [Kef.Cipher.releaseFor, Kef.Cipher.authenticate, Kef.unpad, Kef.Aes.verify, tagLength,
        same, kefVersion]
  rw [released]
  split_ifs <;> simp [Kef.Cipher.inflateFor]
  rfl

/-- A tag of four bytes is kept whole. -/
theorem take_tag (inverts : platform.crypto.GcmInverts) (key iv plaintext : Bytes) :
    (platform.crypto.gcmEncrypt key iv plaintext).2.take 4 =
      (platform.crypto.gcmEncrypt key iv plaintext).2 :=
  List.take_of_length_le (inverts.tag_length _ _ _).le

/-- Opening a sealed envelope gives back the plaintext. -/
theorem openEnvelope_sealEnvelope (inverts : platform.crypto.GcmInverts) (ivLength : iv.length = 12)
    (sealed : sealEnvelope platform cipher id plaintext iv = .ok envelope) :
    openEnvelope platform cipher envelope = .ok (some plaintext) := by
  obtain ⟨payload, encrypted, wrapped⟩ := bind_eq_ok.mp sealed
  have key := aesKey_of_encrypt encrypted
  rw [encrypt_gcm key ivLength] at encrypted
  cases encrypted
  unfold openEnvelope
  rw [Kef.unwrap_wrap wrapped, ok_bind]
  change cipher.decrypt platform.crypto (envelopePayload platform cipher plaintext iv) kefVersion =
    _
  rw [envelopePayload, take_tag inverts, decrypt_gcm key ivLength (inverts.tag_length _ _ _),
    inverts.gcm, if_pos rfl]

/-- No envelope is empty. -/
theorem sealEnvelope_ne_nil (sealed : sealEnvelope platform cipher id plaintext iv = .ok envelope) :
    envelope ≠ [] := by
  obtain ⟨payload, _, wrapped⟩ := bind_eq_ok.mp sealed
  obtain ⟨_, _, _, _, _, _, rfl⟩ := Kef.wrap_eq_ok wrapped
  exact List.append_ne_nil_of_left_ne_nil (List.cons_ne_nil _ _) _

/-- A sealed envelope is opened to its plaintext. -/
theorem Seals.opens (inverts : platform.crypto.GcmInverts)
    (seals : Seals platform cipher id plaintext envelope) :
    openEnvelope platform cipher envelope = .ok (some plaintext) := by
  obtain ⟨iv, ivLength, sealed⟩ := seals.sealed
  exact openEnvelope_sealEnvelope inverts ivLength sealed

/-- An envelope of a manifest decodes to it. -/
theorem Seals.decodeManifest (lawful : platform.Lawful) {manifest : Manifest}
    (seals : Seals platform cipher id (encode (platform.manifests.dumps manifest)) envelope) :
    decodeManifest platform platform.manifests cipher envelope = some manifest := by
  unfold Vault.decodeManifest
  rw [seals.opens lawful.inverts]
  simp only [decode_encode, Option.bind_some, lawful.manifests manifest]

/-- The identifier of the manifest is never refused. -/
theorem sealEnvelope_manifest_ne_error (keyLength : cipher.key.length = 32)
    (ivLength : iv.length = 12) (exn : Exn) :
    sealEnvelope platform cipher manifestId plaintext iv ≠ .error exn := by
  rw [sealEnvelope_eq keyLength ivLength, if_neg (by decide)]
  exact nofun

/-- The key of a derived cipher has 32 bytes. -/
theorem length_key_new (inverts : platform.crypto.GcmInverts) (key salt : Bytes)
    (iterations : Nat) :
    (Kef.Cipher.new platform.crypto key salt iterations).key.length = 32 :=
  inverts.key_length key salt iterations

/-- The tag of another key differs on everything sealed under a key. -/
def Rejects (platform : Platform) (cipher other : Kef.Cipher) : Prop := ∀ iv data,
  (platform.crypto.gcmDecrypt other.key iv (platform.crypto.gcmEncrypt cipher.key iv data).1).2 ≠
    (platform.crypto.gcmEncrypt cipher.key iv data).2

/-- An envelope does not open with a key whose tag differs. -/
theorem Seals.rejected (inverts : platform.crypto.GcmInverts) {other : Kef.Cipher}
    (keyLength : cipher.key.length = 32) (otherLength : other.key.length = 32)
    (rejects : Rejects platform cipher other)
    (seals : Seals platform cipher id plaintext envelope) :
    openEnvelope platform other envelope = .ok none := by
  obtain ⟨iv, ivLength, sealed⟩ := seals.sealed
  obtain ⟨payload, encrypted, wrapped⟩ := bind_eq_ok.mp sealed
  rw [encrypt_gcm (aesKey_of_length keyLength) ivLength] at encrypted
  cases encrypted
  have whole : (platform.crypto.gcmEncrypt cipher.key iv plaintext).2.take 4 =
      (platform.crypto.gcmEncrypt cipher.key iv plaintext).2 :=
    List.take_of_length_le (inverts.tag_length _ _ _).le
  unfold openEnvelope
  rw [Kef.unwrap_wrap wrapped, ok_bind]
  change other.decrypt platform.crypto (envelopePayload platform cipher plaintext iv) kefVersion = _
  rw [envelopePayload, take_tag inverts, decrypt_gcm (aesKey_of_length otherLength) ivLength
    (inverts.tag_length _ _ _), if_neg (rejects iv plaintext)]

/-- An envelope of a manifest does not decode with a key whose tag differs. -/
theorem Seals.decodeManifest_rejected (inverts : platform.crypto.GcmInverts) {other : Kef.Cipher}
    (keyLength : cipher.key.length = 32) (otherLength : other.key.length = 32)
    (rejects : Rejects platform cipher other)
    (seals : Seals platform cipher id plaintext envelope) :
    Vault.decodeManifest platform platform.manifests other envelope = none := by
  rw [Vault.decodeManifest, seals.rejected inverts keyLength otherLength rejects]

end VaultSeed.Vault
