import VaultSeed.Foundation.Bytes

/-! # The cryptographic primitives of the firmware

The block cipher, the digest, the key derivation and the compressor are
parameters (`VaultSeed.Kef.Crypto`); the object around the cipher, with the
lengths it checks and the tag it keeps, is that of `ucryptolib`.
What the envelope format relies on is stated by `VaultSeed.Kef.Crypto.Inverts`.
-/

namespace VaultSeed.Kef

open Python

/-- The AES modes of operation. -/
inductive Mode where
  | gcm
  | cbc
  | ecb
  | ctr
  deriving DecidableEq, Repr

/-- `MODE_IVS.get(mode, 0)`. -/
def modeIvs : Mode → Nat
  | .cbc => 16
  | .ctr => 12
  | .gcm => 12
  | .ecb => 0

/-- `AES_BLOCK_SIZE`. -/
def aesBlockSize : Nat := 16

/-- The primitives below the envelope format. GCM yields its output together with
the four tag bytes the hardware computes. -/
structure Crypto where
  sha256 : Bytes → Bytes
  pbkdf2HmacSha256 : Bytes → Bytes → Nat → Bytes
  ecbEncrypt : Bytes → Bytes → Bytes
  ecbDecrypt : Bytes → Bytes → Bytes
  cbcEncrypt : Bytes → Bytes → Bytes → Bytes
  cbcDecrypt : Bytes → Bytes → Bytes → Bytes
  ctrEncrypt : Bytes → Bytes → Bytes → Bytes
  ctrDecrypt : Bytes → Bytes → Bytes → Bytes
  gcmEncrypt : Bytes → Bytes → Bytes → Bytes × Bytes
  gcmDecrypt : Bytes → Bytes → Bytes → Bytes × Bytes
  deflate : Bytes → Option Bytes
  inflate : Bytes → Option Bytes

/-- What GCM under a derived key relies on: it inverts, keeps the length and computes
the same four tag bytes on both ways, and the derived key has 32 bytes. -/
structure Crypto.GcmInverts (crypto : Crypto) : Prop where
  key_length : ∀ key salt iterations, (crypto.pbkdf2HmacSha256 key salt iterations).length = 32
  gcm : ∀ key iv data, crypto.gcmDecrypt key iv (crypto.gcmEncrypt key iv data).1 =
    (data, (crypto.gcmEncrypt key iv data).2)
  gcm_length : ∀ key iv data, (crypto.gcmEncrypt key iv data).1.length = data.length
  tag_length : ∀ key iv data, (crypto.gcmEncrypt key iv data).2.length = 4

/-- What a round trip relies on: every mode inverts, on whole blocks for ECB and
CBC, and keeps the length; the digest has 32 bytes; what compression wrote inflates
to its data. Nothing is written at most of no data, as the firmware's `deflate` does
where others write an empty block. -/
structure Crypto.Inverts (crypto : Crypto) : Prop extends crypto.GcmInverts where
  sha256_length : ∀ data, (crypto.sha256 data).length = 32
  ecb : ∀ key data, data.length % 16 = 0 → crypto.ecbDecrypt key (crypto.ecbEncrypt key data) = data
  ecb_length : ∀ key data, (crypto.ecbEncrypt key data).length = data.length
  cbc : ∀ key iv data, data.length % 16 = 0 →
    crypto.cbcDecrypt key iv (crypto.cbcEncrypt key iv data) = data
  cbc_length : ∀ key iv data, (crypto.cbcEncrypt key iv data).length = data.length
  ctr : ∀ key iv data, crypto.ctrDecrypt key iv (crypto.ctrEncrypt key iv data) = data
  ctr_length : ∀ key iv data, (crypto.ctrEncrypt key iv data).length = data.length
  inflate_deflate : ∀ data compressed, crypto.deflate data = some compressed →
    compressed ≠ [] → crypto.inflate compressed = some data
  deflate_eq_nil : ∀ data, crypto.deflate data = some [] → data = []

/-- A concrete instance of the primitives: every mode adds the first byte of the
key, the tag repeats that byte, and the derived key tells the one-letter
passphrase `a` from every other one. -/
def Crypto.additive : Crypto where
  sha256 data := List.replicate 32 (data.foldl (· + ·) 1)
  pbkdf2HmacSha256 key _ _ := List.replicate 32 (if key = [97] then 1 else 2)
  ecbEncrypt key data := data.map (· + key.headD 0)
  ecbDecrypt key data := data.map (· - key.headD 0)
  cbcEncrypt key _ data := data.map (· + key.headD 0)
  cbcDecrypt key _ data := data.map (· - key.headD 0)
  ctrEncrypt key _ data := data.map (· + key.headD 0)
  ctrDecrypt key _ data := data.map (· - key.headD 0)
  gcmEncrypt key _ data := (data.map (· + key.headD 0), List.replicate 4 (key.headD 0))
  gcmDecrypt key _ data := (data.map (· - key.headD 0), List.replicate 4 (key.headD 0))
  deflate data := some (1 :: data)
  inflate data := some data.tail

private theorem map_sub_add (shift : UInt8) (data : Bytes) :
    (data.map (· + shift)).map (· - shift) = data := by
  rw [List.map_map, show (fun byte : UInt8 => byte - shift) ∘ (fun byte => byte + shift) = id from
    funext fun byte => UInt8.add_sub_cancel byte shift, List.map_id]

/-- The ciphers that add a key invert. -/
theorem Crypto.additive_inverts : Crypto.additive.Inverts where
  sha256_length _ := List.length_replicate
  key_length _ _ _ := List.length_replicate
  ecb _ data _ := map_sub_add _ data
  ecb_length _ _ := List.length_map _
  cbc _ _ data _ := map_sub_add _ data
  cbc_length _ _ _ := List.length_map _
  ctr _ _ data := map_sub_add _ data
  ctr_length _ _ _ := List.length_map _
  gcm _ _ data := congrArg (·, _) (map_sub_add _ data)
  gcm_length _ _ _ := List.length_map _
  tag_length _ _ _ := List.length_replicate
  inflate_deflate data compressed done _ := by
    cases done
    rfl
  deflate_eq_nil data empty := by cases empty

/-- A cipher object: its key, its mode and its initialization vector. -/
structure Aes where
  key : Bytes
  mode : Mode
  iv : Bytes

namespace Aes

/-- `AES(key, mode, ...)` with the vector or nonce it is given, if any. -/
def new (key : Bytes) (mode : Mode) (iv : Option Bytes) : Except Exn Aes :=
  if key.length ≠ 16 ∧ key.length ≠ 24 ∧ key.length ≠ 32 then
    .error (.valueError "key must be 16/24/32 bytes")
  else
    match mode, iv with
    | .ctr, some nonce =>
        if nonce.length = 12 then .ok ⟨key, .ctr, nonce⟩
        else .error (.valueError "nonce must be 12 bytes")
    | .ctr, none => .error (.valueError "CTR requires nonce or IV")
    | mode, some iv =>
        if iv.length = modeIvs mode then .ok ⟨key, mode, iv⟩
        else .error (.valueError "wrong IV length for mode")
    | mode, none => .ok ⟨key, mode, List.replicate 16 0⟩

variable (crypto : Crypto) (aes : Aes)

/-- The block modes take whole blocks only. -/
def checkAligned (data : Bytes) : Except Exn Unit :=
  if aes.mode ≠ .gcm ∧ aes.mode ≠ .ctr ∧ data.length % 16 ≠ 0 then
    .error (.valueError "input length must be multiple of 16")
  else .ok ()

/-- `aes.encrypt(data)`, with the tag the object keeps afterwards. -/
def encrypt (data : Bytes) : Except Exn (Bytes × Bytes) := do
  checkAligned aes data
  match aes.mode with
  | .gcm => pure (crypto.gcmEncrypt aes.key aes.iv data)
  | .cbc => pure (crypto.cbcEncrypt aes.key aes.iv data, [0, 0, 0, 0])
  | .ecb => pure (crypto.ecbEncrypt aes.key data, [0, 0, 0, 0])
  | .ctr => pure (crypto.ctrEncrypt aes.key aes.iv data, [0, 0, 0, 0])

/-- `aes.decrypt(data)`, with the tag the object keeps afterwards. -/
def decrypt (data : Bytes) : Except Exn (Bytes × Bytes) := do
  checkAligned aes data
  match aes.mode with
  | .gcm => pure (crypto.gcmDecrypt aes.key aes.iv data)
  | .cbc => pure (crypto.cbcDecrypt aes.key aes.iv data, [0, 0, 0, 0])
  | .ecb => pure (crypto.ecbDecrypt aes.key data, [0, 0, 0, 0])
  | .ctr => pure (crypto.ctrDecrypt aes.key aes.iv data, [0, 0, 0, 0])

/-- `aes.verify(tag)` against the tag kept by the last run. -/
def verify (kept tag : Bytes) : Except Exn Unit :=
  if aes.mode ≠ .gcm then .error (.valueError "tag verification only available in GCM mode")
  else if tag.length ≠ 4 then .error (.valueError "wrong tag length")
  else if kept ≠ tag then .error (.valueError "tag verification failed")
  else .ok ()

end Aes

end VaultSeed.Kef
