import VaultSeed.Kef.Aes
import Mathlib.Data.List.Dedup

/-! # The cipher of the encryption format

`VERSIONS`, the padding rules, and `Cipher.encrypt`, `Cipher.decrypt` and
`Cipher._authenticate`. A version fixes a mode, a padding rule, the length and
the place of the authentication bytes (positive: appended after encryption,
negative: appended to the plaintext) and whether the plaintext is compressed.
-/

namespace VaultSeed.Kef

open Python

/-- One entry of `VERSIONS`. `pkcsPad` is `some true`, `some false` (NUL padding,
the default) or `none`. -/
structure Version where
  name : String
  mode : Mode
  pkcsPad : Option Bool := some false
  auth : Int
  compress : Bool := false

/-- `VERSIONS`. -/
def versions : Nat → Option Version
  | 0 => some { name := "AES-ECB v1", mode := .ecb, auth := -16 }
  | 1 => some { name := "AES-CBC v1", mode := .cbc, auth := -16 }
  | 5 => some { name := "AES-ECB", mode := .ecb, auth := 3 }
  | 6 => some { name := "AES-ECB +p", mode := .ecb, pkcsPad := some true, auth := -4 }
  | 7 => some { name := "AES-ECB +c", mode := .ecb, pkcsPad := some true, auth := -4,
                compress := true }
  | 10 => some { name := "AES-CBC", mode := .cbc, auth := 4 }
  | 11 => some { name := "AES-CBC +p", mode := .cbc, pkcsPad := some true, auth := -4 }
  | 12 => some { name := "AES-CBC +c", mode := .cbc, pkcsPad := some true, auth := -4,
                 compress := true }
  | 15 => some { name := "AES-CTR", mode := .ctr, pkcsPad := none, auth := -4 }
  | 16 => some { name := "AES-CTR +c", mode := .ctr, pkcsPad := none, auth := -4,
                 compress := true }
  | 20 => some { name := "AES-GCM", mode := .gcm, pkcsPad := none, auth := 4 }
  | 21 => some { name := "AES-GCM +c", mode := .gcm, pkcsPad := none, auth := 4,
                 compress := true }
  | _ => none

/-- `VERSIONS[version]`. -/
def lookupVersion (version : Nat) : Except Exn Version :=
  match versions version with
  | some spec => .ok spec
  | none => .error .keyError

/-- The bytes missing to a whole block, `len_padding` of `_pad`. -/
def lenPadding (length : Nat) : Nat :=
  (aesBlockSize - length % aesBlockSize) % aesBlockSize

/-- The length of PKCS padding: a whole block when none is missing. -/
def lenPkcsPadding (length : Nat) : Nat :=
  if lenPadding length = 0 then aesBlockSize else lenPadding length

/-- `_pad`. -/
def pad (data : Bytes) : Option Bool → Bytes
  | none => data
  | some true =>
      data ++ List.replicate (lenPkcsPadding data.length) (UInt8.ofNat (lenPkcsPadding data.length))
  | some false => data ++ List.replicate (lenPadding data.length) 0

/-- `_unpad`. A PKCS length of zero strips everything, as the slice `[:-0]` does. -/
def unpad (data : Bytes) : Option Bool → Except Exn Bytes
  | none => .ok data
  | some true =>
      match data.getLast? with
      | some lenPadding => .ok (sliceTo data (-(lenPadding.toNat : Int)))
      | none => .error .indexError
  | some false => .ok (rstrip 0 data)

/-- The 16-byte blocks of a string, the last one shorter when it is not aligned. -/
def blocks (data : Bytes) : List Bytes :=
  (List.range ((data.length + 15) / 16)).map fun index => (data.drop (16 * index)).take 16

/-- `_deflate`. -/
def deflate (crypto : Crypto) (data : Bytes) : Except Exn Bytes :=
  match crypto.deflate data with
  | some compressed => .ok compressed
  | none => .error (.valueError "Error compressing")

/-- `_reinflate`. -/
def reinflate (crypto : Crypto) (data : Bytes) : Except Exn Bytes :=
  match crypto.inflate data with
  | some plain => .ok plain
  | none => .error (.valueError "Error decompressing")

/-- A cipher holds the derived key. -/
structure Cipher where
  key : Bytes
  deriving DecidableEq

namespace Cipher

variable (crypto : Crypto)

/-- `Cipher(key, salt, iterations)`, from the key's bytes. -/
def new (key salt : Bytes) (iterations : Nat) : Cipher :=
  ⟨crypto.pbkdf2HmacSha256 key salt iterations⟩

variable (cipher : Cipher)

/-- `plain[-1] == 0x00`; an empty string raises. -/
def endsInNul (plain : Bytes) : Except Exn Bool :=
  match plain.getLast? with
  | some last => .ok (last == 0)
  | none => .error .indexError

/-- The refusal of a plaintext whose end NUL padding would hide. -/
def refuseNulSuffix (refused : Bool) (plain : Bytes) : Except Exn Unit := do
  if refused then
    if ← endsInNul plain then
      throw (.valueError "Cannot validate decryption for this plaintext")

/-- `sha256(bytes([version]) + iv + plain + self._key)[:v_auth]`. -/
def publicAuth (version : Nat) (iv plain : Bytes) (count : Nat) : Bytes :=
  (crypto.sha256 (UInt8.ofNat version :: iv ++ plain ++ cipher.key)).take count

/-- `sha256(plain)[:-v_auth]`. -/
def hiddenAuth (plain : Bytes) (count : Nat) : Bytes := (crypto.sha256 plain).take count

/-- The plaintext to encrypt and the authentication bytes to append after it. -/
def attachAuth (version : Nat) (spec : Version) (iv plain : Bytes) (failUnsafe : Bool) :
    Except Exn (Bytes × Bytes) := do
  if spec.mode = .gcm then pure (plain, [])
  else if 0 < spec.auth then
    pure (plain, publicAuth crypto cipher version iv plain spec.auth.toNat)
  else if spec.auth < 0 then
    let auth := hiddenAuth crypto plain (-spec.auth).toNat
    refuseNulSuffix (failUnsafe && spec.pkcsPad == some false) auth
    pure (plain ++ auth, [])
  else pure (plain, [])

/-- The refusal of repeated blocks in ECB mode. -/
def refuseDuplicates (failUnsafe : Bool) (mode : Mode) (plain : Bytes) : Except Exn Unit :=
  if failUnsafe ∧ mode = .ecb ∧ (blocks plain).dedup.length ≠ plain.length / 16 then
    .error (.valueError "Duplicate blocks in ECB mode")
  else .ok ()

/-- The vector has the length of the mode. -/
def checkIv (mode : Mode) (iv : Bytes) : Except Exn Unit :=
  if 0 < modeIvs mode then
    if iv.length = modeIvs mode then .ok () else .error (.valueError "Wrong IV length")
  else if iv ≠ [] then .error (.valueError "IV is not required")
  else .ok ()

/-- Compression, for the versions that compress. -/
def compressFor (spec : Version) (plain : Bytes) : Except Exn Bytes :=
  if spec.compress then deflate crypto plain else .ok plain

/-- `Cipher.encrypt`. -/
def encrypt (plain : Bytes) (version : Nat) (iv : Bytes) (failUnsafe : Bool) :
    Except Exn Bytes := do
  let spec ← lookupVersion version
  let plain ← compressFor crypto spec plain
  refuseNulSuffix (failUnsafe && spec.pkcsPad == some false && decide (0 < spec.auth)) plain
  let (plain, auth) ← attachAuth crypto cipher version spec iv plain failUnsafe
  let plain := pad plain spec.pkcsPad
  refuseDuplicates failUnsafe spec.mode plain
  checkIv spec.mode iv
  let encryptor ← Aes.new cipher.key spec.mode (if iv = [] then none else some iv)
  let (encrypted, tag) ← encryptor.encrypt crypto plain
  let auth := if spec.mode = .gcm then tag.take spec.auth.toNat else auth
  pure (iv ++ encrypted ++ auth)

/-- The retry loop of `_authenticate`: every turn compares the checksum of the
candidate with the authentication bytes and, when they differ, assumes that one
more NUL was stripped, from the bytes (`v_auth < 0`) or from the plaintext. -/
def attempt (version : Nat) (iv : Bytes) (vAuth : Int) : Nat → Bytes → Bytes → Option Bytes
  | 0, _, _ => none
  | count + 1, decrypted, auth =>
      let cksum :=
        if 0 < vAuth then publicAuth crypto cipher version iv decrypted vAuth.toNat
        else hiddenAuth crypto decrypted (-vAuth).toNat
      if cksum = auth then some decrypted
      else if vAuth < 0 then
        attempt version iv vAuth count (decrypted ++ auth.take 1) (auth.drop 1 ++ [0])
      else if 0 < vAuth then attempt version iv vAuth count (decrypted ++ [0]) auth
      else attempt version iv vAuth count decrypted auth

/-- `Cipher._authenticate`; `kept` is the tag of the cipher object. -/
def authenticate (version : Nat) (spec : Version) (iv decrypted : Bytes) (aes : Aes) (kept : Bytes)
    (auth : Bytes) : Except Exn (Option Bytes) := do
  if ¬ (version ≤ 255 ∧ -32 ≤ spec.auth ∧ spec.auth ≤ 32) then
    throw (.valueError "Invalid call to ._authenticate()")
  let lenPreUnpad := decrypted.length
  let decrypted ← unpad decrypted spec.pkcsPad
  let (decrypted, auth) :=
    if spec.auth < 0 then (sliceTo decrypted spec.auth, sliceFrom decrypted spec.auth)
    else (decrypted, auth)
  if spec.mode = .gcm then
    match aes.verify kept auth with
    | .ok () => pure (some decrypted)
    | .error _ => pure none
  else
    let maxAttempts :=
      if spec.pkcsPad = some false then
        min (lenPreUnpad - decrypted.length) (spec.auth.natAbs + 1) + 1
      else 1
    pure (attempt crypto cipher version iv spec.auth maxAttempts decrypted auth)

/-- The shortest payload `decrypt` looks at is one byte longer than this. -/
def minPayload (spec : Version) : Int :=
  (if spec.mode = .ctr ∨ spec.mode = .gcm then 1 else (aesBlockSize : Int)) +
    min 0 spec.auth + modeIvs spec.mode

/-- Decompression, for the versions that compress and a plaintext with content. -/
def inflateFor (spec : Version) : Option Bytes → Except Exn (Option Bytes)
  | none => .ok none
  | some decrypted => do
      if decrypted ≠ [] ∧ spec.compress then
        let plain ← reinflate crypto decrypted
        pure (some plain)
      else pure (some decrypted)

/-- The ciphertext and the authentication bytes appended to it. -/
def splitAuth (spec : Version) (payload : Bytes) : Bytes × Bytes :=
  if 0 < spec.auth then (sliceTo payload (-spec.auth), sliceFrom payload (-spec.auth))
  else (payload, [])

/-- The decrypted text when it authenticates; an exception on the way counts as
a failure. -/
def releaseFor (version : Nat) (spec : Version) (iv decrypted : Bytes) (aes : Aes)
    (kept auth : Bytes) : Option Bytes :=
  if spec.auth ≠ 0 then
    match authenticate crypto cipher version spec iv decrypted aes kept auth with
    | .ok released => released
    | .error _ => none
  else some decrypted

/-- `Cipher.decrypt`: `none` when the authentication fails. -/
def decrypt (payload : Bytes) (version : Nat) : Except Exn (Option Bytes) := do
  let spec ← lookupVersion version
  if (payload.length : Int) ≤ minPayload spec then throw (.valueError "Invalid Payload")
  let iv := payload.take (modeIvs spec.mode)
  let decryptor ← Aes.new cipher.key spec.mode (if modeIvs spec.mode = 0 then none else some iv)
  let (payload, auth) := splitAuth spec (payload.drop (modeIvs spec.mode))
  let (decrypted, kept) ← decryptor.decrypt crypto payload
  inflateFor crypto spec (releaseFor crypto cipher version spec iv decrypted decryptor kept auth)

end Cipher

end VaultSeed.Kef
