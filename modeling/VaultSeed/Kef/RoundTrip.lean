import VaultSeed.Kef.Envelope
import VaultSeed.Foundation.Effect

/-! # Decryption inverts encryption

The refusals of `Cipher.encrypt` leave plaintexts whose padding is stripped
exactly, so the first candidate of the retry loop of `Cipher.decrypt` is the
plaintext itself. The argument follows the three placements of the
authentication bytes: in the cipher's own tag, after the ciphertext, and at the
end of the plaintext.
-/

namespace VaultSeed.Kef

open Python Effect

/-- What the table of versions has in common: the stream modes and only they go
without padding, GCM keeps its four tag bytes, CTR hides four bytes in the
plaintext, and every version authenticates. -/
structure Version.WellFormed (spec : Version) : Prop where
  stream : spec.pkcsPad = none ↔ spec.mode = .ctr ∨ spec.mode = .gcm
  tag : spec.mode = .gcm → spec.auth = 4
  counter : spec.mode = .ctr → spec.auth = -4
  lower : -32 ≤ spec.auth
  upper : spec.auth ≤ 32
  nonzero : spec.auth ≠ 0

/-- Every version is well formed. -/
theorem versions_wellFormed {version : Nat} {spec : Version}
    (known : versions version = some spec) : spec.WellFormed := by
  unfold versions at known
  split at known <;> cases known <;> constructor <;> simp

private theorem lenPadding_mod (length : Nat) : (length + lenPadding length) % 16 = 0 := by
  unfold lenPadding aesBlockSize
  omega

private theorem lenPkcsPadding_range (length : Nat) :
    0 < lenPkcsPadding length ∧ lenPkcsPadding length ≤ 16 ∧
      (length + lenPkcsPadding length) % 16 = 0 := by
  have whole := lenPadding_mod length
  have small : lenPadding length < 16 := Nat.mod_lt _ (by decide)
  unfold lenPkcsPadding
  by_cases aligned : lenPadding length = 0
  · simp only [aligned, ↓reduceIte, aesBlockSize]
    omega
  · simp only [aligned, ↓reduceIte]
    omega

/-- Padding fills up to whole blocks. -/
theorem length_pad_mod (data : Bytes) (rule : Option Bool) (padded : rule ≠ none) :
    (pad data rule).length % 16 = 0 := by
  rcases rule with _ | _ | _
  · exact (padded rfl).elim
  · simpa only [pad, List.length_append, List.length_replicate] using lenPadding_mod data.length
  · simpa only [pad, List.length_append, List.length_replicate] using
      (lenPkcsPadding_range data.length).2.2

/-- Padding does not shorten. -/
theorem length_le_length_pad (data : Bytes) (rule : Option Bool) :
    data.length ≤ (pad data rule).length := by
  rcases rule with _ | _ | _ <;> simp [pad]

/-- PKCS padding is stripped exactly. -/
theorem unpad_pad_pkcs (data : Bytes) : unpad (pad data (some true)) (some true) = .ok data := by
  obtain ⟨positive, small, _⟩ := lenPkcsPadding_range data.length
  generalize length : lenPkcsPadding data.length = count at positive small
  have padded : pad data (some true) = data ++ List.replicate count (UInt8.ofNat count) := by
    rw [← length]
    rfl
  have last : (pad data (some true)).getLast? = some (UInt8.ofNat count) := by
    obtain ⟨rest, rfl⟩ : ∃ rest, count = rest + 1 := ⟨count - 1, by omega⟩
    rw [padded, List.replicate_succ', ← List.append_assoc, List.getLast?_concat]
  have value : (UInt8.ofNat count).toNat = count := by
    rw [UInt8.toNat_ofNat']
    omega
  simp only [unpad, last, value]
  rw [padded, sliceTo_append _ _ _ positive List.length_replicate]

/-- Padding is stripped exactly, under NUL padding when the data has no NUL at
its end. -/
theorem unpad_pad (data : Bytes) (rule : Option Bool)
    (faithful : rule = some false → data.getLast? ≠ some 0) :
    unpad (pad data rule) rule = .ok data := by
  rcases rule with _ | _ | _
  · rfl
  · exact congrArg Except.ok (rstrip_append_replicate 0 data _ (faithful rfl))
  · exact unpad_pad_pkcs data

/-- A cipher object undoes what it did, with the same tag. -/
theorem Aes.decrypt_encrypt {crypto : Crypto} (inverts : crypto.Inverts) {aes : Aes}
    {data encrypted tag : Bytes} (done : aes.encrypt crypto data = .ok (encrypted, tag)) :
    aes.decrypt crypto encrypted = .ok (data, tag) ∧ encrypted.length = data.length ∧
      (aes.mode = .gcm → tag.length = 4) := by
  unfold Aes.encrypt at done
  obtain ⟨_, aligned, output⟩ := bind_eq_ok.mp done
  unfold Aes.checkAligned at aligned
  unfold Aes.decrypt Aes.checkAligned
  cases mode : aes.mode with
  | gcm =>
      simp only [mode] at output
      have sealed : crypto.gcmEncrypt aes.key aes.iv data = (encrypted, tag) :=
        Except.ok.inj output
      have opened := inverts.gcm aes.key aes.iv data
      have length := inverts.gcm_length aes.key aes.iv data
      have tagLength := inverts.tag_length aes.key aes.iv data
      rw [sealed] at opened length tagLength
      refine ⟨?_, length, fun _ => tagLength⟩
      simp only [ne_eq, not_true_eq_false, false_and, ↓reduceIte, opened]
      rfl
  | ctr =>
      simp only [mode] at output
      cases output
      refine ⟨?_, inverts.ctr_length _ _ _, fun wrong => by cases wrong⟩
      simp only [ne_eq, not_true_eq_false, and_false, false_and, ↓reduceIte, inverts.ctr]
      rfl
  | cbc =>
      simp only [mode] at output aligned
      cases output
      have whole : data.length % 16 = 0 := by
        by_contra short
        simp [short] at aligned
      refine ⟨?_, inverts.cbc_length _ _ _, fun wrong => by cases wrong⟩
      simp only [inverts.cbc_length, whole, ne_eq, not_true_eq_false, and_false, ↓reduceIte,
        inverts.cbc _ _ _ whole]
      rfl
  | ecb =>
      simp only [mode] at output aligned
      cases output
      have whole : data.length % 16 = 0 := by
        by_contra short
        simp [short] at aligned
      refine ⟨?_, inverts.ecb_length _ _, fun wrong => by cases wrong⟩
      simp only [inverts.ecb_length, whole, ne_eq, not_true_eq_false, and_false, ↓reduceIte,
        inverts.ecb _ _ whole]
      rfl

/-- A cipher object has the mode it was made with. -/
theorem Aes.new_mode {key : Bytes} {mode : Mode} {iv : Option Bytes} {aes : Aes}
    (made : Aes.new key mode iv = .ok aes) : aes.mode = mode := by
  unfold Aes.new at made
  split at made
  · cases made
  · split at made
    · split at made <;> cases made
      rfl
    · cases made
    · split at made <;> cases made
      rfl
    · cases made
      rfl

namespace Cipher

variable {crypto : Crypto} {cipher : Cipher}

private theorem refuseNulSuffix_eq_ok {refused : Bool} {plain : Bytes}
    (accepted : refuseNulSuffix refused plain = .ok ()) (checked : refused = true) :
    plain ≠ [] ∧ plain.getLast? ≠ some 0 := by
  subst checked
  unfold refuseNulSuffix endsInNul at accepted
  cases last : plain.getLast? with
  | none =>
      simp only [↓reduceIte, last] at accepted
      cases accepted
  | some byte =>
      refine ⟨fun empty => by simp [empty] at last, fun same => ?_⟩
      cases same
      simp only [↓reduceIte, last] at accepted
      cases accepted

/-- The first candidate is released when its checksum is the expected one. -/
theorem attempt_first (version : Nat) (iv : Bytes) (vAuth : Int) {count : Nat} (left : 0 < count)
    (decrypted auth : Bytes) (matching : (if 0 < vAuth then
      publicAuth crypto cipher version iv decrypted vAuth.toNat
      else hiddenAuth crypto decrypted (-vAuth).toNat) = auth) :
    attempt crypto cipher version iv vAuth count decrypted auth = some decrypted := by
  obtain ⟨rest, rfl⟩ : ∃ rest, count = rest + 1 := ⟨count - 1, by omega⟩
  unfold attempt
  simp only [matching, ↓reduceIte]

/-- Everything an accepted encryption went through. -/
theorem encrypt_eq_ok {plain payload iv : Bytes} {version : Nat} {failUnsafe : Bool}
    (done : encrypt crypto cipher plain version iv failUnsafe = .ok payload) :
    ∃ spec packed body auth aes encrypted tag, versions version = some spec ∧
      compressFor crypto spec plain = .ok packed ∧
      refuseNulSuffix (failUnsafe && spec.pkcsPad == some false && decide (0 < spec.auth))
        packed = .ok () ∧
      attachAuth crypto cipher version spec iv packed failUnsafe = .ok (body, auth) ∧
      Aes.new cipher.key spec.mode (if iv = [] then none else some iv) = .ok aes ∧
      aes.encrypt crypto (pad body spec.pkcsPad) = .ok (encrypted, tag) ∧
      payload = iv ++ encrypted ++
        (if spec.mode = .gcm then tag.take spec.auth.toNat else auth) := by
  unfold encrypt at done
  obtain ⟨spec, looked, done⟩ := bind_eq_ok.mp done
  obtain ⟨packed, compressed, done⟩ := bind_eq_ok.mp done
  obtain ⟨_, suffix, done⟩ := bind_eq_ok.mp done
  obtain ⟨⟨body, auth⟩, attached, done⟩ := bind_eq_ok.mp done
  obtain ⟨_, _, done⟩ := bind_eq_ok.mp done
  obtain ⟨_, _, done⟩ := bind_eq_ok.mp done
  obtain ⟨aes, made, done⟩ := bind_eq_ok.mp done
  obtain ⟨⟨encrypted, tag⟩, ran, done⟩ := bind_eq_ok.mp done
  have known : versions version = some spec := by
    unfold lookupVersion at looked
    split at looked <;> cases looked
    assumption
  exact ⟨spec, packed, body, auth, aes, encrypted, tag, known, compressed, suffix, attached, made,
    ran, (Except.ok.inj done).symm⟩

/-- Where the authentication bytes go: nowhere for GCM, after the ciphertext for
a positive length, at the end of the plaintext for a negative one. -/
theorem attachAuth_eq_ok {spec : Version} {iv packed body auth : Bytes} {version : Nat}
    {failUnsafe : Bool} (wellFormed : spec.WellFormed)
    (attached : attachAuth crypto cipher version spec iv packed failUnsafe = .ok (body, auth)) :
    (spec.mode = .gcm ∧ body = packed ∧ auth = []) ∨
    (spec.mode ≠ .gcm ∧ 0 < spec.auth ∧ body = packed ∧
      auth = publicAuth crypto cipher version iv packed spec.auth.toNat) ∨
    (spec.mode ≠ .gcm ∧ spec.auth < 0 ∧ auth = [] ∧
      body = packed ++ hiddenAuth crypto packed (-spec.auth).toNat ∧
      refuseNulSuffix (failUnsafe && spec.pkcsPad == some false)
        (hiddenAuth crypto packed (-spec.auth).toNat) = .ok ()) := by
  unfold attachAuth at attached
  by_cases gcm : spec.mode = .gcm
  · simp only [gcm, ↓reduceIte] at attached
    cases attached
    exact .inl ⟨gcm, rfl, rfl⟩
  · simp only [gcm, ↓reduceIte] at attached
    by_cases positive : 0 < spec.auth
    · simp only [positive, ↓reduceIte] at attached
      cases attached
      exact .inr (.inl ⟨gcm, positive, rfl, rfl⟩)
    · have negative : spec.auth < 0 := by
        have := wellFormed.nonzero
        omega
      simp only [positive, negative, ↓reduceIte] at attached
      obtain ⟨_, accepted, done⟩ := bind_eq_ok.mp attached
      cases done
      exact .inr (.inr ⟨gcm, negative, rfl, rfl, accepted⟩)

/-- The public authentication has the length that was asked for. -/
theorem length_publicAuth (inverts : crypto.Inverts) (version : Nat) (iv plain : Bytes)
    {count : Nat} (small : count ≤ 32) :
    (publicAuth crypto cipher version iv plain count).length = count := by
  rw [publicAuth, List.length_take, inverts.sha256_length]
  omega

/-- The hidden authentication has the length that was asked for. -/
theorem length_hiddenAuth (inverts : crypto.Inverts) (plain : Bytes) {count : Nat}
    (small : count ≤ 32) : (hiddenAuth crypto plain count).length = count := by
  rw [hiddenAuth, List.length_take, inverts.sha256_length]
  omega

/-- What follows the ciphertext: the cipher's tag for GCM, else the appended bytes. -/
def trailer (spec : Version) (tag auth : Bytes) : Bytes :=
  if spec.mode = .gcm then tag.take spec.auth.toNat else auth

/-- **What was sealed is released.** The padded body of an accepted encryption,
with the tag and the trailer that belong to it, authenticates as the packed
plaintext at the first attempt. -/
theorem authenticate_attached (inverts : crypto.Inverts) {spec : Version}
    {iv packed body auth kept : Bytes} {version : Nat} {aes : Aes} (small : version < 256)
    (wellFormed : spec.WellFormed) (mode : aes.mode = spec.mode)
    (tagLength : aes.mode = .gcm → kept.length = 4)
    (suffix : refuseNulSuffix (true && spec.pkcsPad == some false && decide (0 < spec.auth))
      packed = .ok ())
    (attached : attachAuth crypto cipher version spec iv packed true = .ok (body, auth)) :
    authenticate crypto cipher version spec iv (pad body spec.pkcsPad) aes kept
      (trailer spec kept auth) = .ok (some packed) := by
  have called : version ≤ 255 ∧ -32 ≤ spec.auth ∧ spec.auth ≤ 32 :=
    ⟨by omega, wellFormed.lower, wellFormed.upper⟩
  have faithful : spec.pkcsPad = some false → body.getLast? ≠ some 0 := by
    intro nul
    rcases attachAuth_eq_ok wellFormed attached with ⟨gcm, rfl, _⟩ | ⟨_, positive, rfl, _⟩ |
      ⟨_, negative, _, rfl, accepted⟩
    · exact absurd nul (by rw [wellFormed.stream.mpr (.inr gcm)]; simp)
    · exact (refuseNulSuffix_eq_ok suffix (by simp [nul, positive])).2
    · obtain ⟨nonempty, last⟩ := refuseNulSuffix_eq_ok accepted (by simp [nul])
      rwa [List.getLast?_append_of_ne_nil _ nonempty]
  unfold authenticate
  simp only [called, and_self, not_true_eq_false, ↓reduceIte, unpad_pad body _ faithful, ok_bind]
  rcases attachAuth_eq_ok wellFormed attached with ⟨gcm, rfl, rfl⟩ | ⟨notGcm, positive, rfl, rfl⟩ |
    ⟨notGcm, negative, rfl, rfl, _⟩
  · have tag := wellFormed.tag gcm
    have full : kept.take 4 = kept := List.take_of_length_le (by
      rw [tagLength (mode.trans gcm)])
    have verified : aes.verify kept kept = .ok () := by
      simp [Aes.verify, mode, gcm, tagLength (mode.trans gcm)]
    simp [gcm, tag, trailer, full, verified]
    rfl
  · have notNegative : ¬ spec.auth < 0 := by omega
    simp only [notGcm, notNegative, ↓reduceIte, trailer]
    refine congrArg Except.ok (attempt_first _ _ _ ?_ _ _ ?_)
    · split <;> omega
    · simp only [positive, ↓reduceIte]
  · obtain ⟨count, negated⟩ : ∃ count : Nat, spec.auth = -(count : Int) :=
      ⟨(-spec.auth).toNat, by omega⟩
    have length : (hiddenAuth crypto packed count).length = count :=
      length_hiddenAuth inverts packed (by omega)
    have notPositive : ¬ 0 < -(count : Int) := by omega
    have front := sliceTo_append packed _ count (by omega) length
    have back := sliceFrom_append packed _ count (by omega) length
    simp only [notGcm, ↓reduceIte, negated, neg_neg, Int.toNat_natCast,
      show -(count : Int) < 0 by omega]
    rw [front, back]
    refine congrArg Except.ok (attempt_first _ _ _ ?_ _ _ ?_)
    · split <;> omega
    · simp only [notPositive, ↓reduceIte, neg_neg, Int.toNat_natCast]

/-- A padded body fills at least one block. -/
theorem length_pad_body {spec : Version} {iv packed body auth : Bytes}
    {version : Nat} (wellFormed : spec.WellFormed) (blockMode : spec.pkcsPad ≠ none)
    (suffix : refuseNulSuffix (true && spec.pkcsPad == some false && decide (0 < spec.auth))
      packed = .ok ())
    (attached : attachAuth crypto cipher version spec iv packed true = .ok (body, auth)) :
    16 ≤ (pad body spec.pkcsPad).length := by
  have whole := length_pad_mod body _ blockMode
  have positive : 0 < (pad body spec.pkcsPad).length := by
    cases rule : spec.pkcsPad with
    | none => exact (blockMode rule).elim
    | some pkcs =>
        cases pkcs with
        | true =>
            have := lenPkcsPadding_range body.length
            simp only [pad, List.length_append, List.length_replicate]
            omega
        | false =>
            refine Nat.lt_of_lt_of_le (List.length_pos_iff.mpr ?_) (length_le_length_pad _ _)
            rcases attachAuth_eq_ok wellFormed attached with ⟨gcm, _, _⟩ | ⟨_, sign, rfl, _⟩ |
              ⟨_, _, _, rfl, accepted⟩
            · exact (blockMode (wellFormed.stream.mpr (.inr gcm))).elim
            · exact (refuseNulSuffix_eq_ok suffix (by simp [rule, sign])).1
            · exact List.append_ne_nil_of_right_ne_nil _
                (refuseNulSuffix_eq_ok accepted (by simp [rule])).1
  omega

/-- The trailer of a payload has the length of a positive authentication. -/
theorem length_trailer (inverts : crypto.Inverts) {spec : Version} {iv packed body auth tag : Bytes}
    {version : Nat} (wellFormed : spec.WellFormed) (tagLength : spec.mode = .gcm → tag.length = 4)
    (attached : attachAuth crypto cipher version spec iv packed true = .ok (body, auth)) :
    (trailer spec tag auth).length = spec.auth.toNat := by
  unfold trailer
  rcases attachAuth_eq_ok wellFormed attached with ⟨gcm, _, _⟩ | ⟨notGcm, positive, _, rfl⟩ |
    ⟨notGcm, negative, rfl, _, _⟩
  · simp [gcm, wellFormed.tag gcm, tagLength gcm]
  · have := wellFormed.upper
    simp only [notGcm, ↓reduceIte]
    exact length_publicAuth inverts _ _ _ (by omega)
  · simp only [notGcm, ↓reduceIte, List.length_nil]
    omega

/-- Splitting off the appended bytes by their length. -/
theorem splitAuth_append (spec : Version) (encrypted auth : Bytes)
    (length : auth.length = spec.auth.toNat) :
      splitAuth spec (encrypted ++ auth) = (encrypted, auth) := by
  unfold splitAuth
  by_cases positive : 0 < spec.auth
  · have cast : spec.auth = (spec.auth.toNat : Int) := by omega
    simp only [positive, ↓reduceIte]
    rw [cast, sliceTo_append _ _ _ (by omega) length, sliceFrom_append _ _ _ (by omega) length]
  · have empty : auth = [] := List.length_eq_zero_iff.mp (by omega)
    simp [positive, empty]

/-- Compression is undone, for the versions that compress. -/
theorem inflateFor_compressFor (inverts : crypto.Inverts) {spec : Version} {plain packed : Bytes}
    (compressed : compressFor crypto spec plain = .ok packed) :
    inflateFor crypto spec (some packed) = .ok (some plain) := by
  unfold compressFor at compressed
  by_cases compress : spec.compress = true
  · simp only [compress, ↓reduceIte, deflate] at compressed
    cases deflated : crypto.deflate plain with
    | none => simp [deflated] at compressed
    | some output =>
        simp only [deflated] at compressed
        cases compressed
        by_cases empty : packed = []
        · rw [empty] at deflated ⊢
          rw [inverts.deflate_eq_nil plain deflated]
          rfl
        · have inflated := inverts.inflate_deflate _ _ deflated empty
          simp [inflateFor, empty, compress, reinflate, inflated]
  · simp only [compress] at compressed
    cases compressed
    simp [inflateFor, compress]
    rfl

/-- **Decryption inverts encryption.** Whatever the version, a payload that
`encrypt` accepts to produce under `fail_unsafe` is decrypted with the same key to
exactly the plaintext. -/
theorem decrypt_encrypt (inverts : crypto.Inverts) {version : Nat} {spec : Version}
    (known : versions version = some spec) {plain iv payload : Bytes}
    (ivLength : iv.length = modeIvs spec.mode)
    (encrypted : encrypt crypto cipher plain version iv true = .ok payload) :
    decrypt crypto cipher payload version = .ok (some plain) := by
  obtain ⟨spec', packed, body, auth, aes, output, tag, known', compressed, suffix, attached, made,
    ran, rfl⟩ := encrypt_eq_ok encrypted
  obtain rfl : spec = spec' := Option.some.inj (known.symm.trans known')
  have wellFormed := versions_wellFormed known
  obtain ⟨undone, outputLength, tagLength⟩ := Aes.decrypt_encrypt inverts ran
  have mode := Aes.new_mode made
  change decrypt crypto cipher (iv ++ output ++ trailer spec tag auth) version = _
  have trailerLength := length_trailer inverts wellFormed
    (fun gcm => tagLength (mode.trans gcm)) attached
  have long : ¬ ((iv ++ output ++ trailer spec tag auth).length : Int) ≤ minPayload spec := by
    simp only [List.length_append, ivLength, outputLength, trailerLength, minPayload, aesBlockSize]
    by_cases stream : spec.mode = .ctr ∨ spec.mode = .gcm
    · have auth : spec.auth = -4 ∨ spec.auth = 4 := stream.imp wellFormed.counter wellFormed.tag
      simp only [stream, ↓reduceIte]
      omega
    · have filled := length_pad_body wellFormed
        (fun none => stream (wellFormed.stream.mp none)) suffix attached
      simp only [stream, ↓reduceIte]
      have := wellFormed.nonzero
      omega
  have ivTaken : (iv ++ output ++ trailer spec tag auth).take (modeIvs spec.mode) = iv := by
    rw [List.append_assoc]
    exact List.take_left' ivLength
  have ivDropped : (iv ++ output ++ trailer spec tag auth).drop (modeIvs spec.mode) =
      output ++ trailer spec tag auth := by
    rw [List.append_assoc]
    exact List.drop_left' ivLength
  have remade : Aes.new cipher.key spec.mode (if modeIvs spec.mode = 0 then none else some iv) =
      .ok aes := by
    rw [← made]
    congr 1
    by_cases empty : iv = []
    · simp [empty, ← ivLength]
    · have : modeIvs spec.mode ≠ 0 := by
        rw [← ivLength]
        exact fun zero => empty (List.length_eq_zero_iff.mp zero)
      simp [empty, this]
  have released : releaseFor crypto cipher version spec iv (pad body spec.pkcsPad) aes tag
      (trailer spec tag auth) = some packed := by
    rw [releaseFor, authenticate_attached inverts (versions_lt known) wellFormed mode tagLength
      suffix attached]
    simp [wellFormed.nonzero]
  unfold decrypt lookupVersion
  simp only [known, ok_bind, long, ↓reduceIte, ivTaken, ivDropped, remade,
    splitAuth_append spec output _ trailerLength, undone, released]
  exact inflateFor_compressFor inverts compressed

/-- **Every encryption is refused or round-trips.** For every key, every version
of the table, every plaintext and every vector of the version's length, an
encryption under `fail_unsafe` raises or yields a payload from which the same key
recovers exactly the plaintext. -/
theorem encrypt_refused_or_decrypts (inverts : crypto.Inverts) (cipher : Cipher) {version : Nat}
    {spec : Version} (known : versions version = some spec) (plain iv : Bytes)
    (ivLength : iv.length = modeIvs spec.mode) :
    (∃ exn, encrypt crypto cipher plain version iv true = .error exn) ∨
      ∃ payload, encrypt crypto cipher plain version iv true = .ok payload ∧
        decrypt crypto cipher payload version = .ok (some plain) := by
  cases done : encrypt crypto cipher plain version iv true with
  | error exn => exact .inl ⟨exn, rfl⟩
  | ok payload => exact .inr ⟨payload, rfl, decrypt_encrypt inverts known ivLength done⟩

/-- The NUL-padded ECB version accepts a short plaintext and gives it back. -/
theorem encrypt_refused_or_decrypts_ecb :
    (encrypt .additive ⟨List.replicate 32 1⟩ [7, 0, 9] 5 [] true).isOk = true ∧
    ((∃ exn, encrypt .additive ⟨List.replicate 32 1⟩ [7, 0, 9] 5 [] true = .error exn) ∨
      ∃ payload, encrypt .additive ⟨List.replicate 32 1⟩ [7, 0, 9] 5 [] true = .ok payload ∧
        decrypt .additive ⟨List.replicate 32 1⟩ payload 5 = .ok (some [7, 0, 9])) :=
  ⟨by decide +kernel, encrypt_refused_or_decrypts Crypto.additive_inverts _ rfl _ _ rfl⟩

end Cipher

end VaultSeed.Kef
