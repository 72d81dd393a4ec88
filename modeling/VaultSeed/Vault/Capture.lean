import VaultSeed.Qr.Parser
import VaultSeed.Vault.Unlocking
import VaultSeed.Vault.Sample

/-! # A secret from the camera

The way of a scanned text into the vault and back on the screen: the capture loop, which
takes a text of Latin-1 characters for binary data (`qr_str_to_bytes`), `VaultAdd._scan_qr`,
the stored plaintext and `VaultView.reveal_secret`. ASCII texts, and texts with a character
beyond Latin-1, are shown as they were scanned; the others are shown as what their bytes
stand for (`revealed_captured`).
-/

namespace VaultSeed.Vault

open Python Effect Qr

/-- The bytes of a text of Latin-1 characters, `bytes((ord(x) for x in text))`. -/
def latin1 (text : Text) : Bytes := text.map fun char => UInt8.ofNat char.toNat

/-- `qr_str_to_bytes`. -/
def qrStrToBytes : Content → Except Exn Content
  | .bytes data => .ok (.bytes data)
  | .text text =>
      match decode (encode text) with
      | none => .ok (.bytes (encode text))
      | some _ =>
          match (text.map Char.toNat).max? with
          | none => .error (.valueError "max() arg is an empty sequence")
          | some maxOrd =>
              if maxOrd < 128 then .ok (.text text)
              else if maxOrd < 256 then .ok (.bytes (latin1 text))
              else .ok (.text text)

/-- The end of `qr_capture_loop`. -/
def finishCapture (deflate : Deflate) : Proc QrPartParser Exn (Option Content) := do
  let parser ← Proc.get
  if parser.isComplete then
    let result ← Proc.ofExcept (parser.result deflate)
    let content ← Proc.ofExcept (qrStrToBytes result)
    pure (some content)
  else pure none

/-- `qr_capture_loop` over the frames of the camera, each with the code that is found in it;
after the last frame the user leaves. -/
def qrCaptureLoop (deflate : Deflate) : List (Option Text) → Proc QrPartParser Exn (Option Content)
  | [] => finishCapture deflate
  | frame :: frames => do
      match frame with
      | some data => discard (QrPartParser.parse data)
      | none => pure ()
      if (← Proc.get).isComplete then finishCapture deflate else qrCaptureLoop deflate frames

/-- `data.decode()`, and `data.hex()` for bytes that are not UTF-8. -/
def decodeOrHex (data : Bytes) : Text := (decode data).getD (hexlify data)

/-- `VaultAdd._scan_qr`. -/
def scanQr (deflate : Deflate) (frames : List (Option Text)) :
    Proc QrPartParser Exn (Option Text) := do
  match ← qrCaptureLoop deflate frames with
  | none => pure none
  | some (.bytes data) => pure (some (decodeOrHex data))
  | some (.text text) => pure (some text)

/-- What `VaultView.reveal_secret` shows once the user agreed; `none` when the secret cannot be
decrypted. -/
def revealSecret (platform : Platform) (env : Env) (cipher : Kef.Cipher) (secretId : Text) :
    Run (Option Text) := do
  match ← loadSecret platform env cipher secretId with
  | none => pure none
  | some plaintext => pure (some (decodeOrHex plaintext))

/-- The texts that are not taken for binary data: all characters are ASCII, or one lies beyond
Latin-1. -/
def Verbatim (text : Text) : Prop :=
  (∀ char ∈ text, char.toNat < 128) ∨ ∃ char ∈ text, 256 ≤ char.toNat

instance (text : Text) : Decidable (Verbatim text) :=
  decidable_of_iff ((text.all fun char => char.toNat < 128) = true ∨
    (text.any fun char => 256 ≤ char.toNat) = true) (by simp [Verbatim])

/-- What becomes of a scanned text. -/
def capturedText (text : Text) : Text :=
  if Verbatim text then text else decodeOrHex (latin1 text)

section Capturing

variable {deflate : Deflate} {text : Text}

/-- A text is kept or taken for its Latin-1 bytes. -/
theorem qrStrToBytes_text (nonempty : text ≠ []) : qrStrToBytes (.text text) =
    .ok (if Verbatim text then .text text else .bytes (latin1 text)) := by
  have some : (text.map Char.toNat).max? ≠ none := by
    simpa using nonempty
  obtain ⟨maxOrd, largest⟩ := Option.ne_none_iff_exists'.mp some
  obtain ⟨member, bounds⟩ := List.max?_eq_some_iff.mp largest
  obtain ⟨top, inside, rfl⟩ := List.mem_map.mp member
  have below : ∀ char ∈ text, char.toNat ≤ top.toNat := fun char there =>
    bounds _ (List.mem_map_of_mem there)
  simp only [qrStrToBytes, decode_encode, largest]
  by_cases ascii : top.toNat < 128
  · have verbatim : Verbatim text := .inl fun char there => (below char there).trans_lt ascii
    rw [if_pos ascii, if_pos verbatim]
  rw [if_neg ascii]
  by_cases latin : top.toNat < 256
  · have binary : ¬ Verbatim text := by
      rintro (all | ⟨char, there, beyond⟩)
      · exact ascii (all top inside)
      · have bound := below char there
        omega
    rw [if_pos latin, if_neg binary]
  · have verbatim : Verbatim text := .inr ⟨top, inside, by omega⟩
    rw [if_neg latin, if_pos verbatim]

/-- A plain code completes a fresh parser. -/
theorem parse_plain (plain : (detectFormat text).1 = .none) :
    ∃ value after, QrPartParser.parse text .fresh = (.ok value, after) ∧
      after.isComplete = true ∧ after.result deflate = .ok (.text text) := by
  have read : readPart (QrPartParser.fresh.formatFor text) text = .ok (text, 1, 1) := by
    change readPart (detectFormat text).1 text = _
    rw [plain]
    rfl
  obtain ⟨⟨value, returned⟩, stored⟩ := QrPartParser.parse_of_readPart read
  refine ⟨value, _, Prod.ext returned rfl, ?_⟩
  change QrPartParser.isComplete (QrPartParser.scan .fresh text) = true ∧
    QrPartParser.result deflate (QrPartParser.scan .fresh text) = _
  rw [stored]
  have format : (QrPartParser.fresh.detect text).format = some .none := by
    rw [QrPartParser.format_detect]
    exact congrArg some plain
  simp only [QrPartParser.isComplete, QrPartParser.result, QrPartParser.store, format,
    QrPartParser.parts_detect]
  constructor
  · rfl
  · exact congrArg (fun text => Except.ok (Content.text text)) (List.append_nil text)

/-- The capture of a plain code, found after any number of frames without one. -/
theorem qrCaptureLoop_plain (nonempty : text ≠ []) (plain : (detectFormat text).1 = .none)
    (empty : Nat) (frames : List (Option Text)) :
    (qrCaptureLoop deflate (List.replicate empty none ++ some text :: frames) .fresh).1 =
      .ok (some (if Verbatim text then .text text else .bytes (latin1 text))) := by
  induction empty with
  | zero =>
      obtain ⟨value, after, parsed, complete, result⟩ := @parse_plain deflate text plain
      have ran : discard (QrPartParser.parse text) QrPartParser.fresh = (.ok (), after) :=
        Proc.bind_ok parsed
      have finish : (finishCapture deflate after).1 =
          .ok (some (if Verbatim text then .text text else .bytes (latin1 text))) := by
        rw [finishCapture, Proc.bind_ok Proc.get_apply, if_pos complete, result,
          Proc.ofExcept_ok, Proc.bind_ok (Proc.pure_apply _), qrStrToBytes_text nonempty,
          Proc.ofExcept_ok, Proc.bind_ok (Proc.pure_apply _)]
        rfl
      rw [List.replicate_zero, List.nil_append, qrCaptureLoop, Proc.bind_ok ran]
      change ((if after.isComplete = true then finishCapture deflate
        else qrCaptureLoop deflate frames) after).1 = _
      rw [if_pos complete]
      exact finish
  | succ empty ih => exact ih

/-- **What a scanned plain code gives**, whatever is in front of the camera before and after. -/
theorem scanQr_plain (nonempty : text ≠ []) (plain : (detectFormat text).1 = .none) (empty : Nat)
    (frames : List (Option Text)) :
    (scanQr deflate (List.replicate empty none ++ some text :: frames) .fresh).1 =
      .ok (some (capturedText text)) := by
  have captured := @qrCaptureLoop_plain deflate text nonempty plain empty frames
  cases ran : qrCaptureLoop deflate (List.replicate empty none ++ some text :: frames)
      QrPartParser.fresh with
  | mk outcome after =>
      rw [ran] at captured
      obtain rfl : outcome = _ := captured
      rw [scanQr, Proc.bind_ok ran, capturedText]
      split <;> rfl

end Capturing

/-- A text that is taken for binary data never comes back: its bytes are fewer than those of
the text, and their hexadecimal digits more than its characters. -/
theorem capturedText_eq_iff {text : Text} (nonempty : text ≠ []) :
    capturedText text = text ↔ Verbatim text := by
  constructor
  · intro same
    by_contra binary
    rw [capturedText, if_neg binary] at same
    have length : (latin1 text).length = text.length := List.length_map _
    have long := List.length_pos_of_ne_nil nonempty
    unfold decodeOrHex at same
    cases decoded : decode (latin1 text) with
    | none =>
        rw [decoded] at same
        have twice : (hexlify (latin1 text)).length = 2 * (latin1 text).length := by
          rw [hexlify, List.length_flatMap]
          simp [Nat.mul_comm]
        have shown := congrArg List.length same
        change (hexlify (latin1 text)).length = text.length at shown
        omega
    | some shown =>
        rw [decoded] at same
        obtain rfl : shown = text := same
        have spelled := encode_of_decode decoded
        simp only [Verbatim, not_or, not_forall] at binary
        obtain ⟨⟨char, member, high⟩, _⟩ := binary
        have more := length_lt_length_encode member (Nat.not_lt.mp high)
        rw [spelled, length] at more
        exact absurd more (Nat.lt_irrefl _)
  · intro verbatim
    exact if_pos verbatim

section Revealing

variable {platform : Platform} {writer reader : Env} {cipher : Kef.Cipher} {secretId text : Text}
  {device after later : Device}

/-- A text that was saved is shown as it is. -/
theorem revealSecret_of_saved (lawful : platform.Lawful)
    (saved : saveSecret platform writer cipher secretId (encode text) device = (.ok (), after))
    (kept : later.sd.get (secretPath secretId) = after.sd.get (secretPath secretId))
    (reliable : ¬ reader.MissesSecret secretId) :
    (revealSecret platform reader cipher secretId later).1 = .ok (some text) := by
  have holds := saveEnvelope_saved writer platform cipher (encode secretId) (secretPath secretId)
    (encode text) device (.secret cipher secretId (encode text))
  unfold Proc.Holds at holds
  rw [show saveEnvelope platform writer cipher (encode secretId) (secretPath secretId) (encode text)
    _ device = (.ok (), after) from saved] at holds
  obtain ⟨envelope, seals, written⟩ := holds.sd_eq_put
  have stored : later.sd.get (secretPath secretId) = some envelope := by
    rw [kept, written, Medium.get_put_self]
  have loaded := @loadSecret_fst platform reader cipher secretId later reliable
  rw [secretOn_of_seals lawful stored seals] at loaded
  cases ran : loadSecret platform reader cipher secretId later with
  | mk outcome final =>
      rw [ran] at loaded
      obtain rfl : outcome = _ := loaded
      rw [revealSecret, Proc.bind_ok ran]
      change Outcome.ok (some (decodeOrHex (encode text))) = _
      rw [decodeOrHex, decode_encode]
      rfl

/-- **A scanned text in the vault.** A plain code is captured as `capturedText`, and once that
is saved it is what is shown. It is the scanned text exactly when the text is ASCII or has a
character beyond Latin-1; different texts of that kind are stored as different plaintexts. -/
theorem revealed_captured (lawful : platform.Lawful) (deflate : Deflate) (nonempty : text ≠ [])
    (plain : (detectFormat text).1 = .none) (empty : Nat) (frames : List (Option Text)) :
    (scanQr deflate (List.replicate empty none ++ some text :: frames) .fresh).1 =
      .ok (some (capturedText text)) ∧
    (∀ writer reader cipher secretId device after later,
      saveSecret platform writer cipher secretId (encode (capturedText text)) device =
        (.ok (), after) →
      later.sd.get (secretPath secretId) = after.sd.get (secretPath secretId) →
      ¬ reader.MissesSecret secretId →
      (revealSecret platform reader cipher secretId later).1 = .ok (some (capturedText text))) ∧
    (capturedText text = text ↔ Verbatim text) ∧
    (∀ other, Verbatim text → Verbatim other →
      encode (capturedText other) = encode (capturedText text) → other = text) := by
  refine ⟨scanQr_plain nonempty plain empty frames, ?_, capturedText_eq_iff nonempty, ?_⟩
  · intro writer reader cipher secretId device after later saved kept reliable
    exact revealSecret_of_saved lawful saved kept reliable
  · intro other verbatim otherVerbatim same
    rw [capturedText, capturedText, if_pos verbatim, if_pos otherVerbatim] at same
    have decoded := congrArg decode same
    rw [decode_encode, decode_encode] at decoded
    exact Option.some.inj decoded

end Revealing

namespace Sample

/-- A device whose media have the directories of a vault. -/
def prepared : Device := ⟨⟨⟨true, true, ∅⟩, ⟨true, true, ∅⟩⟩, none, [], [], []⟩

/-- The key of the samples. -/
def key : Kef.Cipher := deriveKey platform "a".toList []

/-- The device after a text was stored. -/
def stored (text : Text) : Device :=
  (saveSecret platform (env []) key "001".toList (encode text) prepared).2

private theorem env_reliable (entry secretId : Text) : ¬ (env entry).MissesSecret secretId := by
  rintro (⟨count, fault⟩ | ⟨count, fault⟩) <;> exact fault rfl

end Sample

/-- A captured word is shown again. -/
theorem revealed_captured_word :
    (revealSecret Sample.platform (Sample.env []) Sample.key "001".toList
      (Sample.stored (capturedText "seed".toList))).1 = .ok (some "seed".toList) := by
  have ⟨_, shown, verbatim, _⟩ := revealed_captured Sample.platform_lawful ⟨some, some⟩
    (show "seed".toList ≠ [] by decide) (by decide) 0 []
  rw [shown (Sample.env []) (Sample.env []) Sample.key "001".toList Sample.prepared
    (Sample.stored (capturedText "seed".toList)) _ (Prod.ext (by decide +kernel) rfl) rfl
    (Sample.env_reliable _ _), verbatim.mpr (by decide)]

/-- An accented letter is stored and shown as the digits of its byte, like those digits
themselves. -/
theorem captured_accent :
    (¬ ∀ text : Text, text ≠ [] → (detectFormat text).1 = .none → ∀ captured,
      (scanQr ⟨some, some⟩ [some text] .fresh).1 = .ok (some captured) →
      (revealSecret Sample.platform (Sample.env []) Sample.key "001".toList
        (Sample.stored captured)).1 = .ok (some text)) ∧
    (scanQr ⟨some, some⟩ [some ['é']] .fresh).1 = .ok (some "e9".toList) ∧
    (scanQr ⟨some, some⟩ [some "e9".toList] .fresh).1 = .ok (some "e9".toList) := by
  have accent : (scanQr ⟨some, some⟩ [some ['é']] .fresh).1 = .ok (some "e9".toList) := by
    decide +kernel
  refine ⟨fun claim => ?_, accent, by decide +kernel⟩
  have shown := claim ['é'] (by decide) (by decide) "e9".toList accent
  exact absurd shown (by decide +kernel)

end VaultSeed.Vault
