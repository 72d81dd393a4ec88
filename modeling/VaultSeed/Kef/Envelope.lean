import VaultSeed.Kef.Cipher

/-! # The envelope of the encryption format

`wrap` puts the length of the identifier, the identifier, the version, a
three-byte iteration field and the payload in a row; `unwrap` reads them back,
the version first. The iteration field counts in steps of 10000 up to 10000 and
literally above. Unwrapping a wrapped payload gives back what was wrapped
(`VaultSeed.Kef.unwrap_wrap`).
-/

namespace VaultSeed.Kef

open Python

/-- The alignment checks `wrap` and `unwrap` share. -/
def checkPayload (spec : Version) (payload : Bytes) : Except Exn Unit :=
  let extra : Int := modeIvs spec.mode + (if 0 < spec.auth then spec.auth else 0)
  if spec.pkcsPad = none then .ok ()
  else if ((payload.length : Int) - extra) % 16 ≠ 0 then
    .error (.valueError "Ciphertext is not aligned")
  else if ((payload.length : Int) - extra) / 16 < 1 then
    .error (.valueError "Ciphertext is too short")
  else .ok ()

/-- The iteration field. -/
def encodeIterations (iterations : Int) : Except Exn Bytes :=
  if iterations % 10000 = 0 then
    if 1 ≤ iterations / 10000 ∧ iterations / 10000 ≤ 10000 then
      .ok (toBytesBig 3 (iterations / 10000).toNat)
    else .error (.valueError "Invalid iterations")
  else if 10000 < iterations ∧ iterations < 2 ^ 24 then .ok (toBytesBig 3 iterations.toNat)
  else .error (.valueError "Invalid iterations")

/-- The iteration count a field stands for. -/
def decodeIterations (field : Bytes) : Nat :=
  let stored := fromBytesBig field
  if stored ≤ 10000 then stored * 10000 else stored

/-- `wrap`, for an identifier given as bytes. -/
def wrap (id : Bytes) (version : Nat) (iterations : Int) (payload : Bytes) : Except Exn Bytes := do
  if 252 < id.length then throw (.valueError "Invalid ID")
  match versions version with
  | none => throw (.valueError "Invalid version")
  | some spec =>
      let field ← encodeIterations iterations
      checkPayload spec payload
      pure (UInt8.ofNat id.length :: id ++ UInt8.ofNat version :: field ++ payload)

/-- `unwrap`: the identifier, the version, the iterations and the payload. -/
def unwrap (kefBytes : Bytes) : Except Exn (Bytes × Nat × Nat × Bytes) := do
  match kefBytes with
  | [] => throw .indexError
  | lenId :: _ =>
      let lenId := lenId.toNat
      match kefBytes[1 + lenId]? with
      | none => throw (.valueError "Invalid format")
      | some version =>
          match versions version.toNat with
          | none => throw (.valueError "Invalid format")
          | some spec =>
              let id := (kefBytes.drop 1).take lenId
              let iterations := decodeIterations ((kefBytes.drop (2 + lenId)).take 3)
              let payload := kefBytes.drop (lenId + 5)
              checkPayload spec payload
              pure (id, version.toNat, iterations, payload)

/-- Every version number fits a byte. -/
theorem versions_lt {version : Nat} {spec : Version} (known : versions version = some spec) :
    version < 256 := by
  by_contra large
  have : versions version = none := by
    unfold versions
    split <;> first | omega | rfl
  rw [this] at known
  cases known

/-- What wrapping a payload yields when it is accepted. -/
theorem wrap_eq_ok {id payload envelope : Bytes} {version : Nat} {iterations : Int}
    (wrapped : wrap id version iterations payload = .ok envelope) :
    id.length ≤ 252 ∧ ∃ spec field, versions version = some spec ∧
      encodeIterations iterations = .ok field ∧ checkPayload spec payload = .ok () ∧
      envelope = UInt8.ofNat id.length :: id ++ UInt8.ofNat version :: field ++ payload := by
  unfold wrap at wrapped
  by_cases long : 252 < id.length
  · simp only [long, ↓reduceIte] at wrapped
    cases wrapped
  · simp only [long, ↓reduceIte] at wrapped
    refine ⟨by omega, ?_⟩
    cases known : versions version with
    | none =>
        simp only [known] at wrapped
        cases wrapped
    | some spec =>
        simp only [known] at wrapped
        cases encoded : encodeIterations iterations with
        | error exn =>
            rw [encoded] at wrapped
            cases wrapped
        | ok field =>
            rw [encoded] at wrapped
            cases aligned : checkPayload spec payload with
            | error exn =>
                rw [aligned] at wrapped
                cases wrapped
            | ok done =>
                rw [aligned] at wrapped
                cases wrapped
                exact ⟨spec, field, rfl, rfl, aligned, rfl⟩

/-- The iteration field has three bytes and stands for the count it encodes. -/
theorem encodeIterations_eq_ok {iterations : Int} {field : Bytes}
    (encoded : encodeIterations iterations = .ok field) :
    field.length = 3 ∧ (decodeIterations field : Int) = iterations := by
  unfold encodeIterations at encoded
  split at encoded
  · rename_i multiple
    split at encoded
    · rename_i range
      cases encoded
      refine ⟨length_toBytesBig _ _, ?_⟩
      have value := fromBytesBig_toBytesBig 3 (iterations / 10000).toNat (by omega)
      simp only [decodeIterations, value]
      rw [if_pos (by omega)]
      push_cast
      omega
    · cases encoded
  · split at encoded
    · rename_i range
      cases encoded
      refine ⟨length_toBytesBig _ _, ?_⟩
      have value := fromBytesBig_toBytesBig 3 iterations.toNat (by omega)
      simp only [decodeIterations, value]
      rw [if_neg (by omega)]
      omega
    · cases encoded

/-- **Unwrapping inverts wrapping.** -/
theorem unwrap_wrap {id payload envelope : Bytes} {version : Nat} {iterations : Int}
    (wrapped : wrap id version iterations payload = .ok envelope) :
    unwrap envelope = .ok (id, version, iterations.toNat, payload) := by
  obtain ⟨short, spec, field, known, encoded, aligned, rfl⟩ := wrap_eq_ok wrapped
  obtain ⟨fieldLength, decoded⟩ := encodeIterations_eq_ok encoded
  have lenId : (UInt8.ofNat id.length).toNat = id.length := by
    rw [UInt8.toNat_ofNat']
    omega
  have versionByte : (UInt8.ofNat version).toNat = version := by
    rw [UInt8.toNat_ofNat']
    have := versions_lt known
    omega
  have atVersion : (UInt8.ofNat id.length :: id ++ UInt8.ofNat version :: field ++ payload)[1 +
      id.length]? = some (UInt8.ofNat version) := by
    rw [Nat.add_comm]
    simp
  have afterId : ((UInt8.ofNat id.length :: id ++ UInt8.ofNat version :: field ++ payload).drop
      1).take id.length = id := by
    simp
  have afterVersion : ((UInt8.ofNat id.length :: id ++ UInt8.ofNat version :: field ++
      payload).drop (2 + id.length)).take 3 = field := by
    rw [show 2 + id.length = (UInt8.ofNat id.length :: id ++ [UInt8.ofNat version]).length by
      simp; omega, show UInt8.ofNat id.length :: id ++ UInt8.ofNat version :: field ++ payload =
      (UInt8.ofNat id.length :: id ++ [UInt8.ofNat version]) ++ (field ++ payload) by simp,
      List.drop_left' rfl, List.take_left' fieldLength]
  have afterField : (UInt8.ofNat id.length :: id ++ UInt8.ofNat version :: field ++ payload).drop
      (id.length + 5) = payload := by
    rw [show UInt8.ofNat id.length :: id ++ UInt8.ofNat version :: field ++ payload =
      (UInt8.ofNat id.length :: id ++ UInt8.ofNat version :: field) ++ payload by simp]
    exact List.drop_left' (by simp [fieldLength])
  have iterationsEq : decodeIterations field = iterations.toNat := by omega
  unfold unwrap
  simp only [List.cons_append] at atVersion afterId afterVersion afterField ⊢
  simp only [lenId, atVersion, versionByte, known, afterId, afterVersion, afterField, aligned,
    iterationsEq]
  rfl

end VaultSeed.Kef
