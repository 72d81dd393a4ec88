import VaultSeed.Kef.Envelope
import VaultSeed.Foundation.Effect
import VaultSeed.Foundation.Text

/-! # What wrapping and unwrapping accept

`wrap` accepts exactly the iteration counts that have a field, and no two of them have
the same one. `unwrap` accepts more than `wrap` writes: identifiers of 253 bytes and
longer, fields that are cut short or zero, and multiples of 10000 spelt out. On
everything else that it accepts the two agree (`unwrap_canonical_iff`).
-/

namespace VaultSeed.Kef

open Python Effect

/-- An identifier, as `wrap` takes it. -/
inductive Identifier where
  | bytes (data : Bytes)
  | text (characters : Text)

/-- `id_ if isinstance(id_, bytes) else id_.encode()`. -/
def Identifier.toBytes : Identifier → Bytes
  | bytes data => data
  | text characters => encode characters

/-- The iteration counts that have a field: the multiples of 10000 up to 10000 times
10000, and the other numbers above 10000 that fit in three bytes. -/
def HasField (iterations : Int) : Prop :=
  (iterations % 10000 = 0 ∧ 10 ^ 4 ≤ iterations ∧ iterations ≤ 10 ^ 8) ∨
    (iterations % 10000 ≠ 0 ∧ 10 ^ 4 < iterations ∧ iterations < 2 ^ 24)

instance (iterations : Int) : Decidable (HasField iterations) := by
  unfold HasField
  infer_instance

private theorem hasField_iff (iterations : Int) :
    (∃ field, encodeIterations iterations = .ok field) ↔ HasField iterations := by
  constructor
  · rintro ⟨field, encoded⟩
    unfold encodeIterations at encoded
    split at encoded
    · rename_i multiple
      split at encoded
      · exact .inl ⟨multiple, by omega, by omega⟩
      · cases encoded
    · rename_i other
      split at encoded
      · exact .inr ⟨other, by omega, by omega⟩
      · cases encoded
  · rintro (⟨multiple, low, high⟩ | ⟨other, low, high⟩)
    · exact ⟨_, (if_pos multiple).trans (if_pos ⟨by omega, by omega⟩)⟩
    · exact ⟨_, (if_neg other).trans (if_pos ⟨by omega, by omega⟩)⟩

/-- No two iteration counts have the same field. -/
theorem encodeIterations_inj {first second : Int} {field : Bytes}
    (firstField : encodeIterations first = .ok field)
    (secondField : encodeIterations second = .ok field) : first = second := by
  rw [← (encodeIterations_eq_ok firstField).2, ← (encodeIterations_eq_ok secondField).2]

/-- What wrapping yields when every part is accepted. -/
theorem wrap_of_parts {id payload field : Bytes} {version : Nat} {spec : Version} {iterations : Int}
    (short : id.length ≤ 252) (known : versions version = some spec)
    (encoded : encodeIterations iterations = .ok field)
    (aligned : checkPayload spec payload = .ok ()) :
    wrap id version iterations payload =
      .ok (UInt8.ofNat id.length :: id ++ UInt8.ofNat version :: field ++ payload) := by
  unfold wrap
  simp only [show ¬ 252 < id.length by omega, ↓reduceIte, known, encoded, aligned]
  rfl

/-- **The round trip of an envelope.** Unwrapping gives back what was wrapped, and with it
the same derived key for every passphrase; an iteration count is accepted when it has a
field, and no two of them have the same one. -/
theorem envelope_round_trip (crypto : Crypto) :
    (∀ (ident : Identifier) (version : Nat) (iterations : Int) (payload envelope : Bytes),
      wrap ident.toBytes version iterations payload = .ok envelope →
      ∃ count : Nat, (count : Int) = iterations ∧
        unwrap envelope = .ok (ident.toBytes, version, count, payload)) ∧
    (∀ (ident : Identifier) (version : Nat) (spec : Version) (iterations : Int) (payload : Bytes),
      ident.toBytes.length ≤ 252 → versions version = some spec →
      checkPayload spec payload = .ok () →
      ((∃ envelope, wrap ident.toBytes version iterations payload = .ok envelope) ↔
        HasField iterations)) ∧
    (∀ first second field, encodeIterations first = .ok field →
      encodeIterations second = .ok field → first = second) ∧
    (∀ (ident : Identifier) (version : Nat) (iterations : Nat) (payload envelope passphrase : Bytes)
      (opened : Bytes × Nat × Nat × Bytes),
      wrap ident.toBytes version iterations payload = .ok envelope →
      unwrap envelope = .ok opened →
      Cipher.new crypto passphrase opened.1 opened.2.2.1 =
        Cipher.new crypto passphrase ident.toBytes iterations) := by
  refine ⟨?_, ?_, fun _ _ _ => encodeIterations_inj, ?_⟩
  · intro ident version iterations payload envelope wrapped
    obtain ⟨_, spec, field, _, encoded, _⟩ := wrap_eq_ok wrapped
    have decoded := (encodeIterations_eq_ok encoded).2
    exact ⟨iterations.toNat, by omega, unwrap_wrap wrapped⟩
  · intro ident version spec iterations payload short known aligned
    rw [← hasField_iff]
    constructor
    · rintro ⟨envelope, wrapped⟩
      obtain ⟨_, _, field, _, encoded, _⟩ := wrap_eq_ok wrapped
      exact ⟨field, encoded⟩
    · rintro ⟨field, encoded⟩
      exact ⟨_, wrap_of_parts short known encoded aligned⟩
  · intro ident version iterations payload envelope passphrase opened wrapped unwrapped
    rw [unwrap_wrap wrapped] at unwrapped
    cases unwrapped
    rfl

/-- An envelope under a text identifier with 10001 iterations, and 10002 iterations refused a
place in its field. -/
theorem envelope_round_trip_text :
    (∃ count : Nat, (count : Int) = 10001 ∧
      unwrap [2, 105, 100, 15, 0, 39, 17, 1, 2, 3] = .ok ([105, 100], 15, count, [1, 2, 3])) ∧
    ((∃ envelope, wrap [105, 100] 15 10001 [1, 2, 3] = .ok envelope) ↔ HasField 10001) ∧
    encodeIterations 10002 ≠ .ok [0, 39, 17] := by
  obtain ⟨opens, accepts, distinct, _⟩ := envelope_round_trip .additive
  refine ⟨opens (.text ['i', 'd']) 15 10001 [1, 2, 3] _ (by decide),
    accepts (.text ['i', 'd']) 15 _ 10001 [1, 2, 3] (by decide) rfl (by decide), ?_⟩
  intro same
  exact absurd (distinct 10002 10001 _ same (by decide)) (by decide)

/-- Everything an accepted envelope went through. -/
theorem unwrap_eq_ok {kefBytes id payload : Bytes} {version iterations : Nat}
    (accepted : unwrap kefBytes = .ok (id, version, iterations, payload)) :
    ∃ lenId versionByte rest spec, kefBytes = lenId :: id ++ versionByte :: rest ∧
      id.length = lenId.toNat ∧ version = versionByte.toNat ∧ versions version = some spec ∧
      iterations = decodeIterations (rest.take 3) ∧ payload = rest.drop 3 ∧
      checkPayload spec payload = .ok () := by
  cases kefBytes with
  | nil => cases accepted
  | cons lenId body =>
      unfold unwrap at accepted
      simp only at accepted
      cases atVersion : (lenId :: body)[1 + lenId.toNat]? with
      | none =>
          simp only [atVersion] at accepted
          cases accepted
      | some versionByte =>
          simp only [atVersion] at accepted
          cases known : versions versionByte.toNat with
          | none =>
              simp only [known] at accepted
              cases accepted
          | some spec =>
              simp only [known] at accepted
              obtain ⟨_, aligned, same⟩ := bind_eq_ok.mp accepted
              cases same
              have inBody : body[lenId.toNat]? = some versionByte := by
                rwa [Nat.add_comm, List.getElem?_cons_succ] at atVersion
              obtain ⟨inside, value⟩ := List.getElem?_eq_some_iff.mp inBody
              refine ⟨lenId, versionByte, body.drop (lenId.toNat + 1), spec, ?_, ?_, rfl, known, ?_,
                ?_, aligned⟩
              · rw [List.drop_succ_cons, List.drop_zero, ← value, List.cons_append,
                  List.getElem_cons_drop, List.take_append_drop]
              · rw [List.drop_succ_cons, List.drop_zero, List.length_take]
                omega
              · rw [show 2 + lenId.toNat = (lenId.toNat + 1) + 1 by omega, List.drop_succ_cons]
              · rw [show lenId.toNat + 5 = ((lenId.toNat + 1) + 3) + 1 by omega,
                  List.drop_succ_cons, List.drop_drop]

/-- The published layout: the length of the identifier, at most 252, the identifier, a
known version, a field of three bytes that is not zero, and the payload. -/
def Layout (kefBytes : Bytes) : Prop :=
  ∃ lenId id version field payload, kefBytes = lenId :: id ++ version :: field ++ payload ∧
    id.length = lenId.toNat ∧ lenId.toNat ≤ 252 ∧ (versions version.toNat).isSome ∧
    field.length = 3 ∧ 1 ≤ fromBytesBig field

/-- The length of the identifier in the header. -/
def headerLength (kefBytes : Bytes) : Nat := (kefBytes.headD 0).toNat

/-- The number in the iteration field. -/
def headerIterations (kefBytes : Bytes) : Nat :=
  fromBytesBig ((kefBytes.drop (2 + headerLength kefBytes)).take 3)

/-- A header as `wrap` writes it: the identifier is not too long, the iteration field is
complete and not zero, and no multiple of 10000 is spelt out. -/
structure CanonicalHeader (kefBytes : Bytes) : Prop where
  short : headerLength kefBytes ≤ 252
  complete : headerLength kefBytes + 5 ≤ kefBytes.length
  positive : 1 ≤ headerIterations kefBytes
  reduced : headerIterations kefBytes ≤ 10000 ∨ headerIterations kefBytes % 10000 ≠ 0

private theorem headerIterations_append {lenId versionByte : UInt8} {id rest : Bytes}
    (length : id.length = lenId.toNat) :
    headerIterations (lenId :: id ++ versionByte :: rest) = fromBytesBig (rest.take 3) := by
  rw [headerIterations, headerLength, List.cons_append, List.headD_cons,
    show 2 + lenId.toNat = (lenId :: id ++ [versionByte]).length by simp; omega,
    show lenId :: (id ++ versionByte :: rest) = (lenId :: id ++ [versionByte]) ++ rest by simp,
    List.drop_left' rfl]

/-- A complete field that is not zero and reduced is the field of the count it stands for. -/
theorem encodeIterations_decodeIterations {field : Bytes} (complete : field.length = 3)
    (positive : 1 ≤ fromBytesBig field)
    (reduced : fromBytesBig field ≤ 10000 ∨ fromBytesBig field % 10000 ≠ 0) :
    encodeIterations (decodeIterations field : Int) = .ok field := by
  have back : toBytesBig 3 (fromBytesBig field) = field := complete ▸ toBytesBig_fromBytesBig field
  have fits : fromBytesBig field < 2 ^ 24 := by
    have := fromBytesBig_lt field
    rw [complete] at this
    omega
  unfold encodeIterations decodeIterations
  by_cases small : fromBytesBig field ≤ 10000
  · simp only [small, ↓reduceIte]
    rw [if_pos (by push_cast; omega), if_pos (by push_cast; omega)]
    rw [show (((fromBytesBig field * 10000 : Nat) : Int) / 10000).toNat = fromBytesBig field by
      push_cast; omega, back]
  · simp only [small, ↓reduceIte]
    rw [if_neg (by omega), if_pos (by omega), Int.toNat_natCast, back]

/-- A field that `wrap` writes is complete, not zero and reduced. -/
theorem encodeIterations_reduced {iterations : Int} {field : Bytes}
    (encoded : encodeIterations iterations = .ok field) :
    1 ≤ fromBytesBig field ∧ (fromBytesBig field ≤ 10000 ∨ fromBytesBig field % 10000 ≠ 0) := by
  unfold encodeIterations at encoded
  split at encoded
  · split at encoded
    · cases encoded
      rw [fromBytesBig_toBytesBig _ _ (by omega)]
      omega
    · cases encoded
  · split at encoded
    · cases encoded
      rw [fromBytesBig_toBytesBig _ _ (by omega)]
      omega
    · cases encoded

/-- **When an accepted envelope is one that `wrap` writes**: exactly when its header is
canonical. -/
theorem unwrap_canonical_iff {kefBytes id payload : Bytes} {version iterations : Nat}
    (accepted : unwrap kefBytes = .ok (id, version, iterations, payload)) :
    Layout kefBytes ∧ wrap id version iterations payload = .ok kefBytes ↔
      CanonicalHeader kefBytes := by
  obtain ⟨lenId, versionByte, rest, spec, rfl, length, rfl, known, rfl, rfl, aligned⟩ :=
    unwrap_eq_ok accepted
  have stored : headerIterations (lenId :: id ++ versionByte :: rest) =
      fromBytesBig (rest.take 3) :=
    headerIterations_append length
  have header : headerLength (lenId :: id ++ versionByte :: rest) = lenId.toNat := rfl
  have total : (lenId :: id ++ versionByte :: rest).length = lenId.toNat + 2 + rest.length := by
    simp
    omega
  constructor
  · rintro ⟨_, wrapped⟩
    obtain ⟨short, _, field, _, encoded, _, same⟩ := wrap_eq_ok wrapped
    obtain ⟨fieldLength, _⟩ := encodeIterations_eq_ok encoded
    simp only [List.cons_append, List.append_assoc, List.cons.injEq, List.append_cancel_left_eq]
      at same
    have taken : rest.take 3 = field := by
      rw [same.2.2]
      exact List.take_left' fieldLength
    have long : 3 ≤ rest.length := by
      have := congrArg List.length taken
      rw [List.length_take, fieldLength] at this
      omega
    obtain ⟨positive, reduced⟩ := encodeIterations_reduced encoded
    refine ⟨?_, ?_, ?_, ?_⟩
    · omega
    · omega
    · rw [stored, taken]
      exact positive
    · rw [stored, taken]
      exact reduced
  · rintro ⟨short, complete, positive, reduced⟩
    rw [stored] at positive reduced
    have fieldLength : (rest.take 3).length = 3 := by
      rw [List.length_take]
      omega
    have whole : lenId :: id ++ versionByte :: rest.take 3 ++ rest.drop 3 =
        lenId :: id ++ versionByte :: rest := by
      rw [List.append_assoc]
      simp
    refine ⟨⟨lenId, id, versionByte, rest.take 3, rest.drop 3, whole.symm, length, by omega, ?_,
      fieldLength, positive⟩, ?_⟩
    · rw [known]
      rfl
    · have encoded := encodeIterations_decodeIterations fieldLength positive reduced
      rw [wrap_of_parts (by omega) known encoded aligned, length, UInt8.ofNat_toNat,
        UInt8.ofNat_toNat, whole]

/-- An envelope of the counter mode with the field of 10001 iterations. -/
theorem unwrap_canonical_iff_counter :
    let kefBytes : Bytes := [2, 105, 100, 15, 0, 39, 17, 1, 2, 3]
    Layout kefBytes ∧ wrap [105, 100] 15 10001 [1, 2, 3] = .ok kefBytes :=
  (unwrap_canonical_iff (by decide)).mpr ⟨by decide, by decide, by decide, by decide⟩

/-- **A header without an iteration field is accepted**: the envelope ends after the
version, and unwrapping it gives no iterations and no payload. -/
theorem unwrap_cut_header :
    unwrap [0, 20] = .ok ([], 20, 0, []) ∧ ¬ Layout [0, 20] ∧
      ∀ envelope, wrap [] 20 0 [] ≠ .ok envelope := by
  refine ⟨by decide, ?_, ?_⟩
  · rintro ⟨lenId, id, version, field, payload, same, _, _, _, fieldLength, _⟩
    have total := congrArg List.length same
    simp at total
    omega
  · intro envelope wrapped
    obtain ⟨_, _, field, _, encoded, _⟩ := wrap_eq_ok wrapped
    cases encoded

end VaultSeed.Kef
