import VaultSeed.Vault.Platform

/-! # A concrete platform

A small platform that satisfies `VaultSeed.Vault.Platform.Lawful`: the additive
primitives, and a codec that writes a document as a sequence of marked fields. It
is the one on which concrete runs of the vault are evaluated.
-/

namespace VaultSeed.Vault

open Python

namespace Sample

/-- A field: every character marked, a full stop at the end. -/
def writeField (field : Text) : Text := field.flatMap (fun char => ['+', char]) ++ ['.']

/-- Read fields to the end, with the characters of the current one. -/
def readFields : Text → Text → Option (List Text)
  | [], [] => some []
  | current, '+' :: char :: rest => readFields (current ++ [char]) rest
  | current, '.' :: rest => (readFields [] rest).map (current :: ·)
  | _, _ => none

private theorem readFields_marked (current field rest : Text) :
    readFields current (field.flatMap (fun char => ['+', char]) ++ rest) =
      readFields (current ++ field) rest := by
  induction field generalizing current with
  | nil => simp
  | cons char field ih =>
      rw [List.flatMap_cons, List.append_assoc]
      simp only [List.cons_append, List.nil_append, readFields]
      rw [ih, List.append_assoc]
      rfl

private theorem readFields_writeField (field rest : Text) :
    readFields [] (writeField field ++ rest) = (readFields [] rest).map (field :: ·) := by
  rw [writeField, List.append_assoc, readFields_marked, List.nil_append]
  rcases field with _ | ⟨char, field⟩ <;> rfl

/-- Fields are read back as they were written. -/
theorem readFields_flatMap (fields : List Text) :
    readFields [] (fields.flatMap writeField) = some fields := by
  induction fields with
  | nil => rfl
  | cons field fields ih =>
      rw [List.flatMap_cons, readFields_writeField, ih]
      rfl

/-- One character for each type of secret. -/
def code : SecretType → Char
  | .bip39x12 => 'a'
  | .bip39x24 => 'b'
  | .bip39Invalid => 'c'
  | .nsec => 'd'
  | .npub => 'e'
  | .hex => 'f'
  | .text => 'g'

def ofCode : Text → Option SecretType
  | ['a'] => some .bip39x12
  | ['b'] => some .bip39x24
  | ['c'] => some .bip39Invalid
  | ['d'] => some .nsec
  | ['e'] => some .npub
  | ['f'] => some .hex
  | ['g'] => some .text
  | _ => none

/-- The fields of an entry. -/
def entryFields (entry : Entry) : List Text :=
  [entry.id, entry.label, [code entry.secretType], format03d entry.createdAt, entry.hashPreview]

/-- The entries a sequence of fields stands for. -/
def ofFields : List Text → Option (List Entry)
  | [] => some []
  | id :: label :: kind :: time :: preview :: rest => do
      let secretType ← ofCode kind
      let createdAt ← int 0 time
      let entries ← ofFields rest
      some (⟨id, label, secretType, createdAt.toNat, preview⟩ :: entries)
  | _ => none

private theorem ofFields_flatMap (entries : List Entry) :
    ofFields (entries.flatMap entryFields) = some entries := by
  induction entries with
  | nil => rfl
  | cons entry entries ih =>
      have known : ofCode [code entry.secretType] = some entry.secretType := by
        cases entry.secretType <;> rfl
      simp only [List.flatMap_cons, entryFields, List.cons_append, List.nil_append, ofFields,
        known, int_format03d, Option.bind_eq_bind, Option.bind_some, ih, Int.toNat_natCast]

/-- The codec of manifests. -/
def manifests : Ujson Manifest where
  dumps manifest := (manifest.secrets.flatMap entryFields).flatMap writeField
  loads text := (readFields [] text).bind fun fields => (ofFields fields).map Manifest.mk

/-- The codec of `vault.meta`. -/
def metas : Ujson Meta where
  dumps metadata := writeField metadata.salt ++ writeField (format03d metadata.formatVersion)
  loads text :=
    match readFields [] text with
    | some [salt, version] => (int 0 version).map fun number => Meta.mk salt number.toNat
    | _ => none

private theorem manifests_roundTrips : manifests.RoundTrips := by
  intro manifest
  simp only [manifests, readFields_flatMap, Option.bind_some, ofFields_flatMap, Option.map_some]

private theorem metas_roundTrips : metas.RoundTrips := by
  intro metadata
  have fields := readFields_flatMap [metadata.salt, format03d metadata.formatVersion]
  simp only [List.flatMap_cons, List.flatMap_nil, List.append_nil] at fields
  simp only [metas, fields, int_format03d, Option.map_some, Int.toNat_natCast]

/-- The platform: no word list, so no mnemonics. -/
def platform : Platform where
  crypto := .additive
  manifests := manifests
  metas := metas
  inWordlist _ := false
  mnemonicIsValid _ := false

/-- The sample's platform is lawful. -/
theorem platform_lawful : platform.Lawful :=
  ⟨Kef.Crypto.additive_inverts.toGcmInverts, manifests_roundTrips, metas_roundTrips⟩

/-- An environment without faults: the user answers yes and enters one text
everywhere. -/
def env (entry : Text) : Env where
  fault _ _ := .none
  answer _ _ := true
  keypad _ _ := some entry
  entropy before index := UInt8.ofNat (before + index)
  time before := before
  patience := 2

/-- An environment in which one operation always meets a fault. -/
def failing (entry : Text) (op : FileOp) (fault : Fault) : Env :=
  { env entry with fault := fun other _ => if other = op then fault else .none }

end Sample

end VaultSeed.Vault
