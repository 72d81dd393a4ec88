import VaultSeed.Vault.Device

/-! # What the vault is built on

The JSON codec, the cryptographic primitives and the mnemonic check are parameters
(`VaultSeed.Vault.Platform`); what the vault relies on is stated by
`VaultSeed.Vault.Platform.Lawful`. The detection of secret types follows
`secret_types.py`.
-/

namespace VaultSeed.Vault

open Python

/-- `ujson` at the documents of one shape. -/
structure Ujson (Doc : Type) where
  dumps : Doc → Text
  loads : Text → Option Doc

/-- Loading inverts dumping. -/
def Ujson.RoundTrips {Doc : Type} (json : Ujson Doc) : Prop :=
  ∀ doc, json.loads (json.dumps doc) = some doc

/-- The content of `vault.meta`. -/
structure Meta where
  salt : Text
  formatVersion : Nat
  deriving DecidableEq, Repr

/-- The libraries below the vault. -/
structure Platform where
  crypto : Kef.Crypto
  manifests : Ujson Manifest
  metas : Ujson Meta
  inWordlist : Text → Bool
  mnemonicIsValid : Text → Bool

/-- GCM inverts and the codecs round-trip. -/
structure Platform.Lawful (platform : Platform) : Prop where
  inverts : platform.crypto.GcmInverts
  manifests : platform.manifests.RoundTrips
  metas : platform.metas.RoundTrips

/-- The characters `strip` and `split` treat as blank. -/
def isSpace (char : Char) : Bool :=
  char == ' ' || char == '\t' || char == '\n' || char == '\r' || char == '\x0b' || char == '\x0c'

/-- `text.strip()`. -/
def strip (text : Text) : Text := (text.dropWhile isSpace).rdropWhile isSpace

/-- `text.split()`. -/
def split (text : Text) : List Text := (text.splitOnP isSpace).filter (· ≠ [])

section Split

variable {word text : Text} {blank : Char}

@[simp] theorem split_nil : split [] = [] := rfl

/-- A word is split into itself. -/
theorem split_word (nonempty : word ≠ []) (plain : ∀ char ∈ word, isSpace char = false) :
    split word = [word] := by
  rw [split, List.splitOnP_eq_singleton plain]
  simp [nonempty]

/-- A blank separates. -/
theorem split_append_cons (text : Text) (isBlank : isSpace blank = true) (rest : Text) :
    split (text ++ blank :: rest) = split text ++ split rest := by
  rw [split, List.splitOnP_append_cons text rest isBlank, List.filter_append, split, split]

private theorem split_dropWhile (text : Text) : split (text.dropWhile isSpace) = split text := by
  induction text with
  | nil => rfl
  | cons char text ih =>
      by_cases blank : isSpace char = true
      · rw [List.dropWhile_cons_of_pos blank, ih]
        exact (split_append_cons [] blank text).symm
      · rw [List.dropWhile_cons_of_neg blank]

private theorem split_rdropWhile (text : Text) : split (text.rdropWhile isSpace) = split text := by
  induction text using List.reverseRecOn with
  | nil => rfl
  | append_singleton text char ih =>
      by_cases blank : isSpace char = true
      · rw [List.rdropWhile_concat_pos _ _ _ blank, ih, split_append_cons text blank [], split_nil,
          List.append_nil]
      · rw [List.rdropWhile_concat_neg _ _ _ blank]

/-- Blanks at the ends do not change the words. -/
@[simp] theorem split_strip (text : Text) : split (strip text) = split text := by
  rw [strip, split_rdropWhile, split_dropWhile]

/-- Words joined by blanks are split again. -/
theorem split_intercalate {words : List Text} (isBlank : isSpace blank = true)
    (plain : ∀ word ∈ words, word ≠ [] ∧ ∀ char ∈ word, isSpace char = false) :
    split ([blank].intercalate words) = words := by
  induction words with
  | nil => rfl
  | cons word words ih =>
      obtain ⟨first, later⟩ := List.forall_mem_cons.mp plain
      have alone := split_word first.1 first.2
      cases words with
      | nil => rw [List.intercalate_singleton, alone]
      | cons second words =>
          rw [List.intercalate_cons_cons, List.append_assoc, List.singleton_append,
            split_append_cons word isBlank, alone, ih later, List.singleton_append]

end Split

/-- `BECH32_CHARSET`. -/
def bech32Charset : Text := "qpzry9x8gf2tvdw0s3jn54khce6mua7l".toList

/-- `HEX_CHARS`. -/
def hexChars : Text := "0123456789abcdefABCDEF".toList

/-- The test for `nsec` and `npub`: the marker, 63 characters at least, and the
characters of the encoding after it. -/
def isBech32Key (marker text : Text) : Bool :=
  marker.isPrefixOf text && decide (63 ≤ text.length) &&
    (text.drop 5 != []) && (text.drop 5).all (bech32Charset.contains ·)

/-- `detect_secret_type`. -/
def detectSecretType (platform : Platform) (text : Text) : SecretType :=
  let text := strip text
  let words := split text
  if text = [] then .text
  else if (words.length = 12 ∨ words.length = 24) ∧ words.all platform.inWordlist then
    if platform.mnemonicIsValid text then
      if words.length = 12 then .bip39x12 else .bip39x24
    else .bip39Invalid
  else if isBech32Key "nsec1".toList text then .nsec
  else if isBech32Key "npub1".toList text then .npub
  else if (text.length = 32 ∨ text.length = 64) ∧ text.all (hexChars.contains ·) then .hex
  else .text

/-- Whether `type_warning` has a text for the type. -/
def typeWarning : SecretType → Bool
  | .npub => true
  | .bip39Invalid => true
  | _ => false

end VaultSeed.Vault
