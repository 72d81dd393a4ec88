import VaultSeed.Foundation.Bits
import VaultSeed.Foundation.Dict
import VaultSeed.Vault.Platform

/-! # Mnemonics

`bip39.py` reads the bytes a mnemonic stands for, and embit's `bip39.py` writes the mnemonic
of bytes. The digest and the data of the word list are parameters
(`VaultSeed.Bip39.Library`). Over the code stands what BIP39 calls the mnemonic of an entropy
(`VaultSeed.Bip39.phrase`): groups of eleven bits of the entropy and its checksum.
-/

namespace VaultSeed.Bip39

open Python
open Vault (isSpace strip split)

/-- What `hashlib.sha256(data).digest()` returns. -/
abbrev Digest := Vector UInt8 32

/-- A list of 2048 distinct words; what `split` would cut in two is not a word. -/
structure Wordlist where
  words : List Text
  length : words.length = 2048
  distinct : words.Nodup
  plain : ∀ word ∈ words, word ≠ [] ∧ ∀ char ∈ word, isSpace char = false

/-- The word at a position. -/
def Wordlist.word (wordlist : Wordlist) (index : Nat) : Text := wordlist.words.getD index []

/-- What the module imports: SHA-256 and `WORDLIST`. -/
structure Library where
  sha256 : Bytes → Digest
  wordlist : Wordlist

/-- `WORDINDEX`, a dictionary comprehension over `enumerate(WORDLIST)`. -/
def wordIndex (words : List Text) : List (Text × Nat) :=
  words.zipIdx.foldl (fun index entry => Dict.put entry.1 entry.2 index) []

/-- `WORDINDEX[word]`. -/
def lookUp (wordlist : Wordlist) (word : Text) : Except Exn Nat :=
  match (wordIndex wordlist.words).lookup word with
  | some index => .ok index
  | none => .error .keyError

/-- `wordlist.index(word)`. -/
def search (wordlist : Wordlist) (word : Text) : Except Exn Nat :=
  match wordlist.words.idxOf? word with
  | some index => .ok index
  | none => .error (.valueError "object not in sequence")

/-- A turn of both loops over the words; whatever is raised in it names the word. -/
def accumulate (index : Text → Except Exn Nat) (accumulator : Nat) (word : Text) :
    Except Exn Nat :=
  match index word with
  | .ok value => .ok ((accumulator <<< 11) + value)
  | .error _ =>
      .error (.valueError ("Word '" ++ String.ofList word ++ "' is not in the dictionary"))

/-- The `try` block; without a word list of the caller `wordlist is WORDLIST`. -/
def readWords (library : Library) (words : List Text) (wordlist : Option Wordlist) :
    Except Exn Nat :=
  match wordlist with
  | none => words.foldlM (accumulate (lookUp library.wordlist)) 0
  | some wordlist => words.foldlM (accumulate (search wordlist)) 0

/-- `entropy_checksum`. -/
def entropyChecksum (library : Library) (entropy : Bytes) (checksumLengthBits : Nat) : Nat :=
  (library.sha256 entropy)[0].toNat >>> (8 - checksumLengthBits)

/-- `k_mnemonic_bytes`. -/
def kMnemonicBytes (library : Library) (mnemonic : Text) (ignoreChecksum : Bool)
    (wordlist : Option Wordlist) : Except Exn Bytes := do
  let words := split (strip mnemonic)
  if words.length % 3 ≠ 0 ∨ ¬ (12 ≤ words.length ∧ words.length ≤ 24) then
    throw (.valueError "Invalid recovery phrase")
  else
    let accumulator ← readWords library words wordlist
    let entropyLengthBits := words.length * 11 / 33 * 32
    let checksumLengthBits := words.length * 11 / 33
    let checksum := accumulator &&& (2 ^ checksumLengthBits - 1)
    let data := toBytesBig (entropyLengthBits / 8) (accumulator >>> checksumLengthBits)
    if ignoreChecksum then return data
    else if checksum ≠ entropyChecksum library data checksumLengthBits then
      throw (.valueError "Checksum verification failed")
    else return data

/-- `k_mnemonic_is_valid`. -/
def kMnemonicIsValid (library : Library) (mnemonic : Text) (wordlist : Option Wordlist) : Bool :=
  match kMnemonicBytes library mnemonic false wordlist with
  | .ok _ => true
  | .error _ => false

/-- The body of the loop of `_extract_index`. -/
def extractBit (b : Bytes) (value pos : Nat) : Except Exn Nat :=
  match b[pos / 8]? with
  | some byte =>
      if byte.toNat &&& (1 <<< (7 - pos % 8)) ≠ 0 then .ok ((value <<< 1) + 1)
      else .ok (value <<< 1)
  | none => .error .indexError

/-- `_extract_index` of embit. -/
def extractIndex (bits : Nat) (b : Bytes) (n : Nat) : Except Exn Nat :=
  (List.range' (n * bits) ((n + 1) * bits - n * bits)).foldlM (extractBit b) 0

/-- `wordlist[idx]`. -/
def wordAt (wordlist : Wordlist) (idx : Nat) : Except Exn Text :=
  match wordlist.words[idx]? with
  | some word => .ok word
  | none => .error .indexError

/-- `mnemonic_from_bytes` of embit. -/
def mnemonicFromBytes (library : Library) (entropy : Bytes) (wordlist : Wordlist) :
    Except Exn Text :=
  if entropy.length % 4 ≠ 0 ∨ ¬ (16 ≤ entropy.length ∧ entropy.length ≤ 32) then
    .error (.valueError "Byte array should be multiple of 4 long (16, 20, ..., 32)")
  else do
    let totalBits := entropy.length * 8
    let checksumBits := totalBits / 32
    let totalMnemonics := (totalBits + checksumBits) / 11
    let checksum := (library.sha256 entropy).toList
    let words ← (List.range totalMnemonics).mapM fun i => do
      wordAt wordlist (← extractIndex 11 (entropy ++ checksum) i)
    return [' '].intercalate words

/-- The bits of bytes. -/
def bitsOf (data : Bytes) : List Bool := Bits.spell 8 (data.map UInt8.toNat)

/-- The bits a mnemonic spells: the entropy, and as many bits of its digest as the entropy has
words of four bytes. -/
def checkedBits (library : Library) (entropy : Bytes) : List Bool :=
  bitsOf entropy ++ (bitsOf (library.sha256 entropy).toList).take (entropy.length * 8 / 32)

/-- **The words of the BIP39 mnemonic of an entropy.** -/
def phrase (library : Library) (entropy : Bytes) (wordlist : Wordlist) : List Text :=
  (Bits.groups 11 (checkedBits library entropy)).map wordlist.word

/-- The BIP39 mnemonic of an entropy. -/
def mnemonicOf (library : Library) (entropy : Bytes) (wordlist : Wordlist) : Text :=
  [' '].intercalate (phrase library entropy wordlist)

/-- The lengths an entropy can have. -/
def entropyLengths : List Nat := [16, 20, 24, 28, 32]

section Lists

/-- Numerals as words. -/
instance : Inhabited Wordlist where
  default :=
    { words := (List.range 2048).map format03d
      length := by rw [List.length_map, List.length_range]
      distinct := List.nodup_range.map format03d_injective
      plain := by
        intro word member
        obtain ⟨number, _, rfl⟩ := List.mem_map.mp member
        refine ⟨format03d_ne_nil number, fun char inside => ?_⟩
        have digit := List.all_eq_true.mp (format03d_isDigit number) char inside
        by_contra blank
        simp only [isSpace, Bool.not_eq_false, Bool.or_eq_true, beq_iff_eq] at blank
        rcases blank with ((((rfl | rfl) | rfl) | rfl) | rfl) | rfl <;> revert digit <;> decide }

variable {words : List Text} {wordlist : Wordlist} {word : Text} {index : Nat}

private theorem wordIndex_concat (words : List Text) (last : Text) :
    wordIndex (words ++ [last]) = Dict.put last words.length (wordIndex words) := by
  rw [wordIndex, List.zipIdx_append, List.foldl_append, List.zipIdx_singleton, List.foldl_cons,
    List.foldl_nil, Nat.zero_add, wordIndex]

private theorem idxOf?_concat (words : List Text) (last word : Text) :
    (words ++ [last]).idxOf? word =
      (words.idxOf? word).or (([last].idxOf? word).map (· + words.length)) :=
  List.findIdx?_append

/-- The last entry of a word is the first one, when the words are distinct. -/
theorem lookup_wordIndex (distinct : words.Nodup) (word : Text) :
    (wordIndex words).lookup word = words.idxOf? word := by
  induction words using List.reverseRecOn with
  | nil => rfl
  | append_singleton words last ih =>
      obtain ⟨earlier, _, apart⟩ := List.nodup_append.mp distinct
      have found := ih earlier
      rw [wordIndex_concat]
      by_cases same : word = last
      · subst same
        have fresh : words.idxOf? word = none := by
          rw [List.idxOf?_eq_none_iff]
          intro member
          exact apart word member word List.mem_cons_self rfl
        rw [Dict.lookup_put_self, idxOf?_concat, fresh]
        simp
      · rw [Dict.lookup_put_of_ne same, found, idxOf?_concat]
        simp [Ne.symm same]

/-- **The index of the module and the search agree** on what a turn does. -/
theorem accumulate_lookUp (wordlist : Wordlist) :
    accumulate (lookUp wordlist) = accumulate (search wordlist) := by
  funext accumulator word
  rw [accumulate, accumulate, lookUp, search, lookup_wordIndex wordlist.distinct]
  cases wordlist.words.idxOf? word <;> rfl

/-- **The loop over the words**, over either list. -/
theorem readWords_eq (library : Library) (words : List Text) (wordlist : Option Wordlist) :
    readWords library words wordlist =
      words.foldlM (accumulate (search (wordlist.getD library.wordlist))) 0 := by
  cases wordlist with
  | none => rw [readWords, accumulate_lookUp, Option.getD_none]
  | some wordlist => rw [readWords, Option.getD_some]

/-- A word stands at its position. -/
theorem getElem?_word (small : index < 2 ^ 11) :
    wordlist.words[index]? = some (wordlist.word index) := by
  have inside : index < wordlist.words.length := wordlist.length ▸ small
  rw [Wordlist.word, List.getD_eq_getElem?_getD, List.getElem?_eq_getElem inside, Option.getD_some]

/-- The word of an index below 2048. -/
theorem wordAt_eq (small : index < 2 ^ 11) : wordAt wordlist index = .ok (wordlist.word index) := by
  rw [wordAt, getElem?_word small]

/-- A word is found where it stands. -/
theorem search_word (small : index < 2 ^ 11) :
    search wordlist (wordlist.word index) = .ok index := by
  obtain ⟨inside, stands⟩ := List.getElem?_eq_some_iff.mp (getElem?_word small)
  have found : wordlist.words.idxOf? (wordlist.word index) = some index := by
    rw [List.idxOf?_eq_some_iff]
    refine ⟨inside, stands, fun earlier before same => ?_⟩
    rw [← stands] at same
    exact before.ne ((wordlist.distinct.getElem_inj_iff).mp same)
  rw [search, found]

/-- What is found stands there. -/
theorem word_of_search (found : search wordlist word = .ok index) :
    index < 2 ^ 11 ∧ wordlist.word index = word := by
  unfold search at found
  split at found
  · rename_i position stands
    cases found
    obtain ⟨inside, same, _⟩ := List.idxOf?_eq_some_iff.mp stands
    have small : index < 2 ^ 11 := by
      rw [wordlist.length] at inside
      exact inside
    obtain ⟨_, stands⟩ := List.getElem?_eq_some_iff.mp (@getElem?_word wordlist _ small)
    exact ⟨small, stands.symm.trans same⟩
  · cases found

/-- The mnemonic is split into its words. -/
theorem split_mnemonicOf (library : Library) (entropy : Bytes) (wordlist : Wordlist) :
    split (mnemonicOf library entropy wordlist) = phrase library entropy wordlist := by
  refine Vault.split_intercalate rfl fun word member => wordlist.plain word ?_
  obtain ⟨index, inside, rfl⟩ := List.mem_map.mp member
  exact List.mem_of_getElem? (getElem?_word (Bits.groups_lt 11 _ index inside))

end Lists

end VaultSeed.Bip39
