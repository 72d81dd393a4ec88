import VaultSeed.Bip39.Mnemonic
import Mathlib.Data.Nat.Bitwise

/-! # What the encoder writes

`_extract_index` takes bits one by one out of the entropy and its digest. Every group it takes
is a group of the bits of BIP39, so that the encoder writes the mnemonic of an entropy
(`VaultSeed.Bip39.mnemonicFromBytes_eq`).
-/

namespace VaultSeed.Bip39

open Python Effect Bits

section Bits

variable {b entropy : Bytes} {library : Library}

/-- A byte has eight bits. -/
@[simp] theorem length_bitsOf (data : Bytes) : (bitsOf data).length = data.length * 8 := by
  rw [bitsOf, length_spell, List.length_map]

/-- The bits of data that follow one another. -/
theorem bitsOf_append (first second : Bytes) :
    bitsOf (first ++ second) = bitsOf first ++ bitsOf second := by
  rw [bitsOf, List.map_append, spell_append, bitsOf, bitsOf]

/-- One turn appends one bit. -/
theorem extractBit_eq {pos : Nat} (inside : pos < b.length * 8) (value : Nat) :
    ∃ bit, (bitsOf b)[pos]? = some bit ∧ extractBit b value pos = .ok (2 * value + bit.toNat) := by
  have byteInside : pos / 8 < b.length := by omega
  have byte := List.getElem?_eq_getElem byteInside
  have digit : (b.map UInt8.toNat)[pos / 8]? = some b[pos / 8].toNat := by
    rw [List.getElem?_map, byte, Option.map_some]
  have bit := @getElem?_spell 8 _ _ _ (pos % 8) digit (Nat.mod_lt _ (by decide))
  rw [Nat.div_add_mod'] at bit
  refine ⟨_, bit, ?_⟩
  have mask := Nat.and_two_pow b[pos / 8].toNat (7 - pos % 8)
  have high : 0 < 2 ^ (7 - pos % 8) := by positivity
  rw [extractBit, byte]
  simp only [Nat.shiftLeft_eq, Nat.one_mul, pow_one, mask]
  change (if (b[pos / 8].toNat.testBit (7 - pos % 8)).toNat * 2 ^ (7 - pos % 8) ≠ 0 then _ else _) =
    Except.ok (2 * value + (b[pos / 8].toNat.testBit (7 - pos % 8)).toNat)
  cases b[pos / 8].toNat.testBit (7 - pos % 8) with
  | false => rw [Bool.toNat_false, Nat.zero_mul, if_neg (by simp), Nat.mul_comm, Nat.add_zero]
  | true => rw [Bool.toNat_true, Nat.one_mul, if_pos high.ne', Nat.mul_comm]

/-- **The loop appends the bits from a position on.** -/
theorem foldlM_extractBit (taken : List Bool) (start count : Nat)
    (inside : start + count ≤ b.length * 8) :
    (List.range' start count).foldlM (extractBit b) (number taken) =
      .ok (number (taken ++ ((bitsOf b).drop start).take count)) := by
  induction count generalizing taken start with
  | zero =>
      rw [List.take_zero, List.append_nil]
      rfl
  | succ count ih =>
      obtain ⟨bit, stands, turn⟩ := extractBit_eq (by omega : start < b.length * 8) (number taken)
      obtain ⟨bitInside, here⟩ := List.getElem?_eq_some_iff.mp stands
      have later := ih (taken ++ [bit]) (start + 1) (by omega)
      rw [number_concat] at later
      rw [List.range'_succ, List.foldlM_cons, turn, ok_bind, later,
        List.drop_eq_getElem_cons bitInside, here, List.take_succ_cons,
        List.append_assoc, List.singleton_append]

private theorem extractIndex_eq {bits n : Nat} (inside : (n + 1) * bits ≤ b.length * 8) :
    extractIndex bits b n = .ok (number (((bitsOf b).drop (n * bits)).take bits)) := by
  rw [Nat.succ_mul] at inside
  have count : (n + 1) * bits - n * bits = bits := by
    rw [Nat.succ_mul, Nat.add_sub_cancel_left]
  rw [extractIndex, count]
  exact foldlM_extractBit [] _ _ inside

end Bits

section Lengths

variable {library : Library} {entropy : Bytes}

/-- Five lengths, by the number of words of four bytes. -/
theorem mem_entropyLengths {length : Nat} :
    length ∈ entropyLengths ↔ ∃ quads, 4 ≤ quads ∧ quads ≤ 8 ∧ length = 4 * quads := by
  simp only [entropyLengths, List.mem_cons, List.not_mem_nil, or_false]
  constructor
  · intro listed
    exact ⟨length / 4, by omega, by omega, by omega⟩
  · rintro ⟨quads, low, high, rfl⟩
    omega

/-- The checksum takes its bits from the first byte of the digest. -/
theorem length_checkedBits {quads : Nat} (few : quads ≤ 8) (length : entropy.length = 4 * quads) :
    (checkedBits library entropy).length = 33 * quads := by
  rw [checkedBits, List.length_append, length_bitsOf, List.length_take, length_bitsOf,
    Vector.length_toList, length]
  omega

/-- What the encoder reads begins with the bits of the mnemonic. -/
theorem take_checkedBits {quads : Nat} (length : entropy.length = 4 * quads) :
    (bitsOf (entropy ++ (library.sha256 entropy).toList)).take (33 * quads) =
      checkedBits library entropy := by
  have whole : 33 * quads = (bitsOf entropy).length + entropy.length * 8 / 32 := by
    rw [length_bitsOf, length]
    omega
  rw [bitsOf_append, checkedBits, whole, List.take_length_add_append]

private theorem length_stream {quads : Nat} (length : entropy.length = 4 * quads) :
    (entropy ++ (library.sha256 entropy).toList).length = 4 * quads + 32 := by
  rw [List.length_append, Vector.length_toList, length]

/-- The groups of the mnemonic, where the encoder reads them. -/
theorem groups_checkedBits {quads : Nat} (few : quads ≤ 8) (length : entropy.length = 4 * quads) :
    groups 11 (checkedBits library entropy) = (List.range (3 * quads)).map fun i =>
      number (((bitsOf (entropy ++ (library.sha256 entropy).toList)).drop (i * 11)).take 11) := by
  have bits := @length_checkedBits library _ _ few length
  rw [groups, bits, show (33 * quads + 11 - 1) / 11 = 3 * quads by omega, groupsOf_eq_map]
  refine List.map_congr_left fun i member => ?_
  have before := List.mem_range.mp member
  have inside : ((checkedBits library entropy).drop (i * 11)).take 11 =
      ((bitsOf (entropy ++ (library.sha256 entropy).toList)).drop (i * 11)).take 11 := by
    rw [← take_checkedBits length, List.drop_take, List.take_take, Nat.min_eq_left (by omega)]
  rw [inside, fill, List.length_take, List.length_drop, length_bitsOf, length_stream length,
    Nat.min_eq_left (by omega), Nat.sub_self, List.replicate_zero, List.append_nil]

end Lengths

/-- A group that is extracted is the position of a word. -/
theorem extractIndex_wordAt (wordlist : Wordlist) {b : Bytes} {n : Nat}
    (inside : (n + 1) * 11 ≤ b.length * 8) :
    (extractIndex 11 b n >>= wordAt wordlist) =
      .ok (wordlist.word (number (((bitsOf b).drop (n * 11)).take 11))) := by
  have small := number_lt (((bitsOf b).drop (n * 11)).take 11)
  have short := List.length_take_le 11 ((bitsOf b).drop (n * 11))
  rw [extractIndex_eq inside, ok_bind,
    wordAt_eq (lt_of_lt_of_le small (Nat.pow_le_pow_right (by decide) short))]

/-- **The encoder writes the BIP39 mnemonic.** -/
theorem mnemonicFromBytes_eq (library : Library) {entropy : Bytes}
    (listed : entropy.length ∈ entropyLengths) (wordlist : Wordlist) :
    mnemonicFromBytes library entropy wordlist = .ok (mnemonicOf library entropy wordlist) := by
  obtain ⟨quads, low, high, length⟩ := mem_entropyLengths.mp listed
  have total : (entropy.length * 8 + entropy.length * 8 / 32) / 11 = 3 * quads := by
    rw [length]
    omega
  have each : ∀ i ∈ List.range (3 * quads),
      (extractIndex 11 (entropy ++ (library.sha256 entropy).toList) i >>= wordAt wordlist) =
        .ok (wordlist.word (number
          (((bitsOf (entropy ++ (library.sha256 entropy).toList)).drop (i * 11)).take 11))) := by
    intro i member
    have before := List.mem_range.mp member
    apply extractIndex_wordAt
    rw [length_stream length]
    omega
  rw [mnemonicFromBytes, if_neg (by omega)]
  simp only [total]
  rw [mapM_ok each, ok_bind, mnemonicOf, phrase, groups_checkedBits high length, List.map_map]
  rfl

end VaultSeed.Bip39
