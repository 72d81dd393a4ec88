import VaultSeed.Qrcodegen.Codewords
import VaultSeed.Quirc.Reading

/-! # Putting the blocks apart

`codestream_ecc` of `omv/img/qrcode.c` gathers the blocks that `addEccAndInterleave` of
`qrcodegen.c` put side by side. It looks for the last data byte of a long block as if the short
blocks had one too, so that this byte has to be corrected. With as few wrong codewords as can be
corrected then, the data is what was encoded (`VaultSeed.Quirc.codestreamEcc_eq`).
-/

namespace VaultSeed.Quirc

open Interleaving Qrcodegen

/-- The level as it is in the format. -/
def levelBits (ecl : Ecc) : Nat := [1, 0, 3, 2].getD ecl.toNat 0

/-- What the tables of both sides are relied on for. -/
structure Agreed (version : Nat) (ecl : Ecc) : Prop where
  params : (versionInfo version).ecc.getD (levelBits ecl) ⟨0, 0, 0⟩ =
    ⟨shortBlockDataLen version ecl + blockEccLen version ecl, shortBlockDataLen version ecl,
      numShortBlocks version ecl⟩
  long : lbCount (versionInfo version)
    ⟨shortBlockDataLen version ecl + blockEccLen version ecl, shortBlockDataLen version ecl,
      numShortBlocks version ecl⟩ = numBlocks version ecl - numShortBlocks version ecl

private theorem agreed_tables : ∀ version ≤ 20, 1 ≤ version →
    ∀ ecl ∈ [Ecc.low, Ecc.medium, Ecc.quartile, Ecc.high],
      (versionInfo version).ecc.getD (levelBits ecl) ⟨0, 0, 0⟩ =
        ⟨shortBlockDataLen version ecl + blockEccLen version ecl, shortBlockDataLen version ecl,
          numShortBlocks version ecl⟩ ∧
      lbCount (versionInfo version)
        ⟨shortBlockDataLen version ecl + blockEccLen version ecl, shortBlockDataLen version ecl,
          numShortBlocks version ecl⟩ = numBlocks version ecl - numShortBlocks version ecl := by
  decide +kernel

private theorem agreed {version : Nat} (positive : 1 ≤ version) (most : version ≤ 20) (ecl : Ecc) :
    Agreed version ecl := by
  obtain ⟨params, long⟩ := agreed_tables version most positive ecl (by cases ecl <;> decide)
  exact ⟨params, long⟩

/-- **A block with its remainder** is found again from every block with at most half as many wrong
bytes as the remainder has. -/
theorem correctBlock_append (data received : List UInt8) (degree ns : Nat) (positive : 0 < degree)
    (small : degree < maxPoly) (short : data.length + degree ≤ 255)
    (length : received.length = data.length + degree)
    (few : wrongBytes received (data ++ reedSolomonComputeRemainder data
      (reedSolomonComputeDivisor degree) degree) (data.length + degree) * 2 ≤ degree) :
    correctBlock received ⟨data.length + degree, data.length, ns⟩ = .ok
      (data ++ reedSolomonComputeRemainder data (reedSolomonComputeDivisor degree) degree) := by
  have check : data.length + degree - data.length = degree := Nat.add_sub_cancel_left _ _
  refine correctBlock_eq length ?_ ?_ short ?_ ?_
  · rw [List.length_append, length_reedSolomonComputeRemainder positive]
  · dsimp only
    rw [check]
    exact codeword_append positive data
  · dsimp only
    rw [check]
    exact small
  · dsimp only
    rw [check]
    exact few

/-- Three wrong bytes of ten. -/
theorem correctBlock_append_three :
    correctBlock ([9, 9, 9] ++ reedSolomonComputeRemainder [1, 2, 3] (reedSolomonComputeDivisor 7)
      7)
        ⟨[1, 2, 3].length + 7, [1, 2, 3].length, 1⟩ =
      .ok ([1, 2, 3] ++ reedSolomonComputeRemainder [1, 2, 3] (reedSolomonComputeDivisor 7) 7) :=
  correctBlock_append [1, 2, 3]
    ([9, 9, 9] ++ reedSolomonComputeRemainder [1, 2, 3] (reedSolomonComputeDivisor 7) 7) 7 1
    (by decide) (by decide) (by decide) (by decide +kernel) (by decide +kernel)

section Blocks

variable {version : Nat} {ecl : Ecc} {raw data : List UInt8} {i : Nat}

/-- The parameters of a block, by its shape. -/
theorem blockParams_eq : blockParams ⟨shortBlockDataLen version ecl + blockEccLen version ecl,
      shortBlockDataLen version ecl, numShortBlocks version ecl⟩ i =
    ⟨(shape version ecl).length i, (shape version ecl).dataLength i,
      numShortBlocks version ecl⟩ := by
  rw [blockParams, Shape.length, Shape.dataLength]
  change (if i < numShortBlocks version ecl then _ else _) = RsParams.mk
    (shortBlockDataLen version ecl + (if i < numShortBlocks version ecl then 0 else 1) +
      blockEccLen version ecl)
    (shortBlockDataLen version ecl + if i < numShortBlocks version ecl then 0 else 1) _
  split
  · rfl
  · rw [Nat.add_right_comm]

/-- A block as it is gathered. -/
def gathered (version : Nat) (ecl : Ecc) (raw : List UInt8) (i : Nat) : List UInt8 :=
  gatherBlock raw (numBlocks version ecl) (shape version ecl).dataTotal
    ⟨(shape version ecl).length i, (shape version ecl).dataLength i, numShortBlocks version ecl⟩ i

private theorem length_gathered : (gathered version ecl raw i).length =
    (shape version ecl).length i := by
  simp [gathered, gatherBlock, Shape.length]

/-- A block is gathered from its places, but for the last data byte of a long one. -/
theorem getD_gathered {t : Nat} (less : t < (shape version ecl).length i)
    (placed : ¬((shape version ecl).short ≤ i ∧ t = (shape version ecl).dataLen)) :
    (gathered version ecl raw i).getD t 0 = raw.getD ((shape version ecl).place i t) 0 := by
  have rows : ((List.range ((shape version ecl).dataLength i)).map fun j =>
      raw.getD (j * numBlocks version ecl + i) 0).length = (shape version ecl).dataLength i := by
    rw [List.length_map, List.length_range]
  have total : (shape version ecl).length i - (shape version ecl).dataLength i =
      blockEccLen version ecl := Nat.add_sub_cancel_left _ _
  rw [gathered, gatherBlock]
  dsimp only
  rw [total]
  rcases (shape version ecl).cases_place i t with before | ⟨last, long⟩ | ⟨j, rfl⟩
  · have inData : t < (shape version ecl).dataLength i :=
      Nat.lt_of_lt_of_le before (Nat.le_add_right _ _)
    rw [List.getD_append _ _ _ _ (rows.symm ▸ inData),
      List.getD_eq_getElem _ _ (rows.symm ▸ inData), List.getElem_map, List.getElem_range,
        Shape.place_data before]
    rfl
  · exact absurd ⟨long, last⟩ placed
  · have inCheck : j < blockEccLen version ecl := by
      rw [Shape.length] at less
      exact Nat.lt_of_add_lt_add_left less
    rw [List.getD_append_right _ _ _ _ (rows.le.trans (Nat.le_add_right _ _)), rows,
      Nat.add_sub_cancel_left,
      List.getD_eq_getElem _ _ (by rwa [List.length_map, List.length_range]), List.getElem_map,
      List.getElem_range, Shape.place_check, Nat.add_assoc]
    rfl

/-- The codewords of a block that the correction has to change: the wrong ones, and the last data
byte of a long block. -/
def wrongCodewords (version : Nat) (ecl : Ecc) (raw sent : List UInt8) (i : Nat) : Nat :=
  ((Finset.range ((shape version ecl).length i)).filter fun t =>
    (shape version ecl).short ≤ i ∧ t = (shape version ecl).dataLen ∨
      raw.getD ((shape version ecl).place i t) 0 ≠ sent.getD ((shape version ecl).place i t) 0).card

private theorem wrongBytes_gathered (layout : Layout version ecl)
    (length : data.length = getNumDataCodewords version ecl) (inside : i < numBlocks version ecl) :
    wrongBytes (gathered version ecl raw i) (sentBlock data version ecl i)
        ((shape version ecl).length i) ≤
      wrongCodewords version ecl raw (addEccAndInterleave data version ecl) i := by
  refine Finset.card_le_card fun t member => ?_
  rw [Finset.mem_filter, Finset.mem_range] at member ⊢
  obtain ⟨less, wrong⟩ := member
  refine ⟨less, or_iff_not_imp_left.mpr fun placed => ?_⟩
  rwa [getD_gathered less placed, ← getD_addEccAndInterleave layout length inside less] at wrong

/-- **A block is corrected** to the one that was sent. -/
theorem correctBlock_gathered (layout : Layout version ecl)
    (length : data.length = getNumDataCodewords version ecl) (inside : i < numBlocks version ecl)
    (few : wrongCodewords version ecl raw (addEccAndInterleave data version ecl) i * 2 ≤
      blockEccLen version ecl) :
    correctBlock (gathered version ecl raw i)
        ⟨(shape version ecl).length i, (shape version ecl).dataLength i,
          numShortBlocks version ecl⟩ = .ok (sentBlock data version ecl i) := by
  have check : (shape version ecl).length i - (shape version ecl).dataLength i =
      blockEccLen version ecl := Nat.add_sub_cancel_left _ _
  have small := layout.blockSmall
  refine correctBlock_eq length_gathered (length_sentBlock layout length inside) ?_ ?_ ?_ ?_
  · dsimp only
    rw [check]
    exact codeword_append layout.checkPositive _
  · dsimp only
    rw [Shape.length, Shape.dataLength]
    change _ + blockEccLen version ecl ≤ 255
    split <;> omega
  · dsimp only
    rw [check]
    exact Nat.lt_of_le_of_lt layout.checkSmall (by decide)
  · dsimp only
    rw [check]
    exact (Nat.mul_le_mul_right 2 (wrongBytes_gathered layout length inside)).trans few

/-- **The data of the blocks** is what was encoded, when no block has more wrong codewords than
can be corrected. -/
theorem codestreamEcc_eq (positive : 1 ≤ version) (most : version ≤ 20)
    (length : data.length = getNumDataCodewords version ecl)
    (few : ∀ i < numBlocks version ecl,
      wrongCodewords version ecl raw (addEccAndInterleave data version ecl) i * 2 ≤
        blockEccLen version ecl) :
    codestreamEcc version (levelBits ecl) raw = .ok data := by
  have known := layout positive (Nat.le_trans most (by decide)) ecl
  obtain ⟨params, long⟩ := agreed positive most ecl
  have blocks : numBlocks version ecl - numShortBlocks version ecl + numShortBlocks version ecl =
      numBlocks version ecl := Nat.sub_add_cancel (shape version ecl).fewer
  have offset : shortBlockDataLen version ecl * numBlocks version ecl +
      (numBlocks version ecl - numShortBlocks version ecl) = (shape version ecl).dataTotal := rfl
  have rounds : ∀ count ≤ numBlocks version ecl, (List.range count).foldlM
      (codestreamTurn raw (numBlocks version ecl) (shape version ecl).dataTotal
        ⟨shortBlockDataLen version ecl + blockEccLen version ecl, shortBlockDataLen version ecl,
          numShortBlocks version ecl⟩) [] =
        Except.ok (data.take (blockOffset version ecl count)) := by
    intro count bound
    induction count with
    | zero => rfl
    | succ count ih =>
        have dataPart : (sentBlock data version ecl count).take
            ((shape version ecl).dataLength count) = dataBlock data version ecl count := by
          have dataLength : (dataBlock data version ecl count).length =
            (shape version ecl).dataLength count := length_dataBlock known length bound
          rw [sentBlock, ← dataLength, List.take_left]
        have corrected := correctBlock_gathered known length bound (few count bound)
        rw [gathered] at corrected
        rw [List.range_succ, List.foldlM_append, ih (Nat.le_of_succ_le bound), blockOffset_succ,
          List.take_add]
        change (List.foldlM _ _ [count] : Except DecodeError (List UInt8)) = _
        rw [List.foldlM_cons, codestreamTurn, blockParams_eq]
        dsimp only
        rw [show correctBlock (gatherBlock raw _ _ _ count) _ = _ from corrected, Except.map,
          dataPart]
        rfl
  rw [codestreamEcc, params, long, blocks, offset, rounds _ (Nat.le_refl _),
    blockOffset_blocks known, ← length,
    List.take_length]

end Blocks

end VaultSeed.Quirc
