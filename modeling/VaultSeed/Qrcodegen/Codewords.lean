import VaultSeed.Foundation.Interleaving
import VaultSeed.Qrcodegen.Capacity
import VaultSeed.Qrcodegen.ReedSolomon

/-! # Codewords of a code

`addEccAndInterleave` of `qrcodegen.c` splits the data into blocks, appends the remainder to each
and puts them side by side (`VaultSeed.Qrcodegen.getD_addEccAndInterleave`).
-/

namespace VaultSeed.Qrcodegen

open Accumulate Interleaving

/-- `ECC_CODEWORDS_PER_BLOCK`. -/
def eccCodewordsPerBlock : List (List Int) := [
    [-1, 7, 10, 15, 20, 26, 18, 20, 24, 30, 18, 20, 24, 26, 30, 22, 24, 28, 30, 28, 28, 28, 28, 30,
      30, 26, 28, 30, 30, 30, 30, 30, 30, 30, 30, 30, 30, 30, 30, 30, 30],
    [-1, 10, 16, 26, 18, 24, 16, 18, 22, 22, 26, 30, 22, 22, 24, 24, 28, 28, 26, 26, 26, 26, 28, 28,
      28, 28, 28, 28, 28, 28, 28, 28, 28, 28, 28, 28, 28, 28, 28, 28, 28],
    [-1, 13, 22, 18, 26, 18, 24, 18, 22, 20, 24, 28, 26, 24, 20, 30, 24, 28, 28, 26, 30, 28, 30, 30,
      30, 30, 28, 30, 30, 30, 30, 30, 30, 30, 30, 30, 30, 30, 30, 30, 30],
    [-1, 17, 28, 22, 16, 22, 28, 26, 26, 24, 28, 24, 28, 22, 24, 24, 30, 28, 28, 26, 28, 30, 24, 30,
      30, 30, 30, 30, 30, 30, 30, 30, 30, 30, 30, 30, 30, 30, 30, 30, 30]]

/-- `NUM_ERROR_CORRECTION_BLOCKS`. -/
def numErrorCorrectionBlocks : List (List Int) := [
    [-1, 1, 1, 1, 1, 1, 2, 2, 2, 2, 4, 4, 4, 4, 4, 6, 6, 6, 6, 7, 8, 8, 9, 9, 10, 12, 12, 12, 13,
      14, 15, 16, 17, 18, 19, 19, 20, 21, 22, 24, 25],
    [-1, 1, 1, 1, 2, 2, 4, 4, 4, 5, 5, 5, 8, 9, 9, 10, 10, 11, 13, 14, 16, 17, 17, 18, 20, 21, 23,
      25, 26, 28, 29, 31, 33, 35, 37, 38, 40, 43, 45, 47, 49],
    [-1, 1, 1, 2, 2, 4, 4, 6, 6, 8, 8, 8, 10, 12, 16, 12, 17, 16, 18, 21, 20, 23, 23, 25, 27, 29,
      34, 34, 35, 38, 40, 43, 45, 48, 51, 53, 56, 59, 62, 65, 68],
    [-1, 1, 1, 2, 4, 4, 4, 5, 6, 8, 8, 11, 11, 16, 16, 18, 16, 19, 21, 25, 25, 25, 34, 30, 32, 35,
      37, 40, 42, 45, 48, 51, 54, 57, 60, 63, 66, 70, 74, 77, 81]]

/-- `addEccAndInterleave`: `blockEccLen`. -/
def blockEccLen (version : Nat) (ecl : Ecc) : Nat :=
  ((eccCodewordsPerBlock.getD ecl.toNat []).getD version 0).toNat

/-- `addEccAndInterleave`: `numBlocks`. -/
def numBlocks (version : Nat) (ecl : Ecc) : Nat :=
  ((numErrorCorrectionBlocks.getD ecl.toNat []).getD version 0).toNat

/-- `addEccAndInterleave`: `rawCodewords`. -/
def rawCodewords (version : Nat) : Nat := getNumRawDataModules version / 8

/-- `getNumDataCodewords`. -/
def getNumDataCodewords (version : Nat) (ecl : Ecc) : Nat :=
  getNumRawDataModules version / 8 - blockEccLen version ecl * numBlocks version ecl

/-- `addEccAndInterleave`: `numShortBlocks`. -/
def numShortBlocks (version : Nat) (ecl : Ecc) : Nat :=
  numBlocks version ecl - rawCodewords version % numBlocks version ecl

/-- `addEccAndInterleave`: `shortBlockDataLen`. -/
def shortBlockDataLen (version : Nat) (ecl : Ecc) : Nat :=
  rawCodewords version / numBlocks version ecl - blockEccLen version ecl

/-- `addEccAndInterleave`: `datLen`. -/
def datLen (version : Nat) (ecl : Ecc) (i : Nat) : Nat :=
  shortBlockDataLen version ecl + if i < numShortBlocks version ecl then 0 else 1

/-- `addEccAndInterleave`, a turn of the loop: `result` and what `dat` points to. -/
def interleaveTurn (version : Nat) (ecl : Ecc) (found : List UInt8 × List UInt8) (i : Nat) :
    List UInt8 × List UInt8 :=
  let rsdiv := reedSolomonComputeDivisor (blockEccLen version ecl)
  let dat := found.2.take (datLen version ecl i)
  let ecc := reedSolomonComputeRemainder dat rsdiv (blockEccLen version ecl)
  let result := (List.range (datLen version ecl i)).foldl (fun result j =>
    let k := i + j * numBlocks version ecl -
      if j = shortBlockDataLen version ecl then numShortBlocks version ecl else 0
    result.set k (dat.getD j 0)) found.1
  let result := (List.range (blockEccLen version ecl)).foldl (fun result j =>
    let k := getNumDataCodewords version ecl + i + j * numBlocks version ecl
    result.set k (ecc.getD j 0)) result
  (result, found.2.drop (datLen version ecl i))

/-- `addEccAndInterleave`: `result[0 : rawCodewords]`. -/
def addEccAndInterleave (data : List UInt8) (version : Nat) (ecl : Ecc) : List UInt8 :=
  ((List.range (numBlocks version ecl)).foldl (interleaveTurn version ecl)
    (List.replicate (rawCodewords version) 0, data)).1

section Blocks

variable {version : Nat} {ecl : Ecc}

/-- The blocks of a version and a level. -/
def shape (version : Nat) (ecl : Ecc) : Shape where
  blocks := numBlocks version ecl
  short := numShortBlocks version ecl
  dataLen := shortBlockDataLen version ecl
  checkLen := blockEccLen version ecl
  fewer := Nat.sub_le _ _

/-- What the tables are relied on for. -/
structure Layout (version : Nat) (ecl : Ecc) : Prop where
  total : (shape version ecl).total = rawCodewords version
  dataTotal : (shape version ecl).dataTotal = getNumDataCodewords version ecl
  checkPositive : 0 < blockEccLen version ecl
  checkSmall : blockEccLen version ecl ≤ 30
  blockSmall : (shape version ecl).dataLen + 1 + blockEccLen version ecl ≤ 255
  someBlocks : 0 < numBlocks version ecl

instance (version : Nat) (ecl : Ecc) : Decidable (Layout version ecl) :=
  decidable_of_iff ((shape version ecl).total = rawCodewords version ∧
    (shape version ecl).dataTotal = getNumDataCodewords version ecl ∧
    0 < blockEccLen version ecl ∧ blockEccLen version ecl ≤ 30 ∧
    (shape version ecl).dataLen + 1 + blockEccLen version ecl ≤ 255 ∧ 0 < numBlocks version ecl)
    (by
      constructor
      · rintro ⟨total, dataTotal, positive, small, block, blocks⟩
        exact ⟨total, dataTotal, positive, small, block, blocks⟩
      · intro layout
        exact ⟨layout.total, layout.dataTotal, layout.checkPositive, layout.checkSmall,
          layout.blockSmall, layout.someBlocks⟩)

private theorem layout_tables : ∀ version ≤ 40, 1 ≤ version →
    ∀ ecl ∈ [Ecc.low, Ecc.medium, Ecc.quartile, Ecc.high], Layout version ecl := by
  decide +kernel

/-- Every version has a layout. -/
theorem layout (positive : 1 ≤ version) (most : version ≤ 40) (ecl : Ecc) : Layout version ecl :=
  layout_tables version most positive ecl (by cases ecl <;> decide)

/-- Where the data of a block begins. -/
def blockOffset (version : Nat) (ecl : Ecc) (i : Nat) : Nat :=
  ((List.range i).map (datLen version ecl)).sum

/-- The data of a block. -/
def dataBlock (data : List UInt8) (version : Nat) (ecl : Ecc) (i : Nat) : List UInt8 :=
  (data.drop (blockOffset version ecl i)).take (datLen version ecl i)

/-- A block with its remainder. -/
def sentBlock (data : List UInt8) (version : Nat) (ecl : Ecc) (i : Nat) : List UInt8 :=
  dataBlock data version ecl i ++ reedSolomonComputeRemainder (dataBlock data version ecl i)
    (reedSolomonComputeDivisor (blockEccLen version ecl)) (blockEccLen version ecl)

/-- A block begins where the one before it ends. -/
theorem blockOffset_succ (i : Nat) :
    blockOffset version ecl (i + 1) = blockOffset version ecl i + datLen version ecl i := by
  rw [blockOffset, List.range_succ, List.map_append, List.sum_append, List.map_singleton,
    List.sum_singleton, blockOffset]

private theorem blockOffset_eq (i : Nat) : blockOffset version ecl i =
    i * shortBlockDataLen version ecl + (i - numShortBlocks version ecl) := by
  induction i with
  | zero => simp [blockOffset]
  | succ i ih =>
      rw [blockOffset_succ, ih, datLen, Nat.succ_mul]
      split <;> omega

/-- The blocks take all data codewords. -/
theorem blockOffset_blocks (layout : Layout version ecl) :
    blockOffset version ecl (numBlocks version ecl) = getNumDataCodewords version ecl := by
  rw [blockOffset_eq, ← layout.dataTotal, Nat.mul_comm]
  rfl

private theorem blockOffset_le {first second : Nat} (le : first ≤ second) :
    blockOffset version ecl first ≤ blockOffset version ecl second := by
  rw [blockOffset_eq, blockOffset_eq]
  have product := Nat.mul_le_mul_right (shortBlockDataLen version ecl) le
  omega

variable {data : List UInt8}

/-- The data of a block are as long as the layout says. -/
theorem length_dataBlock (layout : Layout version ecl)
    (length : data.length = getNumDataCodewords version ecl) {i : Nat}
    (inside : i < numBlocks version ecl) :
    (dataBlock data version ecl i).length = datLen version ecl i := by
  have bound : blockOffset version ecl (i + 1) ≤ getNumDataCodewords version ecl :=
    (blockOffset_le inside).trans_eq (blockOffset_blocks layout)
  rw [blockOffset_succ] at bound
  rw [dataBlock, List.length_take, List.length_drop, length]
  omega

/-- A block with its check bytes is as long as the layout says. -/
theorem length_sentBlock (layout : Layout version ecl)
    (length : data.length = getNumDataCodewords version ecl) {i : Nat}
    (inside : i < numBlocks version ecl) :
    (sentBlock data version ecl i).length = (shape version ecl).length i := by
  rw [sentBlock, List.length_append, length_dataBlock layout length inside,
    length_reedSolomonComputeRemainder layout.checkPositive]
  rfl

/-- A turn of the loop writes a block. -/
theorem interleaveTurn_eq (layout : Layout version ecl)
    (length : data.length = getNumDataCodewords version ecl) (result : List UInt8) {i : Nat}
    (inside : i < numBlocks version ecl) :
    interleaveTurn version ecl (result, data.drop (blockOffset version ecl i)) i =
      (writeBlock (shape version ecl) (fun i t => (sentBlock data version ecl i).getD t 0) result i,
        data.drop (blockOffset version ecl (i + 1))) := by
  have dataLength := length_dataBlock layout length inside
  have split : List.range ((shape version ecl).length i) = List.range (datLen version ecl i) ++
      (List.range (blockEccLen version ecl)).map (datLen version ecl i + ·) := List.range_add
  rw [interleaveTurn, writeBlock, split, List.foldl_append, List.foldl_map]
  dsimp only
  rw [List.drop_drop, ← blockOffset_succ]
  refine congrArg (·, _) ?_
  have copied : (List.range (datLen version ecl i)).foldl (fun result j => result.set
      (i + j * numBlocks version ecl -
        if j = shortBlockDataLen version ecl then numShortBlocks version ecl else 0)
      ((dataBlock data version ecl i).getD j 0)) result =
      (List.range (datLen version ecl i)).foldl (fun result t =>
        result.set ((shape version ecl).place i t) ((sentBlock data version ecl i).getD t 0))
        result := by
    refine List.foldl_ext _ _ _ fun result j member => ?_
    have less := List.mem_range.mp member
    have value : (sentBlock data version ecl i).getD j 0 =
        (dataBlock data version ecl i).getD j 0 :=
      List.getD_append _ _ _ _ (dataLength ▸ less)
    have place : i + j * numBlocks version ecl -
        (if j = shortBlockDataLen version ecl then numShortBlocks version ecl else 0) =
        (shape version ecl).place i j := by
      rw [datLen] at less
      split
      · next last =>
          have long : (shape version ecl).short ≤ i := by
            split at less
            · omega
            · next past => exact Nat.not_lt.mp past
          rw [last]
          exact ((Shape.place_last long).trans (congrArg (· - _) (Nat.add_comm _ _))).symm
      · next other =>
          have short : j < (shape version ecl).dataLen := by
            change j < shortBlockDataLen version ecl
            split at less <;> omega
          exact ((Shape.place_data short).trans (Nat.add_comm _ _)).symm
    rw [value, place]
  rw [← copied]
  refine List.foldl_ext _ _ _ fun result j member => ?_
  have place : (shape version ecl).place i (datLen version ecl i + j) =
      getNumDataCodewords version ecl + i + j * numBlocks version ecl := by
    rw [← layout.dataTotal, Nat.add_assoc, Nat.add_comm i]
    exact Shape.place_check j
  have value : (sentBlock data version ecl i).getD (datLen version ecl i + j) 0 =
      (reedSolomonComputeRemainder (dataBlock data version ecl i)
        (reedSolomonComputeDivisor (blockEccLen version ecl)) (blockEccLen version ecl)).getD j
          0 := by
    rw [sentBlock, List.getD_append_right _ _ _ _ (by omega), dataLength, Nat.add_sub_cancel_left]
  rw [place, value]
  rfl

/-- **The blocks side by side**: each byte of a block is where the shape says. -/
theorem getD_addEccAndInterleave (layout : Layout version ecl)
    (length : data.length = getNumDataCodewords version ecl) {i t : Nat}
    (inside : i < numBlocks version ecl) (less : t < (shape version ecl).length i) :
    (addEccAndInterleave data version ecl).getD ((shape version ecl).place i t) 0 =
      (sentBlock data version ecl i).getD t 0 := by
  have rounds : ∀ count ≤ numBlocks version ecl, (List.range count).foldl
      (interleaveTurn version ecl) (List.replicate (rawCodewords version) 0, data) =
        ((List.range count).foldl (writeBlock (shape version ecl)
          fun i t => (sentBlock data version ecl i).getD t 0)
            (List.replicate (rawCodewords version) 0),
          data.drop (blockOffset version ecl count)) := by
    intro count bound
    induction count with
    | zero => rfl
    | succ count ih =>
        rw [List.range_succ, List.foldl_append, ih (Nat.le_of_succ_le bound), List.foldl_append]
        exact interleaveTurn_eq layout length _ bound
  rw [addEccAndInterleave, rounds _ (Nat.le_refl _)]
  exact getD_writeBlocks inside less (List.length_replicate.trans layout.total.symm)

end Blocks

end VaultSeed.Qrcodegen
