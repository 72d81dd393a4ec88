import VaultSeed.Foundation.Accumulate
import VaultSeed.Foundation.Packed

/-! # Blocks side by side

Blocks of data with as many check elements each, where the later blocks have one element of data
more. They are put side by side: first the data, element after element of all blocks, then the check
elements. Every element has a place of its own (`Interleaving.place_inj`), so that each is where it
was written (`Interleaving.getD_writeBlocks`).
-/

namespace Interleaving

open Accumulate

/-- How many blocks there are, how many of these are short, and how long they are. -/
structure Shape where
  blocks : Nat
  short : Nat
  dataLen : Nat
  checkLen : Nat
  fewer : short ≤ blocks

namespace Shape

variable (shape : Shape)

/-- The length of the data of a block. -/
def dataLength (i : Nat) : Nat := shape.dataLen + if i < shape.short then 0 else 1

/-- The length of a block. -/
def length (i : Nat) : Nat := shape.dataLength i + shape.checkLen

/-- The length of the data of all blocks. -/
def dataTotal : Nat := shape.dataLen * shape.blocks + (shape.blocks - shape.short)

/-- The length of all blocks. -/
def total : Nat := shape.dataTotal + shape.checkLen * shape.blocks

/-- The place of an element of a block. -/
def place (i t : Nat) : Nat :=
  if t < shape.dataLen then t * shape.blocks + i
  else if t < shape.dataLength i then t * shape.blocks + i - shape.short
  else shape.dataTotal + ((t - shape.dataLength i) * shape.blocks + i)

variable {shape} {i t : Nat}

/-- The place of a data byte that all blocks have. -/
theorem place_data (less : t < shape.dataLen) : shape.place i t = t * shape.blocks + i :=
  if_pos less

/-- The place of the last data byte of a long block. -/
theorem place_last (long : shape.short ≤ i) :
    shape.place i shape.dataLen = shape.dataLen * shape.blocks + i - shape.short := by
  rw [place, if_neg (Nat.lt_irrefl _), dataLength, if_neg (Nat.not_lt.mpr long),
    if_pos (Nat.lt_succ_self _)]

/-- The place of a check byte. -/
theorem place_check (j : Nat) :
    shape.place i (shape.dataLength i + j) = shape.dataTotal + (j * shape.blocks + i) := by
  have past : ¬shape.dataLength i + j < shape.dataLen := by
    rw [dataLength]
    omega
  rw [place, if_neg past, if_neg (Nat.not_lt.mpr (Nat.le_add_right _ _)), Nat.add_sub_cancel_left]

/-- An element is one of the data that all blocks have, the last one of a long block, or one of
the check elements. -/
theorem cases_place (shape : Shape) (i t : Nat) :
    t < shape.dataLen ∨ t = shape.dataLen ∧ shape.short ≤ i ∨
      ∃ j, t = shape.dataLength i + j := by
  rcases Nat.lt_or_ge t shape.dataLen with less | more
  · exact .inl less
  rcases Nat.lt_or_ge t (shape.dataLength i) with last | past
  · refine .inr (.inl ?_)
    rw [dataLength] at last
    split at last <;> omega
  · exact .inr (.inr ⟨t - shape.dataLength i, (Nat.add_sub_cancel' past).symm⟩)

private theorem data_lt (less : t < shape.dataLen) (inside : i < shape.blocks) :
    t * shape.blocks + i < shape.dataLen * shape.blocks :=
  Packed.index_lt less inside

/-- **Every element has a place of its own.** -/
theorem place_inj {otherI otherT : Nat} (inside : i < shape.blocks)
    (otherInside : otherI < shape.blocks)
    (same : shape.place i t = shape.place otherI otherT) : i = otherI ∧ t = otherT := by
  have fewer := shape.fewer
  have total : shape.dataTotal =
    shape.dataLen * shape.blocks + (shape.blocks - shape.short) := rfl
  rcases shape.cases_place i t with less | ⟨rfl, long⟩ | ⟨j, rfl⟩ <;>
    rcases shape.cases_place otherI otherT with otherLess | ⟨rfl, otherLong⟩ | ⟨k, rfl⟩
  · rw [place_data less, place_data otherLess, Packed.index_eq_iff inside otherInside] at same
    exact ⟨same.2, same.1⟩
  · rw [place_data less, place_last otherLong] at same
    have bound := data_lt less inside
    omega
  · rw [place_data less, place_check] at same
    have bound := data_lt less inside
    omega
  · rw [place_last long, place_data otherLess] at same
    have bound := data_lt otherLess otherInside
    omega
  · rw [place_last long, place_last otherLong] at same
    exact ⟨by omega, rfl⟩
  · rw [place_last long, place_check] at same
    omega
  · rw [place_check, place_data otherLess] at same
    have bound := data_lt otherLess otherInside
    omega
  · rw [place_check, place_last otherLong] at same
    omega
  · rw [place_check, place_check, Nat.add_left_cancel_iff,
      Packed.index_eq_iff inside otherInside] at same
    obtain ⟨rfl, rfl⟩ := same
    exact ⟨rfl, rfl⟩

/-- Every byte of a block has a place. -/
theorem place_lt (inside : i < shape.blocks) (less : t < shape.length i) :
    shape.place i t < shape.total := by
  have fewer := shape.fewer
  have total : shape.total = shape.dataLen * shape.blocks + (shape.blocks - shape.short) +
    shape.checkLen * shape.blocks := rfl
  rcases shape.cases_place i t with data | ⟨rfl, long⟩ | ⟨j, rfl⟩
  · have bound := data_lt data inside
    rw [place_data data]
    omega
  · rw [place_last long]
    omega
  · have check : j < shape.checkLen := Nat.lt_of_add_lt_add_left less
    have bound := Packed.index_lt check inside
    rw [place_check, total, dataTotal]
    omega

end Shape

/-- Write a block, element after element. -/
def writeBlock {α : Type} (shape : Shape) (element : Nat → Nat → α) (result : List α) (i : Nat) :
    List α :=
  (List.range (shape.length i)).foldl (fun result t => result.set (shape.place i t) (element i t))
    result

/-- Write blocks, one after the other. -/
def writeBlocks {α : Type} (shape : Shape) (element : Nat → Nat → α) (result : List α) : List α :=
  (List.range shape.blocks).foldl (writeBlock shape element) result

section Write

variable {α : Type} {shape : Shape} {element : Nat → Nat → α} {result : List α} {default : α}

private theorem getD_foldl_set_of_ne (value : Nat → α) (place : Nat → Nat) (count index : Nat)
    (differ : ∀ t < count, index ≠ place t) :
    ((List.range count).foldl (fun result t => result.set (place t) (value t)) result).getD index
      default = result.getD index default := by
  induction count with
  | zero => rfl
  | succ count ih =>
      rw [List.range_succ, List.foldl_append, List.foldl_cons, List.foldl_nil,
        List.getD_eq_getElem?_getD, List.getElem?_set_ne
          (differ count (Nat.lt_succ_self count)).symm,
        ← List.getD_eq_getElem?_getD, ih fun t less => differ t (Nat.lt_succ_of_lt less)]

private theorem length_writeBlock (i : Nat) :
    (writeBlock shape element result i).length = result.length :=
  length_foldl_set _ _ _ _

/-- A block is written where its places are. -/
theorem getD_writeBlock {i t : Nat} (inside : i < shape.blocks) (less : t < shape.length i)
    (fits : result.length = shape.total) :
    (writeBlock shape element result i).getD (shape.place i t) default = element i t := by
  have turns : ∀ count ≤ shape.length i, t < count → ((List.range count).foldl
      (fun result t => result.set (shape.place i t) (element i t)) result).getD (shape.place i t)
        default = element i t := by
    intro count bound before
    induction count with
    | zero => cases before
    | succ count ih =>
        have place := Shape.place_lt inside bound
        rw [List.range_succ, List.foldl_append, List.foldl_cons, List.foldl_nil,
          getD_set _ _ _ _ _ (by rw [length_foldl_set, fits]; exact place)]
        split
        · next same => rw [(Shape.place_inj inside inside same).2]
        · next differ =>
            refine ih (Nat.le_of_succ_le bound) (Nat.lt_of_le_of_ne (Nat.le_of_lt_succ before) ?_)
            rintro rfl
            exact differ rfl
  exact turns _ (Nat.le_refl _) less

private theorem getD_writeBlock_of_ne {i otherI t : Nat} (inside : i < shape.blocks)
    (otherInside : otherI < shape.blocks) (differ : otherI ≠ i) :
    (writeBlock shape element result i).getD (shape.place otherI t) default =
      result.getD (shape.place otherI t) default :=
  getD_foldl_set_of_ne _ _ _ _ fun _ _ same => differ (Shape.place_inj otherInside inside same).1

/-- **Blocks side by side**: every element is where it was written. -/
theorem getD_writeBlocks {i t : Nat} (inside : i < shape.blocks) (less : t < shape.length i)
    (fits : result.length = shape.total) :
    (writeBlocks shape element result).getD (shape.place i t) default = element i t := by
  have turns : ∀ count ≤ shape.blocks,
      ((List.range count).foldl (writeBlock shape element) result).length = shape.total ∧
        (i < count → ((List.range count).foldl (writeBlock shape element) result).getD
          (shape.place i t) default = element i t) := by
    intro count bound
    induction count with
    | zero => exact ⟨fits, fun before => absurd before (Nat.not_lt_zero i)⟩
    | succ count ih =>
        obtain ⟨length, held⟩ := ih (Nat.le_of_succ_le bound)
        rw [List.range_succ, List.foldl_append, List.foldl_cons, List.foldl_nil]
        refine ⟨(length_writeBlock count).trans length, fun before => ?_⟩
        rcases Nat.lt_succ_iff_lt_or_eq.mp before with earlier | rfl
        · rw [getD_writeBlock_of_ne bound inside (Nat.ne_of_lt earlier), held earlier]
        · exact getD_writeBlock inside less length
  exact (turns _ (Nat.le_refl _)).2 inside

end Write

end Interleaving
