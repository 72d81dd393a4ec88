import VaultSeed.Qrcodegen.Drawing
import Mathlib.Algebra.BigOperators.Group.Finset.Basic
import Mathlib.Algebra.BigOperators.Group.Finset.Piecewise
import Mathlib.Algebra.BigOperators.Group.Finset.Sigma

/-! # The capacity of a version

The modules of a version that are not function modules are as many as `getNumRawDataModules` of
`qrcodegen.c` says (`VaultSeed.Qrcodegen.length_dataModules`): they are counted row by row, in the
bits of a number (`VaultSeed.Qrcodegen.testBit_rowMask`).
-/

namespace VaultSeed.Qrcodegen

open Painting

/-- `getNumRawDataModules`. -/
def getNumRawDataModules (ver : Nat) : Nat :=
  let result := (16 * ver + 128) * ver + 64
  if ver ≥ 2 then
    let numAlign := ver / 7 + 2
    let result := result - ((25 * numAlign - 10) * numAlign - 55)
    if ver ≥ 7 then result - 36 else result
  else result

/-- The modules of a version that are not function modules, in the order of the zigzag. -/
def dataModules (version : Nat) : List (Nat × Nat) :=
  (zigzag (side version)).filter fun cell => !functionModule version cell

/-- Some modules of a row, in the bits of a number. -/
def strip (left width : Nat) : Nat := (2 ^ width - 1) <<< left

/-- The row is one of those from the top on. -/
def inBand (top height y : Nat) : Bool := Nat.ble top y && Nat.blt y (top + height)

/-- The row of a rectangle, in the bits of a number. -/
def rectangleRow (left top width height y : Nat) : Nat :=
  bif inBand top height y then strip left width else 0

/-- The rows with alignment patterns, each with the modules of its patterns. -/
def alignmentRows (version : Nat) : List (Nat × Nat) :=
  (getAlignmentPatternPositions version).map fun row =>
    (row, ((alignmentPatterns version).filter fun center => center.2 == row).foldl
      (fun mask center => mask ||| strip (center.1 - 2) 5) 0)

/-- The function modules of a row, in the bits of a number. -/
def rowMask (rows : List (Nat × Nat)) (version y : Nat) : Nat :=
  let qrsize := side version
  let finders := 2 ^ 6 ||| rectangleRow 0 6 qrsize 1 y ||| rectangleRow 0 0 9 9 y |||
    rectangleRow (qrsize - 8) 0 8 9 y ||| rectangleRow 0 (qrsize - 8) 9 8 y
  let drawn := rows.foldl
    (fun mask row => mask ||| bif inBand (row.1 - 2) 5 y then row.2 else 0) finders
  if version ≥ 7 then
    drawn ||| rectangleRow (qrsize - 11) 0 3 6 y ||| rectangleRow 0 (qrsize - 11) 6 3 y
  else drawn

/-- How many of the low bits of a number are zero. -/
def whites : Nat → Nat → Nat
  | 0, _ => 0
  | count + 1, mask => (1 - mask % 2) + whites count (mask / 2)

/-- The zeros of rows one after the other; a row that is the last one again is not counted
again. -/
def tally (size : Nat) : List Nat → Nat → Nat → Nat → Nat
  | [], _, _, total => total
  | mask :: masks, last, count, total =>
    if mask = last then tally size masks last count (total + count)
    else tally size masks mask (whites size mask) (total + whites size mask)

/-- The rows of a version. -/
def whiteModules (version : Nat) : Nat :=
  tally (side version)
    ((List.range (side version)).map (rowMask (alignmentRows version) version)) 0
    (whites (side version) 0) 0

private theorem testBit_rectangleRow (left top width height x y : Nat) :
    (rectangleRow left top width height y).testBit x = rectangle left top width height (x, y) := by
  rw [rectangleRow, rectangle, Bool.cond_eq_ite, inBand]
  simp only [Bool.and_eq_true, Nat.ble_eq, Nat.blt_eq]
  split
  · next inside =>
      rw [strip, Nat.testBit_shiftLeft, Nat.testBit_two_pow_sub_one, ← Bool.decide_and,
        decide_eq_decide]
      omega
  · next outside =>
      rw [Nat.zero_testBit, eq_comm, decide_eq_false_iff_not]
      omega

private theorem testBit_foldl {ι : Type} (masks : ι → Nat) (items : List ι) (start x : Nat) :
    (items.foldl (fun mask item => mask ||| masks item) start).testBit x =
      (start.testBit x || items.any fun item => (masks item).testBit x) := by
  induction items generalizing start with
  | nil => exact (Bool.or_false _).symm
  | cons item items ih =>
      rw [List.foldl_cons, ih, Nat.testBit_or, List.any_cons, Bool.or_assoc]

private theorem mem_positions {version : Nat} {center : Nat × Nat}
    (member : center ∈ alignmentPatterns version) :
    center.2 ∈ getAlignmentPatternPositions version := by
  obtain ⟨i, -, inner⟩ := List.mem_flatMap.mp member
  obtain ⟨j, inside, drawn⟩ := List.mem_filterMap.mp inner
  split at drawn
  · cases drawn
  · obtain rfl := Option.some.inj drawn
    have less := List.mem_range.mp inside
    change (getAlignmentPatternPositions version).getD j 0 ∈ _
    rw [List.getD_eq_getElem _ _ less]
    exact List.getElem_mem less

/-- The rows with alignment patterns show them all. -/
theorem any_alignmentRows (version x y : Nat) :
    ((alignmentRows version).any fun row =>
      (bif inBand (row.1 - 2) 5 y then row.2 else 0).testBit x) =
    (alignmentPatterns version).any fun center =>
      rectangle (center.1 - 2) (center.2 - 2) 5 5 (x, y) := by
  simp only [← testBit_rectangleRow]
  rw [Bool.eq_iff_iff, List.any_eq_true, List.any_eq_true]
  constructor
  · rintro ⟨row, member, bit⟩
    obtain ⟨row, -, rfl⟩ := List.mem_map.mp member
    dsimp only at bit
    cases reached : inBand (row - 2) 5 y with
    | false =>
        rw [reached, cond_false, Nat.zero_testBit] at bit
        cases bit
    | true =>
        rw [reached, cond_true, testBit_foldl, Nat.zero_testBit, Bool.false_or,
          List.any_eq_true] at bit
        obtain ⟨center, member, bit⟩ := bit
        obtain ⟨drawn, same⟩ := List.mem_filter.mp member
        obtain rfl := beq_iff_eq.mp same
        refine ⟨center, drawn, ?_⟩
        rwa [rectangleRow, reached, cond_true]
  · rintro ⟨center, member, bit⟩
    refine ⟨_, List.mem_map.mpr ⟨center.2, mem_positions member, rfl⟩, ?_⟩
    cases reached : inBand (center.2 - 2) 5 y with
    | false =>
        rw [rectangleRow, reached, cond_false, Nat.zero_testBit] at bit
        cases bit
    | true =>
        rw [rectangleRow, reached, cond_true] at bit
        rw [cond_true, testBit_foldl, Nat.zero_testBit, Bool.false_or, List.any_eq_true]
        exact ⟨center, List.mem_filter.mpr ⟨member, beq_self_eq_true _⟩, bit⟩

/-- **The bits of a row** are its function modules. -/
theorem testBit_rowMask {version x y : Nat} (column : x < side version) :
    (rowMask (alignmentRows version) version y).testBit x = functionModule version (x, y) := by
  have timing : (2 ^ 6 : Nat).testBit x = (x == 6) := by
    rw [Nat.testBit_two_pow, Bool.eq_iff_iff, decide_eq_true_iff, beq_iff_eq, eq_comm]
  have row : rectangle 0 6 (side version) 1 (x, y) = (y == 6) := by
    rw [rectangle, Bool.eq_iff_iff, decide_eq_true_iff, beq_iff_eq]
    dsimp only
    omega
  rw [rowMask, functionModule]
  dsimp only
  by_cases large : version ≥ 7
  · rw [if_pos large, decide_eq_true large, Bool.true_and, Nat.testBit_or, Nat.testBit_or,
      testBit_foldl, any_alignmentRows, ← Bool.or_assoc]
    simp only [Nat.testBit_or, testBit_rectangleRow, timing, row]
  · rw [if_neg large, decide_eq_false large, Bool.false_and, Bool.or_false, testBit_foldl,
      any_alignmentRows]
    simp only [Nat.testBit_or, testBit_rectangleRow, timing, row]

private theorem tally_eq (size : Nat) (masks : List Nat) (last total : Nat) :
    tally size masks last (whites size last) total = total + (masks.map (whites size)).sum := by
  induction masks generalizing last total with
  | nil => rfl
  | cons mask masks ih =>
      rw [tally, List.map_cons, List.sum_cons, ← Nat.add_assoc]
      split
      · next same => rw [ih, same]
      · rw [ih]

private theorem whites_eq (count mask : Nat) :
    whites count mask = ∑ x ∈ Finset.range count, if mask.testBit x then 0 else 1 := by
  induction count generalizing mask with
  | zero => rfl
  | succ count ih =>
      rw [whites, ih, Finset.sum_range_succ', Nat.add_comm]
      congr 1
      · refine Finset.sum_congr rfl fun x _ => ?_
        rw [Nat.testBit_succ]
      · rw [Nat.testBit_zero]
        rcases Nat.mod_two_eq_zero_or_one mask with even | odd
        · simp [even]
        · simp [odd]

/-- The rows that are counted have as many zeros as the formula says. -/
theorem whiteModules_eq : ∀ version ≤ 40, 1 ≤ version →
    whiteModules version = getNumRawDataModules version := by
  decide +kernel

section Cover

/-- The columns of the zigzag: from an even column past the sixth, or an odd one before it, every
column but the sixth is in a pair. -/
theorem exists_mem_rights {fuel right x : Nat} (enough : right ≤ fuel)
    (even : right % 2 = 0 ∧ 6 ≤ right ∨ right % 2 = 1 ∧ right ≤ 5) (reached : x ≤ right)
    (differ : x ≠ 6) : ∃ value ∈ rights fuel right, x = value ∨ x + 1 = value := by
  induction fuel generalizing right with
  | zero => omega
  | succ fuel ih =>
      rw [rights, if_pos (by omega)]
      by_cases here : x = (if right = 6 then 5 else right) ∨ x + 1 = if right = 6 then 5 else right
      · exact ⟨_, List.mem_cons_self, here⟩
      · have later : ∃ value ∈ rights fuel ((if right = 6 then 5 else right) - 2),
            x = value ∨ x + 1 = value := by
          split at here
          · next six =>
              rw [if_pos six]
              exact ih (by omega) (by omega) (by omega)
          · next other =>
              rw [if_neg other]
              exact ih (by omega) (by omega) (by omega)
        obtain ⟨value, member, close⟩ := later
        exact ⟨value, List.mem_cons_of_mem _ member, close⟩

private theorem mem_zigzag {version : Nat} (positive : 1 ≤ version) {cell : Nat × Nat}
    (inside : (modules (side version)).inside cell) (differ : cell.1 ≠ 6) :
    cell ∈ zigzag (side version) := by
  obtain ⟨column, row⟩ := inside
  have sized : side version = version * 4 + 17 := rfl
  obtain ⟨right, member, close⟩ := exists_mem_rights (Nat.sub_le (side version) 1)
    (by omega) (by omega : cell.1 ≤ side version - 1) differ
  refine List.mem_flatMap.mpr ⟨right, member, ?_⟩
  have order : ∃ vert < side version,
      (if (right + 1) / 2 % 2 = 0 then side version - 1 - vert else vert) = cell.2 := by
    split
    · exact ⟨side version - 1 - cell.2, by omega, by omega⟩
    · exact ⟨cell.2, row, rfl⟩
  obtain ⟨vert, inRows, turn⟩ := order
  refine List.mem_flatMap.mpr ⟨vert, List.mem_range.mpr inRows, List.mem_map.mpr ?_⟩
  rcases close with same | next
  · exact ⟨0, by decide, Prod.ext same.symm turn⟩
  · refine ⟨1, by decide, Prod.ext ?_ turn⟩
    dsimp only
    omega

/-- No module comes twice. -/
theorem nodup_dataModules (version : Nat) : (dataModules version).Nodup :=
  (zigzag_spec (side version)).2.filter _

/-- **The capacity**: the modules that are not function modules. -/
theorem length_dataModules {version : Nat} (positive : 1 ≤ version) (most : version ≤ 40) :
    (dataModules version).length = getNumRawDataModules version := by
  obtain ⟨inside, -⟩ := zigzag_spec (side version)
  have cells : (dataModules version).toFinset =
      (Finset.range (side version) ×ˢ Finset.range (side version)).filter
        fun cell => functionModule version cell = false := by
    ext cell
    rw [List.mem_toFinset, dataModules, List.mem_filter, Bool.not_eq_true', Finset.mem_filter,
      Finset.mem_product, Finset.mem_range, Finset.mem_range]
    constructor
    · rintro ⟨member, white⟩
      exact ⟨inside cell member, white⟩
    · rintro ⟨within, white⟩
      refine ⟨mem_zigzag positive within fun six => ?_, white⟩
      have black : functionModule version cell = true := function_iff.mpr (.inl six)
      rw [black] at white
      cases white
  have counted : (dataModules version).length = ∑ y ∈ Finset.range (side version),
      ∑ x ∈ Finset.range (side version), if functionModule version (x, y) then 0 else 1 := by
    rw [← List.toFinset_card_of_nodup (nodup_dataModules version), cells, Finset.card_filter,
      Finset.sum_product_right]
    refine Finset.sum_congr rfl fun y _ => Finset.sum_congr rfl fun x _ => ?_
    cases functionModule version (x, y) <;> rfl
  rw [counted, ← whiteModules_eq version most positive, whiteModules, tally_eq, Nat.zero_add,
    List.map_map]
  change _ = ∑ y ∈ Finset.range (side version), _
  refine Finset.sum_congr rfl fun y _ => ?_
  rw [Function.comp_apply, whites_eq]
  refine Finset.sum_congr rfl fun x member => ?_
  rw [testBit_rowMask (Finset.mem_range.mp member)]

end Cover

end VaultSeed.Qrcodegen
