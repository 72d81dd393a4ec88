import VaultSeed.Foundation.Accumulate
import VaultSeed.Foundation.Painting
import Mathlib.Data.Nat.Bitwise

/-! # Modules of the generator

`qrcodegen.c` keeps the modules of a code in a buffer: the side in its first byte, then eight
modules to a byte. Setting one module changes no other (`VaultSeed.Qrcodegen.writes_setModule`),
filling a rectangle fills it (`VaultSeed.Qrcodegen.fills_fillRectangle`), and the function modules
of a version are those of `VaultSeed.Qrcodegen.functionModule`.
-/

namespace VaultSeed.Qrcodegen

open Accumulate Painting

/-- `qrcodegen_getSize`. -/
def getSize (qrcode : List UInt8) : Nat := (qrcode.getD 0 0).toNat

/-- `getBit`. -/
def getBit (x i : Nat) : Bool := x.testBit i

/-- `getModule`. -/
def getModule (qrcode : List UInt8) (x y : Nat) : Bool :=
  let index := y * getSize qrcode + x
  getBit (qrcode.getD (index / 8 + 1) 0).toNat (index % 8)

/-- `setModule`. -/
def setModule (qrcode : List UInt8) (x y : Nat) (isBlack : Bool) : List UInt8 :=
  let index := y * getSize qrcode + x
  let bitIndex := index % 8
  let byteIndex := index / 8 + 1
  let byte := (qrcode.getD byteIndex 0).toNat
  qrcode.set byteIndex (UInt8.ofNat
    (if isBlack then byte ||| 1 <<< bitIndex else byte &&& (1 <<< bitIndex ^^^ 0xFF)))

/-- `setModuleBounded`. -/
def setModuleBounded (qrcode : List UInt8) (x y : Int) (isBlack : Bool) : List UInt8 :=
  let qrsize : Int := getSize qrcode
  if 0 ≤ x ∧ x < qrsize ∧ 0 ≤ y ∧ y < qrsize then setModule qrcode x.toNat y.toNat isBlack
  else qrcode

/-- `fillRectangle`. -/
def fillRectangle (left top width height : Nat) (qrcode : List UInt8) : List UInt8 :=
  (List.range height).foldl (fun qrcode dy =>
    (List.range width).foldl (fun qrcode dx => setModule qrcode (left + dx) (top + dy) true) qrcode)
    qrcode

/-- `getAlignmentPatternPositions`: as many as `numAlign`. -/
def getAlignmentPatternPositions (version : Nat) : List Nat :=
  if version = 1 then []
  else
    let numAlign := version / 7 + 2
    let step := if version = 32 then 26 else
      (version * 4 + numAlign * 2 + 1) / (numAlign * 2 - 2) * 2
    ((List.range (numAlign - 1)).foldl
      (fun result turn => result.set (numAlign - 1 - turn) (version * 4 + 10 - step * turn))
      (List.replicate numAlign 0)).set 0 6

/-- The alignment patterns that are drawn: not on the finder patterns. -/
def alignmentPatterns (version : Nat) : List (Nat × Nat) :=
  let alignPatPos := getAlignmentPatternPositions version
  let numAlign := alignPatPos.length
  (List.range numAlign).flatMap fun i => (List.range numAlign).filterMap fun j =>
    if i = 0 ∧ j = 0 ∨ i = 0 ∧ j = numAlign - 1 ∨ i = numAlign - 1 ∧ j = 0 then none
    else some (alignPatPos.getD i 0, alignPatPos.getD j 0)

/-- The side of a version. -/
def side (version : Nat) : Nat := version * 4 + 17

/-- A buffer of a side, all white. -/
def blank (qrsize : Nat) : List UInt8 :=
  (List.replicate ((qrsize * qrsize + 7) / 8 + 1) 0).set 0 (UInt8.ofNat qrsize)

/-- `initializeFunctionModules`: the buffer up to the length that the version needs. -/
def initializeFunctionModules (version : Nat) : List UInt8 :=
  let qrsize := side version
  let qrcode := blank qrsize
  let qrcode := fillRectangle 6 0 1 qrsize qrcode
  let qrcode := fillRectangle 0 6 qrsize 1 qrcode
  let qrcode := fillRectangle 0 0 9 9 qrcode
  let qrcode := fillRectangle (qrsize - 8) 0 8 9 qrcode
  let qrcode := fillRectangle 0 (qrsize - 8) 9 8 qrcode
  let qrcode := (alignmentPatterns version).foldl
    (fun qrcode center => fillRectangle (center.1 - 2) (center.2 - 2) 5 5 qrcode) qrcode
  if version ≥ 7 then
    fillRectangle 0 (qrsize - 11) 6 3 (fillRectangle (qrsize - 11) 0 3 6 qrcode)
  else qrcode

section Canvas

variable {size x y : Nat} {qrcode : List UInt8}

/-- The modules of a buffer of a side. -/
def modules (size : Nat) : Canvas (List UInt8) (Nat × Nat) where
  good qrcode := qrcode.length = (size * size + 7) / 8 + 1 ∧ getSize qrcode = size
  inside cell := cell.1 < size ∧ cell.2 < size
  look qrcode cell := getModule qrcode cell.1 cell.2

/-- A module is inside the buffer. -/
theorem byteIndex_lt (column : x < size) (row : y < size) :
    (y * size + x) / 8 + 1 < (size * size + 7) / 8 + 1 := by
  have whole : y * size + x < size * size :=
    calc y * size + x < y * size + size := Nat.add_lt_add_left column _
      _ = (y + 1) * size := (Nat.succ_mul y size).symm
      _ ≤ size * size := Nat.mul_le_mul_right size row
  omega

/-- Modules are told apart by their indices. -/
theorem index_inj {otherX otherY : Nat} (column : x < size) (otherColumn : otherX < size)
    (same : y * size + x = otherY * size + otherX) : x = otherX ∧ y = otherY := by
  have positive : 0 < size := Nat.zero_lt_of_lt column
  have rows := congrArg (· / size) same
  have columns := congrArg (· % size) same
  simp only [Nat.mul_comm _ size, Nat.mul_add_div positive, Nat.mul_add_mod,
    Nat.div_eq_of_lt column, Nat.div_eq_of_lt otherColumn, Nat.mod_eq_of_lt column,
    Nat.mod_eq_of_lt otherColumn, Nat.add_zero] at rows columns
  exact ⟨columns, rows⟩

/-- One bit of a byte, set or cleared. -/
theorem testBit_update {byte bitIndex other : Nat} (small : byte < 256) (low : bitIndex < 8)
    (otherLow : other < 8) (isBlack : Bool) :
    (UInt8.ofNat (if isBlack then byte ||| 1 <<< bitIndex
      else byte &&& (1 <<< bitIndex ^^^ 0xFF))).toNat.testBit other =
      if other = bitIndex then isBlack else byte.testBit other := by
  have bit : 1 <<< bitIndex < 2 ^ 8 := by
    rw [Nat.one_shiftLeft]
    exact Nat.pow_lt_pow_right (by decide) low
  have ones : (0xFF : Nat).testBit other = true := by
    have all := Nat.testBit_two_pow_sub_one 8 other
    rw [decide_eq_true otherLow] at all
    exact all
  cases isBlack with
  | true =>
      rw [if_pos rfl, UInt8.toNat_ofNat', Nat.mod_eq_of_lt (Nat.or_lt_two_pow small bit),
        Nat.testBit_or, Nat.one_shiftLeft, Nat.testBit_two_pow]
      by_cases same : other = bitIndex
      · simp [same]
      · simp [same, Ne.symm same]
  | false =>
      rw [if_neg Bool.false_ne_true, UInt8.toNat_ofNat',
        Nat.mod_eq_of_lt (Nat.lt_of_le_of_lt Nat.and_le_left small), Nat.testBit_and,
        Nat.testBit_xor, ones, Nat.one_shiftLeft, Nat.testBit_two_pow]
      by_cases same : other = bitIndex
      · simp [same]
      · simp [same, Ne.symm same]

/-- **Setting a module changes no other.** -/
theorem writes_setModule (column : x < size) (row : y < size) (isBlack : Bool) :
    Writes (modules size) (x, y) isBlack fun qrcode => setModule qrcode x y isBlack := by
  intro qrcode good
  obtain ⟨length, sized⟩ := good
  have fits : (y * size + x) / 8 + 1 < qrcode.length := length ▸ byteIndex_lt column row
  have kept : (modules size).good (setModule qrcode x y isBlack) := by
    refine ⟨(List.length_set ..).trans length, ?_⟩
    rw [getSize, setModule, getD_set _ _ _ _ _ (by rw [sized]; exact fits),
      if_neg (Nat.succ_ne_zero _).symm]
    exact sized
  have looks : ∀ otherX otherY, getModule (setModule qrcode x y isBlack) otherX otherY =
      if otherY * size + otherX = y * size + x then isBlack
        else getModule qrcode otherX otherY := by
    intro otherX otherY
    have low := Nat.mod_lt (y * size + x) (by decide : 0 < 8)
    have otherLow := Nat.mod_lt (otherY * size + otherX) (by decide : 0 < 8)
    rw [getModule, kept.2, setModule, sized, getD_set _ _ _ _ _ fits, getModule, sized, getBit,
      getBit]
    by_cases byte : (otherY * size + otherX) / 8 = (y * size + x) / 8
    · rw [if_pos (congrArg (· + 1) byte), testBit_update (UInt8.toNat_lt _) low otherLow, byte]
      refine if_congr ?_ rfl rfl
      omega
    · rw [if_neg fun same => byte (Nat.succ_inj.mp same), if_neg fun same => byte (by rw [same])]
  refine ⟨kept, (looks x y).trans (if_pos rfl), fun cell inside differ => ?_⟩
  refine (looks cell.1 cell.2).trans (if_neg fun same => differ ?_)
  obtain ⟨columns, rows⟩ := index_inj inside.1 column same
  exact Prod.ext columns rows

private theorem fills_setModule (column : x < size) (row : y < size) :
    Fills (modules size) (fun cell => decide (cell = (x, y)))
      fun qrcode => setModule qrcode x y true := by
  intro qrcode good
  obtain ⟨kept, written, others⟩ := writes_setModule column row true qrcode good
  refine ⟨kept, fun cell inside => ?_⟩
  by_cases same : cell = (x, y)
  · rw [same, written]
    exact (Bool.or_eq_true_iff.mpr (.inr (decide_eq_true rfl))).symm
  · rw [others cell inside same]
    dsimp only
    rw [decide_eq_false same, Bool.or_false]

/-- The modules of a rectangle. -/
def rectangle (left top width height : Nat) (cell : Nat × Nat) : Bool :=
  decide (left ≤ cell.1 ∧ cell.1 < left + width ∧ top ≤ cell.2 ∧ cell.2 < top + height)

/-- **Filling a rectangle.** -/
theorem fills_fillRectangle {left top width height : Nat} (right : left + width ≤ size)
    (bottom : top + height ≤ size) :
    Fills (modules size) (rectangle left top width height)
      (fillRectangle left top width height) := by
  have rows : Fills (modules size)
      (fun cell => (List.range height).any fun dy => (List.range width).any fun dx =>
        decide (cell = (left + dx, top + dy))) (fillRectangle left top width height) := by
    refine Fills.foldl fun dy inRows => Fills.foldl fun dx inColumns => ?_
    rw [List.mem_range] at inRows inColumns
    exact fills_setModule (by omega) (by omega)
  refine rows.congr fun cell => ?_
  rw [rectangle, Bool.eq_iff_iff, List.any_eq_true, decide_eq_true_iff]
  constructor
  · rintro ⟨dy, inRows, inside⟩
    obtain ⟨dx, inColumns, same⟩ := List.any_eq_true.mp inside
    rw [List.mem_range] at inRows inColumns
    rw [of_decide_eq_true same]
    dsimp only
    omega
  · rintro ⟨fromLeft, toRight, fromTop, toBottom⟩
    refine ⟨cell.2 - top, List.mem_range.mpr (by omega), List.any_eq_true.mpr
      ⟨cell.1 - left, List.mem_range.mpr (by omega), decide_eq_true ?_⟩⟩
    exact Prod.ext (by dsimp only; omega) (by dsimp only; omega)

private theorem good_blank (small : size < 256) : (modules size).good (blank size) := by
  refine ⟨by rw [blank, List.length_set, List.length_replicate], ?_⟩
  rw [getSize, blank, getD_set _ _ _ _ _ (by rw [List.length_replicate]; omega), if_pos rfl,
    UInt8.toNat_ofNat', Nat.mod_eq_of_lt small]

private theorem getModule_blank (x y : Nat) : getModule (blank size) x y = false := by
  have zero : (blank size).getD ((y * getSize (blank size) + x) / 8 + 1) 0 = 0 := by
    rw [blank, getD_set _ _ _ _ _ (by rw [List.length_replicate]; omega),
      if_neg (Nat.succ_ne_zero _), getD_replicate_zero]
  rw [getModule, zero]
  exact Nat.zero_testBit _

end Canvas

section Function

/-- The function modules of a version: timing patterns, finder patterns with the format, alignment
patterns and the version. -/
def functionModule (version : Nat) (cell : Nat × Nat) : Bool :=
  let qrsize := side version
  cell.1 == 6 || cell.2 == 6 ||
    rectangle 0 0 9 9 cell || rectangle (qrsize - 8) 0 8 9 cell ||
      rectangle 0 (qrsize - 8) 9 8 cell ||
    (alignmentPatterns version).any (fun center =>
      rectangle (center.1 - 2) (center.2 - 2) 5 5 cell) ||
    (decide (version ≥ 7) &&
      (rectangle (qrsize - 11) 0 3 6 cell || rectangle 0 (qrsize - 11) 6 3 cell))

/-- The alignment patterns are inside of every version. -/
theorem alignmentPatterns_inside : ∀ version ≤ 40, ∀ center ∈ alignmentPatterns version,
    6 ≤ center.1 ∧ center.1 + 7 ≤ side version ∧ 6 ≤ center.2 ∧ center.2 + 7 ≤ side version := by
  decide +kernel

variable {version : Nat}

/-- The version blocks, from version 7 on. -/
theorem fills_version (most : version ≤ 40) :
    Fills (modules (side version))
      (fun cell => decide (version ≥ 7) && (rectangle (side version - 11) 0 3 6 cell ||
        rectangle 0 (side version - 11) 6 3 cell))
      (fun qrcode => if version ≥ 7 then
        fillRectangle 0 (side version - 11) 6 3 (fillRectangle (side version - 11) 0 3 6 qrcode)
      else qrcode) := by
  have sized : side version = version * 4 + 17 := rfl
  by_cases large : version ≥ 7
  · have upper : Fills (modules (side version)) _ (fillRectangle (side version - 11) 0 3 6) :=
      fills_fillRectangle (by omega) (by omega)
    have lower : Fills (modules (side version)) _ (fillRectangle 0 (side version - 11) 6 3) :=
      fills_fillRectangle (by omega) (by omega)
    simp only [if_pos large, decide_eq_true large, Bool.true_and]
    exact upper.comp lower
  · simp only [if_neg large, decide_eq_false large, Bool.false_and]
    exact Fills.none

private theorem fills_alignment (most : version ≤ 40) :
    Fills (modules (side version))
      (fun cell => (alignmentPatterns version).any fun center =>
        rectangle (center.1 - 2) (center.2 - 2) 5 5 cell)
      (fun qrcode => (alignmentPatterns version).foldl
        (fun qrcode center => fillRectangle (center.1 - 2) (center.2 - 2) 5 5 qrcode) qrcode) := by
  refine Fills.foldl fun center member => ?_
  obtain ⟨left, right, top, bottom⟩ := alignmentPatterns_inside version most center member
  exact fills_fillRectangle (by omega) (by omega)

/-- **The function modules** are black after `initializeFunctionModules`, and no others. -/
theorem initializeFunctionModules_spec (most : version ≤ 40) :
    (modules (side version)).good (initializeFunctionModules version) ∧
      ∀ cell, (modules (side version)).inside cell →
        (modules (side version)).look (initializeFunctionModules version) cell =
          functionModule version cell := by
  have sized : side version = version * 4 + 17 := rfl
  have vertical : Fills (modules (side version)) _ (fillRectangle 6 0 1 (side version)) :=
    fills_fillRectangle (by omega) (by omega)
  have horizontal : Fills (modules (side version)) _ (fillRectangle 0 6 (side version) 1) :=
    fills_fillRectangle (by omega) (by omega)
  have topLeft : Fills (modules (side version)) _ (fillRectangle 0 0 9 9) :=
    fills_fillRectangle (by omega) (by omega)
  have topRight : Fills (modules (side version)) _ (fillRectangle (side version - 8) 0 8 9) :=
    fills_fillRectangle (by omega) (by omega)
  have bottomLeft : Fills (modules (side version)) _ (fillRectangle 0 (side version - 8) 9 8) :=
    fills_fillRectangle (by omega) (by omega)
  obtain ⟨good, looks⟩ := ((((((vertical.comp horizontal).comp topLeft).comp topRight).comp
    bottomLeft).comp (fills_alignment most)).comp (fills_version most)) (blank (side version))
      (good_blank (by omega))
  refine ⟨good, fun cell inside => (looks cell inside).trans ?_⟩
  have white : (modules (side version)).look (blank (side version)) cell = false :=
    getModule_blank cell.1 cell.2
  have columns : rectangle 6 0 1 (side version) cell = (cell.1 == 6) := by
    obtain ⟨column, row⟩ := inside
    rw [rectangle, Bool.eq_iff_iff, decide_eq_true_iff, beq_iff_eq]
    omega
  have rows : rectangle 0 6 (side version) 1 cell = (cell.2 == 6) := by
    obtain ⟨column, row⟩ := inside
    rw [rectangle, Bool.eq_iff_iff, decide_eq_true_iff, beq_iff_eq]
    omega
  rw [white, Bool.false_or]
  dsimp only
  rw [columns, rows, functionModule]

end Function

end VaultSeed.Qrcodegen
