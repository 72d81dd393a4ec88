import VaultSeed.Qrcodegen.Modules

/-! # Drawing a code

What `qrcodegen.c` draws after the function modules: the white ones and the format stay inside of
them (`VaultSeed.Qrcodegen.within_drawWhiteFunctionModules`,
`VaultSeed.Qrcodegen.within_drawFormatBits`), a mask flips modules that are not function modules
(`VaultSeed.Qrcodegen.flips_applyMask`), and the codewords go to these in a zigzag
(`VaultSeed.Qrcodegen.drawCodewords_laid`).
-/

namespace VaultSeed.Qrcodegen

open Accumulate Painting

/-- `enum qrcodegen_Ecc`. -/
inductive Ecc where
  | low
  | medium
  | quartile
  | high
  deriving DecidableEq, Repr

/-- The number of a level. -/
def Ecc.toNat : Ecc → Nat
  | low => 0
  | medium => 1
  | quartile => 2
  | high => 3

/-- `drawWhiteFunctionModules`: a square around a center of a finder pattern. -/
def drawFinderTurn (qrsize : Int) (dy : Int) (qrcode : List UInt8) (dx : Int) : List UInt8 :=
  let dist := max dx.natAbs dy.natAbs
  if dist = 2 ∨ dist = 4 then
    let qrcode := setModuleBounded qrcode (3 + dx) (3 + dy) false
    let qrcode := setModuleBounded qrcode (qrsize - 4 + dx) (3 + dy) false
    setModuleBounded qrcode (3 + dx) (qrsize - 4 + dy) false
  else qrcode

/-- `drawWhiteFunctionModules`: the bits of the version, with their correction. -/
def versionBits (version : Nat) : Nat :=
  let rem := (List.range 12).foldl (fun rem _ => (rem <<< 1) ^^^ ((rem >>> 11) * 0x1F25)) version
  (version <<< 12) ||| rem

/-- `drawWhiteFunctionModules`: the two copies of the version. -/
def drawVersion (qrsize version : Nat) (qrcode : List UInt8) : List UInt8 :=
  (List.range 6).foldl (fun qrcode i =>
    (List.range 3).foldl (fun qrcode j =>
      let k := qrsize - 11 + j
      let bit := getBit (versionBits version) (3 * i + j)
      setModule (setModule qrcode k i bit) i k bit) qrcode) qrcode

/-- `drawWhiteFunctionModules`. -/
def drawWhiteFunctionModules (version : Nat) (qrcode : List UInt8) : List UInt8 :=
  let qrsize := getSize qrcode
  let qrcode := (List.range ((qrsize - 13) / 2)).foldl (fun qrcode turn =>
    let i := 7 + 2 * turn
    setModule (setModule qrcode 6 i false) i 6 false) qrcode
  let qrcode := (List.range 9).foldl (fun qrcode row => (List.range 9).foldl (fun qrcode column =>
    drawFinderTurn qrsize (row - 4) qrcode (column - 4)) qrcode) qrcode
  let qrcode := (alignmentPatterns version).foldl (fun qrcode center =>
    (List.range 3).foldl (fun qrcode row => (List.range 3).foldl (fun qrcode column =>
      setModule qrcode (center.1 + column - 1) (center.2 + row - 1)
        (decide (column = 1 ∧ row = 1))) qrcode) qrcode) qrcode
  if version ≥ 7 then drawVersion qrsize version qrcode else qrcode

/-- `drawFormatBits`: the bits of the format, with their correction. -/
def formatBits (ecl : Ecc) (mask : Nat) : Nat :=
  let data := ([1, 0, 3, 2].getD ecl.toNat 0 <<< 3) ||| mask
  let rem := (List.range 10).foldl (fun rem _ => (rem <<< 1) ^^^ ((rem >>> 9) * 0x537)) data
  ((data <<< 10) ||| rem) ^^^ 0x5412

/-- `drawFormatBits`. -/
def drawFormatBits (ecl : Ecc) (mask : Nat) (qrcode : List UInt8) : List UInt8 :=
  let bits := formatBits ecl mask
  let qrcode := (List.range 6).foldl (fun qrcode i => setModule qrcode 8 i (getBit bits i)) qrcode
  let qrcode := setModule qrcode 8 7 (getBit bits 6)
  let qrcode := setModule qrcode 8 8 (getBit bits 7)
  let qrcode := setModule qrcode 7 8 (getBit bits 8)
  let qrcode := (List.range 6).foldl
    (fun qrcode turn => setModule qrcode (14 - (9 + turn)) 8 (getBit bits (9 + turn))) qrcode
  let qrsize := getSize qrcode
  let qrcode := (List.range 8).foldl
    (fun qrcode i => setModule qrcode (qrsize - 1 - i) 8 (getBit bits i)) qrcode
  let qrcode := (List.range 7).foldl
    (fun qrcode turn => setModule qrcode 8 (qrsize - 15 + (8 + turn)) (getBit bits (8 + turn)))
    qrcode
  setModule qrcode 8 (qrsize - 8) true

/-- `drawCodewords`: the values of `right`, at most as many as `fuel`. -/
def rights : Nat → Nat → List Nat
  | 0, _ => []
  | fuel + 1, right =>
    if right ≥ 1 then
      let right := if right = 6 then 5 else right
      right :: rights fuel (right - 2)
    else []

/-- `drawCodewords`: the modules of a pair of columns, in their order. -/
def columnPair (qrsize right : Nat) : List (Nat × Nat) :=
  (List.range qrsize).flatMap fun vert => (List.range 2).map fun j =>
    let upward := (right + 1) / 2 % 2 = 0
    (right - j, if upward then qrsize - 1 - vert else vert)

/-- `drawCodewords`: the modules in their order. -/
def zigzag (qrsize : Nat) : List (Nat × Nat) :=
  (rights qrsize (qrsize - 1)).flatMap (columnPair qrsize)

/-- `drawCodewords`, a turn of the innermost loop. -/
def drawCodewordsTurn (data : List UInt8) (dataLen : Nat) (drawn : List UInt8 × Nat)
    (cell : Nat × Nat) : List UInt8 × Nat :=
  if getModule drawn.1 cell.1 cell.2 = false ∧ drawn.2 < dataLen * 8 then
    let black := getBit (data.getD (drawn.2 / 8) 0).toNat (7 - drawn.2 % 8)
    (setModule drawn.1 cell.1 cell.2 black, drawn.2 + 1)
  else drawn

/-- `drawCodewords`: the modules and how many bits are drawn. -/
def drawCodewords (data : List UInt8) (dataLen : Nat) (qrcode : List UInt8) : List UInt8 × Nat :=
  (zigzag (getSize qrcode)).foldl (drawCodewordsTurn data dataLen) (qrcode, 0)

/-- `applyMask`: `invert`. -/
def invert (mask x y : Nat) : Bool :=
  match mask with
  | 0 => (x + y) % 2 == 0
  | 1 => y % 2 == 0
  | 2 => x % 3 == 0
  | 3 => (x + y) % 3 == 0
  | 4 => (x / 3 + y / 2) % 2 == 0
  | 5 => x * y % 2 + x * y % 3 == 0
  | 6 => (x * y % 2 + x * y % 3) % 2 == 0
  | 7 => ((x + y) % 2 + x * y % 3) % 2 == 0
  | _ => false

/-- `applyMask`, a turn of the inner loop. -/
def applyMaskTurn (functionModules : List UInt8) (mask y : Nat) (qrcode : List UInt8) (x : Nat) :
    List UInt8 :=
  if getModule functionModules x y then qrcode
  else setModule qrcode x y (getModule qrcode x y ^^ invert mask x y)

/-- `applyMask`. -/
def applyMask (functionModules qrcode : List UInt8) (mask : Nat) : List UInt8 :=
  let qrsize := getSize qrcode
  (List.range qrsize).foldl (fun qrcode y =>
    (List.range qrsize).foldl (applyMaskTurn functionModules mask y) qrcode) qrcode

section White

variable {size version : Nat} {region : Nat × Nat → Prop}

private theorem within_setModule {x y : Nat} {isBlack : Bool} (column : x < size) (row : y < size)
    (covered : region (x, y)) :
    Within (modules size) region fun qrcode => setModule qrcode x y isBlack :=
  (writes_setModule column row isBlack).within covered

private theorem within_setModuleBounded {x y : Int} {isBlack : Bool}
    (covered : 0 ≤ x → x < size → 0 ≤ y → y < size → region (x.toNat, y.toNat)) :
    Within (modules size) region fun qrcode => setModuleBounded qrcode x y isBlack := by
  intro qrcode good
  have sized : getSize qrcode = size := good.2
  simp only [setModuleBounded, sized]
  split
  · next bounded =>
      obtain ⟨left, right, top, bottom⟩ := bounded
      exact within_setModule (by omega) (by omega) (covered left right top bottom) qrcode good
  · exact ⟨good, fun _ _ _ => rfl⟩

/-- The modules of functions. -/
def Function (version : Nat) (cell : Nat × Nat) : Prop := functionModule version cell = true

/-- What a function module is. -/
theorem function_iff {cell : Nat × Nat} : Function version cell ↔
    cell.1 = 6 ∨ cell.2 = 6 ∨ rectangle 0 0 9 9 cell = true ∨
      rectangle (side version - 8) 0 8 9 cell = true ∨
      rectangle 0 (side version - 8) 9 8 cell = true ∨
      (∃ center ∈ alignmentPatterns version,
        rectangle (center.1 - 2) (center.2 - 2) 5 5 cell = true) ∨
      version ≥ 7 ∧ (rectangle (side version - 11) 0 3 6 cell = true ∨
        rectangle 0 (side version - 11) 6 3 cell = true) := by
  simp only [Function, functionModule, Bool.or_eq_true, Bool.and_eq_true, beq_iff_eq,
    List.any_eq_true, decide_eq_true_iff, or_assoc]

/-- A cell of a rectangle. -/
theorem rectangle_eq_true {left top width height : Nat} {cell : Nat × Nat} :
    rectangle left top width height cell = true ↔
      left ≤ cell.1 ∧ cell.1 < left + width ∧ top ≤ cell.2 ∧ cell.2 < top + height :=
  decide_eq_true_iff

private theorem function_topLeft {cell : Nat × Nat} (column : cell.1 < 9) (row : cell.2 < 9) :
    Function version cell :=
  function_iff.mpr (.inr (.inr (.inl (rectangle_eq_true.mpr (by omega)))))

private theorem function_topRight {cell : Nat × Nat} (right : cell.1 < side version)
    (column : side version ≤ cell.1 + 8) (row : cell.2 < 9) : Function version cell :=
  function_iff.mpr (.inr (.inr (.inr (.inl (rectangle_eq_true.mpr (by omega))))))

private theorem function_bottomLeft {cell : Nat × Nat} (bottom : cell.2 < side version)
    (column : cell.1 < 9) (row : side version ≤ cell.2 + 8) : Function version cell :=
  function_iff.mpr (.inr (.inr (.inr (.inr (.inl (rectangle_eq_true.mpr (by omega)))))))

private theorem within_drawFinderTurn {dx dy : Int} (narrow : dx.natAbs ≤ 4) (low : dy.natAbs ≤ 4) :
    Within (modules (side version)) (Function version)
      fun qrcode => drawFinderTurn (side version) dy qrcode dx := by
  have sized : side version = version * 4 + 17 := rfl
  unfold drawFinderTurn
  dsimp only
  split
  · refine ((within_setModuleBounded ?_).comp (within_setModuleBounded ?_)).comp
      (within_setModuleBounded ?_)
    · intro left right top bottom
      exact function_topLeft (by dsimp only; omega) (by dsimp only; omega)
    · intro left right top bottom
      exact function_topRight (by dsimp only; omega) (by dsimp only; omega) (by dsimp only; omega)
    · intro left right top bottom
      exact function_bottomLeft (by dsimp only; omega) (by dsimp only; omega) (by dsimp only; omega)
  · exact Within.none

private theorem within_drawVersion (most : version ≤ 40) (large : version ≥ 7) :
    Within (modules (side version)) (Function version) (drawVersion (side version) version) := by
  have sized : side version = version * 4 + 17 := rfl
  refine Within.foldl fun i inRows => Within.foldl fun j inColumns => ?_
  rw [List.mem_range] at inRows inColumns
  refine (within_setModule (by omega) (by omega) ?_).comp
    (within_setModule (by omega) (by omega) ?_)
  · exact function_iff.mpr (.inr (.inr (.inr (.inr (.inr (.inr
      ⟨large, .inl (rectangle_eq_true.mpr (by dsimp only; omega))⟩))))))
  · exact function_iff.mpr (.inr (.inr (.inr (.inr (.inr (.inr
      ⟨large, .inr (rectangle_eq_true.mpr (by dsimp only; omega))⟩))))))

/-- **The white function modules** are drawn on function modules. -/
theorem within_drawWhiteFunctionModules (most : version ≤ 40) :
    Within (modules (side version)) (Function version) (drawWhiteFunctionModules version) := by
  intro qrcode good
  have sized : side version = version * 4 + 17 := rfl
  have timing : Within (modules (side version)) (Function version) fun qrcode =>
      (List.range ((side version - 13) / 2)).foldl (fun qrcode turn =>
        setModule (setModule qrcode 6 (7 + 2 * turn) false) (7 + 2 * turn) 6 false) qrcode := by
    refine Within.foldl fun turn inside => ?_
    rw [List.mem_range] at inside
    exact (within_setModule (by omega) (by omega) (function_iff.mpr (.inl rfl))).comp
      (within_setModule (by omega) (by omega) (function_iff.mpr (.inr (.inl rfl))))
  have finders : Within (modules (side version)) (Function version) fun qrcode =>
      (List.range 9).foldl (fun qrcode (row : Nat) => (List.range 9).foldl
        (fun qrcode (column : Nat) =>
          drawFinderTurn (side version) (row - 4) qrcode (column - 4)) qrcode) qrcode := by
    refine Within.foldl fun row inRows => Within.foldl fun column inColumns => ?_
    rw [List.mem_range] at inRows inColumns
    exact within_drawFinderTurn (by omega) (by omega)
  have alignment : Within (modules (side version)) (Function version) fun qrcode =>
      (alignmentPatterns version).foldl (fun qrcode center =>
        (List.range 3).foldl (fun qrcode row => (List.range 3).foldl (fun qrcode column =>
          setModule qrcode (center.1 + column - 1) (center.2 + row - 1)
            (decide (column = 1 ∧ row = 1))) qrcode) qrcode) qrcode := by
    refine Within.foldl fun center member =>
      Within.foldl fun row inRows => Within.foldl fun column inColumns => ?_
    rw [List.mem_range] at inRows inColumns
    obtain ⟨left, right, top, bottom⟩ := alignmentPatterns_inside version most center member
    refine within_setModule (by omega) (by omega) ?_
    exact function_iff.mpr (.inr (.inr (.inr (.inr (.inr (.inl
      ⟨center, member, rectangle_eq_true.mpr (by dsimp only; omega)⟩))))))
  have versions : Within (modules (side version)) (Function version) fun qrcode =>
      if version ≥ 7 then drawVersion (side version) version qrcode else qrcode := by
    by_cases large : version ≥ 7
    · simp only [if_pos large]
      exact within_drawVersion most large
    · simp only [if_neg large]
      exact Within.none
  have all := (((timing.comp finders).comp alignment).comp versions) qrcode good
  have size : getSize qrcode = side version := good.2
  unfold drawWhiteFunctionModules
  dsimp only
  rw [size]
  exact all

end White

section Format

variable {version : Nat} {ecl : Ecc} {mask : Nat}

/-- Where a bit of the first copy of the format is. -/
def firstCopy (i : Nat) : Nat × Nat :=
  if i ≤ 5 then (8, i)
  else if i = 6 then (8, 7)
  else if i = 7 then (8, 8)
  else if i = 8 then (7, 8)
  else (14 - i, 8)

/-- Where a bit of the second copy of the format is. -/
def secondCopy (qrsize i : Nat) : Nat × Nat :=
  if i < 8 then (qrsize - 1 - i, 8) else (8, qrsize - 15 + i)

/-- A copy of the format, bit after bit. -/
def drawCopy (place : Nat → Nat × Nat) (bits : Nat) (qrcode : List UInt8) : List UInt8 :=
  (List.range 15).foldl
    (fun qrcode i => setModule qrcode (place i).1 (place i).2 (getBit bits i)) qrcode

/-- The first copy of the format is at the first finder pattern. -/
theorem firstCopy_inside : ∀ i < 15, (firstCopy i).1 < 9 ∧ (firstCopy i).2 < 9 := by
  decide

/-- The first copy of the format has fifteen modules. -/
theorem firstCopy_nodup : ((List.range 15).map firstCopy).Nodup := by
  decide

/-- The second copy of the format is at the other finder patterns. -/
theorem secondCopy_inside {qrsize i : Nat} (large : 17 ≤ qrsize) (inside : i < 15) :
    (secondCopy qrsize i).1 < qrsize ∧ qrsize ≤ (secondCopy qrsize i).1 + 8 ∧
        (secondCopy qrsize i).2 = 8 ∨
      (secondCopy qrsize i).1 = 8 ∧ (secondCopy qrsize i).2 < qrsize ∧
        qrsize ≤ (secondCopy qrsize i).2 + 7 := by
  rw [secondCopy]
  split
  · exact .inl (by dsimp only; omega)
  · exact .inr (by dsimp only; omega)

private theorem drawCopy_firstCopy (bits : Nat) (qrcode : List UInt8) :
    drawCopy firstCopy bits qrcode =
      (List.range 6).foldl
        (fun qrcode turn => setModule qrcode (14 - (9 + turn)) 8 (getBit bits (9 + turn)))
        (setModule (setModule (setModule
          ((List.range 6).foldl (fun qrcode i => setModule qrcode 8 i (getBit bits i)) qrcode)
          8 7 (getBit bits 6)) 8 8 (getBit bits 7)) 7 8 (getBit bits 8)) := by
  have order : List.range 15 = List.range 6 ++ ([6, 7, 8] ++ (List.range 6).map (9 + ·)) := by
    decide
  have column : ∀ i < 6, firstCopy i = (8, i) := by decide
  have row : ∀ turn < 6, firstCopy (9 + turn) = (14 - (9 + turn), 8) := by decide
  rw [drawCopy, order, List.foldl_append, List.foldl_append, List.foldl_map]
  rw [List.foldl_ext _ (fun qrcode i => setModule qrcode 8 i (getBit bits i)) qrcode
    fun qrcode i inside => by rw [column i (List.mem_range.mp inside)]]
  exact List.foldl_ext _ _ _ fun qrcode turn inside => by rw [row turn (List.mem_range.mp inside)]

private theorem drawCopy_secondCopy (qrsize bits : Nat) (qrcode : List UInt8) :
    drawCopy (secondCopy qrsize) bits qrcode =
      (List.range 7).foldl
        (fun qrcode turn => setModule qrcode 8 (qrsize - 15 + (8 + turn)) (getBit bits (8 + turn)))
        ((List.range 8).foldl
          (fun qrcode i => setModule qrcode (qrsize - 1 - i) 8 (getBit bits i)) qrcode) := by
  have order : List.range 15 = List.range 8 ++ (List.range 7).map (8 + ·) := by decide
  rw [drawCopy, order, List.foldl_append, List.foldl_map]
  rw [List.foldl_ext _ (fun qrcode i => setModule qrcode (qrsize - 1 - i) 8 (getBit bits i)) qrcode
    fun qrcode i inside => by rw [secondCopy, if_pos (List.mem_range.mp inside)]]
  exact List.foldl_ext _ _ _ fun qrcode turn inside => by
    rw [secondCopy, if_neg (Nat.not_lt.mpr (Nat.le_add_right 8 turn))]

/-- The format is its two copies and a module that is always black. -/
theorem drawFormatBits_eq (qrcode : List UInt8) :
    drawFormatBits ecl mask qrcode =
      setModule (drawCopy (secondCopy (getSize (drawCopy firstCopy (formatBits ecl mask) qrcode)))
          (formatBits ecl mask) (drawCopy firstCopy (formatBits ecl mask) qrcode))
        8 (getSize (drawCopy firstCopy (formatBits ecl mask) qrcode) - 8) true := by
  rw [drawCopy_secondCopy, drawCopy_firstCopy, drawFormatBits]

private theorem within_drawFirst (bits : Nat) : Within (modules (side version)) (Function version)
    (drawCopy firstCopy bits) := by
  have sized : side version = version * 4 + 17 := rfl
  refine Within.foldl fun i inside => ?_
  obtain ⟨column, row⟩ := firstCopy_inside i (List.mem_range.mp inside)
  exact within_setModule (by omega) (by omega) (function_topLeft column row)

/-- The part of the function modules that the second copy and the black module are in. -/
def FarFunction (version : Nat) (cell : Nat × Nat) : Prop :=
  Function version cell ∧ (9 ≤ cell.1 ∨ 9 ≤ cell.2)

private theorem within_drawCopy_secondCopy (bits : Nat) :
    Within (modules (side version)) (FarFunction version)
      (drawCopy (secondCopy (side version)) bits) := by
  have sized : side version = version * 4 + 17 := rfl
  refine Within.foldl fun i inside => ?_
  rcases secondCopy_inside (by omega : 17 ≤ side version) (List.mem_range.mp inside) with
    ⟨right, column, row⟩ | ⟨column, bottom, row⟩
  · refine within_setModule right (by omega) ⟨function_topRight right column (by omega), ?_⟩
    exact .inl (by omega : 9 ≤ (secondCopy (side version) i).1)
  · refine within_setModule (by omega) bottom ⟨function_bottomLeft bottom (by omega) (by omega), ?_⟩
    exact .inr (by omega : 9 ≤ (secondCopy (side version) i).2)

private theorem farFunction_black : FarFunction version (8, side version - 8) := by
  have sized : side version = version * 4 + 17 := rfl
  have below : side version - 8 < side version := by omega
  have low : side version ≤ side version - 8 + 8 := by omega
  exact ⟨function_bottomLeft below (Nat.lt_succ_self 8) low, .inr (by omega : 9 ≤ side version - 8)⟩

/-- What the second copy and the black module change. -/
theorem within_drawSecond (bits : Nat) :
    Within (modules (side version)) (FarFunction version)
      fun qrcode => setModule (drawCopy (secondCopy (side version)) bits qrcode)
        8 (side version - 8) true := by
  have sized : side version = version * 4 + 17 := rfl
  have last : Within (modules (side version)) (FarFunction version)
      fun qrcode => setModule qrcode 8 (side version - 8) true :=
    within_setModule (by omega) (by omega) farFunction_black
  have both := (within_drawCopy_secondCopy bits).comp last
  exact both

/-- The format is drawn in two copies, and the dark module. -/
theorem drawFormatBits_good {qrcode : List UInt8}
    (good : (modules (side version)).good qrcode) :
    drawFormatBits ecl mask qrcode = setModule (drawCopy (secondCopy (side version))
      (formatBits ecl mask) (drawCopy firstCopy (formatBits ecl mask) qrcode))
        8 (side version - 8) true := by
  have sized : getSize (drawCopy firstCopy (formatBits ecl mask) qrcode) = side version :=
    (within_drawFirst _ qrcode good).1.2
  rw [drawFormatBits_eq, sized]

/-- **The format** is drawn on function modules. -/
theorem within_drawFormatBits (ecl : Ecc) (mask : Nat) :
    Within (modules (side version)) (Function version) (drawFormatBits ecl mask) := by
  intro qrcode good
  rw [drawFormatBits_good good]
  exact ((within_drawFirst _).comp ((within_drawSecond _).mono fun _ both => both.1)) qrcode good

private theorem writes_copy {bits : Nat} {place : Nat → Nat × Nat}
    (inside : ∀ i < 15, (modules (side version)).inside (place i))
    (apart : ((List.range 15).map place).Nodup) {qrcode : List UInt8}
    (good : (modules (side version)).good qrcode) {i : Nat} (less : i < 15) :
    (modules (side version)).look (drawCopy place bits qrcode) (place i) = getBit bits i := by
  refine look_writes (fun item member => ?_) (fun item member => ?_) apart good
    (List.mem_range.mpr less)
  · obtain ⟨column, row⟩ := inside item (List.mem_range.mp member)
    exact writes_setModule column row _
  · exact inside item (List.mem_range.mp member)

/-- **The first copy** shows the bits of the format. -/
theorem look_firstCopy {qrcode : List UInt8} (good : (modules (side version)).good qrcode) {i : Nat}
    (less : i < 15) : getModule (drawFormatBits ecl mask qrcode) (firstCopy i).1 (firstCopy i).2 =
      getBit (formatBits ecl mask) i := by
  have sized : side version = version * 4 + 17 := rfl
  have inside : ∀ i < 15, (modules (side version)).inside (firstCopy i) := fun i less => by
    obtain ⟨column, row⟩ := firstCopy_inside i less
    exact ⟨by omega, by omega⟩
  have drawn : (modules (side version)).look (drawCopy firstCopy (formatBits ecl mask) qrcode)
      (firstCopy i) = getBit (formatBits ecl mask) i :=
    writes_copy inside firstCopy_nodup good less
  rw [drawFormatBits_good good, ← drawn]
  obtain ⟨column, row⟩ := firstCopy_inside i less
  exact (within_drawSecond (formatBits ecl mask) _ (within_drawFirst _ qrcode good).1).2
    (firstCopy i) (inside i less) fun far => by
      have outside := far.2
      omega

end Format

section Mask

variable {version mask : Nat}

/-- The modules that a mask flips. -/
def masked (version mask : Nat) (cell : Nat × Nat) : Bool :=
  !functionModule version cell && invert mask cell.1 cell.2

private theorem flips_applyMaskTurn (most : version ≤ 40) {x y : Nat} (column : x < side version)
    (row : y < side version) :
    Flips (modules (side version))
      (fun cell => decide (cell.1 = x) && (decide (cell.2 = y) && masked version mask cell))
      fun qrcode => applyMaskTurn (initializeFunctionModules version) mask y qrcode x := by
  intro qrcode good
  have function : getModule (initializeFunctionModules version) x y =
      functionModule version (x, y) :=
    (initializeFunctionModules_spec most).2 (x, y) ⟨column, row⟩
  simp only [applyMaskTurn, function]
  by_cases black : functionModule version (x, y) = true
  · rw [if_pos black]
    refine ⟨good, fun cell _ => ?_⟩
    by_cases here : cell = (x, y)
    · simp [here, masked, black]
    · have apart : ¬(cell.1 = x ∧ cell.2 = y) := fun both => here (Prod.ext both.1 both.2)
      rw [← Bool.and_assoc, ← Bool.decide_and, decide_eq_false apart, Bool.false_and,
        Bool.xor_false]
  · rw [if_neg black]
    obtain ⟨kept, written, others⟩ := writes_setModule column row
      (getModule qrcode x y ^^ invert mask x y) qrcode good
    refine ⟨kept, fun cell inside => ?_⟩
    by_cases here : cell = (x, y)
    · rw [here, written]
      simp [masked, black, modules]
    · have apart : ¬(cell.1 = x ∧ cell.2 = y) := fun both => here (Prod.ext both.1 both.2)
      rw [others cell inside here, ← Bool.and_assoc, ← Bool.decide_and, decide_eq_false apart,
        Bool.false_and, Bool.xor_false]

/-- **A mask** flips modules that are not function modules. -/
theorem flips_applyMask (most : version ≤ 40) (mask : Nat) :
    Flips (modules (side version)) (masked version mask)
      fun qrcode => applyMask (initializeFunctionModules version) qrcode mask := by
  have rows : Flips (modules (side version))
      (fun cell => decide (cell.2 < side version) && masked version mask cell)
      fun qrcode => (List.range (side version)).foldl (fun qrcode y =>
        (List.range (side version)).foldl
          (applyMaskTurn (initializeFunctionModules version) mask y) qrcode) qrcode := by
    refine Flips.foldl_range Prod.snd fun y row => ?_
    have columns : Flips (modules (side version))
        (fun cell => decide (cell.1 < side version) &&
          (decide (cell.2 = y) && masked version mask cell))
        fun qrcode => (List.range (side version)).foldl
          (applyMaskTurn (initializeFunctionModules version) mask y) qrcode :=
      Flips.foldl_range Prod.fst fun x column => flips_applyMaskTurn most column row
    refine columns.congr fun cell inside => ?_
    rw [decide_eq_true inside.1, Bool.true_and]
  intro qrcode good
  have sized : getSize qrcode = side version := good.2
  simp only [applyMask, sized]
  refine (rows.congr fun cell inside => ?_) qrcode good
  rw [decide_eq_true inside.2, Bool.true_and]

end Mask

section Codewords

variable {size : Nat}

private theorem rights_spec (fuel right : Nat) :
    (∀ value ∈ rights fuel right, 1 ≤ value ∧ value ≤ right) ∧
      (rights fuel right).Pairwise fun first second => second + 2 ≤ first := by
  induction fuel generalizing right with
  | zero => exact ⟨fun _ member => absurd member List.not_mem_nil, List.Pairwise.nil⟩
  | succ fuel ih =>
      rw [rights]
      split
      · obtain ⟨bounds, pairs⟩ := ih ((if right = 6 then 5 else right) - 2)
        refine ⟨fun value member => ?_, List.pairwise_cons.mpr ⟨fun value member => ?_, pairs⟩⟩
        · rcases List.mem_cons.mp member with same | later
          · subst same
            split <;> omega
          · have bound := bounds value later
            split at bound <;> omega
        · have bound := bounds value member
          split at bound <;> split <;> omega
      · exact ⟨fun _ member => absurd member List.not_mem_nil, List.Pairwise.nil⟩

/-- The modules of a pair of columns. -/
theorem mem_columnPair {qrsize right : Nat} {cell : Nat × Nat} (positive : 1 ≤ right)
    (member : cell ∈ columnPair qrsize right) :
    (cell.1 = right ∨ cell.1 + 1 = right) ∧ cell.2 < qrsize := by
  obtain ⟨vert, inRows, inPair⟩ := List.mem_flatMap.mp member
  obtain ⟨j, inColumns, rfl⟩ := List.mem_map.mp inPair
  rw [List.mem_range] at inRows inColumns
  refine ⟨by dsimp only; omega, ?_⟩
  dsimp only
  split <;> omega

private theorem nodup_columnPair {qrsize right : Nat} (positive : 1 ≤ right) :
    (columnPair qrsize right).Nodup := by
  refine List.nodup_flatMap.mpr ⟨fun vert _ => ?_, List.nodup_range.imp_of_mem ?_⟩
  · refine List.Nodup.map_on (fun first firstInside second secondInside same => ?_)
      List.nodup_range
    rw [List.mem_range] at firstInside secondInside
    have columns := congrArg Prod.fst same
    dsimp only at columns
    omega
  · intro first second firstInside secondInside differ
    rw [List.mem_range] at firstInside secondInside
    refine List.disjoint_left.mpr fun cell inFirst inSecond => ?_
    obtain ⟨j, -, rfl⟩ := List.mem_map.mp inFirst
    obtain ⟨k, -, same⟩ := List.mem_map.mp inSecond
    have rows := congrArg Prod.snd same
    dsimp only at rows
    split at rows <;> omega

/-- The zigzag visits modules of the code, each at most once. -/
theorem zigzag_spec (qrsize : Nat) :
    (∀ cell ∈ zigzag qrsize, (modules qrsize).inside cell) ∧ (zigzag qrsize).Nodup := by
  obtain ⟨bounds, pairs⟩ := rights_spec qrsize (qrsize - 1)
  constructor
  · intro cell member
    obtain ⟨right, inRights, inPair⟩ := List.mem_flatMap.mp member
    obtain ⟨positive, bound⟩ := bounds right inRights
    obtain ⟨column, row⟩ := mem_columnPair positive inPair
    exact ⟨by omega, row⟩
  · refine List.nodup_flatMap.mpr
      ⟨fun right member => nodup_columnPair (bounds right member).1, pairs.imp_of_mem ?_⟩
    intro first second firstMember secondMember apart
    refine List.disjoint_left.mpr fun cell inFirst inSecond => ?_
    have firstColumn := (mem_columnPair (bounds first firstMember).1 inFirst).1
    have secondColumn := (mem_columnPair (bounds second secondMember).1 inSecond).1
    omega

/-- The bit of the codewords at an index. -/
def codewordBit (data : List UInt8) (index : Nat) : Bool :=
  getBit (data.getD (index / 8) 0).toNat (7 - index % 8)

/-- **Drawing the codewords** lays their bits in the modules that are white. -/
theorem drawCodewords_laid (data : List UInt8) (dataLen : Nat) {qrcode : List UInt8}
    (good : (modules size).good qrcode) :
    Laid (modules size) (codewordBit data) (dataLen * 8) (zigzag size) (qrcode, 0)
      (drawCodewords data dataLen qrcode) := by
  have sized : getSize qrcode = size := good.2
  obtain ⟨inside, apart⟩ := zigzag_spec size
  have writes : ∀ cell, (modules size).inside cell → ∀ value, Writes (modules size) cell value
      fun qrcode => setModule qrcode cell.1 cell.2 value :=
    fun cell within value => writes_setModule within.1 within.2 value
  rw [drawCodewords, sized]
  exact layBits_laid writes inside apart good (Nat.zero_le _)

end Codewords

end VaultSeed.Qrcodegen
