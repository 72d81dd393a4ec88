import VaultSeed.Qrcodegen.Capacity
import VaultSeed.Quirc.Reading
import Mathlib.Tactic.IntervalCases

/-! # The layout that both sides share

The cells that `reserved_cell` of the scanner leaves out are the function modules of the generator
(`VaultSeed.Quirc.reservedCell_eq`), its masks flip the same cells (`VaultSeed.Quirc.maskBit_eq`),
and its zigzag visits them in the same order (`VaultSeed.Quirc.readData_spec`).
-/

namespace VaultSeed.Quirc

open Loops Qrcodegen

/-- Both sides flip the same cells. -/
theorem maskBit_eq {mask : Nat} (small : mask < 8) (x y : Nat) :
    maskBit mask y x = invert mask x y := by
  interval_cases mask <;> simp only [maskBit, invert, Nat.add_comm, Nat.mul_comm]

section Reserved

variable {version : Nat}

/-- The scanner's alignment patterns are the generator's, up to a zero that ends them. -/
theorem apat_eq : ∀ version ≤ 20, 1 ≤ version →
    (versionInfo version).apat = getAlignmentPatternPositions version ++ [0] ∧
    (getAlignmentPatternPositions version).length < quircMaxAlignment ∧
    (getAlignmentPatternPositions version).length ≠ 1 ∧
    (∀ p ∈ getAlignmentPatternPositions version, 6 ≤ p) ∧
    (getAlignmentPatternPositions version).Pairwise (fun p q => p + 5 ≤ q) := by
  decide +kernel

/-- A position is close to a coordinate. -/
def Close (p i : Nat) : Prop := p ≤ i + 2 ∧ i ≤ p + 2

private theorem natAbs_lt_iff (p i : Nat) : ((p : Int) - i).natAbs < 3 ↔ Close p i := by
  rw [Close]
  omega

/-- Which of some positions is close to a coordinate. -/
def Hit (positions : List Nat) (i : Nat) (hit : Option Nat) : Prop :=
  ∀ k, hit = some k ↔ ∃ p, positions[k]? = some p ∧ Close p i

/-- One position more. -/
theorem Hit.concat {positions : List Nat} {i p : Nat} {hit : Option Nat}
    (known : Hit positions i hit) (apart : ∀ q ∈ positions, q + 5 ≤ p) :
    Hit (positions ++ [p]) i
      (if ((p : Int) - i).natAbs < 3 then some positions.length else hit) := by
  intro k
  by_cases near : Close p i
  · rw [if_pos ((natAbs_lt_iff p i).mpr near), Option.some.injEq]
    constructor
    · rintro rfl
      exact ⟨p, List.getElem?_concat_length, near⟩
    · rintro ⟨q, found, close⟩
      by_contra differ
      rcases Nat.lt_or_gt_of_ne differ with past | before
      · rw [List.getElem?_eq_none (by simp; omega)] at found
        cases found
      · rw [List.getElem?_append_left before] at found
        have far := apart q (List.mem_of_getElem? found)
        rw [Close] at near close
        omega
  · rw [if_neg (mt (natAbs_lt_iff p i).mp near), known k]
    constructor
    · rintro ⟨q, found, close⟩
      obtain ⟨inside, -⟩ := List.getElem?_eq_some_iff.mp found
      exact ⟨q, (List.getElem?_append_left inside).trans found, close⟩
    · rintro ⟨q, found, close⟩
      rcases Nat.lt_or_ge k positions.length with before | past
      · rw [List.getElem?_append_left before] at found
        exact ⟨q, found, close⟩
      · rw [List.getElem?_append_right past] at found
        obtain rfl : q = p := by
          have last := List.mem_of_getElem? found
          simpa using last
        exact absurd close near

/-- The loop over the alignment patterns finds which of them is close. -/
theorem alignmentHits_spec {i j : Nat} {before after : List Nat} {ai aj : Option Nat}
    (apart : (before ++ after).Pairwise fun p q => p + 5 ≤ q) (some : ∀ p ∈ after, p ≠ 0)
    (few : (before ++ after).length < quircMaxAlignment) (rows : Hit before i ai)
    (columns : Hit before j aj) :
    ∃ row column, alignmentHits i j before.length (after ++ [0]) ai aj =
        ((before ++ after).length, row, column) ∧
      Hit (before ++ after) i row ∧ Hit (before ++ after) j column := by
  induction after generalizing before ai aj with
  | nil =>
      rw [List.append_nil]
      exact ⟨ai, aj, if_neg fun both => both.2 rfl, rows, columns⟩
  | cons p after ih =>
      have far : ∀ q ∈ before, q + 5 ≤ p := fun q member =>
        (List.pairwise_append.mp apart).2.2 q member p List.mem_cons_self
      have inside : before.length < quircMaxAlignment := by
        rw [List.length_append] at few
        omega
      have whole : before ++ p :: after = (before ++ [p]) ++ after := by simp
      rw [whole] at apart few ⊢
      rw [List.cons_append, alignmentHits, if_pos ⟨inside, some p List.mem_cons_self⟩]
      obtain ⟨row, column, last, hits⟩ := ih apart
        (fun q member => some q (List.mem_cons_of_mem _ member)) few (rows.concat far)
        (columns.concat far)
      rw [List.length_append, List.length_singleton] at last
      exact ⟨row, column, last, hits⟩

private theorem hit_nil (i : Nat) : Hit [] i none := fun k => by simp

/-- A corner of the alignment patterns, where a finder pattern is. -/
def Corner (count a b : Nat) : Prop := a = 0 ∧ b = 0 ∨ a = 0 ∧ b = count - 1 ∨ a = count - 1 ∧ b = 0

/-- The alignment patterns that are drawn, by their positions. -/
theorem mem_alignmentPatterns {center : Nat × Nat} :
    center ∈ alignmentPatterns version ↔
      ∃ a b, (getAlignmentPatternPositions version)[a]? = some center.1 ∧
        (getAlignmentPatternPositions version)[b]? = some center.2 ∧
        ¬Corner (getAlignmentPatternPositions version).length a b := by
  rw [alignmentPatterns]
  simp only [List.mem_flatMap, List.mem_filterMap, List.mem_range]
  constructor
  · rintro ⟨a, inRows, b, inColumns, drawn⟩
    split at drawn
    · cases drawn
    · next corner =>
        obtain rfl := Option.some.inj drawn
        refine ⟨a, b, ?_, ?_, corner⟩
        · rw [List.getD_eq_getElem _ _ inRows, List.getElem?_eq_getElem inRows]
        · rw [List.getD_eq_getElem _ _ inColumns, List.getElem?_eq_getElem inColumns]
  · rintro ⟨a, b, row, column, corner⟩
    obtain ⟨inRows, rowValue⟩ := List.getElem?_eq_some_iff.mp row
    obtain ⟨inColumns, columnValue⟩ := List.getElem?_eq_some_iff.mp column
    refine ⟨a, inRows, b, inColumns, ?_⟩
    rw [Corner] at corner
    rw [if_neg corner, List.getD_eq_getElem _ _ inRows, List.getD_eq_getElem _ _ inColumns,
      rowValue,
      columnValue]

private theorem rectangle_iff_close {p q x y : Nat} (left : 6 ≤ p) (top : 6 ≤ q) :
    rectangle (p - 2) (q - 2) 5 5 (x, y) = true ↔ Close p x ∧ Close q y := by
  rw [rectangle_eq_true, Close, Close]
  dsimp only
  omega

/-- Two positions that are hit are of a pattern that is drawn, unless they are of a corner. -/
theorem exists_alignmentPatterns {x y : Nat} {row column : Option Nat}
    (large : ∀ p ∈ getAlignmentPatternPositions version, 6 ≤ p)
    (rows : Hit (getAlignmentPatternPositions version) y row)
    (columns : Hit (getAlignmentPatternPositions version) x column) :
    (∃ center ∈ alignmentPatterns version,
        rectangle (center.1 - 2) (center.2 - 2) 5 5 (x, y) = true) ↔
      ∃ a b, column = some a ∧ row = some b ∧
        ¬Corner (getAlignmentPatternPositions version).length a b := by
  constructor
  · rintro ⟨center, member, inside⟩
    obtain ⟨a, b, first, second, corner⟩ := mem_alignmentPatterns.mp member
    obtain ⟨near, close⟩ := (rectangle_iff_close (large _ (List.mem_of_getElem? first))
      (large _ (List.mem_of_getElem? second))).mp inside
    exact ⟨a, b, (columns a).mpr ⟨_, first, near⟩, (rows b).mpr ⟨_, second, close⟩, corner⟩
  · rintro ⟨a, b, column, row, corner⟩
    obtain ⟨p, first, near⟩ := (columns a).mp column
    obtain ⟨q, second, close⟩ := (rows b).mp row
    exact ⟨(p, q), mem_alignmentPatterns.mpr ⟨a, b, first, second, corner⟩,
      (rectangle_iff_close (large _ (List.mem_of_getElem? first))
        (large _ (List.mem_of_getElem? second))).mpr ⟨near, close⟩⟩

/-- What `reserved_cell` asks of the patterns that are close: they are not those of a corner. -/
theorem not_corner_iff {last ai aj : Nat} (several : 1 ≤ last) (row : ai ≤ last)
    (column : aj ≤ last) :
    (0 < ai ∧ ai < last ∨ 0 < aj ∧ aj < last ∨ aj = last ∧ ai = last) ↔
      ¬Corner (last + 1) aj ai := by
  rw [Corner, Nat.add_sub_cancel]
  omega

/-- The branch of the alignment patterns. -/
theorem patternBranch_iff {count : Nat} {row column : Option Nat} (several : count ≠ 1)
    (rows : ∀ k, row = some k → k < count) (columns : ∀ k, column = some k → k < count) :
    (match (count, row, column) with
      | (a, some ai, some aj) =>
        let a := a - 1
        decide (0 < ai ∧ ai < a ∨ 0 < aj ∧ aj < a ∨ aj = a ∧ ai = a)
      | _ => false) = true ↔
      ∃ a b, column = some a ∧ row = some b ∧ ¬Corner count a b := by
  cases row with
  | none => simp
  | some ai =>
      cases column with
      | none => simp
      | some aj =>
          have low := rows ai rfl
          have left := columns aj rfl
          obtain ⟨last, rfl⟩ : ∃ last, count = last + 1 := ⟨count - 1, by omega⟩
          dsimp only
          rw [decide_eq_true_iff, Nat.add_sub_cancel,
            not_corner_iff (by omega) (Nat.le_of_lt_succ low) (Nat.le_of_lt_succ left)]
          constructor
          · intro corner
            exact ⟨aj, ai, rfl, rfl, corner⟩
          · rintro ⟨a, b, first, second, corner⟩
            obtain rfl := Option.some.inj first
            obtain rfl := Option.some.inj second
            exact corner

private theorem Hit.lt {positions : List Nat} {i k : Nat} {hit : Option Nat}
    (known : Hit positions i hit)
    (found : hit = some k) : k < positions.length := by
  obtain ⟨_, inside, -⟩ := (known k).mp found
  exact (List.getElem?_eq_some_iff.mp inside).1

/-- **The reserved cells** are the function modules. -/
theorem reservedCell_eq (positive : 1 ≤ version) (most : version ≤ 20) {x y : Nat}
    (column : x < side version) (row : y < side version) :
    reservedCell version y x = functionModule version (x, y) := by
  obtain ⟨patterns, few, several, large, apart⟩ := apat_eq version most positive
  obtain ⟨ai, aj, found, rows, columns⟩ := alignmentHits_spec
    (show ([] ++ getAlignmentPatternPositions version).Pairwise fun p q => p + 5 ≤ q from apart)
    (fun p member => Nat.ne_of_gt (Nat.lt_of_lt_of_le (by decide) (large p member))) few
    (hit_nil y) (hit_nil x)
  have sized : side version = version * 4 + 17 := rfl
  have branch := patternBranch_iff several (fun k hit => rows.lt hit) fun k hit => columns.lt hit
  rw [List.nil_append] at found
  rw [Bool.eq_iff_iff]
  change _ ↔ Function version (x, y)
  rw [function_iff, exists_alignmentPatterns large rows columns]
  simp only [rectangle_eq_true]
  rw [reservedCell, patterns]
  rw [show alignmentHits y x 0 (getAlignmentPatternPositions version ++ [0]) none none =
      _ from found,
    ← sized]
  dsimp only
  generalize (∃ a b, aj = some a ∧ ai = some b ∧
    ¬Corner (getAlignmentPatternPositions version).length a b) = drawn at branch ⊢
  split
  · exact iff_of_true rfl (.inr (.inr (.inl (by omega))))
  split
  · exact iff_of_true rfl (.inr (.inr (.inr (.inr (.inl (by omega))))))
  split
  · exact iff_of_true rfl (.inr (.inr (.inr (.inl (by omega)))))
  split
  · next timing => exact iff_of_true rfl (timing.elim (fun row => .inr (.inl row)) .inl)
  split
  · exact iff_of_true rfl (.inr (.inr (.inr (.inr (.inr (.inr (by omega)))))))
  split
  · exact iff_of_true rfl (.inr (.inr (.inr (.inr (.inr (.inr (by omega)))))))
  refine branch.trans ?_
  constructor
  · intro drawn
    exact .inr (.inr (.inr (.inr (.inr (.inl drawn)))))
  · rintro (h | h | h | h | h | h | h)
    all_goals first | exact h | omega

end Reserved

section Zigzag

variable {code : Code} {version mask : Nat}

/-- Reading cells, one after the other. -/
def readCells (code : Code) (version mask : Nat) (ds : Datastream) (cells : List (Nat × Nat)) :
    Datastream :=
  cells.foldl (fun ds cell => readCell code version mask ds cell.2 cell.1) ds

/-- The row of a turn in a column. -/
def turnRow (qrsize right vert : Nat) : Nat :=
  if (right + 1) / 2 % 2 = 0 then qrsize - 1 - vert else vert

/-- The direction in a column. -/
def direction (right : Nat) : Int := if (right + 1) / 2 % 2 = 0 then -1 else 1

private theorem columnPair_eq (qrsize right : Nat) :
    columnPair qrsize right = (List.range qrsize).flatMap fun vert =>
      [(right, turnRow qrsize right vert), (right - 1, turnRow qrsize right vert)] := rfl

private theorem turnRow_step {qrsize right vert : Nat} (less : vert + 1 < qrsize) :
    (turnRow qrsize right vert : Int) + direction right = turnRow qrsize right (vert + 1) := by
  rw [turnRow, turnRow, direction]
  split <;> omega

private theorem turnRow_lt {qrsize right vert : Nat} (less : vert < qrsize) :
    turnRow qrsize right vert < qrsize := by
  rw [turnRow]
  split <;> omega

/-- The last turn of a column steps out of the code. -/
theorem turnRow_last {qrsize right : Nat} (positive : 0 < qrsize) :
    (turnRow qrsize right (qrsize - 1) : Int) + direction right < 0 ∨
      (turnRow qrsize right (qrsize - 1) : Int) + direction right ≥ qrsize := by
  rw [turnRow, direction]
  split
  · exact .inl (by omega)
  · exact .inr (by omega)

/-- The column a turn reads, from where the turn begins. -/
def AtColumn (x : Int) (right : Nat) : Prop := (if x = 6 then x - 1 else x) = right

/-- The cells of a turn. -/
theorem turn_ds {right row : Nat} {x dir : Int} {ds : Datastream} (positive : 1 ≤ right)
    (column : AtColumn x right) :
    (Scan.turn code version mask ⟨x, row, dir, ds⟩).ds =
      readCells code version mask ds [(right, row), (right - 1, row)] := by
  have left : ((right - 1 : Nat) : Int) = right - 1 := by omega
  rw [AtColumn] at column
  rw [readCells, List.foldl_cons, List.foldl_cons, List.foldl_nil, left, Scan.turn]
  dsimp only
  rw [column]
  split <;> rfl

/-- A turn that stays in the column. -/
theorem turn_stay {right vert : Nat} {x : Int} {ds : Datastream} (positive : 1 ≤ right)
    (column : AtColumn x right) (less : vert + 1 < code.size) :
    Scan.turn code version mask ⟨x, turnRow code.size right vert, direction right, ds⟩ =
      ⟨right, turnRow code.size right (vert + 1), direction right,
        readCells code version mask ds
          [(right, turnRow code.size right vert), (right - 1, turnRow code.size right vert)]⟩ := by
  have read : (Scan.turn code version mask
      ⟨x, turnRow code.size right vert, direction right, ds⟩).ds = _ := turn_ds positive column
  have inside : turnRow code.size right (vert + 1) < code.size := turnRow_lt less
  rw [AtColumn] at column
  rw [← read, Scan.turn]
  dsimp only
  rw [column, turnRow_step less, if_neg (by omega)]

/-- The turn that leaves the column. -/
theorem turn_leave {right : Nat} {x : Int} {ds : Datastream} (positive : 1 ≤ right)
    (column : AtColumn x right) (some : 0 < code.size) :
    Scan.turn code version mask
        ⟨x, turnRow code.size right (code.size - 1), direction right, ds⟩ =
      ⟨right - 2, turnRow code.size right (code.size - 1), -direction right,
        readCells code version mask ds
          [(right, turnRow code.size right (code.size - 1)),
            (right - 1, turnRow code.size right (code.size - 1))]⟩ := by
  have read : (Scan.turn code version mask
      ⟨x, turnRow code.size right (code.size - 1), direction right, ds⟩).ds = _ :=
    turn_ds positive column
  rw [AtColumn] at column
  rw [← read, Scan.turn]
  dsimp only
  rw [column, if_pos (turnRow_last some), Int.add_assoc, Int.add_right_neg, Int.add_zero]

/-- **The turns in a column**: each but the last stays in it. -/
theorem turns_stay (code : Code) (version mask vert : Nat) (ds : Datastream) {right : Nat}
    {x : Int} (positive : 1 ≤ right) (column : AtColumn x right) (less : vert < code.size) :
    ∃ x', AtColumn x' right ∧ (0 < x → 0 < x') ∧
      (Scan.turn code version mask)^[vert]
          ⟨x, turnRow code.size right 0, direction right, ds⟩ =
        ⟨x', turnRow code.size right vert, direction right,
          readCells code version mask ds ((List.range vert).flatMap fun vert =>
            [(right, turnRow code.size right vert),
              (right - 1, turnRow code.size right vert)])⟩ := by
  induction vert with
  | zero => exact ⟨x, column, id, rfl⟩
  | succ vert ih =>
      obtain ⟨x', column', -, run⟩ := ih (Nat.lt_of_succ_lt less)
      by_cases six : right = 6
      · rw [AtColumn] at column
        split at column <;> omega
      · refine ⟨right, if_neg (by omega), fun _ => by omega, ?_⟩
        rw [Function.iterate_succ_apply', run, turn_stay positive column' less, List.range_succ,
          List.flatMap_append, List.flatMap_singleton, readCells, readCells, readCells,
          List.foldl_append]

/-- **A column** is read as the generator fills it. -/
theorem turns_column {right : Nat} {x : Int} {ds : Datastream} (positive : 1 ≤ right)
    (column : AtColumn x right) (some : 0 < code.size) :
    (Scan.turn code version mask)^[code.size]
        ⟨x, turnRow code.size right 0, direction right, ds⟩ =
      ⟨right - 2, turnRow code.size right (code.size - 1), -direction right,
        readCells code version mask ds (columnPair code.size right)⟩ := by
  obtain ⟨x', column', -, run⟩ := turns_stay code version mask (code.size - 1) ds positive column
    (Nat.sub_lt some Nat.zero_lt_one)
  have rows : List.range code.size = List.range (code.size - 1) ++ [code.size - 1] := by
    rw [← List.range_succ, Nat.succ_eq_add_one, Nat.sub_add_cancel some]
  have whole : ∀ scan, (Scan.turn code version mask)^[code.size] scan =
      Scan.turn code version mask ((Scan.turn code version mask)^[code.size - 1] scan) := by
    intro scan
    rw [← Function.iterate_succ_apply' (Scan.turn code version mask), Nat.succ_eq_add_one,
      Nat.sub_add_cancel some]
  rw [whole, run, turn_leave positive column' some, columnPair_eq, rows, List.flatMap_append,
    List.flatMap_singleton, readCells, readCells, readCells, List.foldl_append]

/-- The other direction, from the row where the column ends. -/
theorem turnRow_next {qrsize right next : Nat}
    (turned : (next + 1) / 2 % 2 ≠ (right + 1) / 2 % 2) :
    turnRow qrsize right (qrsize - 1) = turnRow qrsize next 0 ∧
      -direction right = direction next := by
  rw [turnRow, turnRow, direction, direction]
  split <;> split <;> omega

/-- The loop ends when no column is left. -/
theorem whileDo_ended {x y dir : Int} {ds : Datastream} (ended : x ≤ 0) (turns : Nat) :
    Loops.whileDo (fun scan : Scan => decide (scan.x > 0)) (Scan.turn code version mask) turns
      ⟨x, y, dir, ds⟩ = some ⟨x, y, dir, ds⟩ := by
  refine whileDo_of_not ?_ turns
  exact decide_eq_false (Int.not_lt.mpr ended)

/-- **The columns** are read in the order in which the generator fills them. -/
theorem whileDo_columns (code : Code) (version mask : Nat) (ds : Datastream) {fuel right : Nat}
    {x : Int} (enough : right ≤ fuel) (begins : x = right ∨ right = 0 ∧ x ≤ 0)
    (some : 0 < code.size) {turns : Nat}
    (room : code.size * (rights fuel right).length ≤ turns) :
    (Loops.whileDo (fun scan : Scan => decide (scan.x > 0)) (Scan.turn code version mask) turns
      ⟨x, turnRow code.size (if right = 6 then 5 else right) 0,
        direction (if right = 6 then 5 else right), ds⟩).map Scan.ds =
      Option.some (readCells code version mask ds
        ((rights fuel right).flatMap (columnPair code.size))) := by
  induction fuel generalizing right x ds turns with
  | zero =>
      rw [whileDo_ended (by omega)]
      rfl
  | succ fuel ih =>
      rw [rights] at room ⊢
      by_cases positive : right ≥ 1
      · rw [if_pos positive] at room ⊢
        dsimp only at room ⊢
        have column : AtColumn x (if right = 6 then 5 else right) := by
          rw [AtColumn]
          split <;> split <;> omega
        have here : 1 ≤ if right = 6 then 5 else right := by split <;> omega
        have less : (if right = 6 then 5 else right) ≤ right := by split <;> omega
        have begun : 0 < x := by omega
        generalize (if right = 6 then 5 else right) = column' at *
        rw [List.length_cons, Nat.mul_succ] at room
        obtain ⟨left, rfl⟩ : ∃ left, turns = code.size + left := ⟨turns - code.size, by omega⟩
        rw [Loops.whileDo_add, turns_column here column some]
        · obtain ⟨row, turned⟩ : turnRow code.size column' (code.size - 1) =
              turnRow code.size (if column' - 2 = 6 then 5 else column' - 2) 0 ∧
              -direction column' = direction (if column' - 2 = 6 then 5 else column' - 2) :=
            turnRow_next (by split <;> omega)
          rw [row, turned, ih _ (by omega) (by omega) (by omega), List.flatMap_cons, readCells,
            readCells, readCells, List.foldl_append]
        · intro turn inside
          obtain ⟨x', -, keeps, run⟩ := turns_stay code version mask turn ds here column inside
          rw [run]
          exact decide_eq_true (keeps begun)
      · rw [if_neg positive, whileDo_ended (by omega)]
        rfl

private theorem length_rights (fuel right : Nat) : (rights fuel right).length ≤ fuel := by
  induction fuel generalizing right with
  | zero => exact Nat.le_refl _
  | succ fuel ih =>
      rw [rights]
      split
      · exact Nat.succ_le_succ (ih _)
      · exact Nat.zero_le _

/-- A cell as it is read, without its mask. -/
def unmasked (code : Code) (mask : Nat) (cell : Nat × Nat) : Bool :=
  gridBit code cell.1 cell.2 ^^ maskBit mask cell.2 cell.1

/-- Cells are gathered but for the function modules. -/
theorem gathered_readCells (positive : 1 ≤ version) (most : version ≤ 20) {ds : Datastream}
    {bits : List Bool} (gathered : Gathered ds bits) {cells : List (Nat × Nat)}
    (inside : ∀ cell ∈ cells, (modules (side version)).inside cell)
    (room : bits.length + (cells.filter fun cell => !functionModule version cell).length ≤
      quircMaxPayload * 8) :
    Gathered (readCells code version mask ds cells)
      (bits ++ (cells.filter fun cell => !functionModule version cell).map
        (unmasked code mask)) := by
  induction cells generalizing ds bits with
  | nil => exact (List.append_nil bits).symm ▸ gathered
  | cons cell cells ih =>
      obtain ⟨column, row⟩ := inside cell List.mem_cons_self
      have insideRest : ∀ other ∈ cells, (modules (side version)).inside other :=
        fun other member => inside other (List.mem_cons_of_mem _ member)
      have step : readCells code version mask ds (cell :: cells) = readCells code version mask
          (if functionModule version cell then ds else readBit code mask ds cell.2 cell.1)
            cells := by
        rw [readCells, List.foldl_cons, readCell, Int.toNat_natCast, Int.toNat_natCast,
          reservedCell_eq positive most column row, readCells]
      rw [step]
      rw [List.filter_cons] at room ⊢
      by_cases function : functionModule version cell = true
      · rw [if_pos function]
        rw [if_neg (by rw [function]; decide)] at room ⊢
        exact ih gathered insideRest room
      · rw [if_neg function]
        rw [if_pos (by simpa using function)] at room ⊢
        rw [List.length_cons] at room
        rw [List.map_cons, ← List.singleton_append, ← List.append_assoc]
        refine ih (gathered.readBit (by omega) cell.2 cell.1) insideRest ?_
        rw [List.length_append, List.length_singleton]
        omega

/-- The scanner has room for the modules of its versions. -/
theorem getNumRawDataModules_le : ∀ version ≤ 20,
    getNumRawDataModules version ≤ quircMaxPayload * 8 := by
  decide

/-- **Reading the data** gives the modules that are not function modules, in the order of the
generator. -/
theorem readData_spec (positive : 1 ≤ version) (most : version ≤ 20)
    (size : code.size = side version) :
    ∃ ds, readData code version mask = some ds ∧
      Gathered ds ((dataModules version).map (unmasked code mask)) := by
  have sized : side version = version * 4 + 17 := rfl
  have room : code.size * (rights code.size (code.size - 1)).length ≤ code.size * code.size :=
    Nat.mul_le_mul_left _ (length_rights _ _)
  have first : ((code.size : Int) - 1) = (code.size - 1 : Nat) := by omega
  have read := whileDo_columns code version mask ⟨List.replicate quircMaxPayload 0, 0⟩
    (Nat.sub_le code.size 1) (.inl first) (by omega) room
  rw [if_neg (by omega), turnRow, direction, if_pos (by omega), if_pos (by omega), Nat.sub_zero,
    ← first] at read
  have payload : ([] : List Bool).length + ((zigzag (side version)).filter
      fun cell => !functionModule version cell).length ≤ quircMaxPayload * 8 := by
    have capacity := length_dataModules positive (Nat.le_trans most (by decide))
    rw [dataModules] at capacity
    rw [List.length_nil, capacity, Nat.zero_add]
    exact getNumRawDataModules_le version most
  refine ⟨_, read, ?_⟩
  rw [size, ← List.nil_append (List.map _ _)]
  exact gathered_readCells positive most gathered_nil (zigzag_spec (side version)).1 payload

end Zigzag

end VaultSeed.Quirc
