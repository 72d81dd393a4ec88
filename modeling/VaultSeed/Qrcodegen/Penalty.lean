import VaultSeed.Qrcodegen.Drawing

/-! # The penalty of a mask

`getPenaltyScore` of `qrcodegen.c`, and how large it can get (`VaultSeed.Qrcodegen.penalty_lt`): it
is below the bound that the choice of a mask starts with, so that a mask is always chosen.
-/

namespace VaultSeed.Qrcodegen

/-- `PENALTY_N1` to `PENALTY_N4`. -/
def penaltyN1 : Nat := 3

@[inherit_doc penaltyN1] def penaltyN2 : Nat := 3

@[inherit_doc penaltyN1] def penaltyN3 : Nat := 40

@[inherit_doc penaltyN1] def penaltyN4 : Int := 10

/-- `finderPenaltyAddHistory`. -/
def finderPenaltyAddHistory (currentRunLength : Nat) (runHistory : List Nat) : List Nat :=
  currentRunLength :: runHistory.take 6

/-- `finderPenaltyCountPatterns`. -/
def finderPenaltyCountPatterns (runHistory : List Nat) : Nat :=
  let run index := runHistory.getD index 0
  let n := run 1
  let core := decide (n > 0 ∧ run 2 = n ∧ run 3 = n * 3 ∧ run 4 = n ∧ run 5 = n)
  (if core && decide (run 0 ≥ n * 4 ∧ run 6 ≥ n) then 1 else 0) +
    if core && decide (run 6 ≥ n * 4 ∧ run 0 ≥ n) then 1 else 0

/-- `finderPenaltyTerminateAndCount`. -/
def finderPenaltyTerminateAndCount (currentRunColor : Bool) (currentRunLength : Nat)
    (runHistory : List Nat) (qrsize : Nat) : Nat :=
  if currentRunColor then
    finderPenaltyCountPatterns (finderPenaltyAddHistory qrsize
      (finderPenaltyAddHistory currentRunLength runHistory))
  else finderPenaltyCountPatterns
    (finderPenaltyAddHistory (currentRunLength + qrsize) runHistory)

/-- `getPenaltyScore`: what the loop over a line changes. -/
structure LineScore where
  runColor : Bool
  run : Nat
  runHistory : List Nat
  padRun : Nat
  result : Nat

/-- `getPenaltyScore`, a turn of the loop over a line. -/
def LineScore.turn (line : Nat → Bool) (score : LineScore) (x : Nat) : LineScore :=
  if line x = score.runColor then
    let run := score.run + 1
    { score with
      run := run
      result := if run = 5 then score.result + penaltyN1
        else if run > 5 then score.result + 1 else score.result }
  else
    let runHistory := finderPenaltyAddHistory (score.run + score.padRun) score.runHistory
    { runColor := line x
      run := 1
      runHistory := runHistory
      padRun := 0
      result := if score.runColor = false then
        score.result + finderPenaltyCountPatterns runHistory * penaltyN3 else score.result }

/-- `getPenaltyScore`: a row or a column. -/
def linePenalty (qrsize : Nat) (line : Nat → Bool) : Nat :=
  let score := (List.range qrsize).foldl (LineScore.turn line)
    ⟨false, 0, List.replicate 7 0, qrsize, 0⟩
  score.result + finderPenaltyTerminateAndCount score.runColor (score.run + score.padRun)
    score.runHistory qrsize * penaltyN3

/-- `getPenaltyScore`: a square of two modules a side. -/
def blockPenalty (qrcode : List UInt8) (x y : Nat) : Nat :=
  let color := getModule qrcode x y
  if color = getModule qrcode (x + 1) y ∧ color = getModule qrcode x (y + 1) ∧
    color = getModule qrcode (x + 1) (y + 1) then penaltyN2 else 0

/-- A sum over the lines of a code. -/
def sumLines (count : Nat) (amount : Nat → Nat) : Nat :=
  (List.range count).foldl (fun total index => total + amount index) 0

/-- `getPenaltyScore`. -/
def getPenaltyScore (qrcode : List UInt8) : Int :=
  let qrsize := getSize qrcode
  let rows := sumLines qrsize fun y => linePenalty qrsize fun x => getModule qrcode x y
  let columns := sumLines qrsize fun x => linePenalty qrsize fun y => getModule qrcode x y
  let blocks := sumLines (qrsize - 1) fun y => sumLines (qrsize - 1) fun x =>
    blockPenalty qrcode x y
  let black := sumLines qrsize fun y =>
    sumLines qrsize fun x => if getModule qrcode x y then 1 else 0
  let total : Int := qrsize * qrsize
  let k := (((black * 20 - total * 10 : Int).natAbs : Int) + total - 1) / total - 1
  rows + columns + blocks + k * penaltyN4

section Bound

private theorem sumLines_le {count bound : Nat} {amount : Nat → Nat}
    (small : ∀ index, amount index ≤ bound) :
    sumLines count amount ≤ count * bound := by
  rw [sumLines]
  induction count with
  | zero => exact Nat.zero_le _
  | succ count ih =>
      rw [List.range_succ, List.foldl_append, Nat.succ_mul]
      exact Nat.add_le_add ih (small count)

private theorem finderPenaltyCountPatterns_le (runHistory : List Nat) :
    finderPenaltyCountPatterns runHistory ≤ 2 := by
  unfold finderPenaltyCountPatterns
  dsimp only
  split <;> split <;> decide

private theorem result_turn_le (line : Nat → Bool) (score : LineScore) (x : Nat) :
    (score.turn line x).result ≤ score.result + 80 := by
  rw [LineScore.turn]
  split
  · dsimp only [penaltyN1]
    split
    · omega
    · split <;> omega
  · have patterns := finderPenaltyCountPatterns_le
      (finderPenaltyAddHistory (score.run + score.padRun) score.runHistory)
    dsimp only [penaltyN3]
    split <;> omega

private theorem linePenalty_le (qrsize : Nat) (line : Nat → Bool) :
    linePenalty qrsize line ≤ (qrsize + 1) * 80 := by
  have turns : ∀ count, ((List.range count).foldl (LineScore.turn line)
      ⟨false, 0, List.replicate 7 0, qrsize, 0⟩).result ≤ count * 80 := by
    intro count
    induction count with
    | zero => exact Nat.le_refl _
    | succ count ih =>
        rw [List.range_succ, List.foldl_append, Nat.succ_mul]
        exact (result_turn_le line _ count).trans (Nat.add_le_add_right ih 80)
  have last := turns qrsize
  rw [linePenalty]
  dsimp only [penaltyN3]
  rw [finderPenaltyTerminateAndCount]
  split <;> rw [Nat.succ_mul] <;>
    exact Nat.add_le_add last (Nat.mul_le_mul_right 40 (finderPenaltyCountPatterns_le _))

/-- The balance of black and white modules is bounded. -/
theorem balance_le {black total : Nat} (fewer : black ≤ total) :
    (((black * 20 - total * 10 : Int).natAbs : Int) + total - 1) / total - 1 ≤ 10 := by
  rcases Nat.eq_zero_or_pos total with rfl | positive
  · change _ / (0 : Int) - 1 ≤ 10
    rw [Int.ediv_zero]
    decide
  · have share := Int.ediv_le_of_le_mul (by omega : (0 : Int) < total)
      (by omega : ((black * 20 - total * 10 : Int).natAbs : Int) + total - 1 ≤ 11 * total)
    omega

/-- **The penalty is bounded**, whatever the modules are. -/
theorem penalty_lt (qrcode : List UInt8) : getPenaltyScore qrcode < 2 ^ 31 - 1 := by
  have small : getSize qrcode < 256 := UInt8.toNat_lt _
  rw [getPenaltyScore]
  dsimp only [penaltyN4]
  generalize getSize qrcode = qrsize at small
  have size : qrsize ≤ 255 := Nat.le_of_lt_succ small
  have line : ∀ line : Nat → Bool, linePenalty qrsize line ≤ 256 * 80 := fun line =>
    (linePenalty_le qrsize line).trans (Nat.mul_le_mul_right 80 (Nat.succ_le_succ size))
  have sums : ∀ {amount : Nat → Nat} (count bound : Nat), (∀ index, amount index ≤ bound) →
      count ≤ 255 → sumLines count amount ≤ 255 * bound := fun count bound amounts few =>
    (sumLines_le amounts).trans (Nat.mul_le_mul_right bound few)
  have rows := sums qrsize _ (fun y => line fun x => getModule qrcode x y) size
  have columns := sums qrsize _ (fun x => line fun y => getModule qrcode x y) size
  have block : ∀ y x, blockPenalty qrcode x y ≤ 3 := fun y x => by
    rw [blockPenalty]
    split <;> decide
  have blocks := sums (qrsize - 1) _ (fun y => sums (qrsize - 1) 3 (block y) (by omega)) (by omega)
  have black : (sumLines qrsize fun y => sumLines qrsize fun x =>
      if getModule qrcode x y then 1 else 0) ≤ qrsize * qrsize := by
    refine sumLines_le fun y => (sumLines_le fun x => ?_).trans_eq (Nat.mul_one qrsize)
    split <;> decide
  have balance := balance_le black
  rw [Int.natCast_mul] at balance
  omega

end Bound

section Congr

private theorem sumLines_congr {count : Nat} {first second : Nat → Nat}
    (same : ∀ index < count, first index = second index) :
    sumLines count first = sumLines count second :=
  List.foldl_ext _ _ _ fun total index member =>
    congrArg (total + ·) (same index (List.mem_range.mp member))

private theorem linePenalty_congr {qrsize : Nat} {first second : Nat → Bool}
    (same : ∀ x < qrsize, first x = second x) :
    linePenalty qrsize first = linePenalty qrsize second := by
  have turns : (List.range qrsize).foldl (LineScore.turn first)
      ⟨false, 0, List.replicate 7 0, qrsize, 0⟩ = (List.range qrsize).foldl
        (LineScore.turn second) ⟨false, 0, List.replicate 7 0, qrsize, 0⟩ := by
    refine List.foldl_ext _ _ _ fun score x member => ?_
    rw [LineScore.turn, LineScore.turn, same x (List.mem_range.mp member)]
  rw [linePenalty, linePenalty, turns]

/-- The penalty is one of the modules. -/
theorem getPenaltyScore_congr {first second : List UInt8} (size : getSize first = getSize second)
    (same : ∀ x < getSize first, ∀ y < getSize first,
      getModule first x y = getModule second x y) :
    getPenaltyScore first = getPenaltyScore second := by
  have rows : (sumLines (getSize first) fun y => linePenalty (getSize first) fun x =>
      getModule first x y) = sumLines (getSize first) fun y => linePenalty (getSize first) fun x =>
        getModule second x y :=
    sumLines_congr fun y row => linePenalty_congr fun x column => same x column y row
  have columns : (sumLines (getSize first) fun x => linePenalty (getSize first) fun y =>
      getModule first x y) = sumLines (getSize first) fun x => linePenalty (getSize first) fun y =>
        getModule second x y :=
    sumLines_congr fun x column => linePenalty_congr fun y row => same x column y row
  have blocks : (sumLines (getSize first - 1) fun y => sumLines (getSize first - 1) fun x =>
      blockPenalty first x y) = sumLines (getSize first - 1) fun y =>
        sumLines (getSize first - 1) fun x => blockPenalty second x y := by
    refine sumLines_congr fun y row => sumLines_congr fun x column => ?_
    rw [blockPenalty, blockPenalty, same x (by omega) y (by omega),
      same (x + 1) (by omega) y (by omega), same x (by omega) (y + 1) (by omega),
      same (x + 1) (by omega) (y + 1) (by omega)]
  have black : (sumLines (getSize first) fun y => sumLines (getSize first) fun x =>
      if getModule first x y then 1 else 0) = sumLines (getSize first) fun y =>
        sumLines (getSize first) fun x => if getModule second x y then 1 else 0 := by
    refine sumLines_congr fun y row => sumLines_congr fun x column => ?_
    rw [same x column y row]
  rw [getPenaltyScore, getPenaltyScore, ← size, rows, columns, blocks, black]

end Congr

end VaultSeed.Qrcodegen
