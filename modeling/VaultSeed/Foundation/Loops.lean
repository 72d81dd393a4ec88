import Mathlib.Logic.Function.Iterate
import Mathlib.Order.Basic
import Mathlib.Tactic.Common

/-! # Loops with a condition

A loop that takes at most a number of turns (`Loops.whileDo`) has a result when a measure falls
in every turn: once the turns are as many as the measure, the result does not depend on them
(`Loops.exists_whileDo`).
-/

namespace Loops

variable {State : Type}

/-- Repeat a body while a condition holds, at most `fuel` times; nothing when these are too
few. -/
def whileDo (condition : State → Bool) (body : State → State) : Nat → State → Option State
  | 0, state => if condition state then none else some state
  | fuel + 1, state => if condition state then whileDo condition body fuel (body state)
      else some state

variable {condition : State → Bool} {body : State → State} {state : State}

/-- A loop whose condition is false takes no turn. -/
theorem whileDo_of_not (ends : condition state = false) (fuel : Nat) :
    whileDo condition body fuel state = some state := by
  cases fuel with
  | zero => rw [whileDo, ends]; rfl
  | succ fuel => rw [whileDo, ends]; rfl

/-- Turns whose condition holds are taken. -/
theorem whileDo_add {turns : Nat} (holds : ∀ turn < turns, condition (body^[turn] state) = true)
    (fuel : Nat) :
    whileDo condition body (turns + fuel) state =
      whileDo condition body fuel (body^[turns] state) := by
  induction turns generalizing state with
  | zero => rw [Nat.zero_add]; rfl
  | succ turns ih =>
      have first : condition state = true := holds 0 (Nat.succ_pos turns)
      rw [Nat.succ_add, whileDo, if_pos first, Function.iterate_succ_apply]
      exact ih fun turn less => holds (turn + 1) (Nat.succ_lt_succ less)

/-- A loop ends with what its body keeps, and its condition no longer holds. -/
theorem exists_whileDo {kept : State → Prop} (measure : State → Nat)
    (next : ∀ state, kept state → condition state = true →
      kept (body state) ∧ measure (body state) < measure state) (begins : kept state) :
    ∃ last, (∀ fuel, measure state ≤ fuel → whileDo condition body fuel state = some last) ∧
      kept last ∧ condition last = false := by
  generalize bound : measure state = turns
  induction turns using Nat.strongRecOn generalizing state with
  | ind turns ih =>
      cases holds : condition state with
      | false => exact ⟨state, fun fuel _ => whileDo_of_not holds fuel, begins, holds⟩
      | true =>
          obtain ⟨keeps, falls⟩ := next state begins holds
          obtain ⟨last, ends, keepsLast, done⟩ := ih _ (bound ▸ falls) keeps rfl
          refine ⟨last, ?_, keepsLast, done⟩
          intro fuel enough
          cases fuel with
          | zero => omega
          | succ fuel =>
              rw [whileDo, holds]
              exact ends fuel (by omega)

end Loops
