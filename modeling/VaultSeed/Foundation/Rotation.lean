import Mathlib.Logic.Function.Iterate
import Mathlib.Logic.ExistsUnique
import Mathlib.Tactic.Common

/-! # Going around

A step goes around the states of a set when it takes each to the one of the next rank, and the
last rank to the first. Taken once for every rank it comes to each of them exactly once
(`Rotation.Rotates.existsUnique_turns`) and back to where it began
(`Rotation.Rotates.around`).
-/

namespace Rotation

variable {State : Type}

/-- A step goes around a set of states, which are told apart by their ranks. -/
structure Rotates (good : State → Prop) (rank : State → Nat) (size : Nat) (step : State → State) :
    Prop where
  keeps : ∀ state, good state → good (step state)
  inside : ∀ state, good state → rank state < size
  next : ∀ state, good state → rank (step state) = (rank state + 1) % size
  apart : ∀ first second, good first → good second → rank first = rank second → first = second

variable {good : State → Prop} {rank : State → Nat} {size : Nat} {step : State → State}
  {state : State}

/-- Any number of steps keeps a good state. -/
theorem Rotates.keeps_iterate (rotates : Rotates good rank size step) (turns : Nat)
    (begins : good state) : good (step^[turns] state) := by
  induction turns with
  | zero => exact begins
  | succ turns ih =>
      rw [Function.iterate_succ_apply']
      exact rotates.keeps _ ih

/-- Turns are counted by the rank. -/
theorem Rotates.rank_iterate (rotates : Rotates good rank size step) (turns : Nat)
    (begins : good state) : rank (step^[turns] state) = (rank state + turns) % size := by
  induction turns with
  | zero => exact (Nat.mod_eq_of_lt (rotates.inside state begins)).symm
  | succ turns ih =>
      rw [Function.iterate_succ_apply', rotates.next _ (rotates.keeps_iterate turns begins), ih,
        Nat.mod_add_mod, Nat.add_assoc]

/-- Once around is back again. -/
theorem Rotates.around (rotates : Rotates good rank size step) (begins : good state) :
    step^[size] state = state := by
  apply rotates.apart _ _ (rotates.keeps_iterate size begins) begins
  rw [rotates.rank_iterate size begins, Nat.add_mod_right,
    Nat.mod_eq_of_lt (rotates.inside state begins)]

/-- Every rank is reached exactly once on the way around. -/
theorem Rotates.existsUnique_turns (rotates : Rotates good rank size step) (begins : good state)
    {target : Nat} (less : target < size) :
    ∃! turns, turns < size ∧ rank (step^[turns] state) = target := by
  have inside := rotates.inside state begins
  refine ⟨if rank state ≤ target then target - rank state else target + size - rank state,
    ⟨?_, ?_⟩, ?_⟩
  · split <;> omega
  · rw [rotates.rank_iterate _ begins]
    split
    · rw [Nat.add_sub_cancel' ‹_›, Nat.mod_eq_of_lt less]
    · rw [Nat.add_sub_cancel' (by omega), Nat.add_mod_right, Nat.mod_eq_of_lt less]
  · rintro turns ⟨few, reached⟩
    rw [rotates.rank_iterate _ begins] at reached
    rcases Nat.lt_or_ge (rank state + turns) size with short | long
    · rw [Nat.mod_eq_of_lt short] at reached
      rw [if_pos (by omega)]
      omega
    · rw [Nat.mod_eq_sub_mod long, Nat.mod_eq_of_lt (by omega)] at reached
      rw [if_neg (by omega)]
      omega

end Rotation
