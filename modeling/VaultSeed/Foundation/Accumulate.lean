import Mathlib.Algebra.BigOperators.Group.Finset.Basic
import Mathlib.Data.List.Basic

/-! # Arrays that accumulate

A loop over an array in which every turn adds to what is measured of it ends with the sum
(`Accumulate.foldl_range`). Adding to one element of an array by exclusive or changes no other
(`Accumulate.getD_xorAt`).
-/

namespace Accumulate

/-- `data[index] ^= value`. -/
def xorAt (data : List UInt8) (index : Nat) (value : UInt8) : List UInt8 :=
  data.set index (data.getD index 0 ^^^ value)

/-- Adding at a place keeps the length. -/
@[simp] theorem length_xorAt (data : List UInt8) (index : Nat) (value : UInt8) :
    (xorAt data index value).length = data.length := List.length_set

/-- What is in a place after one place was set. -/
theorem getD_set {α : Type} (data : List α) (index other : Nat) (value default : α)
    (inside : index < data.length) :
    (data.set index value).getD other default =
      if other = index then value else data.getD other default := by
  rw [List.getD_eq_getElem?_getD, List.getD_eq_getElem?_getD]
  split
  · next same => rw [same, List.getElem?_set_self inside, Option.getD_some]
  · next differ => rw [List.getElem?_set_ne (Ne.symm differ)]

/-- What is in a place after something was added at one place. -/
theorem getD_xorAt (data : List UInt8) (index other : Nat) (value : UInt8)
    (inside : index < data.length) :
    (xorAt data index value).getD other 0 =
      if other = index then data.getD other 0 ^^^ value else data.getD other 0 := by
  rw [xorAt, getD_set _ _ _ _ _ inside]
  split
  · next same => rw [same]
  · rfl

/-- A table of zeros has a zero everywhere. -/
theorem getD_replicate_zero (count index : Nat) :
    (List.replicate count (0 : UInt8)).getD index 0 = 0 := by
  rw [List.getD_eq_getElem?_getD, List.getElem?_replicate]
  split <;> rfl

/-- A loop that sets one element after the other. -/
theorem length_foldl_set {α : Type} (value : Nat → α) (place : Nat → Nat) (count : Nat)
    (data : List α) :
    ((List.range count).foldl (fun data i => data.set (place i) (value i)) data).length =
      data.length := by
  induction count with
  | zero => rfl
  | succ count ih =>
      rw [List.range_succ, List.foldl_append, ← ih]
      exact List.length_set

/-- A loop that sets one place after the other leaves the values of all places it came to. -/
theorem getD_foldl_set {α : Type} (value : Nat → α) (default : α) {count : Nat} {data : List α}
    (fits : count ≤ data.length) (index : Nat) :
    ((List.range count).foldl (fun data i => data.set i (value i)) data).getD index default =
      if index < count then value index else data.getD index default := by
  induction count with
  | zero => rfl
  | succ count ih =>
      have before := ih (Nat.le_of_succ_le fits)
      rw [List.range_succ, List.foldl_append, List.foldl_cons, List.foldl_nil, getD_set _ _ _ _ _
        ((length_foldl_set value id count data).symm ▸ fits), before]
      split
      · next same => rw [same, if_pos (Nat.lt_succ_self count)]
      · next differ =>
          refine if_congr ?_ rfl rfl
          omega

variable {State K : Type} [AddCommMonoid K]

/-- **A loop that adds in every turn** adds the sum. -/
theorem foldl_range (value : State → K) (kept : State → Prop) {step : State → Nat → State}
    {amount : Nat → K} {count : Nat}
    (next : ∀ state index, index < count → kept state →
      kept (step state index) ∧ value (step state index) = value state + amount index)
    {state : State} (begins : kept state) :
    kept ((List.range count).foldl step state) ∧
      value ((List.range count).foldl step state) =
        value state + ∑ index ∈ Finset.range count, amount index := by
  induction count with
  | zero => exact ⟨begins, by rw [Finset.range_zero, Finset.sum_empty, add_zero]; rfl⟩
  | succ count ih =>
      obtain ⟨keeps, sum⟩ := ih fun state index less => next state index (Nat.lt_succ_of_lt less)
      obtain ⟨keepsLast, last⟩ := next _ count (Nat.lt_succ_self count) keeps
      rw [List.range_succ, List.foldl_append]
      refine ⟨keepsLast, ?_⟩
      rw [Finset.sum_range_succ, ← add_assoc, ← sum]
      exact last

end Accumulate
