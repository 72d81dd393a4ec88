import Mathlib.Data.List.Basic
import Mathlib.Data.Int.ModEq
import Mathlib.Tactic.Common

/-! # Ring buffers

A ring that every new element of a sequence is put in remembers the last elements of it
(`Ring.Remembers.push`), whatever it held before the first one.
-/

namespace Ring

variable {α : Type} {ring done : List α} {element : α}

/-- The ring holds the last elements of a sequence, each at its number modulo the capacity. -/
structure Remembers (ring done : List α) : Prop where
  positive : 0 < ring.length
  recent : ∀ index < done.length, done.length ≤ index + ring.length →
    ring[index % ring.length]? = done[index]?

/-- A ring remembers nothing at first. -/
theorem Remembers.start (positive : 0 < ring.length) : Remembers ring [] where
  positive := positive
  recent _ inside _ := absurd inside (Nat.not_lt_zero _)

/-- Different elements among the last ones have different places. -/
theorem mod_ne_of_lt {index count capacity : Nat} (less : index < count)
    (near : count < index + capacity) : index % capacity ≠ count % capacity := by
  intro same
  have divides : capacity ∣ count - index := (Nat.modEq_iff_dvd' less.le).mp same
  have large := Nat.le_of_dvd (by omega) divides
  omega

/-- A ring remembers what is stored in its next place. -/
theorem Remembers.push (remembers : Remembers ring done) (element : α) :
    Remembers (ring.set (done.length % ring.length) element) (done ++ [element]) := by
  have place : done.length % ring.length < ring.length := Nat.mod_lt _ remembers.positive
  refine ⟨by rw [List.length_set]; exact remembers.positive, fun index inside near => ?_⟩
  rw [List.length_set] at near ⊢
  rw [List.length_append, List.length_singleton] at inside near
  rcases Nat.lt_succ_iff_lt_or_eq.mp inside with old | rfl
  · rw [List.getElem?_set_ne (mod_ne_of_lt old near).symm, List.getElem?_append_left old]
    exact remembers.recent index old (by omega)
  · rw [List.getElem?_set_self place, List.getElem?_append_right (Nat.le_refl _), Nat.sub_self]
    rfl

end Ring
