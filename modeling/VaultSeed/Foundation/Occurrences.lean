import Mathlib.Data.List.Infix
import Mathlib.Tactic.Common

/-! # Where a pattern stands

The positions at which a pattern stands in a list, and how they are moved between a list, a part
of it and a list it is a part of. Two occurrences of a pattern that does not begin with an end
of itself are apart.
-/

namespace Occurrences

variable {α : Type} {pattern other data : List α} {position : Nat}

/-- A pattern stands at a position. -/
def Stands (pattern data : List α) (position : Nat) : Prop := pattern <+: data.drop position

instance [DecidableEq α] : Decidable (Stands pattern data position) :=
  inferInstanceAs (Decidable (_ <+: _))

/-- A pattern stands where the data begin with it. -/
theorem stands_iff : Stands pattern data position ↔
    (data.drop position).take pattern.length = pattern := by
  rw [Stands, List.prefix_iff_eq_take, eq_comm]

/-- A pattern that stands somewhere ends inside the data. -/
theorem Stands.length_le (stands : Stands pattern data position) (nonempty : pattern ≠ []) :
    position + pattern.length ≤ data.length := by
  have positive := List.length_pos_of_ne_nil nonempty
  have short := List.IsPrefix.length_le stands
  rw [List.length_drop] at short
  omega

/-- The items of a pattern, where it stands. -/
theorem Stands.getElem? (stands : Stands pattern data position) {place : Nat}
    (inside : place < pattern.length) : data[position + place]? = pattern[place]? := by
  rw [← List.getElem?_drop, List.prefix_iff_getElem?.mp stands place inside,
    List.getElem?_eq_getElem inside]

/-- A pattern stands somewhere exactly when it is a part of the data. -/
theorem exists_stands_iff : (∃ position, Stands pattern data position) ↔ pattern <:+: data := by
  rw [List.infix_iff_prefix_suffix]
  constructor
  · rintro ⟨position, stands⟩
    exact ⟨_, stands, List.drop_suffix _ _⟩
  · rintro ⟨rest, begins, ends⟩
    refine ⟨data.length - rest.length, ?_⟩
    rw [Stands, ← List.suffix_iff_eq_drop.mp ends]
    exact begins

/-- In the rest of a list. -/
theorem stands_drop {count : Nat} :
    Stands pattern (data.drop count) position ↔ Stands pattern data (count + position) := by
  rw [Stands, List.drop_drop, Stands]

/-- In the beginning of a list. -/
theorem stands_take {count : Nat} (nonempty : pattern ≠ []) :
    Stands pattern (data.take count) position ↔
      Stands pattern data position ∧ position + pattern.length ≤ count := by
  constructor
  · intro stands
    have inside := stands.length_le nonempty
    rw [List.length_take] at inside
    rw [Stands, List.drop_take] at stands
    exact ⟨stands.trans (List.take_prefix _ _), by omega⟩
  · rintro ⟨stands, inside⟩
    rw [Stands, List.drop_take]
    exact List.prefix_take_iff.mpr ⟨stands, by omega⟩

/-- What stands in a pattern stands where the pattern does. -/
theorem Stands.trans {place : Nat} (inner : Stands pattern other place)
    (outer : Stands other data position) : Stands pattern data (position + place) := by
  have rest := List.IsPrefix.drop outer place
  rw [List.drop_drop] at rest
  exact List.IsPrefix.trans inner rest

/-- No end of a pattern, itself apart, is a beginning of it. -/
def Unbordered (pattern : List α) : Prop :=
  ∀ count < pattern.length, 0 < count → ¬ pattern.drop count <+: pattern

instance [DecidableEq α] : Decidable (Unbordered pattern) :=
  inferInstanceAs (Decidable (∀ _ < _, _ → ¬ _))

/-- **Two occurrences are apart.** -/
theorem Unbordered.apart (unbordered : Unbordered pattern) {later : Nat}
    (first : Stands pattern data position) (second : Stands pattern data later)
    (less : position < later) : position + pattern.length ≤ later := by
  by_contra near
  have rest := List.IsPrefix.drop first (later - position)
  rw [List.drop_drop, Nat.add_sub_cancel' less.le] at rest
  refine unbordered (later - position) (by omega) (by omega) ?_
  exact List.prefix_of_prefix_length_le rest second (List.drop_sublist _ _).length_le

end Occurrences
