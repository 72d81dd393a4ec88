import VaultSeed.Foundation.Bytes
import VaultSeed.Foundation.Dict
import Mathlib.Data.List.Forall2
import Mathlib.Data.Rat.Defs

/-! # JSON values in Python

What `json.loads` returns: `None`, booleans, numbers, strings, lists and dictionaries with
strings as keys. Equality is that of Python: numbers are compared by their value, whatever
their type, dictionaries by their entries, whatever their order, and `nan` is not equal to
anything.
-/

namespace VaultSeed.Settings

open Python

/-- The values of a float. -/
inductive PyFloat where
  | finite (value : Rat)
  | infinite (negative : Bool)
  | nan
  deriving DecidableEq

/-- A JSON value. -/
inductive Json where
  | null
  | bool (value : Bool)
  | int (value : Int)
  | float (value : PyFloat)
  | str (value : Text)
  | array (items : List Json)
  | object (members : List (Text × Json))

namespace Json

/-- The number a value stands for. -/
def number : Json → Option PyFloat
  | bool value => some (.finite (if value then 1 else 0))
  | int value => some (.finite value)
  | float value => some value
  | _ => none

/-- `first == second` on numbers. -/
def numberEq : Option PyFloat → Option PyFloat → Bool
  | some (.finite first), some (.finite second) => first == second
  | some (.infinite first), some (.infinite second) => first == second
  | _, _ => false

mutual

/-- `first == second`. -/
def eq : Json → Json → Bool
  | null, second => match second with
    | null => true
    | _ => false
  | str first, second => match second with
    | str second => first == second
    | _ => false
  | array first, second => match second with
    | array second => itemsEq first second
    | _ => false
  | object first, second => match second with
    | object second => first.length == second.length && membersIn first second
    | _ => false
  | first, second => numberEq (number first) (number second)

/-- Equality of lists. -/
def itemsEq : List Json → List Json → Bool
  | [], second => second.isEmpty
  | item :: items, second => match second with
    | other :: others => eq item other && itemsEq items others
    | [] => false

/-- Every entry of the first dictionary is in the second. -/
def membersIn : List (Text × Json) → List (Text × Json) → Bool
  | [], _ => true
  | (key, value) :: members, second =>
      (match second.lookup key with
        | some other => eq value other
        | none => false) && membersIn members second

end

/-- `bool(value)`. -/
def truthy : Json → Bool
  | null => false
  | bool value => value
  | int value => value != 0
  | float value => value != .finite 0
  | str value => value != []
  | array items => !items.isEmpty
  | object members => !members.isEmpty

section Equality

/-- Numbers are equal when they are the same and not a NaN. -/
theorem numberEq_iff {first second : Option PyFloat} :
    numberEq first second = true ↔ first = second ∧ first ≠ none ∧ first ≠ some .nan := by
  rcases first with _ | (first | first | _) <;> rcases second with _ | (second | second | _) <;>
    simp [numberEq]

/-- Members are found with equal values. -/
theorem membersIn_iff {first second : List (Text × Json)} :
    membersIn first second = true ↔
      ∀ entry ∈ first, ∃ other, second.lookup entry.1 = some other ∧ eq entry.2 other = true := by
  induction first with
  | nil => simp [membersIn]
  | cons entry first ih =>
      obtain ⟨key, value⟩ := entry
      rw [membersIn, Bool.and_eq_true, ih, List.forall_mem_cons]
      apply and_congr_left
      intro _
      cases second.lookup key with
      | none => simp
      | some other => simp

/-- Lists are equal item by item. -/
theorem itemsEq_iff {first second : List Json} :
    itemsEq first second = true ↔
      List.Forall₂ (fun item other => eq item other = true) first second := by
  induction first generalizing second with
  | nil => cases second <;> simp [itemsEq]
  | cons item first ih =>
      cases second with
      | nil => simp [itemsEq]
      | cons other second => simp [itemsEq, ih]

/-- The number of a value that is no list, no dictionary, no string and not `None`. -/
theorem eq_of_number {first : Json} {value : PyFloat} (known : number first = some value)
    (second : Json) : eq first second = numberEq (some value) (number second) := by
  cases first with
  | bool held => rw [← known, eq]; all_goals simp
  | int held => rw [← known, eq]; all_goals simp
  | float held => rw [← known, eq]; all_goals simp
  | null => cases known
  | str held => cases known
  | array items => cases known
  | object members => cases known

/-- Equality is transitive from a number on. -/
theorem eq_trans_of_number {first second third : Json} {value : PyFloat}
    (known : number first = some value) (before : eq first second = true)
    (after : eq second third = true) : eq first third = true := by
  rw [eq_of_number known, numberEq_iff] at before
  rw [eq_of_number before.1.symm] at after
  rw [eq_of_number known, after]

/-- Equality of lists is transitive where that of their items is. -/
theorem itemsEq_trans {first second third : List Json} (before : itemsEq first second = true)
    (after : itemsEq second third = true)
    (trans : ∀ item ∈ first, ∀ {other last : Json}, eq item other = true → eq other last = true →
      eq item last = true) : itemsEq first third = true := by
  rw [itemsEq_iff] at before after ⊢
  induction before generalizing third with
  | nil => exact after
  | cons same _ ih =>
      cases after with
      | cons next rest =>
          refine .cons (trans _ List.mem_cons_self same next) (ih rest ?_)
          intro item member
          exact trans item (List.mem_cons_of_mem _ member)

/-- Containment of members is transitive where equality of the values is. -/
theorem membersIn_trans {first second third : List (Text × Json)}
    (before : membersIn first second = true) (after : membersIn second third = true)
    (trans : ∀ entry ∈ first, ∀ {other last : Json}, eq entry.2 other = true →
      eq other last = true → eq entry.2 last = true) : membersIn first third = true := by
  rw [membersIn_iff] at before after ⊢
  intro entry member
  obtain ⟨other, found, same⟩ := before entry member
  obtain ⟨last, next, follows⟩ := after (entry.1, other) (Dict.mem_of_lookup found)
  exact ⟨last, next, trans entry member same follows⟩

/-- Equality is transitive. -/
theorem eq_trans {first second third : Json} (before : eq first second = true)
    (after : eq second third = true) : eq first third = true := by
  induction size : sizeOf first using Nat.strongRecOn generalizing first second third with
  | ind size ih =>
      subst size
      cases first with
      | bool held => exact eq_trans_of_number rfl before after
      | int held => exact eq_trans_of_number rfl before after
      | float held => exact eq_trans_of_number rfl before after
      | null =>
          cases second <;> simp [eq] at before
          exact after
      | str held =>
          cases second <;> simp [eq] at before
          subst before
          exact after
      | array items =>
          cases second <;> simp [eq] at before
          cases third <;> simp [eq] at after
          rw [eq]
          refine itemsEq_trans before after ?_
          intro item member other last same next
          refine ih (sizeOf item) ?_ same next rfl
          have inside := List.sizeOf_lt_of_mem member
          simp only [array.sizeOf_spec]
          omega
      | object members =>
          cases second <;> simp [eq] at before
          cases third <;> simp [eq] at after
          rw [eq, Bool.and_eq_true, beq_iff_eq]
          refine ⟨before.1.trans after.1, membersIn_trans before.2 after.2 ?_⟩
          intro entry member other last same next
          refine ih (sizeOf entry.2) ?_ same next rfl
          have inside := List.sizeOf_lt_of_mem member
          obtain ⟨key, value⟩ := entry
          simp only [object.sizeOf_spec, Prod.mk.sizeOf_spec] at inside ⊢
          omega

end Equality

end Json

end VaultSeed.Settings
