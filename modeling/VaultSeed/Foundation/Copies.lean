import Mathlib.Data.List.Basic
import Mathlib.Tactic.Common

/-! # Sequences spelled by literals and copies

A sequence is spelled by tokens: an element as it is, or a copy of what stands a distance back. A
copy may run over its own beginning, so a copy in two parts with the same distance is the copy of
the whole (`Copies.Repeats.of_append`).
-/

namespace Copies

variable {α : Type}

/-- A token: an element, or a copy of a length from a distance back. -/
inductive Token (α : Type) where
  | literal (element : α)
  | copy (distance length : Nat)
  deriving DecidableEq, Repr

/-- Every element of a piece stands also a distance back. -/
def Repeats (done piece : List α) (distance : Nat) : Prop :=
  ∀ index < piece.length, (done ++ piece)[done.length + index - distance]? = piece[index]?

/-- Tokens spell a sequence after what is done; every copy fits. -/
inductive Spells (fits : Nat → Nat → Prop) : List α → List (Token α) → List α → Prop where
  | nil (done : List α) : Spells fits done [] []
  | literal {done data : List α} {tokens : List (Token α)} {element : α}
      (spells : Spells fits (done ++ [element]) tokens data) :
      Spells fits done (.literal element :: tokens) (element :: data)
  | copy {done piece data : List α} {tokens : List (Token α)} {distance : Nat}
      (positive : 0 < distance) (known : distance ≤ done.length)
      (fit : fits distance piece.length) (repeats : Repeats done piece distance)
      (spells : Spells fits (done ++ piece) tokens data) :
      Spells fits done (.copy distance piece.length :: tokens) (piece ++ data)

variable {fits : Nat → Nat → Prop} {done data other first second piece : List α}
  {tokens more : List (Token α)} {distance : Nat}

/-- Tokens one after another spell the data one after another. -/
theorem Spells.append (spells : Spells fits done tokens data)
    (then' : Spells fits (done ++ data) more other) :
    Spells fits done (tokens ++ more) (data ++ other) := by
  induction spells with
  | nil done => rwa [List.append_nil] at then'
  | literal _ ih =>
      refine .literal (ih ?_)
      rwa [List.append_assoc, List.singleton_append]
  | copy positive known fit repeats _ ih =>
      rw [List.append_assoc, List.cons_append]
      refine .copy positive known fit repeats (ih ?_)
      rwa [List.append_assoc]

/-- One copy spells a piece that repeats what is before it. -/
theorem Spells.copied (positive : 0 < distance) (known : distance ≤ done.length)
    (fit : fits distance piece.length) (repeats : Repeats done piece distance) :
    Spells fits done [.copy distance piece.length] piece := by
  have spells := Spells.copy positive known fit repeats (Spells.nil (done ++ piece))
  rwa [List.append_nil] at spells

/-- Tokens that fit are tokens under a weaker condition. -/
theorem Spells.mono {weaker : Nat → Nat → Prop} (spells : Spells fits done tokens data)
    (allows : ∀ distance length, fits distance length → weaker distance length) :
    Spells weaker done tokens data := by
  induction spells with
  | nil done => exact .nil done
  | literal _ ih => exact .literal ih
  | copy positive known fit repeats _ ih =>
      exact .copy positive known (allows _ _ fit) repeats ih

/-- The first part of a copy, and the rest after it. -/
theorem Repeats.of_append (repeats : Repeats done (first ++ second) distance)
    (positive : 0 < distance) :
    Repeats done first distance ∧ Repeats (done ++ first) second distance := by
  constructor
  · intro index inside
    have same := repeats index (by rw [List.length_append]; omega)
    rw [← List.append_assoc, List.getElem?_append_left (by rw [List.length_append]; omega),
      List.getElem?_append_left inside] at same
    exact same
  · intro index inside
    have same := repeats (first.length + index) (by rw [List.length_append]; omega)
    rw [List.getElem?_append_right (Nat.le_add_right _ _), Nat.add_sub_cancel_left,
      ← List.append_assoc, ← Nat.add_assoc] at same
    rwa [List.length_append]

/-- What a copy goes on with. -/
theorem Repeats.tail {element : α} (repeats : Repeats done (element :: piece) distance)
    (positive : 0 < distance) :
    (done ++ element :: piece)[done.length - distance]? = some element ∧
      Repeats (done ++ [element]) piece distance := by
  have parts : Repeats done ([element] ++ piece) distance := repeats
  exact ⟨repeats 0 (Nat.succ_pos _), (parts.of_append positive).2⟩

end Copies
