import Mathlib.Data.List.Basic
import Mathlib.Tactic.Common

/-! # Cutting a sequence into parts

A sequence is cut into a number of parts of one size; the last part takes what is left,
more or less than the size. The parts in a row are the sequence, and an operation that
works part by part on aligned parts works on the whole (`Chunks.flatMap_chunks`).
-/

namespace Chunks

variable {α β : Type}

/-- The part with a number, of `count` parts. -/
def chunk (data : List α) (size count index : Nat) : List α :=
  if index + 1 = count then data.drop (index * size) else (data.drop (index * size)).take size

/-- All parts in order. -/
def chunks (data : List α) (size count : Nat) : List (List α) :=
  (List.range count).map (chunk data size count)

/-- A chunk of changed data is the changed chunk. -/
theorem chunk_map (change : α → β) (data : List α) (size count index : Nat) :
    chunk (data.map change) size count index = (chunk data size count index).map change := by
  unfold chunk
  split <;> simp

/-- All parts but the last have the size, when the data reach that far. -/
theorem length_chunk {data : List α} {size count index : Nat} (before : index + 1 < count)
    (long : (count - 1) * size ≤ data.length) : (chunk data size count index).length = size := by
  have reach : (index + 1) * size ≤ (count - 1) * size := Nat.mul_le_mul_right _ (by omega)
  rw [Nat.succ_mul] at reach
  rw [chunk, if_neg (by omega), List.length_take, List.length_drop]
  omega

/-- No part is empty, when the last one begins inside the sequence. -/
theorem chunk_ne_nil {data : List α} {size count index : Nat} (less : index < count)
    (positive : 1 < count → 0 < size) (inside : (count - 1) * size < data.length) :
    chunk data size count index ≠ [] := by
  have reach : index * size ≤ (count - 1) * size := Nat.mul_le_mul_right _ (by omega)
  apply List.ne_nil_of_length_pos
  unfold chunk
  split
  · rw [List.length_drop]
    omega
  · have some := positive (by omega)
    rw [List.length_take, List.length_drop]
    omega

/-- The first parts are a beginning of the sequence. -/
theorem flatMap_take (data : List α) (size count : Nat) :
    (List.range count).flatMap (fun index => (data.drop (index * size)).take size) =
      data.take (count * size) := by
  induction count with
  | zero => simp
  | succ count ih =>
      rw [List.range_succ, List.flatMap_append, ih, List.flatMap_singleton, Nat.succ_mul,
        List.take_add]

/-- The parts, the last one apart. -/
theorem chunks_succ (data : List α) (size before : Nat) :
    chunks data size (before + 1) =
      ((List.range before).map fun index => (data.drop (index * size)).take size) ++
        [data.drop (before * size)] := by
  have inner : (List.range before).map (chunk data size (before + 1)) =
      (List.range before).map fun index => (data.drop (index * size)).take size := by
    refine List.map_congr_left fun index member => ?_
    have inside := List.mem_range.mp member
    rw [chunk, if_neg (by omega)]
  rw [chunks, List.range_succ, List.map_append, inner, List.map_singleton, chunk, if_pos rfl]

/-- **The parts in a row are the sequence.** -/
theorem flatten_chunks (data : List α) (size : Nat) {count : Nat} (positive : 0 < count) :
    (chunks data size count).flatten = data := by
  obtain ⟨before, rfl⟩ : ∃ before, count = before + 1 := ⟨count - 1, by omega⟩
  rw [chunks_succ, List.flatten_append, ← List.flatMap_def, flatMap_take, List.flatten_singleton,
    List.take_append_drop]

/-- An operation that respects aligned beginnings of good elements. -/
def Aligned (unit : Nat) (good : α → Prop) (operation : List α → List β) : Prop :=
  ∀ first second, unit ∣ first.length → (∀ item ∈ first, good item) →
    operation (first ++ second) = operation first ++ operation second

/-- **An operation part by part is the operation on the whole**, when the parts but the last
are aligned. -/
theorem flatMap_chunks {unit : Nat} {good : α → Prop} {operation : List α → List β}
    (aligned : Aligned unit good operation) {data : List α} {size count : Nat}
    (all : ∀ item ∈ data, good item) (positive : 0 < count) (whole : 1 < count → unit ∣ size)
    (long : (count - 1) * size ≤ data.length) :
    (chunks data size count).flatMap operation = operation data := by
  have empty : operation [] = [] := by
    have twice := aligned [] [] (by simp) nofun
    simpa using twice
  have taken : ∀ length, ∀ item ∈ data.take length, good item :=
    fun length item member => all item (List.mem_of_mem_take member)
  obtain ⟨before, rfl⟩ : ∃ before, count = before + 1 := ⟨count - 1, by omega⟩
  -- The parts before the last one, by their number.
  have first : ∀ some, some ≤ before → (List.range some).flatMap (fun index =>
      operation ((data.drop (index * size)).take size)) = operation (data.take (some * size)) := by
    intro some less
    induction some with
    | zero => simp [empty]
    | succ some ih =>
        have reach : (some + 1) * size ≤ before * size := Nat.mul_le_mul_right _ less
        rw [Nat.succ_mul] at reach
        rw [List.range_succ, List.flatMap_append, ih (by omega), List.flatMap_singleton,
          Nat.succ_mul, List.take_add]
        refine (aligned _ _ ?_ (taken _)).symm
        rw [List.length_take, Nat.min_eq_left (by simp only [Nat.add_sub_cancel] at long; omega)]
        exact Nat.dvd_mul_left_of_dvd (whole (by omega)) some
  have reach : before * size ≤ data.length := by simpa using long
  rw [chunks_succ, List.flatMap_append, List.flatMap_map, first before (Nat.le_refl _),
    List.flatMap_singleton]
  rw [← aligned _ _ ?_ (taken _), List.take_append_drop]
  rw [List.length_take, Nat.min_eq_left reach]
  rcases Nat.eq_zero_or_pos before with rfl | several
  · simp
  · exact Nat.dvd_mul_left_of_dvd (whole (by omega)) before

end Chunks
