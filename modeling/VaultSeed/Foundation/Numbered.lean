import Mathlib

/-! # Numbered parts

Parts are collected under their numbers, a later part replacing an earlier one with the
same number. Numbers that are not too small are consecutive as soon as their count and
their sum are (`Numbered.consecutive_of_sum`), and parts with consecutive numbers come out
in their order (`Numbered.inOrder_of_consecutive`).
-/

namespace Numbered

/-- A dictionary from numbers to parts. -/
abbrev Parts (Part : Type) : Type := AList fun _ : Int => Part

/-- The sum of the numbers from `start` to below `stop`. -/
def sumRange (start stop : Int) : Int :=
  ((List.range (stop - start).toNat).map fun number : Nat => start + number).sum

/-- The numbers are those from `start` to below `stop`. -/
def Consecutive (numbers : List Int) (start stop : Int) : Prop :=
  ∀ number, number ∈ numbers ↔ start ≤ number ∧ number < stop

/-- The parts by increasing numbers. -/
def inOrder {Part : Type} (parts : Parts Part) : List Part :=
  (parts.entries.insertionSort fun first second => first.1 ≤ second.1).map Sigma.snd

private theorem sumRange_eq (start : Int) (count : Nat) :
    sumRange start (start + count) = ∑ number ∈ Finset.Ico start (start + count), number := by
  have width : (start + count - start).toNat = count := by omega
  rw [sumRange, width]
  induction count with
  | zero => simp
  | succ count ih =>
      have grown : Finset.Ico start (start + (count + 1 : Nat)) =
          insert (start + count) (Finset.Ico start (start + count)) := by
        ext number
        simp only [Finset.mem_Ico, Finset.mem_insert]
        omega
      rw [List.range_succ, List.map_append, List.sum_append, ih (by omega), grown,
        Finset.sum_insert (by simp), List.map_singleton, List.sum_singleton, add_comm]

/-- A set of as many numbers as an interval, none below it and with the same sum, is the
interval: a number above it would have to be paid for by one below. -/
theorem eq_Ico_of_sum {numbers : Finset Int} {start : Int} {count : Nat}
    (size : numbers.card = count) (above : ∀ number ∈ numbers, start ≤ number)
    (sum : ∑ number ∈ numbers, number = ∑ number ∈ Finset.Ico start (start + count), number) :
    numbers = Finset.Ico start (start + count) := by
  set interval := Finset.Ico start (start + count) with named
  have intervalSize : interval.card = count := by simp [named]
  have exchange : (numbers \ interval).card = (interval \ numbers).card := by
    have left := Finset.card_sdiff_add_card_inter numbers interval
    have right := Finset.card_sdiff_add_card_inter interval numbers
    rw [Finset.inter_comm] at right
    omega
  have balance : ∑ number ∈ numbers \ interval, number = ∑ number ∈ interval \ numbers, number := by
    have left := Finset.sum_inter_add_sum_sdiff numbers interval fun number => number
    have right := Finset.sum_inter_add_sum_sdiff interval numbers fun number => number
    rw [Finset.inter_comm] at right
    omega
  have high : (numbers \ interval).card • (start + count) ≤ ∑ number ∈ numbers \ interval,
      number := by
    refine Finset.card_nsmul_le_sum _ _ _ fun number member => ?_
    obtain ⟨inside, outside⟩ := Finset.mem_sdiff.mp member
    have low := above number inside
    rw [named, Finset.mem_Ico] at outside
    omega
  have low : ∑ number ∈ interval \ numbers, number ≤
      (interval \ numbers).card • (start + count - 1) := by
    refine Finset.sum_le_card_nsmul _ _ _ fun number member => ?_
    have inside := (Finset.mem_sdiff.mp member).1
    rw [named, Finset.mem_Ico] at inside
    omega
  have none : (numbers \ interval).card = 0 := by
    rw [← balance, ← exchange] at low
    have both := high.trans low
    rw [nsmul_eq_mul, nsmul_eq_mul, Int.mul_sub, Int.mul_one] at both
    omega
  refine Finset.eq_of_subset_of_card_le ?_ (by rw [size, intervalSize])
  exact Finset.sdiff_eq_empty_iff_subset.mp (Finset.card_eq_zero.mp none)

/-- **Count and sum tell whether the numbers are consecutive**, when none is too small. -/
theorem consecutive_of_sum {numbers : List Int} {start stop : Int} (distinct : numbers.Nodup)
    (size : (numbers.length : Int) = stop - start) (above : ∀ number ∈ numbers, start ≤ number)
    (sum : numbers.sum = sumRange start stop) : Consecutive numbers start stop := by
  obtain rfl : stop = start + numbers.length := by omega
  have same := @eq_Ico_of_sum numbers.toFinset start numbers.length
    (List.toFinset_card_of_nodup distinct)
    (fun number member => above number (by simpa using member))
    (by rw [← sumRange_eq, ← sum, List.sum_toFinset _ distinct, List.map_id'])
  intro number
  rw [← List.mem_toFinset, same, Finset.mem_Ico]

/-- Consecutive numbers have the count and the sum of their interval. -/
theorem Consecutive.sum {numbers : List Int} {start : Int} {count : Nat}
    (consecutive : Consecutive numbers start (start + count)) (distinct : numbers.Nodup) :
    numbers.length = count ∧ numbers.sum = sumRange start (start + count) := by
  have same : numbers.toFinset = Finset.Ico start (start + count) := by
    ext number
    rw [List.mem_toFinset, consecutive, Finset.mem_Ico]
  constructor
  · rw [← List.toFinset_card_of_nodup distinct, same]
    simp
  · rw [sumRange_eq, ← same, List.sum_toFinset _ distinct, List.map_id']

/-- **Parts with consecutive numbers come out in their order.** -/
theorem inOrder_of_consecutive {Part : Type} {parts : Parts Part} {start : Int} {count : Nat}
    {part : Nat → Part} (consecutive : Consecutive parts.keys start (start + count))
    (stored : ∀ number < count, parts.lookup (start + number) = some (part number)) :
    inOrder parts = (List.range count).map part := by
  set sorted := parts.entries.insertionSort fun first second => first.1 ≤ second.1 with named
  have shuffled : sorted.Perm parts.entries := List.perm_insertionSort _ _
  -- The numbers of the sorted entries are the interval in order.
  have numbers : sorted.map Sigma.fst = (List.range count).map fun number : Nat =>
      start + number := by
    have ordered : (sorted.map Sigma.fst).Pairwise (· ≤ ·) :=
      List.pairwise_map.mpr (List.pairwise_insertionSort _ parts.entries)
    have interval : ((List.range count).map fun number : Nat => start + number).Pairwise (· < ·) :=
      List.pairwise_map.mpr (List.pairwise_lt_range.imp fun less => by omega)
    refine List.Perm.eq_of_pairwise (fun _ _ _ _ => Int.le_antisymm) ordered
      (interval.imp Int.le_of_lt) ?_
    refine (shuffled.map Sigma.fst).trans ?_
    refine (List.perm_ext_iff_of_nodup parts.keys_nodup (interval.imp Int.ne_of_lt)).mpr ?_
    intro number
    refine (consecutive number).trans ?_
    simp only [List.mem_map, List.mem_range]
    constructor
    · rintro ⟨low, high⟩
      exact ⟨(number - start).toNat, by omega, by omega⟩
    · rintro ⟨offset, less, rfl⟩
      omega
  have values : sorted.map (fun entry => some entry.2) =
      (sorted.map Sigma.fst).map fun number => parts.lookup number := by
    rw [List.map_map]
    refine List.map_congr_left fun entry member => ?_
    exact (AList.mem_lookup_iff.mpr (shuffled.mem_iff.mp member)).symm
  have looked : (sorted.map Sigma.snd).map some = ((List.range count).map part).map some := by
    rw [List.map_map, List.map_map]
    refine values.trans ?_
    rw [numbers, List.map_map]
    exact List.map_congr_left fun number member => stored number (List.mem_range.mp member)
  exact List.map_injective_iff.mpr (Option.some_injective _) looked

end Numbered
