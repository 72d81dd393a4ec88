import Mathlib.Algebra.Order.BigOperators.Group.Finset
import Mathlib.Algebra.BigOperators.Intervals
import Mathlib.Tactic.Common

/-! # Canonical codes

From how many symbols have each length, the codes of a length are consecutive numbers from the first
of them on. A code is not the beginning of a longer one (`Canonical.scaled_le_first`), and where the
lengths leave room the codes have their lengths (`Canonical.first_add_le`). The rank of a symbol
among those of its length gives each symbol a place of its own (`Canonical.place_injective`), and no
place is left over (`Canonical.exists_place`).
-/

namespace Canonical

/-- The first code of a length. -/
def first (counts : Nat → Nat) : Nat → Nat
  | 0 => 0
  | length + 1 => 2 * (first counts length + counts length)

/-- How many codes are shorter than a length. -/
def before (counts : Nat → Nat) : Nat → Nat
  | 0 => 0
  | length + 1 => before counts length + counts length

section Codes

variable {counts other : Nat → Nat} {length longest : Nat}

/-- The first code of a length depends on the shorter codes only. -/
theorem first_congr (same : ∀ shorter < length, counts shorter = other shorter) :
    first counts length = first other length := by
  induction length with
  | zero => rfl
  | succ length ih =>
      rw [first, first, ih fun shorter less => same shorter (Nat.lt_succ_of_lt less),
        same length (Nat.lt_succ_self length)]

/-- The number of shorter codes depends on the shorter codes only. -/
theorem before_congr (same : ∀ shorter < length, counts shorter = other shorter) :
    before counts length = before other length := by
  induction length with
  | zero => rfl
  | succ length ih =>
      rw [before, before, ih fun shorter less => same shorter (Nat.lt_succ_of_lt less),
        same length (Nat.lt_succ_self length)]

/-- A longer length has no fewer codes before it. -/
theorem before_mono {longer : Nat} (order : length ≤ longer) :
    before counts length ≤ before counts longer := by
  induction longer, order using Nat.le_induction with
  | base => exact Nat.le_refl _
  | succ longer _ ih => exact ih.trans (Nat.le_add_right _ _)

/-- What lies before a length lies at one of the shorter ones. -/
theorem exists_before {index : Nat} (less : index < before counts longest) :
    ∃ length < longest, before counts length ≤ index ∧
      index < before counts length + counts length := by
  induction longest with
  | zero => exact absurd less (Nat.not_lt_zero _)
  | succ longest ih =>
      by_cases shorter : index < before counts longest
      · obtain ⟨length, short, inside⟩ := ih shorter
        exact ⟨length, Nat.lt_succ_of_lt short, inside⟩
      · exact ⟨longest, Nat.lt_succ_self _, Nat.not_lt.mp shorter, less⟩

/-- The codes of a length end before the beginnings of the longer ones. -/
theorem scaled_le_first (counts : Nat → Nat) (length more : Nat) :
    (first counts length + counts length) * 2 ^ (more + 1) ≤
      first counts (length + (more + 1)) := by
  induction more with
  | zero =>
      rw [Nat.zero_add, pow_one, first]
      omega
  | succ more ih =>
      rw [← Nat.add_assoc length, first, pow_succ, ← Nat.mul_assoc]
      omega

/-- The room that the codes up to a length take of the longest ones. -/
theorem scaled_eq_sum (within : length ≤ longest) :
    (first counts length + counts length) * 2 ^ (longest - length) =
      ∑ shorter ∈ Finset.range (length + 1), counts shorter * 2 ^ (longest - shorter) := by
  induction length with
  | zero => rw [Finset.sum_range_one, first, Nat.zero_add]
  | succ length ih =>
      have power : 2 ^ (longest - length) = 2 * 2 ^ (longest - (length + 1)) := by
        rw [← Nat.pow_succ']
        congr 1
        omega
      have sum := ih (by omega)
      rw [power, ← Nat.mul_assoc, Nat.mul_comm _ 2] at sum
      rw [Finset.sum_range_succ, ← sum, Nat.add_mul]
      rfl

/-- Where the lengths leave room, every code has its length. -/
theorem first_add_le (within : length ≤ longest)
    (room : ∑ shorter ∈ Finset.range (longest + 1), counts shorter * 2 ^ (longest - shorter) ≤
      2 ^ longest) : first counts length + counts length ≤ 2 ^ length := by
  have part : ∑ shorter ∈ Finset.range (length + 1), counts shorter * 2 ^ (longest - shorter) ≤
      ∑ shorter ∈ Finset.range (longest + 1), counts shorter * 2 ^ (longest - shorter) :=
    Finset.sum_le_sum_of_subset (Finset.range_mono (Nat.succ_le_succ within))
  have scaled := (scaled_eq_sum within).le.trans (part.trans room)
  rw [show 2 ^ longest = 2 ^ length * 2 ^ (longest - length) by
    rw [← pow_add, Nat.add_sub_cancel' within]] at scaled
  exact Nat.le_of_mul_le_mul_right scaled (Nat.two_pow_pos _)

end Codes

section Symbols

variable {lengths : List Nat} {symbol other : Nat}

/-- How many symbols have a length; no symbol of length zero has a code. -/
def countOf (lengths : List Nat) (length : Nat) : Nat :=
  if length = 0 then 0 else lengths.count length

/-- How many symbols before a symbol have its length. -/
def rank (lengths : List Nat) (symbol : Nat) : Nat :=
  (lengths.take symbol).count (lengths.getD symbol 0)

/-- The code of a symbol. -/
def code (lengths : List Nat) (symbol : Nat) : Nat :=
  first (countOf lengths) (lengths.getD symbol 0) + rank lengths symbol

/-- The place of a symbol among all, by their lengths. -/
def place (lengths : List Nat) (symbol : Nat) : Nat :=
  before (countOf lengths) (lengths.getD symbol 0) + rank lengths symbol

private theorem rank_lt (inside : symbol < lengths.length) :
    rank lengths symbol < lengths.count (lengths.getD symbol 0) := by
  have split := List.take_append_drop symbol lengths
  have drop := List.drop_eq_getElem_cons inside
  have whole : lengths.count (lengths.getD symbol 0) = (lengths.take symbol).count
      (lengths.getD symbol 0) + (lengths.drop symbol).count (lengths.getD symbol 0) := by
    rw [← List.count_append, split]
  rw [whole, drop, List.getD_eq_getElem?_getD, List.getElem?_eq_getElem inside, Option.getD_some,
    List.count_cons_self, rank, List.getD_eq_getElem?_getD, List.getElem?_eq_getElem inside,
    Option.getD_some]
  omega

/-- The rank of a symbol is among those of its length. -/
theorem rank_lt_countOf (inside : symbol < lengths.length) (coded : lengths.getD symbol 0 ≠ 0) :
    rank lengths symbol < countOf lengths (lengths.getD symbol 0) := by
  rw [countOf, if_neg coded]
  exact rank_lt inside

private theorem rank_lt_rank (less : symbol < other) (inside : other < lengths.length)
    (same : lengths.getD symbol 0 = lengths.getD other 0) :
    rank lengths symbol < rank lengths other := by
  have taken : (lengths.take other).getD symbol 0 = lengths.getD symbol 0 := by
    rw [List.getD_eq_getElem?_getD, List.getElem?_take_of_lt less, List.getD_eq_getElem?_getD]
  have taken' : symbol < (lengths.take other).length := by
    rw [List.length_take]
    omega
  have ranked := rank_lt taken'
  rw [rank, taken, List.take_take, min_eq_left less.le] at ranked
  rw [rank, rank, ← same]
  exact ranked

/-- Symbols that have codes have different places. -/
theorem place_injective (inside : symbol < lengths.length) (insideOther : other < lengths.length)
    (coded : lengths.getD symbol 0 ≠ 0) (codedOther : lengths.getD other 0 ≠ 0)
    (same : place lengths symbol = place lengths other) : symbol = other := by
  have apart : ∀ {symbol other : Nat}, symbol < lengths.length → lengths.getD symbol 0 ≠ 0 →
      lengths.getD symbol 0 < lengths.getD other 0 →
      place lengths symbol < place lengths other := by
    intro symbol other inside coded shorter
    have ranked := rank_lt_countOf inside coded
    have order : before (countOf lengths) (lengths.getD symbol 0 + 1) ≤
        before (countOf lengths) (lengths.getD other 0) := before_mono shorter
    rw [before] at order
    rw [place, place]
    omega
  rcases Nat.lt_trichotomy (lengths.getD symbol 0) (lengths.getD other 0) with less | equal | less
  · exact absurd same (Nat.ne_of_lt (apart inside coded less))
  · rw [place, place, equal, Nat.add_left_cancel_iff] at same
    rcases Nat.lt_trichotomy symbol other with less | rfl | less
    · exact absurd same (Nat.ne_of_lt (rank_lt_rank less insideOther equal))
    · rfl
    · exact absurd same.symm (Nat.ne_of_lt (rank_lt_rank less inside equal.symm))
  · exact absurd same.symm (Nat.ne_of_lt (apart insideOther codedOther less))

/-- Below the count of a length there is a symbol of every rank. -/
theorem exists_rank {length index : Nat} (lengths : List Nat)
    (less : index < lengths.count length) :
    ∃ symbol < lengths.length, lengths.getD symbol 0 = length ∧
      (lengths.take symbol).count length = index := by
  induction lengths generalizing index with
  | nil => exact absurd less (Nat.not_lt_zero _)
  | cons first lengths ih =>
      rw [List.count_cons] at less
      by_cases same : first = length
      · cases index with
        | zero => exact ⟨0, Nat.succ_pos _, same, rfl⟩
        | succ index =>
            rw [if_pos (beq_iff_eq.mpr same)] at less
            obtain ⟨symbol, inside, found, ranked⟩ := ih (Nat.lt_of_succ_lt_succ less)
            refine ⟨symbol + 1, Nat.succ_lt_succ inside, found, ?_⟩
            rw [List.take_succ_cons, List.count_cons, ranked, if_pos (beq_iff_eq.mpr same)]
      · rw [if_neg (by rwa [beq_iff_eq])] at less
        obtain ⟨symbol, inside, found, ranked⟩ := ih less
        refine ⟨symbol + 1, Nat.succ_lt_succ inside, found, ?_⟩
        rw [List.take_succ_cons, List.count_cons, ranked, if_neg (by rwa [beq_iff_eq]),
          Nat.add_zero]

/-- Every place is the place of a symbol. -/
theorem exists_place {longest index : Nat} (less : index < before (countOf lengths) longest) :
    ∃ symbol < lengths.length, lengths.getD symbol 0 ≠ 0 ∧ place lengths symbol = index := by
  obtain ⟨length, -, least, most⟩ := exists_before less
  have coded : length ≠ 0 := by
    rintro rfl
    exact absurd (lt_of_le_of_lt least most) (lt_irrefl _)
  have counted : index - before (countOf lengths) length < lengths.count length := by
    rw [countOf, if_neg coded] at most
    omega
  obtain ⟨symbol, inside, found, ranked⟩ := exists_rank lengths counted
  refine ⟨symbol, inside, found.symm ▸ coded, ?_⟩
  rw [place, rank, found, ranked]
  omega

end Symbols

end Canonical
