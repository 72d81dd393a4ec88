import VaultSeed.Uzlib.Compress

/-! # The search for matches

The history of the compressor holds the last bytes of what it was given
(`VaultSeed.Uzlib.Holds.push`), and `uzlib_lz77_search_max_match` finds a match in it that none
exceeds (`VaultSeed.Uzlib.searchMaxMatch_matches`, `VaultSeed.Uzlib.matchLen_le_search`).
-/

namespace VaultSeed.Uzlib

open Copies

/-- The history holds the last bytes of what is done. -/
structure Holds (state : Lz77State) (done : List UInt8) : Prop where
  power : ∃ wbits, state.histMax = 2 ^ wbits
  length : state.histBuf.length = state.histMax
  remembers : Ring.Remembers state.histBuf done
  len : state.histLen = min done.length state.histMax
  start : state.histStart = (done.length - state.histLen) % state.histMax

section History

variable {state after : Lz77State} {done : List UInt8}

/-- Before the first byte the history holds nothing, whatever the memory held. -/
theorem Holds.init (dest : List UInt8) {hist : List UInt8} {wbits : Nat}
    (length : hist.length = 2 ^ wbits) : Holds (lz77Init dest hist (2 ^ wbits)) [] where
  power := ⟨wbits, rfl⟩
  length := length
  remembers := .start (length ▸ Nat.two_pow_pos wbits)
  len := (Nat.zero_min _).symm
  start := (Nat.zero_mod _).symm

/-- What a window holds depends on its history only. -/
theorem Holds.of_history (holds : Holds state done) (same : after.history = state.history) :
    Holds after done := by
  obtain ⟨dest, outbits, noutbits, histBuf, histMax, histStart, histLen⟩ := after
  cases same
  exact ⟨holds.power, holds.length, holds.remembers, holds.len, holds.start⟩

private theorem Holds.mask (holds : Holds state done) (index : Nat) :
    index &&& (state.histMax - 1) = index % state.histMax := by
  obtain ⟨wbits, power⟩ := holds.power
  rw [power]
  exact Nat.and_two_pow_sub_one_eq_mod index wbits

/-- The place that the next byte is pushed to. -/
theorem Holds.place (holds : Holds state done) :
    (state.histStart + state.histLen) &&& (state.histMax - 1) =
      done.length % state.histBuf.length := by
  have within : state.histLen ≤ done.length := holds.len.le.trans (min_le_left _ _)
  rw [holds.mask, holds.start, Nat.mod_add_mod, Nat.sub_add_cancel within, holds.length]

private theorem Holds.push (holds : Holds state done) (b : UInt8) :
    Holds (pushHist state b) (done ++ [b]) := by
  have remembers := holds.remembers.push b
  rw [← holds.place] at remembers
  have length : ∀ place,
      (state.histBuf.set place b).length = state.histMax := fun place => by
    rw [List.length_set, holds.length]
  have within : state.histLen ≤ done.length := holds.len.le.trans (min_le_left _ _)
  have count : (done ++ [b]).length = done.length + 1 := List.length_append
  rw [pushHist]
  by_cases full : state.histLen = state.histMax
  · have many : state.histMax ≤ done.length := full ▸ within
    have start : (state.histStart + 1) &&& (state.histMax - 1) =
        ((done ++ [b]).length - state.histLen) % state.histMax := by
      rw [holds.mask, holds.start, Nat.mod_add_mod, count, Nat.sub_add_comm within]
    rw [if_pos full]
    refine ⟨holds.power, length _, remembers, ?_, start⟩
    show state.histLen = min (done ++ [b]).length state.histMax
    rw [count, full, min_eq_right (by omega)]
  · have few : done.length < state.histMax := by
      have len := holds.len
      omega
    have all : state.histLen = done.length := by
      rw [holds.len, min_eq_left few.le]
    have start : state.histStart = 0 := by
      rw [holds.start, all, Nat.sub_self, Nat.zero_mod]
    rw [if_neg full]
    refine ⟨holds.power, length _, remembers, ?_, ?_⟩
    · show state.histLen + 1 = min (done ++ [b]).length state.histMax
      rw [count, all, min_eq_left few]
    · show state.histStart = ((done ++ [b]).length - (state.histLen + 1)) % state.histMax
      rw [count, all, start, Nat.sub_self, Nat.zero_mod]

/-- Pushing a piece appends it to what the window holds. -/
theorem Holds.pushes (holds : Holds state done) (piece : List UInt8) :
    Holds (piece.foldl pushHist state) (done ++ piece) := by
  induction piece generalizing state done with
  | nil =>
      rw [List.append_nil]
      exact holds
  | cons b piece ih =>
      rw [List.foldl_cons, ← List.singleton_append, ← List.append_assoc]
      exact ih (holds.push b)

/-- The history and the source together are the last bytes and what follows them. -/
theorem Holds.histAt (holds : Holds state done) (src : List UInt8) (index : Nat)
    (inside : index < state.histLen + src.length) :
    (done ++ src)[done.length - state.histLen + index]? = some (histAt state src index) := by
  have within : state.histLen ≤ done.length := holds.len.le.trans (min_le_left _ _)
  have most : state.histLen ≤ state.histMax := holds.len.le.trans (min_le_right _ _)
  rw [Uzlib.histAt]
  by_cases old : index < state.histLen
  · have place : state.histStart + index &&& (state.histMax - 1) =
        (done.length - state.histLen + index) % state.histBuf.length := by
      rw [holds.mask, holds.start, Nat.mod_add_mod, holds.length]
    have recent := holds.remembers.recent (done.length - state.histLen + index) (by omega)
      (by rw [holds.length]; omega)
    have known : done.length - state.histLen + index < done.length := by omega
    rw [if_pos old, place, List.getElem?_append_left known, List.getD_eq_getElem?_getD, recent,
      List.getElem?_eq_getElem known, Option.getD_some]
  · have known : index - state.histLen < src.length := by omega
    have place : done.length - state.histLen + index - done.length = index - state.histLen := by
      omega
    rw [if_neg old, List.getElem?_append_right (by omega), place, List.getD_eq_getElem?_getD,
      List.getElem?_eq_getElem known, Option.getD_some]

end History

section Search

variable {state : Lz77State} {done src : List UInt8} {histSearch : Nat}

/-- The source matches from an index of the history on. -/
def Matches (state : Lz77State) (src : List UInt8) (histSearch length : Nat) : Prop :=
  ∀ index < length, src.getD index 0 = histAt state src (histSearch + index)

/-- The inner loop goes on as long as the source matches. -/
theorem matchLenTurns_spec {fuel matchLen : Nat} (matched : Matches state src histSearch matchLen)
    (enough : src.length ≤ fuel + matchLen) (few : matchLen ≤ 259)
    (inside : matchLen ≤ src.length) :
    let length := matchLenTurns state src histSearch fuel matchLen
    Matches state src histSearch length ∧ length ≤ 259 ∧ length ≤ src.length ∧
      ∀ longer ≤ 259, longer ≤ src.length → Matches state src histSearch longer →
        longer ≤ length := by
  induction fuel generalizing matchLen with
  | zero => exact ⟨matched, few, inside, fun longer _ within _ => by rw [matchLenTurns]; omega⟩
  | succ fuel ih =>
      rw [matchLenTurns]
      by_cases more : matchLen ≤ 258 ∧ matchLen < src.length
      · rw [if_pos more]
        by_cases differ : src.getD matchLen 0 ≠ histAt state src (histSearch + matchLen)
        · rw [if_pos differ]
          refine ⟨matched, few, inside, fun longer _ _ matchedLonger => ?_⟩
          exact Nat.le_of_not_lt fun less => differ (matchedLonger matchLen less)
        · rw [if_neg differ]
          refine ih (fun index less => ?_) (by omega) (by omega) (by omega)
          rcases Nat.lt_succ_iff_lt_or_eq.mp less with before | rfl
          · exact matched index before
          · exact not_not.mp differ
      · rw [if_neg more]
        exact ⟨matched, few, inside, fun longer _ _ _ => by omega⟩

private theorem matchLen_spec (state : Lz77State) (src : List UInt8) (histSearch : Nat) :
    Matches state src histSearch (matchLen state src histSearch) ∧
      matchLen state src histSearch ≤ 259 ∧ matchLen state src histSearch ≤ src.length ∧
      ∀ longer ≤ 259, longer ≤ src.length → Matches state src histSearch longer →
        longer ≤ matchLen state src histSearch :=
  matchLenTurns_spec (fun _ less => absurd less (Nat.not_lt_zero _)) (Nat.le_refl _) (by decide)
    (Nat.zero_le _)

/-- A match in the history is a repetition. -/
theorem Holds.repeats (holds : Holds state done) {length : Nat} (within : length ≤ src.length)
    (known : histSearch < state.histLen) (matched : Matches state src histSearch length) :
    Repeats done (src.take length) (state.histLen - histSearch) := by
  intro index inside
  rw [List.length_take, min_eq_left within] at inside
  have shorter : state.histLen ≤ done.length := holds.len.le.trans (min_le_left _ _)
  have place : done.length + index - (state.histLen - histSearch) =
      done.length - state.histLen + (histSearch + index) := by omega
  have byte := holds.histAt src (histSearch + index) (by omega)
  have same := matched index inside
  rw [List.getD_eq_getElem?_getD, List.getElem?_eq_getElem (by omega), Option.getD_some] at same
  have whole : done ++ src = done ++ src.take length ++ src.drop length := by
    rw [List.append_assoc, List.take_append_drop]
  have short : done.length - state.histLen + (histSearch + index) <
      (done ++ src.take length).length := by
    rw [List.length_append, List.length_take, min_eq_left within]
    omega
  rw [whole, List.getElem?_append_left short] at byte
  rw [place, byte, List.getElem?_take_of_lt inside, List.getElem?_eq_getElem (by omega), same]

/-- A repetition from within the history is a match. -/
theorem Holds.matches (holds : Holds state done) {length distance : Nat}
    (within : length ≤ src.length) (positive : 0 < distance) (known : distance ≤ state.histLen)
    (repeats : Repeats done (src.take length) distance) :
    Matches state src (state.histLen - distance) length := by
  intro index inside
  have shorter : state.histLen ≤ done.length := holds.len.le.trans (min_le_left _ _)
  have place : done.length - state.histLen + (state.histLen - distance + index) =
      done.length + index - distance := by omega
  have byte := holds.histAt src (state.histLen - distance + index) (by omega)
  have whole : done ++ src = done ++ src.take length ++ src.drop length := by
    rw [List.append_assoc, List.take_append_drop]
  have short : done.length + index - distance < (done ++ src.take length).length := by
    rw [List.length_append, List.length_take, min_eq_left within]
    omega
  have same := repeats index (by rw [List.length_take, min_eq_left within]; exact inside)
  rw [place, whole, List.getElem?_append_left short, same, List.getElem?_take_of_lt inside] at byte
  rw [List.getD_eq_getElem?_getD, byte, Option.getD_some]

/-- What the search has found after the first indices. -/
structure Found (state : Lz77State) (src : List UInt8) (count : Nat) (longest : Nat × Nat) :
    Prop where
  none_or : longest.1 = 0 ∨ 3 ≤ longest.1 ∧ ∃ histSearch < state.histLen,
    longest = (matchLen state src histSearch, state.histLen - histSearch)
  most : ∀ histSearch < count, 3 ≤ matchLen state src histSearch →
    matchLen state src histSearch ≤ longest.1 ∧
      (matchLen state src histSearch = longest.1 → longest.2 ≤ state.histLen - histSearch)

private theorem searchTurn_found {longest : Nat × Nat} {count : Nat} (less : count < state.histLen)
    (found : Found state src count longest) :
    Found state src (count + 1) (searchTurn state src longest count) := by
  rw [searchTurn]
  by_cases better : 3 ≤ matchLen state src count ∧ longest.1 ≤ matchLen state src count
  · rw [if_pos better]
    refine ⟨.inr ⟨better.1, count, less, rfl⟩, fun histSearch inside long => ?_⟩
    rcases Nat.lt_succ_iff_lt_or_eq.mp inside with before | rfl
    · exact ⟨(found.most histSearch before long).1.trans better.2, fun _ => by
        show state.histLen - count ≤ state.histLen - histSearch
        omega⟩
    · exact ⟨Nat.le_refl _, fun _ => Nat.le_refl _⟩
  · rw [if_neg better]
    refine ⟨found.none_or, fun histSearch inside long => ?_⟩
    rcases Nat.lt_succ_iff_lt_or_eq.mp inside with before | rfl
    · exact found.most histSearch before long
    · have shorter : matchLen state src histSearch < longest.1 := by
        by_contra least
        exact better ⟨long, Nat.le_of_not_lt least⟩
      exact ⟨shorter.le, fun same => absurd same (Nat.ne_of_lt shorter)⟩

private theorem searchMaxMatch_found (state : Lz77State) (src : List UInt8) :
    Found state src state.histLen (searchMaxMatch state src) := by
  have runs : ∀ count ≤ state.histLen,
      Found state src count ((List.range count).foldl (searchTurn state src) (0, 0)) := by
    intro count within
    induction count with
    | zero => exact ⟨.inl rfl, fun _ less => absurd less (Nat.not_lt_zero _)⟩
    | succ count ih =>
        rw [List.range_succ, List.foldl_append, List.foldl_cons, List.foldl_nil]
        exact searchTurn_found within (ih (by omega))
  exact runs _ (Nat.le_refl _)

/-- What is found repeats what stands a distance back, within the history and within a length. -/
theorem Holds.searchMaxMatch (holds : Holds state done)
    (some' : (searchMaxMatch state src).1 ≠ 0) :
    3 ≤ (searchMaxMatch state src).1 ∧ (searchMaxMatch state src).1 ≤ 259 ∧
      (searchMaxMatch state src).1 ≤ src.length ∧ 0 < (searchMaxMatch state src).2 ∧
      (searchMaxMatch state src).2 ≤ done.length ∧
      (searchMaxMatch state src).2 ≤ state.histMax ∧
      Repeats done (src.take (searchMaxMatch state src).1) (searchMaxMatch state src).2 := by
  rcases (searchMaxMatch_found state src).none_or with none | ⟨long, histSearch, known, found⟩
  · exact absurd none some'
  · obtain ⟨matched, few, within, -⟩ := matchLen_spec state src histSearch
    have len := holds.len
    have shorter : state.histLen ≤ done.length := len.le.trans (min_le_left _ _)
    have most : state.histLen ≤ state.histMax := len.le.trans (min_le_right _ _)
    rw [found] at long ⊢
    exact ⟨long, few, within, Nat.sub_pos_of_lt known, (Nat.sub_le _ _).trans shorter,
      (Nat.sub_le _ _).trans most, holds.repeats within known matched⟩

/-- The search finds a longest repetition in the window, up to its limit, and of these the nearest;
it finds none only where there is none. -/
theorem searchMaxMatch_longest (holds : Holds state done) (src : List UInt8) :
    ((searchMaxMatch state src).1 ≠ 0 →
      3 ≤ (searchMaxMatch state src).1 ∧ (searchMaxMatch state src).1 ≤ 259 ∧
      0 < (searchMaxMatch state src).2 ∧
      (searchMaxMatch state src).2 ≤ min done.length state.histMax ∧
      Repeats done (src.take (searchMaxMatch state src).1) (searchMaxMatch state src).2) ∧
    ∀ distance length, 0 < distance → distance ≤ min done.length state.histMax → 3 ≤ length →
      length ≤ 259 → length ≤ src.length → Repeats done (src.take length) distance →
        length ≤ (searchMaxMatch state src).1 ∧
          (length = (searchMaxMatch state src).1 → (searchMaxMatch state src).2 ≤ distance) := by
  constructor
  · intro some'
    obtain ⟨least, most, -, positive, known, inside, repeats⟩ := holds.searchMaxMatch some'
    exact ⟨least, most, positive, le_min known inside, repeats⟩
  · intro distance length positive near least most within repeats
    rw [← holds.len] at near
    have matched := holds.matches within positive near repeats
    obtain ⟨-, -, -, longest⟩ := matchLen_spec state src (state.histLen - distance)
    have long := longest length most within matched
    obtain ⟨shorter, nearest⟩ := (searchMaxMatch_found state src).most (state.histLen - distance)
      (by omega) (least.trans long)
    refine ⟨long.trans shorter, fun same => ?_⟩
    have back := nearest (by omega)
    omega

/-- Four bytes that stand three back, over the end of the history. -/
theorem searchMaxMatch_longest_four :
    4 ≤ (searchMaxMatch
      ([97, 98, 99, 97, 98, 99, 97].foldl pushHist (lz77Init [] (List.replicate 8 0) (2 ^ 3)))
      [98, 99, 97, 98, 100]).1 := by
  have holds : Holds (lz77Init [] (List.replicate 8 0) (2 ^ 3)) [] := Holds.init [] rfl
  have repeats : Repeats [97, 98, 99, 97, 98, 99, 97]
      (([98, 99, 97, 98, 100] : List UInt8).take 4) 3 := by
    unfold Repeats
    decide
  exact ((searchMaxMatch_longest (holds.pushes [97, 98, 99, 97, 98, 99, 97]) _).2 3 4 (by decide)
    (by decide) (by decide) (by decide) (by decide) repeats).1

end Search

end VaultSeed.Uzlib
