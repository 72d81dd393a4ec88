import VaultSeed.Uzlib.Trees

/-! # Trees of any codes

`tinf_build_tree` sorts the symbols by the lengths of their codes, and `tinf_decode_symbol` reads
the canonical code of every symbol back with the tree (`VaultSeed.Uzlib.decodeSymbol_buildTree`).
-/

namespace VaultSeed.Uzlib

open Canonical

section Counting

variable {lengths table counts : List Nat} {length : Nat}

/-- A store inside of an array. -/
theorem store_of_lt {α : Type} {array : List α} {index : Nat} (inside : index < array.length)
    (element : α) : store array index element = .ok (array.set index element) := if_pos inside

private theorem getD_set_self {array : List Nat} {index : Nat} (inside : index < array.length)
    (element : Nat) : (array.set index element).getD index 0 = element := by
  rw [List.getD_eq_getElem?_getD, List.getElem?_set_self inside, Option.getD_some]

private theorem getD_set_ne {array : List Nat} {index other : Nat} (differ : index ≠ other)
    (element : Nat) : (array.set index element).getD other 0 = array.getD other 0 := by
  rw [List.getD_eq_getElem?_getD, List.getElem?_set_ne differ, ← List.getD_eq_getElem?_getD]

/-- The lengths are counted. -/
theorem countLengths_eq (sixteen : table.length = 16) (short : ∀ length ∈ lengths, length < 16) :
    ∃ counted, countLengths lengths table = .ok counted ∧ counted.length = 16 ∧
      ∀ length, counted.getD length 0 = table.getD length 0 + lengths.count length := by
  induction lengths generalizing table with
  | nil => exact ⟨table, rfl, sixteen, fun _ => rfl⟩
  | cons first lengths ih =>
      have inside : first < table.length := sixteen ▸ short first List.mem_cons_self
      obtain ⟨counted, ran, size, counts⟩ := ih
        (show (table.set first (table.getD first 0 + 1)).length = 16 by rwa [List.length_set])
        fun length member => short length (List.mem_cons_of_mem _ member)
      refine ⟨counted, ?_, size, fun length => ?_⟩
      · rw [countLengths, fetch_getD inside]
        simp only [Except.bind]
        rw [store_of_lt inside]
        exact ran
      · rw [counts, List.count_cons]
        by_cases same : first = length
        · rw [same] at inside ⊢
          rw [getD_set_self inside, if_pos (beq_self_eq_true length)]
          omega
        · rw [getD_set_ne same, if_neg (by rwa [beq_iff_eq]), Nat.add_zero]

private theorem before_cons (count : Nat) (counts : List Nat) (length : Nat) :
    before ((count :: counts).getD · 0) (length + 1) =
      count + before (counts.getD · 0) length := by
  induction length with
  | zero => exact Nat.add_comm 0 count
  | succ length ih => rw [before, ih, before, List.getD_cons_succ, Nat.add_assoc]

/-- `offs` is how many codes are shorter. -/
theorem offsets_eq (sum : Nat) (counts : List Nat) (inside : length < counts.length) :
    (offsets sum counts).getD length 0 = sum + before (counts.getD · 0) length := by
  induction counts generalizing sum length with
  | nil => exact absurd inside (Nat.not_lt_zero _)
  | cons count counts ih =>
      cases length with
      | zero => rfl
      | succ length =>
          rw [offsets, List.getD_cons_succ, ih _ (Nat.lt_of_succ_lt_succ inside), before_cons,
            Nat.add_assoc]

private theorem length_offsets (sum : Nat) (counts : List Nat) :
    (offsets sum counts).length = counts.length := by
  induction counts generalizing sum with
  | nil => rfl
  | cons count counts ih => rw [offsets, List.length_cons, ih, List.length_cons]

private theorem countOf_cons (first length : Nat) (lengths : List Nat) :
    countOf (first :: lengths) length =
      countOf lengths length + if first ≠ 0 ∧ first = length then 1 else 0 := by
  rw [countOf, countOf, List.count_cons]
  by_cases zero : length = 0
  · rw [if_pos zero, if_pos zero, if_neg (by omega)]
  · rw [if_neg zero, if_neg zero]
    by_cases same : first = length
    · rw [if_pos (beq_iff_eq.mpr same), if_pos (by omega)]
    · rw [if_neg (mt beq_iff_eq.mp same), if_neg (by omega)]

/-- There are no more codes than symbols. -/
theorem before_countOf_le (lengths : List Nat) (longest : Nat) :
    before (countOf lengths) longest ≤ lengths.length := by
  induction lengths with
  | nil =>
      have none : before (countOf []) longest = 0 := by
        induction longest with
        | zero => rfl
        | succ longest ih => rw [before, ih, countOf, List.count_nil, ite_self]
      exact none.le
  | cons first lengths ih =>
      have more : before (countOf (first :: lengths)) longest =
          before (countOf lengths) longest + if first ≠ 0 ∧ first < longest then 1 else 0 := by
        clear ih
        induction longest with
        | zero => rw [if_neg (by omega)]; rfl
        | succ longest ih =>
            rw [before, ih, before, countOf_cons]
            split <;> split <;> split <;> omega
      rw [more, List.length_cons]
      split <;> omega

end Counting

section Placing

variable {whole front lengths offs symbols : List Nat}

/-- What `tinf_build_tree` keeps to while it places symbols. -/
structure Placed (whole front offs symbols : List Nat) : Prop where
  sixteen : offs.length = 16
  size : symbols.length = 288
  next : ∀ length < 16, length ≠ 0 →
    offs.getD length 0 = before (countOf whole) length + front.count length
  placed : ∀ symbol < front.length, whole.getD symbol 0 ≠ 0 →
    symbols[place whole symbol]? = some symbol

private theorem place_lt {symbol : Nat} (inside : symbol < whole.length)
    (coded : whole.getD symbol 0 ≠ 0) : place whole symbol < whole.length := by
  have ranked := rank_lt_countOf inside coded
  have most := before_countOf_le whole (whole.getD symbol 0 + 1)
  rw [before] at most
  rw [place]
  omega

/-- The symbols are put in their places. -/
theorem placeSymbols_placed (split : whole = front ++ lengths) (few : whole.length ≤ 288)
    (short : ∀ length ∈ lengths, length < 16) (placed : Placed whole front offs symbols) :
    ∃ after offsAfter, placeSymbols front.length lengths offs symbols = .ok after ∧
      Placed whole whole offsAfter after := by
  induction lengths generalizing front offs symbols with
  | nil =>
      rw [List.append_nil] at split
      subst split
      exact ⟨symbols, offs, rfl, placed⟩
  | cons length lengths ih =>
      have count : front.length < whole.length := by
        rw [split, List.length_append, List.length_cons]
        omega
      have here : whole.getD front.length 0 = length := by
        rw [split, List.getD_eq_getElem?_getD, List.getElem?_append_right (Nat.le_refl _),
          Nat.sub_self]
        rfl
      have taken : whole.take front.length = front := by
        rw [split, List.take_left' rfl]
      have next : whole = front ++ [length] ++ lengths := by
        rw [split, List.append_assoc, List.singleton_append]
      have size : (front ++ [length]).length = front.length + 1 := by
        rw [List.length_append, List.length_singleton]
      have others : ∀ length ∈ lengths, length < 16 := fun other member =>
        short other (List.mem_cons_of_mem _ member)
      rw [placeSymbols]
      by_cases coded : length ≠ 0
      · have small := short length List.mem_cons_self
        have inside : length < offs.length := placed.sixteen ▸ small
        have found : offs.getD length 0 = place whole front.length := by
          rw [placed.next length small coded, place, rank, here, taken]
        have room : place whole front.length < symbols.length := by
          rw [placed.size]
          exact lt_of_lt_of_le (place_lt count (here ▸ coded)) few
        have going : Placed whole (front ++ [length])
            (offs.set length (place whole front.length + 1))
            (symbols.set (place whole front.length) front.length) := by
          refine ⟨(List.length_set).trans placed.sixteen, (List.length_set).trans placed.size,
            fun other less some' => ?_, fun symbol before' some' => ?_⟩
          · rw [List.count_append, List.count_singleton]
            by_cases same : length = other
            · subst same
              rw [getD_set_self inside, ← found, placed.next length small coded,
                if_pos (beq_self_eq_true length)]
              omega
            · rw [getD_set_ne same, placed.next other less some', if_neg (by rwa [beq_iff_eq]),
                Nat.add_zero]
          · rw [size] at before'
            rcases Nat.lt_succ_iff_lt_or_eq.mp before' with old | rfl
            · have apart : place whole front.length ≠ place whole symbol := fun same =>
                Nat.ne_of_gt old
                  (place_injective count (by omega) (here ▸ coded) some' same)
              rw [List.getElem?_set_ne apart]
              exact placed.placed symbol old some'
            · exact List.getElem?_set_self room
        have rest := ih next others going
        rw [size] at rest
        rw [if_pos coded, fetch_getD inside, found]
        simp only [Except.bind]
        rw [store_of_lt room]
        simp only
        rw [store_of_lt inside]
        exact rest
      · have zero : length = 0 := not_not.mp coded
        have going : Placed whole (front ++ [length]) offs symbols := by
          refine ⟨placed.sixteen, placed.size, fun other less some' => ?_,
            fun symbol before' some' => ?_⟩
          · rw [List.count_append, List.count_singleton, zero,
              if_neg (by rw [beq_iff_eq]; exact fun same => some' same.symm), Nat.add_zero]
            exact placed.next other less some'
          · rw [size] at before'
            rcases Nat.lt_succ_iff_lt_or_eq.mp before' with old | rfl
            · exact placed.placed symbol old some'
            · exact absurd (here.trans zero) some'
        have rest := ih next others going
        rw [size] at rest
        rw [if_neg coded]
        exact rest

end Placing

section Trees

variable {t : Tree} {lengths : List Nat}

/-- The tree of lengths: its counts, and every symbol in its place. -/
theorem buildTree_eq (size : t.trans.length = 288) (few : lengths.length ≤ 288)
    (short : ∀ length ∈ lengths, length < 16) :
    ∃ tree, buildTree t lengths = .ok tree ∧ tree.table.length = 16 ∧ tree.trans.length = 288 ∧
      (∀ length, tree.counts length = countOf lengths length) ∧
      ∀ symbol < lengths.length, lengths.getD symbol 0 ≠ 0 →
        tree.trans[place lengths symbol]? = some symbol := by
  obtain ⟨counted, ran, sixteen, counts⟩ :=
    countLengths_eq (show (List.replicate 16 0).length = 16 from List.length_replicate) short
  have first : 0 < counted.length := by rw [sixteen]; decide
  have cleared : ∀ length, (counted.set 0 0).getD length 0 = countOf lengths length := by
    intro length
    rw [countOf]
    by_cases zero : length = 0
    · rw [zero, getD_set_self first, if_pos rfl]
    · have none : (List.replicate 16 0).getD length 0 = 0 := by
        rw [List.getD_eq_getElem?_getD, List.getElem?_replicate]
        split <;> rfl
      rw [getD_set_ne (Ne.symm zero), counts, none, Nat.zero_add, if_neg zero]
  have table : (counted.set 0 0).length = 16 := (List.length_set).trans sixteen
  have start : Placed lengths [] (offsets 0 (counted.set 0 0)) t.trans := by
    refine ⟨(length_offsets _ _).trans table, size, fun length less _ => ?_,
      fun _ none => absurd none (Nat.not_lt_zero _)⟩
    rw [offsets_eq 0 _ (table ▸ less), Nat.zero_add, List.count_nil, Nat.add_zero]
    exact before_congr fun shorter _ => cleared shorter
  have split : lengths = [] ++ lengths := rfl
  obtain ⟨symbols, offs, placing, placed⟩ := placeSymbols_placed split few short start
  refine ⟨⟨counted.set 0 0, symbols⟩, ?_, table, placed.size, cleared, placed.placed⟩
  rw [buildTree, ran]
  simp only [Except.bind]
  rw [store_of_lt first]
  simp only
  rw [List.length_nil] at placing
  rw [placing]

/-- With the tree of lengths that leave room, the canonical code of every symbol is read as the
symbol, and no bit more. -/
theorem decodeSymbol_buildTree (size : t.trans.length = 288) (few : lengths.length ≤ 288)
    (short : ∀ length ∈ lengths, length < 16)
    (room : ∑ length ∈ Finset.range 16, countOf lengths length * 2 ^ (15 - length) ≤ 2 ^ 15) :
    ∃ tree, buildTree t lengths = .ok tree ∧
      ∀ symbol < lengths.length, lengths.getD symbol 0 ≠ 0 → ∀ (d : Source) (rest : List Bool),
        Pending d (Bits.ofDigit (lengths.getD symbol 0) (code lengths symbol) ++ rest) →
          ∃ after, decodeSymbol d tree = .ok (symbol, after) ∧ Pending after rest := by
  obtain ⟨tree, built, sixteen, -, counts, placed⟩ := buildTree_eq size few short
  refine ⟨tree, built, fun symbol inside coded d rest pending => ?_⟩
  have member : lengths.getD symbol 0 ∈ lengths := by
    rw [List.getD_eq_getElem?_getD, List.getElem?_eq_getElem inside, Option.getD_some]
    exact List.getElem_mem inside
  have small := short _ member
  have ranked := rank_lt_countOf inside coded
  have first' : first tree.counts (lengths.getD symbol 0) =
      first (countOf lengths) (lengths.getD symbol 0) := first_congr fun other _ => counts other
  have before' : before tree.counts (lengths.getD symbol 0) =
      before (countOf lengths) (lengths.getD symbol 0) := before_congr fun other _ => counts other
  have fits := first_add_le (Nat.le_of_lt_succ small) room
  rw [code, ← first'] at pending
  refine decodeSymbol_code sixteen (counts 0) (Nat.pos_of_ne_zero coded) small ?_ ?_ ?_ pending
  · rw [counts]
    exact ranked
  · rw [first']
    omega
  · rw [before']
    exact placed symbol inside coded

/-- A tree of four symbols, with codes of one to three bits. -/
theorem decodeSymbol_buildTree_four : ∃ tree, buildTree Tree.zero [2, 1, 3, 3] = .ok tree ∧
    ∀ symbol < 4, [2, 1, 3, 3].getD symbol 0 ≠ 0 → ∀ (d : Source) (rest : List Bool),
      Pending d (Bits.ofDigit ([2, 1, 3, 3].getD symbol 0) (code [2, 1, 3, 3] symbol) ++ rest) →
        ∃ after, decodeSymbol d tree = .ok (symbol, after) ∧ Pending after rest :=
  decodeSymbol_buildTree List.length_replicate (by decide) (by decide) (by decide +kernel)

end Trees

end VaultSeed.Uzlib
