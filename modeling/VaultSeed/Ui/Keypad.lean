import VaultSeed.Foundation.Loops
import VaultSeed.Foundation.Rotation
import VaultSeed.Ui.Input
import Mathlib.Data.Nat.Sqrt

/-! # The cursor of a keypad

`pages/keypads.py`: the keys of a keyset stand in the first cells of a layout, the fixed keys in its
last ones, and what is left between them is empty. The moves go around the keys
(`VaultSeed.Ui.Grid.rotates`), and `get_valid_index` goes on from a key that is not possible until
it is on one that can be pressed.
-/

namespace VaultSeed.Ui

open Loops Rotation

/-- Cells of a layout: characters in the first of them, nothing behind these, and fixed keys in the
rest. -/
structure Grid where
  chars : Nat
  empty : Nat
  cells : Nat
  positive : 0 < chars
  fixed : chars + empty < cells

namespace Grid

variable (grid : Grid)

/-- A cell with a key. -/
def Real (cell : Nat) : Prop :=
  cell < grid.cells ∧ ¬(grid.chars ≤ cell ∧ cell < grid.chars + grid.empty)

/-- The keys before a cell. -/
def rank (cell : Nat) : Nat := if cell < grid.chars then cell else cell - grid.empty

/-- The next key. -/
def next (cell : Nat) : Nat :=
  let moved := (cell + 1) % grid.cells
  if moved = grid.chars then moved + grid.empty else moved

/-- The key before. -/
def previous (cell : Nat) : Nat :=
  if cell = grid.chars + grid.empty then grid.chars - 1
  else (((cell : Int) - 1) % grid.cells).toNat

variable {grid} {cell : Nat}

private theorem next_eq (real : grid.Real cell) :
    grid.next cell = if cell + 1 = grid.cells then 0
      else if cell + 1 = grid.chars then grid.chars + grid.empty else cell + 1 := by
  have some := grid.positive
  have inside := real.1
  rw [next]
  by_cases last : cell + 1 = grid.cells
  · rw [if_pos last, last, Nat.mod_self, if_neg some.ne]
  · rw [if_neg last, Nat.mod_eq_of_lt (by omega)]
    split
    · next same => rw [same]
    · rfl

private theorem previous_eq (real : grid.Real cell) :
    grid.previous cell = if cell = grid.chars + grid.empty then grid.chars - 1
      else if cell = 0 then grid.cells - 1 else cell - 1 := by
  have inside := real.1
  rw [previous]
  split
  · rfl
  · by_cases first : cell = 0
    · rw [if_pos first, first, Nat.cast_zero, ← Int.add_emod_right,
        Int.emod_eq_of_lt (by omega) (by omega)]
      omega
    · rw [if_neg first, Int.emod_eq_of_lt (by omega) (by omega)]
      omega

private theorem real_of_lt (inside : cell < grid.chars) : grid.Real cell := by
  have fixed := grid.fixed
  unfold Real
  omega

/-- The key after a character. -/
theorem next_of_lt (inside : cell < grid.chars) :
    grid.next cell =
      if cell + 1 = grid.chars then grid.chars + grid.empty else cell + 1 := by
  have fixed := grid.fixed
  have before : cell + 1 ≠ grid.cells := by omega
  rw [next_eq (real_of_lt inside), if_neg before]

/-- The key before a character. -/
theorem previous_of_lt (inside : cell < grid.chars) :
    grid.previous cell = if cell = 0 then grid.cells - 1 else cell - 1 := by
  have before : cell ≠ grid.chars + grid.empty := by omega
  rw [previous_eq (real_of_lt inside), if_neg before]

private theorem next_real (real : grid.Real cell) : grid.Real (grid.next cell) := by
  have some := grid.positive
  have fixed := grid.fixed
  rw [next_eq real]
  unfold Real at real ⊢
  split
  · omega
  · split <;> omega

private theorem previous_real (real : grid.Real cell) : grid.Real (grid.previous cell) := by
  have some := grid.positive
  have fixed := grid.fixed
  rw [previous_eq real]
  unfold Real at real ⊢
  split
  · omega
  · split <;> omega

/-- How far a character is from the last one in a direction. -/
def distance (grid : Grid) (forward : Bool) (cell : Nat) : Nat :=
  if cell < grid.chars then if forward then grid.chars - cell else cell + 1 else 0

private theorem chars_lt_cells (grid : Grid) : grid.chars < grid.cells :=
  Nat.lt_of_le_of_lt (Nat.le_add_right _ _) grid.fixed

private theorem distance_le (grid : Grid) (forward : Bool) (cell : Nat) :
    grid.distance forward cell ≤ grid.chars := by
  rw [distance]
  split
  · split <;> omega
  · exact Nat.zero_le _

private theorem distance_next (inside : cell < grid.chars) :
    grid.distance true (grid.next cell) < grid.distance true cell := by
  rw [next_of_lt inside, distance, distance, if_pos inside, if_pos rfl, if_pos rfl]
  by_cases edge : cell + 1 = grid.chars
  · rw [if_pos edge, if_neg (by omega)]
    omega
  · rw [if_neg edge, if_pos (by omega)]
    omega

private theorem distance_previous (inside : cell < grid.chars) :
    grid.distance false (grid.previous cell) < grid.distance false cell := by
  have more := grid.chars_lt_cells
  rw [previous_of_lt inside, distance, distance, if_pos inside, if_neg Bool.false_ne_true,
    if_neg Bool.false_ne_true]
  by_cases first : cell = 0
  · rw [if_pos first, if_neg (by omega)]
    omega
  · rw [if_neg first, if_pos (by omega)]
    omega

/-- Moving back undoes moving on. -/
theorem previous_next (real : grid.Real cell) : grid.previous (grid.next cell) = cell := by
  have some := grid.positive
  have fixed := grid.fixed
  rw [previous_eq (next_real real), next_eq real]
  unfold Real at real
  by_cases last : cell + 1 = grid.cells
  · rw [if_pos last, if_neg (by omega), if_pos rfl]
    omega
  by_cases edge : cell + 1 = grid.chars
  · rw [if_neg last, if_pos edge, if_pos rfl]
    omega
  · rw [if_neg last, if_neg edge, if_neg (by omega), if_neg (Nat.succ_ne_zero cell),
      Nat.add_sub_cancel]

private theorem rank_chars (inside : cell < grid.chars) : grid.rank cell = cell := if_pos inside

private theorem rank_fixed (behind : grid.chars ≤ cell) : grid.rank cell = cell - grid.empty :=
  if_neg (Nat.not_lt.mpr behind)

private theorem rank_next (real : grid.Real cell) :
    grid.rank (grid.next cell) = (grid.rank cell + 1) % (grid.cells - grid.empty) := by
  have some := grid.positive
  have fixed := grid.fixed
  rw [next_eq real]
  unfold Real at real
  by_cases last : cell + 1 = grid.cells
  · have whole : cell - grid.empty + 1 = grid.cells - grid.empty := by omega
    rw [if_pos last, rank_chars some, rank_fixed (by omega), whole, Nat.mod_self]
  by_cases edge : cell + 1 = grid.chars
  · rw [if_neg last, if_pos edge, rank_fixed (by omega), rank_chars (by omega), Nat.add_sub_cancel,
      edge, Nat.mod_eq_of_lt (by omega)]
  · rw [if_neg last, if_neg edge]
    by_cases inside : cell < grid.chars
    · rw [rank_chars inside, rank_chars (by omega), Nat.mod_eq_of_lt (by omega)]
    · rw [rank_fixed (by omega), rank_fixed (by omega), Nat.mod_eq_of_lt (by omega)]
      omega

/-- **Moving on goes around the keys.** -/
theorem rotates (grid : Grid) :
    Rotates grid.Real grid.rank (grid.cells - grid.empty) grid.next where
  keeps _ real := next_real real
  inside cell real := by
    have fixed := grid.fixed
    unfold Real at real
    rw [rank]
    split <;> omega
  next _ real := rank_next real
  apart first second firstReal secondReal same := by
    unfold Real at firstReal secondReal
    rw [rank, rank] at same
    split at same <;> split at same <;> omega

end Grid

/-- `FIXED_KEYS`. -/
def fixedKeys : Nat := 3

/-- `KeypadLayout`: its columns, rows and cells. -/
structure KeypadLayout where
  width : Nat
  height : Nat
  maxIndex : Nat
  deriving DecidableEq

/-- `KeypadLayout(ctx, max_keys_count)`. The roots and quotients of so few keys are exact. -/
def KeypadLayout.init (maxKeysCount : Nat) : KeypadLayout :=
  let width := maxKeysCount.sqrt
  let height := (maxKeysCount + width - 1) / width
  ⟨width, height, width * height⟩

variable {κ β : Type}

/-- The keysets of a keypad: there is one, and none is empty. -/
structure Keysets (κ : Type) where
  keysets : List (List κ)
  positive : 0 < keysets.length
  nonempty : ∀ keyset ∈ keysets, keyset ≠ []

namespace Keysets

variable (keysets : Keysets κ)

/-- `has_more_key`. -/
def hasMoreKey : Bool := keysets.keysets.length > 1

/-- `count_more_key`. -/
def countMoreKey : Nat := if keysets.hasMoreKey then 1 else 0

/-- `max_keys_count`. -/
def maxKeysCount : Nat :=
  (keysets.keysets.map List.length).foldr max 0 + fixedKeys + keysets.countMoreKey

/-- `layout`. -/
def layout : KeypadLayout := .init keysets.maxKeysCount

end Keysets

/-- `Keypad`. Of `possible_keys` it is asked whether a key is in them. -/
structure Keypad (keysets : Keysets κ) where
  keysetIndex : Fin keysets.keysets.length
  curKeyIndex : Nat
  movingForward : Bool
  possibleKeys : κ → Bool

namespace Keypad

variable {keysets : Keysets κ}

section Indices

variable (pad : Keypad keysets)

/-- `keys`. -/
def keys : List κ := keysets.keysets.get pad.keysetIndex

/-- `total_keys`. -/
def totalKeys : Nat := pad.keys.length + fixedKeys + keysets.countMoreKey

/-- `empty_keys`. -/
def emptyKeys : Nat := keysets.layout.maxIndex - pad.totalKeys

/-- `del_index`. -/
def delIndex : Nat := pad.keys.length + pad.emptyKeys + keysets.countMoreKey

/-- `more_index`. -/
def moreIndex : Option Nat := if keysets.hasMoreKey then some (pad.delIndex - 1) else none

/-- `esc_index`. -/
def escIndex : Nat := pad.delIndex + 1

/-- `go_index`. -/
def goIndex : Nat := pad.escIndex + 1

end Indices

/-- `compute_possible_keys`. -/
def computePossibleKeys (possibleKeysFn : Option (β → κ → Bool)) (buffer : β)
    (pad : Keypad keysets) : Keypad keysets :=
  match possibleKeysFn with
  | some possible => { pad with possibleKeys := possible buffer }
  | none => pad

/-- `get_valid_index`, the condition of the loop. -/
def onImpossible (pad : Keypad keysets) : Bool :=
  match pad.keys[pad.curKeyIndex]? with
  | some key => !pad.possibleKeys key
  | none => false

/-- `get_valid_index`, a turn of the loop. -/
def skip (pad : Keypad keysets) : Keypad keysets :=
  if pad.movingForward then
    let moved := (pad.curKeyIndex + 1) % keysets.layout.maxIndex
    if 0 ≤ (moved : Int) - pad.keys.length ∧ (moved : Int) - pad.keys.length < pad.emptyKeys then
      { pad with curKeyIndex := moved + pad.emptyKeys }
    else { pad with curKeyIndex := moved }
  else if pad.curKeyIndex ≠ 0 then { pad with curKeyIndex := pad.curKeyIndex - 1 }
  else { pad with curKeyIndex := keysets.layout.maxIndex - 1 }

/-- `get_valid_index`, with a bound on the turns of its loop. -/
def getValidIndex (fuel : Nat) (pad : Keypad keysets) : Option (Keypad keysets) :=
  whileDo onImpossible skip fuel pad

/-- `_next_key`. -/
def nextKey (pad : Keypad keysets) : Keypad keysets :=
  let moved := (pad.curKeyIndex + 1) % keysets.layout.maxIndex
  let curKeyIndex := if moved = pad.keys.length then moved + pad.emptyKeys else moved
  { pad with movingForward := true, curKeyIndex }

/-- `_previous_key`. -/
def previousKey (pad : Keypad keysets) : Keypad keysets :=
  let curKeyIndex :=
    if pad.curKeyIndex = pad.keys.length + pad.emptyKeys then pad.keys.length - 1
    else (((pad.curKeyIndex : Int) - 1) % keysets.layout.maxIndex).toNat
  { pad with movingForward := false, curKeyIndex }

/-- `_move_keyset_index`. -/
def moveKeysetIndex (pad : Keypad keysets) (forward : Bool) : Fin keysets.keysets.length :=
  let i : Int := if forward then 1 else -1
  ⟨(((pad.keysetIndex : Nat) + i) % keysets.keysets.length).toNat, by
    have some := keysets.positive
    have low := Int.emod_nonneg ((pad.keysetIndex : Nat) + i) (Int.natCast_ne_zero.mpr some.ne')
    have high := Int.emod_lt_of_pos ((pad.keysetIndex : Nat) + i) (Int.natCast_pos.mpr some)
    omega⟩

section Moves

variable [DecidableEq κ]

/-- `reset`, when a keyset is shown. -/
def reset (keysetIndex : Fin keysets.keysets.length) : Keypad keysets where
  keysetIndex
  curKeyIndex := 0
  movingForward := true
  possibleKeys key := decide (key ∈ keysets.keysets.get keysetIndex)

/-- `Keypad(ctx, keysets, possible_keys_fn)`. -/
def init (keysets : Keysets κ) : Keypad keysets := reset ⟨0, keysets.positive⟩

/-- `next_keyset`. -/
def nextKeyset (pad : Keypad keysets) : Keypad keysets :=
  if keysets.hasMoreKey then reset (pad.moveKeysetIndex true) else pad

/-- `previous_keyset`. -/
def previousKeyset (pad : Keypad keysets) : Keypad keysets :=
  if keysets.hasMoreKey then reset (pad.moveKeysetIndex false) else pad

/-- `navigate`. -/
def navigate (pad : Keypad keysets) : Button → Keypad keysets
  | .page | .fastForward => pad.nextKey
  | .pagePrev | .fastBackward => pad.previousKey
  | .swipeUp | .swipeLeft => pad.nextKeyset
  | .swipeDown | .swipeRight => pad.previousKeyset
  | _ => pad

/-- What the loop of `capture_from_keypad` asks of a keypad. -/
inductive Action (β : Type) where
  | computePossibleKeys (buffer : β)
  | getValidIndex
  | navigate (btn : Button)

/-- An action, with a bound on the turns of the loop of `get_valid_index`. -/
def act (possibleKeysFn : Option (β → κ → Bool)) (fuel : Nat) (pad : Keypad keysets) :
    Action β → Option (Keypad keysets)
  | .computePossibleKeys buffer => some (pad.computePossibleKeys possibleKeysFn buffer)
  | .getValidIndex => pad.getValidIndex fuel
  | .navigate btn => some (pad.navigate btn)

/-- One action after the other. -/
def run (possibleKeysFn : Option (β → κ → Bool)) (fuel : Nat) (pad : Keypad keysets)
    (actions : List (Action β)) : Option (Keypad keysets) :=
  actions.foldlM (act possibleKeysFn fuel) pad

end Moves

section Cells

private theorem le_foldr_max {lengths : List Nat} {length : Nat} (member : length ∈ lengths) :
    length ≤ lengths.foldr max 0 := by
  induction lengths with
  | nil => cases member
  | cons first lengths ih =>
      rw [List.foldr_cons]
      rcases List.mem_cons.mp member with rfl | later
      · exact Nat.le_max_left _ _
      · exact (ih later).trans (Nat.le_max_right _ _)

/-- A layout has a cell for every key. -/
theorem le_maxIndex {count : Nat} (some : 0 < count) :
    count ≤ (KeypadLayout.init count).maxIndex := by
  have width := Nat.sqrt_pos.mpr some
  have whole := Nat.div_add_mod (count + count.sqrt - 1) count.sqrt
  have rest := Nat.mod_lt (count + count.sqrt - 1) width
  change count ≤ count.sqrt * ((count + count.sqrt - 1) / count.sqrt)
  omega

private theorem keys_pos (pad : Keypad keysets) : 0 < pad.keys.length :=
  List.length_pos_iff.mpr (keysets.nonempty _ (List.get_mem _ _))

private theorem totalKeys_le (pad : Keypad keysets) : pad.totalKeys ≤ keysets.layout.maxIndex := by
  have longest : pad.keys.length ≤ (keysets.keysets.map List.length).foldr max 0 :=
    le_foldr_max (List.mem_map_of_mem (List.get_mem _ _))
  have enough : keysets.maxKeysCount ≤ keysets.layout.maxIndex := by
    apply le_maxIndex
    rw [Keysets.maxKeysCount, fixedKeys]
    omega
  refine le_trans ?_ enough
  rw [totalKeys, Keysets.maxKeysCount]
  omega

private theorem totalKeys_add_emptyKeys (pad : Keypad keysets) :
    pad.totalKeys + pad.emptyKeys = keysets.layout.maxIndex :=
  Nat.add_sub_cancel' pad.totalKeys_le

/-- The cells of the keyset that is shown. -/
def grid (pad : Keypad keysets) : Grid where
  chars := pad.keys.length
  empty := pad.emptyKeys
  cells := keysets.layout.maxIndex
  positive := pad.keys_pos
  fixed := by
    have whole := pad.totalKeys_add_emptyKeys
    rw [totalKeys, fixedKeys] at whole
    omega

/-- A fixed key. -/
def FixedKey (pad : Keypad keysets) (cell : Nat) : Prop :=
  pad.moreIndex = some cell ∨ cell = pad.delIndex ∨ cell = pad.escIndex ∨ cell = pad.goIndex

/-- The fixed keys have the last cells. -/
theorem fixedKey_iff (pad : Keypad keysets) {cell : Nat} :
    pad.FixedKey cell ↔ pad.grid.chars + pad.grid.empty ≤ cell ∧ cell < pad.grid.cells := by
  have whole := pad.totalKeys_add_emptyKeys
  change _ ↔ pad.keys.length + pad.emptyKeys ≤ cell ∧ cell < keysets.layout.maxIndex
  rw [totalKeys, fixedKeys, Keysets.countMoreKey] at whole
  rw [FixedKey, moreIndex, goIndex, escIndex, delIndex, Keysets.countMoreKey]
  cases more : keysets.hasMoreKey with
  | false =>
      simp only [more, Bool.false_eq_true, if_false, reduceCtorEq, false_or] at whole ⊢
      omega
  | true =>
      simp only [more, if_true, Option.some.injEq] at whole ⊢
      omega

/-- A cell with a key has a character or a fixed key. -/
theorem real_iff (pad : Keypad keysets) {cell : Nat} :
    pad.grid.Real cell ↔ cell < pad.keys.length ∨ pad.FixedKey cell := by
  have fixed := pad.grid.fixed
  rw [fixedKey_iff, Grid.Real]
  change _ ↔ cell < pad.grid.chars ∨ _
  omega

end Cells

section Turns

variable {pad : Keypad keysets} {fuel : Nat}

/-- The cursor is on a key. -/
def Placed (pad : Keypad keysets) : Prop := pad.grid.Real pad.curKeyIndex

/-- The cursor in another cell. -/
def place (pad : Keypad keysets) (cell : Nat) : Keypad keysets := { pad with curKeyIndex := cell }

private theorem curKeyIndex_nextKey (pad : Keypad keysets) :
    pad.nextKey.curKeyIndex = pad.grid.next pad.curKeyIndex := rfl

private theorem curKeyIndex_previousKey (pad : Keypad keysets) :
    pad.previousKey.curKeyIndex = pad.grid.previous pad.curKeyIndex := rfl

private theorem onImpossible_iff (pad : Keypad keysets) :
    pad.onImpossible = true ↔
      ∃ key, pad.keys[pad.curKeyIndex]? = some key ∧ pad.possibleKeys key = false := by
  rw [onImpossible]
  cases pad.keys[pad.curKeyIndex]? with
  | none => simp
  | some key => simp

private theorem lt_of_onImpossible (stands : pad.onImpossible = true) :
    pad.curKeyIndex < pad.keys.length := by
  obtain ⟨key, found, _⟩ := pad.onImpossible_iff.mp stands
  exact (List.getElem?_eq_some_iff.mp found).1

/-- From a character the loop goes on as the moves do. -/
theorem skip_eq (inside : pad.curKeyIndex < pad.keys.length) :
    pad.skip = pad.place (if pad.movingForward then pad.grid.next pad.curKeyIndex
      else pad.grid.previous pad.curKeyIndex) := by
  have fixed : pad.keys.length + pad.emptyKeys < keysets.layout.maxIndex := pad.grid.fixed
  rw [skip]
  by_cases forward : pad.movingForward = true
  · have moved : (pad.curKeyIndex + 1) % keysets.layout.maxIndex = pad.curKeyIndex + 1 :=
      Nat.mod_eq_of_lt (by omega)
    rw [if_pos forward, if_pos forward, pad.grid.next_of_lt inside, moved]
    by_cases edge : pad.curKeyIndex + 1 = pad.grid.chars
    · have chars : pad.grid.chars = pad.keys.length := rfl
      rw [if_pos edge, edge, chars]
      by_cases gap : pad.emptyKeys = 0
      · have empty : pad.grid.empty = 0 := gap
        rw [if_neg (by omega), empty]
        rfl
      · rw [if_pos (by omega)]
        rfl
    · have characters : pad.curKeyIndex + 1 < pad.keys.length := Nat.lt_of_le_of_ne inside edge
      rw [if_neg edge, if_neg (by omega)]
      rfl
  · rw [if_neg forward, if_neg forward, pad.grid.previous_of_lt inside]
    by_cases first : pad.curKeyIndex = 0
    · rw [if_neg (not_not.mpr first), if_pos first]
      rfl
    · rw [if_pos first, if_neg first]
      rfl

/-- How far the cursor is from the last character in its direction. -/
def distance (pad : Keypad keysets) : Nat := pad.grid.distance pad.movingForward pad.curKeyIndex

private theorem distance_le (pad : Keypad keysets) : pad.distance ≤ keysets.layout.maxIndex :=
  (pad.grid.distance_le _ _).trans (Nat.le_of_lt (pad.grid.chars_lt_cells))

/-- **A turn of the loop stays on a key and comes closer to the last.** -/
theorem skip_closer (stands : pad.onImpossible = true) :
    ∃ cell, pad.skip = pad.place cell ∧ pad.grid.Real cell ∧
      (pad.place cell).distance < pad.distance := by
  have inside := lt_of_onImpossible stands
  have real : pad.grid.Real pad.curKeyIndex := Grid.real_of_lt inside
  refine ⟨_, skip_eq inside, ?_, ?_⟩
  · split
    · exact Grid.next_real real
    · exact Grid.previous_real real
  · change pad.grid.distance pad.movingForward _ < pad.grid.distance pad.movingForward _
    cases pad.movingForward with
    | true => exact Grid.distance_next inside
    | false => exact Grid.distance_previous inside

/-- **The loop ends**, on a key that is not impossible. -/
theorem exists_getValidIndex (placed : pad.Placed) :
    ∃ cell, (∀ fuel, keysets.layout.maxIndex ≤ fuel →
        pad.getValidIndex fuel = some (pad.place cell)) ∧
      (pad.place cell).Placed ∧ (pad.place cell).onImpossible = false := by
  have next : ∀ state : Keypad keysets, (∃ cell, state = pad.place cell ∧ pad.grid.Real cell) →
      state.onImpossible = true →
      (∃ cell, state.skip = pad.place cell ∧ pad.grid.Real cell) ∧
        state.skip.distance < state.distance := by
    rintro _ ⟨cell, rfl, _⟩ stands
    obtain ⟨moved, skipped, real, closer⟩ := skip_closer stands
    rw [skipped]
    exact ⟨⟨moved, rfl, real⟩, closer⟩
  obtain ⟨_, ends, ⟨cell, rfl, real⟩, done⟩ :=
    exists_whileDo distance next ⟨pad.curKeyIndex, rfl, placed⟩
  exact ⟨cell, fun fuel enough => ends fuel (pad.distance_le.trans enough), real, done⟩

/-- The cursor is on a key that can be pressed: a character that is possible, or a fixed key. -/
def OnKey (pad : Keypad keysets) : Prop :=
  (∃ key, pad.keys[pad.curKeyIndex]? = some key ∧ pad.possibleKeys key = true) ∨
    pad.FixedKey pad.curKeyIndex

private theorem onKey_of_not_onImpossible (placed : pad.Placed)
    (stands : pad.onImpossible = false) :
    pad.OnKey := by
  rcases pad.real_iff.mp placed with inside | fixed
  · left
    refine ⟨pad.keys[pad.curKeyIndex], List.getElem?_eq_getElem inside, ?_⟩
    simpa only [onImpossible, List.getElem?_eq_getElem inside, Bool.not_eq_false'] using stands
  · exact Or.inr fixed

/-- Every character of the keyset is possible. -/
def AllPossible (pad : Keypad keysets) : Prop :=
  ∀ key ∈ pad.keys, pad.possibleKeys key = true

/-- Nothing is skipped when every character is possible. -/
theorem getValidIndex_of_allPossible (all : pad.AllPossible) (fuel : Nat) :
    pad.getValidIndex fuel = some pad := by
  apply whileDo_of_not
  apply Bool.eq_false_iff.mpr
  intro stands
  obtain ⟨key, found, impossible⟩ := pad.onImpossible_iff.mp stands
  rw [all key (List.mem_of_getElem? found)] at impossible
  cases impossible

end Turns

section Runs

variable [DecidableEq κ] {possibleKeysFn : Option (β → κ → Bool)} {pad : Keypad keysets}

private theorem reset_placed (keysetIndex : Fin keysets.keysets.length) :
    (reset keysetIndex : Keypad keysets).Placed :=
  Grid.real_of_lt (reset keysetIndex).keys_pos

/-- A move goes to a key. -/
theorem navigate_placed (placed : pad.Placed) (btn : Button) : (pad.navigate btn).Placed := by
  have next : pad.nextKey.Placed := by
    rw [Placed, curKeyIndex_nextKey]
    exact Grid.next_real placed
  have previous : pad.previousKey.Placed := by
    rw [Placed, curKeyIndex_previousKey]
    exact Grid.previous_real placed
  have nextSet : pad.nextKeyset.Placed := by
    rw [nextKeyset]
    split
    · exact reset_placed _
    · exact placed
  have previousSet : pad.previousKeyset.Placed := by
    rw [previousKeyset]
    split
    · exact reset_placed _
    · exact placed
  cases btn <;> assumption

/-- **An action ends on a key.** -/
theorem act_placed (possibleKeysFn : Option (β → κ → Bool)) (placed : pad.Placed)
    (action : Action β) :
    ∃ after, (∀ fuel, keysets.layout.maxIndex ≤ fuel →
      pad.act possibleKeysFn fuel action = some after) ∧ after.Placed := by
  cases action with
  | computePossibleKeys buffer =>
      refine ⟨_, fun _ _ => rfl, ?_⟩
      cases possibleKeysFn with
      | none => exact placed
      | some possible => exact placed
  | getValidIndex =>
      obtain ⟨cell, ends, placedAfter, _⟩ := exists_getValidIndex placed
      exact ⟨_, ends, placedAfter⟩
  | navigate btn => exact ⟨_, fun _ _ => rfl, navigate_placed placed btn⟩

/-- Whatever the actions, the cursor is on a key. -/
theorem run_placed (possibleKeysFn : Option (β → κ → Bool)) (placed : pad.Placed)
    (actions : List (Action β)) :
    ∃ after, (∀ fuel, keysets.layout.maxIndex ≤ fuel →
      pad.run possibleKeysFn fuel actions = some after) ∧ after.Placed := by
  induction actions generalizing pad with
  | nil => exact ⟨pad, fun _ _ => rfl, placed⟩
  | cons action actions ih =>
      obtain ⟨middle, acted, placedMiddle⟩ := act_placed possibleKeysFn placed action
      obtain ⟨after, ran, placedAfter⟩ := ih placedMiddle
      refine ⟨after, ?_, placedAfter⟩
      intro fuel enough
      rw [run, List.foldlM_cons, acted fuel enough]
      exact ran fuel enough

/-- A button is pressed a number of times, and each time the cursor is moved to a key that is
possible. -/
def presses (btn : Button) (turns : Nat) : List (Action β) :=
  (List.replicate turns [.navigate btn, .getValidIndex]).flatten

/-- A button, when every character is possible afterwards. -/
theorem run_button {btn : Button} (possible : (pad.navigate btn).AllPossible) (fuel : Nat)
    (actions : List (Action β)) :
    pad.run possibleKeysFn fuel (.navigate btn :: .getValidIndex :: actions) =
      (pad.navigate btn).run possibleKeysFn fuel actions := by
  change (pad.navigate btn).run possibleKeysFn fuel (.getValidIndex :: actions) = _
  rw [run, List.foldlM_cons, act, getValidIndex_of_allPossible possible]
  rfl

/-- PAGE moves on from key to key. -/
theorem run_presses (possibleKeysFn : Option (β → κ → Bool)) (all : pad.AllPossible)
    (fuel turns : Nat) :
    ∃ after, pad.run possibleKeysFn fuel (presses .page turns) = some after ∧
      after.keysetIndex = pad.keysetIndex ∧
      after.curKeyIndex = pad.grid.next^[turns] pad.curKeyIndex := by
  induction turns generalizing pad with
  | zero => exact ⟨pad, rfl, rfl, rfl⟩
  | succ turns ih =>
      obtain ⟨after, ran, shown, moved⟩ := @ih pad.nextKey all
      refine ⟨after, ?_, shown, moved⟩
      have possible : (pad.navigate .page).AllPossible := all
      rw [← ran, presses, List.replicate_succ]
      exact run_button possible fuel _

/-- Where the cursor is after PAGE has been pressed. -/
theorem presses_iff (possibleKeysFn : Option (β → κ → Bool)) (all : pad.AllPossible)
    {fuel turns cell : Nat} :
    (∃ after, pad.run possibleKeysFn fuel (presses .page turns) = some after ∧
      after.keysetIndex = pad.keysetIndex ∧ after.curKeyIndex = cell) ↔
    pad.grid.next^[turns] pad.curKeyIndex = cell := by
  obtain ⟨after, ran, shown, moved⟩ := run_presses possibleKeysFn all fuel turns
  rw [ran, ← moved]
  constructor
  · rintro ⟨_, ⟨⟩, _, stands⟩
    exact stands
  · intro stands
    exact ⟨after, rfl, shown, stands⟩

/-- PAGE_PREV takes PAGE back, but for the direction. -/
theorem run_undone (possibleKeysFn : Option (β → κ → Bool)) (placed : pad.Placed)
    (all : pad.AllPossible) (fuel : Nat) :
    pad.run possibleKeysFn fuel
        [.navigate .page, .getValidIndex, .navigate .pagePrev, .getValidIndex] =
      some { pad with movingForward := false } := by
  have back : pad.nextKey.previousKey = { pad with movingForward := false } := by
    have cell : pad.nextKey.previousKey.curKeyIndex = pad.curKeyIndex := by
      rw [curKeyIndex_previousKey, curKeyIndex_nextKey]
      exact Grid.previous_next placed
    rw [← cell]
    rfl
  have moved : (pad.navigate .page).AllPossible := all
  have movedBack : ((pad.navigate .page).navigate .pagePrev).AllPossible := all
  rw [run_button moved, run_button movedBack]
  exact congrArg some back

/-- What a keypad keeps to, whatever the actions. -/
structure Steady (possibleKeysFn : Option (β → κ → Bool)) (pad : Keypad keysets) : Prop where
  inside : pad.curKeyIndex < keysets.layout.maxIndex
  notEmpty : ¬(pad.keys.length ≤ pad.curKeyIndex ∧
    pad.curKeyIndex < pad.keys.length + pad.emptyKeys)
  valid : ∃ cell, (∀ fuel, keysets.layout.maxIndex ≤ fuel →
    pad.getValidIndex fuel = some (pad.place cell)) ∧ (pad.place cell).OnKey
  undone : pad.AllPossible → ∀ fuel, pad.run possibleKeysFn fuel
      [.navigate .page, .getValidIndex, .navigate .pagePrev, .getValidIndex] =
    some { pad with movingForward := false }
  visits : pad.AllPossible → ∀ fuel cell, cell < pad.keys.length ∨ pad.FixedKey cell →
    ∃! turns, turns < pad.totalKeys ∧
      ∃ after, pad.run possibleKeysFn fuel (presses .page turns) = some after ∧
        after.keysetIndex = pad.keysetIndex ∧ after.curKeyIndex = cell
  around : pad.AllPossible → ∀ fuel,
    ∃ after, pad.run possibleKeysFn fuel (presses .page pad.totalKeys) = some after ∧
      after.keysetIndex = pad.keysetIndex ∧ after.curKeyIndex = pad.curKeyIndex

private theorem Placed.steady (possibleKeysFn : Option (β → κ → Bool)) (placed : pad.Placed) :
    pad.Steady possibleKeysFn := by
  have size : pad.grid.cells - pad.grid.empty = pad.totalKeys :=
    Nat.sub_eq_of_eq_add pad.totalKeys_add_emptyKeys.symm
  have rotates := pad.grid.rotates
  rw [size] at rotates
  obtain ⟨cell, ends, placedAfter, done⟩ := exists_getValidIndex placed
  exact {
    inside := placed.1
    notEmpty := placed.2
    valid := ⟨cell, ends, onKey_of_not_onImpossible placedAfter done⟩
    undone := run_undone possibleKeysFn placed
    visits := by
      intro all fuel target key
      have real := pad.real_iff.mpr key
      simp only [presses_iff possibleKeysFn all]
      obtain ⟨turns, ⟨few, reached⟩, unique⟩ :=
        rotates.existsUnique_turns placed (rotates.inside target real)
      refine ⟨turns, ⟨few, ?_⟩, ?_⟩
      · exact rotates.apart _ _ (rotates.keeps_iterate turns placed) real reached
      · rintro other ⟨otherFew, rfl⟩
        exact unique other ⟨otherFew, rfl⟩
    around := by
      intro all fuel
      exact (presses_iff possibleKeysFn all).mpr (rotates.around placed) }

/-- **The cursor keeps to the keys**: whatever is done with a keypad, the cursor is in a cell of the
layout that is not empty, and `get_valid_index` ends on a character that is possible or on a fixed
key. When all characters are possible, PAGE goes around the keys and PAGE_PREV undoes it. -/
theorem run_steady (keysets : Keysets κ) (possibleKeysFn : Option (β → κ → Bool))
    (actions : List (Action β)) :
    ∃ pad : Keypad keysets, (∀ fuel, keysets.layout.maxIndex ≤ fuel →
      (init keysets).run possibleKeysFn fuel actions = some pad) ∧ pad.Steady possibleKeysFn := by
  have placed : (init keysets).Placed := reset_placed _
  obtain ⟨pad, ran, placed⟩ := run_placed possibleKeysFn placed actions
  exact ⟨pad, ran, placed.steady possibleKeysFn⟩

/-- Two keysets, of which only the character b is possible: the cursor skips the first key. -/
example : ((init ⟨[['a', 'b'], ['c']], by decide, by decide⟩).run
    (some fun (_ : Unit) key => key == 'b') 8 [.computePossibleKeys (), .getValidIndex]).map
      curKeyIndex = some 1 := by decide +kernel

end Runs

end Keypad

end VaultSeed.Ui
