import VaultSeed.Foundation.Bytes
import VaultSeed.Foundation.Effect
import VaultSeed.Foundation.Rotation

/-! # Pages of a menu

`pages/__init__.py`: a menu shows a window of its list. PAGE goes to the next item and PAGE_PREV to
the one before, and the window follows in steps of its size; a swipe goes to the next or the last
window. The last window can be shorter than the others. Whatever the moves, offset and selection
are those of one position in the list (`VaultSeed.Ui.Menu.standing`), which PAGE takes to the next.
-/

namespace Python

/-- `value % modulus`. -/
def mod (value modulus : Int) : Except Exn Int :=
  if modulus = 0 then .error .zeroDivisionError else .ok (value.fmod modulus)

/-- `value // divisor`. -/
def floordiv (value divisor : Int) : Except Exn Int :=
  if divisor = 0 then .error .zeroDivisionError else .ok (value.fdiv divisor)

/-- `data[index]`; a negative index counts from the end. -/
def item {α : Type} (data : List α) (index : Int) : Except Exn α :=
  let position := if index < 0 then data.length + index else index
  if position < 0 then .error .indexError
  else
    match data[position.toNat]? with
    | some value => .ok value
    | none => .error .indexError

private theorem item_natCast {α : Type} {data : List α} {index : Nat}
    (inside : index < data.length) :
    item data (index : Int) = .ok data[index] := by
  rw [item, if_neg (by omega), if_neg (by omega), Int.toNat_natCast,
    List.getElem?_eq_getElem inside]

end Python

namespace VaultSeed.Ui

open Python Effect Rotation

variable {α : Type}

/-- `ListView`. -/
structure ListView (α : Type) where
  list : List α
  maxSize : Nat
  offset : Int
  deriving DecidableEq

namespace ListView

/-- `ListView(lst, max_size)`. -/
def init (lst : List α) (maxSize : Nat) : ListView α := ⟨lst, maxSize, 0⟩

/-- `__getitem__`. -/
def getItem (view : ListView α) (key : Int) : Except Exn α := item view.list (view.offset + key)

/-- `__len__`. -/
def len (view : ListView α) : Int := min view.maxSize (view.list.length - view.offset)

/-- `move_forward`. -/
def moveForward (view : ListView α) : ListView α :=
  if view.offset + view.maxSize ≥ view.list.length then { view with offset := 0 }
  else { view with offset := view.offset + view.maxSize }

/-- `move_backward`. -/
def moveBackward (view : ListView α) : Except Exn (ListView α) :=
  if view.offset - view.maxSize < 0 then do
    let windows ← floordiv (view.list.length + view.maxSize - 1) view.maxSize
    return { view with offset := (windows - 1) * view.maxSize }
  else return { view with offset := view.offset - view.maxSize }

/-- `index`. -/
def index (view : ListView α) (i : Int) : Int := view.offset + i

end ListView

/-- What a menu item and a swipe function return as a status. -/
inductive MenuStatus where
  | continue
  | exit
  | shutdown
  | restart
  deriving DecidableEq

/-- A list of items, and how many of them are viewable at once. -/
structure Menu (α : Type) where
  menu : List α
  maxViewable : Nat
  positive : 0 < maxViewable
  fits : maxViewable ≤ menu.length

/-- What the loop of a menu changes. -/
structure Browsing (α : Type) where
  menuView : ListView α
  selectedItemIndex : Int
  deriving DecidableEq

/-- How a turn of the loop ends: it goes on, or the loop returns. -/
inductive Turned (α : Type) where
  | stays (browsing : Browsing α)
  | returns (index : Int) (status : MenuStatus)
  deriving DecidableEq

/-- The moves in `run_loop`. A fast button moves as the plain one does, a swipe to the left as one
up, a swipe to the right as one down; a swipe comes with what the function given for it returns, if
one is given. -/
inductive Move where
  | page
  | pagePrev
  | swipeUp (swipeUpFnc : Option (Int × MenuStatus))
  | swipeDown (swipeDownFnc : Option (Int × MenuStatus))
  deriving DecidableEq

namespace Browsing

/-- `_process_page`. -/
def processPage (browsing : Browsing α) : Except Exn (Browsing α) := do
  let selectedItemIndex ← mod (browsing.selectedItemIndex + 1) browsing.menuView.len
  if selectedItemIndex = 0 then return ⟨browsing.menuView.moveForward, selectedItemIndex⟩
  else return ⟨browsing.menuView, selectedItemIndex⟩

/-- `_move_back`. -/
def moveBack (browsing : Browsing α) : Except Exn (Browsing α) := do
  let menuView ← browsing.menuView.moveBackward
  return ⟨menuView, menuView.len - 1⟩

/-- `_process_page_prev`. -/
def processPagePrev (browsing : Browsing α) : Except Exn (Browsing α) := do
  let selectedItemIndex ← mod (browsing.selectedItemIndex - 1) browsing.menuView.len
  if selectedItemIndex = browsing.menuView.len - 1 then browsing.moveBack
  else return ⟨browsing.menuView, selectedItemIndex⟩

/-- A swipe with its function, and what it does without one. -/
def processSwipe (swipeFnc : Option (Int × MenuStatus)) (plain : Except Exn (Browsing α))
    (browsing : Browsing α) : Except Exn (Turned α) :=
  match swipeFnc with
  | some (index, status) =>
      if status ≠ .continue then .ok (.returns index status) else .ok (.stays browsing)
  | none => plain.map .stays

/-- `_process_swipe_up`. -/
def processSwipeUp (swipeUpFnc : Option (Int × MenuStatus)) (browsing : Browsing α) :
    Except Exn (Turned α) :=
  processSwipe swipeUpFnc (.ok ⟨browsing.menuView.moveForward, 0⟩) browsing

/-- `_process_swipe_down`. -/
def processSwipeDown (swipeDownFnc : Option (Int × MenuStatus)) (browsing : Browsing α) :
    Except Exn (Turned α) :=
  processSwipe swipeDownFnc browsing.moveBack browsing

/-- `run_loop`, a turn with a move. -/
def turn (browsing : Browsing α) : Move → Except Exn (Turned α)
  | .page => browsing.processPage.map .stays
  | .pagePrev => browsing.processPagePrev.map .stays
  | .swipeUp swipeUpFnc => browsing.processSwipeUp swipeUpFnc
  | .swipeDown swipeDownFnc => browsing.processSwipeDown swipeDownFnc

/-- `run_loop`, until it returns. -/
def run (browsing : Browsing α) : List Move → Except Exn (Turned α)
  | [] => .ok (.stays browsing)
  | move :: moves => do
      match ← browsing.turn move with
      | .stays after => after.run moves
      | .returns index status => return .returns index status

end Browsing

namespace Menu

variable (menu : Menu α)

/-- Where `run_loop` begins. -/
def start : Browsing α := ⟨.init menu.menu menu.maxViewable, 0⟩

/-- A position in the list is shown. -/
def standing (position : Nat) : Browsing α :=
  ⟨⟨menu.menu, menu.maxViewable, (position / menu.maxViewable * menu.maxViewable : Nat)⟩,
    (position % menu.maxViewable : Nat)⟩

/-- The first position of the next window. -/
def nextWindow (position : Nat) : Nat :=
  let beyond := position / menu.maxViewable * menu.maxViewable + menu.maxViewable
  if beyond < menu.menu.length then beyond else 0

/-- The last position of the window before. -/
def endBefore (position : Nat) : Nat :=
  if position / menu.maxViewable = 0 then menu.menu.length - 1
  else position / menu.maxViewable * menu.maxViewable - 1

section Windows

variable {menu : Menu α} {position : Nat}

private theorem length_pos (menu : Menu α) : 0 < menu.menu.length :=
  Nat.lt_of_lt_of_le menu.positive menu.fits

private theorem mod_eq {value modulus : Int} (positive : 0 < modulus) :
    mod value modulus = .ok (value % modulus) := by
  rw [mod, if_neg positive.ne', Int.fmod_eq_emod_of_nonneg _ positive.le]

private theorem floordiv_eq {value divisor : Int} (positive : 0 < divisor) :
    floordiv value divisor = .ok (value / divisor) := by
  rw [floordiv, if_neg positive.ne', Int.fdiv_eq_ediv_of_nonneg _ positive.le]

private theorem div_window (menu : Menu α) (window : Nat) {row : Nat}
    (low : row < menu.maxViewable) :
    (window * menu.maxViewable + row) / menu.maxViewable = window := by
  rw [Nat.mul_comm, Nat.mul_add_div menu.positive, Nat.div_eq_of_lt low, Nat.add_zero]

private theorem mod_window (menu : Menu α) (window : Nat) {row : Nat}
    (low : row < menu.maxViewable) :
    (window * menu.maxViewable + row) % menu.maxViewable = row := by
  rw [Nat.mul_add_mod', Nat.mod_eq_of_lt low]

/-- The state at a row of a window. -/
theorem standing_window (menu : Menu α) (window : Nat) {row : Nat} (low : row < menu.maxViewable) :
    menu.standing (window * menu.maxViewable + row) =
      ⟨⟨menu.menu, menu.maxViewable, (window * menu.maxViewable : Nat)⟩, (row : Nat)⟩ := by
  rw [standing, div_window menu window low, mod_window menu window low]

/-- How many items a window shows. -/
theorem len_standing (inside : position < menu.menu.length) :
    (menu.standing position).menuView.len =
      (min menu.maxViewable
        (menu.menu.length - position / menu.maxViewable * menu.maxViewable) : Nat) := by
  have below := Nat.div_mul_le_self position menu.maxViewable
  change min (menu.maxViewable : Int) (menu.menu.length -
    ((position / menu.maxViewable * menu.maxViewable : Nat) : Int)) = _
  omega

/-- The selected item is in the window. -/
theorem selected_lt_len (inside : position < menu.menu.length) :
    (menu.standing position).selectedItemIndex < (menu.standing position).menuView.len := by
  have whole := Nat.div_add_mod' position menu.maxViewable
  have low := Nat.mod_lt position menu.positive
  rw [len_standing inside]
  change ((position % menu.maxViewable : Nat) : Int) < _
  omega

private theorem moveForward_standing (menu : Menu α) (position : Nat) :
    ⟨(menu.standing position).menuView.moveForward, 0⟩ =
      menu.standing (menu.nextWindow position) := by
  generalize windowed : position / menu.maxViewable = window
  have beyond := standing_window menu (window + 1) menu.positive
  have first := standing_window menu 0 menu.positive
  rw [Nat.succ_mul, Nat.add_zero] at beyond
  rw [Nat.zero_mul, Nat.add_zero] at first
  rw [nextWindow, standing, ListView.moveForward, windowed]
  dsimp only
  by_cases more : window * menu.maxViewable + menu.maxViewable < menu.menu.length
  · rw [if_neg (by omega), if_pos more, beyond]
    push_cast
    rfl
  · rw [if_pos (by omega), if_neg more, first]
    rfl

/-- The end of the window before, when there is one. -/
theorem endBefore_eq {window : Nat} (windowed : position / menu.maxViewable = window + 1) :
    menu.endBefore position = window * menu.maxViewable + (menu.maxViewable - 1) := by
  have some := menu.positive
  rw [endBefore, windowed, if_neg (Nat.succ_ne_zero window), Nat.succ_mul]
  omega

/-- The end of the window before is a position, and the last of its window. -/
theorem endBefore_last (inside : position < menu.menu.length) :
    menu.endBefore position < menu.menu.length ∧
      (menu.standing (menu.endBefore position)).menuView.len =
        (menu.standing (menu.endBefore position)).selectedItemIndex + 1 := by
  have below := Nat.div_mul_le_self position menu.maxViewable
  have less : menu.endBefore position < menu.menu.length := by
    rw [endBefore]
    split <;> omega
  refine ⟨less, ?_⟩
  rw [len_standing less]
  change _ = ((menu.endBefore position % menu.maxViewable : Nat) : Int) + 1
  cases windowed : position / menu.maxViewable with
  | zero =>
      have last : menu.endBefore position = menu.menu.length - 1 := if_pos windowed
      have whole := Nat.div_add_mod' (menu.endBefore position) menu.maxViewable
      have low := Nat.mod_lt (menu.endBefore position) menu.positive
      omega
  | succ window =>
      have low := Nat.sub_lt menu.positive Nat.one_pos
      rw [endBefore_eq windowed, div_window menu window low, mod_window menu window low]
      rw [windowed, Nat.succ_mul] at below
      omega

private theorem moveBackward_standing (menu : Menu α) (position : Nat) :
    (menu.standing position).menuView.moveBackward =
      .ok (menu.standing (menu.endBefore position)).menuView := by
  have some := menu.positive
  have fits := menu.fits
  rw [ListView.moveBackward, standing]
  dsimp only
  cases windowed : position / menu.maxViewable with
  | zero =>
      have last : menu.endBefore position = menu.menu.length - 1 := if_pos windowed
      have count : ((menu.menu.length : Int) + menu.maxViewable - 1) / menu.maxViewable =
          ((menu.menu.length - 1) / menu.maxViewable + 1 : Nat) := by
        rw [← Nat.add_div_right _ some, Int.natCast_div]
        congr 1
        omega
      rw [if_pos (by omega), floordiv_eq (by omega), ok_bind, count, last, standing, Nat.cast_add,
        Nat.cast_one, Int.add_sub_cancel, ← Nat.cast_mul]
      rfl
  | succ window =>
      rw [endBefore_eq windowed, standing_window menu window (Nat.sub_lt some Nat.one_pos),
        Nat.succ_mul, Nat.cast_add, Int.add_sub_cancel, if_neg (by omega)]
      rfl

private theorem moveBack_standing (inside : position < menu.menu.length) :
    (menu.standing position).moveBack = .ok (menu.standing (menu.endBefore position)) := by
  rw [Browsing.moveBack, moveBackward_standing, ok_bind, (endBefore_last inside).2,
    Int.add_sub_cancel]
  rfl

end Windows

section Paging

variable {menu : Menu α} {position : Nat}

/-- PAGE goes to the next position, and from the last to the first. -/
theorem processPage_standing (inside : position < menu.menu.length) :
    (menu.standing position).processPage =
      .ok (menu.standing ((position + 1) % menu.menu.length)) := by
  have whole := Nat.div_add_mod' position menu.maxViewable
  have low := Nat.mod_lt position menu.positive
  have shown := selected_lt_len inside
  have len := len_standing inside
  have selected : (menu.standing position).selectedItemIndex =
      (position % menu.maxViewable : Nat) := rfl
  rw [selected] at shown
  rw [Browsing.processPage, selected, mod_eq (by omega), ok_bind]
  by_cases last : ((position % menu.maxViewable : Nat) : Int) + 1 =
      (menu.standing position).menuView.len
  · have next : menu.nextWindow position = (position + 1) % menu.menu.length := by
      rw [nextWindow]
      by_cases more : position + 1 = menu.menu.length
      · rw [if_neg (by omega), more, Nat.mod_self]
      · rw [if_pos (by omega), Nat.mod_eq_of_lt (by omega)]
        omega
    rw [last, Int.emod_self, if_pos rfl, moveForward_standing, next]
    rfl
  · have next : (position + 1) % menu.menu.length =
        position / menu.maxViewable * menu.maxViewable + (position % menu.maxViewable + 1) := by
      rw [Nat.mod_eq_of_lt (by omega)]
      omega
    rw [Int.emod_eq_of_lt (by omega) (by omega), if_neg (by omega), next,
      standing_window menu _ (by omega)]
    rfl

/-- The position before one that is not the first. -/
theorem before_eq {length : Nat} (some : 0 < position) (inside : position < length) :
    (position + length - 1) % length = position - 1 := by
  have shifted : position + length - 1 = position - 1 + length := by omega
  rw [shifted, Nat.add_mod_right, Nat.mod_eq_of_lt (by omega)]

/-- PAGE_PREV goes to the position before, and from the first to the last. -/
theorem processPagePrev_standing (inside : position < menu.menu.length) :
    (menu.standing position).processPagePrev =
      .ok (menu.standing ((position + menu.menu.length - 1) % menu.menu.length)) := by
  have whole := Nat.div_add_mod' position menu.maxViewable
  have low := Nat.mod_lt position menu.positive
  have shown := selected_lt_len inside
  have selected : (menu.standing position).selectedItemIndex =
      (position % menu.maxViewable : Nat) := rfl
  rw [selected] at shown
  rw [Browsing.processPagePrev, selected, mod_eq (by omega), ok_bind]
  cases row : position % menu.maxViewable with
  | zero =>
      have wrapped : (((0 : Nat) : Int) - 1) % (menu.standing position).menuView.len =
          (menu.standing position).menuView.len - 1 := by
        rw [← Int.add_emod_right, Int.emod_eq_of_lt (by omega) (by omega)]
        omega
      have previous : menu.endBefore position =
          (position + menu.menu.length - 1) % menu.menu.length := by
        rw [row, Nat.add_zero] at whole
        rw [endBefore, whole]
        by_cases first : position / menu.maxViewable = 0
        · rw [first, Nat.zero_mul] at whole
          rw [if_pos first, ← whole, Nat.zero_add, Nat.mod_eq_of_lt (by omega)]
        · have some := Nat.mul_pos (Nat.pos_of_ne_zero first) menu.positive
          rw [if_neg first, before_eq (by omega) inside]
      rw [wrapped, if_pos rfl, moveBack_standing inside, previous]
  | succ above =>
      have previous : (position + menu.menu.length - 1) % menu.menu.length =
          position / menu.maxViewable * menu.maxViewable + above := by
        rw [before_eq (by omega) inside]
        omega
      rw [row] at shown
      rw [Int.emod_eq_of_lt (by omega) (by omega), if_neg (by omega), previous,
        standing_window menu _ (by omega)]
      congr 2
      omega

end Paging

section Runs

variable {menu : Menu α} {position : Nat} {browsing : Browsing α}

/-- A position of the list is shown. -/
def Shows (menu : Menu α) (browsing : Browsing α) : Prop :=
  ∃ position < menu.menu.length, browsing = menu.standing position

private theorem shows_start (menu : Menu α) : menu.Shows menu.start := by
  refine ⟨0, menu.length_pos, ?_⟩
  rw [standing, Nat.zero_div, Nat.zero_mul, Nat.zero_mod]
  rfl

private theorem nextWindow_lt (menu : Menu α) (position : Nat) :
    menu.nextWindow position < menu.menu.length := by
  have some := menu.length_pos
  rw [nextWindow]
  split <;> assumption

/-- A swipe shows a position when it does so without its function. -/
theorem Shows.processSwipe (shows : menu.Shows browsing) {plain : Except Exn (Browsing α)}
    {after : Browsing α} (moved : plain = .ok after) (showsAfter : menu.Shows after)
    (swipeFnc : Option (Int × MenuStatus)) :
    ∃ turned, Browsing.processSwipe swipeFnc plain browsing = .ok turned ∧
      ∀ next, turned = .stays next → menu.Shows next := by
  cases swipeFnc with
  | none =>
      refine ⟨.stays after, by rw [Browsing.processSwipe, moved]; rfl, ?_⟩
      rintro _ ⟨⟩
      exact showsAfter
  | some returned =>
      obtain ⟨index, status⟩ := returned
      rw [Browsing.processSwipe]
      by_cases ends : status = .continue
      · refine ⟨.stays browsing, if_neg (not_not.mpr ends), ?_⟩
        rintro _ ⟨⟩
        exact shows
      · refine ⟨.returns index status, if_pos ends, ?_⟩
        intro next same
        cases same

/-- **A turn shows a position again**, or the loop returns. -/
theorem Shows.turn (shows : menu.Shows browsing) (move : Move) :
    ∃ turned, browsing.turn move = .ok turned ∧
      ∀ next, turned = .stays next → menu.Shows next := by
  obtain ⟨position, inside, rfl⟩ := shows
  have some := menu.length_pos
  have here : menu.Shows (menu.standing position) := ⟨position, inside, rfl⟩
  cases move with
  | page =>
      refine ⟨_, by rw [Browsing.turn, processPage_standing inside]; rfl, ?_⟩
      rintro _ ⟨⟩
      exact ⟨_, Nat.mod_lt _ some, rfl⟩
  | pagePrev =>
      refine ⟨_, by rw [Browsing.turn, processPagePrev_standing inside]; rfl, ?_⟩
      rintro _ ⟨⟩
      exact ⟨_, Nat.mod_lt _ some, rfl⟩
  | swipeUp swipeUpFnc =>
      exact here.processSwipe (congrArg _ (moveForward_standing menu position))
        ⟨_, nextWindow_lt menu position, rfl⟩ swipeUpFnc
  | swipeDown swipeDownFnc =>
      exact here.processSwipe (moveBack_standing inside)
        ⟨_, (endBefore_last inside).1, rfl⟩ swipeDownFnc

/-- Whatever the moves, the loop goes on from a position or returns. -/
theorem Shows.run (shows : menu.Shows browsing) (moves : List Move) :
    ∃ turned, browsing.run moves = .ok turned ∧
      ∀ next, turned = .stays next → menu.Shows next := by
  induction moves generalizing browsing with
  | nil =>
      refine ⟨_, rfl, ?_⟩
      rintro _ ⟨⟩
      exact shows
  | cons move moves ih =>
      obtain ⟨turned, ran, kept⟩ := shows.turn move
      rw [Browsing.run, ran, ok_bind]
      cases turned with
      | stays after => exact ih (kept after rfl)
      | returns index status =>
          refine ⟨.returns index status, rfl, ?_⟩
          intro next same
          cases same

/-- The position after PAGE. -/
def after (menu : Menu α) (position : Nat) : Nat := (position + 1) % menu.menu.length

/-- PAGE goes around the positions. -/
theorem rotates (menu : Menu α) :
    Rotates (· < menu.menu.length) id menu.menu.length menu.after where
  keeps _ _ := Nat.mod_lt _ menu.length_pos
  inside _ inside := inside
  next _ _ := rfl
  apart _ _ _ _ same := same

private theorem run_pages (turns : Nat) (inside : position < menu.menu.length) :
    (menu.standing position).run (List.replicate turns .page) =
      .ok (.stays (menu.standing (menu.after^[turns] position))) := by
  induction turns generalizing position with
  | zero => rfl
  | succ turns ih =>
      have turned : (menu.standing position).turn .page =
          .ok (.stays (menu.standing (menu.after position))) := by
        rw [Browsing.turn, processPage_standing inside]
        rfl
      rw [List.replicate_succ, Browsing.run, turned, ok_bind, Function.iterate_succ_apply]
      exact ih (Nat.mod_lt _ menu.length_pos)

/-- The index of the selected item. -/
theorem index_standing (menu : Menu α) (position : Nat) :
    (menu.standing position).menuView.index (menu.standing position).selectedItemIndex =
      position := by
  have whole := Nat.div_add_mod' position menu.maxViewable
  change ((position / menu.maxViewable * menu.maxViewable : Nat) : Int) +
    (position % menu.maxViewable : Nat) = _
  omega

private theorem getItem_standing (inside : position < menu.menu.length) :
    (menu.standing position).menuView.getItem (menu.standing position).selectedItemIndex =
      .ok menu.menu[position] := by
  have index := index_standing menu position
  rw [ListView.index] at index
  rw [ListView.getItem, index]
  exact item_natCast inside

/-- What a menu keeps to, whatever the moves. -/
structure Paged (menu : Menu α) (browsing : Browsing α) : Prop where
  aligned : (menu.maxViewable : Int) ∣ browsing.menuView.offset
  offset : 0 ≤ browsing.menuView.offset ∧ browsing.menuView.offset < menu.menu.length
  selected : 0 ≤ browsing.selectedItemIndex ∧
    browsing.selectedItemIndex < browsing.menuView.len
  item : ∃ (position : Nat) (value : α),
    browsing.menuView.index browsing.selectedItemIndex = position ∧
    menu.menu[position]? = some value ∧
    browsing.menuView.getItem browsing.selectedItemIndex = .ok value
  visits : ∀ position < menu.menu.length, ∃! turns, turns < menu.menu.length ∧
    ∃ after, browsing.run (List.replicate turns .page) = .ok (.stays after) ∧
      after.menuView.index after.selectedItemIndex = (position : Nat)
  around : browsing.run (List.replicate menu.menu.length .page) = .ok (.stays browsing)
  undone : (browsing.processPage >>= Browsing.processPagePrev) = .ok browsing

private theorem shows_after_iff (inside : position < menu.menu.length) {turns target : Nat} :
    (∃ after, (menu.standing position).run (List.replicate turns .page) = .ok (.stays after) ∧
      after.menuView.index after.selectedItemIndex = target) ↔
    menu.after^[turns] position = target := by
  rw [run_pages turns inside]
  constructor
  · rintro ⟨_, ⟨⟩, shown⟩
    rw [index_standing] at shown
    exact_mod_cast shown
  · rintro rfl
    exact ⟨_, rfl, index_standing menu _⟩

/-- PAGE_PREV takes PAGE back. -/
theorem processPagePrev_processPage (inside : position < menu.menu.length) :
    ((menu.standing position).processPage >>= Browsing.processPagePrev) =
      .ok (menu.standing position) := by
  have some := menu.length_pos
  have back : ((position + 1) % menu.menu.length + menu.menu.length - 1) % menu.menu.length =
      position := by
    by_cases last : position + 1 = menu.menu.length
    · rw [last, Nat.mod_self, Nat.zero_add, Nat.mod_eq_of_lt (Nat.sub_lt some Nat.one_pos)]
      omega
    · rw [Nat.mod_eq_of_lt (by omega : position + 1 < menu.menu.length),
        before_eq (Nat.succ_pos position) (by omega), Nat.succ_sub_one]
  rw [processPage_standing inside, ok_bind, processPagePrev_standing (Nat.mod_lt _ some), back]

private theorem Shows.paged (shows : menu.Shows browsing) : menu.Paged browsing := by
  obtain ⟨position, inside, rfl⟩ := shows
  have below := Nat.div_mul_le_self position menu.maxViewable
  exact {
    aligned := Int.natCast_dvd_natCast.mpr (Nat.dvd_mul_left _ _)
    offset := ⟨Int.natCast_nonneg _, Int.ofNat_lt.mpr (Nat.lt_of_le_of_lt below inside)⟩
    selected := ⟨Int.natCast_nonneg _, selected_lt_len inside⟩
    item := ⟨position, menu.menu[position], index_standing menu position,
      List.getElem?_eq_getElem inside, getItem_standing inside⟩
    visits := by
      intro target less
      simp only [shows_after_iff inside]
      exact menu.rotates.existsUnique_turns inside less
    around := by
      rw [run_pages _ inside, menu.rotates.around inside]
    undone := processPagePrev_processPage inside }

end Runs

/-- **Paging keeps to the list**: whatever the moves, the loop of a menu raises nothing, and while
it goes on the selection is an item of the list. PAGE goes around all of them, and PAGE_PREV
undoes it. -/
theorem run_paged (menu : Menu α) (moves : List Move) :
    ∃ turned, menu.start.run moves = .ok turned ∧
      ∀ browsing, turned = .stays browsing → menu.Paged browsing := by
  obtain ⟨turned, ran, kept⟩ := menu.shows_start.run moves
  exact ⟨turned, ran, fun browsing same => (kept browsing same).paged⟩

example : (Menu.start ⟨[10, 11, 12, 13, 14], 2, by decide, by decide⟩).run [.pagePrev] =
    .ok (.stays ⟨⟨[10, 11, 12, 13, 14], 2, 4⟩, 0⟩) := by decide

end Menu

end VaultSeed.Ui
