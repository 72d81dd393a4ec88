import VaultSeed.Ui.Display
import VaultSeed.Ui.Input

/-! # Yes or no

`Page.prompt` draws "No" on the left half of the screen and "Yes" on the right half, and any index
of a touch but zero is a yes. The index counts the region below the buttons as a second row, so a
press whose average point lies there is a yes on either half (`Ui.Page.prompt_answers_iff`).
-/

namespace VaultSeed.Ui

open Python

/-- What `Page.prompt` reads of the context: the display is as wide as the screen. -/
structure Page where
  board : Board
  screen : Screen
  display : Display
  fontHeight : Nat
  width_eq : display.width = screen.width

namespace Page

variable (page : Page)

/-- `TOTAL_LINES`. -/
def totalLines : Nat := page.screen.height / page.fontHeight

/-- `x_keypad_map`. -/
def xKeypadMap : List Int := [0, (page.screen.width / 2 : Nat), page.screen.width]

/-- The first entry of `y_keypad_map`: where the buttons start. -/
def yKeyMap (text : Text) (offsetY : Int) : Int :=
  let lines := page.display.toLines text page.totalLines
  let offsetY := offsetY - (lines.length - 1 : Int) * page.fontHeight
  let offsetY := offsetY + (lines.length + 1) * page.fontHeight
  offsetY - 3 * page.fontHeight / 2

/-- `y_keypad_map`: the second entry is where the buttons end, or the screen. -/
def yKeypadMap (text : Text) (offsetY : Int) : List Int :=
  let yKeyMap := page.yKeyMap text offsetY
  [yKeyMap, min (yKeyMap + 4 * page.fontHeight) page.screen.height]

/-- The loop of `prompt`: the answer changes with the buttons, until it is entered or touched. -/
def promptLoop : Nat → Bool → Input → List Poll → Option (Looked Bool)
  | 0, _, _, _ => none
  | fuel + 1, answer, input, polls => do
      let looked ← Input.waitForButton page.board page.screen input polls
      match looked.value.1 with
      | .enter => some ⟨answer, looked.input, looked.polls⟩
      | .page => promptLoop fuel (!answer) looked.input looked.polls
      | .pagePrev => promptLoop fuel (!answer) looked.input looked.polls
      | .touch =>
          some ⟨looked.input.touch.index ≠ 0,
            { looked.input with touch := looked.input.touch.clearRegions }, looked.polls⟩
      | _ => promptLoop fuel answer looked.input looked.polls

/-- The touchscreen with the regions of a prompt. -/
def withRegions (text : Text) (offsetY : Int) (input : Input) : Input :=
  if page.board.hasTouchscreen then
    { input with touch := input.touch.setRegions page.xKeypadMap (page.yKeypadMap text offsetY) }
  else input

/-- `prompt`. Each turn of the loop reads a poll. -/
def prompt (text : Text) (offsetY : Int) (input : Input) (polls : List Poll) :
    Option (Looked Bool) :=
  if page.board.hasMinimalDisplay then
    (Input.waitForButton page.board page.screen input polls).map fun looked =>
      ⟨looked.value.1 = .enter, looked.input, looked.polls⟩
  else page.promptLoop (polls.length + 1) true (page.withRegions text offsetY input) polls

/-- Where the buttons end. -/
def bottom (text : Text) (offsetY : Int) : Int :=
  min (page.yKeyMap text offsetY + 4 * page.fontHeight) page.screen.height

/-- The answer after a button that does not end the prompt. -/
def nextAnswer (answer : Bool) (button : Button) : Bool :=
  if button = .page ∨ button = .pagePrev then !answer else answer

/-- The prompt goes on asking: turns that end with neither `BUTTON_ENTER` nor `BUTTON_TOUCH`. -/
inductive Asks : Bool → Input → List Poll → Bool → Input → List Poll → Prop
  | here (answer : Bool) (input : Input) (polls : List Poll) :
      Asks answer input polls answer input polls
  | turn {answer later : Bool} {input asking : Input} {polls rest : List Poll}
      {looked : Looked (Button × Option Press)}
      (waited : Input.waitForButton page.board page.screen input polls = some looked)
      (goesOn : looked.value.1 ≠ .enter ∧ looked.value.1 ≠ .touch)
      (asks : Asks (nextAnswer answer looked.value.1) looked.input looked.polls later asking rest) :
      Asks answer input polls later asking rest

section Index

variable {page} {touch : Touch} {text : Text} {offsetY : Int} {point : Point}

/-- **Any index but zero**: on the right half, or below the buttons. -/
theorem extractIndex_ne_zero_iff (x : touch.xRegions = page.xKeypadMap)
    (y : touch.yRegions = page.yKeypadMap text offsetY)
    (ordered : page.yKeyMap text offsetY ≤ page.bottom text offsetY) (inside : 0 ≤ point.x) :
    touch.extractIndex point ≠ 0 ↔
      (page.screen.width / 2 : Nat) ≤ point.x ∨ page.bottom text offsetY < point.y := by
  have half : page.screen.width / 2 ≤ page.screen.width := Nat.div_le_self _ _
  have row : (touch.yRegions.countP (· < point.y) - 1 : Nat) =
      if page.bottom text offsetY < point.y then 1 else 0 := by
    rw [y]
    change List.countP _ [page.yKeyMap text offsetY, page.bottom text offsetY] - 1 = _
    simp only [List.countP_cons, List.countP_nil, decide_eq_true_eq]
    split_ifs <;> omega
  have column : (touch.xRegions.countP (· ≤ point.x) : Int) - 1 =
      if point.x < (page.screen.width / 2 : Nat) then 0
      else if point.x < page.screen.width then 1 else 2 := by
    rw [x]
    change ((List.countP _ [0, ((page.screen.width / 2 : Nat) : Int), page.screen.width] : Nat) :
      Int) - 1 = _
    simp only [List.countP_cons, List.countP_nil, decide_eq_true_eq]
    split_ifs <;> omega
  have some : touch.xRegions ≠ [] := by
    rw [x]
    exact List.cons_ne_nil _ _
  have length : touch.xRegions.length = 3 := by
    rw [x]
    rfl
  rw [Touch.extractIndex, row, column, if_pos some, length]
  split_ifs <;> simp <;> omega

/-- The regions of a prompt in which a point was found are in order. -/
theorem of_validPosition {screen : Screen} (x : touch.xRegions = page.xKeypadMap)
    (y : touch.yRegions = page.yKeypadMap text offsetY)
    (valid : touch.validPosition screen point = true) :
    page.yKeyMap text offsetY ≤ page.bottom text offsetY ∧ 0 ≤ (Touch.placed screen point).x := by
  have width := screen.width_pos
  rw [Touch.validPosition, x, y] at valid
  unfold Touch.placed
  have lastX : page.xKeypadMap.getLast? = some (page.screen.width : Int) := rfl
  have lastY : (page.yKeypadMap text offsetY).getLast? = some (page.bottom text offsetY) := rfl
  have firstX : page.xKeypadMap.head? = some 0 := rfl
  have firstY : (page.yKeypadMap text offsetY).head? = some (page.yKeyMap text offsetY) := rfl
  rw [firstX, firstY, lastX, lastY] at valid
  simp only [Option.any_some, Bool.and_eq_true, Bool.not_eq_true', decide_eq_false_iff_not,
    not_lt] at valid
  obtain ⟨⟨left, _⟩, above, below⟩ := valid
  refine ⟨above.trans below, ?_⟩
  by_cases flipped : screen.flipped = true
  · rw [if_pos flipped]
    dsimp only
    omega
  · rw [if_neg flipped] at left ⊢
    exact left

/-- What is sampled lies on the screen. -/
theorem stored_nonneg {screen : Screen} (samples : List Sample) :
    ∀ stored ∈ Touch.stored screen samples, 0 ≤ stored.x := by
  have width := screen.width_pos
  induction samples with
  | nil => exact nofun
  | cons sample samples ih =>
      cases sample with
      | point x y =>
          refine List.forall_mem_cons.mpr ⟨?_, ih⟩
          unfold Touch.placed
          split_ifs
          · dsimp only
            omega
          · exact Int.natCast_nonneg x
      | none => exact nofun
      | error => exact ih

private theorem average_nonneg {points : List Point} (nonneg : ∀ point ∈ points, 0 ≤ point.x) :
    0 ≤ (Touch.average points).x := by
  refine Int.ediv_nonneg (List.sum_nonneg ?_) (Int.natCast_nonneg _)
  intro x member
  obtain ⟨point, inside, rfl⟩ := List.mem_map.mp member
  exact nonneg point inside

/-- The average of a press whose first point was valid is not left of the screen. -/
theorem averaged_nonneg {screen : Screen} {press : Press}
    (first : 0 ≤ (Touch.placed screen press.first).x) : 0 ≤ (press.averaged screen).x := by
  refine average_nonneg fun point member => ?_
  have inside := List.mem_of_mem_take member
  rcases List.mem_cons.mp inside with rfl | later
  · exact first
  · exact stored_nonneg press.samples point later

end Index

section Runs

variable {page} {answer later : Bool} {input asking : Input} {polls rest : List Poll}
  {looked : Looked (Button × Option Press)} {fuel : Nat}

private theorem promptLoop_turn
    (waited : Input.waitForButton page.board page.screen input polls = some looked)
    (goesOn : looked.value.1 ≠ .enter ∧ looked.value.1 ≠ .touch) :
    page.promptLoop (fuel + 1) answer input polls =
      page.promptLoop fuel (nextAnswer answer looked.value.1) looked.input looked.polls := by
  rw [promptLoop, waited]
  dsimp only [bind, Option.bind]
  generalize looked.value.1 = button at goesOn ⊢
  cases button <;> first | rfl | exact absurd rfl goesOn.1 | exact absurd rfl goesOn.2

private theorem promptLoop_touch
    (waited : Input.waitForButton page.board page.screen input polls = some looked)
    (touched : looked.value.1 = .touch) :
    (page.promptLoop (fuel + 1) answer input polls).map Looked.value =
      some (decide (looked.input.touch.index ≠ 0)) := by
  rw [promptLoop, waited]
  dsimp only [bind, Option.bind]
  rw [touched]
  rfl

/-- The loop goes on with the polls that are left. -/
theorem Asks.promptLoop_eq (asks : page.Asks answer input polls later asking rest)
    (enough : polls.length < fuel) : ∃ left, rest.length < left ∧
      page.promptLoop fuel answer input polls = page.promptLoop left later asking rest ∧
      asking.touch.SameRegions input.touch := by
  induction asks generalizing fuel with
  | here answer input polls => exact ⟨fuel, enough, rfl, .refl _⟩
  | turn waited goesOn asks ih =>
      have answers := Input.waitForButton_answers waited
      obtain ⟨fuel, rfl⟩ : ∃ less, fuel = less + 1 := ⟨fuel - 1, by omega⟩
      have fewer := answers.fewer
      obtain ⟨left, more, same, regions⟩ := @ih fuel (by omega)
      exact ⟨left, more, (promptLoop_turn waited goesOn).trans same,
        regions.trans answers.regions⟩

end Runs

section Answers

variable {page} {text : Text} {offsetY : Int} {answer : Bool} {input asking : Input}
  {polls rest : List Poll} {looked : Looked (Button × Option Press)} {press : Press}

/-- The prompt is answered by a touch: it asks until a press ends in `BUTTON_TOUCH`. -/
def Touched (page : Page) (text : Text) (offsetY : Int) (input : Input) (polls : List Poll)
    (press : Press) : Prop :=
  ∃ answer asking rest looked,
    page.Asks true (page.withRegions text offsetY input) polls answer asking rest ∧
      Input.waitForButton page.board page.screen asking rest = some looked ∧
        looked.value = (.touch, some press)

/-- **A touch answers the prompt**: no on the left half and not below the buttons. -/
theorem prompt_touched (touched : page.Touched text offsetY input polls press) :
    (page.prompt text offsetY input polls).map Looked.value =
      some (decide ((page.screen.width / 2 : Nat) ≤ (press.averaged page.screen).x ∨
        page.bottom text offsetY < (press.averaged page.screen).y)) := by
  obtain ⟨answer, asking, rest, looked, asks, waited, value⟩ := touched
  have answers := Input.waitForButton_answers waited
  have button : looked.value.1 = .touch := by rw [value]
  obtain ⟨touchscreen, found, some, valid, index⟩ := answers.touched button
  have same : found = press := by
    rw [value] at some
    exact (Option.some.inj some).symm
  subst same
  have plain : page.board.hasMinimalDisplay ≠ true := fun minimal => by
    rw [page.board.minimal_touch minimal] at touchscreen
    cases touchscreen
  obtain ⟨left, more, loop, regions⟩ := asks.promptLoop_eq (Nat.lt_succ_self _)
  have start : page.withRegions text offsetY input = { input with
      touch := input.touch.setRegions page.xKeypadMap (page.yKeypadMap text offsetY) } :=
    if_pos touchscreen
  rw [start] at regions loop
  have x : asking.touch.xRegions = page.xKeypadMap := regions.1
  have y : asking.touch.yRegions = page.yKeypadMap text offsetY := regions.2
  obtain ⟨ordered, first⟩ := of_validPosition x y valid
  obtain ⟨left, rfl⟩ : ∃ less, left = less + 1 := ⟨left - 1, by omega⟩
  rw [prompt, if_neg plain, start, loop, promptLoop_touch waited button, index]
  exact congrArg _ (decide_eq_decide.mpr
    (extractIndex_ne_zero_iff x y ordered (averaged_nonneg first)))

/-- **A prompt answers what was touched exactly when the average point is on the right half, or
not below the buttons.** -/
theorem prompt_answers_iff (touched : page.Touched text offsetY input polls press) :
    (page.prompt text offsetY input polls).map Looked.value =
        some (decide ((page.screen.width / 2 : Nat) ≤ (press.averaged page.screen).x)) ↔
      (page.screen.width / 2 : Nat) ≤ (press.averaged page.screen).x ∨
        (press.averaged page.screen).y ≤ page.bottom text offsetY := by
  rw [prompt_touched touched]
  constructor
  · intro same
    have alike := decide_eq_decide.mp (Option.some.inj same)
    by_contra neither
    push Not at neither
    exact absurd (alike.mp (.inr neither.2)) (Int.not_le.mpr neither.1)
  · intro holds
    congr 1
    apply decide_eq_decide.mpr
    constructor
    · rintro (right | below)
      · exact right
      · exact holds.resolve_right (Int.not_le.mpr below)
    · exact Or.inl

end Answers

/-- The page of an Amigo. -/
def amigo : Page where
  board := ⟨true, false, false, false, false, by decide⟩
  screen := ⟨320, 480, false, by decide, by decide⟩
  display := {
    width := 320
    isM5stickv := false
    fontWidth := 12
    fontWidthWide := 24
    locale := "en-US"
    stringHasWideGlyph := fun _ => false
    positive := by decide
    wide := by decide
    narrow := by decide
    room := by decide }
  fontHeight := 24
  width_eq := rfl

/-- An input before it was touched. -/
def untouched : Input where
  touch := ⟨0, [], [], 0, [], ⟨0, 0⟩, none, .idle⟩
  buttonsActive := false
  debounceTime := 0
  debounceValue := 100

/-- The polls while the screen is touched at a point, and at another one. -/
def tap (first second : Sample) : List Poll :=
  [⟨1000, false, false, false, none, .none⟩, ⟨1010, false, false, false, none, .none⟩,
    ⟨1030, false, false, false, some first, .none⟩, ⟨1040, false, false, false, none, second⟩,
    ⟨1050, false, false, false, none, .none⟩, ⟨1060, false, false, false, none, .none⟩,
    ⟨1070, false, false, false, none, .none⟩]

/-- A press on the right half is a yes. -/
theorem prompt_answers_iff_right :
    (amigo.prompt "Proceed?".toList 240 untouched
        (tap (.point 200 300) (.point 210 310))).map Looked.value =
      some (decide ((amigo.screen.width / 2 : Nat) ≤
        (Press.averaged amigo.screen
          ⟨⟨200, 300⟩, [.point 210 310, .none, .none]⟩).x)) :=
  (prompt_answers_iff ⟨true, _, _, _, .here _ _ _, rfl, rfl⟩).mpr (.inl (by decide))

/-- A press on the left half that slips below the buttons is a yes. -/
theorem not_prompt_no_left : ¬ ∀ (page : Page) (text : Text) (offsetY : Int) (input : Input)
    (polls : List Poll) (press : Press), page.Touched text offsetY input polls press →
      (page.prompt text offsetY input polls).map Looked.value =
        some (decide ((page.screen.width / 2 : Nat) ≤ (press.averaged page.screen).x)) := by
  intro claim
  have touched : amigo.Touched "Proceed?".toList 240 untouched
      (tap (.point 100 340) (.point 100 380))
      ⟨⟨100, 340⟩, [.point 100 380, .none, .none]⟩ :=
    ⟨true, _, _, _, .here _ _ _, rfl, rfl⟩
  have answer := claim _ _ _ _ _ _ touched
  rw [prompt_touched touched] at answer
  exact absurd answer (by decide)

end Page

end VaultSeed.Ui
