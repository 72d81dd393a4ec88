import VaultSeed.Ui.Touch

/-! # Buttons and touches

`input.py`: waiting for a button to be pressed and released again. What the clock, the buttons and
the driver of the touchscreen report in one look at them is a poll; the loops read one poll after
another, and have no result when the polls end before.
-/

namespace VaultSeed.Ui

/-- What `wait_for_button` returns. -/
inductive Button where
  | enter
  | page
  | pagePrev
  | touch
  | swipeRight
  | swipeLeft
  | swipeUp
  | swipeDown
  | fastForward
  | fastBackward
  | activating
  deriving DecidableEq, Repr

/-- `kboard`. A board with a minimal display has no touchscreen. -/
structure Board where
  hasTouchscreen : Bool
  hasMinimalDisplay : Bool
  isYahboom : Bool
  isCube : Bool
  hasEncoder : Bool
  minimal_touch : hasMinimalDisplay = true → hasTouchscreen = false

/-- One look at the clock, the buttons and the touchscreen. -/
structure Poll where
  now : Nat
  enter : Bool
  page : Bool
  pagePrev : Bool
  irqPoint : Option Sample
  sample : Sample
  deriving DecidableEq, Repr

/-- `Input`. -/
structure Input where
  touch : Touch
  buttonsActive : Bool
  debounceTime : Nat
  debounceValue : Nat
  deriving DecidableEq, Repr

/-- A touch: the first point of a press, and what was sampled until it was over. -/
structure Press where
  first : Point
  samples : List Sample
  deriving DecidableEq, Repr

/-- The points that count for a press: the first ten until nothing is sampled. -/
def Press.points (screen : Screen) (press : Press) : List Point :=
  (Touch.placed screen press.first :: Touch.stored screen press.samples).take 10

/-- The average point of a press. -/
def Press.averaged (screen : Screen) (press : Press) : Point :=
  Touch.average (press.points screen)

/-- What a procedure returns, the input after it, and the polls it did not read. -/
structure Looked (α : Type) where
  value : α
  input : Input
  polls : List Poll

/-- `LONG_PRESS_PERIOD`. -/
def longPressPeriod : Nat := 1000

namespace Input

variable (board : Board) (screen : Screen)

/-- `touch_value`. -/
def touchValue (input : Input) (poll : Poll) : Input × Bool :=
  if board.hasTouchscreen then
    let value := input.touch.value screen poll.now poll.sample
    ({ input with touch := value.1 }, value.2)
  else (input, false)

/-- `touch_event`. -/
def touchEvent (input : Input) (poll : Poll) : Input × Bool :=
  if board.hasTouchscreen then
    let event := input.touch.event screen true poll.now poll.irqPoint
    ({ input with touch := event.1 }, event.2)
  else (input, false)

/-- `wait_for_release`. -/
def waitForRelease (input : Input) : List Poll → Option (Looked Unit)
  | [] => none
  | poll :: polls =>
      if poll.enter || poll.page || poll.pagePrev then waitForRelease input polls
      else
        let value := input.touchValue board screen poll
        if value.2 then waitForRelease value.1 polls else some ⟨(), value.1, polls⟩

/-- The start of `_wait_for_press`: events are flushed while the buttons may bounce, and once
more. -/
def debounce (input : Input) : List Poll → Option (Looked Unit)
  | [] => none
  | poll :: polls =>
      let flushed := (input.touchEvent board screen poll).1
      if poll.now < input.debounceTime + input.debounceValue then debounce flushed polls
      else some ⟨(), flushed, polls⟩

/-- The loop of `_wait_for_press`: the button that is pressed, and where the screen is touched. -/
def waitForPress (input : Input) : List Poll → Option (Looked (Button × Point))
  | [] => none
  | poll :: polls =>
      if poll.enter then some ⟨(.enter, ⟨0, 0⟩), input, polls⟩
      else if poll.page then some ⟨(.page, ⟨0, 0⟩), input, polls⟩
      else if poll.pagePrev then
        some ⟨(if board.isYahboom then .page else .pagePrev, ⟨0, 0⟩), input, polls⟩
      else
        let event := input.touchEvent board screen poll
        if event.2 then
          some ⟨(.touch, poll.irqPoint.elim ⟨0, 0⟩ Sample.toPoint), event.1, polls⟩
        else waitForPress event.1 polls

/-- `_get_release_filter`. -/
def getReleaseFilter (button : Button) : Nat :=
  if (button = .page ∨ button = .pagePrev) ∧ board.hasEncoder then 0
  else if board.hasEncoder || board.isCube then 10 else 1

/-- `_button_still_pressed`. -/
def buttonStillPressed (button : Button) (poll : Poll) : Bool :=
  match button with
  | .enter => poll.enter
  | .page => poll.page || board.isYahboom && poll.pagePrev
  | _ => poll.pagePrev

/-- `_map_long_press`. -/
def mapLongPress : Button → Button
  | .enter => .swipeLeft
  | .page => .fastForward
  | _ => .fastBackward

/-- The loop of `_handle_button_press`, from a time on. -/
def handleButtonPress (button : Button) (start : Nat) (input : Input) :
    List Poll → Nat → Option (Looked Button)
  | polls, 0 =>
      some ⟨if input.buttonsActive then button else .activating,
        { input with buttonsActive := true }, polls⟩
  | [], _ + 1 => none
  | poll :: polls, filter + 1 =>
      let filter :=
        if buttonStillPressed board button poll then getReleaseFilter board button else filter
      if start + longPressPeriod < poll.now then
        some ⟨mapLongPress button, { input with buttonsActive := true }, polls⟩
      else handleButtonPress button start input polls filter

/-- `while self.touch_value() == PRESSED`: what is sampled. -/
def whileTouched (input : Input) : List Poll → Option (Looked (List Sample))
  | [] => none
  | poll :: polls =>
      let value := input.touchValue board screen poll
      if value.2 then
        (whileTouched value.1 polls).map fun looked =>
          { looked with value := poll.sample :: looked.value }
      else some ⟨[poll.sample], value.1, polls⟩

/-- The button of a touch that is over: a gesture or `BUTTON_TOUCH`. -/
def touchButton (touch : Touch) : Button × Touch :=
  if touch.swipeRightValue.2 then (.swipeRight, touch.swipeRightValue.1)
  else if touch.swipeLeftValue.2 then (.swipeLeft, touch.swipeLeftValue.1)
  else if touch.swipeUpValue.2 then (.swipeUp, touch.swipeUpValue.1)
  else if touch.swipeDownValue.2 then (.swipeDown, touch.swipeDownValue.1)
  else (.touch, touch)

/-- `_handle_touch_input`, with what was sampled. -/
def handleTouchInput (input : Input) (polls : List Poll) :
    Option (Looked (Button × List Sample)) :=
  (whileTouched board screen input polls).map fun looked =>
    let button := touchButton looked.input.touch
    ⟨(button.1, looked.value), { looked.input with touch := button.2, buttonsActive := false },
      looked.polls⟩

/-- `_detect_press_type`: the button, and the press if it was a touch. -/
def detectPressType (pressed : Button × Point) (input : Input) :
    List Poll → Option (Looked (Button × Option Press))
  | [] => none
  | poll :: polls =>
      if pressed.1 = .touch then
        (handleTouchInput board screen input (poll :: polls)).map fun looked =>
          { looked with value := (looked.value.1, some ⟨pressed.2, looked.value.2⟩) }
      else
        (handleButtonPress board pressed.1 poll.now input polls
          (getReleaseFilter board pressed.1)).map fun looked =>
            { looked with value := (looked.value, none) }

/-- The end of `wait_for_button`: the time is kept. -/
def debounced {α : Type} (looked : Looked α) : Option (Looked α) :=
  match looked.polls with
  | [] => none
  | poll :: polls => some ⟨looked.value, { looked.input with debounceTime := poll.now }, polls⟩

/-- `wait_for_button`, blocking. -/
def waitForButton (input : Input) (polls : List Poll) :
    Option (Looked (Button × Option Press)) := do
  let released ← waitForRelease board screen input polls
  let flushed ← debounce board screen released.input released.polls
  let pressed ← waitForPress board screen flushed.input flushed.polls
  let looked ← detectPressType board screen pressed.value pressed.input pressed.polls
  debounced looked

open Touch (SameRegions)

/-- A procedure keeps the regions, and reads some of the polls. -/
structure Looks {α : Type} (input : Input) (polls : List Poll) (looked : Looked α) : Prop where
  regions : SameRegions looked.input.touch input.touch
  fewer : looked.polls.length ≤ polls.length

section Regions

variable {board : Board} {screen : Screen} {input middle : Input} {poll : Poll} {polls : List Poll}

private theorem Looks.cons {α : Type} {looked : Looked α} (looks : Looks middle polls looked)
    (same : SameRegions middle.touch input.touch) : Looks input (poll :: polls) looked :=
  ⟨looks.regions.trans same, Nat.le_succ_of_le looks.fewer⟩

private theorem Looks.first {α : Type} (value : α) (same : SameRegions middle.touch input.touch) :
    Looks input (poll :: polls) ⟨value, middle, polls⟩ := ⟨same, Nat.le_succ _⟩

private theorem touchValue_regions (input : Input) (poll : Poll) :
    SameRegions (input.touchValue board screen poll).1.touch input.touch := by
  unfold touchValue
  split_ifs
  · exact Touch.currentState_regions screen _ _ _
  · exact .refl _

private theorem touchEvent_regions (input : Input) (poll : Poll) :
    SameRegions (input.touchEvent board screen poll).1.touch input.touch := by
  unfold touchEvent
  split_ifs
  · exact Touch.event_regions screen _ _ _ _
  · exact .refl _

private theorem waitForRelease_looks {looked : Looked Unit}
    (done : waitForRelease board screen input polls = some looked) :
    Looks input polls looked := by
  induction polls generalizing input with
  | nil => cases done
  | cons poll polls ih =>
      have value := @touchValue_regions board screen input poll
      rw [waitForRelease] at done
      dsimp only at done
      split_ifs at done
      · exact (ih done).cons (.refl _)
      · exact (ih done).cons value
      · obtain rfl := Option.some.inj done
        exact .first _ value

private theorem debounce_looks {looked : Looked Unit}
    (done : debounce board screen input polls = some looked) : Looks input polls looked := by
  induction polls generalizing input with
  | nil => cases done
  | cons poll polls ih =>
      have event := @touchEvent_regions board screen input poll
      rw [debounce] at done
      split_ifs at done
      · exact (ih done).cons event
      · obtain rfl := Option.some.inj done
        exact .first _ event

/-- What `_wait_for_press` leaves: the regions, and a press in them if the screen is touched. -/
structure Waited (input : Input) (polls : List Poll) (looked : Looked (Button × Point)) : Prop
    extends Looks input polls looked where
  touched : looked.value.1 = .touch → board.hasTouchscreen = true ∧
    input.touch.validPosition screen looked.value.2 = true ∧
    looked.input.touch.PressedAt [Touch.placed screen looked.value.2]

private theorem waitForPress_waited {looked : Looked (Button × Point)}
    (done : waitForPress board screen input polls = some looked) :
    @Waited board screen input polls looked := by
  induction polls generalizing input with
  | nil => cases done
  | cons poll polls ih =>
      have regions := @touchEvent_regions board screen input poll
      rw [waitForPress] at done
      dsimp only at done
      split_ifs at done with enter page pagePrev yahboom event
      · obtain rfl := Option.some.inj done
        exact ⟨.first _ (.refl _), nofun⟩
      · obtain rfl := Option.some.inj done
        exact ⟨.first _ (.refl _), nofun⟩
      · obtain rfl := Option.some.inj done
        exact ⟨.first _ (.refl _), nofun⟩
      · obtain rfl := Option.some.inj done
        exact ⟨.first _ (.refl _), nofun⟩
      · obtain rfl := Option.some.inj done
        refine ⟨.first _ regions, fun _ => ?_⟩
        unfold touchEvent at event ⊢
        by_cases touchscreen : board.hasTouchscreen = true
        · rw [if_pos touchscreen] at event ⊢
          obtain ⟨x, y, point, valid, pressed⟩ := Touch.event_eq_true event
          rw [point] at pressed ⊢
          exact ⟨touchscreen, valid, pressed⟩
        · rw [if_neg touchscreen] at event
          cases event
      · have later := ih done
        refine ⟨later.toLooks.cons regions, ?_⟩
        rw [← regions.validPosition]
        exact later.touched

end Regions

section Touches

variable {board : Board} {screen : Screen} {input : Input} {polls : List Poll}

private theorem whileTouched_looks {looked : Looked (List Sample)}
    (done : whileTouched board screen input polls = some looked) : Looks input polls looked := by
  induction polls generalizing input looked with
  | nil => cases done
  | cons poll polls ih =>
      have value := @touchValue_regions board screen input poll
      rw [whileTouched] at done
      split_ifs at done
      · obtain ⟨later, rest, rfl⟩ := Option.map_eq_some_iff.mp done
        have looks := ih rest
        exact ⟨looks.regions.trans value, Nat.le_succ_of_le looks.fewer⟩
      · obtain rfl := Option.some.inj done
        exact .first _ value

private theorem touchValue_eq (touchscreen : board.hasTouchscreen = true) (poll : Poll) :
    input.touchValue board screen poll =
      ({ input with touch := input.touch.currentState screen poll.now poll.sample },
        decide ((input.touch.currentState screen poll.now poll.sample).state ≠ .idle)) := by
  unfold touchValue
  rw [if_pos touchscreen]
  rfl

/-- A look at the touchscreen goes on while the touch is not idle. -/
theorem whileTouched_cons (touchscreen : board.hasTouchscreen = true) (poll : Poll) :
    whileTouched board screen input (poll :: polls) =
      let touch := input.touch.currentState screen poll.now poll.sample
      if touch.state = .idle then some ⟨[poll.sample], { input with touch := touch }, polls⟩
      else (whileTouched board screen { input with touch := touch } polls).map fun looked =>
        { looked with value := poll.sample :: looked.value } := by
  rw [whileTouched, touchValue_eq touchscreen]
  dsimp only
  by_cases idle : (input.touch.currentState screen poll.now poll.sample).state = .idle
  · rw [if_neg (by simp [idle]), if_pos idle]
  · rw [if_pos (by simp [idle]), if_neg idle]

/-- After the press the index stays. -/
theorem whileTouched_released (touchscreen : board.hasTouchscreen = true)
    (released : input.touch.state = .released) {looked : Looked (List Sample)}
    (done : whileTouched board screen input polls = some looked) :
    looked.input.touch.index = input.touch.index := by
  induction polls generalizing input looked with
  | nil => cases done
  | cons poll polls ih =>
      rw [whileTouched_cons touchscreen] at done
      dsimp only at done
      obtain ⟨index, later⟩ :=
        @Touch.index_of_released screen input.touch released poll.now poll.sample
      by_cases idle : (input.touch.currentState screen poll.now poll.sample).state = .idle
      · rw [if_pos idle] at done
        obtain rfl := Option.some.inj done
        exact index
      · rw [if_neg idle] at done
        obtain ⟨rest, ran, rfl⟩ := Option.map_eq_some_iff.mp done
        exact (@ih { input with touch := input.touch.currentState screen poll.now poll.sample }
          (later.resolve_right idle) rest ran).trans index

/-- **The index of a touch is that of the average of its first ten points.** -/
theorem whileTouched_index (touchscreen : board.hasTouchscreen = true) {points : List Point}
    (pressed : input.touch.PressedAt points) {looked : Looked (List Sample)}
    (done : whileTouched board screen input polls = some looked) :
    looked.input.touch.index = input.touch.extractIndex
      (Touch.average ((points ++ Touch.stored screen looked.value).take 10)) := by
  induction polls generalizing input looked points with
  | nil => cases done
  | cons poll polls ih =>
      have regions := Touch.currentState_regions screen input.touch poll.now poll.sample
      rw [whileTouched_cons touchscreen] at done
      dsimp only at done
      obtain ⟨none, released, index⟩ | ⟨some, later⟩ :=
        @Touch.PressedAt.currentState screen _ _ pressed poll.now poll.sample
      · rw [if_neg (by rw [released]; decide)] at done
        obtain ⟨rest, ran, rfl⟩ := Option.map_eq_some_iff.mp done
        have stays := whileTouched_released touchscreen released ran
        rw [none, Touch.stored, List.append_nil, ← pressed.index_eq]
        exact stays.trans index
      · rw [if_neg (by rw [later.state_eq]; decide)] at done
        obtain ⟨rest, ran, rfl⟩ := Option.map_eq_some_iff.mp done
        have after := @ih { input with
          touch := input.touch.currentState screen poll.now poll.sample } _ later rest ran
        rw [Touch.stored_cons some, ← List.append_assoc, ← regions.extractIndex]
        exact after

/-- A touch without a gesture is a touch. -/
theorem touchButton_cases (touch : Touch) :
    SameRegions (touchButton touch).2 touch ∧
      ((touchButton touch).1 = .touch → (touchButton touch).2 = touch) := by
  unfold touchButton
  split_ifs
  · exact ⟨Touch.swipeValue_regions _ _, nofun⟩
  · exact ⟨Touch.swipeValue_regions _ _, nofun⟩
  · exact ⟨Touch.swipeValue_regions _ _, nofun⟩
  · exact ⟨Touch.swipeValue_regions _ _, nofun⟩
  · exact ⟨.refl _, fun _ => rfl⟩

/-- A button that is released is no touch. -/
theorem released_ne_touch {button : Button} (pressed : button ≠ .touch) (active : Bool) :
    (if active then button else .activating) ≠ .touch := by
  split_ifs
  · exact pressed
  · decide

/-- A button that is pressed is no touch, and leaves the touchscreen alone. -/
theorem handleButtonPress_touch {button : Button} (pressed : button ≠ .touch) {start filter : Nat}
    {looked : Looked Button}
    (done : handleButtonPress board button start input polls filter = some looked) :
    looked.value ≠ .touch ∧ looked.input.touch = input.touch ∧
      looked.polls.length ≤ polls.length := by
  induction polls generalizing filter with
  | nil =>
      cases filter with
      | zero =>
          rw [handleButtonPress] at done
          obtain rfl := Option.some.inj done
          exact ⟨released_ne_touch pressed _, rfl, Nat.le_refl _⟩
      | succ filter => cases done
  | cons poll polls ih =>
      cases filter with
      | zero =>
          rw [handleButtonPress] at done
          obtain rfl := Option.some.inj done
          exact ⟨released_ne_touch pressed _, rfl, Nat.le_refl _⟩
      | succ filter =>
          rw [handleButtonPress] at done
          by_cases long : start + longPressPeriod < poll.now
          · rw [if_pos long] at done
            obtain rfl := Option.some.inj done
            refine ⟨?_, rfl, Nat.le_succ _⟩
            cases button <;> nofun
          · rw [if_neg long] at done
            obtain ⟨other, same, fewer⟩ := ih done
            exact ⟨other, same, Nat.le_succ_of_le fewer⟩

/-- What `_detect_press_type` returns for a touch: the press, and its index. -/
structure Detected (pressed : Button × Point) (input : Input) (polls : List Poll)
    (looked : Looked (Button × Option Press)) : Prop extends Looks input polls looked where
  touched : looked.value.1 = .touch → pressed.1 = .touch ∧ ∃ press : Press,
    looked.value.2 = some press ∧ press.first = pressed.2 ∧
      (board.hasTouchscreen = true → input.touch.PressedAt [Touch.placed screen press.first] →
        looked.input.touch.index = input.touch.extractIndex (press.averaged screen))

private theorem detectPressType_detected {pressed : Button × Point}
    {looked : Looked (Button × Option Press)}
    (done : detectPressType board screen pressed input polls = some looked) :
    @Detected board screen pressed input polls looked := by
  cases polls with
  | nil => cases done
  | cons poll polls =>
      rw [detectPressType] at done
      by_cases touch : pressed.1 = .touch
      · rw [if_pos touch] at done
        obtain ⟨handled, ran, rfl⟩ := Option.map_eq_some_iff.mp done
        obtain ⟨sampled, loop, rfl⟩ := Option.map_eq_some_iff.mp ran
        obtain ⟨same, plain⟩ := touchButton_cases sampled.input.touch
        have looks := whileTouched_looks loop
        exact {
          regions := same.trans looks.regions
          fewer := looks.fewer
          touched := by
            intro button
            refine ⟨touch, ⟨pressed.2, sampled.value⟩, rfl, rfl, fun touchscreen first => ?_⟩
            have index := whileTouched_index touchscreen first loop
            change (touchButton sampled.input.touch).2.index = _
            rw [plain button]
            exact index }
      · rw [if_neg touch] at done
        obtain ⟨handled, ran, rfl⟩ := Option.map_eq_some_iff.mp done
        obtain ⟨other, same, fewer⟩ := handleButtonPress_touch touch ran
        exact {
          regions := by rw [same]
          fewer := Nat.le_succ_of_le fewer
          touched := fun button => absurd button other }

private theorem debounced_eq {looked after : Looked (Button × Option Press)}
    (done : debounced looked = some after) :
    after.value = looked.value ∧ after.input.touch = looked.input.touch ∧
      after.polls.length < looked.polls.length := by
  unfold debounced at done
  cases rest : looked.polls with
  | nil =>
      rw [rest] at done
      cases done
  | cons poll polls =>
      rw [rest] at done
      obtain rfl := Option.some.inj done
      exact ⟨rfl, rfl, Nat.lt_succ_self _⟩

/-- **What `wait_for_button` returns for a touch**: its first point was in the regions, and the
index is that of the average point. -/
structure Answers (input : Input) (polls : List Poll) (looked : Looked (Button × Option Press)) :
    Prop where
  regions : SameRegions looked.input.touch input.touch
  fewer : looked.polls.length < polls.length
  touched : looked.value.1 = .touch → board.hasTouchscreen = true ∧ ∃ press : Press,
    looked.value.2 = some press ∧ input.touch.validPosition screen press.first = true ∧
      looked.input.touch.index = input.touch.extractIndex (press.averaged screen)

/-- What is waited for is an answer. -/
theorem waitForButton_answers {looked : Looked (Button × Option Press)}
    (done : waitForButton board screen input polls = some looked) :
    @Answers board screen input polls looked := by
  obtain ⟨released, ran, done⟩ := Option.bind_eq_some_iff.mp done
  obtain ⟨flushed, bounced, done⟩ := Option.bind_eq_some_iff.mp done
  obtain ⟨pressed, waited, done⟩ := Option.bind_eq_some_iff.mp done
  obtain ⟨detected, ended, done⟩ := Option.bind_eq_some_iff.mp done
  have first := waitForRelease_looks ran
  have second := debounce_looks bounced
  have before := second.regions.trans first.regions
  have press := waitForPress_waited waited
  have type := detectPressType_detected ended
  obtain ⟨value, touch, less⟩ := debounced_eq done
  exact {
    fewer := by
      have one := first.fewer
      have two := second.fewer
      have three := press.fewer
      have four := type.fewer
      omega
    regions := by
      rw [touch]
      exact type.regions.trans (press.regions.trans before)
    touched := by
      intro button
      rw [value] at button ⊢
      obtain ⟨first, found, some, same, index⟩ := type.touched button
      obtain ⟨touchscreen, valid, start⟩ := press.touched first
      refine ⟨touchscreen, found, some, ?_, ?_⟩
      · rw [same, ← before.validPosition]
        exact valid
      · rw [touch, index touchscreen (same ▸ start), press.regions.extractIndex,
          before.extractIndex] }

end Touches

end Input

end VaultSeed.Ui
