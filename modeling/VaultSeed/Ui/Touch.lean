import Mathlib.Algebra.Ring.Int.Defs
import Mathlib.Tactic.Common

/-! # The touchscreen

`touch.py`: what the driver samples is stored as the points of a press, whose average is looked up
in the regions of the buttons. Only the first point is checked to lie in them.
-/

namespace VaultSeed.Ui

/-- A point of the screen. -/
structure Point where
  x : Int
  y : Int
  deriving DecidableEq, Repr

/-- The screen as it is held, and the setting `flipped_orientation`. The touchscreen has it in
landscape mode: its own width is the height here, and its height the width. -/
structure Screen where
  width : Nat
  height : Nat
  flipped : Bool
  width_pos : 0 < width
  height_pos : 0 < height

/-- What `current_point` of a driver returns: a point, nothing, or an exception. -/
inductive Sample where
  | point (x y : Nat)
  | none
  | error
  deriving DecidableEq, Repr

/-- The point of a sample that is one. -/
def Sample.toPoint : Sample → Point
  | .point x y => ⟨x, y⟩
  | _ => ⟨0, 0⟩

inductive TouchState where
  | idle
  | pressed
  | released
  deriving DecidableEq, Repr

inductive Gesture where
  | swipeRight
  | swipeLeft
  | swipeUp
  | swipeDown
  deriving DecidableEq, Repr

/-- `SWIPE_THRESHOLD`. -/
def swipeThreshold : Int := 50

/-- `TOUCH_S_PERIOD`. -/
def touchPeriod : Nat := 20

/-- `Touch`. -/
structure Touch where
  sampleTime : Nat
  yRegions : List Int
  xRegions : List Int
  index : Int
  pressPoint : List Point
  releasePoint : Point
  gesture : Option Gesture
  state : TouchState
  deriving DecidableEq, Repr

namespace Touch

variable (screen : Screen) (touch : Touch)

/-- `clear_regions`. -/
def clearRegions : Touch := { touch with yRegions := [], xRegions := [] }

/-- `set_regions`. -/
def setRegions (xList yList : List Int) : Touch :=
  { touch with xRegions := xList, yRegions := yList }

/-- `valid_position`. -/
def validPosition (data : Point) : Bool :=
  let data := if screen.flipped then ⟨screen.width - data.x, screen.height - data.y⟩ else data
  !touch.xRegions.head?.any (data.x < ·) && !touch.xRegions.getLast?.any (· < data.x) &&
    (!touch.yRegions.head?.any (data.y < ·) && !touch.yRegions.getLast?.any (· < data.y))

/-- `_extract_index`. -/
def extractIndex (data : Point) : Int :=
  let yIndex : Nat := touch.yRegions.countP (· < data.y) - 1
  if touch.xRegions ≠ [] then
    let xIndex : Int := touch.xRegions.countP (· ≤ data.x) - 1
    yIndex * (touch.xRegions.length - 1) + xIndex
  else yIndex

/-- A point as it is stored: turned and kept on the screen when the screen is flipped. -/
def placed (data : Point) : Point :=
  if screen.flipped then
    ⟨min (max 0 (screen.width - data.x)) (screen.width - 1),
      min (max 0 (screen.height - data.y)) (screen.height - 1)⟩
  else data

/-- The average of points, rounded down. -/
def average (points : List Point) : Point :=
  ⟨(points.map Point.x).sum / points.length, (points.map Point.y).sum / points.length⟩

/-- `_store_points`. -/
def storePoints (data : Point) : Touch :=
  let data := placed screen data
  let stored :=
    match touch.state with
    | .idle => { touch with
        state := .pressed
        pressPoint := [data]
        index := touch.extractIndex data }
    | .pressed =>
        if touch.pressPoint.length < 10 then
          { touch with
            pressPoint := touch.pressPoint ++ [data]
            index := touch.extractIndex (average (touch.pressPoint ++ [data])) }
        else touch
    | .released => touch
  { stored with releasePoint := data }

/-- The gesture of a press that ends at a point. -/
def released (gesture : Option Gesture) (press release : Point) : Option Gesture :=
  let lateral := release.x - press.x
  let vertical := release.y - press.y
  let length := if -lateral > swipeThreshold then -lateral else lateral
  if vertical > swipeThreshold ∧ vertical > length then some .swipeDown
  else if -vertical > swipeThreshold ∧ -vertical > length then some .swipeUp
  else if lateral > swipeThreshold then some .swipeRight
  else if -lateral > swipeThreshold then some .swipeLeft
  else gesture

/-- `current_state`, at a time and with what the driver samples. -/
def currentState (now : Nat) (sample : Sample) : Touch :=
  let touch := { touch with sampleTime := now }
  match sample with
  | .point x y => touch.storePoints screen ⟨x, y⟩
  | .none =>
      match touch.state with
      | .released => { touch with state := .idle }
      | .pressed =>
          { touch with
            gesture := touch.pressPoint.head?.elim touch.gesture
              (released touch.gesture · touch.releasePoint)
            state := .released }
      | .idle => touch
  | .error => touch

/-- `event`, when the driver reports an interrupt with its point or none. -/
def event (validatePosition : Bool) (now : Nat) (irqPoint : Option Sample) : Touch × Bool :=
  if touch.sampleTime + touchPeriod < now then
    match irqPoint with
    | none => (touch, false)
    | some sample =>
        let touch := { touch with state := .idle }
        if validatePosition then
          match sample with
          | .point x y =>
              if touch.validPosition screen ⟨x, y⟩ then (touch.storePoints screen ⟨x, y⟩, true)
              else (touch, false)
          | _ => (touch, false)
        else (touch, true)
  else (touch, false)

/-- `value`: whether the touch is pressed as a button. -/
def value (now : Nat) (sample : Sample) : Touch × Bool :=
  let touch := touch.currentState screen now sample
  (touch, touch.state ≠ .idle)

/-- A detected gesture is reported once. -/
def swipeValue (gesture : Gesture) : Touch × Bool :=
  if touch.gesture = some gesture then ({ touch with gesture := none }, true) else (touch, false)

/-- `swipe_right_value`. -/
def swipeRightValue : Touch × Bool := touch.swipeValue .swipeRight

/-- `swipe_left_value`. -/
def swipeLeftValue : Touch × Bool := touch.swipeValue .swipeLeft

/-- `swipe_up_value`. -/
def swipeUpValue : Touch × Bool := touch.swipeValue .swipeUp

/-- `swipe_down_value`. -/
def swipeDownValue : Touch × Bool := touch.swipeValue .swipeDown

/-! ## What the touchscreen keeps -/

/-- The regions of the buttons are those of another touch. -/
def SameRegions (first second : Touch) : Prop :=
  first.xRegions = second.xRegions ∧ first.yRegions = second.yRegions

section Regions

variable {screen} {touch other : Touch}

/-- A touch screen has the regions it has. -/
@[refl] theorem SameRegions.refl (touch : Touch) : SameRegions touch touch := ⟨rfl, rfl⟩

/-- Having the same regions is transitive. -/
theorem SameRegions.trans {third : Touch} (first : SameRegions third other)
    (second : SameRegions other touch) : SameRegions third touch :=
  ⟨first.1.trans second.1, first.2.trans second.2⟩

/-- The index of a point depends on the regions only. -/
theorem SameRegions.extractIndex (same : SameRegions other touch) (data : Point) :
    other.extractIndex data = touch.extractIndex data := by
  rw [Touch.extractIndex, Touch.extractIndex, same.1, same.2]

/-- Whether a point is valid depends on the regions only. -/
theorem SameRegions.validPosition (same : SameRegions other touch) (data : Point) :
    other.validPosition screen data = touch.validPosition screen data := by
  rw [Touch.validPosition, Touch.validPosition, same.1, same.2]

private theorem storePoints_regions (screen : Screen) (touch : Touch) (data : Point) :
    SameRegions (touch.storePoints screen data) touch := by
  unfold storePoints
  cases touch.state with
  | idle => exact ⟨rfl, rfl⟩
  | pressed =>
      dsimp only
      split_ifs <;> exact ⟨rfl, rfl⟩
  | released => exact ⟨rfl, rfl⟩

/-- Looking at the screen leaves the regions. -/
theorem currentState_regions (screen : Screen) (touch : Touch) (now : Nat) (sample : Sample) :
    SameRegions (touch.currentState screen now sample) touch := by
  unfold currentState
  cases sample with
  | point x y => exact storePoints_regions screen _ _
  | none =>
      dsimp only
      cases touch.state <;> exact ⟨rfl, rfl⟩
  | error => exact ⟨rfl, rfl⟩

/-- An event leaves the regions. -/
theorem event_regions (screen : Screen) (touch : Touch) (validate : Bool) (now : Nat)
    (irqPoint : Option Sample) :
    SameRegions (touch.event screen validate now irqPoint).1 touch := by
  unfold event
  split_ifs with due checked
  · cases irqPoint with
    | none => exact .refl _
    | some sample =>
        cases sample with
        | point x y =>
            dsimp only
            split_ifs
            · exact storePoints_regions screen _ _
            · exact ⟨rfl, rfl⟩
        | none => exact ⟨rfl, rfl⟩
        | error => exact ⟨rfl, rfl⟩
  · cases irqPoint <;> exact ⟨rfl, rfl⟩
  · exact .refl _

/-- Asking for a gesture leaves the regions. -/
theorem swipeValue_regions (touch : Touch) (gesture : Gesture) :
    SameRegions (touch.swipeValue gesture).1 touch := by
  unfold swipeValue
  split_ifs <;> exact ⟨rfl, rfl⟩

end Regions

/-- The points of samples that a press stores: those until nothing is sampled. -/
def stored : List Sample → List Point
  | [] => []
  | .point x y :: rest => placed screen ⟨x, y⟩ :: stored rest
  | .none :: _ => []
  | .error :: rest => stored rest

/-- The touch is pressed at points, and the index is that of the average of the first ten. -/
structure PressedAt (touch : Touch) (points : List Point) : Prop where
  state_eq : touch.state = .pressed
  points_eq : touch.pressPoint = points.take 10
  index_eq : touch.index = touch.extractIndex (average (points.take 10))

section Presses

variable {screen} {touch : Touch} {points : List Point}

private theorem average_singleton (point : Point) : average [point] = point := by
  simp [average]

/-- An event is reported for a point in the regions, and starts a press there. -/
theorem event_eq_true {now : Nat} {irqPoint : Option Sample}
    (reported : (touch.event screen true now irqPoint).2 = true) :
    ∃ x y, irqPoint = some (.point x y) ∧ touch.validPosition screen ⟨x, y⟩ = true ∧
      (touch.event screen true now irqPoint).1.PressedAt [placed screen ⟨x, y⟩] := by
  unfold event at reported ⊢
  by_cases due : touch.sampleTime + touchPeriod < now
  · rw [if_pos due] at reported ⊢
    cases irqPoint with
    | none => cases reported
    | some sample =>
        cases sample with
        | point x y =>
            dsimp only at reported ⊢
            by_cases valid : validPosition screen { touch with state := .idle } ⟨x, y⟩ = true
            · rw [if_pos rfl, if_pos valid]
              refine ⟨x, y, rfl, valid, rfl, rfl, ?_⟩
              rw [List.take_of_length_le (by simp), average_singleton]
              rfl
            · rw [if_pos rfl, if_neg valid] at reported
              cases reported
        | none => cases reported
        | error => cases reported
  · rw [if_neg due] at reported
    cases reported

/-- A press stores a point, unless it has ten. -/
theorem PressedAt.storePoints (pressed : touch.PressedAt points) (data : Point) :
    (touch.storePoints screen data).PressedAt (points ++ [placed screen data]) := by
  have same := storePoints_regions screen touch data
  unfold Touch.storePoints at same ⊢
  rw [pressed.state_eq] at same ⊢
  dsimp only at same ⊢
  by_cases few : touch.pressPoint.length < 10
  · have length : points.length < 10 := by
      rw [pressed.points_eq, List.length_take] at few
      omega
    have whole : (points ++ [placed screen data]).take 10 = points ++ [placed screen data] :=
      List.take_of_length_le (by rw [List.length_append, List.length_singleton]; omega)
    have before : touch.pressPoint = points :=
      pressed.points_eq.trans (List.take_of_length_le (by omega))
    rw [if_pos few]
    exact ⟨rfl, by rw [whole, ← before], by rw [whole, ← before]; rfl⟩
  · have length : 10 ≤ points.length := by
      rw [pressed.points_eq, List.length_take] at few
      omega
    have whole : (points ++ [placed screen data]).take 10 = points.take 10 :=
      List.take_append_of_le_length length
    rw [if_neg few]
    exact ⟨pressed.state_eq, pressed.points_eq.trans whole.symm, whole ▸ pressed.index_eq⟩

/-- What is sampled is stored, and when nothing is, the press is over and its index stays. -/
theorem PressedAt.currentState (pressed : touch.PressedAt points) (now : Nat) (sample : Sample) :
    (sample = .none ∧ (touch.currentState screen now sample).state = .released ∧
      (touch.currentState screen now sample).index = touch.index) ∨
    sample ≠ .none ∧
      (touch.currentState screen now sample).PressedAt (points ++ stored screen [sample]) := by
  have timed : PressedAt { touch with sampleTime := now } points :=
    ⟨pressed.state_eq, pressed.points_eq, pressed.index_eq⟩
  cases sample with
  | point x y => exact .inr ⟨nofun, timed.storePoints ⟨x, y⟩⟩
  | none =>
      unfold Touch.currentState
      dsimp only
      rw [pressed.state_eq]
      exact .inl ⟨rfl, rfl, rfl⟩
  | error =>
      rw [stored, stored, List.append_nil]
      exact .inr ⟨nofun, timed⟩

/-- The first sample is stored before the rest. -/
theorem stored_cons {sample : Sample} (some : sample ≠ .none) (rest : List Sample) :
    stored screen (sample :: rest) = stored screen [sample] ++ stored screen rest := by
  cases sample with
  | point x y => rfl
  | none => exact absurd rfl some
  | error => rfl

/-- After the press no point counts. -/
theorem index_of_released (released : touch.state = .released) (now : Nat) (sample : Sample) :
    (touch.currentState screen now sample).index = touch.index ∧
      ((touch.currentState screen now sample).state = .released ∨
        (touch.currentState screen now sample).state = .idle) := by
  unfold currentState
  cases sample with
  | point x y =>
      dsimp only
      unfold Touch.storePoints
      dsimp only
      rw [released]
      exact ⟨rfl, .inl rfl⟩
  | none =>
      dsimp only
      rw [released]
      exact ⟨rfl, .inr rfl⟩
  | error => exact ⟨rfl, .inl released⟩

end Presses

end Touch

end VaultSeed.Ui
