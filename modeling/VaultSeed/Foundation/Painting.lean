import Mathlib.Data.List.Nodup
import Mathlib.Tactic.Common

/-! # Painting cells

Steps on a state that shows black and white cells: filling regions (`Painting.Fills`) and flipping
them (`Painting.Flips`), keeping what is outside of a region (`Painting.Within`), writing at
different cells (`Painting.look_writes`), and laying a sequence of bits in the cells that are free
(`Painting.layBits_laid`).
-/

namespace Painting

/-- States that show cells. -/
structure Canvas (State Cell : Type) where
  good : State → Prop
  inside : Cell → Prop
  look : State → Cell → Bool

variable {State Cell ι : Type} {canvas : Canvas State Cell}

/-- A step makes the cells of a region black, and changes no other. -/
def Fills (canvas : Canvas State Cell) (region : Cell → Bool) (step : State → State) : Prop :=
  ∀ state, canvas.good state → canvas.good (step state) ∧ ∀ cell, canvas.inside cell →
    canvas.look (step state) cell = (canvas.look state cell || region cell)

/-- A step changes no cell outside of a region. -/
def Within (canvas : Canvas State Cell) (region : Cell → Prop) (step : State → State) : Prop :=
  ∀ state, canvas.good state → canvas.good (step state) ∧ ∀ cell, canvas.inside cell →
    ¬region cell → canvas.look (step state) cell = canvas.look state cell

/-- A step writes at one cell. -/
def Writes (canvas : Canvas State Cell) (place : Cell) (value : Bool) (step : State → State) :
    Prop :=
  ∀ state, canvas.good state → canvas.good (step state) ∧
    canvas.look (step state) place = value ∧ ∀ cell, canvas.inside cell → cell ≠ place →
      canvas.look (step state) cell = canvas.look state cell

section Fills

variable {first second : Cell → Bool} {step next : State → State}

/-- Two steps fill what either fills. -/
theorem Fills.comp (fills : Fills canvas first step) (then' : Fills canvas second next) :
    Fills canvas (fun cell => first cell || second cell) (fun state => next (step state)) := by
  intro state good
  obtain ⟨kept, looks⟩ := fills state good
  obtain ⟨keptNext, looksNext⟩ := then' _ kept
  refine ⟨keptNext, fun cell inside => ?_⟩
  rw [looksNext cell inside, looks cell inside, Bool.or_assoc]

/-- Doing nothing fills nothing. -/
theorem Fills.none : Fills canvas (fun _ => false) (fun state => state) :=
  fun _ good => ⟨good, fun _ _ => (Bool.or_false _).symm⟩

/-- The filled region is known by its cells. -/
theorem Fills.congr (fills : Fills canvas first step) (same : ∀ cell, first cell = second cell) :
    Fills canvas second step := (funext same : first = second) ▸ fills

/-- Filling one region after the other. -/
theorem Fills.foldl {region : ι → Cell → Bool} {step : State → ι → State} {items : List ι}
    (fills : ∀ item ∈ items, Fills canvas (region item) fun state => step state item) :
    Fills canvas (fun cell => items.any fun item => region item cell)
      fun state => items.foldl step state := by
  induction items with
  | nil => exact Fills.none
  | cons item items ih =>
      exact (fills item List.mem_cons_self).comp
        (ih fun other member => fills other (List.mem_cons_of_mem _ member))

end Fills

section Within

variable {region larger : Cell → Prop} {step next : State → State}

/-- Two steps within a region. -/
theorem Within.comp (within : Within canvas region step) (then' : Within canvas region next) :
    Within canvas region fun state => next (step state) := by
  intro state good
  obtain ⟨kept, looks⟩ := within state good
  obtain ⟨keptNext, looksNext⟩ := then' _ kept
  exact ⟨keptNext, fun cell inside outside =>
    (looksNext cell inside outside).trans (looks cell inside outside)⟩

/-- Doing nothing stays within every region. -/
theorem Within.none : Within canvas region (fun state => state) :=
  fun _ good => ⟨good, fun _ _ _ => rfl⟩

/-- What stays within a region stays within a larger one. -/
theorem Within.mono (within : Within canvas region step)
    (covers : ∀ cell, region cell → larger cell) :
    Within canvas larger step := fun state good =>
  ⟨(within state good).1, fun cell inside outside =>
    (within state good).2 cell inside (mt (covers cell) outside)⟩

/-- A loop stays within the region of its turns. -/
theorem Within.foldl {step : State → ι → State} {items : List ι}
    (within : ∀ item ∈ items, Within canvas region fun state => step state item) :
    Within canvas region fun state => items.foldl step state := by
  induction items with
  | nil => exact Within.none
  | cons item items ih =>
      exact (within item List.mem_cons_self).comp
        (ih fun other member => within other (List.mem_cons_of_mem _ member))

/-- Writing a cell stays within a region with the cell. -/
theorem Writes.within {place : Cell} {value : Bool} (writes : Writes canvas place value step)
    (covered : region place) : Within canvas region step := fun state good =>
  ⟨(writes state good).1, fun cell inside outside =>
    (writes state good).2.2 cell inside fun same => outside (same ▸ covered)⟩

end Within

section Flips

variable {first second region : Cell → Bool} {step next : State → State}

/-- A step flips the cells of a region, and changes no other. -/
def Flips (canvas : Canvas State Cell) (region : Cell → Bool) (step : State → State) : Prop :=
  ∀ state, canvas.good state → canvas.good (step state) ∧ ∀ cell, canvas.inside cell →
    canvas.look (step state) cell = (canvas.look state cell ^^ region cell)

private theorem Flips.comp (flips : Flips canvas first step) (then' : Flips canvas second next) :
    Flips canvas (fun cell => first cell ^^ second cell) (fun state => next (step state)) := by
  intro state good
  obtain ⟨kept, looks⟩ := flips state good
  obtain ⟨keptNext, looksNext⟩ := then' _ kept
  refine ⟨keptNext, fun cell inside => ?_⟩
  rw [looksNext cell inside, looks cell inside, Bool.xor_assoc]

private theorem Flips.none : Flips canvas (fun _ => false) (fun state => state) :=
  fun _ good => ⟨good, fun _ _ => (Bool.xor_false _).symm⟩

/-- The flipped region is known by its cells inside of the canvas. -/
theorem Flips.congr (flips : Flips canvas first step)
    (same : ∀ cell, canvas.inside cell → first cell = second cell) : Flips canvas second step := by
  intro state good
  obtain ⟨kept, looks⟩ := flips state good
  exact ⟨kept, fun cell inside => same cell inside ▸ looks cell inside⟩

/-- Flipping along a coordinate. -/
theorem Flips.foldl_range (coordinate : Cell → Nat) {step : State → Nat → State} {count : Nat}
    (flips : ∀ index < count, Flips canvas
      (fun cell => decide (coordinate cell = index) && region cell) fun state => step state index) :
    Flips canvas (fun cell => decide (coordinate cell < count) && region cell)
      fun state => (List.range count).foldl step state := by
  induction count with
  | zero =>
      simp only [Nat.not_lt_zero, decide_false, Bool.false_and]
      exact Flips.none
  | succ count ih =>
      have before := ih fun index less => flips index (Nat.lt_succ_of_lt less)
      have both := before.comp (flips count (Nat.lt_succ_self count))
      simp only [List.range_succ, List.foldl_append, List.foldl_cons, List.foldl_nil]
      have regions : (fun cell => decide (coordinate cell < count) && region cell ^^
          decide (coordinate cell = count) && region cell) =
          fun cell => decide (coordinate cell < count + 1) && region cell := by
        funext cell
        rcases Nat.lt_trichotomy (coordinate cell) count with less | same | more
        · simp [less, Nat.ne_of_lt less, Nat.lt_succ_of_lt less]
        · simp [same]
        · simp [Nat.not_lt_of_gt more, Nat.ne_of_gt more, Nat.not_lt.mpr more]
      rw [← regions]
      exact both

end Flips

/-- **Writing at different cells**: each shows what was written there. -/
theorem look_writes {place : ι → Cell} {value : ι → Bool} {step : State → ι → State}
    {items : List ι}
    (writes : ∀ item ∈ items, Writes canvas (place item) (value item) fun state => step state item)
    (inside : ∀ item ∈ items, canvas.inside (place item)) (apart : (items.map place).Nodup)
    {state : State} (good : canvas.good state) {item : ι} (member : item ∈ items) :
    canvas.look (items.foldl step state) (place item) = value item := by
  induction items generalizing state with
  | nil => cases member
  | cons head items ih =>
      obtain ⟨different, rest⟩ := List.nodup_cons.mp apart
      obtain ⟨kept, written, -⟩ := writes head List.mem_cons_self state good
      rcases List.mem_cons.mp member with rfl | later
      · have within : Within canvas (fun cell => cell ∈ items.map place)
            fun state => items.foldl step state :=
          Within.foldl fun other member => (writes other (List.mem_cons_of_mem _ member)).within
            (List.mem_map_of_mem member)
        exact ((within _ kept).2 _ (inside item List.mem_cons_self) different).trans written
      · exact ih (fun other member => writes other (List.mem_cons_of_mem _ member))
          (fun other member => inside other (List.mem_cons_of_mem _ member)) rest kept later

section Alike

variable {known : Cell → Prop} {region : Cell → Bool} {first second : State}

/-- Two states that show the same at the cells that are known. -/
structure Alike (canvas : Canvas State Cell) (known : Cell → Prop) (first second : State) :
    Prop where
  left : canvas.good first
  right : canvas.good second
  same : ∀ cell, canvas.inside cell → known cell → canvas.look first cell = canvas.look second cell

/-- Writing makes a cell known. -/
theorem Writes.alike {place : Cell} {value : Bool} {step : State → State}
    (writes : Writes canvas place value step) (alike : Alike canvas known first second) :
    Alike canvas (fun cell => known cell ∨ cell = place) (step first) (step second) := by
  obtain ⟨left, written, others⟩ := writes first alike.left
  obtain ⟨right, writtenAlso, othersAlso⟩ := writes second alike.right
  refine ⟨left, right, fun cell inside either => ?_⟩
  by_cases same : cell = place
  · rw [same, written, writtenAlso]
  · rw [others cell inside same, othersAlso cell inside same]
    exact alike.same cell inside (either.resolve_right same)

/-- A loop of writes makes two states alike where it writes. -/
theorem alike_foldl {place : ι → Cell} {value : ι → Bool} {step : State → ι → State}
    {items : List ι}
    (writes : ∀ item ∈ items, Writes canvas (place item) (value item) fun state => step state item)
    (alike : Alike canvas known first second) :
    Alike canvas (fun cell => known cell ∨ cell ∈ items.map place) (items.foldl step first)
      (items.foldl step second) := by
  induction items generalizing known first second with
  | nil =>
      refine ⟨alike.left, alike.right, fun cell inside either => alike.same cell inside ?_⟩
      exact either.resolve_right List.not_mem_nil
  | cons item items ih =>
      have next := ih (fun other member => writes other (List.mem_cons_of_mem _ member))
        ((writes item List.mem_cons_self).alike alike)
      refine ⟨next.left, next.right, fun cell inside either => next.same cell inside ?_⟩
      rw [List.map_cons, List.mem_cons] at either
      tauto

/-- Flipping keeps two states alike. -/
theorem Flips.alike {step : State → State} (flips : Flips canvas region step)
    (alike : Alike canvas known first second) :
    Alike canvas known (step first) (step second) := by
  obtain ⟨left, flipped⟩ := flips first alike.left
  obtain ⟨right, flippedAlso⟩ := flips second alike.right
  refine ⟨left, right, fun cell inside isKnown => ?_⟩
  rw [flipped cell inside, flippedAlso cell inside, alike.same cell inside isKnown]

end Alike

section Laying

variable {write : State → Cell → Bool → State} {bits : Nat → Bool} {count : Nat}

/-- Lay the next bit in a cell that is free. -/
def layBit (canvas : Canvas State Cell) (write : State → Cell → Bool → State) (bits : Nat → Bool)
    (count : Nat) (laid : State × Nat) (cell : Cell) : State × Nat :=
  if canvas.look laid.1 cell = false ∧ laid.2 < count then
    (write laid.1 cell (bits laid.2), laid.2 + 1)
  else laid

/-- Lay bits in the cells that are free. -/
def layBits (canvas : Canvas State Cell) (write : State → Cell → Bool → State) (bits : Nat → Bool)
    (count : Nat) (cells : List Cell) (laid : State × Nat) : State × Nat :=
  cells.foldl (layBit canvas write bits count) laid

/-- The cells that are free. -/
def free (canvas : Canvas State Cell) (state : State) (cells : List Cell) : List Cell :=
  cells.filter fun cell => !canvas.look state cell

/-- What laying bits leaves: the free cells have the bits in order, as long as there are any. -/
structure Laid (canvas : Canvas State Cell) (bits : Nat → Bool) (count : Nat) (cells : List Cell)
    (laid result : State × Nat) : Prop where
  good : canvas.good result.1
  total : result.2 = min count (laid.2 + (free canvas laid.1 cells).length)
  shown : ∀ index cell, (free canvas laid.1 cells)[index]? = some cell →
    canvas.look result.1 cell = (decide (laid.2 + index < count) && bits (laid.2 + index))
  untouched : ∀ cell, canvas.inside cell → cell ∉ free canvas laid.1 cells →
    canvas.look result.1 cell = canvas.look laid.1 cell

private theorem layBits_cons (head : Cell) (cells : List Cell) (laid : State × Nat) :
    layBits canvas write bits count (head :: cells) laid =
      layBits canvas write bits count cells (layBit canvas write bits count laid head) := rfl

/-- **Laying bits** in different cells. -/
theorem layBits_laid
    (writes : ∀ cell, canvas.inside cell → ∀ value,
      Writes canvas cell value fun state => write state cell value)
    {cells : List Cell} (inside : ∀ cell ∈ cells, canvas.inside cell) (apart : cells.Nodup)
    {laid : State × Nat} (good : canvas.good laid.1) (fewer : laid.2 ≤ count) :
    Laid canvas bits count cells laid (layBits canvas write bits count cells laid) := by
  induction cells generalizing laid with
  | nil => exact {
      good := good
      total := (Nat.min_eq_right fewer).symm
      shown := fun index cell found => by simp [free] at found
      untouched := fun _ _ _ => rfl }
  | cons head cells ih =>
      obtain ⟨different, rest⟩ := List.nodup_cons.mp apart
      have insideRest : ∀ cell ∈ cells, canvas.inside cell :=
        fun cell member => inside cell (List.mem_cons_of_mem _ member)
      have insideHead := inside head List.mem_cons_self
      rw [layBits_cons]
      by_cases taken : canvas.look laid.1 head = true
      · have skips : layBit canvas write bits count laid head = laid := by
          rw [layBit, if_neg fun both => by rw [both.1] at taken; cases taken]
        have shorter : free canvas laid.1 (head :: cells) = free canvas laid.1 cells := by
          rw [free, List.filter_cons, if_neg (by simp [taken]), free]
        rw [skips]
        have later := ih insideRest rest good fewer
        exact ⟨later.good, shorter ▸ later.total, shorter ▸ later.shown, shorter ▸ later.untouched⟩
      have white : canvas.look laid.1 head = false := by simpa using taken
      have longer : free canvas laid.1 (head :: cells) = head :: free canvas laid.1 cells := by
        rw [free, List.filter_cons, if_pos (by simp [white]), free]
      have notFree : head ∉ free canvas laid.1 cells :=
        fun member => different (List.mem_of_mem_filter member)
      by_cases full : laid.2 < count
      · obtain ⟨kept, written, others⟩ := writes head insideHead (bits laid.2) laid.1 good
        have lays : layBit canvas write bits count laid head =
            (write laid.1 head (bits laid.2), laid.2 + 1) := if_pos ⟨white, full⟩
        have same : free canvas (write laid.1 head (bits laid.2)) cells =
            free canvas laid.1 cells := by
          refine List.filter_congr fun cell member => ?_
          rw [others cell (insideRest cell member) fun equal => different (equal ▸ member)]
        rw [lays]
        have later : Laid canvas bits count cells (write laid.1 head (bits laid.2), laid.2 + 1)
            (layBits canvas write bits count cells
              (write laid.1 head (bits laid.2), laid.2 + 1)) :=
          ih insideRest rest kept full
        obtain ⟨goodLast, total, shown, untouched⟩ := later
        dsimp only at total shown untouched
        rw [same] at total shown untouched
        refine ⟨goodLast, ?_, fun index cell found => ?_, fun cell insideCell outside => ?_⟩
        · rw [total, longer, List.length_cons]
          congr 1
          omega
        · rw [longer] at found
          cases index with
          | zero =>
              obtain rfl : head = cell := Option.some.inj found
              rw [untouched head insideHead notFree, written, Nat.add_zero, decide_eq_true full,
                Bool.true_and]
          | succ index =>
              rw [shown index cell found, Nat.add_right_comm, Nat.add_assoc]
        · rw [longer] at outside
          rw [untouched cell insideCell fun member => outside (List.mem_cons_of_mem _ member),
            others cell insideCell fun equal => outside (equal ▸ List.mem_cons_self)]
      · have stays : layBit canvas write bits count laid head = laid :=
          if_neg fun both => full both.2
        rw [stays]
        obtain ⟨goodLast, total, shown, untouched⟩ := ih insideRest rest good fewer
        refine ⟨goodLast, ?_, fun index cell found => ?_, fun cell insideCell outside => ?_⟩
        · rw [total, longer, List.length_cons]
          omega
        · rw [longer] at found
          cases index with
          | zero =>
              obtain rfl : head = cell := Option.some.inj found
              rw [untouched head insideHead notFree, white, Nat.add_zero, decide_eq_false full,
                Bool.false_and]
          | succ index =>
              rw [shown index cell found, decide_eq_false (by omega), decide_eq_false (by omega),
                Bool.false_and, Bool.false_and]
        · rw [longer] at outside
          exact untouched cell insideCell fun member => outside (List.mem_cons_of_mem _ member)

end Laying

end Painting
