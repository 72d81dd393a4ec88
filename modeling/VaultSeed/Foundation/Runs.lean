import Mathlib.Logic.Basic
import Mathlib.Tactic.Common

/-! # Runs with a record kept beside them

A run folds a step function over its inputs. Beside the states one can keep a record
of what happened (`Runs.track`), which does not influence the run, and ask every
input to be allowed where it occurs (`Runs.Along`). What each step keeps, a run keeps.
-/

namespace Runs

variable {State Input Record : Type} (step : State → Input → State)

/-- A run and its record. -/
def track (note : Record → State → Input → State → Record) (start : State × Record)
    (inputs : List Input) : State × Record :=
  inputs.foldl (fun now input =>
    (step now.1 input, note now.2 now.1 input (step now.1 input))) start

/-- Every input is allowed in the state in which it occurs. -/
def Along (allowed : State → Input → Prop) : State → List Input → Prop
  | _, [] => True
  | state, input :: rest => allowed state input ∧ Along allowed (step state input) rest

variable {step} {note : Record → State → Input → State → Record}

/-- The record does not influence the run. -/
theorem track_fst (start : State × Record) (inputs : List Input) :
    (track step note start inputs).1 = inputs.foldl step start.1 := by
  induction inputs generalizing start with
  | nil => rfl
  | cons input rest ih => exact ih _

/-- A run goes on from where its first part ended. -/
theorem track_append (start : State × Record) (first second : List Input) :
    track step note start (first ++ second) =
      track step note (track step note start first) second :=
  List.foldl_append

/-- What every allowed step keeps of a state and its record, a run keeps. -/
theorem track_invariant {allowed : State → Input → Prop} {invariant : State → Record → Prop}
    (kept : ∀ state record input, allowed state input → invariant state record →
      invariant (step state input) (note record state input (step state input)))
    (start : State × Record) (inputs : List Input) (along : Along step allowed start.1 inputs)
    (initial : invariant start.1 start.2) :
    invariant (track step note start inputs).1 (track step note start inputs).2 := by
  induction inputs generalizing start with
  | nil => exact initial
  | cons input rest ih => exact ih _ along.2 (kept _ _ _ along.1 initial)

/-- What every allowed step keeps of a state, a run keeps. -/
theorem foldl_invariant {allowed : State → Input → Prop} {invariant : State → Prop}
    (kept : ∀ state input, allowed state input → invariant state → invariant (step state input))
    (start : State) (inputs : List Input) (along : Along step allowed start inputs)
    (initial : invariant start) : invariant (inputs.foldl step start) := by
  induction inputs generalizing start with
  | nil => exact initial
  | cons input rest ih => exact ih _ along.2 (kept _ _ along.1 initial)

/-- Inputs that are allowed everywhere are allowed along every run. -/
theorem along_of_forall {allowed : State → Input → Prop} (start : State) (inputs : List Input)
    (all : ∀ input ∈ inputs, ∀ state, allowed state input) : Along step allowed start inputs := by
  induction inputs generalizing start with
  | nil => trivial
  | cons input rest ih =>
      exact ⟨all input List.mem_cons_self start, ih _ fun other member =>
        all other (List.mem_cons_of_mem _ member)⟩

/-- What holds of every input holds along every run. -/
theorem Along.and_forall {allowed : State → Input → Prop} {extra : Input → Prop} {start : State}
    {inputs : List Input} (along : Along step allowed start inputs)
    (all : ∀ input ∈ inputs, extra input) :
    Along step (fun state input => allowed state input ∧ extra input) start inputs := by
  induction inputs generalizing start with
  | nil => trivial
  | cons input rest ih =>
      exact ⟨⟨along.1, all input List.mem_cons_self⟩, ih along.2 fun other member =>
        all other (List.mem_cons_of_mem _ member)⟩

end Runs
