import Mathlib.Logic.Basic
import Mathlib.Tactic.Common

/-! # Procedures that raise and lose power

A procedure transforms a state and ends with a value, with an exception, or with
the power lost. An exception can be caught; a power loss cannot, and the state it
leaves behind is the one reached at that point. An assertion about a procedure
(`Effect.Proc.Holds`) therefore speaks about the outcome and the state together,
and the rules below follow the way a procedure is put together.
-/

namespace Effect

/-- A result is passed on. -/
@[simp] theorem ok_bind {ε α β : Type} (value : α) (next : α → Except ε β) :
    ((.ok value : Except ε α) >>= next) = next value := rfl

/-- An operation that raises for no item maps all of them. -/
theorem mapM_ok {ε α β : Type} {operation : α → Except ε β} {value : α → β} {items : List α}
    (each : ∀ item ∈ items, operation item = .ok (value item)) :
    items.mapM operation = .ok (items.map value) := by
  induction items with
  | nil => rfl
  | cons item items ih =>
      rw [List.mapM_cons, each item List.mem_cons_self,
        ih fun other member => each other (List.mem_cons_of_mem _ member)]
      rfl

section Lookup

variable {α β : Type} {lookup : α → Option β} {items : List α} {values : List β}

/-- Every item is looked up. -/
theorem mapM_eq_some_iff :
    items.mapM lookup = some values ↔ items.map lookup = values.map some := by
  induction items generalizing values with
  | nil => cases values <;> simp
  | cons item items ih =>
      rw [List.mapM_cons, List.map_cons]
      cases found : lookup item with
      | none => cases values <;> simp
      | some value =>
          cases rest : items.mapM lookup with
          | none =>
              have never : ∀ later : List β, items.map lookup ≠ later.map some := by
                intro later same
                rw [ih.mpr same] at rest
                cases rest
              cases values with
              | nil => simp
              | cons first later => simpa using fun _ => never later
          | some found =>
              cases values with
              | nil => simp
              | cons first later => simp [← @ih later, rest]

/-- When an item is not looked up, there is a first one. -/
theorem exists_of_mapM_none (missing : items.mapM lookup = none) :
    ∃ front item back values, items = front ++ item :: back ∧ front.mapM lookup = some values ∧
      lookup item = none := by
  induction items with
  | nil => cases missing
  | cons item items ih =>
      cases found : lookup item with
      | none => exact ⟨[], item, items, [], rfl, rfl, found⟩
      | some value =>
          rw [List.mapM_cons, found] at missing
          cases rest : items.mapM lookup with
          | some values =>
              rw [rest] at missing
              cases missing
          | none =>
              obtain ⟨front, last, back, values, rfl, known, absent⟩ := ih rest
              refine ⟨item :: front, last, back, value :: values, rfl, ?_, absent⟩
              rw [List.mapM_cons, found, known]
              rfl

variable {ε : Type} {operation : α → Except ε β} {exn : α → ε}

/-- An operation that raises what is not looked up returns what is. -/
theorem mapM_of_lookup (same : ∀ item, operation item = (lookup item).elim (.error (exn item)) .ok)
    (known : items.mapM lookup = some values) : items.mapM operation = .ok values := by
  have looked := mapM_eq_some_iff.mp known
  induction items generalizing values with
  | nil =>
      rw [List.map_eq_nil_iff.mp looked.symm]
      rfl
  | cons item items ih =>
      cases values with
      | nil => cases looked
      | cons value values =>
          obtain ⟨first, rest⟩ := List.cons.inj looked
          rw [List.mapM_cons, same, first, ih (mapM_eq_some_iff.mpr rest) rest]
          rfl

/-- Where a look-up fails for some item, the operation raises for one. -/
theorem mapM_raises (same : ∀ item, operation item = (lookup item).elim (.error (exn item)) .ok)
    (missing : items.mapM lookup = none) : ∃ item, items.mapM operation = .error (exn item) := by
  obtain ⟨front, item, back, values, rfl, known, absent⟩ := exists_of_mapM_none missing
  refine ⟨item, ?_⟩
  rw [List.mapM_append, mapM_of_lookup same known, ok_bind, List.mapM_cons, same, absent]
  rfl

end Lookup

/-- What follows an exception is not run. -/
@[simp] theorem error_bind {ε α β : Type} (exn : ε) (next : α → Except ε β) :
    ((.error exn : Except ε α) >>= next) = .error exn := rfl

/-- A pure sequence returns a value when both parts do. -/
theorem bind_eq_ok {ε α β : Type} {first : Except ε α} {next : α → Except ε β} {value : β} :
    (first >>= next) = .ok value ↔ ∃ middle, first = .ok middle ∧ next middle = .ok value := by
  cases first with
  | error exn =>
      constructor
      · intro same
        cases same
      · rintro ⟨_, same, _⟩
        cases same
  | ok middle =>
      constructor
      · intro same
        exact ⟨middle, rfl, same⟩
      · rintro ⟨_, same, done⟩
        cases same
        exact done

/-- A loop over a range ends in what its turns keep. -/
theorem foldlM_range {ε β : Type} {turn : β → Nat → Except ε β} (Kept : Nat → β → Prop)
    {count : Nat} {start : β} (begins : Kept 0 start)
    (next : ∀ index < count, ∀ state, Kept index state →
      ∃ after, turn state index = .ok after ∧ Kept (index + 1) after) :
    ∃ final, (List.range count).foldlM turn start = .ok final ∧ Kept count final := by
  induction count with
  | zero => exact ⟨start, rfl, begins⟩
  | succ count ih =>
      obtain ⟨middle, ran, kept⟩ := ih fun index less => next index (Nat.lt_succ_of_lt less)
      obtain ⟨after, last, keptAfter⟩ := next count (Nat.lt_succ_self count) middle kept
      refine ⟨after, ?_, keptAfter⟩
      rw [List.range_succ, List.foldlM_append, ran, ok_bind, List.foldlM_cons, last]
      rfl

/-- How a procedure ends. -/
inductive Outcome (Exn Value : Type) where
  | ok (value : Value)
  | raised (exn : Exn)
  | off
  deriving DecidableEq

/-- Change the value a procedure ends with. -/
def Outcome.map {Exn α β : Type} (change : α → β) : Outcome Exn α → Outcome Exn β
  | .ok value => .ok (change value)
  | .raised exn => .raised exn
  | .off => .off

/-- A procedure over a state. -/
def Proc (State Exn Value : Type) : Type := State → Outcome Exn Value × State

namespace Proc

variable {State Exn α β : Type}

instance : Monad (Proc State Exn) where
  pure value := fun state => (.ok value, state)
  bind first next := fun state =>
    match first state with
    | (.ok value, middle) => next value middle
    | (.raised exn, middle) => (.raised exn, middle)
    | (.off, middle) => (.off, middle)

/-- Raise an exception. -/
def throw (exn : Exn) : Proc State Exn α := fun state => (.raised exn, state)

/-- The power is lost. -/
def off : Proc State Exn α := fun state => (.off, state)

/-- Read the state. -/
def get : Proc State Exn State := fun state => (.ok state, state)

/-- Change the state. -/
def modify (change : State → State) : Proc State Exn Unit := fun state => (.ok (), change state)

/-- Run a body and, when it raises, the handler of the exception. -/
def tryExcept (body : Proc State Exn α) (handler : Exn → Proc State Exn α) : Proc State Exn α :=
  fun state =>
    match body state with
    | (.raised exn, middle) => handler exn middle
    | other => other

/-- A pure computation that may raise. -/
def ofExcept : Except Exn α → Proc State Exn α
  | .ok value => pure value
  | .error exn => throw exn

/-- Repeat a body at most `count` times, until it returns a value; `exhausted`
runs when it never does. -/
def loop (body : Proc State Exn (Option α)) (exhausted : Proc State Exn α) :
    Nat → Proc State Exn α
  | 0 => exhausted
  | count + 1 => do
      match ← body with
      | some value => pure value
      | none => loop body exhausted count

section Evaluation

variable {state middle : State}

/-- A result leaves the state. -/
@[simp] theorem pure_apply (value : α) :
    (pure value : Proc State Exn α) state = (.ok value, state) := rfl

/-- Raising leaves the state. -/
@[simp] theorem throw_apply (exn : Exn) :
    (throw exn : Proc State Exn α) state = (.raised exn, state) := rfl

@[simp] theorem off_apply : (off : Proc State Exn α) state = (.off, state) := rfl

/-- Reading the state leaves it. -/
@[simp] theorem get_apply : (get : Proc State Exn State) state = (.ok state, state) := rfl

/-- Changing the state always succeeds. -/
@[simp] theorem modify_apply (change : State → State) :
    (modify change : Proc State Exn Unit) state = (.ok (), change state) := rfl

/-- A result without effect. -/
@[simp] theorem ofExcept_ok (value : α) :
    (ofExcept (.ok value) : Proc State Exn α) = pure value := rfl

/-- An exception without effect. -/
@[simp] theorem ofExcept_error (exn : Exn) :
    (ofExcept (.error exn) : Proc State Exn α) = throw exn := rfl

/-- What follows a step that returned. -/
theorem bind_ok {first : Proc State Exn α} {next : α → Proc State Exn β} {value : α}
    (ran : first state = (.ok value, middle)) : (first >>= next) state = next value middle := by
  change (match first state with
    | (.ok value, middle) => next value middle
    | (.raised exn, middle) => (.raised exn, middle)
    | (.off, middle) => (.off, middle)) = _
  rw [ran]

/-- A step that raised ends the sequence. -/
theorem bind_raised {first : Proc State Exn α} {next : α → Proc State Exn β} {exn : Exn}
    (ran : first state = (.raised exn, middle)) :
    (first >>= next) state = (.raised exn, middle) := by
  change (match first state with
    | (.ok value, middle) => next value middle
    | (.raised exn, middle) => (.raised exn, middle)
    | (.off, middle) => (.off, middle)) = _
  rw [ran]

/-- A step in which the power was cut ends the sequence. -/
theorem bind_off {first : Proc State Exn α} {next : α → Proc State Exn β}
    (ran : first state = (.off, middle)) : (first >>= next) state = (.off, middle) := by
  change (match first state with
    | (.ok value, middle) => next value middle
    | (.raised exn, middle) => (.raised exn, middle)
    | (.off, middle) => (.off, middle)) = _
  rw [ran]

/-- A sequence ends where its first part does not return. -/
instance : LawfulMonad (Proc State Exn) := by
  refine LawfulMonad.mk' _ ?_ (fun _ _ => rfl) ?_
  · intro α body
    funext state
    change (body >>= fun value => pure value) state = _
    cases ran : body state with
    | mk outcome middle =>
        cases outcome with
        | ok value => rw [bind_ok ran, pure_apply]
        | raised exn => rw [bind_raised ran]
        | off => rw [bind_off ran]
  · intro α β γ body first second
    funext state
    cases ran : body state with
    | mk outcome middle =>
        cases outcome with
        | ok value =>
            rw [bind_ok ran]
            cases next : first value middle with
            | mk outcome after =>
                have both : (body >>= first) state = (outcome, after) := (bind_ok ran).trans next
                cases outcome with
                | ok value => rw [bind_ok both, bind_ok next]
                | raised exn => rw [bind_raised both, bind_raised next]
                | off => rw [bind_off both, bind_off next]
        | raised exn => rw [bind_raised (bind_raised ran), bind_raised ran]
        | off => rw [bind_off (bind_off ran), bind_off ran]

/-- A body that returned needs no handler. -/
theorem tryExcept_ok {body : Proc State Exn α} {handler : Exn → Proc State Exn α} {value : α}
    (ran : body state = (.ok value, middle)) :
    tryExcept body handler state = (.ok value, middle) := by
  rw [tryExcept, ran]

/-- A body that raised is handled. -/
theorem tryExcept_raised {body : Proc State Exn α} {handler : Exn → Proc State Exn α} {exn : Exn}
    (ran : body state = (.raised exn, middle)) :
    tryExcept body handler state = handler exn middle := by
  rw [tryExcept, ran]

/-- Nothing handles a cut. -/
theorem tryExcept_off {body : Proc State Exn α} {handler : Exn → Proc State Exn α}
    (ran : body state = (.off, middle)) : tryExcept body handler state = (.off, middle) := by
  rw [tryExcept, ran]

/-- A turn that returns a result ends the loop. -/
theorem loop_done {body : Proc State Exn (Option α)} {exhausted : Proc State Exn α} {count : Nat}
    {value : α} (ran : body state = (.ok (some value), middle)) :
    loop body exhausted (count + 1) state = (.ok value, middle) := by
  rw [loop, bind_ok ran]
  rfl

end Evaluation

/-- The outcome of a procedure and the state it leaves satisfy an assertion. -/
def Holds (body : Proc State Exn α) (state : State)
    (post : Outcome Exn α → State → Prop) : Prop :=
  post (body state).1 (body state).2

section Rules

variable {state : State} {post : Outcome Exn α → State → Prop}

/-- The postcondition can be weakened. -/
theorem Holds.mono {body : Proc State Exn α} {weaker : Outcome Exn α → State → Prop}
    (valid : Holds body state post) (implies : ∀ outcome after, post outcome after →
      weaker outcome after) : Holds body state weaker :=
  implies _ _ valid

/-- Two postconditions hold together. -/
theorem Holds.and {body : Proc State Exn α} {other : Outcome Exn α → State → Prop}
    (first : Holds body state post) (second : Holds body state other) :
    Holds body state fun outcome after => post outcome after ∧ other outcome after :=
  ⟨first, second⟩

/-- An assertion about a sequence: the first part establishes what the second
needs when it returns, and the whole assertion when it does not. -/
theorem Holds.bind {first : Proc State Exn α} {next : α → Proc State Exn β}
    {whole : Outcome Exn β → State → Prop} (valid : Holds first state post)
    (returned : ∀ value after, post (.ok value) after → Holds (next value) after whole)
    (raised : ∀ exn after, post (.raised exn) after → whole (.raised exn) after)
    (lost : ∀ after, post .off after → whole .off after) :
    Holds (first >>= next) state whole := by
  unfold Holds at valid ⊢
  cases ran : first state with
  | mk outcome middle =>
      rw [ran] at valid
      cases outcome with
      | ok value => rw [bind_ok ran]; exact returned value middle valid
      | raised exn => rw [bind_raised ran]; exact raised exn middle valid
      | off => rw [bind_off ran]; exact lost middle valid

/-- A first part whose result is known. -/
theorem Holds.bind_ok {first : Proc State Exn α} {next : α → Proc State Exn β} {value : α}
    {middle : State} {whole : Outcome Exn β → State → Prop}
    (ran : first state = (.ok value, middle)) (valid : Holds (next value) middle whole) :
    Holds (first >>= next) state whole := by
  unfold Holds
  rw [Proc.bind_ok ran]
  exact valid

/-- A sequence whose first step raised. -/
theorem Holds.bind_raised {first : Proc State Exn α} {next : α → Proc State Exn β} {exn : Exn}
    {middle : State} {whole : Outcome Exn β → State → Prop}
    (ran : first state = (.raised exn, middle)) (valid : whole (.raised exn) middle) :
    Holds (first >>= next) state whole := by
  unfold Holds
  rw [Proc.bind_raised ran]
  exact valid

/-- A sequence that was cut in its first step. -/
theorem Holds.bind_off {first : Proc State Exn α} {next : α → Proc State Exn β} {middle : State}
    {whole : Outcome Exn β → State → Prop} (ran : first state = (.off, middle))
    (valid : whole .off middle) : Holds (first >>= next) state whole := by
  unfold Holds
  rw [Proc.bind_off ran]
  exact valid

/-- An assertion about a body whose value is changed afterwards. -/
theorem Holds.map {body : Proc State Exn α} {change : α → β} (valid : Holds body state post) :
    Holds (change <$> body) state (fun outcome after =>
      ∃ inner, post inner after ∧ outcome = inner.map change) := by
  change Holds (body >>= fun value => pure (change value)) state _
  refine Holds.bind valid ?_ ?_ ?_
  · exact fun value _ done => ⟨.ok value, done, rfl⟩
  · exact fun exn _ failed => ⟨.raised exn, failed, rfl⟩
  · exact fun _ lost => ⟨.off, lost, rfl⟩

/-- An assertion about a body with a handler: exceptions continue in the handler,
a power loss does not. -/
theorem Holds.tryExcept {body : Proc State Exn α} {handler : Exn → Proc State Exn α}
    {whole : Outcome Exn α → State → Prop} (valid : Holds body state post)
    (returned : ∀ value after, post (.ok value) after → whole (.ok value) after)
    (raised : ∀ exn after, post (.raised exn) after → Holds (handler exn) after whole)
    (lost : ∀ after, post .off after → whole .off after) :
    Holds (tryExcept body handler) state whole := by
  unfold Holds at valid ⊢
  cases ran : body state with
  | mk outcome middle =>
      rw [ran] at valid
      cases outcome with
      | ok value => rw [tryExcept_ok ran]; exact returned value middle valid
      | raised exn => rw [tryExcept_raised ran]; exact raised exn middle valid
      | off => rw [tryExcept_off ran]; exact lost middle valid

/-- The rule of the loop: the invariant holds before every turn. -/
theorem Holds.loop {body : Proc State Exn (Option α)} {exhausted : Proc State Exn α}
    (invariant : State → Prop)
    (turn : ∀ before, invariant before → Holds body before (fun outcome after =>
      match outcome with
      | .ok (some value) => post (.ok value) after
      | .ok none => invariant after
      | .raised exn => post (.raised exn) after
      | .off => post .off after))
    (finish : ∀ before, invariant before → Holds exhausted before post) (count : Nat)
    (initial : invariant state) : Holds (loop body exhausted count) state post := by
  induction count generalizing state with
  | zero => exact finish state initial
  | succ count ih =>
      refine Holds.bind (turn state initial) ?_ (fun _ _ done => done) (fun _ done => done)
      intro value after done
      cases value with
      | some value => exact done
      | none => exact ih done

end Rules

/-- A procedure keeps a property of the state, however it ends. -/
def Keeps (property : State → Prop) (body : Proc State Exn α) : Prop :=
  ∀ state, property state → Holds body state (fun _ after => property after)

section Keeps

variable {property : State → Prop}

/-- Returning keeps a property. -/
theorem Keeps.pure (value : α) : Keeps property (pure value : Proc State Exn α) :=
  fun _ holds => holds

/-- Raising keeps a property. -/
theorem Keeps.throw (exn : Exn) : Keeps property (throw exn : Proc State Exn α) :=
  fun _ holds => holds

/-- A cut keeps a property. -/
theorem Keeps.off : Keeps property (off : Proc State Exn α) :=
  fun _ holds => holds

/-- A change that keeps a property. -/
theorem Keeps.modify {change : State → State} (kept : ∀ state, property state →
    property (change state)) : Keeps property (modify change : Proc State Exn Unit) :=
  kept

/-- What has no effect keeps a property. -/
theorem Keeps.ofExcept (result : Except Exn α) :
    Keeps property (ofExcept result : Proc State Exn α) := by
  cases result with
  | ok value => exact Keeps.pure value
  | error exn => exact Keeps.throw exn

/-- A choice keeps what both branches keep. -/
theorem Keeps.ite {condition : Prop} [Decidable condition] {yes no : Proc State Exn α}
    (begins : Keeps property yes) (otherwise : Keeps property no) :
    Keeps property (if condition then yes else no) := by
  split
  · exact begins
  · exact otherwise

/-- A sequence keeps what its steps keep. -/
theorem Keeps.bind {first : Proc State Exn α} {next : α → Proc State Exn β}
    (begins : Keeps property first) (continues : ∀ value, Keeps property (next value)) :
    Keeps property (first >>= next) := fun state holds =>
  Holds.bind (begins state holds) (fun value after kept => continues value after kept)
    (fun _ _ kept => kept) (fun _ kept => kept)

/-- A handled body keeps what it and its handler keep. -/
theorem Keeps.tryExcept {body : Proc State Exn α} {handler : Exn → Proc State Exn α}
    (begins : Keeps property body) (handled : ∀ exn, Keeps property (handler exn)) :
    Keeps property (tryExcept body handler) := fun state holds =>
  Holds.tryExcept (begins state holds) (fun _ _ kept => kept)
    (fun exn after kept => handled exn after kept) (fun _ kept => kept)

/-- Changing the result keeps what the body keeps. -/
theorem Keeps.map {body : Proc State Exn α} (change : α → β) (begins : Keeps property body) :
    Keeps property (change <$> body) :=
  begins.bind fun value => Keeps.pure (change value)

/-- A loop over items keeps what each turn keeps. -/
theorem Keeps.forM {Item : Type} {body : Item → Proc State Exn Unit}
    (turn : ∀ item, Keeps property (body item)) (items : List Item) :
    Keeps property (items.forM body) := by
  induction items with
  | nil => exact Keeps.pure _
  | cons item rest ih => exact (turn item).bind fun _ => ih

/-- A loop keeps what a turn and its end keep. -/
theorem Keeps.loop {body : Proc State Exn (Option α)} {exhausted : Proc State Exn α}
    (turn : Keeps property body) (finish : Keeps property exhausted) (count : Nat) :
    Keeps property (loop body exhausted count) := by
  intro state holds
  refine Holds.loop property (fun before kept => ?_) finish count holds
  refine (turn before kept).mono (fun outcome after kept => ?_)
  rcases outcome with (_ | _) | _ | _ <;> exact kept

end Keeps

/-- The property that is left: one unless the power is lost, and then another one. -/
def guarded (kept lost : State → Prop) (outcome : Outcome Exn α) (after : State) : Prop :=
  match outcome with
  | .off => lost after
  | _ => kept after

/-- A procedure keeps a property unless the power is lost in it, and then leaves another
one. -/
def Guards (kept lost : State → Prop) (body : Proc State Exn α) : Prop :=
  ∀ state, kept state → Holds body state (guarded kept lost)

section Guards

variable {kept lost : State → Prop}

/-- Where the property is kept, the guard holds whatever the outcome is. -/
theorem guarded_of_kept (still : ∀ state, kept state → lost state) {outcome : Outcome Exn α}
    {after : State} (holds : kept after) : guarded kept lost outcome after := by
  cases outcome with
  | ok value => exact holds
  | raised exn => exact holds
  | off => exact still after holds

/-- Returning guards a property. -/
theorem Guards.pure (value : α) : Guards kept lost (pure value : Proc State Exn α) :=
  fun _ holds => holds

/-- Raising guards a property. -/
theorem Guards.throw (exn : Exn) : Guards kept lost (throw exn : Proc State Exn α) :=
  fun _ holds => holds

/-- A cut guards a property that implies the weaker one. -/
theorem Guards.off (still : ∀ state, kept state → lost state) :
    Guards kept lost (off : Proc State Exn α) :=
  still

/-- A sequence guards what its steps guard. -/
theorem Guards.bind {first : Proc State Exn α} {next : α → Proc State Exn β}
    (begins : Guards kept lost first) (continues : ∀ value, Guards kept lost (next value)) :
    Guards kept lost (first >>= next) := fun state holds =>
  Holds.bind (begins state holds) (fun value after kept => continues value after kept)
    (fun _ _ kept => kept) (fun _ lost => lost)

/-- A handled body guards what it and its handler guard. -/
theorem Guards.tryExcept {body : Proc State Exn α} {handler : Exn → Proc State Exn α}
    (begins : Guards kept lost body) (handled : ∀ exn, Guards kept lost (handler exn)) :
    Guards kept lost (tryExcept body handler) := fun state holds =>
  Holds.tryExcept (begins state holds) (fun _ _ kept => kept)
    (fun exn after kept => handled exn after kept) (fun _ lost => lost)

/-- A loop guards what a turn and its end guard. -/
theorem Guards.loop {body : Proc State Exn (Option α)} {exhausted : Proc State Exn α}
    (turn : Guards kept lost body) (finish : Guards kept lost exhausted) (count : Nat) :
    Guards kept lost (loop body exhausted count) := by
  intro state holds
  refine Holds.loop kept (fun before held => ?_) finish count holds
  refine (turn before held).mono (fun outcome after result => ?_)
  rcases outcome with (_ | _) | _ | _ <;> exact result

/-- A choice guards what both branches guard. -/
theorem Guards.ite {condition : Prop} [Decidable condition] {yes no : Proc State Exn α}
    (begins : Guards kept lost yes) (otherwise : Guards kept lost no) :
    Guards kept lost (if condition then yes else no) := by
  split
  · exact begins
  · exact otherwise

/-- Changing the result guards what the body guards. -/
theorem Guards.map {body : Proc State Exn α} (change : α → β) (begins : Guards kept lost body) :
    Guards kept lost (change <$> body) :=
  begins.bind fun value => Guards.pure (change value)

/-- A loop over items guards what each turn guards. -/
theorem Guards.forM {Item : Type} {body : Item → Proc State Exn Unit}
    (turn : ∀ item, Guards kept lost (body item)) (items : List Item) :
    Guards kept lost (items.forM body) := by
  induction items with
  | nil => exact Guards.pure _
  | cons item rest ih => exact (turn item).bind fun _ => ih

/-- A procedure leads from one property to another when it returns, keeps the first when it
raises, and leaves a third when the power is lost in it. -/
def Leads (kept goal lost : State → Prop) (body : Proc State Exn α) : Prop :=
  ∀ state, kept state → Holds body state fun outcome after =>
    match outcome with
    | .ok _ => goal after
    | .raised _ => kept after
    | .off => lost after

variable {goal : State → Prop}

/-- What guards a property leads to it. -/
theorem Guards.leads {body : Proc State Exn α} (guards : Guards kept lost body) :
    Leads kept kept lost body := by
  intro state holds
  refine (guards state holds).mono fun outcome after result => ?_
  cases outcome <;> exact result

/-- What leads from a property to a stronger one guards it. -/
theorem Leads.guards {body : Proc State Exn α} (leads : Leads kept goal lost body)
    (weaker : ∀ state, goal state → kept state) : Guards kept lost body := by
  intro state holds
  refine (leads state holds).mono fun outcome after result => ?_
  cases outcome with
  | ok value => exact weaker after result
  | raised exn => exact result
  | off => exact result

/-- What follows a procedure that leads to a property has to keep that property. -/
theorem Leads.bind {first : Proc State Exn α} {next : α → Proc State Exn β}
    (leads : Leads kept goal lost first) (weaker : ∀ state, goal state → kept state)
    (continues : ∀ value, Guards goal lost (next value)) :
    Leads kept goal lost (first >>= next) := by
  intro state holds
  refine Holds.bind (leads state holds) ?_ (fun _ _ kept => kept) (fun _ lost => lost)
  intro value middle reached
  refine (continues value middle reached).mono fun outcome after result => ?_
  cases outcome with
  | ok value => exact result
  | raised exn => exact weaker after result
  | off => exact result

/-- A procedure that leads to a property, after one that keeps what it starts from. -/
theorem Guards.bind_leads {first : Proc State Exn α} {next : α → Proc State Exn β}
    (begins : Guards kept lost first) (continues : ∀ value, Leads kept goal lost (next value)) :
    Leads kept goal lost (first >>= next) := fun state holds =>
  Holds.bind (begins state holds) (fun value after kept => continues value after kept)
    (fun _ _ kept => kept) (fun _ lost => lost)

end Guards

end Proc

end Effect
