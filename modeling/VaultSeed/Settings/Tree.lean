import VaultSeed.Settings.Store

/-! # Walks in the settings tree

What stands at a path of a tree, and what the walks of `set` and `delete` do to it: they
change one path, keep every path beside it, and leave no empty dictionary on their way
(`setIn_spec`, `deleteIn_spec`).
-/

namespace VaultSeed.Settings

open Python

/-- What stands at a path. -/
def reach : List Text → Json → Option Json
  | [], value => some value
  | key :: path, .object members => (members.lookup key).bind (reach path)
  | _ :: _, _ => none

/-- Two paths beside each other. -/
def Apart (first second : List Text) : Prop := ¬ first <+: second ∧ ¬ second <+: first

/-- Nothing, or a dictionary that is not empty. -/
def Branch (node : Option Json) : Prop :=
  ∀ value, node = some value → ∃ members, members ≠ [] ∧ value = .object members

/-- A tree that can be walked along the levels and has no empty dictionary there. -/
structure Settled (levels : List Text) (tree : Json) : Prop where
  root : ∃ members, tree = .object members
  inner : ∀ path, path <+: levels → path ≠ [] → Branch (reach path tree)

section Paths

variable {level name : Text} {levels path : List Text} {members : List (Text × Json)} {value : Json}

@[simp] theorem reach_nil (value : Json) : reach [] value = some value := rfl

/-- A path goes on at the member of its first key. -/
@[simp] theorem reach_object (key : Text) (path : List Text) (members : List (Text × Json)) :
    reach (key :: path) (.object members) = (members.lookup key).bind (reach path) := rfl

/-- Nothing is reached in an empty object. -/
theorem reach_empty (nonempty : path ≠ []) : reach path (.object []) = none := by
  cases path with
  | nil => exact absurd rfl nonempty
  | cons key path => rfl

/-- Below a level there is what there is below the dictionary that `get` or `set` walks into. -/
theorem reach_child (nonempty : path ≠ []) :
    reach path (child level members) = reach (level :: path) (.object members) := by
  rw [child, reach_object]
  cases members.lookup level with
  | none => exact reach_empty nonempty
  | some below => rfl

@[simp] theorem reach_put_self (below : Json) :
    reach (level :: path) (.object (Dict.put level below members)) = reach path below := by
  rw [reach_object, Dict.lookup_put_self, Option.bind_some]

private theorem reach_put_of_ne {key : Text} (differs : key ≠ level) (below : Json) :
    reach (key :: path) (.object (Dict.put level below members)) =
      reach (key :: path) (.object members) := by
  rw [reach_object, reach_object, Dict.lookup_put_of_ne differs]

private theorem reach_remove_of_ne {key : Text} (differs : key ≠ level) :
    reach (key :: path) (.object (Dict.remove level members)) =
      reach (key :: path) (.object members) := by
  rw [reach_object, reach_object, Dict.lookup_remove_of_ne differs]

@[simp] theorem reach_remove_self :
    reach (level :: path) (.object (Dict.remove level members)) = none := by
  rw [reach_object, Dict.lookup_remove_self, Option.bind_none]

private theorem apart_cons_iff {first second : List Text} :
    Apart (level :: first) (level :: second) ↔ Apart first second := by
  simp [Apart]

private theorem Apart.ne_nil (apart : Apart path levels) : path ≠ [] := by
  intro empty
  apply apart.1
  rw [empty]
  exact List.nil_prefix

/-- A dictionary with something in it is there. -/
theorem lookup_of_child {inside : List (Text × Json)} (filled : inside ≠ [])
    (walked : child level members = .object inside) :
    members.lookup level = some (child level members) := by
  cases found : members.lookup level with
  | none =>
      rw [child, found, Option.getD_none] at walked
      cases walked
      exact absurd rfl filled
  | some below =>
      rw [child, found]
      rfl

/-- Below a settled object the rest of the path is settled. -/
theorem Settled.child_settled (settled : Settled (level :: levels) (.object members)) :
    Settled levels (child level members) := by
  refine ⟨?_, ?_⟩
  · unfold child
    cases found : members.lookup level with
    | none => exact ⟨[], rfl⟩
    | some below =>
        have branch := settled.inner [level] (by simp) (by simp) below (by simp [found])
        obtain ⟨inside, _, rfl⟩ := branch
        exact ⟨inside, rfl⟩
  · intro path front nonempty
    rw [reach_child nonempty]
    exact settled.inner (level :: path) (by simpa using front) (by simp)

/-- An object is settled for the empty path. -/
theorem Settled.nil (members : List (Text × Json)) : Settled [] (.object members) := by
  refine ⟨⟨members, rfl⟩, ?_⟩
  intro path front nonempty
  exact absurd (List.prefix_nil.mp front) nonempty

/-- An object is settled when its branch and what is below it are. -/
theorem Settled.cons (branch : Branch (members.lookup level))
    (below : Settled levels (child level members)) :
      Settled (level :: levels) (.object members) := by
  refine ⟨⟨members, rfl⟩, ?_⟩
  intro path front nonempty
  cases path with
  | nil => exact absurd rfl nonempty
  | cons key rest =>
      obtain ⟨rfl, inside⟩ := List.cons_prefix_cons.mp front
      by_cases last : rest = []
      · subst last
        rw [reach_object]
        cases found : members.lookup key with
        | none => simp [Branch]
        | some value =>
            rw [found] at branch
            exact branch
      · rw [← reach_child last]
        exact below.inner rest inside last

end Paths

/-- What a walk keeps: every path beside the one it is about, and a tree without empty
dictionaries on its way. -/
structure Kept (levels : List Text) (name : Text) (before after : Json) : Prop where
  beside : ∀ path, Apart path (levels ++ [name]) → reach path after = reach path before
  settled : Settled levels after

section Levels

variable {level name : Text} {levels : List Text} {members : List (Text × Json)} {below : Json}

/-- What is kept below a level is kept below the tree, when the walk leaves a dictionary that
is not empty. -/
theorem Kept.put (kept : Kept levels name (child level members) below)
    (filled : ∃ inside, inside ≠ [] ∧ below = .object inside) :
    Kept (level :: levels) name (.object members) (.object (Dict.put level below members)) := by
  refine ⟨?_, ⟨_, rfl⟩, ?_⟩
  · intro path apart
    cases path with
    | nil => exact absurd rfl apart.ne_nil
    | cons key rest =>
        by_cases same : key = level
        · subst same
          have inside : Apart rest (levels ++ [name]) := apart_cons_iff.mp apart
          rw [reach_put_self, kept.beside rest inside, reach_child inside.ne_nil]
        · exact reach_put_of_ne same below
  · intro path front nonempty
    obtain ⟨rest, rfl, inside⟩ : ∃ rest, path = level :: rest ∧ rest <+: levels := by
      cases path with
      | nil => exact absurd rfl nonempty
      | cons key rest =>
          obtain ⟨rfl, inside⟩ := List.cons_prefix_cons.mp front
          exact ⟨rest, rfl, inside⟩
    rw [reach_put_self]
    by_cases last : rest = []
    · subst last
      intro value found
      cases found
      exact filled
    · exact kept.settled.inner rest inside last

/-- An empty dictionary is removed: there was nothing beside the path below it. -/
theorem Kept.remove (kept : Kept levels name (child level members) (.object [])) :
    Kept (level :: levels) name (.object members) (.object (Dict.remove level members)) := by
  refine ⟨?_, ⟨_, rfl⟩, ?_⟩
  · intro path apart
    cases path with
    | nil => exact absurd rfl apart.ne_nil
    | cons key rest =>
        by_cases same : key = level
        · subst same
          have inside : Apart rest (levels ++ [name]) := apart_cons_iff.mp apart
          have nothing := kept.beside rest inside
          rw [reach_empty inside.ne_nil, reach_child inside.ne_nil] at nothing
          rw [reach_remove_self, nothing]
        · exact reach_remove_of_ne same
  · intro path front nonempty value found
    cases path with
    | nil => exact absurd rfl nonempty
    | cons key rest =>
        obtain ⟨rfl, _⟩ := List.cons_prefix_cons.mp front
        rw [reach_remove_self] at found
        cases found

end Levels

/-- What `set` does: nothing, where an equal value is stored, else the value is stored. -/
def StoredIn (levels : List Text) (name : Text) (value before after : Json) : Bool → Prop
  | false => after = before ∧
      ∃ old, reach (levels ++ [name]) before = some old ∧ Json.eq old value = true
  | true => reach (levels ++ [name]) after = some value

section Set

variable {name : Text} {value : Json}

/-- A path beside a name begins with another one. -/
theorem Apart.exists_ne {path : List Text} (apart : Apart path [name]) :
    ∃ key rest, path = key :: rest ∧ key ≠ name := by
  cases path with
  | nil => exact absurd rfl apart.ne_nil
  | cons key rest =>
      refine ⟨key, rest, rfl, ?_⟩
      intro same
      apply apart.2
      rw [same]
      simp

private theorem setIn_nil_spec {tree : Json} (settled : Settled [] tree)
    (nonnull : Json.eq .null value = false) :
    ∃ changed after, setIn [] name value tree = (.ok changed, after) ∧
      Kept [] name tree after ∧ (∃ members, members ≠ [] ∧ after = .object members) ∧
      StoredIn [] name value tree after changed := by
  obtain ⟨members, rfl⟩ := settled.root
  by_cases same : Json.eq ((members.lookup name).getD .null) value = true
  · refine ⟨false, .object members, by rw [setIn, if_pos same], ⟨fun _ _ => rfl, settled⟩, ?_, ?_⟩
    · refine ⟨members, ?_, rfl⟩
      rintro rfl
      rw [List.lookup_nil, Option.getD_none, nonnull] at same
      cases same
    · refine ⟨rfl, ?_⟩
      cases found : members.lookup name with
      | none =>
          rw [found, Option.getD_none, nonnull] at same
          cases same
      | some old =>
          rw [found] at same
          exact ⟨old, by simp [found], same⟩
  · refine ⟨true, .object (Dict.put name value members), by rw [setIn, if_neg same],
      ⟨?_, ?_⟩, ?_, ?_⟩
    · intro path apart
      obtain ⟨key, rest, rfl, differs⟩ := apart.exists_ne
      exact reach_put_of_ne differs value
    · exact Settled.nil _
    · exact ⟨_, Dict.put_ne_nil name value members, rfl⟩
    · exact reach_put_self value

/-- **The walk of `set`.** -/
theorem setIn_spec {levels : List Text} {tree : Json} (settled : Settled levels tree)
    (nonnull : Json.eq .null value = false) :
    ∃ changed after, setIn levels name value tree = (.ok changed, after) ∧
      Kept levels name tree after ∧ (∃ members, members ≠ [] ∧ after = .object members) ∧
      StoredIn levels name value tree after changed := by
  induction levels generalizing tree with
  | nil => exact setIn_nil_spec settled nonnull
  | cons level levels ih =>
      obtain ⟨members, rfl⟩ := settled.root
      obtain ⟨changed, below, walked, kept, filled, stored⟩ := ih settled.child_settled
      refine ⟨changed, .object (Dict.put level below members), by rw [setIn, walked],
        kept.put filled, ⟨_, Dict.put_ne_nil _ _ _, rfl⟩, ?_⟩
      have nonempty : levels ++ [name] ≠ [] := by simp
      cases changed with
      | false =>
          obtain ⟨rfl, old, found, same⟩ := stored
          rw [reach_child nonempty] at found
          refine ⟨?_, old, found, same⟩
          obtain ⟨inside, some, walked⟩ := filled
          rw [Dict.put_of_lookup (lookup_of_child some walked)]
      | true =>
          change reach (level :: (levels ++ [name])) _ = _
          rw [reach_put_self]
          exact stored

end Set

section Delete

variable {name : Text}

private theorem deleteIn_nil_spec {tree : Json} (settled : Settled [] tree) :
    ∃ changed after, deleteIn [] name tree = (.ok changed, after) ∧ Kept [] name tree after ∧
      reach [name] after = none ∧ (changed = false → after = tree) := by
  obtain ⟨members, rfl⟩ := settled.root
  cases found : members.lookup name with
  | none =>
      refine ⟨false, .object members, ?_, ⟨fun _ _ => rfl, settled⟩, by simp [found], fun _ => rfl⟩
      simp [deleteIn, deleteName, contains, found]
  | some old =>
      refine ⟨true, .object (Dict.remove name members), ?_, ⟨?_, Settled.nil _⟩, reach_remove_self,
        by simp⟩
      · simp [deleteIn, deleteName, contains, found]
      · intro path apart
        obtain ⟨key, rest, rfl, differs⟩ := apart.exists_ne
        exact reach_remove_of_ne differs

/-- **The walk of `delete`.** -/
theorem deleteIn_spec {levels : List Text} {tree : Json} (settled : Settled levels tree) :
    ∃ changed after, deleteIn levels name tree = (.ok changed, after) ∧
      Kept levels name tree after ∧ reach (levels ++ [name]) after = none ∧
      (changed = false → after = tree) := by
  induction levels generalizing tree with
  | nil => exact deleteIn_nil_spec settled
  | cons level levels ih =>
      obtain ⟨members, rfl⟩ := settled.root
      obtain ⟨changed, below, walked, kept, gone, same⟩ := ih settled.child_settled
      obtain ⟨inside, rfl⟩ := kept.settled.root
      rw [deleteIn, walked]
      by_cases empty : inside = []
      · subst empty
        exact ⟨true, _, rfl, kept.remove, reach_remove_self, by simp⟩
      · refine ⟨changed, .object (Dict.put level (.object inside) members), ?_,
          kept.put ⟨inside, empty, rfl⟩, ?_, ?_⟩
        · simp [prune, Json.truthy, empty]
        · change reach (level :: (levels ++ [name])) _ = _
          rw [reach_put_self, gone]
        · intro unchanged
          have untouched := same unchanged
          rw [untouched, Dict.put_of_lookup (lookup_of_child empty untouched.symm)]

end Delete

end VaultSeed.Settings
