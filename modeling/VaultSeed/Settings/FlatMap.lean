import VaultSeed.Settings.Tree

/-! # The settings as a flat map

Where no setting has the name of a namespace on the way to another one, the tree is a flat map
from settings to values: `set` and `delete` are the updates of one entry, and `get` reads an
entry. A run of the store is a run of the map (`Store.run_refines`).
-/

namespace VaultSeed.Settings

open Python

/-- What the code relies on in `json.loads(json.dumps(_))`: a dictionary is copied when all its
values are, and has the copies under the same keys. -/
structure Copies (copy : Json → Option Json) : Prop where
  object : ∀ members, (∀ entry ∈ members, (copy entry.2).isSome = true) →
    ∃ copied, copy (.object members) = some (.object copied) ∧
      ∀ key, copied.lookup key = (members.lookup key).bind copy
  inner : ∀ members, (copy (.object members)).isSome = true →
    ∀ entry ∈ members, (copy entry.2).isSome = true

/-- A value comes back from JSON as an equal one. -/
def RoundTrips (copy : Json → Option Json) (value : Json) : Prop :=
  ∃ copied, copy value = some copied ∧ Json.eq copied value = true

/-- No setting has the name of a namespace on the way to another one. -/
def CollisionFree (keys : Set Key) : Prop :=
  ∀ first ∈ keys, ∀ second ∈ keys, ¬ first.path <+: second.levels

section Keys

variable {keys : Set Key} {first second : Key}

private theorem Key.path_injective : Function.Injective Key.path := by
  intro first second same
  obtain ⟨levels, names⟩ := List.append_inj' same rfl
  have spaces : first.space = second.space := by
    have joined := congrArg (List.intercalate ['.']) levels
    rwa [Key.levels, Key.levels, List.intercalate_splitOn, List.intercalate_splitOn] at joined
  cases first
  cases second
  cases spaces
  cases names
  rfl

/-- Different settings stand beside each other. -/
theorem CollisionFree.apart (free : CollisionFree keys) (firstKnown : first ∈ keys)
    (secondKnown : second ∈ keys) (differ : first ≠ second) : Apart first.path second.path := by
  constructor
  · intro front
    rcases List.prefix_concat_iff.mp front with same | inside
    · exact differ (Key.path_injective same)
    · exact free first firstKnown second secondKnown inside
  · intro front
    rcases List.prefix_concat_iff.mp front with same | inside
    · exact differ (Key.path_injective same).symm
    · exact free second secondKnown first firstKnown inside

/-- A walk for one setting leaves the tree walkable for every other one. -/
theorem CollisionFree.settled (free : CollisionFree keys) (firstKnown : first ∈ keys)
    (secondKnown : second ∈ keys) {before after : Json}
    (kept : Kept first.levels first.name before after)
    (settled : Settled second.levels before) : Settled second.levels after := by
  refine ⟨kept.settled.root, ?_⟩
  intro path front nonempty
  by_cases way : path <+: first.levels
  · exact kept.settled.inner path way nonempty
  · have apart : Apart path first.path := by
      constructor
      · intro ahead
        rcases List.prefix_concat_iff.mp ahead with same | inside
        · apply free first firstKnown second secondKnown
          rw [Key.path, ← same]
          exact front
        · exact way inside
      · intro behind
        exact free first firstKnown second secondKnown (behind.trans front)
    rw [kept.beside path apart]
    exact settled.inner path front nonempty

end Keys

section Copying

variable {copy : Json → Option Json} (law : Copies copy)

include law

private theorem Copies.child_isSome {members : List (Text × Json)}
    (copied : (copy (.object members)).isSome = true) (level : Text) :
    (copy (child level members)).isSome = true := by
  unfold child
  cases found : members.lookup level with
  | none =>
      obtain ⟨empty, made, _⟩ := law.object [] (by simp)
      rw [Option.getD_none, made, Option.isSome_some]
  | some below => exact law.inner members copied _ (Dict.mem_of_lookup found)

private theorem Copies.put {members : List (Text × Json)}
    (copied : (copy (.object members)).isSome = true)
    {name : Text} {value : Json} (made : (copy value).isSome = true) :
    (copy (.object (Dict.put name value members))).isSome = true := by
  obtain ⟨_, whole, _⟩ := law.object (Dict.put name value members) (by
    intro entry member
    rcases Dict.mem_put member with rfl | inside
    · exact made
    · exact law.inner members copied entry inside)
  rw [whole, Option.isSome_some]

private theorem Copies.remove {members : List (Text × Json)}
    (copied : (copy (.object members)).isSome = true)
    (name : Text) : (copy (.object (Dict.remove name members))).isSome = true := by
  obtain ⟨_, whole, _⟩ := law.object (Dict.remove name members) (by
    intro entry member
    exact law.inner members copied entry (Dict.mem_remove member))
  rw [whole, Option.isSome_some]

/-- A tree that JSON can copy stays one. -/
theorem Copies.setIn {levels : List Text} {name : Text} {value tree : Json}
    (copied : (copy tree).isSome = true) (made : (copy value).isSome = true) :
    (copy (setIn levels name value tree).2).isSome = true := by
  fun_induction Settings.setIn levels name value tree with
  | case1 name value members same => exact copied
  | case2 name value members differs => exact law.put copied made
  | case3 name value node other => exact copied
  | case4 level levels name value members below ih =>
      exact law.put copied (ih (law.child_isSome copied level) made)
  | case5 => exact copied

private theorem Copies.deleteName {name : Text} {node : Json} (copied : (copy node).isSome = true) :
    (copy (deleteName name node).2).isSome = true := by
  unfold Settings.deleteName
  split
  · exact copied
  · exact copied
  · split
    · exact law.remove copied name
    · exact copied

private theorem Copies.prune {level : Text} {members : List (Text × Json)}
    (copied : (copy (.object members)).isSome = true) {below : Except Fault Bool × Json}
    (made : (copy below.2).isSome = true) : (copy (prune level members below).2).isSome = true := by
  unfold Settings.prune
  split
  · exact law.put copied made
  · split_ifs
    · exact law.put copied made
    · exact law.remove copied level

private theorem Copies.deleteIn {levels : List Text} {name : Text} {tree : Json}
    (copied : (copy tree).isSome = true) : (copy (deleteIn levels name tree).2).isSome = true := by
  fun_induction Settings.deleteIn levels name tree with
  | case1 name node => exact law.deleteName copied
  | case2 level levels name members ih =>
      exact law.prune copied (ih (law.child_isSome copied level))
  | case3 => exact copied

omit law in
private theorem getIn_empty (levels : List Text) (name : Text) (defaultValue : Json) :
    getIn levels name defaultValue (.object []) = .ok defaultValue := by
  induction levels with
  | nil => rfl
  | cons level levels ih => exact ih

omit law in
private theorem getIn_object (name : Text) (defaultValue : Json) (members : List (Text × Json)) :
    getIn [] name defaultValue (.object members) =
      .ok ((members.lookup name).getD defaultValue) := by
  change (if (members.lookup name).isSome = true then
    Except.ok ((members.lookup name).getD .null) else Except.ok defaultValue) = _
  cases members.lookup name with
  | none => rfl
  | some value => rfl

/-- **The walk of `get`**: on the copy of the tree it finds the copy of what stands at the
path, else it returns the default. -/
theorem getIn_spec {levels : List Text} {name : Text} {tree copied : Json}
    (settled : Settled levels tree) (made : copy tree = some copied) (defaultValue : Json) :
    (reach (levels ++ [name]) tree = none →
      getIn levels name defaultValue copied = .ok defaultValue) ∧
    ∀ value, reach (levels ++ [name]) tree = some value →
      ∃ found, copy value = some found ∧ getIn levels name defaultValue copied = .ok found := by
  induction levels generalizing tree copied with
  | nil =>
      obtain ⟨members, rfl⟩ := settled.root
      have inner := law.inner members (by rw [made, Option.isSome_some])
      obtain ⟨copies, whole, lookup⟩ := law.object members inner
      rw [made] at whole
      cases whole
      have entry := lookup name
      rw [List.nil_append, reach_object]
      cases found : members.lookup name with
      | none =>
          rw [found, Option.bind_none] at entry
          refine ⟨fun _ => ?_, by simp⟩
          rw [getIn_object, entry, Option.getD_none]
      | some value =>
          have made := inner _ (Dict.mem_of_lookup found)
          obtain ⟨copied, made⟩ := Option.isSome_iff_exists.mp made
          rw [found, Option.bind_some, made] at entry
          refine ⟨by simp, ?_⟩
          rintro _ ⟨⟩
          refine ⟨copied, made, ?_⟩
          rw [getIn_object, entry, Option.getD_some]
  | cons level levels ih =>
      obtain ⟨members, rfl⟩ := settled.root
      have inner := law.inner members (by rw [made, Option.isSome_some])
      obtain ⟨copies, whole, lookup⟩ := law.object members inner
      rw [made] at whole
      cases whole
      have entry := lookup level
      have nonempty : levels ++ [name] ≠ [] := by simp
      rw [List.cons_append, ← reach_child nonempty, getIn]
      cases found : members.lookup level with
      | none =>
          rw [found, Option.bind_none] at entry
          have walked : child level copies = .object [] := by rw [child, entry]; rfl
          have absent : child level members = .object [] := by rw [child, found]; rfl
          rw [walked, absent, getIn_empty, reach_empty nonempty]
          exact ⟨fun _ => rfl, by simp⟩
      | some below =>
          have present : child level members = below := by rw [child, found]; rfl
          have settledBelow := settled.child_settled
          obtain ⟨copied, made⟩ := Option.isSome_iff_exists.mp (inner _ (Dict.mem_of_lookup found))
          rw [found, Option.bind_some, made] at entry
          have walked : child level copies = copied := by rw [child, entry]; rfl
          rw [present] at settledBelow ⊢
          rw [walked]
          exact ih settledBelow made

end Copying

/-- A change of the settings. -/
inductive Op where
  | set (key : Key) (value : Json)
  | delete (key : Key)

namespace Op

/-- The setting that is changed. -/
def key : Op → Key
  | set key _ => key
  | delete key => key

/-- The change of the store. -/
def apply : Op → Store → Except Fault Unit × Store
  | set key value => Store.set key value
  | delete key => Store.delete key

/-- The change of the flat map. -/
def update : Op → (Key → Option Json) → Key → Option Json
  | set key value, map => Function.update map key (some value)
  | delete key, map => Function.update map key none

/-- A value that is stored is not `None` and comes back from JSON. -/
def Storable (copy : Json → Option Json) : Op → Prop
  | set _ value => value ≠ .null ∧ RoundTrips copy value
  | delete _ => True

/-- A value that is stored is not `None`. -/
def NonNull : Op → Prop
  | set _ value => value ≠ .null
  | delete _ => True

/-- What stands at the path of the setting after a change. -/
def Left : Op → Json → Json → Prop
  | set key value, before, after => reach key.path after = some value ∨
      after = before ∧ ∃ old, reach key.path before = some old ∧ Json.eq old value = true
  | delete key, _, after => reach key.path after = none

/-- What a change makes of the store. -/
structure Changed (op : Op) (before after : Store) : Prop where
  kept : Kept op.key.levels op.key.name before.settings after.settings
  left : op.Left before.settings after.settings
  dirty : after.settings ≠ before.settings → after.dirty = true
  clean : after.dirty = false → before.dirty = false
  location : after.fileLocation = before.fileLocation

private theorem Storable.nonNull {copy : Json → Option Json} {op : Op}
    (storable : op.Storable copy) :
    op.NonNull := by
  cases op with
  | set key value => exact storable.1
  | delete key => trivial

private theorem eq_null_of_ne {value : Json} (nonnull : value ≠ .null) : Json.eq .null value =
    false := by
  cases value with
  | null => exact absurd rfl nonnull
  | _ => simp [Json.eq]

/-- **A change of the store** raises nothing where the tree can be walked. -/
theorem apply_changed {op : Op} {store : Store} (settled : Settled op.key.levels store.settings)
    (nonNull : op.NonNull) :
      ∃ after, op.apply store = (.ok (), after) ∧ op.Changed store after := by
  cases op with
  | set key value =>
      obtain ⟨changed, tree, walked, kept, _, stored⟩ :=
        @setIn_spec key.name value key.levels _ settled (eq_null_of_ne nonNull)
      refine ⟨{ store with settings := tree, dirty := store.dirty || changed },
        by rw [Op.apply, Store.set, walked]; rfl, ⟨kept, ?_, ?_, ?_, rfl⟩⟩
      · cases changed with
        | false => exact .inr stored
        | true => exact .inl stored
      · intro differs
        cases changed with
        | false => exact absurd stored.1 differs
        | true => exact Bool.or_true _
      · intro clean
        exact (Bool.or_eq_false_iff.mp clean).1
  | delete key =>
      obtain ⟨changed, tree, walked, kept, gone, same⟩ :=
        @deleteIn_spec key.name key.levels _ settled
      refine ⟨{ store with settings := tree, dirty := store.dirty || changed },
        by rw [Op.apply, Store.delete, walked]; rfl, ⟨kept, gone, ?_, ?_, rfl⟩⟩
      · intro differs
        cases changed with
        | false => exact absurd (same rfl) differs
        | true => exact Bool.or_true _
      · intro clean
        exact (Bool.or_eq_false_iff.mp clean).1

end Op

/-- A series of changes, up to the first one that raises. -/
def Store.run : List Op → Store → Except Fault Unit × Store
  | [], store => (.ok (), store)
  | op :: ops, store =>
      match op.apply store with
      | (.ok _, after) => run ops after
      | (.error fault, after) => (.error fault, after)

/-- The flat map of a tree. -/
def flatten (tree : Json) (key : Key) : Option Json := reach key.path tree

/-- A tree in which the settings can be stored: every namespace of theirs is absent or a
dictionary that is not empty, and JSON keeps what is in it. -/
structure Initial (keys : Set Key) (copy : Json → Option Json) (tree : Json) : Prop where
  settled : ∀ key ∈ keys, Settled key.levels tree
  copied : (copy tree).isSome = true
  stored : ∀ key ∈ keys, ∀ value, reach key.path tree = some value → RoundTrips copy value

/-- What is stored comes back from JSON as a value that is equal to another one. -/
def StoredAs (copy : Json → Option Json) (stored value : Json) : Prop :=
  ∃ found, copy stored = some found ∧ Json.eq found stored = true ∧ Json.eq found value = true

/-- A tree stands for a flat map: JSON keeps the tree, and what it makes of the value of a
setting is equal to that of the map. -/
structure Represents (keys : Set Key) (copy : Json → Option Json) (tree : Json)
    (map : Key → Option Json) : Prop where
  settled : ∀ key ∈ keys, Settled key.levels tree
  copied : (copy tree).isSome = true
  absent : ∀ key ∈ keys, map key = none → reach key.path tree = none
  present : ∀ key ∈ keys, ∀ value, map key = some value →
    ∃ stored, reach key.path tree = some stored ∧ StoredAs copy stored value

section Refinement

variable {keys : Set Key} {copy : Json → Option Json}

private theorem Initial.represents {tree : Json} (initial : Initial keys copy tree) :
    Represents keys copy tree (flatten tree) := by
  refine ⟨initial.settled, initial.copied, fun _ _ absent => absent, ?_⟩
  intro key known value found
  obtain ⟨copied, made, same⟩ := initial.stored key known value found
  exact ⟨value, found, copied, made, same, same⟩

private theorem Store.settings_walked (store : Store) (result : Except Fault Bool × Json) :
    (store.walked result).2.settings = result.2 := by
  unfold Store.walked
  split <;> rfl

/-- A tree that JSON can copy stays one. -/
theorem Copies.apply (law : Copies copy) {op : Op} {store : Store}
    (copied : (copy store.settings).isSome = true) (storable : op.Storable copy) :
    (copy (op.apply store).2.settings).isSome = true := by
  cases op with
  | set key value =>
      obtain ⟨made, copies, _⟩ := storable.2
      rw [Op.apply, Store.set, Store.settings_walked]
      exact law.setIn copied (by rw [copies, Option.isSome_some])
  | delete key =>
      rw [Op.apply, Store.delete, Store.settings_walked]
      exact law.deleteIn copied

/-- A walk that keeps what is beside a setting changes one entry of the map. -/
theorem Represents.update (free : CollisionFree keys) {before after : Json}
    {map : Key → Option Json} (represents : Represents keys copy before map) {key : Key}
    (known : key ∈ keys) (kept : Kept key.levels key.name before after)
    (copied : (copy after).isSome = true) {value : Option Json}
    (absent : value = none → reach key.path after = none)
    (present : ∀ held, value = some held →
      ∃ stored, reach key.path after = some stored ∧ StoredAs copy stored held) :
    Represents keys copy after (Function.update map key value) := by
  refine ⟨fun other inside => free.settled known inside kept (represents.settled other inside),
    copied, ?_, ?_⟩
  · intro other inside
    by_cases same : other = key
    · subst same
      rw [Function.update_self]
      exact absent
    · rw [Function.update_of_ne same, kept.beside _ (free.apart inside known same)]
      exact represents.absent other inside
  · intro other inside
    by_cases same : other = key
    · subst same
      rw [Function.update_self]
      exact present
    · rw [Function.update_of_ne same, kept.beside _ (free.apart inside known same)]
      exact represents.present other inside

/-- What is stored in the tree is in the map, and comes back from JSON. -/
theorem Represents.roundTrips {tree : Json} {map : Key → Option Json}
    (represents : Represents keys copy tree map) {key : Key} (known : key ∈ keys) {stored : Json}
    (found : reach key.path tree = some stored) :
    ∃ copied, copy stored = some copied ∧ Json.eq copied stored = true := by
  cases held : map key with
  | none =>
      rw [represents.absent key known held] at found
      cases found
  | some value =>
      obtain ⟨there, reached, copied, made, same, _⟩ := represents.present key known value held
      rw [found] at reached
      cases reached
      exact ⟨copied, made, same⟩

/-- **What a change does**: it raises nothing, changes one entry of the map and keeps what is
beside it, and a changed tree is dirty. -/
theorem Op.apply_spec (free : CollisionFree keys) (law : Copies copy) {store : Store}
    {map : Key → Option Json} (represents : Represents keys copy store.settings map) {op : Op}
    (known : op.key ∈ keys) (storable : op.Storable copy) :
    ∃ after, op.apply store = (.ok (), after) ∧
      Represents keys copy after.settings (op.update map) ∧ op.Changed store after := by
  obtain ⟨after, applied, changed⟩ :=
    op.apply_changed (represents.settled op.key known) storable.nonNull
  have copied := law.apply represents.copied storable
  rw [applied] at copied
  refine ⟨after, applied, ?_, changed⟩
  cases op with
  | set key value =>
      obtain ⟨made, copies, same⟩ := storable.2
      refine represents.update free known changed.kept copied (by simp) ?_
      rintro _ ⟨⟩
      rcases changed.left with stored | ⟨unchanged, old, found, equal⟩
      · exact ⟨value, stored, made, copies, same, same⟩
      · obtain ⟨madeOld, copiesOld, sameOld⟩ := represents.roundTrips known found
        exact ⟨old, unchanged ▸ found, madeOld, copiesOld, sameOld, Json.eq_trans sameOld equal⟩
  | delete key =>
      exact represents.update free known changed.kept copied (fun _ => changed.left) (by simp)

/-- A run of the store is a run of the map. -/
theorem Store.run_represents (free : CollisionFree keys) (law : Copies copy) {ops : List Op}
    {store : Store} {map : Key → Option Json} (represents : Represents keys copy store.settings map)
    (valid : ∀ op ∈ ops, op.key ∈ keys ∧ op.Storable copy) :
    ∃ after, store.run ops = (.ok (), after) ∧
      Represents keys copy after.settings (ops.foldl (fun map op => op.update map) map) := by
  induction ops generalizing store map with
  | nil => exact ⟨store, rfl, represents⟩
  | cons op ops ih =>
      obtain ⟨known, storable⟩ := valid op List.mem_cons_self
      obtain ⟨next, applied, represented, _⟩ := op.apply_spec free law represents known storable
      obtain ⟨after, ran, represented⟩ := ih represented fun other member =>
        valid other (List.mem_cons_of_mem _ member)
      refine ⟨after, ?_, represented⟩
      rw [Store.run, applied]
      exact ran

/-- `get` returns the copy of what stands at the path of a setting, else the default, and leaves
the store as it is. -/
theorem Store.get_spec (law : Copies copy) {store : Store} {map : Key → Option Json}
    (represents : Represents keys copy store.settings map) {key : Key} (known : key ∈ keys)
    (defaultValue : Json) :
    (reach key.path store.settings = none →
      store.get copy key defaultValue = (.ok defaultValue, store)) ∧
    ∀ value, reach key.path store.settings = some value →
      ∃ found, copy value = some found ∧ store.get copy key defaultValue = (.ok found, store) := by
  obtain ⟨copied, made⟩ := Option.isSome_iff_exists.mp represents.copied
  obtain ⟨missing, present⟩ := @getIn_spec copy law key.levels key.name _ _
    (represents.settled key known) made defaultValue
  have walked : store.get copy key defaultValue =
      (getIn key.levels key.name defaultValue copied, store) := by
    rw [Store.get, made]
  rw [walked]
  constructor
  · intro absent
    rw [missing absent]
  · intro value reached
    obtain ⟨found, copies, read⟩ := present value reached
    exact ⟨found, copies, by rw [read]⟩

/-- `get` reads an entry of the map. -/
theorem Store.get_represents (law : Copies copy) {store : Store} {map : Key → Option Json}
    (represents : Represents keys copy store.settings map) {key : Key} (known : key ∈ keys)
    (defaultValue : Json) : ∃ returned, store.get copy key defaultValue = (.ok returned, store) ∧
      (map key).elim (returned = defaultValue) fun value => Json.eq returned value = true := by
  obtain ⟨missing, present⟩ := store.get_spec law represents known defaultValue
  cases held : map key with
  | none => exact ⟨defaultValue, missing (represents.absent key known held), rfl⟩
  | some value =>
      obtain ⟨stored, reached, found, copies, _, same⟩ := represents.present key known value held
      obtain ⟨returned, makes, read⟩ := present stored reached
      rw [copies] at makes
      cases makes
      exact ⟨found, read, same⟩

/-- A change of one setting is not seen by `get` of another one. -/
theorem Store.get_beside (law : Copies copy) {before after : Store}
    {map changed : Key → Option Json} (first : Represents keys copy before.settings map)
    (second : Represents keys copy after.settings changed) {key : Key} (known : key ∈ keys)
    (same : reach key.path after.settings = reach key.path before.settings) (defaultValue : Json) :
    (after.get copy key defaultValue).1 = (before.get copy key defaultValue).1 := by
  obtain ⟨missing, present⟩ := before.get_spec law first known defaultValue
  obtain ⟨missingAfter, presentAfter⟩ := after.get_spec law second known defaultValue
  cases reached : reach key.path before.settings with
  | none => rw [missing reached, missingAfter (same.trans reached)]
  | some value =>
      obtain ⟨found, makes, read⟩ := present value reached
      obtain ⟨again, makesAgain, readAgain⟩ := presentAfter value (same.trans reached)
      rw [makes] at makesAgain
      cases makesAgain
      rw [read, readAgain]

/-- What `Store.get` and one more change do in a state that stands for a map. -/
structure Refines (keys : Set Key) (copy : Json → Option Json) (store : Store)
    (map : Key → Option Json) : Prop where
  /-- A setting is read from the map, and reading leaves the store as it is. -/
  reads : ∀ key ∈ keys, ∀ defaultValue, ∃ returned,
    store.get copy key defaultValue = (.ok returned, store) ∧
      (map key).elim (returned = defaultValue) fun value => Json.eq returned value = true
  /-- No namespace is empty. -/
  filled : ∀ key ∈ keys, ∀ path, path <+: key.levels → path ≠ [] →
    reach path store.settings ≠ some (.object [])
  /-- One more change raises nothing, is not seen at another setting, and makes the store dirty
  when it changes the tree. -/
  changes : ∀ op : Op, op.key ∈ keys → op.Storable copy →
    ∃ after, op.apply store = (.ok (), after) ∧ (∀ other ∈ keys, other ≠ op.key → ∀ defaultValue,
      (after.get copy other defaultValue).1 = (store.get copy other defaultValue).1) ∧
    (after.settings ≠ store.settings → after.dirty = true)

private theorem Represents.refines (free : CollisionFree keys) (law : Copies copy) {store : Store}
    {map : Key → Option Json} (represents : Represents keys copy store.settings map) :
    Refines keys copy store map := by
  refine ⟨fun key known => store.get_represents law represents known, ?_, ?_⟩
  · intro key known path front nonempty empty
    obtain ⟨members, filled, same⟩ :=
      (represents.settled key known).inner path front nonempty _ empty
    cases same
    exact filled rfl
  · intro op known storable
    obtain ⟨after, applied, represented, changed⟩ :=
      op.apply_spec free law represents known storable
    refine ⟨after, applied, ?_, changed.dirty⟩
    intro other inside differs
    exact Store.get_beside law represents represented inside
      (changed.kept.beside _ (free.apart inside known differs))

end Refinement

/-- **The store is a flat map.** After any series of changes a setting is read as the value it
was last set to since it was last deleted, else as the one stored at first, else as the
default; no change is seen at another setting, `get` changes nothing, no namespace is left
empty, and a changed tree is dirty. -/
theorem Store.run_refines {keys : Set Key} (free : CollisionFree keys) {copy : Json → Option Json}
    (law : Copies copy) {store : Store} (initial : Initial keys copy store.settings) (ops : List Op)
    (valid : ∀ op ∈ ops, op.key ∈ keys ∧ op.Storable copy) :
    ∃ after, store.run ops = (.ok (), after) ∧
      Refines keys copy after
        (ops.foldl (fun map op => op.update map) (flatten store.settings)) := by
  obtain ⟨after, ran, represents⟩ := Store.run_represents free law initial.represents valid
  exact ⟨after, ran, represents.refines free law⟩

/-- Doing nothing copies. -/
theorem copies_some : Copies some := by
  refine ⟨?_, ?_⟩
  · intro members _
    refine ⟨members, rfl, ?_⟩
    intro key
    cases members.lookup key <;> rfl
  · intro members _ entry _
    rfl

/-- `persist.location`. -/
def locationKey : Key := ⟨"settings.persist".toList, "location".toList⟩

/-- `appearance.theme`. -/
def themeKey : Key := ⟨"settings.appearance".toList, "theme".toList⟩

/-- The settings of a device that keeps them on the SD card. -/
def onSdCard : Json :=
  .object [("settings".toList, .object [("persist".toList,
    .object [("location".toList, .str "sd".toList)])])]

/-- The theme is set, and the location is set and deleted again. -/
theorem Store.run_refines_location :
    ∃ after, Store.run [.set themeKey (.str "Light".toList), .set locationKey (.str "flash".toList),
        .delete locationKey] ⟨onSdCard, "/sd/".toList, false⟩ = (.ok (), after) ∧
      Refines {locationKey, themeKey} some after
        (Function.update (Function.update (Function.update (flatten onSdCard) themeKey
          (some (.str "Light".toList))) locationKey (some (.str "flash".toList)))
            locationKey none) := by
  have free : CollisionFree {locationKey, themeKey} := by
    rintro first (rfl | rfl) second (rfl | rfl) <;> decide
  have settled : ∀ key ∈ ({locationKey, themeKey} : Set Key), Settled key.levels onSdCard := by
    rintro key (rfl | rfl)
    · refine .cons ?_ (.cons ?_ (.nil _)) <;>
        · rintro value ⟨⟩
          exact ⟨_, List.cons_ne_nil _ _, rfl⟩
    · refine .cons ?_ (.cons ?_ (.nil _))
      · rintro value ⟨⟩
        exact ⟨_, List.cons_ne_nil _ _, rfl⟩
      · rintro value ⟨⟩
  have initial : Initial {locationKey, themeKey} some onSdCard := by
    refine ⟨settled, rfl, ?_⟩
    rintro key (rfl | rfl) value found
    · cases found
      exact ⟨_, rfl, rfl⟩
    · cases found
  apply Store.run_refines free copies_some initial
  rintro op (_ | ⟨_, _ | ⟨_, _ | ⟨_, ⟨⟩⟩⟩⟩)
  · exact ⟨.inr rfl, by simp, _, rfl, rfl⟩
  · exact ⟨.inl rfl, by simp, _, rfl, rfl⟩
  · exact ⟨.inl rfl, trivial⟩

end VaultSeed.Settings
