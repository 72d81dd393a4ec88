import VaultSeed.Settings.Loading

/-! # Persisting the settings

Settings are changed in memory and written by `save_settings` to the SD card or to the flash.
A change of the location deletes the file at the other place at once. When the last save of
dirty settings worked, settings that are not dirty are those of the file, and what it saved stays
in its file until the location changes or the file is opened to write a newer version
(`settings_persisted`).
-/

namespace VaultSeed.Settings

open Python

/-- The store, and the files by their names. -/
structure World where
  store : Store
  files : Text → Option Text

/-- How the writing of a file ends: it works, the file cannot be opened, or the writing fails
and leaves something of the file. -/
inductive Written where
  | done
  | refused
  | torn (left : Text)
  deriving DecidableEq

/-- Which file operations of a step work. -/
structure Luck where
  removes : Bool
  reads : Bool
  write : Written

/-- Every file operation works. -/
def Luck.good : Luck := ⟨true, true, .done⟩

namespace World

/-- The settings file of the store. -/
def file (world : World) : Text := world.store.fileLocation ++ settingsFilename

/-- `Store.update_file_location`. -/
def updateFileLocation (location : Text) (luck : Luck) (world : World) : World :=
  let fileLocation := getVfsLocation location
  let unused := if (find flashPath fileLocation).isSome then settingsFile sdPath
    else settingsFile flashPath
  ⟨{ world.store with fileLocation := fileLocation },
    if luck.removes then Function.update world.files unused none else world.files⟩

/-- `if self.attr == "location": store.update_file_location(value)`. -/
def relocate (key : Key) (value : Json) (luck : Luck) (world : World) : Except Fault World :=
  if key.name = "location".toList then
    match value with
    | .str location => .ok (world.updateFileLocation location luck)
    | _ => .error .typeError
  else .ok world

/-- `Setting.__set__`: a default is not stored. -/
def assign (key : Key) (defaultValue value : Json) (luck : Luck) (world : World) :
    Except Fault Unit × World :=
  match world.relocate key value luck with
  | .error fault => (.error fault, world)
  | .ok moved =>
      let stored := if value.eq defaultValue then moved.store.delete key
        else moved.store.set key value
      (stored.1, { moved with store := stored.2 })

/-- `old_contents`. -/
def oldContents (luck : Luck) (world : World) : Text :=
  if luck.reads then (world.files world.file).getD "\x7b\x7d".toList else "\x7b\x7d".toList

/-- `new_contents != old_contents`, for dirty settings. -/
def Writes (dumps : Json → Text) (luck : Luck) (world : World) : Prop :=
  world.store.dirty = true ∧ dumps world.store.settings ≠ world.oldContents luck

instance (dumps : Json → Text) (luck : Luck) (world : World) :
    Decidable (world.Writes dumps luck) :=
  inferInstanceAs (Decidable (_ ∧ _))

/-- The contents that a write leaves in the file, when it can be opened. -/
def written (dumps : Json → Text) (luck : Luck) (world : World) : Option Text :=
  match luck.write with
  | .done => some (dumps world.store.settings)
  | .refused => none
  | .torn left => some left

/-- The files, with new contents in the settings file. -/
def withContents (contents : Text) (world : World) : Text → Option Text :=
  Function.update world.files world.file (some contents)

/-- `Store.save_settings`: what it returns, and the world after it. -/
def saveSettings (dumps : Json → Text) (luck : Luck) (world : World) : Bool × World :=
  if world.Writes dumps luck then
    (luck.write == .done, ⟨{ world.store with dirty := false },
      ((world.written dumps luck).map fun contents => world.withContents contents).getD
        world.files⟩)
  else (false, { world with store := { world.store with dirty := false } })

/-- The files at each moment of a save: a file that is opened for writing is empty. -/
def saveMoments (dumps : Json → Text) (luck : Luck) (world : World) : List (Text → Option Text) :=
  if world.Writes dumps luck then
    match world.written dumps luck with
    | some contents => [world.withContents [], world.withContents contents]
    | none => []
  else []

end World

/-- A change of a setting, or a save, with the file operations that work. -/
inductive Step where
  | change (key : Key) (defaultValue value : Json) (luck : Luck)
  | save (luck : Luck)

namespace Step

variable (dumps : Json → Text)

def apply : Step → World → Except Fault Unit × World
  | change key defaultValue value luck, world => world.assign key defaultValue value luck
  | save luck, world => (.ok (), (world.saveSettings dumps luck).2)

/-- The files at each moment of a step. -/
def moments : Step → World → List (Text → Option Text)
  | change key defaultValue value luck, world =>
      [(world.assign key defaultValue value luck).2.files]
  | save luck, world => world.saveMoments dumps luck

end Step

/-- A series of steps, up to the first one that raises. -/
def World.run (dumps : Json → Text) : List Step → World → Except Fault Unit × World
  | [], world => (.ok (), world)
  | step :: steps, world =>
      match step.apply dumps world with
      | (.ok _, after) => run dumps steps after
      | (.error fault, after) => (.error fault, after)

/-- The files at each moment of a series of steps. -/
def World.moments (dumps : Json → Text) : List Step → World → List (Text → Option Text)
  | [], _ => []
  | step :: steps, world =>
      step.moments dumps world ++ moments dumps steps (step.apply dumps world).2

/-- The settings file holds the settings, or there are no settings and no file. -/
def World.Held (dumps : Json → Text) (world : World) : Prop :=
  world.files world.file = some (dumps world.store.settings) ∨
    world.store.settings = .object [] ∧ world.files world.file = none

namespace Step

/-- A setting that is declared gets a value, and the location one of its two. -/
def Proper (keys : Set Key) : Step → Prop
  | change key defaultValue value _ => key ∈ keys ∧ value ≠ .null ∧
      (key.name = "location".toList → key = locationKey ∧ defaultValue = .str flashPath ∧
        (value = .str flashPath ∨ value = .str sdPath))
  | save _ => True

/-- The file operations of a save do not fail: what has to be written is written, and a file
that is there is read where nothing is written. -/
def Works (dumps : Json → Text) : Step → World → Prop
  | change _ _ _ _, _ => True
  | save luck, world => (world.Writes dumps luck → luck.write = .done) ∧
      (¬ world.Writes dumps luck → luck.reads = true ∨ world.files world.file = none)

/-- Whether the last save of dirty settings has worked, after one more step. -/
def Tracks (dumps : Json → Text) (worked : Prop) : Step → World → Prop
  | change _ _ _ _, _ => worked
  | save luck, world => if world.store.dirty then (save luck).Works dumps world else worked

/-- A step that gives up the file: the location changes, or the file is opened to write a newer
version. -/
def GivesUp (dumps : Json → Text) : Step → World → Prop
  | change key defaultValue value luck, world =>
      (world.assign key defaultValue value luck).2.store.fileLocation ≠ world.store.fileLocation
  | save luck, world => world.Writes dumps luck ∧ luck.write ≠ .refused

end Step

/-- Whether the last save of dirty settings has worked, after a series. -/
def LastWorked (dumps : Json → Text) : List Step → World → Prop → Prop
  | [], _, worked => worked
  | step :: steps, world, worked =>
      LastWorked dumps steps (step.apply dumps world).2 (step.Tracks dumps worked world)

/-- No step of a series gives up the file. -/
def Lasting (dumps : Json → Text) : List Step → World → Prop
  | [], _ => True
  | step :: steps, world =>
      ¬ step.GivesUp dumps world ∧ Lasting dumps steps (step.apply dumps world).2

/-- The tree can be walked, and the file is where the settings say. -/
structure Placed (keys : Set Key) (world : World) : Prop where
  settled : ∀ key ∈ keys, Settled key.levels world.store.settings
  located : reach locationKey.path world.store.settings = none ∧
      world.store.fileLocation = getVfsLocation flashPath ∨
    reach locationKey.path world.store.settings = some (.str sdPath) ∧
      world.store.fileLocation = getVfsLocation sdPath

/-- The settings of a store without a file can be walked. -/
theorem settled_empty (levels : List Text) : Settled levels (.object []) := by
  refine ⟨⟨[], rfl⟩, ?_⟩
  intro path _ nonempty value found
  rw [reach_empty nonempty] at found
  cases found

section Changing

variable {keys : Set Key} {world : World}

/-- The change of the tree that `Setting.__set__` makes. -/
def assigned (key : Key) (defaultValue value : Json) : Op :=
  if value.eq defaultValue then .delete key else .set key value

private theorem assigned_key (key : Key) (defaultValue value : Json) :
    (assigned key defaultValue value).key = key := by
  unfold assigned
  split <;> rfl

private theorem assigned_nonNull {key : Key} {defaultValue value : Json} (nonNull : value ≠ .null) :
    (assigned key defaultValue value).NonNull := by
  unfold assigned
  split
  · trivial
  · exact nonNull

/-- `Setting.__set__` moves the file, and changes the tree. -/
theorem assign_eq {key : Key} {defaultValue value : Json} {luck : Luck} {moved : World}
    (relocated : world.relocate key value luck = .ok moved) :
    world.assign key defaultValue value luck =
      (((assigned key defaultValue value).apply moved.store).1,
        { moved with store := ((assigned key defaultValue value).apply moved.store).2 }) := by
  rw [World.assign, relocated, assigned]
  split_ifs <;> rfl

/-- What a move of the file keeps: the settings, and the file at the new location. -/
structure Moved (world moved : World) : Prop where
  settings : moved.store.settings = world.store.settings
  dirty : moved.store.dirty = world.store.dirty
  file : moved.files moved.file = world.files moved.file

private theorem moved_updateFileLocation {location : Text}
    (known : location = flashPath ∨ location = sdPath) (luck : Luck) (world : World) :
    Moved world (world.updateFileLocation location luck) := by
  refine ⟨rfl, rfl, ?_⟩
  have apart : settingsFile flashPath ≠ settingsFile sdPath := by decide
  unfold World.updateFileLocation World.file
  rcases known with rfl | rfl
  · have unused : (find flashPath (getVfsLocation flashPath)).isSome = true := by decide
    simp only [unused, ↓reduceIte]
    split_ifs
    · exact Function.update_of_ne apart none world.files
    · rfl
  · have unused : (find flashPath (getVfsLocation sdPath)).isSome = false := by decide
    simp only [unused, Bool.false_eq_true, ↓reduceIte]
    split_ifs
    · exact Function.update_of_ne apart.symm none world.files
    · rfl

/-- Where the file is after a move: the location that was set, else where it was. -/
theorem exists_moved {key : Key} {defaultValue value : Json} {luck : Luck}
    (proper : (Step.change key defaultValue value luck).Proper keys) :
    ∃ moved, world.relocate key value luck = .ok moved ∧ Moved world moved ∧
      (key = locationKey →
        value = .str flashPath ∧ moved.store.fileLocation = getVfsLocation flashPath ∨
        value = .str sdPath ∧ moved.store.fileLocation = getVfsLocation sdPath) ∧
      (key ≠ locationKey → moved = world) := by
  obtain ⟨_, _, location⟩ := proper
  by_cases named : key.name = "location".toList
  · obtain ⟨rfl, _, value⟩ := location named
    rcases value with rfl | rfl
    · exact ⟨_, by rw [World.relocate, if_pos named],
        moved_updateFileLocation (.inl rfl) luck world,
        fun _ => .inl ⟨rfl, rfl⟩, fun differs => absurd rfl differs⟩
    · exact ⟨_, by rw [World.relocate, if_pos named],
        moved_updateFileLocation (.inr rfl) luck world,
        fun _ => .inr ⟨rfl, rfl⟩, fun differs => absurd rfl differs⟩
  · refine ⟨world, if_neg named, ⟨rfl, rfl, rfl⟩, ?_, fun _ => rfl⟩
    rintro rfl
    exact absurd rfl named

/-- The default location is not stored. -/
theorem reach_of_flash {before after : Json}
    (left : (assigned locationKey (.str flashPath) (.str flashPath)).Left before after) :
    reach locationKey.path after = none := by
  have same : Json.eq (.str flashPath) (.str flashPath) = true := by rw [eq_str_iff]
  rw [assigned, if_pos same] at left
  exact left

private theorem reach_of_sd {before after : Json}
    (left : (assigned locationKey (.str flashPath) (.str sdPath)).Left before after) :
    reach locationKey.path after = some (.str sdPath) := by
  have differs : ¬ Json.eq (.str sdPath) (.str flashPath) = true := by
    rw [eq_str_iff]
    intro same
    cases same
  rw [assigned, if_neg differs] at left
  rcases left with stored | ⟨rfl, old, found, same⟩
  · exact stored
  · rw [found, eq_str_iff.mp same]

/-- **What a change of a setting does**: it raises nothing, and keeps the file at the location
where it ends up; settings that stay clean have not changed. -/
theorem assign_spec (free : CollisionFree keys) (known : locationKey ∈ keys)
    (placed : Placed keys world) {key : Key} {defaultValue value : Json} {luck : Luck}
    (proper : (Step.change key defaultValue value luck).Proper keys) :
    ∃ after, world.assign key defaultValue value luck = (.ok (), after) ∧ Placed keys after ∧
      after.files after.file = world.files after.file ∧
      (after.store.dirty = false →
        world.store.dirty = false ∧ after.store.settings = world.store.settings) := by
  obtain ⟨moved, relocated, same, atLocation, elsewhere⟩ := @exists_moved keys world _ _ _ _ proper
  have settled : Settled (assigned key defaultValue value).key.levels moved.store.settings := by
    rw [assigned_key, same.settings]
    exact placed.settled key proper.1
  obtain ⟨store, applied, changed⟩ := Op.apply_changed settled (assigned_nonNull proper.2.1)
  have kept := changed.kept
  rw [assigned_key] at kept
  refine ⟨{ moved with store := store }, by rw [assign_eq relocated, applied], ⟨?_, ?_⟩, ?_, ?_⟩
  · intro other inside
    refine free.settled proper.1 inside kept ?_
    rw [same.settings]
    exact placed.settled other inside
  · change _ ∧ store.fileLocation = _ ∨ _ ∧ store.fileLocation = _
    have left := changed.left
    rw [changed.location]
    by_cases named : key = locationKey
    · subst named
      obtain ⟨_, rfl, _⟩ := proper.2.2 rfl
      rcases atLocation rfl with ⟨rfl, placedAt⟩ | ⟨rfl, placedAt⟩
      · exact .inl ⟨reach_of_flash left, placedAt⟩
      · exact .inr ⟨reach_of_sd left, placedAt⟩
    · rw [kept.beside _ (free.apart known proper.1 (Ne.symm named)), elsewhere named]
      exact placed.located
  · change moved.files (store.fileLocation ++ settingsFilename) =
      world.files (store.fileLocation ++ settingsFilename)
    rw [changed.location]
    exact same.file
  · intro clean
    refine ⟨?_, ?_⟩
    · rw [← same.dirty]
      exact changed.clean clean
    · by_contra differs
      rw [← same.settings] at differs
      rw [changed.dirty differs] at clean
      cases clean

/-- The same settings are kept in the same file. -/
theorem Placed.file_eq {after : World} (before : Placed keys world) (placed : Placed keys after)
    (same : after.store.settings = world.store.settings) : after.file = world.file := by
  have location : after.store.fileLocation = world.store.fileLocation := by
    have reached : reach locationKey.path after.store.settings =
        reach locationKey.path world.store.settings := by rw [same]
    rcases before.located with ⟨found, place⟩ | ⟨found, place⟩ <;>
      rcases placed.located with ⟨foundAfter, placeAfter⟩ | ⟨foundAfter, placeAfter⟩
    · rw [place, placeAfter]
    · rw [reached, found] at foundAfter
      cases foundAfter
    · rw [reached, found] at foundAfter
      cases foundAfter
    · rw [place, placeAfter]
  rw [World.file, World.file, location]

end Changing

/-- What holds in every state of a run: the settings are written, when they are clean and the
last save of dirty settings has worked. -/
structure Sound (keys : Set Key) (dumps : Json → Text) (worked : Prop) (world : World) : Prop where
  placed : Placed keys world
  clean : worked → world.store.dirty = false → world.Held dumps

section Saving

variable {keys : Set Key} {dumps : Json → Text} {world : World}

private theorem placed_saveSettings (dumps : Json → Text) (placed : Placed keys world)
    (luck : Luck) :
    Placed keys (world.saveSettings dumps luck).2 := by
  unfold World.saveSettings
  split_ifs
  · exact ⟨placed.settled, placed.located⟩
  · exact ⟨placed.settled, placed.located⟩

/-- A save keeps the settings, and its file is the one before. -/
theorem file_saveSettings (dumps : Json → Text) (luck : Luck) (world : World) :
    (world.saveSettings dumps luck).2.file = world.file := by
  unfold World.saveSettings
  split_ifs <;> rfl

private theorem saveSettings_of_clean (clean : world.store.dirty = false) (luck : Luck) :
    (world.saveSettings dumps luck).2 =
      { world with store := { world.store with dirty := false } } := by
  have unwritten : ¬ world.Writes dumps luck := by
    intro writes
    rw [writes.1] at clean
    cases clean
  rw [World.saveSettings, if_neg unwritten]

/-- **What a save of dirty settings does** whose file operations do not fail: the file holds the
settings. -/
theorem held_saveSettings
    (empty : ∀ members, dumps (.object members) = "\x7b\x7d".toList → members = [])
    (known : ∃ members, world.store.settings = .object members) (dirty : world.store.dirty = true)
    {luck : Luck} (works : (Step.save luck).Works dumps world) :
    (world.saveSettings dumps luck).2.Held dumps := by
  unfold World.saveSettings
  split_ifs with writes
  · have done := works.1 writes
    left
    simp only [World.written, done]
    exact Function.update_self _ _ _
  · change World.Held dumps world
    have same : dumps world.store.settings = world.oldContents luck := by
      by_contra differs
      exact writes ⟨dirty, differs⟩
    rw [World.oldContents] at same
    cases found : world.files world.file with
    | none =>
        obtain ⟨members, tree⟩ := known
        have blank : dumps world.store.settings = "\x7b\x7d".toList := by
          rw [found] at same
          simpa using same
        rw [tree] at blank
        rw [World.Held, tree, empty members blank, found]
        exact .inr ⟨rfl, rfl⟩
    | some contents =>
        rcases works.2 writes with reads | absent
        · rw [if_pos reads, found] at same
          rw [World.Held, found, same]
          exact .inl rfl
        · rw [found] at absent
          cases absent

/-- **One step** of a run. -/
theorem Sound.step (free : CollisionFree keys) (known : locationKey ∈ keys)
    (empty : ∀ members, dumps (.object members) = "\x7b\x7d".toList → members = [])
    {worked : Prop} (sound : Sound keys dumps worked world) {step : Step}
    (proper : step.Proper keys) :
    ∃ after, step.apply dumps world = (.ok (), after) ∧
      Sound keys dumps (step.Tracks dumps worked world) after := by
  cases step with
  | change key defaultValue value luck =>
      obtain ⟨after, assigned, placed, file, unchanged⟩ :=
        assign_spec free known sound.placed proper
      refine ⟨after, assigned, placed, ?_⟩
      intro worked clean
      obtain ⟨cleanBefore, same⟩ := unchanged clean
      have held := sound.clean worked cleanBefore
      have sameFile := sound.placed.file_eq placed same
      rw [World.Held, same, file, sameFile]
      exact held
  | save luck =>
      refine ⟨_, rfl, placed_saveSettings dumps sound.placed luck, ?_⟩
      intro works _
      rw [Step.Tracks] at works
      cases dirty : world.store.dirty with
      | true =>
          rw [if_pos dirty] at works
          exact held_saveSettings empty (sound.placed.settled locationKey known).root dirty works
      | false =>
          rw [dirty, if_neg Bool.false_ne_true] at works
          rw [saveSettings_of_clean dirty]
          exact sound.clean works dirty

/-- **A run**: nothing raises, whatever file operations fail. -/
theorem Sound.run (free : CollisionFree keys) (known : locationKey ∈ keys)
    (empty : ∀ members, dumps (.object members) = "\x7b\x7d".toList → members = [])
    {worked : Prop} (sound : Sound keys dumps worked world) {steps : List Step}
    (proper : ∀ step ∈ steps, step.Proper keys) :
    ∃ after, world.run dumps steps = (.ok (), after) ∧
      Sound keys dumps (LastWorked dumps steps world worked) after := by
  induction steps generalizing world worked with
  | nil => exact ⟨world, rfl, sound⟩
  | cons step steps ih =>
      obtain ⟨next, applied, soundNext⟩ :=
        sound.step free known empty (proper step List.mem_cons_self)
      obtain ⟨after, ran, soundAfter⟩ := ih soundNext
        (fun other member => proper other (List.mem_cons_of_mem _ member))
      refine ⟨after, ?_, ?_⟩
      · rw [World.run, applied]
        exact ran
      · rw [LastWorked, applied]
        exact soundAfter

end Saving

section Lasting

variable {keys : Set Key} {dumps : Json → Text} {world : World}

/-- A step that does not give up the file leaves it as it is, at each of its moments. -/
theorem Placed.step_lasting (free : CollisionFree keys) (known : locationKey ∈ keys)
    (placed : Placed keys world) {step : Step} (proper : step.Proper keys)
    (lasts : ¬ step.GivesUp dumps world) :
    Placed keys (step.apply dumps world).2 ∧ (step.apply dumps world).2.file = world.file ∧
      (step.apply dumps world).2.files world.file = world.files world.file ∧
      ∀ files ∈ step.moments dumps world, files world.file = world.files world.file := by
  cases step with
  | change key defaultValue value luck =>
      obtain ⟨after, assigned, placedAfter, file, _⟩ := assign_spec free known placed proper
      have location : after.store.fileLocation = world.store.fileLocation := by
        rw [Step.GivesUp, assigned, not_not] at lasts
        exact lasts
      have sameFile : after.file = world.file := by rw [World.file, World.file, location]
      rw [sameFile] at file
      rw [Step.apply, Step.moments, assigned]
      refine ⟨placedAfter, sameFile, file, ?_⟩
      intro files member
      rw [List.mem_singleton.mp member]
      exact file
  | save luck =>
      have saved : (world.saveSettings dumps luck).2.files = world.files ∧
          world.saveMoments dumps luck = [] := by
        unfold World.saveSettings World.saveMoments
        split_ifs with writes
        · have refused : luck.write = .refused := by
            by_contra opened
            exact lasts ⟨writes, opened⟩
          simp [World.written, refused]
        · exact ⟨rfl, rfl⟩
      rw [Step.apply, Step.moments, saved.1, saved.2]
      refine ⟨placed_saveSettings dumps placed luck, file_saveSettings dumps luck world, rfl, ?_⟩
      simp

private theorem Placed.moments_lasting (free : CollisionFree keys) (known : locationKey ∈ keys)
    (placed : Placed keys world) {steps : List Step} (proper : ∀ step ∈ steps, step.Proper keys)
    (lasting : Lasting dumps steps world) :
    ∀ files ∈ world.moments dumps steps, files world.file = world.files world.file := by
  induction steps generalizing world with
  | nil => simp [World.moments]
  | cons step steps ih =>
      obtain ⟨placedAfter, file, contents, moments⟩ :=
        placed.step_lasting free known (proper step List.mem_cons_self) lasting.1
      have rest := ih placedAfter
        (fun other member => proper other (List.mem_cons_of_mem _ member)) lasting.2
      rw [file, contents] at rest
      intro files member
      rcases List.mem_append.mp member with now | later
      · exact moments files now
      · exact rest files later

end Lasting

/-- The settings that the namespaces of the device declare. -/
def declared : List Key :=
  [⟨"settings.buttons".toList, "debounce".toList⟩,
    ⟨"settings.touchscreen".toList, "threshold".toList⟩,
    ⟨"settings.display_amg".toList, "flipped_x".toList⟩,
    ⟨"settings.display_amg".toList, "inverted_colors".toList⟩,
    ⟨"settings.display_amg".toList, "bgr_colors".toList⟩,
    ⟨"settings.display_amg".toList, "lcd_type".toList⟩,
    ⟨"settings.display".toList, "brightness".toList⟩,
    ⟨"settings.display".toList, "flipped_orientation".toList⟩,
    locationKey,
    ⟨"settings.security".toList, "boot_flash_hash".toList⟩,
    themeKey,
    ⟨"settings.appearance".toList, "screensaver_time".toList⟩,
    ⟨"settings.appearance".toList, "locale".toList⟩]

private theorem declared_collisionFree : CollisionFree {key | key ∈ declared} := by
  have free : ∀ first ∈ declared, ∀ second ∈ declared, ¬ first.path <+: second.levels := by decide
  exact free

/-- **Persisted settings.** From a store without a settings file, through any changes of settings
and of the location and any saves, whatever file operations fail: settings that are not dirty are
those of the file, when the last save of dirty settings worked; and what a save that worked has
left stays in its file, at every moment, until the location changes or the file is opened to write
a newer version. -/
theorem settings_persisted {dumps : Json → Text}
    (empty : ∀ members, dumps (.object members) = "\x7b\x7d".toList → members = [])
    {loads : Text → Option Json} {store : Store}
    (started : Store.init loads (fun _ => none) = .ok store)
    {steps : List Step} (proper : ∀ step ∈ steps, step.Proper {key | key ∈ declared}) :
    ∃ world, World.run dumps steps ⟨store, fun _ => none⟩ = (.ok (), world) ∧
      (LastWorked dumps steps ⟨store, fun _ => none⟩ True →
        world.store.dirty = false → world.Held dumps) ∧
      ∀ luck, world.store.dirty = true → (Step.save luck).Works dumps world →
        (world.saveSettings dumps luck).2.Held dumps ∧
        ∀ later, (∀ step ∈ later, step.Proper {key | key ∈ declared}) →
          Lasting dumps later (world.saveSettings dumps luck).2 →
          ∀ files ∈ (world.saveSettings dumps luck).2.moments dumps later,
            files world.file = (world.saveSettings dumps luck).2.files world.file := by
  have known : locationKey ∈ {key | key ∈ declared} := by simp [declared]
  have start : store = ⟨.object [], getVfsLocation flashPath, false⟩ := by
    cases started
    rfl
  have sound : Sound {key | key ∈ declared} dumps True ⟨store, fun _ => none⟩ := by
    subst start
    exact ⟨⟨fun key _ => settled_empty key.levels, .inl ⟨reach_empty (by simp [Key.path]), rfl⟩⟩,
      fun _ _ => .inr ⟨rfl, rfl⟩⟩
  obtain ⟨world, ran, soundAfter⟩ := sound.run declared_collisionFree known empty proper
  refine ⟨world, ran, soundAfter.clean, ?_⟩
  intro luck dirty works
  refine ⟨?_, ?_⟩
  · exact held_saveSettings empty (soundAfter.placed.settled locationKey known).root dirty works
  · intro later properLater lasting
    have placed := placed_saveSettings dumps soundAfter.placed luck
    have moments := placed.moments_lasting declared_collisionFree known properLater lasting
    rw [file_saveSettings] at moments
    exact moments

mutual

/-- `json.dumps` on values without floats, and with texts that need no escapes. -/
def plainDumps : Json → Text
  | .null => "null".toList
  | .bool value => if value then "true".toList else "false".toList
  | .int value => (toString value).toList
  | .float _ => "nan".toList
  | .str value => '"' :: value ++ ['"']
  | .array items => '[' :: plainItems [] items ++ [']']
  | .object members => '\x7b' :: plainMembers [] members ++ ['\x7d']

def plainItems (separator : Text) : List Json → Text
  | [] => []
  | item :: items => separator ++ plainDumps item ++ plainItems ", ".toList items

def plainMembers (separator : Text) : List (Text × Json) → Text
  | [] => []
  | (key, value) :: members =>
      separator ++ '"' :: key ++ "\": ".toList ++ plainDumps value ++
        plainMembers ", ".toList members

end

/-- Only an object without members is written as an empty one. -/
theorem plainDumps_empty (members : List (Text × Json))
    (blank : plainDumps (.object members) = "\x7b\x7d".toList) : members = [] := by
  cases members with
  | nil => rfl
  | cons member members =>
      have lengths := congrArg List.length blank
      simp [plainDumps, plainMembers] at lengths

/-- The world of a device that has just started without a settings file. -/
def blankWorld : World := ⟨⟨.object [], getVfsLocation flashPath, false⟩, fun _ => none⟩

/-- A change of the theme from its default. -/
def changeTheme (theme : Text) : Step :=
  .change themeKey (.str "Dark".toList) (.str theme) .good

/-- A change of the location to the SD card. -/
def moveToCard : Step := .change locationKey (.str flashPath) (.str sdPath) .good

/-- Changing the theme is a proper step. -/
theorem changeTheme_proper (theme : Text) : (changeTheme theme).Proper {key | key ∈ declared} := by
  refine ⟨by simp [declared], by simp, ?_⟩
  intro named
  exact absurd named (by decide)

/-- Moving to the card is a proper step. -/
theorem moveToCard_proper : moveToCard.Proper {key | key ∈ declared} := by
  refine ⟨by simp [declared], by simp, ?_⟩
  intro _
  exact ⟨rfl, rfl, .inr rfl⟩

/-- The settings with another theme, before they are written to the flash and after. -/
def lightWorld (dirty : Bool) : World :=
  let settings : Json := .object [("settings".toList, .object [("appearance".toList,
    .object [("theme".toList, .str "Light".toList)])])]
  ⟨⟨settings, getVfsLocation flashPath, dirty⟩, if dirty then fun _ => none else
    Function.update (fun _ => none) (settingsFile flashPath) (some (plainDumps settings))⟩

/-- The settings with another theme and location, before they are written to the SD card. -/
def movedWorld : World :=
  ⟨⟨.object [("settings".toList, .object [("appearance".toList,
      .object [("theme".toList, .str "Light".toList)]),
      ("persist".toList, .object [("location".toList, .str sdPath)])])],
    getVfsLocation sdPath, true⟩,
    Function.update (lightWorld false).files (settingsFile flashPath) none⟩

/-- What changing the theme does. -/
theorem changeTheme_apply :
    (changeTheme "Light".toList).apply plainDumps blankWorld = (.ok (), lightWorld true) := by
  rfl

/-- What saving the theme does. -/
theorem saveSettings_light :
    (lightWorld true).saveSettings plainDumps .good = (true, lightWorld false) := by
  have writes : (lightWorld true).Writes plainDumps .good := by
    refine ⟨rfl, ?_⟩
    intro blank
    cases plainDumps_empty _ blank
  rw [World.saveSettings, if_pos writes]
  rfl

/-- What moving to the card does. -/
theorem moveToCard_apply :
    moveToCard.apply plainDumps (lightWorld false) = (.ok (), movedWorld) := by
  rfl

/-- The run to the saved theme. -/
theorem run_saved :
    World.run plainDumps [changeTheme "Light".toList, .save .good] blankWorld =
      (.ok (), lightWorld false) := by
  rw [World.run, changeTheme_apply]
  change World.run plainDumps [.save .good] (lightWorld true) = _
  rw [World.run, Step.apply, saveSettings_light]
  rfl

/-- The run to the settings on the card. -/
theorem run_moved :
    World.run plainDumps [changeTheme "Light".toList, .save .good, moveToCard] blankWorld =
      (.ok (), movedWorld) := by
  rw [World.run, changeTheme_apply]
  change World.run plainDumps [.save .good, moveToCard] (lightWorld true) = _
  rw [World.run, Step.apply, saveSettings_light]
  change World.run plainDumps [moveToCard] (lightWorld false) = _
  rw [World.run, moveToCard_apply]
  rfl

/-- A change of the theme is held by the flash once it is saved. After a move it is saved on the SD
card, and stays there while the theme is changed again and cannot be written. -/
theorem settings_persisted_moved :
    (lightWorld false).Held plainDumps ∧
      (movedWorld.saveSettings plainDumps .good).2.Held plainDumps ∧
      ∀ files ∈ (movedWorld.saveSettings plainDumps .good).2.moments plainDumps
          [changeTheme "Orange".toList, .save ⟨true, true, .refused⟩],
        files movedWorld.file =
          (movedWorld.saveSettings plainDumps .good).2.files movedWorld.file := by
  have started : Store.init (fun _ => none) (fun _ => none) = .ok blankWorld.store := rfl
  have works : ∀ world, (Step.save .good).Works plainDumps world :=
    fun world => ⟨fun _ => rfl, fun _ => .inl rfl⟩
  have save : ∀ luck, (Step.save luck).Proper {key | key ∈ declared} := fun _ => trivial
  have theme := changeTheme_proper
  refine ⟨?_, ?_⟩
  · obtain ⟨world, ran, clean, _⟩ :=
      @settings_persisted _ plainDumps_empty _ _ started [changeTheme "Light".toList, .save .good]
        (List.forall_mem_cons.mpr ⟨theme _, List.forall_mem_singleton.mpr (save _)⟩)
    cases ran.symm.trans run_saved
    apply clean _ rfl
    rw [LastWorked, LastWorked, LastWorked, Step.Tracks]
    split_ifs
    · exact works _
    · trivial
  · obtain ⟨world, ran, _, saved⟩ :=
      @settings_persisted _ plainDumps_empty _ _ started
        [changeTheme "Light".toList, .save .good, moveToCard]
        (List.forall_mem_cons.mpr ⟨theme _, List.forall_mem_cons.mpr ⟨save _,
          List.forall_mem_singleton.mpr moveToCard_proper⟩⟩)
    cases ran.symm.trans run_moved
    obtain ⟨held, lasts⟩ := saved .good rfl (works _)
    refine ⟨held, lasts _ ?_ ?_⟩
    · exact List.forall_mem_cons.mpr ⟨theme _, List.forall_mem_singleton.mpr (save _)⟩
    · refine ⟨?_, ?_, trivial⟩
      · intro moves
        exact moves rfl
      · intro written
        exact written.2 rfl

/-- The settings are saved on the flash, and a moment later no file holds them: the move to the SD
card removes the file on the flash before anything is on the card. -/
theorem move_loses_settings :
    (∀ step ∈ [changeTheme "Light".toList, .save .good, moveToCard],
      step.Proper {key | key ∈ declared}) ∧
    (changeTheme "Light".toList).apply plainDumps blankWorld = (.ok (), lightWorld true) ∧
    (lightWorld true).saveSettings plainDumps .good = (true, lightWorld false) ∧
    (lightWorld false).files (settingsFile flashPath) =
      some (plainDumps (lightWorld false).store.settings) ∧
    moveToCard.apply plainDumps (lightWorld false) = (.ok (), movedWorld) ∧
    movedWorld.files (settingsFile flashPath) = none ∧
    movedWorld.files (settingsFile sdPath) = none := by
  refine ⟨?_, changeTheme_apply, saveSettings_light, ?_, moveToCard_apply, ?_, ?_⟩
  · exact List.forall_mem_cons.mpr ⟨changeTheme_proper _, List.forall_mem_cons.mpr ⟨trivial,
      List.forall_mem_singleton.mpr moveToCard_proper⟩⟩
  · simp [lightWorld]
  · simp [movedWorld]
  · rfl

end VaultSeed.Settings
