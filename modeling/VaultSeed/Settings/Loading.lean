import VaultSeed.Foundation.Effect
import VaultSeed.Settings.FlatMap

/-! # Loading the settings

`Store()` loads the settings of the SD card, and those of the flash unless the former say that
they are kept on the card, whatever JSON value the files hold. A setting is then read from what
was loaded, and a value that does not suit it is replaced by its default. Nothing raises and
every setting has a value of its own exactly when there are dictionaries where the code walks
through (`loads_totally_iff`).
-/

namespace VaultSeed.Settings

open Python Effect

/-- `SD_PATH`. -/
def sdPath : Text := "sd".toList

/-- `FLASH_PATH`. -/
def flashPath : Text := "flash".toList

/-- `SETTINGS_FILENAME`. -/
def settingsFilename : Text := "settings.json".toList

/-- `Store.get_vfs_location`. -/
def getVfsLocation (location : Text) : Text := '/' :: (location ++ ['/'])

/-- The name of the settings file at a location. -/
def settingsFile (location : Text) : Text := getVfsLocation location ++ settingsFilename

/-- `node.get(name, default_value)`. -/
def dictGet : Json → Text → Json → Except Fault Json
  | .object members, name, defaultValue => .ok ((members.lookup name).getD defaultValue)
  | _, _, _ => .error .attributeError

/-- `self.settings.get("settings", {}).get("persist", {}).get("location", default_value)`. -/
def locationSetting (settings defaultValue : Json) : Except Fault Json := do
  let namespaces ← dictGet settings "settings".toList (.object [])
  let persist ← dictGet namespaces "persist".toList (.object [])
  dictGet persist "location".toList defaultValue

/-- `Store._load_settings`: what cannot be opened or is not JSON leaves the settings as they
are. -/
def loadSettings (loads : Text → Option Json) (files : Text → Option Text) (location : Text)
    (settings : Json) : Json :=
  ((files (location ++ settingsFilename)).bind loads).getD settings

/-- The last step of `Store()`: the settings stay where they say, else on the flash. -/
def Store.located (settings : Json) : Except Fault Store := do
  match ← locationSetting settings (.str flashPath) with
  | .str location => pure ⟨settings, getVfsLocation location, false⟩
  | _ => throw .typeError

/-- `Store()`, with `json.loads` and the files there are. -/
def Store.init (loads : Text → Option Json) (files : Text → Option Text) : Except Fault Store := do
  let settings := loadSettings loads files (getVfsLocation sdPath) (.object [])
  let fileLocation ← locationSetting settings (.str "undefined".toList)
  if ← contains fileLocation sdPath then Store.located settings
  else Store.located (loadSettings loads files (getVfsLocation flashPath) settings)

/-- `CategorySetting`. The default is one of the categories. -/
structure CategorySetting where
  key : Key
  defaultValue : Json
  categories : List Json
  defaultKnown : categories.any (fun category => category.eq defaultValue) = true

/-- `CategorySetting.__get__`. -/
def CategorySetting.read (setting : CategorySetting) (copy : Json → Option Json) (store : Store) :
    Except Fault Json := do
  let stored ← (store.get copy setting.key setting.defaultValue).1
  if setting.categories.any (fun category => category.eq stored) then pure stored
  else pure setting.defaultValue

/-- What a `LinkedCategorySetting` changes in the setting it is linked to. -/
structure Linked where
  categories : List Json
  defaultValue : Json

/-- `LinkedCategorySetting`, with the conditions that it applies to its linked setting. -/
structure LinkedCategorySetting extends CategorySetting where
  conditions : List (Json → Linked → List Json × Json)

/-- `LinkedCategorySetting.__get__`: the value, and the linked setting after it. -/
def LinkedCategorySetting.read (setting : LinkedCategorySetting) (copy : Json → Option Json)
    (store : Store) (linked : Linked) : Except Fault (Json × Linked) := do
  let stored ← (store.get copy setting.key setting.defaultValue).1
  let linked := setting.conditions.foldl (fun linked condition =>
    ⟨(condition stored linked).1, (condition stored linked).2⟩) linked
  if setting.categories.any (fun category => category.eq stored) then pure (stored, linked)
  else pure (setting.defaultValue, linked)

/-- `numtype`. -/
inductive NumType where
  | int
  | float
  deriving DecidableEq, Repr

/-- `isinstance(value, int)`, or `isinstance(value, (float, int))`. A boolean is neither on the
device. -/
def NumType.holds : NumType → Json → Bool
  | int, .int _ => true
  | float, .int _ => true
  | float, .float _ => true
  | _, _ => false

/-- `low <= value <= high` for a number. -/
def within (low high : Rat) (value : Json) : Bool :=
  match value.number with
  | some (.finite number) => decide (low ≤ number ∧ number ≤ high)
  | _ => false

/-- `NumberSetting`. The default is within the range. -/
structure NumberSetting where
  numtype : NumType
  key : Key
  defaultValue : Json
  low : Rat
  high : Rat
  defaultWithin : within low high defaultValue = true

/-- `NumberSetting.__get__`. -/
def NumberSetting.read (setting : NumberSetting) (copy : Json → Option Json) (store : Store) :
    Except Fault Json := do
  let stored ← (store.get copy setting.key setting.defaultValue).1
  if setting.numtype.holds stored && within setting.low setting.high stored then pure stored
  else pure setting.defaultValue

/-- Where the location is kept. -/
def locationPath : List Text := ["settings".toList, "persist".toList, "location".toList]

/-- There are dictionaries along the levels, as far as there is anything. -/
def Walkable : List Text → Json → Prop
  | [], _ => True
  | level :: levels, tree => ∃ members,
      tree = .object members ∧ Walkable levels (child level members)

/-- A value that can be asked for a name, and does not have it where it is no dictionary. -/
def Answers (name : Text) : Json → Prop
  | .object _ => True
  | .array items => .str name ∉ items
  | .str text => ¬ name <:+: text
  | _ => False

/-- There are dictionaries along the levels, and a value that answers at their end. -/
def Readable (name : Text) : List Text → Json → Prop
  | [], node => Answers name node
  | level :: levels, tree =>
      ∃ members, tree = .object members ∧ Readable name levels (child level members)

/-- A value that can be asked for a name. -/
def Askable : Json → Prop
  | .object _ => True
  | .array _ => True
  | .str _ => True
  | _ => False

/-- What is loaded from the SD card: nothing that is JSON counts as an empty dictionary. -/
def sdTree (loads : Text → Option Json) (files : Text → Option Text) : Json :=
  ((files (settingsFile sdPath)).bind loads).getD (.object [])

/-- Whether settings say that they are kept on the SD card. -/
def keptOnSd (tree : Json) : Bool :=
  match (reach locationPath tree).map fun location => contains location sdPath with
  | some (.ok answer) => answer
  | _ => false

/-- What is loaded: the settings of the SD card when they say so, else those of the flash when
there are any. -/
def loadedTree (loads : Text → Option Json) (files : Text → Option Text) : Json :=
  if keptOnSd (sdTree loads files) then sdTree loads files
  else ((files (settingsFile flashPath)).bind loads).getD (sdTree loads files)

section Walks

private theorem readable_object {name level : Text} {levels : List Text}
    {members : List (Text × Json)} :
    Readable name (level :: levels) (.object members) ↔
      Readable name levels (child level members) := by
  simp [Readable]

private theorem dictGet_eq_ok {node defaultValue value : Json} {name : Text} :
    dictGet node name defaultValue = .ok value ↔
      ∃ members, node = .object members ∧ value = (members.lookup name).getD defaultValue := by
  cases node with
  | object members => simp [dictGet, eq_comm]
  | _ => simp [dictGet]

/-- The location is found, or the default is returned, exactly where there are dictionaries. -/
theorem locationSetting_eq_ok {tree defaultValue value : Json} :
    locationSetting tree defaultValue = .ok value ↔
      Walkable locationPath tree ∧ value = (reach locationPath tree).getD defaultValue := by
  have reached : ∀ {root namespaces persist : List (Text × Json)},
      child "settings".toList root = .object namespaces →
      child "persist".toList namespaces = .object persist →
      reach locationPath (.object root) = persist.lookup "location".toList := by
    intro root namespaces persist settings location
    rw [locationPath, ← reach_child (by simp), settings, ← reach_child (by simp),
      location, reach_object]
    cases persist.lookup "location".toList <;> rfl
  constructor
  · intro found
    obtain ⟨first, settings, found⟩ := bind_eq_ok.mp found
    obtain ⟨second, persist, found⟩ := bind_eq_ok.mp found
    obtain ⟨root, rfl, rfl⟩ := dictGet_eq_ok.mp settings
    obtain ⟨namespaces, walked, rfl⟩ := dictGet_eq_ok.mp persist
    obtain ⟨members, inner, rfl⟩ := dictGet_eq_ok.mp found
    refine ⟨⟨root, rfl, namespaces, walked, members, inner, trivial⟩, ?_⟩
    rw [reached walked inner]
  · rintro ⟨⟨root, rfl, namespaces, settings, persist, location, _⟩, rfl⟩
    rw [reached settings location]
    refine bind_eq_ok.mpr ⟨_, dictGet_eq_ok.mpr ⟨root, rfl, rfl⟩, ?_⟩
    refine bind_eq_ok.mpr ⟨_, dictGet_eq_ok.mpr ⟨namespaces, settings, rfl⟩, ?_⟩
    exact dictGet_eq_ok.mpr ⟨persist, location, rfl⟩

private theorem contains_ok_iff {node : Json} {name : Text} :
    (∃ answer, contains node name = .ok answer) ↔ Askable node := by
  cases node <;> simp [contains, Askable]

/-- Only a text equals a text. -/
theorem eq_str_iff {value : Json} {text : Text} :
    Json.eq value (.str text) = true ↔ value = .str text := by
  cases value <;> simp [Json.eq, Json.number, Json.numberEq]

private theorem getIn_nil (name : Text) (defaultValue node : Json) :
    getIn [] name defaultValue node =
    contains node name >>= fun answer =>
      if answer = true then item node name else pure defaultValue := rfl

/-- A list or a text does not have the name: `node[name]` raises for both. -/
theorem getIn_nil_ok_iff {name : Text} {node defaultValue : Json} :
    (∃ value, getIn [] name defaultValue node = .ok value) ↔ Answers name node := by
  rw [getIn_nil]
  cases node with
  | object members =>
      rw [contains, ok_bind, Answers, iff_true]
      split_ifs
      · exact ⟨_, rfl⟩
      · exact ⟨_, rfl⟩
  | array items =>
      have asked : (items.any fun item => Json.eq item (.str name)) = true ↔ .str name ∈ items := by
        simp [eq_str_iff]
      rw [contains, ok_bind, Answers, ← asked]
      split_ifs with found
      · simp [item, found]
      · exact iff_of_true ⟨_, rfl⟩ found
  | str text =>
      rw [contains, ok_bind, Answers, ← find_isSome]
      split_ifs with found
      · simp [item, found]
      · exact iff_of_true ⟨_, rfl⟩ found
  | _ => simp [contains, Answers]

/-- A value is found, or the default is returned, exactly where the walk can be done. -/
theorem getIn_ok_iff {levels : List Text} {name : Text} {tree defaultValue : Json} :
    (∃ value, getIn levels name defaultValue tree = .ok value) ↔ Readable name levels tree := by
  induction levels generalizing tree with
  | nil => exact getIn_nil_ok_iff
  | cons level levels ih =>
      cases tree with
      | object members => simp [getIn, Readable, ih]
      | _ => simp [getIn, Readable]

end Walks

/-- What else the code relies on in `json.loads(json.dumps(_))`: a text comes back as it is, a
list with the same texts in it, and what is no text, no list and no dictionary as such. -/
structure KeepsShape (copy : Json → Option Json) : Prop extends Copies copy where
  text : ∀ text copied, copy (.str text) = some copied → copied = .str text
  list : ∀ items copied, copy (.array items) = some copied →
    ∃ copies, copied = .array copies ∧ ∀ text, .str text ∈ copies ↔ .str text ∈ items
  plain : ∀ value copied, ¬ Askable value → copy value = some copied → ¬ Askable copied

section Copying

variable {copy : Json → Option Json} (law : KeepsShape copy)

include law

private theorem KeepsShape.answers_iff {name : Text} {node copied : Json}
    (made : copy node = some copied) :
    Answers name copied ↔ Answers name node := by
  cases node with
  | object members =>
      obtain ⟨copies, whole, _⟩ :=
        law.object members (law.inner members (by rw [made, Option.isSome_some]))
      rw [made] at whole
      cases whole
      exact Iff.rfl
  | array items =>
      obtain ⟨copies, rfl, same⟩ := law.list items copied made
      exact not_congr (same name)
  | str text => rw [law.text text copied made]
  | _ =>
      have other := law.plain _ copied (by simp [Askable]) made
      cases copied <;> simp [Askable, Answers] at other ⊢

/-- A copy can be read exactly as what it was made of. -/
theorem KeepsShape.readable_iff {levels : List Text} {name : Text} {tree copied : Json}
    (made : copy tree = some copied) : Readable name levels copied ↔ Readable name levels tree := by
  induction levels generalizing tree copied with
  | nil => exact law.answers_iff made
  | cons level levels ih =>
      cases tree with
      | object members =>
          have inner := law.inner members (by rw [made, Option.isSome_some])
          obtain ⟨copies, whole, lookup⟩ := law.object members inner
          rw [made] at whole
          cases whole
          have entry := lookup level
          rw [readable_object, readable_object]
          cases found : members.lookup level with
          | none =>
              rw [found, Option.bind_none] at entry
              rw [child, child, found, entry]
          | some below =>
              obtain ⟨copied, made⟩ :=
                Option.isSome_iff_exists.mp (inner _ (Dict.mem_of_lookup found))
              rw [found, Option.bind_some, made] at entry
              rw [child, child, found, entry]
              exact ih made
      | array items =>
          obtain ⟨copies, rfl, _⟩ := law.list items copied made
          simp [Readable]
      | str text =>
          rw [law.text text copied made]
      | _ =>
          have other := law.plain _ copied (by simp [Askable]) made
          cases copied <;> simp [Askable, Readable] at other ⊢

/-- A setting is found, or its default is returned, exactly where JSON reads back the tree and
the walk can be done. -/
theorem KeepsShape.get_ok_iff {key : Key} {defaultValue : Json} {store : Store} :
    (∃ value, (store.get copy key defaultValue).1 = .ok value) ↔
      (copy store.settings).isSome = true ∧ Readable key.name key.levels store.settings := by
  cases made : copy store.settings with
  | none => simp [Store.get, made]
  | some copied =>
      rw [← law.readable_iff made, ← @getIn_ok_iff _ _ _ defaultValue, Store.get, made]
      simp

end Copying

/-- A setting that can be read. -/
inductive Declared where
  | category (setting : CategorySetting)
  | linked (setting : LinkedCategorySetting) (other : Linked)
  | number (setting : NumberSetting)

namespace Declared

def key : Declared → Key
  | category setting => setting.key
  | linked setting _ => setting.key
  | number setting => setting.key

/-- `__get__`. -/
def read (copy : Json → Option Json) (store : Store) : Declared → Except Fault Json
  | category setting => setting.read copy store
  | linked setting other => (setting.read copy store other).map Prod.fst
  | number setting => setting.read copy store

/-- A member of the categories, or a number within the range. -/
def Valid (value : Json) : Declared → Prop
  | category setting => ∃ category ∈ setting.categories, category.eq value = true
  | linked setting _ => ∃ category ∈ setting.categories, category.eq value = true
  | number setting => within setting.low setting.high value = true

def defaultValue : Declared → Json
  | category setting => setting.defaultValue
  | linked setting _ => setting.defaultValue
  | number setting => setting.defaultValue

end Declared

/-- The settings load totally: `Store()` raises nothing, and every setting is read as a valid
value. -/
def LoadsTotally (loads : Text → Option Json) (copy : Json → Option Json)
    (files : Text → Option Text) (declared : Set Declared) : Prop :=
  ∃ store, Store.init loads files = .ok store ∧
    ∀ setting ∈ declared, ∃ value, setting.read copy store = .ok value ∧ setting.Valid value

/-- The files have the shape that loading relies on. -/
structure Shaped (loads : Text → Option Json) (copy : Json → Option Json)
    (files : Text → Option Text) (declared : Set Declared) : Prop where
  /-- On the SD card there are dictionaries down to the location, which can be asked for a
  name. -/
  card : Walkable locationPath (sdTree loads files)
  place : ∀ location, reach locationPath (sdTree loads files) = some location → Askable location
  /-- In what is loaded there are dictionaries down to the location, which is a text. -/
  walkable : Walkable locationPath (loadedTree loads files)
  text : ∀ location, reach locationPath (loadedTree loads files) = some location →
    ∃ text, location = .str text
  /-- JSON reads back what it writes of it. -/
  copied : declared.Nonempty → (copy (loadedTree loads files)).isSome = true
  /-- Every setting has dictionaries along its namespace, or none of it. -/
  readable : ∀ setting ∈ declared,
    Readable setting.key.name setting.key.levels (loadedTree loads files)

section Reading

variable {copy : Json → Option Json} {store : Store}

private theorem exists_category {categories : List Json} {value : Json}
    (known : categories.any (fun category => category.eq value) = true) :
    ∃ category ∈ categories, category.eq value = true :=
  List.any_eq_true.mp known

/-- Whatever is stored, the value that is read is valid. -/
theorem Declared.read_of_get {setting : Declared} {stored : Json}
    (found : (store.get copy setting.key setting.defaultValue).1 = .ok stored) :
    ∃ value, setting.read copy store = .ok value ∧ setting.Valid value := by
  cases setting with
  | category setting =>
      change (store.get copy setting.key setting.defaultValue).1 = .ok stored at found
      rw [Declared.read, CategorySetting.read, found, ok_bind]
      split_ifs with known
      · exact ⟨stored, rfl, exists_category known⟩
      · exact ⟨setting.defaultValue, rfl, exists_category setting.defaultKnown⟩
  | linked setting other =>
      change (store.get copy setting.key setting.defaultValue).1 = .ok stored at found
      rw [Declared.read, LinkedCategorySetting.read, found, ok_bind]
      dsimp only
      split_ifs with known
      · exact ⟨stored, rfl, exists_category known⟩
      · exact ⟨setting.defaultValue, rfl, exists_category setting.defaultKnown⟩
  | number setting =>
      change (store.get copy setting.key setting.defaultValue).1 = .ok stored at found
      rw [Declared.read, NumberSetting.read, found, ok_bind]
      split_ifs with suits
      · exact ⟨stored, rfl, (Bool.and_eq_true _ _ ▸ suits).2⟩
      · exact ⟨setting.defaultValue, rfl, setting.defaultWithin⟩

/-- What is read was found. -/
theorem Declared.get_of_read {setting : Declared} {value : Json}
    (read : setting.read copy store = .ok value) :
    ∃ stored, (store.get copy setting.key setting.defaultValue).1 = .ok stored := by
  cases setting with
  | category setting =>
      obtain ⟨stored, found, _⟩ := bind_eq_ok.mp read
      exact ⟨stored, found⟩
  | linked setting other =>
      cases result : setting.read copy store other with
      | error fault =>
          rw [Declared.read, result] at read
          cases read
      | ok pair =>
          obtain ⟨stored, found, _⟩ := bind_eq_ok.mp result
          exact ⟨stored, found⟩
  | number setting =>
      obtain ⟨stored, found, _⟩ := bind_eq_ok.mp read
      exact ⟨stored, found⟩

/-- A setting is read as a valid value exactly where JSON reads back the tree and the walk can
be done. -/
theorem KeepsShape.read_valid_iff (law : KeepsShape copy) (setting : Declared) :
    (∃ value, setting.read copy store = .ok value ∧ setting.Valid value) ↔
      (copy store.settings).isSome = true ∧
        Readable setting.key.name setting.key.levels store.settings := by
  rw [← @KeepsShape.get_ok_iff copy law setting.key setting.defaultValue]
  constructor
  · rintro ⟨value, read, _⟩
    exact setting.get_of_read read
  · rintro ⟨stored, found⟩
    exact Declared.read_of_get found

end Reading

section Initializing

variable {loads : Text → Option Json} {files : Text → Option Text}

/-- The location, or the default, as a text. -/
theorem located_eq_ok {tree : Json} {store : Store} : Store.located tree = .ok store ↔
    Walkable locationPath tree ∧ ∃ text,
      (reach locationPath tree).getD (.str flashPath) = .str text ∧
      store = ⟨tree, getVfsLocation text, false⟩ := by
  rw [Store.located, bind_eq_ok]
  constructor
  · rintro ⟨location, found, placed⟩
    obtain ⟨walkable, rfl⟩ := locationSetting_eq_ok.mp found
    refine ⟨walkable, ?_⟩
    split at placed
    · rename_i text same
      cases placed
      exact ⟨text, same, rfl⟩
    · cases placed
  · rintro ⟨walkable, text, same, rfl⟩
    refine ⟨_, locationSetting_eq_ok.mpr ⟨walkable, rfl⟩, ?_⟩
    rw [same]
    rfl

/-- Asked for the card, the location gives the answer that settles what is loaded. -/
theorem contains_location {tree : Json} {answer : Bool}
    (asked : contains ((reach locationPath tree).getD (.str "undefined".toList)) sdPath =
      .ok answer) :
    keptOnSd tree = answer := by
  rw [keptOnSd]
  cases located : reach locationPath tree with
  | none =>
      rw [located] at asked
      cases asked
      rfl
  | some location =>
      rw [located] at asked
      rw [Option.map_some]
      change contains location sdPath = .ok answer at asked
      rw [asked]

/-- `Store()` raises nothing exactly where both files have the shape for it. -/
theorem init_eq_ok {store : Store} : Store.init loads files = .ok store ↔
    Walkable locationPath (sdTree loads files) ∧
      Askable ((reach locationPath (sdTree loads files)).getD (.str "undefined".toList)) ∧
      Store.located (loadedTree loads files) = .ok store := by
  have walked : Store.init loads files =
      locationSetting (sdTree loads files) (.str "undefined".toList) >>= fun fileLocation =>
        contains fileLocation sdPath >>= fun answer =>
          if answer = true then Store.located (sdTree loads files)
          else Store.located (((files (settingsFile flashPath)).bind loads).getD
            (sdTree loads files)) := rfl
  rw [walked, bind_eq_ok, loadedTree]
  constructor
  · rintro ⟨fileLocation, found, asked⟩
    obtain ⟨walkable, rfl⟩ := locationSetting_eq_ok.mp found
    obtain ⟨answer, asked, placed⟩ := bind_eq_ok.mp asked
    refine ⟨walkable, contains_ok_iff.mp ⟨answer, asked⟩, ?_⟩
    rw [contains_location asked, apply_ite Store.located]
    exact placed
  · rintro ⟨walkable, askable, placed⟩
    obtain ⟨answer, asked⟩ := contains_ok_iff.mpr askable
    refine ⟨_, locationSetting_eq_ok.mpr ⟨walkable, rfl⟩, bind_eq_ok.mpr ⟨answer, asked, ?_⟩⟩
    rw [contains_location asked, apply_ite Store.located] at placed
    exact placed

end Initializing

/-- **When the settings load totally**: exactly when the files have the shape that loading
relies on. -/
theorem loads_totally_iff {copy : Json → Option Json} (law : KeepsShape copy)
    (loads : Text → Option Json) (files : Text → Option Text) (declared : Set Declared) :
    LoadsTotally loads copy files declared ↔ Shaped loads copy files declared := by
  constructor
  · rintro ⟨store, started, reads⟩
    obtain ⟨card, askable, placed⟩ := init_eq_ok.mp started
    obtain ⟨walkable, text, located, rfl⟩ := located_eq_ok.mp placed
    have valid := fun setting known => (law.read_valid_iff setting).mp (reads setting known)
    refine ⟨card, ?_, walkable, ?_, ?_, fun setting known => (valid setting known).2⟩
    · intro location found
      rw [found] at askable
      exact askable
    · intro location found
      rw [found] at located
      exact ⟨text, located⟩
    · rintro ⟨setting, known⟩
      exact (valid setting known).1
  · intro shaped
    have askable : Askable ((reach locationPath (sdTree loads files)).getD
        (.str "undefined".toList)) := by
      cases found : reach locationPath (sdTree loads files) with
      | none => trivial
      | some location => exact shaped.place location found
    obtain ⟨text, located⟩ : ∃ text, (reach locationPath (loadedTree loads files)).getD
        (.str flashPath) = .str text := by
      cases found : reach locationPath (loadedTree loads files) with
      | none => exact ⟨flashPath, rfl⟩
      | some location => exact shaped.text location found
    refine ⟨⟨loadedTree loads files, getVfsLocation text, false⟩,
      init_eq_ok.mpr ⟨shaped.card, askable,
      located_eq_ok.mpr ⟨shaped.walkable, text, located, rfl⟩⟩, ?_⟩
    intro setting known
    exact (law.read_valid_iff setting).mpr ⟨shaped.copied ⟨setting, known⟩,
      shaped.readable setting known⟩

private theorem keepsShape_some : KeepsShape some := by
  refine ⟨copies_some, ?_, ?_, ?_⟩
  · rintro text copied ⟨⟩
    rfl
  · rintro items copied ⟨⟩
    exact ⟨items, rfl, fun text => Iff.rfl⟩
  · rintro value copied plain ⟨⟩
    exact plain

/-- `appearance.theme` as it is declared. -/
def themeSetting : Declared :=
  .category ⟨themeKey, .str "Dark".toList, [.str "Dark".toList, .str "Light".toList,
    .str "Orange".toList, .str "CypherPunk".toList, .str "CypherPink".toList], by decide⟩

/-- `buttons.debounce` as it is declared. -/
def debounceSetting : Declared :=
  .number ⟨.int, ⟨"settings.buttons".toList, "debounce".toList⟩, .int 100, 100, 500, by decide⟩

/-- Three JSON texts and their values: settings that are kept on the SD card, an empty list, and
settings with a number for a namespace. -/
def sampleTexts : List (Text × Json) :=
  [("\x7b\"settings\": \x7b\"persist\": \x7b\"location\": \"sd\"\x7d\x7d\x7d".toList, onSdCard),
    ("[]".toList, .array []),
    ("\x7b\"settings\": \x7b\"appearance\": 3\x7d\x7d".toList,
      .object [("settings".toList, .object [("appearance".toList, .int 3)])])]

/-- `json.loads` on these texts. -/
def sampleLoads (text : Text) : Option Json := sampleTexts.lookup text

/-- A settings file with the text of a number, and no other file. -/
def oneFile (location : Text) (number : Nat) (name : Text) : Option Text :=
  if name = settingsFile location then (sampleTexts[number]?).map Prod.fst else none

/-- Settings that are kept on the SD card load totally. -/
theorem loads_totally_iff_card :
    LoadsTotally sampleLoads some (oneFile sdPath 0) {themeSetting, debounceSetting} := by
  have card : sdTree sampleLoads (oneFile sdPath 0) = onSdCard := rfl
  have loaded : loadedTree sampleLoads (oneFile sdPath 0) = onSdCard := rfl
  have walkable : Walkable locationPath onSdCard := ⟨_, rfl, _, rfl, _, rfl, trivial⟩
  have located : reach locationPath onSdCard = some (.str sdPath) := rfl
  apply (loads_totally_iff keepsShape_some _ _ _).mpr
  refine ⟨card ▸ walkable, ?_, loaded ▸ walkable, ?_, fun _ => rfl, ?_⟩
  · rw [card, located]
    rintro location ⟨⟩
    trivial
  · rw [loaded, located]
    rintro location ⟨⟩
    exact ⟨_, rfl⟩
  · rw [loaded]
    rintro setting (rfl | rfl)
    · have levels : themeSetting.key.levels = ["settings".toList, "appearance".toList] := by decide
      rw [levels]
      exact ⟨_, rfl, _, rfl, trivial⟩
    · have levels : debounceSetting.key.levels = ["settings".toList, "buttons".toList] := by decide
      rw [levels]
      exact ⟨_, rfl, _, rfl, trivial⟩

/-- A list on the SD card makes `Store()` raise; with a number for the namespace the theme cannot
be read. -/
theorem unshaped_files_raise :
    ¬ LoadsTotally sampleLoads some (oneFile sdPath 1) {themeSetting} ∧
    ¬ LoadsTotally sampleLoads some (oneFile flashPath 2) {themeSetting} := by
  constructor
  · rintro ⟨store, started, _⟩
    cases started
  · rintro ⟨store, started, reads⟩
    cases started
    obtain ⟨value, read, _⟩ := reads themeSetting rfl
    cases read

end VaultSeed.Settings
