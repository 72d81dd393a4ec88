import VaultSeed.Foundation.Text
import VaultSeed.Settings.Json

/-! # The settings store

`Store` of `settings.py` in memory: a tree of dictionaries, in which a dotted namespace is a
path. `set` and `delete` walk down the tree itself and build out the dictionaries that are
missing, `delete` removes those that are left empty on its way back, and `get` does its walk
on a copy that went through JSON.
-/

namespace VaultSeed.Settings

open Python

/-- What the settings code raises. -/
inductive Fault where
  | attributeError
  | typeError
  | valueError
  deriving DecidableEq, Repr

/-- `name in node`. -/
def contains : Json → Text → Except Fault Bool
  | .object members, name => .ok (members.lookup name).isSome
  | .array items, name => .ok (items.any fun item => Json.eq item (.str name))
  | .str text, name => .ok (find name text).isSome
  | _, _ => .error .typeError

/-- `node[name]`, for a name that is in the node. -/
def item : Json → Text → Except Fault Json
  | .object members, name => .ok ((members.lookup name).getD .null)
  | _, _ => .error .typeError

/-- `s.get(level, {})`. -/
def child (level : Text) (members : List (Text × Json)) : Json :=
  (members.lookup level).getD (.object [])

/-- The walk of `get` below the levels. -/
def getIn : List Text → Text → Json → Json → Except Fault Json
  | [], name, defaultValue, node => do
      if ← contains node name then item node name else pure defaultValue
  | level :: levels, name, defaultValue, .object members =>
      getIn levels name defaultValue (child level members)
  | _ :: _, _, _, _ => .error .attributeError

/-- The walk of `set`: whether `dirty` is set, and the tree it leaves. -/
def setIn : List Text → Text → Json → Json → Except Fault Bool × Json
  | [], name, value, .object members =>
      if Json.eq ((members.lookup name).getD .null) value then (.ok false, .object members)
      else (.ok true, .object (Dict.put name value members))
  | [], _, _, node => (.error .attributeError, node)
  | level :: levels, name, value, .object members =>
      let below := setIn levels name value (child level members)
      (below.1, .object (Dict.put level below.2 members))
  | _ :: _, _, _, node => (.error .attributeError, node)

/-- `if setting_name in s: del s[setting_name]`. -/
def deleteName (name : Text) (node : Json) : Except Fault Bool × Json :=
  match contains node name with
  | .error fault => (.error fault, node)
  | .ok false => (.ok false, node)
  | .ok true =>
      match node with
      | .object members => (.ok true, .object (Dict.remove name members))
      | _ => (.error .typeError, node)

/-- `if not s[level]: del s[level]`, on the way back up. -/
def prune (level : Text) (members : List (Text × Json)) (below : Except Fault Bool × Json) :
    Except Fault Bool × Json :=
  match below.1 with
  | .error fault => (.error fault, .object (Dict.put level below.2 members))
  | .ok changed =>
      if below.2.truthy then (.ok changed, .object (Dict.put level below.2 members))
      else (.ok true, .object (Dict.remove level members))

/-- The walk of `delete`: whether `dirty` is set, and the tree it leaves. -/
def deleteIn : List Text → Text → Json → Except Fault Bool × Json
  | [], name, node => deleteName name node
  | level :: levels, name, .object members =>
      prune level members (deleteIn levels name (child level members))
  | _ :: _, _, node => (.error .attributeError, node)

/-- A setting: its namespace and its name. -/
structure Key where
  space : Text
  name : Text
  deriving DecidableEq

/-- `namespace.split(".")`. -/
def Key.levels (key : Key) : List Text := key.space.splitOn '.'

/-- Where a setting stands in the tree. -/
def Key.path (key : Key) : List Text := key.levels ++ [key.name]

/-- `Store`. -/
structure Store where
  settings : Json
  fileLocation : Text
  dirty : Bool

namespace Store

/-- The store after a walk. -/
def walked (store : Store) (result : Except Fault Bool × Json) : Except Fault Unit × Store :=
  match result.1 with
  | .ok changed => (.ok (), { store with settings := result.2, dirty := store.dirty || changed })
  | .error fault => (.error fault, { store with settings := result.2 })

/-- `Store.get`, with what `json.loads(json.dumps(_))` makes of the tree. -/
def get (copy : Json → Option Json) (key : Key) (defaultValue : Json) (store : Store) :
    Except Fault Json × Store :=
  match copy store.settings with
  | some copied => (getIn key.levels key.name defaultValue copied, store)
  | none => (.error .valueError, store)

/-- `Store.set`. -/
def set (key : Key) (value : Json) (store : Store) : Except Fault Unit × Store :=
  store.walked (setIn key.levels key.name value store.settings)

/-- `Store.delete`. -/
def delete (key : Key) (store : Store) : Except Fault Unit × Store :=
  store.walked (deleteIn key.levels key.name store.settings)

end Store

end VaultSeed.Settings
