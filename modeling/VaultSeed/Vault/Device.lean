import VaultSeed.Foundation.Effect
import VaultSeed.Foundation.Numerals
import VaultSeed.Foundation.Text
import VaultSeed.Kef.Cipher
import Mathlib.Data.List.AList

/-! # The device

Two media hold the vault's files under the same names: the SD card, and the flash
mirror. Every access to a medium is one operation of the environment
(`VaultSeed.Vault.Env`), which lets it through, makes it raise, or cuts the power
at it; the environment also answers the prompts and types on the keypad. What the
user saw and typed is recorded in the history of the device.
-/

namespace VaultSeed.Vault

open Python Effect

/-- The two media. -/
inductive Disk where
  | sd
  | flash
  deriving DecidableEq, Repr

/-- The directories `vault` and `vault/secrets`. -/
inductive Dir where
  | vault
  | secrets
  deriving DecidableEq, Repr

/-- The files of a vault: `vault/vault.meta`, `vault/manifest.kef` and the files
of `vault/secrets`, by their names. -/
inductive Path where
  | metaFile
  | manifestFile
  | secretFile (name : Text)
  deriving DecidableEq, Repr

/-- The directory of a file. -/
def Path.dir : Path → Dir
  | .metaFile => .vault
  | .manifestFile => .vault
  | .secretFile _ => .secrets

/-- The vault directories and files of one medium. -/
structure Medium where
  vaultDir : Bool
  secretsDir : Bool
  files : AList (fun _ : Path => Bytes)

namespace Medium

/-- A medium without a vault. -/
def blank : Medium := ⟨false, false, ∅⟩

variable (medium : Medium)

def get (path : Path) : Option Bytes := medium.files.lookup path

def put (path : Path) (data : Bytes) : Medium :=
  { medium with files := medium.files.insert path data }

def erase (path : Path) : Medium := { medium with files := medium.files.erase path }

def hasDir : Dir → Bool
  | .vault => medium.vaultDir
  | .secrets => medium.secretsDir

def addDir : Dir → Medium
  | .vault => { medium with vaultDir := true }
  | .secrets => { medium with secretsDir := true }

/-- The names in `vault/secrets`, in directory order. -/
def secretNames : List Text :=
  medium.files.keys.filterMap fun
    | .secretFile name => some name
    | _ => none

/-- Both directories exist. -/
def Ready : Prop := medium.vaultDir = true ∧ medium.secretsDir = true

variable {medium}

/-- A ready medium has all directories. -/
theorem Ready.hasDir (ready : medium.Ready) (dir : Dir) : medium.hasDir dir = true := by
  cases dir with
  | vault => exact ready.1
  | secrets => exact ready.2

@[simp] theorem get_blank (path : Path) : blank.get path = none := rfl

/-- The file that was put is found. -/
@[simp] theorem get_put_self (path : Path) (data : Bytes) :
    (medium.put path data).get path = some data :=
  AList.lookup_insert _

/-- Putting a file leaves the others. -/
theorem get_put_of_ne {path other : Path} (different : other ≠ path) (data : Bytes) :
    (medium.put path data).get other = medium.get other :=
  AList.lookup_insert_ne different

/-- The files after one was put. -/
theorem get_put (path other : Path) (data : Bytes) :
    (medium.put path data).get other = if other = path then some data else medium.get other := by
  by_cases same : other = path
  · subst same
    simp
  · simp only [same, ↓reduceIte, get_put_of_ne same]

/-- An erased file is gone. -/
@[simp] theorem get_erase_self (path : Path) : (medium.erase path).get path = none :=
  AList.lookup_erase _ _

/-- Erasing a file leaves the others. -/
theorem get_erase_of_ne {path other : Path} (different : other ≠ path) :
    (medium.erase path).get other = medium.get other :=
  AList.lookup_erase_ne different

/-- The files after one was erased. -/
theorem get_erase (path other : Path) :
    (medium.erase path).get other = if other = path then none else medium.get other := by
  by_cases same : other = path
  · subst same
    simp
  · simp only [same, ↓reduceIte, get_erase_of_ne same]

/-- Making a directory leaves the files. -/
@[simp] theorem get_addDir (dir : Dir) (path : Path) : (medium.addDir dir).get path =
    medium.get path := by
  cases dir <;> rfl

/-- Putting a file leaves the directories. -/
@[simp] theorem hasDir_put (path : Path) (data : Bytes) (dir : Dir) :
    (medium.put path data).hasDir dir = medium.hasDir dir := by
  cases dir <;> rfl

/-- Erasing a file leaves the directories. -/
@[simp] theorem hasDir_erase (path : Path) (dir : Dir) :
    (medium.erase path).hasDir dir = medium.hasDir dir := by
  cases dir <;> rfl

/-- The names are those of the secret files. -/
theorem mem_secretNames (name : Text) :
    name ∈ medium.secretNames ↔ (medium.get (.secretFile name)).isSome := by
  unfold secretNames get
  rw [AList.lookup_isSome, AList.mem_keys, List.mem_filterMap]
  constructor
  · rintro ⟨path, member, same⟩
    cases path <;> simp at same
    subst same
    exact member
  · intro member
    exact ⟨.secretFile name, member, rfl⟩

end Medium

/-- The places that mount the card with `SDHandler()`. -/
inductive Caller where
  | checkSdCard
  | writeWithMirror (path : Path)
  | restoreMeta
  | restoreManifest
  | restoreSecrets
  | loadMeta
  | loadManifest
  | loadSecret
  deriving DecidableEq, Repr

/-- The individual file operations. Writing a file is opening it, which empties
it, and writing its content. -/
inductive FileOp where
  | mount (caller : Caller)
  | stat (disk : Disk) (path : Path)
  | statDir (disk : Disk) (dir : Dir)
  | mkdir (disk : Disk) (dir : Dir)
  | listSecrets (disk : Disk)
  | read (disk : Disk) (path : Path)
  | openWrite (disk : Disk) (path : Path)
  | write (disk : Disk) (path : Path)
  | remove (disk : Disk) (path : Path)
  deriving DecidableEq, Repr

/-- What the environment does to one operation: nothing, make it raise without
effect, or cut the power at it. A cut in a write leaves a prefix of the content,
any other cut comes before the operation. -/
inductive Fault where
  | none
  | raise
  | cut (left : Nat)
  deriving DecidableEq, Repr

/-- The questions `prompt` asks. -/
inductive Question where
  | retry
  | restoreBackup
  | createNewVault
  | storeAnyway
  | storeSecret
  | deleteSecret
  deriving DecidableEq, Repr

/-- The titles of the keypads. -/
inductive Title where
  | passphrase
  | confirmPassphrase
  | label
  deriving DecidableEq, Repr

/-- The texts `flash_text` and `flash_error` show. -/
inductive Message where
  | vaultRestored
  | restoreFailed (exn : Exn)
  | strength
  | passphrasesDoNotMatch
  | failedToInitialize (exn : Exn)
  | createFailed (exn : Exn)
  | invalidMetadata (exn : Exn)
  | wrongPassphrase
  | tooManyAttempts
  | secretStored
  | failedToStore (exn : Exn)
  | secretDeleted
  | deleteFailed (exn : Exn)
  deriving DecidableEq, Repr

/-- What the user saw and did. -/
inductive Event where
  | asked (question : Question) (answer : Bool)
  | typed (title : Title) (entry : Option Text)
  | shown (message : Message)
  deriving DecidableEq, Repr

def Event.isAsked (question : Question) : Event → Bool
  | .asked other _ => other == question
  | _ => false

def Event.isTyped (title : Title) : Event → Bool
  | .typed other _ => other == title
  | _ => false

/-- The environment of one action of the device: the fate of every occurrence of
every operation, the answers and the entries of the user, each by its number of
occurrence, the random bytes and the time by the number of operations before,
and how many turns of an unbounded loop pass before the device is switched off.
A keypad entry of `none` is the escape key. -/
structure Env where
  fault : FileOp → Nat → Fault
  answer : Question → Nat → Bool
  keypad : Title → Nat → Option Text
  entropy : Nat → Nat → UInt8
  time : Nat → Nat
  patience : Nat

/-- The types of secrets. -/
inductive SecretType where
  | bip39x12
  | bip39x24
  | bip39Invalid
  | nsec
  | npub
  | hex
  | text
  deriving DecidableEq, Repr

/-- An entry of the manifest. -/
structure Entry where
  id : Text
  label : Text
  secretType : SecretType
  createdAt : Nat
  hashPreview : Text
  deriving DecidableEq, Repr

/-- The manifest, `{"secrets": [...]}`. -/
structure Manifest where
  secrets : List Entry
  deriving DecidableEq, Repr

/-- `VaultState`. -/
structure VaultState where
  cipher : Kef.Cipher
  manifest : Manifest
  version : Nat
  iterations : Nat
  deriving DecidableEq

/-- The two media of a device. -/
structure Media where
  sd : Medium
  flash : Medium

namespace Media

variable (media : Media)

def disk : Disk → Medium
  | .sd => media.sd
  | .flash => media.flash

def setDisk (disk : Disk) (medium : Medium) : Media :=
  match disk with
  | .sd => { media with sd := medium }
  | .flash => { media with flash := medium }

end Media

/-- A call of `save_secret` or of `save_manifest`, with the envelope it made. -/
inductive Save where
  | secret (cipher : Kef.Cipher) (secretId : Text) (plaintext envelope : Bytes)
  | manifest (cipher : Kef.Cipher) (manifest : Manifest) (envelope : Bytes)
  deriving DecidableEq

/-- The device: its media, the unlocked vault in RAM (`ctx.vault`), and, of the
current action, the operations and the events of the user interface so far,
latest first. The saves are those of the whole run; no procedure reads them. -/
structure Device extends Media where
  vault : Option VaultState
  trace : List FileOp
  history : List Event
  saves : List Save

namespace Device

variable (device : Device)

def setDisk (disk : Disk) (medium : Medium) : Device :=
  { device with toMedia := device.toMedia.setDisk disk medium }

def push (op : FileOp) : Device := { device with trace := op :: device.trace }

def record (event : Event) : Device := { device with history := event :: device.history }

def noteSave (save : Save) : Device := { device with saves := save :: device.saves }

/-- How often the question was asked. -/
def questions (question : Question) : Nat := device.history.countP (Event.isAsked question)

/-- How often the keypad was shown. -/
def entries (title : Title) : Nat := device.history.countP (Event.isTyped title)

end Device

/-- A procedure of the firmware. -/
abbrev Run (α : Type) := Proc Device Exn α

/-- One operation: the environment decides its fate, `torn` is what a power cut in
its middle leaves. -/
def fileOp (env : Env) (op : FileOp) (torn : Nat → Device → Device) (body : Run α) : Run α :=
  fun device =>
    match env.fault op (device.trace.count op) with
    | .none => body (device.push op)
    | .raise => (.raised .osError, device.push op)
    | .cut left => (.off, torn left (device.push op))

section Operations

variable (env : Env)

/-- `SDHandler.__enter__`. -/
def mount (caller : Caller) : Run Unit :=
  fileOp env (.mount caller) (fun _ device => device) (pure ())

/-- `os.stat` of a file. -/
def stat (disk : Disk) (path : Path) : Run Unit :=
  fileOp env (.stat disk path) (fun _ device => device) fun device =>
    if ((device.disk disk).get path).isSome then (.ok (), device) else (.raised .osError, device)

/-- `os.stat` of a directory. -/
def statDir (disk : Disk) (dir : Dir) : Run Unit :=
  fileOp env (.statDir disk dir) (fun _ device => device) fun device =>
    if (device.disk disk).hasDir dir then (.ok (), device) else (.raised .osError, device)

/-- `os.mkdir`; an existing directory raises, as does a missing parent. -/
def mkdir (disk : Disk) (dir : Dir) : Run Unit :=
  fileOp env (.mkdir disk dir) (fun _ device => device) fun device =>
    if (device.disk disk).hasDir dir ∨ (dir = .secrets ∧ ¬ (device.disk disk).hasDir .vault) then
      (.raised .osError, device)
    else (.ok (), device.setDisk disk ((device.disk disk).addDir dir))

/-- `os.listdir` of the secrets. -/
def listSecrets (disk : Disk) : Run (List Text) :=
  fileOp env (.listSecrets disk) (fun _ device => device) fun device =>
    if (device.disk disk).hasDir .secrets then (.ok (device.disk disk).secretNames, device)
    else (.raised .osError, device)

/-- `open(path, "rb")` and `read`. -/
def read (disk : Disk) (path : Path) : Run Bytes :=
  fileOp env (.read disk path) (fun _ device => device) fun device =>
    match (device.disk disk).get path with
    | some data => (.ok data, device)
    | none => (.raised .osError, device)

/-- `open(path, "wb")`. -/
def openWrite (disk : Disk) (path : Path) : Run Unit :=
  fileOp env (.openWrite disk path) (fun _ device => device) fun device =>
    if (device.disk disk).hasDir path.dir then
      (.ok (), device.setDisk disk ((device.disk disk).put path []))
    else (.raised .osError, device)

/-- `file.write(data)` into the emptied file. Nothing is written of no data. -/
def writeContent (disk : Disk) (path : Path) (data : Bytes) : Run Unit :=
  if data = [] then pure ()
  else
    fileOp env (.write disk path)
      (fun left device => device.setDisk disk ((device.disk disk).put path (data.take left)))
      (Proc.modify fun device => device.setDisk disk ((device.disk disk).put path data))

/-- `SDHandler.write_binary` and `write`, and their flash counterparts. -/
def writeFile (disk : Disk) (path : Path) (data : Bytes) : Run Unit := do
  openWrite env disk path
  writeContent env disk path data

/-- `os.remove`. -/
def remove (disk : Disk) (path : Path) : Run Unit :=
  fileOp env (.remove disk path) (fun _ device => device) fun device =>
    if ((device.disk disk).get path).isSome then
      (.ok (), device.setDisk disk ((device.disk disk).erase path))
    else (.raised .osError, device)

/-- `random_bytes`. -/
def randomBytes (count : Nat) : Run Bytes := fun device =>
  (.ok ((List.range count).map (env.entropy device.trace.length)), device)

/-- `int(time.time())`. -/
def currentTime : Run Nat := fun device => (.ok (env.time device.trace.length), device)

/-- `prompt`. -/
def prompt (question : Question) : Run Bool := fun device =>
  (.ok (env.answer question (device.questions question)),
    device.record (.asked question (env.answer question (device.questions question))))

/-- `capture_from_keypad`. -/
def captureFromKeypad (title : Title) : Run (Option Text) := fun device =>
  (.ok (env.keypad title (device.entries title)),
    device.record (.typed title (env.keypad title (device.entries title))))

/-- `flash_text` and `flash_error`. -/
def flashMessage (message : Message) : Run Unit :=
  Proc.modify fun device => device.record (.shown message)

/-- `ctx.vault`; a page of a locked vault raises. -/
def currentVault : Run VaultState := fun device =>
  match device.vault with
  | some vault => (.ok vault, device)
  | none => (.raised (.typeError "NoneType"), device)

end Operations

end VaultSeed.Vault
