import VaultSeed.Foundation.Numerals
import VaultSeed.Foundation.Text
import VaultSeed.Foundation.Windows

/-! # What a firmware file says about itself

The checks of `firmware.py` that look into a firmware file: its size, the type of the board it
is for, and its version. The file is read in chunks, so the searches go through overlapping
windows.
-/

namespace VaultSeed.Firmware

open Python Windows

/-- `READ_FIRMWARE_BUFFER`. -/
def readFirmwareBuffer : Nat := 2 ^ 14

/-- `READ_FIRMWARE_VERSION_BUFFER`. -/
def readFirmwareVersionBuffer : Nat := 2 ^ 10

/-- `FIRMWARE_VERSION_CHUNK_OVERLAP`. -/
def firmwareVersionChunkOverlap : Nat := 120

/-- `DEVICE_TYPE_CHUNK_OVERLAP`. -/
def deviceTypeChunkOverlap : Nat := 20

/-- `CALVER_SIZE`. -/
def calverSize : Nat := 7

/-- The boards the firmware is built for. -/
inductive Board where
  | amigo
  | bit
  | cube
  | dock
  | m5stickv
  | tzt
  | wonderK
  | wonderMv
  | yahboom
  deriving DecidableEq, Repr

/-- `board.config["type"]`. -/
def Board.type : Board → Text
  | amigo => "amigo".toList
  | bit => "bit".toList
  | cube => "cube".toList
  | dock => "dock".toList
  | m5stickv => "m5stickv".toList
  | tzt => "tzt".toList
  | wonderK => "wonder_k".toList
  | wonderMv => "wonder_mv".toList
  | yahboom => "yahboom".toList

/-- The type of a board in quotation marks. -/
def Board.quoted (board : Board) : Bytes := encode ('"' :: board.type ++ ['"'])

/-- `fsize`. -/
def fsize (file : Bytes) : Nat := ((chunks readFirmwareBuffer file).map List.length).sum

/-- `find_all_occurrences`, for at most `fuel` occurrences from a position on. -/
def findOccurrences (pattern : Bytes) : Nat → Nat → Bytes → List Nat
  | 0, _, _ => []
  | fuel + 1, start, data =>
      match find pattern data with
      | none => []
      | some position =>
          (start + position) :: findOccurrences pattern fuel (start + position + pattern.length)
            (data.drop (position + pattern.length))

/-- `find_all_occurrences`. -/
def findAllOccurrences (data pattern : Bytes) : List Nat :=
  findOccurrences pattern (data.length + 1) 0 data

/-- A byte that is a decimal digit. -/
def isDigitByte (byte : UInt8) : Bool := decide ('0'.toNat ≤ byte.toNat ∧ byte.toNat ≤ '9'.toNat)

/-- Seven bytes of the form `dd.dd.d`. -/
def isCalver (chunk : Bytes) : Bool :=
  match chunk with
  | [a, b, c, d, e, f, g] =>
      isDigitByte a && isDigitByte b && c.toNat == '.'.toNat && isDigitByte d && isDigitByte e &&
        f.toNat == '.'.toNat && isDigitByte g
  | _ => false

/-- `extract_calver`. -/
def extractCalver (context : Bytes) : Option Text :=
  (List.range (context.length + 1 - calverSize)).findSome? fun i =>
    let chunk := (context.drop i).take calverSize
    if isCalver chunk then some (chunk.map fun byte => Char.ofNat byte.toNat) else none

/-- The version next to the name of `metadata.py` in a window. -/
def windowVersion (firmwareData : Bytes) : Option Text :=
  let delta := 100
  (findAllOccurrences firmwareData (encode "krux/metadata.py".toList)).findSome? fun pos =>
    extractCalver ((firmwareData.take (min (pos + delta) firmwareData.length)).drop (pos - delta))

/-- The version of a file: the one found last. -/
def fileVersion (file : Bytes) : Option Text :=
  (windows firmwareVersionChunkOverlap [] (chunks readFirmwareVersionBuffer file)).foldl
    (fun newVersion firmwareData => (windowVersion firmwareData).or newVersion) none

/-- `tuple(map(int, parts))`. -/
def versionNumbers (parts : List Text) : Option (List Int) := parts.mapM (int 0)

/-- The numbers of `VERSION`; a last part that is not a number counts as `-1`. -/
def currentVersion (version : Text) : Option (List Int) :=
  let parts := version.splitOn '.'
  match int 0 (parts.getLastD []) with
  | some _ => versionNumbers parts
  | none => (versionNumbers parts.dropLast).map (· ++ [-1])

/-- `is_version_greater`: the version of the file when it is greater. -/
def isVersionGreater (version : Text) (file : Bytes) : Except Exn (Option Text) :=
  match fileVersion file with
  | none => .error (.valueError "Error checking versions")
  | some newVersion =>
      match versionNumbers (newVersion.splitOn '.'), currentVersion version with
      | some newVer, some currVer => .ok (if currVer < newVer then some newVersion else none)
      | _, _ => .error (.valueError "Error checking versions")

/-- `is_this_device`. -/
def isThisDevice (board : Board) (file : Bytes) : Bool :=
  (windows deviceTypeChunkOverlap [] (chunks readFirmwareVersionBuffer file)).any
    fun firmwareData =>
    (find board.quoted firmwareData).isSome

/-- The size of a file is the number of its bytes. -/
@[simp] theorem fsize_eq (file : Bytes) : fsize file = file.length := by
  rw [fsize, ← List.length_flatten, chunks, flatten_readChunks (by decide) (Nat.le_refl _)]

/-- The quoted name of a board is not empty. -/
theorem quoted_ne_nil (board : Board) : board.quoted ≠ [] := by
  cases board <;> decide

/-- The quoted type of every board fits the overlap of the chunks, so no occurrence is
missed. -/
theorem isThisDevice_iff (board : Board) (file : Bytes) :
    isThisDevice board file = true ↔ board.quoted <:+: file := by
  have short : board.quoted.length ≤ deviceTypeChunkOverlap + 1 := by
    cases board <;> decide
  rw [← exists_window_iff (by decide : 0 < readFirmwareVersionBuffer)
    (by decide : deviceTypeChunkOverlap ≤ readFirmwareVersionBuffer) short
    (quoted_ne_nil board) file]
  simp only [isThisDevice, List.any_eq_true, find_isSome]

/-- The file has a version, the version of the device has numbers, and the numbers of the file
are greater. -/
def Newer (version : Text) (file : Bytes) : Prop :=
  ∃ newVersion newVer currVer, fileVersion file = some newVersion ∧
    versionNumbers (newVersion.splitOn '.') = some newVer ∧
    currentVersion version = some currVer ∧ currVer < newVer

/-- A version is returned exactly when it is greater. -/
theorem isVersionGreater_iff (version : Text) (file : Bytes) :
    (∃ newVersion, isVersionGreater version file = .ok (some newVersion)) ↔ Newer version file := by
  unfold isVersionGreater Newer
  constructor
  · rintro ⟨shown, found⟩
    split at found
    · cases found
    · rename_i newVersion version
      split at found
      · rename_i newVer currVer numbers current
        split at found
        · rename_i greater
          exact ⟨newVersion, newVer, currVer, version, numbers, current, greater⟩
        · cases found
      · cases found
  · rintro ⟨newVersion, newVer, currVer, version, numbers, current, greater⟩
    exact ⟨newVersion, by simp only [version, numbers, current, greater, ↓reduceIte]⟩

end VaultSeed.Firmware
