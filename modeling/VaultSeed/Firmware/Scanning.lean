import VaultSeed.Firmware.Inspection
import VaultSeed.Foundation.Occurrences

/-! # The scans see the whole file

The updater looks for the type of the board and for the version through windows of a chunk and
the end of the chunk before. The name of the metadata file, the version next to it and what is
between them take at most 116 bytes, so one window holds them all: a version is found exactly
when the file has one (`fileVersion_isSome_iff`).
-/

namespace VaultSeed.Firmware

open Python Windows Occurrences

/-- `is_this_device`, for any `board.config["type"]`. -/
def isDeviceOfType (type : Text) (file : Bytes) : Bool :=
  (windows deviceTypeChunkOverlap [] (chunks readFirmwareVersionBuffer file)).any
    fun firmwareData =>
    (find (encode ('"' :: type ++ ['"'])) firmwareData).isSome

/-- A quoted type of at most 21 bytes is found wherever it is in the file. -/
theorem isDeviceOfType_iff {type : Text} (file : Bytes)
    (short : (encode ('"' :: type ++ ['"'])).length ≤ deviceTypeChunkOverlap + 1) :
    isDeviceOfType type file = true ↔ encode ('"' :: type ++ ['"']) <:+: file := by
  have nonempty : encode ('"' :: type ++ ['"']) ≠ [] := by
    have longer := length_le_length_encode ('"' :: type ++ ['"'])
    intro empty
    rw [empty] at longer
    simp at longer
  rw [← exists_window_iff (by decide : 0 < readFirmwareVersionBuffer)
    (by decide : deviceTypeChunkOverlap ≤ readFirmwareVersionBuffer) short nonempty file]
  simp only [isDeviceOfType, List.any_eq_true, find_isSome]

section Find

variable {pattern data : Bytes} {position : Nat}

/-- A pattern is found where it stands first. -/
theorem find_first (found : find pattern data = some position) :
    Stands pattern data position ∧ ∀ earlier < position, ¬ Stands pattern data earlier := by
  induction data generalizing position with
  | nil =>
      rw [find] at found
      split at found
      · rename_i empty
        cases found
        exact ⟨by rw [List.isEmpty_iff.mp empty]; exact List.nil_prefix,
          fun earlier less => absurd less (Nat.not_lt_zero earlier)⟩
      · cases found
  | cons item rest ih =>
      rw [find] at found
      split at found
      · rename_i here
        cases found
        exact ⟨List.isPrefixOf_iff_prefix.mp here,
          fun earlier less => absurd less (Nat.not_lt_zero earlier)⟩
      · rename_i here
        obtain ⟨before, later, rfl⟩ := Option.map_eq_some_iff.mp found
        obtain ⟨stands, first⟩ := ih later
        refine ⟨stands, fun earlier less => ?_⟩
        cases earlier with
        | zero => exact fun start => here (List.isPrefixOf_iff_prefix.mpr start)
        | succ earlier => exact first earlier (by omega)

/-- Looking for a pattern again behind each occurrence finds them all. -/
theorem mem_findOccurrences (unbordered : Unbordered pattern) (nonempty : pattern ≠ [])
    {fuel start : Nat} (enough : data.length < fuel) :
    position ∈ findOccurrences pattern fuel start data ↔
      ∃ place, position = start + place ∧ Stands pattern data place := by
  induction fuel generalizing start data with
  | zero => omega
  | succ fuel ih =>
      have positive := List.length_pos_of_ne_nil nonempty
      rw [findOccurrences]
      split
      · rename_i nothing
        have absent : ¬ pattern <:+: data := by
          rw [← find_isSome, nothing]
          decide
        constructor
        · intro member
          cases member
        · rintro ⟨place, _, stands⟩
          exact absurd (exists_stands_iff.mp ⟨place, stands⟩) absent
      · rename_i first found
        obtain ⟨stands, earliest⟩ := find_first found
        have inside := stands.length_le nonempty
        have shorter : (data.drop (first + pattern.length)).length < fuel := by
          rw [List.length_drop]
          omega
        rw [List.mem_cons, ih shorter]
        constructor
        · rintro (rfl | ⟨place, rfl, later⟩)
          · exact ⟨first, rfl, stands⟩
          · exact ⟨first + pattern.length + place, by omega, stands_drop.mp later⟩
        · rintro ⟨place, rfl, here⟩
          by_cases same : place = first
          · exact .inl (by rw [same])
          · have behind : first < place := by
              by_contra before
              exact earliest place (by omega) here
            have apart := unbordered.apart stands here behind
            obtain ⟨rest, rfl⟩ := Nat.exists_eq_add_of_le apart
            exact .inr ⟨rest, by omega, stands_drop.mpr here⟩

/-- The occurrences found are the positions where the pattern stands. -/
theorem mem_findAllOccurrences (unbordered : Unbordered pattern) (nonempty : pattern ≠ []) :
    position ∈ findAllOccurrences data pattern ↔ Stands pattern data position := by
  rw [findAllOccurrences, mem_findOccurrences unbordered nonempty (Nat.lt_succ_self _)]
  simp

end Find

/-- The name of the metadata file. -/
def metadataName : Bytes := encode "krux/metadata.py".toList

/-- `chunk.decode("ascii")`. -/
def ascii (chunk : Bytes) : Text := chunk.map fun byte => Char.ofNat byte.toNat

/-- A version stands near the name of the metadata file: both within the range from 100 before
to 100 behind the position of the name. -/
structure VersionNear (data : Bytes) (chunk : Bytes) (p q : Nat) : Prop where
  name : Stands metadataName data p
  calver : isCalver chunk = true
  version : Stands chunk data q
  low : p ≤ q + 100
  high : q + calverSize ≤ p + 100

section Version

variable {data chunk : Bytes}

private theorem isCalver_length (calver : isCalver chunk = true) : chunk.length = calverSize := by
  unfold isCalver at calver
  split at calver
  · rfl
  · cases calver

private theorem isCalver_ne_nil (calver : isCalver chunk = true) : chunk ≠ [] := by
  intro empty
  rw [empty] at calver
  cases calver

/-- What the search for a version returns stands in the context, and it finds what does. -/
theorem extractCalver_spec (context : Bytes) :
    (∀ version, extractCalver context = some version →
      ∃ chunk i, version = ascii chunk ∧ isCalver chunk = true ∧ Stands chunk context i) ∧
    (∀ chunk i, isCalver chunk = true → Stands chunk context i →
      extractCalver context ≠ none) := by
  constructor
  · intro version found
    obtain ⟨i, _, here⟩ := List.exists_of_findSome?_eq_some found
    dsimp only at here
    split at here
    · rename_i calver
      cases here
      refine ⟨_, i, rfl, calver, ?_⟩
      exact List.take_prefix _ _
    · cases here
  · intro chunk i calver stands nothing
    have length := isCalver_length calver
    have inside := stands.length_le (isCalver_ne_nil calver)
    have missed := List.findSome?_eq_none_iff.mp nothing i (List.mem_range.mpr (by omega))
    have whole := stands_iff.mp stands
    rw [length] at whole
    simp [whole, calver] at missed

/-- A window has a version exactly when one stands near the name in it. -/
theorem windowVersion_spec (window : Bytes) :
    (∀ version, windowVersion window = some version →
      ∃ chunk p q, version = ascii chunk ∧ VersionNear window chunk p q) ∧
    (∀ chunk p q, VersionNear window chunk p q → windowVersion window ≠ none) := by
  have occurs : ∀ p, p ∈ findAllOccurrences window metadataName ↔ Stands metadataName window p :=
    fun p => mem_findAllOccurrences (by decide +kernel) (by decide +kernel)
  -- The context of an occurrence is the range around it, cut at the ends of the window.
  have context : ∀ chunk p i, isCalver chunk = true → (Stands chunk
      ((window.take (min (p + 100) window.length)).drop (p - 100)) i ↔
      Stands chunk window (p - 100 + i) ∧ p - 100 + i + calverSize ≤ p + 100) := by
    intro chunk p i calver
    rw [stands_drop, stands_take (isCalver_ne_nil calver), isCalver_length calver]
    constructor
    · rintro ⟨stands, inside⟩
      exact ⟨stands, by omega⟩
    · rintro ⟨stands, inside⟩
      have length := stands.length_le (isCalver_ne_nil calver)
      rw [isCalver_length calver] at length
      exact ⟨stands, by omega⟩
  constructor
  · intro version found
    obtain ⟨p, member, here⟩ := List.exists_of_findSome?_eq_some found
    obtain ⟨chunk, i, rfl, calver, stands⟩ := (extractCalver_spec _).1 version here
    obtain ⟨there, inside⟩ := (context chunk p i calver).mp stands
    exact ⟨chunk, p, p - 100 + i, rfl, (occurs p).mp member, calver, there, by omega, inside⟩
  · intro chunk p q near nothing
    have missed := List.findSome?_eq_none_iff.mp nothing p ((occurs p).mpr near.name)
    refine (extractCalver_spec _).2 chunk (q - (p - 100)) near.calver ?_ missed
    have low := near.low
    have place : p - 100 + (q - (p - 100)) = q := by omega
    rw [context _ _ _ near.calver, place]
    exact ⟨near.version, near.high⟩

/-- The version of a file is the version of one of its windows. -/
theorem fileVersion_spec (file : Bytes) :
    (∀ version, fileVersion file = some version → ∃ window ∈ windows firmwareVersionChunkOverlap []
      (chunks readFirmwareVersionBuffer file), windowVersion window = some version) ∧
    (∀ window ∈ windows firmwareVersionChunkOverlap [] (chunks readFirmwareVersionBuffer file),
      windowVersion window ≠ none → fileVersion file ≠ none) := by
  unfold fileVersion
  generalize windows firmwareVersionChunkOverlap [] (chunks readFirmwareVersionBuffer file) = all
  induction all using List.reverseRecOn with
  | nil => exact ⟨nofun, nofun⟩
  | append_singleton before window ih =>
      rw [List.foldl_concat]
      cases found : windowVersion window with
      | none =>
          rw [Option.none_or]
          constructor
          · intro version same
            obtain ⟨earlier, member, here⟩ := ih.1 version same
            exact ⟨earlier, List.mem_append_left _ member, here⟩
          · intro earlier member has
            rcases List.mem_append.mp member with member | member
            · exact ih.2 earlier member has
            · rw [List.mem_singleton.mp member] at has
              exact absurd found has
      | some version =>
          rw [Option.some_or]
          constructor
          · intro _ same
            cases same
            exact ⟨window, List.mem_append_right _ (List.mem_singleton_self _), found⟩
          · intro _ _ _
            exact Option.some_ne_none _

/-- **A version that is found stands in the file**, near the name of the metadata file. -/
theorem versionNear_of_fileVersion {file : Bytes} {version : Text}
    (found : fileVersion file = some version) :
    ∃ chunk p q, version = ascii chunk ∧ VersionNear file chunk p q := by
  obtain ⟨window, member, here⟩ := (fileVersion_spec file).1 version found
  obtain ⟨chunk, p, q, rfl, near⟩ := (windowVersion_spec window).1 version here
  obtain ⟨start, stands⟩ := exists_stands_iff.mpr (infix_of_mem_windows member)
  obtain ⟨name, calver, version, low, high⟩ := near
  refine ⟨chunk, start + p, start + q, rfl, name.trans stands, calver, version.trans stands, ?_, ?_⟩
  · omega
  · omega

/-- **A version near the name is found**, wherever the chunks are cut. -/
theorem fileVersion_ne_none {file : Bytes} {p q : Nat} (near : VersionNear file chunk p q) :
    fileVersion file ≠ none := by
  obtain ⟨name, calver, version, low, high⟩ := near
  have length := isCalver_length calver
  have nameLength : metadataName.length = 16 := by decide +kernel
  have named : metadataName ≠ [] := List.ne_nil_of_length_pos (by omega)
  have versioned := isCalver_ne_nil calver
  have nameInside := name.length_le named
  have versionInside := version.length_le versioned
  unfold calverSize at length high
  -- The part of the file that holds the name and the version.
  obtain ⟨first, start⟩ : ∃ first, first = min p q := ⟨_, rfl⟩
  obtain ⟨count, size⟩ : ∃ count, first + count = max (p + 16) (q + 7) :=
    ⟨max (p + 16) (q + 7) - first, by omega⟩
  have short : ((file.drop first).take count).length ≤ firmwareVersionChunkOverlap + 1 := by
    rw [List.length_take]
    unfold firmwareVersionChunkOverlap
    omega
  have nonempty : (file.drop first).take count ≠ [] := by
    apply List.ne_nil_of_length_pos
    rw [List.length_take, List.length_drop]
    omega
  have part : (file.drop first).take count <:+: file :=
    (List.take_prefix _ _).isInfix.trans (List.drop_suffix _ _).isInfix
  obtain ⟨window, member, held⟩ :=
    (exists_window_iff (by decide : 0 < readFirmwareVersionBuffer) (by decide) short nonempty
      file).mpr part
  obtain ⟨place, stands⟩ := exists_stands_iff.mpr held
  have nameThere : Stands metadataName ((file.drop first).take count) (p - first) := by
    refine (stands_take named).mpr ⟨stands_drop.mpr ?_, by omega⟩
    rwa [Nat.add_sub_cancel' (by omega)]
  have versionThere : Stands chunk ((file.drop first).take count) (q - first) := by
    refine (stands_take versioned).mpr ⟨stands_drop.mpr ?_, by omega⟩
    rwa [Nat.add_sub_cancel' (by omega)]
  refine (fileVersion_spec file).2 window member
    ((windowVersion_spec window).2 chunk (place + (p - first)) (place + (q - first)) ?_)
  refine ⟨nameThere.trans stands, calver, versionThere.trans stands, ?_, ?_⟩
  · omega
  · unfold calverSize
    omega

end Version

/-- **The scans through windows see what is in the file**: a quoted type that fits the overlap,
and a version near the name of the metadata file. -/
theorem scans_see_file (file : Bytes) :
    (∀ type : Text, (encode ('"' :: type ++ ['"'])).length ≤ deviceTypeChunkOverlap + 1 →
      (isDeviceOfType type file = true ↔ encode ('"' :: type ++ ['"']) <:+: file)) ∧
    (fileVersion file ≠ none ↔ ∃ chunk p q, VersionNear file chunk p q) := by
  refine ⟨fun type short => isDeviceOfType_iff file short, ?_, ?_⟩
  · intro found
    obtain ⟨version, some⟩ := Option.ne_none_iff_exists'.mp found
    obtain ⟨chunk, p, q, _, near⟩ := versionNear_of_fileVersion some
    exact ⟨chunk, p, q, near⟩
  · intro near
    obtain ⟨chunk, p, q, near⟩ := near
    exact fileVersion_ne_none near

/-- A type that is in a file, and a version. -/
theorem scans_see_file_amigo :
    isDeviceOfType "amigo".toList (encode "\"amigo\" krux/metadata.py 26.03.0".toList) = true ∧
    fileVersion (encode "\"amigo\" krux/metadata.py 26.03.0".toList) ≠ none := by
  obtain ⟨device, version⟩ := scans_see_file (encode "\"amigo\" krux/metadata.py 26.03.0".toList)
  refine ⟨(device "amigo".toList (by decide +kernel)).mpr ?_, version.mpr ?_⟩
  · exact exists_stands_iff.mp ⟨0, by decide +kernel⟩
  · exact ⟨encode "26.03.0".toList, 8, 25, by decide +kernel, by decide +kernel, by decide +kernel,
      by decide, by decide⟩

end VaultSeed.Firmware
