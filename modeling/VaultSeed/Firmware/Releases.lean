import VaultSeed.Firmware.Scanning

/-! # Which releases the updater recognises

A version is three decimal numbers. The updater looks for seven bytes of the form `dd.dd.d`, so
of the releases that announce themselves properly it recognises exactly those whose numbers
have two, two and one digits (`recognised_iff`). The version of this program is not one of
them.
-/

namespace VaultSeed.Firmware

open Python Occurrences

/-- A version: three decimal numbers, with any number of digits each. -/
structure Release where
  major : Text
  minor : Text
  patch : Text
  nonempty : major ≠ [] ∧ minor ≠ [] ∧ patch ≠ []
  digits : ∀ char ∈ major ++ minor ++ patch, char.isDigit = true

namespace Release

variable (release : Release)

/-- The text of a version. -/
def text : Text := release.major ++ '.' :: release.minor ++ '.' :: release.patch

/-- The numbers of a version. -/
def numbers : List Int :=
  [(Nat.ofDigitChars 10 release.major 0 : Nat), (Nat.ofDigitChars 10 release.minor 0 : Nat),
    (Nat.ofDigitChars 10 release.patch 0 : Nat)]

/-- The form `dd.dd.d`. -/
def Calver : Prop :=
  release.major.length = 2 ∧ release.minor.length = 2 ∧ release.patch.length = 1

end Release

/-- A byte that a dotted number may be made of. -/
def isDottedByte (byte : UInt8) : Bool := isDigitByte byte || byte.toNat == '.'.toNat

/-- A dot between two digits. -/
structure DottedAt (data : Bytes) (place : Nat) : Prop where
  before : (data[place]?).any isDigitByte = true
  dot : data[place + 1]? = some 0x2E
  after : (data[place + 2]?).any isDigitByte = true

instance (data : Bytes) (place : Nat) : Decidable (DottedAt data place) :=
  decidable_of_iff ((data[place]?).any isDigitByte = true ∧ data[place + 1]? = some 0x2E ∧
      (data[place + 2]?).any isDigitByte = true)
    ⟨fun all => ⟨all.1, all.2.1, all.2.2⟩, fun dotted => ⟨dotted.before, dotted.dot, dotted.after⟩⟩

/-- A file announces a release: the name of the metadata file is in it once, and in the range
around the name the version is the only dotted number. -/
structure Announces (file : Bytes) (release : Release) (p q : Nat) : Prop where
  name : Stands metadataName file p
  once : ∀ other, Stands metadataName file other → other = p
  version : Stands (encode release.text) file q
  low : p ≤ q + 100
  high : q + release.text.length ≤ p + 100
  before : ∀ place byte, place + 1 = q → file[place]? = some byte → isDottedByte byte = false
  after : ∀ byte, file[q + release.text.length]? = some byte → isDottedByte byte = false
  alone : ∀ place, DottedAt file place → p ≤ place + 100 → place + 3 ≤ p + 100 →
    q ≤ place + 1 ∧ place + 1 < q + release.text.length

/-- What is asked of the updater: the version it compares is the one of the release, and it
returns it exactly when it is greater. -/
def Recognised (version : Text) (currVer : List Int) (file : Bytes) (release : Release) : Prop :=
  fileVersion file = some release.text ∧
    isVersionGreater version file =
      .ok (if currVer < release.numbers then some release.text else none)

section Release

variable {release : Release}

private theorem digits_of_release (release : Release) :
    (∀ char ∈ release.major, char.isDigit = true) ∧
    (∀ char ∈ release.minor, char.isDigit = true) ∧
    ∀ char ∈ release.patch, char.isDigit = true := by
  have all := release.digits
  refine ⟨fun char member => all char ?_, fun char member => all char ?_,
    fun char member => all char ?_⟩
  · exact List.mem_append_left _ (List.mem_append_left _ member)
  · exact List.mem_append_left _ (List.mem_append_right _ member)
  · exact List.mem_append_right _ member

private theorem not_mem_of_digits {part : Text} (digits : ∀ char ∈ part, char.isDigit = true) :
    '.' ∉ part := by
  intro member
  have digit := digits '.' member
  cases digit

/-- A version is taken apart into its numbers. -/
theorem versionNumbers_text (release : Release) :
    versionNumbers (release.text.splitOn '.') = some release.numbers := by
  obtain ⟨major, minor, patch⟩ := digits_of_release release
  obtain ⟨majorSome, minorSome, patchSome⟩ := release.nonempty
  have plain : ∀ part : Text, (∀ char ∈ part, char.isDigit = true) →
      ∀ char ∈ part, (char == '.') = false := by
    intro part digits char member
    rw [beq_eq_false_iff_ne]
    intro same
    exact not_mem_of_digits digits (same ▸ member)
  have parts : release.text.splitOn '.' = [release.major, release.minor, release.patch] := by
    rw [List.splitOn_eq_splitOnP, Release.text, List.append_assoc, List.cons_append,
      List.splitOnP_append_cons_of_forall_mem (plain _ major) _ rfl,
      List.splitOnP_append_cons_of_forall_mem (plain _ minor) _ rfl,
      List.splitOnP_eq_singleton (plain _ patch)]
  rw [parts, versionNumbers, List.mapM_cons, List.mapM_cons, List.mapM_cons,
    int_of_isDigit majorSome major, int_of_isDigit minorSome minor,
    int_of_isDigit patchSome patch]
  rfl

private theorem length_text (release : Release) : release.text.length =
    release.major.length + 1 + release.minor.length + 1 + release.patch.length := by
  simp only [Release.text, List.length_append, List.length_cons]
  omega

/-- The dots of a version. -/
theorem dot_of_text {place : Nat} (dot : release.text[place]? = some '.') :
    place = release.major.length ∨ place = release.major.length + 1 + release.minor.length := by
  obtain ⟨major, minor, patch⟩ := digits_of_release release
  have excluded : ∀ part : Text, (∀ char ∈ part, char.isDigit = true) → ∀ place : Nat,
      part[place]? ≠ some '.' :=
    fun part digits place here => not_mem_of_digits digits (List.mem_of_getElem? here)
  rw [Release.text, List.append_assoc] at dot
  by_contra other
  obtain ⟨first, second⟩ := not_or.mp other
  rcases Nat.lt_or_ge place release.major.length with inside | behind
  · rw [List.getElem?_append_left inside] at dot
    exact excluded _ major _ dot
  · obtain ⟨rest, rfl⟩ := Nat.exists_eq_add_of_lt (lt_of_le_of_ne behind (Ne.symm first))
    rw [List.getElem?_append_right (by omega), List.cons_append,
      (by omega : release.major.length + rest + 1 - release.major.length = rest + 1),
      List.getElem?_cons_succ] at dot
    rcases Nat.lt_or_ge rest release.minor.length with inside | behind
    · rw [List.getElem?_append_left inside] at dot
      exact excluded _ minor _ dot
    · obtain ⟨last, rfl⟩ := Nat.exists_eq_add_of_lt (lt_of_le_of_ne behind (by omega))
      rw [List.getElem?_append_right (by omega),
        (by omega : release.minor.length + last + 1 - release.minor.length = last + 1),
        List.getElem?_cons_succ] at dot
      exact excluded _ patch _ dot

private theorem toNat_lt_of_text {char : Char} (member : char ∈ release.text) :
    char.toNat < 128 := by
  obtain ⟨major, minor, patch⟩ := digits_of_release release
  have small : ∀ part : Text, (∀ char ∈ part, char.isDigit = true) → char ∈ part →
      char.toNat < 128 := by
    intro part digits inside
    have range := Char.isDigit_iff_toNat.mp (digits char inside)
    simp only [Char.reduceToNat] at range
    omega
  simp only [Release.text, List.mem_append, List.mem_cons] at member
  rcases member with (inside | rfl | inside) | rfl | inside
  · exact small _ major inside
  · decide
  · exact small _ minor inside
  · decide
  · exact small _ patch inside

/-- A version is made of bytes. -/
theorem encode_text (release : Release) :
    encode release.text = release.text.map fun char => UInt8.ofNat char.toNat :=
  encode_of_ascii fun _ member => toNat_lt_of_text member

private theorem ascii_encode (release : Release) : ascii (encode release.text) = release.text := by
  rw [encode_text, ascii, List.map_map]
  refine (List.map_congr_left fun char member => ?_).trans (List.map_id _)
  have small := toNat_lt_of_text member
  change Char.ofNat (UInt8.ofNat char.toNat).toNat = char
  rw [toNat_utf8Byte (by omega), Char.ofNat_toNat]

end Release

section Form

variable {release : Release}

/-- The bytes of a version of the form `dd.dd.d`. -/
theorem isCalver_iff {chunk : Bytes} : isCalver chunk = true ↔
    ∃ a b c d e, chunk = [a, b, 0x2E, c, d, 0x2E, e] ∧ isDigitByte a = true ∧
      isDigitByte b = true ∧ isDigitByte c = true ∧ isDigitByte d = true ∧
      isDigitByte e = true := by
  constructor
  · intro calver
    unfold isCalver at calver
    split at calver
    · rename_i a b first c d second e
      simp only [Bool.and_eq_true, beq_iff_eq] at calver
      obtain ⟨⟨⟨⟨⟨⟨aDigit, bDigit⟩, firstDot⟩, cDigit⟩, dDigit⟩, secondDot⟩, eDigit⟩ := calver
      have firstByte : first = 0x2E := UInt8.toNat_inj.mp firstDot
      have secondByte : second = 0x2E := UInt8.toNat_inj.mp secondDot
      exact ⟨a, b, c, d, e, by rw [firstByte, secondByte], aDigit, bDigit, cDigit, dDigit, eDigit⟩
    · cases calver
  · rintro ⟨a, b, c, d, e, rfl, aDigit, bDigit, cDigit, dDigit, eDigit⟩
    simp [isCalver, aDigit, bDigit, cDigit, dDigit, eDigit]

private theorem isDigitByte_ofNat {char : Char} (digit : char.isDigit = true) :
    isDigitByte (UInt8.ofNat char.toNat) = true := by
  have range := Char.isDigit_iff_toNat.mp digit
  simp only [Char.reduceToNat] at range
  rw [isDigitByte, toNat_utf8Byte (by omega)]
  exact decide_eq_true range

/-- A version of two, two and one digits has the form that is looked for. -/
theorem isCalver_encode (calver : release.Calver) : isCalver (encode release.text) = true := by
  obtain ⟨major, minor, patch⟩ := digits_of_release release
  obtain ⟨majorTwo, minorTwo, patchOne⟩ := calver
  obtain ⟨a, b, majorText⟩ := List.length_eq_two.mp majorTwo
  obtain ⟨c, d, minorText⟩ := List.length_eq_two.mp minorTwo
  obtain ⟨e, patchText⟩ := List.length_eq_one_iff.mp patchOne
  rw [majorText] at major
  rw [minorText] at minor
  rw [patchText] at patch
  rw [encode_text, Release.text, majorText, minorText, patchText]
  refine isCalver_iff.mpr ⟨_, _, _, _, _, rfl, ?_, ?_, ?_, ?_, ?_⟩
  · exact isDigitByte_ofNat (major a (by simp))
  · exact isDigitByte_ofNat (major b (by simp))
  · exact isDigitByte_ofNat (minor c (by simp))
  · exact isDigitByte_ofNat (minor d (by simp))
  · exact isDigitByte_ofNat (patch e (by simp))

/-- A version that is found whole has two, two and one digits. -/
theorem calver_of_ascii {chunk : Bytes} (calver : isCalver chunk = true)
    (same : release.text = ascii chunk) : release.Calver := by
  obtain ⟨a, b, c, d, e, rfl, _⟩ := isCalver_iff.mp calver
  have length := congrArg List.length same
  rw [length_text] at length
  have first : release.text[2]? = some '.' := by
    rw [same]
    rfl
  have second : release.text[5]? = some '.' := by
    rw [same]
    rfl
  have firstPlace := dot_of_text first
  have secondPlace := dot_of_text second
  have seven : (ascii [a, b, 0x2E, c, d, 0x2E, e]).length = 7 := rfl
  refine ⟨?_, ?_, ?_⟩ <;> omega

end Form

section Recognised

variable {release : Release} {file : Bytes} {p q : Nat}

/-- What looks like a version next to the name is the version. -/
theorem Announces.unique (announces : Announces file release p q) (calver : release.Calver)
    {chunk : Bytes} {other place : Nat} (near : VersionNear file chunk other place) :
    chunk = encode release.text := by
  obtain ⟨name, found, stands, low, high⟩ := near
  obtain rfl := announces.once other name
  obtain ⟨a, b, c, d, e, rfl, aDigit, bDigit, cDigit, dDigit, eDigit⟩ := isCalver_iff.mp found
  have byte : ∀ count, count < 7 →
      file[place + count]? = ([a, b, 0x2E, c, d, 0x2E, e] : Bytes)[count]? :=
    fun count less => stands.getElem? less
  have first : DottedAt file (place + 1) :=
    ⟨by rw [byte 1 (by decide)]; exact bDigit, byte 2 (by decide),
      by rw [Nat.add_assoc, byte 3 (by decide)]; exact cDigit⟩
  have second : DottedAt file (place + 4) :=
    ⟨by rw [byte 4 (by decide)]; exact dDigit, byte 5 (by decide),
      by rw [Nat.add_assoc, byte 6 (by decide)]; exact eDigit⟩
  unfold calverSize at high
  obtain ⟨majorTwo, minorTwo, patchOne⟩ := calver
  have length := length_text release
  have spelled : (encode release.text).length = release.text.length := by
    rw [encode_text, List.length_map]
  -- A dot of the file that is inside the version is a dot of the version.
  have dots : ∀ inside, inside < release.text.length → file[q + inside]? = some 0x2E →
      inside = 2 ∨ inside = 5 := by
    intro inside less dot
    rw [announces.version.getElem? (by omega), encode_text, List.getElem?_map,
      Option.map_eq_some_iff] at dot
    obtain ⟨char, here, same⟩ := dot
    have small := toNat_lt_of_text (List.mem_of_getElem? here)
    have code := congrArg UInt8.toNat same
    rw [toNat_utf8Byte (by omega)] at code
    have dotted : char = '.' := Char.toNat_inj.mp code
    rw [dotted] at here
    have places := dot_of_text here
    omega
  obtain ⟨firstLow, firstHigh⟩ := announces.alone _ first (by omega) (by omega)
  obtain ⟨secondLow, secondHigh⟩ := announces.alone _ second (by omega) (by omega)
  have firstDot := dots (place + 2 - q) (by omega) (by
    rw [Nat.add_sub_cancel' (by omega)]
    exact byte 2 (by decide))
  have secondDot := dots (place + 5 - q) (by omega) (by
    rw [Nat.add_sub_cancel' (by omega)]
    exact byte 5 (by decide))
  have same : place = q := by omega
  subst same
  refine (List.prefix_of_prefix_length_le stands announces.version ?_).eq_of_length ?_
  · change 7 ≤ _
    omega
  · change 7 = _
    omega

/-- **The releases that are recognised** are those of the form `dd.dd.d`. Of any other release no
version is found, or a part of it. -/
theorem recognised_iff {version : Text} {currVer : List Int}
    (current : currentVersion version = some currVer) (announces : Announces file release p q) :
    Recognised version currVer file release ↔
      release.major.length = 2 ∧ release.minor.length = 2 ∧ release.patch.length = 1 := by
  constructor
  · intro recognised
    obtain ⟨chunk, _, _, same, near⟩ := versionNear_of_fileVersion recognised.1
    exact calver_of_ascii near.calver same
  · intro calver
    have length := length_text release
    have high := announces.high
    have near : VersionNear file (encode release.text) p q := {
      name := announces.name
      calver := isCalver_encode calver
      version := announces.version
      low := announces.low
      high := by
        unfold calverSize
        omega }
    obtain ⟨found, some⟩ := Option.ne_none_iff_exists'.mp (fileVersion_ne_none near)
    obtain ⟨chunk, _, _, rfl, other⟩ := versionNear_of_fileVersion some
    rw [announces.unique calver other, ascii_encode] at some
    refine ⟨some, ?_⟩
    unfold isVersionGreater
    simp only [some, versionNumbers_text, current]

/-- A dot between two digits has bytes around it. -/
theorem DottedAt.lt {place : Nat} (dotted : DottedAt file place) : place + 2 < file.length := by
  by_contra outside
  have last := dotted.after
  rw [List.getElem?_eq_none (by omega)] at last
  cases last

/-- What a file is checked for to announce a release. -/
theorem announces_of_check (found : findAllOccurrences file metadataName = [p])
    (version : Stands (encode release.text) file q) (low : p ≤ q + 100)
    (high : q + release.text.length ≤ p + 100)
    (before : ∀ byte ∈ (file.take q).getLast?, isDottedByte byte = false)
    (after : ∀ byte ∈ file[q + release.text.length]?, isDottedByte byte = false)
    (alone : ∀ place < file.length, DottedAt file place →
      q ≤ place + 1 ∧ place + 1 < q + release.text.length) : Announces file release p q := by
  have occurs : ∀ other, other ∈ [p] ↔ Stands metadataName file other := by
    intro other
    rw [← found]
    exact mem_findAllOccurrences (by decide +kernel) (by decide +kernel)
  exact {
    name := (occurs p).mp (List.mem_singleton_self p)
    once := fun other stands => List.mem_singleton.mp ((occurs other).mpr stands)
    version := version
    low := low
    high := high
    before := by
      rintro place byte rfl here
      refine before byte ?_
      obtain ⟨inside, _⟩ := List.getElem?_eq_some_iff.mp here
      rw [List.getLast?_eq_getElem?, List.length_take, Nat.min_eq_left (by omega),
        Nat.add_sub_cancel, List.getElem?_take_of_lt (by omega)]
      exact here
    after := fun byte here => after byte here
    alone := fun place dotted _ _ => by
      have inside := dotted.lt
      exact alone place (by omega) dotted }

/-- `26.03.0`. -/
def calverRelease : Release :=
  ⟨"26".toList, "03".toList, "0".toList, by decide, List.all_eq_true.mp (by decide)⟩

/-- The version of a file that announces it is recognised. -/
theorem recognised_iff_calver : Recognised "0.1.0".toList [0, 1, 0]
    (encode "krux/metadata.py 26.03.0".toList) calverRelease := by
  have announces : Announces (encode "krux/metadata.py 26.03.0".toList) calverRelease 0 17 :=
    announces_of_check (by decide +kernel) (by decide +kernel) (by decide) (by decide)
      (by decide +kernel) (by decide +kernel) (by decide +kernel)
  exact (recognised_iff (by decide +kernel) announces).mpr (by decide)

/-- `0.2.0`, the next version of this program. -/
def nextRelease : Release :=
  ⟨"0".toList, "2".toList, "0".toList, by decide, List.all_eq_true.mp (by decide)⟩

/-- The next version of this program is not recognised: the check of the versions fails. -/
theorem not_recognised_next : ¬ ∀ (version : Text) (currVer : List Int) (file : Bytes)
    (release : Release) (p q : Nat), currentVersion version = some currVer →
      Announces file release p q → Recognised version currVer file release := by
  intro claim
  have announces : Announces (encode "krux/metadata.py 0.2.0".toList) nextRelease 0 17 :=
    announces_of_check (by decide +kernel) (by decide +kernel) (by decide) (by decide)
      (by decide +kernel) (by decide +kernel) (by decide +kernel)
  have recognised := claim "0.1.0".toList [0, 1, 0] _ nextRelease 0 17 (by decide +kernel) announces
  have missed : fileVersion (encode "krux/metadata.py 0.2.0".toList) = none := by decide +kernel
  have found := recognised.1
  rw [missed] at found
  cases found

end Recognised

end VaultSeed.Firmware
