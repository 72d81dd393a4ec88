import VaultSeed.Foundation.Numbered
import VaultSeed.Qr.Bbqr

/-! # Scanning a series of QR codes

`QRPartParser` of `qr.py`: the first string tells the format, every string that can be read
stores its part under the index it declares and sets the total it declares. The scan is
complete when the count of the parts and the sum of their indices are those of a whole
series, and the result is put together from the parts in the order of their indices.
-/

namespace VaultSeed.Qr

open Python Effect Proc Numbered

/-- `FORMAT_NONE`, `FORMAT_PMOFN` and `FORMAT_BBQR`. -/
inductive Format where
  | none
  | pmofn
  | bbqr
  deriving DecidableEq, Repr

/-- `QRPartParser`. Of the `bbqr` code that `detect_format` makes, the encoding and the file
type are known. -/
structure QrPartParser where
  parts : Parts Text
  total : Int
  format : Option Format
  bbqr : Option (Encoding × FileType)

/-- `QRPartParser()`. -/
def QrPartParser.fresh : QrPartParser := ⟨∅, -1, none, none⟩

/-- `header[1:].split("of")[0].isdigit()` for a header with `of`. -/
def numberedHeader (header : Text) : Bool :=
  match find "of".toList header.tail with
  | some position =>
      (header.tail.take position) ≠ [] && (header.tail.take position).all Char.isDigit
  | none => false

/-- `detect_format`. A text too short for the letters of a BBQr header raises inside, which
leaves the format `FORMAT_NONE`. -/
def detectFormat (data : Text) : Format × Option (Encoding × FileType) :=
  if data.head? = some 'p' then
    let header := data.takeWhile (· != ' ')
    if (find "of".toList header).isSome && numberedHeader header then
      (.pmofn, none) else (.none, none)
  else if "B$".toList.isPrefixOf data then
    match data[3]?.bind FileType.ofLetter with
    | some fileType =>
        match data[2]?.bind Encoding.ofLetter with
        | some encoding => (.bbqr, some (encoding, fileType))
        | none => (.none, none)
    | none => (.none, none)
  else (.none, none)

/-- `data.index(pattern)`. -/
def index (data pattern : Text) : Except Exn Nat :=
  match find pattern data with
  | some position => .ok position
  | none => .error (.valueError "substring not found")

/-- `int(text)`. -/
def readInt (text : Text) : Except Exn Int :=
  match int 0 text with
  | some value => .ok value
  | none => .error (.valueError "invalid syntax for integer")

/-- `data[start:stop]`, for positions from the left. -/
def slice (data : Text) (start stop : Nat) : Text := (data.take stop).drop start

/-- A slice of a text in three parts. -/
theorem slice_append (front middle back : Text) {start stop : Nat} (begins : front.length = start)
    (ends : (front ++ middle).length = stop) :
      slice (front ++ middle ++ back) start stop = middle := by
  rw [slice, ← ends, List.take_left, ← begins, List.drop_left]

/-- `parse_pmofn_qr_part`: the content of a part, its index and the number of parts. -/
def parsePmofnQrPart (data : Text) : Except Exn (Text × Int × Int) := do
  let ofIndex ← index data "of".toList
  let spaceIndex ← index data " ".toList
  let partIndex ← readInt (slice data 1 ofIndex)
  let partTotal ← readInt (slice data (ofIndex + 2) spaceIndex)
  pure (data.drop (spaceIndex + 1), partIndex, partTotal)

/-- What a scanned string holds in a format: the content of its part, the index and the
total. A plain code is the only part of its series. -/
def readPart : Format → Text → Except Exn (Text × Int × Int)
  | .none, data => .ok (data, 1, 1)
  | .pmofn, data => parsePmofnQrPart data
  | .bbqr, data => parseBbqr data

namespace QrPartParser

/-- The format is found out from the first string. -/
def detect (data : Text) (parser : QrPartParser) : QrPartParser :=
  match parser.format with
  | some _ => parser
  | none => { parser with format := some (detectFormat data).1, bbqr := (detectFormat data).2 }

/-- `self.parts[index] = part` and `self.total = total`. -/
def store (part : Text) (index total : Int) (parser : QrPartParser) : QrPartParser :=
  { parser with parts := parser.parts.insert index part, total := total }

/-- `QRPartParser.parse`. -/
def parse (data : Text) : Proc QrPartParser Exn (Option Int) := do
  modify (detect data)
  match (← get).format with
  | some .none =>
      modify (store data 1 1)
      pure none
  | some .pmofn => do
      let (part, index, total) ← ofExcept (parsePmofnQrPart data)
      modify (store part index total)
      pure (some (index - 1))
  | some .bbqr => do
      let (part, index, total) ← ofExcept (parseBbqr data)
      modify (store part index total)
      pure (some index)
  | none => pure none

/-- `QRPartParser.is_complete`. -/
def isComplete (parser : QrPartParser) : Bool :=
  let keysCheck :=
    if parser.format = some .pmofn ∨ parser.format = some .none then sumRange 1 (parser.total + 1)
    else sumRange 0 parser.total
  parser.total != -1 && (parser.parts.keys.length : Int) == parser.total &&
    parser.parts.keys.sum == keysCheck

/-- `QRPartParser.result`. -/
def result (deflate : Deflate) (parser : QrPartParser) : Except Exn Content :=
  match parser.format, parser.bbqr with
  | some .bbqr, some (encoding, fileType) =>
      decodeBbqr deflate (inOrder parser.parts) encoding fileType
  | some .bbqr, none => .error (.typeError "'NoneType' object has no attribute 'encoding'")
  | _, _ => .ok (.text (inOrder parser.parts).flatten)

/-- The parser after a scanned string. -/
def scan (parser : QrPartParser) (data : Text) : QrPartParser := (parse data parser).2

/-- The parser after a series of scanned strings. -/
def scanned (strings : List Text) : QrPartParser := strings.foldl scan fresh

/-- The format in which a string is read. -/
def formatFor (data : Text) (parser : QrPartParser) : Format :=
  parser.format.getD (detectFormat data).1

section Scanning

variable {parser : QrPartParser} {data : Text}

/-- Looking at a string fixes the format. -/
@[simp] theorem format_detect (data : Text) (parser : QrPartParser) :
    (parser.detect data).format = some (parser.formatFor data) := by
  unfold detect formatFor
  cases known : parser.format with
  | none => rfl
  | some format => rw [known]; rfl

/-- Looking at a string leaves the parts. -/
@[simp] theorem parts_detect (data : Text) (parser : QrPartParser) :
    (parser.detect data).parts = parser.parts := by
  unfold detect
  split <;> rfl

/-- Looking at a string leaves the total. -/
@[simp] theorem total_detect (data : Text) (parser : QrPartParser) :
    (parser.detect data).total = parser.total := by
  unfold detect
  split <;> rfl

/-- A string that can be read stores its part, and nothing is raised. -/
theorem parse_of_readPart {part : Text} {index total : Int}
    (read : readPart (parser.formatFor data) data = .ok (part, index, total)) :
    (∃ value, (parse data parser).1 = .ok value) ∧
      parser.scan data = (parser.detect data).store part index total := by
  have detected : parse data parser = _ := Proc.bind_ok (modify_apply (detect data))
  unfold scan
  rw [detected, Proc.bind_ok get_apply, format_detect]
  cases format : parser.formatFor data with
  | none =>
      rw [format] at read
      cases read
      exact ⟨⟨_, rfl⟩, rfl⟩
  | pmofn =>
      rw [format] at read
      change parsePmofnQrPart data = _ at read
      simp only [read, ofExcept_ok]
      exact ⟨⟨_, rfl⟩, rfl⟩
  | bbqr =>
      rw [format] at read
      change parseBbqr data = _ at read
      simp only [read, ofExcept_ok]
      exact ⟨⟨_, rfl⟩, rfl⟩

/-- A string that cannot be read raises and stores nothing; only the format is known. -/
theorem parse_of_readPart_error {exn : Exn}
    (read : readPart (parser.formatFor data) data = .error exn) :
    parse data parser = (.raised exn, parser.detect data) := by
  have detected : parse data parser = _ := Proc.bind_ok (modify_apply (detect data))
  rw [detected, Proc.bind_ok get_apply, format_detect]
  cases format : parser.formatFor data with
  | none =>
      rw [format] at read
      cases read
  | pmofn =>
      rw [format] at read
      change parsePmofnQrPart data = _ at read
      simp only [read, ofExcept_error]
      rfl
  | bbqr =>
      rw [format] at read
      change parseBbqr data = _ at read
      simp only [read, ofExcept_error]
      rfl

/-- **What a scanned string does**: it is stored when it can be read, else it only tells the
format. -/
theorem scan_cases (parser : QrPartParser) (data : Text) :
    (∃ part index total, readPart (parser.formatFor data) data = .ok (part, index, total) ∧
      parser.scan data = (parser.detect data).store part index total) ∨
    (∃ exn, readPart (parser.formatFor data) data = .error exn ∧
      parser.scan data = parser.detect data) := by
  cases read : readPart (parser.formatFor data) data with
  | ok value =>
      obtain ⟨part, index, total⟩ := value
      exact .inl ⟨part, index, total, rfl, (parse_of_readPart read).2⟩
  | error exn =>
      refine .inr ⟨exn, rfl, ?_⟩
      rw [scan, parse_of_readPart_error read]

/-- Scanning a string fixes the format. -/
theorem format_scan (parser : QrPartParser) (data : Text) :
    (parser.scan data).format = some (parser.formatFor data) := by
  obtain ⟨part, index, total, _, after⟩ | ⟨exn, _, after⟩ := scan_cases parser data
  · rw [after]
    exact format_detect data parser
  · rw [after]
    exact format_detect data parser

@[simp] theorem scanned_nil : scanned [] = fresh := rfl

/-- One more string is scanned. -/
@[simp] theorem scanned_concat (strings : List Text) (data : Text) :
    scanned (strings ++ [data]) = (scanned strings).scan data := by
  rw [scanned, List.foldl_append]
  rfl

/-- The first string tells the format. -/
theorem format_scanned_cons (first : Text) (strings : List Text) :
    (scanned (first :: strings)).format = some (detectFormat first).1 := by
  induction strings using List.reverseRecOn with
  | nil => exact format_scan fresh first
  | append_singleton strings data ih =>
      rw [← List.cons_append, scanned_concat, format_scan, formatFor, ih]
      rfl

/-- The encoding and the file type are those of the first string. -/
theorem bbqr_scanned_cons (first : Text) (strings : List Text) :
    (scanned (first :: strings)).bbqr = (detectFormat first).2 := by
  have bbqr_scan : ∀ (parser : QrPartParser) (data : Text),
      (parser.scan data).bbqr = (parser.detect data).bbqr := by
    intro parser data
    obtain ⟨part, index, total, _, after⟩ | ⟨exn, _, after⟩ := scan_cases parser data
    · rw [after]
      rfl
    · rw [after]
  induction strings using List.reverseRecOn with
  | nil => exact bbqr_scan fresh first
  | append_singleton strings data ih =>
      rw [← List.cons_append, scanned_concat, bbqr_scan, detect, format_scanned_cons]
      exact ih

/-- Once the format is known, every string was read in it. -/
theorem formatFor_of_scanned {strings : List Text} {data : Text} {format : Format}
    (known : (scanned (strings ++ [data])).format = some format) :
    (scanned strings).formatFor data = format ∧
      (strings = [] ∨ (scanned strings).format = some format) := by
  rw [scanned_concat, format_scan] at known
  refine ⟨Option.some.inj known, ?_⟩
  cases strings with
  | nil => exact .inl rfl
  | cons first strings =>
      have before := format_scanned_cons first strings
      rw [formatFor, before] at known
      exact .inr (before.trans known)

end Scanning

end QrPartParser

end VaultSeed.Qr
