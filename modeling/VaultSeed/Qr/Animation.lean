import VaultSeed.Qr.Headers
import VaultSeed.Qr.Reassembly

/-! # Showing data as a series of QR codes

`to_qr_codes` cuts a text, or the payload of a BBQr code, into parts that fit a code of the
given width and shows them in turn, without end. Whatever the order in which the codes of
one turn are scanned, and however often, the scan is complete exactly when each of them was
seen, and the result is what was shown (`animation_round_trip`).
-/

namespace VaultSeed.Qr

open Python Effect Numbered

/-- `QR_CAPACITY_ALPHANUMERIC`. -/
def qrCapacityAlphanumeric : List Nat :=
  [25, 47, 77, 114, 154, 195, 224, 279, 335, 395, 468, 535, 619, 667, 758, 854, 938, 1046, 1153,
    1249]

/-- `QR_CAPACITY_BYTE`. -/
def qrCapacityByte : List Nat :=
  [17, 32, 53, 78, 106, 134, 154, 192, 230, 271, 321, 367, 425, 458, 520, 586, 644, 718, 792, 858]

/-- `max_qr_bytes`: a version beyond the list has the capacity of the last one, and a negative
position counts from the end. -/
def maxQrBytes (maxWidth : Int) (capacityList : List Nat) : Nat :=
  let qrVersion := (maxWidth - 2 - 17) / 4
  let position := if qrVersion - 1 < 0 then capacityList.length + (qrVersion - 1) else qrVersion - 1
  if position < 0 then capacityList.getLastD 0
  else capacityList.getD position.toNat (capacityList.getLastD 0)

/-- What `to_qr_codes` is given, with its format. -/
inductive Shown where
  | plain (data : Text)
  | pmofn (data : Text)
  | bbqr (code : BbqrCode)

/-- `find_min_num_parts`: the number of parts and their size. -/
def findMinNumParts (maxWidth : Int) : Shown → Except Exn (Nat × Nat)
  | .plain _ => .error (.valueError "Invalid format type")
  | .pmofn data =>
      let qrCapacity := maxQrBytes maxWidth qrCapacityByte
      let dataLength := data.length
      let count (partSize : Nat) := (dataLength + partSize - 1) / partSize
      let numParts := if 9 < count (qrCapacity - 6) then count (qrCapacity - 8)
        else count (qrCapacity - 6)
      if numParts = 0 then .error .zeroDivisionError
      else .ok (numParts, (dataLength + numParts - 1) / numParts)
  | .bbqr code =>
      let qrCapacity := maxQrBytes maxWidth qrCapacityAlphanumeric
      let dataLength := code.payload.length
      if dataLength < qrCapacity - 8 then .ok (1, dataLength)
      else
        let maxPartSize := (qrCapacity - 8) / 8 * 8
        let partSize (numParts : Nat) := (dataLength / numParts + 7) / 8 * 8
        let numParts := (dataLength + maxPartSize - 1) / maxPartSize
        if maxPartSize < partSize numParts then .ok (numParts + 1, partSize (numParts + 1))
        else .ok (numParts, partSize numParts)

/-- The string of the code with a number. -/
def qrCode (numParts partSize partIndex : Nat) : Shown → Except Exn Text
  | .plain data => .ok data
  | .pmofn data => .ok ("p".toList ++ decimal (partIndex + 1) ++ "of".toList ++ decimal numParts ++
      " ".toList ++ Chunks.chunk data partSize numParts partIndex)
  | .bbqr code => do
      let total ← int2base36 numParts
      let number ← int2base36 partIndex
      pure ("B$".toList ++ [code.encoding.letter, code.fileType.letter] ++ total ++ number ++
        Chunks.chunk code.payload partSize numParts partIndex)

/-- The next `count` codes; after the last part the first one is shown again. -/
def nextQrCodes (shown : Shown) (numParts partSize : Nat) : Nat → Nat → Except Exn (List Text)
  | 0, _ => .ok []
  | count + 1, partIndex => do
      let code ← qrCode numParts partSize partIndex shown
      let later ← nextQrCodes shown numParts partSize count
        (if partIndex + 1 = numParts then 0 else partIndex + 1)
      pure (code :: later)

/-- The first `count` codes that `to_qr_codes` yields, each with the number of parts. A plain
code is yielded once. -/
def toQrCodes (shown : Shown) (maxWidth : Int) (count : Nat) : Except Exn (List (Text × Nat)) :=
  match shown with
  | .plain data => .ok ([(data, 1)].take count)
  | shown => do
      let (numParts, partSize) ← findMinNumParts maxWidth shown
      let codes ← nextQrCodes shown numParts partSize count 0
      pure (codes.map fun code => (code, numParts))

/-- The codes of one turn: as many as there are parts. -/
def oneTurn (shown : Shown) (maxWidth : Int) : Except Exn (List Text) := do
  let (numParts, _) ← findMinNumParts maxWidth shown
  let codes ← toQrCodes shown maxWidth numParts
  pure (codes.map Prod.fst)

section Capacity

/-- The capacity is one of the list. -/
theorem maxQrBytes_mem (maxWidth : Int) {capacityList : List Nat} (nonempty : capacityList ≠ []) :
    maxQrBytes maxWidth capacityList ∈ capacityList := by
  have last : capacityList.getLastD 0 ∈ capacityList := by
    rw [List.getLastD_eq_getLast?, List.getLast?_eq_some_getLast nonempty]
    exact List.getLast_mem nonempty
  simp only [maxQrBytes]
  generalize (if (maxWidth - 2 - 17) / 4 - 1 < 0 then
    (capacityList.length : Int) + ((maxWidth - 2 - 17) / 4 - 1)
    else (maxWidth - 2 - 17) / 4 - 1) = position
  split
  · exact last
  · rw [List.getD_eq_getElem?_getD]
    cases found : capacityList[position.toNat]? with
    | none => exact last
    | some capacity => exact List.mem_of_getElem? found

/-- Every width holds a code with some bytes. -/
theorem maxQrBytes_byte (maxWidth : Int) : 17 ≤ maxQrBytes maxWidth qrCapacityByte := by
  have least : ∀ capacity ∈ qrCapacityByte, 17 ≤ capacity := by decide
  exact least _ (maxQrBytes_mem maxWidth (by decide))

/-- Every width holds a code with some characters. -/
theorem maxQrBytes_alphanumeric (maxWidth : Int) :
    25 ≤ maxQrBytes maxWidth qrCapacityAlphanumeric := by
  have least : ∀ capacity ∈ qrCapacityAlphanumeric, 25 ≤ capacity := by decide
  exact least _ (maxQrBytes_mem maxWidth (by decide))

end Capacity

section Parts

/-- As many parts of a size as are needed do not leave an empty one. -/
theorem ceil_parts {length size : Nat} (positive : 0 < size) (nonempty : 0 < length) :
    0 < (length + size - 1) / size ∧ ((length + size - 1) / size - 1) * size < length := by
  have some : 0 < (length + size - 1) / size := Nat.div_pos (by omega) positive
  refine ⟨some, ?_⟩
  have whole := Nat.div_mul_le_self (length + size - 1) size
  rw [Nat.sub_mul, Nat.one_mul]
  omega

/-- A text that is not empty has a number of parts. -/
theorem findMinNumParts_pmofn (maxWidth : Int) {data : Text} (nonempty : data ≠ []) :
    ∃ numParts partSize, findMinNumParts maxWidth (.pmofn data) = .ok (numParts, partSize) ∧
      0 < numParts := by
  have capacity := maxQrBytes_byte maxWidth
  have long : 0 < data.length := List.length_pos_of_ne_nil nonempty
  have less := ceil_parts (show 0 < maxQrBytes maxWidth qrCapacityByte - 8 by omega) long
  have more := ceil_parts (show 0 < maxQrBytes maxWidth qrCapacityByte - 6 by omega) long
  simp only [findMinNumParts]
  have positive : 0 < (if 9 < (data.length + (maxQrBytes maxWidth qrCapacityByte - 6) - 1) /
      (maxQrBytes maxWidth qrCapacityByte - 6)
    then (data.length + (maxQrBytes maxWidth qrCapacityByte - 8) - 1) /
      (maxQrBytes maxWidth qrCapacityByte - 8)
    else (data.length + (maxQrBytes maxWidth qrCapacityByte - 6) - 1) /
      (maxQrBytes maxWidth qrCapacityByte - 6)) := by
    split
    · exact less.1
    · exact more.1
  rw [if_neg (Nat.ne_of_gt positive)]
  exact ⟨_, _, rfl, positive⟩

/-- The parts of a payload: several parts are cut at multiples of eight characters, and the
last one begins inside the payload. The rounded size never exceeds what fits, so the part
that the source adds for that case is never needed. -/
theorem findMinNumParts_bbqr (maxWidth : Int) {code : BbqrCode} (nonempty : code.payload ≠ []) :
    ∃ numParts partSize, findMinNumParts maxWidth (.bbqr code) = .ok (numParts, partSize) ∧
      0 < numParts ∧ (1 < numParts → 8 ∣ partSize ∧ 0 < partSize) ∧
      (numParts - 1) * partSize < code.payload.length := by
  have some := List.length_pos_of_ne_nil nonempty
  have capacity := maxQrBytes_alphanumeric maxWidth
  simp only [findMinNumParts]
  generalize maxQrBytes maxWidth qrCapacityAlphanumeric = qrCapacity at capacity
  generalize code.payload.length = length at some
  split
  · exact ⟨1, length, rfl, by omega, by omega, by omega⟩
  · rename_i long
    have size : 0 < (qrCapacity - 8) / 8 * 8 := by omega
    have aligned : 8 ∣ (qrCapacity - 8) / 8 * 8 := Nat.dvd_mul_left 8 _
    have reach : (qrCapacity - 8) / 8 * 8 ≤ length := by omega
    generalize (qrCapacity - 8) / 8 * 8 = maxPartSize at size aligned reach
    obtain ⟨positive, inside⟩ := ceil_parts size (by omega : 0 < length)
    have parts : (length + maxPartSize - 1) / maxPartSize ≤ length := by
      refine Nat.div_le_of_le_mul ?_
      obtain ⟨more, rfl⟩ := Nat.exists_eq_add_of_le' size
      rw [Nat.succ_mul]
      have larger := Nat.le_mul_of_pos_right more some
      omega
    have enough : length ≤ (length + maxPartSize - 1) / maxPartSize * maxPartSize := by
      have whole := Nat.lt_div_mul_add size (a := length + maxPartSize - 1)
      omega
    generalize (length + maxPartSize - 1) / maxPartSize = numParts at positive inside enough parts
    have average : length / numParts ≤ maxPartSize := Nat.div_le_of_le_mul enough
    have fits : (length / numParts + 7) / 8 * 8 ≤ maxPartSize := by omega
    rw [if_neg (Nat.not_lt.mpr fits)]
    have several : 0 < length / numParts := Nat.div_pos parts positive
    refine ⟨numParts, _, rfl, positive, fun _ => ⟨Nat.dvd_mul_left 8 _, by omega⟩, ?_⟩
    exact lt_of_le_of_lt (Nat.mul_le_mul_left (numParts - 1) fits) inside

end Parts

/-- The codes of one turn, in the terms of the parser: each tells the format, and is read as
the part with its number. -/
structure Series (format : Format) (bbqr : Option (Encoding × FileType)) (start : Int)
    (count : Nat) (code part : Nat → Text) : Prop where
  positive : 0 < count
  numbered : format = .pmofn ∧ start = 1 ∨ format = .bbqr ∧ start = 0
  detected : ∀ number < count, detectFormat (code number) = (format, bbqr)
  read : ∀ number < count,
    readPart format (code number) = .ok (part number, start + number, count)

namespace Series

open QrPartParser

variable {format : Format} {bbqr : Option (Encoding × FileType)} {start : Int} {count : Nat}
  {code part : Nat → Text} {strings : List Text}

/-- What the parser knows after the first code. -/
theorem format_scanned (series : Series format bbqr start count code part)
    (shown : ∀ data ∈ strings, ∃ number < count, data = code number) (nonempty : strings ≠ []) :
    (scanned strings).format = some format ∧ (scanned strings).bbqr = bbqr := by
  cases strings with
  | nil => exact absurd rfl nonempty
  | cons first strings =>
      obtain ⟨number, less, rfl⟩ := shown first List.mem_cons_self
      rw [format_scanned_cons, bbqr_scanned_cons, series.detected number less]
      exact ⟨rfl, rfl⟩

/-- No code of the series raises. -/
theorem parse_ok (series : Series format bbqr start count code part)
    (shown : ∀ data ∈ strings, ∃ number < count, data = code number) {number : Nat}
    (less : number < count) : ∃ value, (parse (code number) (scanned strings)).1 = .ok value := by
  have known : (scanned strings).formatFor (code number) = format := by
    by_cases empty : strings = []
    · rw [empty, formatFor, series.detected number less]
      rfl
    · rw [formatFor, (series.format_scanned shown empty).1]
      rfl
  exact (parse_of_readPart (by rw [known]; exact series.read number less)).1

/-- The stored indices are those of the codes seen. -/
theorem mem_keys (series : Series format bbqr start count code part)
    (shown : ∀ data ∈ strings, ∃ number < count, data = code number)
    (account : Provenance strings format (scanned strings)) {index : Int} :
    index ∈ (scanned strings).parts.keys ↔
      ∃ number < count, index = start + number ∧ code number ∈ strings := by
  constructor
  · intro member
    obtain ⟨content, found⟩ := Option.isSome_iff_exists.mp
      (AList.lookup_isSome.mpr (AList.mem_keys.mpr member))
    obtain ⟨data, seen, total, read⟩ := account.stored index content found
    obtain ⟨number, less, rfl⟩ := shown data seen
    rw [series.read number less] at read
    cases read
    exact ⟨number, less, rfl, seen⟩
  · rintro ⟨number, less, rfl, seen⟩
    exact AList.mem_keys.mp (account.kept _ seen _ _ _ (series.read number less))

/-- A scanned code sets the total to the number of parts. -/
theorem total_scanned (series : Series format bbqr start count code part)
    (shown : ∀ data ∈ strings, ∃ number < count, data = code number) (nonempty : strings ≠ [])
    (account : Provenance strings format (scanned strings)) : (scanned strings).total = count := by
  rcases account.counted with ⟨_, empty⟩ | ⟨data, seen, content, index, read⟩
  · obtain ⟨data, seen⟩ := List.exists_mem_of_ne_nil strings nonempty
    obtain ⟨number, less, rfl⟩ := shown data seen
    have present := account.kept _ seen _ _ _ (series.read number less)
    rw [empty] at present
    exact absurd present (AList.notMem_empty _)
  · obtain ⟨number, less, rfl⟩ := shown data seen
    rw [series.read number less] at read
    simp only [Except.ok.injEq, Prod.mk.injEq] at read
    exact read.2.2.symm

/-- The numbers of a series of which every code was seen. -/
theorem consecutive_keys (series : Series format bbqr start count code part)
    (shown : ∀ data ∈ strings, ∃ number < count, data = code number)
    (account : Provenance strings format (scanned strings))
    (all : ∀ number < count, code number ∈ strings) :
    Consecutive (scanned strings).parts.keys start (start + count) := by
  intro index
  rw [series.mem_keys shown account]
  constructor
  · rintro ⟨number, less, rfl, _⟩
    omega
  · rintro ⟨low, high⟩
    have less : (index - start).toNat < count := by omega
    exact ⟨(index - start).toNat, less, by omega, all _ less⟩

/-- Completeness in terms of the numbering of the series. -/
theorem isComplete_iff (series : Series format bbqr start count code part)
    (known : (scanned strings).format = some format) (total : (scanned strings).total = count) :
    (scanned strings).isComplete = true ↔ (scanned strings).parts.keys.length = count ∧
      (scanned strings).parts.keys.sum = sumRange start (start + count) := by
  rcases series.numbered with ⟨rfl, rfl⟩ | ⟨rfl, rfl⟩
  · rw [isComplete_pmofn known, total, Int.add_comm 1]
    omega
  · rw [isComplete_bbqr known, total, Int.zero_add]
    omega

/-- **The scan is complete when every code was seen**, and not before. -/
theorem isComplete_scanned (series : Series format bbqr start count code part)
    (shown : ∀ data ∈ strings, ∃ number < count, data = code number) :
    (scanned strings).isComplete = true ↔ ∀ number < count, code number ∈ strings := by
  by_cases empty : strings = []
  · subst empty
    constructor
    · intro complete
      exact absurd complete (by decide)
    · intro all
      exact absurd (all 0 series.positive) List.not_mem_nil
  have known := (series.format_scanned shown empty).1
  have account := provenance_scanned known
  have distinct : (scanned strings).parts.keys.Nodup := AList.keys_nodup _
  rw [series.isComplete_iff known (series.total_scanned shown empty account)]
  constructor
  · rintro ⟨size, sum⟩ number less
    have above : ∀ index ∈ (scanned strings).parts.keys, start ≤ index := by
      intro index member
      obtain ⟨number, _, rfl, _⟩ := (series.mem_keys shown account).mp member
      omega
    have present := (consecutive_of_sum distinct (by omega) above sum (start + number)).mpr
      (by omega)
    obtain ⟨other, _, same, seen⟩ := (series.mem_keys shown account).mp present
    obtain rfl : number = other := by omega
    exact seen
  · intro all
    exact (series.consecutive_keys shown account all).sum distinct

/-- The parts of a complete scan are those of the series in order. -/
theorem inOrder_scanned (series : Series format bbqr start count code part)
    (shown : ∀ data ∈ strings, ∃ number < count, data = code number)
    (all : ∀ number < count, code number ∈ strings) :
    inOrder (scanned strings).parts = (List.range count).map part := by
  have nonempty : strings ≠ [] := List.ne_nil_of_mem (all 0 series.positive)
  have account := provenance_scanned (series.format_scanned shown nonempty).1
  refine inOrder_of_consecutive (series.consecutive_keys shown account all) fun number less => ?_
  have present := account.kept _ (all number less) _ _ _ (series.read number less)
  obtain ⟨content, found⟩ := Option.isSome_iff_exists.mp (AList.lookup_isSome.mpr present)
  obtain ⟨data, seen, total, read⟩ := account.stored _ content found
  obtain ⟨other, less, rfl⟩ := shown data seen
  rw [series.read other less] at read
  simp only [Except.ok.injEq, Prod.mk.injEq] at read
  obtain rfl : number = other := by omega
  rw [found, read.1]

end Series

section Turn

variable {shown : Shown} {maxWidth : Int} {numParts partSize : Nat} {code : Nat → Text}

/-- Up to the last part the codes follow each other. -/
theorem nextQrCodes_eq (made : ∀ number < numParts,
      qrCode numParts partSize number shown = .ok (code number))
    {count partIndex : Nat} (within : partIndex + count ≤ numParts) :
    nextQrCodes shown numParts partSize count partIndex =
      .ok ((List.range' partIndex count).map code) := by
  induction count generalizing partIndex with
  | zero => rfl
  | succ count ih =>
      rw [nextQrCodes, made partIndex (by omega), ok_bind]
      by_cases last : partIndex + 1 = numParts
      · obtain rfl : count = 0 := by omega
        rfl
      · rw [if_neg last, ih (by omega)]
        rfl

/-- The codes of one turn, in order. -/
theorem oneTurn_eq (parts : findMinNumParts maxWidth shown = .ok (numParts, partSize))
    (made : ∀ number < numParts, qrCode numParts partSize number shown = .ok (code number)) :
    oneTurn shown maxWidth = .ok ((List.range numParts).map code) := by
  have turn : toQrCodes shown maxWidth numParts =
      .ok (((List.range numParts).map code).map fun code => (code, numParts)) := by
    have next := @nextQrCodes_eq shown numParts partSize code made numParts 0 (by omega)
    cases shown with
    | plain data => cases parts
    | pmofn data =>
        rw [toQrCodes, parts, ok_bind, List.range_eq_range']
        · simp only [next, ok_bind]
          rfl
        · nofun
    | bbqr code =>
        rw [toQrCodes, parts, ok_bind, List.range_eq_range']
        · simp only [next, ok_bind]
          rfl
        · nofun
  rw [oneTurn, parts, ok_bind]
  simp only [turn, ok_bind, List.map_map]
  rfl

end Turn

section Codes

/-- A `p%dof%d` code is recognised by its header. -/
theorem detectFormat_pmofn (number total : Nat) (content : Text) :
    detectFormat ("p".toList ++ decimal number ++ "of".toList ++ decimal total ++ " ".toList ++
      content) = (.pmofn, none) := by
  apply detectFormat_of_pmofnLike
  refine ⟨decimal number, decimal total ++ " ".toList ++ content, numeric_decimal number, ?_⟩
  simp only [List.append_assoc]

/-- A `p%dof%d` code is read back. -/
theorem parsePmofnQrPart_code (place total : Nat) (content : Text) :
    parsePmofnQrPart ("p".toList ++ decimal place ++ "of".toList ++ decimal total ++ " ".toList ++
      content) = .ok (content, (place : Int), (total : Int)) := by
  have spaceless : ' ' ∉ decimal total := (numeric_decimal total).not_mem (by decide)
  have read := parsePmofnQrPart_pmofnText (numeric_decimal place) spaceless content
  rw [readInt, int_decimal, number_decimal] at read
  exact read

/-- A BBQr code is read back. -/
theorem parseBbqr_code (encoding : Encoding) (fileType : FileType) {number total : Nat}
    {totalText numberText : Text} (written : int2base36 total = .ok totalText)
    (numbered : int2base36 number = .ok numberText) (less : number < total) (content : Text) :
    parseBbqr ("B$".toList ++ [encoding.letter, fileType.letter] ++ totalText ++ numberText ++
      content) = .ok (content, (number : Int), (total : Int)) := by
  obtain ⟨totalLength, totalRead⟩ := readBase36_int2base36 written
  obtain ⟨numberLength, numberRead⟩ := readBase36_int2base36 numbered
  have read := parseBbqr_bbqrText encoding fileType totalLength numberLength content
  rw [totalRead, ok_bind, numberRead, ok_bind, if_neg (by omega)] at read
  exact read

private theorem int2base36_ok {value : Nat} (small : value ≤ 1295) :
    int2base36 value = .ok [base36Char (value / 36), base36Char (value % 36)] := if_pos small

end Codes

/-- What is shown for data: a text as it is, or the BBQr code of the data, from which the data
are read back as bytes when they were written in hexadecimal digits. -/
inductive Carries (deflate : Deflate) : Shown → Content → Prop where
  | pmofn {data : Text} (nonempty : data ≠ []) : Carries deflate (.pmofn data) (.text data)
  | bbqr {data : Content} {encoding : Encoding} {fileType : FileType} {code : BbqrCode}
      (nonempty : data.toBytes ≠ []) (suits : fileType.Suits data)
      (encoded : encodeBbqr deflate data encoding fileType = .ok code) :
      Carries deflate (.bbqr code) (code.carried data)

/-- What a scan of the codes of one turn comes to. -/
structure ScansTo (deflate : Deflate) (codes : List Text) (original : Content)
    (strings : List Text) : Prop where
  /-- No string raises. -/
  accepted : ∀ before data after, strings = before ++ data :: after →
    ∃ value, (QrPartParser.parse data (QrPartParser.scanned before)).1 = .ok value
  /-- The scan is complete when every code was seen, and not before. -/
  complete : (QrPartParser.scanned strings).isComplete = true ↔ ∀ code ∈ codes, code ∈ strings
  /-- The result of a complete scan. -/
  result : (QrPartParser.scanned strings).isComplete = true →
    (QrPartParser.scanned strings).result deflate = .ok original

/-- A series is scanned to what its parts are put together to. -/
theorem Series.scansTo {deflate : Deflate} {format : Format} {bbqr : Option (Encoding × FileType)}
    {start : Int} {count : Nat} {code part : Nat → Text} {original : Content}
    (series : Series format bbqr start count code part)
    (assembled : ∀ parser : QrPartParser, parser.format = some format → parser.bbqr = bbqr →
      inOrder parser.parts = (List.range count).map part → parser.result deflate = .ok original)
    {strings : List Text} (shown : ∀ data ∈ strings, data ∈ (List.range count).map code) :
    ScansTo deflate ((List.range count).map code) original strings := by
  have known : ∀ data ∈ strings, ∃ number < count, data = code number := by
    intro data member
    obtain ⟨number, less, rfl⟩ := List.mem_map.mp (shown data member)
    exact ⟨number, List.mem_range.mp less, rfl⟩
  have complete := series.isComplete_scanned known
  refine ⟨?_, ?_, ?_⟩
  · rintro before data after rfl
    obtain ⟨number, less, rfl⟩ := known data (by simp)
    exact series.parse_ok (fun data member => known data (List.mem_append_left _ member)) less
  · rw [complete]
    simp
  · intro done
    have all := complete.mp done
    have nonempty : strings ≠ [] := List.ne_nil_of_mem (all 0 series.positive)
    obtain ⟨format, bbqr⟩ := series.format_scanned known nonempty
    exact assembled _ format bbqr (series.inOrder_scanned known all)

/-- The string of a `p%dof%d` code. -/
def pmofnString (data : Text) (numParts partSize number : Nat) : Text :=
  "p".toList ++ decimal (number + 1) ++ "of".toList ++ decimal numParts ++ " ".toList ++
    Chunks.chunk data partSize numParts number

/-- A turn of `p%dof%d` codes is scanned to the text. -/
theorem pmofn_scansTo {deflate : Deflate} {data : Text} {numParts partSize : Nat}
    (positive : 0 < numParts) {strings : List Text}
    (shown : ∀ string ∈ strings,
      string ∈ (List.range numParts).map (pmofnString data numParts partSize)) :
    ScansTo deflate ((List.range numParts).map (pmofnString data numParts partSize)) (.text data)
      strings := by
  have series : Series .pmofn none 1 numParts (pmofnString data numParts partSize)
      (Chunks.chunk data partSize numParts) := by
    refine ⟨positive, .inl ⟨rfl, rfl⟩, fun number _ => detectFormat_pmofn _ _ _, fun number _ => ?_⟩
    have read := parsePmofnQrPart_code (number + 1) numParts
      (Chunks.chunk data partSize numParts number)
    rw [Nat.cast_succ, Int.add_comm] at read
    exact read
  refine series.scansTo (fun parser format _ inOrder => ?_) shown
  simp only [QrPartParser.result, format, inOrder]
  exact congrArg (fun text => Except.ok (Content.text text))
    (Chunks.flatten_chunks data partSize positive)

/-- The string of a BBQr code. -/
def bbqrString (code : BbqrCode) (numParts partSize number : Nat) : Text :=
  "B$".toList ++ [code.encoding.letter, code.fileType.letter] ++
    [base36Char (numParts / 36), base36Char (numParts % 36)] ++
    [base36Char (number / 36), base36Char (number % 36)] ++
    Chunks.chunk code.payload partSize numParts number

/-- The string of a part, as long as its number is written in two characters. -/
theorem qrCode_bbqr (code : BbqrCode) {numParts partSize number : Nat} (few : numParts ≤ 1295)
    (less : number < numParts) : qrCode numParts partSize number (.bbqr code) =
      .ok (bbqrString code numParts partSize number) := by
  rw [qrCode, int2base36_ok few, ok_bind, int2base36_ok (by omega : number ≤ 1295)]
  rfl

/-- A turn of BBQr codes is scanned to the data. -/
theorem bbqr_scansTo {deflate : Deflate} (roundTrips : deflate.RoundTrips) {data : Content}
    {encoding : Encoding} {fileType : FileType} {code : BbqrCode} (nonempty : data.toBytes ≠ [])
    (suits : fileType.Suits data)
    (encoded : encodeBbqr deflate data encoding fileType = .ok code) {numParts partSize : Nat}
    (positive : 0 < numParts) (whole : 1 < numParts → 8 ∣ partSize ∧ 0 < partSize)
    (long : (numParts - 1) * partSize < code.payload.length) (few : numParts ≤ 1295)
    {strings : List Text}
    (shown : ∀ data ∈ strings,
      data ∈ (List.range numParts).map (bbqrString code numParts partSize)) :
    ScansTo deflate ((List.range numParts).map (bbqrString code numParts partSize))
      (code.carried data) strings := by
  have series : Series .bbqr (some (code.encoding, code.fileType)) 0 numParts
      (bbqrString code numParts partSize) (Chunks.chunk code.payload partSize numParts) := by
    refine ⟨positive, .inr ⟨rfl, rfl⟩, fun number _ => detectFormat_bbqr _ _ _,
      fun number less => ?_⟩
    rw [Int.zero_add]
    exact parseBbqr_code code.encoding code.fileType (int2base36_ok few)
      (int2base36_ok (by omega)) less _
  refine series.scansTo (fun parser format bbqr inOrder => ?_) shown
  simp only [QrPartParser.result, format, bbqr, inOrder]
  exact decodeBbqr_chunks roundTrips nonempty suits encoded positive whole long

/-- **Animated QR codes round trip.** Of a text, or of data as a BBQr code of at most 1295
parts, one turn of codes is made for every width. However the codes are scanned, in any order
and with repetitions, no string raises, the scan is complete when every code was seen and not
before, and the result is what was shown. -/
theorem animation_round_trip {deflate : Deflate} (roundTrips : deflate.RoundTrips)
    (maxWidth : Int) {shown : Shown} {original : Content} (carries : Carries deflate shown original)
    (few : ∀ code, shown = .bbqr code → ∀ numParts partSize,
      findMinNumParts maxWidth shown = .ok (numParts, partSize) → numParts ≤ 1295) :
    ∃ codes, oneTurn shown maxWidth = .ok codes ∧
      ∀ strings, (∀ data ∈ strings, data ∈ codes) → ScansTo deflate codes original strings := by
  cases carries with
  | pmofn nonempty =>
      obtain ⟨numParts, partSize, parts, positive⟩ := findMinNumParts_pmofn maxWidth nonempty
      exact ⟨_, oneTurn_eq parts fun _ _ => rfl, fun strings shown => pmofn_scansTo positive shown⟩
  | @bbqr data encoding fileType code nonempty suits encoded =>
      obtain ⟨numParts, partSize, parts, positive, whole, long⟩ :=
        findMinNumParts_bbqr maxWidth (payload_ne_nil roundTrips nonempty encoded)
      have small := few code rfl numParts partSize parts
      exact ⟨_, oneTurn_eq parts fun _ less => qrCode_bbqr code small less, fun strings shown =>
        bbqr_scansTo roundTrips nonempty suits encoded positive whole long small shown⟩

/-- A deflate for the examples. -/
def Sample.deflate : Deflate := ⟨fun data => some (0 :: data), fun stream => some stream.tail⟩

private theorem Sample.deflate_roundTrips : Sample.deflate.RoundTrips := by
  intro data compressed _ packed
  cases packed
  exact ⟨List.cons_ne_nil 0 data, rfl⟩

/-- A transaction of thirty bytes. -/
def Sample.transaction : Content := .bytes ((List.range 30).map UInt8.ofNat)

/-- Its code of 48 characters. -/
def Sample.code : BbqrCode := ⟨base32Encode Sample.transaction.toBytes, .base32, .psbt⟩

/-- A text in two parts, and a transaction as a BBQr code of three. -/
theorem animation_round_trip_pair :
    (∃ codes, oneTurn (.pmofn "twelve words".toList) 23 = .ok codes ∧
      ∀ strings, (∀ data ∈ strings, data ∈ codes) →
        ScansTo Sample.deflate codes (.text "twelve words".toList) strings) ∧
    findMinNumParts 23 (.bbqr Sample.code) = .ok (3, 16) ∧
    ∃ codes, oneTurn (.bbqr Sample.code) 23 = .ok codes ∧
      ∀ strings, (∀ data ∈ strings, data ∈ codes) →
        ScansTo Sample.deflate codes Sample.transaction strings := by
  have parts : findMinNumParts 23 (.bbqr Sample.code) = .ok (3, 16) := by decide +kernel
  have carries : Carries Sample.deflate (.bbqr Sample.code)
      (Sample.code.carried Sample.transaction) :=
    .bbqr (by decide) (show FileType.psbt.isText = false from rfl)
      (show encodeBbqr Sample.deflate Sample.transaction .base32 .psbt = .ok Sample.code from rfl)
  refine ⟨animation_round_trip Sample.deflate_roundTrips 23 (.pmofn (by decide)) nofun, parts,
    animation_round_trip Sample.deflate_roundTrips 23 carries ?_⟩
  intro code same numParts partSize made
  cases same
  rw [parts] at made
  cases made
  decide

end VaultSeed.Qr
