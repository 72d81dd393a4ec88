import VaultSeed.Qr.Parser

/-! # The headers of scanned strings

A first string is taken for a part of a series by the beginning of its header: `p`, a number
and `of`, or `B$` and the two letters of a BBQr code. The part is then read by the rest of
the header, which has not been looked at. A scan meets every string exactly when that rest is
there: a number, at least as large as the first one, up to a space, or two numbers of base 36
in order.
-/

namespace VaultSeed.Qr

open Python Effect Proc Numbered

/-- Decimal digits, and at least one. -/
def Numeric (text : Text) : Prop := text ≠ [] ∧ ∀ char ∈ text, char.isDigit = true

/-- The number that decimal digits stand for. -/
def number (digits : Text) : Int := (Nat.ofDigitChars 10 digits 0 : Nat)

/-- The header of a part `p%dof%d `, and its content. -/
def pmofnText (digits total content : Text) : Text :=
  "p".toList ++ digits ++ "of".toList ++ total ++ " ".toList ++ content

/-- A text that begins as a part `p%dof%d ` does. -/
def PmofnLike (data : Text) : Prop :=
  ∃ digits rest, Numeric digits ∧ data = "p".toList ++ digits ++ "of".toList ++ rest

/-- A part `p%dof%d ` of a series: the number before `of` is at least 1, the one between `of`
and the first space at least as large. -/
def PmofnPart (data : Text) : Prop :=
  ∃ digits total content count, Numeric digits ∧ ' ' ∉ total ∧
    data = pmofnText digits total content ∧ int 0 total = some count ∧
    1 ≤ number digits ∧ number digits ≤ count

/-- The header of a BBQr part, and its content. -/
def bbqrText (encoding : Encoding) (fileType : FileType) (total index content : Text) : Text :=
  "B$".toList ++ [encoding.letter, fileType.letter] ++ total ++ index ++ content

/-- A text that begins as a BBQr part does. -/
def BbqrLike (data : Text) : Prop :=
  ∃ (encoding : Encoding) (fileType : FileType) (rest : Text),
    data = "B$".toList ++ [encoding.letter, fileType.letter] ++ rest

/-- A BBQr part of a series: two characters for the number of parts and two for the place of
this one among them, in base 36. -/
def BbqrPart (data : Text) : Prop :=
  ∃ encoding fileType total index content count place, total.length = 2 ∧ index.length = 2 ∧
    data = bbqrText encoding fileType total index content ∧
    int 36 total = some count ∧ int 36 index = some place ∧ 0 ≤ place ∧ place < count

section Pmofn

variable {digits : Text}

/-- A numeric text has digits only. -/
theorem Numeric.not_mem (numeric : Numeric digits) {char : Char} (other : char.isDigit = false) :
    char ∉ digits := by
  intro member
  rw [numeric.2 char member] at other
  cases other

private theorem Numeric.int_eq (numeric : Numeric digits) : int 0 digits = some (number digits) :=
  int_of_isDigit numeric.1 numeric.2

/-- A decimal is a numeric text. -/
theorem numeric_decimal (value : Nat) : Numeric (decimal value) :=
  ⟨decimal_ne_nil value, fun _ => decimal_isDigit⟩

/-- A decimal is read back. -/
@[simp] theorem number_decimal (value : Nat) : number (decimal value) = value := by
  rw [number, decimal, Nat.ofDigitChars_ten_toDigits]

/-- The first `of` stands right after the digits. -/
theorem Numeric.find_of (numeric : Numeric digits) (rest : Text) :
    find "of".toList ("p".toList ++ digits ++ "of".toList ++ rest) = some (digits.length + 1) := by
  have lead : 'o' ∉ "p".toList ++ digits := by
    simp [numeric.not_mem (show Char.isDigit 'o' = false by decide)]
  have found := @find_append 'o' ['f'] _ lead rest
  simpa using found

/-- A text that begins as a part does is taken for one. -/
theorem detectFormat_of_pmofnLike {data : Text} (like : PmofnLike data) :
    detectFormat data = (.pmofn, none) := by
  obtain ⟨digits, rest, numeric, rfl⟩ := like
  have spaceless : ∀ char ∈ "p".toList ++ digits ++ "of".toList, (char != ' ') = true := by
    intro char member
    have different : char ≠ ' ' := by
      rintro rfl
      simp [numeric.not_mem (show Char.isDigit ' ' = false by decide)] at member
    simpa using different
  have header : ("p".toList ++ digits ++ "of".toList ++ rest).takeWhile (· != ' ') =
      "p".toList ++ digits ++ "of".toList ++ rest.takeWhile (· != ' ') :=
    List.takeWhile_append_of_pos spaceless
  have first := numeric.find_of (rest.takeWhile (· != ' '))
  have second : find "of".toList (digits ++ ("of".toList ++ rest.takeWhile (· != ' '))) =
      some digits.length := find_append (numeric.not_mem (by decide)) _
  have marked : numberedHeader ("p".toList ++ digits ++ "of".toList ++
      rest.takeWhile (· != ' ')) = true := by
    have tail : ("p".toList ++ digits ++ "of".toList ++ rest.takeWhile (· != ' ')).tail =
        digits ++ ("of".toList ++ rest.takeWhile (· != ' ')) := by
      simp
    rw [numberedHeader, tail, second]
    simp only [List.take_left, Bool.and_eq_true, decide_eq_true_eq, List.all_eq_true]
    exact numeric
  unfold detectFormat
  rw [if_pos (by rfl)]
  simp only [header, first, marked]
  rfl

/-- Only a text that begins as a part does is taken for one. -/
theorem pmofnLike_of_detectFormat {data : Text} (detected : (detectFormat data).1 = .pmofn) :
    PmofnLike data := by
  simp only [detectFormat] at detected
  split_ifs at detected with starts marked bbqr
  · rw [Bool.and_eq_true] at marked
    obtain ⟨rest, begins⟩ : ∃ rest, data = 'p' :: rest := List.head?_eq_some_iff.mp starts
    have header : data.takeWhile (· != ' ') = 'p' :: rest.takeWhile (· != ' ') := by
      rw [begins]
      rfl
    have numbered := marked.2
    rw [header, numberedHeader, List.tail_cons] at numbered
    split at numbered
    · rename_i position found
      obtain ⟨back, cut⟩ := exists_of_find found
      rw [Bool.and_eq_true, decide_eq_true_eq, List.all_eq_true] at numbered
      refine ⟨_, back ++ rest.dropWhile (· != ' '), numbered, ?_⟩
      have whole : rest = rest.takeWhile (· != ' ') ++ rest.dropWhile (· != ' ') :=
        List.takeWhile_append_dropWhile.symm
      rw [cut] at whole
      rw [begins]
      simpa using whole
    · cases numbered
  · split at detected
    · split at detected <;> cases detected
    · cases detected

private theorem detectFormat_pmofn_iff (data : Text) :
    (detectFormat data).1 = .pmofn ↔ PmofnLike data := by
  constructor
  · exact pmofnLike_of_detectFormat
  · intro like
    rw [detectFormat_of_pmofnLike like]

/-- A part is read by the numbers of its header. -/
theorem parsePmofnQrPart_pmofnText (numeric : Numeric digits) {total : Text}
    (spaceless : ' ' ∉ total) (content : Text) :
    parsePmofnQrPart (pmofnText digits total content) =
      (readInt total).map fun count => (content, number digits, count) := by
  have unspaced : ' ' ∉ "p".toList ++ digits ++ "of".toList ++ total := by
    simp [numeric.not_mem (show Char.isDigit ' ' = false by decide), spaceless]
  have ofIndex : find "of".toList (pmofnText digits total content) = some (digits.length + 1) := by
    have found := numeric.find_of (total ++ " ".toList ++ content)
    simpa [pmofnText] using found
  have spaceIndex : find " ".toList (pmofnText digits total content) =
      some (digits.length + total.length + 3) := by
    have found := @find_append ' ' [] _ unspaced content
    have length : ("p".toList ++ digits ++ "of".toList ++ total).length =
        digits.length + total.length + 3 := by
      simp
      omega
    rw [length] at found
    simpa [pmofnText] using found
  have first : slice (pmofnText digits total content) 1 (digits.length + 1) = digits := by
    have middle := slice_append "p".toList digits ("of".toList ++ total ++ " ".toList ++ content)
      rfl rfl
    simpa [pmofnText] using middle
  have second : slice (pmofnText digits total content) (digits.length + 1 + 2)
      (digits.length + total.length + 3) = total := by
    rw [pmofnText, List.append_assoc _ " ".toList]
    exact slice_append _ total _ (by simp) (by simp; omega)
  have rest : (pmofnText digits total content).drop (digits.length + total.length + 3 + 1) =
      content := List.drop_left' (by simp; omega)
  simp only [parsePmofnQrPart, index, ofIndex, spaceIndex, ok_bind, first, second, rest,
    readInt, numeric.int_eq]
  cases int 0 total <;> rfl

/-- A text without a space has no header. -/
theorem parsePmofnQrPart_of_spaceless {data : Text} (spaceless : ' ' ∉ data) :
    ∃ exn, parsePmofnQrPart data = .error exn := by
  have absent : find " ".toList data = none := by
    cases found : find " ".toList data with
    | none => rfl
    | some position =>
        obtain ⟨back, cut⟩ := exists_of_find found
        apply absurd _ spaceless
        rw [cut]
        simp
  cases first : find "of".toList data with
  | none => exact ⟨_, by rw [parsePmofnQrPart, index, first]; rfl⟩
  | some position => exact ⟨_, by rw [parsePmofnQrPart, index, first, index, absent]; rfl⟩

/-- A text that begins as a part is read with a place in its series exactly when it is one. -/
theorem pmofnPart_iff {data : Text} (like : PmofnLike data) :
    (∃ part index total, parsePmofnQrPart data = .ok (part, index, total) ∧ 1 ≤ total ∧
      1 ≤ index ∧ index ≤ total) ↔ PmofnPart data := by
  constructor
  · rintro ⟨part, index, total, read, _, positive, within⟩
    obtain ⟨digits, rest, numeric, rfl⟩ := like
    by_cases spaced : ' ' ∈ rest
    · obtain ⟨field, content, rfl, spaceless⟩ := List.eq_append_cons_of_mem spaced
      have same : "p".toList ++ digits ++ "of".toList ++ (field ++ ' ' :: content) =
          pmofnText digits field content := by
        simp [pmofnText]
      rw [same, parsePmofnQrPart_pmofnText numeric spaceless, readInt] at read
      cases counted : int 0 field with
      | none =>
          rw [counted] at read
          cases read
      | some count =>
          rw [counted] at read
          cases read
          exact ⟨digits, field, part, total, numeric, spaceless, same, counted, positive, within⟩
    · have unspaced : ' ' ∉ "p".toList ++ digits ++ "of".toList ++ rest := by
        simp [numeric.not_mem (show Char.isDigit ' ' = false by decide), spaced]
      obtain ⟨exn, failed⟩ := parsePmofnQrPart_of_spaceless unspaced
      rw [failed] at read
      cases read
  · rintro ⟨digits, field, content, count, numeric, spaceless, same, counted, positive, within⟩
    refine ⟨content, number digits, count, ?_, by omega, positive, within⟩
    rw [same, parsePmofnQrPart_pmofnText numeric spaceless, readInt, counted]
    rfl

end Pmofn

section Bbqr

private theorem Encoding.eq_letter {letter : Char} {encoding : Encoding}
    (known : Encoding.ofLetter letter = some encoding) : letter = encoding.letter := by
  unfold Encoding.ofLetter at known
  split_ifs at known <;> cases known <;> assumption

private theorem FileType.eq_letter {letter : Char} {fileType : FileType}
    (known : FileType.ofLetter letter = some fileType) : letter = fileType.letter := by
  unfold FileType.ofLetter at known
  split_ifs at known <;> cases known <;> assumption

/-- A BBQr code is recognised by its header. -/
theorem detectFormat_bbqr (encoding : Encoding) (fileType : FileType) (content : Text) :
    detectFormat ("B$".toList ++ [encoding.letter, fileType.letter] ++ content) =
      (.bbqr, some (encoding, fileType)) := by
  cases encoding <;> cases fileType <;> rfl

private theorem detectFormat_bbqr_iff (data : Text) : (detectFormat data).1 = .bbqr ↔
    BbqrLike data := by
  constructor
  · intro detected
    simp only [detectFormat] at detected
    split_ifs at detected with starts marked bbqr
    obtain ⟨rest, rfl⟩ := List.isPrefixOf_iff_prefix.mp bbqr
    split at detected
    · rename_i fileType typed
      split at detected
      · rename_i encoding encoded
        obtain ⟨second, atTwo, encoded⟩ := Option.bind_eq_some_iff.mp encoded
        obtain ⟨third, atThree, typed⟩ := Option.bind_eq_some_iff.mp typed
        rw [Encoding.eq_letter encoded] at atTwo
        rw [FileType.eq_letter typed] at atThree
        refine ⟨encoding, fileType, rest.drop 2, ?_⟩
        cases rest with
        | nil => cases atTwo
        | cons first rest =>
            cases rest with
            | nil => cases atThree
            | cons next rest =>
                cases atTwo
                cases atThree
                rfl
      · cases detected
    · cases detected
  · rintro ⟨encoding, fileType, rest, rfl⟩
    rw [detectFormat_bbqr]

/-- The fields of a BBQr part are read in base 36. -/
theorem parseBbqr_bbqrText (encoding : Encoding) (fileType : FileType) {total index : Text}
    (totalLength : total.length = 2) (indexLength : index.length = 2) (content : Text) :
    parseBbqr (bbqrText encoding fileType total index content) = (do
      let count ← readBase36 total
      let place ← readBase36 index
      if count ≤ place then throw (.valueError "Invalid part index")
      pure (content, place, count)) := by
  obtain ⟨high, low, rfl⟩ := List.length_eq_two.mp totalLength
  obtain ⟨first, second, rfl⟩ := List.length_eq_two.mp indexLength
  have long : ¬ content.length + 1 + 1 + 1 + 1 + 1 + 1 + 1 + 1 < 8 := by omega
  simp [parseBbqr, bbqrText, long]

/-- A text too short for the header of a BBQr part is refused. -/
theorem parseBbqr_of_short {data : Text} (short : data.length < 8) :
    parseBbqr data = .error (.valueError "Invalid BBQR format") := by
  rw [parseBbqr, if_pos short]
  rfl

/-- A text that begins as a BBQr part is read with a place in its series exactly when it is
one. -/
theorem bbqrPart_iff {data : Text} (like : BbqrLike data) :
    (∃ part index total, parseBbqr data = .ok (part, index, total) ∧ 1 ≤ total ∧
      0 ≤ index ∧ index ≤ total - 1) ↔ BbqrPart data := by
  constructor
  · rintro ⟨part, index, total, read, _, positive, within⟩
    obtain ⟨encoding, fileType, rest, rfl⟩ := like
    by_cases short : rest.length < 4
    · rw [parseBbqr_of_short (by simp; omega)] at read
      cases read
    have same : "B$".toList ++ [encoding.letter, fileType.letter] ++ rest =
        bbqrText encoding fileType (rest.take 2) ((rest.drop 2).take 2) ((rest.drop 2).drop 2) := by
      rw [bbqrText, List.append_assoc _ ((rest.drop 2).take 2), List.take_append_drop,
        List.append_assoc _ (rest.take 2), List.take_append_drop]
    have totalLength : (rest.take 2).length = 2 := by
      rw [List.length_take]
      omega
    have indexLength : ((rest.drop 2).take 2).length = 2 := by
      rw [List.length_take, List.length_drop]
      omega
    rw [same, parseBbqr_bbqrText _ _ totalLength indexLength, readBase36, readBase36] at read
    cases counted : int 36 (rest.take 2) with
    | none =>
        rw [counted] at read
        cases read
    | some count =>
        rw [counted] at read
        cases placed : int 36 ((rest.drop 2).take 2) with
        | none =>
            rw [placed] at read
            cases read
        | some place =>
            rw [placed] at read
            by_cases beyond : count ≤ place
            · rw [ok_bind, ok_bind, if_pos beyond] at read
              cases read
            · rw [ok_bind, ok_bind, if_neg beyond] at read
              cases read
              exact ⟨encoding, fileType, _, _, _, _, _, totalLength, indexLength, same, counted,
                placed, positive, not_le.mp beyond⟩
  · rintro ⟨encoding, fileType, field, second, content, count, place, totalLength, indexLength,
      same, counted, placed, positive, within⟩
    refine ⟨content, place, count, ?_, by omega, positive, by omega⟩
    rw [same, parseBbqr_bbqrText _ _ totalLength indexLength, readBase36, counted, readBase36,
      placed, ok_bind, ok_bind, if_neg (not_le.mpr within)]
    rfl

end Bbqr

/-- A scan meets a string: nothing is raised, a part is read with a place in its series, and
any other string is the result as it is. -/
def Met (data : Text) : Prop :=
  (∃ value, (QrPartParser.parse data .fresh).1 = .ok value) ∧
  match (detectFormat data).1 with
  | .pmofn => ∃ part index total, parsePmofnQrPart data = .ok (part, index, total) ∧ 1 ≤ total ∧
      1 ≤ index ∧ index ≤ total
  | .bbqr => ∃ part index total, parseBbqr data = .ok (part, index, total) ∧ 1 ≤ total ∧
      0 ≤ index ∧ index ≤ total - 1
  | .none => (QrPartParser.fresh.scan data).format = some .none ∧
      ∀ deflate, (QrPartParser.fresh.scan data).result deflate = .ok (.text data)

section Meeting

variable {data : Text}

/-- A string that can be read raises nothing. -/
theorem parse_fresh_of_readPart {part : Text} {index total : Int}
    (read : readPart (detectFormat data).1 data = .ok (part, index, total)) :
    (∃ value, (QrPartParser.parse data .fresh).1 = .ok value) ∧
      QrPartParser.fresh.scan data = (QrPartParser.fresh.detect data).store part index total :=
  QrPartParser.parse_of_readPart read

private theorem met_of_none (detected : (detectFormat data).1 = .none) : Met data := by
  have read : readPart (detectFormat data).1 data = .ok (data, 1, 1) := by
    rw [detected]
    rfl
  obtain ⟨returned, after⟩ := parse_fresh_of_readPart read
  have format : (QrPartParser.fresh.scan data).format = some .none := by
    rw [QrPartParser.format_scan]
    exact congrArg some detected
  refine ⟨returned, ?_⟩
  rw [detected]
  refine ⟨format, fun deflate => ?_⟩
  have alone : inOrder ((∅ : Parts Text).insert 1 data) = [data] := rfl
  rw [QrPartParser.result, format, after]
  change Except.ok (Content.text (inOrder ((QrPartParser.fresh.detect data).parts.insert 1
    data)).flatten) = _
  rw [QrPartParser.parts_detect, QrPartParser.fresh, alone, List.flatten_singleton]

/-- A part that is read with a place in its series raises nothing. -/
theorem returned_of_placed {format : Format} (detected : (detectFormat data).1 = format)
    {Placed : Int → Int → Prop}
    (placed : ∃ part index total, readPart format data = .ok (part, index, total) ∧
      Placed index total) : ∃ value, (QrPartParser.parse data .fresh).1 = .ok value := by
  obtain ⟨part, index, total, read, _⟩ := placed
  rw [← detected] at read
  exact (parse_fresh_of_readPart read).1

private theorem met_iff_of_pmofn (detected : (detectFormat data).1 = .pmofn) :
    Met data ↔ PmofnPart data := by
  rw [← pmofnPart_iff ((detectFormat_pmofn_iff data).mp detected), Met, detected]
  exact ⟨And.right, fun placed => ⟨returned_of_placed detected placed, placed⟩⟩

private theorem met_iff_of_bbqr (detected : (detectFormat data).1 = .bbqr) : Met data ↔
    BbqrPart data := by
  rw [← bbqrPart_iff ((detectFormat_bbqr_iff data).mp detected), Met, detected]
  exact ⟨And.right, fun placed => ⟨returned_of_placed detected placed, placed⟩⟩

end Meeting

/-- **When a scan meets a string**: exactly when a string that begins as a part of a series has
the whole header of one. -/
theorem met_iff (data : Text) :
    Met data ↔ (PmofnLike data → PmofnPart data) ∧ (BbqrLike data → BbqrPart data) := by
  rw [← detectFormat_pmofn_iff, ← detectFormat_bbqr_iff]
  cases detected : (detectFormat data).1 with
  | none => simp [met_of_none detected]
  | pmofn => simp [met_iff_of_pmofn detected]
  | bbqr => simp [met_iff_of_bbqr detected]

/-- A header that is cut off raises, and a place outside of the series is taken. -/
theorem headers_unmet : ¬ Met "p1of2".toList ∧ ¬ Met "B$HP".toList ∧ ¬ Met "p3of2 x".toList ∧
    ¬ Met "B$HP00-1x".toList := by
  refine ⟨?_, ?_, ?_, ?_⟩
  · rintro ⟨⟨value, returned⟩, _⟩
    cases returned
  · rintro ⟨⟨value, returned⟩, _⟩
    cases returned
  · rintro ⟨_, part, index, total, read, _, _, within⟩
    cases read
    revert within
    decide
  · rintro ⟨_, part, index, total, read, _, within, _⟩
    cases read
    revert within
    decide

end VaultSeed.Qr
