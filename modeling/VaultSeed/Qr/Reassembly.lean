import VaultSeed.Foundation.Runs
import VaultSeed.Qr.Parser

/-! # Which strings a scan is put together from

After any series of scanned strings, the stored parts are those of strings that could be
read, one for each declared index, and the total is that of one of them. A complete scan
holds every part of a series when no declared index lies before the first
(`scanned_consecutive_iff`). It may hold parts of two series: every string sets the total
and keeps the parts that came under another. When no string stands against a part that is
already there, the parts have one header (`watched_agree`).
-/

namespace VaultSeed.Qr

open Python Effect Numbered

namespace QrPartParser

/-- Where the parts of a parser come from. -/
structure Provenance (strings : List Text) (format : Format) (parser : QrPartParser) : Prop where
  /-- A stored part was read from a string. -/
  stored : ∀ index part, parser.parts.lookup index = some part →
    ∃ data ∈ strings, ∃ total, readPart format data = .ok (part, index, total)
  /-- Every string that can be read left a part under its index. -/
  kept : ∀ data ∈ strings, ∀ part index total, readPart format data = .ok (part, index, total) →
    index ∈ parser.parts
  /-- The total was read from a string, when there is one. -/
  counted : (parser.total = -1 ∧ parser.parts = ∅) ∨
    ∃ data ∈ strings, ∃ part index, readPart format data = .ok (part, index, parser.total)

private theorem Provenance.nil {format : Format} {parser : QrPartParser} (total : parser.total = -1)
    (parts : parser.parts = ∅) : Provenance [] format parser where
  stored index part found := by
    rw [parts, AList.lookup_empty] at found
    cases found
  kept data member := absurd member List.not_mem_nil
  counted := .inl ⟨total, parts⟩

/-- One more string keeps the account of the parts. -/
theorem Provenance.scan {strings : List Text} {format : Format}
    {parser : QrPartParser} {data : Text}
    (before : Provenance strings format parser) (read : parser.formatFor data = format) :
    Provenance (strings ++ [data]) format (parser.scan data) := by
  have earlier : ∀ {other}, other ∈ strings → other ∈ strings ++ [data] := List.mem_append_left _
  have last : data ∈ strings ++ [data] := by simp
  obtain ⟨part, index, total, done, after⟩ | ⟨exn, failed, after⟩ := scan_cases parser data
  · rw [read] at done
    rw [after]
    refine ⟨?_, ?_, .inr ⟨data, last, part, index, done⟩⟩
    · intro other content found
      change ((parser.detect data).parts.insert index part).lookup other = some content at found
      rw [parts_detect] at found
      by_cases same : other = index
      · subst same
        rw [AList.lookup_insert] at found
        cases found
        exact ⟨data, last, total, done⟩
      · rw [AList.lookup_insert_ne same] at found
        obtain ⟨source, member, declared⟩ := before.stored other content found
        exact ⟨source, earlier member, declared⟩
    · intro source member content other declared reads
      change other ∈ (parser.detect data).parts.insert index part
      rw [parts_detect, AList.mem_insert]
      rcases List.mem_append.mp member with member | member
      · exact .inr (before.kept source member content other declared reads)
      · rw [List.mem_singleton.mp member, done] at reads
        cases reads
        exact .inl rfl
  · rw [read] at failed
    rw [after]
    refine ⟨?_, ?_, ?_⟩
    · intro other content found
      rw [parts_detect] at found
      obtain ⟨source, member, declared⟩ := before.stored other content found
      exact ⟨source, earlier member, declared⟩
    · intro source member content other declared reads
      rw [parts_detect]
      rcases List.mem_append.mp member with member | member
      · exact before.kept source member content other declared reads
      · rw [List.mem_singleton.mp member, failed] at reads
        cases reads
    · rw [parts_detect, total_detect]
      rcases before.counted with fresh | ⟨source, member, declared⟩
      · exact .inl fresh
      · exact .inr ⟨source, earlier member, declared⟩

/-- The account of the parts after any series of strings. -/
theorem provenance_scanned {strings : List Text} {format : Format}
    (known : (scanned strings).format = some format) :
    Provenance strings format (scanned strings) := by
  induction strings using List.reverseRecOn with
  | nil => cases known
  | append_singleton strings data ih =>
      obtain ⟨read, before⟩ := formatFor_of_scanned known
      rw [scanned_concat]
      rcases before with rfl | before
      · exact (Provenance.nil rfl rfl).scan read
      · exact (ih before).scan read

section Completeness

variable {parser : QrPartParser}

/-- A parser of PMOFN is complete when number and sum of its parts are right. -/
theorem isComplete_pmofn (format : parser.format = some .pmofn) :
    parser.isComplete = true ↔ parser.total ≠ -1 ∧ (parser.parts.keys.length : Int) = parser.total ∧
      parser.parts.keys.sum = sumRange 1 (parser.total + 1) := by
  simp [isComplete, format, and_assoc]

/-- A parser of BBQr is complete when number and sum of its parts are right. -/
theorem isComplete_bbqr (format : parser.format = some .bbqr) :
    parser.isComplete = true ↔ parser.total ≠ -1 ∧ (parser.parts.keys.length : Int) = parser.total ∧
      parser.parts.keys.sum = sumRange 0 parser.total := by
  simp [isComplete, format, and_assoc]

/-- Numbers with the count and the sum of a series are the series exactly when none lies
before its first. -/
theorem consecutive_iff {strings : List Text} {format : Format} {start stop : Int}
    (account : Provenance strings format parser)
    (size : (parser.parts.keys.length : Int) = stop - start)
    (sum : parser.parts.keys.sum = sumRange start stop) :
    Consecutive parser.parts.keys start stop ↔ ∀ data ∈ strings, ∀ part index total,
      readPart format data = .ok (part, index, total) → start ≤ index := by
  constructor
  · intro consecutive data member part index total read
    have present := account.kept data member part index total read
    exact ((consecutive index).mp (AList.mem_keys.mp present)).1
  · intro above
    refine consecutive_of_sum parser.parts.keys_nodup size (fun index member => ?_) sum
    obtain ⟨part, found⟩ := Option.isSome_iff_exists.mp
      (AList.lookup_isSome.mpr (AList.mem_keys.mpr member))
    obtain ⟨data, scanned, total, read⟩ := account.stored index part found
    exact above data scanned part index total read

/-- **A complete scan holds every part of its series** exactly when no string that was read
declares an index before the first one: below one for `p%dof%d` codes, and below zero for
BBQr codes. -/
theorem scanned_consecutive_iff (strings : List Text)
    (complete : (scanned strings).isComplete = true) :
    ((scanned strings).format = some .pmofn →
      (Consecutive (scanned strings).parts.keys 1 ((scanned strings).total + 1) ↔
        ∀ data ∈ strings, ∀ part index total,
          parsePmofnQrPart data = .ok (part, index, total) → 1 ≤ index)) ∧
    ((scanned strings).format = some .bbqr →
      (Consecutive (scanned strings).parts.keys 0 (scanned strings).total ↔
        ∀ data ∈ strings, ∀ part index total,
          parseBbqr data = .ok (part, index, total) → 0 ≤ index)) := by
  constructor
  · intro format
    obtain ⟨_, size, sum⟩ := (isComplete_pmofn format).mp complete
    exact consecutive_iff (provenance_scanned format) (by omega) sum
  · intro format
    obtain ⟨_, size, sum⟩ := (isComplete_bbqr format).mp complete
    exact consecutive_iff (provenance_scanned format) (by omega) sum

/-- Both parts of a series, the second one first. -/
theorem scanned_consecutive_iff_pair :
    (scanned ["p2of2 b".toList, "p1of2 a".toList]).isComplete = true ∧
      Consecutive (scanned ["p2of2 b".toList, "p1of2 a".toList]).parts.keys 1 3 := by
  refine ⟨by decide +kernel, ?_⟩
  refine ((scanned_consecutive_iff _ (by decide +kernel)).1 (by decide +kernel)).mpr ?_
  intro data member part index total read
  rcases List.mem_cons.mp member with rfl | member
  · cases read
    decide
  · rw [List.mem_singleton.mp member] at read
    cases read
    decide

/-- Three of the parts 0, 2 and 4 of three have the count and the sum of 1, 2 and 3. -/
theorem scanned_gapped : ¬ ∀ strings, (scanned strings).isComplete = true →
    ((scanned strings).format = some .pmofn →
      Consecutive (scanned strings).parts.keys 1 ((scanned strings).total + 1)) ∧
    ((scanned strings).format = some .bbqr →
      Consecutive (scanned strings).parts.keys 0 (scanned strings).total) := by
  intro claim
  have consecutive := (claim ["p0of3 a".toList, "p2of3 b".toList, "p4of3 c".toList]
    (by decide +kernel)).1 (by decide +kernel)
  exact absurd ((consecutive 0).mp (by decide +kernel)).1 (by decide)

end Completeness

end QrPartParser

/-- The total a string declares in a format. -/
def declaredTotal (format : Format) (data : Text) : Option Int :=
  match readPart format data with
  | .ok (_, _, total) => some total
  | .error _ => none

/-- The encoding and the file type a BBQr string declares. -/
def declaredBbqr (data : Text) : Option (Encoding × FileType) := do
  let encoding ← data[2]?.bind Encoding.ofLetter
  let fileType ← data[3]?.bind FileType.ofLetter
  pure (encoding, fileType)

/-- A parser and the strings its parts were scanned from. -/
structure Scanner where
  parser : QrPartParser
  sources : Parts Text

namespace Scanner

/-- Nothing was scanned yet. -/
def fresh : Scanner := ⟨.fresh, ∅⟩

/-- The parser scans a string; the string is noted under the index it declares. -/
def scan (scanner : Scanner) (data : Text) : Scanner :=
  ⟨scanner.parser.scan data,
    match readPart (scanner.parser.formatFor data) data with
    | .ok (_, index, _) => scanner.sources.insert index data
    | .error _ => scanner.sources⟩

/-- Scan a series of strings and note where the parts come from. -/
def watched (strings : List Text) : Scanner := strings.foldl scan fresh

/-- A string that can be read declares the total of every other stored part, and a BBQr
string also the encoding and the file type of the parser. -/
def Agrees (scanner : Scanner) (data : Text) : Prop :=
  ∀ part index total, readPart (scanner.parser.formatFor data) data = .ok (part, index, total) →
    (∀ other source, other ≠ index → scanner.sources.lookup other = some source →
      declaredTotal (scanner.parser.formatFor data) source = some total) ∧
    (scanner.parser.formatFor data = .bbqr →
      declaredBbqr data = (scanner.parser.detect data).bbqr)

/-- Every stored part was scanned from a string of the series that declares the parser's
total, and the parser's encoding and file type. -/
structure OneSeries (strings : List Text) (format : Format) (scanner : Scanner) : Prop where
  sourced : ∀ index part, scanner.parser.parts.lookup index = some part →
    ∃ source ∈ strings, scanner.sources.lookup index = some source ∧
      readPart format source = .ok (part, index, scanner.parser.total) ∧
      (format = .bbqr → declaredBbqr source = scanner.parser.bbqr)

/-- What holds along a series: before the format is known nothing is stored. -/
def Uniform (strings : List Text) (scanner : Scanner) : Prop :=
  (scanner.parser.format = none → scanner.parser.parts = ∅) ∧
  ∀ format, scanner.parser.format = some format → OneSeries strings format scanner

@[simp] theorem parser_watched (strings : List Text) :
    (watched strings).parser = QrPartParser.scanned strings := by
  induction strings using List.reverseRecOn with
  | nil => rfl
  | append_singleton strings data ih =>
      rw [QrPartParser.scanned_concat, ← ih, watched, List.foldl_append]
      rfl

/-- Finding out the format keeps the account of the parts. -/
theorem Uniform.detect {strings : List Text} {scanner : Scanner} (before : Uniform strings scanner)
    (data : Text) : OneSeries strings (scanner.parser.formatFor data)
      ⟨scanner.parser.detect data, scanner.sources⟩ := by
  cases known : scanner.parser.format with
  | none =>
      refine ⟨fun index part found => ?_⟩
      rw [QrPartParser.parts_detect, before.1 known, AList.lookup_empty] at found
      cases found
  | some format =>
      have same : scanner.parser.detect data = scanner.parser := by
        rw [QrPartParser.detect, known]
      have read : scanner.parser.formatFor data = format := by
        rw [QrPartParser.formatFor, known]
        rfl
      rw [same, read]
      exact before.2 format known

/-- A string that agrees with the stored parts keeps them of one series. -/
theorem Uniform.scan {strings : List Text} {scanner : Scanner} {data : Text}
    (before : Uniform strings scanner) (member : data ∈ strings) (agrees : Agrees scanner data) :
    Uniform strings (scanner.scan data) := by
  have detected := before.detect data
  have format : (scanner.scan data).parser.format = some (scanner.parser.formatFor data) :=
    QrPartParser.format_scan scanner.parser data
  refine ⟨fun unknown => absurd (format.symm.trans unknown) (by simp), fun other known => ?_⟩
  obtain rfl : scanner.parser.formatFor data = other := Option.some.inj (format.symm.trans known)
  obtain ⟨part, index, total, read, after⟩ | ⟨exn, failed, after⟩ :=
    QrPartParser.scan_cases scanner.parser data
  · have now : scanner.scan data =
        ⟨(scanner.parser.detect data).store part index total,
          scanner.sources.insert index data⟩ := by
      rw [Scanner.scan, after, read]
    obtain ⟨totals, letters⟩ := agrees part index total read
    rw [now]
    refine ⟨fun other content found => ?_⟩
    change ((scanner.parser.detect data).parts.insert index part).lookup other =
      some content at found
    by_cases same : other = index
    · subst same
      rw [AList.lookup_insert] at found
      cases found
      exact ⟨data, member, AList.lookup_insert _, read, letters⟩
    · rw [AList.lookup_insert_ne same] at found
      obtain ⟨source, scanned, noted, reads, declared⟩ := detected.sourced other content found
      have agreed := totals other source same noted
      rw [declaredTotal, reads] at agreed
      obtain rfl : (scanner.parser.detect data).total = total := Option.some.inj agreed
      exact ⟨source, scanned, (AList.lookup_insert_ne same).trans noted, reads, declared⟩
  · have now : scanner.scan data = ⟨scanner.parser.detect data, scanner.sources⟩ := by
      rw [Scanner.scan, after, failed]
    rw [now]
    exact detected

/-- **No splicing while the strings agree**: in every series of strings in which each string
agrees with the parts stored before it, all stored parts were scanned from strings that
declare the total of the parser, and for BBQr its encoding and its file type. -/
theorem watched_agree (strings : List Text) (agree : Runs.Along scan Agrees fresh strings)
    {format : Format} (known : (QrPartParser.scanned strings).format = some format) :
    ∀ index part, (QrPartParser.scanned strings).parts.lookup index = some part →
      ∃ source ∈ strings, (watched strings).sources.lookup index = some source ∧
        readPart format source = .ok (part, index, (QrPartParser.scanned strings).total) ∧
        (format = .bbqr → declaredBbqr source = (QrPartParser.scanned strings).bbqr) := by
  have along := agree.and_forall fun data (member : data ∈ strings) => member
  have initial : Uniform strings fresh := ⟨fun _ => rfl, fun format unknown => nomatch unknown⟩
  have final : Uniform strings (watched strings) :=
    Runs.foldl_invariant (fun _ _ allowed before => before.scan allowed.2 allowed.1) fresh strings
      along initial
  have series := final.2 format (by rw [parser_watched]; exact known)
  have sourced := series.sourced
  rw [parser_watched] at sourced
  exact sourced

/-- The strings from which the two parts were read. -/
theorem watched_agree_pair :
    (watched ["p2of2 b".toList, "p1of2 a".toList]).sources.lookup 1 = some "p1of2 a".toList ∧
      readPart .pmofn "p1of2 a".toList = .ok ("a".toList, 1,
        (QrPartParser.scanned ["p2of2 b".toList, "p1of2 a".toList]).total) := by
  have first : Agrees fresh "p2of2 b".toList := by
    intro part index total read
    refine ⟨fun other source _ noted => ?_, fun wrong => absurd wrong (by decide +kernel)⟩
    cases noted
  have second : Agrees (fresh.scan "p2of2 b".toList) "p1of2 a".toList := by
    intro part index total read
    cases read
    refine ⟨fun other source _ noted => ?_, fun wrong => absurd wrong (by decide +kernel)⟩
    have entries : (fresh.scan "p2of2 b".toList).sources.entries = [⟨2, "p2of2 b".toList⟩] := by
      decide +kernel
    have entry := AList.mem_lookup_iff.mp noted
    rw [entries, List.mem_singleton] at entry
    cases entry
    decide +kernel
  obtain ⟨source, _, noted, read, _⟩ := watched_agree ["p2of2 b".toList, "p1of2 a".toList]
    ⟨first, second, trivial⟩ (by decide +kernel : _ = some Format.pmofn) 1 "a".toList
    (by decide +kernel)
  have same : (watched ["p2of2 b".toList, "p1of2 a".toList]).sources.lookup 1 =
      some "p1of2 a".toList := by
    decide +kernel
  obtain rfl : "p1of2 a".toList = source := Option.some.inj (same.symm.trans noted)
  exact ⟨noted, read⟩

/-- One part of three and one part of two are taken for a whole message of two parts. -/
theorem watched_spliced : ¬ ∀ strings format,
    (QrPartParser.scanned strings).isComplete = true →
    (QrPartParser.scanned strings).format = some format →
    ∀ index source, (watched strings).sources.lookup index = some source →
      declaredTotal format source = some (QrPartParser.scanned strings).total ∧
      (format = .bbqr → declaredBbqr source = (QrPartParser.scanned strings).bbqr) := by
  intro claim
  have same := (claim ["p1of3 a".toList, "p2of2 b".toList] .pmofn (by decide +kernel)
    (by decide +kernel) 1 "p1of3 a".toList (by decide +kernel)).1
  exact absurd same (by decide +kernel)

end Scanner

end VaultSeed.Qr
