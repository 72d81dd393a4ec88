import VaultSeed.Ui.Fitting

/-! # Page after page

A text that is too long for one page is shown page by page: each page starts where the one before
ended. Where the ellipsis takes the place of the last character of a page, the end is moved back by
one, which is that character only if no separator was taken after it. So the whole text is shown
exactly when no page is spoiled in this way (`Ui.Display.showsAll_iff`).
-/

namespace VaultSeed.Ui

open Python Wrapping

namespace Display

variable (display : Display) (maxLines : Nat)

/-- The lines of a page without the ellipsis that was added to the last one. -/
def withoutEllipsis (lines : List Text) : List Text :=
  lines.dropLast ++ [(lines.getLast?.getD []).dropLast]

/-- Show a text on so many pages, or nothing when its end is not reached. -/
def showPages : Nat → Text → Option (List Text)
  | 0, _ => none
  | pages + 1, text =>
      let page := display.toLinesEndpos text maxLines
      if page.2 < text.length then
        (showPages pages (text.drop page.2)).map (withoutEllipsis page.1 ++ ·)
      else some page.1

/-- A text in lines, which are broken between characters, at a space or at a newline. -/
inductive Covers : List Text → Text → Prop
  | nil : Covers [] []
  | cons {lines : List Text} {rest : Text} (line separator : Text)
      (known : separator ∈ [[], [' '], ['\n']]) (later : Covers lines rest) :
      Covers (line :: lines) (line ++ separator ++ rest)

/-- The end of a text is reached, and nothing of it is left out. -/
def ShowsAll (text : Text) : Prop :=
  ∃ pages lines, display.showPages maxLines pages text = some lines ∧ Covers lines text

/-- The texts at which pages start. -/
inductive Visits : Text → Text → Prop
  | here (text : Text) : Visits text text
  | next {text page : Text} (more : (display.toLinesEndpos text maxLines).2 < text.length)
      (later : Visits (text.drop (display.toLinesEndpos text maxLines).2) page) :
      Visits text page

/-- The page that starts here has no room for the ellipsis after its last line, and this was
broken at a separator after a character that is not a space, or the page took nothing else. -/
def Spoils (text : Text) : Prop :=
  ¬ display.OneLine text ∧ ∃ front last, display.style.wrap maxLines text = front ++ [last] ∧
    last.rest ≠ [] ∧
    display.usablePixelsInLine < display.pixels last.line + display.fontWidth ∧
    (last.separator ≠ none ∧ last.line.getLast? ≠ some ' ' ∨
      last.rest.length + 1 = text.length)

/-- A page whose last line leaves room for the ellipsis is not spoiled. -/
theorem not_spoils_of_room {display : Display} {maxLines : Nat} {text : Text}
    {front : List (Break Char)}
    {last : Break Char} (wrapped : display.style.wrap maxLines text = front ++ [last])
    (room : display.pixels last.line + display.fontWidth ≤ display.usablePixelsInLine) :
    ¬ display.Spoils maxLines text := by
  rintro ⟨-, front', last', wrapped', -, full, -⟩
  have same : last = last' := by
    have ends := congrArg List.getLast? (wrapped.symm.trans wrapped')
    simpa using ends
  rw [same] at room
  omega

/-- The characters that no line is broken at. -/
def marks (text : Text) : Nat := text.countP fun char => char ≠ ' ' ∧ char ≠ '\n'

section Covering

variable {lines first second : List Text} {text rest : Text}

private theorem marks_append (first second : Text) : marks (first ++ second) =
    marks first + marks second :=
  List.countP_append

private theorem marks_take_drop (text : Text) (stop : Nat) :
    marks (text.take stop) + marks (text.drop stop) = marks text := by
  rw [← marks_append, List.take_append_drop]

/-- No character but separators is left out. -/
theorem Covers.marks_eq (covers : Covers lines text) : (lines.map marks).sum = marks text := by
  induction covers with
  | nil => rfl
  | cons line separator known later ih =>
      have none : marks separator = 0 := by
        simp only [List.mem_cons, List.not_mem_nil, or_false] at known
        rcases known with rfl | rfl | rfl <;> rfl
      rw [List.map_cons, List.sum_cons, ih, marks_append, marks_append, none, Nat.add_zero]

private theorem covers_single (text : Text) : Covers [text] text := by
  have covers := Covers.cons text [] (by simp) .nil
  rw [List.append_nil, List.append_nil] at covers
  exact covers

/-- The lines of a wrapped text come before what covers the rest. -/
theorem covers_breaks {breaks : List (Break Char)}
    (separators : ∀ broken ∈ breaks, ∀ separator ∈ broken.separator,
      separator = ' ' ∨ separator = '\n') (covers : Covers lines rest) :
    Covers (breaks.map Break.line ++ lines) (breaks.flatMap Break.taken ++ rest) := by
  induction breaks with
  | nil => exact covers
  | cons broken breaks ih =>
      have later := ih fun other member => separators other (List.mem_cons_of_mem _ member)
      rw [List.map_cons, List.flatMap_cons, List.cons_append, List.append_assoc, Break.taken]
      refine Covers.cons _ _ ?_ later
      cases some : broken.separator with
      | none => exact List.mem_cons_self
      | some separator =>
          rcases separators broken List.mem_cons_self separator some with rfl | rfl <;> simp

private theorem withoutEllipsis_concat (lines : List Text) (line : Text) (char : Char) :
    withoutEllipsis (lines ++ [line ++ [char]]) = lines ++ [line] := by
  rw [withoutEllipsis, List.dropLast_concat, List.getLast?_concat, Option.getD_some,
    List.dropLast_concat]

end Covering

/-- A page that is followed by another one: its lines, and the text that remains. -/
structure Cut (text : Text) (front : List (Break Char)) (last : Break Char) : Prop where
  several : ¬ display.OneLine text
  wrap : display.style.wrap maxLines text = front ++ [last]
  more : last.rest ≠ []

/-- What is shown of a page and what covers the text after it cover the text. -/
def Keeps (text : Text) (page : List Text × Nat) : Prop :=
  ∀ later, Covers later (text.drop page.2) → Covers (withoutEllipsis page.1 ++ later) text

section Pages

variable {display} {maxLines} {text : Text} {front : List (Break Char)} {last : Break Char}

private theorem Cut.separators (cut : display.Cut maxLines text front last) :
    ∀ broken ∈ front ++ [last], ∀ separator ∈ broken.separator,
      separator = ' ' ∨ separator = '\n' := by
  have wraps := @Style.wrap_wraps Char _ display.style maxLines text
  rw [cut.wrap] at wraps
  exact wraps.separator

private theorem Cut.text_eq (cut : display.Cut maxLines text front last) :
    text = front.flatMap Break.taken ++ last.taken ++ last.rest := by
  have pieces := (@Style.wrap_wraps Char _ display.style maxLines text).pieces
  rw [cut.wrap, Style.remaining, List.getLast?_concat, List.flatMap_append] at pieces
  rw [← pieces, List.flatMap_singleton]
  rfl

private theorem Cut.length_eq (cut : display.Cut maxLines text front last) :
    text.length - last.rest.length =
      (front.flatMap Break.taken).length + last.taken.length := by
  have length := congrArg List.length cut.text_eq
  rw [List.length_append, List.length_append] at length
  omega

/-- A page that ends after a line and a separator keeps the text. -/
theorem keeps_of {broken : Break Char}
    (separators : ∀ other ∈ front ++ [broken], ∀ separator ∈ other.separator,
      separator = ' ' ∨ separator = '\n')
    (text_eq : text = front.flatMap Break.taken ++ broken.taken ++ broken.rest) {stop : Nat}
    (stop_eq : stop = (front.flatMap Break.taken ++ broken.taken).length) :
    Keeps text (front.map Break.line ++ [broken.line ++ [ellipsis]], stop) := by
  intro later covers
  have rest : text.drop stop = broken.rest := by
    rw [text_eq, stop_eq]
    exact List.drop_left
  dsimp only at covers ⊢
  rw [rest] at covers
  have whole := covers_breaks separators covers
  rw [List.map_append, List.map_singleton, List.flatMap_append, List.flatMap_singleton,
    ← text_eq] at whole
  rw [withoutEllipsis_concat]
  exact whole

/-- With room for the ellipsis nothing is lost. -/
theorem Cut.keeps_roomy (cut : display.Cut maxLines text front last)
    (roomy : ¬ display.usablePixelsInLine < display.pixels last.line + display.fontWidth) :
    (display.toLinesEndpos text maxLines).2 = text.length - last.rest.length ∧
      Keeps text (display.toLinesEndpos text maxLines) := by
  rw [toLinesEndpos_cut cut.several cut.wrap cut.more, if_neg roomy]
  exact ⟨rfl, keeps_of cut.separators cut.text_eq
    (by rw [cut.length_eq, List.length_append])⟩

/-- The last line of a page without room is not empty. -/
theorem exists_dropped
    (tight : display.usablePixelsInLine < display.pixels last.line + display.fontWidth) :
    ∃ line char, last.line = line ++ [char] := by
  cases same : last.line using List.reverseRecOn with
  | nil =>
      have room := @fontWidth_le_usable display
      rw [same] at tight
      change _ < 0 + display.fontWidth at tight
      omega
  | append_singleton line char => exact ⟨line, char, rfl⟩

/-- Without room, the end is moved back by one. -/
theorem Cut.toLinesEndpos_tight (cut : display.Cut maxLines text front last) {line : Text}
    {char : Char} (same : last.line = line ++ [char])
    (tight : display.usablePixelsInLine < display.pixels last.line + display.fontWidth) :
    display.toLinesEndpos text maxLines =
      (front.map Break.line ++ [line ++ [ellipsis]], text.length - last.rest.length - 1) := by
  rw [toLinesEndpos_cut cut.several cut.wrap cut.more, if_pos tight, same, List.dropLast_concat]

/-- The dropped character is shown on the next page, or it is a space. -/
theorem Cut.keeps_tight (cut : display.Cut maxLines text front last)
    (tight : display.usablePixelsInLine < display.pixels last.line + display.fontWidth)
    (safe : last.separator = none ∨ last.line.getLast? = some ' ') :
    Keeps text (display.toLinesEndpos text maxLines) := by
  obtain ⟨line, char, same⟩ := exists_dropped tight
  have separators := List.forall_mem_append.mp cut.separators
  have length := cut.length_eq
  have text_eq := cut.text_eq
  rw [cut.toLinesEndpos_tight same tight, length]
  rw [Break.taken, same] at text_eq length ⊢
  cases none : last.separator with
  | none =>
      rw [none, Option.toList_none, List.append_nil] at text_eq length
      refine @keeps_of _ front ⟨line, .none, char :: last.rest⟩ ?_ ?_ _ ?_
      · refine List.forall_mem_append.mpr ⟨separators.1, List.forall_mem_singleton.mpr ?_⟩
        intro _ absent
        cases absent
      · rw [text_eq, Break.taken]
        simp
      · rw [Break.taken]
        simp
  | some separator =>
      obtain rfl : char = ' ' := by
        have space := safe.resolve_left (by rw [none]; exact Option.some_ne_none _)
        rw [same, List.getLast?_concat] at space
        exact Option.some.inj space
      rw [none] at text_eq
      refine @keeps_of _ front ⟨line, some ' ', separator :: last.rest⟩ ?_ ?_ _ ?_
      · refine List.forall_mem_append.mpr ⟨separators.1, List.forall_mem_singleton.mpr ?_⟩
        exact fun _ space => .inl (Option.some.inj space).symm
      · rw [text_eq, Break.taken]
        simp
      · rw [Break.taken]
        simp

/-- What the lines of a page mark, without the ellipsis. -/
theorem marks_front (cut : display.Cut maxLines text front last) :
    ((front.map Break.line).map marks).sum = marks (front.flatMap Break.taken) := by
  have separators := (List.forall_mem_append.mp cut.separators).1
  have whole := covers_breaks separators .nil
  rw [List.append_nil, List.append_nil] at whole
  exact whole.marks_eq

/-- Otherwise a character is on neither page. -/
theorem Cut.loses (cut : display.Cut maxLines text front last)
    (tight : display.usablePixelsInLine < display.pixels last.line + display.fontWidth)
    (separated : last.separator ≠ none) (other : last.line.getLast? ≠ some ' ') :
    ((withoutEllipsis (display.toLinesEndpos text maxLines).1).map marks).sum <
      marks (text.take (display.toLinesEndpos text maxLines).2) := by
  obtain ⟨line, char, same⟩ := exists_dropped tight
  obtain ⟨separator, some⟩ := Option.ne_none_iff_exists'.mp separated
  have length := cut.length_eq
  have text_eq := cut.text_eq
  rw [cut.toLinesEndpos_tight same tight, withoutEllipsis_concat, List.map_append, List.sum_append,
    marks_front cut, length]
  rw [Break.taken, same, some, Option.toList_some] at text_eq length ⊢
  have plain : char ≠ '\n' := by
    have wraps := (@Style.wrap_wraps Char _ display.style maxLines text).plain last
      (by rw [cut.wrap]; simp)
    rw [same] at wraps
    exact fun newline => wraps (newline ▸ List.mem_append_right _ List.mem_cons_self)
  have marked : marks [char] = 1 := by
    rw [same, List.getLast?_concat] at other
    have space : char ≠ ' ' := fun space => other (congrArg Option.some space)
    rw [marks, List.countP_singleton, if_pos (by simp [space, plain])]
  have taken : text.take ((front.flatMap Break.taken).length +
        (line ++ [char] ++ [separator]).length - 1) =
      front.flatMap Break.taken ++ (line ++ [char]) := by
    have position : (front.flatMap Break.taken).length +
        (line ++ [char] ++ [separator]).length - 1 =
          (front.flatMap Break.taken ++ (line ++ [char])).length := by
      simp
    have split : text = front.flatMap Break.taken ++ (line ++ [char]) ++
        separator :: last.rest := by
      rw [text_eq]
      simp
    rw [position]
    conv =>
      lhs
      rw [split]
    exact List.take_left
  dsimp only
  rw [taken, marks_append, marks_append, marked, List.map_singleton, List.sum_singleton]
  omega

/-- Every character fits on a line of two columns. -/
theorem charPixels_le (columns : 2 ≤ display.asciiCharsPerLine) (char : Char) :
    display.charPixels char ≤ display.usablePixelsInLine := by
  have two := (Nat.le_div_iff_mul_le display.positive).mp columns
  exact (charPixels_le_wide char).trans (display.narrow.trans two)

/-- A page takes something of the text. -/
theorem Cut.taken_pos (cut : display.Cut maxLines text front last)
    (columns : 2 ≤ display.asciiCharsPerLine) : 0 < text.length - last.rest.length := by
  have wraps := @Style.wrap_wraps Char _ display.style maxLines text
  have taken := wraps.progress (charPixels_le columns) last (by rw [cut.wrap]; simp)
  have some := List.length_pos_iff.mpr taken
  rw [cut.length_eq]
  omega

/-- A page is the last one, and covers the text, or is followed by another one. -/
theorem page_cases (positive : 0 < maxLines) (text : Text) :
    ((display.toLinesEndpos text maxLines).2 = text.length ∧
      Covers (display.toLinesEndpos text maxLines).1 text) ∨
    ∃ front last, display.Cut maxLines text front last := by
  by_cases several : display.OneLine text
  · rw [toLinesEndpos_one several]
    exact .inl ⟨rfl, covers_single text⟩
  · have wraps := @Style.wrap_wraps Char _ display.style maxLines text
    by_cases whole : Style.remaining (display.style.wrap maxLines text) text = []
    · rw [toLinesEndpos_whole several whole]
      have covers := covers_breaks wraps.separator .nil
      rw [← whole, wraps.pieces, List.append_nil] at covers
      exact .inl ⟨rfl, covers⟩
    · obtain ⟨front, last, wrap, more, _⟩ := exists_last positive whole
      exact .inr ⟨front, last, several, wrap, more⟩

end Pages

section Runs

variable {display} {maxLines} {text page : Text} {front : List (Break Char)} {last : Break Char}

/-- A page that is not spoiled goes on, and keeps the text. -/
theorem Cut.advances (cut : display.Cut maxLines text front last)
    (columns : 2 ≤ display.asciiCharsPerLine) (clean : ¬ display.Spoils maxLines text) :
    0 < (display.toLinesEndpos text maxLines).2 ∧
      Keeps text (display.toLinesEndpos text maxLines) := by
  have taken := cut.taken_pos columns
  by_cases tight : display.usablePixelsInLine < display.pixels last.line + display.fontWidth
  · have kept : ¬ (last.separator ≠ none ∧ last.line.getLast? ≠ some ' ' ∨
        last.rest.length + 1 = text.length) := fun spoiled =>
      clean ⟨cut.several, front, last, cut.wrap, cut.more, tight, spoiled⟩
    push Not at kept
    obtain ⟨line, char, same⟩ := exists_dropped tight
    refine ⟨?_, cut.keeps_tight tight ?_⟩
    · rw [cut.toLinesEndpos_tight same tight]
      have single := kept.2
      dsimp only
      omega
    · by_cases none : last.separator = none
      · exact .inl none
      · exact .inr (kept.1 none)
  · obtain ⟨stop, keeps⟩ := cut.keeps_roomy tight
    exact ⟨stop ▸ taken, keeps⟩

/-- A spoiled page does not go on, or loses a character. -/
theorem Spoils.cases (spoils : display.Spoils maxLines text) :
    ∃ front last, display.Cut maxLines text front last ∧
      ((display.toLinesEndpos text maxLines).2 = 0 ∨
        ((withoutEllipsis (display.toLinesEndpos text maxLines).1).map marks).sum <
          marks (text.take (display.toLinesEndpos text maxLines).2)) := by
  obtain ⟨several, front, last, wrap, more, tight, spoiled⟩ := spoils
  have cut : display.Cut maxLines text front last := ⟨several, wrap, more⟩
  refine ⟨front, last, cut, ?_⟩
  rcases spoiled with ⟨separated, other⟩ | single
  · exact .inr (cut.loses tight separated other)
  · obtain ⟨line, char, same⟩ := exists_dropped tight
    rw [cut.toLinesEndpos_tight same tight]
    left
    dsimp only
    omega

/-- A page that keeps the text shows what it takes. -/
theorem Keeps.marks_eq {shown : List Text × Nat} (keeps : Keeps text shown) :
    ((withoutEllipsis shown.1).map marks).sum = marks (text.take shown.2) := by
  have whole := (keeps _ (covers_single _)).marks_eq
  have split := marks_take_drop text shown.2
  rw [List.map_append, List.sum_append, List.map_singleton, List.sum_singleton] at whole
  omega

/-- No page shows more than it takes. -/
theorem Cut.marks_le (cut : display.Cut maxLines text front last) :
    ((withoutEllipsis (display.toLinesEndpos text maxLines).1).map marks).sum ≤
      marks (text.take (display.toLinesEndpos text maxLines).2) := by
  by_cases tight : display.usablePixelsInLine < display.pixels last.line + display.fontWidth
  · by_cases safe : last.separator = none ∨ last.line.getLast? = some ' '
    · exact (cut.keeps_tight tight safe).marks_eq.le
    · push Not at safe
      exact (cut.loses tight safe.1 safe.2).le
  · exact (cut.keeps_roomy tight).2.marks_eq.le

/-- The text goes on after a page that is followed by another one. -/
theorem Cut.stop_lt (cut : display.Cut maxLines text front last) :
    (display.toLinesEndpos text maxLines).2 < text.length := by
  have more := List.length_pos_iff.mpr cut.more
  have length := congrArg List.length cut.text_eq
  rw [List.length_append, List.length_append] at length
  rw [toLinesEndpos_cut cut.several cut.wrap cut.more]
  split_ifs <;> dsimp only <;> omega

/-- Show the pages after a page. -/
theorem showPages_more {pages : Nat}
    (more : (display.toLinesEndpos text maxLines).2 < text.length) :
    display.showPages maxLines (pages + 1) text =
      (display.showPages maxLines pages
        (text.drop (display.toLinesEndpos text maxLines).2)).map
          (withoutEllipsis (display.toLinesEndpos text maxLines).1 ++ ·) := by
  rw [showPages]
  exact if_pos more

private theorem showPages_last {pages : Nat}
    (ended : (display.toLinesEndpos text maxLines).2 = text.length) :
    display.showPages maxLines (pages + 1) text =
      some (display.toLinesEndpos text maxLines).1 := by
  rw [showPages]
  exact if_neg ended.not_lt

/-- **Pages that are not spoiled show the whole text.** -/
theorem showsAll_of_clean (columns : 2 ≤ display.asciiCharsPerLine) (positive : 0 < maxLines)
    {text : Text} (clean : ∀ page, display.Visits maxLines text page →
      ¬ display.Spoils maxLines page) : display.ShowsAll maxLines text := by
  induction length : text.length using Nat.strong_induction_on generalizing text with
  | h size ih =>
      rcases @page_cases display maxLines positive text with ⟨ended, covers⟩ | ⟨front, last, cut⟩
      · exact ⟨1, _, showPages_last ended, covers⟩
      · have more := cut.stop_lt
        obtain ⟨further, keeps⟩ := cut.advances columns (clean text (.here text))
        obtain ⟨pages, lines, shown, covers⟩ :=
          @ih (text.length - (display.toLinesEndpos text maxLines).2) (by omega)
            (text.drop (display.toLinesEndpos text maxLines).2)
            (fun page visits => clean page (.next more visits)) List.length_drop
        refine ⟨pages + 1, _, ?_, keeps lines covers⟩
        rw [showPages_more more, shown]
        rfl

/-- Pages never show more than the text has. -/
theorem showPages_marks_le (positive : 0 < maxLines) {pages : Nat} {text : Text}
    {lines : List Text} (shown : display.showPages maxLines pages text = some lines) :
    (lines.map marks).sum ≤ marks text := by
  induction pages generalizing text lines with
  | zero => cases shown
  | succ pages ih =>
      rcases @page_cases display maxLines positive text with ⟨ended, covers⟩ | ⟨front, last, cut⟩
      · rw [showPages_last ended] at shown
        obtain rfl := Option.some.inj shown
        exact covers.marks_eq.le
      · rw [showPages_more cut.stop_lt] at shown
        obtain ⟨later, rest, rfl⟩ := Option.map_eq_some_iff.mp shown
        have first := cut.marks_le
        have after := ih rest
        rw [List.map_append, List.sum_append, ← marks_take_drop text]
        exact Nat.add_le_add first after

/-- A page that does not go on is shown for ever. -/
theorem showPages_stuck (cut : display.Cut maxLines text front last)
    (stuck : (display.toLinesEndpos text maxLines).2 = 0) (pages : Nat) :
    display.showPages maxLines pages text = none := by
  induction pages with
  | zero => rfl
  | succ pages ih => rw [showPages_more cut.stop_lt, stuck, List.drop_zero, ih, Option.map_none]

/-- **After a spoiled page less is shown than the text has**, if the end is reached at all. -/
theorem showPages_marks_lt (positive : 0 < maxLines) {pages : Nat} {text page : Text}
    {lines : List Text} (visits : display.Visits maxLines text page)
    (spoils : display.Spoils maxLines page)
    (shown : display.showPages maxLines pages text = some lines) :
    (lines.map marks).sum < marks text := by
  induction visits generalizing pages lines with
  | here text =>
      obtain ⟨front, last, cut, stuck | loses⟩ := spoils.cases
      · rw [showPages_stuck cut stuck] at shown
        cases shown
      · cases pages with
        | zero => cases shown
        | succ pages =>
            rw [showPages_more cut.stop_lt] at shown
            obtain ⟨later, rest, rfl⟩ := Option.map_eq_some_iff.mp shown
            have after := showPages_marks_le positive rest
            rw [List.map_append, List.sum_append, ← marks_take_drop text]
            exact Nat.add_lt_add_of_lt_of_le loses after
  | next more later ih =>
      rename_i text page
      rcases @page_cases display maxLines positive text with ⟨ended, _⟩ | ⟨front, last, cut⟩
      · exact absurd ended more.ne
      · cases pages with
        | zero => cases shown
        | succ pages =>
            rw [showPages_more more] at shown
            obtain ⟨after, rest, rfl⟩ := Option.map_eq_some_iff.mp shown
            have first := cut.marks_le
            have less := ih spoils rest
            rw [List.map_append, List.sum_append, ← marks_take_drop text]
            exact Nat.add_lt_add_of_le_of_lt first less

/-- **A text is shown as a whole exactly when none of its pages is spoiled.** -/
theorem showsAll_iff (columns : 2 ≤ display.asciiCharsPerLine) (positive : 0 < maxLines) :
    display.ShowsAll maxLines text ↔
      ∀ page, display.Visits maxLines text page → ¬ display.Spoils maxLines page := by
  constructor
  · rintro ⟨pages, lines, shown, covers⟩ page visits spoils
    have less := showPages_marks_lt positive visits spoils shown
    rw [covers.marks_eq] at less
    exact absurd less (Nat.lt_irrefl _)
  · exact showsAll_of_clean columns positive

end Runs

/-- A text of three pages is shown as a whole: its lines leave room for the ellipsis. -/
theorem showsAll_iff_pages :
    (m5stickv "en-US").ShowsAll 1 "Seed words are kept apart from keys".toList := by
  have first : (m5stickv "en-US").style.wrap 1 "Seed words are kept apart from keys".toList =
      [] ++ [⟨"Seed words are".toList, some ' ', "kept apart from keys".toList⟩] := by
    decide +kernel
  have second : (m5stickv "en-US").style.wrap 1 "kept apart from keys".toList =
      [] ++ [⟨"kept apart from".toList, some ' ', "keys".toList⟩] := by
    decide +kernel
  have last : (m5stickv "en-US").OneLine "keys".toList := by decide
  refine (showsAll_iff (by decide) (by decide)).mpr fun page visits => ?_
  cases visits with
  | here => exact not_spoils_of_room first (by decide)
  | next _ visits =>
      rw [toLinesEndpos_cut (by decide) first (by decide)] at visits
      change Visits _ 1 "kept apart from keys".toList page at visits
      cases visits with
      | here => exact not_spoils_of_room second (by decide)
      | next _ visits =>
          rw [toLinesEndpos_cut (by decide) second (by decide)] at visits
          change Visits _ 1 "keys".toList page at visits
          cases visits with
          | here => exact fun spoils => spoils.1 last
          | next more _ =>
              rw [toLinesEndpos_one last] at more
              exact absurd more (Nat.lt_irrefl _)

/-- The first line of this text is as long as the screen is wide, and its last character is on
neither page. -/
theorem not_showsAll_separated :
    ¬ (m5stickv "en-US").ShowsAll 1 "Unsigned message to sign".toList := by
  rintro ⟨pages, lines, shown, covers⟩
  have first : (m5stickv "en-US").style.wrap 1 "Unsigned message to sign".toList =
      [] ++ [⟨"Unsigned message".toList, some ' ', "to sign".toList⟩] := by decide
  have spoils : (m5stickv "en-US").Spoils 1 "Unsigned message to sign".toList :=
    ⟨by decide, [], _, first, by decide, by decide, .inl ⟨by decide, by decide⟩⟩
  have less := showPages_marks_lt (by decide) (.here _) spoils shown
  rw [covers.marks_eq] at less
  exact absurd less (Nat.lt_irrefl _)

end Display

end VaultSeed.Ui
