import VaultSeed.Foundation.Bytes
import VaultSeed.Foundation.Wrapping

/-! # Lines on the display

`display.py`: a text is wrapped into lines by the pixels of its characters, and where more of it
remains an ellipsis is put at the end of the last line. A text that has no more characters than
a line has columns is one line, without measuring it. The loop over the characters breaks off one
line after another (`Ui.toLinesEndpos_eq`).
-/

namespace VaultSeed.Ui

open Python Wrapping

/-- `DEFAULT_PADDING`. -/
def defaultPadding : Nat := 10

/-- `ASIAN_MIN_CODEPOINT`. -/
def asianMinCodepoint : Nat := 12288

/-- `ELLIPSIS`. -/
def ellipsis : Char := '…'

/-- What of the board, the settings and the display driver `Display` reads. The fonts are those
of a board: a wide character is not narrower than another one, and not wider than two of them. -/
structure Display where
  width : Nat
  isM5stickv : Bool
  fontWidth : Nat
  fontWidthWide : Nat
  locale : String
  stringHasWideGlyph : Text → Bool
  positive : 0 < fontWidth
  wide : fontWidth ≤ fontWidthWide
  narrow : fontWidthWide ≤ 2 * fontWidth
  room : fontWidth ≤ if isM5stickv then width else width - 2 * defaultPadding

namespace Display

variable (display : Display)

/-- `usable_width`. -/
def usableWidth : Nat := display.width - 2 * defaultPadding

/-- `_usable_pixels_in_line`. -/
def usablePixelsInLine : Nat := if display.isM5stickv then display.width else display.usableWidth

/-- `ascii_chars_per_line`. -/
def asciiCharsPerLine : Nat := display.usablePixelsInLine / display.fontWidth

/-- `_asian_chars_per_line`. -/
def asianCharsPerLine : Nat := display.usablePixelsInLine / display.fontWidthWide

/-- The pixels of a character. -/
def charPixels (char : Char) : Nat :=
  if asianMinCodepoint ≤ char.toNat then display.fontWidthWide else display.fontWidth

/-- The pixels of a line. -/
def pixels (line : Text) : Nat := (line.map display.charPixels).sum

/-- The variables of the loop of `to_lines_endpos`; `last_space` is nothing for -1. -/
structure Lines where
  lines : List Text
  start : Nat
  stop : Nat
  lastSpace : Option Nat
  linePixels : Nat
  lineCount : Nat

/-- The variables before the loop. -/
def Lines.initial : Lines := ⟨[], 0, 0, none, 0, 0⟩

/-- A line of the text is done, and the next one starts at a position. -/
def Lines.add (state : Lines) (line : Text) (next : Nat) : Lines :=
  ⟨state.lines ++ [line], next, next, none, 0, state.lineCount + 1⟩

/-- `if c == " "`: where the last space is. -/
def Lines.spaceAt (state : Lines) (char : Char) : Option Nat :=
  if char = ' ' then some state.stop else state.lastSpace

/-- The line overflows, and is broken at the last space if there is one. -/
def Lines.overflow (state : Lines) (text : Text) : Option Nat → Lines
  | some space => state.add (text.extract state.start space) (space + 1)
  | none => state.add (text.extract state.start state.stop) state.stop

/-- One turn of the loop. -/
def turn (text : Text) (char : Char) (state : Lines) : Lines :=
  if char = '\n' then state.add (text.extract state.start state.stop) (state.stop + 1)
  else if state.linePixels + display.charPixels char ≤ display.usablePixelsInLine then
    { state with
      stop := state.stop + 1
      lastSpace := state.spaceAt char
      linePixels := state.linePixels + display.charPixels char }
  else state.overflow text (state.spaceAt char)

/-- A turn ends a line or goes on to the next character. -/
theorem turn_decreases (text : Text) (char : Char) (state : Lines) :
    (display.turn text char state).lineCount = state.lineCount + 1 ∨
      (display.turn text char state).lineCount = state.lineCount ∧
        (display.turn text char state).stop = state.stop + 1 := by
  unfold turn
  split_ifs with newline fits
  · exact .inl rfl
  · exact .inr ⟨rfl, rfl⟩
  · cases state.spaceAt char <;> exact .inl rfl

/-- `while end < total_chars and line_count < max_lines`. -/
def loop (text : Text) (maxLines : Nat) (state : Lines) : Lines :=
  if more : state.stop < text.length ∧ state.lineCount < maxLines then
    loop text maxLines (display.turn text (text.get ⟨state.stop, more.1⟩) state)
  else state
termination_by (maxLines - state.lineCount, text.length - state.stop)
decreasing_by
  obtain counted | ⟨same, next⟩ :=
    display.turn_decreases text (text.get ⟨state.stop, more.1⟩) state
  · exact Prod.Lex.left _ _ (by omega)
  · rw [same, next]
    exact Prod.Lex.right _ (by omega)

/-- `if end > start`: the remaining text is a line. -/
def flush (text : Text) (state : Lines) : Lines :=
  if state.start < state.stop then
    { state with
      lines := state.lines ++ [text.extract state.start state.stop]
      lineCount := state.lineCount + 1 }
  else state

/-- The last line gets the ellipsis, in the place of its last character if there is no room. -/
def addEllipsis (state : Lines) : List Text × Nat :=
  let last := state.lines.getLast?.getD []
  let linePixels := state.linePixels + display.pixels last
  if display.usablePixelsInLine < linePixels + display.fontWidth then
    (state.lines.dropLast ++ [last.take (last.length - 1) ++ [ellipsis]], state.stop - 1)
  else (state.lines.dropLast ++ [last ++ [ellipsis]], state.stop)

/-- The columns of a line. -/
def columns (text : Text) : Nat :=
  if display.locale ∈ ["ko-KR", "zh-CN", "ja-JP"] ∧ display.stringHasWideGlyph text then
    display.asianCharsPerLine
  else display.asciiCharsPerLine

/-- The text has no newline and no more characters than a line has columns. -/
def OneLine (text : Text) : Prop := text.length ≤ display.columns text ∧ '\n' ∉ text

instance (text : Text) : Decidable (display.OneLine text) :=
  inferInstanceAs (Decidable (_ ∧ _))

/-- `to_lines_endpos` of a text. -/
def toLinesEndpos (text : Text) (maxLines : Nat) : List Text × Nat :=
  if display.OneLine text then ([text], text.length)
  else
    let state := flush text (display.loop text maxLines .initial)
    if state.lineCount = maxLines ∧ state.stop < text.length then display.addEllipsis state
    else (state.lines, state.stop)

/-- `to_lines`. -/
def toLines (text : Text) (maxLines : Nat) : List Text := (display.toLinesEndpos text maxLines).1

/-! ## The loop wraps the text -/

/-- How the display wraps a text. -/
def style : Style Char := ⟨display.charPixels, display.usablePixelsInLine, ' ', '\n'⟩

/-- The loop has taken characters of a line, with the last space among them, and goes on with the
rest of the text. -/
structure Stands (text : Text) (state : Lines) (taken : Text) (cut : Option (Text × Text))
    (rest : Text) : Prop where
  start_le : state.start ≤ state.stop
  stop_le : state.stop ≤ text.length
  taken_eq : text.extract state.start state.stop = taken
  rest_eq : text.drop state.stop = rest
  pixels_eq : state.linePixels = display.pixels taken
  cut_eq : state.lastSpace.map (fun space =>
    (text.extract state.start space, text.extract (space + 1) state.stop)) = cut
  space_lt : ∀ space ∈ state.lastSpace, state.start ≤ space ∧ space < state.stop

/-- The lines that the loop added, and where it stopped. -/
structure Wrapped (text : Text) (state : Lines) (breaks : List (Break Char)) (rest : Text)
    (final : Lines) : Prop where
  lines_eq : final.lines = state.lines ++ breaks.map Break.line
  count_eq : final.lineCount = state.lineCount + breaks.length
  stop_le : final.stop ≤ text.length
  rest_eq : text.drop final.stop = Style.remaining breaks rest
  pixels_eq : final.stop < text.length → final.linePixels = 0

section Refinement

variable {display} {text taken rest : Text} {state : Lines} {cut : Option (Text × Text)}
  {char : Char} {maxLines start stop : Nat}

private theorem extract_append_drop (inside : start ≤ stop) :
    text.extract start stop ++ text.drop stop = text.drop start := by
  have whole : stop = start + (stop - start) := by omega
  rw [List.extract_eq_take_drop]
  conv =>
    lhs
    rhs
    rw [whole, ← List.drop_drop]
  exact List.take_append_drop _ _

private theorem extract_succ (inside : start ≤ stop) (next : text.drop stop = char :: rest) :
    text.extract start (stop + 1) = text.extract start stop ++ [char] := by
  have front := @extract_append_drop text start stop inside
  have later := @extract_append_drop text start (stop + 1) (by omega)
  have tail : text.drop (stop + 1) = rest := by rw [← List.drop_drop, next, List.drop_succ_cons,
    List.drop_zero]
  rw [← front, next, tail, ← List.singleton_append, ← List.append_assoc] at later
  exact List.append_cancel_right later

/-- The next line starts with nothing taken. -/
theorem stands_add (line : Text) {next : Nat} (inside : next ≤ text.length) :
    display.Stands text (state.add line next) [] none (text.drop next) := {
  start_le := Nat.le_refl _
  stop_le := inside
  taken_eq := by
    rw [Lines.add, List.extract_eq_take_drop, Nat.sub_self, List.take_zero]
  rest_eq := rfl
  pixels_eq := rfl
  cut_eq := rfl
  space_lt := nofun }

private theorem stands_initial (text : Text) : display.Stands text .initial [] none text := {
  start_le := Nat.le_refl _
  stop_le := Nat.zero_le _
  taken_eq := rfl
  rest_eq := rfl
  pixels_eq := rfl
  cut_eq := rfl
  space_lt := nofun }

/-- The pieces around the last space, when the line goes on with a character. -/
theorem Stands.cutAt (stands : display.Stands text state taken cut (char :: rest)) :
    (state.spaceAt char).map (fun space =>
        (text.extract state.start space, text.extract (space + 1) (state.stop + 1))) =
      display.style.cutAt taken cut char := by
  unfold Lines.spaceAt Style.cutAt
  change _ = if char = ' ' then some (taken, []) else cut.map fun pieces =>
    (pieces.1, pieces.2 ++ [char])
  by_cases space : char = ' '
  · rw [if_pos space, if_pos space, Option.map_some, stands.taken_eq, List.extract_eq_take_drop,
      Nat.sub_self, List.take_zero]
  · rw [if_neg space, if_neg space, ← stands.cut_eq, Option.map_map]
    refine Option.map_congr fun position member => ?_
    have inside := stands.space_lt position member
    rw [Function.comp_apply, extract_succ inside.2 stands.rest_eq]

private theorem Stands.spaceAt_lt (stands : display.Stands text state taken cut rest) :
    ∀ space ∈ state.spaceAt char, state.start ≤ space ∧ space < state.stop + 1 := by
  intro space member
  unfold Lines.spaceAt at member
  by_cases same : char = ' '
  · rw [if_pos same] at member
    obtain rfl := Option.some.inj member
    exact ⟨stands.start_le, Nat.lt_succ_self _⟩
  · rw [if_neg same] at member
    have inside := stands.space_lt space member
    exact ⟨inside.1, Nat.lt_succ_of_lt inside.2⟩

/-- A character that fits is taken. -/
theorem Stands.next (stands : display.Stands text state taken cut (char :: rest)) :
    display.Stands text
      { state with
        stop := state.stop + 1
        lastSpace := state.spaceAt char
        linePixels := state.linePixels + display.charPixels char }
      (taken ++ [char]) (display.style.cutAt taken cut char) rest := {
  start_le := Nat.le_succ_of_le stands.start_le
  stop_le := by
    have some := congrArg List.length stands.rest_eq
    rw [List.length_drop, List.length_cons] at some
    dsimp only
    omega
  taken_eq := by
    rw [← stands.taken_eq]
    exact extract_succ stands.start_le stands.rest_eq
  rest_eq := by
    dsimp only
    rw [← List.drop_drop, stands.rest_eq, List.drop_succ_cons, List.drop_zero]
  pixels_eq := by
    dsimp only
    rw [stands.pixels_eq]
    exact (@Style.extent_concat Char display.style taken char).symm
  cut_eq := stands.cutAt
  space_lt := stands.spaceAt_lt }

/-- A line that overflows is broken as the text is wrapped. -/
theorem Stands.overflow (stands : display.Stands text state taken cut (char :: rest)) :
    ∃ next, next ≤ text.length ∧
      state.overflow text (state.spaceAt char) = state.add
        (display.style.breakBefore taken rest (display.style.cutAt taken cut char) char).line next ∧
      text.drop next =
        (display.style.breakBefore taken rest (display.style.cutAt taken cut char) char).rest := by
  have after := stands.next.stop_le
  have tail := stands.next.rest_eq
  dsimp only at after tail
  rw [← stands.cutAt]
  have inside := @Stands.spaceAt_lt display text taken _ state cut char stands
  cases last : state.spaceAt char with
  | none => exact ⟨state.stop, stands.stop_le, by rw [Lines.overflow, stands.taken_eq]; rfl,
      stands.rest_eq⟩
  | some space =>
      have less := (inside space last).2
      refine ⟨space + 1, by omega, rfl, ?_⟩
      rw [← @extract_append_drop text (space + 1) (state.stop + 1) (by omega), tail]
      rfl

/-- One turn ends the line as the text is wrapped, or takes the character. -/
theorem Stands.turn (stands : display.Stands text state taken cut (char :: rest)) :
    (∃ next, next ≤ text.length ∧
      display.turn text char state =
        state.add (display.style.breakLine taken cut (char :: rest)).line next ∧
      text.drop next = (display.style.breakLine taken cut (char :: rest)).rest) ∨
    display.style.breakLine taken cut (char :: rest) =
        display.style.breakLine (taken ++ [char]) (display.style.cutAt taken cut char) rest ∧
      display.Stands text (display.turn text char state) (taken ++ [char])
        (display.style.cutAt taken cut char) rest ∧
      (display.turn text char state).lines = state.lines ∧
      (display.turn text char state).lineCount = state.lineCount := by
  have fitsIff : state.linePixels + display.charPixels char ≤ display.usablePixelsInLine ↔
      display.style.extent (taken ++ [char]) ≤ display.style.limit := by
    rw [stands.pixels_eq, Style.extent_concat]
    rfl
  rw [Display.turn, Style.breakLine]
  by_cases newline : char = '\n'
  · have lineEnd : char = display.style.newline := newline
    rw [if_pos newline, if_pos lineEnd]
    exact .inl ⟨state.stop + 1, stands.next.stop_le, by rw [stands.taken_eq], stands.next.rest_eq⟩
  · have goesOn : ¬ char = display.style.newline := newline
    rw [if_neg newline, if_neg goesOn]
    by_cases fits : state.linePixels + display.charPixels char ≤ display.usablePixelsInLine
    · rw [if_pos fits, if_pos (fitsIff.mp fits)]
      exact .inr ⟨rfl, stands.next, rfl, rfl⟩
    · rw [if_neg fits, if_neg (mt fitsIff.mpr fits)]
      exact .inl stands.overflow

/-- The first line of a text that is wrapped. -/
theorem wrapFrom_succ {count : Nat} (some : ¬ (taken = [] ∧ rest = [])) :
    display.style.wrapFrom (count + 1) taken cut rest =
      display.style.breakLine taken cut rest ::
        display.style.wrapFrom count [] none (display.style.breakLine taken cut rest).rest := by
  rw [Style.wrapFrom, if_neg some]

private theorem wrapFrom_nil (count : Nat) : display.style.wrapFrom count [] cut [] = [] := by
  cases count with
  | zero => rfl
  | succ count => rw [Style.wrapFrom, if_pos ⟨rfl, rfl⟩]

/-- At the end of the loop the line that was begun is the last one. -/
theorem flush_wrapped (stands : display.Stands text state taken cut rest)
    (few : state.lineCount ≤ maxLines) (done : state.lineCount = maxLines → taken = [])
    (ended : ¬ (state.stop < text.length ∧ state.lineCount < maxLines)) :
    Wrapped text state (display.style.wrapFrom (maxLines - state.lineCount) taken cut rest) rest
      (flush text state) := by
  rw [flush]
  by_cases begun : state.start < state.stop
  · have some : taken ≠ [] := by
      rw [← stands.taken_eq, List.extract_eq_take_drop, ← List.length_pos_iff, List.length_take,
        List.length_drop]
      have := stands.stop_le
      omega
    have more : state.lineCount < maxLines :=
      Nat.lt_of_le_of_ne few fun full => some (done full)
    have atEnd : state.stop = text.length := by
      have := stands.stop_le
      omega
    have none : rest = [] := by rw [← stands.rest_eq, atEnd, List.drop_length]
    obtain ⟨count, same⟩ : ∃ count, maxLines - state.lineCount = count + 1 :=
      ⟨maxLines - state.lineCount - 1, by omega⟩
    rw [if_pos begun, same, wrapFrom_succ (fun empty => some empty.1), none, Style.breakLine,
      wrapFrom_nil]
    exact {
      lines_eq := by rw [← stands.taken_eq]; rfl
      count_eq := rfl
      stop_le := stands.stop_le
      rest_eq := by
        rw [atEnd, List.drop_length]
        rfl
      pixels_eq := fun less => absurd less (by dsimp only; omega) }
  · have empty : taken = [] := by
      rw [← stands.taken_eq, List.extract_eq_take_drop,
        Nat.sub_eq_zero_of_le (Nat.le_of_not_lt begun), List.take_zero]
    have none : display.style.wrapFrom (maxLines - state.lineCount) taken cut rest = [] := by
      by_cases full : state.lineCount = maxLines
      · rw [full, Nat.sub_self]
        rfl
      · have atEnd : text.length ≤ state.stop := by omega
        rw [empty, ← stands.rest_eq, List.drop_of_length_le atEnd, wrapFrom_nil]
    rw [if_neg begun, none]
    exact {
      lines_eq := (List.append_nil _).symm
      count_eq := rfl
      stop_le := stands.stop_le
      rest_eq := stands.rest_eq
      pixels_eq := fun _ => by
        rw [stands.pixels_eq, empty]
        rfl }

/-- A line comes before the lines that follow it. -/
theorem Wrapped.cons {first : Break Char} {breaks : List (Break Char)} {next : Nat}
    {final : Lines} (later : Wrapped text (state.add first.line next) breaks first.rest final) :
    Wrapped text state (first :: breaks) rest final := {
  lines_eq := by
    rw [later.lines_eq, Lines.add, List.append_assoc]
    rfl
  count_eq := by
    rw [later.count_eq, Lines.add, List.length_cons]
    dsimp only
    omega
  stop_le := later.stop_le
  rest_eq := by rw [later.rest_eq, Style.remaining_cons]
  pixels_eq := later.pixels_eq }

/-- Taking a character adds no line. -/
theorem Wrapped.taking {first : Break Char} {breaks : List (Break Char)} {other : Lines}
    {after : Text} {final : Lines} (later : Wrapped text other (first :: breaks) after final)
    (lines : other.lines = state.lines) (count : other.lineCount = state.lineCount) :
    Wrapped text state (first :: breaks) rest final := {
  lines_eq := by rw [later.lines_eq, lines]
  count_eq := by rw [later.count_eq, count]
  stop_le := later.stop_le
  rest_eq := by rw [later.rest_eq, Style.remaining_cons, Style.remaining_cons]
  pixels_eq := later.pixels_eq }

/-- **The loop wraps the text.** -/
theorem loop_wrapped (stands : display.Stands text state taken cut rest)
    (few : state.lineCount ≤ maxLines) (done : state.lineCount = maxLines → taken = []) :
    Wrapped text state (display.style.wrapFrom (maxLines - state.lineCount) taken cut rest) rest
      (flush text (display.loop text maxLines state)) := by
  induction state using loop.induct display text maxLines generalizing taken cut rest with
  | case1 state more ih =>
      have next : text.drop state.stop =
          text.get ⟨state.stop, more.1⟩ :: text.drop (state.stop + 1) :=
        List.drop_eq_getElem_cons more.1
      rw [loop, dif_pos more]
      generalize text.get ⟨state.stop, more.1⟩ = char at ih next ⊢
      have here := stands.rest_eq.symm.trans next
      rw [here] at stands ⊢
      obtain ⟨count, same⟩ : ∃ count, maxLines - state.lineCount = count + 1 :=
        ⟨maxLines - state.lineCount - 1, by omega⟩
      rw [same, wrapFrom_succ fun empty => List.cons_ne_nil _ _ empty.2]
      obtain ⟨position, inside, turned, tail⟩ | ⟨taking, after, lines, counted⟩ := stands.turn
      · have fewer : maxLines - (state.lineCount + 1) = count := by omega
        rw [turned] at ih ⊢
        have later := ih (stands_add _ inside) more.2 fun _ => rfl
        change Wrapped _ _ (display.style.wrapFrom (maxLines - (state.lineCount + 1)) _ _ _) _ _
          at later
        rw [fewer, tail] at later
        exact later.cons
      · have later := ih after (counted.trans_le few) fun full =>
          absurd (counted.symm.trans full) more.2.ne
        rw [counted, same, wrapFrom_succ fun empty => by simpa using empty.1, ← taking] at later
        exact later.taking lines counted
  | case2 state more =>
      rw [loop, dif_neg more]
      exact flush_wrapped stands few done more

end Refinement

section Pages

variable {display} {text : Text} {maxLines : Nat} {front : List (Break Char)} {last : Break Char}

private theorem loop_initial (display : Display) (text : Text) (maxLines : Nat) :
    Wrapped text .initial (display.style.wrap maxLines text) text
      (flush text (display.loop text maxLines .initial)) :=
  loop_wrapped (stands_initial text) (Nat.zero_le _) fun _ => rfl

/-- A text that is wrapped as a whole. -/
theorem toLinesEndpos_whole (several : ¬ display.OneLine text)
    (whole : Style.remaining (display.style.wrap maxLines text) text = []) :
    display.toLinesEndpos text maxLines =
      ((display.style.wrap maxLines text).map Break.line, text.length) := by
  have wrapped := loop_initial display text maxLines
  have ended := wrapped.rest_eq.trans whole
  have atEnd := Nat.le_antisymm wrapped.stop_le (List.drop_eq_nil_iff.mp ended)
  rw [toLinesEndpos, if_neg several]
  dsimp only
  rw [if_neg fun more => absurd more.2 (by omega), wrapped.lines_eq, atEnd]
  rfl

/-- When text remains, there is a last line before it. -/
theorem exists_last (positive : 0 < maxLines)
    (more : Style.remaining (display.style.wrap maxLines text) text ≠ []) :
    ∃ front last, display.style.wrap maxLines text = front ++ [last] ∧ last.rest ≠ [] ∧
      (front ++ [last]).length = maxLines := by
  have full := (Style.wrap_wraps maxLines text).full more
  generalize display.style.wrap maxLines text = breaks at more full ⊢
  cases breaks using List.reverseRecOn with
  | nil => exact absurd full positive.ne
  | append_singleton front last =>
      rw [Style.remaining, List.getLast?_concat] at more
      exact ⟨front, last, rfl, more, full⟩

/-- The lines of a page of which the text does not end get the ellipsis. -/
theorem toLinesEndpos_cut (several : ¬ display.OneLine text)
    (wrap : display.style.wrap maxLines text = front ++ [last]) (more : last.rest ≠ []) :
    display.toLinesEndpos text maxLines =
      if display.usablePixelsInLine < display.pixels last.line + display.fontWidth then
        (front.map Break.line ++ [last.line.dropLast ++ [ellipsis]],
          text.length - last.rest.length - 1)
      else
        (front.map Break.line ++ [last.line ++ [ellipsis]], text.length - last.rest.length) := by
  have wrapped := loop_initial display text maxLines
  have full := (@Style.wrap_wraps Char _ display.style maxLines text).full
  have rest_eq := wrapped.rest_eq
  have lines_eq := wrapped.lines_eq
  have count_eq := wrapped.count_eq
  rw [wrap, Style.remaining, List.getLast?_concat] at rest_eq full
  rw [wrap] at lines_eq count_eq
  change _ = last.rest at rest_eq
  rw [full more] at count_eq
  change _ = 0 + maxLines at count_eq
  rw [Nat.zero_add] at count_eq
  change _ = [] ++ _ at lines_eq
  rw [List.nil_append, List.map_append, List.map_singleton] at lines_eq
  have length := congrArg List.length rest_eq
  rw [List.length_drop] at length
  have some := List.length_pos_iff.mpr more
  have less : (flush text (display.loop text maxLines .initial)).stop < text.length := by omega
  have pixels_eq := wrapped.pixels_eq less
  rw [toLinesEndpos, if_neg several]
  dsimp only
  generalize flush text (display.loop text maxLines .initial) = final at *
  have stop_eq : final.stop = text.length - last.rest.length := by omega
  rw [if_pos ⟨count_eq, less⟩, addEllipsis, lines_eq, List.getLast?_concat, List.dropLast_concat,
    Option.getD_some, pixels_eq, Nat.zero_add, stop_eq, List.dropLast_eq_take]

end Pages

end Display

end VaultSeed.Ui
