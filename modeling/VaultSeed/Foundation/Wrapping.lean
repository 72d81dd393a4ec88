import Mathlib.Algebra.GroupWithZero.Nat
import Mathlib.Algebra.Order.BigOperators.Group.List
import Mathlib.Data.List.Induction

/-! # Wrapping a text

A text is broken into lines of a limited extent. A line ends at a newline, at the last space
that was seen before it overflowed, or between two items. Nothing of the text is lost but the
newlines and the spaces at which lines were broken, and every line fits
(`Wrapping.Style.wrap_wraps`).
-/

namespace Wrapping

/-- The items of a text, what they take of a line, and where a line is broken. -/
structure Style (α : Type) where
  width : α → Nat
  limit : Nat
  space : α
  newline : α

/-- A line, the separator at which it was broken, and the text after it. -/
structure Break (α : Type) where
  line : List α
  separator : Option α
  rest : List α
  deriving DecidableEq

/-- What a break takes from the text. -/
def Break.taken {α : Type} (broken : Break α) : List α :=
  broken.line ++ broken.separator.toList

namespace Style

variable {α : Type} [DecidableEq α] (style : Style α)

/-- What items take of a line. -/
def extent (items : List α) : Nat := (items.map style.width).sum

/-- What comes before and after the last space of a line, when it goes on with an item. -/
def cutAt (taken : List α) (cut : Option (List α × List α)) (item : α) :
    Option (List α × List α) :=
  if item = style.space then some (taken, [])
  else cut.map fun pieces => (pieces.1, pieces.2 ++ [item])

/-- Break an overflowing line at its last space, or where it overflows. -/
def breakBefore (taken rest : List α) (cut : Option (List α × List α)) (item : α) : Break α :=
  match cut with
  | some pieces => ⟨pieces.1, some style.space, pieces.2 ++ rest⟩
  | none => ⟨taken, none, item :: rest⟩

/-- Break off one line, of which some items are taken already. -/
def breakLine (taken : List α) (cut : Option (List α × List α)) : List α → Break α
  | [] => ⟨taken, none, []⟩
  | item :: rest =>
      if item = style.newline then ⟨taken, some item, rest⟩
      else if style.extent (taken ++ [item]) ≤ style.limit then
        breakLine (taken ++ [item]) (style.cutAt taken cut item) rest
      else style.breakBefore taken rest (style.cutAt taken cut item) item

/-- Break a text into at most so many lines, when some items of the first one are taken. -/
def wrapFrom : Nat → List α → Option (List α × List α) → List α → List (Break α)
  | 0, _, _, _ => []
  | count + 1, taken, cut, text =>
      if taken = [] ∧ text = [] then []
      else
        let first := style.breakLine taken cut text
        first :: wrapFrom count [] none first.rest

/-- Break a text into at most so many lines. -/
def wrap (count : Nat) (text : List α) : List (Break α) := style.wrapFrom count [] none text

/-- The text after lines. -/
def remaining (breaks : List (Break α)) (text : List α) : List α :=
  (breaks.getLast?.map Break.rest).getD text

/-- The pieces before and after a space make up what is taken. -/
def CutOf (taken : List α) (cut : Option (List α × List α)) : Prop :=
  ∀ pieces ∈ cut, taken = pieces.1 ++ style.space :: pieces.2

/-- **What breaking off a line does**: it loses nothing, breaks at a separator or between items,
and the line fits and has no newline. -/
structure Breaks (taken text : List α) (broken : Break α) : Prop where
  pieces : broken.taken ++ broken.rest = taken ++ text
  separator : ∀ separator ∈ broken.separator, separator = style.space ∨ separator = style.newline
  fits : style.extent taken ≤ style.limit → style.extent broken.line ≤ style.limit
  plain : style.newline ∉ taken → style.newline ∉ broken.line
  progress : (∀ item, style.width item ≤ style.limit) → taken ++ text ≠ [] → broken.taken ≠ []

section Lines

omit [DecidableEq α]

variable {style} {first second taken : List α} {cut : Option (List α × List α)}

@[simp] theorem extent_nil : style.extent [] = 0 := rfl

/-- The extents of two lines add up. -/
theorem extent_append (first second : List α) :
    style.extent (first ++ second) = style.extent first + style.extent second := by
  rw [extent, List.map_append, List.sum_append, extent, extent]

/-- One more item on a line. -/
theorem extent_concat (items : List α) (item : α) :
    style.extent (items ++ [item]) = style.extent items + style.width item := by
  rw [extent_append, extent, extent, List.map_singleton, List.sum_singleton]

/-- A front takes no more than the whole. -/
theorem extent_mono (front : first <+: second) : style.extent first ≤ style.extent second := by
  obtain ⟨back, rfl⟩ := front
  rw [extent_append]
  exact Nat.le_add_right _ _

private theorem cutOf_none : style.CutOf taken none := nofun

end Lines

section Breaking

variable {style} {taken text : List α} {cut : Option (List α × List α)}

private theorem cutOf_cutAt (known : style.CutOf taken cut) (item : α) :
    style.CutOf (taken ++ [item]) (style.cutAt taken cut item) := by
  intro pieces member
  unfold cutAt at member
  by_cases space : item = style.space
  · rw [if_pos space] at member
    obtain rfl := Option.some.inj member
    rw [space]
  · rw [if_neg space] at member
    obtain ⟨before, inside, rfl⟩ := Option.map_eq_some_iff.mp member
    rw [known before inside, List.append_assoc, List.cons_append]

omit [DecidableEq α] in
/-- The line before an overflow is broken at its last space, or where it overflowed. -/
theorem breaks_overflow {item : α} (known : style.CutOf (taken ++ [item]) cut)
    (exceeds : style.limit < style.extent (taken ++ [item])) :
    style.Breaks taken (item :: text) (style.breakBefore taken text cut item) := by
  cases cut with
  | none =>
      exact {
        pieces := by rw [breakBefore, Break.taken, Option.toList_none, List.append_nil]
        separator := nofun
        fits := id
        plain := id
        progress := by
          intro small _ empty
          rw [breakBefore, Break.taken, Option.toList_none, List.append_nil] at empty
          have alone := small item
          change taken = [] at empty
          rw [empty, List.nil_append, extent, List.map_singleton, List.sum_singleton] at exceeds
          omega }
  | some pieces =>
      have same := known pieces rfl
      have front : pieces.1 <+: taken := by
        have start : pieces.1 <+: taken ++ [item] := same ▸ List.prefix_append _ _
        rcases List.prefix_concat_iff.mp start with whole | front
        · have length := congrArg List.length same
          rw [whole] at length
          simp at length
        · exact front
      exact {
        pieces := by
          rw [← List.singleton_append, ← List.append_assoc taken, same, breakBefore, Break.taken,
            Option.toList_some, List.append_assoc, List.append_assoc, List.singleton_append,
            List.cons_append]
        separator := fun separator some => .inl (Option.some.inj some).symm
        fits := (extent_mono front).trans
        plain := fun absent member => absent (front.subset member)
        progress := fun _ _ => List.append_ne_nil_of_right_ne_nil _ (List.cons_ne_nil _ _) }

private theorem breakLine_breaks (known : style.CutOf taken cut) :
    style.Breaks taken text (style.breakLine taken cut text) := by
  induction text generalizing taken cut with
  | nil =>
      exact {
        pieces := by rw [breakLine, Break.taken, Option.toList_none, List.append_nil]
        separator := nofun
        fits := id
        plain := id
        progress := by
          intro _ some
          rw [List.append_nil] at some
          rw [breakLine, Break.taken, Option.toList_none, List.append_nil]
          exact some }
  | cons item text ih =>
      rw [breakLine]
      split_ifs with newline fits
      · exact {
          pieces := by
            rw [Break.taken, Option.toList_some, List.append_assoc, List.singleton_append]
          separator := fun separator some => .inr ((Option.some.inj some).symm.trans newline)
          fits := id
          plain := id
          progress := fun _ _ => List.append_ne_nil_of_right_ne_nil _ (List.cons_ne_nil _ _) }
      · have later := ih (cutOf_cutAt known item)
        have whole : taken ++ [item] ++ text = taken ++ item :: text := by
          rw [List.append_assoc, List.singleton_append]
        exact {
          pieces := later.pieces.trans whole
          separator := later.separator
          fits := fun _ => later.fits fits
          plain := by
            intro absent
            apply later.plain
            rw [List.mem_append, List.mem_singleton]
            exact fun member => member.elim absent fun same => newline same.symm
          progress := fun small some => later.progress small (whole ▸ some) }
      · exact breaks_overflow (cutOf_cutAt known item) (Nat.lt_of_not_le fits)

end Breaking

/-- **What wrapping a text does**: the lines and the separators are what comes before the rest,
and text remains only after all lines. -/
structure Wraps (count : Nat) (text : List α) (breaks : List (Break α)) : Prop where
  count_le : breaks.length ≤ count
  full : remaining breaks text ≠ [] → breaks.length = count
  pieces : breaks.flatMap Break.taken ++ remaining breaks text = text
  separator : ∀ broken ∈ breaks, ∀ separator ∈ broken.separator,
    separator = style.space ∨ separator = style.newline
  fits : ∀ broken ∈ breaks, style.extent broken.line ≤ style.limit
  plain : ∀ broken ∈ breaks, style.newline ∉ broken.line
  progress : (∀ item, style.width item ≤ style.limit) → ∀ broken ∈ breaks, broken.taken ≠ []

section Wrap

variable {style} {count : Nat} {text : List α}

omit [DecidableEq α] in
@[simp] theorem remaining_nil (text : List α) : remaining ([] : List (Break α)) text = text := rfl

omit [DecidableEq α] in
/-- What remains after a line and more lines. -/
theorem remaining_cons (first : Break α) (breaks : List (Break α)) (text : List α) :
    remaining (first :: breaks) text = remaining breaks first.rest := by
  cases breaks with
  | nil => rfl
  | cons second breaks =>
      rw [remaining, remaining, List.getLast?_cons_cons, List.getLast?_cons]
      rfl

private theorem wrap_cons {item : α} : style.wrap (count + 1) (item :: text) =
    style.breakLine [] none (item :: text) ::
      style.wrap count (style.breakLine [] none (item :: text)).rest := by
  rw [wrap, wrapFrom, if_neg (fun empty => by cases empty.2), wrap]

/-- What `wrap` finds are the lines of a text. -/
theorem wrap_wraps (count : Nat) (text : List α) :
    style.Wraps count text (style.wrap count text) := by
  induction count generalizing text with
  | zero => exact ⟨Nat.le_refl _, fun _ => rfl, List.nil_append _, nofun, nofun, nofun, nofun⟩
  | succ count ih =>
      cases text with
      | nil =>
          have none : style.wrap (count + 1) [] = [] := by rw [wrap, wrapFrom, if_pos ⟨rfl, rfl⟩]
          rw [none]
          exact ⟨Nat.zero_le _, fun more => absurd rfl more, rfl, nofun, nofun, nofun, nofun⟩
      | cons item text =>
          have first := @breakLine_breaks α _ style [] (item :: text) none cutOf_none
          rw [wrap_cons]
          generalize style.breakLine [] none (item :: text) = broken at first ⊢
          have later := ih broken.rest
          exact {
            count_le := Nat.succ_le_succ later.count_le
            full := by
              rw [remaining_cons]
              exact fun more => congrArg Nat.succ (later.full more)
            pieces := by
              rw [remaining_cons, List.flatMap_cons, List.append_assoc, later.pieces]
              exact first.pieces
            separator := List.forall_mem_cons.mpr ⟨first.separator, later.separator⟩
            fits := List.forall_mem_cons.mpr ⟨first.fits (Nat.zero_le _), later.fits⟩
            plain := List.forall_mem_cons.mpr ⟨first.plain List.not_mem_nil, later.plain⟩
            progress := fun small => List.forall_mem_cons.mpr
              ⟨first.progress small (List.cons_ne_nil _ _), later.progress small⟩ }

end Wrap

end Style

end Wrapping
