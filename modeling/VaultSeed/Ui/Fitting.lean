import VaultSeed.Ui.Display

/-! # Lines that fit

Every line that is wrapped fits, with the ellipsis. A text that is taken for one line is counted
in characters and not measured, so it fits exactly when its wide characters have room
(`Ui.Display.fits_iff`).
-/

namespace VaultSeed.Ui

open Python Wrapping

namespace Display

variable (display : Display) (text : Text) (maxLines : Nat)

/-- The lines of a page fit on the screen. -/
structure Fits : Prop where
  count_le : (display.toLinesEndpos text maxLines).1.length ≤ maxLines
  single : display.OneLine text → (display.toLinesEndpos text maxLines).1.length = 1
  pixels_le : ∀ line ∈ (display.toLinesEndpos text maxLines).1,
    display.pixels line ≤ display.usablePixelsInLine

/-- The number of wide characters. -/
def wides : Nat := text.countP fun char => asianMinCodepoint ≤ char.toNat

/-- The columns are counted in wide characters. -/
def CountsWide : Prop :=
  display.locale ∈ ["ko-KR", "zh-CN", "ja-JP"] ∧ display.stringHasWideGlyph text = true

/-- A text that is measured, counted in wide characters, or has room for the wide ones. -/
def HasRoom : Prop :=
  '\n' ∈ text ∨ display.asciiCharsPerLine < text.length ∨ display.CountsWide text ∨
    text.length * display.fontWidth + wides text * (display.fontWidthWide - display.fontWidth) ≤
      display.usablePixelsInLine

section Pixels

variable {display} {text} {maxLines}

/-- A line has room for a character. -/
theorem fontWidth_le_usable : display.fontWidth ≤ display.usablePixelsInLine := display.room

private theorem pixels_append (first second : Text) :
    display.pixels (first ++ second) = display.pixels first + display.pixels second :=
  @Style.extent_append Char display.style first second

private theorem pixels_ellipsis : display.pixels [ellipsis] = display.fontWidth := by
  have narrow : ¬ asianMinCodepoint ≤ ellipsis.toNat := by decide
  rw [pixels, List.map_singleton, List.sum_singleton, charPixels, if_neg narrow]

private theorem fontWidth_le_charPixels (char : Char) : display.fontWidth ≤
    display.charPixels char := by
  unfold charPixels
  split_ifs
  · exact display.wide
  · exact Nat.le_refl _

/-- No character is wider than a wide one. -/
theorem charPixels_le_wide (char : Char) : display.charPixels char ≤ display.fontWidthWide := by
  unfold charPixels
  split_ifs
  · exact Nat.le_refl _
  · exact display.wide

/-- The pixels of a line are those of narrow characters, and what the wide ones take more. -/
theorem pixels_eq (text : Text) : display.pixels text =
    text.length * display.fontWidth + wides text * (display.fontWidthWide - display.fontWidth) := by
  have wide := display.wide
  induction text with
  | nil => simp [pixels, wides]
  | cons char text ih =>
      have first : display.pixels (char :: text) = display.charPixels char + display.pixels text :=
        List.sum_cons
      rw [first, ih, List.length_cons, Nat.succ_mul, wides, wides, charPixels]
      by_cases high : asianMinCodepoint ≤ char.toNat
      · rw [if_pos high, List.countP_cons_of_pos (by simpa using high), Nat.succ_mul]
        omega
      · rw [if_neg high, List.countP_cons_of_neg (by simpa using high)]
        omega

private theorem pixels_le_wide (text : Text) :
    display.pixels text ≤ text.length * display.fontWidthWide := by
  have less : wides text ≤ text.length := List.countP_le_length
  obtain ⟨more, split⟩ := Nat.exists_eq_add_of_le display.wide
  have many := Nat.mul_le_mul_right more less
  rw [pixels_eq, split, Nat.add_sub_cancel_left, Nat.mul_add]
  omega

/-- A line has room for the ellipsis, or for it in the place of the last character. -/
theorem pixels_addEllipsis {line : Text} (fits : display.pixels line ≤ display.usablePixelsInLine) :
    ∀ shown ∈ (if display.usablePixelsInLine < display.pixels line + display.fontWidth then
        [line.dropLast ++ [ellipsis]] else [line ++ [ellipsis]]),
      display.pixels shown ≤ display.usablePixelsInLine := by
  split_ifs with tight
  · intro shown member
    rw [List.mem_singleton.mp member, pixels_append, pixels_ellipsis]
    cases line using List.reverseRecOn with
    | nil =>
        have room := @fontWidth_le_usable display
        change _ < 0 + display.fontWidth at tight
        omega
    | append_singleton line char =>
        have least := @fontWidth_le_charPixels display char
        have last : display.pixels [char] = display.charPixels char := by
          rw [pixels, List.map_singleton, List.sum_singleton]
        rw [pixels_append, last] at fits
        rw [List.dropLast_concat]
        omega
  · intro shown member
    rw [List.mem_singleton.mp member, pixels_append, pixels_ellipsis]
    omega

/-- **A text that is wrapped fits.** -/
theorem fits_of_several (positive : 0 < maxLines) (several : ¬ display.OneLine text) :
    display.Fits text maxLines := by
  have wraps := @Style.wrap_wraps Char _ display.style maxLines text
  by_cases whole : Style.remaining (display.style.wrap maxLines text) text = []
  · exact {
      count_le := by
        rw [toLinesEndpos_whole several whole, List.length_map]
        exact wraps.count_le
      single := fun one => absurd one several
      pixels_le := by
        rw [toLinesEndpos_whole several whole]
        intro line member
        obtain ⟨broken, inside, rfl⟩ := List.mem_map.mp member
        exact wraps.fits broken inside }
  · obtain ⟨front, last, wrap, more, full⟩ := exists_last positive whole
    have lastFits := wraps.fits last (by rw [wrap]; simp)
    have shown := pixels_addEllipsis lastFits
    have frontFits : ∀ line ∈ front.map Break.line,
        display.pixels line ≤ display.usablePixelsInLine := by
      intro line member
      obtain ⟨broken, inside, rfl⟩ := List.mem_map.mp member
      exact wraps.fits broken (by rw [wrap]; exact List.mem_append_left _ inside)
    rw [List.length_append, List.length_singleton] at full
    have cut := toLinesEndpos_cut several wrap more
    exact {
      count_le := by
        rw [cut]
        split_ifs <;>
        · rw [List.length_append, List.length_map, List.length_singleton]
          exact full.le
      single := fun one => absurd one several
      pixels_le := by
        rw [cut]
        split_ifs at shown ⊢ with tight
        · exact List.forall_mem_append.mpr ⟨frontFits, shown⟩
        · exact List.forall_mem_append.mpr ⟨frontFits, shown⟩ }

/-- A text of one line is shown as it is. -/
theorem toLinesEndpos_one (one : display.OneLine text) :
    display.toLinesEndpos text maxLines = ([text], text.length) := by
  rw [toLinesEndpos, if_pos one]

private theorem columns_wide (counts : display.CountsWide text) :
    display.columns text = display.asianCharsPerLine := if_pos counts

private theorem columns_narrow (counts : ¬ display.CountsWide text) :
    display.columns text = display.asciiCharsPerLine := if_neg counts

/-- A text that is taken for one line fits when it has room. -/
theorem pixels_of_hasRoom (one : display.OneLine text) (room : display.HasRoom text) :
    display.pixels text ≤ display.usablePixelsInLine := by
  by_cases counts : display.CountsWide text
  · have few := one.1
    rw [columns_wide counts] at few
    exact (pixels_le_wide text).trans
      ((Nat.le_div_iff_mul_le (display.positive.trans_le display.wide)).mp few)
  · have few := one.1
    rw [columns_narrow counts] at few
    rcases room with newline | many | wide | room
    · exact absurd newline one.2
    · exact absurd few (Nat.not_le.mpr many)
    · exact absurd wide counts
    · rw [pixels_eq]
      exact room

/-- **The lines fit exactly when a text that is not measured has room.** -/
theorem fits_iff (positive : 0 < maxLines) :
    display.Fits text maxLines ↔ display.HasRoom text := by
  constructor
  · intro fits
    by_contra tight
    obtain ⟨newline, many, counts, wide⟩ : '\n' ∉ text ∧ text.length ≤ display.asciiCharsPerLine ∧
        ¬ display.CountsWide text ∧ display.usablePixelsInLine < display.pixels text := by
      rw [pixels_eq]
      unfold HasRoom at tight
      push Not at tight
      exact tight
    have one : display.OneLine text := ⟨(columns_narrow counts).symm ▸ many, newline⟩
    have small := fits.pixels_le
    rw [toLinesEndpos_one one] at small
    exact absurd (small text (List.mem_singleton.mpr rfl)) (Nat.not_le.mpr wide)
  · intro room
    by_cases one : display.OneLine text
    · exact {
        count_le := by
          rw [toLinesEndpos_one one]
          exact positive
        single := fun _ => by
          rw [toLinesEndpos_one one]
          rfl
        pixels_le := by
          rw [toLinesEndpos_one one]
          exact List.forall_mem_singleton.mpr (pixels_of_hasRoom one room) }
    · exact fits_of_several positive one

end Pixels

/-- The screen of an M5StickV with Korean glyphs. -/
def m5stickv (locale : String) : Display where
  width := 135
  isM5stickv := true
  fontWidth := 8
  fontWidthWide := 14
  locale := locale
  stringHasWideGlyph text := text.any fun char => 0xAC00 ≤ char.toNat ∧ char.toNat ≤ 0xD7A3
  positive := by decide
  wide := by decide
  narrow := by decide
  room := by decide

/-- In the Korean locale a Korean text fits. -/
theorem fits_iff_korean :
    (m5stickv "ko-KR").Fits "안녕하세요안녕하세요".toList 2 :=
  (fits_iff (by decide)).mpr (.inr (.inr (.inl ⟨by decide, by decide⟩)))

/-- In another locale it does not: its characters are counted as narrow ones. -/
theorem not_fits_wide : ¬ (m5stickv "en-US").Fits "안녕하세요안녕하세요".toList 2 := by
  intro fits
  have small := fits.pixels_le
  have one : (m5stickv "en-US").OneLine "안녕하세요안녕하세요".toList := by decide
  rw [toLinesEndpos_one one] at small
  have line := small _ (List.mem_singleton.mpr rfl)
  exact absurd line (by decide)

end Display

end VaultSeed.Ui
