import Mathlib.Data.List.Infix
import Mathlib.Tactic.Common

/-! # Searching a file in overlapping windows

A file is read in chunks of one size, and each chunk is looked at together with the end of
the one before. A pattern that is at most one longer than the overlap occurs in some window
exactly when it occurs in the file (`Windows.exists_window_iff`).
-/

namespace Windows

variable {α : Type}

/-- Read a file chunk by chunk, at most `fuel` of them. -/
def readChunks (size : Nat) : Nat → List α → List (List α)
  | 0, _ => []
  | fuel + 1, file =>
      if file.isEmpty then [] else file.take size :: readChunks size fuel (file.drop size)

/-- The chunks of a file. -/
def chunks (size : Nat) (file : List α) : List (List α) := readChunks size file.length file

/-- The end of a chunk, `chunk[-overlap:]`. -/
def ending (overlap : Nat) (chunk : List α) : List α := chunk.drop (chunk.length - overlap)

/-- Each chunk after the end of the one before. -/
def windows (overlap : Nat) : List α → List (List α) → List (List α)
  | _, [] => []
  | last, chunk :: rest => (last ++ chunk) :: windows overlap (ending overlap chunk) rest

/-- The chunks in a row are the file. -/
theorem flatten_readChunks {size fuel : Nat} (positive : 0 < size) {file : List α}
    (enough : file.length ≤ fuel) : (readChunks size fuel file).flatten = file := by
  induction fuel generalizing file with
  | zero => simpa [readChunks] using (List.length_eq_zero_iff.mp (Nat.le_zero.mp enough)).symm
  | succ fuel ih =>
      cases file with
      | nil => rfl
      | cons item file =>
          have less : ((item :: file).drop size).length ≤ fuel := by
            rw [List.length_drop]
            rw [List.length_cons] at enough ⊢
            omega
          rw [readChunks, if_neg (by simp), List.flatten_cons, ih less, List.take_append_drop]

/-- An occurrence in two pieces lies in the first, or begins near its end. -/
theorem infix_append_near {pattern front back : List α} {overlap : Nat}
    (short : pattern.length ≤ overlap + 1) :
    pattern <:+: front ++ back ↔
      pattern <:+: front ∨ pattern <:+: ending overlap front ++ back := by
  constructor
  · rintro ⟨before, after, whole⟩
    by_cases early : before.length + pattern.length ≤ front.length
    · refine .inl ⟨before, front.drop (before.length + pattern.length), ?_⟩
      have start := congrArg (List.take front.length) whole
      rw [List.take_left] at start
      have ends : (before ++ pattern).length ≤ front.length := by rwa [List.length_append]
      rw [List.take_append, List.take_of_length_le ends] at start
      rw [← start, List.drop_append, List.drop_of_length_le (by rw [List.length_append])]
      simp
    · refine .inr ⟨(before.drop (front.length - overlap)), after, ?_⟩
      have start := congrArg (List.drop (front.length - overlap)) whole
      rw [List.append_assoc, List.drop_append_of_le_length (by omega),
        List.drop_append_of_le_length (by omega), ← List.append_assoc] at start
      exact start
  · rintro (inside | near)
    · exact inside.trans (List.infix_append' [] front back)
    · refine near.trans ⟨front.take (front.length - overlap), [], ?_⟩
      rw [ending, ← List.append_assoc, List.take_append_drop, List.append_nil]

private theorem ending_within (overlap : Nat) (chunk : List α) : ending overlap chunk <:+: chunk :=
  (List.drop_suffix _ _).isInfix

/-- The end of a long chunk does not reach beyond it. -/
theorem ending_append {overlap : Nat} {chunk : List α} (long : overlap ≤ chunk.length)
    (last : List α) : ending overlap (last ++ chunk) = ending overlap chunk := by
  have far : (last ++ chunk).length - overlap = last.length + (chunk.length - overlap) := by
    rw [List.length_append]
    omega
  rw [ending, ending, far, ← List.drop_drop, List.drop_left]

/-- The windows after the end of a chunk. -/
theorem exists_window_or_iff {pattern : List α} {size overlap : Nat} (positive : 0 < size)
    (fits : overlap ≤ size) (short : pattern.length ≤ overlap + 1) {fuel : Nat}
    {last file : List α} (enough : file.length ≤ fuel) :
    ((∃ window ∈ windows overlap last (readChunks size fuel file), pattern <:+: window) ∨
      pattern <:+: last) ↔ pattern <:+: last ++ file := by
  induction fuel generalizing last file with
  | zero =>
      rw [List.length_eq_zero_iff.mp (Nat.le_zero.mp enough)]
      simp [readChunks, windows]
  | succ fuel ih =>
      by_cases empty : file = []
      · subst empty
        simp [readChunks, windows]
      have long : 0 < file.length := List.length_pos_of_ne_nil empty
      have less : (file.drop size).length ≤ fuel := by
        rw [List.length_drop]
        omega
      have later := @ih (ending overlap (file.take size)) (file.drop size) less
      have unfolded : windows overlap last (readChunks size (fuel + 1) file) =
          (last ++ file.take size) :: windows overlap (ending overlap (file.take size))
            (readChunks size fuel (file.drop size)) := by
        rw [readChunks, if_neg (by simpa using empty), windows]
      rw [unfolded, List.exists_mem_cons_iff]
      have cut : last ++ file = (last ++ file.take size) ++ file.drop size := by
        rw [List.append_assoc, List.take_append_drop]
      constructor
      · rintro ((here | there) | before)
        · rw [cut]
          exact here.trans (List.infix_append' [] _ _)
        · have near := later.mp (.inl there)
          rw [cut]
          refine near.trans ⟨last ++
            (file.take size).take ((file.take size).length - overlap), [], ?_⟩
          rw [ending, List.append_nil, ← List.append_assoc, List.append_assoc last,
            List.take_append_drop]
        · exact before.trans (List.infix_append' [] _ _)
      · intro occurs
        rw [cut, infix_append_near short] at occurs
        rcases occurs with here | near
        · exact .inl (.inl here)
        by_cases done : file.drop size = []
        · rw [done, List.append_nil] at near
          exact .inl (.inl (near.trans (ending_within overlap _)))
        · have whole : overlap ≤ (file.take size).length := by
            have more := List.length_pos_of_ne_nil done
            rw [List.length_drop] at more
            rw [List.length_take]
            omega
          rw [ending_append whole] at near
          rcases later.mpr near with there | before
          · exact .inl (.inr there)
          · refine .inl (.inl (before.trans ((ending_within overlap _).trans ?_)))
            exact List.infix_append_right

/-- A window is a part of the file. -/
theorem infix_of_mem_windows {size overlap fuel : Nat} {last file window : List α}
    (member : window ∈ windows overlap last (readChunks size fuel file)) :
    window <:+: last ++ file := by
  induction fuel generalizing last file with
  | zero => cases member
  | succ fuel ih =>
      rw [readChunks] at member
      split at member
      · cases member
      · have cut : last ++ file = (last ++ file.take size) ++ file.drop size := by
          rw [List.append_assoc, List.take_append_drop]
        rw [cut]
        rcases List.mem_cons.mp member with rfl | later
        · exact List.infix_append' [] _ _
        · refine (ih later).trans ?_
          refine ⟨last ++ (file.take size).take ((file.take size).length - overlap), [], ?_⟩
          rw [ending, List.append_nil, ← List.append_assoc, List.append_assoc last,
            List.take_append_drop]

/-- **A short pattern occurs in a window exactly when it occurs in the file.** -/
theorem exists_window_iff {pattern : List α} {size overlap : Nat} (positive : 0 < size)
    (fits : overlap ≤ size) (short : pattern.length ≤ overlap + 1) (nonempty : pattern ≠ [])
    (file : List α) : (∃ window ∈ windows overlap [] (chunks size file), pattern <:+: window) ↔
      pattern <:+: file := by
  have all := @exists_window_or_iff α pattern size overlap positive fits short file.length [] file
    (Nat.le_refl _)
  rw [List.infix_nil, List.nil_append] at all
  simpa [nonempty, chunks] using all

end Windows
