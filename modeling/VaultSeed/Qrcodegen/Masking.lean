import VaultSeed.Qrcodegen.Encode

/-! # The choice of a mask

The loop over the masks in `qrcodegen.c` tries each on the same buffer, which keeps the format of
the one before. The mask it ends with is the one whose finished code has the least penalty, the
first of these when there are several (`VaultSeed.Qrcodegen.drawCode_least`).
-/

namespace VaultSeed.Qrcodegen

open Painting

variable {version : Nat} {ecl : Ecc} {data qrcode first second : List UInt8} {mask : Nat}

/-- The modules that the format is in. -/
def FormatModule (version : Nat) (cell : Nat × Nat) : Prop :=
  cell ∈ (List.range 15).map firstCopy ∨ cell ∈ (List.range 15).map (secondCopy (side version)) ∨
    cell = (8, side version - 8)

private theorem side_ge (version : Nat) : 17 ≤ side version := Nat.le_add_left 17 _

private theorem writes_firstCopy (bits : Nat) : ∀ i ∈ List.range 15,
    Writes (modules (side version)) (firstCopy i) (getBit bits i)
      fun qrcode => setModule qrcode (firstCopy i).1 (firstCopy i).2 (getBit bits i) := by
  intro i member
  obtain ⟨column, row⟩ := firstCopy_inside i (List.mem_range.mp member)
  have large := side_ge version
  have left : (firstCopy i).1 < side version := by omega
  have top : (firstCopy i).2 < side version := by omega
  exact writes_setModule left top _

private theorem writes_secondCopy (bits : Nat) : ∀ i ∈ List.range 15,
    Writes (modules (side version)) (secondCopy (side version) i) (getBit bits i)
      fun qrcode => setModule qrcode (secondCopy (side version) i).1
        (secondCopy (side version) i).2 (getBit bits i) := by
  intro i member
  have large := side_ge version
  rcases secondCopy_inside large (List.mem_range.mp member) with
    ⟨right, column, row⟩ | ⟨column, bottom, row⟩
  · have top : (secondCopy (side version) i).2 < side version := by omega
    exact writes_setModule right top _
  · have left : (secondCopy (side version) i).1 < side version := by omega
    exact writes_setModule left bottom _

private theorem writes_black (version : Nat) :
    Writes (modules (side version)) (8, side version - 8) true
    fun qrcode => setModule qrcode 8 (side version - 8) true := by
  have large := side_ge version
  exact writes_setModule (by omega) (by omega) true

/-- Drawing the format makes two codes alike that are alike but for their formats. -/
theorem alike_drawFormatBits
    (alike : Alike (modules (side version)) (fun cell => ¬FormatModule version cell) first second) :
    Alike (modules (side version)) (fun _ => True) (drawFormatBits ecl mask first)
      (drawFormatBits ecl mask second) := by
  have near := alike_foldl (writes_firstCopy (formatBits ecl mask)) alike
  have far := alike_foldl (writes_secondCopy (formatBits ecl mask)) near
  have all := (writes_black version).alike far
  rw [drawFormatBits_good alike.left, drawFormatBits_good alike.right]
  refine ⟨all.left, all.right, fun cell inside _ => all.same cell inside ?_⟩
  by_cases format : FormatModule version cell
  · rcases format with near | far | black
    · exact .inl (.inl (.inr near))
    · exact .inl (.inr far)
    · exact .inr black
  · exact .inl (.inl (.inl format))

/-- The format is drawn on its modules. -/
theorem within_formatModules (ecl : Ecc) (mask : Nat) :
    Within (modules (side version)) (FormatModule version) (drawFormatBits ecl mask) := by
  intro qrcode good
  have near : Within (modules (side version)) (FormatModule version)
      (drawCopy firstCopy (formatBits ecl mask)) :=
    Within.foldl fun i member =>
      (writes_firstCopy _ i member).within (.inl (List.mem_map_of_mem member))
  have far : Within (modules (side version)) (FormatModule version)
      (drawCopy (secondCopy (side version)) (formatBits ecl mask)) :=
    Within.foldl fun i member =>
      (writes_secondCopy _ i member).within (.inr (.inl (List.mem_map_of_mem member)))
  have black : Within (modules (side version)) (FormatModule version)
      fun qrcode => setModule qrcode 8 (side version - 8) true :=
    (writes_black version).within (.inr (.inr rfl))
  rw [drawFormatBits_good good]
  exact ((near.comp far).comp black) qrcode good

/-- A code with a mask and its format. -/
def finished (version : Nat) (ecl : Ecc) (mask : Nat) (qrcode : List UInt8) : List UInt8 :=
  drawFormatBits ecl mask (applyMask (initializeFunctionModules version) qrcode mask)

/-- Two codes that are alike but for their formats are finished alike. -/
theorem alike_finished (most : version ≤ 40)
    (alike : Alike (modules (side version)) (fun cell => ¬FormatModule version cell) first second) :
    Alike (modules (side version)) (fun _ => True) (finished version ecl mask first)
      (finished version ecl mask second) :=
  alike_drawFormatBits ((flips_applyMask most mask).alike alike)

private theorem penalty_finished (ecl : Ecc) (mask : Nat) (most : version ≤ 40)
    (alike : Alike (modules (side version)) (fun cell => ¬FormatModule version cell) first second) :
    getPenaltyScore (finished version ecl mask first) =
      getPenaltyScore (finished version ecl mask second) := by
  have same : Alike _ _ (finished version ecl mask first) (finished version ecl mask second) :=
    alike_finished most alike
  have size : getSize (finished version ecl mask first) = side version := same.left.2
  have sizeAlso : getSize (finished version ecl mask second) = side version := same.right.2
  refine getPenaltyScore_congr (size.trans sizeAlso.symm) fun x column y row => ?_
  exact same.same (x, y) ⟨size ▸ column, size ▸ row⟩ trivial

/-- A turn of the choice changes nothing but the format. -/
theorem alike_turn (most : version ≤ 40) (chosen : Chosen) (msk : Nat)
    (alike : Alike (modules (side version)) (fun cell => ¬FormatModule version cell)
      chosen.qrcode qrcode) :
    Alike (modules (side version)) (fun cell => ¬FormatModule version cell)
      (chosen.turn (initializeFunctionModules version) ecl msk).qrcode qrcode := by
  obtain ⟨maskedGood, flipped⟩ := flips_applyMask most msk chosen.qrcode alike.left
  obtain ⟨drawnGood, kept⟩ := within_formatModules ecl msk _ maskedGood
  obtain ⟨lastGood, back⟩ := flips_applyMask most msk _ drawnGood
  rw [Chosen.turn_qrcode]
  refine ⟨lastGood, alike.right, fun cell inside outside => ?_⟩
  rw [back cell inside, kept cell inside outside, flipped cell inside, Bool.xor_assoc,
    Bool.xor_self, Bool.xor_false, alike.same cell inside outside]

/-- What the choice knows after the masks below a count. -/
structure Best (version : Nat) (ecl : Ecc) (qrcode : List UInt8) (count : Nat) (chosen : Chosen) :
    Prop where
  alike : Alike (modules (side version)) (fun cell => ¬FormatModule version cell)
    chosen.qrcode qrcode
  none : chosen.mask = none → count = 0 ∧ chosen.minPenalty = longMax
  some : ∀ m, chosen.mask = some m → m < count ∧
    chosen.minPenalty = getPenaltyScore (finished version ecl m qrcode) ∧
    (∀ other < count, getPenaltyScore (finished version ecl m qrcode) ≤
      getPenaltyScore (finished version ecl other qrcode)) ∧
    ∀ other < m, getPenaltyScore (finished version ecl m qrcode) <
      getPenaltyScore (finished version ecl other qrcode)

private theorem Best.turn (most : version ≤ 40) {count : Nat} {chosen : Chosen}
    (best : Best version ecl qrcode count chosen) :
    Best version ecl qrcode (count + 1)
      (chosen.turn (initializeFunctionModules version) ecl count) := by
  have penalty : getPenaltyScore (drawFormatBits ecl count
      (applyMask (initializeFunctionModules version) chosen.qrcode count)) =
        getPenaltyScore (finished version ecl count qrcode) :=
    penalty_finished ecl count most best.alike
  refine ⟨alike_turn most chosen count best.alike, ?_, ?_⟩
  · intro missing
    obtain ⟨-, found⟩ := Chosen.turn_mask (initializeFunctionModules version) ecl chosen count
      fun missing => (best.none missing).2
    exact absurd missing found
  · intro m found
    rw [Chosen.turn] at found ⊢
    dsimp only at found ⊢
    rw [penalty] at found ⊢
    by_cases better : getPenaltyScore (finished version ecl count qrcode) < chosen.minPenalty
    · rw [if_pos (decide_eq_true better)] at found ⊢
      obtain rfl := Option.some.inj found
      have before : ∀ other < count, getPenaltyScore (finished version ecl count qrcode) <
          getPenaltyScore (finished version ecl other qrcode) := by
        intro other less
        cases held : chosen.mask with
        | none => exact absurd less ((best.none held).1 ▸ Nat.not_lt_zero other)
        | some earlier =>
            obtain ⟨-, least, most, -⟩ := best.some earlier held
            rw [least] at better
            exact better.trans_le (most other less)
      refine ⟨Nat.lt_succ_self count, rfl, fun other less => ?_, before⟩
      rcases Nat.lt_succ_iff_lt_or_eq.mp less with earlier | rfl
      · exact (before other earlier).le
      · exact Int.le_refl _
    · rw [if_neg (mt of_decide_eq_true better)] at found ⊢
      obtain ⟨bound, least, all, strict⟩ := best.some m found
      refine ⟨Nat.lt_succ_of_lt bound, least, fun other less => ?_, strict⟩
      rcases Nat.lt_succ_iff_lt_or_eq.mp less with earlier | rfl
      · exact all other earlier
      · rw [← least]
        exact Int.not_lt.mp better

/-- The turns of the choice know the best mask so far. -/
theorem best_turns (ecl : Ecc) (most : version ≤ 40)
    (good : (modules (side version)).good qrcode) (count : Nat) :
    Best version ecl qrcode count ((List.range count).foldl
      (Chosen.turn (initializeFunctionModules version) ecl) ⟨qrcode, none, longMax⟩) := by
  induction count with
  | zero =>
      refine ⟨⟨good, good, fun _ _ _ => rfl⟩, fun _ => ⟨rfl, rfl⟩, fun m missing => ?_⟩
      cases missing
  | succ count ih =>
      rw [List.range_succ, List.foldl_append]
      exact ih.turn most

private theorem drawCode_some (mask : Nat) : drawCode data version ecl (some mask) =
    some (finished version ecl mask (drawnData data version ecl)) := rfl

private theorem drawCode_none : drawCode data version ecl none =
    ((List.range 8).foldl (Chosen.turn (initializeFunctionModules version) ecl)
      ⟨drawnData data version ecl, none, longMax⟩).mask.map fun mask =>
        finished version ecl mask ((List.range 8).foldl
          (Chosen.turn (initializeFunctionModules version) ecl)
          ⟨drawnData data version ecl, none, longMax⟩).qrcode := rfl

/-- The mask that is chosen has the least penalty, and is the first one that does. -/
theorem Chooses.least (most : version ≤ 40) (chooses : Chooses data version ecl none mask)
    (drawn : drawCode data version ecl none = some qrcode) :
    mask < 8 ∧ Alike (modules (side version)) (fun _ => True) qrcode
        (finished version ecl mask (drawnData data version ecl)) ∧
      ∀ other < 8, ∀ found, drawCode data version ecl (some other) = some found →
        getPenaltyScore qrcode ≤ getPenaltyScore found ∧
          (other < mask → getPenaltyScore qrcode < getPenaltyScore found) := by
  have best := best_turns ecl most (drawnData_good data ecl most) 8
  rw [drawCode_none] at drawn
  obtain ⟨m, held, rfl⟩ := Option.map_eq_some_iff.mp drawn
  obtain rfl : m = mask := Option.some.inj (held.symm.trans chooses)
  obtain ⟨small, -, least, first⟩ := best.some m held
  refine ⟨small, alike_finished most best.alike, fun other less found asked => ?_⟩
  rw [drawCode_some] at asked
  obtain rfl := Option.some.inj asked
  rw [penalty_finished ecl m most best.alike]
  exact ⟨least other less, first other⟩

/-- **The mask that is chosen** has the least penalty, and is the first one that does: the code is
the one that is drawn when this mask is asked for. -/
theorem drawCode_least (most : version ≤ 40)
    (drawn : drawCode data version ecl none = some qrcode) :
    ∃ m < 8, ∃ asked, drawCode data version ecl (some m) = some asked ∧
      getSize qrcode = getSize asked ∧
      (∀ x < side version, ∀ y < side version, getModule qrcode x y = getModule asked x y) ∧
      ∀ other < 8, ∀ found, drawCode data version ecl (some other) = some found →
        getPenaltyScore qrcode ≤ getPenaltyScore found ∧
          (other < m → getPenaltyScore qrcode < getPenaltyScore found) := by
  have held := drawn
  rw [drawCode_none] at held
  obtain ⟨m, chosen, -⟩ := Option.map_eq_some_iff.mp held
  have chooses : Chooses data version ecl none m := by
    rw [Chooses, chooseMask]
    exact chosen
  obtain ⟨small, same, least⟩ := Chooses.least most chooses drawn
  exact ⟨m, small, _, drawCode_some m, same.left.2.trans same.right.2.symm,
    fun x column y row => same.same (x, y) ⟨column, row⟩ trivial, least⟩

/-- A code of the least version. -/
theorem drawCode_least_one : ∃ qrcode, drawCode (List.replicate 19 0) 1 .low none = some qrcode ∧
    ∃ m < 8, ∃ asked, drawCode (List.replicate 19 0) 1 .low (some m) = some asked ∧
      getSize qrcode = getSize asked ∧
      (∀ x < side 1, ∀ y < side 1, getModule qrcode x y = getModule asked x y) ∧
      ∀ other < 8, ∀ found, drawCode (List.replicate 19 0) 1 .low (some other) = some found →
        getPenaltyScore qrcode ≤ getPenaltyScore found ∧
          (other < m → getPenaltyScore qrcode < getPenaltyScore found) := by
  have codes : ∃ m < 8, _ ∧ ∃ qrcode, drawCode (List.replicate 19 0) 1 .low none = some qrcode ∧
    _ :=
    drawCode_spec (by decide) (List.replicate 19 0) .low fun _ missing => by cases missing
  obtain ⟨-, -, -, qrcode, drawn, -⟩ := codes
  exact ⟨qrcode, drawn, drawCode_least (by decide) drawn⟩

end VaultSeed.Qrcodegen
