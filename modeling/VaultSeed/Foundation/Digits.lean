import Mathlib.Data.Nat.Digits.Defs
import Mathlib.Tactic.Ring
import Mathlib.Tactic.Linarith

/-! # Regrouping bits

A stream of digits of one width is turned into digits of another width through a
reservoir of bits: every digit is poured in at the low end, and as long as there are
enough bits one digit is drained from the high end. What goes in and what comes out stand
for the same number, so regrouping there and back gives the digits again
(`Digits.regroup_completed`).
-/

namespace Digits

/-- The number that digits of a width stand for, the first one the highest. -/
def value (width : Nat) (digits : List Nat) : Nat := Nat.ofDigits (2 ^ width) digits.reverse

@[simp] theorem value_nil (width : Nat) : value width [] = 0 := rfl

/-- The first digit is the highest. -/
theorem value_cons (width digit : Nat) (digits : List Nat) :
    value width (digit :: digits) = digit * 2 ^ (width * digits.length) + value width digits := by
  rw [value, Nat.ofDigits_reverse_cons, ← pow_mul, value]
  ring

private theorem value_append (width : Nat) (first second : List Nat) :
    value width (first ++ second) =
      value width first * 2 ^ (width * second.length) + value width second := by
  rw [value, List.reverse_append, Nat.ofDigits_append, List.length_reverse, ← pow_mul, value, value]
  ring

/-- Digits are determined by their number and by the number they stand for. -/
theorem eq_of_value_eq {width : Nat} (positive : 0 < width) {first second : List Nat}
    (length : first.length = second.length) (firstSmall : ∀ digit ∈ first, digit < 2 ^ width)
    (secondSmall : ∀ digit ∈ second, digit < 2 ^ width)
    (same : value width first = value width second) : first = second := by
  have reversed : first.reverse = second.reverse := by
    refine Nat.ofDigits_inj_of_len_eq (Nat.one_lt_two_pow positive.ne') ?_ ?_ ?_ same
    · simpa using length
    · simpa using firstSmall
    · simpa using secondSmall
  exact List.reverse_inj.mp reversed

/-- Bits that wait to be drained: their number, and the number they stand for. -/
structure Reservoir where
  buffer : Nat
  bits : Nat

/-- A reservoir without bits. -/
def Reservoir.empty : Reservoir := ⟨0, 0⟩

/-- Drain digits of a width from the high end, at most `fuel` of them. -/
def drain (width : Nat) : Nat → Reservoir → List Nat × Reservoir
  | 0, reservoir => ([], reservoir)
  | fuel + 1, reservoir =>
      if width ≤ reservoir.bits then
        let left := reservoir.bits - width
        let rest := drain width fuel ⟨reservoir.buffer % 2 ^ left, left⟩
        (reservoir.buffer / 2 ^ left % 2 ^ width :: rest.1, rest.2)
      else ([], reservoir)

/-- Pour in one digit and drain what can be drained. -/
def pour (source target : Nat) (reservoir : Reservoir) (digit : Nat) : List Nat × Reservoir :=
  drain target (reservoir.bits + source)
    ⟨reservoir.buffer * 2 ^ source + digit, reservoir.bits + source⟩

/-- Pour in digits one after another. -/
def regroup (source target : Nat) : Reservoir → List Nat → List Nat × Reservoir
  | reservoir, [] => ([], reservoir)
  | reservoir, digit :: digits =>
      let first := pour source target reservoir digit
      let rest := regroup source target first.2 digits
      (first.1 ++ rest.1, rest.2)

/-- **What draining keeps**: the number and the bits, in small digits and a reservoir that
has less than one digit left. -/
structure Drained (width total bits : Nat) (output : List Nat) (reservoir : Reservoir) : Prop where
  value_eq : value width output * 2 ^ reservoir.bits + reservoir.buffer = total
  bits_eq : output.length * width + reservoir.bits = bits
  small : ∀ digit ∈ output, digit < 2 ^ width
  fits : reservoir.buffer < 2 ^ reservoir.bits
  short : reservoir.bits < width

private theorem drain_drained {width : Nat} (positive : 0 < width) {fuel : Nat}
    {reservoir : Reservoir}
    (enough : reservoir.bits ≤ fuel) (fits : reservoir.buffer < 2 ^ reservoir.bits) :
    Drained width reservoir.buffer reservoir.bits (drain width fuel reservoir).1
      (drain width fuel reservoir).2 := by
  induction fuel generalizing reservoir with
  | zero => exact ⟨by simp [drain], by simp [drain], nofun, fits, by simp only [drain]; omega⟩
  | succ fuel ih =>
      unfold drain
      by_cases more : width ≤ reservoir.bits
      · simp only [more, ↓reduceIte]
        generalize left : reservoir.bits - width = rest
        have split : 2 ^ reservoir.bits = 2 ^ rest * 2 ^ width := by
          rw [← pow_add]
          congr 1
          omega
        have high : reservoir.buffer / 2 ^ rest < 2 ^ width :=
          Nat.div_lt_of_lt_mul (split ▸ fits)
        have drained := @ih ⟨reservoir.buffer % 2 ^ rest, rest⟩ (by simp only; omega)
          (Nat.mod_lt _ (by positivity))
        refine ⟨?_, ?_, ?_, drained.fits, drained.short⟩
        · have bits := drained.bits_eq
          have number := drained.value_eq
          simp only at bits number
          rw [value_cons, Nat.mod_eq_of_lt high, Nat.add_mul, Nat.mul_assoc, ← pow_add,
            Nat.add_assoc, number, Nat.mul_comm width, bits]
          exact Nat.div_add_mod' _ _
        · have bits := drained.bits_eq
          simp only at bits
          rw [List.length_cons, Nat.add_mul, Nat.one_mul]
          omega
        · intro digit member
          rcases List.mem_cons.mp member with rfl | member
          · exact Nat.mod_lt _ (by positivity)
          · exact drained.small digit member
      · simp only [more, ↓reduceIte]
        exact ⟨by simp, by simp, nofun, fits, by omega⟩

/-- A digit that is poured in leaves what its number drains to. -/
theorem pour_drained {source target : Nat} (positive : 0 < target) {reservoir : Reservoir}
    {digit : Nat} (small : digit < 2 ^ source) (fits : reservoir.buffer < 2 ^ reservoir.bits) :
    Drained target (reservoir.buffer * 2 ^ source + digit) (reservoir.bits + source)
      (pour source target reservoir digit).1 (pour source target reservoir digit).2 := by
  have filled : reservoir.buffer * 2 ^ source + digit < 2 ^ (reservoir.bits + source) := by
    rw [pow_add]
    nlinarith
  exact @drain_drained target positive _ ⟨_, _⟩ (Nat.le_refl _) filled

/-- **What regrouping keeps.** -/
theorem regroup_drained {source target : Nat} (positive : 0 < target) (digits : List Nat)
    (small : ∀ digit ∈ digits, digit < 2 ^ source) {reservoir : Reservoir}
    (fits : reservoir.buffer < 2 ^ reservoir.bits) (short : reservoir.bits < target) :
    Drained target (reservoir.buffer * 2 ^ (source * digits.length) + value source digits)
      (reservoir.bits + source * digits.length) (regroup source target reservoir digits).1
      (regroup source target reservoir digits).2 := by
  induction digits generalizing reservoir with
  | nil => exact ⟨by simp [regroup], by simp [regroup], nofun, fits, short⟩
  | cons digit digits ih =>
      have digitSmall := small digit List.mem_cons_self
      have poured := pour_drained positive digitSmall fits
      have rest := ih (fun other member => small other (List.mem_cons_of_mem _ member)) poured.fits
        poured.short
      simp only [regroup]
      generalize pour source target reservoir digit = first at poured rest ⊢
      generalize regroup source target first.2 digits = last at rest ⊢
      refine ⟨?_, ?_, ?_, rest.fits, rest.short⟩
      · have aligned : 2 ^ (target * last.1.length) * 2 ^ last.2.bits =
            2 ^ first.2.bits * 2 ^ (source * digits.length) := by
          rw [← pow_add, ← pow_add, ← rest.bits_eq, Nat.mul_comm]
        rw [value_append, value_cons, List.length_cons, Nat.mul_succ, pow_add]
        calc (value target first.1 * 2 ^ (target * last.1.length) + value target last.1) *
              2 ^ last.2.bits + last.2.buffer
            = value target first.1 * (2 ^ (target * last.1.length) * 2 ^ last.2.bits) +
              (value target last.1 * 2 ^ last.2.bits + last.2.buffer) := by ring
          _ = (value target first.1 * 2 ^ first.2.bits + first.2.buffer) *
              2 ^ (source * digits.length) + value source digits := by
              rw [aligned, rest.value_eq]
              ring
          _ = (reservoir.buffer * 2 ^ source + digit) * 2 ^ (source * digits.length) +
              value source digits := by rw [poured.value_eq]
          _ = _ := by ring
      · have before := poured.bits_eq
        have after := rest.bits_eq
        rw [List.length_append, List.length_cons, Nat.add_mul, Nat.mul_succ]
        omega
      · intro other member
        rcases List.mem_append.mp member with member | member
        · exact poured.small other member
        · exact rest.small other member

private theorem regroup_append (source target : Nat) (reservoir : Reservoir)
    (first second : List Nat) :
    regroup source target reservoir (first ++ second) =
      let begun := regroup source target reservoir first
      let ended := regroup source target begun.2 second
      (begun.1 ++ ended.1, ended.2) := by
  induction first generalizing reservoir with
  | nil => rfl
  | cons digit first ih => simp only [List.cons_append, regroup, ih, List.append_assoc]

/-- After whole digits of the target width the reservoir is empty again. -/
theorem regroup_append_aligned {source target : Nat} (positive : 0 < target) {first : List Nat}
    (small : ∀ digit ∈ first, digit < 2 ^ source) (aligned : target ∣ source * first.length)
    (second : List Nat) :
    (regroup source target .empty (first ++ second)).1 =
      (regroup source target .empty first).1 ++ (regroup source target .empty second).1 := by
  have fitsEmpty : Reservoir.empty.buffer < 2 ^ Reservoir.empty.bits := Nat.one_pos
  obtain ⟨_, bits, _, fits, short⟩ := regroup_drained positive first small fitsEmpty positive
  have none : (regroup source target .empty first).2.bits = 0 := by
    obtain ⟨count, whole⟩ := aligned
    rw [whole, Reservoir.empty, Nat.zero_add, Nat.mul_comm] at bits
    have divides : target ∣ (regroup source target .empty first).2.bits :=
      (Nat.dvd_add_right (Dvd.intro _ rfl)).mp (bits ▸ Dvd.intro _ rfl)
    exact Nat.eq_zero_of_dvd_of_lt divides short
  have same : (regroup source target .empty first).2 = .empty := by
    rw [none] at fits
    generalize (regroup source target .empty first).2 = reservoir at none fits
    obtain ⟨buffer, bits⟩ := reservoir
    simp only at none fits
    rw [none, Reservoir.empty, show buffer = 0 by omega]
  simp only [regroup_append, same]

/-- The digits of a stream, the last one completed with zero bits. -/
def complete (source target : Nat) (digits : List Nat) : List Nat :=
  let grouped := regroup source target .empty digits
  grouped.1 ++
    if 0 < grouped.2.bits then
      [grouped.2.buffer * 2 ^ (target - grouped.2.bits) % 2 ^ target] else []

/-- Completed digits stand for the number, shifted by the padding. -/
theorem complete_spec {source target : Nat} (positive : 0 < target) {digits : List Nat}
    (small : ∀ digit ∈ digits, digit < 2 ^ source) :
    ∃ pad < target, value target (complete source target digits) = value source digits * 2 ^ pad ∧
      (complete source target digits).length * target = source * digits.length + pad ∧
      ∀ digit ∈ complete source target digits, digit < 2 ^ target := by
  have fitsEmpty : Reservoir.empty.buffer < 2 ^ Reservoir.empty.bits := Nat.one_pos
  have drained := regroup_drained positive digits small fitsEmpty positive
  unfold complete
  generalize regroup source target .empty digits = grouped at drained ⊢
  obtain ⟨number, bits, outputSmall, fits, short⟩ := drained
  simp only [Reservoir.empty, Nat.zero_mul, Nat.zero_add] at number bits
  by_cases some : 0 < grouped.2.bits
  · have split : 2 ^ target = 2 ^ grouped.2.bits * 2 ^ (target - grouped.2.bits) := by
      rw [← pow_add]
      congr 1
      omega
    have last : grouped.2.buffer * 2 ^ (target - grouped.2.bits) < 2 ^ target := by
      rw [split]
      exact Nat.mul_lt_mul_of_pos_right fits (by positivity)
    refine ⟨target - grouped.2.bits, by omega, ?_, ?_, ?_⟩
    · simp only [some, ↓reduceIte]
      rw [value_append, value_cons, value_nil, Nat.mod_eq_of_lt last, ← number]
      simp only [List.length_singleton, List.length_nil, Nat.mul_one, Nat.mul_zero, pow_zero,
        Nat.add_zero]
      rw [split]
      ring
    · simp only [some, ↓reduceIte]
      rw [List.length_append, List.length_singleton, Nat.add_mul, Nat.one_mul]
      omega
    · simp only [some, ↓reduceIte]
      intro digit member
      rcases List.mem_append.mp member with member | member
      · exact outputSmall digit member
      · rw [List.mem_singleton.mp member]
        exact Nat.mod_lt _ (by positivity)
  · have none : grouped.2.bits = 0 := by omega
    rw [none, pow_zero] at fits number
    simp only [some, ↓reduceIte, List.append_nil]
    exact ⟨0, positive, by omega, by omega, outputSmall⟩

/-- **Regrouping there and back** gives the digits again, when the completing bits are fewer
than a digit. -/
theorem regroup_complete {source target : Nat} (sourcePositive : 0 < source)
    (targetPositive : 0 < target) (narrow : target ≤ source) {digits : List Nat}
    (small : ∀ digit ∈ digits, digit < 2 ^ source) :
    (regroup target source .empty (complete source target digits)).1 = digits := by
  obtain ⟨pad, less, number, length, completeSmall⟩ := complete_spec targetPositive small
  have fitsEmpty : Reservoir.empty.buffer < 2 ^ Reservoir.empty.bits := Nat.one_pos
  have back := regroup_drained sourcePositive _ completeSmall fitsEmpty sourcePositive
  generalize regroup target source .empty (complete source target digits) = grouped at back ⊢
  obtain ⟨value_eq, bits_eq, outputSmall, fits, short⟩ := back
  simp only [Reservoir.empty, Nat.zero_mul, Nat.zero_add, number, Nat.mul_comm target, length]
    at value_eq bits_eq
  -- Both paddings are shorter than a digit, so they have the same length.
  have sameLength : grouped.1.length = digits.length := by
    by_contra different
    rcases Nat.lt_or_gt_of_ne different with fewer | more
    · nlinarith
    · nlinarith
  have samePad : grouped.2.bits = pad := by
    rw [sameLength, Nat.mul_comm] at bits_eq
    omega
  refine eq_of_value_eq sourcePositive sameLength outputSmall small ?_
  rw [samePad] at value_eq fits
  have : value source grouped.1 * 2 ^ pad ≤ value source digits * 2 ^ pad := by omega
  have upper := Nat.le_of_mul_le_mul_right this (by positivity)
  by_contra different
  have lower : value source grouped.1 + 1 ≤ value source digits := by omega
  nlinarith [Nat.mul_le_mul_right (2 ^ pad) lower]

end Digits
