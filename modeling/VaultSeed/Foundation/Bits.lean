import VaultSeed.Foundation.Digits
import Mathlib.Data.List.Induction

/-! # Streams of bits

Digits of a width are spelled as bits, the high one first, and bits are read in groups of a
width. What regrouping digits does to the number they stand for it does to their bits: the
completed digits are the groups of the bits (`Bits.complete_eq_groups`), and draining loses
none (`Bits.spell_regroup`).
-/

namespace Bits

open Digits

/-- The bits of a digit, the high one first. -/
def ofDigit : Nat → Nat → List Bool
  | 0, _ => []
  | width + 1, digit => ofDigit width (digit / 2) ++ [digit % 2 == 1]

/-- The number that bits stand for, the high one first. -/
def number (bits : List Bool) : Nat := bits.foldl (fun sofar bit => 2 * sofar + bit.toNat) 0

/-- The bits of digits of a width. -/
def spell (width : Nat) (digits : List Nat) : List Bool := digits.flatMap (ofDigit width)

/-- Fill up bits with zeros to a width. -/
def fill (width : Nat) (bits : List Bool) : List Bool :=
  bits ++ List.replicate (width - bits.length) false

/-- The first groups of a width; what is missing counts as zero. -/
def groupsOf (width : Nat) : Nat → List Bool → List Nat
  | 0, _ => []
  | count + 1, bits => number (fill width (bits.take width)) ::
      groupsOf width count (bits.drop width)

/-- Bits in groups of a width, the last one filled up with zeros. -/
def groups (width : Nat) (bits : List Bool) : List Nat :=
  groupsOf width ((bits.length + width - 1) / width) bits

section Numbers

variable {width : Nat} {bits first second : List Bool}

/-- A digit has as many bits as it is wide. -/
@[simp] theorem length_ofDigit (width digit : Nat) : (ofDigit width digit).length = width := by
  induction width generalizing digit with
  | zero => rfl
  | succ width ih => rw [ofDigit, List.length_append, ih, List.length_singleton]

/-- One more bit doubles the number. -/
theorem number_concat (bits : List Bool) (bit : Bool) :
    number (bits ++ [bit]) = 2 * number bits + bit.toNat := by
  rw [number, List.foldl_append, List.foldl_cons, List.foldl_nil, number]

/-- The number of bits one after another. -/
theorem number_append (first second : List Bool) :
    number (first ++ second) = number first * 2 ^ second.length + number second := by
  induction second using List.reverseRecOn with
  | nil => simp [number]
  | append_singleton second bit ih =>
      rw [← List.append_assoc, number_concat, ih, number_concat, List.length_append,
        List.length_singleton, pow_succ]
      ring

@[simp] theorem number_replicate (count : Nat) : number (List.replicate count false) = 0 := by
  induction count with
  | zero => rfl
  | succ count ih =>
      rw [List.replicate_succ', number_concat, ih]
      rfl

/-- The bits of a digit are its low bits. -/
theorem number_ofDigit (width digit : Nat) : number (ofDigit width digit) = digit % 2 ^ width := by
  induction width generalizing digit with
  | zero => rw [ofDigit, pow_zero, Nat.mod_one]; rfl
  | succ width ih =>
      rw [ofDigit, number_concat, ih, pow_succ, Nat.mul_comm _ 2, Nat.mod_mul]
      have bit : (digit % 2 == 1).toNat = digit % 2 := by
        rcases Nat.mod_two_eq_zero_or_one digit with zero | one
        · rw [zero]
          rfl
        · rw [one]
          rfl
      rw [bit, Nat.add_comm]

private theorem ofDigit_number (bits : List Bool) : ofDigit bits.length (number bits) = bits := by
  induction bits using List.reverseRecOn with
  | nil => rfl
  | append_singleton bits bit ih =>
      rw [List.length_append, List.length_singleton, ofDigit, number_concat]
      have half : (2 * number bits + bit.toNat) / 2 = number bits := by
        cases bit <;> simp only [Bool.toNat_false, Bool.toNat_true] <;> omega
      have low : ((2 * number bits + bit.toNat) % 2 == 1) = bit := by
        cases bit <;> simp
      rw [half, low, ih]

/-- Bits are a number below a power of two. -/
theorem number_lt (bits : List Bool) : number bits < 2 ^ bits.length := by
  have mod := number_ofDigit bits.length (number bits)
  rw [ofDigit_number] at mod
  rw [mod]
  exact Nat.mod_lt _ (by positivity)

/-- The high bits of a number. -/
theorem number_take (count : Nat) (bits : List Bool) :
    number (bits.take count) = number bits / 2 ^ (bits.length - count) := by
  have whole := number_append (bits.take count) (bits.drop count)
  have low := number_lt (bits.drop count)
  rw [List.take_append_drop] at whole
  rw [List.length_drop] at whole low
  rw [whole, Nat.mul_comm, Nat.mul_add_div (by positivity), Nat.div_eq_of_lt low, Nat.add_zero]

/-- The low bits of a number. -/
theorem number_drop (count : Nat) (bits : List Bool) :
    number (bits.drop count) = number bits % 2 ^ (bits.length - count) := by
  have whole := number_append (bits.take count) (bits.drop count)
  have low := number_lt (bits.drop count)
  rw [List.take_append_drop] at whole
  rw [List.length_drop] at whole low
  rw [whole, Nat.mul_add_mod_self_right, Nat.mod_eq_of_lt low]

/-- The bits of a digit, from the high one. -/
theorem getElem?_ofDigit {index : Nat} (inside : index < width) (digit : Nat) :
    (ofDigit width digit)[index]? = some (digit.testBit (width - 1 - index)) := by
  induction width generalizing digit with
  | zero => cases inside
  | succ width ih =>
      rw [ofDigit]
      by_cases last : index = width
      · have bit : (digit % 2 == 1) = digit.testBit 0 := by
          rw [Nat.testBit_zero]
          rfl
        rw [List.getElem?_append_right (by rw [length_ofDigit]; omega), length_ofDigit, last,
          Nat.sub_self, Nat.add_sub_cancel, Nat.sub_self, ← bit]
        rfl
      · have before : index < width := by omega
        rw [List.getElem?_append_left (by rw [length_ofDigit]; exact before), ih before,
          ← Nat.testBit_add_one]
        congr 2
        omega

/-- Bits are determined by their count and their number. -/
theorem eq_of_number_eq (length : first.length = second.length)
    (same : number first = number second) : first = second := by
  rw [← ofDigit_number first, ← ofDigit_number second, length, same]

end Numbers

section Spelling

variable {width : Nat} {digits first second : List Nat}

/-- Digits are spelled one after another. -/
theorem spell_append (width : Nat) (first second : List Nat) :
    spell width (first ++ second) = spell width first ++ spell width second :=
  List.flatMap_append

/-- Spelled digits have the same number of bits each. -/
@[simp] theorem length_spell (width : Nat) (digits : List Nat) :
    (spell width digits).length = digits.length * width := by
  induction digits with
  | nil => simp [spell]
  | cons digit digits ih =>
      rw [spell] at ih ⊢
      rw [List.flatMap_cons, List.length_append, ih, length_ofDigit, List.length_cons]
      ring

/-- The bits of digits, by the digit and its bit. -/
theorem getElem?_spell {digit position offset : Nat} (found : digits[position]? = some digit)
    (inside : offset < width) :
    (spell width digits)[position * width + offset]? =
      some (digit.testBit (width - 1 - offset)) := by
  induction digits generalizing position with
  | nil => cases found
  | cons first digits ih =>
      change (ofDigit width first ++ spell width digits)[_]? = _
      cases position with
      | zero =>
          cases found
          rw [Nat.zero_mul, Nat.zero_add,
            List.getElem?_append_left (by rw [length_ofDigit]; exact inside),
            getElem?_ofDigit inside]
      | succ position =>
          rw [List.getElem?_cons_succ] at found
          rw [List.getElem?_append_right (by rw [length_ofDigit, Nat.succ_mul]; omega),
            length_ofDigit, Nat.succ_mul, ← ih found]
          congr 1
          omega

/-- The number of the bits of digits is the number of the digits. -/
theorem number_spell (small : ∀ digit ∈ digits, digit < 2 ^ width) :
    number (spell width digits) = value width digits := by
  induction digits with
  | nil => rfl
  | cons digit digits ih =>
      have rest := ih fun other member => small other (List.mem_cons_of_mem _ member)
      have first := Nat.mod_eq_of_lt (small digit List.mem_cons_self)
      rw [value_cons, ← rest]
      change number (ofDigit width digit ++ spell width digits) = _
      rw [number_append, number_ofDigit, first, length_spell, Nat.mul_comm digits.length]

/-- Digits are determined by their bits. -/
theorem eq_of_spell_eq (positive : 0 < width) (firstSmall : ∀ digit ∈ first, digit < 2 ^ width)
    (secondSmall : ∀ digit ∈ second, digit < 2 ^ width)
    (same : spell width first = spell width second) : first = second := by
  have length := congrArg List.length same
  rw [length_spell, length_spell] at length
  refine eq_of_value_eq positive (Nat.eq_of_mul_eq_mul_right positive length) firstSmall
    secondSmall ?_
  rw [← number_spell firstSmall, ← number_spell secondSmall, same]

end Spelling

section Groups

variable {width : Nat} {bits : List Bool}

@[simp] theorem length_fill (short : bits.length ≤ width) : (fill width bits).length = width := by
  rw [fill, List.length_append, List.length_replicate]
  omega

/-- There are as many groups as were asked for. -/
@[simp] theorem length_groupsOf (width count : Nat) (bits : List Bool) :
    (groupsOf width count bits).length = count := by
  induction count generalizing bits with
  | zero => rfl
  | succ count ih => rw [groupsOf, List.length_cons, ih]

private theorem groupsOf_lt (count : Nat) (bits : List Bool) :
    ∀ digit ∈ groupsOf width count bits, digit < 2 ^ width := by
  induction count generalizing bits with
  | zero => exact nofun
  | succ count ih =>
      have first := number_lt (fill width (bits.take width))
      rw [length_fill (List.length_take_le _ _)] at first
      exact List.forall_mem_cons.mpr ⟨first, ih _⟩

/-- The bits of groups are the bits, filled up with zeros. -/
theorem spell_groupsOf {count : Nat} (enough : bits.length ≤ count * width) :
    spell width (groupsOf width count bits) = fill (count * width) bits := by
  induction count generalizing bits with
  | zero =>
      rw [Nat.zero_mul] at enough
      rw [List.length_eq_zero_iff.mp (Nat.le_zero.mp enough)]
      simp [groupsOf, spell, fill]
  | succ count ih =>
      have rest : (bits.drop width).length ≤ count * width := by
        rw [List.length_drop]
        rw [Nat.succ_mul] at enough
        omega
      have first := ofDigit_number (fill width (bits.take width))
      rw [length_fill (List.length_take_le _ _)] at first
      have later := ih rest
      rw [groupsOf]
      change ofDigit width (number (fill width (bits.take width))) ++ spell width _ = _
      rw [first, later, fill, fill, fill, List.length_take, List.length_drop, Nat.succ_mul]
      by_cases long : width ≤ bits.length
      · rw [Nat.min_eq_left long, Nat.sub_self, List.replicate_zero, List.append_nil,
          ← List.append_assoc, List.take_append_drop]
        congr 2
        omega
      · rw [List.take_of_length_le (by omega), List.drop_of_length_le (by omega), List.nil_append,
          Nat.min_eq_right (by omega), List.append_assoc, List.replicate_append_replicate]
        congr 2
        omega

/-- The number of groups. -/
theorem length_le_groups (positive : 0 < width) (length : Nat) :
    length ≤ (length + width - 1) / width * width ∧
      (length + width - 1) / width * width < length + width := by
  have whole := Nat.lt_div_mul_add positive (a := length + width - 1)
  have below := Nat.div_mul_le_self (length + width - 1) width
  omega

/-- Spelled groups are the bits they were made of, filled up with zeros. -/
theorem spell_groups (positive : 0 < width) (bits : List Bool) :
    spell width (groups width bits) =
      fill ((bits.length + width - 1) / width * width) bits :=
  spell_groupsOf (length_le_groups positive _).1

/-- Groups by their positions. -/
theorem groupsOf_eq_map (width count : Nat) (bits : List Bool) :
    groupsOf width count bits = (List.range count).map fun position =>
      number (fill width ((bits.drop (position * width)).take width)) := by
  induction count generalizing bits with
  | zero => rfl
  | succ count ih =>
      rw [groupsOf, ih, List.range_succ_eq_map, List.map_cons, List.map_map, Nat.zero_mul,
        List.drop_zero]
      refine congrArg _ (List.map_congr_left fun position _ => ?_)
      rw [List.drop_drop, Function.comp_apply, Nat.succ_mul, Nat.add_comm]

/-- Whole groups have the bits and no others. -/
theorem spell_groups_of_dvd (positive : 0 < width) (whole : width ∣ bits.length) :
    spell width (groups width bits) = bits := by
  obtain ⟨count, length⟩ := whole
  have ceiling : (bits.length + width - 1) / width = count := by
    rw [length, Nat.add_sub_assoc positive, Nat.mul_add_div positive,
      Nat.div_eq_of_lt (Nat.sub_lt positive Nat.one_pos), Nat.add_zero]
  rw [spell_groups positive, ceiling, fill, length, Nat.mul_comm, Nat.sub_self,
    List.replicate_zero, List.append_nil]

/-- A group is a digit. -/
theorem groups_lt (width : Nat) (bits : List Bool) :
    ∀ digit ∈ groups width bits, digit < 2 ^ width := groupsOf_lt _ _

/-- Digits are the groups of their bits. -/
theorem groups_spell {digits : List Nat} (positive : 0 < width)
    (small : ∀ digit ∈ digits, digit < 2 ^ width) : groups width (spell width digits) = digits := by
  have whole : width ∣ (spell width digits).length := by
    rw [length_spell]
    exact Dvd.intro_left _ rfl
  exact eq_of_spell_eq positive (groups_lt _ _) small (spell_groups_of_dvd positive whole)

/-- A last group stands after whole ones. -/
theorem groups_append {front pending : List Bool} (whole : width ∣ front.length)
    (some : 0 < pending.length) (short : pending.length ≤ width) :
    groups width (front ++ pending) = groups width front ++ [number (fill width pending)] := by
  have positive : 0 < width := Nat.lt_of_lt_of_le some short
  have last := number_lt (fill width pending)
  have digit := ofDigit_number (fill width pending)
  rw [length_fill short] at last digit
  have small : ∀ digit ∈ groups width front ++ [number (fill width pending)],
      digit < 2 ^ width := by
    intro digit member
    rcases List.mem_append.mp member with earlier | later
    · exact groups_lt _ _ digit earlier
    · rw [List.mem_singleton.mp later]
      exact last
  refine eq_of_spell_eq positive (groups_lt _ _) small ?_
  obtain ⟨count, length⟩ := whole
  have ceiling : (count * width + pending.length + width - 1) / width = count + 1 := by
    rw [Nat.div_eq_iff positive, Nat.succ_mul]
    omega
  rw [spell_append, spell_groups_of_dvd positive (Dvd.intro _ length.symm), spell_groups positive,
    List.length_append, length, Nat.mul_comm width, ceiling]
  change _ = front ++ (ofDigit width (number (fill width pending)) ++ [])
  rw [digit, List.append_nil, fill, fill, List.append_assoc, List.length_append, length,
    Nat.succ_mul, Nat.mul_comm width, Nat.add_sub_add_left]

/-- A bit more, in a group that is not full. -/
theorem number_fill_concat {pending : List Bool} (short : pending.length < width) (bit : Bool) :
    number (fill width (pending ++ [bit])) =
      number (fill width pending) ||| bit.toNat <<< (width - 1 - pending.length) := by
  have room : width - pending.length = width - 1 - pending.length + 1 := by omega
  have rest : width - (pending ++ [bit]).length = width - 1 - pending.length := by
    rw [List.length_append, List.length_singleton]
    omega
  have low : bit.toNat * 2 ^ (width - 1 - pending.length) <
      2 ^ (width - 1 - pending.length + 1) := by
    have one := Nat.mul_le_mul_right (2 ^ (width - 1 - pending.length)) (Bool.toNat_le bit)
    have positive := Nat.two_pow_pos (width - 1 - pending.length)
    rw [pow_succ]
    omega
  rw [fill, fill, number_append (pending ++ [bit]), number_append pending (List.replicate _ _),
    number_replicate, number_replicate, Nat.add_zero, Nat.add_zero, List.length_replicate,
    List.length_replicate, number_concat, rest, room, Nat.shiftLeft_eq,
    Nat.mul_comm (number pending), ← Nat.two_pow_add_eq_or_of_lt low, pow_succ]
  ring

end Groups

section Regrouping

variable {source target : Nat} {digits : List Nat}

/-- **The completed digits are the groups of the bits.** -/
theorem complete_eq_groups (positive : 0 < target) (small : ∀ digit ∈ digits, digit < 2 ^ source) :
    complete source target digits = groups target (spell source digits) := by
  obtain ⟨pad, less, number_eq, length, completeSmall⟩ := complete_spec positive small
  obtain ⟨enough, close⟩ := length_le_groups positive (spell source digits).length
  have bits := length_spell source digits
  refine eq_of_spell_eq positive completeSmall (groups_lt _ _) ?_
  rw [spell_groups positive]
  -- Both are the bits and fewer zeros than a group has bits.
  have count : (complete source target digits).length =
      ((spell source digits).length + target - 1) / target := by
    rw [bits] at enough close ⊢
    rw [Nat.mul_comm source] at length
    by_contra differ
    rcases Nat.lt_or_gt_of_ne differ with fewer | more
    · have step := Nat.mul_le_mul_right target (Nat.succ_le_of_lt fewer)
      rw [Nat.succ_mul] at step
      omega
    · have step := Nat.mul_le_mul_right target (Nat.succ_le_of_lt more)
      rw [Nat.succ_mul] at step
      omega
  have padding : ((spell source digits).length + target - 1) / target * target -
      (spell source digits).length = pad := by
    rw [← count, length, bits, Nat.mul_comm source]
    omega
  apply eq_of_number_eq
  · rw [length_spell, length_fill enough, count]
  · rw [number_spell completeSmall, number_eq, fill, padding, number_append, number_spell small,
      List.length_replicate, number_replicate, Nat.add_zero]

/-- **Draining loses no bit**: what was drained and what is left are what was poured in. -/
theorem spell_regroup (positive : 0 < target) (small : ∀ digit ∈ digits, digit < 2 ^ source) :
    spell target (regroup source target .empty digits).1 ++
        ofDigit (regroup source target .empty digits).2.bits
          (regroup source target .empty digits).2.buffer =
      spell source digits := by
  have fitsEmpty : Reservoir.empty.buffer < 2 ^ Reservoir.empty.bits := Nat.one_pos
  have drained := regroup_drained positive digits small fitsEmpty positive
  generalize regroup source target .empty digits = grouped at drained ⊢
  obtain ⟨value_eq, bits_eq, outputSmall, fits, _⟩ := drained
  simp only [Reservoir.empty, Nat.zero_mul, Nat.zero_add] at value_eq bits_eq
  apply eq_of_number_eq
  · rw [List.length_append, length_spell, length_ofDigit, length_spell, bits_eq, Nat.mul_comm]
  · rw [number_append, number_spell outputSmall, number_ofDigit, length_ofDigit,
      Nat.mod_eq_of_lt fits, value_eq, number_spell small]

end Regrouping

end Bits
