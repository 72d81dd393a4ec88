import VaultSeed.Qr.Animation
import Mathlib.Algebra.Order.Floor.Div

/-! # What fits in a QR code

`find_min_num_parts` reserves six or eight characters for the header of a `p%dof%d` part and eight
for that of a BBQr part, and cuts the data evenly. From a hundred parts on a header of the first
kind is longer than what was reserved; the last BBQr part takes the remainder of the division.
Whether every string that is shown fits is therefore decided by the length of the data and the
capacity alone (`toQrCodes_fits_iff`).
-/

namespace VaultSeed.Qr

open Python Effect

/-- `Display.qr_data_width`, for the width of a screen. -/
def qrDataWidth (width : Nat) : Nat :=
  if 300 < width then width / 6
  else if 200 < width then width / 5
  else width / 4

/-- `max_qr_bytes(max_width, encoding)`, with the encoding of the format. -/
def capacityFor (maxWidth : Int) : Shown → Nat
  | .bbqr _ => maxQrBytes maxWidth qrCapacityAlphanumeric
  | _ => maxQrBytes maxWidth qrCapacityByte

/-- Every string that is shown fits. -/
def PartsFit (maxWidth : Int) (shown : Shown) : Prop :=
  ∀ count codes, toQrCodes shown maxWidth count = .ok codes →
    ∀ code ∈ codes, code.1.length ≤ capacityFor maxWidth shown

/-- How many parts of a size there are. -/
def partsOf (length size : Nat) : Nat := (length + size - 1) / size

/-- Up to 99 parts the headers of `p%dof%d` parts fit what is reserved. Of more parts, the one
before the last has the longest header of the full ones. -/
def PmofnFits (capacity length : Nat) : Prop :=
  let numParts := partsOf length (capacity - 8)
  let partSize := partsOf length numParts
  numParts ≤ 99 ∨
    (partSize + (decimal numParts).length + (decimal (numParts - 1)).length + 4 ≤ capacity ∧
      length - (numParts - 1) * partSize + 2 * (decimal numParts).length + 4 ≤ capacity)

/-- Beyond 1295 parts no code is shown. A part size that is rounded up leaves room for the
remainder; one that is a multiple of eight does not. -/
def BbqrFits (capacity length : Nat) : Prop :=
  let numParts := partsOf length ((capacity - 8) / 8 * 8)
  length < capacity - 8 ∨ 1295 < numParts ∨ ¬ 8 ∣ length / numParts ∨
    length / numParts + length % numParts ≤ capacity - 8

section Strings

variable {shown : Shown} {maxWidth : Int} {numParts partSize : Nat} {code : Nat → Text}

/-- The codes are those of the parts, over and over. -/
theorem mem_nextQrCodes (made : ∀ number < numParts,
      qrCode numParts partSize number shown = .ok (code number))
    {count partIndex : Nat} (inside : partIndex < numParts) {codes : List Text}
    (next : nextQrCodes shown numParts partSize count partIndex = .ok codes) {string : Text}
    (member : string ∈ codes) : ∃ number < numParts, string = code number := by
  induction count generalizing partIndex codes with
  | zero =>
      cases next
      cases member
  | succ count ih =>
      rw [nextQrCodes, made partIndex inside, ok_bind] at next
      obtain ⟨later, rest, done⟩ := bind_eq_ok.mp next
      cases done
      rcases List.mem_cons.mp member with rfl | member
      · exact ⟨partIndex, inside, rfl⟩
      · apply ih _ rest member
        split <;> omega

/-- All strings fit when those of one turn do. -/
theorem partsFit_iff (parts : findMinNumParts maxWidth shown = .ok (numParts, partSize))
    (positive : 0 < numParts)
    (made : ∀ number < numParts, qrCode numParts partSize number shown = .ok (code number)) :
    PartsFit maxWidth shown ↔
      ∀ number < numParts, (code number).length ≤ capacityFor maxWidth shown := by
  have shows : ∀ count, toQrCodes shown maxWidth count = (do
      let codes ← nextQrCodes shown numParts partSize count 0
      pure (codes.map fun code => (code, numParts))) := by
    intro count
    cases shown with
    | plain data => cases parts
    | pmofn data => simp only [toQrCodes, parts, ok_bind]
    | bbqr code => simp only [toQrCodes, parts, ok_bind]
  constructor
  · intro fits number less
    have turn := @nextQrCodes_eq shown numParts partSize code made numParts 0 (by omega)
    apply fits numParts (((List.range' 0 numParts).map code).map fun code => (code, numParts)) _
      (code number, numParts)
    · simp only [List.map_map, List.mem_map, List.mem_range'_1]
      exact ⟨number, by omega, rfl⟩
    · rw [shows, turn]
      rfl
  · intro fits count codes shown member among
    rw [shows] at shown
    obtain ⟨texts, next, done⟩ := bind_eq_ok.mp shown
    cases done
    obtain ⟨text, inside, rfl⟩ := List.mem_map.mp among
    obtain ⟨number, less, rfl⟩ := mem_nextQrCodes made positive next inside
    exact fits number less

end Strings

section Arithmetic

private theorem partsOf_le_iff {length size count : Nat} (positive : 0 < size) :
    partsOf length size ≤ count ↔ length ≤ size * count := by
  rw [partsOf, ← Nat.ceilDiv_eq_add_pred_div]
  exact ceilDiv_le_iff_le_mul positive

/-- Evenly cut parts are not larger than what fits, and the last one begins inside the data. -/
theorem even_parts {length size numParts partSize : Nat} (positive : 0 < size)
    (nonempty : 0 < length) (counted : numParts = partsOf length size)
    (cut : partSize = partsOf length numParts) :
    0 < numParts ∧ partSize ≤ size ∧ (numParts - 1) * partSize < length ∧
      length ≤ numParts * partSize := by
  obtain ⟨some, before⟩ := ceil_parts positive nonempty
  rw [← partsOf, ← counted] at some before
  have enough : length ≤ size * numParts := (partsOf_le_iff positive).mp counted.ge
  have fits : partSize ≤ size := by
    rw [cut, partsOf_le_iff some, Nat.mul_comm]
    exact enough
  refine ⟨some, fits, ?_, (partsOf_le_iff some).mp cut.ge⟩
  exact Nat.lt_of_le_of_lt (Nat.mul_le_mul_left _ fits) before

private theorem length_decimal_mono {first second : Nat} (less : first ≤ second) :
    (decimal first).length ≤ (decimal second).length := by
  have positive : 0 < (decimal second).length := Nat.length_toDigits_pos
  have bound := (Nat.length_toDigits_le_iff (by decide) positive).mp (Nat.le_refl _)
  exact (Nat.length_toDigits_le_iff (by decide) positive).mpr (Nat.lt_of_le_of_lt less bound)

private theorem length_decimal_le {value : Nat} (digits : Nat) (positive : 0 < digits)
    (small : value < 10 ^ digits) : (decimal value).length ≤ digits :=
  (Nat.length_toDigits_le_iff (by decide) positive).mpr small

end Arithmetic

section Pmofn

variable {data : Text} {numParts partSize number : Nat}

private theorem length_pmofnString (data : Text) (numParts partSize number : Nat) :
    (pmofnString data numParts partSize number).length =
      (decimal (number + 1)).length + (decimal numParts).length + 4 +
        (Chunks.chunk data partSize numParts number).length := by
  simp only [pmofnString, List.length_append]
  simp
  omega

private theorem length_chunk_last (data : Text) (partSize : Nat) (positive : 0 < numParts) :
    (Chunks.chunk data partSize numParts (numParts - 1)).length =
      data.length - (numParts - 1) * partSize := by
  rw [Chunks.chunk, if_pos (by omega), List.length_drop]

/-- When the strings of the parts fit. -/
theorem pmofn_strings_iff (several : 1 < numParts) (full : (numParts - 1) * partSize ≤ data.length)
    (capacity : Nat) :
    (∀ number < numParts, (pmofnString data numParts partSize number).length ≤ capacity) ↔
      partSize + (decimal numParts).length + (decimal (numParts - 1)).length + 4 ≤ capacity ∧
        data.length - (numParts - 1) * partSize + 2 * (decimal numParts).length + 4 ≤ capacity := by
  have last := @length_chunk_last numParts data partSize (by omega)
  constructor
  · intro fits
    have before := fits (numParts - 2) (by omega)
    have final := fits (numParts - 1) (by omega)
    rw [length_pmofnString, Chunks.length_chunk (by omega) full] at before
    rw [length_pmofnString, last] at final
    rw [show numParts - 2 + 1 = numParts - 1 by omega] at before
    rw [show numParts - 1 + 1 = numParts by omega] at final
    omega
  · rintro ⟨before, final⟩ number less
    rw [length_pmofnString]
    by_cases ends : number + 1 = numParts
    · obtain rfl : number = numParts - 1 := by omega
      rw [last, ends]
      omega
    · have shorter := @length_decimal_mono (number + 1) (numParts - 1) (by omega)
      rw [Chunks.length_chunk (by omega) full]
      omega

/-- Up to 99 parts there is room for the headers. -/
theorem pmofn_strings_fit {capacity reserved digits : Nat} (positive : 0 < digits)
    (small : numParts < 10 ^ digits) (room : 4 + 2 * digits ≤ reserved) (wide : reserved ≤ capacity)
    (fits : partSize ≤ capacity - reserved) (full : (numParts - 1) * partSize ≤ data.length)
    (all : data.length ≤ numParts * partSize) (less : number < numParts) :
    (pmofnString data numParts partSize number).length ≤ capacity := by
  have total := @length_decimal_le numParts digits positive small
  have part := @length_decimal_mono (number + 1) numParts less
  rw [length_pmofnString]
  by_cases ends : number + 1 = numParts
  · obtain rfl : number = numParts - 1 := by omega
    have end' : data.length ≤ (numParts - 1) * partSize + partSize := by
      rwa [← Nat.succ_mul, Nat.succ_eq_add_one, ends]
    rw [length_chunk_last data partSize (by omega)]
    omega
  · rw [Chunks.length_chunk (by omega) full]
    omega

/-- What `find_min_num_parts` computes for a text: eight characters are reserved when there are
more than nine parts with six. -/
theorem findMinNumParts_pmofn_eq (maxWidth : Int) {data : Text} (nonempty : data ≠ [])
    {capacity reserved : Nat} (wide : maxQrBytes maxWidth qrCapacityByte = capacity)
    (spare : (if 9 < partsOf data.length (capacity - 6) then 8 else 6) = reserved) :
    findMinNumParts maxWidth (.pmofn data) =
      .ok (partsOf data.length (capacity - reserved),
        partsOf data.length (partsOf data.length (capacity - reserved))) := by
  have least := maxQrBytes_byte maxWidth
  have long : 0 < data.length := List.length_pos_of_ne_nil nonempty
  subst wide
  simp only [findMinNumParts]
  by_cases many : 9 < partsOf data.length (maxQrBytes maxWidth qrCapacityByte - 6)
  · obtain rfl : 8 = reserved := (if_pos many).symm.trans spare
    have some := (ceil_parts (show 0 < maxQrBytes maxWidth qrCapacityByte - 8 by omega) long).1
    rw [partsOf] at many
    rw [if_pos many, if_neg (Nat.ne_of_gt some)]
    rfl
  · obtain rfl : 6 = reserved := (if_neg many).symm.trans spare
    have some := (ceil_parts (show 0 < maxQrBytes maxWidth qrCapacityByte - 6 by omega) long).1
    rw [partsOf] at many
    rw [if_neg many, if_neg (Nat.ne_of_gt some)]
    rfl

/-- **When every `p%dof%d` code fits.** -/
theorem pmofn_fits_iff (maxWidth : Int) (data : Text) :
    PartsFit maxWidth (.pmofn data) ↔
      PmofnFits (maxQrBytes maxWidth qrCapacityByte) data.length := by
  have capacity := maxQrBytes_byte maxWidth
  by_cases empty : data = []
  · subst empty
    have none : partsOf 0 (maxQrBytes maxWidth qrCapacityByte - 8) = 0 := by
      rw [partsOf]
      exact Nat.div_eq_of_lt (by omega)
    have none' : partsOf 0 (maxQrBytes maxWidth qrCapacityByte - 6) = 0 := by
      rw [partsOf]
      exact Nat.div_eq_of_lt (by omega)
    have raises : findMinNumParts maxWidth (.pmofn []) = .error .zeroDivisionError := by
      simp only [findMinNumParts, List.length_nil]
      rw [← partsOf, ← partsOf, none, none', ite_self, if_pos rfl]
    refine ⟨fun _ => .inl (by rw [List.length_nil, none]; omega), fun _ count codes shown => ?_⟩
    simp only [toQrCodes, raises, error_bind] at shown
    cases shown
  have long : 0 < data.length := List.length_pos_of_ne_nil empty
  have found := fun reserved => @findMinNumParts_pmofn_eq maxWidth data empty _ reserved rfl
  have fits := fun numParts partSize positive parts => @partsFit_iff (.pmofn data) maxWidth numParts
    partSize (pmofnString data numParts partSize) parts positive fun _ _ => rfl
  simp only [capacityFor] at fits
  generalize maxQrBytes maxWidth qrCapacityByte = room at capacity found fits ⊢
  by_cases many : 9 < partsOf data.length (room - 6)
  · obtain ⟨some, small, full, all⟩ := even_parts (show 0 < room - 8 by omega) long rfl rfl
    rw [fits _ _ some (found 8 (if_pos many))]
    simp only [PmofnFits]
    generalize partsOf data.length (room - 8) = numParts at some small full all ⊢
    generalize partsOf data.length numParts = partSize at small full all ⊢
    by_cases few : numParts ≤ 99
    · refine ⟨fun _ => .inl few, fun _ number less => ?_⟩
      exact @pmofn_strings_fit data numParts partSize number room 8 2 (by omega)
        (by omega) (by omega) (by omega) small full.le all less
    · rw [pmofn_strings_iff (by omega) full.le]
      exact ⟨.inr, fun either => either.resolve_left few⟩
  · obtain ⟨some, small, full, all⟩ := even_parts (show 0 < room - 6 by omega) long rfl rfl
    rw [fits _ _ some (found 6 (if_neg many))]
    have nine : data.length ≤ (room - 6) * 9 :=
      (partsOf_le_iff (by omega)).mp (Nat.le_of_not_lt many)
    have few : partsOf data.length (room - 8) ≤ 99 := (partsOf_le_iff (by omega)).mpr (by omega)
    refine ⟨fun _ => .inl few, fun _ number less => ?_⟩
    exact @pmofn_strings_fit data _ _ number room 6 1 (by omega) (by omega) (by omega) (by omega)
      small full.le all less

end Pmofn

section Bbqr

variable {code : BbqrCode} {numParts partSize number : Nat}

private theorem length_bbqrString (code : BbqrCode) (numParts partSize number : Nat) :
    (bbqrString code numParts partSize number).length =
      8 + (Chunks.chunk code.payload partSize numParts number).length := by
  simp only [bbqrString, List.length_append]
  simp

/-- Only the last part can be too long. -/
theorem bbqr_strings_iff {capacity : Nat} (positive : 0 < numParts) (wide : 8 ≤ capacity)
    (fits : partSize ≤ capacity - 8) (full : (numParts - 1) * partSize ≤ code.payload.length) :
    (∀ number < numParts, (bbqrString code numParts partSize number).length ≤ capacity) ↔
      code.payload.length - (numParts - 1) * partSize ≤ capacity - 8 := by
  have last := @length_chunk_last numParts code.payload partSize positive
  constructor
  · intro all
    have final := all (numParts - 1) (by omega)
    rw [length_bbqrString, last] at final
    omega
  · intro final number less
    rw [length_bbqrString]
    by_cases ends : number + 1 = numParts
    · obtain rfl : number = numParts - 1 := by omega
      rw [last]
      omega
    · rw [Chunks.length_chunk (by omega) full]
      omega

/-- What the last part takes: with a rounded size less than the others, else the remainder. -/
theorem last_part_iff {length count room : Nat} (positive : 0 < count)
    (fits : (length / count + 7) / 8 * 8 ≤ room) :
    length - (count - 1) * ((length / count + 7) / 8 * 8) ≤ room ↔
      ¬ 8 ∣ length / count ∨ length / count + length % count ≤ room := by
  have parts := Nat.div_add_mod length count
  have small := Nat.mod_lt length positive
  generalize length / count = quotient at *
  generalize length % count = remainder at *
  obtain ⟨before, rfl⟩ : ∃ before, count = before + 1 := ⟨count - 1, by omega⟩
  rw [Nat.succ_mul] at parts
  rw [Nat.add_sub_cancel]
  by_cases aligned : 8 ∣ quotient
  · have exact' : (quotient + 7) / 8 * 8 = quotient := by omega
    rw [exact']
    simp only [aligned, not_true_eq_false, false_or]
    omega
  · have rounded : quotient + 1 ≤ (quotient + 7) / 8 * 8 := by omega
    have more := Nat.mul_le_mul_left before rounded
    rw [Nat.mul_succ] at more
    simp only [aligned, not_false_eq_true, true_or, iff_true]
    omega

/-- Too many parts have no header. -/
theorem partsFit_of_many {maxWidth : Int}
    (parts : findMinNumParts maxWidth (.bbqr code) = .ok (numParts, partSize))
    (many : 1295 < numParts) : PartsFit maxWidth (.bbqr code) := by
  intro count codes shown string member
  simp only [toQrCodes, parts, ok_bind] at shown
  obtain ⟨texts, next, done⟩ := bind_eq_ok.mp shown
  cases done
  cases count with
  | zero =>
      cases next
      cases member
  | succ count =>
      have raises : ∃ exn, int2base36 numParts = .error exn := ⟨_, if_neg (by omega)⟩
      obtain ⟨exn, raises⟩ := raises
      rw [nextQrCodes, qrCode, raises] at next
      cases next

/-- What `find_min_num_parts` computes for a payload: the rounded size never exceeds what fits. -/
theorem findMinNumParts_bbqr_eq (maxWidth : Int) (code : BbqrCode) {capacity numParts : Nat}
    (wide : maxQrBytes maxWidth qrCapacityAlphanumeric = capacity)
    (long : ¬ code.payload.length < capacity - 8)
    (counted : partsOf code.payload.length ((capacity - 8) / 8 * 8) = numParts) :
    0 < numParts ∧ (code.payload.length / numParts + 7) / 8 * 8 ≤ capacity - 8 ∧
      (numParts - 1) * ((code.payload.length / numParts + 7) / 8 * 8) ≤ code.payload.length ∧
      findMinNumParts maxWidth (.bbqr code) =
        .ok (numParts, (code.payload.length / numParts + 7) / 8 * 8) := by
  have least := maxQrBytes_alphanumeric maxWidth
  obtain ⟨some, before⟩ := ceil_parts (show 0 < (capacity - 8) / 8 * 8 by omega)
    (show 0 < code.payload.length by omega)
  rw [← partsOf, counted] at some before
  have enough : code.payload.length ≤ (capacity - 8) / 8 * 8 * numParts :=
    (partsOf_le_iff (by omega)).mp counted.le
  have average : code.payload.length / numParts ≤ (capacity - 8) / 8 * 8 :=
    Nat.div_le_of_le_mul (by rwa [Nat.mul_comm] at enough)
  have fits : (code.payload.length / numParts + 7) / 8 * 8 ≤ (capacity - 8) / 8 * 8 := by omega
  refine ⟨some, by omega, ?_, ?_⟩
  · exact (Nat.mul_le_mul_left _ fits).trans before.le
  · simp only [findMinNumParts, wide]
    rw [if_neg long, ← partsOf, counted, if_neg (Nat.not_lt.mpr fits)]

/-- **When every BBQr code fits.** -/
theorem bbqr_fits_iff (maxWidth : Int) (code : BbqrCode) :
    PartsFit maxWidth (.bbqr code) ↔
      BbqrFits (maxQrBytes maxWidth qrCapacityAlphanumeric) code.payload.length := by
  have least := maxQrBytes_alphanumeric maxWidth
  have computed := fun numParts => @findMinNumParts_bbqr_eq maxWidth code _ numParts rfl
  have alone : code.payload.length < maxQrBytes maxWidth qrCapacityAlphanumeric - 8 →
      findMinNumParts maxWidth (.bbqr code) = .ok (1, code.payload.length) := by
    intro short
    simp only [findMinNumParts]
    rw [if_pos short]
  have fits := fun numParts partSize positive few parts =>
    @partsFit_iff (.bbqr code) maxWidth numParts
    partSize (bbqrString code numParts partSize) parts positive fun _ less =>
      qrCode_bbqr code few less
  simp only [capacityFor] at fits
  simp only [BbqrFits]
  generalize maxQrBytes maxWidth qrCapacityAlphanumeric = capacity at least computed alone fits ⊢
  by_cases short : code.payload.length < capacity - 8
  · rw [fits 1 _ (by omega) (by omega) (alone short), bbqr_strings_iff (by omega) (by omega)
      short.le (by omega)]
    simp only [short, true_or, iff_true]
    omega
  · obtain ⟨positive, small, full, parts⟩ := computed _ short rfl
    generalize partsOf code.payload.length ((capacity - 8) / 8 * 8) = numParts at *
    by_cases many : 1295 < numParts
    · exact ⟨fun _ => .inr (.inl many), fun _ => partsFit_of_many parts many⟩
    · rw [fits numParts _ positive (by omega) parts,
        bbqr_strings_iff positive (by omega) small full, last_part_iff positive small]
      simp only [short, many, false_or]

end Bbqr

/-- **When every string that is shown fits in a QR code**, for every width, every text and every
BBQr code. -/
theorem toQrCodes_fits_iff (maxWidth : Int) :
    (∀ data, PartsFit maxWidth (.pmofn data) ↔
      PmofnFits (maxQrBytes maxWidth qrCapacityByte) data.length) ∧
    ∀ code, PartsFit maxWidth (.bbqr code) ↔
      BbqrFits (maxQrBytes maxWidth qrCapacityAlphanumeric) code.payload.length :=
  ⟨pmofn_fits_iff maxWidth, bbqr_fits_iff maxWidth⟩

/-- A payload of 2298 hexadecimal digits on a screen of 240 pixels: eleven parts of 208 characters
would leave ten, which the last part takes too. -/
theorem last_part_too_long :
    ¬ PartsFit (qrDataWidth 240) (.bbqr ⟨List.replicate 2298 '0', .hex, .psbt⟩) := by
  rw [bbqr_fits_iff]
  simp only [BbqrFits, List.length_replicate]
  decide +kernel

end VaultSeed.Qr
