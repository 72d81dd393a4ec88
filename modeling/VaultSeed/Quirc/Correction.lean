import VaultSeed.Foundation.Locators
import VaultSeed.Quirc.Polynomials
import Mathlib.Data.List.GetD

/-! # Correcting a block

`correct_block` of `omv/img/qrcode.c` finds the places of wrong bytes as the roots of the register
of the syndromes, and how wrong they are from the derivative of the register
(`VaultSeed.Quirc.correctBlock_eq`). `correct_format` shares the places
(`VaultSeed.Quirc.Measured.root_iff`).
-/

open Polynomial

namespace VaultSeed.Quirc

open Accumulate Locators

/-- `quirc_decode_error_t`, without success. -/
inductive DecodeError where
  | invalidGridSize
  | invalidVersion
  | formatEcc
  | dataEcc
  | unknownDataType
  | dataOverflow
  | dataUnderflow
  deriving DecidableEq, Repr

/-- `struct quirc_rs_params`. -/
structure RsParams where
  bs : Nat
  dw : Nat
  ns : Nat
  deriving DecidableEq, Repr

/-- `block_syndromes` and `format_syndromes`, a turn of the outer loop: `nonzero` and `s`. -/
def syndromesTurn (syndrome : Nat → UInt8) (found : Bool × List UInt8) (i : Nat) :
    Bool × List UInt8 :=
  (found.1 || syndrome i != 0, found.2.set i (syndrome i))

/-- `block_syndromes` and `format_syndromes`: what they return, and `s`. -/
def syndromes (syndrome : Nat → UInt8) (count : Nat) : Bool × List UInt8 :=
  (List.range count).foldl (syndromesTurn syndrome) (false, List.replicate maxPoly 0)

/-- `block_syndromes`, a turn of the inner loop. -/
def blockSyndromeTurn (data : List UInt8) (bs i : Nat) (value : UInt8) (j : Nat) : UInt8 :=
  let c := data.getD (bs - j - 1) 0
  if c = 0 then value else value ^^^ gf256.expAt ((gf256.logAt c + i * j) % 255)

/-- `block_syndromes`: `s[i]`. -/
def blockSyndrome (data : List UInt8) (bs i : Nat) : UInt8 :=
  (List.range bs).foldl (blockSyndromeTurn data bs i) 0

/-- `block_syndromes`. -/
def blockSyndromes (data : List UInt8) (bs npar : Nat) : Bool × List UInt8 :=
  syndromes (blockSyndrome data bs) npar

/-- `eloc_poly`, a turn of the inner loop. Once a turn breaks, the later ones do too. -/
def elocPolyTurn (s : List UInt8) (npar i : Nat) (a : UInt8) (omega : List UInt8) (j : Nat) :
    List UInt8 :=
  let b := s.getD (j + 1) 0
  if i + j ≥ npar then omega
  else if b = 0 then omega
  else xorAt omega (i + j) (gf256.expAt ((gf256.logAt a + gf256.logAt b) % 255))

/-- `eloc_poly`, a turn of the outer loop. -/
def elocPolyRow (s sigma : List UInt8) (npar : Nat) (omega : List UInt8) (i : Nat) : List UInt8 :=
  let a := sigma.getD i 0
  if a = 0 then omega else (List.range (maxPoly - 1)).foldl (elocPolyTurn s npar i a) omega

/-- `eloc_poly`: `omega`. -/
def elocPoly (s sigma : List UInt8) (npar : Nat) : List UInt8 :=
  (List.range npar).foldl (elocPolyRow s sigma npar) (List.replicate maxPoly 0)

/-- `correct_block`: `sigma_deriv`. -/
def sigmaDeriv (sigma : List UInt8) : List UInt8 :=
  (List.range (maxPoly / 2)).foldl
    (fun deriv half => deriv.set (2 * half) (sigma.getD (2 * half + 1) 0))
    (List.replicate maxPoly 0)

/-- `correct_block`, a turn of the loop that corrects. -/
def correctTurn (sigma deriv omega : List UInt8) (bs : Nat) (data : List UInt8) (i : Nat) :
    List UInt8 :=
  let xinv := gf256.expAt (255 - i)
  if polyEval gf256 sigma xinv = 0 then
    let sdX := polyEval gf256 deriv xinv
    let omegaX := polyEval gf256 omega xinv
    let error := gf256.expAt ((255 - gf256.logAt sdX + gf256.logAt omegaX) % 255)
    xorAt data (bs - i - 1) error
  else data

/-- `correct_block`. -/
def correctBlock (data : List UInt8) (ecc : RsParams) : Except DecodeError (List UInt8) :=
  let npar := ecc.bs - ecc.dw
  let s := blockSyndromes data ecc.bs npar
  if s.1 = false then .ok data
  else
    let sigma := berlekampMassey gf256 s.2 npar
    let deriv := sigmaDeriv sigma
    let omega := elocPoly s.2 sigma (npar - 1)
    let corrected := (List.range ecc.bs).foldl (correctTurn sigma deriv omega ecc.bs) data
    if (blockSyndromes corrected ecc.bs npar).1 then .error .dataEcc else .ok corrected

section Measured

variable {width : Nat} {gf : GaloisField} {polynomial : Galois.Word width}
  {lawful : gf.Lawful polynomial} {syndrome : Nat → UInt8} {count : Nat}
  {errors : Errors lawful.Carrier Nat}

private theorem syndromes_fst : (syndromes syndrome count).1 = true ↔ ∃ i < count,
    syndrome i ≠ 0 := by
  rw [syndromes]
  induction count with
  | zero => simp
  | succ count ih =>
      rw [List.range_succ, List.foldl_append, List.foldl_cons, List.foldl_nil, syndromesTurn,
        Bool.or_eq_true, ih, bne_iff_ne]
      constructor
      · rintro (⟨i, less, some⟩ | some)
        · exact ⟨i, Nat.lt_succ_of_lt less, some⟩
        · exact ⟨count, Nat.lt_succ_self count, some⟩
      · rintro ⟨i, less, some⟩
        rcases Nat.lt_succ_iff_lt_or_eq.mp less with earlier | rfl
        · exact .inl ⟨i, earlier, some⟩
        · exact .inr some

private theorem syndromes_snd : (syndromes syndrome count).2 =
    (List.range count).foldl (fun s i => s.set i (syndrome i)) (List.replicate maxPoly 0) := by
  rw [syndromes]
  induction count with
  | zero => rfl
  | succ count ih => rw [List.range_succ, List.foldl_append, List.foldl_append, ← ih]; rfl

private theorem getD_syndromes (fits : count ≤ maxPoly) (index : Nat) :
    (syndromes syndrome count).2.getD index 0 = if index < count then syndrome index else 0 := by
  rw [syndromes_snd, getD_foldl_set _ _ (List.length_replicate.symm ▸ fits), getD_replicate_zero]

/-- The syndromes of errors at powers of the generator. -/
structure Measured (lawful : gf.Lawful polynomial) (errors : Errors lawful.Carrier Nat)
    (syndrome : Nat → UInt8) (count : Nat) : Prop where
  locate : ∀ place, errors.locate place = lawful.generator ^ place
  inside : ∀ place ∈ errors.places, place < gf.p
  small : ∀ i, lawful.Small (syndrome i)
  element : ∀ i < count, lawful.element (syndrome i) = errors.syndrome i
  fits : count < maxPoly
  few : errors.places.card * 2 ≤ count

private theorem terms_syndromes (small : ∀ i, lawful.Small (syndrome i)) (fits : count ≤ maxPoly) :
    Terms lawful (syndromes syndrome count).2 where
  length := by
    rw [syndromes_snd]
    exact (length_foldl_set syndrome id count _).trans List.length_replicate
  small index := by
    rw [getD_syndromes fits]
    split
    · exact small index
    · exact GaloisField.Lawful.small_zero

namespace Measured

variable (measured : Measured lawful errors syndrome count)
include measured

private theorem terms : Terms lawful (syndromes syndrome count).2 :=
  terms_syndromes measured.small measured.fits.le

private theorem coefficients_syndromes :
    coefficients lawful (syndromes syndrome count).2 = errors.syndromes count := by
  ext index
  rw [measured.terms.coeff, getD_syndromes measured.fits.le, Errors.coeff_syndromes]
  split
  · next less => exact measured.element index less
  · exact lawful.element_zero

/-- No syndrome is left when there are no errors. -/
theorem fst_eq_false : (syndromes syndrome count).1 = false ↔ errors.places = ∅ := by
  rw [Bool.eq_false_iff, Ne, syndromes_fst]
  constructor
  · intro none
    have few := measured.few
    have card : errors.places.card ≤ count := by omega
    refine Errors.places_eq_empty card fun power less => ?_
    rw [← measured.element power less, GaloisField.Lawful.element_eq_zero (measured.small power)]
    by_contra some
    exact none ⟨power, less, some⟩
  · rintro empty ⟨i, less, some⟩
    refine some ((GaloisField.Lawful.element_eq_zero (measured.small i)).mp ?_)
    rw [measured.element i less, Errors.syndrome, empty, Finset.sum_empty]

/-- **The register of the syndromes is the locator of the errors.** -/
theorem sigma : Terms lawful (berlekampMassey gf (syndromes syndrome count).2 count) ∧
    coefficients lawful (berlekampMassey gf (syndromes syndrome count).2 count) =
      errors.locator := by
  obtain ⟨kept, found⟩ := coefficients_berlekampMassey measured.terms measured.fits
  refine ⟨kept, found.trans ?_⟩
  rw [measured.coefficients_syndromes]
  exact Registers.run_eq (errors.locates count) measured.few

/-- The inverse of a power, looked up. -/
theorem element_inverse {place : Nat} (inside : place < gf.p) :
    lawful.element (gf.expAt (gf.p - place)) = (errors.locate place)⁻¹ := by
  refine eq_inv_of_mul_eq_one_left ?_
  rw [measured.locate, GaloisField.Lawful.element_expAt (Nat.sub_le _ _), ← pow_add,
    Nat.sub_add_cancel inside.le, GaloisField.Lawful.generator_pow_p]

/-- **The roots of the register** are the places of the errors. -/
theorem root_iff {place : Nat} (inside : place < gf.p) :
    polyEval gf (berlekampMassey gf (syndromes syndrome count).2 count)
      (gf.expAt (gf.p - place)) = 0 ↔ place ∈ errors.places := by
  obtain ⟨kept, found⟩ := measured.sigma
  have point : lawful.Small (gf.expAt (gf.p - place)) :=
    GaloisField.Lawful.small_expAt (Nat.sub_le gf.p place)
  obtain ⟨small, value⟩ := kept.element_polyEval point
  rw [← GaloisField.Lawful.element_eq_zero small, value, found, measured.element_inverse inside,
    Errors.eval_locator_eq_zero]
  have nonzero : errors.locate place ≠ 0 := by
    rw [measured.locate]
    exact pow_ne_zero _ GaloisField.Lawful.generator_ne_zero
  constructor
  · rintro ⟨other, member, one⟩
    have same := (mul_inv_eq_one₀ nonzero).mp one
    rw [measured.locate, measured.locate,
      GaloisField.Lawful.generator_pow_inj (measured.inside other member) inside] at same
    exact same ▸ member
  · intro member
    exact ⟨place, member, mul_inv_cancel₀ nonzero⟩

end Measured

end Measured

section Block

/-- The bytes as elements. -/
abbrev Byte : Type := gf256_lawful.Carrier

private theorem small256 (byte : UInt8) : gf256_lawful.Small byte := byte.toNat_lt

private theorem element256_inj {first second : UInt8} :
    gf256_lawful.element first = gf256_lawful.element second ↔ first = second :=
  GaloisField.Lawful.element_inj (small256 first) (small256 second)

/-- The polynomial of a block, at a point: the first byte is the leading one. -/
def evaluated (point : Byte) (bytes : List UInt8) : Byte :=
  bytes.foldl (fun value byte => value * point + gf256_lawful.element byte) 0

/-- A block whose polynomial vanishes at the first powers of the generator. -/
def Codeword (npar : Nat) (bytes : List UInt8) : Prop :=
  ∀ power < npar, evaluated (gf256_lawful.generator ^ power) bytes = 0

/-- One more byte, by Horner's rule. -/
theorem evaluated_append_singleton (point : Byte) (bytes : List UInt8) (byte : UInt8) :
    evaluated point (bytes ++ [byte]) =
      evaluated point bytes * point + gf256_lawful.element byte :=
  List.foldl_append ..

/-- The terms of a block, the last byte first. -/
theorem evaluated_eq_sum (point : Byte) (bytes : List UInt8) :
    evaluated point bytes = ∑ j ∈ Finset.range bytes.length,
      gf256_lawful.element (bytes.getD (bytes.length - j - 1) 0) * point ^ j := by
  induction bytes using List.reverseRecOn with
  | nil => rfl
  | append_singleton bytes byte ih =>
      rw [evaluated_append_singleton, ih, List.length_append, List.length_singleton,
        Finset.sum_range_succ', Finset.sum_mul, pow_zero, mul_one]
      congr 1
      · refine Finset.sum_congr rfl fun j member => ?_
        have less := Finset.mem_range.mp member
        rw [List.getD_append _ _ _ _ (by omega), mul_assoc, ← pow_succ,
          show bytes.length + 1 - (j + 1) - 1 = bytes.length - j - 1 by omega]
      · rw [List.getD_append_right _ _ _ _ (by omega)]
        simp

private theorem element_blockSyndrome (data : List UInt8) (i : Nat) :
    gf256_lawful.element (blockSyndrome data data.length i) =
      evaluated (gf256_lawful.generator ^ i) data := by
  rw [evaluated_eq_sum, ← zero_add (∑ j ∈ _, _), ← gf256_lawful.element_zero, blockSyndrome]
  refine (foldl_range gf256_lawful.element (fun _ => True) (fun value j _ _ => ?_) trivial).2
  refine ⟨trivial, ?_⟩
  rw [blockSyndromeTurn]
  by_cases none : data.getD (data.length - j - 1) 0 = 0
  · rw [if_pos none, none, gf256_lawful.element_zero, zero_mul, add_zero]
  · rw [if_neg none, gf256_lawful.element_xor]
    change _ + gf256_lawful.element (gf256.expAt (_ % gf256.p)) = _
    rw [GaloisField.Lawful.element_expAt_mod, pow_add, pow_mul,
      ← GaloisField.Lawful.element_eq_pow (small256 _) none]

variable {data sent : List UInt8} {bs : Nat}

/-- Where two blocks differ, counted from their ends. -/
def wrongEnds (data sent : List UInt8) (bs : Nat) : Finset Nat :=
  (Finset.range bs).filter fun j => data.getD (bs - j - 1) 0 ≠ sent.getD (bs - j - 1) 0

/-- In how many places two blocks differ. -/
def wrongBytes (data sent : List UInt8) (bs : Nat) : Nat :=
  ((Finset.range bs).filter fun index => data.getD index 0 ≠ sent.getD index 0).card

private theorem card_wrongEnds : (wrongEnds data sent bs).card = wrongBytes data sent bs := by
  rw [wrongEnds, wrongBytes, Finset.card_filter, Finset.card_filter,
    ← Finset.sum_range_reflect (fun index => if data.getD index 0 ≠ sent.getD index 0 then 1
      else 0)]
  refine Finset.sum_congr rfl fun j _ => ?_
  rw [Nat.sub_right_comm]

/-- The errors of a block. -/
def blockErrors (data sent : List UInt8) {bs : Nat} (short : bs ≤ 255) : Errors Byte Nat where
  places := wrongEnds data sent bs
  locate place := gf256_lawful.generator ^ place
  value place := gf256_lawful.element (data.getD (bs - place - 1) 0) +
    gf256_lawful.element (sent.getD (bs - place - 1) 0)
  apart first firstInside second secondInside same := by
    have firstLess := Finset.mem_range.mp (Finset.mem_filter.mp firstInside).1
    have secondLess := Finset.mem_range.mp (Finset.mem_filter.mp secondInside).1
    exact (GaloisField.Lawful.generator_pow_inj (firstLess.trans_le short)
      (secondLess.trans_le short)).mp same
  locate_ne_zero place _ := pow_ne_zero _ GaloisField.Lawful.generator_ne_zero
  value_ne_zero place inside := by
    intro zero
    rw [CharTwo.add_eq_zero, element256_inj] at zero
    exact (Finset.mem_filter.mp inside).2 zero

/-- The syndromes of a received block are those of its errors. -/
theorem element_received (short : bs ≤ 255) (length : data.length = bs)
    (sentLength : sent.length = bs) {npar power : Nat} (codeword : Codeword npar sent)
    (less : power < npar) :
    gf256_lawful.element (blockSyndrome data bs power) =
      (blockErrors data sent short).syndrome power := by
  subst length
  have zero := codeword power less
  rw [element_blockSyndrome, ← add_zero (evaluated _ data), ← zero, evaluated_eq_sum,
    evaluated_eq_sum, sentLength, ← Finset.sum_add_distrib, Errors.syndrome]
  change _ = ∑ place ∈ wrongEnds data sent data.length, _
  rw [wrongEnds, Finset.sum_filter]
  refine Finset.sum_congr rfl fun j _ => ?_
  rw [← add_mul, ← pow_mul, Nat.mul_comm power, pow_mul]
  split
  · rfl
  · next same => rw [not_not.mp same, CharTwo.add_self_eq_zero, zero_mul]

private theorem measured_block (short : bs ≤ 255) (length : data.length = bs)
    (sentLength : sent.length = bs) {npar : Nat} (codeword : Codeword npar sent)
    (fits : npar < maxPoly) (few : wrongBytes data sent bs * 2 ≤ npar) :
    Measured gf256_lawful (blockErrors data sent short) (blockSyndrome data bs) npar where
  locate _ := rfl
  inside _ member := (Finset.mem_range.mp (Finset.mem_filter.mp member).1).trans_le short
  small i := small256 _
  element _ less := element_received short length sentLength codeword less
  fits := fits
  few := by
    change (wrongEnds data sent bs).card * 2 ≤ npar
    rwa [card_wrongEnds]

/-- The loop that fills `sigma_deriv`. -/
theorem getD_sigmaDeriv (sigma : List UInt8) (index : Nat) :
    (sigmaDeriv sigma).getD index 0 =
      if index < maxPoly ∧ index % 2 = 0 then sigma.getD (index + 1) 0 else 0 := by
  have turns : ∀ count ≤ maxPoly / 2, ((List.range count).foldl
      (fun deriv half => deriv.set (2 * half) (sigma.getD (2 * half + 1) 0))
      (List.replicate maxPoly 0)).getD index 0 =
        if index < 2 * count ∧ index % 2 = 0 then sigma.getD (index + 1) 0 else 0 := by
    intro count fits
    induction count with
    | zero => rw [if_neg (by omega)]; exact getD_replicate_zero _ _
    | succ count ih =>
        rw [List.range_succ, List.foldl_append, List.foldl_cons, List.foldl_nil, getD_set,
          ih (Nat.le_of_succ_le fits)]
        · split
          · next same => rw [same, if_pos (by omega)]
          · next differ =>
              refine if_congr ?_ rfl rfl
              omega
        · rw [length_foldl_set (fun half => sigma.getD (2 * half + 1) 0) fun half => 2 * half,
            List.length_replicate]
          simp only [maxPoly] at fits ⊢
          omega
  exact turns _ (Nat.le_refl _)

variable {s sigma omega : List UInt8}

private theorem terms_sigmaDeriv : Terms gf256_lawful (sigmaDeriv sigma) where
  length := (length_foldl_set (fun half => sigma.getD (2 * half + 1) 0) (fun half => 2 * half)
    _ _).trans List.length_replicate
  small _ := small256 _

/-- **The derivative**: in characteristic two the even terms vanish. -/
theorem coefficients_sigmaDeriv (terms : Terms gf256_lawful sigma) :
    coefficients gf256_lawful (sigmaDeriv sigma) =
      derivative (coefficients gf256_lawful sigma) := by
  ext index
  rw [terms_sigmaDeriv.coeff, getD_sigmaDeriv, coeff_derivative, terms.coeff]
  rcases Nat.mod_two_eq_zero_or_one index with even | odd
  · have one : (index : Byte) + 1 = 1 := by
      rw [← Nat.div_add_mod index 2, even, Nat.add_zero, Nat.cast_mul, Nat.cast_two,
        CharTwo.two_eq_zero, zero_mul, zero_add]
    rw [one, mul_one]
    by_cases inside : index < maxPoly
    · rw [if_pos ⟨inside, even⟩]
    · rw [if_neg fun both => inside both.1, terms.getD_eq_zero (by omega)]
  · have zero : (index : Byte) + 1 = 0 := by
      rw [← Nat.cast_succ, ← Nat.div_add_mod index.succ 2,
        show index.succ % 2 = 0 by omega, Nat.add_zero, Nat.cast_mul, Nat.cast_two,
        CharTwo.two_eq_zero, zero_mul]
    rw [zero, mul_zero, if_neg (by omega), gf256_lawful.element_zero]

private theorem elocPolyTurn_spec (npar i : Nat) (fits : npar ≤ maxPoly) {a : UInt8} (some : a ≠ 0)
    (terms : Terms gf256_lawful omega) (j index : Nat) :
    Terms gf256_lawful (elocPolyTurn s npar i a omega j) ∧
      gf256_lawful.element ((elocPolyTurn s npar i a omega j).getD index 0) =
        gf256_lawful.element (omega.getD index 0) + if i + j < npar ∧ index = i + j then
          gf256_lawful.element a * gf256_lawful.element (s.getD (j + 1) 0) else 0 := by
  rw [elocPolyTurn]
  by_cases past : i + j ≥ npar
  · rw [if_pos past, if_neg (by omega), add_zero]
    exact ⟨terms, rfl⟩
  rw [if_neg past]
  by_cases none : s.getD (j + 1) 0 = 0
  · rw [if_pos none, none, gf256_lawful.element_zero, mul_zero, ite_self, add_zero]
    exact ⟨terms, rfl⟩
  rw [if_neg none]
  refine ⟨terms.xorAt _ (small256 _), ?_⟩
  rw [terms.element_xorAt (by omega)]
  change _ + ite _ (gf256_lawful.element (gf256.expAt (_ % gf256.p))) _ = _
  rw [GaloisField.Lawful.element_mul (small256 a) (small256 _) some none]
  congr 1
  refine if_congr ?_ rfl rfl
  omega

/-- The terms of the product that `eloc_poly` adds up. -/
theorem elocPoly_spec (s sigma : List UInt8) {npar : Nat} (fits : npar < maxPoly) (index : Nat) :
    Terms gf256_lawful (elocPoly s sigma npar) ∧
      gf256_lawful.element ((elocPoly s sigma npar).getD index 0) =
        ∑ i ∈ Finset.range npar, ∑ j ∈ Finset.range (maxPoly - 1),
          if i + j < npar ∧ index = i + j then
            gf256_lawful.element (sigma.getD i 0) * gf256_lawful.element (s.getD (j + 1) 0)
          else 0 := by
  have row : ∀ omega i, i < npar → Terms gf256_lawful omega →
      Terms gf256_lawful (elocPolyRow s sigma npar omega i) ∧
        gf256_lawful.element ((elocPolyRow s sigma npar omega i).getD index 0) =
          gf256_lawful.element (omega.getD index 0) + ∑ j ∈ Finset.range (maxPoly - 1),
            if i + j < npar ∧ index = i + j then
              gf256_lawful.element (sigma.getD i 0) * gf256_lawful.element (s.getD (j + 1) 0)
            else 0 := by
    intro omega i _ terms
    rw [elocPolyRow]
    by_cases none : sigma.getD i 0 = 0
    · rw [if_pos none, none, gf256_lawful.element_zero]
      simp only [zero_mul, ite_self, Finset.sum_const_zero, add_zero]
      exact ⟨terms, trivial⟩
    · rw [if_neg none]
      exact foldl_range (fun omega => gf256_lawful.element (omega.getD index 0))
        (Terms gf256_lawful)
        (fun omega j _ kept => elocPolyTurn_spec npar i fits.le none kept j index) terms
  have sum := foldl_range (fun omega => gf256_lawful.element (omega.getD index 0))
    (Terms gf256_lawful) row terms_zero
  rw [getD_replicate_zero, gf256_lawful.element_zero, zero_add] at sum
  exact sum

variable {errors : Errors Byte Nat} {syndrome : Nat → UInt8} {npar : Nat}

/-- The terms that `eloc_poly` adds up are those of a product. -/
theorem sum_elocPoly (measured : Measured gf256_lawful errors syndrome npar) {index : Nat}
    (inside : index < npar - 1) :
    (∑ i ∈ Finset.range (npar - 1), ∑ j ∈ Finset.range (maxPoly - 1),
      if i + j < npar - 1 ∧ index = i + j then
        errors.locator.coeff i *
          gf256_lawful.element ((syndromes syndrome npar).2.getD (j + 1) 0)
      else 0) = (errors.locator * errors.weighed.syndromes (npar - 1)).coeff index := by
  have fits := measured.fits
  rw [coeff_mul, Finset.Nat.sum_antidiagonal_eq_sum_range_succ
    (fun i j => errors.locator.coeff i * (errors.weighed.syndromes (npar - 1)).coeff j)]
  have ranges : Finset.range index.succ ⊆ Finset.range (npar - 1) :=
    Finset.range_subset_range.mpr inside
  rw [← Finset.sum_subset ranges]
  · refine Finset.sum_congr rfl fun i member => ?_
    have reached := Nat.le_of_lt_succ (Finset.mem_range.mp member)
    rw [Finset.sum_eq_single_of_mem (index - i) (Finset.mem_range.mpr (by omega))]
    · rw [if_pos (by omega), getD_syndromes fits.le, if_pos (by omega),
        measured.element _ (by omega), Errors.coeff_syndromes, if_pos (by omega),
        Errors.syndrome_weighed]
    · intro j _ different
      exact if_neg (by omega)
  · intro i _ outside
    refine Finset.sum_eq_zero fun j _ => if_neg ?_
    rw [Finset.mem_range] at outside
    omega

/-- **The evaluator**: what the register leaves of the syndromes from the second on. -/
theorem Measured.evaluator (measured : Measured gf256_lawful errors syndrome npar)
    (some : errors.places.Nonempty) :
    Terms gf256_lawful (elocPoly (syndromes syndrome npar).2
        (berlekampMassey gf256 (syndromes syndrome npar).2 npar) (npar - 1)) ∧
      coefficients gf256_lawful (elocPoly (syndromes syndrome npar).2
        (berlekampMassey gf256 (syndromes syndrome npar).2 npar) (npar - 1)) =
        errors.weighed.evaluator := by
  obtain ⟨kept, found⟩ := measured.sigma
  have fits : npar - 1 < maxPoly := Nat.sub_lt_of_lt measured.fits
  have few := measured.few
  have positive := Finset.card_pos.mpr some
  have terms := (elocPoly_spec (syndromes syndrome npar).2
    (berlekampMassey gf256 (syndromes syndrome npar).2 npar) fits 0).1
  refine ⟨terms, ?_⟩
  ext index
  rw [terms.coeff, (elocPoly_spec _ _ fits index).2]
  simp only [← kept.coeff, found]
  by_cases inside : index < npar - 1
  · rw [sum_elocPoly measured inside]
    have vanishes := X_pow_dvd_iff.mp (errors.weighed.annihilates (npar - 1)) index inside
    rwa [Errors.locator_weighed, coeff_sub, sub_eq_zero] at vanishes
  · have low := mem_degreeLT.mp errors.weighed.evaluator_mem_degreeLT
    rw [coeff_eq_zero_of_degree_lt (low.trans_le (by
      change ((errors.places.card : Nat) : WithBot Nat) ≤ index
      exact_mod_cast (by omega : errors.places.card ≤ index)))]
    exact Finset.sum_eq_zero fun i _ => Finset.sum_eq_zero fun j _ => if_neg (by omega)

/-- **The value of an error**, as `correct_block` finds it. -/
theorem Measured.element_error (measured : Measured gf256_lawful errors syndrome npar)
    {place : Nat} (member : place ∈ errors.places) :
    let s := (syndromes syndrome npar).2
    let sigma := berlekampMassey gf256 s npar
    let xinv := gf256.expAt (255 - place)
    gf256_lawful.element (gf256.expAt ((255 -
        gf256.logAt (polyEval gf256 (sigmaDeriv sigma) xinv) +
        gf256.logAt (polyEval gf256 (elocPoly s sigma (npar - 1)) xinv)) % 255)) =
      errors.value place := by
  intro s sigma xinv
  obtain ⟨kept, found⟩ := measured.sigma
  obtain ⟨omegaTerms, omegaFound⟩ := measured.evaluator ⟨place, member⟩
  have inverse : gf256_lawful.element xinv = (errors.locate place)⁻¹ :=
    measured.element_inverse (measured.inside place member)
  have slope : gf256_lawful.element (polyEval gf256 (sigmaDeriv sigma) xinv) =
      (derivative errors.weighed.locator).eval (errors.weighed.locate place)⁻¹ := by
    rw [(terms_sigmaDeriv.element_polyEval (small256 xinv)).2, coefficients_sigmaDeriv kept, found,
      inverse]
    rfl
  have height : gf256_lawful.element (polyEval gf256 (elocPoly s sigma (npar - 1)) xinv) =
      errors.weighed.evaluator.eval (errors.weighed.locate place)⁻¹ := by
    rw [(omegaTerms.element_polyEval (small256 xinv)).2, omegaFound, inverse]
    rfl
  have weighedMember : place ∈ errors.weighed.places := member
  have value := Errors.value_eq weighedMember
  have nonzero := errors.locate_ne_zero place member
  rw [CharTwo.neg_eq] at value
  change _ = errors.value place * errors.locate place / errors.locate place at value
  rw [mul_div_cancel_right₀ _ nonzero, ← height, ← slope] at value
  have both : polyEval gf256 (elocPoly s sigma (npar - 1)) xinv ≠ 0 ∧
      polyEval gf256 (sigmaDeriv sigma) xinv ≠ 0 := by
    constructor <;> intro zero <;>
      rw [zero, gf256_lawful.element_zero] at value
    · rw [zero_div] at value
      exact errors.value_ne_zero place member value.symm
    · rw [div_zero] at value
      exact errors.value_ne_zero place member value.symm
  rw [← value, ← GaloisField.Lawful.element_div (small256 _) (small256 _) both.1 both.2]
  rfl

/-- A turn of the loop that corrects sets one byte right. -/
theorem getD_correctTurn (short : bs ≤ 255) (sentLength : sent.length = bs)
    (measured : Measured gf256_lawful (blockErrors data sent short) syndrome npar)
    {held : List UInt8} (heldLength : held.length = bs) {i : Nat} (inside : i < bs)
    (untouched : held.getD (bs - i - 1) 0 = data.getD (bs - i - 1) 0) (index : Nat) :
    let s := (syndromes syndrome npar).2
    let sigma := berlekampMassey gf256 s npar
    (correctTurn sigma (sigmaDeriv sigma) (elocPoly s sigma (npar - 1)) bs held i).getD index 0 =
      if index = bs - i - 1 then sent.getD index 0 else held.getD index 0 := by
  intro s sigma
  have root : polyEval gf256 sigma (gf256.expAt (255 - i)) = 0 ↔
      i ∈ (blockErrors data sent short).places := measured.root_iff (inside.trans_le short)
  rw [correctTurn]
  by_cases member : i ∈ (blockErrors data sent short).places
  · rw [if_pos (root.mpr member), getD_xorAt _ _ _ _ (by omega)]
    split
    · next same =>
        rw [same, untouched, ← element256_inj, gf256_lawful.element_xor,
          measured.element_error member]
        exact CharTwo.add_cancel_left _ _
    · rfl
  · rw [if_neg (mt root.mp member)]
    split
    · next same =>
        have right : ¬(i < bs ∧ data.getD (bs - i - 1) 0 ≠ sent.getD (bs - i - 1) 0) := by
          simpa [blockErrors, wrongEnds] using member
        rw [same, untouched]
        exact not_not.mp fun differ => right ⟨inside, differ⟩
    · rfl

private theorem length_correctTurn (sigma deriv omega : List UInt8) (bs : Nat) (data : List UInt8)
    (i : Nat) : (correctTurn sigma deriv omega bs data i).length = data.length := by
  rw [correctTurn]
  split
  · exact length_xorAt _ _ _
  · rfl

/-- The loop that corrects: the bytes at the end are right after as many turns. -/
theorem getD_corrected (short : bs ≤ 255) (length : data.length = bs)
    (sentLength : sent.length = bs)
    (measured : Measured gf256_lawful (blockErrors data sent short) syndrome npar) {turns : Nat}
    (fewer : turns ≤ bs) :
    let s := (syndromes syndrome npar).2
    let sigma := berlekampMassey gf256 s npar
    let held := (List.range turns).foldl
      (correctTurn sigma (sigmaDeriv sigma) (elocPoly s sigma (npar - 1)) bs) data
    held.length = bs ∧ ∀ index < bs,
      held.getD index 0 = if bs ≤ index + turns then sent.getD index 0 else data.getD index 0 := by
  intro s sigma
  induction turns with
  | zero =>
      refine ⟨length, fun index inside => ?_⟩
      rw [if_neg (by omega)]
      rfl
  | succ turns ih =>
      obtain ⟨heldLength, held⟩ := ih (Nat.le_of_succ_le fewer)
      rw [List.range_succ, List.foldl_append]
      refine ⟨(length_correctTurn _ _ _ _ _ _).trans heldLength, fun index inside => ?_⟩
      have untouched := held (bs - turns - 1) (by omega)
      rw [if_neg (by omega)] at untouched
      rw [List.foldl_cons, List.foldl_nil,
        getD_correctTurn short sentLength measured heldLength fewer untouched, held index inside]
      split
      · next same => rw [if_pos (by omega)]
      · next differ =>
          refine if_congr ?_ rfl rfl
          omega

private theorem eq_of_getD {first second : List UInt8} (length : first.length = second.length)
    (same : ∀ index < first.length, first.getD index 0 = second.getD index 0) : first = second := by
  refine List.ext_getElem length fun index firstLess secondLess => ?_
  rw [← List.getD_eq_getElem first 0 firstLess, ← List.getD_eq_getElem second 0 secondLess]
  exact same index firstLess

/-- **Correcting a block**: a block with at most half as many wrong bytes as it has bytes for
correction becomes the block that was sent. -/
theorem correctBlock_eq {ecc : RsParams} (length : data.length = ecc.bs)
    (sentLength : sent.length = ecc.bs) (codeword : Codeword (ecc.bs - ecc.dw) sent)
    (short : ecc.bs ≤ 255) (fits : ecc.bs - ecc.dw < maxPoly)
    (few : wrongBytes data sent ecc.bs * 2 ≤ ecc.bs - ecc.dw) :
    correctBlock data ecc = .ok sent := by
  have measured := measured_block short length sentLength codeword fits few
  have clean : (blockSyndromes sent ecc.bs (ecc.bs - ecc.dw)).1 = false := by
    refine (measured_block short sentLength sentLength codeword fits ?_).fst_eq_false.mpr ?_
    · simp [wrongBytes]
    · simp [blockErrors, wrongEnds]
  rw [correctBlock]
  dsimp only
  by_cases none : (blockSyndromes data ecc.bs (ecc.bs - ecc.dw)).1 = false
  · rw [if_pos none]
    have places := measured.fst_eq_false.mp none
    have zero : wrongBytes data sent ecc.bs = 0 := by
      rw [← card_wrongEnds, Finset.card_eq_zero]
      exact places
    rw [wrongBytes, Finset.card_eq_zero, Finset.filter_eq_empty_iff] at zero
    rw [eq_of_getD (length.trans sentLength.symm) fun index inside =>
      not_not.mp (zero (Finset.mem_range.mpr (length ▸ inside)))]
  rw [if_neg none]
  obtain ⟨heldLength, held⟩ := getD_corrected short length sentLength measured (Nat.le_refl ecc.bs)
  have restored : (List.range ecc.bs).foldl (correctTurn
      (berlekampMassey gf256 (blockSyndromes data ecc.bs (ecc.bs - ecc.dw)).2 (ecc.bs - ecc.dw))
      (sigmaDeriv (berlekampMassey gf256 (blockSyndromes data ecc.bs (ecc.bs - ecc.dw)).2
        (ecc.bs - ecc.dw)))
      (elocPoly (blockSyndromes data ecc.bs (ecc.bs - ecc.dw)).2
        (berlekampMassey gf256 (blockSyndromes data ecc.bs (ecc.bs - ecc.dw)).2 (ecc.bs - ecc.dw))
        (ecc.bs - ecc.dw - 1)) ecc.bs) data = sent := by
    refine eq_of_getD (heldLength.trans sentLength.symm) fun index inside => ?_
    have inBlock : index < ecc.bs := heldLength ▸ inside
    exact (held index inBlock).trans (if_pos (Nat.le_add_left _ _))
  rw [restored, clean, if_neg Bool.false_ne_true]

end Block

end VaultSeed.Quirc
