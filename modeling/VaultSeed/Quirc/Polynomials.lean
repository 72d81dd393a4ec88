import VaultSeed.Foundation.Accumulate
import VaultSeed.Foundation.Registers
import VaultSeed.Quirc.Galois
import Mathlib.Algebra.BigOperators.NatAntidiagonal
import Mathlib.Algebra.Polynomial.BigOperators

/-! # Polynomials of the scanner

`omv/img/qrcode.c` keeps a polynomial in an array of 64 bytes. Adding a multiple
(`VaultSeed.Quirc.Terms.polyAdd`), evaluating (`VaultSeed.Quirc.Terms.element_polyEval`) and the
algorithm of Berlekamp and Massey (`VaultSeed.Quirc.coefficients_berlekampMassey`) do to the arrays
what the operations of their names do to polynomials.
-/

namespace VaultSeed.Quirc

open Accumulate Polynomial Registers

/-- `MAX_POLY`. -/
def maxPoly : Nat := 64

/-- `poly_add`, a turn of the loop. -/
def polyAddTurn (gf : GaloisField) (src : List UInt8) (c : UInt8) (shift : Int) (dst : List UInt8)
    (i : Nat) : List UInt8 :=
  let p := (i : Int) + shift
  let v := src.getD i 0
  if p < 0 ∨ p ≥ maxPoly then dst
  else if v = 0 then dst
  else xorAt dst p.toNat (gf.expAt ((gf.logAt v + gf.logAt c) % gf.p))

/-- `poly_add`. -/
def polyAdd (gf : GaloisField) (dst src : List UInt8) (c : UInt8) (shift : Int) : List UInt8 :=
  if c = 0 then dst else (List.range maxPoly).foldl (polyAddTurn gf src c shift) dst

/-- `poly_eval`, a turn of the loop. -/
def polyEvalTurn (gf : GaloisField) (s : List UInt8) (x sum : UInt8) (i : Nat) : UInt8 :=
  let c := s.getD i 0
  if c = 0 then sum else sum ^^^ gf.expAt ((gf.logAt c + gf.logAt x * i) % gf.p)

/-- `poly_eval`. -/
def polyEval (gf : GaloisField) (s : List UInt8) (x : UInt8) : UInt8 :=
  if x = 0 then s.getD 0 0 else (List.range maxPoly).foldl (polyEvalTurn gf s x) 0

/-- What `berlekamp_massey` changes: `C`, `B`, `L`, `m` and `b`. -/
structure Massey where
  bigC : List UInt8
  bigB : List UInt8
  bigL : Nat
  m : Nat
  b : UInt8

/-- `berlekamp_massey`, before its loop. -/
def Massey.start : Massey where
  bigC := (List.replicate maxPoly 0).set 0 1
  bigB := (List.replicate maxPoly 0).set 0 1
  bigL := 0
  m := 1
  b := 1

/-- `berlekamp_massey`, a turn of the inner loop. -/
def discrepancyTurn (gf : GaloisField) (s bigC : List UInt8) (n : Nat) (d : UInt8) (before : Nat) :
    UInt8 :=
  let i := before + 1
  if bigC.getD i 0 = 0 ∨ s.getD (n - i) 0 = 0 then d
  else d ^^^ gf.expAt ((gf.logAt (bigC.getD i 0) + gf.logAt (s.getD (n - i) 0)) % gf.p)

/-- `berlekamp_massey`: `d`. -/
def discrepancy (gf : GaloisField) (s : List UInt8) (massey : Massey) (n : Nat) : UInt8 :=
  (List.range massey.bigL).foldl (discrepancyTurn gf s massey.bigC n) (s.getD n 0)

/-- `berlekamp_massey`, a turn of the loop. -/
def Massey.turn (gf : GaloisField) (s : List UInt8) (massey : Massey) (n : Nat) : Massey :=
  let d := discrepancy gf s massey n
  let mult := gf.expAt ((gf.p - gf.logAt massey.b + gf.logAt d) % gf.p)
  if d = 0 then { massey with m := massey.m + 1 }
  else if massey.bigL * 2 ≤ n then
    { bigC := polyAdd gf massey.bigC massey.bigB mult massey.m
      bigB := massey.bigC
      bigL := n + 1 - massey.bigL
      m := 1
      b := d }
  else
    { massey with
      bigC := polyAdd gf massey.bigC massey.bigB mult massey.m
      m := massey.m + 1 }

/-- `berlekamp_massey`: `sigma`. -/
def berlekampMassey (gf : GaloisField) (s : List UInt8) (count : Nat) : List UInt8 :=
  ((List.range count).foldl (Massey.turn gf s) .start).bigC

section Terms

variable {width : Nat} {gf : GaloisField} {polynomial : Galois.Word width}
  (lawful : gf.Lawful polynomial)

/-- An array of small bytes that holds a polynomial. -/
structure Terms (data : List UInt8) : Prop where
  length : data.length = maxPoly
  small : ∀ index, lawful.Small (data.getD index 0)

/-- The polynomial of an array. -/
noncomputable def coefficients (data : List UInt8) : lawful.Carrier[X] :=
  ∑ index ∈ Finset.range maxPoly, C (lawful.element (data.getD index 0)) * X ^ index

variable {lawful} {data dst src : List UInt8}

/-- Past its end a polynomial has no terms. -/
theorem Terms.getD_eq_zero (terms : Terms lawful data) {index : Nat} (past : maxPoly ≤ index) :
    data.getD index 0 = 0 := by
  rw [List.getD_eq_getElem?_getD, List.getElem?_eq_none (terms.length ▸ past)]
  rfl

/-- The coefficients of a polynomial are the elements of its bytes. -/
theorem Terms.coeff (terms : Terms lawful data) (index : Nat) :
    (coefficients lawful data).coeff index = lawful.element (data.getD index 0) := by
  rw [coefficients, finsetSum_coeff]
  simp only [coeff_C_mul_X_pow, Finset.sum_ite_eq, Finset.mem_range]
  split
  · rfl
  · next past => rw [terms.getD_eq_zero (Nat.not_lt.mp past), lawful.element_zero]

private theorem Terms.set (terms : Terms lawful data) (index : Nat) {value : UInt8}
    (small : lawful.Small value) : Terms lawful (data.set index value) where
  length := by rw [List.length_set, terms.length]
  small other := by
    by_cases inside : index < data.length
    · rw [getD_set _ _ _ _ _ inside]
      split
      · exact small
      · exact terms.small other
    · rw [List.set_eq_of_length_le (Nat.not_lt.mp inside)]
      exact terms.small other

/-- The polynomial that `memset` makes. -/
theorem terms_zero : Terms lawful (List.replicate maxPoly 0) where
  length := List.length_replicate
  small index := by
    rw [getD_replicate_zero]
    exact GaloisField.Lawful.small_zero

/-- Adding to one coefficient leaves a polynomial. -/
theorem Terms.xorAt (terms : Terms lawful data) (index : Nat) {value : UInt8}
    (small : lawful.Small value) : Terms lawful (xorAt data index value) :=
  terms.set index (GaloisField.Lawful.small_xor (terms.small index) small)

/-- A term more, in the elements. -/
theorem Terms.element_xorAt (terms : Terms lawful data) {index : Nat} (inside : index < maxPoly)
    (other : Nat) (value : UInt8) :
    lawful.element ((Accumulate.xorAt data index value).getD other 0) =
      lawful.element (data.getD other 0) + if other = index then lawful.element value else 0 := by
  rw [getD_xorAt _ _ _ _ (terms.length ▸ inside)]
  split
  · exact lawful.element_xor _ _
  · rw [add_zero]

private theorem Terms.polyAddTurn (terms : Terms lawful dst) (srcTerms : Terms lawful src)
    {c : UInt8}
    (small : lawful.Small c) (some : c ≠ 0) (shift index i : Nat) (inside : index < maxPoly) :
    Terms lawful (polyAddTurn gf src c shift dst i) ∧
      lawful.element ((Quirc.polyAddTurn gf src c shift dst i).getD index 0) =
        lawful.element (dst.getD index 0) +
          if i + shift = index then lawful.element (src.getD i 0) * lawful.element c else 0 := by
  rw [Quirc.polyAddTurn]
  by_cases outside : ((i : Int) + shift < 0 ∨ (i : Int) + shift ≥ maxPoly)
  · rw [if_pos outside, if_neg (by omega), add_zero]
    exact ⟨terms, rfl⟩
  rw [if_neg outside]
  have place : ((i : Int) + shift).toNat = i + shift := by omega
  by_cases none : src.getD i 0 = 0
  · rw [if_pos none, none, lawful.element_zero, zero_mul, ite_self, add_zero]
    exact ⟨terms, rfl⟩
  rw [if_neg none, place]
  refine ⟨terms.xorAt _ (GaloisField.Lawful.small_expAt_mod _), ?_⟩
  rw [terms.element_xorAt (by omega),
    GaloisField.Lawful.element_mul (srcTerms.small i) small none some]
  simp only [eq_comm]

/-- **Adding a multiple of a shifted polynomial.** Terms past the end of the array are lost. -/
theorem Terms.polyAdd (terms : Terms lawful dst) (srcTerms : Terms lawful src) {c : UInt8}
    (small : lawful.Small c) (shift : Nat)
    (fits : ∀ i, src.getD i 0 ≠ 0 → i + shift < maxPoly) :
    Terms lawful (polyAdd gf dst src c shift) ∧
      coefficients lawful (Quirc.polyAdd gf dst src c shift) = coefficients lawful dst +
        C (lawful.element c) * (X ^ shift * coefficients lawful src) := by
  rw [Quirc.polyAdd]
  by_cases none : c = 0
  · rw [if_pos none, none, lawful.element_zero, map_zero, zero_mul, add_zero]
    exact ⟨terms, rfl⟩
  rw [if_neg none]
  have turns := fun index (inside : index < maxPoly) =>
    foldl_range (fun data => lawful.element (data.getD index 0)) (Terms lawful)
      (fun dst i (_ : i < maxPoly) kept =>
        kept.polyAddTurn srcTerms small none shift index i inside) terms
  have kept := (turns 0 (by decide)).1
  refine ⟨kept, ?_⟩
  ext index
  rw [kept.coeff, coeff_add, terms.coeff, coeff_C_mul, coeff_X_pow_mul']
  by_cases inside : index < maxPoly
  · rw [(turns index inside).2]
    congr 1
    by_cases reached : shift ≤ index
    · rw [if_pos reached, srcTerms.coeff, Finset.sum_eq_single_of_mem (index - shift)]
      · rw [if_pos (Nat.sub_add_cancel reached), mul_comm]
      · exact Finset.mem_range.mpr (by omega)
      · intro i _ different
        exact if_neg (by omega)
    · rw [if_neg reached, mul_zero]
      exact Finset.sum_eq_zero fun i _ => if_neg (by omega)
  · have past := Nat.not_lt.mp inside
    rw [kept.getD_eq_zero past, terms.getD_eq_zero past, lawful.element_zero, zero_add]
    split
    · next reached =>
        have lost : src.getD (index - shift) 0 = 0 := by
          by_contra some
          have less := fits _ some
          omega
        rw [srcTerms.coeff, lost, lawful.element_zero, mul_zero]
    · rw [mul_zero]

/-- **Evaluating a polynomial.** -/
theorem Terms.element_polyEval (terms : Terms lawful data) {x : UInt8} (small : lawful.Small x) :
    lawful.Small (polyEval gf data x) ∧
      lawful.element (polyEval gf data x) =
        (coefficients lawful data).eval (lawful.element x) := by
  have evaluated : (coefficients lawful data).eval (lawful.element x) =
      ∑ i ∈ Finset.range maxPoly, lawful.element (data.getD i 0) * lawful.element x ^ i := by
    rw [coefficients, eval_finsetSum]
    simp only [eval_mul, eval_C, eval_pow, eval_X]
  rw [evaluated, polyEval]
  by_cases zero : x = 0
  · rw [if_pos zero, zero, lawful.element_zero]
    refine ⟨terms.small 0, ?_⟩
    rw [Finset.sum_eq_single_of_mem 0 (Finset.mem_range.mpr (by decide)), pow_zero, mul_one]
    intro i _ different
    rw [zero_pow different, mul_zero]
  rw [if_neg zero, ← zero_add (∑ i ∈ _, _), ← lawful.element_zero]
  refine foldl_range lawful.element lawful.Small (fun sum i _ kept => ?_)
    GaloisField.Lawful.small_zero
  rw [polyEvalTurn]
  by_cases none : data.getD i 0 = 0
  · rw [if_pos none, none, lawful.element_zero, zero_mul, add_zero]
    exact ⟨kept, rfl⟩
  · rw [if_neg none, lawful.element_xor, GaloisField.Lawful.element_expAt_mod, pow_add, pow_mul,
      ← GaloisField.Lawful.element_eq_pow (terms.small i) none,
      ← GaloisField.Lawful.element_eq_pow small zero]
    exact ⟨GaloisField.Lawful.small_xor kept (GaloisField.Lawful.small_expAt_mod _), rfl⟩

end Terms

section Massey

variable {width : Nat} {gf : GaloisField} {polynomial : Galois.Word width}
  {lawful : gf.Lawful polynomial} {s : List UInt8} {massey : Massey}
  {search : Search lawful.Carrier} {n : Nat}

/-- The arrays hold what a search for a register has found. -/
structure Massey.Follows (lawful : gf.Lawful polynomial) (massey : Massey)
    (search : Search lawful.Carrier) : Prop where
  termsC : Terms lawful massey.bigC
  termsB : Terms lawful massey.bigB
  small : lawful.Small massey.b
  register : coefficients lawful massey.bigC = search.register
  former : X ^ massey.m * coefficients lawful massey.bigB = search.former
  length : massey.bigL = search.length
  last : lawful.element massey.b = search.last

/-- The coefficient of the product that the inner loop adds up. -/
theorem coeff_register_mul (correct : search.Correct (coefficients lawful s) n)
    (terms : Terms lawful s) :
    (search.register * coefficients lawful s).coeff n = lawful.element (s.getD n 0) +
      ∑ i ∈ Finset.range search.length,
        search.register.coeff (i + 1) * lawful.element (s.getD (n - (i + 1)) 0) := by
  have short := correct.short
  rw [coeff_mul, Finset.Nat.sum_antidiagonal_eq_sum_range_succ
    (fun i j => search.register.coeff i * (coefficients lawful s).coeff j)]
  have rest : ∑ i ∈ Finset.range n.succ,
      search.register.coeff i * (coefficients lawful s).coeff (n - i) =
      ∑ i ∈ Finset.range (search.length + 1),
        search.register.coeff i * (coefficients lawful s).coeff (n - i) := by
    refine (Finset.sum_subset (Finset.range_subset_range.mpr (by omega)) ?_).symm
    intro i _ outside
    have past : search.register.natDegree < i := by
      have degree := correct.degree
      rw [Finset.mem_range] at outside
      omega
    rw [coeff_eq_zero_of_natDegree_lt past, zero_mul]
  rw [rest, Finset.sum_range_succ', correct.monic, one_mul, Nat.sub_zero, terms.coeff, add_comm]
  simp only [terms.coeff]

private theorem Massey.Follows.discrepancy (follows : massey.Follows lawful search)
    (correct : search.Correct (coefficients lawful s) n) (terms : Terms lawful s) :
    lawful.Small (discrepancy gf s massey n) ∧
      lawful.element (Quirc.discrepancy gf s massey n) =
        (search.register * coefficients lawful s).coeff n := by
  rw [coeff_register_mul correct terms, Quirc.discrepancy, follows.length, ← follows.register]
  refine foldl_range lawful.element lawful.Small (fun d i _ kept => ?_) (terms.small n)
  rw [discrepancyTurn, follows.termsC.coeff]
  have firstSmall := follows.termsC.small (i + 1)
  have secondSmall := terms.small (n - (i + 1))
  by_cases zero : massey.bigC.getD (i + 1) 0 = 0 ∨ s.getD (n - (i + 1)) 0 = 0
  · rw [if_pos zero]
    refine ⟨kept, ?_⟩
    rcases zero with zero | zero <;> simp only [zero, lawful.element_zero, zero_mul, mul_zero,
      add_zero]
  · rw [if_neg zero, lawful.element_xor, GaloisField.Lawful.element_mul firstSmall secondSmall
      (fun none => zero (.inl none)) fun none => zero (.inr none)]
    exact ⟨GaloisField.Lawful.small_xor kept (GaloisField.Lawful.small_expAt_mod _), rfl⟩

/-- The repaired register in the array: subtracting adds. -/
theorem Massey.Follows.repaired (follows : massey.Follows lawful search)
    (correct : search.Correct (coefficients lawful s) n) (terms : Terms lawful s)
    (inside : n + 1 < maxPoly) (some : Quirc.discrepancy gf s massey n ≠ 0) :
    Terms lawful (polyAdd gf massey.bigC massey.bigB (gf.expAt
        ((gf.p - gf.logAt massey.b + gf.logAt (Quirc.discrepancy gf s massey n)) % gf.p))
        massey.m) ∧
      coefficients lawful (polyAdd gf massey.bigC massey.bigB (gf.expAt
        ((gf.p - gf.logAt massey.b + gf.logAt (Quirc.discrepancy gf s massey n)) % gf.p))
        massey.m) =
        search.register - C ((search.register * coefficients lawful s).coeff n / search.last) *
          search.former := by
  obtain ⟨small, value⟩ := follows.discrepancy correct terms
  have nonzero : massey.b ≠ 0 := by
    intro zero
    have last := follows.last
    rw [zero, lawful.element_zero] at last
    exact correct.last last.symm
  have fits : ∀ i, massey.bigB.getD i 0 ≠ 0 → i + massey.m < maxPoly := by
    intro i some
    have coefficient : search.former.coeff (i + massey.m) ≠ 0 := by
      rw [← follows.former, coeff_X_pow_mul, follows.termsB.coeff]
      exact fun zero => some ((GaloisField.Lawful.element_eq_zero (follows.termsB.small i)).mp zero)
    have degree := le_natDegree_of_ne_zero coefficient
    have bound := correct.formerDegree
    omega
  obtain ⟨kept, added⟩ := follows.termsC.polyAdd follows.termsB
    (GaloisField.Lawful.small_expAt_mod _) massey.m fits
  refine ⟨kept, added.trans ?_⟩
  rw [GaloisField.Lawful.element_div small follows.small some nonzero, value, follows.last,
    follows.former, follows.register, CharTwo.sub_eq_add]

/-- **A turn follows a step of the search.** -/
theorem Massey.Follows.turn (follows : massey.Follows lawful search)
    (correct : search.Correct (coefficients lawful s) n) (terms : Terms lawful s)
    (inside : n + 1 < maxPoly) :
    (massey.turn gf s n).Follows lawful (search.step (coefficients lawful s) n) := by
  obtain ⟨small, value⟩ := follows.discrepancy correct terms
  have zero_iff : Quirc.discrepancy gf s massey n = 0 ↔
      (search.register * coefficients lawful s).coeff n = 0 := by
    rw [← value, GaloisField.Lawful.element_eq_zero small]
  have later : X ^ (massey.m + 1) * coefficients lawful massey.bigB = X * search.former := by
    rw [pow_succ', mul_assoc, follows.former]
  rw [Massey.turn, Search.step]
  by_cases none : Quirc.discrepancy gf s massey n = 0
  · rw [if_pos none, if_pos (zero_iff.mp none)]
    exact { follows with former := later }
  rw [if_neg none, if_neg (mt zero_iff.mpr none)]
  obtain ⟨kept, repaired⟩ := follows.repaired correct terms inside none
  by_cases grows : massey.bigL * 2 ≤ n
  · rw [if_pos grows, if_pos (follows.length ▸ grows)]
    exact {
      termsC := kept
      termsB := follows.termsC
      small := small
      register := repaired
      former := by
        dsimp only
        rw [pow_one, follows.register]
      length := by
        dsimp only
        rw [follows.length]
      last := value }
  · rw [if_neg grows, if_neg (follows.length ▸ grows)]
    exact { follows with termsC := kept, register := repaired, former := later }

private theorem terms_one : Terms lawful ((List.replicate maxPoly 0).set 0 1) :=
  terms_zero.set 0 GaloisField.Lawful.small_one

private theorem coefficients_one : coefficients lawful ((List.replicate maxPoly 0).set 0 1) =
    1 := by
  ext index
  rw [terms_one.coeff, getD_set _ _ _ _ _ (by decide), coeff_one]
  split
  · exact GaloisField.Lawful.element_one
  · rw [getD_replicate_zero, lawful.element_zero]

private theorem Massey.start_follows : Massey.start.Follows lawful Search.start where
  termsC := terms_one
  termsB := terms_one
  small := GaloisField.Lawful.small_one
  register := coefficients_one
  former := by
    change X ^ 1 * coefficients lawful ((List.replicate maxPoly 0).set 0 1) = X
    rw [coefficients_one, pow_one, mul_one]
  length := rfl
  last := GaloisField.Lawful.element_one

/-- **The algorithm of Berlekamp and Massey** finds what the search finds. -/
theorem coefficients_berlekampMassey (terms : Terms lawful s) {count : Nat}
    (few : count < maxPoly) :
    Terms lawful (berlekampMassey gf s count) ∧
      coefficients lawful (berlekampMassey gf s count) =
        (Search.run (coefficients lawful s) count).register := by
  have follows : ∀ turns ≤ count, ((List.range turns).foldl (Massey.turn gf s) .start).Follows
      lawful (Search.run (coefficients lawful s) turns) := by
    intro turns fewer
    induction turns with
    | zero => exact Massey.start_follows
    | succ turns ih =>
        rw [List.range_succ, List.foldl_append, run_succ]
        exact (ih (Nat.le_of_succ_le fewer)).turn (run_correct _ _) terms (by omega)
  have last := follows count (Nat.le_refl count)
  exact ⟨last.termsC, last.register⟩

end Massey

end VaultSeed.Quirc
