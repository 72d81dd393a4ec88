import VaultSeed.Foundation.Galois

/-! # The fields of the scanner

`omv/img/qrcode.c` computes in the fields of 16 and of 256 elements with tables of the powers of a
generator and of their exponents. The tables are those of `VaultSeed.Quirc.powers16` and
`VaultSeed.Quirc.powers256`: a byte is a word of bits, `^` adds, and a look-up of a sum of exponents
multiplies (`VaultSeed.Quirc.GaloisField.Computes`).
-/

namespace VaultSeed.Quirc

open Galois

/-- `struct galois_field`. -/
structure GaloisField where
  p : Nat
  log : List UInt8
  exp : List UInt8

/-- `gf16_exp`. -/
def gf16Exp : List UInt8 :=
  [0x01, 0x02, 0x04, 0x08, 0x03, 0x06, 0x0c, 0x0b, 0x05, 0x0a, 0x07, 0x0e,
    0x0f, 0x0d, 0x09, 0x01]

/-- `gf16_log`. -/
def gf16Log : List UInt8 :=
  [0x00, 0x0f, 0x01, 0x04, 0x02, 0x08, 0x05, 0x0a, 0x03, 0x0e, 0x09, 0x07,
    0x06, 0x0d, 0x0b, 0x0c]

/-- `gf16`. -/
def gf16 : GaloisField := ⟨15, gf16Log, gf16Exp⟩

/-- `gf256_exp`. -/
def gf256Exp : List UInt8 :=
  [0x01, 0x02, 0x04, 0x08, 0x10, 0x20, 0x40, 0x80, 0x1d, 0x3a, 0x74, 0xe8, 0xcd, 0x87, 0x13, 0x26,
    0x4c, 0x98, 0x2d, 0x5a, 0xb4, 0x75, 0xea, 0xc9, 0x8f, 0x03, 0x06, 0x0c, 0x18, 0x30, 0x60, 0xc0,
    0x9d, 0x27, 0x4e, 0x9c, 0x25, 0x4a, 0x94, 0x35, 0x6a, 0xd4, 0xb5, 0x77, 0xee, 0xc1, 0x9f, 0x23,
    0x46, 0x8c, 0x05, 0x0a, 0x14, 0x28, 0x50, 0xa0, 0x5d, 0xba, 0x69, 0xd2, 0xb9, 0x6f, 0xde, 0xa1,
    0x5f, 0xbe, 0x61, 0xc2, 0x99, 0x2f, 0x5e, 0xbc, 0x65, 0xca, 0x89, 0x0f, 0x1e, 0x3c, 0x78, 0xf0,
    0xfd, 0xe7, 0xd3, 0xbb, 0x6b, 0xd6, 0xb1, 0x7f, 0xfe, 0xe1, 0xdf, 0xa3, 0x5b, 0xb6, 0x71, 0xe2,
    0xd9, 0xaf, 0x43, 0x86, 0x11, 0x22, 0x44, 0x88, 0x0d, 0x1a, 0x34, 0x68, 0xd0, 0xbd, 0x67, 0xce,
    0x81, 0x1f, 0x3e, 0x7c, 0xf8, 0xed, 0xc7, 0x93, 0x3b, 0x76, 0xec, 0xc5, 0x97, 0x33, 0x66, 0xcc,
    0x85, 0x17, 0x2e, 0x5c, 0xb8, 0x6d, 0xda, 0xa9, 0x4f, 0x9e, 0x21, 0x42, 0x84, 0x15, 0x2a, 0x54,
    0xa8, 0x4d, 0x9a, 0x29, 0x52, 0xa4, 0x55, 0xaa, 0x49, 0x92, 0x39, 0x72, 0xe4, 0xd5, 0xb7, 0x73,
    0xe6, 0xd1, 0xbf, 0x63, 0xc6, 0x91, 0x3f, 0x7e, 0xfc, 0xe5, 0xd7, 0xb3, 0x7b, 0xf6, 0xf1, 0xff,
    0xe3, 0xdb, 0xab, 0x4b, 0x96, 0x31, 0x62, 0xc4, 0x95, 0x37, 0x6e, 0xdc, 0xa5, 0x57, 0xae, 0x41,
    0x82, 0x19, 0x32, 0x64, 0xc8, 0x8d, 0x07, 0x0e, 0x1c, 0x38, 0x70, 0xe0, 0xdd, 0xa7, 0x53, 0xa6,
    0x51, 0xa2, 0x59, 0xb2, 0x79, 0xf2, 0xf9, 0xef, 0xc3, 0x9b, 0x2b, 0x56, 0xac, 0x45, 0x8a, 0x09,
    0x12, 0x24, 0x48, 0x90, 0x3d, 0x7a, 0xf4, 0xf5, 0xf7, 0xf3, 0xfb, 0xeb, 0xcb, 0x8b, 0x0b, 0x16,
    0x2c, 0x58, 0xb0, 0x7d, 0xfa, 0xe9, 0xcf, 0x83, 0x1b, 0x36, 0x6c, 0xd8, 0xad, 0x47, 0x8e, 0x01]

/-- `gf256_log`. -/
def gf256Log : List UInt8 :=
  [0x00, 0xff, 0x01, 0x19, 0x02, 0x32, 0x1a, 0xc6, 0x03, 0xdf, 0x33, 0xee, 0x1b, 0x68, 0xc7, 0x4b,
    0x04, 0x64, 0xe0, 0x0e, 0x34, 0x8d, 0xef, 0x81, 0x1c, 0xc1, 0x69, 0xf8, 0xc8, 0x08, 0x4c, 0x71,
    0x05, 0x8a, 0x65, 0x2f, 0xe1, 0x24, 0x0f, 0x21, 0x35, 0x93, 0x8e, 0xda, 0xf0, 0x12, 0x82, 0x45,
    0x1d, 0xb5, 0xc2, 0x7d, 0x6a, 0x27, 0xf9, 0xb9, 0xc9, 0x9a, 0x09, 0x78, 0x4d, 0xe4, 0x72, 0xa6,
    0x06, 0xbf, 0x8b, 0x62, 0x66, 0xdd, 0x30, 0xfd, 0xe2, 0x98, 0x25, 0xb3, 0x10, 0x91, 0x22, 0x88,
    0x36, 0xd0, 0x94, 0xce, 0x8f, 0x96, 0xdb, 0xbd, 0xf1, 0xd2, 0x13, 0x5c, 0x83, 0x38, 0x46, 0x40,
    0x1e, 0x42, 0xb6, 0xa3, 0xc3, 0x48, 0x7e, 0x6e, 0x6b, 0x3a, 0x28, 0x54, 0xfa, 0x85, 0xba, 0x3d,
    0xca, 0x5e, 0x9b, 0x9f, 0x0a, 0x15, 0x79, 0x2b, 0x4e, 0xd4, 0xe5, 0xac, 0x73, 0xf3, 0xa7, 0x57,
    0x07, 0x70, 0xc0, 0xf7, 0x8c, 0x80, 0x63, 0x0d, 0x67, 0x4a, 0xde, 0xed, 0x31, 0xc5, 0xfe, 0x18,
    0xe3, 0xa5, 0x99, 0x77, 0x26, 0xb8, 0xb4, 0x7c, 0x11, 0x44, 0x92, 0xd9, 0x23, 0x20, 0x89, 0x2e,
    0x37, 0x3f, 0xd1, 0x5b, 0x95, 0xbc, 0xcf, 0xcd, 0x90, 0x87, 0x97, 0xb2, 0xdc, 0xfc, 0xbe, 0x61,
    0xf2, 0x56, 0xd3, 0xab, 0x14, 0x2a, 0x5d, 0x9e, 0x84, 0x3c, 0x39, 0x53, 0x47, 0x6d, 0x41, 0xa2,
    0x1f, 0x2d, 0x43, 0xd8, 0xb7, 0x7b, 0xa4, 0x76, 0xc4, 0x17, 0x49, 0xec, 0x7f, 0x0c, 0x6f, 0xf6,
    0x6c, 0xa1, 0x3b, 0x52, 0x29, 0x9d, 0x55, 0xaa, 0xfb, 0x60, 0x86, 0xb1, 0xbb, 0xcc, 0x3e, 0x5a,
    0xcb, 0x59, 0x5f, 0xb0, 0x9c, 0xa9, 0xa0, 0x51, 0x0b, 0xf5, 0x16, 0xeb, 0x7a, 0x75, 0x2c, 0xd7,
    0x4f, 0xae, 0xd5, 0xe9, 0xe6, 0xe7, 0xad, 0xe8, 0x74, 0xd6, 0xf4, 0xea, 0xa8, 0x50, 0x58, 0xaf]

/-- `gf256`. -/
def gf256 : GaloisField := ⟨255, gf256Log, gf256Exp⟩

variable {width : Nat}

namespace GaloisField

variable (gf : GaloisField)

/-- `gf->exp[index]`. -/
def expAt (index : Nat) : UInt8 := gf.exp.getD index 0

/-- `gf->log[value]`. -/
def logAt (value : UInt8) : Nat := (gf.log.getD value.toNat 0).toNat

end GaloisField

/-- The low bits of a byte. -/
def word (width : Nat) (byte : UInt8) : Word width := ⟨byte.toBitVec.setWidth width⟩

private theorem word_zero (width : Nat) : word width 0 = 0 := by
  ext1
  exact BitVec.setWidth_zero ..

private theorem word_xor (width : Nat) (first second : UInt8) :
    word width (first ^^^ second) = word width first + word width second := by
  ext1
  exact BitVec.setWidth_xor

/-- A byte of no more bits than a word is its word. -/
theorem word_inj {first second : UInt8} (firstSmall : first.toNat < 2 ^ width)
    (secondSmall : second.toNat < 2 ^ width) (same : word width first = word width second) :
    first = second := by
  have values := congrArg (fun word : Word width => word.bits.toNat) same
  simp only [word, BitVec.toNat_setWidth, UInt8.toNat_toBitVec, Nat.mod_eq_of_lt firstSmall,
    Nat.mod_eq_of_lt secondSmall] at values
  exact UInt8.toNat_inj.mp values

/-- The reduction of a word that a shift makes too long. -/
def overflow (polynomial word : Word width) : Word width := if word.bits.msb then polynomial else 0

private theorem overflow_add (polynomial first second : Word width) :
    overflow polynomial (first + second) =
      overflow polynomial first + overflow polynomial second := by
  unfold overflow
  rw [Word.bits_add, BitVec.msb_xor]
  cases first.bits.msb <;> cases second.bits.msb <;> simp [Word.add_self]

/-- Doubling: a shift, and the reduction by a polynomial. -/
def double (polynomial : Word width) : Word width →+ Word width where
  toFun word := ⟨word.bits <<< 1⟩ + overflow polynomial word
  map_zero' := by
    ext1
    simp [overflow, Word.bits_zero]
  map_add' first second := by
    have shifted : (⟨(first + second).bits <<< 1⟩ : Word width) =
        ⟨first.bits <<< 1⟩ + ⟨second.bits <<< 1⟩ := by
      ext1
      exact BitVec.shiftLeft_xor_distrib ..
    rw [shifted, overflow_add, add_add_add_comm]

/-- The tables hold the powers of a generator and their exponents, one round of them. -/
structure GaloisField.Lawful (gf : GaloisField) (polynomial : Word width) : Prop where
  positive : 0 < gf.p
  narrow : width ≤ 8
  small : ∀ index ≤ gf.p, (gf.expAt index).toNat < 2 ^ width
  nonzero : ∀ index < gf.p, word width (gf.expAt index) ≠ 0
  doubles : ∀ index < gf.p,
    word width (gf.expAt (index + 1)) = double polynomial (word width (gf.expAt index))
  around : gf.expAt gf.p = gf.expAt 0
  one : gf.expAt 0 = 1
  log_le : ∀ value < 2 ^ width, gf.logAt (UInt8.ofNat value) ≤ gf.p
  exp_log : ∀ value < 2 ^ width, value ≠ 0 →
    gf.expAt (gf.logAt (UInt8.ofNat value)) = UInt8.ofNat value
  log_exp : ∀ index < gf.p, gf.logAt (gf.expAt index) % gf.p = index

/-- `gf16` is the field modulo x⁴ + x + 1. -/
theorem gf16_lawful : gf16.Lawful (word 4 0x3) where
  positive := by decide
  narrow := by decide
  small := by decide
  nonzero := by decide
  doubles := by decide
  around := rfl
  one := rfl
  log_le := by decide
  exp_log := by decide
  log_exp := by decide

private theorem gf256_expAt {index : Nat} (inside : index < gf256Exp.length) :
    gf256.expAt index = gf256Exp[index] := by
  rw [GaloisField.expAt, List.getD_eq_getElem?_getD]
  exact congrArg (Option.getD · 0) (List.getElem?_eq_getElem inside)

private theorem gf256_length : gf256Exp.length = 256 := by decide +kernel

private theorem gf256_nonzero {byte : UInt8} (member : byte ∈ gf256Exp) : word 8 byte ≠ 0 :=
  (by decide +kernel : ∀ byte ∈ gf256Exp, word 8 byte ≠ 0) byte member

private theorem gf256_doubles : gf256Exp.IsChain fun first second =>
    word 8 second = double (word 8 0x1d) (word 8 first) := by
  decide +kernel

/-- `gf256` is the field modulo x⁸ + x⁴ + x³ + x² + 1. -/
theorem gf256_lawful : gf256.Lawful (word 8 0x1d) where
  positive := by decide
  narrow := by decide
  small index _ := (gf256.expAt index).toNat_lt
  nonzero index inside := by
    have within : index < gf256Exp.length := gf256_length ▸ Nat.lt_succ_of_lt inside
    rw [gf256_expAt within]
    exact gf256_nonzero (List.getElem_mem within)
  doubles index inside := by
    have next : index + 1 < gf256Exp.length := gf256_length ▸ Nat.succ_lt_succ inside
    rw [gf256_expAt next, gf256_expAt (Nat.lt_of_succ_lt next)]
    exact List.isChain_iff_getElem.mp gf256_doubles index next
  around := rfl
  one := rfl
  log_le value _ := Nat.le_of_lt_succ (gf256.log.getD _ 0).toNat_lt
  exp_log := by decide +kernel
  log_exp := by decide +kernel

namespace GaloisField.Lawful

variable {gf : GaloisField} {polynomial : Word width}

/-- The table of powers goes around. -/
theorem expAt_mod (lawful : gf.Lawful polynomial) {index : Nat} (inside : index ≤ gf.p) :
    gf.expAt (index % gf.p) = gf.expAt index := by
  rcases Nat.lt_or_eq_of_le inside with less | rfl
  · rw [Nat.mod_eq_of_lt less]
  · rw [Nat.mod_self, lawful.around]

/-- The word of a number of its bits. -/
theorem word_ofNat (lawful : gf.Lawful polynomial) (value : Word width) :
    word width (UInt8.ofNat value.bits.toNat) = value := by
  have small : value.bits.toNat < 2 ^ 8 :=
    value.bits.isLt.trans_le (Nat.pow_le_pow_right (by decide) lawful.narrow)
  ext1
  apply BitVec.eq_of_toNat_eq
  rw [word, BitVec.toNat_setWidth, UInt8.toNat_toBitVec, UInt8.toNat_ofNat',
    Nat.mod_eq_of_lt small, Nat.mod_eq_of_lt value.bits.isLt]

/-- The powers that the tables hold. -/
def powers (lawful : gf.Lawful polynomial) : Powers width where
  double := double polynomial
  exp power := word width (gf.expAt (power % gf.p))
  log value := gf.logAt (UInt8.ofNat value.bits.toNat)
  period := gf.p
  positive := lawful.positive
  exp_succ power := by
    have inside := Nat.mod_lt power lawful.positive
    have next : power % gf.p + 1 ≤ gf.p := inside
    rw [← lawful.doubles _ inside, ← lawful.expAt_mod next, Nat.mod_add_mod]
  exp_period := by rw [Nat.mod_self, Nat.zero_mod]
  exp_ne_zero power := lawful.nonzero _ (Nat.mod_lt _ lawful.positive)
  exp_log value nonzero := by
    have some : value.bits.toNat ≠ 0 := by
      intro zero
      apply nonzero
      ext1
      exact BitVec.eq_of_toNat_eq zero
    rw [lawful.expAt_mod (lawful.log_le _ value.bits.isLt),
      lawful.exp_log _ value.bits.isLt some, lawful.word_ofNat]

/-- The elements of the field. -/
abbrev Carrier (lawful : gf.Lawful polynomial) : Type := lawful.powers.Element

/-- A byte as an element of the field. -/
def element (lawful : gf.Lawful polynomial) (byte : UInt8) : lawful.Carrier :=
  lawful.powers.element (word width byte)

/-- The generator. -/
def generator (lawful : gf.Lawful polynomial) : lawful.Carrier := lawful.powers.generator

/-- A byte that stands for an element. -/
def Small (_ : gf.Lawful polynomial) (byte : UInt8) : Prop := byte.toNat < 2 ^ width

variable (lawful : gf.Lawful polynomial)

/-- The element of zero. -/
@[simp] theorem element_zero : lawful.element 0 = 0 := by
  rw [element, word_zero, Powers.element_zero]

/-- `^` adds. -/
theorem element_xor (first second : UInt8) :
    lawful.element (first ^^^ second) = lawful.element first + lawful.element second := by
  rw [element, word_xor, Powers.element_add]
  rfl

variable {lawful}

/-- Zero is a byte of the field. -/
theorem small_zero : lawful.Small 0 := Nat.two_pow_pos width

/-- A sum of bytes of the field is one. -/
theorem small_xor {first second : UInt8} (firstSmall : lawful.Small first)
    (secondSmall : lawful.Small second) : lawful.Small (first ^^^ second) := by
  rw [Small, UInt8.toNat_xor]
  exact Nat.xor_lt_two_pow firstSmall secondSmall

/-- A byte of the field is known by its element. -/
theorem element_inj {first second : UInt8} (firstSmall : lawful.Small first)
    (secondSmall : lawful.Small second) :
    lawful.element first = lawful.element second ↔ first = second :=
  ⟨fun same => word_inj firstSmall secondSmall (Powers.element_injective same),
    fun same => same ▸ rfl⟩

/-- Only zero has the element zero. -/
theorem element_eq_zero {byte : UInt8} (small : lawful.Small byte) :
    lawful.element byte = 0 ↔ byte = 0 := by
  rw [← lawful.element_zero]
  exact element_inj small small_zero

/-- A look-up of a power. -/
theorem element_expAt {index : Nat} (inside : index ≤ gf.p) :
    lawful.element (gf.expAt index) = lawful.generator ^ index := by
  rw [generator, ← Powers.element_exp]
  change _ = lawful.powers.element (word width (gf.expAt (index % gf.p)))
  rw [lawful.expAt_mod inside]
  rfl

/-- A look-up of a sum of exponents. -/
theorem element_expAt_mod (power : Nat) :
    lawful.element (gf.expAt (power % gf.p)) = lawful.generator ^ power := by
  rw [generator, ← Powers.element_exp]
  rfl

/-- The powers in the table are bytes of the field. -/
theorem small_expAt {index : Nat} (inside : index ≤ gf.p) : lawful.Small (gf.expAt index) :=
  lawful.small index inside

/-- The powers that are looked up are bytes of the field. -/
theorem small_expAt_mod (power : Nat) : lawful.Small (gf.expAt (power % gf.p)) :=
  small_expAt (Nat.mod_lt _ lawful.positive).le

/-- One is a byte of the field. -/
theorem small_one : lawful.Small 1 := lawful.one ▸ small_expAt (Nat.zero_le _)

/-- The element of one. -/
theorem element_one : lawful.element 1 = 1 := by
  rw [← lawful.one, element_expAt (Nat.zero_le _), pow_zero]

/-- An element is the power that the table of exponents tells. -/
theorem element_eq_pow {byte : UInt8} (small : lawful.Small byte) (nonzero : byte ≠ 0) :
    lawful.element byte = lawful.generator ^ gf.logAt byte := by
  have some : byte.toNat ≠ 0 := fun zero => nonzero (UInt8.toNat_inj.mp zero)
  rw [← element_expAt (byte.ofNat_toNat ▸ lawful.log_le _ small)]
  have back := lawful.exp_log _ small some
  rw [UInt8.ofNat_toNat] at back
  rw [back]

private theorem logAt_le {byte : UInt8} (small : lawful.Small byte) : gf.logAt byte ≤ gf.p := by
  have le := lawful.log_le _ small
  rwa [UInt8.ofNat_toNat] at le

/-- The generator is not zero. -/
theorem generator_ne_zero : lawful.generator ≠ 0 := Powers.generator_ne_zero

/-- The powers of the generator go around. -/
theorem generator_pow_p : lawful.generator ^ gf.p = 1 := Powers.generator_pow_period

/-- The powers of one round are different. -/
theorem generator_pow_inj {first second : Nat} (firstLess : first < gf.p)
    (secondLess : second < gf.p) :
    lawful.generator ^ first = lawful.generator ^ second ↔ first = second := by
  constructor
  · intro same
    rw [← element_expAt firstLess.le, ← element_expAt secondLess.le,
      element_inj (small_expAt firstLess.le) (small_expAt secondLess.le)] at same
    rw [← lawful.log_exp first firstLess, same, lawful.log_exp second secondLess]
  · rintro rfl
    rfl

/-- A product, by the exponents. -/
theorem element_mul {first second : UInt8} (firstSmall : lawful.Small first)
    (secondSmall : lawful.Small second) (firstSome : first ≠ 0) (secondSome : second ≠ 0) :
    lawful.element (gf.expAt ((gf.logAt first + gf.logAt second) % gf.p)) =
      lawful.element first * lawful.element second := by
  rw [element_expAt_mod, pow_add, element_eq_pow firstSmall firstSome,
    element_eq_pow secondSmall secondSome]

/-- A quotient, by the exponents. -/
theorem element_div {first second : UInt8} (firstSmall : lawful.Small first)
    (secondSmall : lawful.Small second) (firstSome : first ≠ 0) (secondSome : second ≠ 0) :
    lawful.element (gf.expAt ((gf.p - gf.logAt second + gf.logAt first) % gf.p)) =
      lawful.element first / lawful.element second := by
  have inverse : lawful.generator ^ (gf.p - gf.logAt second) * lawful.generator ^ gf.logAt second =
      1 := by
    rw [← pow_add, Nat.sub_add_cancel (logAt_le secondSmall), generator_pow_p]
  rw [element_expAt_mod, pow_add, element_eq_pow firstSmall firstSome,
    element_eq_pow secondSmall secondSome, eq_div_iff (pow_ne_zero _ generator_ne_zero),
    mul_right_comm, inverse, one_mul]

end GaloisField.Lawful

end VaultSeed.Quirc
