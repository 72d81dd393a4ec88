import VaultSeed.Foundation.Bits
import VaultSeed.Qrcodegen.Codewords

/-! # Segments

`qrcodegen.c` writes a text as digits, as characters of a small set, or as bytes, in groups of bits
(`VaultSeed.Qrcodegen.makeNumeric_bits`, `VaultSeed.Qrcodegen.makeAlphanumeric_bits`), and predicts
how many bits these are (`VaultSeed.Qrcodegen.calcSegmentBitLength_eq`).
-/

namespace VaultSeed.Qrcodegen

/-- `enum qrcodegen_Mode`. -/
inductive Mode where
  | numeric
  | alphanumeric
  | byte
  | kanji
  | eci
  deriving DecidableEq, Repr

/-- The indicator of a mode. -/
def Mode.toNat : Mode → Nat
  | numeric => 0x1
  | alphanumeric => 0x2
  | byte => 0x4
  | kanji => 0x8
  | eci => 0x7

/-- `ALPHANUMERIC_CHARSET`: the digits, the letters and nine signs. -/
def alphanumericCharset : List UInt8 :=
  [48, 49, 50, 51, 52, 53, 54, 55, 56, 57, 65, 66, 67, 68, 69, 70, 71, 72, 73, 74, 75, 76, 77, 78,
    79, 80, 81, 82, 83, 84, 85, 86, 87, 88, 89, 90, 32, 36, 37, 42, 43, 45, 46, 47, 58]

/-- `INT16_MAX`. -/
def int16Max : Nat := 32767

/-- `struct qrcodegen_Segment`, with the bits that `data` holds. -/
structure Segment where
  mode : Mode
  numChars : Nat
  bits : List Bool

/-- `appendBitsToBuffer`: a buffer is the list of its bits. -/
def appendBitsToBuffer (val numBits : Nat) (buffer : List Bool) : List Bool :=
  buffer ++ Bits.ofDigit numBits val

/-- `qrcodegen_isNumeric`. -/
def isNumeric (text : List UInt8) : Bool := text.all fun c => decide (48 ≤ c ∧ c ≤ 57)

/-- `qrcodegen_isAlphanumeric`. -/
def isAlphanumeric (text : List UInt8) : Bool := text.all fun c => alphanumericCharset.contains c

/-- `calcSegmentBitLength`. -/
def calcSegmentBitLength (mode : Mode) (numChars : Nat) : Option Nat :=
  if numChars > int16Max then none
  else
    let result : Option Nat := match mode with
      | .numeric => some ((numChars * 10 + 2) / 3)
      | .alphanumeric => some ((numChars * 11 + 1) / 2)
      | .byte => some (numChars * 8)
      | .kanji => some (numChars * 13)
      | .eci => if numChars = 0 then some (3 * 8) else none
    result.filter fun bits => decide (bits ≤ int16Max)

/-- `qrcodegen_calcSegmentBufferSize`; nothing stands for `SIZE_MAX`. -/
def calcSegmentBufferSize (mode : Mode) (numChars : Nat) : Option Nat :=
  (calcSegmentBitLength mode numChars).map fun bits => (bits + 7) / 8

/-- `numCharCountBits`. -/
def numCharCountBits (mode : Mode) (version : Nat) : Nat :=
  let i := (version + 7) / 17
  match mode with
  | .numeric => [10, 12, 14].getD i 0
  | .alphanumeric => [9, 11, 13].getD i 0
  | .byte => [8, 16, 16].getD i 0
  | .kanji => [8, 10, 12].getD i 0
  | .eci => 0

/-- `qrcodegen_makeNumeric` and `qrcodegen_makeAlphanumeric`: `accumData`, `accumCount` and the
buffer. -/
structure Accum where
  data : Nat
  count : Nat
  bits : List Bool

/-- `qrcodegen_makeNumeric` and `qrcodegen_makeAlphanumeric`, a turn of the loop. -/
def Accum.turn (base group width : Nat) (accum : Accum) (value : Nat) : Accum :=
  let accumData := accum.data * base + value
  let accumCount := accum.count + 1
  if accumCount = group then ⟨0, 0, appendBitsToBuffer accumData width accum.bits⟩
  else ⟨accumData, accumCount, accum.bits⟩

/-- `qrcodegen_makeNumeric`. -/
def makeNumeric (digits : List UInt8) : Segment :=
  let accum := (digits.map fun c => c.toNat - 48).foldl (Accum.turn 10 3 10) ⟨0, 0, []⟩
  { mode := .numeric
    numChars := digits.length
    bits := if accum.count > 0 then
      appendBitsToBuffer accum.data (accum.count * 3 + 1) accum.bits else accum.bits }

/-- `qrcodegen_makeAlphanumeric`. -/
def makeAlphanumeric (text : List UInt8) : Segment :=
  let accum := (text.map alphanumericCharset.idxOf).foldl (Accum.turn 45 2 11) ⟨0, 0, []⟩
  { mode := .alphanumeric
    numChars := text.length
    bits := if accum.count > 0 then appendBitsToBuffer accum.data 6 accum.bits else accum.bits }

/-- The bits of bytes. -/
def bytesBits (data : List UInt8) : List Bool := Bits.spell 8 (data.map UInt8.toNat)

/-- `qrcodegen_makeBytes`, and the segment of bytes of `qrcodegen_encodeText`. -/
def makeBytes (data : List UInt8) : Segment := ⟨.byte, data.length, bytesBits data⟩

/-- `getTotalBits`, a turn of the loop. -/
def getTotalBitsTurn (version : Nat) (result : Option Nat) (seg : Segment) : Option Nat :=
  result.bind fun result =>
    let ccbits := numCharCountBits seg.mode version
    if seg.numChars ≥ 1 <<< ccbits then none
    else
      let result := result + (4 + ccbits + seg.bits.length)
      if result > int16Max then none else some result

/-- `getTotalBits`. -/
def getTotalBits (segs : List Segment) (version : Nat) : Option Nat :=
  segs.foldl (getTotalBitsTurn version) (some 0)

section Groups

/-- Digits in groups of three. -/
def numericBits : List Nat → List Bool
  | a :: b :: c :: rest => Bits.ofDigit 10 ((a * 10 + b) * 10 + c) ++ numericBits rest
  | [a, b] => Bits.ofDigit 7 (a * 10 + b)
  | [a] => Bits.ofDigit 4 a
  | [] => []

/-- Characters in groups of two. -/
def alphanumericBits : List Nat → List Bool
  | a :: b :: rest => Bits.ofDigit 11 (a * 45 + b) ++ alphanumericBits rest
  | [a] => Bits.ofDigit 6 a
  | [] => []

/-- The bits of a numeric segment are those of its digits. -/
theorem makeNumeric_bits (digits : List UInt8) :
    (makeNumeric digits).bits = numericBits (digits.map fun c => c.toNat - 48) := by
  have groups : ∀ (values : List Nat) (bits : List Bool),
      (let accum := values.foldl (Accum.turn 10 3 10) ⟨0, 0, bits⟩
        if accum.count > 0 then appendBitsToBuffer accum.data (accum.count * 3 + 1) accum.bits
        else accum.bits) = bits ++ numericBits values := by
    intro values
    induction values using numericBits.induct with
    | case1 a b c rest ih =>
        intro bits
        rw [numericBits, ← List.append_assoc, ← ih]
        simp [Accum.turn, appendBitsToBuffer]
    | case2 a b =>
        intro bits
        simp [Accum.turn, appendBitsToBuffer, numericBits]
    | case3 a =>
        intro bits
        simp [Accum.turn, appendBitsToBuffer, numericBits]
    | case4 =>
        intro bits
        simp [numericBits]
  exact (groups _ []).trans (List.nil_append _)

/-- The bits of an alphanumeric segment are those of its characters' places. -/
theorem makeAlphanumeric_bits (text : List UInt8) :
    (makeAlphanumeric text).bits = alphanumericBits (text.map alphanumericCharset.idxOf) := by
  have groups : ∀ (values : List Nat) (bits : List Bool),
      (let accum := values.foldl (Accum.turn 45 2 11) ⟨0, 0, bits⟩
        if accum.count > 0 then appendBitsToBuffer accum.data 6 accum.bits
        else accum.bits) = bits ++ alphanumericBits values := by
    intro values
    induction values using alphanumericBits.induct with
    | case1 a b rest ih =>
        intro bits
        rw [alphanumericBits, ← List.append_assoc, ← ih]
        simp [Accum.turn, appendBitsToBuffer]
    | case2 a =>
        intro bits
        simp [Accum.turn, appendBitsToBuffer, alphanumericBits]
    | case3 =>
        intro bits
        simp [alphanumericBits]
  exact (groups _ []).trans (List.nil_append _)

/-- Three digits take ten bits. -/
theorem length_numericBits (values : List Nat) :
    (numericBits values).length = (values.length * 10 + 2) / 3 := by
  induction values using numericBits.induct with
  | case1 a b c rest ih =>
      rw [numericBits, List.length_append, ih, Bits.length_ofDigit]
      simp only [List.length_cons]
      omega
  | case2 a b => simp [numericBits]
  | case3 a => simp [numericBits]
  | case4 => rfl

/-- Two characters take eleven bits. -/
theorem length_alphanumericBits (values : List Nat) :
    (alphanumericBits values).length = (values.length * 11 + 1) / 2 := by
  induction values using alphanumericBits.induct with
  | case1 a b rest ih =>
      rw [alphanumericBits, List.length_append, ih, Bits.length_ofDigit]
      simp only [List.length_cons]
      omega
  | case2 a => simp [alphanumericBits]
  | case3 => rfl

/-- A byte takes eight bits. -/
theorem length_bytesBits (data : List UInt8) : (bytesBits data).length = data.length * 8 := by
  rw [bytesBits, Bits.length_spell, List.length_map]

/-- **The predicted length** of a segment is that of its bits. -/
theorem calcSegmentBitLength_eq {segment : Segment} {text : List UInt8}
    (made : segment = makeNumeric text ∨ segment = makeAlphanumeric text ∨
      segment = makeBytes text) :
    calcSegmentBitLength segment.mode text.length =
      if text.length ≤ int16Max ∧ segment.bits.length ≤ int16Max then some segment.bits.length
      else none := by
  have length : (match segment.mode with
      | .numeric => some ((text.length * 10 + 2) / 3)
      | .alphanumeric => some ((text.length * 11 + 1) / 2)
      | .byte => some (text.length * 8)
      | .kanji => some (text.length * 13)
      | .eci => if text.length = 0 then some (3 * 8) else none) = some segment.bits.length := by
    rcases made with rfl | rfl | rfl
    · rw [makeNumeric_bits, length_numericBits, List.length_map]
      rfl
    · rw [makeAlphanumeric_bits, length_alphanumericBits, List.length_map]
      rfl
    · exact congrArg some (length_bytesBits text).symm
  unfold calcSegmentBitLength
  dsimp only
  rw [length]
  by_cases many : text.length > int16Max
  · rw [if_pos many, if_neg fun both => absurd both.1 (Nat.not_le.mpr many)]
  · rw [if_neg many, Option.filter_some]
    simp only [decide_eq_true_eq, Nat.not_lt.mp many, true_and]

end Groups

end VaultSeed.Qrcodegen
