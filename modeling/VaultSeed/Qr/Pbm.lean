import VaultSeed.Foundation.Bits
import VaultSeed.Foundation.Effect
import VaultSeed.Foundation.Numerals
import VaultSeed.Foundation.Packed
import VaultSeed.Foundation.Text

/-! # The exported bitmap

`qr_view.py` saves a QR code as a PBM file. The encoder packs the modules in one run of bits, the
low bit of a byte first; `add_frame` copies them into a run for a larger square, and
`save_pbm_image` packs each row of that into bytes of its own, the high bit first. What the file
shows is the code inside a border of one white module (`VaultSeed.Qr.QrCode.image`).
-/

namespace VaultSeed.Qr

open Python Effect Packed

/-- A packed QR code. -/
structure QrCode where
  code : Bytes
  qrSize : Nat
  positive : 0 < qrSize
  packed : code.length = (qrSize * qrSize + 7) / 8

/-- The module in a row and a column is dark. -/
def QrCode.dark (qr : QrCode) (row column : Nat) : Bool := bit qr.code (row * qr.qrSize + column)

/-- What an image of the code shows: its modules, and white around them. -/
def QrCode.image (qr : QrCode) (y x : Nat) : Bool :=
  decide ((1 ≤ y ∧ y ≤ qr.qrSize) ∧ 1 ≤ x ∧ x ≤ qr.qrSize) && qr.dark (y - 1) (x - 1)

/-- `data[index]`. -/
def byteAt (data : Bytes) (index : Nat) : Except Exn UInt8 :=
  match data[index]? with
  | some byte => .ok byte
  | none => .error .indexError

/-- `add_frame`, a turn of the inner loop. -/
def frameModule (binaryImage : Bytes) (size y : Nat) (framedImage : Bytes) (x : Nat) :
    Except Exn Bytes := do
  let originalIndex := y * size + x
  let originalByte ← byteAt binaryImage (originalIndex >>> 3)
  if (originalByte.toNat >>> (originalIndex % 8)) &&& 1 ≠ 0 then
    let framedIndex := (y + 1) * (size + 2) + x + 1
    let framedByte ← byteAt framedImage (framedIndex >>> 3)
    return framedImage.set (framedIndex >>> 3)
      (UInt8.ofNat (framedByte.toNat ||| 1 <<< (framedIndex % 8)))
  else return framedImage

/-- `add_frame`: the framed image and its size. -/
def addFrame (binaryImage : Bytes) (size : Nat) : Except Exn (Bytes × Nat) := do
  let newSize := size + 2
  let framedImage ← (List.range size).foldlM
    (fun framed y => (List.range size).foldlM (frameModule binaryImage size y) framed)
    (List.replicate ((newSize * newSize + 7) >>> 3) 0)
  return (framedImage, newSize)

/-- `"P4\n{0} {0}\n".format(size).encode()`. -/
def pbmHeader (size : Nat) : Bytes :=
  encode ("P4\n".toList ++ decimal size ++ " ".toList ++ decimal size ++ "\n".toList)

/-- What the loops of `save_pbm_image` change: the data, and the byte that is being filled. -/
structure Packing where
  pbmData : Bytes
  byte : Nat
  deriving DecidableEq

/-- `save_pbm_image`, a turn of the inner loop. -/
def packModule (code : Bytes) (size row : Nat) (packing : Packing) (col : Nat) :
    Except Exn Packing := do
  let bitIndex := row * size + col
  let codeByte ← byteAt code (bitIndex >>> 3)
  let byte :=
    if codeByte.toNat &&& 1 <<< (bitIndex % 8) ≠ 0 then packing.byte ||| 1 <<< (7 - col % 8)
    else packing.byte
  if col % 8 = 7 ∨ col = size - 1 then
    return ⟨packing.pbmData ++ [UInt8.ofNat byte], 0⟩
  else return ⟨packing.pbmData, byte⟩

/-- `save_pbm_image`, a turn of the outer loop. -/
def packRow (code : Bytes) (size : Nat) (pbmData : Bytes) (row : Nat) : Except Exn Bytes := do
  let packing ← (List.range size).foldlM (packModule code size row) ⟨pbmData, 0⟩
  return packing.pbmData

/-- `save_pbm_image`: the data it hands to `save_file`. -/
def savePbmImage (selfCode : Bytes) (qrSize : Nat) : Except Exn Bytes := do
  let framed ← addFrame selfCode qrSize
  (List.range framed.2).foldlM (packRow framed.1 framed.2) (pbmHeader framed.2)

/-- The bytes of a row of a bitmap. -/
def stride (width : Nat) : Nat := (width + 7) / 8

/-- The pixel in a row and a column of a bitmap: rows begin with a byte, bytes with the high
bit. -/
def pixel (raster : Bytes) (width y x : Nat) : Option Bool :=
  raster[y * stride width + x / 8]?.map fun byte => byte.toNat.testBit (7 - x % 8)

section Reading

variable {data : Bytes} {index : Nat}

/-- The byte of a bit. -/
theorem byte_lt {count : Nat} (less : index < count) : index / 8 < (count + 7) / 8 := by
  omega

private theorem byteAt_eq (inside : index / 8 < data.length) :
    byteAt data (index >>> 3) = .ok (data.getD (index / 8) 0) := by
  rw [byteAt, Nat.shiftRight_eq_div_pow, List.getElem?_eq_getElem inside,
    List.getD_eq_getElem _ _ inside]

/-- The bit of a byte, as `add_frame` reads it. -/
theorem shifted_ne_zero (byte : UInt8) (offset : Nat) :
    byte.toNat >>> offset &&& 1 ≠ 0 ↔ byte.toNat.testBit offset = true := by
  rw [Nat.testBit, Nat.and_comm, bne_iff_ne]

/-- The bit of a byte, as `save_pbm_image` reads it. -/
theorem masked_ne_zero (byte : UInt8) (offset : Nat) :
    byte.toNat &&& 1 <<< offset ≠ 0 ↔ byte.toNat.testBit offset = true := by
  rw [Nat.one_shiftLeft, Nat.and_two_pow]
  cases byte.toNat.testBit offset with
  | false => simp
  | true => simp

end Reading

section Framing

variable {qr : QrCode} {framed : Bytes} {y x : Nat}

private theorem frameModule_eq {binaryImage : Bytes} {size : Nat}
    (inside : (y * size + x) / 8 < binaryImage.length)
    (room : ((y + 1) * (size + 2) + x + 1) / 8 < framed.length) :
    frameModule binaryImage size y framed x =
      .ok (if bit binaryImage (y * size + x) then setBit framed ((y + 1) * (size + 2) + x + 1)
        else framed) := by
  rw [frameModule, byteAt_eq inside, ok_bind]
  by_cases dark : bit binaryImage (y * size + x) = true
  · rw [if_pos ((shifted_ne_zero _ _).mpr dark)]
    dsimp only
    rw [byteAt_eq room, ok_bind, if_pos dark, setBit, Nat.shiftRight_eq_div_pow]
    rfl
  · rw [if_neg fun reads => dark ((shifted_ne_zero _ _).mp reads), if_neg dark]
    rfl

/-- The frame when the rows before one are copied, and the modules before one in that row. -/
structure Framed (qr : QrCode) (y x : Nat) (framed : Bytes) : Prop where
  length : framed.length = ((qr.qrSize + 2) * (qr.qrSize + 2) + 7) / 8
  drawn : ∀ row < qr.qrSize + 2, ∀ column < qr.qrSize + 2,
    bit framed (row * (qr.qrSize + 2) + column) =
      (decide (row ≤ y ∨ row = y + 1 ∧ column ≤ x) && qr.image row column)

/-- Outside the code the image is white. -/
theorem QrCode.image_outside (outside : ¬((1 ≤ y ∧ y ≤ qr.qrSize) ∧ 1 ≤ x ∧ x ≤ qr.qrSize)) :
    qr.image y x = false := by
  rw [QrCode.image, decide_eq_false outside, Bool.false_and]

/-- Conditions that agree inside the code show the same part of the image. -/
theorem QrCode.image_congr {first second : Prop} [Decidable first] [Decidable second]
    (same : (1 ≤ y ∧ y ≤ qr.qrSize) ∧ 1 ≤ x ∧ x ≤ qr.qrSize → (first ↔ second)) :
    (decide first && qr.image y x) = (decide second && qr.image y x) := by
  by_cases inside : (1 ≤ y ∧ y ≤ qr.qrSize) ∧ 1 ≤ x ∧ x ≤ qr.qrSize
  · rw [decide_eq_decide.mpr (same inside)]
  · rw [QrCode.image_outside inside, Bool.and_false, Bool.and_false]

private theorem Framed.blank (qr : QrCode) :
    Framed qr 0 0 (List.replicate (((qr.qrSize + 2) * (qr.qrSize + 2) + 7) >>> 3) 0) where
  length := by rw [List.length_replicate, Nat.shiftRight_eq_div_pow]
  drawn := by
    intro row _ column _
    rw [bit_replicate, QrCode.image]
    symm
    simp only [Bool.and_eq_false_iff, decide_eq_false_iff_not]
    by_cases first : row = 0 ∨ column = 0
    · right
      left
      omega
    · left
      omega

/-- The end of a row is the start of the next. -/
theorem Framed.next (copied : Framed qr y qr.qrSize framed) : Framed qr (y + 1) 0 framed where
  length := copied.length
  drawn := by
    intro row inRows column inColumns
    rw [copied.drawn row inRows column inColumns]
    apply QrCode.image_congr
    rintro ⟨_, low, high⟩
    omega

/-- **A turn copies one module.** -/
theorem Framed.turn (copied : Framed qr y x framed) (inRows : y < qr.qrSize)
    (inColumns : x < qr.qrSize) :
    ∃ after, frameModule qr.code qr.qrSize y framed x = .ok after ∧ Framed qr y (x + 1) after := by
  have low : y + 1 < qr.qrSize + 2 := by omega
  have left : x + 1 < qr.qrSize + 2 := by omega
  have inside : (y * qr.qrSize + x) / 8 < qr.code.length := by
    rw [qr.packed]
    exact byte_lt (index_lt inRows inColumns)
  have room : ((y + 1) * (qr.qrSize + 2) + (x + 1)) / 8 < framed.length := by
    rw [copied.length]
    exact byte_lt (index_lt low left)
  refine ⟨_, frameModule_eq inside room, ?_, ?_⟩
  · split
    · rw [length_setBit, copied.length]
    · exact copied.length
  · intro row rowInside column columnInside
    have image : qr.image (y + 1) (x + 1) = bit qr.code (y * qr.qrSize + x) := by
      rw [QrCode.image, decide_eq_true (by omega), Bool.true_and]
      rfl
    have here : row * (qr.qrSize + 2) + column = (y + 1) * (qr.qrSize + 2) + (x + 1) ↔
        row = y + 1 ∧ column = x + 1 := index_eq_iff columnInside left
    have before := copied.drawn row rowInside column columnInside
    by_cases same : row = y + 1 ∧ column = x + 1
    · obtain ⟨rfl, rfl⟩ := same
      rw [decide_eq_false (by omega), Bool.false_and] at before
      rw [decide_eq_true (by omega), Bool.true_and, image]
      split
      · next dark => rw [Nat.add_assoc, bit_setBit room, decide_eq_true rfl, Bool.or_true, dark]
      · next light => rw [before, Bool.eq_false_iff.mpr light]
    · have reached : (row ≤ y ∨ row = y + 1 ∧ column ≤ x + 1) ↔
          (row ≤ y ∨ row = y + 1 ∧ column ≤ x) := by omega
      rw [decide_eq_decide.mpr reached, ← before]
      split
      · rw [Nat.add_assoc, bit_setBit room, decide_eq_false fun equal => same (here.mp equal),
          Bool.or_false]
      · rfl

private theorem Framed.row (copied : Framed qr y 0 framed) (inRows : y < qr.qrSize) :
    ∃ after, (List.range qr.qrSize).foldlM (frameModule qr.code qr.qrSize y) framed =
      .ok after ∧ Framed qr (y + 1) 0 after := by
  obtain ⟨after, ran, whole⟩ := foldlM_range (Framed qr y) copied
    fun x inColumns _ reached => reached.turn inRows inColumns
  exact ⟨after, ran, whole.next⟩

/-- **The framed image shows the code inside its border.** -/
theorem addFrame_eq (qr : QrCode) :
    ∃ framed, addFrame qr.code qr.qrSize = .ok (framed, qr.qrSize + 2) ∧
      framed.length = ((qr.qrSize + 2) * (qr.qrSize + 2) + 7) / 8 ∧
      ∀ row < qr.qrSize + 2, ∀ column < qr.qrSize + 2,
        bit framed (row * (qr.qrSize + 2) + column) = qr.image row column := by
  obtain ⟨framed, ran, copied⟩ := foldlM_range (Framed qr · 0) (Framed.blank qr)
    fun y inRows _ reached => reached.row inRows
  refine ⟨framed, ?_, copied.length, ?_⟩
  · rw [addFrame, ran, ok_bind]
    rfl
  · intro row inRows column inColumns
    rw [copied.drawn row inRows column inColumns]
    by_cases whole : row ≤ qr.qrSize
    · rw [decide_eq_true (Or.inl whole), Bool.true_and]
    · rw [QrCode.image_outside (by omega), Bool.and_false]

end Framing

section Packing

variable {code start : Bytes} {size row : Nat}

/-- The first bits of a row. -/
def rowBits (code : Bytes) (size row count : Nat) : List Bool :=
  (List.range count).map fun col => bit code (row * size + col)

/-- The bytes of a row: groups of its bits. -/
def rowBytes (code : Bytes) (size row : Nat) : Bytes :=
  (Bits.groups 8 (rowBits code size row size)).map UInt8.ofNat

@[simp] theorem length_rowBits (code : Bytes) (size row count : Nat) :
    (rowBits code size row count).length = count := by
  rw [rowBits, List.length_map, List.length_range]

/-- The packing after the first bits of a row: groups of them are written, and what is left
fills the byte from its high bit. Nothing is left at the end of the row. -/
structure RowPacked (start : Bytes) (size : Nat) (bits : List Bool) (packing : Packing) : Prop where
  split : ∃ front pending, bits = front ++ pending ∧
    packing = ⟨start ++ (Bits.groups 8 front).map UInt8.ofNat,
      Bits.number (Bits.fill 8 pending)⟩ ∧
    pending.length < 8 ∧ (bits.length < size → 8 ∣ front.length) ∧
    (bits.length = size → pending = [])

private theorem packModule_eq {packing : Packing} {col : Nat}
    (inside : (row * size + col) / 8 < code.length) :
    packModule code size row packing col = .ok (
      let byte := packing.byte ||| (bit code (row * size + col)).toNat <<< (7 - col % 8)
      if col % 8 = 7 ∨ col = size - 1 then ⟨packing.pbmData ++ [UInt8.ofNat byte], 0⟩
      else ⟨packing.pbmData, byte⟩) := by
  have byte : (if (code.getD ((row * size + col) / 8) 0).toNat &&&
      1 <<< ((row * size + col) % 8) ≠ 0 then packing.byte ||| 1 <<< (7 - col % 8)
      else packing.byte) =
        packing.byte ||| (bit code (row * size + col)).toNat <<< (7 - col % 8) := by
    cases dark : bit code (row * size + col) with
    | true => rw [if_pos ((masked_ne_zero _ _).mpr dark), Bool.toNat_true]
    | false =>
        rw [if_neg fun reads => Bool.eq_false_iff.mp dark ((masked_ne_zero _ _).mp reads),
          Bool.toNat_false, Nat.zero_shiftLeft, Nat.or_zero]
  rw [packModule, byteAt_eq inside, ok_bind]
  dsimp only
  rw [byte]
  split <;> rfl

/-- **A turn packs one bit.** -/
theorem RowPacked.turn {bits : List Bool} {packing : Packing}
    (packed : RowPacked start size bits packing)
    (less : bits.length < size) (inside : (row * size + bits.length) / 8 < code.length) :
    ∃ after, packModule code size row packing bits.length = .ok after ∧
      RowPacked start size (bits ++ [bit code (row * size + bits.length)]) after := by
  obtain ⟨front, pending, rfl, rfl, short, whole, _⟩ := packed
  have aligned := whole less
  refine ⟨_, packModule_eq inside, ?_⟩
  generalize bit code (row * size + (front ++ pending).length) = last
  have column : (front ++ pending).length % 8 = pending.length := by
    rw [List.length_append, Nat.add_mod, Nat.mod_eq_zero_of_dvd aligned, Nat.zero_add,
      Nat.mod_mod, Nat.mod_eq_of_lt short]
  have filled := Bits.number_fill_concat short last
  rw [column]
  dsimp only
  rw [← filled]
  have longer : (front ++ pending ++ [last]).length = (front ++ pending).length + 1 := by
    rw [List.length_append, List.length_singleton]
  constructor
  split
  · next full =>
      have some : 0 < (pending ++ [last]).length := by
        rw [List.length_append, List.length_singleton]
        omega
      have fits : (pending ++ [last]).length ≤ 8 := by
        rw [List.length_append, List.length_singleton]
        omega
      refine ⟨front ++ (pending ++ [last]), [], by simp, ?_, by decide, ?_, fun _ => rfl⟩
      · rw [Bits.groups_append aligned some fits, List.map_append, ← List.append_assoc]
        rfl
      · intro more
        rw [longer] at more
        have seven : pending.length = 7 := by omega
        rw [List.length_append, List.length_append, seven, List.length_singleton]
        exact Nat.dvd_add aligned (Nat.dvd_refl 8)
  · next room =>
      refine ⟨front, pending ++ [last], List.append_assoc _ _ _, rfl, ?_, fun _ => aligned, ?_⟩
      · rw [List.length_append, List.length_singleton]
        omega
      · intro all
        rw [longer] at all
        omega

/-- **A row is packed into groups of its bits.** -/
theorem packRow_eq (inside : ∀ col < size, (row * size + col) / 8 < code.length) :
    packRow code size start row = .ok (start ++ rowBytes code size row) := by
  have begins : RowPacked start size (rowBits code size row 0) ⟨start, 0⟩ := by
    refine ⟨[], [], rfl, ?_, by decide, fun _ => Nat.dvd_zero 8, fun _ => rfl⟩
    have empty : Bits.groups 8 [] = [] := rfl
    have zero : Bits.number (Bits.fill 8 []) = 0 := rfl
    rw [empty, zero, List.map_nil, List.append_nil]
  have next : ∀ col < size, ∀ packing, RowPacked start size (rowBits code size row col) packing →
      ∃ after, packModule code size row packing col = .ok after ∧
        RowPacked start size (rowBits code size row (col + 1)) after := by
    intro col less packing reached
    have length := length_rowBits code size row col
    have room : (row * size + (rowBits code size row col).length) / 8 < code.length := by
      rw [length]
      exact inside col less
    have turn := reached.turn (by rw [length]; exact less) room
    rw [length] at turn
    rw [rowBits, List.range_succ, List.map_append]
    exact turn
  obtain ⟨⟨pbmData, byte⟩, ran, packed⟩ :=
    foldlM_range (fun col => RowPacked start size (rowBits code size row col)) begins next
  obtain ⟨front, pending, whole, same, _, _, finished⟩ := packed
  have nothing := finished (length_rowBits _ _ _ _)
  rw [nothing, List.append_nil] at whole
  obtain ⟨rfl, -⟩ := Packing.mk.inj same
  rw [packRow, ran, ok_bind, ← whole]
  rfl

end Packing

section Image

variable {code : Bytes} {size : Nat}

private theorem length_rowBytes (code : Bytes) (size row : Nat) :
    (rowBytes code size row).length = stride size := by
  rw [rowBytes, List.length_map, Bits.groups, Bits.length_groupsOf, length_rowBits]
  rfl

/-- The bits of the bytes of a row are the bits of the row, filled up with zeros. -/
theorem getElem?_rowBytes (code : Bytes) (row : Nat) {x : Nat} (inside : x < stride size * 8) :
    (rowBytes code size row)[x / 8]?.map (fun byte => byte.toNat.testBit (7 - x % 8)) =
      some (decide (x < size) && bit code (row * size + x)) := by
  have positive : 0 < 8 := by decide
  have low : x % 8 < 8 := Nat.mod_lt _ positive
  have group : x / 8 < (Bits.groups 8 (rowBits code size row size)).length := by
    rw [Bits.groups, Bits.length_groupsOf, length_rowBits]
    exact Nat.div_lt_of_lt_mul (by rw [Nat.mul_comm]; exact inside)
  have found := List.getElem?_eq_getElem group
  have small := Bits.groups_lt 8 (rowBits code size row size) _ (List.getElem_mem group)
  have spelled := Bits.getElem?_spell found low
  rw [Bits.spell_groups positive, length_rowBits, Nat.div_add_mod'] at spelled
  rw [rowBytes, List.getElem?_map, found, Option.map_some, Option.map_some, UInt8.toNat_ofNat',
    Nat.mod_eq_of_lt small, ← spelled, Bits.fill]
  by_cases square : x < size
  · rw [List.getElem?_append_left (by rw [length_rowBits]; exact square), rowBits,
      List.getElem?_map, List.getElem?_range square, decide_eq_true square, Bool.true_and]
    rfl
  · rw [List.getElem?_append_right (by rw [length_rowBits]; omega), length_rowBits,
      List.getElem?_replicate, if_pos (by rw [stride] at inside; omega), decide_eq_false square,
      Bool.false_and]

/-- The loops over the rows write their bytes one after another. -/
theorem foldlM_packRow (start : Bytes)
    (inside : ∀ row < size, ∀ col < size, (row * size + col) / 8 < code.length) :
    (List.range size).foldlM (packRow code size) start =
      .ok (start ++ (List.range size).flatMap (rowBytes code size)) := by
  have next : ∀ row < size, ∀ pbmData,
      pbmData = start ++ (List.range row).flatMap (rowBytes code size) →
      ∃ after, packRow code size pbmData row = .ok after ∧
        after = start ++ (List.range (row + 1)).flatMap (rowBytes code size) := by
    rintro row less _ rfl
    refine ⟨_, packRow_eq (inside row less), ?_⟩
    rw [List.range_succ, List.flatMap_append, List.flatMap_singleton, List.append_assoc]
  obtain ⟨final, ran, rfl⟩ := foldlM_range
    (fun row pbmData => pbmData = start ++ (List.range row).flatMap (rowBytes code size))
    (by rw [List.range_zero, List.flatMap_nil, List.append_nil]) next
  exact ran

/-- **The exported bitmap shows the code**: after the header come rows of whole bytes, whose
pixels are the modules inside a white border, and white to the end of the last byte. -/
theorem savePbmImage_shows (qr : QrCode) :
    ∃ raster, savePbmImage qr.code qr.qrSize = .ok (pbmHeader (qr.qrSize + 2) ++ raster) ∧
      raster.length = (qr.qrSize + 2) * stride (qr.qrSize + 2) ∧
      ∀ y < qr.qrSize + 2, ∀ x < stride (qr.qrSize + 2) * 8,
        pixel raster (qr.qrSize + 2) y x = some (qr.image y x) := by
  obtain ⟨framed, ran, length, drawn⟩ := addFrame_eq qr
  have inside : ∀ row < qr.qrSize + 2, ∀ col < qr.qrSize + 2,
      (row * (qr.qrSize + 2) + col) / 8 < framed.length := by
    intro row inRows col inColumns
    rw [length]
    exact byte_lt (index_lt inRows inColumns)
  have wide := length_rowBytes framed (qr.qrSize + 2)
  refine ⟨_, ?_, length_rows wide _, ?_⟩
  · rw [savePbmImage, ran, ok_bind]
    exact foldlM_packRow _ inside
  · intro y inRows x inColumns
    rw [pixel, getElem?_rows wide inRows (Nat.div_lt_of_lt_mul (by omega)),
      getElem?_rowBytes framed y inColumns]
    by_cases square : x < qr.qrSize + 2
    · rw [decide_eq_true square, Bool.true_and, drawn y inRows x square]
    · rw [decide_eq_false square, Bool.false_and, QrCode.image_outside (by omega)]

/-- A code of three rows: a dark row, a white one with a dark module in the middle, a dark one. -/
theorem savePbmImage_shows_three : ∃ raster,
    savePbmImage [0b11010111, 1] 3 = .ok (pbmHeader 5 ++ raster) ∧
      (∀ x, x < 8 → pixel raster 5 2 x = some (decide (x = 2))) ∧
      ∀ x, x < 8 → pixel raster 5 1 x = some (decide (1 ≤ x ∧ x ≤ 3)) := by
  obtain ⟨raster, saved, -, shows⟩ := savePbmImage_shows ⟨[0b11010111, 1], 3, by decide, by decide⟩
  refine ⟨raster, saved, fun x inside => ?_, fun x inside => ?_⟩
  · rw [shows 2 (by decide) x inside]
    interval_cases x <;> rfl
  · rw [shows 1 (by decide) x inside]
    interval_cases x <;> rfl

end Image

end VaultSeed.Qr
