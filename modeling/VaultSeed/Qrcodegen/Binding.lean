import VaultSeed.Foundation.Packed
import VaultSeed.Qrcodegen.Encode

/-! # The module that draws codes

`qrcode.encode` of `qrcode.c` encodes a text, or bytes when there is a zero among them, and returns
the modules in packed bytes. It copies the text to a buffer without asking for its length. The last
one of the bytes is never written: it holds the module in the last corner
(`VaultSeed.Qrcodegen.bit_packed`).
-/

namespace VaultSeed.Qrcodegen

/-- `qrcode_encode`: `qrcode`, when `ok`, for a text that fits in `tempBuffer`. -/
def encodeBuffer (text : List UInt8) : Option (List UInt8) :=
  if text.any (· == 0) then encodeBinary text .low 1 versionMax none true
  else encodeText text .low 1 versionMax none true

/-- `qrcode_encode`: `vstr`, where the last byte is what was in the memory. -/
def packed (qrcode : List UInt8) (memory : UInt8) : List UInt8 :=
  let size := getSize qrcode
  let bufsize := (size * size + 7) / 8
  (List.range (bufsize - 1)).map (fun i => qrcode.getD (i + 1) 0) ++ [memory]

/-- How `qrcode_encode` goes wrong: `memcpy` writes past the end of `tempBuffer`, or the error is
raised. -/
inductive EncodeFault where
  | overrun
  | failedToEncode
  deriving DecidableEq

/-- `qrcode_encode`. -/
def encode (text : List UInt8) (memory : UInt8) : Except EncodeFault (List UInt8) :=
  if bufferLenForVersion versionMax < text.length then .error .overrun
  else
    match encodeBuffer text with
    | none => .error .failedToEncode
    | some qrcode => .ok (packed qrcode memory)

/-- A code is returned for a text that fits in the buffer. -/
theorem encode_eq_ok {text bytes : List UInt8} {memory : UInt8}
    (encoded : encode text memory = .ok bytes) : text.length ≤ bufferLenForVersion versionMax ∧
      ∃ qrcode, encodeBuffer text = some qrcode ∧ packed qrcode memory = bytes := by
  unfold encode at encoded
  split at encoded
  · cases encoded
  · rename_i fits
    split at encoded
    · cases encoded
    · rename_i qrcode drawn
      cases encoded
      exact ⟨Nat.le_of_not_lt fits, qrcode, drawn, rfl⟩

section Packed

variable {qrcode : List UInt8} {version : Nat}

private theorem side_squared (version : Nat) :
    side version * side version = 8 * (2 * (version * version) + 17 * version + 36) + 1 := by
  rw [side]
  ring

/-- A packed code has as many bytes as its modules take. -/
theorem length_packed (sized : getSize qrcode = side version) (memory : UInt8) :
    (packed qrcode memory).length = (side version * side version + 7) / 8 := by
  have squared := side_squared version
  rw [packed, sized, List.length_append, List.length_map, List.length_range, List.length_singleton]
  omega

/-- **The packed bytes** show every module but the one in the last corner. -/
theorem bit_packed (sized : getSize qrcode = side version) (memory : UInt8) {x y : Nat}
    (column : x < side version) (row : y < side version)
    (differ : (x, y) ≠ (side version - 1, side version - 1)) :
    Packed.bit (packed qrcode memory) (y * side version + x) = getModule qrcode x y := by
  have squared := side_squared version
  have index := Packed.index_lt row column
  have wide := Nat.le_mul_self (side version)
  have some : 17 ≤ side version := Nat.le_add_left 17 _
  have before : y * side version + x ≠ side version * side version - 1 := by
    intro last
    have corner : y * side version + x =
        (side version - 1) * side version + (side version - 1) := by
      rw [last, Nat.sub_one_mul]
      omega
    obtain ⟨sameRow, sameColumn⟩ := (Packed.index_eq_iff column (by omega)).mp corner
    exact differ (Prod.ext sameColumn sameRow)
  have inside : (y * side version + x) / 8 < (side version * side version + 7) / 8 - 1 := by omega
  have length : ((List.range ((side version * side version + 7) / 8 - 1)).map fun i =>
      qrcode.getD (i + 1) 0).length = (side version * side version + 7) / 8 - 1 := by
    rw [List.length_map, List.length_range]
  rw [Packed.bit, packed, getModule, getBit, sized, List.getD_append _ _ _ _ (length.symm ▸ inside),
    List.getD_eq_getElem _ _ (length.symm ▸ inside), List.getElem_map, List.getElem_range]

end Packed

end VaultSeed.Qrcodegen
