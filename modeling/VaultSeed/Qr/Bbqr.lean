import VaultSeed.Foundation.Chunks
import VaultSeed.Foundation.Digits
import VaultSeed.Foundation.Effect
import VaultSeed.Foundation.Numerals
import VaultSeed.Foundation.Text

/-! # BBQr codes

`bbqr.py` and the base 32 of the firmware: a payload of hexadecimal or base 32 characters
with the encoding and the type of the data, which is cut into parts, each with a header of
eight characters. Every part is decoded on its own.
-/

namespace VaultSeed.Qr

open Python Effect

/-- `B32CHARS`. -/
def base32Chars : Text := "ABCDEFGHIJKLMNOPQRSTUVWXYZ234567".toList

/-- `B32CHARS[index]`. -/
def base32Char (index : Nat) : Char := base32Chars.getD index 'A'

/-- `base32_index`. -/
def base32Index (char : Char) : Option Nat := base32Chars.idxOf? char

/-- `base32.encode(data, False)`. -/
def base32Encode (data : Bytes) : Text :=
  (Digits.complete 8 5 (data.map UInt8.toNat)).map base32Char

/-- `base32.decode(text)`. No memory is given for nothing, so without characters it fails. -/
def base32Decode (text : Text) : Except Exn Bytes :=
  if text.rdropWhile (· == '=') = [] then .error .osError
  else
    match (text.rdropWhile (· == '=')).mapM base32Index with
    | some indices => .ok ((Digits.regroup 5 8 .empty indices).1.map UInt8.ofNat)
    | none => .error (.valueError "Invalid Base32 character")

/-- `KNOWN_ENCODINGS`. -/
inductive Encoding where
  | hex
  | base32
  | zlib
  deriving DecidableEq, Repr

/-- `KNOWN_FILETYPES`. -/
inductive FileType where
  | psbt
  | transaction
  | json
  | unicode
  deriving DecidableEq, Repr

def Encoding.letter : Encoding → Char
  | hex => 'H'
  | base32 => '2'
  | zlib => 'Z'

def Encoding.ofLetter (letter : Char) : Option Encoding :=
  if letter = 'H' then some .hex
  else if letter = '2' then some .base32
  else if letter = 'Z' then some .zlib
  else none

def FileType.letter : FileType → Char
  | psbt => 'P'
  | transaction => 'T'
  | json => 'J'
  | unicode => 'U'

def FileType.ofLetter (letter : Char) : Option FileType :=
  if letter = 'P' then some .psbt
  else if letter = 'T' then some .transaction
  else if letter = 'J' then some .json
  else if letter = 'U' then some .unicode
  else none

/-- An encoding is known by its letter. -/
@[simp] theorem Encoding.ofLetter_letter (encoding : Encoding) :
    Encoding.ofLetter encoding.letter = some encoding := by
  cases encoding <;> rfl

/-- A file type is known by its letter. -/
@[simp] theorem FileType.ofLetter_letter (fileType : FileType) :
    FileType.ofLetter fileType.letter = some fileType := by
  cases fileType <;> rfl

/-- `file_type in "JU"`. -/
def FileType.isText : FileType → Bool
  | json => true
  | unicode => true
  | _ => false

/-- `BBQrCode`. -/
structure BbqrCode where
  payload : Text
  encoding : Encoding
  fileType : FileType
  deriving DecidableEq

/-- What is shown or scanned: a text or bytes. -/
inductive Content where
  | text (characters : Text)
  | bytes (data : Bytes)
  deriving DecidableEq, Repr

/-- `data.encode() if isinstance(data, str) else data`. -/
def Content.toBytes : Content → Bytes
  | text characters => encode characters
  | bytes data => data

/-- `BBQR_ALWAYS_COMPRESS_THRESHOLD`. -/
def alwaysCompressThreshold : Nat := 5000

/-- The `deflate` module. -/
structure Deflate where
  compress : Bytes → Option Bytes
  decompress : Bytes → Option Bytes

/-- Decompressing inverts compressing, and a stream of data that are not empty is not
empty. -/
def Deflate.RoundTrips (deflate : Deflate) : Prop :=
  ∀ data compressed, data ≠ [] → deflate.compress data = some compressed →
    compressed ≠ [] ∧ deflate.decompress compressed = some data

/-- `hexlify(data).decode().upper()`. -/
def upperHex (data : Bytes) : Text := (hexlify data).map Char.toUpper

section Codec

variable (deflate : Deflate)

/-- `deflate_compress`. -/
def deflateCompress (data : Bytes) : Except Exn Bytes :=
  match deflate.compress data with
  | some compressed => .ok compressed
  | none => .error (.valueError "Error compressing BBQR")

/-- `deflate_decompress`. -/
def deflateDecompress (data : Bytes) : Except Exn Bytes :=
  match deflate.decompress data with
  | some plain => .ok plain
  | none => .error (.valueError "Error decompressing BBQR")

/-- `encode_bbqr`. Compression is given up where it does not pay. -/
def encodeBbqr (data : Content) (encoding : Encoding) (fileType : FileType) :
    Except Exn BbqrCode :=
  match encoding with
  | .hex => .ok ⟨upperHex data.toBytes, .hex, fileType⟩
  | .base32 => .ok ⟨base32Encode data.toBytes, .base32, fileType⟩
  | .zlib => do
      let compressed ← deflateCompress deflate data.toBytes
      if alwaysCompressThreshold < data.toBytes.length ∨
          compressed.length < data.toBytes.length then
        pure ⟨base32Encode compressed, .zlib, fileType⟩
      else pure ⟨base32Encode data.toBytes, .base32, fileType⟩

/-- `unhexlify(part)`. -/
def decodeHexPart (part : Text) : Except Exn Bytes :=
  match unhexlify part with
  | some data => .ok data
  | none =>
      if part.length % 2 = 1 then .error (.valueError "odd-length string")
      else .error (.valueError "non-hex digit found")

/-- The decoding of one base 32 part, filled up with `=`. -/
def decodeBase32Part (part : Text) : Except Exn Bytes :=
  base32Decode (part ++ List.replicate ((8 - part.length % 8) % 8) '=')

/-- `data.decode("utf-8")` for the types of text. -/
def readAs (fileType : FileType) (data : Bytes) : Except Exn Content :=
  if fileType.isText then
    match decode data with
    | some characters => .ok (.text characters)
    | none => .error (.valueError "UnicodeError")
  else .ok (.bytes data)

/-- `decode_bbqr`, for the parts in the order of their numbers. -/
def decodeBbqr (parts : List Text) (encoding : Encoding) (fileType : FileType) :
    Except Exn Content :=
  match encoding with
  | .hex => do
      let decoded ← parts.mapM decodeHexPart
      pure (.bytes decoded.flatten)
  | .base32 => do
      let decoded ← parts.mapM decodeBase32Part
      readAs fileType decoded.flatten
  | .zlib => do
      let decoded ← parts.mapM decodeBase32Part
      let plain ← deflateDecompress deflate decoded.flatten
      readAs fileType plain

end Codec

/-- `tostr` in `int2base36`. -/
def base36Char (value : Nat) : Char :=
  if value < 10 then Char.ofNat (48 + value) else Char.ofNat (65 + value - 10)

/-- `int2base36`. -/
def int2base36 (value : Nat) : Except Exn Text :=
  if value ≤ 1295 then .ok [base36Char (value / 36), base36Char (value % 36)]
  else .error (.valueError "Number out of range")

/-- `int(text, 36)` in `parse_bbqr`. -/
def readBase36 (text : Text) : Except Exn Int :=
  match int 36 text with
  | some value => .ok value
  | none => .error (.valueError "Invalid BBQR format")

/-- `parse_bbqr`: the content of a part, its index and the number of parts. -/
def parseBbqr (data : Text) : Except Exn (Text × Int × Int) := do
  if data.length < 8 then throw (.valueError "Invalid BBQR format")
  if Encoding.ofLetter (data.getD 2 ' ') = none then throw (.valueError "Invalid encoding")
  if FileType.ofLetter (data.getD 3 ' ') = none then throw (.valueError "Invalid file type")
  let partTotal ← readBase36 ((data.drop 4).take 2)
  let partIndex ← readBase36 ((data.drop 6).take 2)
  if partTotal ≤ partIndex then throw (.valueError "Invalid part index")
  pure (data.drop 8, partIndex, partTotal)

section Base32

private theorem base32Index_base32Char {index : Nat} (small : index < 32) :
    base32Index (base32Char index) = some index := by
  interval_cases index <;> rfl

/-- No digit is written as the padding. -/
theorem base32Char_ne_pad {index : Nat} (small : index < 32) : base32Char index ≠ '=' := by
  interval_cases index <;> decide

/-- Written digits have no padding. -/
theorem pad_not_mem {indices : List Nat} (small : ∀ index ∈ indices, index < 32) :
    '=' ∉ indices.map base32Char := by
  intro member
  obtain ⟨index, inside, same⟩ := List.mem_map.mp member
  exact base32Char_ne_pad (small index inside) same

/-- Written digits are read back. -/
theorem mapM_base32Index {indices : List Nat} (small : ∀ index ∈ indices, index < 32) :
    (indices.map base32Char).mapM base32Index = some indices := by
  induction indices with
  | nil => rfl
  | cons index indices ih =>
      rw [List.map_cons, List.mapM_cons, base32Index_base32Char (small index List.mem_cons_self),
        ih fun other member => small other (List.mem_cons_of_mem _ member)]
      rfl

/-- Padding at the end is stripped. -/
theorem rdropWhile_pad {text : Text} (clean : '=' ∉ text) (count : Nat) :
    (text ++ List.replicate count '=').rdropWhile (· == '=') = text := by
  induction count with
  | zero =>
      rw [List.replicate_zero, List.append_nil, List.rdropWhile_eq_self_iff]
      intro nonempty last
      exact clean (beq_iff_eq.mp last ▸ List.getLast_mem nonempty)
  | succ count ih =>
      rw [List.replicate_succ', ← List.append_assoc, List.rdropWhile_concat_pos _ _ _ rfl, ih]

/-- The bytes of base 32 digits. -/
def base32Bytes (indices : List Nat) : Bytes :=
  (Digits.regroup 5 8 .empty indices).1.map UInt8.ofNat

private theorem base32Bytes_aligned : Chunks.Aligned 8 (· < 32) base32Bytes := by
  intro first second whole small
  rw [base32Bytes, Digits.regroup_append_aligned (by decide) small
    (Nat.dvd_mul_left_of_dvd whole 5), List.map_append]
  rfl

/-- A part of base 32 digits is decoded. -/
theorem decodeBase32Part_map {indices : List Nat} (nonempty : indices ≠ [])
    (small : ∀ index ∈ indices, index < 32) :
    decodeBase32Part (indices.map base32Char) = .ok (base32Bytes indices) := by
  rw [decodeBase32Part, base32Decode, rdropWhile_pad (pad_not_mem small),
    if_neg (mt List.map_eq_nil_iff.mp nonempty), mapM_base32Index small]
  rfl

private theorem base32Encode_digits (data : Bytes) :
    ∀ index ∈ Digits.complete 8 5 (data.map UInt8.toNat), index < 32 := by
  have small := bytes_small data
  obtain ⟨_, _, _, _, bounded⟩ := Digits.complete_spec (by decide : 0 < 5) small
  exact bounded

/-- The digits of data stand for the data. -/
theorem base32Bytes_complete (data : Bytes) :
    base32Bytes (Digits.complete 8 5 (data.map UInt8.toNat)) = data := by
  have small := bytes_small data
  rw [base32Bytes, Digits.regroup_complete (by decide) (by decide) (by decide) small, List.map_map]
  exact (List.map_congr_left fun byte _ => UInt8.ofNat_toNat).trans (List.map_id data)

end Base32

section Parts

private theorem mem_of_mem_chunk {α : Type} {data : List α} {size count index : Nat} {item : α}
    (member : item ∈ Chunks.chunk data size count index) : item ∈ data := by
  unfold Chunks.chunk at member
  split at member
  · exact List.mem_of_mem_drop member
  · exact List.mem_of_mem_drop (List.mem_of_mem_take member)

/-- The parts of a base 32 payload are decoded to the data, when they are cut at multiples of
eight characters and none is empty. -/
theorem mapM_decodeBase32Part (data : Bytes) {size count : Nat} (positive : 0 < count)
    (whole : 1 < count → 8 ∣ size ∧ 0 < size)
    (long : (count - 1) * size < (base32Encode data).length) :
    ∃ decoded, (Chunks.chunks (base32Encode data) size count).mapM decodeBase32Part = .ok decoded ∧
      decoded.flatten = data := by
  have small := base32Encode_digits data
  have back := base32Bytes_complete data
  unfold base32Encode at long ⊢
  rw [List.length_map] at long
  generalize Digits.complete 8 5 (data.map UInt8.toNat) = indices at small back long ⊢
  have cut : Chunks.chunks (indices.map base32Char) size count =
      (Chunks.chunks indices size count).map (·.map base32Char) := by
    rw [Chunks.chunks, Chunks.chunks, List.map_map]
    exact List.map_congr_left fun index _ => Chunks.chunk_map _ _ _ _ _
  have parts : ∀ part ∈ Chunks.chunks indices size count,
      decodeBase32Part (part.map base32Char) = .ok (base32Bytes part) := by
    intro part member
    obtain ⟨index, inside, rfl⟩ := List.mem_map.mp member
    have nonempty := Chunks.chunk_ne_nil (List.mem_range.mp inside)
      (fun several => (whole several).2) long
    exact decodeBase32Part_map nonempty fun digit inside => small digit (mem_of_mem_chunk inside)
  refine ⟨(Chunks.chunks indices size count).map base32Bytes, ?_, ?_⟩
  · rw [cut, List.mapM_map]
    exact mapM_ok parts
  · rw [← List.flatMap_def]
    exact (Chunks.flatMap_chunks base32Bytes_aligned small positive
      (fun several => (whole several).1) long.le).trans back

private theorem hexValue_toUpper {digit : Nat} (small : digit < 16) :
    hexValue (Nat.digitChar digit).toUpper = some digit := by
  interval_cases digit <;> rfl

private theorem upperHex_cons (byte : UInt8) (data : Bytes) :
    upperHex (byte :: data) = (Nat.digitChar (byte.toNat / 16)).toUpper ::
      (Nat.digitChar (byte.toNat % 16)).toUpper :: upperHex data := rfl

@[simp] theorem length_upperHex (data : Bytes) : (upperHex data).length = 2 * data.length := by
  induction data with
  | nil => rfl
  | cons byte data ih =>
      rw [upperHex_cons, List.length_cons, List.length_cons, ih, List.length_cons]
      omega

private theorem drop_upperHex (count : Nat) (data : Bytes) :
    (upperHex data).drop (2 * count) = upperHex (data.drop count) := by
  induction count generalizing data with
  | zero => rfl
  | succ count ih =>
      cases data with
      | nil => simp [upperHex, hexlify]
      | cons byte data => exact ih data

private theorem take_upperHex (count : Nat) (data : Bytes) :
    (upperHex data).take (2 * count) = upperHex (data.take count) := by
  induction count generalizing data with
  | zero => rfl
  | succ count ih =>
      cases data with
      | nil => simp [upperHex, hexlify]
      | cons byte data =>
          rw [Nat.mul_succ, upperHex_cons, List.take_succ_cons, List.take_succ_cons, ih data]
          rfl

/-- A part of hexadecimal digits is decoded. -/
theorem decodeHexPart_upperHex (data : Bytes) : decodeHexPart (upperHex data) = .ok data := by
  have read : unhexlify (upperHex data) = some data := by
    induction data with
    | nil => rfl
    | cons byte data ih =>
        have small := byte.toNat_lt
        have value : UInt8.ofNat (16 * (byte.toNat / 16) + byte.toNat % 16) = byte := by
          rw [Nat.div_add_mod, UInt8.ofNat_toNat]
        simp only [upperHex_cons, unhexlify, hexValue_toUpper (show byte.toNat / 16 < 16 by omega),
          hexValue_toUpper (show byte.toNat % 16 < 16 by omega), ih, Option.bind_eq_bind,
          Option.bind_some, value]
  rw [decodeHexPart, read]

/-- The parts of a hexadecimal payload are decoded to the data, when they are cut at even
positions. -/
theorem mapM_decodeHexPart (data : Bytes) {size count : Nat} (positive : 0 < count)
    (whole : 1 < count → 2 ∣ size) :
    ∃ decoded, (Chunks.chunks (upperHex data) size count).mapM decodeHexPart = .ok decoded ∧
      decoded.flatten = data := by
  have cut : ∃ half, Chunks.chunks (upperHex data) size count =
      (Chunks.chunks data half count).map upperHex := by
    by_cases several : 1 < count
    · obtain ⟨half, rfl⟩ := whole several
      refine ⟨half, ?_⟩
      rw [Chunks.chunks, Chunks.chunks, List.map_map]
      refine List.map_congr_left fun index _ => ?_
      have even : index * (2 * half) = 2 * (index * half) := by ring
      simp only [Chunks.chunk, Function.comp_apply, even, drop_upperHex]
      split
      · rfl
      · exact take_upperHex half _
    · obtain rfl : count = 1 := by omega
      refine ⟨0, ?_⟩
      rw [Chunks.chunks_succ, Chunks.chunks_succ]
      simp
  obtain ⟨half, cut⟩ := cut
  refine ⟨Chunks.chunks data half count, ?_, Chunks.flatten_chunks data half positive⟩
  rw [cut, List.mapM_map]
  exact (mapM_ok fun part _ => decodeHexPart_upperHex part).trans (by rw [List.map_id'])

end Parts

/-- The types of text hold text, the others bytes. -/
def FileType.Suits (fileType : FileType) : Content → Prop
  | .text _ => fileType.isText = true
  | .bytes _ => fileType.isText = false

private theorem readAs_toBytes {fileType : FileType} {data : Content}
    (suits : fileType.Suits data) :
    readAs fileType data.toBytes = .ok data := by
  cases data with
  | text characters =>
      have isText : fileType.isText = true := suits
      simp [readAs, isText, Content.toBytes]
  | bytes data =>
      have isBytes : fileType.isText = false := suits
      simp [readAs, isBytes, Content.toBytes]

/-- What is read back from a code: bytes from hexadecimal digits, else the data. -/
def BbqrCode.carried (code : BbqrCode) (data : Content) : Content :=
  if code.encoding = .hex then .bytes data.toBytes else data

private theorem compress_of_ok {deflate : Deflate} {data compressed : Bytes}
    (done : deflateCompress deflate data = .ok compressed) :
    deflate.compress data = some compressed := by
  unfold deflateCompress at done
  split at done
  · cases done
    assumption
  · cases done

/-- **The parts of a code are decoded to its data**, when they are cut at multiples of eight
characters and none is empty. -/
theorem decodeBbqr_chunks {deflate : Deflate} (roundTrips : deflate.RoundTrips) {data : Content}
    {encoding : Encoding} {fileType : FileType} {code : BbqrCode} (nonempty : data.toBytes ≠ [])
    (suits : fileType.Suits data)
    (encoded : encodeBbqr deflate data encoding fileType = .ok code) {size count : Nat}
    (positive : 0 < count) (whole : 1 < count → 8 ∣ size ∧ 0 < size)
    (long : (count - 1) * size < code.payload.length) :
    decodeBbqr deflate (Chunks.chunks code.payload size count) code.encoding code.fileType =
      .ok (code.carried data) := by
  have plain : ∀ {content}, (count - 1) * size < (base32Encode content).length →
      content = data.toBytes → decodeBbqr deflate (Chunks.chunks (base32Encode content) size count)
        .base32 fileType = .ok data := by
    rintro content reach rfl
    obtain ⟨decoded, parts, same⟩ := mapM_decodeBase32Part data.toBytes positive whole reach
    simp only [decodeBbqr, parts, ok_bind, same]
    exact readAs_toBytes suits
  cases encoding with
  | hex =>
      cases encoded
      obtain ⟨decoded, parts, same⟩ := mapM_decodeHexPart data.toBytes positive
        fun several => Nat.dvd_trans (by decide : 2 ∣ 8) (whole several).1
      simp only [decodeBbqr, parts, ok_bind, same]
      rfl
  | base32 =>
      cases encoded
      exact plain long rfl
  | zlib =>
      obtain ⟨compressed, done, encoded⟩ := bind_eq_ok.mp encoded
      have packed := compress_of_ok done
      split at encoded
      · cases encoded
        obtain ⟨decoded, parts, same⟩ := mapM_decodeBase32Part compressed positive whole long
        have inflated := (roundTrips _ _ nonempty packed).2
        simp only [decodeBbqr, parts, ok_bind, same, deflateDecompress, inflated]
        exact readAs_toBytes suits
      · cases encoded
        exact plain long rfl

/-- The code of data that are not empty has characters. -/
theorem payload_ne_nil {deflate : Deflate} (roundTrips : deflate.RoundTrips) {data : Content}
    {encoding : Encoding} {fileType : FileType} {code : BbqrCode} (nonempty : data.toBytes ≠ [])
    (encoded : encodeBbqr deflate data encoding fileType = .ok code) : code.payload ≠ [] := by
  have spelled : ∀ content : Bytes, content ≠ [] → base32Encode content ≠ [] := by
    intro content some none
    have back := base32Bytes_complete content
    rw [List.map_eq_nil_iff.mp none] at back
    exact some back.symm
  cases encoding with
  | hex =>
      cases encoded
      apply List.ne_nil_of_length_pos
      have some := List.length_pos_of_ne_nil nonempty
      rw [length_upperHex]
      omega
  | base32 =>
      cases encoded
      exact spelled _ nonempty
  | zlib =>
      obtain ⟨compressed, done, encoded⟩ := bind_eq_ok.mp encoded
      have packed := compress_of_ok done
      split at encoded
      · cases encoded
        exact spelled _ (roundTrips _ _ nonempty packed).1
      · cases encoded
        exact spelled _ nonempty

section Numbers

private theorem digitValue_base36Char {value : Nat} (small : value < 36) :
    digitValue (base36Char value) = some value := by
  interval_cases value <;> rfl

/-- Two digits of base 36 are read back. -/
theorem readBase36_int2base36 {value : Nat} {text : Text} (written : int2base36 value = .ok text) :
    text.length = 2 ∧ readBase36 text = .ok value := by
  unfold int2base36 at written
  split at written
  · rename_i small
    cases written
    have high := digitValue_base36Char (show value / 36 < 36 by omega)
    have low := digitValue_base36Char (Nat.mod_lt value (by decide : 0 < 36))
    refine ⟨rfl, ?_⟩
    have digits : ∀ char ∈ [base36Char (value / 36), base36Char (value % 36)],
        ∃ digit < 36, digitValue char = some digit := by
      intro char member
      rcases List.mem_cons.mp member with rfl | member
      · exact ⟨_, by omega, high⟩
      · rw [List.mem_singleton.mp member]
        exact ⟨_, by omega, low⟩
    have unprefixed : splitBase 36 [base36Char (value / 36), base36Char (value % 36)] =
        (36, [base36Char (value / 36), base36Char (value % 36)]) := by
      unfold splitBase
      split <;> simp
    have read := @int_of_digits 36 _ (List.cons_ne_nil _ _) digits unprefixed
    simp only [List.foldl_cons, List.foldl_nil, high, low, Option.getD_some] at read
    rw [readBase36, read]
    have number : (0 * 36 + value / 36) * 36 + value % 36 = value := by omega
    exact congrArg (fun number : Nat => Except.ok (number : Int)) number
  · cases written

end Numbers

end VaultSeed.Qr
