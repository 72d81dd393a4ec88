import VaultSeed.Foundation.Bits
import VaultSeed.Quirc.Reading

/-! # The payload of a code

`decode_payload` of `omv/img/qrcode.c` reads segments until the bits end or a type is unknown, and
`quirc_decode` does all of a grid of cells. Decoding always comes to an end, with an error or with a
payload that leaves room for the nul after it (`VaultSeed.Quirc.decodePayload_total`).
-/

namespace VaultSeed.Quirc

/-- `struct datastream`, while the payload is decoded. -/
structure Stream where
  data : List UInt8
  dataBits : Nat
  ptr : Nat

/-- `struct quirc_data`. -/
structure QuircData where
  version : Nat
  eccLevel : Nat
  mask : Nat
  dataType : Nat
  payload : List UInt8
  eci : Nat
  deriving DecidableEq, Repr

/-- What `decode_payload` works on. -/
structure Decoding where
  data : QuircData
  ds : Stream

/-- `bits_remaining`. -/
def bitsRemaining (ds : Stream) : Nat := ds.dataBits - ds.ptr

/-- `take_bits`, from `ret` on. -/
def takeBitsTurns : Nat → Nat → Stream → Nat × Stream
  | 0, ret, ds => (ret, ds)
  | len + 1, ret, ds =>
    if ds.ptr < ds.dataBits then
      let b := (ds.data.getD (ds.ptr / 8) 0).toNat
      let bitpos := ds.ptr % 8
      takeBitsTurns len (ret <<< 1 ||| if (b <<< bitpos) &&& 0x80 ≠ 0 then 1 else 0)
        { ds with ptr := ds.ptr + 1 }
    else (ret, ds)

/-- `take_bits`. -/
def takeBits (ds : Stream) (len : Nat) : Nat × Stream := takeBitsTurns len 0 ds

/-- `numeric_tuple` and `alpha_tuple`: the characters; the last one is written first. -/
def tupleChars (char : Nat → UInt8) (base : Nat) : Nat → Nat → List UInt8
  | 0, _ => []
  | digits + 1, tuple => tupleChars char base digits (tuple / base) ++ [char (tuple % base)]

/-- `numeric_tuple` and `alpha_tuple`. -/
def readTuple (char : Nat → UInt8) (base : Nat) (st : Decoding) (bits digits : Nat) :
    Except DecodeError Decoding :=
  if bitsRemaining st.ds < bits then .error .dataUnderflow
  else
    let taken := takeBits st.ds bits
    .ok ⟨{ st.data with payload := st.data.payload ++ tupleChars char base digits taken.1 },
      taken.2⟩

/-- `numeric_tuple`. -/
def numericTuple : Decoding → Nat → Nat → Except DecodeError Decoding :=
  readTuple (fun digit => UInt8.ofNat (digit + 48)) 10

/-- `alpha_tuple`: `alpha_map`. -/
def alphaMap : List UInt8 :=
  [48, 49, 50, 51, 52, 53, 54, 55, 56, 57, 65, 66, 67, 68, 69, 70, 71, 72, 73, 74, 75, 76, 77, 78,
    79, 80, 81, 82, 83, 84, 85, 86, 87, 88, 89, 90, 32, 36, 37, 42, 43, 45, 46, 47, 58]

/-- `alpha_tuple`. -/
def alphaTuple : Decoding → Nat → Nat → Except DecodeError Decoding :=
  readTuple (fun digit => alphaMap.getD digit 0) 45

/-- `decode_numeric`, `decode_alpha`, `decode_byte` and `decode_kanji`: `bits`, of the versions
below 10, of those below 27 and of the others. -/
def countWidth (low middle high version : Nat) : Nat :=
  if version < 10 then low else if version < 27 then middle else high

/-- `decode_numeric`, from `count` on. -/
def decodeDigits : Nat → Decoding → Except DecodeError Decoding
  | count + 3, st => (numericTuple st 10 3).bind fun st => decodeDigits count st
  | 2, st => numericTuple st 7 2
  | 1, st => numericTuple st 4 1
  | 0, st => .ok st

/-- `decode_numeric`. -/
def decodeNumeric (st : Decoding) : Except DecodeError Decoding :=
  let taken := takeBits st.ds (countWidth 10 12 14 st.data.version)
  if st.data.payload.length + taken.1 + 1 > quircMaxPayload then .error .dataOverflow
  else decodeDigits taken.1 { st with ds := taken.2 }

/-- `decode_alpha`, from `count` on. -/
def decodeChars : Nat → Decoding → Except DecodeError Decoding
  | count + 2, st => (alphaTuple st 11 2).bind fun st => decodeChars count st
  | 1, st => alphaTuple st 6 1
  | 0, st => .ok st

/-- `decode_alpha`. -/
def decodeAlpha (st : Decoding) : Except DecodeError Decoding :=
  let taken := takeBits st.ds (countWidth 9 11 13 st.data.version)
  if st.data.payload.length + taken.1 + 1 > quircMaxPayload then .error .dataOverflow
  else decodeChars taken.1 { st with ds := taken.2 }

/-- `decode_byte`, a turn of the loop. -/
def decodeByteTurn (st : Decoding) : Decoding :=
  let taken := takeBits st.ds 8
  ⟨{ st.data with payload := st.data.payload ++ [UInt8.ofNat taken.1] }, taken.2⟩

/-- `decode_byte`. -/
def decodeByte (st : Decoding) : Except DecodeError Decoding :=
  let taken := takeBits st.ds (countWidth 8 16 16 st.data.version)
  if st.data.payload.length + taken.1 + 1 > quircMaxPayload then .error .dataOverflow
  else if bitsRemaining taken.2 < taken.1 * 8 then .error .dataUnderflow
  else .ok (decodeByteTurn^[taken.1] { st with ds := taken.2 })

/-- `decode_kanji`, a turn of the loop. -/
def decodeKanjiTurn (st : Decoding) : Decoding :=
  let taken := takeBits st.ds 13
  let msB := taken.1 / 0xc0
  let lsB := taken.1 % 0xc0
  let intermediate := (msB <<< 8) ||| lsB
  let sjw := if intermediate + 0x8140 ≤ 0x9ffc then intermediate + 0x8140
    else intermediate + 0xc140
  ⟨{ st.data with
      payload := st.data.payload ++ [UInt8.ofNat (sjw >>> 8), UInt8.ofNat (sjw &&& 0xff)] },
    taken.2⟩

/-- `decode_kanji`. -/
def decodeKanji (st : Decoding) : Except DecodeError Decoding :=
  let taken := takeBits st.ds (countWidth 8 10 12 st.data.version)
  if st.data.payload.length + taken.1 * 2 + 1 > quircMaxPayload then .error .dataOverflow
  else if bitsRemaining taken.2 < taken.1 * 13 then .error .dataUnderflow
  else .ok (decodeKanjiTurn^[taken.1] { st with ds := taken.2 })

/-- `decode_eci`. -/
def decodeEci (st : Decoding) : Except DecodeError Decoding :=
  if bitsRemaining st.ds < 8 then .error .dataUnderflow
  else
    let taken := takeBits st.ds 8
    let eci := taken.1
    if eci &&& 0xc0 = 0x80 then
      if bitsRemaining taken.2 < 8 then .error .dataUnderflow
      else
        let more := takeBits taken.2 8
        .ok ⟨{ st.data with eci := eci <<< 8 ||| more.1 }, more.2⟩
    else if eci &&& 0xe0 = 0xc0 then
      if bitsRemaining taken.2 < 16 then .error .dataUnderflow
      else
        let more := takeBits taken.2 16
        .ok ⟨{ st.data with eci := eci <<< 16 ||| more.1 }, more.2⟩
    else .ok ⟨{ st.data with eci := eci }, taken.2⟩

/-- `decode_payload`: the cases of `type`; nothing stands for the default. -/
def decodeSegment (type : Nat) : Option (Decoding → Except DecodeError Decoding) :=
  match type with
  | 1 => some decodeNumeric
  | 2 => some decodeAlpha
  | 4 => some decodeByte
  | 8 => some decodeKanji
  | 7 => some decodeEci
  | _ => none

/-- `decode_payload`: `data_type`. -/
def raiseType (type : Nat) (data : QuircData) : QuircData :=
  if type &&& (type - 1) = 0 ∧ type > data.dataType then { data with dataType := type } else data

/-- `decode_payload`: the loop; nothing when the turns are too few. -/
def decodeSegments (turns : Nat) (st : Decoding) : Option (Except DecodeError Decoding) :=
  if bitsRemaining st.ds ≥ 4 then
    match turns with
    | 0 => none
    | turns + 1 =>
      let taken := takeBits st.ds 4
      match decodeSegment taken.1 with
      | none => some (.ok { st with ds := taken.2 })
      | some decode =>
        match decode { st with ds := taken.2 } with
        | .error err => some (.error err)
        | .ok st => decodeSegments turns { st with data := raiseType taken.1 st.data }
  else some (.ok st)

/-- `decode_payload`: the nul after the payload needs room. -/
def terminate (data : QuircData) : QuircData :=
  if data.payload.length ≥ quircMaxPayload then { data with payload := data.payload.dropLast }
  else data

/-- `decode_payload`; each turn takes four bits at least. -/
def decodePayload (data : QuircData) (ds : Stream) : Option (Except DecodeError QuircData) :=
  (decodeSegments ds.dataBits ⟨data, ds⟩).map fun result =>
    result.map fun st : Decoding => terminate st.data

/-- `quirc_decode`: the format, at the first location or at the second. -/
def readFormats (code : Code) : Except DecodeError (Nat × Nat) :=
  match readFormat code false with
  | .ok format => .ok format
  | .error _ => readFormat code true

/-- A format that is read at the first location is taken. -/
theorem readFormats_first {code : Code} {format : Nat × Nat}
    (first : readFormat code false = .ok format) : readFormats code = .ok format := by
  have shown : readFormats code = match readFormat code false with
    | .ok format => .ok format
    | .error _ => readFormat code true := rfl
  rw [shown, first]

/-- `quirc_decode`: a result, or nothing when the loops take more turns than they are given. -/
def quircDecode (code : Code) : Option (Except DecodeError QuircData) :=
  if ((code.size : Int) - 17).tmod 4 ≠ 0 then some (.error .invalidGridSize)
  else
    let version := ((code.size : Int) - 17).tdiv 4
    if version < 1 ∨ version > quircMaxVersion then some (.error .invalidVersion)
    else
      let version := version.toNat
      match readFormats code with
      | .error err => some (.error err)
      | .ok (eccLevel, mask) =>
        (readData code version mask).bind fun ds =>
          match codestreamEcc version eccLevel ds.raw with
          | .error err => some (.error err)
          | .ok data =>
            decodePayload ⟨version, eccLevel, mask, 0, [], 0⟩ ⟨data, data.length * 8, 0⟩

section Advance

variable {st st' st'' : Decoding} {count more : Nat}

/-- Taking bits moves on, and stops early only at the end. -/
theorem takeBitsTurns_spec (len ret : Nat) (ds : Stream) :
    ∃ taken ≤ len, (takeBitsTurns len ret ds).2 = { ds with ptr := ds.ptr + taken } ∧
      (taken = len ∨ ds.dataBits ≤ ds.ptr + taken) := by
  induction len generalizing ret ds with
  | zero => exact ⟨0, Nat.le_refl 0, rfl, .inl rfl⟩
  | succ len ih =>
      rw [takeBitsTurns]
      split
      · obtain ⟨taken, less, moved, stops⟩ := ih (ret <<< 1 ||| if
          ((ds.data.getD (ds.ptr / 8) 0).toNat <<< (ds.ptr % 8)) &&& 0x80 ≠ 0 then 1 else 0)
          { ds with ptr := ds.ptr + 1 }
        refine ⟨taken + 1, Nat.succ_le_succ less, moved.trans ?_, ?_⟩
        · rw [Nat.add_assoc, Nat.add_comm 1]
        · dsimp only at stops
          omega
      · exact ⟨0, Nat.zero_le _, rfl, .inr (by omega)⟩

/-- A step that moves on, and appends as many characters to the payload. -/
structure Advanced (st st' : Decoding) (count : Nat) : Prop where
  length : st'.data.payload.length = st.data.payload.length + count
  dataBits : st'.ds.dataBits = st.ds.dataBits
  ptr : st.ds.ptr ≤ st'.ds.ptr

private theorem Advanced.refl (st : Decoding) : Advanced st st 0 := ⟨rfl, rfl, Nat.le_refl _⟩

private theorem Advanced.trans (first : Advanced st st' count) (second : Advanced st' st'' more) :
    Advanced st st'' (count + more) where
  length := by rw [second.length, first.length, Nat.add_assoc]
  dataBits := second.dataBits.trans first.dataBits
  ptr := first.ptr.trans second.ptr

private theorem Advanced.of_eq (advanced : Advanced st st' count) (same : count = more) :
    Advanced st st' more := same ▸ advanced

private theorem advanced_takeBits (len : Nat) {data : QuircData}
    (length : data.payload.length = st.data.payload.length + count) :
    Advanced st ⟨data, (takeBits st.ds len).2⟩ count := by
  obtain ⟨taken, -, moved, -⟩ := takeBitsTurns_spec len 0 st.ds
  rw [takeBits, moved]
  exact ⟨length, rfl, Nat.le_add_right _ _⟩

private theorem length_tupleChars (char : Nat → UInt8) (base digits tuple : Nat) :
    (tupleChars char base digits tuple).length = digits := by
  induction digits generalizing tuple with
  | zero => rfl
  | succ digits ih => rw [tupleChars, List.length_append, ih, List.length_singleton]

private theorem advanced_readTuple {char : Nat → UInt8} {base bits digits : Nat}
    (decoded : readTuple char base st bits digits = .ok st') : Advanced st st' digits := by
  rw [readTuple] at decoded
  split at decoded
  · cases decoded
  · obtain rfl := Except.ok.inj decoded
    refine advanced_takeBits bits ?_
    rw [List.length_append, length_tupleChars]

private theorem advanced_decodeDigits (decoded : decodeDigits count st = .ok st') :
    Advanced st st' count := by
  induction count, st using decodeDigits.induct with
  | case1 count st ih =>
      rw [decodeDigits] at decoded
      cases first : numericTuple st 10 3 with
      | error err => rw [first] at decoded; cases decoded
      | ok next =>
          rw [first] at decoded
          exact ((advanced_readTuple first).trans (ih next decoded)).of_eq (Nat.add_comm 3 count)
  | case2 => exact advanced_readTuple decoded
  | case3 => exact advanced_readTuple decoded
  | case4 st => exact Except.ok.inj decoded ▸ Advanced.refl st

private theorem advanced_decodeChars (decoded : decodeChars count st = .ok st') :
    Advanced st st' count := by
  induction count, st using decodeChars.induct with
  | case1 count st ih =>
      rw [decodeChars] at decoded
      cases first : alphaTuple st 11 2 with
      | error err => rw [first] at decoded; cases decoded
      | ok next =>
          rw [first] at decoded
          exact ((advanced_readTuple first).trans (ih next decoded)).of_eq (Nat.add_comm 2 count)
  | case2 => exact advanced_readTuple decoded
  | case3 st => exact Except.ok.inj decoded ▸ Advanced.refl st

private theorem advanced_iterate {turn : Decoding → Decoding} {width : Nat}
    (advances : ∀ st, Advanced st (turn st) width) (count : Nat) (st : Decoding) :
    Advanced st (turn^[count] st) (count * width) := by
  induction count generalizing st with
  | zero =>
      rw [Nat.zero_mul]
      exact Advanced.refl st
  | succ count ih =>
      rw [Function.iterate_succ_apply, Nat.succ_mul, Nat.add_comm]
      exact (advances st).trans (ih (turn st))

/-- Room for the nul after the payload. -/
def Fits (st : Decoding) : Prop := st.data.payload.length < quircMaxPayload

/-- A segment moves on and leaves room. -/
structure Kept (st st' : Decoding) : Prop where
  fits : Fits st'
  dataBits : st'.ds.dataBits = st.ds.dataBits
  ptr : st.ds.ptr ≤ st'.ds.ptr

private theorem advanced_count (bits : Nat) :
    Advanced st { st with ds := (takeBits st.ds bits).2 } 0 := advanced_takeBits bits rfl

private theorem Advanced.kept (advanced : Advanced st st' count)
    (room : st.data.payload.length + count < quircMaxPayload) : Kept st st' :=
  ⟨advanced.length.trans_lt room, advanced.dataBits, advanced.ptr⟩

private theorem kept_decodeEci (fits : Fits st) (decoded : decodeEci st = .ok st') :
    Kept st st' := by
  have first : Advanced st ⟨st.data, (takeBits st.ds 8).2⟩ 0 := advanced_takeBits 8 rfl
  have second : ∀ len eci, Advanced ⟨st.data, (takeBits st.ds 8).2⟩
      ⟨{ st.data with eci := eci }, (takeBits (takeBits st.ds 8).2 len).2⟩ 0 :=
    fun len eci => advanced_takeBits len rfl
  rw [decodeEci] at decoded
  split at decoded
  · cases decoded
  dsimp only at decoded
  split at decoded
  · split at decoded
    · cases decoded
    · obtain rfl := Except.ok.inj decoded
      exact (first.trans (second 8 _)).kept fits
  · split at decoded
    · split at decoded
      · cases decoded
      · obtain rfl := Except.ok.inj decoded
        exact (first.trans (second 16 _)).kept fits
    · obtain rfl := Except.ok.inj decoded
      exact ⟨fits, first.dataBits, first.ptr⟩

private theorem kept_decodeNumeric (decoded : decodeNumeric st = .ok st') : Kept st st' := by
  rw [decodeNumeric] at decoded
  generalize countWidth 10 12 14 st.data.version = bits at decoded
  split at decoded
  · cases decoded
  · exact ((advanced_count bits).trans (advanced_decodeDigits decoded)).kept (by omega)

private theorem kept_decodeAlpha (decoded : decodeAlpha st = .ok st') : Kept st st' := by
  rw [decodeAlpha] at decoded
  generalize countWidth 9 11 13 st.data.version = bits at decoded
  split at decoded
  · cases decoded
  · exact ((advanced_count bits).trans (advanced_decodeChars decoded)).kept (by omega)

private theorem kept_decodeByte (decoded : decodeByte st = .ok st') : Kept st st' := by
  have turn : ∀ st, Advanced st (decodeByteTurn st) 1 := fun st => advanced_takeBits 8 (by
    rw [List.length_append, List.length_singleton])
  rw [decodeByte] at decoded
  generalize countWidth 8 16 16 st.data.version = bits at decoded
  split at decoded
  · cases decoded
  split at decoded
  · cases decoded
  · obtain rfl := Except.ok.inj decoded
    exact ((advanced_count bits).trans (advanced_iterate turn _ _)).kept (by omega)

private theorem kept_decodeKanji (decoded : decodeKanji st = .ok st') : Kept st st' := by
  have turn : ∀ st, Advanced st (decodeKanjiTurn st) 2 := fun st => advanced_takeBits 13 (by
    rw [List.length_append]
    rfl)
  rw [decodeKanji] at decoded
  generalize countWidth 8 10 12 st.data.version = bits at decoded
  split at decoded
  · cases decoded
  split at decoded
  · cases decoded
  · obtain rfl := Except.ok.inj decoded
    exact ((advanced_count bits).trans (advanced_iterate turn _ _)).kept (by omega)

/-- **A segment**, whatever its type, moves on and leaves room for the nul. -/
theorem kept_decodeSegment {type : Nat} {decode : Decoding → Except DecodeError Decoding}
    (known : decodeSegment type = some decode) (fits : Fits st) (decoded : decode st = .ok st') :
    Kept st st' := by
  unfold decodeSegment at known
  split at known
  · cases known
    exact kept_decodeNumeric decoded
  · cases known
    exact kept_decodeAlpha decoded
  · cases known
    exact kept_decodeByte decoded
  · cases known
    exact kept_decodeKanji decoded
  · cases known
    exact kept_decodeEci fits decoded
  · cases known

/-- **Decoding segments** comes to an end. -/
theorem decodeSegments_total {turns : Nat} (enough : bitsRemaining st.ds ≤ turns) (fits : Fits st) :
    ∃ result, decodeSegments turns st = some result ∧ ∀ last, result = .ok last → Fits last := by
  induction turns generalizing st with
  | zero =>
      rw [decodeSegments, if_neg (by omega)]
      exact ⟨.ok st, rfl, fun last same => Except.ok.inj same ▸ fits⟩
  | succ turns ih =>
      rw [decodeSegments]
      split
      · next four =>
          obtain ⟨taken, less, moved, stops⟩ := takeBitsTurns_spec 4 0 st.ds
          rw [bitsRemaining] at four enough
          have next : (takeBits st.ds 4).2 = { st.ds with ptr := st.ds.ptr + 4 } := by
            obtain rfl : taken = 4 := by omega
            exact moved
          have room : Fits { st with ds := (takeBits st.ds 4).2 } := fits
          dsimp only
          split
          · exact ⟨_, rfl, fun last same => Except.ok.inj same ▸ fits⟩
          · next decode known =>
              split
              · next err _ => exact ⟨.error err, rfl, fun last same => by cases same⟩
              · next st' decoded =>
                  have kept := kept_decodeSegment known room decoded
                  have moved := kept.ptr
                  have bits := kept.dataBits
                  rw [next] at moved bits
                  dsimp only at moved bits
                  refine ih ?_ ?_
                  · rw [bitsRemaining]
                    dsimp only
                    omega
                  · have room := kept.fits
                    rw [Fits] at room ⊢
                    dsimp only
                    rw [raiseType]
                    split <;> exact room
      · exact ⟨.ok st, rfl, fun last same => Except.ok.inj same ▸ fits⟩

/-- A payload with room for a zero is left as it is. -/
theorem terminate_eq {data : QuircData} (room : data.payload.length < quircMaxPayload) :
    terminate data = data := if_neg (Nat.not_le.mpr room)

/-- **Decoding a payload**, whatever the bits are, comes to an end: with an error, or with a payload
that leaves room for the nul after it. -/
theorem decodePayload_total (data : QuircData) (ds : Stream)
    (room : data.payload.length < quircMaxPayload) : ∃ result,
    decodePayload data ds = some result ∧
      ∀ last, result = .ok last → last.payload.length < quircMaxPayload := by
  have begins : Fits ⟨data, ds⟩ := room
  obtain ⟨result, decoded, fits⟩ := decodeSegments_total (Nat.sub_le ds.dataBits ds.ptr) begins
  refine ⟨result.map fun st => terminate st.data, ?_, fun last same => ?_⟩
  · rw [decodePayload, decoded]
    rfl
  · cases result with
    | error err => cases same
    | ok st =>
        obtain rfl := Except.ok.inj same
        have below : st.data.payload.length < quircMaxPayload := fits st rfl
        exact (congrArg (fun data => data.payload.length) (terminate_eq below)).trans_lt below

end Advance

section Held

variable {ds : Stream}

/-- The bits that a stream still has. -/
structure Stream.Has (ds : Stream) (bits : List Bool) : Prop where
  count : ds.dataBits = ds.ptr + bits.length
  bit : ∀ index < bits.length, bitAt ds.data (ds.ptr + index) = bits.getD index false

/-- As many bits are left as the stream has. -/
theorem bitsRemaining_eq {bits : List Bool} (has : ds.Has bits) :
    bitsRemaining ds = bits.length := by
  rw [bitsRemaining, has.count, Nat.add_sub_cancel_left]

private theorem shifted_bit : ∀ b : Fin 256, ∀ bitpos < 8,
    (((b : Nat) <<< bitpos) &&& 0x80 ≠ 0) = ((b : Nat).testBit (7 - bitpos) = true) := by
  decide +kernel

private theorem or_bit (ret : Nat) (bit : Bool) :
    (ret <<< 1 ||| if bit = true then 1 else 0) = 2 * ret + bit.toNat := by
  cases bit
  · rw [if_neg Bool.false_ne_true, Nat.or_zero, Nat.shiftLeft_eq]
    exact Nat.mul_comm ret 2
  · rw [if_pos rfl, Nat.shiftLeft_eq, Nat.mul_comm]
    exact (Nat.two_pow_add_eq_or_of_lt (i := 1) (by decide) ret).symm

/-- Taking bits that are there. -/
theorem takeBitsTurns_eq {front rest : List Bool} (ret : Nat) (has : ds.Has (front ++ rest)) :
    ∃ next : Stream, takeBitsTurns front.length ret ds =
        (front.foldl (fun sofar bit => 2 * sofar + bit.toNat) ret, next) ∧ next.Has rest := by
  induction front generalizing ret ds with
  | nil => exact ⟨ds, rfl, has⟩
  | cons bit front ih =>
      have first : bitAt ds.data ds.ptr = bit := has.bit 0 (Nat.succ_pos _)
      have count := has.count
      rw [List.cons_append, List.length_cons] at count
      have later : Stream.Has { ds with ptr := ds.ptr + 1 } (front ++ rest) := by
        refine ⟨?_, fun index less => ?_⟩
        · dsimp only
          omega
        · have shown := has.bit (index + 1) (Nat.succ_lt_succ less)
          dsimp only
          rw [Nat.add_assoc, Nat.add_comm 1]
          exact shown
      have bits : (((ds.data.getD (ds.ptr / 8) 0).toNat <<< (ds.ptr % 8)) &&& 0x80 ≠ 0) =
          (bit = true) := by
        rw [← first]
        exact shifted_bit ⟨_, (ds.data.getD (ds.ptr / 8) 0).toNat_lt⟩ _
          (Nat.mod_lt _ (by decide))
      obtain ⟨next, taken, held⟩ := ih (2 * ret + bit.toNat) later
      refine ⟨next, ?_, held⟩
      rw [List.length_cons, takeBitsTurns, if_pos (by omega)]
      simp only [bits]
      rw [or_bit, taken]
      rfl

/-- **Taking a digit** of a width. -/
theorem takeBits_ofDigit {width digit : Nat} {rest : List Bool} (small : digit < 2 ^ width)
    (has : ds.Has (Bits.ofDigit width digit ++ rest)) :
    ∃ next : Stream, takeBits ds width = (digit, next) ∧ next.Has rest := by
  obtain ⟨next, taken, held⟩ := takeBitsTurns_eq 0 has
  rw [Bits.length_ofDigit] at taken
  refine ⟨next, taken.trans (congrArg (·, next) ?_), held⟩
  exact (Bits.number_ofDigit width digit).trans (Nat.mod_eq_of_lt small)

end Held

end VaultSeed.Quirc
