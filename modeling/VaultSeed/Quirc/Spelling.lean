import VaultSeed.Qrcodegen.Encode
import VaultSeed.Quirc.Payload

/-! # Reading segments back

What `decode_payload` of `omv/img/qrcode.c` reads from the segments of `qrcodegen.c`: the texts that
they spell, one after the other (`VaultSeed.Quirc.decodeSegments_eq`).
-/

namespace VaultSeed.Quirc

open Qrcodegen

/-- A segment that is made from a text. -/
inductive Made : Segment → List UInt8 → Prop where
  | numeric {text : List UInt8} : isNumeric text = true → Made (makeNumeric text) text
  | alphanumeric {text : List UInt8} : isAlphanumeric text = true →
      Made (makeAlphanumeric text) text
  | bytes (text : List UInt8) : Made (makeBytes text) text

/-- The payload with a text after it. -/
def QuircData.extend (data : QuircData) (text : List UInt8) : QuircData :=
  { data with payload := data.payload ++ text }

private theorem extend_nil (data : QuircData) : data.extend [] = data := by
  rw [QuircData.extend, List.append_nil]

private theorem extend_extend (data : QuircData) (first second : List UInt8) :
    (data.extend first).extend second = data.extend (first ++ second) := by
  rw [QuircData.extend, QuircData.extend, QuircData.extend, List.append_assoc]

/-- A step reads bits into the data, whatever is after them. -/
def Reads (decode : Decoding → Except DecodeError Decoding) (data : QuircData) (bits : List Bool)
    (data' : QuircData) : Prop :=
  ∀ (ds : Stream) (rest : List Bool), ds.Has (bits ++ rest) →
    ∃ next : Stream, decode ⟨data, ds⟩ = .ok ⟨data', next⟩ ∧ next.Has rest

section Reads

variable {decode decode' : Decoding → Except DecodeError Decoding} {data data' data'' : QuircData}
  {bits bits' : List Bool}

private theorem Reads.nil (data : QuircData) : Reads .ok data [] data :=
  fun ds _ has => ⟨ds, rfl, has⟩

private theorem Reads.bind (first : Reads decode data bits data')
    (second : Reads decode' data' bits' data'') :
    Reads (fun st => (decode st).bind decode') data (bits ++ bits') data'' := by
  intro ds rest has
  rw [List.append_assoc] at has
  obtain ⟨next, decoded, held⟩ := first ds _ has
  obtain ⟨last, decodedNext, heldLast⟩ := second next rest held
  exact ⟨last, by dsimp only; rw [decoded]; exact decodedNext, heldLast⟩

private theorem reads_readTuple {char : Nat → UInt8} {base width digits tuple : Nat}
    (small : tuple < 2 ^ width) :
    Reads (fun st => readTuple char base st width digits) data (Bits.ofDigit width tuple)
      (data.extend (tupleChars char base digits tuple)) := by
  intro ds rest has
  obtain ⟨next, taken, held⟩ := takeBits_ofDigit small has
  have room : ¬bitsRemaining ds < width := by
    rw [bitsRemaining_eq has, List.length_append, Bits.length_ofDigit]
    omega
  refine ⟨next, ?_, held⟩
  change readTuple char base ⟨data, ds⟩ width digits = _
  rw [readTuple, if_neg room]
  dsimp only
  rw [taken]
  rfl

/-- The characters of digits, in a group. -/
theorem reads_tuple {char : Nat → UInt8} {base width digits tuple : Nat} {text : List UInt8}
    (small : tuple < 2 ^ width) (spelled : tupleChars char base digits tuple = text) :
    Reads (fun st => readTuple char base st width digits) data (Bits.ofDigit width tuple)
      (data.extend text) := spelled ▸ reads_readTuple small

/-- The character of a digit. -/
def digitChar (digit : Nat) : UInt8 := UInt8.ofNat (digit + 48)

private theorem reads_decodeDigits {values : List Nat} (small : ∀ value ∈ values, value < 10) :
    Reads (decodeDigits values.length) data (numericBits values)
      (data.extend (values.map digitChar)) := by
  induction values using numericBits.induct generalizing data with
  | case1 a b c rest ih =>
      have smallA := small a (by simp)
      have smallB := small b (by simp)
      have smallC := small c (by simp)
      have group : Reads (fun st => numericTuple st 10 3) data
          (Bits.ofDigit 10 ((a * 10 + b) * 10 + c)) (data.extend ([a, b, c].map digitChar)) := by
        refine reads_tuple (by omega) ?_
        simp only [tupleChars, List.nil_append, List.map_cons, List.map_nil, List.cons_append]
        rw [show ((a * 10 + b) * 10 + c) / 10 / 10 % 10 = a by omega,
          show ((a * 10 + b) * 10 + c) / 10 % 10 = b by omega,
          show ((a * 10 + b) * 10 + c) % 10 = c by omega]
        rfl
      have later : Reads (decodeDigits rest.length) (data.extend ([a, b, c].map digitChar))
          (numericBits rest) _ := ih fun value member => small value (by simp [member])
      have both := group.bind later
      rw [extend_extend, ← List.map_append] at both
      exact both
  | case2 a b =>
      have smallA := small a (by simp)
      have smallB := small b (by simp)
      refine reads_tuple (by omega) ?_
      simp only [tupleChars, List.nil_append, List.map_cons, List.map_nil, List.cons_append]
      rw [show (a * 10 + b) / 10 % 10 = a by omega, show (a * 10 + b) % 10 = b by omega]
      rfl
  | case3 a =>
      have smallA := small a (by simp)
      refine reads_tuple (by omega) ?_
      simp only [tupleChars, List.nil_append, List.map_cons, List.map_nil]
      rw [Nat.mod_eq_of_lt smallA]
      rfl
  | case4 =>
      rw [List.map_nil, extend_nil]
      exact Reads.nil data

private theorem reads_decodeChars {values : List Nat} (small : ∀ value ∈ values, value < 45) :
    Reads (decodeChars values.length) data (alphanumericBits values)
      (data.extend (values.map fun value => alphaMap.getD value 0)) := by
  induction values using alphanumericBits.induct generalizing data with
  | case1 a b rest ih =>
      have smallA := small a (by simp)
      have smallB := small b (by simp)
      have group : Reads (fun st => alphaTuple st 11 2) data (Bits.ofDigit 11 (a * 45 + b))
          (data.extend ([a, b].map fun value => alphaMap.getD value 0)) := by
        refine reads_tuple (by omega) ?_
        simp only [tupleChars, List.nil_append, List.map_cons, List.map_nil, List.cons_append]
        rw [show (a * 45 + b) / 45 % 45 = a by omega, show (a * 45 + b) % 45 = b by omega]
      have later : Reads (decodeChars rest.length)
          (data.extend ([a, b].map fun value => alphaMap.getD value 0)) (alphanumericBits rest) _ :=
        ih fun value member => small value (by simp [member])
      have both := group.bind later
      rw [extend_extend, ← List.map_append] at both
      exact both
  | case2 a =>
      have smallA := small a (by simp)
      refine reads_tuple (by omega) ?_
      simp only [tupleChars, List.nil_append, List.map_cons, List.map_nil]
      rw [Nat.mod_eq_of_lt smallA]
  | case3 =>
      rw [List.map_nil, extend_nil]
      exact Reads.nil data

private theorem reads_decodeByteTurn (byte : UInt8) :
    Reads (fun st => .ok (decodeByteTurn st)) data (Bits.ofDigit 8 byte.toNat)
      (data.extend [byte]) := by
  intro ds rest has
  obtain ⟨next, taken, held⟩ := takeBits_ofDigit byte.toNat_lt has
  refine ⟨next, ?_, held⟩
  change Except.ok (decodeByteTurn ⟨data, ds⟩) = _
  rw [decodeByteTurn]
  dsimp only
  rw [taken, UInt8.ofNat_toNat]
  rfl

private theorem reads_decodeBytes (text : List UInt8) :
    Reads (fun st => .ok (decodeByteTurn^[text.length] st)) data (bytesBits text)
      (data.extend text) := by
  induction text generalizing data with
  | nil =>
      rw [extend_nil]
      exact Reads.nil data
  | cons byte text ih =>
      have later : Reads (fun st => .ok (decodeByteTurn^[text.length] st)) (data.extend [byte])
        (bytesBits text) _ := ih
      have both := (reads_decodeByteTurn byte).bind later
      rw [extend_extend] at both
      exact both

end Reads

section Segments

variable {data : QuircData} {seg : Segment} {text : List UInt8}

private theorem Reads.congr {decode decode' : Decoding → Except DecodeError Decoding}
    {bits : List Bool}
    {data' : QuircData} (reads : Reads decode data bits data')
    (same : ∀ ds, decode' ⟨data, ds⟩ = decode ⟨data, ds⟩) : Reads decode' data bits data' := by
  intro ds rest has
  obtain ⟨next, decoded, held⟩ := reads ds rest has
  exact ⟨next, (same ds).trans decoded, held⟩

/-- What is common to the decoders: a count, and what is read as often. -/
theorem reads_counted {width count : Nat} (body : Nat → Decoding → Except DecodeError Decoding)
    {bits : List Bool} {data' : QuircData} (small : count < 2 ^ width)
    (room : data.payload.length + count + 1 ≤ quircMaxPayload)
    (reads : Reads (body count) data bits data') :
    Reads (fun st =>
        let taken := takeBits st.ds width
        if st.data.payload.length + taken.1 + 1 > quircMaxPayload then .error .dataOverflow
        else body taken.1 { st with ds := taken.2 })
      data (Bits.ofDigit width count ++ bits) data' := by
  intro ds rest has
  rw [List.append_assoc] at has
  obtain ⟨next, taken, held⟩ := takeBits_ofDigit small has
  obtain ⟨last, decoded, heldLast⟩ := reads next rest held
  refine ⟨last, ?_, heldLast⟩
  dsimp only
  rw [taken, if_neg (Nat.not_lt.mpr room)]
  exact decoded

/-- Bytes, once there are enough of them. -/
theorem reads_decodeByteBody (text : List UInt8) :
    Reads (fun st => if bitsRemaining st.ds < text.length * 8 then .error .dataUnderflow
        else .ok (decodeByteTurn^[text.length] st)) data (bytesBits text) (data.extend text) := by
  intro ds rest has
  have room : ¬bitsRemaining ds < text.length * 8 := by
    rw [bitsRemaining_eq has, List.length_append, length_bytesBits]
    omega
  obtain ⟨next, decoded, held⟩ := reads_decodeBytes text ds rest has
  exact ⟨next, by dsimp only; rw [if_neg room]; exact decoded, held⟩

/-- The widths of the counts are the same on both sides. -/
theorem countWidth_eq : ∀ version ≤ 40,
    countWidth 10 12 14 version = numCharCountBits .numeric version ∧
    countWidth 9 11 13 version = numCharCountBits .alphanumeric version ∧
    countWidth 8 16 16 version = numCharCountBits .byte version := by
  decide

/-- What the bits of a segment are after its type. -/
def bodyBits (version : Nat) (seg : Segment) : List Bool :=
  Bits.ofDigit (numCharCountBits seg.mode version) seg.numChars ++ seg.bits

private theorem appendSegment_eq (version : Nat) (buffer : List Bool) (seg : Segment) :
    appendSegment version buffer seg =
      buffer ++ (Bits.ofDigit 4 seg.mode.toNat ++ bodyBits version seg) := by
  simp only [appendSegment, appendBitsToBuffer, bodyBits, List.append_assoc]

private theorem map_digitChar (digits : isNumeric text = true) :
    (text.map fun c => c.toNat - 48).map digitChar = text := by
  rw [List.map_map]
  refine (List.map_congr_left fun c member => ?_).trans (List.map_id text)
  have range := of_decide_eq_true (List.all_eq_true.mp digits c member)
  have low : 48 ≤ c.toNat := range.1
  rw [Function.comp_apply, digitChar, Nat.sub_add_cancel low, UInt8.ofNat_toNat]
  rfl

private theorem map_alphaMap (chars : isAlphanumeric text = true) :
    (text.map alphanumericCharset.idxOf).map (fun value => alphaMap.getD value 0) = text := by
  rw [List.map_map]
  refine (List.map_congr_left fun c member => ?_).trans (List.map_id text)
  have known : c ∈ alphanumericCharset := by
    simpa using List.all_eq_true.mp chars c member
  change alphanumericCharset.getD (alphanumericCharset.idxOf c) 0 = c
  rw [List.getD_eq_getElem _ _ (List.idxOf_lt_length_of_mem known), List.getElem_idxOf]

/-- **A segment** is read back as the text that it is made from. -/
theorem reads_decodeSegment (made : Made seg text) {version : Nat} (most : version ≤ 40)
    (known : data.version = version)
    (small : seg.numChars < 2 ^ numCharCountBits seg.mode version)
    (room : data.payload.length + text.length + 1 ≤ quircMaxPayload) :
    ∃ decode, decodeSegment seg.mode.toNat = some decode ∧
      Reads decode data (bodyBits version seg) (data.extend text) := by
  obtain ⟨numeric, alphanumeric, byte⟩ := countWidth_eq version most
  subst known
  cases made with
  | numeric digits =>
      have values : ∀ value ∈ text.map fun c => c.toNat - 48, value < 10 := by
        intro value member
        obtain ⟨c, inText, rfl⟩ := List.mem_map.mp member
        have range := of_decide_eq_true (List.all_eq_true.mp digits c inText)
        have high : c.toNat ≤ 57 := range.2
        omega
      have body : Reads (decodeDigits _) data _ _ := reads_decodeDigits values
      rw [map_digitChar digits, List.length_map, ← makeNumeric_bits] at body
      refine ⟨decodeNumeric, rfl, (reads_counted _ small room body).congr fun ds => ?_⟩
      rw [decodeNumeric, numeric]
      rfl
  | alphanumeric chars =>
      have values : ∀ value ∈ text.map alphanumericCharset.idxOf, value < 45 := by
        intro value member
        obtain ⟨c, inText, rfl⟩ := List.mem_map.mp member
        exact List.idxOf_lt_length_of_mem (by simpa using List.all_eq_true.mp chars c inText)
      have body : Reads (decodeChars _) data _ _ := reads_decodeChars values
      rw [map_alphaMap chars, List.length_map, ← makeAlphanumeric_bits] at body
      refine ⟨decodeAlpha, rfl, (reads_counted _ small room body).congr fun ds => ?_⟩
      rw [decodeAlpha, alphanumeric]
      rfl
  | bytes =>
      refine ⟨decodeByte, rfl, (reads_counted (fun count st =>
        if bitsRemaining st.ds < count * 8 then .error .dataUnderflow
        else .ok (decodeByteTurn^[count] st)) small room (reads_decodeByteBody text)).congr
        fun ds => ?_⟩
      rw [decodeByte, byte]
      rfl

end Segments

section Payload

variable {version : Nat} {segs : List Segment} {texts : List (List UInt8)} {data : QuircData}

/-- The types of segments, the highest one of which is kept. -/
def QuircData.raise (data : QuircData) (segs : List Segment) : QuircData :=
  segs.foldl (fun data seg => raiseType seg.mode.toNat data) data

private theorem raiseType_extend (type : Nat) (data : QuircData) (text : List UInt8) :
    raiseType type (data.extend text) = (raiseType type data).extend text := by
  by_cases raised : type &&& (type - 1) = 0 ∧ type > data.dataType
  · rw [raiseType, raiseType, if_pos raised]
    exact if_pos raised
  · rw [raiseType, raiseType, if_neg raised]
    exact if_neg raised

private theorem raise_extend (segs : List Segment) (data : QuircData) (text : List UInt8) :
    (data.extend text).raise segs = (data.raise segs).extend text := by
  induction segs generalizing data with
  | nil => rfl
  | cons seg segs ih =>
      rw [QuircData.raise, List.foldl_cons, raiseType_extend]
      exact ih _

/-- Nothing but the type is raised. -/
theorem raiseType_eq (type : Nat) (data : QuircData) :
    ∃ raised, raiseType type data = { data with dataType := raised } := by
  rw [raiseType]
  split
  · exact ⟨type, rfl⟩
  · exact ⟨data.dataType, rfl⟩

/-- Segments raise the data type only. -/
theorem raise_eq (segs : List Segment) (data : QuircData) :
    ∃ raised, data.raise segs = { data with dataType := raised } := by
  induction segs generalizing data with
  | nil => exact ⟨data.dataType, rfl⟩
  | cons seg segs ih =>
      obtain ⟨first, raised⟩ := raiseType_eq seg.mode.toNat data
      obtain ⟨last, rest⟩ := ih (raiseType seg.mode.toNat data)
      refine ⟨last, rest.trans ?_⟩
      rw [raised]

/-- The bits of a segment come before those of the rest. -/
theorem segmentsBits_cons (seg : Segment) (segs : List Segment) :
    segmentsBits version (seg :: segs) =
      Bits.ofDigit 4 seg.mode.toNat ++ bodyBits version seg ++ segmentsBits version segs := by
  have turns : ∀ (segs : List Segment) (buffer : List Bool),
      segs.foldl (appendSegment version) buffer = buffer ++ segmentsBits version segs := by
    intro segs
    induction segs with
    | nil => exact fun buffer => (List.append_nil buffer).symm
    | cons seg segs ih =>
        intro buffer
        rw [segmentsBits, List.foldl_cons, List.foldl_cons, ih, ih, appendSegment_eq,
          appendSegment_eq, List.nil_append, List.append_assoc]
  rw [segmentsBits, List.foldl_cons, turns, appendSegment_eq, List.nil_append]

/-- What is after the segments: too little for a type, or the type that ends them. -/
def Ended (rest : List Bool) : Prop :=
  rest.length < 4 ∨ ∃ tail, rest = List.replicate 4 false ++ tail

private theorem decodeSegments_ended {turns : Nat} {ds : Stream} {rest : List Bool}
    (has : ds.Has rest)
    (ended : Ended rest) (enough : bitsRemaining ds ≤ turns) :
    ∃ last, decodeSegments turns ⟨data, ds⟩ = some (.ok ⟨data, last⟩) := by
  rcases ended with short | ⟨tail, rfl⟩
  · have few : ¬bitsRemaining ds ≥ 4 := Nat.not_le.mpr (bitsRemaining_eq has ▸ short)
    refine ⟨ds, ?_⟩
    rw [decodeSegments.eq_def, if_neg few]
  · have four : bitsRemaining ds ≥ 4 := by
      rw [bitsRemaining_eq has, List.length_append, List.length_replicate]
      omega
    obtain ⟨turns, rfl⟩ : ∃ left, turns = left + 1 := ⟨turns - 1, by omega⟩
    rw [← ofDigit_zero] at has
    obtain ⟨next, taken, -⟩ := takeBits_ofDigit (by decide) has
    refine ⟨next, ?_⟩
    rw [decodeSegments, if_pos four]
    dsimp only
    rw [taken]
    rfl

/-- **The segments** are read back as the texts that they are made from. -/
theorem decodeSegments_eq {turns : Nat} {ds : Stream} {rest : List Bool}
    (made : List.Forall₂ Made segs texts) (most : version ≤ 40) (known : data.version = version)
    (small : ∀ seg ∈ segs, seg.numChars < 2 ^ numCharCountBits seg.mode version)
    (room : data.payload.length + texts.flatten.length + 1 ≤ quircMaxPayload)
    (has : ds.Has (segmentsBits version segs ++ rest)) (ended : Ended rest)
    (enough : bitsRemaining ds ≤ turns) :
    ∃ last, decodeSegments turns ⟨data, ds⟩ =
      some (.ok ⟨(data.raise segs).extend texts.flatten, last⟩) := by
  induction made generalizing data ds turns with
  | nil =>
      rw [List.flatten_nil, extend_nil]
      exact decodeSegments_ended has ended enough
  | @cons seg text segs texts made _ ih =>
      rw [List.flatten_cons, List.length_append] at room
      rw [segmentsBits_cons, List.append_assoc, List.append_assoc] at has
      have total := bitsRemaining_eq has
      rw [List.length_append, Bits.length_ofDigit] at total
      have type : seg.mode.toNat < 2 ^ 4 := by cases seg.mode <;> decide
      obtain ⟨next, taken, held⟩ := takeBits_ofDigit type has
      obtain ⟨decode, named, reads⟩ := reads_decodeSegment made most known
        (small seg List.mem_cons_self) (by omega)
      obtain ⟨later, decoded, heldLater⟩ := reads next _ held
      obtain ⟨raised, same⟩ := raiseType_eq seg.mode.toNat (data.extend text)
      have remaining := bitsRemaining_eq heldLater
      rw [List.length_append] at total
      obtain ⟨turns, rfl⟩ : ∃ left, turns = left + 1 := ⟨turns - 1, by omega⟩
      have room : (raiseType seg.mode.toNat (data.extend text)).payload.length +
          texts.flatten.length + 1 ≤ quircMaxPayload := by
        rw [same, QuircData.extend, List.length_append]
        omega
      have run : ∃ last, decodeSegments turns
          ⟨raiseType seg.mode.toNat (data.extend text), later⟩ = _ :=
        ih (same ▸ known)
          (fun other member => small other (List.mem_cons_of_mem _ member)) room heldLater
          (by omega)
      obtain ⟨last, run⟩ := run
      have four : bitsRemaining ds ≥ 4 := by omega
      refine ⟨last, ?_⟩
      rw [decodeSegments, if_pos four]
      dsimp only
      rw [taken]
      dsimp only
      rw [named]
      dsimp only
      rw [decoded]
      dsimp only
      rw [run, raiseType_extend, raise_extend, extend_extend, List.flatten_cons]
      rfl

end Payload

end VaultSeed.Quirc
