import VaultSeed.Qrcodegen.Penalty
import VaultSeed.Qrcodegen.Segments

/-! # Encoding a text

`qrcodegen_encodeSegmentsAdvanced` of `qrcodegen.c` chooses the least version that has room, raises
the level of correction while it does, fills up the data (`VaultSeed.Qrcodegen.fillUp_spec`) and
draws the code with the mask of the least penalty. Whatever mask that is, each data module shows its
bit of the codewords, flipped where the mask flips (`VaultSeed.Qrcodegen.drawCode_spec`).
-/

namespace VaultSeed.Qrcodegen

open Accumulate Painting

/-- `LONG_MAX`, on a machine where it is least. -/
def longMax : Int := 2 ^ 31 - 1

/-- `qrcodegen_VERSION_MAX`. -/
def versionMax : Nat := 40

/-- `qrcodegen_BUFFER_LEN_FOR_VERSION`. -/
def bufferLenForVersion (n : Nat) : Nat := ((n * 4 + 17) * (n * 4 + 17) + 7) / 8 + 1

/-- `qrcodegen_encodeSegmentsAdvanced`: the loop over the versions, with as many turns left. -/
def findVersion (segs : List Segment) (ecl : Ecc) : Nat → Nat → Option (Nat × Nat)
  | turns, version =>
    let dataCapacityBits := getNumDataCodewords version ecl * 8
    match (getTotalBits segs version).filter fun used => decide (used ≤ dataCapacityBits) with
    | some dataUsedBits => some (version, dataUsedBits)
    | none =>
      match turns with
      | 0 => none
      | turns + 1 => findVersion segs ecl turns (version + 1)

/-- `qrcodegen_encodeSegmentsAdvanced`: the level is raised while the data still fits. -/
def boost (boostEcl : Bool) (version dataUsedBits : Nat) (ecl : Ecc) : Ecc :=
  [Ecc.medium, Ecc.quartile, Ecc.high].foldl (fun ecl i =>
    if boostEcl && decide (dataUsedBits ≤ getNumDataCodewords version i * 8) then i else ecl) ecl

/-- `qrcodegen_encodeSegmentsAdvanced`: a segment is appended. -/
def appendSegment (version : Nat) (buffer : List Bool) (seg : Segment) : List Bool :=
  let buffer := appendBitsToBuffer seg.mode.toNat 4 buffer
  let buffer := appendBitsToBuffer seg.numChars (numCharCountBits seg.mode version) buffer
  buffer ++ seg.bits

/-- `qrcodegen_encodeSegmentsAdvanced`: the loop that pads, with as many turns left. -/
def pad (dataCapacityBits : Nat) : Nat → Nat → List Bool → List Bool
  | 0, _, buffer => buffer
  | turns + 1, padByte, buffer =>
    if buffer.length < dataCapacityBits then
      pad dataCapacityBits turns (padByte ^^^ (0xEC ^^^ 0x11)) (appendBitsToBuffer padByte 8 buffer)
    else buffer

/-- `qrcodegen_encodeSegmentsAdvanced`: the terminator and the padding. -/
def fillUp (dataCapacityBits : Nat) (buffer : List Bool) : List Bool :=
  let terminatorBits := min (dataCapacityBits - buffer.length) 4
  let buffer := appendBitsToBuffer 0 terminatorBits buffer
  let buffer := appendBitsToBuffer 0 ((8 - buffer.length % 8) % 8) buffer
  pad dataCapacityBits dataCapacityBits 0xEC buffer

/-- `qrcodegen_encodeSegmentsAdvanced`: the segments, one after the other. -/
def segmentsBits (version : Nat) (segs : List Segment) : List Bool :=
  segs.foldl (appendSegment version) []

/-- `qrcodegen_encodeSegmentsAdvanced`: the data bits. -/
def dataBits (segs : List Segment) (version : Nat) (ecl : Ecc) : List Bool :=
  fillUp (getNumDataCodewords version ecl * 8) (segmentsBits version segs)

/-- The bytes of a buffer of bits. -/
def bufferBytes (buffer : List Bool) : List UInt8 := (Bits.groups 8 buffer).map UInt8.ofNat

/-- `qrcodegen_encodeSegmentsAdvanced`: what the choice of a mask changes. -/
structure Chosen where
  qrcode : List UInt8
  mask : Option Nat
  minPenalty : Int

/-- `qrcodegen_encodeSegmentsAdvanced`, a turn of the loop over the masks. -/
def Chosen.turn (functionModules : List UInt8) (ecl : Ecc) (chosen : Chosen) (msk : Nat) : Chosen :=
  let qrcode := applyMask functionModules chosen.qrcode msk
  let qrcode := drawFormatBits ecl msk qrcode
  let penalty := getPenaltyScore qrcode
  let better := decide (penalty < chosen.minPenalty)
  { qrcode := applyMask functionModules qrcode msk
    mask := if better then some msk else chosen.mask
    minPenalty := if better then penalty else chosen.minPenalty }

/-- `qrcodegen_encodeSegmentsAdvanced`: the mask; nothing stands for `qrcodegen_Mask_AUTO`. -/
def chooseMask (functionModules : List UInt8) (ecl : Ecc) (mask : Option Nat)
    (qrcode : List UInt8) : Chosen :=
  match mask with
  | some mask => ⟨qrcode, some mask, longMax⟩
  | none => (List.range 8).foldl (Chosen.turn functionModules ecl) ⟨qrcode, none, longMax⟩

/-- `qrcodegen_encodeSegmentsAdvanced`: the modules, from the data. -/
def drawCode (data : List UInt8) (version : Nat) (ecl : Ecc) (mask : Option Nat) :
    Option (List UInt8) :=
  let codewords := addEccAndInterleave data version ecl
  let functionModules := initializeFunctionModules version
  let qrcode := (drawCodewords codewords (rawCodewords version) functionModules).1
  let qrcode := drawWhiteFunctionModules version qrcode
  let chosen := chooseMask functionModules ecl mask qrcode
  chosen.mask.map fun mask =>
    drawFormatBits ecl mask (applyMask functionModules chosen.qrcode mask)

/-- `qrcodegen_encodeSegmentsAdvanced`. -/
def encodeSegmentsAdvanced (segs : List Segment) (ecl : Ecc) (minVersion maxVersion : Nat)
    (mask : Option Nat) (boostEcl : Bool) : Option (List UInt8) :=
  (findVersion segs ecl (maxVersion - minVersion) minVersion).bind fun found =>
    let ecl := boost boostEcl found.1 found.2 ecl
    drawCode (bufferBytes (dataBits segs found.1 ecl)) found.1 ecl mask

/-- `qrcodegen_encodeText`: the segment of a text. -/
def textSegments (text : List UInt8) (maxVersion : Nat) : Option (List Segment) :=
  let bufLen := bufferLenForVersion maxVersion
  if text.length = 0 then some []
  else if isNumeric text then
    ((calcSegmentBufferSize .numeric text.length).filter fun size => decide (size ≤ bufLen)).map
      fun _ => [makeNumeric text]
  else if isAlphanumeric text then
    ((calcSegmentBufferSize .alphanumeric text.length).filter
      fun size => decide (size ≤ bufLen)).map fun _ => [makeAlphanumeric text]
  else if text.length > bufLen then none
  else (calcSegmentBitLength .byte text.length).map fun _ => [makeBytes text]

/-- `qrcodegen_encodeText`: a text ends before its first zero. -/
def encodeText (text : List UInt8) (ecl : Ecc) (minVersion maxVersion : Nat) (mask : Option Nat)
    (boostEcl : Bool) : Option (List UInt8) :=
  (textSegments (text.takeWhile (· != 0)) maxVersion).bind fun segs =>
    encodeSegmentsAdvanced segs ecl minVersion maxVersion mask boostEcl

/-- `qrcodegen_encodeBinary`. -/
def encodeBinary (data : List UInt8) (ecl : Ecc) (minVersion maxVersion : Nat)
    (mask : Option Nat) (boostEcl : Bool) : Option (List UInt8) :=
  (calcSegmentBitLength .byte data.length).bind fun _ =>
    encodeSegmentsAdvanced [makeBytes data] ecl minVersion maxVersion mask boostEcl

section Draw

variable {version : Nat} {ecl : Ecc} {data : List UInt8}

/-- Modules that are not function modules. -/
def SameData (version : Nat) (first second : List UInt8) : Prop :=
  ∀ cell, (modules (side version)).inside cell → ¬Function version cell →
    (modules (side version)).look first cell = (modules (side version)).look second cell

/-- A turn of the mask loop puts its mask on and takes it off. -/
theorem Chosen.turn_qrcode (functionModules : List UInt8) (chosen : Chosen) (msk : Nat) :
    (chosen.turn functionModules ecl msk).qrcode = applyMask functionModules
      (drawFormatBits ecl msk (applyMask functionModules chosen.qrcode msk)) msk := by
  rw [Chosen.turn]

/-- A turn of the choice leaves the data modules as they were. -/
theorem Chosen.turn_spec (most : version ≤ 40) (chosen : Chosen) (msk : Nat)
    (good : (modules (side version)).good chosen.qrcode) :
    (modules (side version)).good
        (chosen.turn (initializeFunctionModules version) ecl msk).qrcode ∧
      SameData version (chosen.turn (initializeFunctionModules version) ecl msk).qrcode
        chosen.qrcode := by
  obtain ⟨maskedGood, flipped⟩ := flips_applyMask most msk chosen.qrcode good
  obtain ⟨drawnGood, kept⟩ := within_drawFormatBits ecl msk _ maskedGood
  obtain ⟨lastGood, back⟩ := flips_applyMask most msk _ drawnGood
  rw [Chosen.turn_qrcode]
  refine ⟨lastGood, fun cell inside outside => ?_⟩
  rw [back cell inside, kept cell inside outside, flipped cell inside, Bool.xor_assoc,
    Bool.xor_self, Bool.xor_false]

/-- A turn of the mask loop chooses its mask or keeps the one before. -/
theorem Chosen.turn_mask (functionModules : List UInt8) (ecl : Ecc) (chosen : Chosen) (msk : Nat)
    (fresh : chosen.mask = none → chosen.minPenalty = longMax) :
    ((chosen.turn functionModules ecl msk).mask = some msk ∨
      (chosen.turn functionModules ecl msk).mask = chosen.mask) ∧
      (chosen.turn functionModules ecl msk).mask ≠ none := by
  rw [Chosen.turn]
  dsimp only
  split
  · exact ⟨.inl rfl, Option.some_ne_none msk⟩
  · next worse =>
      refine ⟨.inr rfl, fun none => worse (decide_eq_true ?_)⟩
      rw [fresh none]
      exact penalty_lt _

/-- The choice of a mask: one is chosen, and the data modules are as they were. -/
theorem chooseMask_spec (most : version ≤ 40) (ecl : Ecc) {mask : Option Nat}
    (legal : ∀ m ∈ mask, m < 8)
    {qrcode : List UInt8} (good : (modules (side version)).good qrcode) :
    ∃ m < 8, (chooseMask (initializeFunctionModules version) ecl mask qrcode).mask = some m ∧
      (modules (side version)).good
        (chooseMask (initializeFunctionModules version) ecl mask qrcode).qrcode ∧
      SameData version (chooseMask (initializeFunctionModules version) ecl mask qrcode).qrcode
        qrcode := by
  cases mask with
  | some m => exact ⟨m, legal m rfl, rfl, good, fun _ _ _ => rfl⟩
  | none =>
      have turns : ∀ count,
          let chosen := (List.range count).foldl
            (Chosen.turn (initializeFunctionModules version) ecl) ⟨qrcode, none, longMax⟩
          (modules (side version)).good chosen.qrcode ∧ SameData version chosen.qrcode qrcode ∧
            (chosen.mask = none → count = 0 ∧ chosen.minPenalty = longMax) ∧
            ∀ m, chosen.mask = some m → m < count := by
        intro count
        induction count with
        | zero =>
            exact ⟨good, fun _ _ _ => rfl, fun _ => ⟨rfl, rfl⟩, fun m none =>
              absurd none (Option.some_ne_none m).symm⟩
        | succ count ih =>
            rw [List.range_succ, List.foldl_append, List.foldl_cons, List.foldl_nil]
            obtain ⟨before, same, fresh, bound⟩ := ih
            obtain ⟨after, kept⟩ := Chosen.turn_spec most _ count before
            obtain ⟨found, some⟩ := Chosen.turn_mask (initializeFunctionModules version) ecl _ count
              fun none => (fresh none).2
            refine ⟨after, fun cell inside outside =>
              (kept cell inside outside).trans (same cell inside outside),
              fun none => absurd none some, fun m chosen => ?_⟩
            rcases found with now | earlier
            · rw [now] at chosen
              exact Option.some.inj chosen ▸ Nat.lt_succ_self count
            · exact Nat.lt_succ_of_lt (bound m (earlier ▸ chosen))
      obtain ⟨kept, same, fresh, bound⟩ := turns 8
      rw [chooseMask]
      obtain ⟨m, found⟩ := Option.ne_none_iff_exists'.mp fun none =>
        absurd (fresh none).1 (by decide)
      exact ⟨m, bound m found, found, kept, same⟩

/-- A finished code: its format, and the bits of the codewords under a mask. -/
structure Drawn (version : Nat) (ecl : Ecc) (mask : Nat) (codewords qrcode : List UInt8) :
    Prop where
  good : (modules (side version)).good qrcode
  format : ∀ i < 15, getModule qrcode (firstCopy i).1 (firstCopy i).2 =
    getBit (formatBits ecl mask) i
  data : ∀ index cell, (dataModules version)[index]? = some cell →
    getModule qrcode cell.1 cell.2 =
      ((decide (index < rawCodewords version * 8) && codewordBit codewords index) ^^
        invert mask cell.1 cell.2)

/-- A data module is inside of the code and no function module. -/
theorem mem_dataModules {cell : Nat × Nat} (member : cell ∈ dataModules version) :
    (modules (side version)).inside cell ∧ ¬Function version cell := by
  rw [dataModules, List.mem_filter, Bool.not_eq_true'] at member
  obtain ⟨visited, white⟩ := member
  refine ⟨(zigzag_spec (side version)).1 cell visited, ?_⟩
  rw [Function, white]
  exact Bool.false_ne_true

private theorem free_functionModules (most : version ≤ 40) :
    free (modules (side version)) (initializeFunctionModules version) (zigzag (side version)) =
      dataModules version := by
  refine List.filter_congr fun cell member => ?_
  rw [(initializeFunctionModules_spec most).2 cell ((zigzag_spec (side version)).1 cell member)]

/-- Codewords, drawn beside the function modules. -/
def drawnCodewords (codewords : List UInt8) (version : Nat) : List UInt8 × Nat :=
  drawCodewords codewords (rawCodewords version) (initializeFunctionModules version)

/-- **All codewords are drawn**: the zigzag finds as many free modules as there are raw data
modules, each bit is in a module of its own, and no function module changes. -/
theorem drawCodewords_all (positive : 1 ≤ version) (most : version ≤ 40) (codewords : List UInt8) :
    free (modules (side version)) (initializeFunctionModules version) (zigzag (side version)) =
        dataModules version ∧
      (dataModules version).length = getNumRawDataModules version ∧
      (dataModules version).Nodup ∧
      (drawnCodewords codewords version).2 = rawCodewords version * 8 ∧
      (∀ index < rawCodewords version * 8, ∃ cell, (dataModules version)[index]? = some cell ∧
        getModule (drawnCodewords codewords version).1 cell.1 cell.2 =
          codewordBit codewords index) ∧
      ∀ cell, (modules (side version)).inside cell → Function version cell →
        getModule (drawnCodewords codewords version).1 cell.1 cell.2 = true := by
  obtain ⟨functionGood, shows⟩ := initializeFunctionModules_spec most
  have laid := drawCodewords_laid codewords (rawCodewords version) functionGood
  have found := free_functionModules most
  have capacity := length_dataModules positive most
  have room : rawCodewords version * 8 ≤ getNumRawDataModules version := Nat.div_mul_le_self _ 8
  refine ⟨found, capacity, nodup_dataModules version, ?_, fun index less => ?_,
    fun cell inside function => ?_⟩
  · have total := laid.total
    rw [found, capacity, Nat.zero_add, Nat.min_eq_left room] at total
    exact total
  · have place := List.getElem?_eq_getElem
      (by rw [capacity]; omega : index < (dataModules version).length)
    have shown := laid.shown index _ (by rw [found]; exact place)
    rw [Nat.zero_add, decide_eq_true less, Bool.true_and] at shown
    exact ⟨_, place, shown⟩
  · have taken : cell ∉ free (modules (side version)) (initializeFunctionModules version)
        (zigzag (side version)) := by
      rw [found]
      exact fun member => (mem_dataModules member).2 function
    exact (laid.untouched cell inside taken).trans ((shows cell inside).trans function)

/-- The codewords of the least version. -/
theorem drawCodewords_all_one :
    free (modules (side 1)) (initializeFunctionModules 1) (zigzag (side 1)) = dataModules 1 ∧
      (dataModules 1).length = getNumRawDataModules 1 ∧
      (dataModules 1).Nodup ∧
      (drawnCodewords [0xFF] 1).2 = rawCodewords 1 * 8 ∧
      (∀ index < rawCodewords 1 * 8, ∃ cell, (dataModules 1)[index]? = some cell ∧
        getModule (drawnCodewords [0xFF] 1).1 cell.1 cell.2 = codewordBit [0xFF] index) ∧
      ∀ cell, (modules (side 1)).inside cell → Function 1 cell →
        getModule (drawnCodewords [0xFF] 1).1 cell.1 cell.2 = true :=
  drawCodewords_all (by decide) (by decide) [0xFF]

/-- The buffer that the masks are applied to. -/
def drawnData (data : List UInt8) (version : Nat) (ecl : Ecc) : List UInt8 :=
  drawWhiteFunctionModules version (drawCodewords (addEccAndInterleave data version ecl)
    (rawCodewords version) (initializeFunctionModules version)).1

/-- The drawn data are a code of the version. -/
theorem drawnData_good (data : List UInt8) (ecl : Ecc) (most : version ≤ 40) :
    (modules (side version)).good (drawnData data version ecl) := by
  obtain ⟨functionGood, -⟩ := initializeFunctionModules_spec most
  have laid := drawCodewords_laid (addEccAndInterleave data version ecl) (rawCodewords version)
    functionGood
  exact (within_drawWhiteFunctionModules most _ laid.good).1

/-- A mask is the one that is chosen for a code. -/
def Chooses (data : List UInt8) (version : Nat) (ecl : Ecc) (mask : Option Nat) (m : Nat) : Prop :=
  (chooseMask (initializeFunctionModules version) ecl mask (drawnData data version ecl)).mask =
    some m

/-- **A finished code** shows its data under the mask that was chosen. -/
theorem drawCode_spec (most : version ≤ 40) (data : List UInt8) (ecl : Ecc)
    {mask : Option Nat} (legal : ∀ m ∈ mask, m < 8) :
    ∃ m < 8, Chooses data version ecl mask m ∧
      ∃ qrcode, drawCode data version ecl mask = some qrcode ∧
        Drawn version ecl m (addEccAndInterleave data version ecl) qrcode := by
  obtain ⟨functionGood, -⟩ := initializeFunctionModules_spec most
  have laid := drawCodewords_laid (addEccAndInterleave data version ecl) (rawCodewords version)
    functionGood
  obtain ⟨whiteGood, whiteSame⟩ := within_drawWhiteFunctionModules most _ laid.good
  obtain ⟨m, small, found, chosenGood, chosenSame⟩ := chooseMask_spec most ecl legal
    whiteGood
  obtain ⟨maskedGood, flipped⟩ := flips_applyMask most m _ chosenGood
  obtain ⟨drawnGood, kept⟩ := within_drawFormatBits ecl m _ maskedGood
  refine ⟨m, small, found, _, by rw [drawCode]; dsimp only; rw [found]; rfl, drawnGood,
    fun i less =>
    look_firstCopy maskedGood less, fun index cell place => ?_⟩
  obtain ⟨inside, outside⟩ := mem_dataModules (List.mem_of_getElem? place)
  have white : functionModule version cell = false := by simpa [Function] using outside
  have shown := laid.shown index cell (by rw [free_functionModules most]; exact place)
  have seen := kept cell inside outside
  rw [flipped cell inside, chosenSame cell inside outside, whiteSame cell inside outside, shown,
    Nat.zero_add, masked, white] at seen
  exact seen

end Draw

section Data

variable {version : Nat} {ecl : Ecc} {segs : List Segment}

private theorem length_appendSegment (buffer : List Bool) (seg : Segment) :
    (appendSegment version buffer seg).length =
      buffer.length + (4 + numCharCountBits seg.mode version + seg.bits.length) := by
  simp only [appendSegment, appendBitsToBuffer, List.length_append, Bits.length_ofDigit,
    Nat.add_assoc]

private theorem foldl_getTotalBitsTurn_none (segs : List Segment) :
    segs.foldl (getTotalBitsTurn version) none = none := by
  induction segs with
  | nil => rfl
  | cons seg segs ih => exact ih

/-- The predicted number of bits is the number of bits, and each segment has room for its
length. -/
theorem getTotalBits_spec {used : Nat} (total : getTotalBits segs version = some used) :
    (segmentsBits version segs).length = used ∧ used ≤ int16Max ∧
      ∀ seg ∈ segs, seg.numChars < 2 ^ numCharCountBits seg.mode version := by
  have turns : ∀ (segs : List Segment) (buffer : List Bool), buffer.length ≤ int16Max →
      segs.foldl (getTotalBitsTurn version) (some buffer.length) = some used →
      (segs.foldl (appendSegment version) buffer).length = used ∧ used ≤ int16Max ∧
        ∀ seg ∈ segs, seg.numChars < 2 ^ numCharCountBits seg.mode version := by
    intro segs
    induction segs with
    | nil =>
        intro buffer small same
        obtain rfl := Option.some.inj same
        exact ⟨rfl, small, fun _ member => absurd member List.not_mem_nil⟩
    | cons seg segs ih =>
        intro buffer small same
        rw [List.foldl_cons, getTotalBitsTurn, Option.bind_some] at same
        dsimp only at same
        split at same
        · rw [foldl_getTotalBitsTurn_none] at same
          cases same
        · next fits =>
            split at same
            · rw [foldl_getTotalBitsTurn_none] at same
              cases same
            · next bound =>
                rw [← length_appendSegment] at same bound
                obtain ⟨length, most, others⟩ := ih _ (Nat.not_lt.mp bound) same
                refine ⟨length, most, fun other member => ?_⟩
                rcases List.mem_cons.mp member with rfl | later
                · rw [Nat.one_shiftLeft] at fits
                  exact Nat.not_le.mp fits
                · exact others other later
  exact turns segs [] (Nat.zero_le _) total

/-- **The version** that is found is the least one with room. -/
theorem findVersion_spec {turns first : Nat} {found : Nat × Nat}
    (finds : findVersion segs ecl turns first = some found) :
    (first ≤ found.1 ∧ found.1 ≤ first + turns) ∧ getTotalBits segs found.1 = some found.2 ∧
      found.2 ≤ getNumDataCodewords found.1 ecl * 8 ∧
      ∀ earlier, first ≤ earlier → earlier < found.1 → ∀ used ∈ getTotalBits segs earlier,
        getNumDataCodewords earlier ecl * 8 < used := by
  induction turns generalizing first with
  | zero =>
      rw [findVersion] at finds
      split at finds
      · next used fits =>
          obtain rfl := Option.some.inj finds
          obtain ⟨total, room⟩ := Option.filter_eq_some_iff.mp fits
          exact ⟨⟨Nat.le_refl _, Nat.le_refl _⟩, total, of_decide_eq_true room,
            fun earlier more less => absurd less (Nat.not_lt.mpr more)⟩
      · cases finds
  | succ turns ih =>
      rw [findVersion] at finds
      split at finds
      · next used fits =>
          obtain rfl := Option.some.inj finds
          obtain ⟨total, room⟩ := Option.filter_eq_some_iff.mp fits
          exact ⟨⟨Nat.le_refl _, Nat.le_add_right _ _⟩, total, of_decide_eq_true room,
            fun earlier more less => absurd less (Nat.not_lt.mpr more)⟩
      · next none =>
          obtain ⟨⟨more, less⟩, total, room, least⟩ := ih finds
          refine ⟨⟨by omega, by omega⟩, total, room, fun earlier from' before used member => ?_⟩
          rcases Nat.eq_or_lt_of_le from' with rfl | later
          · rw [Option.filter_eq_none_iff] at none
            exact Nat.not_le.mp fun fits => none used member (decide_eq_true fits)
          · exact least earlier later before used member

/-- The raised level has room for the data. -/
theorem boost_spec {boostEcl : Bool} {dataUsedBits : Nat}
    (room : dataUsedBits ≤ getNumDataCodewords version ecl * 8) :
    dataUsedBits ≤ getNumDataCodewords version (boost boostEcl version dataUsedBits ecl) * 8 := by
  have turn : ∀ (levels : List Ecc) (ecl : Ecc),
      dataUsedBits ≤ getNumDataCodewords version ecl * 8 →
      dataUsedBits ≤ getNumDataCodewords version (levels.foldl (fun ecl i =>
        if boostEcl && decide (dataUsedBits ≤ getNumDataCodewords version i * 8) then i else ecl)
        ecl) * 8 := by
    intro levels
    induction levels with
    | nil => exact fun _ room => room
    | cons level levels ih =>
        intro ecl room
        refine ih _ ?_
        dsimp only
        split
        · next both => exact of_decide_eq_true (Bool.and_eq_true_iff.mp both).2
        · exact room
  exact turn _ ecl room

/-- Padding keeps the data, and fills up what is left. -/
theorem pad_spec {dataCapacityBits : Nat} (padByte turns : Nat) (buffer : List Bool)
    (whole : dataCapacityBits % 8 = 0) (aligned : buffer.length % 8 = 0)
    (room : buffer.length ≤ dataCapacityBits)
    (enough : dataCapacityBits ≤ buffer.length + turns * 8) :
    ∃ padding, pad dataCapacityBits turns padByte buffer = buffer ++ padding ∧
      (buffer ++ padding).length = dataCapacityBits := by
  induction turns generalizing padByte buffer with
  | zero => exact ⟨[], (List.append_nil _).symm, by rw [List.append_nil]; omega⟩
  | succ turns ih =>
      rw [pad]
      by_cases less : buffer.length < dataCapacityBits
      · have longer : (appendBitsToBuffer padByte 8 buffer).length = buffer.length + 8 := by
          rw [appendBitsToBuffer, List.length_append, Bits.length_ofDigit]
        obtain ⟨padding, padded, length⟩ := ih (padByte ^^^ (0xEC ^^^ 0x11))
          (appendBitsToBuffer padByte 8 buffer) (by omega) (by omega) (by omega)
        rw [if_pos less]
        refine ⟨Bits.ofDigit 8 padByte ++ padding, padded.trans ?_, ?_⟩
        · rw [appendBitsToBuffer, List.append_assoc]
        · rw [← List.append_assoc]
          exact length
      · rw [if_neg less]
        exact ⟨[], (List.append_nil _).symm, by rw [List.append_nil]; omega⟩

/-- The bits of zero. -/
theorem ofDigit_zero (width : Nat) : Bits.ofDigit width 0 = List.replicate width false := by
  induction width with
  | zero => rfl
  | succ width ih =>
      rw [Bits.ofDigit, Nat.zero_div, ih, List.replicate_succ']
      rfl

/-- **The data bits**: what is filled up is too short for a segment, or starts with four zeros. -/
theorem fillUp_spec {dataCapacityBits : Nat} (whole : dataCapacityBits % 8 = 0) {buffer : List Bool}
    (room : buffer.length ≤ dataCapacityBits) :
    ∃ rest, fillUp dataCapacityBits buffer = buffer ++ rest ∧
      (buffer ++ rest).length = dataCapacityBits ∧
      (rest.length < 4 ∨ ∃ tail, rest = List.replicate 4 false ++ tail) := by
  rw [fillUp]
  generalize terminator : min (dataCapacityBits - buffer.length) 4 = terminatorBits
  have ended : (appendBitsToBuffer 0 terminatorBits buffer).length =
      buffer.length + terminatorBits := by
    rw [appendBitsToBuffer, List.length_append, Bits.length_ofDigit]
  rw [ended]
  generalize filler : (8 - (buffer.length + terminatorBits) % 8) % 8 = fill
  have filled : (appendBitsToBuffer 0 fill (appendBitsToBuffer 0 terminatorBits buffer)).length =
      buffer.length + terminatorBits + fill := by
    rw [appendBitsToBuffer, List.length_append, Bits.length_ofDigit, ended]
  obtain ⟨padding, padded, length⟩ := pad_spec 0xEC dataCapacityBits
    (appendBitsToBuffer 0 fill (appendBitsToBuffer 0 terminatorBits buffer)) whole
    (by omega) (by omega) (by omega)
  have joined : appendBitsToBuffer 0 fill (appendBitsToBuffer 0 terminatorBits buffer) ++ padding =
      buffer ++ (List.replicate terminatorBits false ++
        (List.replicate fill false ++ padding)) := by
    simp only [appendBitsToBuffer, ofDigit_zero, List.append_assoc]
  rw [joined] at padded length
  refine ⟨_, padded, length, ?_⟩
  by_cases short : terminatorBits < 4
  · left
    rw [List.length_append] at length
    omega
  · obtain rfl : terminatorBits = 4 := by omega
    exact .inr ⟨_, rfl⟩

/-- The data as bytes: as many as the version and the level hold. -/
theorem bufferBytes_spec {buffer : List Bool} {count : Nat} (length : buffer.length = count * 8) :
    (bufferBytes buffer).length = count ∧ bytesBits (bufferBytes buffer) = buffer := by
  have back : (bufferBytes buffer).map UInt8.toNat = Bits.groups 8 buffer := by
    rw [bufferBytes, List.map_map]
    refine (List.map_congr_left fun digit member => ?_).trans (List.map_id _)
    rw [Function.comp_apply, UInt8.toNat_ofNat',
      Nat.mod_eq_of_lt (Bits.groups_lt 8 buffer digit member)]
    rfl
  have bits : bytesBits (bufferBytes buffer) = buffer := by
    rw [bytesBits, back]
    exact Bits.spell_groups_of_dvd (by decide) (length ▸ Dvd.intro_left count rfl)
  refine ⟨?_, bits⟩
  have same := length_bytesBits (bufferBytes buffer)
  rw [bits, length] at same
  omega

end Data

section Encoded

/-- What a finished code holds: the segments, in the data of a version, a level and a mask. -/
structure Holds (segs : List Segment) (version : Nat) (ecl : Ecc) (mask : Nat)
    (data qrcode : List UInt8) : Prop where
  positive : 1 ≤ version
  most : version ≤ versionMax
  small : mask < 8
  length : data.length = getNumDataCodewords version ecl
  drawn : Drawn version ecl mask (addEccAndInterleave data version ecl) qrcode
  bits : ∃ rest, bytesBits data = segmentsBits version segs ++ rest ∧
    (rest.length < 4 ∨ ∃ tail, rest = List.replicate 4 false ++ tail)
  room : ∀ seg ∈ segs, seg.numChars < 2 ^ numCharCountBits seg.mode version

variable {segs : List Segment} {ecl : Ecc} {minVersion maxVersion : Nat} {mask : Option Nat}
  {boostEcl : Bool}

/-- **Encoding segments**: when a version is found there is a code, and it holds the segments at
the level that they still fit at, under the mask that was chosen. -/
theorem encodeSegmentsAdvanced_spec (least : 1 ≤ minVersion) (order : minVersion ≤ maxVersion)
    (most : maxVersion ≤ versionMax) (legal : ∀ m ∈ mask, m < 8) {found : Nat × Nat}
    (finds : findVersion segs ecl (maxVersion - minVersion) minVersion = some found) :
    ∃ qrcode, encodeSegmentsAdvanced segs ecl minVersion maxVersion mask boostEcl = some qrcode ∧
      ∃ m data, Holds segs found.1 (boost boostEcl found.1 found.2 ecl) m data qrcode ∧
        Chooses data found.1 (boost boostEcl found.1 found.2 ecl) mask m ∧
        ∀ asked, encodeSegmentsAdvanced segs ecl minVersion maxVersion asked boostEcl =
          drawCode data found.1 (boost boostEcl found.1 found.2 ecl) asked := by
  obtain ⟨range, total, fits, -⟩ := findVersion_spec finds
  obtain ⟨used, -, lengths⟩ := getTotalBits_spec total
  have positive : 1 ≤ found.1 := by omega
  have bound : found.1 ≤ 40 := by
    rw [versionMax] at most
    omega
  have room : (segmentsBits found.1 segs).length ≤
      getNumDataCodewords found.1 (boost boostEcl found.1 found.2 ecl) * 8 := by
    rw [used]
    exact boost_spec fits
  obtain ⟨rest, filled, length, ended⟩ := fillUp_spec (Nat.mul_mod_left _ 8) room
  obtain ⟨bytes, bits⟩ := bufferBytes_spec length
  obtain ⟨m, small, chooses, qrcode, drawn, shows⟩ := drawCode_spec bound
    (bufferBytes (segmentsBits found.1 segs ++ rest)) (boost boostEcl found.1 found.2 ecl) legal
  have same : ∀ asked, encodeSegmentsAdvanced segs ecl minVersion maxVersion asked boostEcl =
      drawCode (bufferBytes (segmentsBits found.1 segs ++ rest)) found.1
        (boost boostEcl found.1 found.2 ecl) asked := by
    intro asked
    rw [encodeSegmentsAdvanced, finds, Option.bind_some]
    dsimp only
    rw [dataBits, filled]
  exact ⟨qrcode, (same mask).trans drawn, m, _,
    ⟨positive, bound, small, bytes, shows, ⟨rest, bits, ended⟩, lengths⟩, chooses, same⟩

/-- When no version is found, none has room. -/
theorem findVersion_none {turns first : Nat} (missing : findVersion segs ecl turns first = none) :
    ∀ version, first ≤ version → version ≤ first + turns → ∀ used ∈ getTotalBits segs version,
      getNumDataCodewords version ecl * 8 < used := by
  have here : ∀ {version}, ((getTotalBits segs version).filter fun used =>
      decide (used ≤ getNumDataCodewords version ecl * 8)) = none →
      ∀ used ∈ getTotalBits segs version, getNumDataCodewords version ecl * 8 < used := by
    intro version none used member
    rw [Option.filter_eq_none_iff] at none
    exact Nat.not_le.mp fun fits => none used member (decide_eq_true fits)
  induction turns generalizing first with
  | zero =>
      rw [findVersion] at missing
      split at missing
      · cases missing
      · next none =>
          intro version from' within
          obtain rfl : version = first := by omega
          exact here none
  | succ turns ih =>
      rw [findVersion] at missing
      split at missing
      · cases missing
      · next none =>
          intro version from' within
          rcases Nat.eq_or_lt_of_le from' with rfl | later
          · exact here none
          · exact ih missing version later (by omega)

/-- **The version of a code** is the least one with room for the segments at the level asked for,
and there is a code whenever some version has. -/
theorem encodeSegmentsAdvanced_least (least : 1 ≤ minVersion) (order : minVersion ≤ maxVersion)
    (most : maxVersion ≤ versionMax) (legal : ∀ m ∈ mask, m < 8) :
    (∃ qrcode version, encodeSegmentsAdvanced segs ecl minVersion maxVersion mask boostEcl =
        some qrcode ∧ getSize qrcode = side version ∧ minVersion ≤ version ∧ version ≤ maxVersion ∧
        (∃ used ∈ getTotalBits segs version, used ≤ getNumDataCodewords version ecl * 8) ∧
        ∀ earlier, minVersion ≤ earlier → earlier < version →
          ∀ used ∈ getTotalBits segs earlier, getNumDataCodewords earlier ecl * 8 < used) ∨
      encodeSegmentsAdvanced segs ecl minVersion maxVersion mask boostEcl = none ∧
        ∀ version, minVersion ≤ version → version ≤ maxVersion →
          ∀ used ∈ getTotalBits segs version, getNumDataCodewords version ecl * 8 < used := by
  cases finds : findVersion segs ecl (maxVersion - minVersion) minVersion with
  | some found =>
      obtain ⟨range, total, fits, before⟩ := findVersion_spec finds
      have drawn : ∃ qrcode, encodeSegmentsAdvanced segs ecl minVersion maxVersion mask boostEcl =
        some qrcode ∧ _ := encodeSegmentsAdvanced_spec least order most legal finds
      obtain ⟨qrcode, encoded, m, data, holds, -⟩ := drawn
      exact .inl ⟨qrcode, found.1, encoded, holds.drawn.good.2, range.1, by omega,
        ⟨found.2, total, fits⟩, before⟩
  | none =>
      refine .inr ⟨?_, fun version from' within => findVersion_none finds version from' (by omega)⟩
      rw [encodeSegmentsAdvanced, finds]
      rfl

/-- Three digits, with any version. -/
theorem encodeSegmentsAdvanced_least_three :
    (∃ qrcode version, encodeSegmentsAdvanced [makeNumeric [49, 50, 51]] .high 1 40 none true =
        some qrcode ∧ getSize qrcode = side version ∧ 1 ≤ version ∧ version ≤ 40 ∧
        (∃ used ∈ getTotalBits [makeNumeric [49, 50, 51]] version,
          used ≤ getNumDataCodewords version .high * 8) ∧
        ∀ earlier, 1 ≤ earlier → earlier < version →
          ∀ used ∈ getTotalBits [makeNumeric [49, 50, 51]] earlier,
            getNumDataCodewords earlier .high * 8 < used) ∨
      encodeSegmentsAdvanced [makeNumeric [49, 50, 51]] .high 1 40 none true = none ∧
        ∀ version, 1 ≤ version → version ≤ 40 →
          ∀ used ∈ getTotalBits [makeNumeric [49, 50, 51]] version,
            getNumDataCodewords version .high * 8 < used :=
  encodeSegmentsAdvanced_least (by decide) (by decide) (by decide) fun _ missing => by cases missing

/-- What is encoded has a version with room for it. -/
theorem findVersion_of_encodeSegmentsAdvanced {qrcode : List UInt8}
    (encoded : encodeSegmentsAdvanced segs ecl minVersion maxVersion mask boostEcl = some qrcode) :
    ∃ found, findVersion segs ecl (maxVersion - minVersion) minVersion = some found := by
  rw [encodeSegmentsAdvanced] at encoded
  obtain ⟨found, finds, -⟩ := Option.bind_eq_some_iff.mp encoded
  exact ⟨found, finds⟩

end Encoded

end VaultSeed.Qrcodegen
