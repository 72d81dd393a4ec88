import VaultSeed.Qrcodegen.Binding
import VaultSeed.Qrcodegen.Masking
import VaultSeed.Quirc.Blocks
import VaultSeed.Quirc.Layout
import VaultSeed.Quirc.Spelling
import Mathlib.Data.List.TakeWhile

/-! # From a text to a code and back

A grid of cells that shows a code of `qrcodegen.c` is decoded by `omv/img/qrcode.c` to the text that
was encoded, when no more of its format and of its codewords are wrong than can be corrected
(`VaultSeed.Quirc.quircDecode_eq`). Whatever a grid shows, decoding it comes to an end
(`VaultSeed.Quirc.quircDecode_total`).
-/

namespace VaultSeed.Quirc

open Qrcodegen Interleaving

section Format

/-- The format as it is sent, without its mask. -/
def sentFormat (ecl : Ecc) (mask : Nat) : BitVec 16 :=
  BitVec.ofNat 16 (formatBits ecl mask) ^^^ 0x5412

/-- The formats can be corrected, and hold the level and the mask. -/
theorem formats : ∀ ecl ∈ [Ecc.low, Ecc.medium, Ecc.quartile, Ecc.high], ∀ mask < 8,
    FormatCode (sentFormat ecl mask) ∧ (sentFormat ecl mask).getLsbD 15 = false ∧
      (sentFormat ecl mask >>> 10).toNat = levelBits ecl * 8 + mask := by
  decide +kernel

/-- **Every format** is found again from one with at most three wrong bits. -/
theorem correctFormat_sentFormat {mask : Nat} (ecl : Ecc) (small : mask < 8) {u : BitVec 16}
    (few : (wrongBits u (sentFormat ecl mask)).card ≤ 3) (top : u.getLsbD 15 = false) :
    correctFormat u = .ok (sentFormat ecl mask) := by
  obtain ⟨sent, last, -⟩ := formats ecl (by cases ecl <;> decide) mask small
  exact correctFormat_eq sent few (top.trans last.symm)

/-- Three wrong bits of a format. -/
theorem correctFormat_sentFormat_three :
    correctFormat (sentFormat .quartile 5 ^^^ 0x4102) = .ok (sentFormat .quartile 5) :=
  correctFormat_sentFormat .quartile (by decide) (by decide +kernel) (by decide)

private theorem formatCells_first (code : Code) : ∀ i < 15,
    (formatCells code false).getD i (0, 0) = firstCopy i := by
  intro i less
  interval_cases i <;> rfl

/-- The wrong bits of the first copy of a format. -/
def damagedFormat (qrcode : List UInt8) (code : Code) : Nat :=
  ((Finset.range 15).filter fun i => gridBit code (firstCopy i).1 (firstCopy i).2 ≠
    getModule qrcode (firstCopy i).1 (firstCopy i).2).card

/-- **Reading the format** of a code, with at most three wrong bits. -/
theorem readFormat_eq {ecl : Ecc} {mask : Nat} (small : mask < 8) {qrcode : List UInt8}
    {code : Code}
    (format : ∀ i < 15, getModule qrcode (firstCopy i).1 (firstCopy i).2 =
      getBit (formatBits ecl mask) i)
    (few : damagedFormat qrcode code ≤ 3) : readFormat code false = .ok (levelBits ecl, mask) := by
  obtain ⟨sent, top, fields⟩ := formats ecl (by cases ecl <;> decide) mask small
  have same : ∀ i < 15, (gatherFormat code false ^^^ 0x5412).getLsbD i =
      (sentFormat ecl mask).getLsbD i ↔
        gridBit code (firstCopy i).1 (firstCopy i).2 =
          getModule qrcode (firstCopy i).1 (firstCopy i).2 := by
    intro i less
    rw [BitVec.getLsbD_xor, sentFormat, BitVec.getLsbD_xor, getLsbD_gatherFormat less,
      formatCells_first code i less, format i less, BitVec.getLsbD_ofNat,
      decide_eq_true (Nat.lt_trans less (by decide)), Bool.true_and]
    exact Bool.xor_left_inj
  have wrong : (wrongBits (gatherFormat code false ^^^ 0x5412) (sentFormat ecl mask)).card ≤ 3 := by
    refine (Finset.card_le_card fun i member => ?_).trans few
    rw [wrongBits, Finset.mem_filter, Finset.mem_range] at member
    rw [Finset.mem_filter, Finset.mem_range]
    exact ⟨member.1, mt (same i member.1).mpr member.2⟩
  have last : (gatherFormat code false ^^^ 0x5412).getLsbD 15 =
      (sentFormat ecl mask).getLsbD 15 := by
    rw [BitVec.getLsbD_xor, getLsbD_gatherFormat_top, top]
    rfl
  rw [readFormat, correctFormat_eq sent wrong last, Except.map]
  dsimp only
  rw [fields]
  congr 2
  · omega
  · omega

end Format

section Blocks

variable {version : Nat} {ecl : Ecc} {mask : Nat} {qrcode codewords : List UInt8} {code : Code}

/-- A codeword one of whose modules is wrong. -/
def damaged (version : Nat) (qrcode : List UInt8) (code : Code) (k : Nat) : Bool :=
  (List.range 8).any fun b => ((dataModules version)[k * 8 + b]?).any fun cell =>
    gridBit code cell.1 cell.2 != getModule qrcode cell.1 cell.2

private theorem damaged_iff {k : Nat} : damaged version qrcode code k = true ↔
    ∃ b < 8, ∃ cell, (dataModules version)[k * 8 + b]? = some cell ∧
      gridBit code cell.1 cell.2 ≠ getModule qrcode cell.1 cell.2 := by
  simp only [damaged, List.any_eq_true, List.mem_range, Option.any_eq_true, bne_iff_ne]

private theorem eq_of_bits {first second : UInt8}
    (same : ∀ i < 8, first.toNat.testBit i = second.toNat.testBit i) : first = second := by
  refine UInt8.toNat_inj.mp (Nat.eq_of_testBit_eq fun i => ?_)
  rcases Nat.lt_or_ge i 8 with less | more
  · exact same i less
  · have power : 2 ^ 8 ≤ 2 ^ i := Nat.pow_le_pow_right (by decide) more
    rw [Nat.testBit_lt_two_pow (first.toNat_lt.trans_le power),
      Nat.testBit_lt_two_pow (second.toNat_lt.trans_le power)]

/-- A codeword that is not damaged is read as it was drawn. -/
theorem getD_raw {ds : Datastream} (drawn : Drawn version ecl mask codewords qrcode)
    (small : mask < 8) (enough : rawCodewords version * 8 ≤ (dataModules version).length)
    (gathered : Gathered ds ((dataModules version).map (unmasked code mask))) {k : Nat}
    (inside : k < rawCodewords version) (intact : ¬damaged version qrcode code k = true) :
    ds.raw.getD k 0 = codewords.getD k 0 := by
  have bits : ∀ b < 8, bitAt ds.raw (k * 8 + b) = codewordBit codewords (k * 8 + b) := by
    intro b less
    have index : k * 8 + b < (dataModules version).length := by omega
    have cell := List.getElem?_eq_getElem index
    have shown := drawn.data _ _ cell
    have kept : gridBit code (dataModules version)[k * 8 + b].1 (dataModules version)[k * 8 + b].2 =
        getModule qrcode (dataModules version)[k * 8 + b].1 (dataModules version)[k * 8 + b].2 :=
      not_not.mp fun differ => intact (damaged_iff.mpr ⟨b, less, _, cell, differ⟩)
    rw [gathered.bit, List.getD_eq_getElem?_getD, List.getElem?_map, cell, Option.map_some,
      Option.getD_some, unmasked, kept, shown, maskBit_eq small, Bool.xor_assoc, Bool.xor_self,
      Bool.xor_false, decide_eq_true (by omega), Bool.true_and]
  refine eq_of_bits fun i less => ?_
  have bit := bits (7 - i) (by omega)
  rw [bitAt, codewordBit, getBit] at bit
  rwa [show (k * 8 + (7 - i)) / 8 = k by omega, show 7 - (k * 8 + (7 - i)) % 8 = i by omega] at bit

/-- The codewords of a block that the correction has to change: the damaged ones, and the last data
byte of a long block. -/
def damagedCodewords (version : Nat) (ecl : Ecc) (qrcode : List UInt8) (code : Code) (i : Nat) :
    Nat :=
  ((Finset.range ((shape version ecl).length i)).filter fun t =>
    (shape version ecl).short ≤ i ∧ t = (shape version ecl).dataLen ∨
      damaged version qrcode code ((shape version ecl).place i t) = true).card

private theorem wrongCodewords_le {ds : Datastream} (layout : Layout version ecl)
    (drawn : Drawn version ecl mask codewords qrcode) (small : mask < 8)
    (enough : rawCodewords version * 8 ≤ (dataModules version).length)
    (gathered : Gathered ds ((dataModules version).map (unmasked code mask))) {i : Nat}
    (inside : i < numBlocks version ecl) :
    wrongCodewords version ecl ds.raw codewords i ≤
      damagedCodewords version ecl qrcode code i := by
  refine Finset.card_le_card fun t member => ?_
  rw [Finset.mem_filter, Finset.mem_range] at member ⊢
  obtain ⟨less, wrong⟩ := member
  refine ⟨less, wrong.imp_right fun differ => ?_⟩
  have place : (shape version ecl).place i t < rawCodewords version :=
    layout.total ▸ Shape.place_lt inside less
  exact not_not.mp fun intact => differ (getD_raw drawn small enough gathered place intact)

end Blocks

section Decode

variable {version : Nat} {ecl : Ecc} {mask : Nat} {segs : List Segment}
  {texts : List (List UInt8)} {data qrcode : List UInt8} {code : Code}

/-- A grid that shows a code well enough: a code of the same size, with no more of its format and
of its codewords wrong than can be corrected. -/
structure Legible (version : Nat) (ecl : Ecc) (qrcode : List UInt8) (code : Code) : Prop where
  size : code.size = side version
  format : damagedFormat qrcode code ≤ 3
  blocks : ∀ i < numBlocks version ecl,
    damagedCodewords version ecl qrcode code i * 2 ≤ blockEccLen version ecl

/-- The bytes of the data, as a stream. -/
theorem has_bytesBits (data : List UInt8) :
    Stream.Has ⟨data, data.length * 8, 0⟩ (bytesBits data) := by
  refine ⟨?_, fun index less => ?_⟩
  · dsimp only
    rw [length_bytesBits, Nat.zero_add]
  · rw [length_bytesBits] at less
    have byte : index / 8 < data.length := by omega
    have low : index % 8 < 8 := Nat.mod_lt _ (by decide)
    have found : (data.map UInt8.toNat)[index / 8]? = some (data[index / 8].toNat) := by
      rw [List.getElem?_map, List.getElem?_eq_getElem byte, Option.map_some]
    have spelled : (Bits.spell 8 (data.map UInt8.toNat))[index / 8 * 8 + index % 8]? = _ :=
      Bits.getElem?_spell found low
    dsimp only
    rw [Nat.div_add_mod'] at spelled
    rw [Nat.zero_add, bytesBits, List.getD_eq_getElem?_getD, spelled, Option.getD_some, bitAt,
      List.getD_eq_getElem _ _ byte]

/-- A text is not longer than the bits that spell it. -/
theorem length_le_bits {seg : Segment} {text : List UInt8} (made : Made seg text) :
    text.length ≤ seg.bits.length := by
  cases made with
  | numeric =>
      rw [makeNumeric_bits, length_numericBits, List.length_map]
      omega
  | alphanumeric =>
      rw [makeAlphanumeric_bits, length_alphanumericBits, List.length_map]
      omega
  | bytes =>
      change text.length ≤ (bytesBits text).length
      rw [length_bytesBits]
      omega

private theorem length_flatten_le (version : Nat) (made : List.Forall₂ Made segs texts) :
    texts.flatten.length ≤ (segmentsBits version segs).length := by
  induction made with
  | nil => exact Nat.zero_le _
  | cons made _ ih =>
      have bound := length_le_bits made
      rw [List.flatten_cons, List.length_append, segmentsBits_cons, List.length_append,
        List.length_append, bodyBits, List.length_append]
      omega

/-- The data of the versions that are decoded is shorter than the payload may be. -/
theorem getNumDataCodewords_lt : ∀ version ≤ 20,
    ∀ ecl ∈ [Ecc.low, Ecc.medium, Ecc.quartile, Ecc.high],
      getNumDataCodewords version ecl * 8 < quircMaxPayload := by
  decide +kernel

/-- A grid of the size of a version is read, corrected and decoded. -/
theorem quircDecode_version (positive : 1 ≤ version) (most : version ≤ 20)
    (size : code.size = side version) {eccLevel mask : Nat}
    (format : readFormat code false = .ok (eccLevel, mask)) {ds : Datastream}
    (read : readData code version mask = some ds)
    (corrected : codestreamEcc version eccLevel ds.raw = .ok data) :
    quircDecode code =
      decodePayload ⟨version, eccLevel, mask, 0, [], 0⟩ ⟨data, data.length * 8, 0⟩ := by
  have difference : ((code.size : Nat) : Int) - 17 = (version : Int) * 4 := by
    rw [size, side]
    omega
  have known : ¬((version : Int) < 1 ∨ (version : Int) > quircMaxVersion) := by
    rw [quircMaxVersion]
    omega
  rw [quircDecode, difference, Int.mul_tmod_left, if_neg (not_not.mpr rfl),
    Int.mul_tdiv_cancel _ (by decide)]
  dsimp only
  rw [if_neg known, Int.toNat_natCast, readFormats_first format]
  dsimp only
  rw [read, Option.bind_some, corrected]

/-- **From segments to a grid and back**: a grid that shows a code well enough is decoded to the
texts that were encoded. -/
theorem quircDecode_eq (holds : Holds segs version ecl mask data qrcode)
    (made : List.Forall₂ Made segs texts) (most : version ≤ 20)
    (legible : Legible version ecl qrcode code) :
    quircDecode code = some (.ok
      ((QuircData.raise ⟨version, levelBits ecl, mask, 0, [], 0⟩ segs).extend texts.flatten)) := by
  have bound : version ≤ 40 := Nat.le_trans most (by decide)
  have capacity : rawCodewords version * 8 ≤ (dataModules version).length := by
    rw [length_dataModules holds.positive bound, rawCodewords]
    omega
  have format := readFormat_eq holds.small holds.drawn.format legible.format
  obtain ⟨ds, read, gathered⟩ := readData_spec holds.positive most legible.size
  have corrected : codestreamEcc version (levelBits ecl) ds.raw = .ok data := by
    refine codestreamEcc_eq holds.positive most holds.length fun i inside => ?_
    have wrong := wrongCodewords_le (layout holds.positive bound ecl) holds.drawn holds.small
      capacity gathered inside
    exact (Nat.mul_le_mul_right 2 wrong).trans (legible.blocks i inside)
  obtain ⟨rest, bits, ended⟩ := holds.bits
  have has := has_bytesBits data
  rw [bits] at has
  have short := getNumDataCodewords_lt version most ecl (by cases ecl <;> decide)
  have room : texts.flatten.length + 1 ≤ quircMaxPayload := by
    have total := congrArg List.length bits
    rw [length_bytesBits, holds.length, List.length_append] at total
    have within := length_flatten_le version made
    omega
  have run : ∃ last, decodeSegments (data.length * 8)
      ⟨⟨version, levelBits ecl, mask, 0, [], 0⟩, ⟨data, data.length * 8, 0⟩⟩ = _ :=
    decodeSegments_eq made bound rfl holds.room
      (by rw [List.length_nil, Nat.zero_add]; exact room) has ended (Nat.sub_le _ _)
  obtain ⟨last, decoded⟩ := run
  have payload : ((QuircData.raise ⟨version, levelBits ecl, mask, 0, [], 0⟩ segs).extend
      texts.flatten).payload.length < quircMaxPayload := by
    obtain ⟨raised, same⟩ := raise_eq segs ⟨version, levelBits ecl, mask, 0, [], 0⟩
    rw [same]
    exact room
  rw [quircDecode_version holds.positive most legible.size format read corrected, decodePayload]
  dsimp only
  rw [decoded, Option.map_some, Except.map, terminate_eq payload]

/-- **Decoding a grid** of cells, whatever it shows, comes to an end: with an error, or with a
payload that leaves room for the nul after it. -/
theorem quircDecode_total (code : Code) : ∃ result, quircDecode code = some result ∧
    ∀ found, result = .ok found → found.payload.length < quircMaxPayload := by
  rw [quircDecode]
  split
  · exact ⟨_, rfl, fun found none => by cases none⟩
  dsimp only
  split
  · exact ⟨_, rfl, fun found none => by cases none⟩
  · next whole known =>
      obtain ⟨version, quotient⟩ : ∃ version : Nat, ((code.size : Int) - 17).tdiv 4 = version :=
        ⟨(((code.size : Int) - 17).tdiv 4).toNat, by omega⟩
      have size : code.size = side version := by
        have product := Int.mul_tdiv_add_tmod ((code.size : Int) - 17) 4
        rw [not_not.mp whole, quotient] at product
        rw [side]
        omega
      rw [quotient, quircMaxVersion] at known
      rw [quotient, Int.toNat_natCast]
      cases readFormats code with
      | error err => exact ⟨.error err, rfl, fun found none => by cases none⟩
      | ok format =>
          obtain ⟨eccLevel, mask⟩ := format
          have read : ∃ ds, readData code version mask = some ds ∧ _ :=
            readData_spec (by omega) (by omega) size
          obtain ⟨ds, read, -⟩ := read
          dsimp only
          rw [read, Option.bind_some]
          cases codestreamEcc version eccLevel ds.raw with
          | error err => exact ⟨.error err, rfl, fun found none => by cases none⟩
          | ok data => exact decodePayload_total _ _ (show 0 < quircMaxPayload by decide)

end Decode

section Corner

variable {version : Nat} {ecl : Ecc} {qrcode : List UInt8} {code : Code}

/-- A grid with one wrong module at most: no two codewords are damaged. -/
theorem damaged_unique {corner : Nat × Nat}
    (right : ∀ cell, (modules (side version)).inside cell → cell ≠ corner →
      gridBit code cell.1 cell.2 = getModule qrcode cell.1 cell.2) {k other : Nat}
    (first : damaged version qrcode code k = true)
    (second : damaged version qrcode code other = true) : k = other := by
  have place : ∀ k, damaged version qrcode code k = true →
      ∃ b < 8, (dataModules version)[k * 8 + b]? = some corner := by
    intro k wrong
    obtain ⟨b, less, cell, found, differ⟩ := damaged_iff.mp wrong
    have inside := (mem_dataModules (List.mem_of_getElem? found)).1
    obtain rfl : cell = corner := not_not.mp fun other => differ (right cell inside other)
    exact ⟨b, less, found⟩
  obtain ⟨b, less, found⟩ := place k first
  obtain ⟨c, lessOther, foundOther⟩ := place other second
  obtain ⟨inside, -⟩ := List.getElem?_eq_some_iff.mp found
  have same := (List.getElem?_inj inside (nodup_dataModules version)).mp
    (found.trans foundOther.symm)
  omega

/-- Every level corrects two codewords of a block. -/
theorem four_le_blockEccLen : ∀ version ≤ 40, 1 ≤ version →
    ∀ ecl ∈ [Ecc.low, Ecc.medium, Ecc.quartile, Ecc.high], 4 ≤ blockEccLen version ecl := by
  decide +kernel

/-- **A grid with one wrong module** at most is legible. -/
theorem legible_corner (positive : 1 ≤ version) (most : version ≤ 40)
    (size : code.size = side version) {corner : Nat × Nat}
    (right : ∀ cell, (modules (side version)).inside cell → cell ≠ corner →
      gridBit code cell.1 cell.2 = getModule qrcode cell.1 cell.2) :
    Legible version ecl qrcode code where
  size := size
  format := by
    have places : ∀ i ∈ (Finset.range 15).filter fun i => gridBit code (firstCopy i).1
        (firstCopy i).2 ≠ getModule qrcode (firstCopy i).1 (firstCopy i).2,
        i < 15 ∧ firstCopy i = corner := by
      intro i member
      obtain ⟨less, wrong⟩ := Finset.mem_filter.mp member
      obtain ⟨column, row⟩ := firstCopy_inside i (Finset.mem_range.mp less)
      have sized : side version = version * 4 + 17 := rfl
      exact ⟨Finset.mem_range.mp less,
        not_not.mp fun other => wrong (right _ ⟨by omega, by omega⟩ other)⟩
    have one : damagedFormat qrcode code ≤ 1 := by
      refine Finset.card_le_one.mpr fun i member j other => ?_
      obtain ⟨less, place⟩ := places i member
      obtain ⟨lessOther, placeOther⟩ := places j other
      exact List.inj_on_of_nodup_map firstCopy_nodup (List.mem_range.mpr less)
        (List.mem_range.mpr lessOther) (place.trans placeOther.symm)
    omega
  blocks := by
    intro i inside
    have two : damagedCodewords version ecl qrcode code i ≤ 1 + 1 := by
      rw [damagedCodewords, Finset.filter_or]
      refine (Finset.card_union_le _ _).trans (Nat.add_le_add ?_ ?_)
      · refine Finset.card_le_one.mpr fun t member u other => ?_
        exact (Finset.mem_filter.mp member).2.2.trans (Finset.mem_filter.mp other).2.2.symm
      · refine Finset.card_le_one.mpr fun t member u other => ?_
        have place := damaged_unique right (Finset.mem_filter.mp member).2
          (Finset.mem_filter.mp other).2
        exact (Shape.place_inj inside inside place).2
    have corrects := four_le_blockEccLen version most positive ecl (by cases ecl <;> decide)
    omega

/-- The grid of a code with one module flipped. -/
def flipped (version : Nat) (qrcode : List UInt8) (x y : Nat) : Code :=
  ⟨side version, Packed.flipBit (qrcode.drop 1) (y * side version + x)⟩

/-- **A code with a flipped module** is legible, and the module is wrong. -/
theorem legible_flipped (positive : 1 ≤ version) (most : version ≤ 40)
    (good : (modules (side version)).good qrcode) {x y : Nat} (column : x < side version)
    (row : y < side version) : Legible version ecl qrcode (flipped version qrcode x y) ∧
      gridBit (flipped version qrcode x y) x y = !getModule qrcode x y := by
  have length : (qrcode.drop 1).length = (side version * side version + 7) / 8 := by
    rw [List.length_drop, good.1]
    exact Nat.add_sub_cancel _ 1
  have bits : ∀ {i j}, i < side version → j < side version →
      gridBit (flipped version qrcode x y) i j =
        (getModule qrcode i j ^^ decide (j * side version + i = y * side version + x)) := by
    intro i j inside within
    have index := Packed.index_lt row column
    rw [gridBit, flipped, Packed.bit_flipBit (by rw [length]; omega), Packed.bit, getModule, good.2,
      getBit, List.getD_eq_getElem?_getD, List.getElem?_drop, ← List.getD_eq_getElem?_getD,
      Nat.add_comm 1]
  refine ⟨@legible_corner version ecl qrcode _ positive most rfl (x, y)
    fun cell inside differ => ?_, ?_⟩
  · rw [bits inside.1 inside.2, decide_eq_false, Bool.xor_false]
    intro same
    obtain ⟨sameRow, sameColumn⟩ := (Packed.index_eq_iff inside.1 column).mp same
    exact differ (Prod.ext sameColumn sameRow)
  · rw [bits column row, decide_eq_true rfl, Bool.xor_true]

end Corner

section Text

variable {ecl : Ecc} {minVersion maxVersion : Nat} {mask : Option Nat} {boostEcl : Bool}
  {segs : List Segment} {texts : List (List UInt8)} {text qrcode : List UInt8}

/-- **From segments to a code and back**: every grid that shows the code well enough is decoded to
the texts, with the version and the level that were found and with the mask that was asked for, or
else the first one whose code has the least penalty. -/
theorem quircDecode_encodeSegmentsAdvanced (least : 1 ≤ minVersion)
    (order : minVersion ≤ maxVersion)
    (most : maxVersion ≤ quircMaxVersion) (legal : ∀ m ∈ mask, m < 8)
    (made : List.Forall₂ Made segs texts)
    (encoded : encodeSegmentsAdvanced segs ecl minVersion maxVersion mask boostEcl = some qrcode) :
    ∃ version used m,
      findVersion segs ecl (maxVersion - minVersion) minVersion = some (version, used) ∧
      (∀ asked, mask = some asked → m = asked) ∧
      (mask = none → m < 8 ∧ ∀ other < 8, ∀ found, encodeSegmentsAdvanced segs ecl minVersion
          maxVersion (some other) boostEcl = some found →
        getPenaltyScore qrcode ≤ getPenaltyScore found ∧
          (other < m → getPenaltyScore qrcode < getPenaltyScore found)) ∧
      getSize qrcode = side version ∧
      ∀ code, Legible version (boost boostEcl version used ecl) qrcode code →
        ∃ data, quircDecode code = some (.ok data) ∧ data.payload = texts.flatten ∧
          data.version = version ∧ data.eccLevel = levelBits (boost boostEcl version used ecl) ∧
          data.mask = m := by
  obtain ⟨⟨version, used⟩, finds⟩ := findVersion_of_encodeSegmentsAdvanced encoded
  obtain ⟨drawn, same, m, data, holds, chooses, asks⟩ :=
    encodeSegmentsAdvanced_spec least order (most.trans (by decide)) legal finds
  obtain rfl := Option.some.inj (same.symm.trans encoded)
  obtain ⟨range, -, -, -⟩ := findVersion_spec finds
  refine ⟨version, used, m, finds, ?_, ?_, holds.drawn.good.2, fun code legible => ?_⟩
  · rintro asked rfl
    exact (Option.some.inj chooses).symm
  · rintro rfl
    rw [asks none] at encoded
    obtain ⟨small, -, least⟩ := chooses.least holds.most encoded
    exact ⟨small, fun other less found drawn => least other less found ((asks _).symm.trans drawn)⟩
  · obtain ⟨raised, kept⟩ := raise_eq segs
      ⟨version, levelBits (boost boostEcl version used ecl), m, 0, [], 0⟩
    have few : version ≤ quircMaxVersion := by
      dsimp only at range
      omega
    refine ⟨_, quircDecode_eq holds made few legible, ?_⟩
    rw [kept]
    exact ⟨List.nil_append _, rfl, rfl, rfl⟩

/-- A digit and a zero byte, in segments of their own, on a grid with a wrong module. -/
theorem quircDecode_encodeSegmentsAdvanced_two :
    ∃ qrcode, encodeSegmentsAdvanced [makeNumeric [55], makeBytes [0]] .low 1 20 none true =
        some qrcode ∧
      gridBit (flipped 1 qrcode 20 19) 20 19 = !getModule qrcode 20 19 ∧
      ∃ data, quircDecode (flipped 1 qrcode 20 19) = some (.ok data) ∧ data.payload = [55, 0] ∧
        data.version = 1 ∧ data.eccLevel = levelBits .high := by
  have finds : findVersion [makeNumeric [55], makeBytes [0]] .low (20 - 1) 1 = some (1, 38) := by
    decide +kernel
  have drawn : ∃ qrcode, encodeSegmentsAdvanced [makeNumeric [55], makeBytes [0]] .low 1 20 none
      true = some qrcode ∧ _ :=
    encodeSegmentsAdvanced_spec (by decide) (by decide) (by decide) (fun _ none => by cases none)
      finds
  obtain ⟨qrcode, encoded, m, data, holds, -⟩ := drawn
  obtain ⟨version, used, mask, found, -, -, -, decoded⟩ :=
    quircDecode_encodeSegmentsAdvanced (by decide) (by decide) (by decide)
      (fun _ none => by cases none) (.cons (.numeric (by decide)) (.cons (.bytes [0]) .nil)) encoded
  obtain ⟨rfl, rfl⟩ := Prod.mk.inj (Option.some.inj (finds.symm.trans found))
  have boosted : boost true 1 38 .low = .high := by decide +kernel
  rw [boosted] at decoded
  obtain ⟨legible, wrong⟩ := @legible_flipped 1 .high qrcode (by decide) (by decide)
    holds.drawn.good 20 19 (by decide) (by decide)
  obtain ⟨data, read, payload, version, level, -⟩ := decoded _ legible
  exact ⟨qrcode, encoded, wrong, data, read, payload, version, level⟩

/-- The segments of a text spell it. -/
theorem made_textSegments (known : textSegments text maxVersion = some segs) :
    ∃ texts, List.Forall₂ Made segs texts ∧ texts.flatten = text := by
  have one : ∀ {seg}, Made seg text →
      ∃ texts, List.Forall₂ Made [seg] texts ∧ texts.flatten = text :=
    fun made => ⟨[text], .cons made .nil, List.flatten_singleton⟩
  rw [textSegments] at known
  split at known
  · next empty =>
      obtain rfl := Option.some.inj known
      exact ⟨[], .nil, (List.eq_nil_of_length_eq_zero empty).symm⟩
  split at known
  · next digits =>
      obtain ⟨-, -, rfl⟩ := Option.map_eq_some_iff.mp known
      exact one (.numeric digits)
  split at known
  · next chars =>
      obtain ⟨-, -, rfl⟩ := Option.map_eq_some_iff.mp known
      exact one (.alphanumeric chars)
  split at known
  · cases known
  · obtain ⟨-, -, rfl⟩ := Option.map_eq_some_iff.mp known
    exact one (.bytes text)

/-- What `qrcode.encode` draws are segments that spell the text. -/
theorem exists_encodeBuffer (encoded : encodeBuffer text = some qrcode) :
    ∃ segs texts, List.Forall₂ Made segs texts ∧ texts.flatten = text ∧
      encodeSegmentsAdvanced segs .low 1 versionMax none true = some qrcode := by
  rw [encodeBuffer] at encoded
  split at encoded
  · rw [encodeBinary] at encoded
    obtain ⟨-, -, drawn⟩ := Option.bind_eq_some_iff.mp encoded
    exact ⟨_, [text], .cons (.bytes text) .nil, List.flatten_singleton, drawn⟩
  · next zeros =>
      rw [encodeText] at encoded
      obtain ⟨segs, known, drawn⟩ := Option.bind_eq_some_iff.mp encoded
      have whole : text.takeWhile (· != 0) = text := by
        refine List.takeWhile_eq_self_iff.mpr fun byte member => ?_
        rw [bne_iff_ne]
        intro zero
        exact zeros (List.any_eq_true.mpr ⟨byte, member, beq_iff_eq.mpr zero⟩)
      rw [whole] at known
      obtain ⟨texts, made, spelled⟩ := made_textSegments known
      exact ⟨segs, texts, made, spelled, drawn⟩

/-- **What is drawn is what is scanned**: `qrcode.encode` returns bytes only for a text that fits in
its buffer, and they are decoded to the text, whatever is in the byte that it does not write, as
long as the code is not larger than what is decoded at all. -/
theorem quircDecode_encode {memory : UInt8} {bytes : List UInt8}
    (encoded : encode text memory = .ok bytes) : text.length ≤ bufferLenForVersion versionMax ∧
    ∃ version, bytes.length = (side version * side version + 7) / 8 ∧
      (version ≤ quircMaxVersion → ∃ data, quircDecode ⟨side version, bytes⟩ = some (.ok data) ∧
        data.payload = text) ∧
      (quircMaxVersion < version →
        quircDecode ⟨side version, bytes⟩ = some (.error .invalidVersion)) := by
  obtain ⟨fits, qrcode, drawn, rfl⟩ := encode_eq_ok encoded
  obtain ⟨segs, texts, made, spelled, segments⟩ := exists_encodeBuffer drawn
  obtain ⟨⟨version, used⟩, finds⟩ := findVersion_of_encodeSegmentsAdvanced segments
  obtain ⟨qrcode, same, m, data, holds, -⟩ := @encodeSegmentsAdvanced_spec segs .low 1 versionMax
    none true (Nat.le_refl 1) (by decide) (Nat.le_refl _) (fun _ none => by cases none) _ finds
  obtain rfl := Option.some.inj (same.symm.trans segments)
  have sized : getSize qrcode = side version := holds.drawn.good.2
  refine ⟨fits, version, length_packed sized memory, fun few => ?_, fun many => ?_⟩
  · have legible : Legible version (boost true version used .low) qrcode
        ⟨side version, packed qrcode memory⟩ :=
      legible_corner holds.positive holds.most rfl
        fun cell inside differ => bit_packed sized memory inside.1 inside.2 differ
    obtain ⟨raised, kept⟩ := raise_eq segs
      ⟨version, levelBits (boost true version used .low), m, 0, [], 0⟩
    refine ⟨_, quircDecode_eq holds made few legible, ?_⟩
    rw [kept, spelled]
    exact List.nil_append _
  · have difference : ((side version : Nat) : Int) - 17 = (version : Int) * 4 := by
      rw [side]
      omega
    rw [quircDecode]
    dsimp only
    rw [difference, Int.mul_tmod_left, if_neg (not_not.mpr rfl),
      Int.mul_tdiv_cancel _ (by decide), if_pos (.inr (by omega))]

/-- A digit. -/
theorem quircDecode_encode_digit : ∃ bytes, encode [55] 0xFF = .ok bytes ∧
    [(55 : UInt8)].length ≤ bufferLenForVersion versionMax ∧
    ∃ version, bytes.length = (side version * side version + 7) / 8 ∧
      (version ≤ quircMaxVersion → ∃ data, quircDecode ⟨side version, bytes⟩ = some (.ok data) ∧
        data.payload = [55]) ∧
      (quircMaxVersion < version →
        quircDecode ⟨side version, bytes⟩ = some (.error .invalidVersion)) := by
  have finds : findVersion [makeNumeric [55]] .low (versionMax - 1) 1 = some (1, 18) := by
    decide +kernel
  have drawn : ∃ qrcode, encodeSegmentsAdvanced [makeNumeric [55]] .low 1 versionMax none true =
      some qrcode ∧ _ :=
    encodeSegmentsAdvanced_spec (by decide) (by decide) (by decide) (fun _ none => by cases none)
      finds
  obtain ⟨qrcode, encoded, -⟩ := drawn
  have known : textSegments [55] versionMax = some [makeNumeric [55]] := by rfl
  have buffer : encodeBuffer [55] = some qrcode := by
    rw [encodeBuffer, if_neg (by decide), encodeText,
      show [(55 : UInt8)].takeWhile (· != 0) = [55] by decide, known, Option.bind_some]
    exact encoded
  have bytes : encode [55] 0xFF = .ok (packed qrcode 0xFF) := by
    rw [encode, if_neg (by decide), buffer]
  exact ⟨_, bytes, quircDecode_encode bytes⟩

end Text

end VaultSeed.Quirc
