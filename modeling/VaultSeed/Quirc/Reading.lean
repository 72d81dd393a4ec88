import VaultSeed.Foundation.Loops
import VaultSeed.Foundation.Packed
import VaultSeed.Quirc.Format

/-! # Reading a code

`omv/img/qrcode.c` reads the format of a grid of cells, the cells that are not reserved in a zigzag,
and puts the blocks apart again. The bits of a format are the cells it is read from
(`VaultSeed.Quirc.getLsbD_gatherFormat`), and the stream holds the bits that were read
(`VaultSeed.Quirc.Gathered.readBit`).
-/

namespace VaultSeed.Quirc

open Accumulate

/-- `struct quirc_version_info`. -/
structure VersionInfo where
  dataBytes : Nat
  apat : List Nat
  ecc : List RsParams

/-- `QUIRC_MAX_VERSION`. -/
def quircMaxVersion : Nat := 20

/-- `QUIRC_MAX_ALIGNMENT`. -/
def quircMaxAlignment : Nat := 7

/-- `quirc_version_db`, up to `QUIRC_MAX_VERSION`. -/
def quircVersionDb : List VersionInfo := [
    ⟨0, [], []⟩,
    ⟨26, [0],
      [⟨26, 16, 1⟩, ⟨26, 19, 1⟩, ⟨26, 9, 1⟩, ⟨26, 13, 1⟩]⟩,
    ⟨44, [6, 18, 0],
      [⟨44, 28, 1⟩, ⟨44, 34, 1⟩, ⟨44, 16, 1⟩, ⟨44, 22, 1⟩]⟩,
    ⟨70, [6, 22, 0],
      [⟨70, 44, 1⟩, ⟨70, 55, 1⟩, ⟨35, 13, 2⟩, ⟨35, 17, 2⟩]⟩,
    ⟨100, [6, 26, 0],
      [⟨50, 32, 2⟩, ⟨100, 80, 1⟩, ⟨25, 9, 4⟩, ⟨50, 24, 2⟩]⟩,
    ⟨134, [6, 30, 0],
      [⟨67, 43, 2⟩, ⟨134, 108, 1⟩, ⟨33, 11, 2⟩, ⟨33, 15, 2⟩]⟩,
    ⟨172, [6, 34, 0],
      [⟨43, 27, 4⟩, ⟨86, 68, 2⟩, ⟨43, 15, 4⟩, ⟨43, 19, 4⟩]⟩,
    ⟨196, [6, 22, 38, 0],
      [⟨49, 31, 4⟩, ⟨98, 78, 2⟩, ⟨39, 13, 4⟩, ⟨32, 14, 2⟩]⟩,
    ⟨242, [6, 24, 42, 0],
      [⟨60, 38, 2⟩, ⟨121, 97, 2⟩, ⟨40, 14, 4⟩, ⟨40, 18, 4⟩]⟩,
    ⟨292, [6, 26, 46, 0],
      [⟨58, 36, 3⟩, ⟨146, 116, 2⟩, ⟨36, 12, 4⟩, ⟨36, 16, 4⟩]⟩,
    ⟨346, [6, 28, 50, 0],
      [⟨69, 43, 4⟩, ⟨86, 68, 2⟩, ⟨43, 15, 6⟩, ⟨43, 19, 6⟩]⟩,
    ⟨404, [6, 30, 54, 0],
      [⟨80, 50, 1⟩, ⟨101, 81, 4⟩, ⟨36, 12, 3⟩, ⟨50, 22, 4⟩]⟩,
    ⟨466, [6, 32, 58, 0],
      [⟨58, 36, 6⟩, ⟨116, 92, 2⟩, ⟨42, 14, 7⟩, ⟨46, 20, 4⟩]⟩,
    ⟨532, [6, 34, 62, 0],
      [⟨59, 37, 8⟩, ⟨133, 107, 4⟩, ⟨33, 11, 12⟩, ⟨44, 20, 8⟩]⟩,
    ⟨581, [6, 26, 46, 66, 0],
      [⟨64, 40, 4⟩, ⟨145, 115, 3⟩, ⟨36, 12, 11⟩, ⟨36, 16, 11⟩]⟩,
    ⟨655, [6, 26, 48, 70, 0],
      [⟨65, 41, 5⟩, ⟨109, 87, 5⟩, ⟨36, 12, 11⟩, ⟨54, 24, 5⟩]⟩,
    ⟨733, [6, 26, 50, 74, 0],
      [⟨73, 45, 7⟩, ⟨122, 98, 5⟩, ⟨45, 15, 3⟩, ⟨43, 19, 15⟩]⟩,
    ⟨815, [6, 30, 54, 78, 0],
      [⟨74, 46, 10⟩, ⟨135, 107, 1⟩, ⟨42, 14, 2⟩, ⟨50, 22, 1⟩]⟩,
    ⟨901, [6, 30, 56, 82, 0],
      [⟨69, 43, 9⟩, ⟨150, 120, 5⟩, ⟨42, 14, 2⟩, ⟨50, 22, 17⟩]⟩,
    ⟨991, [6, 30, 58, 86, 0],
      [⟨70, 44, 3⟩, ⟨141, 113, 3⟩, ⟨39, 13, 9⟩, ⟨47, 21, 17⟩]⟩,
    ⟨1085, [6, 34, 62, 90, 0],
      [⟨67, 41, 3⟩, ⟨135, 107, 3⟩, ⟨43, 15, 15⟩, ⟨54, 24, 15⟩]⟩]

/-- `quirc_version_db[version]`. -/
def versionInfo (version : Nat) : VersionInfo := quircVersionDb.getD version ⟨0, [], []⟩

/-- `struct quirc_code`, without its corners. -/
structure Code where
  size : Nat
  cellBitmap : List UInt8

/-- `grid_bit`. -/
def gridBit (code : Code) (x y : Nat) : Bool := Packed.bit code.cellBitmap (y * code.size + x)

/-- `read_format`: the cells in the order of their bits, the low one first. -/
def formatCells (code : Code) (which : Bool) : List (Nat × Nat) :=
  if which then
    ((List.range 7).map (fun i => (8, code.size - 1 - i)) ++
      (List.range 8).map fun i => (code.size - 8 + i, 8)).reverse
  else
    [8, 8, 8, 8, 8, 8, 8, 8, 7, 5, 4, 3, 2, 1, 0].zip
      [0, 1, 2, 3, 4, 5, 7, 8, 8, 8, 8, 8, 8, 8, 8]

/-- `read_format`, a turn of a loop. -/
def gatherBit (code : Code) (format : BitVec 16) (cell : Nat × Nat) : BitVec 16 :=
  (format <<< 1) ||| (BitVec.ofBool (gridBit code cell.1 cell.2)).setWidth 16

/-- `read_format`: `format`. -/
def gatherFormat (code : Code) (which : Bool) : BitVec 16 :=
  (formatCells code which).reverse.foldl (gatherBit code) 0

/-- `read_format`: `ecc_level` and `mask`. -/
def readFormat (code : Code) (which : Bool) : Except DecodeError (Nat × Nat) :=
  (correctFormat (gatherFormat code which ^^^ 0x5412)).map fun format : BitVec 16 =>
    let fdata := (format >>> 10).toNat
    (fdata / 8, fdata % 8)

/-- `mask_bit`. -/
def maskBit (mask i j : Nat) : Bool :=
  match mask with
  | 0 => (i + j) % 2 == 0
  | 1 => i % 2 == 0
  | 2 => j % 3 == 0
  | 3 => (i + j) % 3 == 0
  | 4 => (i / 2 + j / 3) % 2 == 0
  | 5 => i * j % 2 + i * j % 3 == 0
  | 6 => (i * j % 2 + i * j % 3) % 2 == 0
  | 7 => (i * j % 3 + (i + j) % 2) % 2 == 0
  | _ => false

/-- `reserved_cell`: the loop over the alignment patterns: `a`, `ai` and `aj`. -/
def alignmentHits (i j : Nat) : Nat → List Nat → Option Nat → Option Nat →
    Nat × Option Nat × Option Nat
  | a, [], ai, aj => (a, ai, aj)
  | a, p :: rest, ai, aj =>
    if a < quircMaxAlignment ∧ p ≠ 0 then
      alignmentHits i j (a + 1) rest (if ((p : Int) - i).natAbs < 3 then some a else ai)
        (if ((p : Int) - j).natAbs < 3 then some a else aj)
    else (a, ai, aj)

/-- `reserved_cell`. -/
def reservedCell (version i j : Nat) : Bool :=
  let size := version * 4 + 17
  if i < 9 ∧ j < 9 then true
  else if i + 8 ≥ size ∧ j < 9 then true
  else if i < 9 ∧ j + 8 ≥ size then true
  else if i = 6 ∨ j = 6 then true
  else if version ≥ 7 ∧ i < 6 ∧ j + 11 ≥ size then true
  else if version ≥ 7 ∧ i + 11 ≥ size ∧ j < 6 then true
  else
    match alignmentHits i j 0 (versionInfo version).apat none none with
    | (a, some ai, some aj) =>
      let a := a - 1
      decide (0 < ai ∧ ai < a ∨ 0 < aj ∧ aj < a ∨ aj = a ∧ ai = a)
    | _ => false

/-- `struct datastream`, while the cells are read. -/
structure Datastream where
  raw : List UInt8
  dataBits : Nat

/-- `QUIRC_MAX_PAYLOAD`. -/
def quircMaxPayload : Nat := 8896

/-- `read_bit`. -/
def readBit (code : Code) (mask : Nat) (ds : Datastream) (i j : Nat) : Datastream :=
  let bitpos := ds.dataBits % 8
  let bytepos := ds.dataBits / 8
  let v := gridBit code j i ^^ maskBit mask i j
  { raw := if v then ds.raw.set bytepos (ds.raw.getD bytepos 0 ||| 0x80 >>> UInt8.ofNat bitpos)
      else ds.raw
    dataBits := ds.dataBits + 1 }

/-- `read_data`: `x`, `y`, `dir` and the stream. -/
structure Scan where
  x : Int
  y : Int
  dir : Int
  ds : Datastream

/-- `read_data`: a cell, when it is not reserved. -/
def readCell (code : Code) (version mask : Nat) (ds : Datastream) (y x : Int) : Datastream :=
  if reservedCell version y.toNat x.toNat then ds else readBit code mask ds y.toNat x.toNat

/-- `read_data`, a turn of the loop. -/
def Scan.turn (code : Code) (version mask : Nat) (scan : Scan) : Scan :=
  let x := if scan.x = 6 then scan.x - 1 else scan.x
  let ds := readCell code version mask scan.ds scan.y x
  let ds := readCell code version mask ds scan.y (x - 1)
  let y := scan.y + scan.dir
  if y < 0 ∨ y ≥ code.size then
    { x := x - 2, y := y + -scan.dir, dir := -scan.dir, ds := ds }
  else { x := x, y := y, dir := scan.dir, ds := ds }

/-- `read_data`; the loop takes a turn for each cell at most. -/
def readData (code : Code) (version mask : Nat) : Option Datastream :=
  (Loops.whileDo (fun scan : Scan => decide (scan.x > 0)) (Scan.turn code version mask)
    (code.size * code.size)
    { x := (code.size : Int) - 1, y := (code.size : Int) - 1, dir := -1,
      ds := ⟨List.replicate quircMaxPayload 0, 0⟩ }).map Scan.ds

/-- `codestream_ecc`: `lb_count`. -/
def lbCount (ver : VersionInfo) (ecc : RsParams) : Nat :=
  (ver.dataBytes - ecc.bs * ecc.ns) / (ecc.bs + 1)

/-- `codestream_ecc`: a block as it is gathered. -/
def gatherBlock (raw : List UInt8) (bc eccOffset : Nat) (ecc : RsParams) (i : Nat) : List UInt8 :=
  (List.range ecc.dw).map (fun j => raw.getD (j * bc + i) 0) ++
    (List.range (ecc.bs - ecc.dw)).map fun j => raw.getD (eccOffset + j * bc + i) 0

/-- `codestream_ecc`: the parameters of a block. -/
def blockParams (sbEcc : RsParams) (i : Nat) : RsParams :=
  if i < sbEcc.ns then sbEcc else { sbEcc with bs := sbEcc.bs + 1, dw := sbEcc.dw + 1 }

/-- `codestream_ecc`, a turn of the loop: the data so far; the next block overwrites what is past
it. -/
def codestreamTurn (raw : List UInt8) (bc eccOffset : Nat) (sbEcc : RsParams) (data : List UInt8)
    (i : Nat) : Except DecodeError (List UInt8) :=
  let ecc := blockParams sbEcc i
  (correctBlock (gatherBlock raw bc eccOffset ecc i) ecc).map fun dst => data ++ dst.take ecc.dw

/-- `codestream_ecc`: the corrected data. -/
def codestreamEcc (version eccLevel : Nat) (raw : List UInt8) : Except DecodeError (List UInt8) :=
  let ver := versionInfo version
  let sbEcc := ver.ecc.getD eccLevel ⟨0, 0, 0⟩
  let lb := lbCount ver sbEcc
  let bc := lb + sbEcc.ns
  let eccOffset := sbEcc.dw * bc + lb
  (List.range bc).foldlM (codestreamTurn raw bc eccOffset sbEcc) []

section Format

variable {code : Code} {which : Bool}

private theorem length_formatCells : (formatCells code which).length = 15 := by
  cases which <;> simp [formatCells]

private theorem getLsbD_gather (code : Code) (cells : List (Nat × Nat)) {i : Nat} (small : i < 16) :
    (cells.reverse.foldl (gatherBit code) 0).getLsbD i =
      (cells[i]?.map fun cell => gridBit code cell.1 cell.2).getD false := by
  induction cells generalizing i with
  | nil => simp
  | cons cell cells ih =>
      rw [List.reverse_cons, List.foldl_append, List.foldl_cons, List.foldl_nil, gatherBit,
        BitVec.getLsbD_or, BitVec.getLsbD_shiftLeft, BitVec.getLsbD_setWidth]
      cases i with
      | zero => simp
      | succ i =>
          rw [Nat.add_sub_cancel, ih (Nat.lt_of_succ_lt small)]
          simp [small]

/-- **The bits of a format** are the cells it is read from. -/
theorem getLsbD_gatherFormat {i : Nat} (less : i < 15) :
    (gatherFormat code which).getLsbD i =
      gridBit code ((formatCells code which).getD i (0, 0)).1
        ((formatCells code which).getD i (0, 0)).2 := by
  have inside : i < (formatCells code which).length := length_formatCells ▸ less
  rw [gatherFormat, getLsbD_gather code _ (Nat.lt_succ_of_lt less),
    List.getElem?_eq_getElem inside, List.getD_eq_getElem _ _ inside]
  rfl

/-- The format has fifteen bits. -/
theorem getLsbD_gatherFormat_top : (gatherFormat code which).getLsbD 15 = false := by
  rw [gatherFormat, getLsbD_gather code _ (by decide),
    List.getElem?_eq_none (Nat.le_of_eq length_formatCells)]
  rfl

end Format

section Stream

variable {code : Code} {version mask : Nat} {ds : Datastream} {bits : List Bool}

/-- The bit of bytes at an index, the high one of a byte first. -/
def bitAt (bytes : List UInt8) (index : Nat) : Bool :=
  (bytes.getD (index / 8) 0).toNat.testBit (7 - index % 8)

/-- A stream that holds bits. -/
structure Gathered (ds : Datastream) (bits : List Bool) : Prop where
  length : ds.raw.length = quircMaxPayload
  count : ds.dataBits = bits.length
  bit : ∀ index, bitAt ds.raw index = bits.getD index false

/-- Before anything was read nothing is gathered. -/
theorem gathered_nil : Gathered ⟨List.replicate quircMaxPayload 0, 0⟩ [] where
  length := List.length_replicate
  count := rfl
  bit index := by
    rw [bitAt, getD_replicate_zero]
    exact Nat.zero_testBit _

private theorem toNat_shifted :
    ∀ bitpos < 8, (0x80 >>> UInt8.ofNat bitpos : UInt8).toNat = 2 ^ (7 - bitpos) := by
  decide

/-- Setting a bit of a byte. -/
theorem bitAt_set {bytes : List UInt8} {place : Nat} (inside : place / 8 < bytes.length)
    (index : Nat) :
    bitAt (bytes.set (place / 8) (bytes.getD (place / 8) 0 ||| 0x80 >>> UInt8.ofNat (place % 8)))
      index = (bitAt bytes index || decide (index = place)) := by
  have low := Nat.mod_lt place (by decide : 0 < 8)
  have otherLow := Nat.mod_lt index (by decide : 0 < 8)
  rw [bitAt, getD_set _ _ _ _ _ inside, bitAt]
  by_cases byte : index / 8 = place / 8
  · rw [if_pos byte, UInt8.toNat_or, toNat_shifted _ low, Nat.testBit_or, Nat.testBit_two_pow, byte]
    congr 1
    rw [decide_eq_decide]
    omega
  · rw [if_neg byte, decide_eq_false fun same => byte (by rw [same]), Bool.or_false]

/-- **Reading a bit** puts it after those that are held. -/
theorem Gathered.readBit (gathered : Gathered ds bits)
    (room : bits.length < quircMaxPayload * 8) (i j : Nat) :
    Gathered (readBit code mask ds i j) (bits ++ [gridBit code j i ^^ maskBit mask i j]) := by
  have inside : ds.dataBits / 8 < ds.raw.length := by
    rw [gathered.length, gathered.count]
    omega
  rw [Quirc.readBit]
  refine ⟨?_, ?_, fun index => ?_⟩
  · dsimp only
    split
    · rw [List.length_set, gathered.length]
    · exact gathered.length
  · dsimp only
    rw [gathered.count, List.length_append, List.length_singleton]
  · have past : bitAt ds.raw bits.length = false := by
      rw [gathered.bit, List.getD_eq_default _ _ (Nat.le_refl _)]
    have added : (bits ++ [gridBit code j i ^^ maskBit mask i j]).getD index false =
        if index = bits.length then gridBit code j i ^^ maskBit mask i j
        else bits.getD index false := by
      split
      · next same => rw [same, List.getD_append_right _ _ _ _ (Nat.le_refl _), Nat.sub_self]; rfl
      · next differ =>
          rcases Nat.lt_or_gt_of_ne differ with less | more
          · rw [List.getD_append _ _ _ _ less]
          · rw [List.getD_eq_default _ _ (by simp; omega), List.getD_eq_default _ _ more.le]
    dsimp only
    rw [added]
    split
    · next set =>
        rw [bitAt_set inside, gathered.bit, gathered.count]
        split
        · next same => rw [same, set, decide_eq_true rfl, Bool.or_true]
        · next differ => rw [decide_eq_false differ, Bool.or_false]
    · next clear =>
        rw [gathered.bit]
        split
        · next same =>
            rw [same, List.getD_eq_default _ _ (Nat.le_refl _)]
            exact (Bool.eq_false_of_not_eq_true clear).symm
        · rfl

end Stream

end VaultSeed.Quirc
