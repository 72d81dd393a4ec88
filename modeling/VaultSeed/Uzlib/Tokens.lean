import VaultSeed.Uzlib.Inflate
import VaultSeed.Uzlib.Search

/-! # What the compressor writes

The compressor writes the codes of tokens that spell its input
(`VaultSeed.Uzlib.lz77Compress_spells`): the codes of lengths and of distances are those of
`lookup_table`, and a match that is too long for one code is sent as two copies.
-/

namespace VaultSeed.Uzlib

open Copies LowBits

/-- The copies that a window and the codes of lengths allow. -/
def Fits (window distance length : Nat) : Prop := distance ≤ window ∧ 3 ≤ length ∧ length ≤ 258

/-- The entry of a code of lengths or distances. -/
def entry (code : Nat) : LookupTableEntry := lookupTable.getD code ⟨0, 0, 0, 0⟩

/-- A length: its code, and how far it is above the first length of the code. -/
def lengthBits (length : Nat) : List Bool :=
  fixedCode (257 + lcode (length - 3)) ++
    low (entry (lcode (length - 3))).lengthBits (length - (entry (lcode (length - 3))).lengthBase)

/-- A distance: its code, and how far it is above the first distance of the code. -/
def distanceBits (distance : Nat) : List Bool :=
  Bits.ofDigit 5 (dcode (distance - 1)) ++
    low (entry (dcode (distance - 1))).distBits (distance - (entry (dcode (distance - 1))).distBase)

/-- The bits of a token. -/
def tokenBits : Token UInt8 → List Bool
  | .literal c => fixedCode c.toNat
  | .copy distance length => lengthBits length ++ distanceBits distance

section Codes

/-- The code of a length, three less than it, is the one whose lengths it is among. -/
theorem entry_lcode : ∀ thislen < 256, (entry (lcode thislen)).lengthBase ≤ thislen + 3 ∧
    thislen + 3 < (entry (lcode thislen)).lengthBase + 2 ^ (entry (lcode thislen)).lengthBits ∧
    low (entry (lcode thislen)).lengthBits (thislen + 3 - (entry (lcode thislen)).lengthBase) =
      extraBits (if thislen < 255 then lengthLog thislen else 0) thislen := by
  decide +kernel

private theorem entry_dcode_small : ∀ distance < 4,
    entry (dcode distance) = ⟨0, distance + 3, 0, distance + 1⟩ ∧ ¬1 < intLog2 distance := by
  decide +kernel

private theorem entry_log : ∀ log < 15, 2 ≤ log → ∀ bit < 2,
    (entry (log * 2 + bit)).distBits = log - 1 ∧
      (entry (log * 2 + bit)).distBase = (2 + bit) * 2 ^ (log - 1) + 1 := by
  decide +kernel

/-- The code of a distance, one less than it, is the one whose distances it is among. -/
theorem entry_dcode (distance : Nat) (near : distance < 32768) :
    (entry (dcode distance)).distBase ≤ distance + 1 ∧
      distance + 1 < (entry (dcode distance)).distBase + 2 ^ (entry (dcode distance)).distBits ∧
      low (entry (dcode distance)).distBits (distance + 1 - (entry (dcode distance)).distBase) =
        extraBits (intLog2 distance) distance := by
  by_cases small : distance < 4
  · obtain ⟨found, log⟩ := entry_dcode_small distance small
    rw [found, extraBits, if_neg log]
    exact ⟨Nat.le_refl _, Nat.lt_succ_self _, rfl⟩
  · have nonzero : distance ≠ 0 := by omega
    have least : 2 ≤ intLog2 distance := by
      rw [intLog2_eq, Nat.le_log2 nonzero]
      omega
    have most : intLog2 distance < 15 := by
      rw [intLog2_eq, Nat.log2_lt nonzero]
      exact near
    obtain ⟨low', high⟩ := (Nat.log2_eq_iff nonzero).mp (intLog2_eq distance).symm
    -- the two highest bits are `2 + y`, the rest is sent after the code
    have power : 2 ^ intLog2 distance = 2 * 2 ^ (intLog2 distance - 1) := by
      rw [← Nat.pow_succ', Nat.succ_eq_add_one, Nat.sub_add_cancel (by omega)]
    have split := Nat.div_add_mod distance (2 ^ (intLog2 distance - 1))
    have rest := Nat.mod_lt distance (Nat.two_pow_pos (intLog2 distance - 1))
    have top : distance / 2 ^ (intLog2 distance - 1) < 4 := by
      rw [Nat.div_lt_iff_lt_mul (Nat.two_pow_pos _)]
      rw [pow_succ, power] at high
      omega
    have bottom : 2 ≤ distance / 2 ^ (intLog2 distance - 1) := by
      rw [Nat.le_div_iff_mul_le (Nat.two_pow_pos _)]
      omega
    have code : dcode distance =
        intLog2 distance * 2 + (distance / 2 ^ (intLog2 distance - 1) - 2) := by
      rw [dcode, if_pos (by omega), Nat.shiftRight_eq_div_pow, Nat.and_one_is_mod]
      omega
    obtain ⟨bits, base⟩ := entry_log (intLog2 distance) most least
      (distance / 2 ^ (intLog2 distance - 1) - 2) (by omega)
    have highest : 2 + (distance / 2 ^ (intLog2 distance - 1) - 2) =
        distance / 2 ^ (intLog2 distance - 1) := by omega
    rw [highest, Nat.mul_comm (distance / _)] at base
    have offset : distance + 1 - (2 ^ (intLog2 distance - 1) *
        (distance / 2 ^ (intLog2 distance - 1)) + 1) = distance % 2 ^ (intLog2 distance - 1) := by
      omega
    rw [code, bits, base, offset, low_mod, extraBits, if_pos (by omega)]
    exact ⟨by omega, by omega, rfl⟩

variable {state : Lz77State}

private theorem outLength_lengthBits (tidy : state.Tidy) {length : Nat} (least : 3 ≤ length)
    (most : length ≤ 258) : Puts state (outLength state (length - 3)) (lengthBits length) := by
  obtain ⟨-, -, extra⟩ := entry_lcode (length - 3) (by omega)
  rw [Nat.sub_add_cancel least] at extra
  rw [lengthBits, extra]
  exact outLength_puts tidy (by omega)

private theorem outDistance_distanceBits (tidy : state.Tidy) {distance : Nat}
    (positive : 0 < distance)
    (near : distance ≤ 32768) :
    Puts state (outDistance state (distance - 1)) (distanceBits distance) := by
  obtain ⟨-, -, extra⟩ := entry_dcode (distance - 1) (by omega)
  rw [Nat.sub_add_cancel positive] at extra
  rw [distanceBits, extra]
  exact outDistance_puts tidy (by omega)

end Codes

section Runs

variable {state : Lz77State} {done piece src : List UInt8} {window distance : Nat}

/-- A part that is sent at once has a length that has a code, and so has the rest. -/
theorem thislen_spec {len : Nat} (least : 3 ≤ len) :
    3 ≤ thislen len ∧ thislen len ≤ 258 ∧ thislen len ≤ len ∧
      (len - thislen len = 0 ∨ 3 ≤ len - thislen len) := by
  rw [thislen]
  split
  · omega
  · split <;> omega

private theorem matchTurns_spells {fuel : Nat} (enough : piece.length ≤ fuel)
    (long : piece.length = 0 ∨ 3 ≤ piece.length) (repeats : Repeats done piece distance)
    (positive : 0 < distance) (known : distance ≤ done.length) (inside : distance ≤ window)
    (near : distance ≤ 32768) (tidy : state.Tidy) :
    ∃ tokens, Spells (Fits window) done tokens piece ∧
      Puts state (matchTurns (distance - 1) fuel piece.length state)
        (tokens.flatMap tokenBits) := by
  induction fuel generalizing state done piece with
  | zero =>
      rw [List.eq_nil_of_length_eq_zero (Nat.le_zero.mp enough)]
      exact ⟨[], .nil done, .refl tidy⟩
  | succ fuel ih =>
      rw [matchTurns]
      rcases long with none | least
      · rw [List.eq_nil_of_length_eq_zero none]
        exact ⟨[], .nil done, .refl tidy⟩
      · obtain ⟨shortest, longest, part, rest⟩ := thislen_spec least
        have length : (piece.take (thislen piece.length)).length = thislen piece.length := by
          rw [List.length_take, min_eq_left part]
        have left : (piece.drop (thislen piece.length)).length =
            piece.length - thislen piece.length := List.length_drop
        have split := List.take_append_drop (thislen piece.length) piece
        rw [← split] at repeats
        obtain ⟨first, second⟩ := repeats.of_append positive
        have sent := outLength_lengthBits tidy shortest longest
        have copied := sent.trans (outDistance_distanceBits sent.tidy positive near)
        have fit : Fits window distance (piece.take (thislen piece.length)).length :=
          ⟨inside, by rwa [length], by rwa [length]⟩
        have spells := Spells.copied positive known fit first
        obtain ⟨tokens, spellsRest, putsRest⟩ := ih (by omega) (left ▸ rest) second
          (by rw [List.length_append]; omega) copied.tidy
        rw [left] at putsRest
        rw [if_pos (by omega)]
        refine ⟨.copy distance (thislen piece.length) :: tokens, ?_, ?_⟩
        · have whole := spells.append spellsRest
          rwa [split, length] at whole
        · rw [List.flatMap_cons, tokenBits]
          exact copied.trans putsRest

private theorem uzlibMatch_spells (least : 3 ≤ piece.length) (repeats : Repeats done piece distance)
    (positive : 0 < distance) (known : distance ≤ done.length) (inside : distance ≤ window)
    (near : distance ≤ 32768) (tidy : state.Tidy) :
    ∃ tokens, Spells (Fits window) done tokens piece ∧
      Puts state (uzlibMatch state distance piece.length) (tokens.flatMap tokenBits) :=
  matchTurns_spells (Nat.le_refl _) (.inr least) repeats positive known inside near tidy

/-- What the compressor keeps to while it writes. -/
structure Compressing (window : Nat) (state : Lz77State) (done : List UInt8) : Prop where
  tidy : state.Tidy
  holds : Holds state done
  window : state.histMax = window

private theorem Compressing.pushed {after : Lz77State} {bits : List Bool}
    (compressing : Compressing window state done) (puts : Puts state after bits)
    (piece : List UInt8) :
    Compressing window (piece.foldl pushHist after) (done ++ piece) ∧
      (piece.foldl pushHist after).bits = state.bits ++ bits := by
  have same : ∀ (state : Lz77State) (b : UInt8), (pushHist state b).bits = state.bits ∧
      ((pushHist state b).Tidy ↔ state.Tidy) ∧ (pushHist state b).histMax = state.histMax := by
    intro state b
    rw [pushHist]
    split <;> exact ⟨rfl, ⟨fun tidy => ⟨tidy.few, tidy.small⟩, fun tidy => ⟨tidy.few, tidy.small⟩⟩,
      rfl⟩
  have pushes : ∀ (piece : List UInt8) (state : Lz77State),
      (piece.foldl pushHist state).bits = state.bits ∧
      ((piece.foldl pushHist state).Tidy ↔ state.Tidy) ∧
      (piece.foldl pushHist state).histMax = state.histMax := by
    intro piece
    induction piece with
    | nil => exact fun state => ⟨rfl, Iff.rfl, rfl⟩
    | cons b piece ih =>
        intro state
        obtain ⟨bits, tidy, size⟩ := ih (pushHist state b)
        obtain ⟨bitsOne, tidyOne, sizeOne⟩ := same state b
        exact ⟨bits.trans bitsOne, tidy.trans tidyOne, size.trans sizeOne⟩
  obtain ⟨bits, tidy, size⟩ := pushes piece after
  have max : after.histMax = state.histMax := congrArg (fun history => history.2.1) puts.kept
  exact ⟨⟨tidy.mpr puts.tidy, (compressing.holds.of_history puts.kept).pushes piece,
    size.trans (max.trans compressing.window)⟩, bits.trans puts.written⟩

private theorem lz77CompressTurns_spells {fuel : Nat} (enough : src.length ≤ fuel)
    (near : window ≤ 32768) (compressing : Compressing window state done) :
    ∃ tokens, Spells (Fits window) done tokens src ∧
      (lz77CompressTurns fuel state src).bits = state.bits ++ tokens.flatMap tokenBits ∧
      Compressing window (lz77CompressTurns fuel state src) (done ++ src) := by
  induction fuel generalizing state done src with
  | zero =>
      rw [List.eq_nil_of_length_eq_zero (Nat.le_zero.mp enough), List.append_nil]
      exact ⟨[], .nil done, (List.append_nil _).symm, compressing⟩
  | succ fuel ih =>
      cases src with
      | nil =>
          rw [List.append_nil]
          exact ⟨[], .nil done, (List.append_nil _).symm, compressing⟩
      | cons c rest =>
          rw [List.length_cons] at enough
          rw [lz77CompressTurns]
          by_cases none : (searchMaxMatch state (c :: rest)).1 = 0
          · obtain ⟨kept, bits⟩ := compressing.pushed (literal_puts compressing.tidy c) [c]
            obtain ⟨tokens, spells, written, after⟩ := ih (Nat.le_of_succ_le_succ enough) kept
            rw [List.append_assoc, List.singleton_append] at after
            refine ⟨.literal c :: tokens, .literal spells, ?_, ?_⟩
            · rw [bits] at written
              rw [if_pos none, List.flatMap_cons, tokenBits, ← List.append_assoc]
              exact written
            · rw [if_pos none]
              exact after
          · obtain ⟨least, -, within, positive, known, inside, repeats⟩ :=
              compressing.holds.searchMaxMatch none
            have length : ((c :: rest).take (searchMaxMatch state (c :: rest)).1).length =
                (searchMaxMatch state (c :: rest)).1 := by
              rw [List.length_take, min_eq_left within]
            obtain ⟨copies, spellsCopies, puts⟩ := uzlibMatch_spells (by rwa [length])
              repeats positive known inside ((compressing.window ▸ inside).trans near)
                compressing.tidy
            rw [compressing.window] at spellsCopies
            obtain ⟨kept, bits⟩ := compressing.pushed puts
              ((c :: rest).take (searchMaxMatch state (c :: rest)).1)
            rw [length] at kept bits
            have shorter : ((c :: rest).drop (searchMaxMatch state (c :: rest)).1).length ≤
                fuel := by
              rw [List.length_drop, List.length_cons]
              omega
            obtain ⟨tokens, spells, written, after⟩ := ih shorter kept
            rw [List.append_assoc, List.take_append_drop] at after
            refine ⟨copies ++ tokens, ?_, ?_, ?_⟩
            · have whole := spellsCopies.append spells
              rwa [List.take_append_drop] at whole
            · rw [bits] at written
              rw [if_neg none, written, List.flatMap_append, List.append_assoc]
            · rw [if_neg none]
              exact after

/-- The compressor writes the codes of tokens that spell a chunk after the chunks before. -/
theorem lz77Compress_spells (near : window ≤ 32768)
    (compressing : Compressing window state done) (src : List UInt8) :
    ∃ tokens, Spells (Fits window) done tokens src ∧
      (lz77Compress state src).bits = state.bits ++ tokens.flatMap tokenBits ∧
      Compressing window (lz77Compress state src) (done ++ src) :=
  lz77CompressTurns_spells (Nat.le_refl _) near compressing

end Runs

end VaultSeed.Uzlib
