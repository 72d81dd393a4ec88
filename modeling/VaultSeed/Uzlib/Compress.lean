import VaultSeed.Foundation.Copies
import VaultSeed.Foundation.LowBits
import VaultSeed.Foundation.Ring

/-! # The compressor

`lib/uzlib/lz77.c` and `lib/uzlib/defl_static.c`: a search for the longest match in a window of
history, and the static codes of literals and matches. A chunk is written as the codes of tokens
that spell it (`VaultSeed.Uzlib.lz77Compress_spells`).
-/

namespace VaultSeed.Uzlib

open LowBits

/-- `uzlib_lz77_state_t`, with the bytes that `dest_write_cb` got. -/
structure Lz77State where
  dest : List UInt8
  outbits : Nat
  noutbits : Nat
  histBuf : List UInt8
  histMax : Nat
  histStart : Nat
  histLen : Nat

/-- `uzlib_lz77_init`. -/
def lz77Init (dest hist : List UInt8) (histMax : Nat) : Lz77State :=
  ⟨dest, 0, 0, hist, histMax, 0, 0⟩

/-- `outbits`, the loop. -/
def outbitsTurns : Nat → Lz77State → Lz77State
  | 0, state => state
  | fuel + 1, state =>
    if 8 ≤ state.noutbits then
      outbitsTurns fuel { state with
        dest := state.dest ++ [UInt8.ofNat (state.outbits &&& 0xff)]
        outbits := state.outbits >>> 8
        noutbits := state.noutbits - 8 }
    else state

/-- `outbits`. -/
def outbits (state : Lz77State) (bits nbits : Nat) : Lz77State :=
  outbitsTurns (state.noutbits + nbits) { state with
    outbits := state.outbits ||| bits <<< state.noutbits
    noutbits := state.noutbits + nbits }

/-- `mirrornibbles`. -/
def mirrornibbles : List Nat :=
  [0x0, 0x8, 0x4, 0xc, 0x2, 0xa, 0x6, 0xe, 0x1, 0x9, 0x5, 0xd, 0x3, 0xb, 0x7, 0xf]

/-- `mirrorbyte`. -/
def mirrorbyte (b : Nat) : Nat :=
  mirrornibbles.getD (b &&& 0xf) 0 <<< 4 ||| mirrornibbles.getD (b >>> 4) 0

/-- `int_log2`, the loop. -/
def intLog2Turns : Nat → Nat → Nat → Nat
  | 0, _, r => r
  | fuel + 1, x, r => if x >>> 1 ≠ 0 then intLog2Turns fuel (x >>> 1) (r + 1) else r

/-- `int_log2`. -/
def intLog2 (x : Nat) : Nat := intLog2Turns x x 0

/-- `uzlib_literal`. -/
def literal (state : Lz77State) (c : UInt8) : Lz77State :=
  if c.toNat ≤ 143 then outbits state (mirrorbyte (0x30 + c.toNat)) 8
  else outbits state (1 + 2 * mirrorbyte (0x90 - 144 + c.toNat)) 9

/-- `uzlib_match`: `x` of a length, three less than it. -/
def lengthLog (thislen : Nat) : Nat :=
  if thislen < 255 then if intLog2 thislen ≠ 0 then intLog2 thislen - 1 else 0
  else intLog2 thislen

/-- `uzlib_match`: `lcode`. -/
def lcode (thislen : Nat) : Nat :=
  if thislen < 255 then
    lengthLog thislen * 4 +
      ((thislen >>> if lengthLog thislen ≠ 0 then lengthLog thislen - 1 else 0) &&& 3)
  else 28

/-- `uzlib_match`: a length, three less than it. -/
def outLength (state : Lz77State) (thislen : Nat) : Lz77State :=
  let coded := if lcode thislen ≤ 22 then outbits state (mirrorbyte ((lcode thislen + 1) * 2)) 7
    else outbits state (mirrorbyte (lcode thislen + 169)) 8
  if thislen < 255 ∧ 1 < lengthLog thislen then
    let extrabits := lengthLog thislen - 1
    let lmin := (thislen >>> extrabits) <<< extrabits
    outbits coded (thislen - lmin) extrabits
  else coded

/-- `uzlib_match`: the code of a distance, one less than it. -/
def dcode (distance : Nat) : Nat :=
  intLog2 distance * 2 +
    ((distance >>> if intLog2 distance ≠ 0 then intLog2 distance - 1 else 0) &&& 1)

/-- `uzlib_match`: a distance, one less than it. -/
def outDistance (state : Lz77State) (distance : Nat) : Lz77State :=
  let coded := outbits state (mirrorbyte (dcode distance * 8)) 5
  if 1 < intLog2 distance then
    let dextrabits := intLog2 distance - 1
    let dmin := (distance >>> dextrabits) <<< dextrabits
    outbits coded (distance - dmin) dextrabits
  else coded

/-- `uzlib_match`: `thislen`, as much of a length as is sent at once. -/
def thislen (len : Nat) : Nat := if 260 < len then 258 else if len ≤ 258 then len else len - 3

/-- `uzlib_match`, the loop. -/
def matchTurns (distance : Nat) : Nat → Nat → Lz77State → Lz77State
  | 0, _, state => state
  | fuel + 1, len, state =>
    if 0 < len then
      matchTurns distance fuel (len - thislen len)
        (outDistance (outLength state (thislen len - 3)) distance)
    else state

/-- `uzlib_match`. -/
def uzlibMatch (state : Lz77State) (distance len : Nat) : Lz77State :=
  matchTurns (distance - 1) len len state

/-- `uzlib_lz77_search_max_match`: the byte at an index of the history and the source. -/
def histAt (state : Lz77State) (src : List UInt8) (index : Nat) : UInt8 :=
  if index < state.histLen then
    state.histBuf.getD ((state.histStart + index) &&& (state.histMax - 1)) 0
  else src.getD (index - state.histLen) 0

/-- `uzlib_lz77_search_max_match`, the inner loop. -/
def matchLenTurns (state : Lz77State) (src : List UInt8) (histSearch : Nat) : Nat → Nat → Nat
  | 0, matchLen => matchLen
  | fuel + 1, matchLen =>
    if matchLen ≤ 258 ∧ matchLen < src.length then
      if src.getD matchLen 0 ≠ histAt state src (histSearch + matchLen) then matchLen
      else matchLenTurns state src histSearch fuel (matchLen + 1)
    else matchLen

/-- `uzlib_lz77_search_max_match`: how far the source matches from an index on. -/
def matchLen (state : Lz77State) (src : List UInt8) (histSearch : Nat) : Nat :=
  matchLenTurns state src histSearch src.length 0

/-- `uzlib_lz77_search_max_match`, a turn of the outer loop: `longest_len` and
`longest_offset`. -/
def searchTurn (state : Lz77State) (src : List UInt8) (longest : Nat × Nat) (histSearch : Nat) :
    Nat × Nat :=
  if 3 ≤ matchLen state src histSearch ∧ longest.1 ≤ matchLen state src histSearch then
    (matchLen state src histSearch, state.histLen - histSearch)
  else longest

/-- `uzlib_lz77_search_max_match`. -/
def searchMaxMatch (state : Lz77State) (src : List UInt8) : Nat × Nat :=
  (List.range state.histLen).foldl (searchTurn state src) (0, 0)

/-- `uzlib_lz77_compress`: a byte is pushed into the history. -/
def pushHist (state : Lz77State) (b : UInt8) : Lz77State :=
  let mask := state.histMax - 1
  let pushed :=
    { state with histBuf := state.histBuf.set ((state.histStart + state.histLen) &&& mask) b }
  if state.histLen = state.histMax then
    { pushed with histStart := (state.histStart + 1) &&& mask }
  else { pushed with histLen := state.histLen + 1 }

/-- `uzlib_lz77_compress`, the loop. -/
def lz77CompressTurns : Nat → Lz77State → List UInt8 → Lz77State
  | 0, state, _ => state
  | _ + 1, state, [] => state
  | fuel + 1, state, c :: rest =>
    let found := searchMaxMatch state (c :: rest)
    if found.1 = 0 then lz77CompressTurns fuel (pushHist (literal state c) c) rest
    else
      lz77CompressTurns fuel
        (((c :: rest).take found.1).foldl pushHist (uzlibMatch state found.2 found.1))
        ((c :: rest).drop found.1)

/-- `uzlib_lz77_compress`. -/
def lz77Compress (state : Lz77State) (src : List UInt8) : Lz77State :=
  lz77CompressTurns src.length state src

/-- `uzlib_start_block`. -/
def startBlock (state : Lz77State) : Lz77State := outbits state 3 3

/-- `uzlib_finish_block`. -/
def finishBlock (state : Lz77State) : Lz77State := outbits state 0 14

/-- The bits written so far. -/
def Lz77State.bits (state : Lz77State) : List Bool :=
  stream state.dest ++ low state.noutbits state.outbits

/-- Less than a byte is held, and nothing above it. -/
structure Lz77State.Tidy (state : Lz77State) : Prop where
  few : state.noutbits < 8
  small : state.outbits < 2 ^ state.noutbits

/-- The window of history. -/
def Lz77State.history (state : Lz77State) : List UInt8 × Nat × Nat × Nat :=
  (state.histBuf, state.histMax, state.histStart, state.histLen)

/-- Bits are written, and the history stays. -/
structure Puts (state after : Lz77State) (bits : List Bool) : Prop where
  tidy : after.Tidy
  written : after.bits = state.bits ++ bits
  kept : after.history = state.history

section Bits

variable {state middle after : Lz77State} {first second : List Bool}

/-- Bits are put one after another. -/
theorem Puts.trans (puts : Puts state middle first) (then' : Puts middle after second) :
    Puts state after (first ++ second) :=
  ⟨then'.tidy, by rw [then'.written, puts.written, List.append_assoc], then'.kept.trans puts.kept⟩

/-- Doing nothing puts nothing. -/
theorem Puts.refl (tidy : state.Tidy) : Puts state state [] :=
  ⟨tidy, (List.append_nil _).symm, rfl⟩

/-- Giving bytes away leaves less than a byte, and the bits are the same. -/
theorem outbitsTurns_puts (fuel : Nat) (state : Lz77State) (enough : state.noutbits < 8 + fuel)
    (small : state.outbits < 2 ^ state.noutbits) : Puts state (outbitsTurns fuel state) [] := by
  induction fuel generalizing state with
  | zero => exact .refl ⟨enough, small⟩
  | succ fuel ih =>
      rw [outbitsTurns]
      split
      case isFalse few => exact .refl ⟨by omega, small⟩
      case isTrue full =>
        have byte : state.outbits &&& 0xff = state.outbits % 256 :=
          Nat.and_two_pow_sub_one_eq_mod _ 8
        have rest : state.outbits >>> 8 = state.outbits / 256 := Nat.shiftRight_eq_div_pow _ 8
        have less : state.outbits / 256 < 2 ^ (state.noutbits - 8) := by
          rw [Nat.div_lt_iff_lt_mul (by decide), show 256 = 2 ^ 8 from rfl, ← pow_add,
            Nat.sub_add_cancel full]
          exact small
        rw [byte, rest]
        have puts := ih
          { state with
            dest := state.dest ++ [UInt8.ofNat (state.outbits % 256)]
            outbits := state.outbits / 256
            noutbits := state.noutbits - 8 }
          (show state.noutbits - 8 < 8 + fuel by omega) less
        refine ⟨puts.tidy, ?_, puts.kept⟩
        rw [puts.written, Lz77State.bits, Lz77State.bits]
        exact congrArg (· ++ []) (stream_flush full _ _)

/-- `outbits` puts the low bits. -/
theorem outbits_puts (tidy : state.Tidy) {bits nbits : Nat} (small : bits < 2 ^ nbits) :
    Puts state (outbits state bits nbits) (low nbits bits) := by
  have held : state.outbits ||| bits <<< state.noutbits < 2 ^ (state.noutbits + nbits) := by
    refine Nat.or_lt_two_pow
      (lt_of_lt_of_le tidy.small (Nat.pow_le_pow_right (by decide) (Nat.le_add_right _ _))) ?_
    rw [Nat.shiftLeft_eq, pow_add, Nat.mul_comm]
    exact Nat.mul_lt_mul_of_pos_left small (Nat.two_pow_pos _)
  have puts := outbitsTurns_puts (state.noutbits + nbits)
    { state with
      outbits := state.outbits ||| bits <<< state.noutbits
      noutbits := state.noutbits + nbits }
    (show state.noutbits + nbits < 8 + (state.noutbits + nbits) by omega) held
  refine ⟨puts.tidy, ?_, puts.kept⟩
  rw [outbits, puts.written, List.append_nil, Lz77State.bits, Lz77State.bits,
    low_or tidy.small nbits bits, List.append_assoc]

end Bits

/-- The static code of a literal or of a length. -/
def fixedCode (symbol : Nat) : List Bool :=
  if symbol ≤ 143 then Bits.ofDigit 8 (0x30 + symbol)
  else if symbol ≤ 255 then Bits.ofDigit 9 (0x190 + (symbol - 144))
  else if symbol ≤ 279 then Bits.ofDigit 7 (symbol - 256)
  else Bits.ofDigit 8 (0xc0 + (symbol - 280))

/-- The low bits of a value that its logarithm does not tell, if it has any. -/
def extraBits (log value : Nat) : List Bool := if 1 < log then low (log - 1) value else []

section Codes

variable {state : Lz77State}

private theorem intLog2Turns_eq {fuel x : Nat} (enough : x ≤ fuel) (r : Nat) :
    intLog2Turns fuel x r = r + Nat.log2 x := by
  induction fuel generalizing x r with
  | zero =>
      rw [Nat.le_zero.mp enough, intLog2Turns]
      rfl
  | succ fuel ih =>
      rw [intLog2Turns, Nat.shiftRight_one, Nat.log2_def]
      by_cases large : 2 ≤ x
      · rw [if_pos (by omega), if_pos large, ih (by omega)]
        omega
      · rw [if_neg (by omega), if_neg large]
        rfl

/-- The loop computes the logarithm. -/
theorem intLog2_eq (x : Nat) : intLog2 x = Nat.log2 x := by
  rw [intLog2, intLog2Turns_eq (Nat.le_refl x), Nat.zero_add]

private theorem low_mirrorbyte : ∀ b < 256, low 8 (mirrorbyte b) = Bits.ofDigit 8 b := by
  decide +kernel

private theorem mirrorbyte_lt : ∀ b < 256, mirrorbyte b < 256 := by
  decide +kernel

private theorem low_seven : ∀ code < 128, low 7 (mirrorbyte (code * 2)) = Bits.ofDigit 7 code ∧
    mirrorbyte (code * 2) < 2 ^ 7 := by
  decide +kernel

private theorem low_five : ∀ code < 32, low 5 (mirrorbyte (code * 8)) = Bits.ofDigit 5 code ∧
    mirrorbyte (code * 8) < 2 ^ 5 := by
  decide +kernel

private theorem low_nine : ∀ c < 256, low 9 (1 + 2 * mirrorbyte c) = Bits.ofDigit 9 (256 + c) := by
  decide +kernel

/-- What is cut off at a number of bits are the bits below. -/
theorem sub_shift (value count : Nat) :
    value - (value >>> count) <<< count = value % 2 ^ count := by
  have sum := Nat.mod_add_div value (2 ^ count)
  rw [Nat.mul_comm] at sum
  rw [Nat.shiftLeft_eq, Nat.shiftRight_eq_div_pow]
  omega

/-- A literal puts its code. -/
theorem literal_puts (tidy : state.Tidy) (c : UInt8) :
    Puts state (literal state c) (fixedCode c.toNat) := by
  have byte : c.toNat < 256 := c.toNat_lt
  rw [literal, fixedCode]
  by_cases small : c.toNat ≤ 143
  · rw [if_pos small, if_pos small, ← low_mirrorbyte _ (by omega)]
    exact outbits_puts tidy (mirrorbyte_lt _ (by omega))
  · have code : 0x90 - 144 + c.toNat = c.toNat := Nat.zero_add _
    have same : 0x190 + (c.toNat - 144) = 256 + c.toNat := by omega
    have bound := mirrorbyte_lt c.toNat byte
    rw [if_neg small, if_neg small, if_pos (by omega), code, same, ← low_nine _ byte]
    exact outbits_puts tidy (show 1 + 2 * mirrorbyte c.toNat < 512 by omega)

/-- The codes of lengths end at 28. -/
theorem lcode_le : ∀ thislen < 256, lcode thislen ≤ 28 := by
  decide +kernel

/-- A length puts its code and its extra bits. -/
theorem outLength_puts (tidy : state.Tidy) {thislen : Nat} (byte : thislen < 256) :
    Puts state (outLength state thislen) (fixedCode (257 + lcode thislen) ++
      extraBits (if thislen < 255 then lengthLog thislen else 0) thislen) := by
  have most := lcode_le thislen byte
  have coded : Puts state
      (if lcode thislen ≤ 22 then outbits state (mirrorbyte ((lcode thislen + 1) * 2)) 7
        else outbits state (mirrorbyte (lcode thislen + 169)) 8)
      (fixedCode (257 + lcode thislen)) := by
    by_cases short : lcode thislen ≤ 22
    · obtain ⟨bits, bound⟩ := low_seven (lcode thislen + 1) (by omega)
      have code : fixedCode (257 + lcode thislen) = Bits.ofDigit 7 (lcode thislen + 1) := by
        have digit : 257 + lcode thislen - 256 = lcode thislen + 1 := by omega
        rw [fixedCode, if_neg (by omega), if_neg (by omega), if_pos (by omega), digit]
      rw [if_pos short, code, ← bits]
      exact outbits_puts tidy bound
    · have code : fixedCode (257 + lcode thislen) = Bits.ofDigit 8 (lcode thislen + 169) := by
        have digit : 0xc0 + (257 + lcode thislen - 280) = lcode thislen + 169 := by omega
        rw [fixedCode, if_neg (by omega), if_neg (by omega), if_neg (by omega), digit]
      rw [if_neg short, code, ← low_mirrorbyte _ (by omega)]
      exact outbits_puts tidy (mirrorbyte_lt _ (by omega))
  rw [outLength]
  by_cases more : thislen < 255 ∧ 1 < lengthLog thislen
  · have sent := outbits_puts coded.tidy
      (Nat.mod_lt thislen (Nat.two_pow_pos (lengthLog thislen - 1)))
    rw [low_mod, ← sub_shift] at sent
    rw [if_pos more, extraBits, if_pos more.1, if_pos more.2]
    exact coded.trans sent
  · have none : extraBits (if thislen < 255 then lengthLog thislen else 0) thislen = [] := by
      rw [extraBits]
      split <;> split <;> first | rfl | omega
    rw [if_neg more, none, List.append_nil]
    exact coded

/-- The codes of distances end before 30. -/
theorem dcode_lt {distance : Nat} (near : distance < 32768) : dcode distance < 30 := by
  have log : intLog2 distance ≤ 14 := by
    rw [intLog2_eq]
    by_cases zero : distance = 0
    · rw [zero]
      decide
    · exact Nat.le_of_lt_succ ((Nat.log2_lt zero).mpr near)
  have bit : ∀ value : Nat, value &&& 1 ≤ 1 := fun value => Nat.and_le_right
  have low := bit (distance >>> if intLog2 distance ≠ 0 then intLog2 distance - 1 else 0)
  rw [dcode]
  omega

/-- A distance puts its code and its extra bits. -/
theorem outDistance_puts (tidy : state.Tidy) {distance : Nat} (near : distance < 32768) :
    Puts state (outDistance state distance)
      (Bits.ofDigit 5 (dcode distance) ++ extraBits (intLog2 distance) distance) := by
  obtain ⟨bits, bound⟩ := low_five (dcode distance) (Nat.lt_trans (dcode_lt near) (by decide))
  have coded := outbits_puts tidy bound
  rw [bits] at coded
  rw [outDistance, extraBits]
  by_cases more : 1 < intLog2 distance
  · have sent := outbits_puts coded.tidy
      (Nat.mod_lt distance (Nat.two_pow_pos (intLog2 distance - 1)))
    rw [low_mod, ← sub_shift] at sent
    rw [if_pos more, if_pos more]
    exact coded.trans sent
  · rw [if_neg more, if_neg more, List.append_nil]
    exact coded

end Codes

end VaultSeed.Uzlib
