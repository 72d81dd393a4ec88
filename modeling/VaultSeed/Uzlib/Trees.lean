import VaultSeed.Foundation.Canonical
import VaultSeed.Foundation.LowBits

/-! # Reading bits and symbols

The source of bits of `lib/uzlib/tinflate.c`, the trees that `tinf_build_tree` makes of code lengths
and the symbols that `tinf_decode_symbol` reads with them. An access outside of an array is a fault
of its own.
-/

namespace VaultSeed.Uzlib

open LowBits

/-- What ends a call without a result: the exceptions, and an access outside of an array. At the end
of the input `mp_raise_TypeError` is called, with `EOFError` for its message. -/
inductive Fault where
  | typeError
  | einval
  | wild
  deriving DecidableEq, Repr

/-- `array[index]`. -/
def fetch {α : Type} (array : List α) (index : Int) : Except Fault α :=
  if index < 0 then .error .wild
  else match array[index.toNat]? with
    | some element => .ok element
    | none => .error .wild

/-- `array[index] = element`. -/
def store {α : Type} (array : List α) (index : Nat) (element : α) : Except Fault (List α) :=
  if index < array.length then .ok (array.set index element) else .error .wild

/-- `uzlib_uncomp_t`: what is left of the source, `tag` and `bitcount`. -/
structure Source where
  source : List UInt8
  tag : Nat
  bitcount : Nat

/-- `TINF_TREE`. -/
structure Tree where
  table : List Nat
  trans : List Nat

/-- A `TINF_TREE` of zeros. -/
def Tree.zero : Tree := ⟨List.replicate 16 0, List.replicate 288 0⟩

/-- `uzlib_get_byte`, with `deflateio_read_stream` as the callback. -/
def getByte (d : Source) : Except Fault (UInt8 × Source) :=
  match d.source with
  | [] => .error .typeError
  | byte :: rest => .ok (byte, { d with source := rest })

/-- `tinf_getbit`. -/
def getbit (d : Source) : Except Fault (Nat × Source) :=
  if d.bitcount = 0 then
    (getByte d).bind fun got =>
      .ok (got.1.toNat &&& 0x01, ⟨got.2.source, got.1.toNat >>> 1, 7⟩)
  else .ok (d.tag &&& 0x01, ⟨d.source, d.tag >>> 1, d.bitcount - 1⟩)

/-- `tinf_read_bits`, the loop over the masks. -/
def readBitsTurns : Nat → Nat → Nat → Source → Except Fault (Nat × Source)
  | 0, _, val, d => .ok (val, d)
  | num + 1, mask, val, d =>
    (getbit d).bind fun got =>
      readBitsTurns num (mask * 2) (if got.1 ≠ 0 then val + mask else val) got.2

/-- `tinf_read_bits`. -/
def readBits (d : Source) (num base : Nat) : Except Fault (Nat × Source) :=
  (readBitsTurns num 1 0 d).bind fun got => .ok (got.1 + base, got.2)

/-- `UZLIB_DATA_ERROR`, in the place of a symbol. -/
def uzlibDataError : Int := -3

/-- `tinf_decode_symbol`, the loop, with the turns that `TINF_ARRAY_SIZE(t->table)` leaves. -/
def decodeSymbolTurns (t : Tree) : Nat → Int → Int → Nat → Source → Except Fault (Int × Source)
  | 0, _, _, _, d => .ok (uzlibDataError, d)
  | left + 1, sum, cur, len, d =>
    (getbit d).bind fun got =>
      let cur := 2 * cur + got.1
      let len := len + 1
      if len = 16 then .ok (uzlibDataError, got.2)
      else
        (fetch t.table len).bind fun count =>
          let sum := sum + count
          let cur := cur - count
          if 0 ≤ cur then decodeSymbolTurns t left sum cur len got.2
          else (fetch t.trans (sum + cur)).bind fun symbol => .ok (symbol, got.2)

/-- `tinf_decode_symbol`. -/
def decodeSymbol (d : Source) (t : Tree) : Except Fault (Int × Source) :=
  decodeSymbolTurns t 16 0 0 0 d

/-- `tinf_build_fixed_trees`. -/
def buildFixedTrees (lt dt : Tree) : Tree × Tree :=
  (⟨List.replicate 7 0 ++ [24, 152, 112] ++ lt.table.drop 10,
      (List.range 24).map (256 + ·) ++ List.range 144 ++ (List.range 8).map (280 + ·) ++
        (List.range 112).map (144 + ·) ++ lt.trans.drop 288⟩,
    ⟨List.replicate 5 0 ++ [32] ++ dt.table.drop 6, List.range 32 ++ dt.trans.drop 32⟩)

/-- `tinf_build_tree`: how many symbols have each length. -/
def countLengths : List Nat → List Nat → Except Fault (List Nat)
  | [], table => .ok table
  | length :: lengths, table =>
    (fetch table length).bind fun count =>
      (store table length (count + 1)).bind fun table => countLengths lengths table

/-- `tinf_build_tree`: `offs`. -/
def offsets : Nat → List Nat → List Nat
  | _, [] => []
  | sum, count :: counts => sum :: offsets (sum + count) counts

/-- `tinf_build_tree`: the symbols from `i` on are put in their places of `trans`. -/
def placeSymbols : Nat → List Nat → List Nat → List Nat → Except Fault (List Nat)
  | _, [], _, symbols => .ok symbols
  | i, length :: lengths, offs, symbols =>
    if length ≠ 0 then
      (fetch offs length).bind fun place =>
        (store symbols place i).bind fun symbols =>
          (store offs length (place + 1)).bind fun offs =>
            placeSymbols (i + 1) lengths offs symbols
    else placeSymbols (i + 1) lengths offs symbols

/-- `tinf_build_tree`. -/
def buildTree (t : Tree) (lengths : List Nat) : Except Fault Tree :=
  (countLengths lengths (List.replicate 16 0)).bind fun counted =>
    (store counted 0 0).bind fun table =>
      (placeSymbols 0 lengths (offsets 0 table) t.trans).bind fun symbols => .ok ⟨table, symbols⟩

/-- The bits that are still to be read, those of the tag first. -/
def Source.bits (d : Source) : List Bool := low d.bitcount d.tag ++ stream d.source

/-- A source has bits to read, and holds less than a byte of them. -/
structure Pending (d : Source) (bits : List Bool) : Prop where
  few : d.bitcount < 8
  bits : d.bits = bits

section Reading

variable {d : Source} {rest : List Bool} {bit : Bool}

/-- A fetch inside of an array. -/
theorem fetch_of_getElem? {α : Type} {array : List α} {index : Nat} {element : α}
    (found : array[index]? = some element) : fetch array index = .ok element := by
  rw [fetch, if_neg (Int.not_lt.mpr (Int.natCast_nonneg index)), Int.toNat_natCast, found]

/-- A fetch inside of an array of numbers. -/
theorem fetch_getD {array : List Nat} {index : Nat} (inside : index < array.length) :
    fetch array index = .ok (array.getD index 0) :=
  fetch_of_getElem? (by
    rw [List.getD_eq_getElem?_getD, List.getElem?_eq_getElem inside, Option.getD_some])

private theorem and_one_eq_toNat (value : Nat) : value &&& 0x01 = (value % 2 == 1).toNat := by
  rw [Nat.and_one_is_mod]
  rcases Nat.mod_two_eq_zero_or_one value with zero | one
  · rw [zero]
    rfl
  · rw [one]
    rfl

/-- The lowest bit is read first; a byte is loaded when none is held. -/
theorem getbit_pending (pending : Pending d (bit :: rest)) :
    ∃ after, getbit d = .ok (bit.toNat, after) ∧ Pending after rest := by
  obtain ⟨few, bits⟩ := pending
  rw [getbit]
  by_cases empty : d.bitcount = 0
  · rw [if_pos empty]
    cases source : d.source with
    | nil =>
        rw [Source.bits, empty, source] at bits
        cases bits
    | cons byte bytes =>
        rw [Source.bits, empty, source, stream_cons] at bits
        obtain ⟨first, others⟩ := List.cons.inj bits
        refine ⟨⟨bytes, byte.toNat >>> 1, 7⟩, ?_, Nat.lt_succ_self 7, ?_⟩
        · rw [getByte, source, ← first, ← and_one_eq_toNat]
          rfl
        · rw [← others, Source.bits, Nat.shiftRight_one]
          rfl
  · rw [if_neg empty]
    obtain ⟨count, held⟩ := Nat.exists_eq_succ_of_ne_zero empty
    rw [Source.bits, held, low] at bits
    obtain ⟨first, others⟩ := List.cons.inj bits
    refine ⟨⟨d.source, d.tag >>> 1, d.bitcount - 1⟩, ?_, ?_, ?_⟩
    · rw [← first, ← and_one_eq_toNat]
    · exact lt_of_le_of_lt (Nat.sub_le _ _) few
    · rw [← others, Source.bits, Nat.shiftRight_one, held]
      rfl

private theorem readBitsTurns_pending {num value : Nat} (mask val : Nat)
    (pending : Pending d (low num value ++ rest)) (small : value < 2 ^ num) :
    ∃ after, readBitsTurns num mask val d = .ok (val + mask * value, after) ∧
      Pending after rest := by
  induction num generalizing mask val value d with
  | zero =>
      rw [Nat.lt_one_iff.mp small]
      exact ⟨d, rfl, pending⟩
  | succ num ih =>
      obtain ⟨middle, got, pendingMiddle⟩ := getbit_pending pending
      obtain ⟨after, read, pendingAfter⟩ := ih (mask * 2)
        (if (value % 2 == 1).toNat ≠ 0 then val + mask else val) pendingMiddle
        (by rw [pow_succ] at small; omega)
      refine ⟨after, ?_, pendingAfter⟩
      rw [readBitsTurns, got]
      refine read.trans (congrArg (fun total => Except.ok (total, after)) ?_)
      have split := Nat.div_add_mod value 2
      rcases Nat.mod_two_eq_zero_or_one value with zero | one
      · rw [zero] at split ⊢
        calc val + mask * 2 * (value / 2) = val + mask * (2 * (value / 2)) := by
              rw [Nat.mul_assoc]
          _ = val + mask * value := by rw [Nat.add_zero] at split; rw [split]
      · rw [one] at split ⊢
        calc val + mask + mask * 2 * (value / 2) = val + mask * (2 * (value / 2) + 1) := by ring
          _ = val + mask * value := by rw [split]

/-- The bits of a value are read as the value. -/
theorem readBits_pending {num value : Nat} (base : Nat)
    (pending : Pending d (low num value ++ rest)) (small : value < 2 ^ num) :
    ∃ after, readBits d num base = .ok (value + base, after) ∧ Pending after rest := by
  obtain ⟨after, read, pendingAfter⟩ := readBitsTurns_pending 1 0 pending small
  rw [Nat.zero_add, Nat.one_mul] at read
  exact ⟨after, by rw [readBits, read]; rfl, pendingAfter⟩

/-- A byte is taken where no bit is held. -/
theorem pending_aligned {pad : List Bool} {bytes : List UInt8}
    (pending : Pending d (pad ++ stream bytes)) (padding : pad.length < 8) :
    d.source = bytes := eq_of_low_append_stream pending.few padding pending.bits

end Reading

section Symbols

open Canonical

variable {t : Tree} {d : Source} {rest : List Bool}

/-- The high bit of a number comes first. -/
theorem ofDigit_succ (width digit : Nat) : Bits.ofDigit (width + 1) digit =
    (digit / 2 ^ width % 2 == 1) :: Bits.ofDigit width digit := by
  induction width generalizing digit with
  | zero => rw [pow_zero, Nat.div_one]; rfl
  | succ width ih =>
      rw [Bits.ofDigit, ih (digit / 2), Bits.ofDigit, List.cons_append, Nat.div_div_eq_div_mul,
        pow_succ, Nat.mul_comm]

/-- The counts of a tree. -/
def Tree.counts (t : Tree) (length : Nat) : Nat := t.table.getD length 0

private theorem div_two_pow_succ (digit width : Nat) :
    digit / 2 ^ width = 2 * (digit / 2 ^ (width + 1)) + (digit / 2 ^ width % 2 == 1).toNat := by
  have bit := and_one_eq_toNat (digit / 2 ^ width)
  rw [Nat.and_one_is_mod] at bit
  rw [← bit, pow_succ, ← Nat.div_div_eq_div_mul]
  omega

/-- The loop has read the beginning of a code: `left` more bits follow the next one, and what was
read lies beyond all codes that are as long. -/
theorem decodeSymbolTurns_code {length index symbol left len turns : Nat} {sum cur : Int}
    (sixteen : t.table.length = 16) (short : length < 16) (whole : len + (left + 1) = length)
    (enough : turns + len = 16) (inside : index < t.counts length)
    (found : t.trans[before t.counts length + index]? = some symbol)
    (summed : sum = (before t.counts (len + 1) : Nat))
    (current : cur + (first t.counts len + t.counts len : Nat) =
      ((first t.counts length + index) / 2 ^ (left + 1) : Nat))
    (pending : Pending d (Bits.ofDigit (left + 1) (first t.counts length + index) ++ rest)) :
    ∃ after, decodeSymbolTurns t turns sum cur len d = .ok (symbol, after) ∧
      Pending after rest := by
  induction left generalizing sum cur len d turns with
  | zero =>
      rw [ofDigit_succ] at pending
      obtain ⟨after, got, pendingAfter⟩ := getbit_pending pending
      obtain ⟨turns, rfl⟩ : ∃ fewer, turns = fewer + 1 := ⟨turns - 1, by omega⟩
      have split := div_two_pow_succ (first t.counts length + index) 0
      have count : fetch t.table (len + 1 : Nat) = .ok (t.counts (len + 1)) :=
        fetch_getD (by omega)
      have doubled : first t.counts (len + 1) = 2 * (first t.counts len + t.counts len) := rfl
      rw [Nat.zero_add] at whole split current
      rw [pow_zero, Nat.div_one] at split got
      rw [whole] at doubled count summed
      refine ⟨after, ?_, pendingAfter⟩
      have below : ¬0 ≤ 2 * cur + (((first t.counts length + index) % 2 == 1).toNat : Nat) -
          (t.counts length : Nat) := by omega
      have place : sum + (t.counts length : Nat) + (2 * cur +
          (((first t.counts length + index) % 2 == 1).toNat : Nat) - (t.counts length : Nat)) =
          (before t.counts length + index : Nat) := by omega
      rw [decodeSymbolTurns, got]
      simp only [Except.bind, whole, count]
      rw [if_neg (by omega), if_neg below, place, fetch_of_getElem? found]
  | succ left ih =>
      rw [ofDigit_succ] at pending
      obtain ⟨middle, got, pendingMiddle⟩ := getbit_pending pending
      obtain ⟨turns, rfl⟩ : ∃ fewer, turns = fewer + 1 := ⟨turns - 1, by omega⟩
      have split := div_two_pow_succ (first t.counts length + index) (left + 1)
      have count : fetch t.table (len + 1 : Nat) = .ok (t.counts (len + 1)) :=
        fetch_getD (by omega)
      have doubled : first t.counts (len + 1) = 2 * (first t.counts len + t.counts len) := rfl
      have beyond : first t.counts (len + 1) + t.counts (len + 1) ≤
          (first t.counts length + index) / 2 ^ (left + 1) := by
        rw [Nat.le_div_iff_mul_le (Nat.two_pow_pos _)]
        have scaled := scaled_le_first t.counts (len + 1) left
        rw [show len + 1 + (left + 1) = length by omega] at scaled
        omega
      have next : before t.counts (len + 1 + 1) =
          before t.counts (len + 1) + t.counts (len + 1) := rfl
      rw [decodeSymbolTurns, got]
      simp only [Except.bind, count]
      rw [if_neg (by omega), if_pos (by omega)]
      exact ih (by omega) (by omega) (by omega) (by omega) pendingMiddle

/-- The canonical code of a place is read as the symbol at the place. -/
theorem decodeSymbol_code {length index symbol : Nat} (sixteen : t.table.length = 16)
    (unused : t.counts 0 = 0) (positive : 0 < length) (short : length < 16)
    (inside : index < t.counts length) (room : first t.counts length + index < 2 ^ length)
    (found : t.trans[before t.counts length + index]? = some symbol)
    (pending : Pending d (Bits.ofDigit length (first t.counts length + index) ++ rest)) :
    ∃ after, decodeSymbol d t = .ok (symbol, after) ∧ Pending after rest := by
  obtain ⟨left, rfl⟩ : ∃ left, length = left + 1 := ⟨length - 1, by omega⟩
  refine decodeSymbolTurns_code sixteen short (Nat.zero_add _) rfl inside found ?_ ?_ pending
  · rw [before, before, unused]
    rfl
  · rw [Nat.div_eq_of_lt room, first, unused]
    rfl

end Symbols

end VaultSeed.Uzlib
