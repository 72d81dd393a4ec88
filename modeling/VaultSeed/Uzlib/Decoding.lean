import VaultSeed.Uzlib.Tokens

/-! # Reading tokens back

Out of the codes of tokens that spell a text, with the static trees and a ring that holds the last
bytes of what was put, `tinf_inflate_block_data` puts the next byte of the text
(`VaultSeed.Uzlib.inflateBlockData_ready`), and at the end of the text it is done
(`VaultSeed.Uzlib.inflateBlockData_done`).
-/

namespace VaultSeed.Uzlib

open Copies LowBits Canonical

section Fixed

variable {d : Source} {lt dt : Tree} {rest : List Bool}

/-- The counts of the lengths of the static codes of literals and lengths. -/
def fixedTable : List Nat := [0, 0, 0, 0, 0, 0, 0, 24, 152, 112]

/-- The symbols of the static codes of literals and lengths. -/
def fixedTrans : List Nat :=
  (List.range 24).map (256 + ·) ++ List.range 144 ++ (List.range 8).map (280 + ·) ++
    (List.range 112).map (144 + ·)

private theorem counts_fixed {length : Nat} (short : length < 10) :
    (buildFixedTrees lt dt).1.counts length = fixedTable.getD length 0 := by
  rw [Tree.counts, List.getD_eq_getElem?_getD, List.getD_eq_getElem?_getD]
  exact congrArg (Option.getD · 0) (List.getElem?_append_left short)

private theorem length_fixedTrans : fixedTrans.length = 288 := by
  decide +kernel

private theorem trans_fixed {place : Nat} (inside : place < 288) :
    (buildFixedTrees lt dt).1.trans[place]? = fixedTrans[place]? := by
  show (fixedTrans ++ lt.trans.drop 288)[place]? = fixedTrans[place]?
  exact List.getElem?_append_left (lt_of_lt_of_eq inside length_fixedTrans.symm)

private theorem fixed_symbols :
    (∀ symbol < 144, fixedTrans[24 + symbol]? = some symbol) ∧
      (∀ symbol < 112, fixedTrans[176 + symbol]? = some (144 + symbol)) ∧
      (∀ symbol < 24, fixedTrans[symbol]? = some (256 + symbol)) ∧
      ∀ symbol < 8, fixedTrans[24 + (144 + symbol)]? = some (280 + symbol) := by
  decide +kernel

private theorem fixed_codes :
    (first (fixedTable.getD · 0) 7 = 0 ∧ before (fixedTable.getD · 0) 7 = 0) ∧
      (first (fixedTable.getD · 0) 8 = 48 ∧ before (fixedTable.getD · 0) 8 = 24) ∧
      first (fixedTable.getD · 0) 9 = 400 ∧ before (fixedTable.getD · 0) 9 = 176 := by
  decide +kernel

private theorem first_fixed (lt dt : Tree) {length : Nat} (short : length ≤ 10) :
    first (buildFixedTrees lt dt).1.counts length = first (fixedTable.getD · 0) length ∧
      before (buildFixedTrees lt dt).1.counts length = before (fixedTable.getD · 0) length :=
  ⟨first_congr fun _ less => counts_fixed (lt_of_lt_of_le less short),
    before_congr fun _ less => counts_fixed (lt_of_lt_of_le less short)⟩

private theorem length_fixed (sixteen : lt.table.length = 16) :
    (buildFixedTrees lt dt).1.table.length = 16 := by
  rw [buildFixedTrees, List.length_append, List.length_drop, sixteen]
  rfl

/-- A code of a length, for the symbol at its place. -/
theorem decodeSymbol_fixed_code {index symbol start place : Nat} (length count : Nat)
    (sixteen : lt.table.length = 16) (positive : 0 < length) (short : length < 10)
    (codes : first (fixedTable.getD · 0) length = start ∧
      before (fixedTable.getD · 0) length = place)
    (counted : fixedTable.getD length 0 = count) (inside : index < count)
    (room : start + index < 2 ^ length) (few : place + index < 288)
    (found : fixedTrans[place + index]? = some symbol)
    (pending : Pending d (Bits.ofDigit length (start + index) ++ rest)) :
    ∃ after, decodeSymbol d (buildFixedTrees lt dt).1 = .ok (symbol, after) ∧
      Pending after rest := by
  obtain ⟨first', before'⟩ := first_fixed lt dt short.le
  rw [codes.1] at first'
  rw [codes.2] at before'
  rw [← first'] at pending room
  refine decodeSymbol_code (length_fixed sixteen) (counts_fixed (by decide)) positive (by omega) ?_
    room ?_ pending
  · rw [counts_fixed short, counted]
    exact inside
  · rw [before', trans_fixed few]
    exact found

/-- The static code of a symbol is read as the symbol. -/
theorem decodeSymbol_fixed (dt : Tree) {symbol : Nat} (sixteen : lt.table.length = 16)
    (small : symbol < 288)
    (pending : Pending d (fixedCode symbol ++ rest)) :
    ∃ after, decodeSymbol d (buildFixedTrees lt dt).1 = .ok (symbol, after) ∧
      Pending after rest := by
  obtain ⟨low', high, lengths, longest⟩ := fixed_symbols
  obtain ⟨seven, eight, nine⟩ := fixed_codes
  rw [fixedCode] at pending
  by_cases first' : symbol ≤ 143
  · rw [if_pos first'] at pending
    exact decodeSymbol_fixed_code 8 152 sixteen (by decide) (by decide) eight rfl
      (by omega) (by omega) (by omega) (low' symbol (by omega)) pending
  · rw [if_neg first'] at pending
    by_cases second : symbol ≤ 255
    · rw [if_pos second] at pending
      have found := high (symbol - 144) (by omega)
      rw [Nat.add_sub_cancel' (by omega)] at found
      exact decodeSymbol_fixed_code 9 112 sixteen (by decide) (by decide) nine rfl
        (by omega) (by omega) (by omega) found pending
    · rw [if_neg second] at pending
      by_cases third : symbol ≤ 279
      · rw [if_pos third] at pending
        have found := lengths (symbol - 256) (by omega)
        rw [Nat.add_sub_cancel' (by omega), ← Nat.zero_add (symbol - 256)] at found
        rw [← Nat.zero_add (symbol - 256)] at pending
        exact decodeSymbol_fixed_code 7 24 sixteen (by decide) (by decide) seven rfl
          (by omega) (by omega) (by omega) found pending
      · rw [if_neg third] at pending
        have found := longest (symbol - 280) (by omega)
        rw [Nat.add_sub_cancel' (by omega)] at found
        have code : 0xc0 + (symbol - 280) = 48 + (144 + (symbol - 280)) := by omega
        rw [code] at pending
        exact decodeSymbol_fixed_code 8 152 sixteen (by decide) (by decide) eight rfl
          (by omega) (by omega) (by omega) found pending

private theorem fixed_distances : ∀ code < 32, (List.range 32)[code]? = some code := by
  decide +kernel

/-- Five bits are read as the code of a distance. -/
theorem decodeSymbol_fixed_distance (lt : Tree) {code : Nat} (sixteen : dt.table.length = 16)
    (small : code < 32) (pending : Pending d (Bits.ofDigit 5 code ++ rest)) :
    ∃ after, decodeSymbol d (buildFixedTrees lt dt).2 = .ok (code, after) ∧
      Pending after rest := by
  have length : (buildFixedTrees lt dt).2.table.length = 16 := by
    rw [buildFixedTrees, List.length_append, List.length_drop, sixteen]
    rfl
  have starts : first (buildFixedTrees lt dt).2.counts 5 = 0 := rfl
  have places : before (buildFixedTrees lt dt).2.counts 5 = 0 := rfl
  have found : (buildFixedTrees lt dt).2.trans[code]? = some code := by
    rw [buildFixedTrees, List.getElem?_append_left (by rw [List.length_range]; exact small)]
    exact fixed_distances code small
  rw [← Nat.zero_add code, ← starts] at pending
  refine decodeSymbol_code length rfl (by decide) (by decide) small ?_ ?_ pending
  · rw [starts, Nat.zero_add]
    exact small
  · rw [places, Nat.zero_add]
    exact found

end Fixed

/-- A byte is put, where its place is in the ring. -/
def Uncomp.putting (d : Uncomp) (c : UInt8) : Uncomp :=
  { d with
    dest := d.dest ++ [c]
    dictRing := d.dictRing.set d.dictIdx c
    dictIdx := if d.dictIdx + 1 = d.dictSize then 0 else d.dictIdx + 1 }

/-- A byte of a copy is put. -/
def Uncomp.copied (d : Uncomp) (src : Source) (c : UInt8) (lzOff : Nat) : Uncomp :=
  { d with
    src := src
    dest := d.dest ++ [c]
    dictRing := d.dictRing.set d.dictIdx c
    dictIdx := if d.dictIdx + 1 = d.dictSize then 0 else d.dictIdx + 1
    lzOff := lzOff
    curlen := d.curlen - 1 }

/-- The ring holds the last bytes of what was put. -/
structure Windowed (window : Nat) (d : Uncomp) (done : List UInt8) : Prop where
  ring : Ring.Remembers d.dictRing done
  length : d.dictRing.length = window
  size : d.dictSize = window
  idx : d.dictIdx = done.length % window

/-- A copy is under way that goes on with some bytes. -/
structure Copying (window : Nat) (d : Uncomp) (done copied : List UInt8) (distance : Nat) :
    Prop where
  positive : 0 < distance
  known : distance ≤ done.length
  inside : distance ≤ window
  lzOff : d.lzOff = (done.length - distance) % window
  repeats : Repeats done copied distance

section Windows

variable {window distance : Nat} {d : Uncomp} {done copied : List UInt8} {c : UInt8}

/-- The place after a place of a ring. -/
theorem next_mod (count : Nat) (positive : 0 < window) :
    (if count % window + 1 = window then 0 else count % window + 1) = (count + 1) % window := by
  have less := Nat.mod_lt count positive
  rw [← Nat.mod_add_mod]
  split
  case isTrue last => rw [last, Nat.mod_self]
  case isFalse inner => rw [Nat.mod_eq_of_lt (show count % window + 1 < window by omega)]

private theorem Windowed.positive (windowed : Windowed window d done) : 0 < window :=
  windowed.length ▸ windowed.ring.positive

private theorem Windowed.put (windowed : Windowed window d done) (c : UInt8) :
    tinfPut d c = .ok (d.putting c) ∧ Windowed window (d.putting c) (done ++ [c]) := by
  have inside : d.dictIdx < d.dictRing.length := by
    rw [windowed.idx, windowed.length]
    exact Nat.mod_lt _ windowed.positive
  constructor
  · rw [tinfPut, store, if_pos inside]
    rfl
  · have pushed := windowed.ring.push c
    rw [windowed.length, ← windowed.idx] at pushed
    refine ⟨pushed, (List.length_set).trans windowed.length, windowed.size, ?_⟩
    show (if d.dictIdx + 1 = d.dictSize then 0 else d.dictIdx + 1) = (done ++ [c]).length % window
    rw [windowed.idx, windowed.size, next_mod _ windowed.positive, List.length_append,
      List.length_singleton]

/-- The next byte of a copy is put. -/
theorem Copying.copyByte (copying : Copying window d done (c :: copied) distance)
    (windowed : Windowed window d done) :
    ∃ lzOff, Uzlib.copyByte d = .ok (.ok, d.copied d.src c lzOff) ∧
      lzOff = (done.length + 1 - distance) % window ∧
      Repeats (done ++ [c]) copied distance := by
  obtain ⟨positive, known, inside, lzOff, repeats⟩ := copying
  obtain ⟨byte, others⟩ := repeats.tail positive
  have old : done.length - distance < done.length := by omega
  have recent := windowed.ring.recent (done.length - distance) old
    (by rw [windowed.length]; omega)
  rw [List.getElem?_append_left old] at byte
  rw [byte, windowed.length, ← lzOff] at recent
  refine ⟨if d.lzOff + 1 = d.dictSize then 0 else d.lzOff + 1, ?_, ?_, others⟩
  · rw [Uzlib.copyByte, fetch_of_getElem? recent]
    simp only [Except.bind]
    rw [(windowed.put c).1]
    rfl
  · rw [lzOff, windowed.size, next_mod _ windowed.positive, Nat.sub_add_comm known]

/-- The place a distance back. -/
theorem sub_mod_window {count offset : Nat} (known : offset ≤ count) (inside : offset ≤ window)
    (positive : 0 < offset) :
    (if offset ≤ count % window then count % window - offset
      else count % window + window - offset) = (count - offset) % window := by
  have less := Nat.mod_lt count (by omega : 0 < window)
  have split := Nat.div_add_mod count window
  split
  case isTrue near =>
    have back : count - offset = window * (count / window) + (count % window - offset) := by omega
    rw [back, Nat.mul_add_mod,
      Nat.mod_eq_of_lt (show count % window - offset < window by omega)]
  case isFalse far =>
    obtain ⟨laps, more⟩ : ∃ laps, count / window = laps + 1 :=
      Nat.exists_eq_succ_of_ne_zero fun zero => by
        rw [zero] at split
        omega
    rw [more, Nat.mul_add, Nat.mul_one] at split
    have back : count - offset = window * laps + (count % window + window - offset) := by omega
    rw [back, Nat.mul_add_mod,
      Nat.mod_eq_of_lt (show count % window + window - offset < window by omega)]

end Windows

/-- The decompressor stands in the last block, of static codes: the ring holds what was put, and the
copy under way and the tokens to be read spell what is left. -/
structure Ready (window : Nat) (d : Uncomp) (done todo : List UInt8) (rest : List Bool) : Prop where
  windowed : Windowed window d done
  btype : d.btype = 1
  bfinal : d.bfinal = 1
  trees : ∃ lt dt : Tree, lt.table.length = 16 ∧ dt.table.length = 16 ∧
    (d.ltree, d.dtree) = buildFixedTrees lt dt
  spelled : ∃ copied data tokens, todo = copied ++ data ∧ d.curlen = copied.length ∧
    Spells (Fits window) (done ++ copied) tokens data ∧
    Pending d.src (tokens.flatMap tokenBits ++ (fixedCode 256 ++ rest)) ∧
    (copied ≠ [] → ∃ distance, Copying window d done copied distance)

section Steps

variable {window distance : Nat} {d : Uncomp} {done todo copied piece data : List UInt8}
  {tokens : List (Token UInt8)} {rest : List Bool} {c : UInt8}

/-- A length and a distance are read, and the first byte of the copy is put. -/
theorem startCopy_ready (windowed : Windowed window d done) (near : window ≤ 32768)
    {lt dt : Tree} (sixteen : dt.table.length = 16) (tree : d.dtree = (buildFixedTrees lt dt).2)
    (positive : 0 < distance) (known : distance ≤ done.length) (inside : distance ≤ window)
    (repeats : Repeats done (c :: copied) distance)
    (pending : Pending d.src (distanceBits distance ++ rest)) :
    ∃ src lzOff, startCopy d = .ok (.ok, d.copied src c lzOff) ∧ Pending src rest ∧
      lzOff = (done.length + 1 - distance) % window ∧
      Repeats (done ++ [c]) copied distance := by
  obtain ⟨least, most, -⟩ := entry_dcode (distance - 1) (by omega)
  have small : dcode (distance - 1) < 30 := dcode_lt (by omega)
  rw [Nat.sub_add_cancel positive] at least most
  rw [distanceBits, List.append_assoc] at pending
  obtain ⟨middle, decoded, pendingMiddle⟩ := decodeSymbol_fixed_distance lt sixteen
    (by omega) pending
  obtain ⟨after, read, pendingAfter⟩ := readBits_pending (entry (dcode (distance - 1))).distBase
    pendingMiddle (by omega)
  rw [Nat.sub_add_cancel least] at read
  have looked : fetch lookupTable (dcode (distance - 1)) = .ok (entry (dcode (distance - 1))) :=
    fetch_of_getElem? (by
      rw [entry, List.getD_eq_getElem?_getD, List.getElem?_eq_getElem (by exact small),
        Option.getD_some])
  have copying : Copying window { d with
      src := after
      lzOff := if distance ≤ d.dictIdx then d.dictIdx - distance
        else d.dictIdx + d.dictSize - distance } done (c :: copied) distance := by
    refine ⟨positive, known, inside, ?_, repeats⟩
    show (if distance ≤ d.dictIdx then d.dictIdx - distance
        else d.dictIdx + d.dictSize - distance) = _
    rw [windowed.idx, windowed.size, sub_mod_window known inside positive]
  obtain ⟨lzOff, copies, place, others⟩ := copying.copyByte
    ⟨windowed.ring, windowed.length, windowed.size, windowed.idx⟩
  refine ⟨after, lzOff, ?_, pendingAfter, place, others⟩
  rw [← tree] at decoded
  rw [startCopy, decoded]
  simp only [Except.bind]
  rw [if_neg (by omega), looked]
  simp only
  rw [read]
  simp only
  rw [if_neg (by rw [windowed.size]; omega)]
  exact copies

/-- A step puts the next byte of what is left. -/
theorem inflateBlockData_ready (near : window ≤ 32768)
    (ready : Ready window d done (c :: todo) rest) :
    ∃ after, inflateBlockData d = .ok (.ok, after) ∧ Ready window after (done ++ [c]) todo rest ∧
      after.dest = d.dest ++ [c] ∧ after.checksum = d.checksum ∧
      after.checksumType = d.checksumType := by
  obtain ⟨windowed, btype, bfinal, ⟨lt, dt, sixteen, sixteenDistance, trees⟩,
    copied, data, tokens, split, curlen, spells, pending, copying⟩ := ready
  have literals : d.ltree = (buildFixedTrees lt dt).1 := congrArg Prod.fst trees
  have distances : d.dtree = (buildFixedTrees lt dt).2 := congrArg Prod.snd trees
  rw [inflateBlockData]
  cases copied with
  | cons first copied =>
      rw [List.cons_append] at split
      obtain ⟨rfl, rfl⟩ := List.cons.inj split
      obtain ⟨distance, under⟩ := copying (List.cons_ne_nil _ _)
      obtain ⟨lzOff, copies, place, others⟩ := under.copyByte windowed
      rw [List.length_cons] at curlen
      rw [if_neg (by omega)]
      obtain ⟨-, pushed⟩ := windowed.put c
      refine ⟨_, copies, ⟨⟨pushed.ring, pushed.length, pushed.size, pushed.idx⟩, btype, bfinal,
        ⟨lt, dt, sixteen, sixteenDistance,
        trees⟩, copied, data, tokens, rfl, ?_, ?_, pending, fun _ => ⟨distance, ?_⟩⟩, rfl, rfl,
        rfl⟩
      · show d.curlen - 1 = copied.length
        omega
      · rwa [List.append_assoc, List.singleton_append]
      · exact ⟨under.positive, by
          rw [List.length_append]
          exact under.known.trans (Nat.le_add_right _ _), under.inside, by
          rw [List.length_append]
          exact place, others⟩
  | nil =>
      rw [List.nil_append] at split
      rw [List.append_nil] at spells
      rw [if_pos (show d.curlen = 0 from curlen)]
      cases spells with
      | nil => cases split
      | @literal _ data tokens element spells =>
          obtain ⟨rfl, rfl⟩ := List.cons.inj split
          rw [List.flatMap_cons, tokenBits, List.append_assoc] at pending
          have byte : c.toNat < 256 := c.toNat_lt
          obtain ⟨after, decoded, pendingAfter⟩ := decodeSymbol_fixed dt sixteen
            (by omega) pending
          have put := Windowed.put (d := { d with src := after })
            ⟨windowed.ring, windowed.length, windowed.size, windowed.idx⟩ c
          have char : UInt8.ofInt (c.toNat : Int) = c := by
            have digit : ((c.toNat : Int) % 2 ^ 8).toNat = c.toNat := by omega
            rw [UInt8.ofInt, digit, UInt8.ofNat_toNat]
          refine ⟨_, ?_, ⟨put.2, btype, bfinal, ⟨lt, dt, sixteen, sixteenDistance, trees⟩, [], todo,
            tokens, rfl, curlen, ?_, pendingAfter, fun none => absurd rfl none⟩, rfl, rfl, rfl⟩
          · rw [← literals] at decoded
            rw [decoded]
            simp only [Except.bind]
            rw [if_pos (by omega), char, put.1]
          · rwa [List.append_nil]
      | @copy _ piece data tokens distance positive known fit repeats spells =>
          obtain ⟨inside, least, most⟩ := fit
          cases piece with
          | nil => exact absurd least (by decide)
          | cons first piece =>
              rw [List.cons_append] at split
              obtain ⟨rfl, rfl⟩ := List.cons.inj split
              have short : (c :: piece).length - 3 < 256 := by omega
              have code := lcode_le _ short
              obtain ⟨low', high, -⟩ := entry_lcode _ short
              rw [Nat.sub_add_cancel least] at low' high
              rw [List.flatMap_cons, tokenBits, lengthBits, List.append_assoc, List.append_assoc,
                List.append_assoc] at pending
              obtain ⟨first', decoded, pendingFirst⟩ := decodeSymbol_fixed dt sixteen
                (by omega) pending
              obtain ⟨second, read, pendingSecond⟩ := readBits_pending
                (entry (lcode ((c :: piece).length - 3))).lengthBase pendingFirst (by omega)
              rw [Nat.sub_add_cancel low'] at read
              obtain ⟨src, lzOff, started, pendingSrc, place, others⟩ := startCopy_ready
                (d := { d with src := second, curlen := (c :: piece).length })
                ⟨windowed.ring, windowed.length, windowed.size, windowed.idx⟩ near sixteenDistance
                distances positive known inside repeats pendingSecond
              have looked : fetch lookupTable
                  (((257 + lcode ((c :: piece).length - 3) : Nat) : Int) - 257) =
                  .ok (entry (lcode ((c :: piece).length - 3))) := by
                rw [Nat.cast_add, Nat.cast_ofNat, add_sub_cancel_left]
                refine fetch_of_getElem? ?_
                rw [entry, List.getD_eq_getElem?_getD, List.getElem?_eq_getElem
                  (show lcode ((c :: piece).length - 3) < 30 by omega), Option.getD_some]
              obtain ⟨-, pushed⟩ := windowed.put c
              refine ⟨({ d with src := second, curlen := (c :: piece).length } : Uncomp).copied src
                c lzOff, ?_, ⟨⟨pushed.ring, pushed.length, pushed.size, pushed.idx⟩, btype, bfinal,
                ⟨lt, dt, sixteen, sixteenDistance, trees⟩, piece, data, tokens, rfl, rfl, ?_,
                pendingSrc, fun _ => ⟨distance, positive, ?_, inside, ?_, others⟩⟩, rfl, rfl, rfl⟩
              · rw [← literals] at decoded
                rw [decoded]
                simp only [Except.bind]
                rw [if_neg (by omega), if_neg (by omega), if_neg (by omega), looked]
                simp only
                rw [read]
                exact started
              · rwa [List.append_assoc, List.singleton_append]
              · rw [List.length_append]
                exact known.trans (Nat.le_add_right _ _)
              · rw [List.length_append]
                exact place

/-- After the last byte comes the end of the block. -/
theorem inflateBlockData_done (ready : Ready window d done [] rest) :
    ∃ src, inflateBlockData d = .ok (.done, { d with src := src }) ∧ Pending src rest := by
  obtain ⟨windowed, btype, bfinal, ⟨lt, dt, sixteen, sixteenDistance, trees⟩,
    copied, data, tokens, split, curlen, spells, pending, -⟩ := ready
  have literals : d.ltree = (buildFixedTrees lt dt).1 := congrArg Prod.fst trees
  obtain ⟨rfl, rfl⟩ := List.append_eq_nil_iff.mp split.symm
  have last : tokens = [] := by
    generalize empty : ([] : List UInt8) = text at spells
    cases spells with
    | nil => rfl
    | literal => cases empty
    | copy positive known fit repeats spells =>
        obtain ⟨rfl, -⟩ := List.append_eq_nil_iff.mp empty.symm
        exact absurd fit.2.1 (by decide)
  rw [last, List.flatMap_nil, List.nil_append] at pending
  obtain ⟨src, decoded, pendingSrc⟩ := decodeSymbol_fixed dt sixteen (by decide) pending
  refine ⟨src, ?_, pendingSrc⟩
  rw [← literals] at decoded
  rw [inflateBlockData, if_pos (show d.curlen = 0 from curlen), decoded]
  rfl

end Steps

end VaultSeed.Uzlib
