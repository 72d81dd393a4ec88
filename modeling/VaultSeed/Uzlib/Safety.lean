import VaultSeed.Uzlib.Codes
import VaultSeed.Uzlib.RoundTrip
import Mathlib.Logic.Relation

/-! # No access outside of the arrays

Whatever the stream is, reading it back stays inside of the window, of the trees, of the array of
code lengths and of the tables (`VaultSeed.Uzlib.decompress_bounded`): a state that the calls leave
behind keeps the window and the trees sound (`VaultSeed.Uzlib.Uncomp.Sound`), the code lengths of a
block are stored inside of their array, and with a sound tree `tinf_decode_symbol` finds a symbol or
tells that there is none (`VaultSeed.Uzlib.bounded_decodeSymbol`). For a distance nobody asks
whether there is none, and there are streams where there is none
(`VaultSeed.Uzlib.decompress_wild`). -/

namespace VaultSeed.Uzlib

open Canonical

/-- A call touches nothing outside of its arrays, and what it returns is good. -/
def Bounded {α : Type} (good : α → Prop) : Except Fault α → Prop
  | .ok made => good made
  | .error fault => fault ≠ .wild

/-- A tree has the arrays of `TINF_TREE`. -/
structure Tree.Sized (t : Tree) : Prop where
  table : t.table.length = 16
  trans : t.trans.length = 288

/-- A tree whose places, up to a length that no code exceeds, hold symbols. -/
structure Tree.Sound (t : Tree) (symbols : Nat) : Prop extends t.Sized where
  unused : t.counts 0 = 0
  ends : ∃ longest < 16,
    (∀ index < before t.counts (longest + 1), ∃ symbol < symbols, t.trans[index]? = some symbol) ∧
      (longest = 15 ∨ 2 ^ longest ≤ first t.counts longest + t.counts longest)

section Calls

variable {α β : Type} {good : α → Prop} {after : β → Prop} {call : Except Fault α}

private theorem Bounded.bind {next : α → Except Fault β} (bounded : Bounded good call)
    (rest : ∀ made, good made → Bounded after (next made)) : Bounded after (call.bind next) := by
  cases call with
  | error fault => exact bounded
  | ok made => exact rest made bounded

private theorem Bounded.mono {weaker : α → Prop} (bounded : Bounded good call)
    (weaken : ∀ made, good made → weaker made) : Bounded weaker call := by
  cases call with
  | error fault => exact bounded
  | ok made => exact weaken made bounded

private theorem Bounded.ne_wild (bounded : Bounded good call) : call ≠ .error .wild := by
  rintro rfl
  exact bounded rfl

private theorem bounded_fetch {array : List α} {index : Int} (least : 0 ≤ index)
    (inside : index < array.length) (found : ∀ element ∈ array, good element) :
    Bounded good (fetch array index) := by
  obtain ⟨place, rfl⟩ := Int.eq_ofNat_of_zero_le least
  have less : place < array.length := Int.ofNat_lt.mp inside
  rw [fetch_of_getElem? (List.getElem?_eq_getElem less)]
  exact found _ (List.getElem_mem less)

private theorem bounded_fetch_inside {array : List α} {index : Int} (least : 0 ≤ index)
    (inside : index < array.length) : Bounded (fun _ => True) (fetch array index) :=
  bounded_fetch least inside fun _ _ => trivial

private theorem bounded_getByte (d : Source) : Bounded (fun _ => True) (getByte d) := by
  rw [getByte]
  split
  · exact Fault.noConfusion
  · trivial

private theorem bounded_getbit (d : Source) : Bounded (fun got => got.1 < 2) (getbit d) := by
  rw [getbit]
  split
  · refine (bounded_getByte d).bind fun got _ => ?_
    exact lt_of_le_of_lt Nat.and_le_right (Nat.lt_succ_self 1)
  · exact lt_of_le_of_lt Nat.and_le_right (Nat.lt_succ_self 1)

private theorem bounded_readBitsTurns (num mask val : Nat) (d : Source) :
    Bounded (fun got => got.1 + mask ≤ val + mask * 2 ^ num) (readBitsTurns num mask val d) := by
  induction num generalizing mask val d with
  | zero => exact Nat.le_of_eq (by rw [pow_zero, Nat.mul_one])
  | succ num ih =>
      refine (bounded_getbit d).bind fun got _ => ?_
      refine (ih (mask * 2) _ got.2).mono fun made less => ?_
      have doubled : mask * 2 * 2 ^ num = mask * 2 ^ (num + 1) := by ring
      rw [doubled] at less
      split at less <;> omega

/-- The value of bits. -/
theorem bounded_readBits (d : Source) (num base : Nat) :
    Bounded (fun got => base ≤ got.1 ∧ got.1 < 2 ^ num + base) (readBits d num base) := by
  refine (bounded_readBitsTurns num 1 0 d).bind fun got less => ?_
  constructor
  · exact Nat.le_add_left _ _
  · show got.1 + base < 2 ^ num + base
    omega

end Calls

section Symbols

variable {t : Tree} {symbols : Nat}

/-- The loop has read `len` bits, and what was read lies beyond all codes that are as long: places
are asked for up to the longest length alone. -/
theorem bounded_decodeSymbolTurns {turns len longest : Nat} {sum cur : Int} (d : Source)
    (table : t.table.length = 16) (most : longest < 16)
    (filled : ∀ index < before t.counts (longest + 1),
      ∃ symbol < symbols, t.trans[index]? = some symbol)
    (complete : longest = 15 ∨ 2 ^ longest ≤ first t.counts longest + t.counts longest)
    (enough : turns + len = 16) (shorter : len < longest ∨ len = 15)
    (summed : sum = (before t.counts (len + 1) : Nat)) (least : 0 ≤ cur)
    (current : cur + (first t.counts len + t.counts len : Nat) < (2 ^ len : Nat)) :
    Bounded (fun got => got.1 = uzlibDataError ∨ 0 ≤ got.1 ∧ got.1 < (symbols : Int))
      (decodeSymbolTurns t turns sum cur len d) := by
  induction turns generalizing sum cur len d with
  | zero => exact .inl rfl
  | succ turns ih =>
      rw [decodeSymbolTurns]
      refine (bounded_getbit d).bind fun got small => ?_
      by_cases last : len + 1 = 16
      · simp only [last, if_true]
        exact .inl rfl
      · have count : fetch t.table (len + 1 : Nat) = .ok (t.counts (len + 1)) :=
          fetch_getD (by omega)
        have doubled : first t.counts (len + 1) = 2 * (first t.counts len + t.counts len) := rfl
        have next : before t.counts (len + 1 + 1) =
            before t.counts (len + 1) + t.counts (len + 1) := rfl
        have power : 2 ^ (len + 1) = 2 * 2 ^ len := by rw [pow_succ, Nat.mul_comm]
        simp only [if_neg last, count, Except.bind]
        by_cases more : 0 ≤ 2 * cur + (got.1 : Int) - (t.counts (len + 1) : Int)
        · rw [if_pos more]
          have going : len + 1 < longest ∨ len + 1 = 15 := by
            rcases complete with all | whole
            · omega
            · by_cases ending : len + 1 = longest
              · rw [← ending] at whole
                omega
              · omega
          exact ih got.2 (by omega) going (by omega) more (by omega)
        · rw [if_neg more]
          obtain ⟨place, placed⟩ := Int.eq_ofNat_of_zero_le
            (show 0 ≤ sum + (t.counts (len + 1) : Int) +
              (2 * cur + (got.1 : Int) - (t.counts (len + 1) : Int)) by omega)
          have within : place < before t.counts (longest + 1) := by
            have mono : before t.counts (len + 1 + 1) ≤ before t.counts (longest + 1) :=
              before_mono (by omega)
            omega
          obtain ⟨symbol, less, found⟩ := filled place within
          rw [placed]
          simp only [fetch_of_getElem? found]
          exact .inr ⟨Int.natCast_nonneg _, Int.ofNat_lt.mpr less⟩

/-- With a sound tree a symbol is found, or it is told that there is none. -/
theorem bounded_decodeSymbol (sound : t.Sound symbols) (d : Source) :
    Bounded (fun got => got.1 = uzlibDataError ∨ 0 ≤ got.1 ∧ got.1 < (symbols : Int))
      (decodeSymbol d t) := by
  obtain ⟨longest, most, filled, complete⟩ := sound.ends
  have positive : 0 < longest := by
    rcases complete with rfl | whole
    · decide
    · by_contra none
      obtain rfl : longest = 0 := by omega
      rw [first, sound.unused] at whole
      omega
  refine bounded_decodeSymbolTurns d sound.table most filled complete rfl (.inl positive) ?_
    (le_refl _) ?_
  · rw [before, before, sound.unused]
    rfl
  · rw [first, sound.unused]
    decide

private theorem Tree.Sound.mono {more : Nat} (sound : t.Sound symbols) (order : symbols ≤ more) :
    t.Sound more := by
  obtain ⟨sized, unused, longest, most, filled, complete⟩ := sound
  refine ⟨sized, unused, longest, most, fun index less => ?_, complete⟩
  obtain ⟨symbol, small, found⟩ := filled index less
  exact ⟨symbol, lt_of_lt_of_le small order, found⟩

/-- The tree of any lengths is sound. -/
theorem bounded_buildTree {lengths : List Nat} (sized : t.Sized) (few : lengths.length ≤ 288)
    (short : ∀ length ∈ lengths, length < 16) :
    Bounded (fun tree => tree.Sound lengths.length) (buildTree t lengths) := by
  obtain ⟨tree, built, table, trans, counts, placed⟩ := buildTree_eq sized.trans few short
  rw [built]
  refine ⟨⟨table, trans⟩, counts 0, 15, by decide, fun index less => ?_, .inl rfl⟩
  rw [before_congr fun length _ => counts length] at less
  obtain ⟨symbol, inside, coded, found⟩ := exists_place less
  exact ⟨symbol, inside, found ▸ placed symbol inside coded⟩

/-- The fixed tree has a symbol in every place. -/
theorem exists_fixed {index : Nat} (few : index < 288) : ∃ symbol < 288,
    ((List.range 24).map (256 + ·) ++ List.range 144 ++ (List.range 8).map (280 + ·) ++
      (List.range 112).map (144 + ·))[index]? = some symbol := by
  have inside : index < ((List.range 24).map (256 + ·) ++ List.range 144 ++
      (List.range 8).map (280 + ·) ++ (List.range 112).map (144 + ·)).length := by
    simpa using few
  refine ⟨_, ?_, List.getElem?_eq_getElem inside⟩
  have member := List.getElem_mem inside
  simp only [List.mem_append, List.mem_map, List.mem_range] at member
  rcases member with ((⟨code, small, same⟩ | small) | ⟨code, small, same⟩) | ⟨code, small, same⟩
  all_goals omega

/-- The fixed trees are sound, whatever counts of longer codes `tinf_build_fixed_trees` leaves. -/
theorem buildFixedTrees_sound {lt dt : Tree} (ltSized : lt.Sized) (dtSized : dt.Sized) :
    (buildFixedTrees lt dt).1.Sound 288 ∧ (buildFixedTrees lt dt).2.Sound 32 := by
  constructor
  · refine ⟨⟨?_, ?_⟩, rfl, 9, by decide, ?_, .inr (Nat.le_of_eq rfl)⟩
    · simp [buildFixedTrees, ltSized.table]
    · simp [buildFixedTrees, ltSized.trans]
    · intro index less
      have few : index < 288 := less
      rw [buildFixedTrees, List.drop_eq_nil_of_le (Nat.le_of_eq ltSized.trans), List.append_nil]
      exact exists_fixed few
  · refine ⟨⟨?_, ?_⟩, rfl, 5, by decide, ?_, .inr (Nat.le_of_eq rfl)⟩
    · simp [buildFixedTrees, dtSized.table]
    · simp [buildFixedTrees, dtSized.trans]
    · intro index less
      have few : index < 32 := less
      refine ⟨index, few, ?_⟩
      rw [buildFixedTrees, List.getElem?_append_left (by rwa [List.length_range]),
        List.getElem?_range few]

end Symbols

section Blocks

/-- The window and the places in it, and the arrays of the trees. -/
structure Uncomp.Held (d : Uncomp) : Prop where
  ring : d.dictRing.length = d.dictSize
  idx : d.dictIdx < d.dictSize
  off : d.lzOff < d.dictSize
  ltree : d.ltree.Sized
  dtree : d.dtree.Sized

/-- What every call keeps to: the trees of a compressed block are those of codes. -/
structure Uncomp.Sound (d : Uncomp) : Prop extends d.Held where
  trees : d.btype = 1 ∨ d.btype = 2 → d.ltree.Sound 288 ∧ d.dtree.Sound 32

/-- The distance of the copy that is next is no code: `lookup_table` is read before its start. -/
def Uncomp.Overruns (d : Uncomp) : Prop :=
  (d.btype = 1 ∨ d.btype = 2) ∧ d.curlen = 0 ∧ ∃ sym entry curlen dist,
    decodeSymbol d.src d.ltree = .ok sym ∧ 257 ≤ sym.1 ∧ sym.1 < 286 ∧
      fetch lookupTable (sym.1 - 257) = .ok entry ∧
      readBits sym.2 entry.lengthBits entry.lengthBase = .ok curlen ∧
      decodeSymbol curlen.2 d.dtree = .ok (uzlibDataError, dist)

variable {d : Uncomp}

private theorem Uncomp.Sound.same {made : Uncomp} (sound : d.Sound)
    (same : made = { d with
      src := made.src
      dest := made.dest
      checksum := made.checksum
      curlen := made.curlen
      bfinal := made.bfinal }) : made.Sound := by
  rw [same]
  exact ⟨⟨sound.ring, sound.idx, sound.off, sound.ltree, sound.dtree⟩, sound.trees⟩

/-- What a call that goes on leaves behind. -/
def Goes (made : Status × Uncomp) : Prop := made.1.failed = true ∨ made.2.Sound

private theorem bounded_tinfPut (sound : d.Sound) (c : UInt8) :
    Bounded Uncomp.Sound (tinfPut d c) := by
  have inside : d.dictIdx < d.dictRing.length := sound.ring ▸ sound.idx
  rw [tinfPut, store_of_lt inside]
  refine ⟨⟨(List.length_set).trans sound.ring, ?_, sound.off, sound.ltree, sound.dtree⟩,
    sound.trees⟩
  show (if d.dictIdx + 1 = d.dictSize then 0 else d.dictIdx + 1) < d.dictSize
  have less := sound.idx
  split <;> omega

private theorem bounded_copyByte (sound : d.Sound) : Bounded Goes (copyByte d) := by
  rw [copyByte]
  refine (bounded_fetch_inside (Int.natCast_nonneg _) ?_).bind fun c _ => ?_
  · exact Int.ofNat_lt.mpr (sound.ring ▸ sound.off)
  · refine (bounded_tinfPut sound c).bind fun made kept => .inr ?_
    refine ⟨⟨kept.ring, kept.idx, ?_, kept.ltree, kept.dtree⟩, kept.trees⟩
    show (if made.lzOff + 1 = made.dictSize then 0 else made.lzOff + 1) < made.dictSize
    have less := kept.off
    split <;> omega

/-- A copy starts inside of the window, unless its distance is no code. -/
theorem bounded_startCopy (sound : d.Sound) (tree : d.dtree.Sound 32)
    (coded : ∀ dist, decodeSymbol d.src d.dtree ≠ .ok (uzlibDataError, dist)) :
    Bounded Goes (startCopy d) := by
  have decoded := bounded_decodeSymbol tree d.src
  rw [startCopy]
  cases ran : decodeSymbol d.src d.dtree with
  | error fault =>
      rw [ran] at decoded
      exact decoded
  | ok dist =>
      obtain ⟨dist, after⟩ := dist
      rw [ran] at decoded
      have least : 0 ≤ dist := by
        rcases decoded with none | some
        · exact absurd (none ▸ ran) (coded after)
        · exact some.1
      simp only [Except.bind]
      by_cases large : 30 ≤ dist
      · rw [if_pos large]
        exact .inl rfl
      · rw [if_neg large]
        refine (bounded_fetch_inside least ?_).bind fun entry _ => ?_
        · show dist < 30
          omega
        · refine (bounded_readBits after entry.distBits entry.distBase).bind fun offs _ => ?_
          by_cases far : d.dictSize < offs.1
          · rw [if_pos far]
            exact .inl rfl
          · rw [if_neg far]
            refine bounded_copyByte ⟨⟨sound.ring, sound.idx, ?_, sound.ltree, sound.dtree⟩,
              sound.trees⟩
            show (if offs.1 ≤ d.dictIdx then d.dictIdx - offs.1
              else d.dictIdx + d.dictSize - offs.1) < d.dictSize
            have less := sound.idx
            split <;> omega

private theorem bounded_inflateBlockData (sound : d.Sound) (coded : d.btype = 1 ∨ d.btype = 2)
    (stays : ¬d.Overruns) : Bounded Goes (inflateBlockData d) := by
  obtain ⟨ltree, dtree⟩ := sound.trees coded
  rw [inflateBlockData]
  by_cases fresh : d.curlen = 0
  · rw [if_pos fresh]
    have decoded := bounded_decodeSymbol ltree d.src
    cases ran : decodeSymbol d.src d.ltree with
    | error fault =>
        rw [ran] at decoded
        exact decoded
    | ok sym =>
        simp only [Except.bind]
        by_cases literal : sym.1 < 256
        · rw [if_pos literal]
          have kept : Uncomp.Sound { d with src := sym.2 } := sound.same rfl
          exact (bounded_tinfPut kept _).bind fun made going => .inr going
        · rw [if_neg literal]
          by_cases ends : sym.1 = 256
          · rw [if_pos ends]
            exact .inr (sound.same rfl)
          · rw [if_neg ends]
            by_cases large : 29 ≤ sym.1 - 257
            · rw [if_pos large]
              exact .inl rfl
            · rw [if_neg large]
              obtain ⟨place, placed⟩ := Int.eq_ofNat_of_zero_le
                (show 0 ≤ sym.1 - 257 by omega)
              have inside : place < lookupTable.length := by
                show place < 30
                omega
              have found : fetch lookupTable (sym.1 - 257) = .ok (lookupTable[place]) := by
                rw [placed]
                exact fetch_of_getElem? (List.getElem?_eq_getElem inside)
              rw [found]
              simp only
              have value := bounded_readBits sym.2 lookupTable[place].lengthBits
                lookupTable[place].lengthBase
              cases length : readBits sym.2 lookupTable[place].lengthBits
                  lookupTable[place].lengthBase with
              | error fault =>
                  rw [length] at value
                  exact value
              | ok curlen =>
                  exact bounded_startCopy (d := { d with src := curlen.2, curlen := curlen.1 })
                    (sound.same rfl) dtree
                    fun dist none => stays ⟨coded, fresh, sym, _, curlen, dist, ran, by omega,
                      by omega, found, length, none⟩
  · rw [if_neg fresh]
    exact bounded_copyByte sound

private theorem bounded_storedByte (sound : d.Sound) : Bounded Goes (storedByte d) := by
  rw [storedByte]
  split
  · exact .inr (sound.same rfl)
  · refine (bounded_getByte d.src).bind fun c _ => ?_
    have kept : Uncomp.Sound { d with src := c.2, curlen := d.curlen - 1 } := sound.same rfl
    exact (bounded_tinfPut kept c.1).bind fun made going => .inr going

private theorem bounded_inflateUncompressedBlock (sound : d.Sound) :
    Bounded Goes (inflateUncompressedBlock d) := by
  rw [inflateUncompressedBlock]
  split
  · refine (bounded_getByte _).bind fun low _ => (bounded_getByte _).bind fun high _ =>
      (bounded_getByte _).bind fun invlow _ => (bounded_getByte _).bind fun invhigh _ => ?_
    show Bounded Goes (if _ then _ else _)
    split
    · exact .inl rfl
    · exact bounded_storedByte (sound.same rfl)
  · exact bounded_storedByte sound

/-- Where the distance is no code, the table is read before its start. -/
theorem processBlock_of_overruns (overruns : d.Overruns) : processBlock d = .error .wild := by
  obtain ⟨coded, fresh, sym, entry, curlen, dist, symbol, least, most, found, length, none⟩ :=
    overruns
  have unstored : d.btype ≠ 0 := by omega
  rw [processBlock, if_neg unstored, if_pos coded, inflateBlockData, if_pos fresh, symbol]
  simp only [Except.bind]
  rw [if_neg (by omega), if_neg (by omega), if_neg (by omega), found]
  simp only
  rw [length]
  simp only
  rw [startCopy, none]
  rfl

/-- A block is read inside of the arrays, unless a distance is no code. -/
theorem bounded_processBlock (sound : d.Sound) (stays : ¬d.Overruns) :
    Bounded Goes (processBlock d) := by
  rw [processBlock]
  split
  · exact bounded_inflateUncompressedBlock sound
  · split
    · exact bounded_inflateBlockData sound ‹_› stays
    · exact .inl rfl

/-- **A block reads outside of its arrays exactly** where a length is followed by bits that are no
distance. -/
theorem processBlock_wild_iff (sound : d.Sound) :
    processBlock d = .error .wild ↔ d.Overruns :=
  ⟨fun wild => not_not.mp fun stays => (bounded_processBlock sound stays).ne_wild wild,
    processBlock_of_overruns⟩

end Blocks

section Headers

/-- The array of the code lengths. -/
structure Lengths (lengths : List Nat) : Prop where
  length : lengths.length = 288 + 32
  short : ∀ length ∈ lengths, length < 16

variable {lengths : List Nat}

private theorem lengths_newLengths : Lengths newLengths where
  length := List.length_replicate
  short length member := by
    rw [List.eq_of_mem_replicate member]
    decide

private theorem Lengths.bounded_store (held : Lengths lengths) {index length : Nat}
    (inside : index < 288 + 32) (short : length < 16) :
    Bounded Lengths (store lengths index length) := by
  rw [store_of_lt (held.length ▸ inside)]
  refine ⟨List.length_set.trans held.length, fun other member => ?_⟩
  rcases List.mem_or_eq_of_mem_set member with old | rfl
  · exact held.short other old
  · exact short

private theorem bounded_lengthsFrom (held : Lengths lengths) {start num : Nat}
    (inside : start + num ≤ 288 + 32) :
    Bounded (fun part => part.length = num ∧ ∀ length ∈ part, length < 16)
      (lengthsFrom lengths start num) := by
  rw [lengthsFrom, if_pos (held.length ▸ inside)]
  refine ⟨?_, fun length member => held.short length (List.mem_of_mem_drop
    (List.mem_of_mem_take member))⟩
  rw [List.length_take, List.length_drop, held.length]
  omega

private theorem bounded_readCodeLengths {turns i : Nat} (held : Lengths lengths) (src : Source)
    (few : turns + i ≤ 19) :
    Bounded (fun codes => Lengths codes.1) (readCodeLengths turns i lengths src) := by
  induction turns generalizing i lengths src with
  | zero => exact held
  | succ turns ih =>
      have inside : i < clcidx.length := by
        show i < 19
        omega
      refine (bounded_readBits src 3 0).bind fun clen small => ?_
      refine (bounded_fetch (Int.natCast_nonneg _) (Int.ofNat_lt.mpr inside)
        (by decide : ∀ place ∈ clcidx, place < 19)).bind fun place less => ?_
      exact (held.bounded_store (by omega) (by omega)).bind fun after kept =>
        ih kept clen.2 (by omega)

private theorem bounded_fillLengths {length num fillValue : Nat} (held : Lengths lengths)
    (inside : num + length ≤ 288 + 32) (short : fillValue < 16) :
    Bounded Lengths (fillLengths length num fillValue lengths) := by
  induction length generalizing num lengths with
  | zero => exact held
  | succ length ih =>
      exact (held.bounded_store (by omega) short).bind fun after kept => ih kept (by omega)

/-- No length is filled in behind the limit, which is not behind the end of the array. -/
theorem bounded_readLengthsTurns {lt : Tree} {hlimit fuel num : Nat} (sound : lt.Sound 19)
    (src : Source) (limit : hlimit ≤ 288 + 32) (most : num ≤ hlimit) (held : Lengths lengths) :
    Bounded (fun made => ∀ filled ∈ made.1, Lengths filled)
      (readLengthsTurns lt hlimit fuel num lengths src) := by
  have none : ∀ filled ∈ (none : Option (List Nat)), Lengths filled :=
    fun _ absent => absurd absent.symm (Option.some_ne_none _)
  induction fuel generalizing num lengths src with
  | zero =>
      rintro filled ⟨⟩
      exact held
  | succ fuel ih =>
      rw [readLengthsTurns]
      split
      · rename_i fewer
        refine (bounded_decodeSymbol sound src).bind fun sym decoded => ?_
        by_cases error : sym.1 < 0
        · rw [if_pos error]
          exact none
        · rw [if_neg error]
          have small : sym.1 < 19 := by
            rcases decoded with absent | some
            · rw [absent] at error
              exact absurd (by decide) error
            · exact some.2
          by_cases repeats : sym.1 = 16 ∨ sym.1 = 17 ∨ sym.1 = 18
          · rw [if_pos repeats]
            by_cases empty : sym.1 = 16 ∧ num = 0
            · rw [if_pos empty]
              exact none
            · rw [if_neg empty]
              have fill : Bounded (fun fillValue => fillValue < 16)
                  (if sym.1 = 16 then fetch lengths (num - 1 : Nat) else .ok 0) := by
                split
                · refine bounded_fetch (Int.natCast_nonneg _) ?_ held.short
                  rw [held.length]
                  omega
                · exact (by decide : 0 < 16)
              refine fill.bind fun fillValue less => ?_
              refine (bounded_readBits _ _ _).bind fun length _ => ?_
              by_cases full : hlimit < num + length.1
              · rw [if_pos full]
                exact none
              · rw [if_neg full]
                exact (bounded_fillLengths held (by omega) less).bind fun after kept =>
                  ih length.2 (by omega) kept
          · rw [if_neg repeats]
            exact (held.bounded_store (by omega) (by omega)).bind fun after kept =>
              ih sym.2 (by omega) kept
      · rintro filled ⟨⟩
        exact held

variable {d : Uncomp}

/-- The trees of a block are made inside of their arrays, whatever they were before. -/
theorem bounded_decodeTrees (held : d.Held) : Bounded Goes (decodeTrees d) := by
  rw [decodeTrees]
  refine (bounded_readBits _ 5 257).bind fun hlit litSize => (bounded_readBits _ 5 1).bind
    fun hdist distSize => (bounded_readBits _ 4 4).bind fun hclen clenSize => ?_
  refine (bounded_readCodeLengths lengths_newLengths hclen.2 (by omega)).bind fun codes kept => ?_
  refine (bounded_lengthsFrom kept (by decide)).bind fun codeLengths coded => ?_
  refine (bounded_buildTree held.ltree (by omega) coded.2).bind fun lt ltSound => ?_
  rw [coded.1] at ltSound
  refine (bounded_readLengthsTurns ltSound codes.2 (by omega) (Nat.zero_le _) kept).bind
    fun lengths filled => ?_
  split
  · exact .inl rfl
  · rename_i all found
    refine (bounded_lengthsFrom (filled all found) (by omega)).bind fun literals lit => ?_
    refine (bounded_buildTree ltSound.toSized (by omega) lit.2).bind fun lt' ltSound' => ?_
    refine (bounded_lengthsFrom (filled all found) (by omega)).bind fun distances dist => ?_
    refine (bounded_buildTree held.dtree (by omega) dist.2).bind fun dt dtSound => .inr ?_
    rw [lit.1] at ltSound'
    rw [dist.1] at dtSound
    exact ⟨⟨held.ring, held.idx, held.off, ltSound'.toSized, dtSound.toSized⟩,
      fun _ => ⟨ltSound'.mono (by omega), dtSound.mono (by omega)⟩⟩

private theorem bounded_nextBlk (sound : d.Sound) : Bounded Goes (nextBlk d) := by
  rw [nextBlk]
  refine (bounded_getbit d.src).bind fun bfinal _ => (bounded_readBits _ 2 0).bind
    fun btype _ => ?_
  show Bounded Goes (if _ then _ else _)
  split
  · obtain ⟨lt, dt⟩ := buildFixedTrees_sound sound.ltree sound.dtree
    exact .inr ⟨⟨sound.ring, sound.idx, sound.off, lt.toSized, dt.toSized⟩, fun _ => ⟨lt, dt⟩⟩
  · rename_i unfixed
    split
    · exact bounded_decodeTrees ⟨sound.ring, sound.idx, sound.off, sound.ltree, sound.dtree⟩
    · rename_i stored
      refine .inr ⟨⟨sound.ring, sound.idx, sound.off, sound.ltree, sound.dtree⟩, ?_⟩
      rintro (one | two)
      · exact absurd (Int.ofNat_inj.mp one) unfixed
      · exact absurd (Int.ofNat_inj.mp two) stored

end Headers

section Runs

variable {limit fuel size : Nat} {next : Bool} {d : Uncomp}

/-- `uzlib_uncompress`, what a turn of the loop does before its block. -/
def Uncomp.start (d : Uncomp) (next : Bool) : Except Fault (Status × Uncomp) :=
  if next ∨ d.btype = -1 then nextBlk d else .ok (.ok, d)

/-- The loop of `uzlib_uncompress` comes from one turn to the next; a call that returns in between
leaves its output and the checksum to the next call. -/
inductive Turned : Bool × Uncomp → Bool × Uncomp → Prop where
  | ended {next : Bool} {d middle made : Uncomp} (begun : d.start next = .ok (.ok, middle))
      (block : processBlock middle = .ok (.done, made)) (more : made.bfinal = 0) :
      Turned (next, d) (true, made)
  | went {next : Bool} {d middle made : Uncomp} (begun : d.start next = .ok (.ok, middle))
      (block : processBlock middle = .ok (.ok, made)) : Turned (next, d) (false, made)
  | called {d : Uncomp} (dest : List UInt8) (checksum : Nat) :
      Turned (false, d) (false, { d with dest := dest, checksum := checksum })

/-- From one turn on, a turn is reached whose block reads before the start of `lookup_table`. -/
def Overran (start : Bool × Uncomp) : Prop :=
  ∃ next d middle, Relation.ReflTransGen Turned start (next, d) ∧
    d.start next = .ok (.ok, middle) ∧ middle.Overruns

private theorem Overran.earlier {first second : Bool × Uncomp} (overran : Overran second)
    (reaches : Relation.ReflTransGen Turned first second) : Overran first := by
  obtain ⟨next, d, middle, later, begun, overruns⟩ := overran
  exact ⟨next, d, middle, reaches.trans later, begun, overruns⟩

private theorem bounded_start (sound : d.Sound) : Bounded Goes (d.start next) := by
  rw [Uncomp.start]
  split
  · exact bounded_nextBlk sound
  · exact .inr sound

/-- What a run of the loop keeps to: it ends inside of the arrays, in a state that the next call
can go on from. -/
theorem uncompressTurns_bounded {result : Except Fault (Status × Uncomp)} (sound : d.Sound)
    (stays : ¬Overran (next, d)) (ran : uncompressTurns limit fuel next d = some result) :
    Bounded (fun made => made.1 = .ok → made.2.Sound ∧
      Relation.ReflTransGen Turned (next, d) (false, made.2)) result := by
  induction fuel generalizing next d with
  | zero => cases ran
  | succ fuel ih =>
      have began : Bounded Goes (d.start next) := bounded_start sound
      rw [uncompressTurns] at ran
      rw [show (if next ∨ d.btype = -1 then nextBlk d else .ok (.ok, d)) = d.start next from rfl]
        at ran
      cases begun : d.start next with
      | error fault =>
          rw [begun] at began ran
          cases ran
          exact began
      | ok started =>
          obtain ⟨status, middle⟩ := started
          rw [begun] at began ran
          simp only at ran
          by_cases going : status = .ok
          · subst going
            have kept : middle.Sound := began.resolve_left Bool.false_ne_true
            have within := bounded_processBlock kept fun overran =>
              stays ⟨next, d, middle, .refl, begun, overran⟩
            rw [if_neg (by decide)] at ran
            cases block : processBlock middle with
            | error fault =>
                rw [block] at within ran
                cases ran
                exact within
            | ok made =>
                obtain ⟨status, made⟩ := made
                rw [block] at within ran
                simp only at ran
                by_cases ended : status = .done ∧ made.bfinal = 0
                · obtain ⟨rfl, more⟩ := ended
                  have turn : Turned (next, d) (true, made) := .ended begun block more
                  rw [if_pos ⟨rfl, more⟩] at ran
                  refine (ih (within.resolve_left Bool.false_ne_true)
                    (fun overran => stays (overran.earlier (.single turn))) ran).mono
                    fun last reached ok => ?_
                  obtain ⟨soundLast, later⟩ := reached ok
                  exact ⟨soundLast, later.head turn⟩
                · rw [if_neg ended] at ran
                  by_cases went : status = .ok
                  · subst went
                    have turn : Turned (next, d) (false, made) := .went begun block
                    have soundMade : made.Sound := within.resolve_left Bool.false_ne_true
                    rw [if_neg (by decide)] at ran
                    split at ran
                    · refine (ih soundMade
                        (fun overran => stays (overran.earlier (.single turn))) ran).mono
                          fun last reached ok => ?_
                      obtain ⟨soundLast, later⟩ := reached ok
                      exact ⟨soundLast, later.head turn⟩
                    · cases ran
                      exact fun _ => ⟨soundMade, .single turn⟩
                  · rw [if_pos went] at ran
                    cases ran
                    exact fun ok => absurd ok went
          · rw [if_pos going] at ran
            cases ran
            exact fun ok => absurd ok going

private theorem bounded_getBeUint32 (src : Source) : Bounded (fun _ => True) (getBeUint32 src) :=
  (bounded_getByte _).bind fun _ _ => (bounded_getByte _).bind fun _ _ =>
    (bounded_getByte _).bind fun _ _ => (bounded_getByte _).bind fun _ _ => trivial

private theorem bounded_getLeUint32 (src : Source) : Bounded (fun _ => True) (getLeUint32 src) :=
  (bounded_getByte _).bind fun _ _ => (bounded_getByte _).bind fun _ _ =>
    (bounded_getByte _).bind fun _ _ => (bounded_getByte _).bind fun _ _ => trivial

private theorem bounded_verifyChecksum (d : Uncomp) :
    Bounded (fun made => made.1 ≠ .ok) (verifyChecksum d) := by
  rw [verifyChecksum]
  split
  · exact Status.noConfusion
  · refine (bounded_getBeUint32 _).bind fun val _ => ?_
    split <;> exact Status.noConfusion
  · refine (bounded_getLeUint32 _).bind fun val _ => ?_
    split
    · exact Status.noConfusion
    · exact (bounded_getLeUint32 _).bind fun _ _ => Status.noConfusion

/-- A reader is at the end of its stream, or in a state from which no block overruns. -/
def Reader.Safe (reader : Reader) : Prop :=
  reader.eof = true ∨ reader.decomp.Sound ∧ ¬Overran (false, reader.decomp)

variable {reader : Reader}

private theorem uncompressChksum_bounded {result : Except Fault (Status × Uncomp)} (sound : d.Sound)
    (stays : ¬Overran (false, d)) (ran : uncompressChksum size fuel d = some result) :
    Bounded (fun made => made.1 = .ok → made.2.Sound ∧ ¬Overran (false, made.2)) result := by
  have call : Turned (false, d) (false, { d with dest := [] }) := .called [] d.checksum
  rw [uncompressChksum] at ran
  cases turns : uncompressTurns size fuel false { d with dest := [] } with
  | none =>
      rw [turns] at ran
      cases ran
  | some run =>
      have within := uncompressTurns_bounded (d := { d with dest := [] }) (sound.same rfl)
        (fun overran => stays (overran.earlier (.single call))) turns
      rw [turns] at ran
      cases run with
      | error fault =>
          cases ran
          exact within
      | ok made =>
          obtain ⟨status, made⟩ := made
          simp only at ran
          by_cases failed : status.failed = true
          · rw [if_pos failed] at ran
            cases ran
            intro ok
            rw [show status = .ok from ok] at failed
            cases failed
          · rw [if_neg failed] at ran
            by_cases ended : status = .done
            · rw [if_pos ended] at ran
              cases ran
              exact (bounded_verifyChecksum _).mono fun _ differs ok => absurd ok differs
            · rw [if_neg ended] at ran
              cases ran
              intro ok
              obtain ⟨soundMade, reached⟩ := within ok
              show (updateChecksum made).Sound ∧ ¬Overran (false, updateChecksum made)
              rw [updateChecksum_eq]
              refine ⟨soundMade.same rfl, fun overran => stays (overran.earlier ?_)⟩
              exact (reached.head call).tail (.called made.dest _)

/-- A read keeps a reader safe. -/
theorem deflateioRead_bounded {result : Except Fault (List UInt8 × Reader)} (safe : reader.Safe)
    (ran : deflateioRead size fuel reader = some result) :
    Bounded (fun got => got.2.Safe) result := by
  rw [deflateioRead] at ran
  by_cases eof : reader.eof = true
  · rw [if_pos eof] at ran
    cases ran
    exact .inl eof
  · rw [if_neg eof] at ran
    obtain ⟨sound, stays⟩ := safe.resolve_left eof
    cases call : uncompressChksum size fuel reader.decomp with
    | none =>
        rw [call] at ran
        cases ran
    | some run =>
        have within := uncompressChksum_bounded sound stays call
        rw [call] at ran
        cases run with
        | error fault =>
            cases ran
            exact within
        | ok made =>
            obtain ⟨status, made⟩ := made
            simp only at ran
            split at ran
            · cases ran
              exact Fault.noConfusion
            · rename_i unfailed
              cases ran
              by_cases ended : status = .done
              · exact .inl (decide_eq_true ended)
              · refine .inr (within ?_)
                cases status <;> first | rfl | exact absurd rfl unfailed | exact absurd rfl ended

private theorem readallTurns_bounded {turns currentRead : Nat} {total : List UInt8}
    {result : Except Fault (List UInt8)} (safe : reader.Safe)
    (ran : readallTurns fuel turns currentRead total reader = some result) :
    Bounded (fun _ => True) result := by
  induction turns generalizing currentRead total reader with
  | zero => cases ran
  | succ turns ih =>
      rw [readallTurns] at ran
      cases read : deflateioRead currentRead fuel reader with
      | none =>
          rw [read] at ran
          cases ran
      | some run =>
          have within := deflateioRead_bounded safe read
          rw [read] at ran
          cases run with
          | error fault =>
              cases ran
              exact within
          | ok got =>
              simp only at ran
              split at ran
              · cases ran
                trivial
              · exact ih within ran

end Runs

section Streams

variable {d : Source}

private theorem bounded_skipBytes (num : Nat) (d : Source) :
    Bounded (fun _ => True) (skipBytes num d) := by
  induction num generalizing d with
  | zero => trivial
  | succ num ih => exact (bounded_getByte d).bind fun got _ => ih got.2

private theorem bounded_getUint16 (d : Source) : Bounded (fun _ => True) (getUint16 d) :=
  (bounded_getByte d).bind fun low _ => (bounded_getByte low.2).bind fun _ _ => trivial

private theorem bounded_skipText (source : List UInt8) :
    Bounded (fun _ => True) (skipText source) := by
  induction source with
  | nil => exact Fault.noConfusion
  | cons byte rest ih =>
      rw [skipText]
      split
      · trivial
      · exact ih

private theorem bounded_skipFields (flg : Nat) (d : Source) :
    Bounded (fun _ => True) (skipFields flg d) := by
  have text : ∀ (asked : Prop) [Decidable asked] (source : List UInt8),
      Bounded (fun _ => True) (if asked then skipText source else .ok source) := by
    intro asked _ source
    split
    · exact bounded_skipText source
    · trivial
  have extra : Bounded (fun _ => True) (if flg &&& 4 ≠ 0 then
      (getUint16 d).bind fun xlen => skipBytes xlen.1 xlen.2 else .ok d) := by
    split
    · exact (bounded_getUint16 d).bind fun xlen _ => bounded_skipBytes xlen.1 xlen.2
    · trivial
  refine extra.bind fun d _ => (text _ _).bind fun source _ => (text _ _).bind fun source _ => ?_
  split
  · exact (bounded_getUint16 _).bind fun hcrc _ => trivial
  · trivial

private theorem bounded_parseGzipHeader (d : Source) :
    Bounded (fun _ => True) (parseGzipHeader d) := by
  refine (bounded_getByte d).bind fun method _ => ?_
  split
  · trivial
  · refine (bounded_getByte method.2).bind fun flg _ => ?_
    split
    · trivial
    · exact (bounded_skipBytes 6 flg.2).bind fun d _ =>
        (bounded_skipFields flg.1.toNat d).bind fun d _ => trivial

private theorem bounded_parseZlibGzipHeader (d : Source) :
    Bounded (fun _ => True) (parseZlibGzipHeader d) := by
  refine (bounded_getByte d).bind fun cmf _ => (bounded_getByte cmf.2).bind fun flg _ => ?_
  split
  · exact bounded_parseGzipHeader flg.2
  · repeat' split
    all_goals trivial

variable {memory : Nat → UInt8}

private theorem startReader_sound (header : Header) (wbits : Nat) (d : Source) :
    (startReader memory header wbits d).decomp.Sound := by
  have zero : Tree.zero.Sized := ⟨List.length_replicate, List.length_replicate⟩
  refine ⟨⟨length_newWindow memory wbits, Nat.two_pow_pos wbits, Nat.two_pow_pos wbits, zero,
    zero⟩, ?_⟩
  rintro (one | two)
  · exact absurd (show (-1 : Int) = 1 from one) (by decide)
  · exact absurd (show (-1 : Int) = 2 from two) (by decide)

private theorem bounded_initRead (format : Format) (windowBits : Nat) (source : List UInt8) :
    Bounded (fun reader => reader.decomp.Sound) (initRead memory format windowBits source) := by
  rw [initRead]
  split
  · exact startReader_sound _ _ _
  · refine (bounded_parseZlibGzipHeader _).bind fun parsed _ => ?_
    split
    · exact Fault.noConfusion
    · split
      · exact Fault.noConfusion
      · exact startReader_sound _ _ _

/-- **Reading any stream touches nothing outside of the arrays**, but for one place: where a length
is followed by bits that are no distance, `lookup_table` is read before its start. -/
theorem decompress_bounded (memory : Nat → UInt8) (format : Format) (wbits fuel : Nat)
    (source : List UInt8) :
    decompress memory format wbits fuel source ≠ some (.error .wild) ∨
      ∃ reader, initRead memory format wbits source = .ok reader ∧
        Overran (false, reader.decomp) := by
  have started : Bounded (fun reader => reader.decomp.Sound)
      (initRead memory format wbits source) := bounded_initRead format wbits source
  rw [decompress]
  cases init : initRead memory format wbits source with
  | error fault =>
      rw [init] at started
      exact .inl fun wild => started (Except.error.inj (Option.some.inj wild))
  | ok reader =>
      rw [init] at started
      by_cases overran : Overran (false, reader.decomp)
      · exact .inr ⟨reader, rfl, overran⟩
      · exact .inl fun wild => (readallTurns_bounded (.inr ⟨started, overran⟩) wild).ne_wild rfl

/-- A dynamic block may have no code of a distance, and a length all the same. -/
theorem decompress_wild :
    decompress (fun _ => 0) .raw 0 300 [13, 192, 129, 8, 0, 0, 0, 0, 32, 127, 236, 3, 0, 0] =
      some (.error .wild) := by
  decide +kernel

/-- In such a block the place is reached. -/
theorem decompress_bounded_overran :
    ∃ reader, initRead (fun _ => 0) .raw 0 [13, 192, 129, 8, 0, 0, 0, 0, 32, 127, 236, 3, 0, 0] =
      .ok reader ∧ Overran (false, reader.decomp) :=
  (decompress_bounded _ _ _ 300 _).resolve_left (not_not_intro decompress_wild)

end Streams

end VaultSeed.Uzlib
