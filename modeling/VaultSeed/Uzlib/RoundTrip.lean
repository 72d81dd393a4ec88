import VaultSeed.Uzlib.Decoding
import VaultSeed.Uzlib.DeflateIO
import Mathlib.Tactic.IntervalCases

/-! # What is compressed is read back

However the bytes are cut into writes and reads, whatever the memory of the windows held, and
whatever follows the stream, a `DeflateIO` reads back what another one wrote
(`VaultSeed.Uzlib.decompress_compress`).
-/

namespace VaultSeed.Uzlib

open Copies LowBits

/-- The decompressor, once it has begun the block that it has not begun, is ready. -/
def Serves (window : Nat) (d : Uncomp) (done todo : List UInt8) (rest : List Bool) : Prop :=
  ∃ started, (if d.btype = -1 then nextBlk d else .ok (.ok, d)) = .ok (.ok, started) ∧
    Ready window started done todo rest ∧ started.dest = d.dest ∧
    started.checksum = d.checksum ∧ started.checksumType = d.checksumType

section Runs

variable {window limit fuel : Nat} {d : Uncomp} {done todo : List UInt8} {rest : List Bool}
  {c : UInt8}

private theorem Ready.serves (ready : Ready window d done todo rest) :
    Serves window d done todo rest :=
  ⟨d, by rw [if_neg (by rw [ready.btype]; decide)], ready, rfl, rfl, rfl⟩

private theorem processBlock_ready (ready : Ready window d done todo rest) :
    processBlock d = inflateBlockData d := by
  rw [processBlock, if_neg (by rw [ready.btype]; decide), if_pos (.inl ready.btype)]

/-- A turn puts the next byte. -/
theorem uncompressTurns_serves (near : window ≤ 32768)
    (serves : Serves window d done (c :: todo) rest) :
    ∃ after, Ready window after (done ++ [c]) todo rest ∧ after.dest = d.dest ++ [c] ∧
      after.checksum = d.checksum ∧ after.checksumType = d.checksumType ∧
      ∀ limit fuel, uncompressTurns limit (fuel + 1) false d =
        if d.dest.length + 1 < limit then uncompressTurns limit fuel false after
        else some (.ok (.ok, after)) := by
  obtain ⟨started, begins, ready, dest, checksum, checksumType⟩ := serves
  obtain ⟨after, made, readyAfter, put, kept, keptType⟩ := inflateBlockData_ready near ready
  refine ⟨after, readyAfter, by rw [put, dest], kept.trans checksum, keptType.trans checksumType,
    fun limit fuel => ?_⟩
  have length : after.dest.length = d.dest.length + 1 := by
    rw [put, dest, List.length_append, List.length_singleton]
  rw [uncompressTurns]
  simp only [Bool.false_eq_true, false_or, begins, processBlock_ready ready, made, length]
  rfl

/-- A buffer is filled, where so many bytes are left. -/
theorem uncompressTurns_full (near : window ≤ 32768) {room : Nat}
    (serves : Serves window d done todo rest) (full : d.dest.length + (room + 1) = limit)
    (left : room + 1 ≤ todo.length) (enough : room < fuel) :
    ∃ after, uncompressTurns limit fuel false d = some (.ok (.ok, after)) ∧
      Ready window after (done ++ todo.take (room + 1)) (todo.drop (room + 1)) rest ∧
      after.dest = d.dest ++ todo.take (room + 1) ∧ after.checksum = d.checksum ∧
      after.checksumType = d.checksumType := by
  induction room generalizing d done todo fuel with
  | zero =>
      obtain ⟨fuel, rfl⟩ : ∃ fewer, fuel = fewer + 1 := ⟨fuel - 1, by omega⟩
      cases todo with
      | nil => exact absurd left (by decide)
      | cons c todo =>
          obtain ⟨after, ready, dest, checksum, checksumType, turn⟩ :=
            uncompressTurns_serves near serves
          refine ⟨after, ?_, ready, dest, checksum, checksumType⟩
          rw [turn, if_neg (by omega)]
  | succ room ih =>
      obtain ⟨fuel, rfl⟩ : ∃ fewer, fuel = fewer + 1 := ⟨fuel - 1, by omega⟩
      cases todo with
      | nil => exact absurd left (by rw [List.length_nil]; omega)
      | cons c todo =>
          obtain ⟨middle, ready, dest, checksum, checksumType, turn⟩ :=
            uncompressTurns_serves near serves
          have length : middle.dest.length = d.dest.length + 1 := by
            rw [dest, List.length_append, List.length_singleton]
          rw [List.length_cons] at left
          obtain ⟨after, ran, readyAfter, put, kept, keptType⟩ :=
            ih ready.serves (by omega) (by omega) (Nat.lt_of_succ_lt_succ enough)
          refine ⟨after, ?_, ?_, ?_, kept.trans checksum, keptType.trans checksumType⟩
          · rw [turn, if_pos (by omega), ran]
          · rw [List.append_assoc, List.singleton_append] at readyAfter
            exact readyAfter
          · rw [put, dest, List.append_assoc, List.singleton_append]
            rfl

/-- Where a buffer has more room than bytes are left, the stream ends. -/
theorem uncompressTurns_done (near : window ≤ 32768) (serves : Serves window d done todo rest)
    (short : d.dest.length + todo.length < limit) (enough : todo.length < fuel) :
    ∃ after, uncompressTurns limit fuel false d = some (.ok (.done, after)) ∧
      Pending after.src rest ∧ after.dest = d.dest ++ todo ∧ after.checksum = d.checksum ∧
      after.checksumType = d.checksumType := by
  induction todo generalizing d done fuel with
  | nil =>
      obtain ⟨fuel, rfl⟩ : ∃ fewer, fuel = fewer + 1 := ⟨fuel - 1, by omega⟩
      obtain ⟨started, begins, ready, dest, checksum, checksumType⟩ := serves
      obtain ⟨src, made, pending⟩ := inflateBlockData_done ready
      refine ⟨{ started with src := src }, ?_, pending, ?_, checksum, checksumType⟩
      · rw [uncompressTurns]
        simp only [Bool.false_eq_true, false_or, begins, processBlock_ready ready, made,
          ready.bfinal]
        rfl
      · rw [List.append_nil]
        exact dest
  | cons c todo ih =>
      rw [List.length_cons] at short enough
      obtain ⟨fuel, rfl⟩ : ∃ fewer, fuel = fewer + 1 := ⟨fuel - 1, by omega⟩
      obtain ⟨middle, ready, dest, checksum, checksumType, turn⟩ :=
        uncompressTurns_serves near serves
      have length : middle.dest.length = d.dest.length + 1 := by
        rw [dest, List.length_append, List.length_singleton]
      obtain ⟨after, ran, pending, put, kept, keptType⟩ :=
        ih ready.serves (by omega) (Nat.lt_of_succ_lt_succ enough)
      refine ⟨after, ?_, pending, ?_, kept.trans checksum, keptType.trans checksumType⟩
      · rw [turn, if_pos (by omega), ran]
      · rw [put, dest, List.append_assoc, List.singleton_append]

end Runs

/-- A checksum goes on over bytes. -/
def ChecksumType.over (checksumType : ChecksumType) (data : List UInt8) (checksum : Nat) : Nat :=
  match checksumType with
  | none => checksum
  | adler => adler32 data checksum
  | crc => crc32 data checksum

/-- The bytes after the last block. -/
def ChecksumType.footer (checksumType : ChecksumType) (checksum length : Nat) : List UInt8 :=
  match checksumType with
  | none => []
  | adler => putBe32 checksum
  | crc => putLe32 (0xffffffff - checksum) ++ putLe32 length

section Checksums

variable {d : Source} {rest : List UInt8} {value : Nat}

private theorem ChecksumType.over_append (checksumType : ChecksumType) (first second : List UInt8)
    (checksum : Nat) : checksumType.over (first ++ second) checksum =
      checksumType.over second (checksumType.over first checksum) := by
  cases checksumType with
  | none => rfl
  | adler => exact adler32_append first second checksum
  | crc => exact crc32_append first second checksum

private theorem ChecksumType.over_nil (checksumType : ChecksumType) (checksum : Nat) :
    checksumType.over [] checksum = checksum := by
  cases checksumType with
  | none => rfl
  | adler => exact adler32_nil checksum
  | crc => rfl

private theorem ChecksumType.over_lt (checksumType : ChecksumType) (data : List UInt8)
    {checksum : Nat}
    (small : checksum < 2 ^ 32) : checksumType.over data checksum < 2 ^ 32 := by
  cases checksumType with
  | none => exact small
  | adler => exact adler32_lt data small
  | crc => exact crc32_lt data small

/-- The sum goes on over what was written. -/
theorem updateChecksum_eq (d : Uncomp) : updateChecksum d =
    { d with checksum := d.checksumType.over d.dest d.checksum } := by
  obtain ⟨src, dest, checksum, checksumType, btype, bfinal, curlen, lzOff, ring, size, idx, lt,
    dt⟩ := d
  cases checksumType <;> rfl

/-- A byte of a number. -/
theorem byte_toNat (value shift : Nat) :
    (UInt8.ofNat (value >>> shift &&& 0xff)).toNat = value / 2 ^ shift % 256 := by
  have mask : value >>> shift &&& 0xff = value >>> shift % 256 :=
    Nat.and_two_pow_sub_one_eq_mod _ 8
  rw [mask, Nat.shiftRight_eq_div_pow]
  exact UInt8.toNat_ofNat_of_lt' (Nat.mod_lt _ (by decide))

private theorem shift_or {low : Nat} (high count : Nat) (small : low < 2 ^ count) :
    high <<< count ||| low = high * 2 ^ count + low := by
  rw [← Nat.shiftLeft_add_eq_or_of_lt small, Nat.shiftLeft_eq]

private theorem getBeUint32_put (small : value < 2 ^ 32)
    (source : d.source = putBe32 value ++ rest) :
    getBeUint32 d = .ok (value, { d with source := rest }) := by
  have last : (UInt8.ofNat (value &&& 0xff)).toNat = value % 256 := by
    have byte := byte_toNat value 0
    rwa [pow_zero, Nat.div_one] at byte
  have bound : ∀ number, number % 256 < 2 ^ 8 := fun number => Nat.mod_lt _ (by decide)
  rw [getBeUint32, getByte, source]
  simp only [putBe32, List.cons_append, List.nil_append, Except.bind, getByte, byte_toNat, last]
  rw [shift_or _ 8 (bound _), shift_or _ 8 (bound _), shift_or _ 8 (bound _)]
  congr 2
  omega

private theorem getLeUint32_put (source : d.source = putLe32 value ++ rest) :
    getLeUint32 d = .ok (value % 2 ^ 32, { d with source := rest }) := by
  have first : (UInt8.ofNat (value &&& 0xff)).toNat = value % 256 := by
    have byte := byte_toNat value 0
    rwa [pow_zero, Nat.div_one] at byte
  have bound : ∀ number, number % 256 < 2 ^ 8 := fun number => Nat.mod_lt _ (by decide)
  rw [getLeUint32, getByte, source]
  simp only [putLe32, List.cons_append, List.nil_append, Except.bind, getByte, byte_toNat, first]
  rw [Nat.or_comm (value % 256), shift_or _ 8 (bound _), Nat.or_comm _ (_ <<< 16),
    shift_or _ 16 (by have := bound value; have := bound (value / 2 ^ 8); omega),
    Nat.or_comm _ (_ <<< 24), shift_or _ 24 (by
      have := bound value
      have := bound (value / 2 ^ 8)
      have := bound (value / 2 ^ 16)
      omega)]
  congr 2
  omega

/-- The footer is what is verified, whatever follows. -/
theorem verifyChecksum_footer {d : Uncomp} {length : Nat} (small : d.checksum < 2 ^ 32)
    (source : d.src.source = d.checksumType.footer d.checksum length ++ rest) :
    ∃ src, verifyChecksum d = .ok (.done, { d with src := src }) := by
  obtain ⟨src, dest, checksum, checksumType, btype, bfinal, curlen, lzOff, ring, size, idx, lt,
    dt⟩ := d
  cases checksumType with
  | none => exact ⟨src, rfl⟩
  | adler =>
      refine ⟨{ src with source := rest }, ?_⟩
      simp only [verifyChecksum, getBeUint32_put small source, Except.bind]
      rw [if_neg (fun differ => differ rfl)]
  | crc =>
      rw [ChecksumType.footer, List.append_assoc] at source
      refine ⟨{ src with source := rest }, ?_⟩
      have parsed := getLeUint32_put source
      rw [Nat.mod_eq_of_lt (by omega)] at parsed
      have rest' : getLeUint32 { src with source := putLe32 length ++ rest } =
          .ok (length % 2 ^ 32, { src with source := rest }) := getLeUint32_put rfl
      simp only [verifyChecksum, parsed, Except.bind]
      rw [if_neg (fun differ => differ rfl), rest']

end Checksums

/-- A reader that is not at its end: what it has given and what it still gives, and after the last
block a footer that fits, with anything behind it. -/
structure Serving (window : Nat) (kind : ChecksumType) (start : Nat) (reader : Reader)
    (done todo : List UInt8) : Prop where
  near : window ≤ 32768
  small : start < 2 ^ 32
  going : reader.eof = false
  same : reader.decomp.checksumType = kind
  checksum : reader.decomp.checksum = kind.over done start
  serves : ∃ pad length extra, pad.length < 8 ∧
    Serves window { reader.decomp with dest := [] } done todo
      (pad ++ stream (kind.footer (kind.over (done ++ todo) start) length ++ extra))

section Reads

variable {window start size fuel turns : Nat} {kind : ChecksumType} {reader : Reader}
  {done todo : List UInt8}

/-- A buffer is filled, where so many bytes are left. -/
theorem Serving.read_full (serving : Serving window kind start reader done todo)
    (positive : 0 < size) (left : size ≤ todo.length) (enough : size ≤ fuel) :
    ∃ after, deflateioRead size fuel reader = some (.ok (todo.take size, after)) ∧
      Serving window kind start after (done ++ todo.take size) (todo.drop size) := by
  obtain ⟨near, small, going, same, checksum, pad, length, extra, padding, serves⟩ := serving
  obtain ⟨room, rfl⟩ : ∃ room, size = room + 1 := ⟨size - 1, by omega⟩
  obtain ⟨after, ran, ready, dest, kept, keptType⟩ :=
    uncompressTurns_full near serves (Nat.zero_add _) left enough
  rw [List.nil_append] at dest
  have updated := updateChecksum_eq after
  rw [dest, kept, keptType] at updated
  refine ⟨⟨updateChecksum after, false⟩, ?_, near, small, rfl, ?_, ?_, pad, length, extra,
    padding, ?_⟩
  · rw [deflateioRead, going]
    simp only [Bool.false_eq_true, ↓reduceIte, uncompressChksum, ran, Status.failed, reduceCtorEq,
      updated, decide_false]
  · rw [updated]
    exact same
  · rw [updated, ChecksumType.over_append, ← checksum, ← same]
  · have whole : done ++ todo.take (room + 1) ++ todo.drop (room + 1) = done ++ todo := by
      rw [List.append_assoc, List.take_append_drop]
    rw [whole, updated]
    refine Ready.serves ⟨⟨ready.windowed.ring, ready.windowed.length, ready.windowed.size,
      ready.windowed.idx⟩, ready.btype, ready.bfinal, ready.trees, ?_⟩
    obtain ⟨copied, data, tokens, split, curlen, spells, pending, copying⟩ := ready.spelled
    refine ⟨copied, data, tokens, split, curlen, spells, pending, fun some' => ?_⟩
    obtain ⟨distance, under⟩ := copying some'
    exact ⟨distance, under.positive, under.known, under.inside, under.lzOff, under.repeats⟩

/-- Where fewer bytes are left, they are given, and the stream has ended well. -/
theorem Serving.read_done (serving : Serving window kind start reader done todo) (fuel : Nat)
    (short : todo.length < size) (enough : todo.length < fuel) :
    ∃ after, deflateioRead size fuel reader = some (.ok (todo, after)) ∧ after.eof = true := by
  obtain ⟨near, small, going, same, checksum, pad, length, extra, padding, serves⟩ := serving
  have few : ({ reader.decomp with dest := [] } : Uncomp).dest.length + todo.length < size := by
    show 0 + todo.length < size
    omega
  obtain ⟨after, ran, pending, dest, kept, keptType⟩ := uncompressTurns_done near serves few enough
  have source := pending_aligned pending padding
  have put : after.dest = todo := dest
  have updated := updateChecksum_eq after
  rw [put, kept, keptType] at updated
  have whole : (updateChecksum after).checksum = kind.over (done ++ todo) start := by
    rw [updated, ChecksumType.over_append, ← checksum, ← same]
  have kindAfter : (updateChecksum after).checksumType = kind := by
    rw [updated]
    exact same
  have left : (updateChecksum after).src.source = (updateChecksum after).checksumType.footer
      (updateChecksum after).checksum length ++ extra := by
    rw [kindAfter, whole, updated]
    exact source
  obtain ⟨src, verified⟩ := verifyChecksum_footer
    (whole ▸ ChecksumType.over_lt kind (done ++ todo) small) left
  have given : (updateChecksum after).dest = todo := by rw [updated]
  refine ⟨⟨{ updateChecksum after with src := src }, true⟩, ?_, rfl⟩
  rw [deflateioRead, going]
  simp only [Bool.false_eq_true, ↓reduceIte, uncompressChksum, ran, Status.failed, verified, given,
    decide_true]

private theorem deflateioRead_eof (ended : reader.eof = true) (size fuel : Nat) :
    deflateioRead size fuel reader = some (.ok ([], reader)) := by
  rw [deflateioRead, if_pos ended]

/-- Reading to the end gives what is left. -/
theorem Serving.readallTurns (serving : Serving window kind start reader done todo)
    (total : List UInt8) {currentRead : Nat} (positive : 0 < currentRead)
    (most : currentRead ≤ defaultBufferSize)
    (enough : defaultBufferSize ≤ fuel) (many : todo.length + 2 ≤ turns) :
    Uzlib.readallTurns fuel turns currentRead total reader = some (.ok (total ++ todo)) := by
  induction turns generalizing reader done todo total currentRead with
  | zero => omega
  | succ turns ih =>
      rw [Uzlib.readallTurns]
      by_cases left : currentRead ≤ todo.length
      · obtain ⟨after, read, going⟩ :=
          serving.read_full positive left (most.trans enough)
        have length : (todo.take currentRead).length = currentRead := by
          rw [List.length_take, min_eq_left left]
        have fewer : (todo.drop currentRead).length + 2 ≤ turns := by
          rw [List.length_drop]
          omega
        have rest := ih going (total ++ todo.take currentRead) (by decide)
          (Nat.le_refl defaultBufferSize) fewer
        rw [read]
        simp only [length]
        rw [if_neg (by omega), if_neg (Nat.lt_irrefl _), rest, List.append_assoc,
          List.take_append_drop]
      · have short : todo.length < currentRead := Nat.lt_of_not_le left
        obtain ⟨after, read, ended⟩ :=
          serving.read_done fuel short (by omega)
        obtain ⟨turns, rfl⟩ : ∃ fewer, turns = fewer + 1 := ⟨turns - 1, by omega⟩
        rw [read]
        by_cases none : todo = []
        · simp only [none, List.length_nil, ↓reduceIte, List.append_nil]
        · have some' : todo.length ≠ 0 := fun zero => none (List.eq_nil_of_length_eq_zero zero)
          simp only [some', ↓reduceIte]
          rw [Uzlib.readallTurns, deflateioRead_eof ended]
          rfl

/-- A read of a size gives as much of what is left. -/
theorem Serving.streamRead (serving : Serving window kind start reader done todo)
    (enough : size ≤ fuel) :
    ∃ after, Uzlib.streamRead fuel size reader = some (.ok (todo.take size, after)) ∧
      (after.eof = true ∧ todo.drop size = [] ∨
        Serving window kind start after (done ++ todo.take size) (todo.drop size)) := by
  rw [Uzlib.streamRead]
  cases size with
  | zero =>
      rw [List.take_zero, List.drop_zero, List.append_nil]
      exact ⟨reader, rfl, .inr serving⟩
  | succ size =>
      by_cases left : size + 1 ≤ todo.length
      · obtain ⟨after, read, going⟩ := serving.read_full (Nat.succ_pos size) left enough
        have length : (todo.take (size + 1)).length = size + 1 := by
          rw [List.length_take, min_eq_left left]
        refine ⟨after, ?_, .inr going⟩
        rw [streamReadTurns, if_pos (Nat.succ_pos size), read]
        simp only [length, Nat.add_one_ne_zero, ↓reduceIte, Nat.sub_self, List.nil_append]
        cases size <;> rfl
      · have short : todo.length < size + 1 := Nat.lt_of_not_le left
        obtain ⟨after, read, ended⟩ := serving.read_done fuel short (by omega)
        have all : todo.take (size + 1) = todo := List.take_of_length_le (by omega)
        have none : todo.drop (size + 1) = [] := List.drop_eq_nil_of_le (by omega)
        refine ⟨after, ?_, .inl ⟨ended, none⟩⟩
        rw [all, streamReadTurns, if_pos (Nat.succ_pos size), read]
        by_cases empty : todo = []
        · simp only [empty, List.length_nil, ↓reduceIte]
        · have some' : todo.length ≠ 0 := fun zero => empty (List.eq_nil_of_length_eq_zero zero)
          simp only [some', ↓reduceIte, List.nil_append]
          cases size with
          | zero => rfl
          | succ size =>
              rw [streamReadTurns]
              by_cases more : 0 < size + 1 + 1 - todo.length
              · rw [if_pos more, deflateioRead_eof ended]
                rfl
              · rw [if_neg more]

end Reads

/-- The bits of a window where the number that is given may be zero. -/
def effective (wbits : Nat) : Nat := if wbits = 0 then defaultWbits else wbits

/-- The checksum of a format. -/
def Format.kind : Format → ChecksumType
  | zlib => .adler
  | gzip => .crc
  | _ => .none

/-- The formats that a stream of a format is read as. -/
def Format.readAs : Format → Format → Bool
  | raw, raw => true
  | auto, raw => true
  | zlib, zlib => true
  | zlib, auto => true
  | gzip, gzip => true
  | gzip, auto => true
  | _, _ => false

/-- What was written so far: the header, the beginning of the block, and tokens that spell the
bytes. -/
def Wrote (format : Format) (wbits : Nat) (write : WriteState) (data : List UInt8) : Prop :=
  ∃ tokens, Spells (Fits (2 ^ effective wbits)) [] tokens data ∧
    write.lz77.bits = stream (writeHeader format (effective wbits)).1 ++
      (low 3 3 ++ tokens.flatMap tokenBits) ∧
    Compressing (2 ^ effective wbits) write.lz77 data ∧
    write.inputChecksum = format.kind.over data (writeHeader format (effective wbits)).2

section Writing

variable {format asked : Format} {wbits askedBits : Nat} {write : WriteState} {writer : Writer}
  {data : List UInt8}

private theorem effective_le (valid : validWbits wbits = true) : effective wbits ≤ 15 := by
  rw [validWbits, Bool.or_eq_true, Bool.and_eq_true, decide_eq_true_eq, decide_eq_true_eq,
    decide_eq_true_eq] at valid
  rw [effective]
  split
  · decide
  · omega

private theorem window_le (valid : validWbits wbits = true) : 2 ^ effective wbits ≤ 32768 :=
  Nat.pow_le_pow_right (by decide) (effective_le valid)

/-- A window has its size. -/
theorem length_newWindow (memory : Nat → UInt8) (wbits : Nat) :
    (newWindow memory wbits).length = 2 ^ wbits := by
  rw [newWindow, List.length_map, List.length_range]

private theorem checksum_eq_over (format : Format) (data : List UInt8) (checksum : Nat) :
    format.checksum data checksum = format.kind.over data checksum := by
  cases format <;> rfl

private theorem writeFooter_eq (format : Format) (write : WriteState) :
    writeFooter format write = format.kind.footer write.inputChecksum write.inputLen := by
  cases format <;> rfl

/-- Before the first byte the header and the beginning of the block are written. -/
theorem initWrite_wrote (memory : Nat → UInt8) (format : Format) (wbits : Nat) :
    Wrote format wbits (initWrite memory ⟨format, wbits, none⟩) [] := by
  have tidy : (lz77Init (writeHeader format (effective wbits)).1
      (newWindow memory (effective wbits)) (2 ^ effective wbits)).Tidy :=
    ⟨Nat.succ_pos 7, Nat.one_pos⟩
  have puts := outbits_puts tidy (show 3 < 2 ^ 3 by decide)
  have holds := Holds.init (writeHeader format (effective wbits)).1
    (length_newWindow memory (effective wbits))
  refine ⟨[], .nil [], ?_, ⟨puts.tidy, holds.of_history puts.kept,
    congrArg (fun history => history.2.1) puts.kept⟩, ?_⟩
  · rw [List.flatMap_nil, List.append_nil]
    refine puts.written.trans (congrArg (· ++ low 3 3) ?_)
    exact List.append_nil _
  · exact (ChecksumType.over_nil _ _).symm

/-- A write adds its bytes to those written. -/
theorem Wrote.compress (wrote : Wrote format wbits write data) (valid : validWbits wbits = true)
    (buf : List UInt8) (inputLen : Nat) :
    Wrote format wbits ⟨inputLen, format.checksum buf write.inputChecksum,
      lz77Compress write.lz77 buf⟩ (data ++ buf) := by
  obtain ⟨tokens, spells, bits, compressing, checksum⟩ := wrote
  obtain ⟨more, spellsMore, written, after⟩ :=
    lz77Compress_spells (window_le valid) compressing buf
  refine ⟨tokens ++ more, spells.append spellsMore, ?_, after, ?_⟩
  · show (lz77Compress write.lz77 buf).bits = _
    rw [written, bits, List.flatMap_append, List.append_assoc, List.append_assoc]
  · show format.checksum buf write.inputChecksum = _
    rw [checksum_eq_over, checksum, ← ChecksumType.over_append]

/-- After writes of chunks their bytes are written, or there were none. -/
theorem foldl_streamWrite (memory : Nat → UInt8) (valid : validWbits wbits = true)
    (chunks : List (List UInt8)) :
    let writer := chunks.foldl (streamWrite memory) ⟨format, wbits, none⟩
    writer.format = format ∧ writer.windowBits = wbits ∧
      (chunks.flatten = [] ∧ writer.write = none ∨
        ∃ write, writer.write = some write ∧ Wrote format wbits write chunks.flatten) := by
  induction chunks using List.reverseRecOn with
  | nil => exact ⟨rfl, rfl, .inl ⟨rfl, rfl⟩⟩
  | append_singleton chunks chunk ih =>
      intro writer
      have last : writer = streamWrite memory
          (chunks.foldl (streamWrite memory) ⟨format, wbits, none⟩) chunk := by
        show (chunks ++ [chunk]).foldl _ _ = _
        rw [List.foldl_append]
        rfl
      rw [last]
      generalize chunks.foldl (streamWrite memory) ⟨format, wbits, none⟩ = former at ih ⊢
      obtain ⟨sameFormat, sameBits, written⟩ := ih
      have whole : (chunks ++ [chunk]).flatten = chunks.flatten ++ chunk := by
        rw [List.flatten_append, List.flatten_singleton]
      rw [whole, streamWrite]
      by_cases some' : 0 < chunk.length
      · rw [if_pos some']
        refine ⟨sameFormat, sameBits, .inr ⟨_, rfl, ?_⟩⟩
        have begun : Wrote format wbits (initWrite memory former) chunks.flatten := by
          rcases written with ⟨none, unwritten⟩ | ⟨write, found, wrote⟩
          · have initial : former = ⟨format, wbits, .none⟩ := by
              rw [← sameFormat, ← sameBits, ← unwritten]
            rw [initial, none]
            exact initWrite_wrote memory format wbits
          · rw [initWrite, found]
            exact wrote
        rw [sameFormat]
        exact begun.compress valid chunk _
      · have none : chunk = [] := List.eq_nil_of_length_eq_zero (by omega)
        rw [if_neg some', none, List.append_nil]
        exact ⟨sameFormat, sameBits, written⟩

/-- The end of the block is written, and bits that fill the last byte. -/
theorem finishBlock_dest (wrote : Wrote format wbits write data) :
    ∃ body pad tokens, (finishBlock write.lz77).dest =
        (writeHeader format (effective wbits)).1 ++ body ∧ pad.length < 8 ∧
      Spells (Fits (2 ^ effective wbits)) [] tokens data ∧
      stream body = low 3 3 ++ (tokens.flatMap tokenBits ++ (fixedCode 256 ++ pad)) := by
  obtain ⟨tokens, spells, bits, compressing, -⟩ := wrote
  have puts := outbits_puts compressing.tidy (show 0 < 2 ^ 14 by decide)
  have few := puts.tidy.few
  have written := puts.written
  rw [low_zero, bits, Lz77State.bits] at written
  -- the bits that are held at the end are the last of the fourteen
  have split : List.replicate 14 false = fixedCode 256 ++
      List.replicate (7 - (finishBlock write.lz77).noutbits) false ++
      List.replicate (finishBlock write.lz77).noutbits false := by
    have code : fixedCode 256 = List.replicate 7 false := rfl
    rw [code, List.replicate_append_replicate, List.replicate_append_replicate]
    congr 1
    change (finishBlock write.lz77).noutbits < 8 at few
    omega
  rw [split, ← List.append_assoc] at written
  have front := List.append_inj_left' written (by rw [length_low, List.length_replicate]; rfl)
  rw [List.append_assoc] at front
  obtain ⟨body, dest, left⟩ := exists_of_stream_eq front
  refine ⟨body, List.replicate (7 - (finishBlock write.lz77).noutbits) false, tokens, dest, ?_,
    spells, ?_⟩
  · rw [List.length_replicate]
    omega
  · rw [left, List.append_assoc]

end Writing

/-- What a header of a format is read as. -/
def Format.header (format : Format) (wbits : Nat) : Header :=
  match format with
  | zlib => ⟨max (wbits - 8) 1 + 8, .adler, 1⟩
  | gzip => ⟨15, .crc, 0xffffffff⟩
  | _ => ⟨0, .none, 0⟩

section Opening

variable {format asked : Format} {wbits askedBits : Nat} {write : WriteState}
  {data tail : List UInt8} {rest : List Bool} {tokens : List (Token UInt8)}

private theorem parseZlibGzipHeader_zlib (few : wbits ≤ 15) (rest : List UInt8) :
    parseZlibGzipHeader ⟨zlibHeader wbits ++ rest, 0, 0⟩ =
      .ok (some (Format.zlib.header wbits), ⟨rest, 0, 0⟩) := by
  interval_cases wbits <;>
    simp [parseZlibGzipHeader, getByte, zlibHeader, Except.bind, Format.header]

private theorem parseZlibGzipHeader_gzip (wbits : Nat) (rest : List UInt8) :
    parseZlibGzipHeader ⟨gzipHeader ++ rest, 0, 0⟩ =
      .ok (some (Format.gzip.header wbits), ⟨rest, 0, 0⟩) := by
  simp [parseZlibGzipHeader, getByte, gzipHeader, Except.bind, parseGzipHeader, skipBytes,
    skipFields, Format.header]

/-- The header is accepted, and the window has at least the bits of the writer. -/
theorem initRead_header (memory : Nat → UInt8) (suits : format.readAs asked = true)
    (valid : validWbits wbits = true) (validAsked : validWbits askedBits = true)
    (enough : effective wbits ≤ effective askedBits ∨ askedBits = 0 ∧ asked ≠ .raw)
    (rest : List UInt8) :
    ∃ bits, initRead memory asked askedBits
        ((writeHeader format (effective wbits)).1 ++ rest) =
        .ok (startReader memory (format.header (effective wbits)) bits ⟨rest, 0, 0⟩) ∧
      effective wbits ≤ bits ∧ bits ≤ 15 := by
  have few := effective_le valid
  have fewAsked := effective_le validAsked
  have given : askedBits ≠ 0 → effective askedBits = askedBits := fun some' => if_neg some'
  have raw : asked = .raw → format.header (effective wbits) = ⟨0, .none, 0⟩ →
      (writeHeader format (effective wbits)).1 = [] →
      ∃ bits, initRead memory asked askedBits
          ((writeHeader format (effective wbits)).1 ++ rest) =
          .ok (startReader memory (format.header (effective wbits)) bits ⟨rest, 0, 0⟩) ∧
        effective wbits ≤ bits ∧ bits ≤ 15 := by
    intro same header none
    refine ⟨effective askedBits, ?_, ?_, fewAsked⟩
    · rw [initRead, if_pos same, header, none, List.nil_append]
      rfl
    · rcases enough with less | ⟨-, other⟩
      · exact less
      · exact absurd same other
  have framed : asked ≠ .raw → parseZlibGzipHeader
      ⟨(writeHeader format (effective wbits)).1 ++ rest, 0, 0⟩ =
        .ok (some (format.header (effective wbits)), ⟨rest, 0, 0⟩) →
      asked.refuses (format.header (effective wbits)) = false →
      effective wbits ≤ (format.header (effective wbits)).wbits →
      (format.header (effective wbits)).wbits ≤ 15 →
      ∃ bits, initRead memory asked askedBits
          ((writeHeader format (effective wbits)).1 ++ rest) =
          .ok (startReader memory (format.header (effective wbits)) bits ⟨rest, 0, 0⟩) ∧
        effective wbits ≤ bits ∧ bits ≤ 15 := by
    intro other parsed accepted least most
    refine ⟨if askedBits = 0 ∨ (format.header (effective wbits)).wbits < askedBits then
      (format.header (effective wbits)).wbits else askedBits, ?_, ?_, ?_⟩
    · rw [initRead, if_neg other, parsed]
      simp only [Except.bind, accepted, Bool.false_eq_true, ↓reduceIte]
    · split
      · exact least
      · have some' : askedBits ≠ 0 := by omega
        rcases enough with less | ⟨zero, -⟩
        · exact (given some') ▸ less
        · exact absurd zero some'
    · split <;> omega
  have atLeast : effective wbits ≤ max (effective wbits - 8) 1 + 8 := by omega
  have atMost : max (effective wbits - 8) 1 + 8 ≤ 15 := by omega
  cases format <;> cases asked <;> first
    | exact raw rfl rfl rfl
    | exact framed (by decide) (parseZlibGzipHeader_zlib few rest) rfl atLeast atMost
    | exact framed (by decide) (parseZlibGzipHeader_gzip _ rest) rfl few (Nat.le_refl 15)
    | cases suits

/-- The decompressor begins the block with an empty window. -/
theorem startReader_serves (memory : Nat → UInt8) (header : Header) {bits : Nat} {d : Source}
    (spells : Spells (Fits (2 ^ bits)) [] tokens data)
    (pending : stream d.source = low 3 3 ++ (tokens.flatMap tokenBits ++ (fixedCode 256 ++ rest))) :
    Serves (2 ^ bits) { (startReader memory header bits d).decomp with dest := [] } [] data
      rest := by
  have whole : Pending { d with bitcount := 0 }
      (true :: (low 2 1 ++ (tokens.flatMap tokenBits ++ (fixedCode 256 ++ rest)))) :=
    ⟨Nat.succ_pos 7, pending⟩
  obtain ⟨middle, final, pendingMiddle⟩ := getbit_pending whole
  obtain ⟨after, type, pendingAfter⟩ :=
    readBits_pending 0 pendingMiddle (show 1 < 2 ^ 2 by decide)
  let fresh : Uncomp := { (startReader memory header bits d).decomp with dest := [] }
  refine ⟨{ fresh with
      src := after
      bfinal := 1
      btype := 1
      ltree := (buildFixedTrees fresh.ltree fresh.dtree).1
      dtree := (buildFixedTrees fresh.ltree fresh.dtree).2 }, ?_, ?_, rfl, rfl, rfl⟩
  · rw [if_pos (by rfl)]
    have begun : getbit fresh.src = .ok (1, middle) := final
    show nextBlk fresh = _
    rw [nextBlk, begun]
    simp only [Except.bind, type, Nat.add_zero, ↓reduceIte]
    rfl
  · refine ⟨⟨.start ?_, length_newWindow memory bits, rfl, (Nat.zero_mod _).symm⟩, rfl, rfl,
      ⟨.zero, .zero, rfl, rfl, rfl⟩, [], data, tokens, rfl, rfl, spells, pendingAfter,
      fun none => absurd rfl none⟩
    show 0 < (newWindow memory bits).length
    rw [length_newWindow]
    exact Nat.two_pow_pos bits

/-- A reader of a stream that was written and closed, with anything behind it. -/
theorem Wrote.serving (wrote : Wrote format wbits write data) (memory : Nat → UInt8)
    (suits : format.readAs asked = true) (valid : validWbits wbits = true)
    (validAsked : validWbits askedBits = true)
    (enough : effective wbits ≤ effective askedBits ∨ askedBits = 0 ∧ asked ≠ .raw)
    (extra : List UInt8) :
    ∃ reader window, initRead memory asked askedBits
        ((finishBlock write.lz77).dest ++ writeFooter format write ++ extra) = .ok reader ∧
      Serving window format.kind (writeHeader format (effective wbits)).2 reader [] data := by
  obtain ⟨body, pad, tokens, dest, padding, spells, bits⟩ := finishBlock_dest wrote
  obtain ⟨-, -, -, -, checksum⟩ := wrote
  obtain ⟨window, opened, least, most⟩ := initRead_header memory suits valid validAsked enough
    (body ++ (format.kind.footer write.inputChecksum write.inputLen ++ extra))
  have source : (finishBlock write.lz77).dest ++ writeFooter format write ++ extra =
      (writeHeader format (effective wbits)).1 ++
        (body ++ (format.kind.footer write.inputChecksum write.inputLen ++ extra)) := by
    rw [dest, writeFooter_eq, List.append_assoc, List.append_assoc]
  have larger : Spells (Fits (2 ^ window)) [] tokens data := spells.mono fun distance length fits =>
    ⟨fits.1.trans (Nat.pow_le_pow_right (by decide) least), fits.2⟩
  have pending : stream (body ++ (format.kind.footer write.inputChecksum write.inputLen ++ extra)) =
      low 3 3 ++ (tokens.flatMap tokenBits ++ (fixedCode 256 ++
        (pad ++ stream (format.kind.footer write.inputChecksum write.inputLen ++ extra)))) := by
    rw [stream_append, bits]
    simp only [List.append_assoc]
  have kind : (format.header (effective wbits)).checksumType = format.kind := by
    cases format <;> rfl
  have start : (format.header (effective wbits)).checksum =
      (writeHeader format (effective wbits)).2 := by
    cases format <;> rfl
  refine ⟨_, 2 ^ window, source ▸ opened, Nat.pow_le_pow_right (by decide) most, ?_, rfl, kind, ?_,
    pad, write.inputLen, extra, padding, ?_⟩
  · cases format <;> simp [writeHeader]
  · rw [ChecksumType.over_nil]
    exact start
  · rw [List.nil_append, ← checksum]
    exact startReader_serves memory _ larger pending

end Opening

section RoundTrip

variable {format asked : Format} {wbits askedBits fuel : Nat}

/-- What was written and closed is read back. -/
theorem Wrote.decompress {write : WriteState} {data : List UInt8}
    (wrote : Wrote format wbits write data) (memory : Nat → UInt8)
    (suits : format.readAs asked = true) (valid : validWbits wbits = true)
    (validAsked : validWbits askedBits = true)
    (window : effective wbits ≤ effective askedBits ∨ askedBits = 0 ∧ asked ≠ .raw)
    (extra : List UInt8) (enough : data.length + defaultBufferSize ≤ fuel) :
    Uzlib.decompress memory asked askedBits fuel
        ((finishBlock write.lz77).dest ++ writeFooter format write ++ extra) =
      some (.ok data) := by
  obtain ⟨reader, window, opened, serving⟩ :=
    wrote.serving memory suits valid validAsked window extra
  have large : defaultBufferSize = 256 := rfl
  have read : readallTurns fuel fuel defaultBufferSize [] reader = some (.ok data) :=
    serving.readallTurns [] (by decide) (Nat.le_refl _) (by omega) (by omega)
  rw [Uzlib.decompress, opened]
  exact read

/-- Where there are bytes, what is compressed is what was written, closed. -/
theorem compress_wrote (memory : Nat → UInt8) (format : Format) (valid : validWbits wbits = true)
    {chunks : List (List UInt8)} (nonempty : chunks.flatten ≠ []) :
    ∃ write, Wrote format wbits write chunks.flatten ∧ compress memory format wbits chunks =
      (finishBlock write.lz77).dest ++ writeFooter format write := by
  obtain ⟨sameFormat, -, written⟩ := foldl_streamWrite memory valid chunks
  rcases written with ⟨none, -⟩ | ⟨write, found, wrote⟩
  · exact absurd none nonempty
  · refine ⟨write, wrote, ?_⟩
    rw [compress, closeWriter, found, sameFormat]

/-- What is written in chunks, not all of them empty, is read back. -/
theorem decompress_compress (memory other : Nat → UInt8) (suits : format.readAs asked = true)
    (valid : validWbits wbits = true) (validAsked : validWbits askedBits = true)
    (window : effective wbits ≤ effective askedBits ∨ askedBits = 0 ∧ asked ≠ .raw)
    {chunks : List (List UInt8)} (nonempty : chunks.flatten ≠ []) (extra : List UInt8)
    (enough : chunks.flatten.length + defaultBufferSize ≤ fuel) :
    decompress other asked askedBits fuel (compress memory format wbits chunks ++ extra) =
      some (.ok chunks.flatten) := by
  obtain ⟨write, wrote, written⟩ := compress_wrote memory format valid nonempty
  rw [written]
  exact wrote.decompress other suits valid validAsked window extra enough

/-- Two chunks, read as they are written and with a byte behind them. -/
theorem decompress_compress_two :
    decompress (fun _ => 7) .raw 10 300
        (compress (fun _ => 255) .raw 10 [[97], [97, 97, 97, 97]] ++ [0]) =
      some (.ok [97, 97, 97, 97, 97]) :=
  decompress_compress (fun _ => 255) (fun _ => 7) rfl rfl rfl (.inl (Nat.le_refl _)) (by decide)
    [0] (by decide)

/-- Reads of sizes, one after the other, and their bytes together. -/
def streamReads (fuel : Nat) : List Nat → Reader → Option (Except Fault (List UInt8))
  | [], _ => some (.ok [])
  | size :: sizes, reader =>
    match streamRead fuel size reader with
    | none => none
    | some (.error fault) => some (.error fault)
    | some (.ok got) =>
      match streamReads fuel sizes got.2 with
      | some (.ok rest) => some (.ok (got.1 ++ rest))
      | ended => ended

private theorem streamReads_eof {reader : Reader} (ended : reader.eof = true) (sizes : List Nat) :
    streamReads fuel sizes reader = some (.ok []) := by
  induction sizes with
  | nil => rfl
  | cons size sizes ih =>
      have read : streamRead fuel size reader = some (.ok ([], reader)) := by
        rw [streamRead]
        cases size with
        | zero => rfl
        | succ size =>
            rw [streamReadTurns, if_pos (Nat.succ_pos size), deflateioRead_eof ended]
            rfl
      rw [streamReads, read]
      simp only [ih, List.nil_append]

private theorem Serving.streamReads {window start : Nat} {kind : ChecksumType} {reader : Reader}
    {done todo : List UInt8} (serving : Serving window kind start reader done todo)
    {sizes : List Nat} (enough : ∀ size ∈ sizes, size ≤ fuel) :
    Uzlib.streamReads fuel sizes reader = some (.ok (todo.take sizes.sum)) := by
  induction sizes generalizing reader done todo with
  | nil =>
      rw [List.sum_nil, List.take_zero]
      rfl
  | cons size sizes ih =>
      obtain ⟨after, read, next⟩ := serving.streamRead (enough size List.mem_cons_self)
      have others : ∀ size ∈ sizes, size ≤ fuel := fun other member =>
        enough other (List.mem_cons_of_mem _ member)
      rw [Uzlib.streamReads, read, List.sum_cons, List.take_add]
      rcases next with ⟨ended, none⟩ | going
      · simp only [streamReads_eof ended, none, List.take_nil]
      · simp only [ih going others]

/-- Reads of any sizes give the bytes in order, each as many as it asks for while there are. -/
theorem streamReads_compress (memory other : Nat → UInt8) (suits : format.readAs asked = true)
    (valid : validWbits wbits = true) (validAsked : validWbits askedBits = true)
    (window : effective wbits ≤ effective askedBits ∨ askedBits = 0 ∧ asked ≠ .raw)
    {chunks : List (List UInt8)} (nonempty : chunks.flatten ≠ []) (extra : List UInt8) :
    ∃ reader, initRead other asked askedBits (compress memory format wbits chunks ++ extra) =
        .ok reader ∧
      ∀ sizes : List Nat, ∀ fuel, (∀ size ∈ sizes, size ≤ fuel) →
        streamReads fuel sizes reader = some (.ok (chunks.flatten.take sizes.sum)) := by
  obtain ⟨write, wrote, written⟩ := compress_wrote memory format valid nonempty
  obtain ⟨reader, window, opened, serving⟩ :=
    wrote.serving other suits valid validAsked window extra
  rw [written]
  exact ⟨reader, opened, fun sizes fuel enough => serving.streamReads enough⟩

/-- Two chunks, read from a zlib stream with a byte behind it. -/
theorem streamReads_compress_two : ∃ reader, initRead (fun _ => 7) .auto 0
      (compress (fun _ => 255) .zlib 5 [[97], [97, 97, 97, 97]] ++ [0]) = .ok reader ∧
    ∀ sizes : List Nat, ∀ fuel, (∀ size ∈ sizes, size ≤ fuel) →
      streamReads fuel sizes reader =
        some (.ok (([[97], [97, 97, 97, 97]] : List (List UInt8)).flatten.take sizes.sum)) :=
  streamReads_compress (fun _ => 255) (fun _ => 7) rfl rfl rfl (.inr ⟨rfl, by decide⟩) (by decide)
    [0]

/-- Nothing is compressed to nothing. -/
theorem compress_nil (memory : Nat → UInt8) (format : Format) (wbits : Nat)
    {chunks : List (List UInt8)} (empty : chunks.flatten = []) :
    compress memory format wbits chunks = [] := by
  have skipped : chunks.foldl (streamWrite memory) ⟨format, wbits, none⟩ =
      ⟨format, wbits, none⟩ := by
    induction chunks with
    | nil => rfl
    | cons chunk chunks ih =>
        rw [List.flatten_cons, List.append_eq_nil_iff] at empty
        rw [List.foldl_cons, streamWrite, empty.1, if_neg (by decide)]
        exact ih empty.2
  rw [compress, skipped]
  rfl

/-- Nothing cannot be read as a stream. -/
theorem decompress_nil (memory : Nat → UInt8) (asked : Format) (askedBits : Nat)
    (positive : 0 < fuel) :
    decompress memory asked askedBits fuel [] = some (.error .typeError) := by
  obtain ⟨fuel, rfl⟩ : ∃ fewer, fuel = fewer + 1 := ⟨fuel - 1, by omega⟩
  rw [decompress, initRead]
  by_cases raw : asked = .raw
  · rw [if_pos raw]
    rfl
  · rw [if_neg raw]
    rfl

/-- What one write compressed with the defaults is read back. -/
theorem decompress_single (memory other : Nat → UInt8) {data : List UInt8} (nonempty : data ≠ [])
    (enough : data.length + defaultBufferSize ≤ fuel) :
    decompress other .raw defaultWbits fuel (compress memory .raw defaultWbits [data]) =
      some (.ok data) := by
  have whole : [data].flatten = data := List.flatten_singleton
  have valid : validWbits defaultWbits = true := rfl
  have suits : Format.raw.readAs .raw = true := rfl
  obtain ⟨write, wrote, written⟩ :=
    compress_wrote memory .raw valid (show [data].flatten ≠ [] by rwa [whole])
  have read := wrote.decompress other suits valid valid (.inl (Nat.le_refl _)) []
    (show [data].flatten.length + defaultBufferSize ≤ fuel by rwa [whole])
  rwa [List.append_nil, whole, ← written] at read

/-- A text is read back as it was written if and only if there is any; of none nothing is written,
and reading nothing raises. -/
theorem decompress_compress_iff (memory other : Nat → UInt8) {data : List UInt8}
    (enough : data.length + defaultBufferSize ≤ fuel) :
    (decompress other .raw defaultWbits fuel (compress memory .raw defaultWbits [data]) =
      some (.ok data) ↔ data ≠ []) ∧
    compress memory .raw defaultWbits [[]] = [] ∧
    decompress other .raw defaultWbits fuel [] = some (.error .typeError) := by
  have large : defaultBufferSize = 256 := rfl
  have nothing := compress_nil memory .raw defaultWbits (List.flatten_singleton (l := []))
  have raises := decompress_nil other .raw defaultWbits (show 0 < fuel by omega)
  refine ⟨⟨?_, fun nonempty => decompress_single memory other nonempty enough⟩, nothing, raises⟩
  rintro read rfl
  rw [nothing, raises] at read
  cases read

/-- One byte, and no byte. -/
theorem decompress_compress_iff_one :
    (decompress (fun _ => 7) .raw defaultWbits 300
        (compress (fun _ => 255) .raw defaultWbits [[97]]) = some (.ok [97]) ↔
      ([97] : List UInt8) ≠ []) ∧
    compress (fun _ => 255) .raw defaultWbits [[]] = [] ∧
    decompress (fun _ => 7) .raw defaultWbits 300 [] = some (.error .typeError) :=
  decompress_compress_iff (fun _ => 255) (fun _ => 7) (by decide)

end RoundTrip

end VaultSeed.Uzlib
