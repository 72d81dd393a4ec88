import VaultSeed.Firmware.WriteData

/-! # The turns of `write_data`

A file delivers its bytes in pieces of any size. However the reads are cut, a turn of the loop
of `write_data` fills the chunk further or flushes the next bytes of the data and the hash,
filled up with zeros (`streamTurn_cases`). So what a flush of every chunk does, the whole of
`write_data` does chunk after chunk (`streamData_holds`).
-/

namespace VaultSeed.Firmware

open Python Effect Proc

/-- `read` delivers the bytes that are still to come, in pieces of its choice: a read returns a
beginning of them, at most what it is asked for, and nothing only when there is nothing left. -/
structure Delivers {Source : Type} (read : Source → Nat → Bytes × Source)
    (unread : Source → Bytes) : Prop where
  next : ∀ source size, unread source = (read source size).1 ++ unread (read source size).2
  bounded : ∀ source size, (read source size).1.length ≤ size
  nonempty : ∀ source size, 0 < size → unread source ≠ [] → (read source size).1 ≠ []

/-- Reading from bytes delivers them. -/
theorem readBytes_delivers : Delivers readBytes id where
  next source size := (List.take_append_drop size source).symm
  bounded source size := by
    rw [readBytes, List.length_take]
    exact Nat.min_le_left _ _
  nonempty source size positive some := by
    intro empty
    rcases List.take_eq_nil_iff.mp empty with zero | nothing
    · omega
    · exact some nothing

/-- A slice assignment goes on after what is already in the buffer. -/
theorem take_splice {buffer content data : Bytes} {count : Nat}
    (filled : buffer.take count = content) (length : content.length = count) :
    (splice buffer count data).take (count + data.length) = content ++ data := by
  rw [splice, filled, List.append_assoc, ← List.append_assoc]
  exact List.take_left' (by rw [List.length_append, length])

/-- The next bytes of a payload, filled up with zeros. -/
def chunkAt (payload : Bytes) (total room : Nat) : Bytes :=
  (payload.drop total).take room ++ List.replicate (room - (payload.drop total).length) 0

/-- A chunk fills its room. -/
@[simp] theorem length_chunkAt (payload : Bytes) (total room : Nat) :
    (chunkAt payload total room).length = room := by
  simp only [chunkAt, List.length_append, List.length_take, List.length_replicate]
  omega

/-- What was read, the beginning of the hash and zeros fill the buffer. -/
theorem take_splice_zeros {buffer content left : Bytes} {count room : Nat}
    (filled : buffer.take count = content) (length : content.length = count)
    (fits : count + left.length ≤ room) :
    (splice (splice buffer count left) (count + left.length)
        (List.replicate (room - (count + left.length)) 0)).take room =
      content ++ left ++ List.replicate (room - (count + left.length)) 0 := by
  have first := @take_splice buffer content left count filled length
  have second := @take_splice _ _ (List.replicate (room - (count + left.length)) 0) _ first
    (by rw [List.length_append, length])
  rw [List.length_replicate, Nat.add_sub_cancel' fits] at second
  exact second

section Turn

variable {Source : Type} {read : Source → Nat → Bytes × Source} {unread : Source → Bytes}
  {res : Bool} {power : Option Cut} {address chunkSize : Nat} {header : Bool}
  {shaSuffix : Option Bytes} {data : Bytes} {transfer : Transfer Source} {i total filled room : Nat}

/-- The variables while a chunk is being filled: `total` bytes of the data and the hash are in
the chunks before it, and the buffer begins with the `filled` bytes after them. -/
structure Filling (unread : Source → Bytes) (shaSuffix : Option Bytes) (data : Bytes)
    (transfer : Transfer Source) (i total filled : Nat) : Prop where
  index : transfer.i = i
  count : transfer.chunkRead = filled
  read : transfer.totalRead = total + filled
  held : transfer.buffer.take filled = ((data ++ shaSuffix.getD []).drop total).take filled
  unread : unread transfer.source = data.drop (total + filled)
  inside : filled = 0 ∨ total + filled < data.length

/-- A turn that flushes the chunk, and is at the beginning of the next one. -/
def Flushes (read : Source → Nat → Bytes × Source) (unread : Source → Bytes) (res : Bool)
    (power : Option Cut) (address chunkSize : Nat) (header : Bool) (shaSuffix : Option Bytes)
    (data : Bytes)
    (transfer : Transfer Source) (i total room : Nat) : Prop :=
  ∃ buffer next, streamTurn read res power address data.length chunkSize header shaSuffix transfer =
    (do
      flushBuffer res power address data.length chunkSize header i buffer
      pure (some next)) ∧
    buffer.take room = chunkAt (data ++ shaSuffix.getD []) total room ∧
    Filling unread shaSuffix data next (i + 1)
      (min (data ++ shaSuffix.getD []).length (total + room)) 0

/-- A turn flushes the chunk when what is in the buffer and the beginning of the hash are the
next bytes. -/
theorem flushes_of_finish {chunkRead totalRead readAttempts : Nat} {buffer content left : Bytes}
    {source : Source} (roomy : chunkSize - headerOffset header i = room)
    (turned : streamTurn read res power address data.length chunkSize header shaSuffix transfer =
      finishTransfer res power address data.length chunkSize header shaSuffix
        ⟨i, chunkRead, totalRead, readAttempts, buffer, source⟩)
    (reached : total ≤ (data ++ shaSuffix.getD []).length)
    (advanced : totalRead = total + chunkRead)
    (held : buffer.take chunkRead = content) (length : content.length = chunkRead)
    (part : (if shaSuffix.isSome = true ∧ data.length ≤ totalRead then
      ((shaSuffix.getD []).drop (totalRead - data.length)).take (room - chunkRead) else []) = left)
    (following : content ++ left = ((data ++ shaSuffix.getD []).drop total).take room)
    (rest : unread source = data.drop totalRead) (ends : left = [] ∨ data.length ≤ totalRead) :
    Flushes read unread res power address chunkSize header shaSuffix data transfer i total
      room := by
  have count := congrArg List.length following
  rw [List.length_append, length, List.length_take, List.length_drop] at count
  have sum : totalRead + left.length = min (data ++ shaSuffix.getD []).length (total + room) := by
    omega
  have written := @take_splice_zeros buffer content left chunkRead room held length (by omega)
  generalize spliced : splice (splice buffer chunkRead left) (chunkRead + left.length)
    (List.replicate (room - (chunkRead + left.length)) 0) = flushed at written
  refine ⟨flushed, ⟨i + 1, 0, totalRead + left.length, readAttempts, flushed, source⟩, ?_, ?_,
    rfl, rfl, sum, rfl, ?_, .inl rfl⟩
  · rw [turned]
    subst spliced part roomy
    rfl
  · rw [written, following, chunkAt, count, List.length_drop]
    congr 2
    omega
  · rw [rest, Nat.add_zero, ← sum]
    rcases ends with rfl | ended
    · rfl
    · rw [List.drop_of_length_le ended, List.drop_of_length_le (by omega)]

/-- A turn after the data: the rest of the hash. -/
theorem streamTurn_hash (here : Filling unread shaSuffix data transfer i total 0)
    (roomy : chunkSize - headerOffset header i = room)
    (short : (shaSuffix.getD []).length ≤ room)
    (hashing : shaSuffix.isSome = true ∧ data.length ≤ total)
    (more : total < data.length + (shaSuffix.getD []).length) :
    Flushes read unread res power address chunkSize header shaSuffix data transfer i total
      room := by
  obtain ⟨rfl, empty, same, -, rest, -⟩ := here
  rw [Nat.add_zero] at same rest
  subst same
  have count : ((shaSuffix.getD []).drop (transfer.totalRead - data.length)).length =
      data.length + (shaSuffix.getD []).length - transfer.totalRead := by
    rw [List.length_drop]
    omega
  have held := @take_splice transfer.buffer [] ((shaSuffix.getD []).drop
    (transfer.totalRead - data.length)) 0 rfl rfl
  rw [count, Nat.zero_add, List.nil_append] at held
  have nothing : (shaSuffix.getD []).drop (transfer.totalRead +
      (data.length + (shaSuffix.getD []).length - transfer.totalRead) - data.length) = [] :=
    List.drop_of_length_le (by omega)
  have following : (shaSuffix.getD []).drop (transfer.totalRead - data.length) ++ [] =
      ((data ++ shaSuffix.getD []).drop transfer.totalRead).take room := by
    rw [List.append_nil, List.drop_append, List.drop_of_length_le hashing.2, List.nil_append,
      List.take_of_length_le]
    omega
  apply flushes_of_finish roomy ?_ (by rw [List.length_append]; omega) rfl held count
    (by rw [nothing, List.take_nil, ite_self]) following ?_ (.inl rfl)
  · exact transfer.readAttempts
  · exact transfer.source
  · unfold streamTurn
    simp only [hashing, and_self, ↓reduceIte, empty, count, Nat.zero_add]
    rw [if_neg (by omega), if_neg (by omega), if_neg (by omega), if_neg (by omega)]
  · rw [rest, List.drop_of_length_le hashing.2, List.drop_of_length_le (by omega)]

/-- The beginning of the hash, right after the data. -/
theorem hash_part {totalRead space : Nat} (ended : data.length ≤ totalRead)
    (last : totalRead = data.length) :
    (if shaSuffix.isSome = true ∧ data.length ≤ totalRead then
      ((shaSuffix.getD []).drop (totalRead - data.length)).take space else []) =
      (shaSuffix.getD []).take space := by
  cases shaSuffix with
  | none => simp
  | some suffix => rw [if_pos ⟨rfl, ended⟩, last, Nat.sub_self, List.drop_zero]

/-- The data end in the chunk, and the hash follows them. -/
theorem hash_follows (last : total + filled = data.length) (space : filled ≤ room) :
    ((data ++ shaSuffix.getD []).drop total).take filled ++
      (shaSuffix.getD []).take (room - filled) =
        ((data ++ shaSuffix.getD []).drop total).take room := by
  have length : (data.drop total).length = filled := by
    rw [List.length_drop]
    omega
  have all : (data.drop total).take room = data.drop total := List.take_of_length_le (by omega)
  rw [List.drop_append_of_le_length (by omega), ← length, List.take_left, List.take_append, all]

/-- A read in a turn with data delivers some of them, and the buffer begins with the next bytes
again. -/
theorem Filling.of_read (delivers : Delivers read unread)
    (here : Filling unread shaSuffix data transfer i total filled) (space : filled < room)
    (before : total + filled < data.length) {readBytes : Bytes} {source : Source}
    (piece : read transfer.source (room - transfer.chunkRead) = (readBytes, source)) :
    0 < readBytes.length ∧ filled + readBytes.length ≤ room ∧
      total + filled + readBytes.length ≤ data.length ∧
      (splice transfer.buffer transfer.chunkRead readBytes).take (filled + readBytes.length) =
        ((data ++ shaSuffix.getD []).drop total).take (filled + readBytes.length) ∧
      unread source = data.drop (total + (filled + readBytes.length)) := by
  obtain ⟨rfl, rfl, same, held, rest, -⟩ := here
  have whole := delivers.next transfer.source (room - transfer.chunkRead)
  have bounded := delivers.bounded transfer.source (room - transfer.chunkRead)
  have nonempty := delivers.nonempty transfer.source (room - transfer.chunkRead) (by omega)
    (by rw [rest, ne_eq, List.drop_eq_nil_iff]; omega)
  rw [piece] at whole bounded nonempty
  rw [rest] at whole
  dsimp only at whole bounded
  have left := congrArg List.length whole
  rw [List.length_drop, List.length_append] at left
  refine ⟨List.length_pos_of_ne_nil nonempty, by omega, by omega, ?_, ?_⟩
  · have front : (data ++ shaSuffix.getD []).drop (total + transfer.chunkRead) =
        readBytes ++ (unread source ++ shaSuffix.getD []) := by
      rw [List.drop_append_of_le_length (by omega), whole, List.append_assoc]
    rw [take_splice held, List.take_add, List.drop_drop, front, List.take_left]
    rw [List.length_take, List.length_drop, List.length_append]
    omega
  · rw [← Nat.add_assoc, ← List.drop_drop, whole, List.drop_left]

/-- A turn with data: the chunk is filled further, or it is flushed. -/
theorem streamTurn_data (delivers : Delivers read unread)
    (here : Filling unread shaSuffix data transfer i total filled)
    (roomy : chunkSize - headerOffset header i = room) (space : filled < room)
    (before : total + filled < data.length) :
    Flushes read unread res power address chunkSize header shaSuffix data transfer i total room ∨
      ∃ next further, streamTurn read res power address data.length chunkSize header shaSuffix
          transfer = pure (some next) ∧
        filled < further ∧ further < room ∧
        Filling unread shaSuffix data next i total further := by
  generalize piece : read transfer.source (room - transfer.chunkRead) = result
  obtain ⟨readBytes, source⟩ := result
  obtain ⟨some, fits, inData, holds, unreadNow⟩ := here.of_read delivers space before piece
  obtain ⟨rfl, rfl, same, held, -, -⟩ := here
  have reading : ¬ (shaSuffix.isSome = true ∧ data.length ≤ transfer.totalRead) := by omega
  by_cases goesOn : transfer.chunkRead + readBytes.length < room ∧
      transfer.totalRead + readBytes.length < data.length
  · refine .inr ⟨⟨transfer.i, transfer.chunkRead + readBytes.length,
      transfer.totalRead + readBytes.length, transfer.readAttempts,
      splice transfer.buffer transfer.chunkRead readBytes, source⟩, _, ?_, ?_, goesOn.1,
      ⟨rfl, rfl, ?_, holds, unreadNow, .inr ?_⟩⟩
    · unfold streamTurn
      simp only [reading, ↓reduceIte, roomy, piece]
      rw [if_neg (by omega), if_neg (by omega), if_neg (by omega), if_pos ⟨by omega, goesOn⟩]
    · omega
    · change transfer.totalRead + readBytes.length = _
      omega
    · omega
  · have turned : streamTurn read res power address data.length chunkSize header shaSuffix
      transfer =
        finishTransfer res power address data.length chunkSize header shaSuffix ⟨transfer.i,
          transfer.chunkRead + readBytes.length, transfer.totalRead + readBytes.length,
          transfer.readAttempts, splice transfer.buffer transfer.chunkRead readBytes, source⟩ := by
      unfold streamTurn
      simp only [reading, ↓reduceIte, roomy, piece]
      rw [if_neg (by omega), if_neg (by omega), if_neg (by omega),
        if_neg (fun stays => goesOn stays.2)]
    have advanced : transfer.totalRead + readBytes.length =
        total + (transfer.chunkRead + readBytes.length) := by omega
    have count : (((data ++ shaSuffix.getD []).drop total).take
        (transfer.chunkRead + readBytes.length)).length =
        transfer.chunkRead + readBytes.length := by
      rw [List.length_take, List.length_drop, List.length_append]
      omega
    have reached : total ≤ (data ++ shaSuffix.getD []).length := by
      rw [List.length_append]
      omega
    rw [← advanced] at unreadNow
    -- The data end in this chunk and the hash follows, or they fill the chunk.
    by_cases ended : data.length ≤ transfer.totalRead + readBytes.length
    · exact .inl (flushes_of_finish roomy turned reached advanced holds count
        (hash_part ended (by omega)) (hash_follows (by omega) (by omega)) unreadNow (.inr ended))
    · have full : transfer.chunkRead + readBytes.length = room := by omega
      exact .inl (flushes_of_finish roomy turned reached advanced holds count
        (if_neg fun ends => ended ends.2) (by rw [List.append_nil, full]) unreadNow (.inl rfl))

/-- The turn after everything is written. -/
theorem streamTurn_done (some : 0 < (data ++ shaSuffix.getD []).length)
    (all : transfer.totalRead = (data ++ shaSuffix.getD []).length) :
    streamTurn read res power address data.length chunkSize header shaSuffix transfer =
      pure none := by
  rw [List.length_append] at some all
  unfold streamTurn
  rw [if_neg (by omega), if_pos all]

/-- A turn that is not the last: it fills the chunk further or flushes it. -/
theorem streamTurn_cases (delivers : Delivers read unread)
    (here : Filling unread shaSuffix data transfer i total filled)
    (roomy : chunkSize - headerOffset header i = room)
    (short : (shaSuffix.getD []).length ≤ room) (space : filled < room)
    (more : total + filled < (data ++ shaSuffix.getD []).length) :
    Flushes read unread res power address chunkSize header shaSuffix data transfer i total room ∨
      ∃ next further, streamTurn read res power address data.length chunkSize header shaSuffix
          transfer = pure (some next) ∧
        filled < further ∧ further < room ∧
        Filling unread shaSuffix data next i total further := by
  rw [List.length_append] at more
  by_cases before : total + filled < data.length
  · exact streamTurn_data delivers here roomy space before
  · rcases here.inside with rfl | inside
    · refine .inl (streamTurn_hash here roomy short ⟨?_, by omega⟩ more)
      cases shaSuffix with
      | none => simp only [Option.getD_none, List.length_nil] at more; omega
      | some suffix => rfl
    · exact absurd inside before

end Turn

section Image

variable {chunkSize : Nat} {header : Bool} {shaSuffix : Option Bytes} {data : Bytes}

/-- The header in front of the first chunk. -/
def frontOf (dataSize : Nat) (header : Bool) (i : Nat) : Bytes := if header ∧ i = 0 then
    imageHeader dataSize else []

/-- The front of a chunk is as long as the header's part of it. -/
theorem length_frontOf (dataSize : Nat) (header : Bool) (i : Nat) :
    (frontOf dataSize header i).length = headerOffset header i := by
  unfold frontOf headerOffset
  split <;> simp [imageHeader]

/-- Everything `write_data` writes in a row, without the zeros at the end. -/
def imageOf (header : Bool) (shaSuffix : Option Bytes) (data : Bytes) : Bytes :=
  frontOf data.length header 0 ++ (data ++ shaSuffix.getD [])

/-- What is written is as long as its parts. -/
theorem length_imageOf : (imageOf header shaSuffix data).length =
    headerOffset header 0 + (data ++ shaSuffix.getD []).length := by
  rw [imageOf, List.length_append, length_frontOf]

/-- The image from a chunk on. -/
theorem drop_imageOf (small : headerOffset header 0 ≤ chunkSize) (i : Nat) :
    (imageOf header shaSuffix data).drop (i * chunkSize) = frontOf data.length header i ++
      (data ++ shaSuffix.getD []).drop (i * chunkSize - headerOffset header 0) := by
  rw [imageOf]
  cases i with
  | zero => simp
  | succ i =>
      have far : headerOffset header 0 ≤ (i + 1) * chunkSize :=
        small.trans (Nat.le_mul_of_pos_left _ (Nat.succ_pos i))
      have nothing : frontOf data.length header (i + 1) = [] := if_neg (by simp)
      rw [List.drop_append, List.drop_of_length_le (by rw [length_frontOf]; exact far), nothing,
        length_frontOf]

/-- No chunk has a longer header than the first one. -/
theorem headerOffset_le (header : Bool) (i : Nat) :
    headerOffset header i ≤ headerOffset header 0 := by
  unfold headerOffset
  split <;> simp_all

/-- A chunk goes on where the chunks before it end. -/
theorem reached_next (small : headerOffset header 0 < chunkSize) (i : Nat) :
    i * chunkSize - headerOffset header 0 + (chunkSize - headerOffset header i) =
      (i + 1) * chunkSize - headerOffset header 0 := by
  rw [Nat.succ_mul]
  by_cases first : i = 0
  · subst first
    omega
  · have none : headerOffset header i = 0 := if_neg (by simp [first])
    have far : chunkSize ≤ i * chunkSize :=
      Nat.le_mul_of_pos_left _ (Nat.pos_of_ne_zero first)
    omega

/-- The part of the data and the hash in a chunk, filled up with zeros. -/
def blockOf (chunkSize : Nat) (header : Bool) (shaSuffix : Option Bytes) (data : Bytes) (i : Nat) :
    Bytes :=
  chunkAt (data ++ shaSuffix.getD []) (i * chunkSize - headerOffset header 0)
    (chunkSize - headerOffset header i)

/-- A block fills what the header leaves of a chunk. -/
@[simp] theorem length_blockOf (i : Nat) :
    (blockOf chunkSize header shaSuffix data i).length = chunkSize - headerOffset header i :=
  length_chunkAt _ _ _

/-- A chunk of the image, filled up with zeros. -/
def chunkOf (chunkSize : Nat) (header : Bool) (shaSuffix : Option Bytes) (data : Bytes) (i : Nat) :
    Bytes :=
  frontOf data.length header i ++ blockOf chunkSize header shaSuffix data i

/-- Every chunk has the size of one. -/
theorem length_chunkOf (small : headerOffset header 0 ≤ chunkSize) (i : Nat) :
    (chunkOf chunkSize header shaSuffix data i).length = chunkSize := by
  have offset := headerOffset_le header i
  rw [chunkOf, List.length_append, length_frontOf, length_blockOf]
  omega

/-- An image, filled up with zeros to a multiple of the chunk size. -/
def zeroPadded (chunkSize : Nat) (image : Bytes) : Bytes :=
  image ++ List.replicate ((chunkSize - image.length % chunkSize) % chunkSize) 0

/-- The number of chunks: those that begin inside the image. -/
theorem zeroPadded_count (positive : 0 < chunkSize) (image : Bytes) :
    ∃ count, (zeroPadded chunkSize image).length = count * chunkSize ∧
      ∀ i, i * chunkSize < image.length ↔ i < count := by
  have small := Nat.mod_lt image.length positive
  have parts := Nat.div_add_mod' image.length chunkSize
  generalize image.length / chunkSize = quotient at parts
  rw [zeroPadded, List.length_append, List.length_replicate]
  rcases Nat.eq_zero_or_pos (image.length % chunkSize) with none | some
  · refine ⟨quotient, by rw [none, Nat.sub_zero, Nat.mod_self]; omega, fun i => ?_⟩
    rw [← parts, none, Nat.add_zero]
    exact Nat.mul_lt_mul_right positive
  · refine ⟨quotient + 1, by rw [Nat.mod_eq_of_lt (by omega), Nat.succ_mul]; omega, fun i => ?_⟩
    constructor
    · intro inside
      have less : i * chunkSize < (quotient + 1) * chunkSize := by
        rw [Nat.succ_mul]
        omega
      exact Nat.lt_of_mul_lt_mul_right less
    · intro less
      have reach : i * chunkSize ≤ quotient * chunkSize :=
        Nat.mul_le_mul_right _ (Nat.le_of_lt_succ less)
      omega

end Image

/-- A procedure returns with a property of the chip, or ends otherwise. -/
def Through (kept : Chip → Prop) (ended : Outcome Exn Unit → Chip → Prop) :
    Outcome Exn Unit → Chip → Prop
  | .ok _, after => kept after
  | outcome, after => ended outcome after

section Rule

variable {Source : Type} {read : Source → Nat → Bytes × Source} {unread : Source → Bytes}
  {res : Bool} {power : Option Cut} {address chunkSize count : Nat} {header : Bool}
  {shaSuffix : Option Bytes} {data : Bytes} {kept : Nat → Chip → Prop}
  {ended : Outcome Exn Unit → Chip → Prop}

/-- What is asked of the flush of every chunk: it goes on from what holds before the chunk to
what holds after it, or ends. -/
def FlushesAll (res : Bool) (power : Option Cut) (address chunkSize : Nat) (header : Bool)
    (shaSuffix : Option Bytes) (data : Bytes) (count : Nat) (kept : Nat → Chip → Prop)
    (ended : Outcome Exn Unit → Chip → Prop) : Prop :=
  ∀ i < count, ∀ before, kept i before → ∀ buffer,
    buffer.take (chunkSize - headerOffset header i) =
      blockOf chunkSize header shaSuffix data i →
    Holds (flushBuffer res power address data.length chunkSize header i buffer) before
      (Through (kept (i + 1)) ended)

/-- The loop from inside a chunk on. -/
theorem streamLoop_holds (delivers : Delivers read unread)
    (small : headerOffset header 0 < chunkSize)
    (short : (shaSuffix.getD []).length ≤ chunkSize - headerOffset header 0)
    (some : 0 < (data ++ shaSuffix.getD []).length)
    (counts : ∀ i, i * chunkSize < (imageOf header shaSuffix data).length ↔ i < count)
    (flush : FlushesAll res power address chunkSize header shaSuffix data count kept ended)
    {fuel i total filled : Nat} {transfer : Transfer Source} {chip : Chip}
    (enough : (data ++ shaSuffix.getD []).length - (total + filled) < fuel)
    (here : Filling unread shaSuffix data transfer i total filled)
    (space : filled < chunkSize - headerOffset header i)
    (reached : total = min (data ++ shaSuffix.getD []).length
      (i * chunkSize - headerOffset header 0))
    (less : i ≤ count) (begins : kept i chip) :
    Holds (streamLoop read res power address data.length chunkSize header shaSuffix fuel transfer)
      chip (Through (kept count) ended) := by
  have size := @length_imageOf header shaSuffix data
  have sum : (data ++ shaSuffix.getD []).length = data.length + (shaSuffix.getD []).length :=
    List.length_append
  induction fuel generalizing i total filled transfer chip with
  | zero => omega
  | succ fuel ih =>
      have offset := headerOffset_le header i
      have start := counts i
      rw [streamLoop]
      by_cases done : total + filled = (data ++ shaSuffix.getD []).length
      · -- The hash is never read in two turns, so nothing is left in the buffer.
        have nothing := here.inside
        obtain rfl : i = count := by omega
        rw [streamTurn_done some (here.read.trans done)]
        exact Holds.bind_ok (pure_apply none) begins
      · have before := here.inside
        have inside : i * chunkSize < (imageOf header shaSuffix data).length := by omega
        rcases streamTurn_cases delivers here rfl (by omega) space (by omega) with
          ⟨buffer, next, turned, taken, there⟩ | ⟨next, further, turned, more, room, there⟩
        · have part : total = i * chunkSize - headerOffset header 0 := by omega
          have later : headerOffset header (i + 1) = 0 := if_neg (by simp)
          rw [part] at taken there
          rw [turned, bind_assoc, pure_bind]
          refine Holds.bind (flush i (start.mp inside) chip begins buffer taken) ?_
            (fun _ _ ends => ends) (fun _ ends => ends)
          intro _ after kept
          refine ih (by omega) there (by omega) ?_ (start.mp inside) kept
          rw [reached_next small]
        · rw [turned]
          exact Holds.bind_ok (pure_apply _) (ih (by omega) there room reached less begins)

/-- **The rule of `write_data`**: however the reads are cut, it does chunk after chunk what the
flush of every chunk does. -/
theorem streamData_holds (delivers : Delivers read unread)
    (small : headerOffset header 0 < chunkSize)
    (short : (shaSuffix.getD []).length ≤ chunkSize - headerOffset header 0)
    (some : 0 < (data ++ shaSuffix.getD []).length)
    (counts : ∀ i, i * chunkSize < (imageOf header shaSuffix data).length ↔ i < count)
    (flush : FlushesAll res power address chunkSize header shaSuffix data count kept ended)
    {source : Source} (unreadAll : unread source = data) {chip : Chip} (begins : kept 0 chip) :
    Holds (streamData read res power address data.length chunkSize header shaSuffix source) chip
      (Through (kept count) ended) := by
  refine @streamLoop_holds _ _ _ _ _ _ _ _ _ _ _ _ _ delivers small short some counts flush _ 0 0 0
    _ _ ?_
    ⟨rfl, rfl, rfl, rfl, unreadAll, .inl rfl⟩ (by omega) (by simp) (Nat.zero_le count) begins
  rw [List.length_append]
  omega

/-- Data of one chunk: `write_data` does what the flush of it does. -/
theorem streamData_single (delivers : Delivers read unread)
    (single : (imageOf header shaSuffix data).length ≤ chunkSize)
    (some : 0 < (data ++ shaSuffix.getD []).length) {post : Outcome Exn Unit → Chip → Prop}
    {chip : Chip} (flush : ∀ buffer, buffer.take (chunkSize - headerOffset header 0) =
        blockOf chunkSize header shaSuffix data 0 →
      Holds (flushBuffer res power address data.length chunkSize header 0 buffer) chip post)
    {source : Source} (unreadAll : unread source = data) :
    Holds (streamData read res power address data.length chunkSize header shaSuffix source) chip
      post := by
  rw [length_imageOf] at single
  have short : (shaSuffix.getD []).length ≤ chunkSize - headerOffset header 0 := by
    rw [List.length_append] at single
    omega
  have counts : ∀ i, i * chunkSize < (imageOf header shaSuffix data).length ↔ i < 1 := by
    intro i
    rw [length_imageOf]
    constructor
    · intro inside
      by_contra later
      have far := Nat.le_mul_of_pos_left chunkSize (by omega : 0 < i)
      omega
    · intro first
      rw [Nat.lt_one_iff.mp first, Nat.zero_mul]
      omega
  let kept (i : Nat) (after : Chip) : Prop := if i = 0 then after = chip else post (.ok ()) after
  have runs : Holds (streamData read res power address data.length chunkSize header shaSuffix
    source)
      chip (Through (kept 1) post) := by
    refine streamData_holds delivers (by omega) short some counts ?_ unreadAll rfl
    intro i first before begins buffer taken
    obtain rfl := Nat.lt_one_iff.mp first
    obtain rfl : before = chip := begins
    refine (flush buffer taken).mono ?_
    rintro (_ | _ | _) after done <;> exact done
  refine runs.mono ?_
  rintro (_ | _ | _) after done <;> exact done

end Rule

end VaultSeed.Firmware
