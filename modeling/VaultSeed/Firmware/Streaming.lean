import VaultSeed.Firmware.Writing

/-! # The image `write_data` writes

However the reads are cut, the flash holds the image filled up with zeros, and every chunk is
erased and written once, for the sizes and addresses `flash.erase` erases exactly
(`streamData_writes_image`). For another size nothing is erased, and from another address on
the erased sector is not the chunk (`streamData_erases_otherwise`).
-/

namespace VaultSeed.Firmware

open Python Effect Proc

section Image

/-- A chunk of the flash is erased, and written at once or the header first. -/
def chunkOperations (address chunkSize : Nat) (header : Bool) (content : Bytes) (i : Nat) :
    List FlashOp :=
  let start := i * chunkSize + address
  let block := (content.drop (i * chunkSize)).take chunkSize
  .erase start chunkSize ::
    if header ∧ i = 0 then [.write start (block.take 5), .write (start + 5) (block.drop 5)]
    else [.write start block]

/-- The chip with the first chunks of a content in the flash, each erased and written once and
in order. -/
def withChunks (chip : Chip) (address chunkSize : Nat) (header : Bool) (content : Bytes)
    (count : Nat) : Chip :=
  { chip with
    flash := chip.flash.write address (content.take (count * chunkSize))
    ops := ((List.range count).flatMap
      (chunkOperations address chunkSize header content)).reverse ++ chip.ops }

variable {res : Bool} {address chunkSize : Nat} {header : Bool} {shaSuffix : Option Bytes}
  {image data : Bytes} {i : Nat}

private theorem withChunks_zero (chip : Chip) (content : Bytes) :
    withChunks chip address chunkSize header content 0 = chip := by
  simp [withChunks]

/-- A chunk of the image, filled up with zeros. -/
theorem zeroPadded_chunk (positive : 0 < chunkSize) (inside : i * chunkSize < image.length) :
    ((zeroPadded chunkSize image).drop (i * chunkSize)).take chunkSize =
      (image.drop (i * chunkSize)).take chunkSize ++
        List.replicate (chunkSize - (image.drop (i * chunkSize)).length) 0 := by
  obtain ⟨count, whole, counts⟩ := zeroPadded_count positive image
  have reach : (i + 1) * chunkSize ≤ count * chunkSize :=
    Nat.mul_le_mul_right _ ((counts i).mp inside)
  rw [← whole, zeroPadded, List.length_append, List.length_replicate, Nat.succ_mul] at reach
  rw [zeroPadded, List.drop_append_of_le_length inside.le, List.take_append,
    List.take_replicate, Nat.min_eq_left]
  rw [List.length_drop]
  omega

/-- The chunks are those of the image, filled up with zeros. -/
theorem chunkOf_eq (small : headerOffset header 0 < chunkSize)
    (inside : i * chunkSize < (imageOf header shaSuffix data).length) :
    chunkOf chunkSize header shaSuffix data i =
      ((zeroPadded chunkSize (imageOf header shaSuffix data)).drop (i * chunkSize)).take
        chunkSize := by
  have offset := length_frontOf data.length header i
  have start := headerOffset_le header i
  obtain ⟨room, roomy⟩ : ∃ room, chunkSize - headerOffset header i = room := ⟨_, rfl⟩
  have whole : chunkSize = headerOffset header i + room := by omega
  rw [zeroPadded_chunk (Nat.zero_lt_of_lt small) inside, drop_imageOf small.le, chunkOf, blockOf,
    roomy, chunkAt]
  generalize (data ++ shaSuffix.getD []).drop (i * chunkSize - headerOffset header 0) = rest
  rw [List.length_append, offset, whole, Nat.add_sub_add_left, ← offset,
    List.take_length_add_append, List.append_assoc]

/-- A chunk is flushed when the power stays. -/
theorem flushBuffer_none (erasable : Erasable address chunkSize) {dataSize room : Nat}
    {buffer block : Bytes} (chip : Chip) (roomy : chunkSize = headerOffset header i + room)
    (taken : buffer.take room = block) (length : block.length = room) :
    flushBuffer res none address dataSize chunkSize header i buffer chip = (.ok (), { chip with
      flash := chip.flash.write (i * chunkSize + address) (frontOf dataSize header i ++ block)
      ops := (.erase (i * chunkSize + address) chunkSize ::
        if header ∧ i = 0 then [.write (i * chunkSize + address) (imageHeader dataSize),
          .write (i * chunkSize + address + 5) block]
        else [.write (i * chunkSize + address) block]).reverse ++ chip.ops }) := by
  have rest : chunkSize - headerOffset header i = room := by omega
  unfold flushBuffer writeHeader frontOf
  rw [bind_ok (eraseFlash_goes (erasable.chunk i) rfl), rest, taken]
  by_cases first : header = true ∧ i = 0
  · have offset : headerOffset header i = 5 := if_pos first
    have short : (imageHeader dataSize).length = 5 := by simp [imageHeader]
    rw [if_pos first, if_pos first, if_pos first, offset, bind_ok (writeFlash_goes rfl),
      writeFlash_goes rfl, write_erased _ _ _ (by omega), short]
    have behind := write_behind chip.flash (i * chunkSize + address) (chunkSize - 5)
      (imageHeader dataSize) (by omega : block.length ≤ chunkSize - 5)
    rw [short] at behind
    rw [behind, show chunkSize - 5 - block.length = 0 by omega, List.replicate_zero,
      List.append_nil]
    rfl
  · have offset : headerOffset header i = 0 := if_neg first
    rw [if_neg first, if_neg first, if_neg first, offset, bind_ok (pure_apply ()), Nat.add_zero,
      writeFlash_goes rfl, write_erased _ _ _ (by omega),
      show chunkSize - block.length = 0 by omega, List.replicate_zero, List.append_nil,
        List.nil_append]
    rfl

/-- A flushed chunk is the next one of the content. -/
theorem flushBuffer_chunk (erasable : Erasable address chunkSize) {buffer content : Bytes}
    {dataSize room : Nat} (chip : Chip)
    (roomy : chunkSize = headerOffset header i + room)
    (long : (i + 1) * chunkSize ≤ content.length)
    (next : frontOf dataSize header i ++ buffer.take room =
      (content.drop (i * chunkSize)).take chunkSize) :
    flushBuffer res none address dataSize chunkSize header i buffer
        (withChunks chip address chunkSize header content i) =
      (.ok (), withChunks chip address chunkSize header content (i + 1)) := by
  have offset := length_frontOf dataSize header i
  have length := congrArg List.length next
  rw [Nat.succ_mul] at long
  rw [List.length_append, List.length_take (i := chunkSize), List.length_drop,
    Nat.min_eq_left (by omega)] at length
  rw [flushBuffer_none erasable _ roomy rfl (by omega), next]
  have flash : (chip.flash.write address (content.take (i * chunkSize))).write
      (i * chunkSize + address) ((content.drop (i * chunkSize)).take chunkSize) =
      chip.flash.write address (content.take ((i + 1) * chunkSize)) := by
    rw [Nat.succ_mul, List.take_add, Memory.write_append, List.length_take,
      Nat.min_eq_left (by omega), Nat.add_comm address]
  have ops : chunkOperations address chunkSize header content i =
      .erase (i * chunkSize + address) chunkSize ::
        if header = true ∧ i = 0 then [.write (i * chunkSize + address) (imageHeader dataSize),
          .write (i * chunkSize + address + 5) (buffer.take room)]
        else [.write (i * chunkSize + address) (buffer.take room)] := by
    rw [chunkOperations, ← next]
    unfold frontOf at offset ⊢
    by_cases first : header = true ∧ i = 0
    · have five : headerOffset header i = 5 := if_pos first
      rw [if_pos first] at offset
      rw [if_pos first, if_pos first, if_pos first, ← five, ← offset, List.take_left,
        List.drop_left]
    · rw [if_neg first, if_neg first, if_neg first, List.nil_append]
  rw [withChunks, withChunks, flash, ← ops, List.range_succ, List.flatMap_append,
    List.flatMap_singleton, List.reverse_append, List.append_assoc]

/-- **`write_data` writes the image.** -/
theorem streamData_eq {Source : Type} {read : Source → Nat → Bytes × Source}
    {unread : Source → Bytes} (delivers : Delivers read unread)
    (erasable : Erasable address chunkSize) (chip : Chip) (source : Source)
    (unreadAll : unread source = data) (small : headerOffset header 0 < chunkSize)
    (short : (shaSuffix.getD []).length ≤ chunkSize - headerOffset header 0)
    (nonempty : data ≠ []) :
    streamData read res none address data.length chunkSize header shaSuffix source chip =
      (.ok (), withChunks chip address chunkSize header
        (zeroPadded chunkSize (imageOf header shaSuffix data))
        ((zeroPadded chunkSize (imageOf header shaSuffix data)).length / chunkSize)) := by
  obtain ⟨count, whole, counts⟩ := zeroPadded_count (Nat.zero_lt_of_lt small)
    (imageOf header shaSuffix data)
  have some := List.length_pos_of_ne_nil nonempty
  let kept (i : Nat) (after : Chip) : Prop := after = withChunks chip address chunkSize header
    (zeroPadded chunkSize (imageOf header shaSuffix data)) i
  have flush : FlushesAll res none address chunkSize header shaSuffix data count kept
      fun _ _ => False := by
    rintro i less _ rfl buffer taken
    have offset := headerOffset_le header i
    have flushed := @flushBuffer_chunk res address chunkSize header i erasable buffer
      (zeroPadded chunkSize (imageOf header shaSuffix data)) data.length
      (chunkSize - headerOffset header i) chip (by omega)
      (by rw [whole]; exact Nat.mul_le_mul_right _ less)
      (by rw [taken]; exact chunkOf_eq small ((counts i).mpr less))
    rw [Holds, flushed]
    exact rfl
  have ran := streamData_holds delivers small short
    (by rw [List.length_append]; omega) counts flush unreadAll (withChunks_zero chip _).symm
  rw [whole, Nat.mul_div_cancel _ (Nat.zero_lt_of_lt small)]
  unfold Holds at ran
  generalize streamData read res none address data.length chunkSize header shaSuffix source chip =
    result at ran ⊢
  obtain ⟨_ | _ | _, after⟩ := result
  · exact Prod.ext rfl ran
  · exact ran.elim
  · exact ran.elim

end Image

/-- What `write_data` leaves: the content from its address on and nothing else changed, each
chunk of it erased and written once, in order. -/
structure Written (address chunkSize : Nat) (header : Bool) (content : Bytes)
    (before after : Chip) : Prop where
  flash : after.flash = before.flash.write address content
  ops : after.ops.reverse = before.ops.reverse ++
    (List.range (content.length / chunkSize)).flatMap
      (chunkOperations address chunkSize header content)
  shown : after.shown = before.shown

private theorem withChunks_written {address chunkSize : Nat} (positive : 0 < chunkSize)
    (header : Bool)
    (image : Bytes) (chip : Chip) :
    Written address chunkSize header (zeroPadded chunkSize image) chip
      (withChunks chip address chunkSize header (zeroPadded chunkSize image)
        ((zeroPadded chunkSize image).length / chunkSize)) := by
  obtain ⟨count, whole, -⟩ := zeroPadded_count positive image
  refine ⟨?_, by simp [withChunks], rfl⟩
  rw [withChunks, whole, Nat.mul_div_cancel _ positive, ← whole, List.take_length]

/-- **The firmware image is written exactly**, however the reads are cut, to the sectors or
blocks from an address on: header, data, hash and zeros; without header and hash the data and
zeros. -/
theorem streamData_writes_image {Source : Type} {read : Source → Nat → Bytes × Source}
    {unread : Source → Bytes} (delivers : Delivers read unread) (res : Bool)
    {address chunkSize : Nat} (erasable : Erasable address chunkSize) (source : Source)
    (sha : Bytes)
    (chip : Chip) (nonempty : unread source ≠ []) (length : sha.length = 32) :
    (∃ after, streamData read res none address (unread source).length chunkSize true (some sha)
        source chip = (.ok (), after) ∧
      Written address chunkSize true (zeroPadded chunkSize
        (imageHeader (unread source).length ++ (unread source ++ sha))) chip after) ∧
    ∃ after, streamData read res none address (unread source).length chunkSize false none source
        chip = (.ok (), after) ∧
      Written address chunkSize false (zeroPadded chunkSize (unread source)) chip after := by
  have five : headerOffset true 0 = 5 := rfl
  have zero : headerOffset false 0 = 0 := rfl
  have plain : imageOf false none (unread source) = unread source := List.append_nil _
  have large : 4096 ≤ chunkSize := by
    rcases erasable.known with size | size <;> omega
  constructor
  · refine ⟨_, streamData_eq delivers erasable chip source rfl (by omega) ?_ nonempty,
      withChunks_written (by omega) _ _ _⟩
    rw [Option.getD_some, length]
    omega
  · have ran := @streamData_eq res address chunkSize false none _ Source read unread delivers
      erasable chip source rfl (by omega) (Nat.zero_le _) nonempty
    rw [plain] at ran
    exact ⟨_, ran, withChunks_written (by omega) _ _ _⟩

/-- Forty bytes read one at a time, to the second sector. -/
theorem streamData_writes_image_slow :
    ∃ after, streamData (fun (source : Bytes) size =>
      (source.take (min 1 size), source.drop (min 1 size)))
        false none 4096 40 4096 true (some (List.replicate 32 9)) (List.replicate 40 7)
          ⟨fun _ => 0, [], []⟩ = (.ok (), after) ∧
      Written 4096 4096 true (zeroPadded 4096 (imageHeader 40 ++ (List.replicate 40 7 ++
        List.replicate 32 9))) ⟨fun _ => 0, [], []⟩ after := by
  have delivers : Delivers (fun (source : Bytes) size =>
      (source.take (min 1 size), source.drop (min 1 size))) id := by
    refine ⟨fun source size => (List.take_append_drop _ source).symm, fun source size => ?_,
      fun source size positive some => ?_⟩
    · simp only [List.length_take]
      omega
    · rw [Nat.min_eq_left positive]
      simpa using some
  exact (streamData_writes_image delivers false ⟨.inl rfl, by decide⟩ (List.replicate 40 7)
    (List.replicate 32 9) ⟨fun _ => 0, [], []⟩ (by simp) (by simp)).1

/-- One byte with a hash of zeros is not written as an image: in chunks of 37 bytes, of which none
is erased whatever the status is, and in sectors from the address 8 on, where the first sector
is erased from its beginning. -/
theorem streamData_erases_otherwise :
    (¬ ∃ res after, streamData readBytes res none 0 1 37 true (some (List.replicate 32 0)) [7]
        ⟨fun _ => 0, [], []⟩ = (.ok (), after) ∧
      Written 0 37 true (zeroPadded 37 (imageHeader 1 ++ ([7] ++ List.replicate 32 0)))
        ⟨fun _ => 0, [], []⟩ after) ∧
    ¬ ∃ res after, streamData readBytes res none 8 1 4096 true (some (List.replicate 32 0)) [7]
        ⟨fun _ => 0, [], []⟩ = (.ok (), after) ∧
      Written 8 4096 true (zeroPadded 4096 (imageHeader 1 ++ ([7] ++ List.replicate 32 0)))
        ⟨fun _ => 0, [], []⟩ after := by
  constructor
  · rintro ⟨res, after, ran, written⟩
    cases res with
    | false =>
        have returned := congrArg Prod.fst ran
        dsimp only at returned
        exact absurd returned (by decide +kernel)
    | true =>
        have ops := written.ops
        rw [← show _ = after from congrArg Prod.snd ran] at ops
        exact absurd ops (by decide +kernel)
  · rintro ⟨res, after, ran, written⟩
    have first := congrArg List.head? written.ops
    rw [← show _ = after from congrArg Prod.snd ran] at first
    revert first
    cases res <;> decide +kernel

end VaultSeed.Firmware
