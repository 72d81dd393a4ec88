import VaultSeed.Firmware.Turns
import VaultSeed.Firmware.Upgrade

/-! # What `write_data` leaves in the flash

A chunk is erased, and its header and its block are written; a power cut leaves a beginning of
it (`flushBuffer_holds`). Whole, `write_data` puts the image in its slot and changes nothing
else (`writeData_image`); a configuration sector is erased and written, and a power cut leaves
a beginning of it (`writeData_sector`).
-/

namespace VaultSeed.Firmware

open Python Effect Proc

/-- What a power cut leaves of a chunk: a beginning, and erased bytes after it. -/
def torn (content : Bytes) (left : Nat) : Bytes :=
  content.take left ++ List.replicate (content.length - left) 0xFF

/-- A torn write keeps the length. -/
@[simp] theorem length_torn (content : Bytes) (left : Nat) :
    (torn content left).length = content.length := by
  simp only [torn, List.length_append, List.length_take, List.length_replicate]
  omega

/-- Writing over the beginning of an erased range. -/
theorem write_erased (memory : Memory) (start size : Nat) {data : Bytes}
    (fits : data.length ≤ size) :
    (memory.write start (List.replicate size 0xFF)).write start data =
      memory.write start (data ++ List.replicate (size - data.length) 0xFF) := by
  rw [Memory.write_write (by simpa using fits), List.drop_replicate]

/-- Writing behind a beginning into an erased range. -/
theorem write_behind (memory : Memory) (start size : Nat) (front : Bytes) {data : Bytes}
    (fits : data.length ≤ size) :
    (memory.write start (front ++ List.replicate size 0xFF)).write (start + front.length) data =
      memory.write start (front ++ (data ++ List.replicate (size - data.length) 0xFF)) := by
  rw [Memory.write_append, write_erased _ _ _ fits, ← Memory.write_append]


section Flush

variable (res : Bool) (power : Option Cut) {address chunkSize : Nat} (dataSize : Nat)
    (header : Bool)
  (i : Nat)

/-- The header is written into the erased chunk, or a power cut leaves a beginning of it. -/
theorem writeHeader_holds (chip : Chip) {start room : Nat} {memory : Memory} (some : chip.ops ≠ [])
    (erased : chip.flash = memory.write start
      (List.replicate (headerOffset header i + room) 0xFF)) :
    Holds (writeHeader power dataSize header i start) chip fun outcome after =>
      after.ops ≠ [] ∧
      (outcome = .ok () ∧ after.flash = memory.write start
          (frontOf dataSize header i ++ List.replicate room 0xFF) ∨
        outcome = .off ∧ ∃ left, after.flash = memory.write start
          (torn (frontOf dataSize header i) left ++ List.replicate room 0xFF)) := by
  have offset := length_frontOf dataSize header i
  unfold writeHeader
  unfold frontOf at offset ⊢
  split
  · rename_i first
    rw [if_pos first] at offset
    refine (writeFlash_holds power chip start (imageHeader dataSize)).mono ?_
    rintro outcome after ⟨ops, ⟨rfl, flash⟩ | ⟨rfl, left, flash⟩⟩
    · refine ⟨by simp [ops], .inl ⟨rfl, ?_⟩⟩
      rw [flash, erased, write_erased _ _ _ (by omega), offset, Nat.add_sub_cancel_left]
    · refine ⟨by simp [ops], .inr ⟨rfl, left, ?_⟩⟩
      have fits : ((imageHeader dataSize).take left).length ≤ headerOffset header i + room := by
        rw [List.length_take]
        omega
      rw [flash, erased, write_erased _ _ _ fits, torn, List.append_assoc,
        List.replicate_append_replicate, List.length_take]
      congr 3
      omega
  · rename_i other
    rw [if_neg other, List.length_nil] at offset
    refine ⟨some, .inl ⟨rfl, ?_⟩⟩
    change chip.flash = _
    rw [erased, ← offset, Nat.zero_add, List.nil_append]

/-- A cut in the front leaves a beginning of both. -/
private theorem torn_append_left (front block : Bytes) (left : Nat) :
    torn front left ++ List.replicate block.length 0xFF =
      torn (front ++ block) (min left front.length) := by
  rw [torn, torn, List.append_assoc, List.replicate_append_replicate,
    List.take_append_of_le_length (Nat.min_le_right _ _), ← List.take_take, List.take_length,
    List.length_append]
  congr 2
  omega

/-- A cut behind the front leaves it, and a beginning of the block. -/
private theorem torn_append_right (front block : Bytes) (left : Nat) :
    front ++ (block.take left ++ List.replicate (block.length - (block.take left).length) 0xFF) =
      torn (front ++ block) (front.length + left) := by
  rw [torn, List.take_length_add_append, List.length_append, List.length_take, List.append_assoc]
  congr 3
  omega

/-- **A chunk is flushed**, or a power cut leaves a beginning of it. -/
theorem flushBuffer_holds (erasable : Erasable address chunkSize) (chip : Chip)
    {buffer block : Bytes} {room : Nat} (roomy : chunkSize = headerOffset header i + room)
    (taken : buffer.take room = block) (length : block.length = room) :
    Holds (flushBuffer res power address dataSize chunkSize header i buffer) chip
      fun outcome after =>
      after.ops ≠ [] ∧
      (outcome = .ok () ∧ after.flash =
          chip.flash.write (i * chunkSize + address) (frontOf dataSize header i ++ block) ∨
        outcome = .off ∧ ∃ left, after.flash =
          chip.flash.write (i * chunkSize + address)
            (torn (frontOf dataSize header i ++ block) left)) := by
  have offset := length_frontOf dataSize header i
  subst roomy length
  have rest : headerOffset header i + block.length - headerOffset header i = block.length := by
    omega
  unfold flushBuffer
  refine Holds.bind (eraseFlash_holds (erasable.chunk i)) ?_ ?_ ?_
  · rintro _ erased ⟨_, ops, flash⟩
    refine Holds.bind (writeHeader_holds power dataSize header i erased (by simp [ops]) flash) ?_ ?_
      ?_
    · rintro _ headed ⟨_, ⟨_, flash⟩ | ⟨impossible, _⟩⟩
      · rw [rest, taken]
        refine (writeFlash_holds power headed _ block).mono ?_
        rintro outcome after ⟨ops, ⟨rfl, written⟩ | ⟨rfl, left, written⟩⟩
        · refine ⟨by simp [ops], .inl ⟨rfl, ?_⟩⟩
          rw [written, flash, ← offset, write_behind _ _ _ _ (by omega), Nat.sub_self,
            List.replicate_zero, List.append_nil]
        · refine ⟨by simp [ops], .inr ⟨rfl, headerOffset header i + left, ?_⟩⟩
          rw [written, flash, ← offset, write_behind _ _ _ _ (List.length_take_le' _ _),
            torn_append_right]
      · cases impossible
    · rintro exn after ⟨_, ⟨impossible, _⟩ | ⟨impossible, _⟩⟩ <;> cases impossible
    · rintro after ⟨ops, ⟨impossible, _⟩ | ⟨_, left, flash⟩⟩
      · cases impossible
      · exact ⟨ops, .inr ⟨rfl, _, by rw [flash, torn_append_left]⟩⟩
  · rintro exn after ⟨ends | ends, _⟩ <;> cases ends
  · rintro after ⟨_, ops, flash⟩
    refine ⟨by simp [ops], .inr ⟨rfl, 0, ?_⟩⟩
    rw [flash, torn, List.take_zero, List.nil_append, List.length_append, offset]
    rfl

end Flush

/-- Only the addresses of a range may have changed. -/
def Within (start length : Nat) (before after : Memory) : Prop :=
  ∀ address, address < start ∨ start + length ≤ address → after address = before address

private theorem Within.refl (start length : Nat) (memory : Memory) :
    Within start length memory memory :=
  fun _ _ => rfl

private theorem Within.trans {start length : Nat} {first second third : Memory}
    (left : Within start length first second) (right : Within start length second third) :
    Within start length first third :=
  fun address outside => (right address outside).trans (left address outside)

private theorem within_write {start length inner : Nat} {memory : Memory} {data : Bytes}
    (low : start ≤ inner) (high : inner + data.length ≤ start + length) :
    Within start length memory (memory.write inner data) :=
  fun _ outside => Memory.write_outside (by omega)

/-- A range apart from the changed one is the same. -/
theorem Within.agree {start length other size : Nat} {before after : Memory}
    (within : Within start length before after)
    (apart : other + size ≤ start ∨ start + length ≤ other) :
    Memory.Agree after before other size :=
  fun _ low high => within _ (by omega)

section Image

variable {res : Bool} {power : Option Cut} {address chunkSize limit : Nat} {header : Bool}
  {shaSuffix : Option Bytes} {data : Bytes}

/-- A flushed chunk holds the next part of the image. -/
theorem take_chunkOf (small : headerOffset header 0 ≤ chunkSize) (i : Nat) :
    (chunkOf chunkSize header shaSuffix data i).take
        ((imageOf header shaSuffix data).drop (i * chunkSize)).length =
      ((imageOf header shaSuffix data).drop (i * chunkSize)).take chunkSize := by
  have start := headerOffset_le header i
  obtain ⟨room, roomy⟩ : ∃ room, chunkSize - headerOffset header i = room := ⟨_, rfl⟩
  have whole : chunkSize = headerOffset header i + room := by omega
  rw [drop_imageOf small, chunkOf, blockOf, roomy, chunkAt]
  generalize (data ++ shaSuffix.getD []).drop (i * chunkSize - headerOffset header 0) = rest
  have offset := length_frontOf data.length header i
  have filled : (rest.take room ++ List.replicate (room - rest.length) 0).take rest.length =
      rest.take room := by
    by_cases long : room ≤ rest.length
    · rw [Nat.sub_eq_zero_of_le long, List.replicate_zero, List.append_nil, List.take_take,
        Nat.min_eq_right long]
    · rw [List.take_of_length_le (Nat.le_of_not_le long), List.take_left]
  rw [List.length_append, List.take_length_add_append, filled, whole, ← offset,
    List.take_length_add_append]

/-- Writing a chunk of the image behind the chunks before it. -/
theorem read_next {memory : Memory} {image block : Bytes} {i : Nat}
    (length : block.length = chunkSize) (begins : i * chunkSize < image.length)
    (part : block.take (image.drop (i * chunkSize)).length =
      (image.drop (i * chunkSize)).take chunkSize)
    (written : memory.read address (min (i * chunkSize) image.length) =
      image.take (i * chunkSize)) :
    (memory.write (i * chunkSize + address) block).read address
        (min ((i + 1) * chunkSize) image.length) = image.take ((i + 1) * chunkSize) := by
  rw [Nat.succ_mul]
  generalize i * chunkSize = start at *
  have split : min (start + chunkSize) image.length =
      start + min chunkSize (image.drop start).length := by
    rw [List.length_drop]
    omega
  have front : (memory.write (start + address) block).read address start = image.take start := by
    rw [Nat.min_eq_left begins.le] at written
    rw [← written]
    exact (Memory.agree_write (.inl (by omega))).read
  have back : (memory.write (start + address) block).read (address + start)
      (min chunkSize (image.drop start).length) = (image.drop start).take chunkSize := by
    rw [Nat.add_comm address, ← part, ← length, ← Memory.read_take (Nat.min_le_left _ _),
      Memory.read_write, ← List.take_take, List.take_of_length_le]
    rw [List.length_take]
    omega
  rw [split, Memory.read_add, front, back, ← List.take_add]

/-- The flush of every chunk, as the rule of `write_data` asks for it. -/
theorem flushesAll {count : Nat} {kept : Nat → Chip → Prop} {ended : Outcome Exn Unit → Chip → Prop}
    (erasable : Erasable address chunkSize) (small : headerOffset header 0 ≤ chunkSize)
    (next : ∀ i < count, ∀ before after, kept i before → after.ops ≠ [] →
      after.flash = before.flash.write (i * chunkSize + address)
        (chunkOf chunkSize header shaSuffix data i) → kept (i + 1) after)
    (cut : ∀ i < count, ∀ before after left, kept i before → after.ops ≠ [] →
      after.flash = before.flash.write (i * chunkSize + address)
        (torn (chunkOf chunkSize header shaSuffix data i) left) → ended .off after) :
    FlushesAll res power address chunkSize header shaSuffix data count kept ended := by
  intro i less before begins buffer taken
  have offset := headerOffset_le header i
  refine (flushBuffer_holds res power data.length header i erasable before
    (by omega : chunkSize = headerOffset header i + (chunkSize - headerOffset header i)) taken
    (length_blockOf i)).mono ?_
  rintro outcome after ⟨ops, ⟨rfl, flash⟩ | ⟨rfl, left, flash⟩⟩
  · exact next i less before after begins ops flash
  · exact cut i less before after left begins ops flash

/-- What a run of `write_data` does to the flash: outside its range nothing, and when it returns
the image is there. -/
structure Wrote (address limit : Nat) (image : Bytes) (before : Memory) (outcome : Outcome Exn Unit)
    (after : Chip) : Prop where
  returns : ∀ exn, outcome ≠ .raised exn
  within : Within address limit before after.flash
  complete : outcome = .ok () → after.flash.read address image.length = image

/-- **The image is written**, and nothing outside the chunks it is in. -/
theorem streamData_wrote {Source : Type} {read : Source → Nat → Bytes × Source}
    {unread : Source → Bytes} (delivers : Delivers read unread)
    (erasable : Erasable address chunkSize) (small : headerOffset header 0 < chunkSize)
    (short : (shaSuffix.getD []).length ≤ chunkSize - headerOffset header 0)
    (some : 0 < (data ++ shaSuffix.getD []).length)
    (inside : ∀ i, i * chunkSize < (imageOf header shaSuffix data).length →
      (i + 1) * chunkSize ≤ limit) {source : Source} (unreadAll : unread source = data)
    (chip : Chip) :
    Holds (streamData read res power address data.length chunkSize header shaSuffix source) chip
      (Wrote address limit (imageOf header shaSuffix data) chip.flash) := by
  obtain ⟨count, -, counts⟩ := zeroPadded_count (Nat.zero_lt_of_lt small)
    (imageOf header shaSuffix data)
  -- The chunks so far are in the flash, and nothing else has changed.
  let kept (i : Nat) (after : Chip) : Prop := Within address limit chip.flash after.flash ∧
    after.flash.read address (min (i * chunkSize) (imageOf header shaSuffix data).length) =
      (imageOf header shaSuffix data).take (i * chunkSize)
  let ended (outcome : Outcome Exn Unit) (after : Chip) : Prop :=
    (∀ exn, outcome ≠ .raised exn) ∧ Within address limit chip.flash after.flash
  have length := @length_chunkOf chunkSize header shaSuffix data small.le
  have flush : FlushesAll res power address chunkSize header shaSuffix data count kept ended := by
    refine flushesAll erasable small.le ?_ ?_
    · rintro i less before after ⟨within, written⟩ - flash
      have space := inside i ((counts i).mpr less)
      rw [Nat.succ_mul] at space
      refine ⟨within.trans ?_, ?_⟩
      · rw [flash]
        exact within_write (by omega) (by rw [length]; omega)
      · rw [flash]
        exact read_next (length i) ((counts i).mpr less) (take_chunkOf small.le i) written
    · rintro i less before after left ⟨within, -⟩ - flash
      have space := inside i ((counts i).mpr less)
      rw [Nat.succ_mul] at space
      refine ⟨fun exn => nofun, within.trans ?_⟩
      rw [flash]
      exact within_write (by omega) (by rw [length_torn, length]; omega)
  have begins : kept 0 chip := ⟨Within.refl _ _ _, by rw [Nat.zero_mul, Nat.zero_min]; rfl⟩
  refine (streamData_holds delivers small short some counts flush unreadAll begins).mono ?_
  rintro (_ | exn | _) after done
  · obtain ⟨within, written⟩ := done
    have whole : (imageOf header shaSuffix data).length ≤ count * chunkSize :=
      Nat.le_of_not_lt fun more => absurd ((counts count).mp more) (Nat.lt_irrefl _)
    rw [Nat.min_eq_right whole, List.take_of_length_le whole] at written
    exact ⟨fun exn => nofun, within, fun _ => written⟩
  · exact absurd rfl (done.1 exn)
  · exact ⟨done.1, done.2, nofun⟩

end Image
/-- The chunks of an image of an allowed size end inside a slot. -/
theorem image_chunks_inside {data hash : Bytes} (length : hash.length = 32)
    (fits : data.length ≤ maxFirmwareSize) (i : Nat)
    (begins : i * firmwareWriteChunkSize < (imageOf true (some hash) data).length) :
    (i + 1) * firmwareWriteChunkSize ≤ 0x310000 := by
  rw [length_imageOf, List.length_append, Option.getD_some, length, headerOffset,
    firmwareWriteChunkSize] at begins
  unfold maxFirmwareSize at fits
  rw [firmwareWriteChunkSize]
  simp only [and_self, ↓reduceIte] at begins
  omega


/-- **An image is written to its slot**: nothing outside the slot changes, and when the writing
is not interrupted the image is there. -/
theorem writeData_image (power : Option Cut) {address : Nat}
    (erasable : Erasable address firmwareWriteChunkSize) {data hash : Bytes} (chip : Chip)
    (length : hash.length = 32) (fits : data.length ≤ maxFirmwareSize) :
    Holds (writeData power address data.length firmwareWriteChunkSize true (some hash) data) chip
      (Wrote address 0x310000 (imageOf true (some hash) data) chip.flash) := by
  refine streamData_wrote readBytes_delivers erasable (by decide) ?_ ?_
    (image_chunks_inside length fits) rfl chip
  · rw [Option.getD_some, length]
    decide
  · rw [List.length_append, Option.getD_some, length]
    omega

section Sector

variable {sector : Bytes}

/-- A sector is the image of itself, in one block. -/
theorem blockOf_sector (length : sector.length = bootConfigSectorSize) :
    imageOf false none sector = sector ∧
      blockOf bootConfigSectorSize false none sector 0 = sector := by
  have whole : sector ++ (none : Option Bytes).getD [] = sector := List.append_nil _
  refine ⟨whole, ?_⟩
  rw [blockOf, whole, chunkAt, Nat.zero_mul, Nat.zero_sub, List.drop_zero, length]
  change sector.take bootConfigSectorSize ++ List.replicate (_ - _) 0 = _
  rw [List.take_of_length_le length.le, headerOffset, if_neg (by simp), Nat.sub_zero, Nat.sub_self,
    List.replicate_zero, List.append_nil]

/-- The writing of a sector does what the flush of it does. -/
theorem writeData_sector_of_flush {power : Option Cut} {address : Nat} {chip : Chip}
    {post : Outcome Exn Unit → Chip → Prop} (length : sector.length = bootConfigSectorSize)
    (flush : ∀ buffer, buffer.take bootConfigSectorSize = sector →
      Holds (flushBuffer false power address sector.length bootConfigSectorSize false 0 buffer)
        chip post) :
    Holds (writeData power address sector.length bootConfigSectorSize false none sector) chip
      post := by
  obtain ⟨image, block⟩ := blockOf_sector length
  refine streamData_single readBytes_delivers (by rw [image, length]) ?_ ?_ rfl
  · rw [Option.getD_none, List.append_nil, length]
    decide
  · intro buffer taken
    rw [block] at taken
    exact flush buffer taken

/-- **A configuration sector is written**, or a power cut leaves a beginning of it. -/
theorem writeData_sector (power : Option Cut) {address : Nat}
    (erasable : Erasable address bootConfigSectorSize) (chip : Chip)
    (length : sector.length = bootConfigSectorSize) :
    Holds (writeData power address sector.length bootConfigSectorSize false none sector) chip
      fun outcome after =>
        outcome = .ok () ∧ after.flash = chip.flash.write address sector ∨
        outcome = .off ∧ ∃ left, after.flash = chip.flash.write address (torn sector left) := by
  refine writeData_sector_of_flush length fun buffer taken => ?_
  have roomy : bootConfigSectorSize = headerOffset false 0 + bootConfigSectorSize := rfl
  have flushed := flushBuffer_holds false power sector.length false 0 erasable chip roomy taken
    length
  rw [Nat.zero_mul, Nat.zero_add] at flushed
  exact flushed.mono fun _ _ done => done.2

end Sector

/-- The slot an upgrade writes to. -/
def otherSlot (address : Nat) : Nat :=
  if address = firmwareSlot1 then firmwareSlot2 else firmwareSlot1

/-- The chunks of a slot are blocks. -/
theorem otherSlot_erasable (address : Nat) :
    Erasable (otherSlot address) firmwareWriteChunkSize := by
  unfold otherSlot
  split
  · exact ⟨.inr rfl, by decide⟩
  · exact ⟨.inr rfl, by decide⟩

/-- The configurations are sectors. -/
theorem mainBootConfig_erasable : Erasable mainBootConfigSectorAddress bootConfigSectorSize :=
  ⟨.inl rfl, by decide⟩

/-- The backup sector of the boot configuration can be erased. -/
theorem backupBootConfig_erasable : Erasable backupBootConfigSectorAddress bootConfigSectorSize :=
  ⟨.inl rfl, by decide⟩

section Cut

variable {res : Bool} {cut : Cut} {address chunkSize : Nat} {header : Bool}
  {shaSuffix : Option Bytes} {data : Bytes} {chip : Chip}

/-- The number of operations of a chunk. -/
def chunkOps (header : Bool) (i : Nat) : Nat := if header = true ∧ i = 0 then 3 else 2

/-- A chunk before the cut. -/
theorem flushBuffer_before (erasable : Erasable address chunkSize) {dataSize i : Nat}
    (buffer : Bytes) (later : chip.ops.length + chunkOps header i ≤ cut.operation) :
    Holds (flushBuffer res (some cut) address dataSize chunkSize header i buffer) chip
      fun outcome after => outcome = .ok () ∧
        after.ops.length = chip.ops.length + chunkOps header i := by
  unfold flushBuffer writeHeader
  unfold chunkOps at later ⊢
  split at later
  · rename_i first
    refine Holds.bind_ok (eraseFlash_goes (erasable.chunk i) (lostAt_before (by omega))) ?_
    rw [if_pos first]
    refine Holds.bind_ok (writeFlash_goes (lostAt_before ?_)) ?_
    · simp only [List.length_cons]
      omega
    · rw [Holds, writeFlash_goes (lostAt_before (by simp only [List.length_cons]; omega))]
      exact ⟨rfl, (if_pos first).symm ▸ rfl⟩
  · rename_i second
    refine Holds.bind_ok (eraseFlash_goes (erasable.chunk i) (lostAt_before (by omega))) ?_
    rw [if_neg second]
    refine Holds.bind_ok (pure_apply ()) ?_
    rw [Holds, writeFlash_goes (lostAt_before (by simp only [List.length_cons]; omega))]
    exact ⟨rfl, (if_neg second).symm ▸ rfl⟩

/-- Data of one chunk are written before the cut. -/
theorem writeData_before (erasable : Erasable address chunkSize) (nonempty : data ≠ [])
    (single : headerOffset header 0 + (data ++ shaSuffix.getD []).length ≤ chunkSize)
    (later : chip.ops.length + chunkOps header 0 ≤ cut.operation) :
    ∃ after, writeData (some cut) address data.length chunkSize header shaSuffix data chip =
        (.ok (), after) ∧ after.ops.length = chip.ops.length + chunkOps header 0 := by
  have positive := List.length_pos_of_ne_nil nonempty
  have ran := @streamData_single _ readBytes id false (some cut) address chunkSize header shaSuffix
    data readBytes_delivers (by rw [length_imageOf]; exact single)
    (by rw [List.length_append]; omega) _ chip
    (fun buffer _ => flushBuffer_before erasable buffer later) data rfl
  exact ⟨_, Prod.ext ran.1 rfl, ran.2⟩

/-- The power is lost at the first erase. -/
theorem writeData_lost (erasable : Erasable address chunkSize) (nonempty : data ≠ [])
    (small : headerOffset header 0 < chunkSize)
    (short : (shaSuffix.getD []).length ≤ chunkSize - headerOffset header 0)
    (now : chip.ops.length = cut.operation) :
    ∃ last, writeData (some cut) address data.length chunkSize header shaSuffix data chip =
        (.off, last) ∧ last.flash = chip.flash.write address (List.replicate chunkSize 0xFF) := by
  have positive := List.length_pos_of_ne_nil nonempty
  obtain ⟨count, -, counts⟩ := zeroPadded_count (Nat.zero_lt_of_lt small)
    (imageOf header shaSuffix data)
  let kept (i : Nat) (after : Chip) : Prop := i = 0 ∧ after = chip
  let ended (outcome : Outcome Exn Unit) (after : Chip) : Prop :=
    outcome = .off ∧ after.flash = chip.flash.write address (List.replicate chunkSize 0xFF)
  have stops : lostAt (some cut) chip = some cut.left := if_pos now
  have flush : FlushesAll false (some cut) address chunkSize header shaSuffix data count kept
      ended := by
    rintro _ _ _ ⟨rfl, rfl⟩ buffer _
    refine Holds.bind_off (eraseFlash_lost (erasable.chunk 0) stops) ⟨rfl, ?_⟩
    rw [Nat.zero_mul, Nat.zero_add]
  have ran : Holds (writeData (some cut) address data.length chunkSize header shaSuffix data) chip
      (Through (kept count) ended) :=
    streamData_holds readBytes_delivers small short (by rw [List.length_append]; omega) counts flush
      rfl ⟨rfl, rfl⟩
  have first : 0 < count := (counts 0).mp (by rw [length_imageOf, List.length_append]; omega)
  unfold Holds at ran
  generalize writeData (some cut) address data.length chunkSize header shaSuffix data chip = result
    at ran ⊢
  obtain ⟨_ | exn | _, last⟩ := result
  · exact absurd ran.1 first.ne'
  · cases ran.1
  · exact ⟨last, rfl, ran.2⟩

end Cut

end VaultSeed.Firmware
