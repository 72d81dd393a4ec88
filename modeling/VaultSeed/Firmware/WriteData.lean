import VaultSeed.Firmware.Flash

/-! # `write_data`

`firmware.py`: `write_data` reads its data from a file, chunk by chunk, puts the header before
the first chunk and the hash after the data, and erases and writes every chunk. A file may give
fewer bytes than it is asked for, and then the chunk is filled further in the next turn of the
loop.
-/

namespace VaultSeed.Firmware

open Python Effect

/-- `buffer[start:start + len(data)] = data`. -/
def splice (buffer : Bytes) (start : Nat) (data : Bytes) : Bytes :=
  buffer.take start ++ data ++ buffer.drop (start + data.length)

/-- `size.to_bytes(4, "little")` after a zero byte, the header of an image. -/
def imageHeader (size : Nat) : Bytes := 0 :: (toBytesBig 4 size).reverse

/-- The variables of `write_data` between two turns of its loop, with the open file. -/
structure Transfer (Source : Type) where
  i : Nat
  chunkRead : Nat
  totalRead : Nat
  readAttempts : Nat
  buffer : Bytes
  source : Source

section StreamData

variable {Source : Type} (read : Source → Nat → Bytes × Source) (res : Bool) (power : Option Cut)
  (address dataSize chunkSize : Nat) (header : Bool) (shaSuffix : Option Bytes)

/-- The first bytes of a chunk are the header. -/
def headerOffset (i : Nat) : Nat := if header ∧ i = 0 then 5 else 0

/-- The header of the image is written on its own. -/
def writeHeader (i curAddress : Nat) : Flashing Unit :=
  if header ∧ i = 0 then writeFlash power curAddress (imageHeader dataSize) else pure ()

/-- Erase a chunk of the flash and write the buffer to it. -/
def flushBuffer (i : Nat) (buffer : Bytes) : Flashing Unit := do
  let curAddress := i * chunkSize + address
  eraseFlash res power curAddress chunkSize
  writeHeader power dataSize header i curAddress
  writeFlash power (curAddress + headerOffset header i)
    (buffer.take (chunkSize - headerOffset header i))

/-- The second half of a turn: the hash follows the data where there is room, the rest of the
chunk is filled with zeros. -/
def finishTransfer (transfer : Transfer Source) : Flashing (Option (Transfer Source)) := do
  let suffix := shaSuffix.getD []
  let room := chunkSize - headerOffset header transfer.i
  let left := if shaSuffix.isSome ∧ dataSize ≤ transfer.totalRead then
      (suffix.drop (transfer.totalRead - dataSize)).take (room - transfer.chunkRead)
    else []
  let chunkRead := transfer.chunkRead + left.length
  let buffer := splice (splice transfer.buffer transfer.chunkRead left) chunkRead
    (List.replicate (room - chunkRead) 0)
  flushBuffer res power address dataSize chunkSize header transfer.i buffer
  pure (some ⟨transfer.i + 1, 0, transfer.totalRead + left.length, transfer.readAttempts, buffer,
    transfer.source⟩)

/-- One turn of the loop of `write_data`: `none` when everything is written. Without a hash its
length counts as zero. -/
def streamTurn (transfer : Transfer Source) : Flashing (Option (Transfer Source)) :=
  let suffix := shaSuffix.getD []
  let room := chunkSize - headerOffset header transfer.i
  if dataSize + suffix.length = 0 then Proc.throw .zeroDivisionError
  else if transfer.totalRead = dataSize + suffix.length then pure none
  else
    let next : Transfer Source × Nat :=
      if shaSuffix.isSome ∧ dataSize ≤ transfer.totalRead then
        let readBytes := suffix.drop (transfer.totalRead - dataSize)
        ({ transfer with
          buffer := splice transfer.buffer 0 readBytes
          totalRead := transfer.totalRead + readBytes.length }, readBytes.length)
      else
        let readBytes := (read transfer.source (room - transfer.chunkRead)).1
        ({ transfer with
          buffer := splice transfer.buffer transfer.chunkRead readBytes
          totalRead := transfer.totalRead + readBytes.length
          source := (read transfer.source (room - transfer.chunkRead)).2 },
          readBytes.length)
    let numRead := next.2
    let chunkRead := transfer.chunkRead + numRead
    if numRead = 0 ∧ transfer.chunkRead = 0 then
      if transfer.readAttempts < 5 then
        pure (some { next.1 with readAttempts := transfer.readAttempts + 1 })
      else Proc.throw (.valueError "failed to read")
    else if numRead ≠ 0 ∧ chunkRead < room ∧ next.1.totalRead < dataSize then
      pure (some { next.1 with chunkRead := chunkRead })
    else
      finishTransfer res power address dataSize chunkSize header shaSuffix
        { next.1 with chunkRead := chunkRead }

/-- The loop of `write_data`, for at most `fuel` turns. -/
def streamLoop : Nat → Transfer Source → Flashing Unit
  | 0, _ => Proc.throw .osError
  | fuel + 1, transfer => do
      match ← streamTurn read res power address dataSize chunkSize header shaSuffix transfer with
      | none => pure ()
      | some next => streamLoop fuel next

/-- `write_data`. Every turn reads a byte, is one of five attempts, or is the last. -/
def streamData (source : Source) : Flashing Unit :=
  streamLoop read res power address dataSize chunkSize header shaSuffix
    (dataSize + (shaSuffix.getD []).length + 7) ⟨0, 0, 0, 0, List.replicate chunkSize 0, source⟩

end StreamData

/-- A read that gives as much as it can, as that of `io.BytesIO` does. -/
def readBytes (source : Bytes) (size : Nat) : Bytes × Bytes := (source.take size, source.drop size)

/-- `write_data` as `upgrade` calls it, over bytes that are read whole. It erases sectors and
blocks only, and the status those return is the one of the driver. -/
def writeData (power : Option Cut) (address dataSize chunkSize : Nat) (header : Bool)
    (shaSuffix : Option Bytes) (data : Bytes) : Flashing Unit :=
  streamData readBytes false power address dataSize chunkSize header shaSuffix data

end VaultSeed.Firmware
