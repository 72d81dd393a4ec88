import VaultSeed.Uzlib.Checksums
import VaultSeed.Uzlib.Compress
import VaultSeed.Uzlib.Inflate

/-! # Streams that compress and decompress

`extmod/moddeflate.c` on a `BytesIO`, the headers of `lib/uzlib/header.c`, and the loops of
`py/stream.c` around them. A window is whatever the memory held.
-/

namespace VaultSeed.Uzlib

/-- `deflateio_format_t`. -/
inductive Format where
  | auto
  | raw
  | zlib
  | gzip
  deriving DecidableEq, Repr

/-- `DEFLATEIO_DEFAULT_WBITS`. -/
def defaultWbits : Nat := 10

/-- `deflateio_make_new`: the numbers of bits of a window that are accepted. -/
def validWbits (wbits : Nat) : Bool := wbits = 0 || 5 ≤ wbits && wbits ≤ 15

/-- `m_new` of a window. -/
def newWindow (memory : Nat → UInt8) (wbits : Nat) : List UInt8 :=
  (List.range (2 ^ wbits)).map memory

/-- `mp_obj_deflateio_write_t`. -/
structure WriteState where
  inputLen : Nat
  inputChecksum : Nat
  lz77 : Lz77State

/-- `mp_obj_deflateio_t` that is written to. -/
structure Writer where
  format : Format
  windowBits : Nat
  write : Option WriteState

/-- `deflateio_init_write`: the two bytes of the header of zlib. -/
def zlibHeader (wbits : Nat) : List UInt8 :=
  let first := 0x08 ||| (max (wbits - 8) 1) <<< 4
  [UInt8.ofNat first, UInt8.ofNat (0x80 ||| (31 - (first * 256 + 0x80) % 31))]

/-- `deflateio_init_write`: the header of gzip. -/
def gzipHeader : List UInt8 := [0x1f, 0x8b, 0x08, 0x00, 0x00, 0x00, 0x00, 0x00, 0x04, 0x03]

/-- `deflateio_init_write`: the header, and the checksum of no input. -/
def writeHeader (format : Format) (wbits : Nat) : List UInt8 × Nat :=
  match format with
  | .zlib => (zlibHeader wbits, 1)
  | .gzip => (gzipHeader, 0xffffffff)
  | _ => ([], 0)

/-- `deflateio_init_write`. -/
def initWrite (memory : Nat → UInt8) (writer : Writer) : WriteState :=
  match writer.write with
  | some write => write
  | none =>
    let wbits := if writer.windowBits = 0 then defaultWbits else writer.windowBits
    let header := writeHeader writer.format wbits
    ⟨0, header.2, startBlock (lz77Init header.1 (newWindow memory wbits) (2 ^ wbits))⟩

/-- `deflateio_write`: the checksum goes on. -/
def Format.checksum (format : Format) (buf : List UInt8) (checksum : Nat) : Nat :=
  match format with
  | zlib => adler32 buf checksum
  | gzip => crc32 buf checksum
  | _ => checksum

/-- `deflateio_write`. -/
def deflateioWrite (memory : Nat → UInt8) (writer : Writer) (buf : List UInt8) : Writer :=
  let write := initWrite memory writer
  { writer with
    write := some ⟨write.inputLen + buf.length, writer.format.checksum buf write.inputChecksum,
      lz77Compress write.lz77 buf⟩ }

/-- `mp_stream_write`: nothing is not written. -/
def streamWrite (memory : Nat → UInt8) (writer : Writer) (data : List UInt8) : Writer :=
  if 0 < data.length then deflateioWrite memory writer data else writer

/-- `put_le32`. -/
def putLe32 (value : Nat) : List UInt8 :=
  [UInt8.ofNat (value &&& 0xff), UInt8.ofNat (value >>> 8 &&& 0xff),
    UInt8.ofNat (value >>> 16 &&& 0xff), UInt8.ofNat (value >>> 24 &&& 0xff)]

/-- `put_be32`. -/
def putBe32 (value : Nat) : List UInt8 :=
  [UInt8.ofNat (value >>> 24 &&& 0xff), UInt8.ofNat (value >>> 16 &&& 0xff),
    UInt8.ofNat (value >>> 8 &&& 0xff), UInt8.ofNat (value &&& 0xff)]

/-- `deflateio_ioctl` with `MP_STREAM_CLOSE`: the footer. -/
def writeFooter (format : Format) (write : WriteState) : List UInt8 :=
  match format with
  | .zlib => putBe32 write.inputChecksum
  | .gzip => putLe32 (0xffffffff - write.inputChecksum) ++ putLe32 write.inputLen
  | _ => []

/-- `deflateio_ioctl` with `MP_STREAM_CLOSE`, and the value of the `BytesIO` then. -/
def closeWriter (writer : Writer) : List UInt8 :=
  match writer.write with
  | none => []
  | some write => (finishBlock write.lz77).dest ++ writeFooter writer.format write

/-- A `DeflateIO` on a `BytesIO` is written to and closed. -/
def compress (memory : Nat → UInt8) (format : Format) (wbits : Nat) (chunks : List (List UInt8)) :
    List UInt8 :=
  closeWriter (chunks.foldl (streamWrite memory) ⟨format, wbits, none⟩)

/-- `tinf_skip_bytes`. -/
def skipBytes : Nat → Source → Except Fault Source
  | 0, d => .ok d
  | num + 1, d => (getByte d).bind fun got => skipBytes num got.2

/-- `tinf_get_uint16`. -/
def getUint16 (d : Source) : Except Fault (Nat × Source) :=
  (getByte d).bind fun low =>
    (getByte low.2).bind fun high => .ok (high.1.toNat <<< 8 ||| low.1.toNat, high.2)

/-- `while (uzlib_get_byte(d))`. -/
def skipText : List UInt8 → Except Fault (List UInt8)
  | [] => .error .typeError
  | byte :: rest => if byte = 0 then .ok rest else skipText rest

/-- `uzlib_parse_zlib_gzip_header`: the fields of gzip that flags announce. -/
def skipFields (flg : Nat) (d : Source) : Except Fault Source :=
  (if flg &&& 4 ≠ 0 then (getUint16 d).bind fun xlen => skipBytes xlen.1 xlen.2 else .ok d).bind
    fun d => (if flg &&& 8 ≠ 0 then skipText d.source else .ok d.source).bind
      fun source => (if flg &&& 16 ≠ 0 then skipText source else .ok source).bind
        fun source =>
          if flg &&& 2 ≠ 0 then (getUint16 { d with source := source }).bind fun hcrc => .ok hcrc.2
          else .ok { d with source := source }

/-- What `uzlib_parse_zlib_gzip_header` finds: `wbits`, the checksum that follows, and its value
before the first byte. -/
structure Header where
  wbits : Nat
  checksumType : ChecksumType
  checksum : Nat
  deriving DecidableEq, Repr

/-- `uzlib_parse_zlib_gzip_header`, after the bytes that tell gzip. -/
def parseGzipHeader (d : Source) : Except Fault (Option Header × Source) :=
  (getByte d).bind fun method =>
    if method.1 ≠ 8 then .ok (none, method.2)
    else
      (getByte method.2).bind fun flg =>
        if flg.1.toNat &&& 0xe0 ≠ 0 then .ok (none, flg.2)
        else
          (skipBytes 6 flg.2).bind fun d =>
            (skipFields flg.1.toNat d).bind fun d => .ok (some ⟨15, .crc, 0xffffffff⟩, d)

/-- `uzlib_parse_zlib_gzip_header`. -/
def parseZlibGzipHeader (d : Source) : Except Fault (Option Header × Source) :=
  (getByte d).bind fun cmf =>
    (getByte cmf.2).bind fun flg =>
      if cmf.1 = 0x1f ∧ flg.1 = 0x8b then parseGzipHeader flg.2
      else if (256 * cmf.1.toNat + flg.1.toNat) % 31 ≠ 0 then .ok (none, flg.2)
      else if cmf.1.toNat &&& 0x0f ≠ 8 then .ok (none, flg.2)
      else if 7 < cmf.1.toNat >>> 4 then .ok (none, flg.2)
      else if flg.1.toNat &&& 0x20 ≠ 0 then .ok (none, flg.2)
      else .ok (some ⟨(cmf.1.toNat >>> 4) + 8, .adler, 1⟩, flg.2)

/-- `mp_obj_deflateio_read_t`. -/
structure Reader where
  decomp : Uncomp
  eof : Bool

/-- `deflateio_init_read`: `uzlib_uncomp_t` of zeros, with what the header sets. -/
def Header.uncomp (header : Header) (d : Source) : Uncomp :=
  ⟨d, [], header.checksum, header.checksumType, 0, 0, 0, 0, [], 0, 0, .zero, .zero⟩

/-- `deflateio_init_read`: what is not the format that was asked for. -/
def Format.refuses (format : Format) (header : Header) : Bool :=
  format = .zlib && header.checksumType ≠ .adler || format = .gzip && header.checksumType ≠ .crc

/-- `deflateio_init_read`: the window, for the bits found and the source after the header. -/
def startReader (memory : Nat → UInt8) (header : Header) (wbits : Nat) (d : Source) : Reader :=
  ⟨uncompressInit (header.uncomp d) (newWindow memory wbits) (2 ^ wbits), false⟩

/-- `deflateio_init_read`. -/
def initRead (memory : Nat → UInt8) (format : Format) (windowBits : Nat) (source : List UInt8) :
    Except Fault Reader :=
  if format = .raw then
    .ok (startReader memory ⟨0, .none, 0⟩ (if windowBits = 0 then defaultWbits else windowBits)
      ⟨source, 0, 0⟩)
  else
    (parseZlibGzipHeader ⟨source, 0, 0⟩).bind fun parsed =>
      match parsed.1 with
      | none => .error .einval
      | some header =>
        if format.refuses header then .error .einval
        else
          .ok (startReader memory header
            (if windowBits = 0 ∨ header.wbits < windowBits then header.wbits else windowBits)
            parsed.2)

/-- `tinf_get_be_uint32`. -/
def getBeUint32 (d : Source) : Except Fault (Nat × Source) :=
  (getByte d).bind fun first => (getByte first.2).bind fun second =>
    (getByte second.2).bind fun third => (getByte third.2).bind fun last =>
      .ok (((first.1.toNat <<< 8 ||| second.1.toNat) <<< 8 ||| third.1.toNat) <<< 8 |||
        last.1.toNat, last.2)

/-- `tinf_get_le_uint32`. -/
def getLeUint32 (d : Source) : Except Fault (Nat × Source) :=
  (getByte d).bind fun first => (getByte first.2).bind fun second =>
    (getByte second.2).bind fun third => (getByte third.2).bind fun last =>
      .ok (first.1.toNat ||| second.1.toNat <<< 8 ||| third.1.toNat <<< 16 |||
        last.1.toNat <<< 24, last.2)

/-- `uzlib_uncompress_chksum`: the checksum over what was put. -/
def updateChecksum (d : Uncomp) : Uncomp :=
  match d.checksumType with
  | .none => d
  | .adler => { d with checksum := adler32 d.dest d.checksum }
  | .crc => { d with checksum := crc32 d.dest d.checksum }

/-- `uzlib_uncompress_chksum`: the checksum at the end of the stream. -/
def verifyChecksum (d : Uncomp) : Except Fault (Status × Uncomp) :=
  match d.checksumType with
  | .none => .ok (.done, d)
  | .adler =>
    (getBeUint32 d.src).bind fun val =>
      if d.checksum ≠ val.1 then .ok (.chksumError, { d with src := val.2 })
      else .ok (.done, { d with src := val.2 })
  | .crc =>
    (getLeUint32 d.src).bind fun val =>
      if 0xffffffff - d.checksum ≠ val.1 then .ok (.chksumError, { d with src := val.2 })
      else (getLeUint32 val.2).bind fun size => .ok (.done, { d with src := size.2 })

/-- `uzlib_uncompress_chksum`, for a buffer of a size. -/
def uncompressChksum (size fuel : Nat) (d : Uncomp) :
    Option (Except Fault (Status × Uncomp)) :=
  match uncompressTurns size fuel false { d with dest := [] } with
  | none => none
  | some (.error fault) => some (.error fault)
  | some (.ok made) =>
    if made.1.failed then some (.ok made)
    else if made.1 = .done then some (verifyChecksum (updateChecksum made.2))
    else some (.ok (made.1, updateChecksum made.2))

/-- `deflateio_read`. -/
def deflateioRead (size fuel : Nat) (reader : Reader) :
    Option (Except Fault (List UInt8 × Reader)) :=
  if reader.eof then some (.ok ([], reader))
  else
    match uncompressChksum size fuel reader.decomp with
    | none => none
    | some (.error fault) => some (.error fault)
    | some (.ok made) =>
      if made.1.failed then some (.error .einval)
      else some (.ok (made.2.dest, ⟨made.2, made.1 = .done⟩))

/-- `DEFAULT_BUFFER_SIZE`. -/
def defaultBufferSize : Nat := 256

/-- `stream_readall`, the loop, with what was read so far. -/
def readallTurns (fuel : Nat) :
    Nat → Nat → List UInt8 → Reader → Option (Except Fault (List UInt8))
  | 0, _, _, _ => none
  | turns + 1, currentRead, total, reader =>
    match deflateioRead currentRead fuel reader with
    | none => none
    | some (.error fault) => some (.error fault)
    | some (.ok got) =>
      if got.1.length = 0 then some (.ok total)
      else
        readallTurns fuel turns
          (if got.1.length < currentRead then currentRead - got.1.length else defaultBufferSize)
          (total ++ got.1) got.2

/-- A `DeflateIO` on a `BytesIO` of the source is read to its end. -/
def decompress (memory : Nat → UInt8) (format : Format) (wbits : Nat) (fuel : Nat)
    (source : List UInt8) : Option (Except Fault (List UInt8)) :=
  match initRead memory format wbits source with
  | .error fault => some (.error fault)
  | .ok reader => readallTurns fuel fuel defaultBufferSize [] reader

/-- `mp_stream_rw` that reads, the loop. -/
def streamReadTurns (fuel : Nat) : Nat → Nat → List UInt8 → Reader →
    Option (Except Fault (List UInt8 × Reader))
  | 0, _, done, reader => some (.ok (done, reader))
  | turns + 1, size, done, reader =>
    if 0 < size then
      match deflateioRead size fuel reader with
      | none => none
      | some (.error fault) => some (.error fault)
      | some (.ok got) =>
        if got.1.length = 0 then some (.ok (done, got.2))
        else streamReadTurns fuel turns (size - got.1.length) (done ++ got.1) got.2
    else some (.ok (done, reader))

/-- `mp_stream_rw` that reads. -/
def streamRead (fuel size : Nat) (reader : Reader) : Option (Except Fault (List UInt8 × Reader)) :=
  streamReadTurns fuel size size [] reader

end VaultSeed.Uzlib
