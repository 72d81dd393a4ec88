import VaultSeed.Uzlib.Trees

/-! # The decompressor

`lib/uzlib/tinflate.c` with a ring of history: blocks that are stored, with the static codes, and
with codes of their own, a byte of output at a time.
-/

namespace VaultSeed.Uzlib

/-- What `uzlib_uncompress` returns. -/
inductive Status where
  | ok
  | done
  | dataError
  | chksumError
  | dictError
  deriving DecidableEq, Repr

/-- `st < 0`. -/
def Status.failed : Status → Bool
  | ok => false
  | done => false
  | _ => true

/-- `UZLIB_CHKSUM_NONE`, `UZLIB_CHKSUM_ADLER` and `UZLIB_CHKSUM_CRC`. -/
inductive ChecksumType where
  | none
  | adler
  | crc
  deriving DecidableEq, Repr

/-- `uzlib_uncomp_t`; `dest` is what a call has put. -/
structure Uncomp where
  src : Source
  dest : List UInt8
  checksum : Nat
  checksumType : ChecksumType
  btype : Int
  bfinal : Nat
  curlen : Nat
  lzOff : Nat
  dictRing : List UInt8
  dictSize : Nat
  dictIdx : Nat
  ltree : Tree
  dtree : Tree

/-- `lookup_table_entry_t`. -/
structure LookupTableEntry where
  lengthBits : Nat
  lengthBase : Nat
  distBits : Nat
  distBase : Nat
  deriving DecidableEq, Repr

/-- `lookup_table`. -/
def lookupTable : List LookupTableEntry :=
  [⟨0, 3, 0, 1⟩, ⟨0, 4, 0, 2⟩, ⟨0, 5, 0, 3⟩, ⟨0, 6, 0, 4⟩, ⟨0, 7, 1, 5⟩, ⟨0, 8, 1, 7⟩,
    ⟨0, 9, 2, 9⟩, ⟨0, 10, 2, 13⟩, ⟨1, 11, 3, 17⟩, ⟨1, 13, 3, 25⟩, ⟨1, 15, 4, 33⟩, ⟨1, 17, 4, 49⟩,
    ⟨2, 19, 5, 65⟩, ⟨2, 23, 5, 97⟩, ⟨2, 27, 6, 129⟩, ⟨2, 31, 6, 193⟩, ⟨3, 35, 7, 257⟩,
    ⟨3, 43, 7, 385⟩, ⟨3, 51, 8, 513⟩, ⟨3, 59, 8, 769⟩, ⟨4, 67, 9, 1025⟩, ⟨4, 83, 9, 1537⟩,
    ⟨4, 99, 10, 2049⟩, ⟨4, 115, 10, 3073⟩, ⟨5, 131, 11, 4097⟩, ⟨5, 163, 11, 6145⟩,
    ⟨5, 195, 12, 8193⟩, ⟨5, 227, 12, 12289⟩, ⟨0, 258, 13, 16385⟩, ⟨0, 0, 13, 24577⟩]

/-- `clcidx`. -/
def clcidx : List Nat := [16, 17, 18, 0, 8, 7, 9, 6, 10, 5, 11, 4, 12, 3, 13, 2, 14, 1, 15]

/-- `uzlib_uncompress_init`. -/
def uncompressInit (d : Uncomp) (dict : List UInt8) (dictLen : Nat) : Uncomp :=
  { d with
    src := { d.src with bitcount := 0 }
    bfinal := 0
    btype := -1
    dictSize := dictLen
    dictRing := dict
    dictIdx := 0
    curlen := 0 }

/-- `TINF_PUT`. -/
def tinfPut (d : Uncomp) (c : UInt8) : Except Fault Uncomp :=
  (store d.dictRing d.dictIdx c).bind fun ring =>
    .ok { d with
      dest := d.dest ++ [c]
      dictRing := ring
      dictIdx := if d.dictIdx + 1 = d.dictSize then 0 else d.dictIdx + 1 }

/-- `lengths`, as many as there are literal, length and distance symbols. Nothing of it is read
before it is written, and zeros stand for what was in the memory. -/
def newLengths : List Nat := List.replicate (288 + 32) 0

/-- `tinf_decode_trees`: the lengths of the codes of lengths, from the place `i` of `clcidx` on,
with as many turns left. -/
def readCodeLengths : Nat → Nat → List Nat → Source → Except Fault (List Nat × Source)
  | 0, _, lengths, d => .ok (lengths, d)
  | turns + 1, i, lengths, d =>
    (readBits d 3 0).bind fun clen =>
      (fetch clcidx i).bind fun place =>
        (store lengths place clen.1).bind fun lengths =>
          readCodeLengths turns (i + 1) lengths clen.2

/-- `tinf_decode_trees`: `lbits` and `lbase` of the symbols that repeat a length. -/
def repeatBits (sym : Int) : Nat × Nat :=
  if sym = 16 then (2, 3) else if sym = 17 then (3, 3) else (7, 11)

/-- `tinf_decode_trees`: a length is repeated, from `num` on. -/
def fillLengths : Nat → Nat → Nat → List Nat → Except Fault (List Nat)
  | 0, _, _, lengths => .ok lengths
  | length + 1, num, fillValue, lengths =>
    (store lengths num fillValue).bind fun lengths =>
      fillLengths length (num + 1) fillValue lengths

/-- `tinf_decode_trees`: `lengths` is filled from `num` on; an error is nothing. -/
def readLengthsTurns (lt : Tree) (hlimit : Nat) :
    Nat → Nat → List Nat → Source → Except Fault (Option (List Nat) × Source)
  | 0, _, lengths, d => .ok (some lengths, d)
  | fuel + 1, num, lengths, d =>
    if num < hlimit then
      (decodeSymbol d lt).bind fun sym =>
        if sym.1 < 0 then .ok (none, sym.2)
        else if sym.1 = 16 ∨ sym.1 = 17 ∨ sym.1 = 18 then
          if sym.1 = 16 ∧ num = 0 then .ok (none, sym.2)
          else
            (if sym.1 = 16 then fetch lengths (num - 1 : Nat) else .ok 0).bind fun fillValue =>
              (readBits sym.2 (repeatBits sym.1).1 (repeatBits sym.1).2).bind fun length =>
                if hlimit < num + length.1 then .ok (none, length.2)
                else
                  (fillLengths length.1 num fillValue lengths).bind fun lengths =>
                    readLengthsTurns lt hlimit fuel (num + length.1) lengths length.2
        else
          (store lengths num sym.1.toNat).bind fun lengths =>
            readLengthsTurns lt hlimit fuel (num + 1) lengths sym.2
    else .ok (some lengths, d)

/-- The lengths that `tinf_build_tree` reads, `num` of them from a place on. -/
def lengthsFrom (lengths : List Nat) (start num : Nat) : Except Fault (List Nat) :=
  if start + num ≤ lengths.length then .ok ((lengths.drop start).take num) else .error .wild

/-- `tinf_decode_trees`. -/
def decodeTrees (d : Uncomp) : Except Fault (Status × Uncomp) :=
  (readBits d.src 5 257).bind fun hlit =>
    (readBits hlit.2 5 1).bind fun hdist =>
      (readBits hdist.2 4 4).bind fun hclen =>
        (readCodeLengths hclen.1 0 newLengths hclen.2).bind fun codes =>
          (lengthsFrom codes.1 0 19).bind fun codeLengths =>
            (buildTree d.ltree codeLengths).bind fun lt =>
              (readLengthsTurns lt (hlit.1 + hdist.1) (hlit.1 + hdist.1) 0 codes.1 codes.2).bind
                fun lengths =>
                  match lengths.1 with
                  | none => .ok (.dataError, { d with src := lengths.2, ltree := lt })
                  | some filled =>
                    (lengthsFrom filled 0 hlit.1).bind fun literals =>
                      (buildTree lt literals).bind fun lt =>
                        (lengthsFrom filled hlit.1 hdist.1).bind fun distances =>
                          (buildTree d.dtree distances).bind fun dt =>
                            .ok (.ok, { d with src := lengths.2, ltree := lt, dtree := dt })

/-- `tinf_inflate_block_data`: the next byte of a copy. -/
def copyByte (d : Uncomp) : Except Fault (Status × Uncomp) :=
  (fetch d.dictRing d.lzOff).bind fun c =>
    (tinfPut d c).bind fun d =>
      .ok (.ok, { d with
        lzOff := if d.lzOff + 1 = d.dictSize then 0 else d.lzOff + 1
        curlen := d.curlen - 1 })

/-- `tinf_inflate_block_data`: the distance of a copy. -/
def startCopy (d : Uncomp) : Except Fault (Status × Uncomp) :=
  (decodeSymbol d.src d.dtree).bind fun dist =>
    if 30 ≤ dist.1 then .ok (.dataError, { d with src := dist.2 })
    else
      (fetch lookupTable dist.1).bind fun entry =>
        (readBits dist.2 entry.distBits entry.distBase).bind fun offs =>
          if d.dictSize < offs.1 then .ok (.dictError, { d with src := offs.2 })
          else
            copyByte { d with
              src := offs.2
              lzOff := if offs.1 ≤ d.dictIdx then d.dictIdx - offs.1
                else d.dictIdx + d.dictSize - offs.1 }

/-- `tinf_inflate_block_data`. -/
def inflateBlockData (d : Uncomp) : Except Fault (Status × Uncomp) :=
  if d.curlen = 0 then
    (decodeSymbol d.src d.ltree).bind fun sym =>
      if sym.1 < 256 then
        (tinfPut { d with src := sym.2 } (UInt8.ofInt sym.1)).bind fun d => .ok (.ok, d)
      else if sym.1 = 256 then .ok (.done, { d with src := sym.2 })
      else if 29 ≤ sym.1 - 257 then .ok (.dataError, { d with src := sym.2 })
      else
        (fetch lookupTable (sym.1 - 257)).bind fun entry =>
          (readBits sym.2 entry.lengthBits entry.lengthBase).bind fun curlen =>
            startCopy { d with src := curlen.2, curlen := curlen.1 }
  else copyByte d

/-- `tinf_inflate_uncompressed_block`, after its length. -/
def storedByte (d : Uncomp) : Except Fault (Status × Uncomp) :=
  if d.curlen - 1 = 0 then .ok (.done, { d with curlen := 0 })
  else
    (getByte d.src).bind fun c =>
      (tinfPut { d with src := c.2, curlen := d.curlen - 1 } c.1).bind fun d => .ok (.ok, d)

/-- `tinf_inflate_uncompressed_block`. -/
def inflateUncompressedBlock (d : Uncomp) : Except Fault (Status × Uncomp) :=
  if d.curlen = 0 then
    (getByte d.src).bind fun low =>
      (getByte low.2).bind fun high =>
        (getByte high.2).bind fun invlow =>
          (getByte invlow.2).bind fun invhigh =>
            let length := low.1.toNat + 256 * high.1.toNat
            let invlength := invlow.1.toNat + 256 * invhigh.1.toNat
            if length ≠ 0xffff - invlength then .ok (.dataError, { d with src := invhigh.2 })
            else
              storedByte { d with
                src := { invhigh.2 with bitcount := 0 }
                curlen := length + 1 }
  else storedByte d

/-- `uzlib_uncompress`: a new block. -/
def nextBlk (d : Uncomp) : Except Fault (Status × Uncomp) :=
  (getbit d.src).bind fun bfinal =>
    (readBits bfinal.2 2 0).bind fun btype =>
      let d := { d with src := btype.2, bfinal := bfinal.1, btype := btype.1 }
      if btype.1 = 1 then
        let trees := buildFixedTrees d.ltree d.dtree
        .ok (.ok, { d with ltree := trees.1, dtree := trees.2 })
      else if btype.1 = 2 then decodeTrees d
      else .ok (.ok, d)

/-- `uzlib_uncompress`: the current block. -/
def processBlock (d : Uncomp) : Except Fault (Status × Uncomp) :=
  if d.btype = 0 then inflateUncompressedBlock d
  else if d.btype = 1 ∨ d.btype = 2 then inflateBlockData d
  else .ok (.dataError, d)

/-- `uzlib_uncompress`, the loop; `next` after `goto next_blk`. -/
def uncompressTurns (limit : Nat) :
    Nat → Bool → Uncomp → Option (Except Fault (Status × Uncomp))
  | 0, _, _ => none
  | fuel + 1, next, d =>
    match (if next ∨ d.btype = -1 then nextBlk d else .ok (.ok, d)) with
    | .error fault => some (.error fault)
    | .ok started =>
      if started.1 ≠ .ok then some (.ok started)
      else
        match processBlock started.2 with
        | .error fault => some (.error fault)
        | .ok made =>
          if made.1 = .done ∧ made.2.bfinal = 0 then uncompressTurns limit fuel true made.2
          else if made.1 ≠ .ok then some (.ok made)
          else if made.2.dest.length < limit then uncompressTurns limit fuel false made.2
          else some (.ok made)

end VaultSeed.Uzlib
