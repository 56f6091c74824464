/-
The bitmap compression of `bitmap_compression.c` over the bit streams of
`bitstream.c`: words that are all zeros or all ones take two bits, repeats of
the last word a counter, any other word its 32 bits; a bitmap that does not get
smaller that way is stored as it is.
-/
import Greenplum.BitCursor
import Greenplum.ByteMemory
import Greenplum.ByteNumbers

namespace Greenplum.BitmapCompression

abbrev Byte := BitVec 8

abbrev Word := BitVec 32

/-- An in-memory bit stream: `byteOffset` and `bitOffset` are the cursor. -/
structure Bitstream where
  bitOffset : Nat
  byteOffset : Nat
  data : List Byte
  dataSize : Nat
  error : Bool
deriving Repr, DecidableEq

namespace Bitstream

def init (data : List Byte) (dataSize : Nat) : Bitstream :=
  ⟨0, 0, data, dataSize, false⟩

variable (bitstream : Bitstream)

def checkForError : Bitstream × Bool :=
  if bitstream.error then (bitstream, false)
  else if bitstream.dataSize ≤ bitstream.byteOffset then
    ({ bitstream with error := true, byteOffset := 0 }, false)
  else (bitstream, true)

/-- Move the cursor over one bit. -/
def nextBit : Bitstream :=
  if bitstream.bitOffset + 1 = 8 then
    { bitstream with bitOffset := 0, byteOffset := bitstream.byteOffset + 1 }
  else { bitstream with bitOffset := bitstream.bitOffset + 1 }

def getBit : Bitstream × Option Bool :=
  let (bitstream, ok) := bitstream.checkForError
  if ok then
    let c := bitstream.data.getD bitstream.byteOffset 0
    let mask := 1#8 <<< (7 - bitstream.bitOffset)
    (bitstream.nextBit, some (c &&& mask != 0))
  else (bitstream, none)

def putBit (v : Bool) : Bitstream × Bool :=
  let (bitstream, ok) := bitstream.checkForError
  if ok then
    let mask := 1#8 <<< (7 - bitstream.bitOffset)
    let data := if v then
        bitstream.data.modify bitstream.byteOffset fun byte => byte ||| mask
      else bitstream.data
    ({ bitstream with data := data }.nextBit, true)
  else (bitstream, false)

/-- Skip the given number of bits. -/
def skip (skipBitCount : Nat) : Bitstream × Bool :=
  let (bitstream, ok) := bitstream.checkForError
  if ok then
    let newBitOffset := bitstream.bitOffset + skipBitCount
    ({ bitstream with
        bitOffset := newBitOffset % 8
        byteOffset := bitstream.byteOffset + newBitOffset / 8 }, true)
  else (bitstream, false)

/-- The loop of `get`, with the bits read so far in `v`. -/
def getLoop : Nat → Word → Bitstream → Bitstream × Option Word
  | 0, v, bitstream => (bitstream, some v)
  | n + 1, v, bitstream =>
    match bitstream.getBit with
    | (bitstream, none) => (bitstream, none)
    | (bitstream, some tmp) =>
      getLoop n (v <<< 1 ||| BitVec.setWidth 32 (BitVec.ofBool tmp)) bitstream

/-- Read `n` bits as a number. -/
def get (n : Nat) : Bitstream × Option Word :=
  getLoop n 0 bitstream

/-- The loop of `put`: `mask` stands at the next bit to write. -/
def putLoop (v : Word) : Nat → Word → Bitstream → Bitstream × Bool
  | 0, _, bitstream => (bitstream, true)
  | bitCount + 1, mask, bitstream =>
    match bitstream.putBit (v &&& mask != 0) with
    | (bitstream, false) => (bitstream, false)
    | (bitstream, true) => putLoop v bitCount (mask >>> 1) bitstream

/-- Write the lowest `bitCount` bits of a number. -/
def put (v : Word) (bitCount : Nat) : Bitstream × Bool :=
  putLoop v bitCount (1#32 <<< (bitCount - 1)) bitstream

def getOffset : Nat :=
  bitstream.byteOffset * 8 + bitstream.bitOffset

def align (alignment : Nat) : Bitstream × Bool :=
  let forAlignment := bitstream.getOffset % alignment
  if 0 < forAlignment then bitstream.skip (alignment - forAlignment)
  else (bitstream, true)

/-- The byte offset of the data aligned to the next given alignment. -/
def getAlignedData (alignment : Nat) : Nat :=
  (bitstream.align alignment).1.byteOffset

/-- The number of bytes the stream has written data to. -/
def getLength : Nat :=
  if bitstream.bitOffset = 0 then bitstream.byteOffset
  else bitstream.byteOffset + 1

end Bitstream

inductive CompressionType where
  | no
  | default
deriving Repr, DecidableEq

def CompressionType.code : CompressionType → Word
  | no => 0
  | default => 1

/-- The two-bit marks of the default compression. -/
inductive Flag where
  | zero
  | one
  | rle
  | raw
deriving Repr, DecidableEq

def Flag.code : Flag → Word
  | zero => 0
  | one => 1
  | rle => 2
  | raw => 3

/-- Do `next` if the step before it succeeded. -/
def andThen (step : Bitstream × Bool) (next : Bitstream → Bitstream × Bool) : Bitstream × Bool :=
  if step.2 then next step.1 else step

def putFlags (flag : Flag) : Nat → Bitstream → Bitstream × Bool
  | 0, bitstream => (bitstream, true)
  | count + 1, bitstream =>
    andThen (bitstream.put flag.code 2) (putFlags flag count)

/-- Write a run of `rleRepeatCount` repeats of the last word.  For a short run
of zeros or ones it is better to write the words themselves. -/
def bitmapEncodeRLE (bitstream : Bitstream) (rleRepeatCount : Nat)
    (lastBlockFlag : Flag) : Bitstream × Bool :=
  if lastBlockFlag = .raw ∨ 4 < rleRepeatCount then
    andThen (bitstream.put Flag.rle.code 2) fun bitstream =>
      bitstream.put (BitVec.ofNat 32 (rleRepeatCount - 1)) 8
  else putFlags lastBlockFlag rleRepeatCount bitstream

/-- What the loop of the encoder carries from word to word. -/
structure Encoder where
  bitstream : Bitstream
  lastBlockData : Word
  lastBlockFlag : Flag
  rleRepeatCount : Nat
deriving Repr, DecidableEq

/-- Write the pending run, if there is one. -/
def Encoder.flush (encoder : Encoder) : Bitstream × Bool :=
  if 0 < encoder.rleRepeatCount then
    bitmapEncodeRLE encoder.bitstream encoder.rleRepeatCount encoder.lastBlockFlag
  else (encoder.bitstream, true)

/-- Write one word by its value. -/
def putBlock (blockData : Word) (bitstream : Bitstream) : (Bitstream × Bool) × Flag :=
  if blockData = 0 then (bitstream.put Flag.zero.code 2, .zero)
  else if blockData = 0xFFFFFFFF then (bitstream.put Flag.one.code 2, .one)
  else
    (andThen (bitstream.put Flag.raw.code 2) fun bitstream =>
      bitstream.put blockData 32, .raw)

/-- The loop over the words; `i` is the index of the first of those left. -/
def compressLoop : List Word → Nat → Encoder → Option Encoder
  | [], _, encoder => some encoder
  | blockData :: rest, i, encoder =>
    if blockData = encoder.lastBlockData ∧ encoder.rleRepeatCount ≤ 255 ∧ 0 < i then
      compressLoop rest (i + 1) { encoder with rleRepeatCount := encoder.rleRepeatCount + 1 }
    else
      match encoder.flush with
      | (_, false) => none
      | (bitstream, true) =>
        match putBlock blockData bitstream with
        | ((_, false), _) => none
        | ((bitstream, true), flag) =>
          compressLoop rest (i + 1) ⟨bitstream, blockData, flag, 0⟩

variable (bitmap : List Word)

/-- The default compression, or `none` when the buffer is too small for it. -/
def bitmapCompressDefault (bitstream : Bitstream) : Option Bitstream :=
  match compressLoop bitmap 0 ⟨bitstream, 0, .zero, 0⟩ with
  | none => none
  | some encoder =>
    match encoder.flush with
    | (_, false) => none
    | (bitstream, true) => some bitstream

def bitmapCompressWriteHeader (compressionType : CompressionType)
    (blockCount : Nat) (bitstream : Bitstream) : Bitstream × Bool :=
  andThen (bitstream.put compressionType.code 1) fun bitstream =>
    andThen (bitstream.skip 3) fun bitstream =>
      bitstream.put (BitVec.ofNat 32 blockCount) 12

inductive CompressError where
  | header
deriving Repr, DecidableEq

/-- The bytes of the words as they lie in memory. -/
def wordBytes : List Byte :=
  bitmap.flatMap fun word => ByteNumbers.leBytes 4 word.toNat

/-- Header and words without compression. -/
def bitmapCompressNo (maxOutDataSize : Nat) : Except CompressError (Nat × List Byte) :=
  let outData := List.replicate maxOutDataSize 0
  match bitmapCompressWriteHeader .no bitmap.length (Bitstream.init outData maxOutDataSize) with
  | (_, false) => .error .header
  | (bitstream, true) =>
    if bitmap.length = 0 then .ok (2, bitstream.data)
    else
      .ok (bitmap.length * 4 + 2, ByteMemory.writeAt bitstream.data
        (bitstream.getAlignedData 16) (wordBytes bitmap))

/-- Compress a bitmap into a buffer of `maxOutDataSize` bytes: the length of the
result and the buffer.  The buffer is cleared first, so what it held before does
not matter. -/
def bitmapCompress (compressionType : CompressionType) (bitmap : List Word)
    (maxOutDataSize : Nat) : Except CompressError (Nat × List Byte) :=
  match compressionType with
  | .no => bitmapCompressNo bitmap maxOutDataSize
  | .default =>
    let outData := List.replicate maxOutDataSize 0
    match bitmapCompressWriteHeader .default bitmap.length
        (Bitstream.init outData maxOutDataSize) with
    | (_, false) => .error .header
    | (bitstream, true) =>
      match bitmapCompressDefault bitmap bitstream with
      | none => bitmapCompressNo bitmap maxOutDataSize
      | some bitstream => .ok (bitstream.getLength, bitstream.data)

structure DecompressState where
  bitstream : Bitstream
  compressionType : Nat
  blockCount : Nat
deriving Repr, DecidableEq

/-- Start a decompression run.  The flag tells whether the header was read; the
fields that were not read are undefined, here zero. -/
def bitmapDecompressInit (inData : List Byte) (inDataSize : Nat) : DecompressState × Bool :=
  match (Bitstream.init inData inDataSize).get 1 with
  | (bitstream, none) => (⟨bitstream, 0, 0⟩, false)
  | (bitstream, some compressionType) =>
    match bitstream.skip 3 with
    | (bitstream, false) => (⟨bitstream, compressionType.toNat, 0⟩, false)
    | (bitstream, true) =>
      match bitstream.get 12 with
      | (bitstream, none) => (⟨bitstream, compressionType.toNat, 0⟩, false)
      | (bitstream, some blockCount) =>
        (⟨bitstream, compressionType.toNat, blockCount.toNat⟩, true)

def bitmapDecompressHasError (state : DecompressState) : Bool :=
  state.bitstream.error

inductive DecompressError where
  | blockCount
  | rleState
  | readError
  | compressionType
deriving Repr, DecidableEq

/-- What the loop of the decoder carries from word to word. -/
structure Decoder where
  bitstream : Bitstream
  bitmap : List Word
  lastBlockData : Word
  rleRepeatCount : Nat
  failed : Bool
deriving Repr, DecidableEq

/-- The `switch` on the mark: the word at index `i`, the repeat counter and the
error flag.  A failed read leaves the word and the counter as they were. -/
def decodeFlag (flag : Word) (i : Nat) (decoder : Decoder) : Decoder :=
  if flag = Flag.zero.code then
    { decoder with bitmap := decoder.bitmap.set i 0 }
  else if flag = Flag.one.code then
    { decoder with bitmap := decoder.bitmap.set i 0xFFFFFFFF }
  else if flag = Flag.raw.code then
    match decoder.bitstream.get 32 with
    | (bitstream, none) =>
      { decoder with bitstream := bitstream, failed := true }
    | (bitstream, some word) =>
      { decoder with
        bitstream := bitstream
        bitmap := decoder.bitmap.set i word }
  else
    match decoder.bitstream.get 8 with
    | (bitstream, none) =>
      { decoder with bitstream := bitstream, failed := true }
    | (bitstream, some count) =>
      { decoder with
        bitstream := bitstream
        rleRepeatCount := count.toNat
        bitmap := decoder.bitmap.set i decoder.lastBlockData }

/-- The loop over the words of the bitmap, `left` of them from index `i` on. -/
def decompressLoop : Nat → Nat → Decoder → Decoder
  | 0, _, decoder => decoder
  | left + 1, i, decoder =>
    if decoder.rleRepeatCount = 0 then
      match decoder.bitstream.get 2 with
      | (bitstream, none) =>
        { decoder with bitstream := bitstream, failed := true }
      | (bitstream, some flag) =>
        let decoder := decodeFlag flag i { decoder with bitstream := bitstream }
        decompressLoop left (i + 1) { decoder with lastBlockData := decoder.bitmap.getD i 0 }
    else
      decompressLoop left (i + 1)
        { decoder with
          bitmap := decoder.bitmap.set i decoder.lastBlockData
          rleRepeatCount := decoder.rleRepeatCount - 1 }

/-- The words that `count` times four bytes hold. -/
def bytesWords : Nat → List Byte → List Word
  | 0, _ => []
  | count + 1, bytes =>
    BitVec.ofNat 32 (ByteNumbers.leNat (bytes.take 4)) :: bytesWords count (bytes.drop 4)

/-- Decompress into a bitmap of `bitmapDataSize` words. -/
def bitmapDecompressDecompress (state : DecompressState) (bitmap : List Word)
    (bitmapDataSize : Nat) : Except DecompressError (List Word) :=
  if bitmapDataSize < state.blockCount then .error .blockCount
  else if state.compressionType = 0 then
    let words := bytesWords state.blockCount
      (state.bitstream.data.drop (state.bitstream.getAlignedData 16))
    .ok (words ++ bitmap.drop state.blockCount)
  else if state.compressionType = 1 then
    let decoder := decompressLoop state.blockCount 0 ⟨state.bitstream, bitmap, 0, 0, false⟩
    if 0 < decoder.rleRepeatCount then .error .rleState
    else if decoder.failed then .error .readError
    else .ok decoder.bitmap
  else .error .compressionType

end Greenplum.BitmapCompression
