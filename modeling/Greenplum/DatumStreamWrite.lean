/-
Writing a block of a column: how DatumStreamBlockWrite_Put adds NULLs and datums
to the block in its three formats, with repeated items (RLE_TYPE) and deltas
taken out, and how DatumStreamBlockWrite_BlockDense formats it
(datumstreamblock.c, datumstreamblock.h).
-/
import Greenplum.PackedBits
import Greenplum.ByteNumbers

namespace Greenplum.DatumStream

open ByteNumbers

abbrev Byte := BitVec 8

inductive Align where
  | char
  | short
  | int
  | double
deriving Repr, DecidableEq

def Align.size : Align → Nat
  | .char => 1
  | .short => 2
  | .int => 4
  | .double => 8

/-- `datumlen` is -1 for a varlena and -2 for a C string. -/
structure TypeInfo where
  datumlen : Int
  typid : Nat
  align : Align
  byval : Bool
deriving Repr, DecidableEq

inductive Version where
  | original
  | dense
  | denseEnhanced
deriving Repr, DecidableEq

def Version.number : Version → Nat
  | .original => 0
  | .dense => 1
  | .denseEnhanced => 2

/-- A datum is a number, or it points to memory. -/
inductive Datum where
  | value (number : BitVec 64)
  | pointer (memory : List Byte)
deriving Repr, DecidableEq

def Datum.getValue : Datum → BitVec 64
  | .value number => number
  | .pointer _ => 0

def Datum.getPointer : Datum → List Byte
  | .value _ => []
  | .pointer memory => memory

section

variable (memory : List Byte)

def varHeader : Byte := memory.getD 0 0

def varattIs4BU : Bool := varHeader memory &&& 0xC0 == 0

def varattIs4BC : Bool := varHeader memory &&& 0xC0 == 0x40

def varattIs1B : Bool := varHeader memory &&& 0x80 == 0x80

def varattIs1BE : Bool := varHeader memory == 0x80

/-- The 4-byte length word is in network byte order. -/
def varsize4B : Nat := beNat (memory.take 4) % 2 ^ 30

def varsize1B : Nat := (varHeader memory &&& 0x7F).toNat

def setVarsize4B (length : Nat) : List Byte := beBytes 4 (length % 2 ^ 30)

/-- The data of a varlena, and the copy that was made of an external or a
compressed one; `detoast` fetches and decompresses their data. -/
def varattribUntoast (detoast : List Byte → List Byte) (memory : List Byte) :
    List Byte × Option (List Byte) :=
  if varattIs1BE memory || varattIs4BC memory then
    let raw := detoast memory
    (raw, some (setVarsize4B (raw.length + 4) ++ raw))
  else if varattIs1B memory then
    ((memory.drop 1).take (varsize1B memory - 1), none)
  else ((memory.drop 4).take (varsize4B memory - 4), none)

def varattCanMakeShort : Bool :=
  varattIs4BU memory && varsize4B memory - 4 + 1 ≤ 0x7F

/-- Types 22 and 30 are the two vectors; 16384 is the first user-defined oid. -/
def valueTypeCouldShort (typid : Nat) : Bool :=
  !varattIs1BE memory && (varattIs1B memory ||
    (varattCanMakeShort memory && typid != 22 && typid != 30 && typid < 16384))

def strlen : Nat := (memory.takeWhile (· != 0)).length

/-- The bytes that are stored for an item of variable length, and whether they
are aligned. -/
def variableItem (typeInfo : TypeInfo) (memory : List Byte) : List Byte × Bool :=
  if typeInfo.datumlen = -2 then (memory.take (strlen memory + 1), false)
  else if varattIs1B memory then (memory.take (varsize1B memory), false)
  else if valueTypeCouldShort memory typeInfo.typid then
    let sz := varsize4B memory - 4 + 1
    ((BitVec.ofNat 8 sz ||| 0x80) :: (memory.drop 4).take (sz - 1), false)
  else (memory.take (varsize4B memory), true)

end

section

/-- A number behind a length field of two bits; `bits` bits of the first byte are
left for the number. -/
def encodedSize (bits value : Nat) : Nat :=
  if value < 2 ^ bits then 1
  else if value < 2 ^ (bits + 8) then 2
  else if value < 2 ^ (bits + 16) then 3
  else 4

def encodedBytes (bits value : Nat) : List Byte :=
  if value < 2 ^ bits then [BitVec.ofNat 8 value]
  else if value < 2 ^ (bits + 8) then
    [0x40 ||| BitVec.ofNat 8 (value / 2 ^ 8), BitVec.ofNat 8 value]
  else if value < 2 ^ (bits + 16) then
    [0x80 ||| BitVec.ofNat 8 (value / 2 ^ 16), BitVec.ofNat 8 (value / 2 ^ 8), BitVec.ofNat 8 value]
  else
    [0xC0 ||| BitVec.ofNat 8 (value / 2 ^ 24), BitVec.ofNat 8 (value / 2 ^ 16),
      BitVec.ofNat 8 (value / 2 ^ 8), BitVec.ofNat 8 value]

variable (value : Nat)

def int32CompressSize : Nat := encodedSize 6 value

def int32CompressEncode : List Byte := encodedBytes 6 value

def int32CompressReserved3Size : Nat := encodedSize 5 value

/-- The third bit of the first byte is the sign of the number. -/
def int32CompressReserved3Encode (sign : Bool) : List Byte :=
  if sign then (encodedBytes 5 value).modify 0 (· ||| 0x20)
  else encodedBytes 5 value

end

section

/-- What ends a Put without a result. -/
inductive Failure where
  | outOfBounds
  | unexpectedLength (datumlen : Int)
  | lastItemSize (found expected : Int)
deriving Repr, DecidableEq

/-- A bit-map that is being written; `buffer` is the allocated memory and
`bytePointer` the place of the byte of the last bit. -/
structure BitMapWrite where
  buffer : List Byte
  byteBit : Byte
  bytePointer : Nat
  bitOnCount : Nat
  bitCount : Nat
deriving Repr, DecidableEq

def BitMapWrite.init (buffer : List Byte) : BitMapWrite := ⟨buffer, 0, 0, 0, 0⟩

def BitMapWrite.size (bmw : BitMapWrite) : Nat := PackedBits.size bmw.bitCount

variable (bmw : BitMapWrite)

def BitMapWrite.nextSize : Nat :=
  PackedBits.size (bmw.bitCount + 1)

/-- A store to a byte of the buffer; a store behind it hits other memory. -/
def storeByte (buffer : List Byte) (place : Nat) (byte : Byte) : Except Failure (List Byte) :=
  if place < buffer.length then .ok (buffer.set place byte)
  else .error .outOfBounds

def BitMapWrite.zeroFill (bitCount : Nat) : Except Failure BitMapWrite :=
  if bitCount = 0 then .ok bmw
  else
    let newSize := PackedBits.size bitCount
    if bmw.buffer.length < newSize then .error .outOfBounds
    else .ok { bmw with
      buffer := List.replicate newSize 0 ++ bmw.buffer.drop newSize
      byteBit := 1 <<< ((bitCount - 1) % 8)
      bytePointer := newSize - 1
      bitCount := bitCount }

def BitMapWrite.set : Except Failure BitMapWrite := do
  let buffer ← storeByte bmw.buffer bmw.bytePointer
    (bmw.buffer.getD bmw.bytePointer 0 ||| bmw.byteBit)
  .ok { bmw with buffer := buffer, bitOnCount := bmw.bitOnCount + 1 }

/-- The move to the next bit; the first bit of a byte clears it. -/
def BitMapWrite.nextBit : Except Failure BitMapWrite :=
  if bmw.bitCount = 0 then do
    let buffer ← storeByte bmw.buffer bmw.bytePointer 0
    .ok { bmw with buffer := buffer, byteBit := 1, bitCount := bmw.bitCount + 1 }
  else if bmw.byteBit <<< 1 = 0 then do
    let buffer ← storeByte bmw.buffer (bmw.bytePointer + 1) 0
    .ok { bmw with
      buffer := buffer
      byteBit := 1
      bytePointer := bmw.bytePointer + 1
      bitCount := bmw.bitCount + 1 }
  else
    .ok { bmw with byteBit := bmw.byteBit <<< 1, bitCount := bmw.bitCount + 1 }

def BitMapWrite.addBit (on : Bool) : Except Failure BitMapWrite := do
  let bmw ← bmw.nextBit
  if on then bmw.set else .ok bmw

def BitMapWrite.copyToLargerBuffer (newBuffer : List Byte) : BitMapWrite :=
  { bmw with buffer := bmw.buffer.take bmw.size ++ newBuffer.drop bmw.size }

end

section

/-- The last item, for the comparison with the next one: its data in the datum
buffer, or the compare item of the deltas. -/
inductive LastItem where
  | stored (offset : Nat)
  | compareItem
deriving Repr, DecidableEq

/-- What a writer was created with.  `palloc` gives memory with arbitrary
contents, `detoast` the data of an external or compressed varlena. -/
structure WriteConfig where
  typeInfo : TypeInfo
  version : Version
  rleWantCompression : Bool
  deltaWantCompression : Bool
  initialMaxDatumPerBlock : Nat
  maxDatumPerBlock : Nat
  maxDataBlockSize : Nat
  useSmallInitialBuffers : Bool
  palloc : Nat → List Byte
  length_palloc : ∀ size, (palloc size).length = size
  detoast : List Byte → List Byte

/-- `datumBuffer` holds the bytes up to `datump`; the counts of the two arrays
are their lengths. -/
structure BlockWrite where
  nth : Nat
  physicalDatumCount : Nat
  hasNull : Bool
  nullBitmap : BitMapWrite
  datumBuffer : List Byte
  alwaysNullBitmapCount : Nat
  rleHasCompression : Bool
  rleLastItem : Option LastItem
  rleLastItemSize : Nat
  rleLastItemIsRepeated : Bool
  rleTotalRepeatItemsWritten : Nat
  rleCompressBitmap : BitMapWrite
  rleRepeatcounts : List Nat
  rleRepeatcountsCurrentSize : Nat
  deltaHasCompression : Bool
  notFirstDatum : Bool
  compareItem : BitVec 64
  deltaBitmap : BitMapWrite
  deltas : List (Nat × Bool)
  deltasCurrentSize : Nat
deriving Repr, DecidableEq

def maxRepeatCount : Nat := 0x3FFFFFFF

def maxDeltaSupportedDeltaCompression : Nat := 0x1FFFFFFF

variable (cfg : WriteConfig)

/-- The start of a block; the buffers stay as they are. -/
def getReady (dsw : BlockWrite) : BlockWrite :=
  let dsw := { dsw with
    nth := 0
    physicalDatumCount := 0
    alwaysNullBitmapCount := 0
    hasNull := false
    nullBitmap := .init dsw.nullBitmap.buffer
    datumBuffer := [] }
  if cfg.version = .original then dsw
  else
    let dsw := if cfg.rleWantCompression then { dsw with
        rleHasCompression := false
        rleLastItem := none
        rleLastItemSize := 0
        rleLastItemIsRepeated := false
        rleTotalRepeatItemsWritten := 0
        rleCompressBitmap := .init dsw.rleCompressBitmap.buffer
        rleRepeatcounts := []
        rleRepeatcountsCurrentSize := 0 }
      else dsw
    if cfg.deltaWantCompression then { dsw with
      deltaHasCompression := false
      deltaBitmap := .init dsw.deltaBitmap.buffer
      deltas := []
      deltasCurrentSize := 0
      notFirstDatum := false
      compareItem := 0 }
    else dsw

/-- A writer that is all zero but for its buffers. -/
def blank (nullBuffer compressBuffer deltaBuffer : List Byte) : BlockWrite :=
  { nth := 0
    physicalDatumCount := 0
    hasNull := false
    nullBitmap := .init nullBuffer
    datumBuffer := []
    alwaysNullBitmapCount := 0
    rleHasCompression := false
    rleLastItem := none
    rleLastItemSize := 0
    rleLastItemIsRepeated := false
    rleTotalRepeatItemsWritten := 0
    rleCompressBitmap := .init compressBuffer
    rleRepeatcounts := []
    rleRepeatcountsCurrentSize := 0
    deltaHasCompression := false
    notFirstDatum := false
    compareItem := 0
    deltaBitmap := .init deltaBuffer
    deltas := []
    deltasCurrentSize := 0 }

def init : BlockWrite :=
  let standard := (cfg.initialMaxDatumPerBlock + 1) / 8
  let nullSize := if cfg.useSmallInitialBuffers then 64 else standard
  let bitmapSize := if cfg.useSmallInitialBuffers then 8 else standard
  let dense := cfg.version ≠ .original
  getReady cfg (blank (cfg.palloc nullSize)
    (if dense ∧ cfg.rleWantCompression then cfg.palloc bitmapSize else [])
    (if dense ∧ cfg.deltaWantCompression then cfg.palloc bitmapSize else []))

end

section

variable (cfg : WriteConfig)

/-- Room for `newSize` bytes in a bit-map's buffer. -/
def growBitMap (bmw : BitMapWrite) (newSize : Nat) : BitMapWrite :=
  if bmw.buffer.length < newSize then
    let doubled := bmw.buffer.length * 2
    let newBufferSize :=
      if doubled < newSize then newSize + cfg.initialMaxDatumPerBlock else doubled
    bmw.copyToLargerBuffer (cfg.palloc newBufferSize)
  else bmw

/-- Room for one more bit.  For the first bit that is on, `sized` bits are made
room for and `filled` ones cleared. -/
def makeBitMapSpace (bmw : BitMapWrite) (started : Bool) (sized filled : Nat) :
    Except Failure BitMapWrite :=
  if started then .ok (growBitMap cfg bmw bmw.nextSize)
  else (growBitMap cfg bmw (PackedBits.size sized)).zeroFill filled

variable (dsw : BlockWrite)

def makeNullBitMapSpace : Except Failure BlockWrite := do
  let bitmap ← makeBitMapSpace cfg dsw.nullBitmap dsw.hasNull
    (dsw.alwaysNullBitmapCount + 1) dsw.alwaysNullBitmapCount
  .ok { dsw with nullBitmap := bitmap, hasNull := true }

/-- The items that the compress bit-map has a bit for. -/
def totalDatumCount : Nat :=
  if dsw.deltaHasCompression then
    dsw.physicalDatumCount + dsw.deltaBitmap.bitOnCount
  else dsw.physicalDatumCount

def makeCompressBitMapSpace : Except Failure BlockWrite := do
  let bitmap ← makeBitMapSpace cfg dsw.rleCompressBitmap dsw.rleHasCompression
    (totalDatumCount dsw) (totalDatumCount dsw - 1)
  .ok { dsw with rleCompressBitmap := bitmap }

def makeDeltaCompressBitMapSpace : Except Failure BlockWrite := do
  let bitmap ← makeBitMapSpace cfg dsw.deltaBitmap dsw.deltaHasCompression
    dsw.physicalDatumCount dsw.physicalDatumCount
  .ok { dsw with deltaBitmap := bitmap }

end

section

variable (cfg : WriteConfig)

def maxAlign (length : Nat) : Nat := alignUp 8 length

variable (dsw : BlockWrite)

def origHasSpace (null : Bool) (sz : Nat) : Bool :=
  let nullSize :=
    if null || dsw.hasNull then
      maxAlign (PackedBits.size (dsw.alwaysNullBitmapCount + 1))
    else 0
  dsw.nth + 1 < cfg.maxDatumPerBlock &&
    16 + nullSize + dsw.datumBuffer.length + sz < cfg.maxDataBlockSize

/-- The header and the data of the repeated items, with the count that is not
final yet. -/
def denseRleSpace (null : Bool) : Nat :=
  if dsw.rleHasCompression then
    16 + (if null then dsw.rleCompressBitmap.size
        else dsw.rleCompressBitmap.nextSize) +
      dsw.rleRepeatcountsCurrentSize +
      (if dsw.rleLastItemIsRepeated then
        int32CompressSize (dsw.rleRepeatcounts.getLastD 0) else 0)
  else 0

/-- The header and the data of the deltas, with room for one more bit. -/
def denseDeltaSpace : Nat :=
  if dsw.deltaHasCompression then
    12 + dsw.deltaBitmap.nextSize + dsw.deltasCurrentSize
  else 0

def denseFits (metadata sz : Nat) : Bool :=
  dsw.nth + 1 < cfg.maxDatumPerBlock &&
    maxAlign (16 + metadata) + dsw.datumBuffer.length + sz ≤ cfg.maxDataBlockSize

def denseHasSpaceNull : Bool :=
  denseFits cfg dsw (PackedBits.size (dsw.alwaysNullBitmapCount + 1) +
    denseRleSpace dsw true + denseDeltaSpace dsw) 0

def denseHasSpaceRepeat (newRepeat : Bool) : Bool :=
  let nullSize :=
    if dsw.hasNull then PackedBits.size dsw.alwaysNullBitmapCount else 0
  let bitmapSize :=
    if newRepeat then PackedBits.size (totalDatumCount dsw + 1)
    else PackedBits.size (totalDatumCount dsw)
  denseFits cfg dsw (nullSize + (16 + bitmapSize + (dsw.rleRepeatcountsCurrentSize + 4)) +
    denseDeltaSpace dsw) 0

def denseHasSpaceDelta : Bool :=
  let nullSize :=
    if dsw.hasNull then PackedBits.size (dsw.alwaysNullBitmapCount + 1) else 0
  denseFits cfg dsw (nullSize + denseRleSpace dsw false +
    (12 + PackedBits.size (totalDatumCount dsw + 1) + (dsw.deltasCurrentSize + 4))) 0

def denseHasSpaceItem (sz : Nat) : Bool :=
  let nullSize :=
    if dsw.hasNull then PackedBits.size (dsw.alwaysNullBitmapCount + 1) else 0
  denseFits cfg dsw (nullSize + denseRleSpace dsw false + denseDeltaSpace dsw) sz

end

section

variable (cfg : WriteConfig) (dsw : BlockWrite)

def rleFinalizeRepeatCountSize : BlockWrite :=
  { dsw with
    rleLastItemIsRepeated := false
    rleLastItem := none
    rleLastItemSize := 0
    rleRepeatcountsCurrentSize := dsw.rleRepeatcountsCurrentSize +
      int32CompressSize (dsw.rleRepeatcounts.getLastD 0) }

def rleFinalizeIfRepeated : BlockWrite :=
  if dsw.rleLastItemIsRepeated then rleFinalizeRepeatCountSize dsw else dsw

def addNullBit (null : Bool) : Except Failure BlockWrite := do
  let bitmap ← dsw.nullBitmap.addBit null
  .ok { dsw with nullBitmap := bitmap }

def denseIncrNull : Except Failure BlockWrite := do
  let dsw ← addNullBit dsw true
  let dsw := { dsw with alwaysNullBitmapCount := dsw.alwaysNullBitmapCount + 1 }
  let dsw := if cfg.rleWantCompression then
      { rleFinalizeIfRepeated dsw with rleLastItem := none, rleLastItemSize := 0 }
    else dsw
  .ok { dsw with nth := dsw.nth + 1 }

/-- The bit of an item in the NULL bit-map, once there is one. -/
def incrNullBitmap : Except Failure BlockWrite := do
  let dsw ← if dsw.hasNull then do
      let dsw ← makeNullBitMapSpace cfg dsw
      addNullBit dsw false
    else .ok dsw
  .ok { dsw with alwaysNullBitmapCount := dsw.alwaysNullBitmapCount + 1 }

/-- The bit of a new item in the compress bit-map, once there is one. -/
def incrCompressBitmap : Except Failure BlockWrite :=
  if dsw.rleHasCompression then do
    let dsw ← makeCompressBitMapSpace cfg dsw
    let bitmap ← dsw.rleCompressBitmap.addBit false
    .ok { dsw with rleCompressBitmap := bitmap }
  else .ok dsw

def denseIncrItem (rleLastItem : LastItem) (rleLastItemSize : Nat) : Except Failure BlockWrite := do
  let dsw ← incrNullBitmap cfg dsw
  let dsw ← if cfg.rleWantCompression then
      incrCompressBitmap cfg { rleFinalizeIfRepeated dsw with
        rleLastItem := some rleLastItem
        rleLastItemSize := rleLastItemSize }
    else .ok dsw
  .ok { dsw with
    nth := dsw.nth + 1
    physicalDatumCount := dsw.physicalDatumCount + 1 }

def rleIncrRepeated : Except Failure BlockWrite := do
  let dsw ← if dsw.rleLastItemIsRepeated then
      .ok { dsw with
        rleRepeatcounts := dsw.rleRepeatcounts.dropLast ++ [dsw.rleRepeatcounts.getLastD 0 + 1] }
    else do
      let dsw ← if dsw.rleHasCompression then do
          let bitmap ← dsw.rleCompressBitmap.set
          .ok { dsw with rleCompressBitmap := bitmap }
        else do
          let dsw ← makeCompressBitMapSpace cfg dsw
          let bitmap ← dsw.rleCompressBitmap.addBit true
          .ok { dsw with rleCompressBitmap := bitmap, rleHasCompression := true }
      .ok { dsw with
        rleLastItemIsRepeated := true
        rleTotalRepeatItemsWritten := dsw.rleTotalRepeatItemsWritten + 1
        rleRepeatcounts := dsw.rleRepeatcounts ++ [1] }
  .ok { dsw with
    nth := dsw.nth + 1
    rleTotalRepeatItemsWritten := dsw.rleTotalRepeatItemsWritten + 1 }

/-- The low `datumlen` bytes of the compare item. -/
def setCompareItem (number : BitVec 64) : Except Failure BlockWrite :=
  if cfg.typeInfo.datumlen = 4 then
    .ok { dsw with
      compareItem := dsw.compareItem.extractLsb' 32 32 ++ number.setWidth 32 }
  else if cfg.typeInfo.datumlen = 8 then .ok { dsw with compareItem := number }
  else .error (.unexpectedLength cfg.typeInfo.datumlen)

def deltaMaintain (number : BitVec 64) : Except Failure BlockWrite := do
  let dsw ← setCompareItem cfg dsw number
  if dsw.deltaHasCompression then do
    let dsw ← makeDeltaCompressBitMapSpace cfg dsw
    let bitmap ← dsw.deltaBitmap.addBit false
    .ok { dsw with deltaBitmap := bitmap }
  else .ok dsw

def deltaAdd (delta : Nat) (sign : Bool) : Except Failure BlockWrite := do
  let dsw ← makeDeltaCompressBitMapSpace cfg dsw
  let dsw := { dsw with deltaHasCompression := true }
  let dsw ← incrNullBitmap cfg dsw
  let dsw ← incrCompressBitmap cfg { rleFinalizeIfRepeated dsw with
    rleLastItem := some .compareItem
    rleLastItemSize := cfg.typeInfo.datumlen.toNat }
  let bitmap ← dsw.deltaBitmap.addBit true
  .ok { dsw with
    deltaBitmap := bitmap
    deltas := dsw.deltas ++ [(delta, sign)]
    deltasCurrentSize := dsw.deltasCurrentSize + int32CompressReserved3Size delta
    nth := dsw.nth + 1 }

end

section

variable (cfg : WriteConfig)

inductive DeltaCompressionStatus where
  | ok
  | notApplied
  | error
deriving Repr, DecidableEq

/-- The difference to the compare item and whether it is positive: of `uint32`
values, or of `int64` values with wrap-around. -/
def deltaOf (compareItem number : BitVec 64) : Except Failure (Int × Bool) :=
  if cfg.typeInfo.datumlen = 4 then
    let last := compareItem.setWidth 32
    let next := number.setWidth 32
    if last.toNat ≤ next.toNat then .ok ((next - last).toNat, true)
    else .ok ((last - next).toNat, false)
  else if cfg.typeInfo.datumlen = 8 then
    if compareItem.toInt ≤ number.toInt then .ok ((number - compareItem).toInt, true)
    else .ok ((compareItem - number).toInt, false)
  else .error (.unexpectedLength cfg.typeInfo.datumlen)

def performDeltaCompression (dsw : BlockWrite) (number : BitVec 64) :
    Except Failure (DeltaCompressionStatus × BlockWrite) :=
  if !dsw.notFirstDatum then .ok (.notApplied, { dsw with notFirstDatum := true })
  else do
    let (delta, positive) ← deltaOf cfg dsw.compareItem number
    if delta < 0 ∨ maxDeltaSupportedDeltaCompression < delta then
      .ok (.notApplied, dsw)
    else if !denseHasSpaceDelta cfg dsw then .ok (.error, dsw)
    else do
      let dsw ← setCompareItem cfg dsw number
      let dsw ← deltaAdd cfg dsw delta.toNat positive
      .ok (.ok, dsw)

end

section

variable (cfg : WriteConfig)

/-- Zero bytes up to the alignment of the type. -/
def attAlignZero (align : Align) (bytes : List Byte) : List Byte :=
  bytes ++ List.replicate (alignUp align.size bytes.length - bytes.length) 0

variable (dsw : BlockWrite)

def putFixedLength (d : Datum) : Except Failure BlockWrite :=
  let datumlen := cfg.typeInfo.datumlen.toNat
  if !cfg.typeInfo.byval then
    .ok { dsw with datumBuffer := dsw.datumBuffer ++ d.getPointer.take datumlen }
  else if datumlen = 1 ∨ datumlen = 2 ∨ datumlen = 4 ∨ datumlen = 8 then
    .ok { dsw with
      datumBuffer := dsw.datumBuffer ++ leBytes datumlen d.getValue.toNat }
  else .error (.unexpectedLength cfg.typeInfo.datumlen)

def putOrig : Option Datum → Except Failure (Int × BlockWrite)
  | none =>
    if !origHasSpace cfg dsw true 0 then .ok (-1, dsw)
    else do
      let dsw ← makeNullBitMapSpace cfg dsw
      let dsw ← addNullBit dsw true
      .ok (0, { dsw with
        alwaysNullBitmapCount := dsw.alwaysNullBitmapCount + 1
        nth := dsw.nth + 1 })
  | some d =>
    if cfg.typeInfo.datumlen < 0 then
      let memory :=
        if cfg.typeInfo.datumlen = -1 then
          (varattribUntoast cfg.detoast d.getPointer).2.getD d.getPointer
        else d.getPointer
      let item := variableItem cfg.typeInfo memory
      let dsw := if item.2 then { dsw with
          datumBuffer := attAlignZero cfg.typeInfo.align dsw.datumBuffer }
        else dsw
      if !origHasSpace cfg dsw false item.1.length then
        .ok (-item.1.length, dsw)
      else do
        let dsw ← incrNullBitmap cfg { dsw with datumBuffer := dsw.datumBuffer ++ item.1 }
        .ok (item.1.length, { dsw with
          nth := dsw.nth + 1
          physicalDatumCount := dsw.physicalDatumCount + 1 })
    else if !origHasSpace cfg dsw false cfg.typeInfo.datumlen.toNat then
      .ok (-cfg.typeInfo.datumlen, dsw)
    else do
      let dsw ← putFixedLength cfg dsw d
      let dsw ← incrNullBitmap cfg dsw
      .ok (cfg.typeInfo.datumlen, { dsw with
        nth := dsw.nth + 1
        physicalDatumCount := dsw.physicalDatumCount + 1 })

/-- The memory at the last item. -/
def lastItemMemory : LastItem → List Byte
  | .stored offset => dsw.datumBuffer.drop offset
  | .compareItem => leBytes 8 dsw.compareItem.toNat

/-- The comparison with the last item, where there is one; with the result of
the Put if the new item repeats it. -/
def compareLastItem (isEqual : LastItem → Except Failure Bool) :
    Except Failure (Option Int × BlockWrite) :=
  if dsw.rleLastItemIsRepeated ∧ maxRepeatCount ≤ dsw.rleRepeatcounts.getLastD 0 then
    .ok (none, rleFinalizeRepeatCountSize dsw)
  else
    match if cfg.rleWantCompression then dsw.rleLastItem else none with
    | none => .ok (none, dsw)
    | some last => do
        if ← isEqual last then
          if !denseHasSpaceRepeat cfg dsw !dsw.rleLastItemIsRepeated then
            .ok (some (-1), dsw)
          else do
            let dsw ← rleIncrRepeated cfg dsw
            .ok (some 0, dsw)
        else .ok (none, rleFinalizeIfRepeated dsw)

/-- A varlena is compared by its data; a C string is never found equal. -/
def variableIsEqual (data : Option (List Byte)) (last : LastItem) : Bool :=
  match data with
  | none => false
  | some data => data.length == dsw.rleLastItemSize &&
      (lastItemMemory dsw last).take dsw.rleLastItemSize == data

/-- For one byte an unsigned one is compared with a signed one. -/
def fixedIsEqual (d : Datum) (last : LastItem) : Except Failure Bool :=
  let datumlen := cfg.typeInfo.datumlen.toNat
  let memory := (lastItemMemory dsw last).take datumlen
  if dsw.rleLastItemSize ≠ datumlen then
    .error (.lastItemSize dsw.rleLastItemSize cfg.typeInfo.datumlen)
  else if !cfg.typeInfo.byval then .ok (memory == d.getPointer.take datumlen)
  else if datumlen = 1 then
    .ok ((leNat memory : Int) == (d.getValue.setWidth 8).toInt)
  else if datumlen = 2 ∨ datumlen = 4 ∨ datumlen = 8 then
    .ok (leNat memory == d.getValue.toNat % 2 ^ (8 * datumlen))
  else .error (.unexpectedLength cfg.typeInfo.datumlen)

def putDenseVariable (d : Datum) : Except Failure (Int × BlockWrite) := do
  let untoasted := varattribUntoast cfg.detoast d.getPointer
  let data := if cfg.typeInfo.datumlen = -1 then some untoasted.1 else none
  let memory :=
    if cfg.typeInfo.datumlen = -1 then untoasted.2.getD d.getPointer
    else d.getPointer
  let (done, dsw) ← compareLastItem cfg dsw fun last =>
    .ok (variableIsEqual dsw data last)
  match done with
  | some result => .ok (result, dsw)
  | none =>
    let item := variableItem cfg.typeInfo memory
    let dsw := if item.2 then { dsw with
        datumBuffer := attAlignZero cfg.typeInfo.align dsw.datumBuffer }
      else dsw
    if !denseHasSpaceItem cfg dsw item.1.length then .ok (-item.1.length, dsw)
    else do
      let offset := dsw.datumBuffer.length
      let stored :=
        if cfg.typeInfo.datumlen = -1 then
          (offset + (if varattIs1B item.1 then 1 else 4),
            (varattribUntoast cfg.detoast item.1).1.length)
        else (offset, strlen item.1 + 1)
      let dsw ← denseIncrItem cfg { dsw with datumBuffer := dsw.datumBuffer ++ item.1 }
        (.stored stored.1) stored.2
      .ok (item.1.length, dsw)

/-- An item of fixed length as it is, where no delta stands for it. -/
def putFixedItem (d : Datum) : Except Failure (Int × BlockWrite) :=
  if !denseHasSpaceItem cfg dsw cfg.typeInfo.datumlen.toNat then
    .ok (-cfg.typeInfo.datumlen, dsw)
  else do
    let offset := dsw.datumBuffer.length
    let dsw ← putFixedLength cfg dsw d
    let dsw ← denseIncrItem cfg dsw (.stored offset) cfg.typeInfo.datumlen.toNat
    let dsw ← if cfg.deltaWantCompression then
        deltaMaintain cfg dsw d.getValue
      else .ok dsw
    .ok (cfg.typeInfo.datumlen, dsw)

def putDenseFixed (d : Datum) : Except Failure (Int × BlockWrite) := do
  let (done, dsw) ← compareLastItem cfg dsw (fixedIsEqual cfg dsw d)
  match done with
  | some result => .ok (result, dsw)
  | none =>
    let (status, dsw) ← if cfg.deltaWantCompression then
        performDeltaCompression cfg dsw d.getValue
      else .ok (.notApplied, dsw)
    match status with
    | .ok => .ok (0, dsw)
    | .error => .ok (-1, dsw)
    | .notApplied => putFixedItem cfg dsw d

def putDense : Option Datum → Except Failure (Int × BlockWrite)
  | none =>
    if !denseHasSpaceNull cfg dsw then .ok (-1, dsw)
    else do
      let dsw ← makeNullBitMapSpace cfg dsw
      let dsw ← denseIncrNull cfg dsw
      .ok (0, dsw)
  | some d =>
    if cfg.typeInfo.datumlen < 0 then putDenseVariable cfg dsw d
    else putDenseFixed cfg dsw d

/-- `none` is a NULL; the result is negative if the item was not accepted. -/
def put (row : Option Datum) : Except Failure (Int × BlockWrite) :=
  match cfg.version with
  | .original => putOrig cfg dsw row
  | .dense | .denseEnhanced => putDense cfg dsw row

end

section

variable (cfg : WriteConfig)

inductive BlockError where
  | metadataSize (expected found : Nat)
  | exceedsBlockSize (found maximum : Nat)
  | headerSize (found : Nat)
  | badVersion (found : Nat)
deriving Repr, DecidableEq

/-- The checks that are made of every formatted block. -/
def integrityCheckDense (memory : List Byte) : Except BlockError Unit :=
  if memory.length < 16 then .error (.headerSize memory.length)
  else if leNat (memory.take 2) ≠ Version.dense.number ∧
      leNat (memory.take 2) ≠ Version.denseEnhanced.number then
    .error (.badVersion (leNat (memory.take 2)))
  else .ok ()

def blockFlags (hasNull hasRle hasDelta : Bool) : Nat :=
  hasNull.toNat + 2 * hasRle.toNat + 4 * hasDelta.toNat

variable (dsw : BlockWrite)

/-- The counts and sizes of the two extensions of the header. -/
def rleExtension : List Byte :=
  if dsw.rleHasCompression then
    leBytes 4 (if dsw.hasNull then dsw.nullBitmap.bitCount else 0) ++
      leBytes 4 dsw.rleCompressBitmap.bitCount ++
      leBytes 4 dsw.rleRepeatcounts.length ++
      leBytes 4 dsw.rleRepeatcountsCurrentSize
  else []

def deltaExtension : List Byte :=
  if dsw.deltaHasCompression then
    leBytes 4 dsw.deltaBitmap.bitCount ++ leBytes 4 dsw.deltas.length ++
      leBytes 4 dsw.deltasCurrentSize
  else []

/-- The sizes as they are accounted for, without the padding. -/
def metadataSize : Nat :=
  16 + (if dsw.hasNull then dsw.nullBitmap.size else 0) + (if dsw.rleHasCompression then
      16 + dsw.rleCompressBitmap.size + dsw.rleRepeatcountsCurrentSize else 0) +
    if dsw.deltaHasCompression then
      12 + dsw.deltaBitmap.size + dsw.deltasCurrentSize
    else 0

def formatMetadata : List Byte :=
  leBytes 2 cfg.version.number ++
    leBytes 2 (blockFlags dsw.hasNull dsw.rleHasCompression dsw.deltaHasCompression) ++
    leBytes 4 dsw.nth ++ leBytes 4 dsw.physicalDatumCount ++
    leBytes 4 dsw.datumBuffer.length ++
    rleExtension dsw ++ deltaExtension dsw ++
    (if dsw.hasNull then dsw.nullBitmap.buffer.take dsw.nullBitmap.size else []) ++
    (if dsw.rleHasCompression then
      dsw.rleCompressBitmap.buffer.take dsw.rleCompressBitmap.size ++
        dsw.rleRepeatcounts.flatMap int32CompressEncode else []) ++
    if dsw.deltaHasCompression then
      dsw.deltaBitmap.buffer.take dsw.deltaBitmap.size ++ dsw.deltas.flatMap fun delta =>
          int32CompressReserved3Encode delta.1 delta.2
    else []

def blockDense : Except BlockError (List Byte) := do
  let dsw := rleFinalizeIfRepeated dsw
  let metadata := formatMetadata cfg dsw
  let aligned := maxAlign (metadataSize dsw)
  if metadata.length ≠ metadataSize dsw then
    .error (.metadataSize (metadataSize dsw) metadata.length)
  else if cfg.maxDataBlockSize < aligned + dsw.datumBuffer.length then
    .error (.exceedsBlockSize (aligned + dsw.datumBuffer.length) cfg.maxDataBlockSize)
  else do
    let buffer := metadata ++ List.replicate (aligned - metadataSize dsw) 0 ++ dsw.datumBuffer
    integrityCheckDense buffer
    .ok buffer

end

end Greenplum.DatumStream
