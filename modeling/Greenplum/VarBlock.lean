/-
The VarBlock of `cdbvarblock.c`: a block of variable-length items with the
array of their offsets behind them.  While a block is made the offsets are kept
in a scratch buffer, with two bytes each until an item starts too far behind
the header, with three bytes from then on.
-/
import Greenplum.ByteMemory
import Greenplum.ByteNumbers

namespace Greenplum.VarBlock

open ByteMemory ByteNumbers

abbrev Byte := BitVec 8

/-- The value that a variable of type int32 takes. -/
def int32 (value : Int) : Int := Int.bmod value (2 ^ 32)

def headerLen : Nat := 8

def byteOffset24Len : Nat := 3

/-- The distance from the start of the buffer up to which an item still gets a
two-byte offset. -/
def last2ByteOffset : Nat := 63 * 1024

section

variable (buffer : List Byte)

/-- The two words of the header. -/
def bytes03 : BitVec 32 :=
  BitVec.ofNat 32 (leNat (readAt buffer 0 4))

def bytes47 : BitVec 32 :=
  BitVec.ofNat 32 (leNat (readAt buffer 4 4))

def setBytes03 (word : BitVec 32) : List Byte :=
  writeAt buffer 0 (leBytes 4 word.toNat)

def setBytes47 (word : BitVec 32) : List Byte :=
  writeAt buffer 4 (leBytes 4 word.toNat)

def getOffsetsAreSmall : Bool := bytes03 buffer >>> 31 ≠ 0

def getReserved : BitVec 32 :=
  (bytes03 buffer &&& 0x7C000000) >>> 26

def getVersion : BitVec 32 :=
  (bytes03 buffer &&& 0x03000000) >>> 24

def getItemLenSum : Nat :=
  (bytes03 buffer &&& 0x00FFFFFF).toNat

def getMoreReserved : BitVec 32 :=
  (bytes47 buffer &&& 0xFF000000) >>> 24

def getItemCount : Nat :=
  (bytes47 buffer &&& 0x00FFFFFF).toNat

def setOffsetsAreSmall (small : Bool) : List Byte :=
  setBytes03 buffer (if small then bytes03 buffer ||| 0x80000000
    else bytes03 buffer &&& 0x7FFFFFFF)

def setVersion (version : BitVec 32) : List Byte :=
  setBytes03 buffer ((bytes03 buffer &&& 0xFCFFFFFF) ||| (0x03000000 &&& (version <<< 24)))

def setItemLenSum (itemLenSum : Int) : List Byte :=
  setBytes03 buffer ((bytes03 buffer &&& 0xFF000000) |||
    (0x00FFFFFF &&& BitVec.ofInt 32 itemLenSum))

def setItemCount (itemCount : Nat) : List Byte :=
  setBytes47 buffer ((bytes47 buffer &&& 0xFF000000) ||| (0x00FFFFFF &&& BitVec.ofNat 32 itemCount))

def initialVersion : BitVec 32 := 1

end

/-- A block that is being made.  Pointers into the buffer are distances from its
start. -/
structure VarBlockMaker where
  buffer : List Byte
  maxBufferLen : Nat
  currentItemLenSum : Int
  tempScratchSpace : List Byte
  tempScratchSpaceLen : Nat
  nextItemPtr : Nat
  currentItemCount : Nat
  maxItemCount : Nat

variable (buffer : List Byte)

def makerInit (maxBufferLen : Nat)
    (tempScratchSpace : List Byte) (tempScratchSpaceLen : Nat) : VarBlockMaker where
  buffer := setOffsetsAreSmall (setVersion
    (writeAt buffer 0 (List.replicate headerLen 0)) initialVersion) true
  maxBufferLen := maxBufferLen
  currentItemLenSum := 0
  tempScratchSpace := tempScratchSpace
  tempScratchSpaceLen := tempScratchSpaceLen
  nextItemPtr := headerLen
  currentItemCount := 0
  maxItemCount := tempScratchSpaceLen / 2

/-- Round up to even length, in the arithmetic of int. -/
def roundEven (length : Int) : Int := (int32 (length + 1)).tdiv 2 * 2

/-- The length of the block with one more item and two-byte offsets. -/
def newTotalLenSmall (newItemLenSum : Int) (currentItemCount : Nat) : Int :=
  int32 (headerLen + roundEven newItemLenSum + int32 (currentItemCount * 2 + 2))

/-- The length of the block with one more item and three-byte offsets. -/
def newTotalLenLarge (newItemLenSum : Int) (currentItemCount : Nat) : Int :=
  int32 (headerLen + roundEven newItemLenSum +
    roundEven (int32 ((currentItemCount + 1) * byteOffset24Len)))

/-- Store an offset as entry `index` of an array of offsets. -/
def putOffset16 (space : List Byte) (index offset : Nat) : List Byte :=
  writeAt space (index * 2) (leBytes 2 offset)

def putOffset24 (space : List Byte) (index offset : Nat) : List Byte :=
  writeAt space (index * byteOffset24Len) (leBytes byteOffset24Len offset)

/-- The reverse move to three-byte offsets, over the entries below `count`. -/
def widenOffsets : Nat → List Byte → List Byte
  | 0, space => space
  | r + 1, space =>
    widenOffsets r (putOffset24 space r (leNat (readAt space (r * 2) 2)))

variable (maker : VarBlockMaker)

/-- Take the place of the next item. -/
def VarBlockMaker.take (itemLen : Nat) (newItemLenSum : Int) : VarBlockMaker :=
  { maker with
    nextItemPtr := maker.nextItemPtr + itemLen
    currentItemCount := maker.currentItemCount + 1
    currentItemLenSum := newItemLenSum }

/-- Get a pointer to the next item so it can be filled in; `none` when there is
no more space left. -/
def makerGetNextItemPtr (itemLen : Nat) : Option (Nat × VarBlockMaker) :=
  if maker.maxItemCount ≤ maker.currentItemCount then none
  else
    let newItemLenSum := int32 (maker.currentItemLenSum + itemLen)
    let totalSmall := newTotalLenSmall newItemLenSum maker.currentItemCount
    let totalLarge := newTotalLenLarge newItemLenSum maker.currentItemCount
    if getOffsetsAreSmall maker.buffer then
      if last2ByteOffset < maker.nextItemPtr then
        -- switch to large offsets
        let newMaxItemCount := maker.tempScratchSpaceLen / byteOffset24Len
        if (maker.maxBufferLen : Int) < totalLarge then none
        else if newMaxItemCount ≤ maker.currentItemCount then none
        else
          let widened := widenOffsets (maker.currentItemCount + 1) maker.tempScratchSpace
          some (maker.nextItemPtr, VarBlockMaker.take { maker with
            buffer := setOffsetsAreSmall maker.buffer false
            maxItemCount := newMaxItemCount
            tempScratchSpace := putOffset24 widened maker.currentItemCount
              maker.nextItemPtr } itemLen newItemLenSum)
      else if (maker.maxBufferLen : Int) < totalSmall then none
      else
        some (maker.nextItemPtr, VarBlockMaker.take { maker with
          tempScratchSpace := putOffset16 maker.tempScratchSpace
            maker.currentItemCount maker.nextItemPtr } itemLen newItemLenSum)
    else if (maker.maxBufferLen : Int) < totalLarge then none
    else
      some (maker.nextItemPtr, VarBlockMaker.take { maker with
        tempScratchSpace := putOffset24 maker.tempScratchSpace
          maker.currentItemCount maker.nextItemPtr } itemLen newItemLenSum)

/-- What a client does for one item: it asks for a place and fills it.  The flag
tells whether it got one. -/
def makerAddItem (item : List Byte) : VarBlockMaker × Bool :=
  match makerGetNextItemPtr maker item.length with
  | none => (maker, false)
  | some (itemPtr, maker) =>
    ({ maker with buffer := writeAt maker.buffer itemPtr item }, true)

/-- Offer items one after the other: the maker and the accepted items. -/
def makerAddItems : List (List Byte) → VarBlockMaker → VarBlockMaker × List (List Byte)
  | [], maker => (maker, [])
  | item :: rest, maker =>
    match makerAddItem maker item with
    | (maker, false) => makerAddItems rest maker
    | (maker, true) =>
      let (maker, accepted) := makerAddItems rest maker
      (maker, item :: accepted)

/-- The bytes of one entry of the offset array. -/
def offsetLen : Nat :=
  if getOffsetsAreSmall buffer then 2 else byteOffset24Len

/-- Where the offset array starts, on an even boundary. -/
def offsetToOffsetArray (itemLenSum : Int) : Int := headerLen + roundEven itemLenSum

/-- Finish the block: the length and the buffer. -/
def makerFinish : Int × List Byte :=
  let toArray := offsetToOffsetArray maker.currentItemLenSum
  let offsetArrayLen := maker.currentItemCount * offsetLen maker.buffer
  let offsetArrayLenRounded := roundEven offsetArrayLen
  let buffer := writeAt maker.buffer toArray.toNat (readAt maker.tempScratchSpace 0 offsetArrayLen)
  -- zero the pad between the last item and the offset array
  let itemsEnd := headerLen + maker.currentItemLenSum
  let buffer := writeAt buffer itemsEnd.toNat (List.replicate (toArray - itemsEnd).toNat 0)
  let buffer := setItemLenSum buffer maker.currentItemLenSum
  let buffer := setItemCount buffer maker.currentItemCount
  -- zero the pad between the last offset and the rounded-up end
  let buffer := writeAt buffer (toArray + offsetArrayLen).toNat
    (List.replicate (offsetArrayLenRounded - offsetArrayLen).toNat 0)
  (toArray + offsetArrayLenRounded, buffer)

/-- One entry of the offset array of a block. -/
def getOffset (toArray itemIndex : Nat) : Nat :=
  leNat (readAt buffer (toArray + itemIndex * offsetLen buffer) (offsetLen buffer))

inductive VarBlockCheckError where
  | ok
  | badVersion
  | reservedNot0
  | moreReservedNot0
  | itemSumLenBad1
  | itemSumLenBad2
  | zeroPadBad1
  | zeroPadBad2
  | itemCountBad1
  | itemCountBad2
  | offsetBad1
  | offsetBad2
  | offsetBad3
deriving Repr, DecidableEq

def headerIsValid : VarBlockCheckError :=
  if getVersion buffer ≠ initialVersion then .badVersion
  else if getReserved buffer ≠ 0 then .reservedNot0
  else if getMoreReserved buffer ≠ 0 then .moreReservedNot0
  else .ok

/-- The loop over the offsets from index 1 on.  It compares the first offset
with itself and with the end of the items, over and over. -/
def checkOffsets (offset itemLenSum : Nat) : Nat → VarBlockCheckError
  | 0 => .ok
  | count + 1 =>
    if offset < offset then .offsetBad2
    else if itemLenSum + headerLen < offset then .offsetBad3
    else checkOffsets offset itemLenSum count

/-- The bytes of a pad are all zero. -/
def zeroPad (start stop : Nat) : Bool :=
  (readAt buffer start (stop - start)).all (fun byte => byte = 0)

/-- Determine if the whole block looks valid. -/
def isValid (bufferLen : Nat) : VarBlockCheckError :=
  if headerIsValid buffer ≠ .ok then headerIsValid buffer
  else
    let itemLenSum := getItemLenSum buffer
    let toArray := (offsetToOffsetArray itemLenSum).toNat
    if bufferLen ≤ itemLenSum then .itemSumLenBad1
    else if bufferLen < toArray then .itemSumLenBad2
    else if ¬ zeroPad buffer (headerLen + itemLenSum) toArray then .zeroPadBad1
    else
      let itemCount := getItemCount buffer
      if itemCount = 0 then
        if toArray ≠ bufferLen then .itemCountBad1 else .ok
      else
        let calculated := itemCount * offsetLen buffer
        let calculatedRounded := (calculated + 1) / 2 * 2
        if bufferLen - toArray ≠ calculatedRounded then .itemCountBad2
        else
          let offset := getOffset buffer toArray 0
          if offset ≠ headerLen then .offsetBad1
          else if checkOffsets offset itemLenSum (itemCount - 1) ≠ .ok then
            checkOffsets offset itemLenSum (itemCount - 1)
          else if ¬ zeroPad buffer (toArray + calculated)
              (toArray + calculatedRounded) then .zeroPadBad2
          else .ok

/-- The length of the whole block, from its header. -/
def lenFromHeader : Int :=
  let offsetArrayLen := getItemCount buffer * offsetLen buffer
  offsetToOffsetArray (getItemLenSum buffer) + roundEven offsetArrayLen

structure VarBlockReader where
  buffer : List Byte
  bufferLen : Nat
  nextIndex : Nat
  nextItemPtr : Nat
  offsetToOffsetArray : Nat

def readerInit (bufferLen : Nat) : VarBlockReader where
  buffer := buffer
  bufferLen := bufferLen
  nextIndex := 0
  nextItemPtr := headerLen
  offsetToOffsetArray := (offsetToOffsetArray (getItemLenSum buffer)).toNat

variable (reader : VarBlockReader)

/-- The length of an item: up to the next offset, and for the last item up to
the end of the items. -/
def getItemLen (itemIndex : Nat) : Int :=
  let offset := getOffset reader.buffer reader.offsetToOffsetArray itemIndex
  if (itemIndex : Int) < getItemCount reader.buffer - 1 then
    getOffset reader.buffer reader.offsetToOffsetArray (itemIndex + 1) - (offset : Int)
  else headerLen + getItemLenSum reader.buffer - offset

/-- Get a pointer to an item and its length. -/
def getItemPtrAndLen (itemIndex : Nat) : Nat × Int :=
  (getOffset reader.buffer reader.offsetToOffsetArray itemIndex, getItemLen reader itemIndex)

/-- Get a pointer to the next item and its length; `none` when there are no more
items. -/
def readerGetNextItemPtr : Option ((Nat × Int) × VarBlockReader) :=
  if getItemCount reader.buffer ≤ reader.nextIndex then none
  else
    let itemLen := getItemLen reader reader.nextIndex
    some ((reader.nextItemPtr, itemLen),
      { reader with
        nextItemPtr := (reader.nextItemPtr + itemLen).toNat
        nextIndex := reader.nextIndex + 1 })

/-- The bytes of an item that the reader has given a pointer and a length
for. -/
def itemBytes (item : Nat × Int) : List Byte :=
  readAt buffer item.1 item.2.toNat

/-- Read items until there are no more, at most `fuel` of them; the flag tells
whether the end was seen. -/
def readerItems : Nat → VarBlockReader → List (List Byte) × Bool
  | 0, _ => ([], false)
  | fuel + 1, reader =>
    match readerGetNextItemPtr reader with
    | none => ([], true)
    | some (item, next) =>
      let (rest, done) := readerItems fuel next
      (itemBytes reader.buffer item :: rest, done)

end Greenplum.VarBlock
