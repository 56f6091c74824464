/-
The block headers of append-only segment files, `cdbappendonlystorageformat.c`
and `cdbappendonlystorage_int.h`: two words of bit fields, the two checksums, an
extension of the long header and the number of the first row, each of the last
three only where it is wanted.
-/
import Greenplum.BufferedRead
import Greenplum.ByteNumbers
import Greenplum.WordFields

namespace Greenplum.AoStorage

open ByteMemory ByteNumbers

inductive AORelationVersion
  | original | aligned64bit | pg83
  deriving DecidableEq, Repr

namespace AORelationVersion

def latest : AORelationVersion := pg83

/-- Versions higher than the original one align blocks to 64 bits. -/
def alignmentFixed : AORelationVersion → Bool
  | original => false
  | aligned64bit => true
  | pg83 => true

variable (version : AORelationVersion)

/-- The length that content takes in a block. -/
def roundUp (length : Nat) : Nat :=
  if version.alignmentFixed then (length + 7) / 8 * 8 else (length + 3) / 4 * 4

/-- The content with zeros up to the length that it takes. -/
def zeroPad (content : List Byte) : List Byte :=
  content ++ List.replicate (version.roundUp content.length - content.length) 0

theorem le_roundUp (length : Nat) : length ≤ version.roundUp length := by
  unfold roundUp
  split_ifs <;> omega

theorem length_zeroPad (content : List Byte) :
    (version.zeroPad content).length = version.roundUp content.length := by
  rw [zeroPad, List.length_append, List.length_replicate,
    Nat.add_sub_cancel' (version.le_roundUp _)]

end AORelationVersion

inductive AoHeaderKind
  | smallContent | largeContent | nonBulkDenseContent | bulkDenseContent
  deriving DecidableEq, Repr

namespace AoHeaderKind

def code : AoHeaderKind → BitVec 32
  | smallContent => 1
  | largeContent => 2
  | nonBulkDenseContent => 3
  | bulkDenseContent => 4

def isLong : AoHeaderKind → Bool
  | bulkDenseContent => true
  | _ => false

end AoHeaderKind

def regularSize : Nat := 8

def longSize : Nat := 16

def checksumsLen (checksum : Bool) : Nat := if checksum then 2 * 4 else 0

def regularHeaderLenNeeded (checksum : Bool) : Nat :=
  regularSize + checksumsLen checksum

/-- One bit of the remainder, in the reflected form of the polynomial. -/
def crc32cShift (crc : BitVec 32) : BitVec 32 :=
  if crc.getLsbD 0 then (crc >>> 1) ^^^ 0x82F63B78 else crc >>> 1

/-- One byte; the tables of the source hold these remainders. -/
def crc32cByte (crc : BitVec 32) (byte : Byte) : BitVec 32 :=
  Nat.repeat crc32cShift 8 (crc ^^^ byte.setWidth 32)

/-- The checksum as it is stored, without the final inversion. -/
def crc32c (bytes : List Byte) : BitVec 32 := bytes.foldl crc32cByte 0xFFFFFFFF

section

/-- The word at an offset of a header. -/
def wordAt (header : List Byte) (offset : Nat) : BitVec 32 :=
  BitVec.ofNat 32 (leNat (readAt header offset 4))

def wordBytes (word : BitVec 32) : List Byte := leBytes 4 word.toNat

variable (word0 : BitVec 32)

def getReserved0 : BitVec 32 := word0 >>> 31

def getHeaderKind : BitVec 32 := (word0 &&& 0x70000000) >>> 28

def getHasFirstRowNum : Bool := (word0 &&& 0x08000000) >>> 27 ≠ 0

def getExecutorBlockKind : BitVec 32 :=
  (word0 &&& 0x07000000) >>> 24

def initHeaderKind (kind : AoHeaderKind) : BitVec 32 := 0x70000000 &&& (kind.code <<< 28)

def initExecutorBlockKind (executorKind : BitVec 32) : BitVec 32 :=
  0x07000000 &&& (executorKind <<< 24)

def initHasFirstRowNum (hasFirstRowNum : Bool) : BitVec 32 :=
  if hasFirstRowNum then 0x08000000 else 0

/-- The fields of `AOSmallContentHeader`. -/
def smallGetRowCount : BitVec 32 := (word0 &&& 0x00FFFC00) >>> 10

def smallGetDataLength (word0 word1 : BitVec 32) : BitVec 32 :=
  ((word0 &&& 0x000003FF) <<< 11) ||| ((word1 &&& 0xFFE00000) >>> 21)

variable (word1 : BitVec 32)

def smallGetCompressedLength : BitVec 32 := word1 &&& 0x001FFFFF

variable (rowCount : BitVec 32)

def smallInitRowCount : BitVec 32 := 0x00FFFC00 &&& (rowCount <<< 10)

variable (dataLength : BitVec 32)

def smallInitDataLength0 : BitVec 32 :=
  0x000003FF &&& (dataLength >>> 11)

def smallInitDataLength1 : BitVec 32 :=
  0xFFE00000 &&& (dataLength <<< 21)

def smallInitCompressedLength (compressedLength : BitVec 32) : BitVec 32 :=
  0x001FFFFF &&& compressedLength

/-- The fields of `AOLargeContentHeader`. -/
def largeGetLargeRowCount : BitVec 32 :=
  ((word0 &&& 0x007FFFFF) <<< 2) ||| ((word1 &&& 0xC0000000) >>> 30)

def largeGetLargeContentLength : BitVec 32 := word1 &&& 0x3FFFFFFF

def largeInitLargeRowCount0 : BitVec 32 :=
  0x007FFFFF &&& (rowCount >>> 2)

def largeInitLargeRowCount1 : BitVec 32 :=
  0xC0000000 &&& (rowCount <<< 30)

def largeInitLargeContentLength (length : BitVec 32) : BitVec 32 := 0x3FFFFFFF &&& length

/-- The fields of `AONonBulkDenseContentHeader`. -/
def nonBulkDenseGetDataLength : BitVec 32 := word0 &&& 0x001FFFFF

def nonBulkDenseGetLargeRowCount : BitVec 32 := word1 &&& 0x3FFFFFFF

def nonBulkDenseInitDataLength : BitVec 32 :=
  0x001FFFFF &&& dataLength

def nonBulkDenseInitLargeRowCount : BitVec 32 :=
  0x3FFFFFFF &&& rowCount

/-- The fields of `AOBulkDenseContentHeader` and of its extension, whose lengths
lie as in the small header. -/
def bulkDenseExtGetLargeRowCount (extWord1 : BitVec 32) : BitVec 32 :=
  extWord1 &&& 0x3FFFFFFF

def bulkDenseExtInitLargeRowCount : BitVec 32 :=
  0x3FFFFFFF &&& rowCount

end

section

def rowNumBytes : Option (BitVec 64) → List Byte
  | none => []
  | some firstRowNum => leBytes 8 firstRowNum.toNat

/-- Put the checksums behind the first words of a block.  The block checksum
covers the part of the block behind both checksums that the lengths tell of, the
header checksum the first words and the block checksum. -/
def addBlockHeaderChecksums (version : AORelationVersion) (kind : AoHeaderKind)
    (hasFirstRowNum : Bool) (storedLen : Nat) (first rest : List Byte) : List Byte :=
  let offset := regularSize + 2 * 4
  let overallBlockLen := offset + (if kind.isLong then regularSize else 0) +
    (if hasFirstRowNum then 8 else 0) + version.roundUp storedLen
  let blockChecksum := wordBytes (crc32c (rest.take (overallBlockLen - offset)))
  let headerChecksum := wordBytes (crc32c (first ++ blockChecksum))
  first ++ (blockChecksum ++ (headerChecksum ++ rest))

/-- The header in front of the content that is already in place. -/
def makeBlock (checksum : Bool) (version : AORelationVersion) (kind : AoHeaderKind)
    (word0 word1 : BitVec 32) (extension : List Byte)
    (firstRowNum : Option (BitVec 64)) (checkedRowNum : Bool) (storedLen : Nat)
    (content : List Byte) : List Byte :=
  let first := wordBytes word0 ++ wordBytes word1
  let rest := extension ++ (rowNumBytes firstRowNum ++ content)
  if checksum then
    addBlockHeaderChecksums version kind checkedRowNum storedLen first rest
  else first ++ rest

/-- What a block header tells. -/
structure BlockFields where
  executorKind : Nat
  rowCount : Nat
  dataLength : Nat
  compressedLength : Nat
  firstRowNum : Option (BitVec 64)

namespace BlockFields

variable (fields : BlockFields)

/-- The length of what is stored: a compressed length of zero tells that the
content is not compressed. -/
def storedLen : Nat :=
  if fields.compressedLength > 0 then fields.compressedLength else fields.dataLength

def smallWord0 : BitVec 32 :=
  initHeaderKind .smallContent ||| initExecutorBlockKind (BitVec.ofNat 32 fields.executorKind) |||
    smallInitRowCount (BitVec.ofNat 32 fields.rowCount) |||
    smallInitDataLength0 (BitVec.ofNat 32 fields.dataLength) |||
    initHasFirstRowNum fields.firstRowNum.isSome

def lengthsWord1 : BitVec 32 :=
  smallInitDataLength1 (BitVec.ofNat 32 fields.dataLength) ||| if fields.compressedLength > 0 then
      smallInitCompressedLength (BitVec.ofNat 32 fields.compressedLength)
    else 0

def largeWord0 : BitVec 32 :=
  initHeaderKind .largeContent ||| initExecutorBlockKind (BitVec.ofNat 32 fields.executorKind) |||
    largeInitLargeRowCount0 (BitVec.ofNat 32 fields.rowCount) |||
    initHasFirstRowNum fields.firstRowNum.isSome

def largeWord1 : BitVec 32 :=
  largeInitLargeRowCount1 (BitVec.ofNat 32 fields.rowCount) |||
    largeInitLargeContentLength (BitVec.ofNat 32 fields.dataLength)

def nonBulkDenseWord0 : BitVec 32 :=
  initHeaderKind .nonBulkDenseContent |||
    initExecutorBlockKind (BitVec.ofNat 32 fields.executorKind) |||
    nonBulkDenseInitDataLength (BitVec.ofNat 32 fields.dataLength) |||
    initHasFirstRowNum fields.firstRowNum.isSome

def nonBulkDenseWord1 : BitVec 32 :=
  nonBulkDenseInitLargeRowCount (BitVec.ofNat 32 fields.rowCount)

def bulkDenseWord0 : BitVec 32 :=
  initHeaderKind .bulkDenseContent |||
    initExecutorBlockKind (BitVec.ofNat 32 fields.executorKind) |||
    smallInitDataLength0 (BitVec.ofNat 32 fields.dataLength) |||
    initHasFirstRowNum fields.firstRowNum.isSome

def bulkDenseExtension : List Byte :=
  wordBytes 0 ++ wordBytes (bulkDenseExtInitLargeRowCount (BitVec.ofNat 32 fields.rowCount))

end BlockFields

variable (checksum : Bool) (version : AORelationVersion) (fields : BlockFields)
  (content : List Byte)

def makeSmallContentHeader : List Byte :=
  makeBlock checksum version .smallContent fields.smallWord0 fields.lengthsWord1 []
    fields.firstRowNum fields.firstRowNum.isSome fields.storedLen content

/-- There is no content behind this header, and the number of the first row is
left out of the block checksum. -/
def makeLargeContentHeader : List Byte :=
  makeBlock checksum version .largeContent fields.largeWord0 fields.largeWord1 []
    fields.firstRowNum false 0 []

/-- The content behind this header is never compressed. -/
def makeNonBulkDenseContentHeader : List Byte :=
  makeBlock checksum version .nonBulkDenseContent fields.nonBulkDenseWord0
    fields.nonBulkDenseWord1 [] fields.firstRowNum fields.firstRowNum.isSome
    fields.dataLength content

def makeBulkDenseContentHeader : List Byte :=
  makeBlock checksum version .bulkDenseContent fields.bulkDenseWord0
    fields.lengthsWord1 fields.bulkDenseExtension fields.firstRowNum
    fields.firstRowNum.isSome fields.storedLen content

end

section

/-- The kind in a header and the length that this header has, or what is wrong
with it. -/
def getHeaderInfo (header : List Byte) (checksum : Bool) :
    Except StorageError (AoHeaderKind × Nat) :=
  let word0 := wordAt header 0
  if word0 = 0 then .error .firstWordIsZero
  else if getReserved0 word0 ≠ 0 then .error .reservedBitIsSet
  else
    let rowNumLen := if getHasFirstRowNum word0 then 8 else 0
    let regularLen := regularSize + checksumsLen checksum + rowNumLen
    match (getHeaderKind word0).toNat with
    | 0 => .error .headerKindNone
    | 1 => .ok (.smallContent, regularLen)
    | 2 => .ok (.largeContent, regularLen)
    | 3 => .ok (.nonBulkDenseContent, regularLen)
    | 4 => .ok (.bulkDenseContent, longSize + checksumsLen checksum + rowNumLen)
    | _ => .error .invalidHeaderKind

/-- What the reader takes from a header. -/
structure HeaderInfo where
  overallBlockLen : Nat
  contentOffset : Nat
  uncompressedLen : Nat
  executorBlockKind : Nat
  hasFirstRowNum : Bool
  firstRowNum : BitVec 64
  rowCount : Nat
  isCompressed : Bool
  compressedLen : Nat

/-- The number of the first row, which lies at an offset if there is one, and the
offset behind it. -/
def getFirstRowNum (header : List Byte) (offset : Nat) : BitVec 64 × Nat :=
  if getHasFirstRowNum (wordAt header 0) then
    (BitVec.ofNat 64 (leNat (readAt header offset 8)), offset + 8)
  else (-1, offset)

/-- The common part for the headers that have content behind them. -/
def getContentHeaderInfo (version : AORelationVersion) (header : List Byte)
    (headerLen blockLimitLen offset rowCount uncompressedLen compressedLen : Nat) :
    Except StorageError HeaderInfo :=
  let rowNum := getFirstRowNum header offset
  if rowNum.2 ≠ headerLen then .error .contentOffset
  else if compressedLen > uncompressedLen then .error .invalidCompressedLen
  else
    let length := if compressedLen = 0 then uncompressedLen else compressedLen
    let overallBlockLen := rowNum.2 + version.roundUp length
    if overallBlockLen > blockLimitLen then .error .invalidOverallBlockLen
    else .ok {
      overallBlockLen := overallBlockLen
      contentOffset := rowNum.2
      uncompressedLen := uncompressedLen
      executorBlockKind := (getExecutorBlockKind (wordAt header 0)).toNat
      hasFirstRowNum := getHasFirstRowNum (wordAt header 0)
      firstRowNum := rowNum.1
      rowCount := rowCount
      isCompressed := compressedLen ≠ 0
      compressedLen := compressedLen }

variable (checksum : Bool) (version : AORelationVersion) (header : List Byte)
  (headerLen blockLimitLen : Nat)

def getSmallContentHeaderInfo : Except StorageError HeaderInfo :=
  getContentHeaderInfo version header headerLen blockLimitLen (regularSize + checksumsLen checksum)
    (smallGetRowCount (wordAt header 0)).toNat
    (smallGetDataLength (wordAt header 0) (wordAt header 4)).toNat
    (smallGetCompressedLength (wordAt header 4)).toNat

/-- There is no content behind this header, so the fields that tell of content
keep their initial values. -/
def getLargeContentHeaderInfo : Except StorageError HeaderInfo :=
  let largeContentLen := (largeGetLargeContentLength (wordAt header 4)).toNat
  let rowNum := getFirstRowNum header (regularSize + checksumsLen checksum)
  if largeContentLen = 0 then .error .largeContentLenIsZero
  else if rowNum.2 ≠ headerLen then .error .contentOffset
  else .ok {
    overallBlockLen := 0
    contentOffset := 0
    uncompressedLen := largeContentLen
    executorBlockKind := (getExecutorBlockKind (wordAt header 0)).toNat
    hasFirstRowNum := getHasFirstRowNum (wordAt header 0)
    firstRowNum := rowNum.1
    rowCount := (largeGetLargeRowCount (wordAt header 0) (wordAt header 4)).toNat
    isCompressed := false
    compressedLen := 0 }

def getNonBulkDenseContentHeaderInfo : Except StorageError HeaderInfo :=
  getContentHeaderInfo version header headerLen blockLimitLen (regularSize + checksumsLen checksum)
    (nonBulkDenseGetLargeRowCount (wordAt header 4)).toNat
    (nonBulkDenseGetDataLength (wordAt header 0)).toNat 0

def getBulkDenseContentHeaderInfo : Except StorageError HeaderInfo :=
  let firstHeaderAndChecksumsLen := regularSize + checksumsLen checksum
  getContentHeaderInfo version header headerLen blockLimitLen
    (firstHeaderAndChecksumsLen + regularSize)
    (bulkDenseExtGetLargeRowCount (wordAt header (firstHeaderAndChecksumsLen + 4))).toNat
    (smallGetDataLength (wordAt header 0) (wordAt header 4)).toNat
    (smallGetCompressedLength (wordAt header 4)).toNat

/-- The part of the header that depends on its kind. -/
def getHeaderInfoOfKind (kind : AoHeaderKind) : Except StorageError HeaderInfo :=
  match kind with
  | .smallContent =>
    getSmallContentHeaderInfo checksum version header headerLen blockLimitLen
  | .largeContent => getLargeContentHeaderInfo checksum header headerLen
  | .nonBulkDenseContent =>
    getNonBulkDenseContentHeaderInfo checksum version header headerLen blockLimitLen
  | .bulkDenseContent =>
    getBulkDenseContentHeaderInfo checksum version header headerLen blockLimitLen

def verifyHeaderChecksum : Bool :=
  wordAt header (regularSize + 4) = crc32c (readAt header 0 (regularSize + 4))

def verifyBlockChecksum (overallBlockLen : Nat) : Bool :=
  wordAt header regularSize = crc32c (readAt header (regularSize + 2 * 4)
    (overallBlockLen - (regularSize + 2 * 4)))

end

end Greenplum.AoStorage
