/-
The reader of append-only segment files, `cdbappendonlystorageread.c`: it looks
for the next header, skipping the padding of the pages, and reads the content
behind it.
-/
import Greenplum.AoStorageSessions

namespace Greenplum.AoStorage

/-- What the reader knows of the current block. -/
structure ReadCurrent where
  headerOffsetInFile : Nat
  headerKind : AoHeaderKind
  actualHeaderLen : Nat
  info : HeaderInfo
  isLarge : Bool

/-- The state of `AppendOnlyStorageRead`.  The positions at which a header was
found are recorded. -/
structure StorageRead where
  settings : StorageSettings
  verifyBlockChecksums : Bool
  bufferedRead : BufferedRead
  formatVersion : AORelationVersion
  current : Option ReadCurrent
  bufferCount : Nat
  headerPositions : List Nat

def storageReadInit (settings : StorageSettings) (verifyBlockChecksums : Bool)
    (memory : List Byte) : StorageRead where
  settings := settings
  verifyBlockChecksums := verifyBlockChecksums
  bufferedRead := bufferedReadInit memory settings.maxBufferLen (2 * settings.maxBufferLen)
  formatVersion := .latest
  current := none
  bufferCount := 0
  headerPositions := []

namespace StorageRead

variable (read : StorageRead)

def minimumHeaderLen : Nat := read.settings.regularHeaderLen

def tryOpenFile (file : List Byte) (version : AORelationVersion)
    (logicalEof : Nat) : Except StorageError StorageRead := do
  let bufferedRead ← read.bufferedRead.setFile file logicalEof
  return { read with formatVersion := version, bufferedRead := bufferedRead }

/-- Skip to the page boundary: always, or only a remainder below a length. -/
def doSkipPadding (skipLen : Option Nat) : Except StorageError StorageRead :=
  let safeWrite := read.settings.safeFSWriteSize
  if safeWrite = 0 then .ok read
  else
    let remainder := safeWriteRemainder safeWrite read.bufferedRead.nextBufferPosition
    let doSkip := remainder > 0 && skipLen.all (remainder < ·)
    if doSkip then do
      let (buffer, bufferedRead) ← read.bufferedRead.getNextBuffer remainder
      if buffer.map List.length ≠ some remainder then .error .unexpectedEndOfFile
      else return { read with bufferedRead := bufferedRead }
    else .ok read

/-- Get as many bytes as the shortest header has; the result is `none` at the end
of the file. -/
def peekHeader : Except StorageError (Option (List Byte) × StorageRead) := do
  let (header, bufferedRead) ← read.bufferedRead.getNextBuffer read.minimumHeaderLen
  let next := { read with bufferedRead := bufferedRead }
  match header with
  | none => return (none, next)
  | some bytes =>
    if bytes.length ≠ read.minimumHeaderLen then .error .shortHeader
    else return (some bytes, next)

/-- Record that a header was found at a position; the result is the position, the
first bytes of the header, and how long the block can be. -/
def foundHeader (headerOffsetInFile : Nat)
    (header : List Byte) : Option (Nat × List Byte × Nat) × StorageRead :=
  let fileRemainderLen := read.bufferedRead.fileLen - headerOffsetInFile
  (some (headerOffsetInFile, header, min read.settings.maxBufferLen fileRemainderLen),
    { read with headerPositions := read.headerPositions ++ [headerOffsetInFile] })

/-- Position to the header behind a zero-padded rest of a page. -/
def positionBehindPadding : Except StorageError (Option (Nat × List Byte × Nat) × StorageRead) := do
  let behind ← read.doSkipPadding none
  let headerOffset := behind.bufferedRead.nextBufferPosition
  let (header, again) ← behind.peekHeader
  match header with
  | none => return (none, again)
  | some bytes => return again.foundHeader headerOffset bytes

/-- Position to the next header. -/
def positionToNextBlock : Except StorageError (Option (Nat × List Byte × Nat) × StorageRead) := do
  let skipped ← read.doSkipPadding (some read.minimumHeaderLen)
  let headerOffset := skipped.bufferedRead.nextBufferPosition
  let (header, peeked) ← skipped.peekHeader
  match header with
  | none => return (none, peeked)
  | some bytes =>
    let counted := { peeked with bufferCount := peeked.bufferCount + 1 }
    if bytes.all (· = 0) then counted.positionBehindPadding
    else return counted.foundHeader headerOffset bytes

/-- Make sure that the whole header is in the buffer. -/
def growHeader (header : List Byte) (actualHeaderLen : Nat) :
    Except StorageError (List Byte × StorageRead) :=
  if read.minimumHeaderLen < actualHeaderLen then do
    let (header, bufferedRead) ← read.bufferedRead.growBuffer actualHeaderLen
    if header.length ≠ actualHeaderLen then .error .shortHeader
    else return (header, { read with bufferedRead := bufferedRead })
  else .ok (header, read)

/-- Read the header of the next block; there is no current block at the end of the
file. -/
def readNextBlock : Except StorageError StorageRead := do
  let (found, positioned) ← positionToNextBlock { read with current := none }
  match found with
  | none => return positioned
  | some (headerOffset, header, blockLimitLen) =>
    if read.settings.checksum && read.verifyBlockChecksums &&
        !verifyHeaderChecksum header then .error .headerChecksum
    else do
      let (kind, actualHeaderLen) ← getHeaderInfo header read.settings.checksum
      let (header, grown) ← positioned.growHeader header actualHeaderLen
      let info ← getHeaderInfoOfKind read.settings.checksum read.formatVersion header
        actualHeaderLen blockLimitLen kind
      return { grown with current := some {
        headerOffsetInFile := headerOffset
        headerKind := kind
        actualHeaderLen := actualHeaderLen
        info := info
        isLarge := kind = .largeContent } }

variable (current : ReadCurrent)

/-- Get the whole current block. -/
def internalGetBuffer : Except StorageError (List Byte × StorageRead) := do
  let (header, bufferedRead) ←
    read.bufferedRead.growBuffer current.info.overallBlockLen
  if header.length ≠ current.info.overallBlockLen then .error .shortBlock
  else if read.settings.checksum && read.verifyBlockChecksums &&
      !verifyBlockChecksum header current.info.overallBlockLen then
    .error .blockChecksum
  else return (header, { read with bufferedRead := bufferedRead })

/-- The content of one block, as it is or decompressed. -/
def regularContent : Except StorageError (List Byte × StorageRead) := do
  let (header, next) ← read.internalGetBuffer current
  let content := header.drop current.info.contentOffset
  if !current.info.isCompressed then
    return (content.take current.info.uncompressedLen, next)
  else
    match read.settings.compressor with
    | none => .error .decompressionMissing
    | some compressor =>
      let out := compressor.decompress (content.take current.info.compressedLen)
        current.info.uncompressedLen
      if out.length ≠ current.info.uncompressedLen then .error .uncompressedLen
      else return (out, next)

/-- The fragments of a large content. -/
def largeContent : Nat → Nat → StorageRead → Except StorageError (List Byte × StorageRead)
  | 0, _, _ => .error .endlessLoop
  | fuel + 1, remainingLargeContentLen, read => do
      let next ← read.readNextBlock
      match next.current with
      | none => .error .unexpectedEndOfFile
      | some current =>
        if current.headerKind ≠ .smallContent then .error .unexpectedHeaderKind
        else if remainingLargeContentLen < current.info.uncompressedLen then
          .error .tooMuchData
        else do
          let remaining := remainingLargeContentLen - current.info.uncompressedLen
          let (bytes, done) ← next.regularContent current
          if remaining = 0 then return (bytes, done)
          else do
            let (more, last) ← largeContent fuel remaining done
            return (bytes ++ more, last)

/-- The content of the current logical block. -/
def content : Except StorageError (List Byte × StorageRead) :=
  if current.isLarge then
    largeContent (read.bufferedRead.fileLen + 1) current.info.uncompressedLen read
  else read.regularContent current

/-- Get the information on each block and its content, to the end of the file. -/
def readBlocks : Nat → StorageRead → Except StorageError (List LogicalBlock × StorageRead)
  | 0, _ => .error .endlessLoop
  | fuel + 1, read => do
      let next ← read.readNextBlock
      match next.current with
      | none => return ([], next)
      | some current => do
          let (bytes, done) ← next.content current
          let (more, last) ← readBlocks fuel done
          return (⟨current.info.executorBlockKind, current.info.firstRowNum,
            current.info.rowCount, bytes⟩ :: more, last)

/-- Read a file to its logical end. -/
def readFile (file : List Byte) (logicalEof : Nat) :
    Except StorageError (List LogicalBlock × StorageRead) := do
  let opened ← read.tryOpenFile file .latest logicalEof
  readBlocks (logicalEof + 1) opened

end StorageRead

end Greenplum.AoStorage
