/-
The writer of append-only segment files, `cdbappendonlystoragewrite.c`: content
that fits into one block is written behind a small or a dense header, longer
content in fragments behind the header of a large content, and the file is
padded to the page boundary when it is closed.
-/
import Greenplum.AoStorageBlocks
import Greenplum.RecordLog

namespace Greenplum.AoStorage

open List Nat

/-- The functions of a compression type.  Decompression is told the length of
the source. -/
structure Compressor where
  compress : List Byte → List Byte
  decompress : List Byte → Nat → List Byte
  compress_ne_nil : ∀ source, source ≠ [] → compress source ≠ []
  decompress_compress : ∀ source, (compress source).length < source.length →
    decompress (compress source) source.length = source

/-- The attributes of a table.  A block size is a multiple of 8 KB between 8 KB
and 2 MB, of which only a part is used here; the option check keeps the page size
below it. -/
structure StorageSettings where
  maxBufferLen : Nat
  checksum : Bool
  compressor : Option Compressor
  overflowSize : Nat
  safeFSWriteSize : Nat
  eight_dvd : 8 ∣ maxBufferLen
  le_maxBufferLen : 64 ≤ maxBufferLen
  maxBufferLen_le : maxBufferLen ≤ 2 ^ 21
  overflow_le : overflowSize ≤ maxBufferLen
  safeWrite_le : safeFSWriteSize ≤ maxBufferLen

namespace StorageSettings

variable (settings : StorageSettings)

def regularHeaderLen : Nat :=
  regularHeaderLenNeeded settings.checksum

/-- Room for what a compressor writes too much. -/
def maxBufferWithCompressionOverrunLen : Nat :=
  settings.maxBufferLen + settings.overflowSize

def largeWriteLen : Nat := 2 * settings.maxBufferLen

end StorageSettings

/-- The distance from a position to the next page boundary. -/
def safeWriteRemainder (safeWrite position : Nat) : Nat :=
  (position + safeWrite - 1) / safeWrite * safeWrite - position

/-- The state of `AppendOnlyStorageWrite`.  The positions of the headers are
recorded as they are made. -/
structure StorageWrite where
  settings : StorageSettings
  bufferedAppend : BufferedAppend
  formatVersion : AORelationVersion
  firstRowNum : Option (BitVec 64)
  getBufferAoHeaderKind : AoHeaderKind
  currentCompleteHeaderLen : Nat
  logicalBlockStartOffset : Nat
  headerPositions : List Nat

/-- The memory comes as it was allocated. -/
def storageWriteInit (settings : StorageSettings) (memory : List Byte) : StorageWrite where
  settings := settings
  bufferedAppend := bufferedAppendInit memory
    settings.maxBufferWithCompressionOverrunLen settings.largeWriteLen
  formatVersion := .latest
  firstRowNum := none
  getBufferAoHeaderKind := .smallContent
  currentCompleteHeaderLen := 0
  logicalBlockStartOffset := 0
  headerPositions := []

namespace StorageWrite

variable (write : StorageWrite)

def openFile (file : List Byte) (version : AORelationVersion)
    (logicalEof fileLenUncompressed : Nat) : Except StorageError StorageWrite :=
  if version ≠ .latest then .error .unexpectedVersion
  else .ok { write with
    formatVersion := version
    bufferedAppend := write.bufferedAppend.setFile file logicalEof fileLenUncompressed }

def setFirstRowNum (firstRowNum : BitVec 64) : StorageWrite :=
  { write with firstRowNum := some firstRowNum }

variable (kind : AoHeaderKind)

def completeHeaderLen : Nat :=
  write.settings.regularHeaderLen + (if kind.isLong then longSize - regularSize else 0) +
    (if write.firstRowNum.isSome then 8 else 0)

def largeContentHeaderLen : Nat :=
  write.settings.regularHeaderLen + (if write.firstRowNum.isSome then 8 else 0)

def chooseHeader : StorageWrite :=
  { write with
    getBufferAoHeaderKind := kind
    currentCompleteHeaderLen := write.completeHeaderLen kind }

/-- Get a buffer for content; with compression it is a buffer of its own. -/
def getBuffer : Except StorageError StorageWrite :=
  match write.settings.compressor with
  | some _ => .ok (write.chooseHeader kind)
  | none => do
      let bufferedAppend ← write.bufferedAppend.getMaxBuffer
      return { write.chooseHeader kind with bufferedAppend := bufferedAppend }

/-- Put a block into the current buffer. -/
def putBlock (block : List Byte) : StorageWrite :=
  { write with
    bufferedAppend := write.bufferedAppend.fill block
    headerPositions :=
      write.headerPositions ++ [write.bufferedAppend.nextBufferPosition] }

def finishBlock (bufferLen uncompressedLen : Nat) : Except StorageError StorageWrite := do
  let bufferedAppend ← write.bufferedAppend.finishBuffer bufferLen uncompressedLen
  return { write with
    bufferedAppend := bufferedAppend
    currentCompleteHeaderLen := 0 }

section

variable (compressor : Compressor) (content : List Byte)

/-- What is stored of content that a compressor has seen, and the compressed
length, which is zero if the content is stored as it is. -/
def storedContent : List Byte × Nat :=
  let compressed := compressor.compress content
  if compressed.length ≥ content.length then (content, 0)
  else (compressed, compressed.length)

/-- Compress content into the current block; the result goes with the length of
the block. -/
def compressAppend (executorKind itemCount : Nat) :
    Except StorageError (StorageWrite × Nat) := do
  let headerLen := write.completeHeaderLen write.getBufferAoHeaderKind
  let bufferedAppend ← write.bufferedAppend.getMaxBuffer
  let write := { write with
    currentCompleteHeaderLen := headerLen
    bufferedAppend := bufferedAppend }
  let (stored, compressedLen) := storedContent compressor content
  let version := write.formatVersion
  let fields : BlockFields := {
    executorKind := executorKind
    rowCount := itemCount
    dataLength := content.length
    compressedLength := compressedLen
    firstRowNum := write.firstRowNum }
  let bufferLen := headerLen + version.roundUp stored.length
  match write.getBufferAoHeaderKind with
  | .smallContent => .ok (write.putBlock (makeSmallContentHeader
      write.settings.checksum version fields (version.zeroPad stored)), bufferLen)
  | .bulkDenseContent => .ok (write.putBlock (makeBulkDenseContentHeader
      write.settings.checksum version fields (version.zeroPad stored)), bufferLen)
  | _ => .error .unexpectedHeaderKind

/-- Finish the content that was put into the buffer. -/
def finishBuffer (executorKind rowCount : Nat) : Except StorageError StorageWrite :=
  let version := write.formatVersion
  if content.length > write.settings.maxBufferLen - write.currentCompleteHeaderLen then
    .error .contentTooLarge
  else
    match write.settings.compressor with
    | none => do
        let fields : BlockFields := {
          executorKind := executorKind
          rowCount := rowCount
          dataLength := content.length
          compressedLength := 0
          firstRowNum := write.firstRowNum }
        let bufferLen := write.currentCompleteHeaderLen + version.roundUp content.length
        let block ← match write.getBufferAoHeaderKind with
          | .smallContent => .ok (makeSmallContentHeader write.settings.checksum
              version fields (version.zeroPad content))
          | .nonBulkDenseContent => .ok (makeNonBulkDenseContentHeader
              write.settings.checksum version fields (version.zeroPad content))
          | _ => .error .unexpectedHeaderKind
        let write ← (write.putBlock block).finishBlock bufferLen bufferLen
        return { write with firstRowNum := none }
    | some compressor => do
        let (write, bufferLen) ←
          write.compressAppend compressor content executorKind rowCount
        let write ← write.finishBlock bufferLen
          (write.currentCompleteHeaderLen + version.roundUp content.length)
        return { write with firstRowNum := none }

/-- One block with a small header, as both parts of `content` write it. -/
def smallContent (executorKind rowCount : Nat) : Except StorageError StorageWrite :=
  match write.settings.compressor with
  | none => do
      let write ← write.getBuffer .smallContent
      write.finishBuffer content executorKind rowCount
  | some compressor => do
      let (write, bufferLen) ← compressAppend
        { write with getBufferAoHeaderKind := .smallContent } compressor content
        executorKind rowCount
      write.finishBlock bufferLen
        (write.currentCompleteHeaderLen + write.formatVersion.roundUp content.length)

end

/-- Write the fragments of a large content. -/
def fragments (maxSmallContentLen executorKind : Nat) :
    Nat → StorageWrite → List Byte → Except StorageError StorageWrite
  | 0, _, _ => .error .endlessLoop
  | fuel + 1, write, contentNext => do
      let write ← write.smallContent (contentNext.take maxSmallContentLen) executorKind 0
      let countdown := contentNext.drop maxSmallContentLen
      if countdown.isEmpty then return write
      else fragments maxSmallContentLen executorKind fuel write countdown

/-- Write the header of a large content, and its fragments behind it. -/
def largeContent (bytes : List Byte)
    (executorKind rowCount : Nat) : Except StorageError StorageWrite := do
  let headerLen := write.largeContentHeaderLen
  let bufferedAppend ← write.bufferedAppend.getBuffer headerLen
  let fields : BlockFields := {
    executorKind := executorKind
    rowCount := rowCount
    dataLength := bytes.length
    compressedLength := 0
    firstRowNum := write.firstRowNum }
  let header := makeLargeContentHeader write.settings.checksum write.formatVersion fields
  let write ← ({ write with bufferedAppend := bufferedAppend }.putBlock
    header).finishBlock headerLen headerLen
  let write := { write with firstRowNum := none }
  let maxSmallContentLen := write.settings.maxBufferLen - write.completeHeaderLen .smallContent
  fragments maxSmallContentLen executorKind bytes.length write bytes

/-- Write content of any length. -/
def content (bytes : List Byte) (executorKind rowCount : Nat) : Except StorageError StorageWrite :=
  let started := { write with
    logicalBlockStartOffset := write.bufferedAppend.nextBufferPosition }
  if bytes.length ≤ write.settings.maxBufferLen - write.completeHeaderLen .smallContent then do
    let written ← started.smallContent bytes executorKind rowCount
    return { written with firstRowNum := none }
  else started.largeContent bytes executorKind rowCount

/-- Pad to the page boundary: always, or only a remainder below a length. -/
def doPadOutRemainder (padLen : Option Nat) : Except StorageError StorageWrite :=
  let safeWrite := write.settings.safeFSWriteSize
  if safeWrite = 0 then .ok write
  else
    let remainder := safeWriteRemainder safeWrite write.bufferedAppend.nextBufferPosition
    let doPad := remainder > 0 && padLen.all (remainder < ·)
    if doPad then do
      let bufferedAppend ← write.bufferedAppend.getBuffer remainder
      let bufferedAppend ← (bufferedAppend.fill
        (List.replicate remainder 0)).finishBuffer remainder remainder
      return { write with bufferedAppend := bufferedAppend }
    else .ok write

/-- Pad out the last page and write everything; the result goes with the file and
its new logical end. -/
def flushAndCloseFile : Except StorageError (StorageWrite × List Byte × Nat) := do
  let write ← write.doPadOutRemainder none
  let (bufferedAppend, file, newLogicalEof, _) := write.bufferedAppend.completeFile
  return ({ write with bufferedAppend := bufferedAppend }, file, newLogicalEof)

/-- One logical block as a caller writes it. -/
inductive WriteOp
  | buffer (kind : AoHeaderKind) (firstRowNum : Option (BitVec 64))
      (executorKind rowCount : Nat) (bytes : List Byte)
  | content (firstRowNum : Option (BitVec 64)) (executorKind rowCount : Nat) (bytes : List Byte)

def setRowNum : Option (BitVec 64) → StorageWrite
  | none => write
  | some firstRowNum => write.setFirstRowNum firstRowNum

def run : WriteOp → Except StorageError StorageWrite
  | .buffer kind firstRowNum executorKind rowCount bytes => do
      let write ← (write.setRowNum firstRowNum).getBuffer kind
      write.finishBuffer bytes executorKind rowCount
  | .content firstRowNum executorKind rowCount bytes =>
    (write.setRowNum firstRowNum).content bytes executorKind rowCount

/-- Open the file at its logical end, write and close it. -/
def runSession (file : List Byte) (logicalEof : Nat)
    (ops : List WriteOp) : Except StorageError (StorageWrite × List Byte × Nat) := do
  let write ← write.openFile file .latest logicalEof 0
  let write ← ops.foldlM run write
  write.flushAndCloseFile

def runSessions (write : StorageWrite) (file : List Byte) (logicalEof : Nat) :
    List (List WriteOp) → Except StorageError (StorageWrite × List Byte × Nat)
  | [] => .ok (write, file, logicalEof)
  | ops :: rest => do
      let (write, file, logicalEof) ← write.runSession file logicalEof ops
      runSessions write file logicalEof rest

end StorageWrite

section

/-- The bytes of a block of this table. -/
def StorageSettings.blockImage (settings : StorageSettings) (block : Block) : List Byte :=
  block.image settings.checksum .latest

/-- A block holds content, as it is or compressed. -/
structure Block.Holds (settings : StorageSettings) (block : Block)
    (content : List Byte) : Prop where
  length : block.fields.dataLength = content.length
  raw : block.fields.compressedLength = 0 → block.stored = content
  compressed : block.fields.compressedLength ≠ 0 → ∃ compressor,
    settings.compressor = some compressor ∧
      compressor.decompress block.stored content.length = content

namespace StorageWrite

/-- What holds while a file is open. -/
structure Inv (write : StorageWrite) : Prop where
  append : write.bufferedAppend.Inv
  limit : write.bufferedAppend.maxBufferLen = write.settings.maxBufferWithCompressionOverrunLen
  version : write.formatVersion = .latest

def contents (write : StorageWrite) : List Byte := write.bufferedAppend.contents

/-- From one state to another these blocks were written. -/
structure Appends (write next : StorageWrite) (blocks : List Block) : Prop where
  inv : next.Inv
  settings : next.settings = write.settings
  contents : next.contents = write.contents ++ RecordLog.image write.settings.blockImage blocks
  headerPositions : next.headerPositions = write.headerPositions ++
    RecordLog.starts write.settings.blockImage write.contents.length blocks

variable {write next last : StorageWrite}

theorem Appends.trans {blocks more : List Block} (h : Appends write next blocks)
    (h' : Appends next last more) : Appends write last (blocks ++ more) where
  inv := h'.inv
  settings := h'.settings.trans h.settings
  contents := by
    rw [h'.contents, h.contents, h.settings, RecordLog.image_append, append_assoc]
  headerPositions := by
    rw [h'.headerPositions, h.headerPositions, h.settings, h.contents,
      RecordLog.starts_append, append_assoc, length_append]

/-- A buffer that is filled with a block and finished. -/
theorem finishBlock_spec (h : write.Inv) (block : Block) {bufferLen : Nat}
    (hbuffer : write.bufferedAppend.bufferLen = bufferLen)
    (hfits : (write.settings.blockImage block).length ≤ bufferLen)
    (hlimit : bufferLen ≤ write.bufferedAppend.maxBufferLen) (uncompressed : Nat) :
    ∃ next, (write.putBlock (write.settings.blockImage block)).finishBlock
        (write.settings.blockImage block).length uncompressed = .ok next ∧
      Appends write next [block] ∧ next.firstRowNum = write.firstRowNum := by
  obtain ⟨done, hdone, hinv, hcontents, hmax, _⟩ :=
    BufferedAppend.finishBuffer_spec h.append rfl (hbuffer ▸ hfits) (hbuffer ▸ hlimit) uncompressed
  refine ⟨{ write.putBlock (write.settings.blockImage block) with
    bufferedAppend := done, currentCompleteHeaderLen := 0 }, ?_, ?_, rfl⟩
  · simp only [finishBlock, putBlock, hdone]
    rfl
  · constructor
    case inv => exact ⟨hinv, hmax.trans h.limit, h.version⟩
    case settings => rfl
    case contents =>
      rw [RecordLog.image, flatMap_singleton]
      exact hcontents
    case headerPositions =>
      rw [RecordLog.starts, RecordLog.starts, StorageWrite.contents, h.append.length_contents]
      rfl

theorem Appends.of_same {blocks : List Block} (h : Appends next last blocks)
    (hsettings : next.settings = write.settings) (hcontents : next.contents = write.contents)
    (hpositions : next.headerPositions = write.headerPositions) : Appends write last blocks where
  inv := h.inv
  settings := h.settings.trans hsettings
  contents := by rw [h.contents, hcontents, hsettings]
  headerPositions := by rw [h.headerPositions, hpositions, hsettings, hcontents]

theorem getMaxBuffer_eq (append : BufferedAppend) :
    append.getMaxBuffer = .ok { append with bufferLen := append.maxBufferLen } :=
  if_neg (lt_irrefl _)

end StorageWrite

/-- A block is what a caller asked for. -/
structure Block.Carries (settings : StorageSettings) (block : Block)
    (kind : AoHeaderKind) (firstRowNum : Option (BitVec 64))
    (executorKind rowCount : Nat) (content : List Byte) : Prop where
  kind : block.kind = kind
  firstRowNum : block.fields.firstRowNum = firstRowNum
  executorKind : block.fields.executorKind = executorKind
  rowCount : block.fields.rowCount = rowCount
  holds : block.Holds settings content
  length_le : (settings.blockImage block).length ≤ settings.maxBufferLen

section

variable {settings : StorageSettings} {kind : AoHeaderKind}
  {firstRowNum : Option (BitVec 64)} {executorKind rowCount : Nat}
  {content : List Byte}

/-- The length of the header of a block with content. -/
def contentHeaderLen (settings : StorageSettings) (kind : AoHeaderKind)
    (firstRowNum : Option (BitVec 64)) : Nat :=
  settings.regularHeaderLen + (if kind.isLong then longSize - regularSize else 0) +
    (if firstRowNum.isSome then 8 else 0)

theorem headerLen_eq (block : Block) : block.headerLen settings.checksum =
    contentHeaderLen settings block.kind block.fields.firstRowNum := by
  simp only [Block.headerLen, contentHeaderLen, StorageSettings.regularHeaderLen,
    regularHeaderLenNeeded, rowNumLen, longSize, regularSize]
  split_ifs <;> omega

variable (settings kind firstRowNum)

theorem contentHeaderLen_eq : contentHeaderLen settings kind firstRowNum =
    (if settings.checksum then 16 else 8) + (if kind.isLong then 8 else 0) +
      if firstRowNum.isSome then 8 else 0 := by
  simp only [contentHeaderLen, StorageSettings.regularHeaderLen, regularHeaderLenNeeded,
    checksumsLen, longSize, regularSize]
  split_ifs <;> rfl

theorem eight_dvd_contentHeaderLen : 8 ∣ contentHeaderLen settings kind firstRowNum := by
  rw [contentHeaderLen_eq]
  split_ifs <;> decide

theorem contentHeaderLen_pos : 8 ≤ contentHeaderLen settings kind firstRowNum := by
  rw [contentHeaderLen_eq]
  split_ifs <;> decide

theorem contentHeaderLen_le : contentHeaderLen settings kind firstRowNum ≤ 32 := by
  rw [contentHeaderLen_eq]
  split_ifs <;> decide

variable {settings kind firstRowNum}

theorem roundUp_latest (length : Nat) :
    AORelationVersion.latest.roundUp length = (length + 7) / 8 * 8 := rfl

/-- Content that fits into a block, stored as it is or as something shorter. -/
theorem exists_block (hkind : kind ≠ .largeContent) (hexecutor : executorKind < 8)
    (hrows : rowCount < kind.maxRowCount)
    (hroom : content.length + contentHeaderLen settings kind firstRowNum ≤
      settings.maxBufferLen) {stored : List Byte} {compressedLen : Nat}
    (hle : compressedLen ≤ content.length)
    (hcompressible : kind.compressible = false → compressedLen = 0)
    (hstored : stored.length = if compressedLen > 0 then compressedLen
      else content.length) (hraw : compressedLen = 0 → stored = content)
    (hcompressed : compressedLen ≠ 0 → ∃ compressor, settings.compressor = some compressor ∧
        compressor.decompress stored content.length = content) :
    ∃ block : Block, block.Carries settings kind firstRowNum executorKind rowCount
        content ∧ block.stored = stored ∧
      block.fields = ⟨executorKind, rowCount, content.length, compressedLen, firstRowNum⟩ ∧
      (settings.blockImage block).length = contentHeaderLen settings kind firstRowNum +
          AORelationVersion.latest.roundUp stored.length := by
  have hlimit := settings.maxBufferLen_le
  have hpos := contentHeaderLen_pos settings kind firstRowNum
  have hlength : content.length < kind.maxDataLength := by
    have hsmall : content.length < 2 ^ 21 := by omega
    cases kind with
    | largeContent => exact absurd rfl hkind
    | smallContent => exact hsmall
    | nonBulkDenseContent => exact hsmall
    | bulkDenseContent => exact hsmall
  let block : Block := {
    kind := kind
    fields := ⟨executorKind, rowCount, content.length, compressedLen, firstRowNum⟩
    stored := stored
    executor_lt := hexecutor
    rowCount_lt := hrows
    dataLength_lt := hlength
    compressed_le := hle
    compressed_eq := hcompressible
    stored_len := by rw [if_neg hkind]; exact hstored
    large_pos := fun hlarge => absurd hlarge hkind }
  have himage : (settings.blockImage block).length = contentHeaderLen settings kind firstRowNum +
        AORelationVersion.latest.roundUp stored.length := by
    rw [StorageSettings.blockImage, Block.length_image, headerLen_eq]
  have hfits : (settings.blockImage block).length ≤ settings.maxBufferLen := by
    have hdvd := settings.eight_dvd
    have hheader := eight_dvd_contentHeaderLen settings kind firstRowNum
    have hshort : stored.length ≤ content.length := by
      rw [hstored]
      split_ifs <;> omega
    rw [himage, roundUp_latest]
    omega
  exact ⟨block, ⟨rfl, rfl, rfl, rfl, ⟨rfl, hraw, hcompressed⟩, hfits⟩, rfl, rfl, himage⟩

end

namespace StorageWrite

variable {write : StorageWrite} {executorKind rowCount : Nat} {content : List Byte}

/-- Can content be written behind such a header? -/
def accepts (settings : StorageSettings) : AoHeaderKind → Bool
  | .smallContent => true
  | .largeContent => false
  | .nonBulkDenseContent => settings.compressor.isNone
  | .bulkDenseContent => settings.compressor.isSome

/-- What a compressor leaves of content. -/
theorem storedContent_spec (compressor : Compressor) (content : List Byte) :
    (storedContent compressor content).2 ≤ content.length ∧
      (storedContent compressor content).1.length = (if (storedContent compressor content).2 > 0
          then (storedContent compressor content).2 else content.length) ∧
      ((storedContent compressor content).2 = 0 → (storedContent compressor content).1 = content) ∧
      ((storedContent compressor content).2 ≠ 0 →
        compressor.decompress (storedContent compressor content).1 content.length = content) := by
  rw [storedContent]
  by_cases hlong : (compressor.compress content).length ≥ content.length
  · rw [if_pos hlong]
    exact ⟨zero_le _, rfl, fun _ => rfl, fun hne => absurd rfl hne⟩
  · rw [if_neg hlong]
    have hsource : content ≠ [] := by
      intro hnil
      rw [hnil] at hlong
      exact hlong (zero_le _)
    have hpos : 0 < (compressor.compress content).length :=
      length_pos_of_ne_nil (compressor.compress_ne_nil content hsource)
    refine ⟨Nat.le_of_not_le hlong, (if_pos hpos).symm, fun hzero => ?_, fun _ => ?_⟩
    · exact absurd hzero (ne_of_gt hpos)
    · exact compressor.decompress_compress content (Nat.lt_of_not_le hlong)

theorem ne_largeContent {settings : StorageSettings} {kind : AoHeaderKind}
    (haccepts : accepts settings kind = true) : kind ≠ .largeContent := by
  rintro rfl
  exact Bool.false_ne_true haccepts

/-- The headers of compressed content, and those of other content. -/
theorem accepts_cases {settings : StorageSettings} {kind : AoHeaderKind}
    (haccepts : accepts settings kind = true) : kind = .smallContent ∨
      (kind = if settings.compressor.isSome then .bulkDenseContent else .nonBulkDenseContent) := by
  cases kind <;> cases hcompressor : settings.compressor <;> simp_all [accepts]

theorem completeHeaderLen_eq (write : StorageWrite) (kind : AoHeaderKind) :
    write.completeHeaderLen kind = contentHeaderLen write.settings kind write.firstRowNum := rfl

/-- A state that differs only in having a buffer for a block. -/
structure Prepared (write got : StorageWrite) : Prop where
  inv : got.Inv
  settings : got.settings = write.settings
  contents : got.contents = write.contents
  headerPositions : got.headerPositions = write.headerPositions
  firstRowNum : got.firstRowNum = write.firstRowNum
  bufferLen : got.bufferedAppend.bufferLen = got.bufferedAppend.maxBufferLen

/-- A block in a prepared buffer becomes part of the file. -/
theorem Prepared.finishBlock {got : StorageWrite} (h : Prepared write got) {block : Block}
    (hfits : (write.settings.blockImage block).length ≤ write.settings.maxBufferLen)
    (uncompressed : Nat) :
    ∃ next, (got.putBlock (write.settings.blockImage block)).finishBlock
        (write.settings.blockImage block).length uncompressed = .ok next ∧
      Appends write next [block] ∧ next.firstRowNum = write.firstRowNum := by
  have hlimit := h.inv.limit
  rw [h.settings, StorageSettings.maxBufferWithCompressionOverrunLen] at hlimit
  have hroom : (write.settings.blockImage block).length ≤
      got.bufferedAppend.maxBufferLen := by omega
  rw [← h.settings] at hroom ⊢
  obtain ⟨next, hnext, happends, hrow⟩ := finishBlock_spec h.inv block h.bufferLen
    hroom (le_refl _) uncompressed
  exact ⟨next, hnext, happends.of_same h.settings h.contents h.headerPositions,
    hrow.trans h.firstRowNum⟩

theorem compressAppend_spec (h : write.Inv) {compressor : Compressor}
    (hcompressor : write.settings.compressor = some compressor)
    (haccepts : accepts write.settings write.getBufferAoHeaderKind = true)
    (hexecutor : executorKind < 8) (hrows : rowCount < write.getBufferAoHeaderKind.maxRowCount)
    (hroom : content.length + contentHeaderLen write.settings
      write.getBufferAoHeaderKind write.firstRowNum ≤ write.settings.maxBufferLen) :
    ∃ (got : StorageWrite) (block : Block),
      write.compressAppend compressor content executorKind rowCount =
        .ok (got.putBlock (write.settings.blockImage block),
          (write.settings.blockImage block).length) ∧
      Prepared write got ∧ block.Carries write.settings write.getBufferAoHeaderKind
        write.firstRowNum executorKind rowCount content := by
  obtain ⟨hle, hstored, hraw, hcompressed⟩ := storedContent_spec compressor content
  have hkinds := accepts_cases haccepts
  rw [hcompressor, Option.isSome_some, if_pos rfl] at hkinds
  have hcompressible : write.getBufferAoHeaderKind.compressible = true := by
    rcases hkinds with hgot | hgot <;> rw [hgot] <;> rfl
  obtain ⟨block, hcarries, hbytes, hfields, himage⟩ := exists_block
    (ne_largeContent haccepts) hexecutor hrows hroom hle
    (fun hnot => absurd hcompressible (by rw [hnot]; decide))
    hstored hraw (fun hne => ⟨compressor, hcompressor, hcompressed hne⟩)
  have hprepared : Prepared write { write with
      currentCompleteHeaderLen := write.completeHeaderLen write.getBufferAoHeaderKind
      bufferedAppend := { write.bufferedAppend with
        bufferLen := write.bufferedAppend.maxBufferLen } } :=
    ⟨⟨{ h.append with }, h.limit, h.version⟩, rfl, rfl, rfl, rfl, rfl⟩
  refine ⟨_, block, ?_, hprepared, hcarries⟩
  have hversion := h.version
  have hblock := hcarries.kind
  rw [himage]
  rcases hkinds with hgot | hgot
  all_goals
    simp [compressAppend, getMaxBuffer_eq, bind, Except.bind, hgot, hversion, completeHeaderLen_eq,
      StorageSettings.blockImage, Block.image, hblock, hfields, hbytes]

theorem Appends.setRow {next : StorageWrite} {blocks : List Block}
    (h : Appends write next blocks) (firstRowNum : Option (BitVec 64)) :
    Appends write { next with firstRowNum := firstRowNum } blocks :=
  ⟨{ h.inv with }, h.settings, h.contents, h.headerPositions⟩

/-- Content that is put into a buffer becomes one block. -/
theorem buffer_spec (h : write.Inv) {kind : AoHeaderKind}
    (haccepts : accepts write.settings kind = true) (hexecutor : executorKind < 8)
    (hrows : rowCount < kind.maxRowCount)
    (hroom : content.length + contentHeaderLen write.settings kind write.firstRowNum ≤
      write.settings.maxBufferLen) :
    ∃ got next block, write.getBuffer kind = .ok got ∧
      got.finishBuffer content executorKind rowCount = .ok next ∧
      Appends write next [block] ∧ block.Carries write.settings kind write.firstRowNum
        executorKind rowCount content ∧ next.firstRowNum = none := by
  have hnot : ¬ content.length > write.settings.maxBufferLen -
      contentHeaderLen write.settings kind write.firstRowNum := by
    omega
  cases hcompressor : write.settings.compressor with
  | some compressor =>
    have hinv : (write.chooseHeader kind).Inv := { h with }
    obtain ⟨got, block, hrun, hprepared, hcarries⟩ := compressAppend_spec hinv
      hcompressor haccepts hexecutor hrows hroom
    obtain ⟨next, hnext, happends, _⟩ := hprepared.finishBlock hcarries.length_le
      ((got.putBlock (write.settings.blockImage block)).currentCompleteHeaderLen +
        write.formatVersion.roundUp content.length)
    have hwritten : Appends write next [block] := happends.of_same rfl rfl rfl
    refine ⟨write.chooseHeader kind, { next with firstRowNum := none }, block, ?_, ?_,
      hwritten.setRow none, hcarries, rfl⟩
    · simp only [getBuffer, hcompressor]
    · simp only [chooseHeader, completeHeaderLen_eq] at hrun hnext
      simp only [finishBuffer, chooseHeader, completeHeaderLen_eq, if_neg hnot,
        hcompressor, hrun, bind, Except.bind, hnext]
      rfl
  | none =>
    obtain ⟨block, hcarries, hbytes, hfields, himage⟩ := exists_block
      (ne_largeContent haccepts) hexecutor hrows hroom (zero_le _) (fun _ => rfl) rfl
      (fun _ => rfl) (fun hne => absurd rfl hne)
    have hprepared : Prepared write { write.chooseHeader kind with
        bufferedAppend := { write.bufferedAppend with
          bufferLen := write.bufferedAppend.maxBufferLen } } :=
      ⟨⟨{ h.append with }, h.limit, h.version⟩, rfl, rfl, rfl, rfl, rfl⟩
    obtain ⟨next, hnext, happends, _⟩ := hprepared.finishBlock hcarries.length_le
      (write.settings.blockImage block).length
    refine ⟨{ write.chooseHeader kind with
        bufferedAppend := { write.bufferedAppend with
          bufferLen := write.bufferedAppend.maxBufferLen } },
      { next with firstRowNum := none }, block, ?_, ?_, happends.setRow none, hcarries, rfl⟩
    · simp only [getBuffer, hcompressor, getMaxBuffer_eq, bind, Except.bind]
      rfl
    · have hversion := h.version
      have hblock := hcarries.kind
      have hkinds := accepts_cases haccepts
      rw [hcompressor, Option.isSome_none, if_neg Bool.false_ne_true] at hkinds
      rw [himage] at hnext
      rcases hkinds with rfl | rfl
      all_goals
        simp only [StorageSettings.blockImage, Block.image, hblock, hfields,
          hbytes, chooseHeader] at hnext
        rw [completeHeaderLen_eq, hversion] at hnext
        simp only [finishBuffer, chooseHeader, completeHeaderLen_eq, if_neg hnot,
          hcompressor, hversion, bind, Except.bind, hnext]
        rfl

theorem smallContent_spec (h : write.Inv) (hexecutor : executorKind < 8) (hrows : rowCount < 2 ^ 14)
    (hroom : content.length + contentHeaderLen write.settings .smallContent
      write.firstRowNum ≤ write.settings.maxBufferLen) :
    ∃ next block, write.smallContent content executorKind rowCount = .ok next ∧
      Appends write next [block] ∧ block.Carries write.settings .smallContent
        write.firstRowNum executorKind rowCount content ∧
      (next.firstRowNum = none ∨ next.firstRowNum = write.firstRowNum) := by
  cases hcompressor : write.settings.compressor with
  | none =>
    obtain ⟨got, next, block, hgot, hnext, happends, hcarries, hrow⟩ :=
      buffer_spec h (show accepts write.settings .smallContent = true from rfl)
        hexecutor hrows hroom
    refine ⟨next, block, ?_, happends, hcarries, .inl hrow⟩
    simp [smallContent, hcompressor, hgot, bind, Except.bind, hnext]
  | some compressor =>
    have hinv : Inv { write with getBufferAoHeaderKind := .smallContent } :=
      { h with }
    obtain ⟨got, block, hrun, hprepared, hcarries⟩ := compressAppend_spec hinv
      hcompressor rfl hexecutor hrows hroom
    obtain ⟨next, hnext, happends, hrow⟩ := hprepared.finishBlock hcarries.length_le
      ((got.putBlock (write.settings.blockImage block)).currentCompleteHeaderLen +
        (got.putBlock (write.settings.blockImage block)).formatVersion.roundUp content.length)
    refine ⟨next, block, ?_, happends.of_same rfl rfl rfl, hcarries, .inr hrow⟩
    simp [smallContent, hcompressor, hrun, bind, Except.bind, hnext]

end StorageWrite

/-- Blocks that hold the fragments of a content, one behind the other. -/
inductive IsFragments (settings : StorageSettings) (executorKind : Nat) :
    List Block → List Byte → Prop
  | last {block : Block} {content : List Byte} (hne : content ≠ [])
      (hblock : block.Carries settings .smallContent none executorKind 0 content) :
      IsFragments settings executorKind [block] content
  | more {block : Block} {blocks : List Block} {first rest : List Byte}
      (hblock : block.Carries settings .smallContent none executorKind 0 first)
      (hrest : rest ≠ []) (hblocks : IsFragments settings executorKind blocks rest) :
      IsFragments settings executorKind (block :: blocks) (first ++ rest)

namespace StorageWrite

variable {write : StorageWrite} {executorKind rowCount : Nat}

/-- The loop over the fragments comes to its end. -/
theorem fragments_spec (hexecutor : executorKind < 8) (fuel : Nat) :
    ∀ (write : StorageWrite) (content : List Byte), write.Inv →
      write.firstRowNum = none → content ≠ [] → content.length ≤ fuel →
      ∃ next blocks, fragments (write.settings.maxBufferLen -
          contentHeaderLen write.settings .smallContent none) executorKind fuel write
          content = .ok next ∧ Appends write next blocks ∧
        IsFragments write.settings executorKind blocks content ∧ next.firstRowNum = none := by
  induction fuel with
  | zero =>
    intro write content _ _ hne hlen
    exact absurd (eq_nil_of_length_eq_zero (eq_zero_of_le_zero hlen)) hne
  | succ fuel ih =>
    intro write content h hrow hne hlen
    have hheader := contentHeaderLen_le write.settings .smallContent none
    have hbuffer := write.settings.le_maxBufferLen
    generalize hmax : write.settings.maxBufferLen -
      contentHeaderLen write.settings .smallContent none = maxLen
    have hroom : (content.take maxLen).length + contentHeaderLen write.settings
        .smallContent write.firstRowNum ≤ write.settings.maxBufferLen := by
      rw [hrow, length_take]
      omega
    obtain ⟨next, block, hnext, happends, hcarries, hnone⟩ :=
      smallContent_spec h hexecutor (by decide : 0 < 2 ^ 14) hroom
    rw [hrow] at hcarries hnone
    have hnone : next.firstRowNum = none := hnone.elim id id
    by_cases hrest : content.drop maxLen = []
    · refine ⟨next, [block], ?_, happends, ?_, hnone⟩
      · simp only [fragments, hnext, hrest, bind, Except.bind, isEmpty_nil, if_true]
        rfl
      · have htake : content.take maxLen = content := by
          rw [← take_append_drop maxLen content, hrest, append_nil, take_take, min_self]
        exact .last hne (htake ▸ hcarries)
    · have hempty : (content.drop maxLen).isEmpty = false :=
        Bool.eq_false_iff.mpr fun hempty => hrest (isEmpty_iff.mp hempty)
      obtain ⟨final, blocks, hfinal, hmore, hblocks, hdone⟩ := ih next
        (content.drop maxLen) happends.inv hnone hrest (by
          rw [length_drop]
          omega)
      rw [happends.settings, hmax] at hfinal
      rw [happends.settings] at hblocks
      refine ⟨final, block :: blocks, ?_, happends.trans hmore, ?_, hdone⟩
      · simp only [fragments, hnext, bind, Except.bind, hempty, Bool.false_eq_true,
          if_false, hfinal]
      · rw [← take_append_drop maxLen content]
        exact .more hcarries hrest hblocks

end StorageWrite

/-- A logical block as the reader gives it. -/
structure LogicalBlock where
  executorBlockKind : Nat
  firstRowNum : BitVec 64
  rowCount : Nat
  content : List Byte
  deriving DecidableEq

/-- The blocks that hold one logical block. -/
inductive Spells (settings : StorageSettings) : List Block → LogicalBlock → Prop
  | one {block : Block} {kind : AoHeaderKind} {firstRowNum : Option (BitVec 64)}
      {executorKind rowCount : Nat} {content : List Byte}
      (hkind : kind ≠ .largeContent)
      (hblock : block.Carries settings kind firstRowNum executorKind rowCount content) :
      Spells settings [block] ⟨executorKind, firstRowNum.getD (-1), rowCount, content⟩
  | large {head : Block} {blocks : List Block} {firstRowNum : Option (BitVec 64)}
      {executorKind rowCount : Nat} {content : List Byte}
      (hhead : head.kind = .largeContent)
      (hfields : head.fields = ⟨executorKind, rowCount, content.length, 0, firstRowNum⟩)
      (hblocks : IsFragments settings executorKind blocks content) :
      Spells settings (head :: blocks) ⟨executorKind, firstRowNum.getD (-1), rowCount, content⟩

namespace StorageWrite

variable {write : StorageWrite} {executorKind rowCount : Nat} {content : List Byte}

/-- The header of a large content. -/
theorem largeHeader_spec (h : write.Inv) (hexecutor : executorKind < 8)
    (hrows : rowCount < 2 ^ 25) (hpos : 0 < content.length) (hlength : content.length < 2 ^ 30) :
    ∃ got next block, write.bufferedAppend.getBuffer write.largeContentHeaderLen = .ok got ∧
      ({ write with bufferedAppend := got }.putBlock (makeLargeContentHeader
        write.settings.checksum write.formatVersion
        ⟨executorKind, rowCount, content.length, 0, write.firstRowNum⟩)).finishBlock
        write.largeContentHeaderLen write.largeContentHeaderLen = .ok next ∧
      Appends write next [block] ∧ block.kind = .largeContent ∧
      block.fields = ⟨executorKind, rowCount, content.length, 0, write.firstRowNum⟩ := by
  let block : Block := {
    kind := .largeContent
    fields := ⟨executorKind, rowCount, content.length, 0, write.firstRowNum⟩
    stored := []
    executor_lt := hexecutor
    rowCount_lt := hrows
    dataLength_lt := hlength
    compressed_le := zero_le _
    compressed_eq := fun _ => rfl
    stored_len := rfl
    large_pos := fun _ => hpos }
  have hheader : write.largeContentHeaderLen =
      contentHeaderLen write.settings .largeContent write.firstRowNum := rfl
  have himage : write.settings.blockImage block = makeLargeContentHeader
      write.settings.checksum write.formatVersion
      ⟨executorKind, rowCount, content.length, 0, write.firstRowNum⟩ := by
    rw [h.version]
    rfl
  have hlen : (write.settings.blockImage block).length = write.largeContentHeaderLen := by
    have hzero : AORelationVersion.latest.roundUp block.stored.length = 0 :=
      show AORelationVersion.latest.roundUp 0 = 0 by decide
    rw [StorageSettings.blockImage, Block.length_image, headerLen_eq, hheader, hzero]
    rfl
  have hlimit : write.largeContentHeaderLen ≤ write.bufferedAppend.maxBufferLen := by
    have hle := contentHeaderLen_le write.settings .largeContent write.firstRowNum
    have hbuffer := write.settings.le_maxBufferLen
    rw [h.limit, StorageSettings.maxBufferWithCompressionOverrunLen, hheader]
    omega
  have hinv : Inv { write with bufferedAppend := { write.bufferedAppend with
      bufferLen := write.largeContentHeaderLen } } :=
    ⟨{ h.append with }, h.limit, h.version⟩
  obtain ⟨next, hnext, happends, _⟩ := finishBlock_spec hinv block rfl
    (le_of_eq hlen) hlimit write.largeContentHeaderLen
  rw [hlen, himage] at hnext
  exact ⟨_, next, block, if_neg (not_lt.mpr hlimit), hnext,
    happends.of_same rfl rfl rfl, rfl, rfl⟩

/-- Content of any length becomes one logical block. -/
theorem content_spec (h : write.Inv) (hexecutor : executorKind < 8)
    (hpos : 0 < content.length) (hlength : content.length < 2 ^ 30)
    (hrows : rowCount < if content.length + contentHeaderLen write.settings
      .smallContent write.firstRowNum ≤ write.settings.maxBufferLen then 2 ^ 14 else 2 ^ 25) :
    ∃ next blocks, write.content content executorKind rowCount = .ok next ∧
      Appends write next blocks ∧ Spells write.settings blocks
        ⟨executorKind, write.firstRowNum.getD (-1), rowCount, content⟩ ∧
      next.firstRowNum = none := by
  have hinv : Inv { write with
      logicalBlockStartOffset := write.bufferedAppend.nextBufferPosition } :=
    { h with }
  by_cases hroom : content.length + contentHeaderLen write.settings .smallContent
      write.firstRowNum ≤ write.settings.maxBufferLen
  · rw [if_pos hroom] at hrows
    have hsmall : content.length ≤ write.settings.maxBufferLen -
        contentHeaderLen write.settings .smallContent write.firstRowNum := by omega
    obtain ⟨next, block, hnext, happends, hcarries, _⟩ :=
      smallContent_spec hinv hexecutor hrows hroom
    have hwritten : Appends write next [block] := happends.of_same rfl rfl rfl
    refine ⟨{ next with firstRowNum := none }, [block], ?_, hwritten.setRow none,
      .one (by decide) hcarries, rfl⟩
    simp only [StorageWrite.content, completeHeaderLen_eq, if_pos hsmall, hnext, bind, Except.bind]
    rfl
  · rw [if_neg hroom] at hrows
    have hlarge : ¬ content.length ≤ write.settings.maxBufferLen -
        contentHeaderLen write.settings .smallContent write.firstRowNum := by omega
    obtain ⟨got, mid, head, hgot, hmid, hfirst, hkind, hfields⟩ :=
      largeHeader_spec hinv hexecutor hrows hpos hlength
    have hcleared := (hfirst.setRow none).inv
    obtain ⟨next, blocks, hnext, hrest, hfragments, hnone⟩ :=
      fragments_spec hexecutor content.length { mid with firstRowNum := none } content
        hcleared rfl (ne_nil_of_length_pos hpos) (le_refl _)
    have hsettings : mid.settings = write.settings := hfirst.settings
    simp only [hsettings] at hnext hfragments
    have hwritten : Appends write next ([head] ++ blocks) :=
      ((hfirst.setRow none).trans hrest).of_same rfl rfl rfl
    refine ⟨next, head :: blocks, ?_, hwritten, .large hkind hfields hfragments, hnone⟩
    rw [StorageWrite.content, completeHeaderLen_eq, if_neg hlarge]
    simp only [largeContent, completeHeaderLen_eq, bind, Except.bind, hgot]
    simp [hmid, hsettings, hnext]

/-- The logical block that an operation is to write. -/
def WriteOp.logical : WriteOp → LogicalBlock
  | .buffer _ firstRowNum executorKind rowCount bytes =>
    ⟨executorKind, firstRowNum.getD (-1), rowCount, bytes⟩
  | .content firstRowNum executorKind rowCount bytes =>
    ⟨executorKind, firstRowNum.getD (-1), rowCount, bytes⟩

/-- The values fit into the fields of the headers. -/
def WriteOp.InFields (settings : StorageSettings) : WriteOp → Prop
  | .buffer kind _ executorKind rowCount _ =>
    executorKind < 8 ∧ rowCount < kind.maxRowCount
  | .content firstRowNum executorKind rowCount bytes =>
    executorKind < 8 ∧ 0 < bytes.length ∧ bytes.length < 2 ^ 30 ∧
      rowCount < if bytes.length + contentHeaderLen settings .smallContent
        firstRowNum ≤ settings.maxBufferLen then 2 ^ 14 else 2 ^ 25

/-- The writer does not refuse the operation. -/
def WriteOp.Accepted (settings : StorageSettings) : WriteOp → Prop
  | .buffer kind firstRowNum _ _ bytes => accepts settings kind = true ∧
      bytes.length + contentHeaderLen settings kind firstRowNum ≤ settings.maxBufferLen
  | .content _ _ _ _ => True

theorem setRowNum_eq (hnone : write.firstRowNum = none) (firstRowNum : Option (BitVec 64)) :
    write.setRowNum firstRowNum = { write with firstRowNum := firstRowNum } := by
  cases firstRowNum with
  | none => rw [setRowNum, ← hnone]
  | some number => rfl

/-- An operation appends blocks that hold its logical block. -/
theorem run_spec (h : write.Inv) (hnone : write.firstRowNum = none) {op : WriteOp}
    (hfields : op.InFields write.settings) (haccepted : op.Accepted write.settings) :
    ∃ next blocks, write.run op = .ok next ∧ Appends write next blocks ∧
      Spells write.settings blocks op.logical ∧ next.firstRowNum = none := by
  have hstart : ∀ firstRowNum, Inv { write with firstRowNum := firstRowNum } :=
    fun _ => { h with }
  cases op with
  | buffer kind firstRowNum executorKind rowCount bytes =>
    obtain ⟨hkind, hroom⟩ := haccepted
    obtain ⟨got, next, block, hgot, hnext, happends, hcarries, hdone⟩ :=
      buffer_spec (hstart firstRowNum) hkind hfields.1 hfields.2 hroom
    refine ⟨next, [block], ?_, happends.of_same rfl rfl rfl,
      .one (ne_largeContent hkind) hcarries, hdone⟩
    simp [run, setRowNum_eq hnone, hgot, bind, Except.bind, hnext]
  | content firstRowNum executorKind rowCount bytes =>
    obtain ⟨hexecutor, hpos, hlength, hrows⟩ := hfields
    obtain ⟨next, blocks, hnext, happends, hspells, hdone⟩ :=
      content_spec (hstart firstRowNum) hexecutor hpos hlength hrows
    refine ⟨next, blocks, ?_, happends.of_same rfl rfl rfl, hspells, hdone⟩
    rw [run, setRowNum_eq hnone]
    exact hnext

theorem run_refused (write : StorageWrite) (hnone : write.firstRowNum = none)
    {op : WriteOp} (hrefused : ¬ op.Accepted write.settings) (next : StorageWrite) :
    write.run op ≠ .ok next := by
  cases op with
  | content firstRowNum executorKind rowCount bytes => exact absurd trivial hrefused
  | buffer kind firstRowNum executorKind rowCount bytes =>
    have hheader := contentHeaderLen_le write.settings kind firstRowNum
    have hmax := write.settings.le_maxBufferLen
    intro hrun
    apply hrefused
    rw [run, setRowNum_eq hnone] at hrun
    cases hcompressor : write.settings.compressor with
    | none =>
      simp only [getBuffer, hcompressor, getMaxBuffer_eq, bind, Except.bind, pure,
        Except.pure, finishBuffer, chooseHeader, completeHeaderLen_eq] at hrun
      split_ifs at hrun with hlong
      refine ⟨?_, by omega⟩
      cases kind <;> simp_all [accepts]
    | some compressor =>
      simp only [getBuffer, hcompressor, bind, Except.bind, pure,
        Except.pure, finishBuffer, chooseHeader, completeHeaderLen_eq,
        compressAppend, getMaxBuffer_eq] at hrun
      split_ifs at hrun with hlong
      refine ⟨?_, by omega⟩
      cases kind <;> simp_all [accepts]

end StorageWrite

end

end Greenplum.AoStorage
