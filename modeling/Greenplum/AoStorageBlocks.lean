/-
A block as it lies in a segment file, and that the reader's view of its bytes is
what the writer put into them: the bit fields of the headers come back, both
checksums match, and the content lies where the header says.
-/
import Greenplum.AoStorageFormat

namespace Greenplum.AoStorage

open ByteMemory ByteNumbers WordFields Nat
open List hiding take_zero

section

variable {fields : BlockFields}

/-- The first word of a header of either kind. -/
def word0 : AoHeaderKind → BlockFields → BitVec 32
  | .smallContent, fields => fields.smallWord0
  | .largeContent, fields => fields.largeWord0
  | .nonBulkDenseContent, fields => fields.nonBulkDenseWord0
  | .bulkDenseContent, fields => fields.bulkDenseWord0

theorem initHasFirstRowNum_eq (flag : Bool) :
    initHasFirstRowNum flag = put 27 1 (if flag then 1 else 0) := by
  cases flag <;> rfl

section

variable (fields : BlockFields)

@[simp]
theorem smallWord0_eq : fields.smallWord0 =
    put 28 3 1 ||| put 24 3 (BitVec.ofNat 32 fields.executorKind) |||
      put 10 14 (BitVec.ofNat 32 fields.rowCount) |||
      put 0 10 (BitVec.ofNat 32 fields.dataLength >>> 11) |||
      put 27 1 (if fields.firstRowNum.isSome then 1 else 0) := by
  rw [← initHasFirstRowNum_eq, put_zero]
  rfl

@[simp]
theorem largeWord0_eq : fields.largeWord0 =
    put 28 3 2 ||| put 24 3 (BitVec.ofNat 32 fields.executorKind) |||
      put 0 23 (BitVec.ofNat 32 fields.rowCount >>> 2) |||
      put 27 1 (if fields.firstRowNum.isSome then 1 else 0) := by
  rw [← initHasFirstRowNum_eq, put_zero]
  rfl

@[simp]
theorem nonBulkDenseWord0_eq : fields.nonBulkDenseWord0 =
    put 28 3 3 ||| put 24 3 (BitVec.ofNat 32 fields.executorKind) |||
      put 0 21 (BitVec.ofNat 32 fields.dataLength) |||
      put 27 1 (if fields.firstRowNum.isSome then 1 else 0) := by
  rw [← initHasFirstRowNum_eq, put_zero]
  rfl

@[simp]
theorem bulkDenseWord0_eq : fields.bulkDenseWord0 =
    put 28 3 4 ||| put 24 3 (BitVec.ofNat 32 fields.executorKind) |||
      put 0 10 (BitVec.ofNat 32 fields.dataLength >>> 11) |||
      put 27 1 (if fields.firstRowNum.isSome then 1 else 0) := by
  rw [← initHasFirstRowNum_eq, put_zero]
  rfl

end

variable (kind : AoHeaderKind)

section

variable (fields : BlockFields)

theorem getHeaderKind_word0 : getHeaderKind (word0 kind fields) = kind.code := by
  have htake : take 28 3 (word0 kind fields) = kind.code &&& mask 32 0 3 := by
    cases kind <;> simp [word0, AoHeaderKind.code]
  exact htake.trans (by cases kind <;> rfl)

theorem getExecutorBlockKind_word0 (hlt : fields.executorKind < 8) :
    (getExecutorBlockKind (word0 kind fields)).toNat = fields.executorKind := by
  have htake : getExecutorBlockKind (word0 kind fields) =
      BitVec.ofNat 32 fields.executorKind &&& mask 32 0 3 := by
    show take 24 3 (word0 kind fields) = _
    cases kind <;> simp [word0]
  rw [htake, toNat_and_mask_zero (by decide), BitVec.toNat_ofNat]
  omega

theorem getHasFirstRowNum_word0 :
    getHasFirstRowNum (word0 kind fields) = fields.firstRowNum.isSome := by
  have htake : (word0 kind fields &&& 0x08000000) >>> 27 =
      (if fields.firstRowNum.isSome then 1 else 0) &&& mask 32 0 1 := by
    show take 27 1 (word0 kind fields) = _
    cases kind <;> simp [word0]
  rw [getHasFirstRowNum, htake]
  cases fields.firstRowNum.isSome <;> rfl

theorem getReserved0_word0 : getReserved0 (word0 kind fields) = 0 := by
  rw [getReserved0, ushiftRight_eq_take 31 1 rfl]
  cases kind <;> simp [word0]

@[simp]
theorem largeWord1_eq : fields.largeWord1 =
    put 30 2 (BitVec.ofNat 32 fields.rowCount) |||
      put 0 30 (BitVec.ofNat 32 fields.dataLength) := by
  rw [put_zero]
  rfl

end

/-- A value that fits into a field comes back from it. -/
theorem toNat_field {width value : Nat} (hwidth : width ≤ 32) (hlt : value < 2 ^ width) :
    (BitVec.ofNat 32 value &&& mask 32 0 width).toNat = value := by
  have hpow : 2 ^ width ≤ 2 ^ 32 := Nat.pow_le_pow_right (by decide) hwidth
  rw [toNat_and_mask_zero hwidth, BitVec.toNat_ofNat,
    mod_eq_of_lt (lt_of_lt_of_le hlt hpow), mod_eq_of_lt hlt]

theorem smallGetRowCount_word0 (hlt : fields.rowCount < 2 ^ 14) :
    (smallGetRowCount (word0 .smallContent fields)).toNat = fields.rowCount := by
  have htake : smallGetRowCount (word0 .smallContent fields) =
      BitVec.ofNat 32 fields.rowCount &&& mask 32 0 14 := by
    show take 10 14 fields.smallWord0 = _
    simp
  rw [htake, toNat_field (by decide) hlt]

@[simp]
theorem lengthsWord1_eq (fields : BlockFields) : fields.lengthsWord1 =
    put 21 11 (BitVec.ofNat 32 fields.dataLength) |||
      put 0 21 (BitVec.ofNat 32 fields.compressedLength) := by
  rw [BlockFields.lengthsWord1, put_zero]
  by_cases hcompressed : fields.compressedLength > 0
  · rw [if_pos hcompressed]
    rfl
  · rw [if_neg hcompressed, Nat.eq_zero_of_not_pos hcompressed]
    rfl

theorem smallGetDataLength_words {kind : AoHeaderKind}
    (hkind : kind = .smallContent ∨ kind = .bulkDenseContent) (hlt : fields.dataLength < 2 ^ 21) :
    (smallGetDataLength (word0 kind fields) fields.lengthsWord1).toNat = fields.dataLength := by
  have hvalue : (BitVec.ofNat 32 fields.dataLength).toNat = fields.dataLength := by
    rw [BitVec.toNat_ofNat]
    omega
  have hhigh : take 0 10 (word0 kind fields) =
      (BitVec.ofNat 32 fields.dataLength >>> 11) &&& mask 32 0 10 := by
    rcases hkind with rfl | rfl <;> simp [word0]
  have hlow : take 21 11 fields.lengthsWord1 =
      BitVec.ofNat 32 fields.dataLength &&& mask 32 0 11 := by
    simp
  have hjoin : smallGetDataLength (word0 kind fields) fields.lengthsWord1 =
      BitVec.ofNat 32 fields.dataLength := by
    rw [← join_parts 11 10 (BitVec.ofNat 32 fields.dataLength) (hvalue.symm ▸ hlt), ← hhigh, ← hlow,
      take_zero]
    rfl
  rw [hjoin, hvalue]

theorem smallGetCompressedLength_word1 (hlt : fields.compressedLength < 2 ^ 21) :
    (smallGetCompressedLength fields.lengthsWord1).toNat = fields.compressedLength := by
  have htake : smallGetCompressedLength fields.lengthsWord1 =
      BitVec.ofNat 32 fields.compressedLength &&& mask 32 0 21 := by
    show fields.lengthsWord1 &&& mask 32 0 21 = _
    rw [← take_zero]
    simp
  rw [htake, toNat_field (by decide) hlt]

theorem largeGetLargeRowCount_words (hlt : fields.rowCount < 2 ^ 25) :
    (largeGetLargeRowCount (word0 .largeContent fields) fields.largeWord1).toNat =
      fields.rowCount := by
  have hvalue : (BitVec.ofNat 32 fields.rowCount).toNat = fields.rowCount := by
    rw [BitVec.toNat_ofNat]
    omega
  have hhigh : take 0 23 (word0 .largeContent fields) =
      (BitVec.ofNat 32 fields.rowCount >>> 2) &&& mask 32 0 23 := by
    simp [word0]
  have hlow : take 30 2 fields.largeWord1 = BitVec.ofNat 32 fields.rowCount &&& mask 32 0 2 := by
    simp
  have hjoin : largeGetLargeRowCount (word0 .largeContent fields) fields.largeWord1 =
      BitVec.ofNat 32 fields.rowCount := by
    rw [← join_parts 2 23 (BitVec.ofNat 32 fields.rowCount) (hvalue.symm ▸ hlt), ← hhigh, ← hlow,
      take_zero]
    rfl
  rw [hjoin, hvalue]

theorem largeGetLargeContentLength_word1 (hlt : fields.dataLength < 2 ^ 30) :
    (largeGetLargeContentLength fields.largeWord1).toNat = fields.dataLength := by
  have htake : largeGetLargeContentLength fields.largeWord1 =
      BitVec.ofNat 32 fields.dataLength &&& mask 32 0 30 := by
    show fields.largeWord1 &&& mask 32 0 30 = _
    rw [← take_zero]
    simp
  rw [htake, toNat_field (by decide) hlt]

theorem nonBulkDenseGetDataLength_word0 (hlt : fields.dataLength < 2 ^ 21) :
    (nonBulkDenseGetDataLength (word0 .nonBulkDenseContent fields)).toNat = fields.dataLength := by
  have htake : nonBulkDenseGetDataLength (word0 .nonBulkDenseContent fields) =
      BitVec.ofNat 32 fields.dataLength &&& mask 32 0 21 := by
    show fields.nonBulkDenseWord0 &&& mask 32 0 21 = _
    rw [← take_zero]
    simp
  rw [htake, toNat_field (by decide) hlt]

/-- The field of 30 bits that has a word for itself. -/
theorem toNat_getLargeRowCount {rowCount : Nat} (hlt : rowCount < 2 ^ 30) :
    ((0x3FFFFFFF &&& BitVec.ofNat 32 rowCount) &&& 0x3FFFFFFF).toNat = rowCount := by
  have hmask : (0x3FFFFFFF &&& BitVec.ofNat 32 rowCount) &&& 0x3FFFFFFF =
      BitVec.ofNat 32 rowCount &&& mask 32 0 30 := by
    rw [BitVec.and_comm 0x3FFFFFFF, BitVec.and_assoc, BitVec.and_self]
    rfl
  rw [hmask, toNat_field (by decide) hlt]

end

theorem length_wordBytes (word : BitVec 32) : (wordBytes word).length = 4 :=
  length_leBytes 4 _

theorem ofNat_leNat_wordBytes (word : BitVec 32) :
    BitVec.ofNat 32 (leNat (wordBytes word)) = word :=
  ofNat_leNat_leBytes rfl word

theorem wordAt_middle {before behind : List Byte} {word : BitVec 32} {offset : Nat}
    (hoffset : before.length = offset) :
    wordAt (before ++ (wordBytes word ++ behind)) offset = word := by
  rw [wordAt, readAt_middle hoffset (length_wordBytes word), ofNat_leNat_wordBytes]

/-- The words of a header are those of the block it begins. -/
theorem wordAt_readAt (bytes : List Byte) {offset length : Nat} (hlength : offset + 4 ≤ length) :
    wordAt (readAt bytes 0 length) offset = wordAt bytes offset := by
  rw [wordAt, wordAt, readAt_readAt _ _ hlength, zero_add]

theorem leNat_eq_zero {bytes : List Byte} (hzero : bytes.all (· = 0) = true) : leNat bytes = 0 := by
  induction bytes with
  | nil => rfl
  | cons byte rest ih =>
    rw [all_cons, Bool.and_eq_true, decide_eq_true_eq] at hzero
    rw [leNat, ih hzero.2, hzero.1]
    rfl

/-- A word that is not zero shows that there is no padding. -/
theorem all_zero_eq_false {header : List Byte} (hword : wordAt header 0 ≠ 0) :
    header.all (· = 0) = false := by
  rw [Bool.eq_false_iff]
  intro hzero
  apply hword
  have hfirst : (readAt header 0 4).all (· = 0) = true := by
    rw [all_eq_true] at hzero ⊢
    exact fun byte hbyte => hzero byte (mem_of_mem_drop (mem_of_mem_take hbyte))
  rw [wordAt, leNat_eq_zero hfirst]
  rfl

def rowNumLen (firstRowNum : Option (BitVec 64)) : Nat :=
  if firstRowNum.isSome then 8 else 0

theorem length_rowNumBytes (firstRowNum : Option (BitVec 64)) :
    (rowNumBytes firstRowNum).length = rowNumLen firstRowNum := by
  cases firstRowNum with
  | none => rfl
  | some number => exact length_leBytes 8 _

/-- The bounds of the fields of a header. -/
def AoHeaderKind.maxRowCount : AoHeaderKind → Nat
  | smallContent => 2 ^ 14
  | largeContent => 2 ^ 25
  | nonBulkDenseContent => 2 ^ 30
  | bulkDenseContent => 2 ^ 30

def AoHeaderKind.maxDataLength : AoHeaderKind → Nat
  | largeContent => 2 ^ 30
  | _ => 2 ^ 21

/-- Can the content behind such a header be compressed? -/
def AoHeaderKind.compressible : AoHeaderKind → Bool
  | smallContent => true
  | largeContent => false
  | nonBulkDenseContent => false
  | bulkDenseContent => true

/-- A block of a segment file: what its header tells and what is stored behind
the header.  The values fit into the fields of the header. -/
structure Block where
  kind : AoHeaderKind
  fields : BlockFields
  stored : List Byte
  executor_lt : fields.executorKind < 8
  rowCount_lt : fields.rowCount < kind.maxRowCount
  dataLength_lt : fields.dataLength < kind.maxDataLength
  compressed_le : fields.compressedLength ≤ fields.dataLength
  compressed_eq : kind.compressible = false → fields.compressedLength = 0
  stored_len : stored.length = if kind = .largeContent then 0 else fields.storedLen
  large_pos : kind = .largeContent → 0 < fields.dataLength

namespace Block

section

variable (checksum : Bool) (version : AORelationVersion) (block : Block)

/-- The bytes of the block, as the four functions that make headers give them. -/
def image : List Byte :=
  match block.kind with
  | .smallContent =>
    makeSmallContentHeader checksum version block.fields (version.zeroPad block.stored)
  | .largeContent => makeLargeContentHeader checksum version block.fields
  | .nonBulkDenseContent =>
    makeNonBulkDenseContentHeader checksum version block.fields (version.zeroPad block.stored)
  | .bulkDenseContent =>
    makeBulkDenseContentHeader checksum version block.fields (version.zeroPad block.stored)

def headerLen : Nat :=
  (if block.kind.isLong then longSize else regularSize) + checksumsLen checksum +
    rowNumLen block.fields.firstRowNum

def word1 : BitVec 32 :=
  match block.kind with
  | .smallContent => block.fields.lengthsWord1
  | .largeContent => block.fields.largeWord1
  | .nonBulkDenseContent => block.fields.nonBulkDenseWord1
  | .bulkDenseContent => block.fields.lengthsWord1

def extension : List Byte :=
  if block.kind.isLong then block.fields.bulkDenseExtension else []

/-- What lies behind the checksums. -/
def rest : List Byte :=
  block.extension ++ (rowNumBytes block.fields.firstRowNum ++ version.zeroPad block.stored)

/-- The part of it that the block checksum covers. -/
def checkedPart : List Byte :=
  if block.kind = .largeContent then [] else block.rest version

/-- The two checksums. -/
def checks : List Byte :=
  let first := wordBytes (word0 block.kind block.fields) ++ wordBytes block.word1
  let blockChecksum := wordBytes (crc32c (block.checkedPart version))
  if checksum then
    blockChecksum ++ wordBytes (crc32c (first ++ blockChecksum))
  else []

end

variable (checksum : Bool) (version : AORelationVersion) (block : Block)
  {storedLen length offset limit : Nat}

theorem length_extension :
    block.extension.length = if block.kind.isLong then regularSize else 0 := by
  rw [extension]
  split_ifs
  · rfl
  · rfl

theorem length_checks : (block.checks checksum version).length = checksumsLen checksum := by
  cases checksum with
  | false => rfl
  | true =>
    rfl

theorem length_rest : (block.rest version).length = (if block.kind.isLong then regularSize else 0) +
      rowNumLen block.fields.firstRowNum + version.roundUp block.stored.length := by
  rw [rest, length_append, length_append, length_extension,
    length_rowNumBytes, version.length_zeroPad, add_assoc]

/-- The block checksum covers all of a block with content. -/
theorem take_rest (hstored : block.stored.length = storedLen) :
    (block.rest version).take (regularSize + 2 * 4 +
      (if block.kind.isLong then regularSize else 0) +
      (if block.fields.firstRowNum.isSome then 8 else 0) +
      version.roundUp storedLen - (regularSize + 2 * 4)) = block.rest version := by
  apply take_of_length_le
  rw [length_rest, hstored, rowNumLen]
  omega

theorem makeBlock_eq (hlarge : block.kind ≠ .largeContent)
    (hstored : block.stored.length = storedLen) :
    makeBlock checksum version block.kind (word0 block.kind block.fields) block.word1
        block.extension block.fields.firstRowNum block.fields.firstRowNum.isSome
        storedLen (version.zeroPad block.stored) =
      wordBytes (word0 block.kind block.fields) ++ (wordBytes block.word1 ++
        (block.checks checksum version ++ block.rest version)) := by
  have htake := block.take_rest version hstored
  cases checksum with
  | false =>
    simp [makeBlock, checks, rest]
  | true =>
    rw [rest] at htake
    simp [makeBlock, addBlockHeaderChecksums, checks, checkedPart, rest, if_neg hlarge, htake]

/-- The parts of a block one behind the other. -/
theorem image_eq : block.image checksum version =
    wordBytes (word0 block.kind block.fields) ++ (wordBytes block.word1 ++
      (block.checks checksum version ++ block.rest version)) := by
  have hstored := block.stored_len
  by_cases hlarge : block.kind = .largeContent
  · have hnone : block.stored = [] := by
      rw [if_pos hlarge] at hstored
      exact eq_nil_of_length_eq_zero hstored
    have hpad : version.zeroPad [] = [] := by cases version <;> rfl
    cases checksum <;>
      simp [image, hlarge, makeLargeContentHeader, makeBlock, checks, rest, hnone,
        hpad, word0, word1, extension, AoHeaderKind.isLong, addBlockHeaderChecksums, checkedPart]
    cases version <;> rfl
  · rw [if_neg hlarge] at hstored
    have hraw : block.kind.compressible = false →
        block.stored.length = block.fields.dataLength := by
      intro hkind
      rw [hstored, BlockFields.storedLen, block.compressed_eq hkind]
      rfl
    cases hkind : block.kind with
    | smallContent =>
      have hmake := block.makeBlock_eq checksum version hlarge hstored
      simpa only [image, makeSmallContentHeader, word1, extension, word0, hkind,
        AoHeaderKind.isLong, Bool.false_eq_true, if_false] using hmake
    | largeContent => exact absurd hkind hlarge
    | nonBulkDenseContent =>
      have hmake := block.makeBlock_eq checksum version hlarge (hraw (by rw [hkind]; rfl))
      simpa [image, makeNonBulkDenseContentHeader, word1, extension, word0, hkind,
        AoHeaderKind.isLong] using hmake
    | bulkDenseContent =>
      have hmake := block.makeBlock_eq checksum version hlarge hstored
      simpa only [image, makeBulkDenseContentHeader, word1, extension, word0, hkind,
        AoHeaderKind.isLong, if_true] using hmake

theorem length_image : (block.image checksum version).length =
    block.headerLen checksum + version.roundUp block.stored.length := by
  rw [image_eq, length_append, length_append, length_append,
    length_wordBytes, length_wordBytes, length_checks, length_rest, headerLen]
  cases block.kind.isLong <;> simp [regularSize, longSize] <;> omega

theorem regularHeaderLenNeeded_le : regularHeaderLenNeeded checksum ≤ block.headerLen checksum := by
  rw [regularHeaderLenNeeded, headerLen]
  cases block.kind.isLong <;> simp [regularSize, longSize]; omega

theorem wordAt_zero (hlength : 4 ≤ length) :
    wordAt (readAt (block.image checksum version) 0 length) 0 = word0 block.kind block.fields := by
  rw [wordAt_readAt _ hlength, image_eq,
    ← nil_append (wordBytes (word0 block.kind block.fields) ++ _)]
  exact wordAt_middle rfl

theorem wordAt_four (hlength : 8 ≤ length) :
    wordAt (readAt (block.image checksum version) 0 length) 4 = block.word1 := by
  rw [wordAt_readAt _ hlength, image_eq]
  exact wordAt_middle (length_wordBytes _)

theorem word0_ne_zero (kind : AoHeaderKind) (fields : BlockFields) : word0 kind fields ≠ 0 := by
  intro hzero
  have hkind := getHeaderKind_word0 kind fields
  rw [hzero] at hkind
  revert hkind
  cases kind <;> decide

theorem all_zero_image (hlength : 4 ≤ length) :
    (readAt (block.image checksum version) 0 length).all (· = 0) = false := by
  apply all_zero_eq_false
  rw [block.wordAt_zero checksum version hlength]
  exact word0_ne_zero block.kind block.fields

/-- The kind and the header length are found from the first words. -/
theorem getHeaderInfo_image (hlength : 4 ≤ length) :
    getHeaderInfo (readAt (block.image checksum version) 0 length) checksum =
      .ok (block.kind, block.headerLen checksum) := by
  have hword := block.wordAt_zero checksum version hlength
  have hkind := getHeaderKind_word0 block.kind block.fields
  have hrow := getHasFirstRowNum_word0 block.kind block.fields
  have hreserved := getReserved0_word0 block.kind block.fields
  have hzero := word0_ne_zero block.kind block.fields
  simp only [getHeaderInfo, hword, if_neg hzero, hreserved, hrow, hkind, headerLen, rowNumLen]
  cases block.kind <;> rfl

/-- What the reader is to find in the header. -/
def info : HeaderInfo where
  overallBlockLen := if block.kind = .largeContent then 0
    else block.headerLen checksum + version.roundUp block.stored.length
  contentOffset := if block.kind = .largeContent then 0 else block.headerLen checksum
  uncompressedLen := block.fields.dataLength
  executorBlockKind := block.fields.executorKind
  hasFirstRowNum := block.fields.firstRowNum.isSome
  firstRowNum := block.fields.firstRowNum.getD (-1)
  rowCount := block.fields.rowCount
  isCompressed := block.fields.compressedLength ≠ 0
  compressedLen := block.fields.compressedLength

/-- The header up to the number of the first row. -/
def front : List Byte :=
  wordBytes (word0 block.kind block.fields) ++ (wordBytes block.word1 ++
    (block.checks checksum version ++ block.extension))

theorem image_eq_front : block.image checksum version =
    block.front checksum version ++ (rowNumBytes block.fields.firstRowNum ++
      version.zeroPad block.stored) := by
  rw [image_eq, front, rest]
  simp

theorem length_front : (block.front checksum version).length +
    rowNumLen block.fields.firstRowNum = block.headerLen checksum := by
  rw [front, length_append, length_append, length_append,
    length_wordBytes, length_wordBytes, length_checks, length_extension, headerLen]
  cases block.kind.isLong <;> simp [regularSize, longSize] <;> omega

theorem eight_le_headerLen : 8 ≤ block.headerLen checksum :=
  le_trans (le_add_right 8 _) (block.regularHeaderLenNeeded_le checksum)

/-- The number of the first row lies at the end of the header. -/
theorem getFirstRowNum_image
    (hoffset : offset + rowNumLen block.fields.firstRowNum = block.headerLen checksum) :
    getFirstRowNum (readAt (block.image checksum version) 0 (block.headerLen checksum))
      offset = (block.fields.firstRowNum.getD (-1), block.headerLen checksum) := by
  have hmin := block.eight_le_headerLen checksum
  have hfront := block.length_front checksum version
  have hword := block.wordAt_zero checksum version (le_trans (by decide) hmin)
  rw [getFirstRowNum, hword, getHasFirstRowNum_word0]
  cases hrow : block.fields.firstRowNum with
  | none =>
    rw [hrow] at hoffset
    exact Prod.ext rfl hoffset
  | some number =>
    rw [hrow] at hoffset hfront
    have hinside : offset + 8 ≤ block.headerLen checksum := le_of_eq hoffset
    have hbytes : readAt (block.image checksum version) offset 8 = leBytes 8 number.toNat := by
      rw [image_eq_front, hrow]
      exact readAt_middle (by omega) (length_leBytes 8 _)
    rw [readAt_readAt _ _ hinside, zero_add, hbytes, ofNat_leNat_leBytes rfl]
    exact Prod.ext rfl hoffset

theorem readAt_content : readAt (block.image checksum version) (block.headerLen checksum)
      block.stored.length = block.stored := by
  have hfront := block.length_front checksum version
  rw [image_eq_front, ← append_assoc, AORelationVersion.zeroPad]
  apply readAt_middle
  · rw [length_append, length_rowNumBytes, hfront]
  · rfl

/-- The row count of a long header lies in its extension. -/
theorem wordAt_extension (hkind : block.kind = .bulkDenseContent) :
    wordAt (readAt (block.image checksum version) 0 (block.headerLen checksum))
      (regularSize + checksumsLen checksum + 4) =
      bulkDenseExtInitLargeRowCount (BitVec.ofNat 32 block.fields.rowCount) := by
  have hsplit : block.image checksum version =
      (wordBytes (word0 block.kind block.fields) ++ (wordBytes block.word1 ++
        (block.checks checksum version ++ wordBytes 0))) ++
      (wordBytes (bulkDenseExtInitLargeRowCount (BitVec.ofNat 32 block.fields.rowCount)) ++
        (rowNumBytes block.fields.firstRowNum ++ version.zeroPad block.stored)) := by
    rw [image_eq, rest, extension, hkind]
    simp [AoHeaderKind.isLong, BlockFields.bulkDenseExtension]
  have hinside : regularSize + checksumsLen checksum + 4 + 4 ≤ block.headerLen checksum := by
    simp only [headerLen, hkind, AoHeaderKind.isLong, if_true, longSize, regularSize]
    omega
  rw [wordAt_readAt _ hinside, hsplit]
  apply wordAt_middle
  simp only [length_append, length_wordBytes, length_checks, regularSize]
  omega

theorem storedLen_eq (hlarge : block.kind ≠ .largeContent) :
    block.stored.length = if block.fields.compressedLength = 0
      then block.fields.dataLength else block.fields.compressedLength := by
  have hstored := block.stored_len
  rw [if_neg hlarge, BlockFields.storedLen] at hstored
  rw [hstored]
  split_ifs <;> omega

theorem getContentHeaderInfo_image (hlarge : block.kind ≠ .largeContent)
    (hlimit : (block.image checksum version).length ≤ limit)
    (hoffset : offset + rowNumLen block.fields.firstRowNum = block.headerLen checksum) :
    getContentHeaderInfo version
      (readAt (block.image checksum version) 0 (block.headerLen checksum))
      (block.headerLen checksum) limit offset block.fields.rowCount
      block.fields.dataLength block.fields.compressedLength =
      .ok (block.info checksum version) := by
  have hmin := block.eight_le_headerLen checksum
  have hword := block.wordAt_zero checksum version (le_trans (by decide) hmin)
  have hkind := getExecutorBlockKind_word0 block.kind block.fields block.executor_lt
  have hcompressed := not_lt.mpr block.compressed_le
  rw [length_image] at hlimit
  have hover := not_lt.mpr hlimit
  simp [getContentHeaderInfo, block.getFirstRowNum_image checksum version hoffset,
    if_neg hcompressed, hword, hkind, getHasFirstRowNum_word0, ← block.storedLen_eq hlarge,
    if_neg hover, info, if_neg hlarge]

/-- Behind a regular header only the number of the first row can follow. -/
theorem regular_offset (hkind : block.kind.isLong = false) : regularSize + checksumsLen checksum +
    rowNumLen block.fields.firstRowNum = block.headerLen checksum := by
  simp [headerLen, hkind]

/-- What the writer put into a header is what the reader finds in it. -/
theorem getHeaderInfoOfKind_image (hlimit : (block.image checksum version).length ≤ limit) :
    getHeaderInfoOfKind checksum version
      (readAt (block.image checksum version) 0 (block.headerLen checksum))
      (block.headerLen checksum) limit block.kind = .ok (block.info checksum version) := by
  have hmin := block.eight_le_headerLen checksum
  have hfirst := block.wordAt_zero checksum version (le_trans (by decide) hmin)
  have hsecond := block.wordAt_four checksum version hmin
  have hrows := block.rowCount_lt
  have hlength := block.dataLength_lt
  have hlt := lt_of_le_of_lt block.compressed_le hlength
  rw [word1] at hsecond
  cases hkind : block.kind with
  | smallContent =>
    have hoffset := block.regular_offset checksum (by rw [hkind]; rfl)
    have hget := block.getContentHeaderInfo_image checksum version
      (by rw [hkind]; decide) hlimit hoffset
    rw [hkind] at hrows hlength hlt hfirst hsecond
    simp only [getHeaderInfoOfKind, getSmallContentHeaderInfo, hfirst, hsecond,
      smallGetRowCount_word0 hrows, smallGetDataLength_words (.inl rfl) hlength,
      smallGetCompressedLength_word1 hlt]
    exact hget
  | largeContent =>
    have hoffset := block.regular_offset checksum (by rw [hkind]; rfl)
    have hrow := block.getFirstRowNum_image checksum version hoffset
    have hraw := block.compressed_eq (by rw [hkind]; rfl)
    have hpos := ne_of_gt (block.large_pos hkind)
    have hexecutor := getExecutorBlockKind_word0 .largeContent block.fields block.executor_lt
    rw [hkind] at hrows hlength hfirst hsecond
    simp only [getHeaderInfoOfKind, getLargeContentHeaderInfo, hfirst, hsecond, hrow,
      largeGetLargeContentLength_word1 hlength, largeGetLargeRowCount_words hrows,
      hexecutor, getHasFirstRowNum_word0, if_neg hpos, ne_eq, not_true, if_false,
      info, hkind, if_true, hraw, decide_false]
  | nonBulkDenseContent =>
    have hoffset := block.regular_offset checksum (by rw [hkind]; rfl)
    have hget := block.getContentHeaderInfo_image checksum version
      (by rw [hkind]; decide) hlimit hoffset
    have hraw := block.compressed_eq (by rw [hkind]; rfl)
    rw [hkind] at hrows hlength hfirst hsecond
    have hcount : (nonBulkDenseGetLargeRowCount
        block.fields.nonBulkDenseWord1).toNat = block.fields.rowCount :=
      toNat_getLargeRowCount hrows
    simp only [getHeaderInfoOfKind, getNonBulkDenseContentHeaderInfo, hfirst, hsecond,
      hcount, nonBulkDenseGetDataLength_word0 hlength]
    rw [hraw] at hget
    exact hget
  | bulkDenseContent =>
    have hoffset : regularSize + checksumsLen checksum + regularSize +
        rowNumLen block.fields.firstRowNum = block.headerLen checksum := by
      simp only [headerLen, hkind, AoHeaderKind.isLong, if_true, longSize, regularSize]
      omega
    have hget := block.getContentHeaderInfo_image checksum version
      (by rw [hkind]; decide) hlimit hoffset
    have hext := block.wordAt_extension checksum version hkind
    rw [hkind] at hrows hlength hlt hfirst hsecond
    have hcount : (bulkDenseExtGetLargeRowCount (bulkDenseExtInitLargeRowCount
        (BitVec.ofNat 32 block.fields.rowCount))).toNat = block.fields.rowCount :=
      toNat_getLargeRowCount hrows
    simp only [getHeaderInfoOfKind, getBulkDenseContentHeaderInfo, hfirst, hsecond, hext,
      hcount, smallGetDataLength_words (.inr rfl) hlength, smallGetCompressedLength_word1 hlt]
    exact hget

theorem verifyHeaderChecksum_image (hlength : 16 ≤ length) :
    verifyHeaderChecksum (readAt (block.image true version) 0 length) = true := by
  have himage : block.image true version =
      (wordBytes (word0 block.kind block.fields) ++ wordBytes block.word1 ++
        wordBytes (crc32c (block.checkedPart version))) ++
      (wordBytes (crc32c (wordBytes (word0 block.kind block.fields) ++
        wordBytes block.word1 ++ wordBytes (crc32c (block.checkedPart version)))) ++
        block.rest version) := by
    rw [image_eq, checks]
    simp
  have hchecked : (wordBytes (word0 block.kind block.fields) ++ wordBytes block.word1 ++
      wordBytes (crc32c (block.checkedPart version))).length = regularSize + 4 := by
    rfl
  have hinside : 0 + (regularSize + 4) ≤ length := le_trans (by decide) hlength
  have hword : regularSize + 4 + 4 ≤ length := hlength
  rw [verifyHeaderChecksum, wordAt_readAt _ hword, readAt_readAt _ _ hinside, himage,
    wordAt_middle hchecked, readAt_front hchecked, decide_eq_true rfl]

theorem verifyBlockChecksum_image (hlarge : block.kind ≠ .largeContent) :
    verifyBlockChecksum (block.image true version) (block.image true version).length = true := by
  have himage := block.image_eq true version
  rw [checks, checkedPart, if_neg hlarge] at himage
  simp only [if_true, append_assoc] at himage
  have hrest : readAt (block.image true version) (regularSize + 2 * 4)
      ((block.image true version).length - (regularSize + 2 * 4)) = block.rest version := by
    rw [himage]
    simp only [← append_assoc]
    apply readAt_back
    · rfl
    · simp only [length_append, length_wordBytes, regularSize]
      omega
  have hword : wordAt (block.image true version) regularSize = crc32c (block.rest version) := by
    rw [himage, ← append_assoc]
    apply wordAt_middle
    rfl
  rw [verifyBlockChecksum, hword, hrest, decide_eq_true rfl]

end Block

end Greenplum.AoStorage
