/-
What the headers of append-only blocks guarantee: a header that was made is read back as it
was made, for every kind, and the block checksum shows a change of any bit behind it.
-/
import Greenplum.AoStorageBlocks

namespace Greenplum.AoStorage

open ByteMemory Nat BitVec

/-- The length of a block that the block checksum is computed for. -/
def Block.checkedLen (version : AORelationVersion) (block : Block) : Nat :=
  if block.kind = .largeContent then regularSize + 2 * 4
  else (block.image true version).length

section

variable (block : Block) (version : AORelationVersion)

/-- No content is behind the header of a large content, and its checksum covers none. -/
theorem Block.verifyBlockChecksum_large (hlarge : block.kind = .largeContent) :
    verifyBlockChecksum (block.image true version) (regularSize + 2 * 4) = true := by
  have himage := block.image_eq true version
  rw [checks, checkedPart, if_pos hlarge] at himage
  have hword : wordAt (block.image true version) regularSize = crc32c [] := by
    rw [himage, ← List.append_assoc]
    apply wordAt_middle
    rfl
  rw [verifyBlockChecksum, hword, Nat.sub_self, readAt, List.take_zero, decide_eq_true rfl]

theorem Block.verifyBlockChecksum_checkedLen :
    verifyBlockChecksum (block.image true version) (block.checkedLen version) = true := by
  unfold checkedLen
  split
  case isTrue hlarge => exact block.verifyBlockChecksum_large version hlarge
  case isFalse hlarge => exact block.verifyBlockChecksum_image version hlarge

theorem Block.verifyHeaderChecksum_whole :
    verifyHeaderChecksum (block.image true version) = true := by
  have hlong : 16 ≤ (block.image true version).length := by
    rw [Block.length_image]
    exact le_add_right_of_le (block.regularHeaderLenNeeded_le true)
  have hheader := block.verifyHeaderChecksum_image version hlong
  rwa [readAt, List.drop_zero, List.take_length] at hheader

end

/-- The reader finds in a header what was put into it. -/
theorem madeHeader_readBack (checksum : Bool) (version : AORelationVersion) (block : Block)
    {limit : Nat} (hlimit : (block.image checksum version).length ≤ limit) :
    let header := readAt (block.image checksum version) 0 (block.headerLen checksum)
    getHeaderInfo header checksum = .ok (block.kind, block.headerLen checksum) ∧
      getHeaderInfoOfKind checksum version header (block.headerLen checksum) limit block.kind =
        .ok (block.info checksum version) ∧
      (block.kind ≠ .largeContent →
        (block.info checksum version).overallBlockLen = (block.image checksum version).length ∧
        readAt (block.image checksum version) (block.info checksum version).contentOffset
          block.stored.length = block.stored) ∧
      (checksum = true → verifyHeaderChecksum (block.image checksum version) = true ∧
        verifyBlockChecksum (block.image checksum version) (block.checkedLen version) = true) := by
  refine ⟨?_, block.getHeaderInfoOfKind_image checksum version hlimit, ?_, ?_⟩
  · exact block.getHeaderInfo_image checksum version
      (Nat.le_trans (by decide) (block.eight_le_headerLen checksum))
  · intro hlarge
    rw [Block.length_image, Block.info, if_neg hlarge, if_neg hlarge]
    exact ⟨rfl, block.readAt_content checksum version⟩
  · rintro rfl
    exact ⟨block.verifyHeaderChecksum_whole version, block.verifyBlockChecksum_checkedLen version⟩

/-- The polynomial has a bit where a shifted remainder has none, so nothing is lost. -/
theorem crc32cShift_injective : Function.Injective crc32cShift := by
  intro left right heq
  have htop : ∀ crc : BitVec 32, (crc32cShift crc).getLsbD 31 = crc.getLsbD 0 := by
    intro crc
    unfold crc32cShift
    split
    case isTrue hbit => simp [hbit]
    case isFalse hbit => simpa using hbit
  have hlow : left.getLsbD 0 = right.getLsbD 0 := by
    rw [← htop left, heq, htop right]
  have hshift : left >>> 1 = right >>> 1 := by
    unfold crc32cShift at heq
    rw [hlow] at heq
    split at heq
    case isTrue => exact (xor_left_inj _).mp heq
    case isFalse => exact heq
  apply eq_of_getLsbD_eq
  intro i hi
  cases i with
  | zero => exact hlow
  | succ i =>
    have hbit := congrArg (BitVec.getLsbD · i) hshift
    simpa [Nat.add_comm] using hbit

theorem repeat_crc32cShift_injective (count : Nat) :
    Function.Injective (Nat.repeat crc32cShift count) := by
  induction count with
  | zero => exact Function.injective_id
  | succ count ih => exact crc32cShift_injective.comp ih

theorem crc32c_modify_ne {change : Byte → Byte} (hchange : ∀ byte, change byte ≠ byte)
    {bytes : List Byte} {place : Nat} (hplace : place < bytes.length) :
    crc32c (bytes.modify place change) ≠ crc32c bytes := by
  apply foldl_modify_ne _ _ hchange hplace
  · intro byte left right heq
    exact (xor_left_inj _).mp (repeat_crc32cShift_injective 8 heq)
  · intro crc left right heq
    have hwide := (xor_right_inj _).mp (repeat_crc32cShift_injective 8 heq)
    have hbyte := congrArg (BitVec.setWidth 8) hwide
    simpa using hbyte

/-- One bit of a file changes. -/
def flipBit (bytes : List Byte) (bit : Nat) : List Byte :=
  bytes.modify (bit / 8) (· ^^^ (1 <<< (bit % 8)))

theorem flip_ne (bit : Nat) (byte : Byte) : byte ^^^ (1 <<< (bit % 8)) ≠ byte := by
  intro heq
  have hzero : (1 : Byte) <<< (bit % 8) = 0 :=
    (xor_right_inj _).mp (heq.trans xor_zero.symm)
  have hlt := mod_lt bit (show 0 < 8 by decide)
  have hbit := congrArg (BitVec.getLsbD · (bit % 8)) hzero
  simp [hlt] at hbit

/-- The checks of the reader for a block of this kind. -/
def checksPass (kind : AoHeaderKind) (bytes : List Byte) (overallBlockLen : Nat) : Bool :=
  verifyHeaderChecksum bytes && (kind = .largeContent || verifyBlockChecksum bytes overallBlockLen)

/-- A bit of the number of the first row changes, which lies at the end of the header. -/
def Block.rowNumFlipped (version : AORelationVersion) (block : Block) (bit : Nat) : List Byte :=
  flipBit (block.image true version) (8 * (block.headerLen true - 8) + bit)

section

variable {version : AORelationVersion} {block : Block} {firstRowNum : BitVec 64} {bit : Nat}

variable (hrow : block.fields.firstRowNum = some firstRowNum)

include hrow

theorem headerLen_eq_rowNum :
    block.headerLen true = (if block.kind.isLong then longSize else regularSize) + 8 + 8 := by
  rw [Block.headerLen, hrow]
  rfl

variable (hbit : bit < 64)

include hbit

/-- The bit lies behind both checksums and inside of the block. -/
theorem flippedPlace (version : AORelationVersion) :
    regularSize + 2 * 4 ≤ (8 * (block.headerLen true - 8) + bit) / 8 ∧
      (8 * (block.headerLen true - 8) + bit) / 8 < (block.image true version).length := by
  have hlength := block.length_image true version
  have hheader := headerLen_eq_rowNum hrow
  unfold longSize regularSize at hheader
  unfold regularSize
  split at hheader <;> omega

theorem verifyHeaderChecksum_flipped :
    verifyHeaderChecksum (block.rowNumFlipped version bit) = true := by
  have hplace := (flippedPlace hrow hbit version).1
  have hheader := block.verifyHeaderChecksum_whole version
  unfold verifyHeaderChecksum wordAt at hheader ⊢
  unfold Block.rowNumFlipped flipBit
  rw [readAt_modify_of_le _ _ (by omega), readAt_modify_of_le _ _ (by omega)]
  exact hheader

theorem verifyBlockChecksum_flipped (hlarge : block.kind ≠ .largeContent) :
    verifyBlockChecksum (block.rowNumFlipped version bit)
      (block.image true version).length = false := by
  obtain ⟨hfrom, hinside⟩ := flippedPlace hrow hbit version
  have hblock := block.verifyBlockChecksum_image version hlarge
  unfold verifyBlockChecksum wordAt at hblock ⊢
  unfold Block.rowNumFlipped flipBit
  rw [decide_eq_true_eq] at hblock
  rw [readAt_modify_of_le _ _ (by omega), readAt_modify _ _ hfrom, hblock, decide_eq_false_iff_not]
  apply Ne.symm
  apply crc32c_modify_ne (flip_ne _)
  rw [length_readAt (by omega)]
  omega

end

/-- A changed number of the first row is noticed, except in the header of a large content:
its block checksum covers nothing, and the reader does not look at it. -/
theorem rowNumFlip_noticed_iff (version : AORelationVersion) (block : Block)
    {firstRowNum : BitVec 64} (hrow : block.fields.firstRowNum = some firstRowNum) {bit : Nat}
    (hbit : bit < 64) :
    checksPass block.kind (block.rowNumFlipped version bit)
        (block.info true version).overallBlockLen = false ↔ block.kind ≠ .largeContent := by
  unfold checksPass
  rw [verifyHeaderChecksum_flipped hrow hbit, Bool.true_and, Bool.or_eq_false_iff,
    decide_eq_false_iff_not]
  constructor
  · exact fun h => h.1
  · intro hlarge
    have hlength : (block.info true version).overallBlockLen =
        (block.image true version).length := by
      rw [Block.length_image, Block.info, if_neg hlarge]
    rw [hlength]
    exact ⟨hlarge, verifyBlockChecksum_flipped hrow hbit hlarge⟩

namespace AoHeadersWitness

/-- One row of two bytes that begins with number seven. -/
def smallBlock : Block where
  kind := .smallContent
  fields := ⟨1, 1, 2, 0, some 7⟩
  stored := [65, 66]
  executor_lt := by decide
  rowCount_lt := by decide
  dataLength_lt := by decide
  compressed_le := by decide
  compressed_eq := fun _ => rfl
  stored_len := rfl
  large_pos := nofun

/-- The header of a large content that begins with row number seven. -/
def largeBlock : Block where
  kind := .largeContent
  fields := ⟨1, 1, 9, 0, some 7⟩
  stored := []
  executor_lt := by decide
  rowCount_lt := by decide
  dataLength_lt := by decide
  compressed_le := by decide
  compressed_eq := fun _ => rfl
  stored_len := rfl
  large_pos := fun _ => by decide

theorem smallBlock_readBack : (smallBlock.image true .latest).length = 32 ∧
      getHeaderInfo (readAt (smallBlock.image true .latest) 0 24) true = .ok (.smallContent, 24) :=
  ⟨rfl, (madeHeader_readBack true .latest smallBlock (show _ ≤ 32 by decide)).1⟩

/-- Lengths that the reader refuses although they fit into their fields. -/
theorem refusedLengths :
    getHeaderInfoOfKind false .latest (makeLargeContentHeader false .latest ⟨0, 1, 0, 0, none⟩)
        8 100 .largeContent = .error .largeContentLenIsZero ∧ getHeaderInfoOfKind false .latest
        (makeSmallContentHeader false .latest ⟨0, 1, 1, 2, none⟩ [0, 0, 0, 0, 0, 0, 0, 0])
        8 100 .smallContent = .error .invalidCompressedLen :=
  ⟨rfl, rfl⟩

theorem smallBlock_noticed : checksPass .smallContent (smallBlock.rowNumFlipped .latest 3)
      (smallBlock.info true .latest).overallBlockLen = false :=
  (rowNumFlip_noticed_iff .latest smallBlock rfl (by decide)).mpr (by decide)

/-- The reader takes another row number than the one that was written. -/
theorem largeBlock_unnoticed : checksPass .largeContent (largeBlock.rowNumFlipped .latest 3)
        (largeBlock.info true .latest).overallBlockLen = true ∧
      getFirstRowNum (largeBlock.rowNumFlipped .latest 3) 16 = (15, 24) ∧
      getFirstRowNum (largeBlock.image true .latest) 16 = (7, 24) := by
  decide +kernel

end AoHeadersWitness

end Greenplum.AoStorage
