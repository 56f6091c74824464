/-
What the reader of segment files finds in a file that the writer has closed: the
same logical blocks, with the headers at the positions where they were made, as
long as no header lies where the reader expects the padding of a page.
-/
import Greenplum.AoStorageSearch

namespace Greenplum.AoStorage

open ByteMemory List Fallible Nat

namespace StorageRead

variable {read next last : StorageRead} {settings : StorageSettings}
  {file memory : List Byte} {fileLen logicalEof : Nat} {write : StorageWrite}
  {placed : List Placed}

/-- What the reader is to know of a block at a position. -/
def currentOf (settings : StorageSettings) (block : Block) (position : Nat) : ReadCurrent where
  headerOffsetInFile := position
  headerKind := block.kind
  actualHeaderLen := block.headerLen settings.checksum
  info := block.info settings.checksum .latest
  isLarge := block.kind = .largeContent

/-- Bytes that lie ahead come into the buffer. -/
theorem growBuffer_ahead {buffered : BufferedRead} {bytes rest : List Byte}
    {position oldLen count : Nat} (hat : buffered.At position oldLen)
    (hahead : Ahead buffered.file buffered.fileLen position (bytes ++ rest))
    (hcount : count ≤ bytes.length) (hmax : count ≤ buffered.maxBufferLen) :
    ∃ next, buffered.growBuffer count = .ok (readAt bytes 0 count, next) ∧
      BufferedRead.SameFile buffered next ∧ next.At position count := by
  have hend := hahead.first.2
  obtain ⟨next, hnext, hsame, hstands⟩ := BufferedRead.growBuffer_spec hat hmax
  have hfull : min count (buffered.fileLen - position) = count := by omega
  rw [hfull] at hstands
  have hbuffer := hstands.currentBuffer_eq
  rw [hsame.file, hahead.readAt_eq hcount] at hbuffer
  rw [hbuffer] at hnext
  exact ⟨next, hnext, hsame, hstands⟩

/-- The whole header of a block comes into the buffer. -/
theorem growHeader_spec {block : Block} {rest : List Byte} {position : Nat}
    (h : read.Inv) (hat : read.bufferedRead.At position read.minimumHeaderLen)
    (hahead : Ahead read.bufferedRead.file read.bufferedRead.fileLen position
      (read.settings.blockImage block ++ rest))
    (hlimit : (read.settings.blockImage block).length ≤ read.settings.maxBufferLen) :
    ∃ next : StorageRead, read.growHeader
        (readAt read.bufferedRead.file position read.minimumHeaderLen)
        (block.headerLen read.settings.checksum) = .ok (readAt (read.settings.blockImage block) 0
        (block.headerLen read.settings.checksum), next) ∧ Moves read next ∧
      next.bufferedRead.At position (block.headerLen read.settings.checksum) := by
  have hlen := block.length_image read.settings.checksum .latest
  have hmin := block.regularHeaderLenNeeded_le read.settings.checksum
  have hinside : block.headerLen read.settings.checksum ≤
      (read.settings.blockImage block).length := by
    unfold StorageSettings.blockImage
    omega
  by_cases hgrow : read.minimumHeaderLen < block.headerLen read.settings.checksum
  · obtain ⟨next, hnext, hsame, hstands⟩ := growBuffer_ahead hat hahead hinside
      (by rw [h.limit]; omega)
    have hlength : (readAt (read.settings.blockImage block) 0
        (block.headerLen read.settings.checksum)).length =
          block.headerLen read.settings.checksum := length_readAt (by omega)
    refine ⟨{ read with bufferedRead := next }, ?_, .buffered hsame, hstands⟩
    simp only [growHeader, if_pos hgrow, hnext, ok_bind, hlength, ne_eq, not_true, if_false]
    rfl
  · have hsame : read.minimumHeaderLen = block.headerLen read.settings.checksum :=
      Nat.le_antisymm hmin (Nat.le_of_not_lt hgrow)
    refine ⟨read, ?_, .refl read, hsame ▸ hat⟩
    rw [growHeader, if_neg hgrow, hsame, hahead.readAt_eq hinside]

/-- An open reader of a file. -/
structure Opened (read : StorageRead) (settings : StorageSettings) (file : List Byte)
    (fileLen : Nat) : Prop extends read.Inv where
  version : read.formatVersion = .latest
  settings_eq : read.settings = settings
  file_eq : read.bufferedRead.file = file
  fileLen_eq : read.bufferedRead.fileLen = fileLen

theorem Opened.follows (h : Opened read settings file fileLen)
    (hnext : Follows read next) (hinv : next.bufferedRead.Inv) :
    Opened next settings file fileLen where
  buffered := hinv
  limit := by rw [hnext.file.maxBufferLen, h.limit, hnext.settings]
  version := hnext.version.trans h.version
  settings_eq := hnext.settings.trans h.settings_eq
  file_eq := hnext.file.file.trans h.file_eq
  fileLen_eq := hnext.file.fileLen.trans h.fileLen_eq

section

variable {settings : StorageSettings} {file : List Byte} {fileLen position place : Nat}
  {block : Block} {rest content : List Byte} {executorKind : Nat} {blocks : List Block}
  {logical : LogicalBlock} {placed : List Placed} {logicals : List LogicalBlock}

theorem not_headerChecksum (settings : StorageSettings) (block : Block) (verify : Bool) :
    ¬ (settings.checksum && verify && !verifyHeaderChecksum (readAt
      (settings.blockImage block) 0 settings.regularHeaderLen)) = true := by
  cases hchecksum : settings.checksum with
  | false => exact Bool.false_ne_true
  | true =>
    have hlength : 16 ≤ settings.regularHeaderLen := by
      rw [StorageSettings.regularHeaderLen, hchecksum]
      decide
    rw [StorageSettings.blockImage, hchecksum, block.verifyHeaderChecksum_image .latest hlength]
    simp

section

variable (h : Opened read settings file fileLen)
  (hposition : read.bufferedRead.nextBufferPosition = position)

include h hposition

/-- The header of a block that lies ahead is read. -/
theorem readNextBlock_spec (hnext : nextHeader settings file fileLen position = .ok (some place))
    (hahead : Ahead file fileLen place (settings.blockImage block ++ rest))
    (hlimit : (settings.blockImage block).length ≤ settings.maxBufferLen) :
    ∃ next : StorageRead, read.readNextBlock = .ok next ∧
      next.current = some (currentOf settings block place) ∧ Opened next settings file fileLen ∧
      next.bufferedRead.At place (block.headerLen settings.checksum) ∧
      next.headerPositions = read.headerPositions ++ [place] ∧
      next.verifyBlockChecksums = read.verifyBlockChecksums := by
  obtain ⟨hinv, hversion, hsettings, hfile, hfileLen⟩ := h
  subst hsettings hfile hfileLen
  have hstart : Inv { read with current := none } := ⟨hinv.buffered, hinv.limit⟩
  have houtcome := positionToNextBlock_spec hstart hposition
  rw [hnext] at houtcome
  obtain ⟨positioned, hpositioned, hfound⟩ := houtcome
  have hlen := block.length_image read.settings.checksum .latest
  have hmin := block.regularHeaderLenNeeded_le read.settings.checksum
  have hpos : 8 ≤ read.minimumHeaderLen := eight_le_regularHeaderLen read.settings
  have hend := hahead.first.2
  have hheader : readAt read.bufferedRead.file place read.minimumHeaderLen =
      readAt (read.settings.blockImage block) 0 read.minimumHeaderLen := by
    apply hahead.readAt_eq
    unfold StorageSettings.blockImage minimumHeaderLen StorageSettings.regularHeaderLen
    omega
  have hverify : ¬ (read.settings.checksum && read.verifyBlockChecksums &&
      !verifyHeaderChecksum (readAt read.bufferedRead.file place
        read.minimumHeaderLen)) = true := by
    rw [hheader]
    exact not_headerChecksum read.settings block _
  have hinfo : getHeaderInfo (readAt read.bufferedRead.file place read.minimumHeaderLen)
      read.settings.checksum = .ok (block.kind, block.headerLen read.settings.checksum) := by
    rw [hheader]
    exact block.getHeaderInfo_image _ _ (by omega)
  have hopened : Opened positioned read.settings read.bufferedRead.file read.bufferedRead.fileLen :=
    Opened.follows ⟨hstart, hversion, rfl, rfl, rfl⟩ hfound.toFollows hfound.standing.inv
  obtain ⟨grown, hgrown, hmoves, hat⟩ := growHeader_spec hopened.toInv
    (show positioned.bufferedRead.At place positioned.minimumHeaderLen by
      rw [minimumHeaderLen, hopened.settings_eq]; exact hfound.standing)
    (by rw [hopened.settings_eq, hopened.file_eq, hopened.fileLen_eq]; exact hahead)
    (by rw [hopened.settings_eq]; exact hlimit)
  have hkind := block.getHeaderInfoOfKind_image read.settings.checksum .latest
    (show (block.image read.settings.checksum .latest).length ≤
      min read.settings.maxBufferLen (read.bufferedRead.fileLen - place) by
        unfold StorageSettings.blockImage at hlimit hend
        omega)
  rw [hopened.settings_eq, hopened.file_eq, minimumHeaderLen, hopened.settings_eq] at hgrown
  refine ⟨{ grown with current := some (currentOf read.settings block place) }, ?_, rfl, ?_, ?_,
    ?_, ?_⟩
  · simp only [readNextBlock, hpositioned, bind, Except.bind, foundAt]
    unfold minimumHeaderLen at hverify hinfo ⊢
    simp only [if_neg hverify, hinfo, hgrown, hversion]
    unfold StorageSettings.blockImage
    simp only [hkind]
    rfl
  · have hlast := hopened.follows hmoves.toFollows hat.inv
    exact ⟨⟨hlast.buffered, hlast.limit⟩, hlast.version, hlast.settings_eq, hlast.file_eq,
      hlast.fileLen_eq⟩
  · rw [hopened.settings_eq] at hat
    exact hat
  · exact hmoves.headerPositions.trans hfound.headerPositions
  · exact hmoves.verify.trans hfound.verify

theorem readNextBlock_end (hnext : nextHeader settings file fileLen position = .ok none) :
    ∃ next : StorageRead, read.readNextBlock = .ok next ∧ next.current = none ∧
      next.headerPositions = read.headerPositions := by
  obtain ⟨hinv, hversion, hsettings, hfile, hfileLen⟩ := h
  subst hsettings hfile hfileLen
  have hstart : Inv { read with current := none } := ⟨hinv.buffered, hinv.limit⟩
  have houtcome := positionToNextBlock_spec hstart hposition
  rw [hnext] at houtcome
  obtain ⟨next, hdone, _, hmoves⟩ := houtcome
  refine ⟨next, ?_, hmoves.current, hmoves.headerPositions⟩
  simp only [readNextBlock, hdone, ok_bind]
  rfl

end

/-- The reader finds nothing wrong with a block. -/
theorem not_blockChecksum (settings : StorageSettings)
    (hlarge : block.kind ≠ .largeContent) (verify : Bool) :
    ¬ (settings.checksum && verify && !verifyBlockChecksum (settings.blockImage block)
      (settings.blockImage block).length) = true := by
  cases hchecksum : settings.checksum with
  | false => exact Bool.false_ne_true
  | true =>
    rw [StorageSettings.blockImage, hchecksum, block.verifyBlockChecksum_image .latest hlarge]
    simp

section

variable (h : Opened read settings file fileLen)

include h

/-- The current block comes into the buffer. -/
theorem internalGetBuffer_spec
    (hahead : Ahead file fileLen place (settings.blockImage block ++ rest))
    (hlimit : (settings.blockImage block).length ≤ settings.maxBufferLen)
    (hlarge : block.kind ≠ .largeContent)
    (hat : read.bufferedRead.At place (block.headerLen settings.checksum)) :
    ∃ next : StorageRead, read.internalGetBuffer (currentOf settings block place) =
        .ok (settings.blockImage block, next) ∧ Moves read next ∧
      next.bufferedRead.At place (settings.blockImage block).length := by
  have hoverall : (currentOf settings block place).info.overallBlockLen =
      (settings.blockImage block).length :=
    (if_neg hlarge).trans (block.length_image settings.checksum .latest).symm
  rw [← h.file_eq, ← h.fileLen_eq] at hahead
  obtain ⟨next, hnext, hsame, hstands⟩ := growBuffer_ahead hat hahead (Nat.le_refl _)
    (by rw [h.limit, h.settings_eq]; exact hlimit)
  have hbuffer : readAt (settings.blockImage block) 0 (settings.blockImage block).length =
      settings.blockImage block := take_length
  have hverify := not_blockChecksum settings hlarge read.verifyBlockChecksums
  refine ⟨{ read with bufferedRead := next }, ?_, .buffered hsame, hstands⟩
  simp only [internalGetBuffer, hoverall, hnext, ok_bind, hbuffer, ne_eq, not_true,
    if_false, h.settings_eq, if_neg hverify]
  rfl

/-- The content of a block is read as it was written. -/
theorem regularContent_spec
    {kind : AoHeaderKind} {firstRowNum : Option (BitVec 64)} {rowCount : Nat}
    (hcarries : block.Carries settings kind firstRowNum executorKind rowCount content)
    (hlarge : kind ≠ .largeContent)
    (hahead : Ahead file fileLen place (settings.blockImage block ++ rest))
    (hat : read.bufferedRead.At place (block.headerLen settings.checksum)) :
    ∃ next : StorageRead, read.regularContent (currentOf settings block place) =
        .ok (content, next) ∧ Opened next settings file fileLen ∧
      next.bufferedRead.nextBufferPosition = place + (settings.blockImage block).length ∧
      next.headerPositions = read.headerPositions := by
  have hkind : block.kind ≠ .largeContent := hcarries.kind.symm ▸ hlarge
  obtain ⟨next, hnext, hmoves, hstands⟩ := internalGetBuffer_spec h hahead
    hcarries.length_le hkind hat
  refine ⟨next, ?_, h.follows hmoves.toFollows hstands.inv, hstands.nextBufferPosition_eq,
    hmoves.headerPositions⟩
  have hoffset : (currentOf settings block place).info.contentOffset =
      block.headerLen settings.checksum := if_neg hkind
  have hstored : ((settings.blockImage block).drop
      (block.headerLen settings.checksum)).take block.stored.length = block.stored :=
    block.readAt_content settings.checksum .latest
  have hlength := block.storedLen_eq hkind
  by_cases hzero : block.fields.compressedLength = 0
  · have hraw := hcarries.holds.raw hzero
    have hflag : (currentOf settings block place).info.isCompressed = false := by
      show decide (block.fields.compressedLength ≠ 0) = false
      simp [hzero]
    rw [if_pos hzero] at hlength
    rw [hlength, hraw] at hstored
    simp only [regularContent, hnext, ok_bind, hflag, hoffset, Bool.not_false, if_true]
    exact congrArg (fun bytes => Except.ok (bytes, next)) hstored
  · obtain ⟨compressor, hcompressor, hdecompress⟩ := hcarries.holds.compressed hzero
    have hflag : (currentOf settings block place).info.isCompressed = true := by
      show decide (block.fields.compressedLength ≠ 0) = true
      simp [hzero]
    rw [if_neg hzero] at hlength
    rw [hlength] at hstored
    have hcompressedLen : (currentOf settings block place).info.compressedLen =
      block.fields.compressedLength := rfl
    have huncompressedLen : (currentOf settings block place).info.uncompressedLen =
      content.length := hcarries.holds.length
    simp only [regularContent, hnext, ok_bind, hflag, hoffset, Bool.not_true,
      Bool.false_eq_true, if_false, h.settings_eq, hcompressor, hcompressedLen,
      huncompressedLen, hstored, hdecompress, ne_eq, not_true]
    rfl

/-- The fragment at the position of the reader. -/
theorem fragment_spec (hposition : read.bufferedRead.nextBufferPosition = position)
    (hcarries : block.Carries settings .smallContent none executorKind 0 content)
    (hahead : Ahead file fileLen position (settings.blockImage block ++ rest))
    (hfits : HeaderFits settings position) :
    ∃ next done : StorageRead, read.readNextBlock = .ok next ∧
      next.current = some (currentOf settings block position) ∧
      next.regularContent (currentOf settings block position) = .ok (content, done) ∧
      Opened done settings file fileLen ∧ done.bufferedRead.nextBufferPosition =
        position + (settings.blockImage block).length ∧
      done.headerPositions = read.headerPositions ++ [position] := by
  obtain ⟨next, hnext, hcurrent, hopened, hat, hpositions, _⟩ := readNextBlock_spec h
    hposition (nextHeader_here hahead hfits) hahead hcarries.length_le
  obtain ⟨done, hdone, hlast, hstands, hsame⟩ := regularContent_spec hopened hcarries
    (by decide) hahead hat
  exact ⟨next, done, hnext, hcurrent, hdone, hlast, hstands, hsame.trans hpositions⟩

end

/-- All fragments of a large content are read. -/
theorem largeContent_spec (hblocks : IsFragments settings executorKind blocks content) :
    ∀ {fuel : Nat} {read : StorageRead} {position : Nat} {rest : List Byte},
    Opened read settings file fileLen → read.bufferedRead.nextBufferPosition = position →
    Ahead file fileLen position (RecordLog.image settings.blockImage blocks ++ rest) →
    (∀ start ∈ RecordLog.starts settings.blockImage position blocks, HeaderFits settings start) →
    blocks.length ≤ fuel →
    ∃ next : StorageRead, largeContent fuel content.length read = .ok (content, next) ∧
      Opened next settings file fileLen ∧ next.bufferedRead.nextBufferPosition =
        position + (RecordLog.image settings.blockImage blocks).length ∧
      next.headerPositions = read.headerPositions ++
        RecordLog.starts settings.blockImage position blocks := by
  induction hblocks with
  | @last block content hne hblock =>
    intro fuel read position rest h hposition hahead hfits hfuel
    obtain ⟨fuel, rfl⟩ := Nat.exists_eq_add_of_le' hfuel
    rw [RecordLog.image, flatMap_singleton] at hahead ⊢
    obtain ⟨next, done, hnext, hcurrent, hdone, hlast, hstands, hpositions⟩ :=
      fragment_spec h hposition hblock hahead (hfits position mem_cons_self)
    have hkind : (currentOf settings block position).headerKind = .smallContent := hblock.kind
    have hlength : (currentOf settings block position).info.uncompressedLen = _ :=
      hblock.holds.length
    refine ⟨done, ?_, hlast, hstands, hpositions⟩
    simp only [length_singleton, largeContent, hnext, ok_bind, hcurrent,
      hkind, ne_eq, not_true, if_false, hlength, Nat.lt_irrefl, hdone, Nat.sub_self, if_true]
    rfl
  | @more block blocks first more hblock hrest hblocks ih =>
    intro fuel read position rest h hposition hahead hfits hfuel
    obtain ⟨fuel, rfl⟩ := Nat.exists_eq_add_of_le' hfuel
    rw [RecordLog.image, flatMap_cons, append_assoc] at hahead
    obtain ⟨next, done, hnext, hcurrent, hdone, hlast, hstands, hpositions⟩ :=
      fragment_spec h hposition hblock hahead (hfits position mem_cons_self)
    obtain ⟨final, hfinal, hend, hat, hall⟩ := @ih (fuel + blocks.length) done _ rest hlast
      hstands hahead.rest (fun start hstart => hfits start (mem_cons_of_mem _ hstart))
      (le_add_left _ _)
    have hkind : (currentOf settings block position).headerKind = .smallContent := hblock.kind
    have hlength : (currentOf settings block position).info.uncompressedLen = _ :=
      hblock.holds.length
    have hremaining : ¬ more.length = 0 := fun hzero =>
      hrest (eq_nil_of_length_eq_zero hzero)
    refine ⟨final, ?_, hend, ?_, ?_⟩
    · have hover : ¬ first.length + more.length < first.length := by omega
      simp only [length_cons, ← Nat.add_assoc, largeContent, hnext, ok_bind,
        hcurrent, hkind, ne_eq, not_true, if_false, hlength, length_append, if_neg hover,
        hdone, Nat.add_sub_cancel_left, if_neg hremaining, hfinal]
      rfl
    · rw [hat, RecordLog.image, RecordLog.image, flatMap_cons, length_append, Nat.add_assoc]
    · rw [hall, hpositions, RecordLog.starts, append_assoc, singleton_append]

theorem length_le_image (settings : StorageSettings) (blocks : List Block) :
    blocks.length ≤ (RecordLog.image settings.blockImage blocks).length := by
  induction blocks with
  | nil => exact zero_le _
  | cons block rest ih =>
    have hlen := block.length_image settings.checksum .latest
    have hpos := block.eight_le_headerLen settings.checksum
    rw [RecordLog.image] at ih ⊢
    rw [flatMap_cons, length_append, length_cons]
    unfold StorageSettings.blockImage at ih ⊢
    omega

theorem large_headerLen (settings : StorageSettings) (hkind : block.kind = .largeContent) :
    (settings.blockImage block).length = block.headerLen settings.checksum := by
  have hstored := block.stored_len
  rw [if_pos hkind] at hstored
  rw [StorageSettings.blockImage, block.length_image, hstored]
  rfl

theorem large_length_le (settings : StorageSettings) (hkind : block.kind = .largeContent) :
    (settings.blockImage block).length ≤ settings.maxBufferLen := by
  have hheader := contentHeaderLen_le settings block.kind block.fields.firstRowNum
  have hmax := settings.le_maxBufferLen
  rw [large_headerLen settings hkind, headerLen_eq]
  omega

/-- A placed logical block is read. -/
theorem logicalBlock_spec (h : Opened read settings file fileLen)
    (hposition : read.bufferedRead.nextBufferPosition = position) {placed : Placed}
    (hspells : Spells settings placed.blocks logical) (hahead : Ahead file fileLen position
      (List.replicate (placed.skip settings position) 0 ++
        (RecordLog.image settings.blockImage placed.blocks ++ rest)))
    (hfits : ∀ start ∈ RecordLog.starts settings.blockImage
      (position + placed.skip settings position) placed.blocks, HeaderFits settings start) :
    ∃ (next done : StorageRead) (current : ReadCurrent), read.readNextBlock = .ok next ∧
      next.current = some current ∧ next.content current = .ok (logical.content, done) ∧
      (⟨current.info.executorBlockKind, current.info.firstRowNum, current.info.rowCount,
        logical.content⟩ : LogicalBlock) = logical ∧ Opened done settings file fileLen ∧
      done.bufferedRead.nextBufferPosition = position + placed.skip settings position +
        (RecordLog.image settings.blockImage placed.blocks).length ∧
      done.headerPositions = read.headerPositions ++ RecordLog.starts settings.blockImage
        (position + placed.skip settings position) placed.blocks := by
  have hbehind := hahead.rest
  rw [length_replicate] at hbehind
  obtain ⟨closed, blocks⟩ := placed
  cases hspells with
  | @one block kind firstRowNum executorKind rowCount bytes hkind hblock =>
    rw [RecordLog.image, flatMap_singleton] at hahead hbehind ⊢
    have hfound := nextHeader_placed hahead (hfits _ mem_cons_self)
    obtain ⟨next, hnext, hcurrent, hopened, hat, hpositions, _⟩ := readNextBlock_spec h
      hposition hfound hbehind hblock.length_le
    obtain ⟨done, hdone, hlast, hstands, hsame⟩ := regularContent_spec hopened hblock hkind
      hbehind hat
    have hlarge : ¬ (currentOf settings block (position +
        Placed.skip settings ⟨closed, [block]⟩ position)).isLarge = true := by
      show ¬ decide (block.kind = .largeContent) = true
      rw [hblock.kind, decide_eq_true_eq]
      exact hkind
    refine ⟨next, done, _, hnext, hcurrent, ?_, ?_, hlast, hstands, hsame.trans hpositions⟩
    · rw [content, if_neg hlarge]
      exact hdone
    · simp [currentOf, Block.info, hblock.executorKind, hblock.firstRowNum, hblock.rowCount]
  | @large head blocks firstRowNum executorKind rowCount bytes hhead hfields hblocks =>
    rw [RecordLog.image, flatMap_cons, append_assoc] at hahead hbehind
    have hfound := nextHeader_placed hahead (hfits _ mem_cons_self)
    have hlimit := large_length_le settings hhead
    obtain ⟨next, hnext, hcurrent, hopened, hat, hpositions, _⟩ := readNextBlock_spec h
      hposition hfound hbehind hlimit
    have hstart := hat.nextBufferPosition_eq
    rw [← large_headerLen settings hhead] at hstart
    have hfuel : blocks.length ≤ next.bufferedRead.fileLen + 1 := by
      have hle := length_le_image settings blocks
      have hend := hbehind.rest.first.2
      rw [RecordLog.image] at hle
      rw [hopened.fileLen_eq]
      omega
    obtain ⟨done, hdone, hlast, hstands, hmore⟩ := largeContent_spec hblocks hopened hstart
      hbehind.rest (fun start hmem => hfits start (mem_cons_of_mem _ hmem)) hfuel
    have hlarge : (currentOf settings head (position +
        Placed.skip settings ⟨closed, head :: blocks⟩ position)).isLarge = true :=
      decide_eq_true hhead
    have hlength : (currentOf settings head (position +
        Placed.skip settings ⟨closed, head :: blocks⟩ position)).info.uncompressedLen =
        bytes.length := congrArg BlockFields.dataLength hfields
    refine ⟨next, done, _, hnext, hcurrent, ?_, ?_, hlast, ?_, ?_⟩
    · rw [content, if_pos hlarge, hlength]
      exact hdone
    · simp only [currentOf, Block.info, hfields]
    · rw [hstands, RecordLog.image, RecordLog.image, flatMap_cons, length_append,
        Nat.add_assoc _ (settings.blockImage head).length]
    · rw [hmore, hpositions, RecordLog.starts, append_assoc, singleton_append]

/-- The placed blocks spell the logical blocks, one after the other. -/
abbrev SpellsAll (settings : StorageSettings) : List Placed → List LogicalBlock → Prop :=
  List.Forall₂ fun place logical => Spells settings place.blocks logical

theorem spells_ne_nil (h : Spells settings blocks logical) : 0 < blocks.length := by
  cases h with
  | one hkind hblock => exact Nat.one_pos
  | large hhead hfields hblocks => exact succ_pos _

theorem length_le_layout (hspells : SpellsAll settings placed logicals) (base : Nat) :
    placed.length ≤ (layout settings base placed).length := by
  induction hspells generalizing base with
  | nil => exact zero_le _
  | @cons first logical rest logicals hfirst hrest ih =>
    have hpos := spells_ne_nil hfirst
    have hle := length_le_image settings first.blocks
    have hmore := ih (base + first.skip settings base +
      (RecordLog.image settings.blockImage first.blocks).length)
    rw [layout, length_append, length_append, length_cons]
    omega

/-- The reader goes over all that the sessions have placed. -/
theorem readBlocks_spec (hspells : SpellsAll settings placed logicals) :
    ∀ {fuel : Nat} {read : StorageRead} {position : Nat}, Opened read settings file fileLen →
    read.bufferedRead.nextBufferPosition = position →
    Ahead file fileLen position (layout settings position placed) →
    (∀ start ∈ headerStarts settings position placed, HeaderFits settings start) →
    placed.length < fuel → ∃ next : StorageRead, readBlocks fuel read = .ok (logicals, next) ∧
      next.headerPositions = read.headerPositions ++ headerStarts settings position placed := by
  induction hspells with
  | nil =>
    intro fuel read position h hposition hahead _ hfuel
    obtain ⟨fuel, rfl⟩ := Nat.exists_eq_add_of_le' hfuel
    obtain ⟨next, hnext, hcurrent, hpositions⟩ := readNextBlock_end h hposition
      (nextHeader_end hahead)
    refine ⟨next, ?_, hpositions.trans (append_nil _).symm⟩
    simp only [readBlocks, hnext, ok_bind, hcurrent]
    rfl
  | @cons first logical rest logicals hfirst hrest ih =>
    intro fuel read position h hposition hahead hfits hfuel
    obtain ⟨fuel, rfl⟩ := Nat.exists_eq_succ_of_ne_zero (Nat.ne_zero_of_lt hfuel)
    obtain ⟨next, done, current, hnext, hcurrent, hcontent, hlogical, hopened, hstands,
      hpositions⟩ := logicalBlock_spec h hposition hfirst hahead
        (fun start hmem => hfits start (mem_append_left _ hmem))
    have hbehind := hahead.rest.rest
    rw [length_replicate] at hbehind
    obtain ⟨last, hlast, hall⟩ := @ih fuel done _ hopened hstands hbehind
      (fun start hmem => hfits start (mem_append_right _ hmem))
      (lt_of_succ_lt_succ hfuel)
    refine ⟨last, ?_, ?_⟩
    · simp only [readBlocks, hnext, ok_bind, hcurrent, hcontent, hlast, hlogical]
      rfl
    · rw [hall, hpositions, headerStarts, append_assoc]

end

/-- A reader that has opened a file that the sessions have closed. -/
theorem tryOpenFile_spec (settings : StorageSettings) (verify : Bool)
    (hmemory : memory.length = bufferedReadMemoryLen settings.maxBufferLen
      (2 * settings.maxBufferLen)) (hfile : fileLen ≤ file.length) :
    ∃ next : StorageRead, (storageReadInit settings verify memory).tryOpenFile file .latest
        fileLen = .ok next ∧ Opened next settings file fileLen ∧
      next.bufferedRead.nextBufferPosition = 0 ∧ next.headerPositions = [] := by
  have hle := settings.le_maxBufferLen
  have hready : (storageReadInit settings verify memory).bufferedRead.Ready := by
    refine ⟨?_, ?_, hmemory⟩
    · show 0 < settings.maxBufferLen
      omega
    · show settings.maxBufferLen ≤ 2 * settings.maxBufferLen
      omega
  obtain ⟨next, hnext, hinv, hfileEq, hlen, hmax, hposition⟩ :=
    hready.setFile ⟨rfl, rfl, rfl, rfl⟩ hfile
  refine ⟨{ storageReadInit settings verify memory with bufferedRead := next }, ?_,
    ⟨⟨hinv, hmax⟩, rfl, rfl, hfileEq, hlen⟩, hposition, rfl⟩
  simp only [tryOpenFile, hnext, ok_bind]
  rfl

theorem ahead_closed (h : write.Closed file logicalEof placed) :
    Ahead file logicalEof 0 (layout write.settings 0 placed) where
  file_le := h.eof_le
  end_eq := by rw [h.length_layout, Nat.zero_add]
  holds := by rw [readAt, drop_zero, h.length_layout, h.file_take]

/-- What the sessions have written, read back. -/
theorem readFile_sessions_closed (settings : StorageSettings) (verify : Bool)
    {writeMemory readMemory : List Byte}
    (hwriteMemory : writeMemory.length = bufferedAppendMemoryLen
      settings.maxBufferWithCompressionOverrunLen settings.largeWriteLen)
    (hreadMemory : readMemory.length = bufferedReadMemoryLen settings.maxBufferLen
      (2 * settings.maxBufferLen)) {sessions : List (List StorageWrite.WriteOp)}
    (hfields : ∀ ops ∈ sessions, ∀ op ∈ ops, op.InFields settings)
    (hrun : (storageWriteInit settings writeMemory).runSessions [] 0 sessions =
      .ok (write, file, logicalEof)) :
    logicalEof ≤ file.length ∧ ((∀ position ∈ write.headerPositions, HeaderFits settings position) →
        ∃ read, (storageReadInit settings verify readMemory).readFile file logicalEof =
            .ok (sessions.flatten.map StorageWrite.WriteOp.logical, read) ∧
          read.headerPositions = write.headerPositions) := by
  have hclosed := StorageWrite.closed_init settings hwriteMemory
  obtain ⟨next, newFile, newEof, placed, hnext, hsettings, hend, hspells⟩ :=
    StorageWrite.runSessions_spec sessions hclosed hfields
      (StorageWrite.runSessions_refused sessions hclosed hfields hrun)
  rw [hrun] at hnext
  cases hnext
  have hsame : write.settings = settings := hsettings
  subst hsame
  replace hspells : SpellsAll write.settings placed _ := hspells
  rw [nil_append] at hend
  refine ⟨hend.eof_le, ?_⟩
  intro hfits
  rw [hend.headerPositions] at hfits ⊢
  obtain ⟨opened, hopen, hopened, hposition, hnone⟩ :=
    tryOpenFile_spec write.settings verify hreadMemory hend.eof_le
  have hfuel := (length_le_layout hspells 0).trans_eq hend.length_layout
  obtain ⟨next, hnext, hpositions⟩ := readBlocks_spec hspells hopened hposition
    (ahead_closed hend) hfits (lt_succ_of_le hfuel)
  rw [hnone, nil_append] at hpositions
  refine ⟨next, ?_, hpositions⟩
  simp only [readFile, hopen, ok_bind]
  exact hnext

theorem headerFits_of_unpaged (hsafe : settings.safeFSWriteSize = 0) (position : Nat) :
    HeaderFits settings position := by
  rw [HeaderFits, padLen, if_pos hsafe]
  exact .inl rfl

/-- Without pages: whatever logical blocks are written in any number of sessions,
none of them is refused that fits, and the reader gives them back in order, with
their kinds, row numbers, row counts and contents, and then the end of the file. -/
theorem readFile_runSessions (settings : StorageSettings)
    (hsafe : settings.safeFSWriteSize = 0) (verify : Bool) {writeMemory readMemory : List Byte}
    (hwriteMemory : writeMemory.length = bufferedAppendMemoryLen
      settings.maxBufferWithCompressionOverrunLen settings.largeWriteLen)
    (hreadMemory : readMemory.length = bufferedReadMemoryLen settings.maxBufferLen
      (2 * settings.maxBufferLen)) {sessions : List (List StorageWrite.WriteOp)}
    (hfields : ∀ ops ∈ sessions, ∀ op ∈ ops, op.InFields settings) :
    ((∀ ops ∈ sessions, ∀ op ∈ ops, op.Accepted settings) → ∃ result,
      (storageWriteInit settings writeMemory).runSessions [] 0 sessions = .ok result) ∧
    ∀ write file logicalEof, (storageWriteInit settings writeMemory).runSessions [] 0 sessions =
        .ok (write, file, logicalEof) →
      ∃ read, (storageReadInit settings verify readMemory).readFile file logicalEof =
        .ok (sessions.flatten.map StorageWrite.WriteOp.logical, read) := by
  have hclosed := StorageWrite.closed_init settings hwriteMemory
  constructor
  · intro haccepted
    obtain ⟨next, file, logicalEof, _, hrun, _⟩ :=
      StorageWrite.runSessions_spec sessions hclosed hfields haccepted
    exact ⟨_, hrun⟩
  · intro write file logicalEof hrun
    obtain ⟨_, hread⟩ := readFile_sessions_closed settings verify hwriteMemory hreadMemory
      hfields hrun
    obtain ⟨read, hdone, _⟩ := hread (fun start _ => headerFits_of_unpaged hsafe start)
    exact ⟨read, hdone⟩

end StorageRead

namespace RoundTripWitness

open StorageWrite

/-- Stores content of one repeated byte as that byte. -/
def runCompressor : Compressor where
  compress source :=
    if source = replicate source.length (source.headD 0) then source.take 1 else source
  decompress compressed sourceLen := replicate sourceLen (compressed.headD 0)
  compress_ne_nil source hsource := by
    split_ifs
    · simpa using hsource
    · exact hsource
  decompress_compress source hshorter := by
    split_ifs at hshorter ⊢ with hrun
    · cases source with
      | nil => rfl
      | cons first rest => exact hrun.symm
    · exact absurd hshorter (Nat.lt_irrefl _)

def settings : StorageSettings where
  maxBufferLen := 8192
  checksum := true
  compressor := some runCompressor
  overflowSize := 0
  safeFSWriteSize := 0
  eight_dvd := by decide
  le_maxBufferLen := by decide
  maxBufferLen_le := by decide
  overflow_le := by decide
  safeWrite_le := by decide

def long : List Byte := List.replicate 10000 5

theorem length_long : long.length = 10000 := length_replicate

/-- A content that is stored as it is, one of several blocks that are each compressed, and a
compressed dense block. -/
def sessions : List (List WriteOp) :=
  [[.content (some 1) 1 3 [7, 8, 9], .content none 1 1 long],
    [.buffer .bulkDenseContent (some 5) 2 20 [4, 4, 4, 4]]]

theorem readFile_sessions : ∃ write file logicalEof read,
    (storageWriteInit settings (List.replicate 24576 0)).runSessions [] 0 sessions =
        .ok (write, file, logicalEof) ∧
      (storageReadInit settings true (List.replicate 24576 0)).readFile file logicalEof =
        .ok ([⟨1, 1, 3, [7, 8, 9]⟩, ⟨1, -1, 1, long⟩, ⟨2, 5, 20, [4, 4, 4, 4]⟩], read) := by
  have hfields : ∀ ops ∈ sessions, ∀ op ∈ ops, op.InFields settings := by
    simp [sessions, WriteOp.InFields, settings, contentHeaderLen_eq, length_long,
      AoHeaderKind.maxRowCount, AoHeaderKind.isLong]
  have haccepted : ∀ ops ∈ sessions, ∀ op ∈ ops, op.Accepted settings := by
    simp [sessions, WriteOp.Accepted, settings, contentHeaderLen_eq, accepts, AoHeaderKind.isLong]
  have hmemory : (List.replicate 24576 (0 : Byte)).length = 24576 := length_replicate
  obtain ⟨hwrite, hread⟩ := StorageRead.readFile_runSessions settings rfl true hmemory hmemory
    hfields
  obtain ⟨⟨write, file, logicalEof⟩, hrun⟩ := hwrite haccepted
  obtain ⟨read, hdone⟩ := hread write file logicalEof hrun
  exact ⟨write, file, logicalEof, read, hrun, hdone⟩

end RoundTripWitness

end Greenplum.AoStorage
