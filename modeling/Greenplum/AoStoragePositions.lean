/-
The positions at which the reader of segment files looks for headers.  Whatever a
file holds, the reader never looks for a header where one would reach over a page
boundary; the writer has no such rule.
-/
import Greenplum.AoStorageRoundTrip

namespace Greenplum.AoStorage

open Fallible

namespace StorageRead

variable {read next last : StorageRead} {header bytes : List Byte} {checksum : Bool}
  {kind : AoHeaderKind} {headerLen limit position oldLen : Nat}
  {version : AORelationVersion} {info : HeaderInfo}

/-- From one state to another the reader has found headers only where they fit. -/
structure Records (read next : StorageRead) : Prop extends Follows read next where
  inv : next.Inv
  fits : ∀ position ∈ next.headerPositions,
    position ∈ read.headerPositions ∨ HeaderFits read.settings position

theorem Records.trans (h : Records read next) (h' : Records next last) : Records read last where
  toFollows := h.toFollows.trans h'.toFollows
  inv := h'.inv
  fits := by
    intro position hmem
    obtain hnext | hfits := h'.fits position hmem
    · exact h.fits position hnext
    · exact .inr (h.settings ▸ hfits)

theorem Moves.records (h : Moves read next) (hinv : next.Inv) : Records read next where
  toFollows := h.toFollows
  inv := hinv
  fits := by
    intro position hmem
    rw [h.headerPositions] at hmem
    exact .inl hmem

/-- The lengths that the reader goes by are those it has checked. -/
structure OnBlock (read : StorageRead) (current : ReadCurrent) : Prop where
  standing : ∃ position length, 0 < length ∧ read.bufferedRead.At position length
  large : current.isLarge = true ↔ current.headerKind = .largeContent
  overall_le : current.headerKind ≠ .largeContent →
    current.info.overallBlockLen ≤ read.settings.maxBufferLen

theorem getHeaderInfo_le (h : getHeaderInfo header checksum = .ok (kind, headerLen)) :
    headerLen ≤ 32 := by
  have hchecksums : checksumsLen checksum ≤ 8 := by cases checksum <;> decide
  simp only [getHeaderInfo] at h
  have hrow : (if getHasFirstRowNum (wordAt header 0) then 8 else 0) ≤ 8 := by
    split_ifs <;> decide
  generalize (if getHasFirstRowNum (wordAt header 0) then 8 else 0) = rowNumLen at h hrow
  split_ifs at h
  split at h
  all_goals cases h
  all_goals
    simp only [regularSize, longSize]
    omega

theorem getContentHeaderInfo_le {offset rowCount uncompressedLen compressedLen : Nat}
    (h : getContentHeaderInfo version header headerLen limit offset rowCount
      uncompressedLen compressedLen = .ok info) : info.overallBlockLen ≤ limit := by
  simp only [getContentHeaderInfo] at h
  generalize (if compressedLen = 0 then uncompressedLen else compressedLen) = length at h
  split_ifs at h with _ _ hover
  cases h
  exact Nat.le_of_not_lt hover

theorem getHeaderInfoOfKind_le (hkind : kind ≠ .largeContent)
    (h : getHeaderInfoOfKind checksum version header headerLen limit kind = .ok info) :
    info.overallBlockLen ≤ limit := by
  cases kind with
  | smallContent => exact getContentHeaderInfo_le h
  | largeContent => exact absurd rfl hkind
  | nonBulkDenseContent => exact getContentHeaderInfo_le h
  | bulkDenseContent => exact getContentHeaderInfo_le h

theorem Follows.of_current {current : Option ReadCurrent}
    (h : Follows { read with current := current } next) : Follows read next :=
  { h with }

section

variable (h : read.Inv)

include h

/-- Growing the current buffer to a checked length. -/
theorem growBuffer_records {length : Nat} (hat : read.bufferedRead.At position oldLen)
    (hlength : length ≤ read.settings.maxBufferLen) {bufferedRead : BufferedRead}
    (hgrow : read.bufferedRead.growBuffer length = .ok (bytes, bufferedRead)) :
    BufferedRead.SameFile read.bufferedRead bufferedRead ∧
      bufferedRead.At position (min length (read.bufferedRead.fileLen - position)) := by
  obtain ⟨next, hnext, hsame, hstands⟩ := BufferedRead.growBuffer_spec hat (h.limit.symm ▸ hlength)
  rw [hnext] at hgrow
  cases hgrow
  exact ⟨hsame, hstands⟩

theorem positionToNextBlock_records (current : Option ReadCurrent)
    {found : Option (Nat × List Byte × Nat)}
    (hrun : positionToNextBlock { read with current := current } = .ok (found, next)) :
    Records read next ∧ next.current = current ∧
      ∀ place header limit, found = some (place, header, limit) →
        next.bufferedRead.At place read.minimumHeaderLen ∧ limit ≤ read.settings.maxBufferLen := by
  have hstart : Inv { read with current := current } := ⟨h.buffered, h.limit⟩
  have houtcome := positionToNextBlock_spec hstart rfl
  rw [hrun] at houtcome
  cases hnext : nextHeader read.settings read.bufferedRead.file read.bufferedRead.fileLen
      read.bufferedRead.nextBufferPosition with
  | error problem =>
    rw [hnext] at houtcome
    exact absurd houtcome nofun
  | ok search =>
    rw [hnext] at houtcome
    cases search with
    | none =>
      obtain ⟨_, heq, hinv, hmoves⟩ := houtcome
      cases heq
      exact ⟨⟨hmoves.toFollows.of_current, hinv, (hmoves.records hinv).fits⟩, hmoves.current, nofun⟩
    | some place =>
      obtain ⟨_, heq, hfound⟩ := houtcome
      cases heq
      refine ⟨⟨hfound.toFollows.of_current, ⟨hfound.standing.inv, ?_⟩, ?_⟩, hfound.current, ?_⟩
      · rw [hfound.file.maxBufferLen, hfound.settings]
        exact h.limit
      · intro position hmem
        rw [hfound.headerPositions] at hmem
        obtain hold | hnew := List.mem_append.mp hmem
        · exact .inl hold
        · rw [List.mem_singleton.mp hnew]
          exact .inr (nextHeader_fits hnext)
      · intro place header limit heq
        cases heq
        exact ⟨hfound.standing, Nat.min_le_left _ _⟩

theorem growHeader_records (hat : read.bufferedRead.At position oldLen) (hold : 0 < oldLen)
    (hlength : headerLen ≤ 32) (hrun : read.growHeader header headerLen = .ok (bytes, next)) :
    Moves read next ∧ next.Inv ∧ ∃ length, 0 < length ∧ next.bufferedRead.At position length := by
  have hmax := read.settings.le_maxBufferLen
  unfold growHeader at hrun
  split_ifs at hrun with hgrow
  · obtain ⟨⟨buffer, bufferedRead⟩, hbuffer, hrest⟩ := bind_eq_ok.mp hrun
    obtain ⟨hsame, hstands⟩ := growBuffer_records h hat (by omega) hbuffer
    obtain ⟨_, hdone⟩ := ite_error_eq_ok.mp hrest
    cases hdone
    have hend := hat.end_le
    exact ⟨.buffered hsame, ⟨hstands.inv, hsame.maxBufferLen.trans h.limit⟩, _, by omega, hstands⟩
  · cases hrun
    exact ⟨.refl read, h, oldLen, hold, hat⟩

theorem readNextBlock_records (hrun : read.readNextBlock = .ok next) :
    Records read next ∧ ∀ current, next.current = some current → OnBlock next current := by
  obtain ⟨⟨found, positioned⟩, hpositioned, hrest⟩ := bind_eq_ok.mp hrun
  obtain ⟨hrecords, hcurrent, hfound⟩ := positionToNextBlock_records h none hpositioned
  cases found with
  | none =>
    cases hrest
    refine ⟨hrecords, ?_⟩
    intro current hsome
    rw [hcurrent] at hsome
    exact absurd hsome nofun
  | some search =>
    obtain ⟨place, header, limit⟩ := search
    obtain ⟨hat, hlimit⟩ := hfound place header limit rfl
    obtain ⟨_, hrest⟩ := ite_error_eq_ok.mp hrest
    obtain ⟨⟨kind, headerLen⟩, hbasic, hrest⟩ := bind_eq_ok.mp hrest
    obtain ⟨⟨bytes, grown⟩, hgrow, hrest⟩ := bind_eq_ok.mp hrest
    obtain ⟨info, hinfo, hdone⟩ := bind_eq_ok.mp hrest
    have hpos : 8 ≤ read.minimumHeaderLen := eight_le_regularHeaderLen read.settings
    obtain ⟨hmoves, hinv, length, hlength, hstands⟩ := growHeader_records hrecords.inv hat
      (by omega) (getHeaderInfo_le hbasic) hgrow
    have hall := hrecords.trans (hmoves.records hinv)
    cases hdone
    refine ⟨⟨{ hall with }, ⟨hinv.buffered, hinv.limit⟩, hall.fits⟩, ?_⟩
    intro current hsome
    cases hsome
    refine ⟨⟨place, length, hlength, hstands⟩, decide_eq_true_iff, ?_⟩
    intro hkind
    have hle := getHeaderInfoOfKind_le hkind hinfo
    rw [hall.settings]
    exact Nat.le_trans hle hlimit

theorem regularContent_records {current : ReadCurrent} (hblock : OnBlock read current)
    (hkind : current.headerKind ≠ .largeContent)
    (hrun : read.regularContent current = .ok (bytes, next)) : Records read next := by
  obtain ⟨position, length, hlength, hat⟩ := hblock.standing
  obtain ⟨⟨header, grown⟩, hbuffer, hrest⟩ := bind_eq_ok.mp hrun
  have hnext : next = grown := by
    split_ifs at hrest
    · cases hrest
      rfl
    · cases hcompressor : read.settings.compressor with
      | none =>
        rw [hcompressor] at hrest
        exact absurd hrest nofun
      | some compressor =>
        rw [hcompressor] at hrest
        obtain ⟨_, hdone⟩ := ite_error_eq_ok.mp hrest
        cases hdone
        rfl
  obtain ⟨⟨buffer, bufferedRead⟩, hgrow, hrest⟩ := bind_eq_ok.mp hbuffer
  obtain ⟨_, hrest⟩ := ite_error_eq_ok.mp hrest
  obtain ⟨_, hdone⟩ := ite_error_eq_ok.mp hrest
  obtain ⟨hsame, hstands⟩ := growBuffer_records h hat (hblock.overall_le hkind) hgrow
  cases hdone
  rw [hnext]
  exact Moves.records (.buffered hsame) ⟨hstands.inv, hsame.maxBufferLen.trans h.limit⟩

end

theorem largeContent_records (fuel : Nat) : ∀ {remaining : Nat} {read next : StorageRead}
    {bytes : List Byte}, read.Inv → largeContent fuel remaining read = .ok (bytes, next) →
    Records read next := by
  induction fuel with
  | zero =>
    intro remaining read next bytes _ hrun
    exact absurd hrun nofun
  | succ fuel ih =>
    intro remaining read next bytes h hrun
    obtain ⟨positioned, hpositioned, hrest⟩ := bind_eq_ok.mp hrun
    obtain ⟨hrecords, hblock⟩ := readNextBlock_records h hpositioned
    cases hcurrent : positioned.current with
    | none =>
      rw [hcurrent] at hrest
      exact absurd hrest nofun
    | some current =>
      rw [hcurrent] at hrest
      obtain ⟨hkind, hrest⟩ := ite_error_eq_ok.mp hrest
      obtain ⟨_, hrest⟩ := ite_error_eq_ok.mp hrest
      obtain ⟨⟨part, done⟩, hdone, hrest⟩ := bind_eq_ok.mp hrest
      have hsmall : current.headerKind ≠ .largeContent := by
        rw [not_not.mp hkind]
        decide
      have hmore := hrecords.trans (regularContent_records hrecords.inv
        (hblock current hcurrent) hsmall hdone)
      split_ifs at hrest
      · cases hrest
        exact hmore
      · obtain ⟨⟨others, last⟩, hlast, hrest⟩ := bind_eq_ok.mp hrest
        cases hrest
        exact hmore.trans (ih hmore.inv hlast)

theorem readBlocks_records (fuel : Nat) : ∀ {read next : StorageRead}
    {logicals : List LogicalBlock}, read.Inv → readBlocks fuel read = .ok (logicals, next) →
    Records read next := by
  induction fuel with
  | zero =>
    intro read next logicals _ hrun
    exact absurd hrun nofun
  | succ fuel ih =>
    intro read next logicals h hrun
    obtain ⟨positioned, hpositioned, hrest⟩ := bind_eq_ok.mp hrun
    obtain ⟨hrecords, hblock⟩ := readNextBlock_records h hpositioned
    cases hcurrent : positioned.current with
    | none =>
      rw [hcurrent] at hrest
      cases hrest
      exact hrecords
    | some current =>
      rw [hcurrent] at hrest
      obtain ⟨⟨bytes, done⟩, hcontent, hrest⟩ := bind_eq_ok.mp hrest
      obtain ⟨⟨others, last⟩, hlast, hrest⟩ := bind_eq_ok.mp hrest
      have hon := hblock current hcurrent
      have hmore : Records positioned done := by
        unfold content at hcontent
        split_ifs at hcontent with hlarge
        · exact largeContent_records _ hrecords.inv hcontent
        · exact regularContent_records hrecords.inv hon
            (fun hkind => hlarge (hon.large.mpr hkind)) hcontent
      cases hrest
      exact hrecords.trans (hmore.trans (ih hmore.inv hlast))

/-- Whatever the file, headers are looked for only where they fit. -/
theorem readFile_fits (settings : StorageSettings) (verify : Bool) {memory : List Byte}
    (hmemory : memory.length = bufferedReadMemoryLen settings.maxBufferLen
      (2 * settings.maxBufferLen)) {file : List Byte} {logicalEof : Nat}
    (hfile : logicalEof ≤ file.length) {logicals : List LogicalBlock}
    (hrun : (storageReadInit settings verify memory).readFile file logicalEof =
      .ok (logicals, next)) : ∀ position ∈ next.headerPositions, HeaderFits settings position := by
  obtain ⟨opened, hopen, hopened, _, hnone⟩ :=
    tryOpenFile_spec settings verify hmemory hfile
  simp only [readFile, hopen, ok_bind] at hrun
  have hrecords := readBlocks_records _ hopened.toInv hrun
  intro position hmem
  obtain hold | hfits := hrecords.fits position hmem
  · rw [hnone] at hold
    exact absurd hold List.not_mem_nil
  · exact hopened.settings_eq ▸ hfits

/-- The reader looks for headers at exactly the positions where the writer has
placed them if and only if no header starts so short before a page boundary that
it reaches over it. -/
theorem readFile_positions_iff (settings : StorageSettings) (verify : Bool)
    {writeMemory readMemory : List Byte}
    (hwriteMemory : writeMemory.length = bufferedAppendMemoryLen
      settings.maxBufferWithCompressionOverrunLen settings.largeWriteLen)
    (hreadMemory : readMemory.length = bufferedReadMemoryLen settings.maxBufferLen
      (2 * settings.maxBufferLen)) {sessions : List (List StorageWrite.WriteOp)}
    (hfields : ∀ ops ∈ sessions, ∀ op ∈ ops, op.InFields settings)
    {write : StorageWrite} {file : List Byte} {logicalEof : Nat}
    (hrun : (storageWriteInit settings writeMemory).runSessions [] 0 sessions =
      .ok (write, file, logicalEof)) :
    ((storageReadInit settings verify readMemory).readFile file logicalEof).map
        (fun result => result.2.headerPositions) = .ok write.headerPositions ↔
      ∀ position ∈ write.headerPositions, HeaderFits settings position := by
  obtain ⟨hle, hread⟩ := readFile_sessions_closed settings verify hwriteMemory hreadMemory
    hfields hrun
  constructor
  · intro hsame
    obtain ⟨⟨logicals, next⟩, hresult, hpositions⟩ := map_eq_ok.mp hsame
    rw [← hpositions]
    exact readFile_fits settings verify hreadMemory hle hresult
  · intro hfits
    obtain ⟨read, hdone, hpositions⟩ := hread hfits
    rw [hdone, ← hpositions]
    rfl

end StorageRead

namespace PositionsWitness

open StorageWrite

/-- Checksums and pages of 64 bytes. -/
def settings : StorageSettings :=
  { RoundTripWitness.settings with
    compressor := none
    safeFSWriteSize := 64
    safeWrite_le := RoundTripWitness.settings.le_maxBufferLen }

/-- The header has 16 bytes, the first block has 56. -/
def crossing : List (List WriteOp) :=
  [[.content none 1 1 (List.replicate 40 7), .content none 1 1 [5]]]

theorem crossing_fields : ∀ ops ∈ crossing, ∀ op ∈ ops, op.InFields settings := by
  simp [crossing, WriteOp.InFields, settings, RoundTripWitness.settings, contentHeaderLen_eq,
    AoHeaderKind.isLong]

theorem crossing_positions :
    ((storageWriteInit settings (List.replicate 24576 0)).runSessions [] 0 crossing).map
      (fun result => result.1.headerPositions) = .ok [0, 56] := by
  rfl

/-- The second header starts eight bytes before a page boundary.  The reader takes
these bytes for padding. -/
theorem readFile_crossing : ∃ write file logicalEof,
    (storageWriteInit settings (List.replicate 24576 0)).runSessions [] 0 crossing =
        .ok (write, file, logicalEof) ∧ write.headerPositions = [0, 56] ∧
      ∀ verify, ((storageReadInit settings verify
        (List.replicate 24576 0)).readFile file logicalEof).map
          (fun result => result.2.headerPositions) ≠ .ok [0, 56] := by
  have hmemory : (List.replicate 24576 (0 : Byte)).length = 24576 := List.length_replicate
  obtain ⟨⟨write, file, logicalEof⟩, hrun, hpositions⟩ := map_eq_ok.mp crossing_positions
  refine ⟨write, file, logicalEof, hrun, hpositions, ?_⟩
  intro verify hsame
  obtain ⟨hle, _⟩ := StorageRead.readFile_sessions_closed settings verify hmemory hmemory
    crossing_fields hrun
  obtain ⟨found, hread, hfound⟩ := map_eq_ok.mp hsame
  have hfits := StorageRead.readFile_fits settings verify hmemory hle hread 56
  have hmem : 56 ∈ found.2.headerPositions := by
    rw [hfound]
    decide
  exact absurd (hfits hmem) (by decide)

def compressed : StorageSettings :=
  { settings with compressor := some RoundTripWitness.runCompressor }

/-- The first block is compressed to one byte and padded to a page when its session ends. -/
def padded : List (List WriteOp) :=
  [[.content none 1 1 (List.replicate 24 7)], [.content none 1 1 [5]]]

theorem readFile_padded : ∃ write file logicalEof,
    (storageWriteInit compressed (List.replicate 24576 0)).runSessions [] 0 padded =
        .ok (write, file, logicalEof) ∧
      ((storageReadInit compressed true (List.replicate 24576 0)).readFile file logicalEof).map
        (fun result => result.2.headerPositions) = .ok [0, 64] := by
  have hmemory : (List.replicate 24576 (0 : Byte)).length = 24576 := List.length_replicate
  have hfields : ∀ ops ∈ padded, ∀ op ∈ ops, op.InFields compressed := by
    simp [padded, WriteOp.InFields, compressed, settings, RoundTripWitness.settings,
      contentHeaderLen_eq, AoHeaderKind.isLong]
  have hpositions : ((storageWriteInit compressed (List.replicate 24576 0)).runSessions [] 0
      padded).map (fun result => result.1.headerPositions) = .ok [0, 64] := rfl
  obtain ⟨⟨write, file, logicalEof⟩, hrun, hwritten⟩ := map_eq_ok.mp hpositions
  refine ⟨write, file, logicalEof, hrun, ?_⟩
  rw [StorageRead.readFile_positions_iff compressed true hmemory hmemory hfields hrun |>.mpr]
  · exact congrArg Except.ok hwritten
  · rw [hwritten]
    decide

end PositionsWitness

end Greenplum.AoStorage
