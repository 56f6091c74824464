/-
Where the reader of segment files finds the next header: it skips a rest of a page
that is too short for a header, and a rest that is filled with zeros.
-/
import Greenplum.AoStorageRead

namespace Greenplum.AoStorage

open ByteMemory List Fallible Nat

section

/-- From a position on a file holds these bytes and no more. -/
structure Ahead (file : List Byte) (fileLen position : Nat) (bytes : List Byte) : Prop where
  file_le : fileLen ≤ file.length
  end_eq : position + bytes.length = fileLen
  holds : readAt file position bytes.length = bytes

variable {file : List Byte} {fileLen position : Nat} {bytes more : List Byte}
  (h : Ahead file fileLen position (bytes ++ more))

include h

theorem Ahead.split :
    (readAt file position bytes.length = bytes ∧ position + bytes.length ≤ fileLen) ∧
      Ahead file fileLen (position + bytes.length) more := by
  have hend := h.end_eq
  have hholds := h.holds
  rw [length_append] at hend hholds
  rw [readAt_append] at hholds
  have hlength : (readAt file position bytes.length).length = bytes.length :=
    length_readAt (le_trans (by omega) h.file_le)
  obtain ⟨hfirst, hrest⟩ := append_inj hholds hlength
  exact ⟨⟨hfirst, by omega⟩, h.file_le, by omega, hrest⟩

theorem Ahead.first :
    readAt file position bytes.length = bytes ∧ position + bytes.length ≤ fileLen :=
  h.split.1

theorem Ahead.rest : Ahead file fileLen (position + bytes.length) more := h.split.2

theorem Ahead.readAt_eq {count : Nat} (hcount : count ≤ bytes.length) :
    readAt file position count = readAt bytes 0 count := by
  have hread := readAt_readAt file position (show 0 + count ≤ bytes.length by omega)
  rw [h.first.1, add_zero] at hread
  exact hread.symm

end

variable (settings : StorageSettings)

/-- A header that starts here is not taken for the padding of a page. -/
def HeaderFits (position : Nat) : Prop :=
  padLen settings position = 0 ∨ settings.regularHeaderLen ≤ padLen settings position

instance (settings : StorageSettings) (position : Nat) : Decidable (HeaderFits settings position) :=
  inferInstanceAs (Decidable (_ ∨ _))

theorem eight_le_regularHeaderLen : 8 ≤ settings.regularHeaderLen := le_add_right 8 _

theorem regularHeaderLen_le : settings.regularHeaderLen ≤ 16 := by
  unfold StorageSettings.regularHeaderLen regularHeaderLenNeeded checksumsLen
  cases settings.checksum <;> decide

/-- The distance to the page boundary gets smaller with every byte. -/
theorem padLen_add {position count : Nat} (hcount : count ≤ padLen settings position) :
    padLen settings (position + count) = padLen settings position - count := by
  by_cases hzero : settings.safeFSWriteSize = 0
  · simp only [padLen, if_pos hzero, Nat.zero_sub]
  · have hpos := pos_of_ne_zero hzero
    have hlt := safeWriteRemainder_lt hpos position
    have hboundary := safeWriteRemainder_boundary hpos position
    have hbehind := safeWriteRemainder_boundary hpos (position + count)
    simp only [padLen, if_neg hzero] at hcount ⊢
    have hdiv : (position + count + settings.safeFSWriteSize - 1) / settings.safeFSWriteSize =
          (position + settings.safeFSWriteSize - 1) / settings.safeFSWriteSize := by
      rw [Nat.div_eq_iff hpos]
      omega
    rw [hdiv] at hbehind
    omega

namespace StorageRead

/-- What holds while a file is open. -/
structure Inv (read : StorageRead) : Prop where
  buffered : read.bufferedRead.Inv
  limit : read.bufferedRead.maxBufferLen = read.settings.maxBufferLen

/-- The same file, read with the same settings. -/
structure Follows (read next : StorageRead) : Prop where
  settings : next.settings = read.settings
  verify : next.verifyBlockChecksums = read.verifyBlockChecksums
  version : next.formatVersion = read.formatVersion
  file : BufferedRead.SameFile read.bufferedRead next.bufferedRead

variable {read next last : StorageRead} {position place : Nat}

theorem Follows.refl (read : StorageRead) : Follows read read :=
  ⟨rfl, rfl, rfl, ⟨rfl, rfl, rfl⟩⟩

theorem Follows.trans (h : Follows read next) (h' : Follows next last) : Follows read last where
  settings := h'.settings.trans h.settings
  verify := h'.verify.trans h.verify
  version := h'.version.trans h.version
  file := ⟨h'.file.file.trans h.file.file, h'.file.fileLen.trans h.file.fileLen,
    h'.file.maxBufferLen.trans h.file.maxBufferLen⟩

/-- Only the buffer below has moved. -/
structure Moves (read next : StorageRead) : Prop extends Follows read next where
  current : next.current = read.current
  headerPositions : next.headerPositions = read.headerPositions

theorem Moves.refl (read : StorageRead) : Moves read read := ⟨.refl read, rfl, rfl⟩

theorem Moves.trans (h : Moves read next) (h' : Moves next last) : Moves read last :=
  ⟨h.toFollows.trans h'.toFollows, h'.current.trans h.current,
    h'.headerPositions.trans h.headerPositions⟩

theorem Moves.buffered {bufferedRead : BufferedRead}
    (hsame : BufferedRead.SameFile read.bufferedRead bufferedRead) :
    Moves read { read with bufferedRead := bufferedRead } :=
  ⟨⟨rfl, rfl, rfl, hsame⟩, rfl, rfl⟩

theorem nextBufferPosition_le (h : read.Inv) :
    read.bufferedRead.nextBufferPosition ≤ read.bufferedRead.fileLen := by
  have hinside := h.buffered.inside
  have hend := h.buffered.end_le
  unfold BufferedRead.nextBufferPosition
  omega

variable (settings : StorageSettings)

/-- How far the reader skips. -/
def skipOf (skipLen : Option Nat) (position : Nat) : Nat :=
  if skipLen.all (padLen settings position < ·) then padLen settings position else 0

theorem doSkipPadding_eq (read : StorageRead) (skipLen : Option Nat) : read.doSkipPadding skipLen =
      if skipOf read.settings skipLen read.bufferedRead.nextBufferPosition = 0 then
        .ok read
      else do
        let (buffer, bufferedRead) ← read.bufferedRead.getNextBuffer
          (skipOf read.settings skipLen read.bufferedRead.nextBufferPosition)
        if buffer.map List.length ≠ some
            (skipOf read.settings skipLen read.bufferedRead.nextBufferPosition) then
          .error .unexpectedEndOfFile
        else return { read with bufferedRead := bufferedRead } := by
  unfold doSkipPadding skipOf padLen
  by_cases hzero : read.settings.safeFSWriteSize = 0
  · simp [hzero]
  · simp only [if_neg hzero]
    generalize safeWriteRemainder read.settings.safeFSWriteSize
      read.bufferedRead.nextBufferPosition = remainder
    by_cases hpos : remainder > 0
    · cases hall : skipLen.all (remainder < ·) with
      | true => simp [hpos, ne_of_gt hpos]
      | false => simp [hpos]
    · have hnone : remainder = 0 := by omega
      simp [hnone]

theorem skipOf_le (skipLen : Option Nat) (position : Nat) :
    skipOf settings skipLen position ≤ settings.maxBufferLen := by
  have hle := settings.safeWrite_le
  unfold skipOf
  split_ifs
  · by_cases hzero : settings.safeFSWriteSize = 0
    · rw [padLen, if_pos hzero]
      exact zero_le _
    · exact le_trans (le_of_lt (padLen_lt hzero position)) hle
  · exact zero_le _

section

variable (h : read.Inv)

include h

/-- The reader skips, unless the file ends before. -/
theorem doSkipPadding_spec (skipLen : Option Nat) {skip : Nat}
    (hposition : read.bufferedRead.nextBufferPosition = position)
    (hskip : skipOf read.settings skipLen position = skip)
    (hend : position + skip ≤ read.bufferedRead.fileLen) :
    ∃ next : StorageRead, read.doSkipPadding skipLen = .ok next ∧ next.Inv ∧
      Moves read next ∧ next.bufferedRead.nextBufferPosition = position + skip := by
  rw [doSkipPadding_eq, hposition, hskip]
  by_cases hzero : skip = 0
  · rw [if_pos hzero, hzero]
    exact ⟨read, rfl, h, .refl read, hposition⟩
  · have hlength : skip ≤ read.bufferedRead.maxBufferLen := by
      rw [h.limit, ← hskip]
      exact skipOf_le _ _ _
    obtain ⟨next, hnext, hsame, hat⟩ := BufferedRead.getNextBuffer_spec h.buffered hlength
      (by omega)
    have hfull : min skip (read.bufferedRead.fileLen -
        read.bufferedRead.nextBufferPosition) = skip := by omega
    rw [hfull, hposition] at hat
    have hbuffer : next.currentBuffer.length = skip := by
      rw [hat.currentBuffer_eq, hsame.file]
      exact length_readAt (le_trans hend h.buffered.file_le)
    refine ⟨{ read with bufferedRead := next }, ?_,
      ⟨hat.inv, hsame.maxBufferLen.trans h.limit⟩, .buffered hsame, hat.nextBufferPosition_eq⟩
    rw [if_neg hzero, hnext]
    simp only [ok_bind, Option.map_some, hbuffer, ne_eq, not_true, if_false]
    rfl

/-- Skipping over the end of the file is an error. -/
theorem doSkipPadding_short (skipLen : Option Nat)
    (hend : read.bufferedRead.fileLen < read.bufferedRead.nextBufferPosition +
      skipOf read.settings skipLen read.bufferedRead.nextBufferPosition) :
    read.doSkipPadding skipLen = .error .unexpectedEndOfFile := by
  have hle := nextBufferPosition_le h
  have hlength : skipOf read.settings skipLen read.bufferedRead.nextBufferPosition ≤
      read.bufferedRead.maxBufferLen := by
    rw [h.limit]
    exact skipOf_le _ _ _
  rw [doSkipPadding_eq]
  generalize skipOf read.settings skipLen read.bufferedRead.nextBufferPosition = skip at *
  rw [if_neg (by omega)]
  by_cases hat : read.bufferedRead.nextBufferPosition = read.bufferedRead.fileLen
  · obtain ⟨next, hnext, _⟩ := BufferedRead.getNextBuffer_end h.buffered hlength hat
    rw [hnext]
    rfl
  · obtain ⟨next, hnext, hsame, hstands⟩ :=
      BufferedRead.getNextBuffer_spec h.buffered hlength (lt_of_le_of_ne hle hat)
    have hbuffer : next.currentBuffer.length ≠ skip := by
      rw [hstands.currentBuffer_eq, hsame.file, readAt, length_take]
      omega
    rw [hnext]
    simp only [ok_bind, Option.map_some, ne_eq, Option.some_inj, hbuffer,
      not_false_eq_true, if_true]

theorem minimumHeaderLen_le : read.minimumHeaderLen ≤ read.bufferedRead.maxBufferLen := by
  have hle := regularHeaderLen_le read.settings
  have hmax := read.settings.le_maxBufferLen
  rw [h.limit, minimumHeaderLen]
  omega

/-- The first bytes at the position of the reader. -/
theorem peekHeader_spec (hposition : read.bufferedRead.nextBufferPosition = position)
    (hend : position + read.minimumHeaderLen ≤ read.bufferedRead.fileLen) :
    ∃ next : StorageRead, read.peekHeader = .ok (some (readAt read.bufferedRead.file position
        read.minimumHeaderLen), next) ∧ Moves read next ∧
      next.bufferedRead.At position read.minimumHeaderLen := by
  have hpos : 8 ≤ read.minimumHeaderLen := eight_le_regularHeaderLen read.settings
  obtain ⟨next, hnext, hsame, hat⟩ := BufferedRead.getNextBuffer_spec h.buffered
    (minimumHeaderLen_le h) (by omega)
  have hfull : min read.minimumHeaderLen (read.bufferedRead.fileLen -
      read.bufferedRead.nextBufferPosition) = read.minimumHeaderLen := by omega
  rw [hfull, hposition] at hat
  have hbuffer := hat.currentBuffer_eq
  rw [hsame.file] at hbuffer
  have hlength : (readAt read.bufferedRead.file position
      read.minimumHeaderLen).length = read.minimumHeaderLen :=
    length_readAt (le_trans hend h.buffered.file_le)
  refine ⟨{ read with bufferedRead := next }, ?_, .buffered hsame, hat⟩
  simp only [peekHeader, hnext, ok_bind, hbuffer, hlength, ne_eq, not_true, if_false]
  rfl

theorem peekHeader_end (hend : read.bufferedRead.nextBufferPosition = read.bufferedRead.fileLen) :
    ∃ next : StorageRead, read.peekHeader = .ok (none, next) ∧ next.Inv ∧ Moves read next := by
  obtain ⟨next, hnext, hsame, hat⟩ := BufferedRead.getNextBuffer_end h.buffered
    (minimumHeaderLen_le h) hend
  refine ⟨{ read with bufferedRead := next }, ?_,
    ⟨hat.inv, hsame.maxBufferLen.trans h.limit⟩, .buffered hsame⟩
  simp only [peekHeader, hnext, ok_bind]
  rfl

theorem peekHeader_short (hsome : read.bufferedRead.nextBufferPosition < read.bufferedRead.fileLen)
    (hend : read.bufferedRead.fileLen <
      read.bufferedRead.nextBufferPosition + read.minimumHeaderLen) :
    read.peekHeader = .error .shortHeader := by
  obtain ⟨next, hnext, hsame, hat⟩ := BufferedRead.getNextBuffer_spec h.buffered
    (minimumHeaderLen_le h) hsome
  have hlength : next.currentBuffer.length ≠ read.minimumHeaderLen := by
    rw [hat.currentBuffer_eq, hsame.file, readAt, length_take]
    omega
  simp [peekHeader, hnext, ok_bind, hlength]

theorem Moves.inv_at {length : Nat} (hmoves : Moves read next)
    (hat : next.bufferedRead.At position length) : next.Inv := by
  refine ⟨hat.inv, ?_⟩
  rw [hmoves.file.maxBufferLen, h.limit, hmoves.settings]

end

theorem Moves.minimumHeaderLen_eq (h : Moves read next) :
    next.minimumHeaderLen = read.minimumHeaderLen := by
  rw [minimumHeaderLen, h.settings, minimumHeaderLen]

/-- A header was found at a position: it is recorded, and its first bytes are in
the buffer. -/
structure Found (read next : StorageRead) (position : Nat) : Prop extends Follows read next where
  current : next.current = read.current
  headerPositions : next.headerPositions = read.headerPositions ++ [position]
  standing : next.bufferedRead.At position read.minimumHeaderLen
  inside : position + read.minimumHeaderLen ≤ read.bufferedRead.fileLen

/-- What is handed on of a header that was found. -/
def foundAt (read : StorageRead) (position : Nat) : Nat × List Byte × Nat :=
  (position, readAt read.bufferedRead.file position read.minimumHeaderLen,
    min read.settings.maxBufferLen (read.bufferedRead.fileLen - position))

theorem foundHeader_spec (hmoves : Moves read next)
    (hat : next.bufferedRead.At position read.minimumHeaderLen)
    (hend : position + read.minimumHeaderLen ≤ read.bufferedRead.fileLen) :
    ∃ found : StorageRead, next.foundHeader position
        (readAt read.bufferedRead.file position read.minimumHeaderLen) =
          (some (read.foundAt position), found) ∧ Found read found position := by
  refine ⟨{ next with headerPositions := next.headerPositions ++ [position] }, ?_,
    { hmoves with }, hmoves.current, ?_, hat, hend⟩
  · simp only [foundHeader, foundAt, hmoves.settings, hmoves.file.fileLen]
  · rw [← hmoves.headerPositions]

theorem Moves.counted (h : Moves read next) (count : Nat) :
    Moves read { next with bufferCount := count } :=
  ⟨{ h with }, h.current, h.headerPositions⟩

/-- Is there a header at a position? -/
def headerAt (fileLen position : Nat) : Except StorageError Bool :=
  if fileLen < position then .error .unexpectedEndOfFile
  else if position = fileLen then .ok false
  else if fileLen < position + settings.regularHeaderLen then .error .shortHeader
  else .ok true

/-- Where the header behind zeros is found. -/
def headerBehind (fileLen behind : Nat) : Except StorageError (Option Nat) := do
  let place := behind + padLen settings behind
  if ← headerAt settings fileLen place then return some place
  else return none

/-- Where the next header is found. -/
def nextHeader (file : List Byte) (fileLen position : Nat) : Except StorageError (Option Nat) := do
  let place := position + skipOf settings (some settings.regularHeaderLen) position
  if ← headerAt settings fileLen place then
    if (readAt file place settings.regularHeaderLen).all (· = 0) then
      headerBehind settings fileLen (place + settings.regularHeaderLen)
    else return some place
  else return none

/-- A search for a header that comes out as it should. -/
def Outcome (read : StorageRead) : Except StorageError (Option Nat) →
    Except StorageError (Option (Nat × List Byte × Nat) × StorageRead) → Prop
  | .error problem, result => result = .error problem
  | .ok none, result => ∃ next : StorageRead, result = .ok (none, next) ∧ next.Inv ∧ Moves read next
  | .ok (some place), result => ∃ next : StorageRead,
      result = .ok (some (read.foundAt place), next) ∧ Found read next place

/-- Skipping to a position and looking for a header there. -/
theorem skip_peek_spec (h : read.Inv) {skipLen : Option Nat}
    (hposition : read.bufferedRead.nextBufferPosition = position)
    (hplace : position + skipOf read.settings skipLen position = place) :
    match headerAt read.settings read.bufferedRead.fileLen place with
    | .error problem => read.doSkipPadding skipLen = .error problem ∨
        ∃ skipped, read.doSkipPadding skipLen = .ok skipped ∧ skipped.peekHeader = .error problem
    | .ok false => ∃ skipped next : StorageRead, read.doSkipPadding skipLen = .ok skipped ∧
        skipped.peekHeader = .ok (none, next) ∧ next.Inv ∧ Moves read next
    | .ok true => ∃ skipped next : StorageRead, read.doSkipPadding skipLen = .ok skipped ∧
        skipped.bufferedRead.nextBufferPosition = place ∧
        skipped.peekHeader = .ok (some (readAt read.bufferedRead.file place
          read.minimumHeaderLen), next) ∧ Moves read next ∧
        next.bufferedRead.At place read.minimumHeaderLen ∧
        place + read.minimumHeaderLen ≤ read.bufferedRead.fileLen := by
  unfold headerAt
  split_ifs with hover hend hshort
  · left
    apply doSkipPadding_short h
    rw [hposition, hplace]
    exact hover
  all_goals
    obtain ⟨skipped, hskipped, hinv, hmoves, hstands⟩ := doSkipPadding_spec h skipLen
      hposition rfl (hplace.symm ▸ Nat.le_of_not_lt hover)
    rw [hplace] at hstands
  · obtain ⟨next, hnext, hnextInv, hmore⟩ := peekHeader_end hinv
      (by rw [hstands, hend, hmoves.file.fileLen])
    exact ⟨skipped, next, hskipped, hnext, hnextInv, hmoves.trans hmore⟩
  · refine .inr ⟨skipped, hskipped, peekHeader_short hinv ?_ ?_⟩
    · rw [hstands, hmoves.file.fileLen]
      omega
    · rw [hstands, hmoves.file.fileLen, minimumHeaderLen, hmoves.settings]
      exact hshort
  · have hroom : place + read.minimumHeaderLen ≤ read.bufferedRead.fileLen :=
      Nat.le_of_not_lt hshort
    obtain ⟨next, hnext, hmore, hat⟩ := peekHeader_spec hinv hstands
      (by rw [hmoves.file.fileLen, hmoves.minimumHeaderLen_eq]; exact hroom)
    rw [hmoves.minimumHeaderLen_eq] at hnext hat
    rw [hmoves.file.file] at hnext
    exact ⟨skipped, next, hskipped, hstands, hnext, hmoves.trans hmore, hat, hroom⟩

/-- Behind zeros the reader goes to the page boundary. -/
theorem positionBehindPadding_spec (h : read.Inv) (hmoves : Moves read next)
    (hat : next.bufferedRead.At place read.minimumHeaderLen) :
    Outcome read (headerBehind read.settings read.bufferedRead.fileLen
      (place + read.settings.regularHeaderLen)) next.positionBehindPadding := by
  have hpeek := skip_peek_spec (hmoves.inv_at h hat) hat.nextBufferPosition_eq
    (rfl : _ + skipOf next.settings none _ = _)
  simp only [skipOf, Option.all_none, if_true, hmoves.settings, minimumHeaderLen,
    hmoves.file.fileLen, hmoves.file.file] at hpeek
  generalize hplace : place + read.settings.regularHeaderLen + padLen read.settings
    (place + read.settings.regularHeaderLen) = second at hpeek
  simp only [headerBehind, hplace]
  cases hheader : headerAt read.settings read.bufferedRead.fileLen second with
  | error problem =>
    rw [hheader] at hpeek
    obtain hskip | ⟨skipped, hskip, hpeek⟩ := hpeek
    · simp only [positionBehindPadding, hskip, bind, Except.bind, Outcome]
    · simp [positionBehindPadding, hskip, hpeek, bind, Except.bind, Outcome]
  | ok found =>
    rw [hheader] at hpeek
    cases found with
    | false =>
      obtain ⟨skipped, last, hskip, hpeek, hinv, hmore⟩ := hpeek
      simp only [positionBehindPadding, hskip, hpeek, ok_bind,
        Bool.false_eq_true, if_false, pure, Except.pure]
      exact ⟨last, rfl, hinv, hmoves.trans hmore⟩
    | true =>
      obtain ⟨skipped, last, hskip, hstands, hpeek, hmore, hlast, hroom⟩ := hpeek
      simp only [positionBehindPadding, hskip, hstands, hpeek, ok_bind, if_true, pure, Except.pure]
      obtain ⟨done, heq, hfound⟩ := foundHeader_spec (hmoves.trans hmore) hlast hroom
      exact ⟨done, congrArg Except.ok heq, hfound⟩

/-- The reader finds the next header where it is to be found. -/
theorem positionToNextBlock_spec (h : read.Inv)
    (hposition : read.bufferedRead.nextBufferPosition = position) :
    Outcome read (nextHeader read.settings read.bufferedRead.file
      read.bufferedRead.fileLen position) read.positionToNextBlock := by
  have hfirst := skip_peek_spec h hposition (rfl :
    position + skipOf read.settings (some read.minimumHeaderLen) position = _)
  generalize hplace : position +
    skipOf read.settings (some read.minimumHeaderLen) position = place at hfirst
  rw [minimumHeaderLen] at hplace
  simp only [nextHeader, hplace]
  cases hheader : headerAt read.settings read.bufferedRead.fileLen place with
  | error problem =>
    rw [hheader] at hfirst
    obtain hskip | ⟨skipped, hskip, hpeek⟩ := hfirst
    · simp only [positionToNextBlock, hskip, bind, Except.bind, Outcome]
    · simp [positionToNextBlock, hskip, hpeek, bind, Except.bind, Outcome]
  | ok found =>
    rw [hheader] at hfirst
    cases found with
    | false =>
      obtain ⟨skipped, next, hskip, hpeek, hinv, hmoves⟩ := hfirst
      simp only [positionToNextBlock, hskip, hpeek, ok_bind,
        Bool.false_eq_true, if_false, pure, Except.pure]
      exact ⟨next, rfl, hinv, hmoves⟩
    | true =>
      obtain ⟨skipped, next, hskip, hstands, hpeek, hmoves, hat, hroom⟩ := hfirst
      simp only [positionToNextBlock, hskip, hstands, hpeek, ok_bind, if_true, pure, Except.pure]
      by_cases hzero : (readAt read.bufferedRead.file place
          read.settings.regularHeaderLen).all (· = 0)
      · rw [minimumHeaderLen, if_pos hzero, if_pos hzero]
        exact positionBehindPadding_spec h (hmoves.counted _) hat
      · rw [minimumHeaderLen, if_neg hzero, if_neg hzero]
        obtain ⟨done, heq, hfound⟩ := foundHeader_spec
          (hmoves.counted (next.bufferCount + 1)) hat hroom
        exact ⟨done, congrArg Except.ok heq, hfound⟩

section

variable {settings : StorageSettings} {file : List Byte} {fileLen position : Nat}
  {block : Block} {rest : List Byte}

/-- A remainder that is too short for a header is skipped. -/
theorem headerFits_skipOf (settings : StorageSettings) (position : Nat) :
    HeaderFits settings (position + skipOf settings (some settings.regularHeaderLen) position) := by
  unfold HeaderFits skipOf
  rw [Option.all_some]
  by_cases hshort : padLen settings position < settings.regularHeaderLen
  · rw [if_pos (decide_eq_true hshort)]
    exact .inl (padLen_boundary position)
  · rw [if_neg (by simp [hshort]), add_zero]
    exact .inr (Nat.le_of_not_lt hshort)

theorem skipOf_eq_zero (h : HeaderFits settings position) :
    skipOf settings (some settings.regularHeaderLen) position = 0 := by
  unfold skipOf
  obtain hzero | hlong := h
  · rw [hzero, ite_self]
  · rw [if_neg (by simp [hlong])]

theorem nextHeader_fits (h : nextHeader settings file fileLen position = .ok (some place)) :
    HeaderFits settings place := by
  have hfits := headerFits_skipOf settings position
  simp only [nextHeader, headerBehind, bind, Except.bind, pure, Except.pure] at h
  generalize position + skipOf settings (some settings.regularHeaderLen) position =
    first at h hfits
  have hsecond : padLen settings (first + settings.regularHeaderLen +
      padLen settings (first + settings.regularHeaderLen)) = 0 := padLen_boundary _
  generalize first + settings.regularHeaderLen +
    padLen settings (first + settings.regularHeaderLen) = second at h hsecond
  cases hheader : headerAt settings fileLen first with
  | error problem =>
    rw [hheader] at h
    exact absurd h nofun
  | ok found =>
    rw [hheader] at h
    dsimp only at h
    split_ifs at h with hfound hzero
    · cases hagain : headerAt settings fileLen second with
      | error problem =>
        rw [hagain] at h
        exact absurd h nofun
      | ok again =>
        rw [hagain] at h
        dsimp only at h
        split_ifs at h with htrue
        · cases h
          exact .inl hsecond
        · cases h
    · cases h
      exact hfits
    · cases h

theorem headerAt_end : headerAt settings fileLen fileLen = .ok false := by
  rw [headerAt, if_neg (lt_irrefl _), if_pos rfl]

section

variable (hahead : Ahead file fileLen position (settings.blockImage block ++ rest))

include hahead

theorem headerAt_block : headerAt settings fileLen position = .ok true := by
  have hend := hahead.first.2
  have hlen := block.length_image settings.checksum .latest
  have hheader := block.regularHeaderLenNeeded_le settings.checksum
  have hpos := eight_le_regularHeaderLen settings
  unfold StorageSettings.blockImage at hend
  unfold StorageSettings.regularHeaderLen at hpos
  unfold headerAt StorageSettings.regularHeaderLen
  rw [if_neg (by omega), if_neg (by omega), if_neg (by omega)]

theorem not_zero_block : (readAt file position settings.regularHeaderLen).all (· = 0) = false := by
  have hlen := block.length_image settings.checksum .latest
  have hheader := block.regularHeaderLenNeeded_le settings.checksum
  have hcount : settings.regularHeaderLen ≤ (settings.blockImage block).length := by
    unfold StorageSettings.blockImage StorageSettings.regularHeaderLen
    omega
  have hpos := eight_le_regularHeaderLen settings
  rw [hahead.readAt_eq hcount]
  exact block.all_zero_image settings.checksum .latest (by omega)

theorem nextHeader_here (hfits : HeaderFits settings position) :
    nextHeader settings file fileLen position = .ok (some position) := by
  simp only [nextHeader, skipOf_eq_zero hfits, add_zero, headerAt_block hahead,
    not_zero_block hahead, ok_bind, if_true, Bool.false_eq_true, if_false]
  rfl

end

/-- A short rest of a page makes no difference. -/
theorem nextHeader_short (hshort : padLen settings position < settings.regularHeaderLen) :
    nextHeader settings file fileLen position =
      nextHeader settings file fileLen (position + padLen settings position) := by
  have hskip : skipOf settings (some settings.regularHeaderLen) position =
      padLen settings position := by
    rw [skipOf, Option.all_some, if_pos (decide_eq_true hshort)]
  have hnone : skipOf settings (some settings.regularHeaderLen)
      (position + padLen settings position) = 0 :=
    skipOf_eq_zero (.inl (padLen_boundary position))
  simp [nextHeader, hskip, hnone]

/-- A rest of a page that has room for a header is recognised by its zeros. -/
theorem nextHeader_long (hlong : settings.regularHeaderLen ≤ padLen settings position)
    (hahead : Ahead file fileLen position (List.replicate (padLen settings position) 0 ++ rest)) :
    nextHeader settings file fileLen position =
      headerBehind settings fileLen (position + padLen settings position) := by
  have hpos := eight_le_regularHeaderLen settings
  have hroom := hahead.first.2
  rw [length_replicate] at hroom
  have hheader : headerAt settings fileLen position = .ok true := by
    rw [headerAt, if_neg (by omega), if_neg (by omega), if_neg (by omega)]
  have hzero : (readAt file position settings.regularHeaderLen).all (· = 0) = true := by
    rw [hahead.readAt_eq (by rw [length_replicate]; exact hlong), readAt,
      drop_zero, take_replicate, all_replicate]
    simp
  have hbehind : position + settings.regularHeaderLen +
      padLen settings (position + settings.regularHeaderLen) =
        position + padLen settings position := by
    rw [padLen_add settings hlong]
    omega
  simp only [nextHeader, skipOf_eq_zero (.inr hlong), add_zero, hheader, hzero, bind,
    Except.bind, if_true, headerBehind, hbehind, padLen_boundary]

/-- Padding leads to the next header behind it. -/
theorem nextHeader_padding
    (hahead : Ahead file fileLen position (List.replicate (padLen settings position) 0 ++
      (settings.blockImage block ++ rest))) :
    nextHeader settings file fileLen position =
      .ok (some (position + padLen settings position)) := by
  have hblock := hahead.rest
  rw [length_replicate] at hblock
  by_cases hlong : settings.regularHeaderLen ≤ padLen settings position
  · simp only [nextHeader_long hlong hahead, headerBehind, padLen_boundary, add_zero,
      headerAt_block hblock, ok_bind, if_true]
    rfl
  · rw [nextHeader_short (Nat.lt_of_not_le hlong)]
    exact nextHeader_here hblock (.inl (padLen_boundary position))

/-- The padding at the end of a file leads to the end. -/
theorem nextHeader_end
    (hahead : Ahead file fileLen position (List.replicate (padLen settings position) 0)) :
    nextHeader settings file fileLen position = .ok none := by
  have hend := hahead.end_eq
  rw [length_replicate] at hend
  have hboundary : padLen settings fileLen = 0 := by
    rw [← hend]
    exact padLen_boundary position
  by_cases hlong : settings.regularHeaderLen ≤ padLen settings position
  · rw [← append_nil (List.replicate _ 0)] at hahead
    simp only [nextHeader_long hlong hahead, headerBehind, hend, hboundary, add_zero,
      headerAt_end, ok_bind, Bool.false_eq_true, if_false]
    rfl
  · rw [nextHeader_short (Nat.lt_of_not_le hlong), hend]
    simp only [nextHeader, skipOf_eq_zero (.inl hboundary), add_zero, headerAt_end, bind,
      Except.bind, Bool.false_eq_true, if_false]
    rfl

/-- The blocks of a placed logical block are found. -/
theorem nextHeader_placed {placed : Placed}
    (hahead : Ahead file fileLen position (List.replicate (placed.skip settings position) 0 ++
      (settings.blockImage block ++ rest)))
    (hfits : HeaderFits settings (position + placed.skip settings position)) :
    nextHeader settings file fileLen position =
      .ok (some (position + placed.skip settings position)) := by
  cases hclosed : placed.afterClose with
  | true =>
    have hskip : placed.skip settings position = padLen settings position := if_pos hclosed
    rw [hskip] at hahead ⊢
    exact nextHeader_padding hahead
  | false =>
    have hskip : placed.skip settings position = 0 := by
      rw [Placed.skip, hclosed, if_neg Bool.false_ne_true]
    rw [hskip, add_zero] at hfits ⊢
    rw [hskip, replicate_zero, nil_append] at hahead
    exact nextHeader_here hahead hfits

end

end StorageRead

end Greenplum.AoStorage
