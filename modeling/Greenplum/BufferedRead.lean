/-
The buffer in front of a segment file that is read, `cdbbufferedread.c`: the
blocks are handed out from large reads, and the beginning of a block that
crosses the end of a large read is kept in the memory before the next one.
Without a temporary range each call gives the next stretch of the file.
-/
import Greenplum.BufferedAppend

namespace Greenplum.AoStorage

open ByteMemory

/-- The state of `BufferedRead`.  The memory before a large read comes first, the
memory for large reads after it; `bufferOffset` counts from the large read and
is negative for a buffer that begins before it. -/
structure BufferedRead where
  maxBufferLen : Nat
  maxLargeReadLen : Nat
  memory : List Byte
  largeReadPosition : Nat
  largeReadLen : Nat
  bufferOffset : Int
  bufferLen : Nat
  file : List Byte
  fileLen : Nat
  haveTemporaryLimitInEffect : Bool
  temporaryLimitFileLen : Nat

def bufferedReadMemoryLen (maxBufferLen maxLargeReadLen : Nat) : Nat :=
  maxBufferLen + maxLargeReadLen

def bufferedReadInit (memory : List Byte) (maxBufferLen maxLargeReadLen : Nat) : BufferedRead where
  maxBufferLen := maxBufferLen
  maxLargeReadLen := maxLargeReadLen
  memory := memory
  largeReadPosition := 0
  largeReadLen := 0
  bufferOffset := 0
  bufferLen := 0
  file := []
  fileLen := 0
  haveTemporaryLimitInEffect := false
  temporaryLimitFileLen := 0

namespace BufferedRead

variable (read : BufferedRead)

/-- Perform a large read. -/
def readIo : Except StorageError BufferedRead :=
  if read.file.length < read.largeReadPosition + read.largeReadLen then
    .error .readBeyondEof
  else
    .ok { read with
      memory := writeAt read.memory read.maxBufferLen
        (readAt read.file read.largeReadPosition read.largeReadLen) }

def setFile (file : List Byte) (fileLen : Nat) : Except StorageError BufferedRead :=
  let opened := { read with
    file := file
    fileLen := fileLen
    haveTemporaryLimitInEffect := false
    temporaryLimitFileLen := 0 }
  if fileLen > 0 then
    readIo { opened with largeReadLen := min fileLen read.maxLargeReadLen }
  else .ok opened

def inEffectFileLen : Nat :=
  if read.haveTemporaryLimitInEffect then read.temporaryLimitFileLen
  else read.fileLen

def currentPosition : Nat :=
  (read.largeReadPosition + read.bufferOffset).toNat

def nextBufferPosition : Nat :=
  (read.largeReadPosition + read.bufferOffset + read.bufferLen).toNat

/-- The bytes of the current buffer. -/
def currentBuffer : List Byte :=
  readAt read.memory (read.maxBufferLen + read.bufferOffset).toNat read.bufferLen

/-- Move the rest of the current large read into the memory before it and
perform the next one.  A negative length fails an assertion. -/
def useBeforeBuffer (maxReadAheadLen : Nat) : Except StorageError BufferedRead :=
  let nextPosition := read.largeReadPosition + read.largeReadLen
  if nextPosition = read.inEffectFileLen then
    .ok { read with bufferLen := (read.largeReadLen - read.bufferOffset).toNat }
  else if read.inEffectFileLen < nextPosition then .error .negativeReadLen
  else
    let nextReadLen := min (read.inEffectFileLen - nextPosition) read.maxLargeReadLen
    let beforeLen := (read.maxLargeReadLen - read.bufferOffset).toNat
    let beforeOffset := read.maxBufferLen - beforeLen
    if read.maxBufferLen < beforeLen then .error .beforeBufferOverrun else
    let memory := writeAt read.memory beforeOffset
      (readAt read.memory (read.maxBufferLen + read.bufferOffset).toNat beforeLen)
    if nextReadLen = 0 then .error .nothingToRead
    else do
      let next ← readIo { read with
        memory := memory
        largeReadPosition := nextPosition
        largeReadLen := nextReadLen }
      let extraLen : Int := min (maxReadAheadLen - beforeLen) nextReadLen
      return { next with
        bufferOffset := -beforeLen
        bufferLen := (beforeLen + extraLen).toNat }

/-- Finish the previous buffer and get the next one; there is none at the end of
the file. -/
def getNextBuffer (maxReadAheadLen : Nat) :
    Except StorageError (Option (List Byte) × BufferedRead) :=
  if maxReadAheadLen > read.maxBufferLen then .error .readAheadTooLarge
  else
    let bufferOffset := read.bufferOffset + read.bufferLen
    let finished := { read with bufferOffset := bufferOffset, bufferLen := 0 }
    if read.largeReadPosition = read.inEffectFileLen then
      .ok (none, { finished with haveTemporaryLimitInEffect := false })
    else if bufferOffset = read.largeReadLen then
      -- All of the current large read is used.
      let largeReadPosition := read.largeReadPosition + read.largeReadLen
      if read.inEffectFileLen < largeReadPosition then .error .negativeReadLen else
      let largeReadLen := min (read.inEffectFileLen - largeReadPosition) read.maxLargeReadLen
      let finished := { finished with
        largeReadPosition := largeReadPosition
        largeReadLen := largeReadLen
        bufferOffset := 0 }
      if largeReadLen = 0 then
        .ok (none, { finished with haveTemporaryLimitInEffect := false })
      else do
        let next ← finished.readIo
        let next := { next with bufferLen := min maxReadAheadLen largeReadLen }
        return (some next.currentBuffer, next)
    else if bufferOffset + maxReadAheadLen > read.largeReadLen then do
      let next ← finished.useBeforeBuffer maxReadAheadLen
      return (some next.currentBuffer, next)
    else
      let next := { finished with bufferLen := maxReadAheadLen }
      .ok (some next.currentBuffer, next)

/-- Make the current buffer longer. -/
def growBuffer (newMaxReadAheadLen : Nat) : Except StorageError (List Byte × BufferedRead) :=
  if read.bufferOffset + newMaxReadAheadLen > read.largeReadLen then do
    let next ← read.useBeforeBuffer newMaxReadAheadLen
    return (next.currentBuffer, next)
  else
    let next := { read with bufferLen := newMaxReadAheadLen }
    .ok (next.currentBuffer, next)

/-- The limits and the memory, whatever the memory holds. -/
structure Ready : Prop where
  buffer_pos : 0 < read.maxBufferLen
  buffer_le : read.maxBufferLen ≤ read.maxLargeReadLen
  memory_len : read.memory.length = bufferedReadMemoryLen read.maxBufferLen read.maxLargeReadLen

/-- What holds between the calls while a file is open: from the current buffer
to the end of the large read the memory holds the bytes of the file. -/
structure Inv : Prop extends read.Ready where
  unlimited : read.haveTemporaryLimitInEffect = false
  file_le : read.fileLen ≤ read.file.length
  offset_ge : -(read.maxBufferLen : Int) ≤ read.bufferOffset
  start_nonneg : 0 ≤ read.largeReadPosition + read.bufferOffset
  inside : read.bufferOffset + read.bufferLen ≤ read.largeReadLen
  large_le : read.largeReadLen ≤ read.maxLargeReadLen
  end_le : read.largeReadPosition + read.largeReadLen ≤ read.fileLen
  full : read.largeReadPosition + read.largeReadLen = read.fileLen ∨
    read.largeReadLen = read.maxLargeReadLen
  empty : read.largeReadLen = 0 → read.bufferOffset = 0
  holds : readAt read.memory (read.maxBufferLen + read.bufferOffset).toNat
      (read.largeReadLen - read.bufferOffset).toNat =
    readAt read.file read.currentPosition (read.largeReadLen - read.bufferOffset).toNat

/-- The same file and the same limits. -/
structure SameFile (read next : BufferedRead) : Prop where
  file : next.file = read.file
  fileLen : next.fileLen = read.fileLen
  maxBufferLen : next.maxBufferLen = read.maxBufferLen

/-- The current buffer is this stretch of the file. -/
structure At (position length : Nat) : Prop where
  inv : read.Inv
  position : read.currentPosition = position
  length : read.bufferLen = length

variable {read : BufferedRead} {position length : Nat} {file : List Byte}

theorem Inv.inEffectFileLen_eq (h : read.Inv) : read.inEffectFileLen = read.fileLen := by
  simp [inEffectFileLen, h.unlimited]

theorem Inv.currentBuffer_eq (h : read.Inv) :
    read.currentBuffer = readAt read.file read.currentPosition read.bufferLen := by
  have hinside := h.inside
  have hstretch : 0 + read.bufferLen ≤ (read.largeReadLen - read.bufferOffset).toNat := by omega
  have hmemory := readAt_readAt read.memory (read.maxBufferLen + read.bufferOffset).toNat hstretch
  have hfile := readAt_readAt read.file read.currentPosition hstretch
  rw [h.holds, hfile, Nat.add_zero, Nat.add_zero] at hmemory
  exact hmemory.symm

theorem At.currentBuffer_eq (h : read.At position length) :
    read.currentBuffer = readAt read.file position length := by
  rw [h.inv.currentBuffer_eq, h.position, h.length]

theorem At.nextBufferPosition_eq (h : read.At position length) :
    read.nextBufferPosition = position + length := by
  have hstart := h.inv.start_nonneg
  have hposition := h.position
  have hlength := h.length
  unfold currentPosition at hposition
  unfold nextBufferPosition
  omega

theorem At.end_le (h : read.At position length) : position + length ≤ read.fileLen := by
  have hinside := h.inv.inside
  have hend := h.inv.end_le
  rw [← h.nextBufferPosition_eq, nextBufferPosition]
  omega

/-- A large read behind a part of the file that the memory already holds. -/
theorem readAt_largeRead {memory : List Byte} {maxBufferLen beforeLen : Nat}
    (readLen : Nat) (hbefore : beforeLen ≤ maxBufferLen)
    (hposition : beforeLen ≤ position) (hroom : maxBufferLen + readLen ≤ memory.length)
    (hfile : position + readLen ≤ file.length)
    (hheld : readAt memory (maxBufferLen - beforeLen) beforeLen =
      readAt file (position - beforeLen) beforeLen) :
    readAt (writeAt memory maxBufferLen (readAt file position readLen))
        (maxBufferLen - beforeLen) (beforeLen + readLen) =
      readAt file (position - beforeLen) (beforeLen + readLen) := by
  have hlength : (readAt file position readLen).length = readLen := length_readAt hfile
  have hinside : maxBufferLen + (readAt file position readLen).length ≤
      memory.length := hlength.symm ▸ hroom
  have hread := readAt_writeAt hinside
  rw [hlength] at hread
  rw [readAt_append, readAt_append, Nat.sub_add_cancel hbefore, Nat.sub_add_cancel hposition, hread,
    readAt_writeAt_of_disjoint hinside (.inl (by omega)), hheld]

theorem Inv.at_length (h : read.Inv) (length : Nat)
    (hinside : read.bufferOffset + length ≤ read.largeReadLen) :
    At { read with bufferLen := length } read.currentPosition length :=
  ⟨{ h with inside := hinside }, rfl, rfl⟩

section

variable (h : read.Inv) (hlength : length ≤ read.maxBufferLen)
  (hover : read.largeReadLen < read.bufferOffset + length)

include h hlength hover

/-- The next large read, with the rest of the current one kept before it. -/
theorem useBeforeBuffer_next (hmore : read.largeReadPosition + read.largeReadLen ≠ read.fileLen) :
    ∃ next, read.useBeforeBuffer length = .ok next ∧ SameFile read next ∧
      next.At read.currentPosition (min length (read.fileLen - read.currentPosition)) := by
  have hend := h.end_le
  have hinside := h.inside
  have hfull := h.full.resolve_left hmore
  have hle := h.buffer_le
  have hfile := h.file_le
  have hmemory := h.memory_len
  have hholds := h.holds
  unfold bufferedReadMemoryLen at hmemory
  unfold currentPosition at hholds ⊢
  rw [hfull] at hholds
  generalize hbefore : (read.maxLargeReadLen - read.bufferOffset).toNat = beforeLen at hholds
  generalize hnext : read.largeReadPosition + read.largeReadLen = nextPosition at *
  generalize hread : min (read.fileLen - nextPosition) read.maxLargeReadLen = nextReadLen
  have hpos : nextReadLen ≠ 0 := by omega
  have hcurrent : (read.largeReadPosition + read.bufferOffset).toNat =
      nextPosition - beforeLen := by omega
  have hchunk : (readAt read.memory (read.maxBufferLen + read.bufferOffset).toNat
      beforeLen).length = beforeLen := length_readAt (by omega)
  have hroom : read.maxBufferLen - beforeLen +
      (readAt read.memory (read.maxBufferLen + read.bufferOffset).toNat
        beforeLen).length ≤ read.memory.length := by omega
  have hkept := readAt_writeAt hroom
  have hlength₁ := length_writeAt hroom
  rw [hchunk, hholds, hcurrent] at hkept
  rw [hholds, hcurrent] at hlength₁
  have hheld := readAt_largeRead nextReadLen (by omega) (by omega)
    (by rw [hlength₁]; omega) (by omega) hkept
  have hlength₂ : (readAt read.file nextPosition nextReadLen).length = nextReadLen :=
    length_readAt (by omega)
  have hfits : ¬ read.file.length < nextPosition + nextReadLen := by omega
  have hshort : ¬ read.maxBufferLen < beforeLen := by omega
  simp only [useBeforeBuffer, h.inEffectFileLen_eq, hnext, if_neg hmore, hbefore,
    if_neg (Nat.not_lt.mpr hend), if_neg hshort, hread, if_neg hpos, readIo, if_neg hfits,
    hholds, hcurrent]
  refine ⟨_, rfl, ⟨rfl, rfl, rfl⟩, ?_, ?_, ?_⟩
  · constructor
    case toReady =>
      refine ⟨h.buffer_pos, hle, ?_⟩
      rw [length_writeAt (by omega), hlength₁]
      exact h.memory_len
    case unlimited => exact h.unlimited
    case holds =>
      have hoffset : ((read.maxBufferLen : Int) + -(beforeLen : Int)).toNat =
          read.maxBufferLen - beforeLen := by omega
      have hcount : ((nextReadLen : Int) - -(beforeLen : Int)).toNat =
          beforeLen + nextReadLen := by omega
      have hposition : ((nextPosition : Int) + -(beforeLen : Int)).toNat =
          nextPosition - beforeLen := by omega
      simp only [currentPosition, hoffset, hcount, hposition]
      exact hheld
    all_goals dsimp only; omega
  · simp only [currentPosition]
    omega
  · dsimp only
    omega

/-- Growing over the end of the large read keeps what is already there. -/
theorem useBeforeBuffer_spec :
    ∃ next, read.useBeforeBuffer length = .ok next ∧ SameFile read next ∧
      next.At read.currentPosition (min length (read.fileLen - read.currentPosition)) := by
  have hstart := h.start_nonneg
  have hinside := h.inside
  by_cases hlast : read.largeReadPosition + read.largeReadLen = read.fileLen
  · have hrest : (read.largeReadLen - read.bufferOffset).toNat =
        min length (read.fileLen - read.currentPosition) := by
      unfold currentPosition
      omega
    simp only [useBeforeBuffer, h.inEffectFileLen_eq, if_pos hlast, hrest]
    exact ⟨_, rfl, ⟨rfl, rfl, rfl⟩, h.at_length _ (by omega)⟩
  · exact useBeforeBuffer_next h hlength hover hlast

end

/-- The current buffer is given up. -/
theorem Inv.finish (h : read.Inv) : Inv { read with
      bufferOffset := read.bufferOffset + read.bufferLen
      bufferLen := 0 } := by
  have hstart := h.start_nonneg
  have hge := h.offset_ge
  have hinside := h.inside
  have hempty := h.empty
  refine { h with
    offset_ge := ?_, start_nonneg := ?_, inside := ?_, empty := ?_, holds := ?holds }
  case holds =>
    have hrest : read.bufferLen +
        ((read.largeReadLen : Int) - (read.bufferOffset + read.bufferLen)).toNat ≤
        (read.largeReadLen - read.bufferOffset).toNat := by omega
    have hoffset : ((read.maxBufferLen : Int) + (read.bufferOffset + read.bufferLen)).toNat =
        (read.maxBufferLen + read.bufferOffset).toNat + read.bufferLen := by omega
    have hposition : ((read.largeReadPosition : Int) + (read.bufferOffset + read.bufferLen)).toNat =
        read.currentPosition + read.bufferLen := by
      unfold currentPosition
      omega
    simp only [currentPosition, hoffset, hposition]
    rw [← readAt_readAt read.memory _ hrest, h.holds, readAt_readAt _ _ hrest]
    simp [currentPosition]
  all_goals dsimp only; omega

theorem growBuffer_spec {oldLen : Nat} (h : read.At position oldLen)
    (hlength : length ≤ read.maxBufferLen) :
    ∃ next, read.growBuffer length = .ok (next.currentBuffer, next) ∧ SameFile read next ∧
      next.At position (min length (read.fileLen - position)) := by
  have hposition := h.position
  by_cases hover : read.bufferOffset + length > read.largeReadLen
  · obtain ⟨next, hnext, hsame, hat⟩ := useBeforeBuffer_spec h.inv hlength hover
    rw [growBuffer, if_pos hover, hnext]
    exact ⟨next, rfl, hsame, hposition ▸ hat⟩
  · have hend := h.inv.end_le
    have hstart := h.inv.start_nonneg
    have hrest : length = min length (read.fileLen - position) := by
      unfold currentPosition at hposition
      omega
    rw [growBuffer, if_neg hover, ← hrest]
    exact ⟨_, rfl, ⟨rfl, rfl, rfl⟩, hposition ▸ h.inv.at_length _ (by omega)⟩

section

variable (h : read.Ready) (hunlimited : read.haveTemporaryLimitInEffect = false)
  (hfile : read.fileLen ≤ read.file.length)

include h hunlimited hfile

/-- A large read with nothing kept before it. -/
theorem Ready.readIo (hoffset : read.bufferOffset = 0) (hlen : read.bufferLen = 0)
    (hlarge : read.largeReadLen = min (read.fileLen - read.largeReadPosition) read.maxLargeReadLen)
    (hsome : read.largeReadLen ≠ 0) :
    ∃ next, read.readIo = .ok next ∧ SameFile read next ∧ next.Inv ∧
      next.largeReadPosition = read.largeReadPosition ∧ next.bufferOffset = 0 ∧ next.bufferLen = 0 ∧
      next.largeReadLen = read.largeReadLen := by
  have hmemory := h.memory_len
  unfold bufferedReadMemoryLen at hmemory
  have hlength : (readAt read.file read.largeReadPosition
      read.largeReadLen).length = read.largeReadLen := length_readAt (by omega)
  have hroom : read.maxBufferLen + (readAt read.file read.largeReadPosition
      read.largeReadLen).length ≤ read.memory.length := by omega
  have hread := readAt_writeAt hroom
  rw [hlength] at hread
  have hfits : ¬ read.file.length < read.largeReadPosition + read.largeReadLen := by
    omega
  rw [BufferedRead.readIo, if_neg hfits]
  refine ⟨_, rfl, ⟨rfl, rfl, rfl⟩, ?_, rfl, hoffset, hlen, rfl⟩
  constructor
  case toReady =>
    exact ⟨h.buffer_pos, h.buffer_le, (length_writeAt hroom).trans h.memory_len⟩
  case holds =>
    simp only [currentPosition, hoffset, Int.add_zero, Int.sub_zero, Int.toNat_natCast]
    exact hread
  all_goals dsimp only; omega

/-- The state behind the last large read. -/
theorem Ready.behind (hposition : read.largeReadPosition = read.fileLen)
    (hlarge : read.largeReadLen = 0) (hoffset : read.bufferOffset = 0) (hlen : read.bufferLen = 0) :
    read.Inv where
  toReady := h
  unlimited := hunlimited
  file_le := hfile
  offset_ge := by omega
  start_nonneg := by omega
  inside := by omega
  large_le := by omega
  end_le := by omega
  full := by omega
  empty := fun _ => hoffset
  holds := by simp [hlarge, hoffset, readAt]

end

theorem getNextBuffer_end (h : read.Inv) (hlength : length ≤ read.maxBufferLen)
    (hend : read.nextBufferPosition = read.fileLen) :
    ∃ next, read.getNextBuffer length = .ok (none, next) ∧ SameFile read next ∧
      next.At read.fileLen 0 := by
  have hstart := h.start_nonneg
  have hinside := h.inside
  have hle := h.end_le
  have hposition : read.largeReadPosition + read.bufferOffset + read.bufferLen = read.fileLen := by
    unfold nextBufferPosition at hend
    omega
  have hused : read.bufferOffset + read.bufferLen = read.largeReadLen := by omega
  have hlast : read.largeReadPosition + read.largeReadLen = read.fileLen := by omega
  rw [getNextBuffer, if_neg (Nat.not_lt.mpr hlength)]
  by_cases hat : read.largeReadPosition = read.fileLen
  · simp only [h.inEffectFileLen_eq, if_pos hat]
    refine ⟨_, rfl, ⟨rfl, rfl, rfl⟩, { h.finish with unlimited := rfl }, ?_, rfl⟩
    simp only [currentPosition]
    omega
  · have hnone : min (read.fileLen - read.fileLen) read.maxLargeReadLen = 0 := by
      omega
    simp only [h.inEffectFileLen_eq, if_neg hat, if_pos hused, hlast, hnone, if_true,
      if_neg (Nat.lt_irrefl _)]
    have hready : Ready { read with
        largeReadPosition := read.fileLen
        largeReadLen := 0
        bufferOffset := 0
        bufferLen := 0
        haveTemporaryLimitInEffect := false } :=
      { h with }
    refine ⟨_, rfl, ⟨rfl, rfl, rfl⟩, hready.behind rfl h.file_le rfl rfl rfl rfl, ?_, rfl⟩
    simp only [currentPosition]
    omega

/-- The next buffer begins where the last one ended. -/
theorem getNextBuffer_spec (h : read.Inv) (hlength : length ≤ read.maxBufferLen)
    (hmore : read.nextBufferPosition < read.fileLen) :
    ∃ next, read.getNextBuffer length = .ok (some next.currentBuffer, next) ∧
      SameFile read next ∧ next.At read.nextBufferPosition
        (min length (read.fileLen - read.nextBufferPosition)) := by
  have hstart := h.start_nonneg
  have hle := h.end_le
  have hempty := h.empty
  have hfinish := h.finish
  have hposition : (read.nextBufferPosition : Int) =
      read.largeReadPosition + read.bufferOffset + read.bufferLen := by
    unfold nextBufferPosition
    omega
  have hnot : read.largeReadPosition ≠ read.fileLen := by omega
  rw [getNextBuffer, if_neg (Nat.not_lt.mpr hlength)]
  by_cases hused : read.bufferOffset + read.bufferLen = read.largeReadLen
  · simp only [h.inEffectFileLen_eq, if_neg hnot, if_pos hused]
    have hpos := h.buffer_pos
    have hbuffer := h.buffer_le
    have hsome : min (read.fileLen - (read.largeReadPosition + read.largeReadLen))
        read.maxLargeReadLen ≠ 0 := by omega
    have hready : Ready { read with
        largeReadPosition := read.largeReadPosition + read.largeReadLen
        largeReadLen := min (read.fileLen -
          (read.largeReadPosition + read.largeReadLen)) read.maxLargeReadLen
        bufferOffset := 0
        bufferLen := 0 } := { h with }
    obtain ⟨next, hnext, hsame, hinv, hlarge, hoffset, _, hlen⟩ :=
      hready.readIo h.unlimited h.file_le rfl rfl rfl hsome
    have hcurrent : next.currentPosition = read.nextBufferPosition := by
      simp only [currentPosition, hlarge, hoffset]
      omega
    have hshort : min length (min (read.fileLen -
        (read.largeReadPosition + read.largeReadLen)) read.maxLargeReadLen) =
        min length (read.fileLen - read.nextBufferPosition) := by omega
    have hat := hinv.at_length (min length (read.fileLen - read.nextBufferPosition))
      (by rw [hoffset, hlen]; dsimp only; omega)
    rw [hcurrent] at hat
    rw [if_neg (Nat.not_lt.mpr hle), if_neg hsome, hnext, hshort]
    exact ⟨_, rfl, { hsame with }, hat⟩
  · have hcurrent : currentPosition { read with
        bufferOffset := read.bufferOffset + read.bufferLen
        bufferLen := 0 } = read.nextBufferPosition := by
      simp only [currentPosition]
      omega
    by_cases hover : read.bufferOffset + read.bufferLen + length > read.largeReadLen
    · obtain ⟨next, hnext, hsame, hat⟩ := useBeforeBuffer_spec hfinish hlength hover
      rw [hcurrent] at hat
      simp only [h.inEffectFileLen_eq, if_neg hnot, if_neg hused, if_pos hover, hnext]
      exact ⟨_, rfl, { hsame with }, hat⟩
    · have hshort : length = min length (read.fileLen - read.nextBufferPosition) := by
        omega
      have hat := hfinish.at_length length (by dsimp only; omega)
      rw [hcurrent] at hat
      simp only [h.inEffectFileLen_eq, if_neg hnot, if_neg hused, if_neg hover]
      rw [← hshort]
      exact ⟨_, rfl, ⟨rfl, rfl, rfl⟩, hat⟩

/-- Opening a file puts the reader at its beginning. -/
theorem Ready.setFile (h : read.Ready) (hunused : read.largeReadPosition = 0 ∧
      read.largeReadLen = 0 ∧ read.bufferOffset = 0 ∧ read.bufferLen = 0)
    {fileLen : Nat} (hfile : fileLen ≤ file.length) :
    ∃ next, read.setFile file fileLen = .ok next ∧ next.Inv ∧ next.file = file ∧
      next.fileLen = fileLen ∧ next.maxBufferLen = read.maxBufferLen ∧
      next.nextBufferPosition = 0 := by
  obtain ⟨hposition, hlarge, hoffset, hlen⟩ := hunused
  by_cases hsome : fileLen > 0
  · have hready : Ready { read with
        file := file
        fileLen := fileLen
        haveTemporaryLimitInEffect := false
        temporaryLimitFileLen := 0
        largeReadLen := min fileLen read.maxLargeReadLen } :=
      { h with }
    have hpos := h.buffer_pos
    have hle := h.buffer_le
    obtain ⟨next, hnext, hsame, hinv, hstart, hzero, hempty, _⟩ :=
      hready.readIo rfl hfile hoffset hlen (by rw [hposition, Nat.sub_zero]) (by dsimp only; omega)
    rw [BufferedRead.setFile, if_pos hsome]
    refine ⟨next, hnext, hinv, hsame.file, hsame.fileLen, hsame.maxBufferLen, ?_⟩
    simp only [nextBufferPosition, hstart, hzero, hempty, hposition]
    rfl
  · have hready : Ready { read with
        file := file
        fileLen := fileLen
        haveTemporaryLimitInEffect := false
        temporaryLimitFileLen := 0 } := { h with }
    have hnone : fileLen = 0 := by omega
    rw [BufferedRead.setFile, if_neg hsome]
    refine ⟨_, rfl, hready.behind rfl hfile (hposition.trans hnone.symm) hlarge hoffset
      hlen, rfl, rfl, rfl, ?_⟩
    simp only [nextBufferPosition]
    omega

end BufferedRead

open List

section

inductive ReadCall
  | next (length : Nat)
  | grow (length : Nat)
  deriving DecidableEq, Repr

def ReadCall.length : ReadCall → Nat
  | .next length => length
  | .grow length => length

/-- The place of the current buffer in the file. -/
structure Place where
  start : Nat
  length : Nat

namespace Place

/-- What a call gives to a reader that has all of the file at hand. -/
def call (bytes : List Byte) (place : Place) : ReadCall → Option (List Byte) × Place
  | .next length =>
    let start := place.start + place.length
    if start < bytes.length then
      let buffer := readAt bytes start length
      (some buffer, ⟨start, buffer.length⟩)
    else (none, ⟨start, 0⟩)
  | .grow length =>
    let buffer := readAt bytes place.start length
    (some buffer, ⟨place.start, buffer.length⟩)

def calls (bytes : List Byte) (place : Place) : List ReadCall → List (Option (List Byte)) × Place
  | [] => ([], place)
  | call :: rest =>
    let (buffer, next) := place.call bytes call
    let (buffers, last) := next.calls bytes rest
    (buffer :: buffers, last)

end Place

namespace BufferedRead

variable (read : BufferedRead)

def call : ReadCall → Except StorageError (Option (List Byte) × BufferedRead)
  | .next length => read.getNextBuffer length
  | .grow length => do
      let (buffer, next) ← read.growBuffer length
      return (some buffer, next)

def calls (read : BufferedRead) :
    List ReadCall → Except StorageError (List (Option (List Byte)) × BufferedRead)
  | [] => .ok ([], read)
  | call :: rest => do
      let (buffer, next) ← read.call call
      let (buffers, last) ← next.calls rest
      return (buffer :: buffers, last)

/-- The copy that `useBeforeBuffer` makes into the memory before the large read: where it
begins there, and its length. -/
def beforeCopy : Option (Int × Int) :=
  if read.largeReadPosition + read.largeReadLen = read.inEffectFileLen then none
  else
    let beforeLen : Int := read.maxLargeReadLen - read.bufferOffset
    some (read.maxBufferLen - beforeLen, beforeLen)

/-- The copy that a call makes, if it makes one. -/
def copyOf : ReadCall → Option (Int × Int)
  | .next length =>
    let bufferOffset := read.bufferOffset + read.bufferLen
    if read.largeReadPosition = read.inEffectFileLen ∨ bufferOffset = read.largeReadLen ∨
        bufferOffset + length ≤ read.largeReadLen then none
    else beforeCopy { read with bufferOffset := bufferOffset, bufferLen := 0 }
  | .grow length =>
    if read.bufferOffset + length ≤ read.largeReadLen then none else read.beforeCopy

variable {read : BufferedRead} {place : Place}

/-- Each call gives what it would give with all of the file at hand. -/
theorem call_spec (h : read.At place.start place.length) {call : ReadCall}
    (hlength : call.length ≤ read.maxBufferLen) :
    ∃ next, read.call call = .ok ((place.call (read.file.take read.fileLen) call).1, next) ∧
      SameFile read next ∧ next.At (place.call (read.file.take read.fileLen) call).2.start
        (place.call (read.file.take read.fileLen) call).2.length := by
  have hfile := h.inv.file_le
  have hend := h.end_le
  have hbytes : (read.file.take read.fileLen).length = read.fileLen := length_take_of_le hfile
  have hbuffer : ∀ start count, (readAt (read.file.take read.fileLen) start count).length =
      min count (read.fileLen - start) := by
    intro start count
    rw [readAt, length_take, length_drop, hbytes]
  cases call with
  | next length =>
    change length ≤ read.maxBufferLen at hlength
    have hposition := h.nextBufferPosition_eq
    unfold Place.call
    dsimp only
    rw [hbytes]
    by_cases hmore : place.start + place.length < read.fileLen
    · obtain ⟨next, hnext, hsame, hat⟩ := getNextBuffer_spec h.inv hlength (hposition ▸ hmore)
      rw [hposition] at hat
      rw [if_pos hmore]
      rw [hbuffer]
      refine ⟨next, ?_, hsame, hat⟩
      rw [BufferedRead.call, hnext, hat.currentBuffer_eq, hsame.file, readAt_take]
    · have hlast : read.nextBufferPosition = read.fileLen := by omega
      obtain ⟨next, hnext, hsame, hat⟩ := getNextBuffer_end h.inv hlength hlast
      rw [if_neg hmore, ← hposition, hlast]
      exact ⟨next, hnext, hsame, hat⟩
  | grow length =>
    change length ≤ read.maxBufferLen at hlength
    obtain ⟨next, hnext, hsame, hat⟩ := growBuffer_spec h hlength
    unfold Place.call
    dsimp only
    rw [hbuffer]
    refine ⟨next, ?_, hsame, hat⟩
    rw [BufferedRead.call, hnext, hat.currentBuffer_eq, hsame.file, readAt_take]
    rfl

/-- A copy stays inside of the memory before the large read. -/
theorem copyOf_inside (h : read.Inv) {call : ReadCall} (hlength : call.length ≤ read.maxBufferLen)
    {copy : Int × Int} (hcopy : read.copyOf call = some copy) :
    0 ≤ copy.1 ∧ 0 ≤ copy.2 ∧ copy.1 + copy.2 ≤ read.maxBufferLen := by
  have hinside := h.inside
  have hcopies : ∀ (bufferOffset : Int) (length : Nat), length ≤ read.maxBufferLen →
      bufferOffset ≤ read.largeReadLen → ¬ bufferOffset + length ≤ read.largeReadLen →
      beforeCopy { read with bufferOffset := bufferOffset, bufferLen := 0 } = some copy →
      0 ≤ copy.1 ∧ 0 ≤ copy.2 ∧ copy.1 + copy.2 ≤ read.maxBufferLen := by
    intro bufferOffset length hshort hle hover hsome
    obtain ⟨hmore, hsome⟩ := Option.ite_none_left_eq_some.mp hsome
    cases hsome
    have hfull := h.full.resolve_left (h.inEffectFileLen_eq ▸ hmore)
    dsimp only
    omega
  cases call with
  | next length =>
    obtain ⟨hcross, hsome⟩ := Option.ite_none_left_eq_some.mp hcopy
    rw [not_or, not_or] at hcross
    exact hcopies _ length hlength hinside hcross.2.2 hsome
  | grow length =>
    obtain ⟨hcross, hsome⟩ := Option.ite_none_left_eq_some.mp hcopy
    exact hcopies _ length hlength (by omega) hcross hsome

/-- The calls one after the other. -/
theorem calls_spec (calls : List ReadCall) :
    ∀ {read : BufferedRead} {place : Place}, read.At place.start place.length →
      (∀ call ∈ calls, call.length ≤ read.maxBufferLen) → ∃ last, read.calls calls =
          .ok ((place.calls (read.file.take read.fileLen) calls).1, last) ∧ SameFile read last ∧
        last.At (place.calls (read.file.take read.fileLen) calls).2.start
          (place.calls (read.file.take read.fileLen) calls).2.length := by
  induction calls with
  | nil =>
    intro read place h _
    exact ⟨read, rfl, ⟨rfl, rfl, rfl⟩, h⟩
  | cons call rest ih =>
    intro read place h hlengths
    obtain ⟨next, hnext, hsame, hat⟩ := call_spec h (hlengths call mem_cons_self)
    obtain ⟨last, hlast, hsame', hat'⟩ := ih hat fun other hmem => by
      rw [hsame.maxBufferLen]
      exact hlengths other (mem_cons_of_mem _ hmem)
    rw [hsame.file, hsame.fileLen] at hlast hat'
    refine ⟨last, ?_, ⟨hsame'.file.trans hsame.file, hsame'.fileLen.trans hsame.fileLen,
      hsame'.maxBufferLen.trans hsame.maxBufferLen⟩, hat'⟩
    rw [BufferedRead.calls, hnext]
    dsimp only [bind, Except.bind]
    rw [hlast]
    rfl

end BufferedRead

/-- A reader that is opened on a file gives all of it, in order and once, and never copies
outside of the memory before a large read. -/
theorem openedFile_reads {maxBufferLen maxLargeReadLen : Nat} (hpos : 0 < maxBufferLen)
    (hle : maxBufferLen ≤ maxLargeReadLen) {memory : List Byte}
    (hmemory : memory.length = bufferedReadMemoryLen maxBufferLen maxLargeReadLen)
    (file : List Byte) (calls : List ReadCall)
    (hlengths : ∀ call ∈ calls, call.length ≤ maxBufferLen) :
    ∃ opened last, (bufferedReadInit memory maxBufferLen maxLargeReadLen).setFile file file.length =
        .ok opened ∧ opened.calls calls = .ok ((Place.calls file ⟨0, 0⟩ calls).1, last) ∧
      ∀ earlier call later buffers reached copy, calls = earlier ++ call :: later →
        opened.calls earlier = .ok (buffers, reached) → reached.copyOf call = some copy →
          0 ≤ copy.1 ∧ 0 ≤ copy.2 ∧ copy.1 + copy.2 ≤ maxBufferLen := by
  have hready : (bufferedReadInit memory maxBufferLen maxLargeReadLen).Ready := ⟨hpos, hle, hmemory⟩
  obtain ⟨opened, hopened, hinv, hfile, hlen, hmax, hstart⟩ :=
    hready.setFile ⟨rfl, rfl, rfl, rfl⟩ (Nat.le_refl file.length)
  have hmax : opened.maxBufferLen = maxBufferLen := hmax
  have hbytes : opened.file.take opened.fileLen = file := by
    rw [hfile, hlen, take_length]
  have hat : opened.At (Place.mk 0 0).start (Place.mk 0 0).length := by
    have hnonneg := hinv.start_nonneg
    simp only [BufferedRead.nextBufferPosition] at hstart
    refine ⟨hinv, ?_, ?_⟩
    · simp only [BufferedRead.currentPosition]
      omega
    · dsimp only
      omega
  rw [← hmax] at hlengths ⊢
  obtain ⟨last, hlast, -, -⟩ := BufferedRead.calls_spec calls hat hlengths
  rw [hbytes] at hlast
  refine ⟨opened, last, hmax ▸ hopened, hlast, ?_⟩
  intro earlier call later buffers reached copy hsplit hreached hcopy
  obtain ⟨other, hother, hsame, hat'⟩ := BufferedRead.calls_spec earlier hat fun item hmem =>
    hlengths item (hsplit ▸ mem_append_left _ hmem)
  rw [hreached] at hother
  cases hother
  rw [← hsame.maxBufferLen]
  apply reached.copyOf_inside hat'.inv _ hcopy
  rw [hsame.maxBufferLen]
  exact hlengths call (hsplit ▸ mem_append_right _ mem_cons_self)

end

namespace ReadRunsWitness

def fiveBytes : List Byte := [1, 2, 3, 4, 5]

/-- The second buffer crosses two large reads. -/
def someCalls : List ReadCall := [.next 2, .next 1, .grow 2, .next 2, .next 1]

theorem fiveBytes_reads : (Place.calls fiveBytes ⟨0, 0⟩ someCalls).1 =
      [some [1, 2], some [3], some [3, 4], some [5], none] ∧ ∃ opened last,
      (bufferedReadInit (List.replicate 5 0) 2 3).setFile fiveBytes 5 = .ok opened ∧
      opened.calls someCalls = .ok ((Place.calls fiveBytes ⟨0, 0⟩ someCalls).1, last) ∧
      ∀ earlier call later buffers reached copy, someCalls = earlier ++ call :: later →
        opened.calls earlier = .ok (buffers, reached) → reached.copyOf call = some copy →
          0 ≤ copy.1 ∧ 0 ≤ copy.2 ∧ copy.1 + copy.2 ≤ (2 : Nat) :=
  ⟨by decide, openedFile_reads (by decide) (by decide) rfl fiveBytes someCalls (by decide)⟩

end ReadRunsWitness

end Greenplum.AoStorage
