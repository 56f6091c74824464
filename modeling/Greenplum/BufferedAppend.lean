/-
The buffer in front of a segment file that is written, `cdbbufferedappend.c`:
the blocks are gathered into large writes, and what lies behind the end of a
large write is carried over to the next one.  What is finished stands in the file and in
the log of inserts, in order and once.
-/
import Greenplum.ByteMemory
import Greenplum.Fallible

namespace Greenplum.AoStorage

open ByteMemory List

abbrev Byte := BitVec 8

/-- The places at which the storage layer reports an error. -/
inductive StorageError
  | bufferTooLarge | usedTooMuch
  | readAheadTooLarge | readBeyondEof | nothingToRead | negativeReadLen | beforeBufferOverrun
  | contentTooLarge | unexpectedHeaderKind | unexpectedVersion
  | eofIsZero | unexpectedEndOfFile | shortHeader
  | headerChecksum | blockChecksum
  | firstWordIsZero | reservedBitIsSet | headerKindNone | invalidHeaderKind
  | contentOffset | invalidCompressedLen | invalidOverallBlockLen
  | largeContentLenIsZero | shortBlock | tooMuchData | uncompressedLen
  | decompressionMissing | endlessLoop
  deriving DecidableEq, Repr

/-- A record that `xlog_ao_insert` writes. -/
structure AoInsert where
  offset : Nat
  buffer : List Byte
  deriving DecidableEq

/-- The state of `BufferedAppend`.  The memory for large writes comes first, the
memory for what lies behind a large write after it. -/
structure BufferedAppend where
  maxBufferLen : Nat
  maxLargeWriteLen : Nat
  memory : List Byte
  largeWritePosition : Nat
  largeWriteLen : Nat
  bufferLen : Nat
  file : List Byte
  fileLen : Nat
  fileLenUncompressed : Nat
  xlog : List AoInsert

def bufferedAppendMemoryLen (maxBufferLen maxLargeWriteLen : Nat) : Nat :=
  maxLargeWriteLen + maxBufferLen

/-- Take over memory that is allocated and not initialised. -/
def bufferedAppendInit (memory : List Byte) (maxBufferLen maxLargeWriteLen : Nat) :
    BufferedAppend where
  maxBufferLen := maxBufferLen
  maxLargeWriteLen := maxLargeWriteLen
  memory := memory
  largeWritePosition := 0
  largeWriteLen := 0
  bufferLen := 0
  file := []
  fileLen := 0
  fileLenUncompressed := 0
  xlog := []

namespace BufferedAppend

variable (append : BufferedAppend)

def setFile (file : List Byte) (eof eofUncompressed : Nat) : BufferedAppend :=
  { append with
    largeWritePosition := eof
    file := file
    fileLen := eof
    fileLenUncompressed := eofUncompressed }

/-- Perform a large write and log it. -/
def write : BufferedAppend :=
  { append with
    file := writeAt append.file append.largeWritePosition (append.memory.take append.largeWriteLen)
    xlog := append.xlog ++ [⟨append.largeWritePosition, append.memory.take append.largeWriteLen⟩]
    largeWritePosition := append.largeWritePosition + append.largeWriteLen
    largeWriteLen := 0 }

def nextBufferPosition : Nat :=
  append.largeWritePosition + append.largeWriteLen

def getBuffer (bufferLen : Nat) : Except StorageError BufferedAppend :=
  if bufferLen > append.maxBufferLen then .error .bufferTooLarge
  else .ok { append with bufferLen := bufferLen }

def getMaxBuffer : Except StorageError BufferedAppend :=
  append.getBuffer append.maxBufferLen

def cancelLastBuffer : BufferedAppend :=
  { append with bufferLen := 0 }

/-- What the caller stores through the pointer to the current buffer. -/
def fill (bytes : List Byte) : BufferedAppend :=
  { append with memory := writeAt append.memory append.largeWriteLen bytes }

/-- Write out the large-write memory and move the excess to its beginning. -/
def carryOver (newLen : Nat) : BufferedAppend :=
  let written := write { append with largeWriteLen := append.maxLargeWriteLen }
  if newLen > append.maxLargeWriteLen then
    let excessLen := newLen - append.maxLargeWriteLen
    { written with
      memory := writeAt written.memory 0 (readAt written.memory written.maxLargeWriteLen excessLen)
      largeWriteLen := excessLen }
  else written

/-- Indicate that the current buffer is finished. -/
def finishBuffer (usedLen usedLenUncompressed : Nat) : Except StorageError BufferedAppend :=
  if usedLen > append.bufferLen then .error .usedTooMuch
  else
    let newLen := append.largeWriteLen + usedLen
    let next := if newLen ≥ append.maxLargeWriteLen then append.carryOver newLen
      else { append with largeWriteLen := newLen }
    .ok { next with
      fileLen := next.fileLen + usedLen
      fileLenUncompressed := next.fileLenUncompressed + usedLenUncompressed }

/-- Write out what is left; the state is then as before the file was set.  The
result is the file with its two lengths. -/
def completeFile : BufferedAppend × List Byte × Nat × Nat :=
  let written := if append.largeWriteLen > 0 then append.write else append
  ({ written with
      largeWritePosition := 0
      largeWriteLen := 0
      bufferLen := 0
      file := []
      fileLen := 0
      fileLenUncompressed := 0 }, written.file, written.fileLen, written.fileLenUncompressed)

/-- The file as it will be: what is written and what waits in the memory. -/
def contents : List Byte :=
  append.file.take append.largeWritePosition ++ append.memory.take append.largeWriteLen

/-- The memory has room for a large write and a buffer behind it. -/
structure Sized : Prop where
  buffer_pos : 0 < append.maxBufferLen
  buffer_le : append.maxBufferLen ≤ append.maxLargeWriteLen
  memory_len : append.memory.length = append.maxLargeWriteLen + append.maxBufferLen

/-- What holds between the calls while a file is open. -/
structure Inv : Prop extends append.Sized where
  large_lt : append.largeWriteLen < append.maxLargeWriteLen
  position_le : append.largeWritePosition ≤ append.file.length
  fileLen_eq : append.fileLen = append.nextBufferPosition

variable {append : BufferedAppend} {newLen : Nat} {bytes : List Byte}

theorem carryOver_fileLen (append : BufferedAppend) (newLen : Nat) :
    (append.carryOver newLen).fileLen = append.fileLen := by
  unfold carryOver
  split_ifs <;> rfl

theorem carryOver_limits (append : BufferedAppend) (newLen : Nat) :
    (append.carryOver newLen).maxBufferLen = append.maxBufferLen ∧
      (append.carryOver newLen).maxLargeWriteLen = append.maxLargeWriteLen := by
  unfold carryOver
  split_ifs <;> exact ⟨rfl, rfl⟩

section

variable (h : append.Inv)

include h

theorem Inv.length_contents : append.contents.length = append.nextBufferPosition := by
  have hmemory := h.memory_len
  have hlarge := h.large_lt
  have hposition := h.position_le
  rw [contents, length_append, length_take_of_le hposition,
    length_take_of_le (by omega), nextBufferPosition]

/-- A large write turns memory into file. -/
theorem Inv.take_file_write (writeLen : Nat) (hroom : writeLen ≤ append.memory.length) :
    (writeAt append.file append.largeWritePosition
        (append.memory.take writeLen)).take (append.largeWritePosition + writeLen) =
      append.file.take append.largeWritePosition ++ append.memory.take writeLen := by
  have htake := take_writeAt (append.memory.take writeLen) h.position_le
  rwa [length_take_of_le hroom] at htake

theorem Inv.position_le_write (writeLen : Nat) (hroom : writeLen ≤ append.memory.length) :
    append.largeWritePosition + writeLen ≤ (writeAt append.file append.largeWritePosition
        (append.memory.take writeLen)).length := by
  have hposition := h.position_le
  simp only [writeAt, length_append, length_take]
  omega

theorem Inv.contents_carryOver
    (hfull : append.maxLargeWriteLen ≤ newLen) (hroom : newLen ≤ append.memory.length) :
    (append.carryOver newLen).contents =
      append.file.take append.largeWritePosition ++ append.memory.take newLen := by
  have hfile := h.take_file_write append.maxLargeWriteLen (by omega)
  rcases Nat.lt_or_eq_of_le hfull with hmore | hfits
  · have hexcess : (readAt append.memory append.maxLargeWriteLen
        (newLen - append.maxLargeWriteLen)).length =
        newLen - append.maxLargeWriteLen := length_readAt (by omega)
    have hcarried := take_writeAt (readAt append.memory append.maxLargeWriteLen
      (newLen - append.maxLargeWriteLen)) (Nat.zero_le append.memory.length)
    rw [hexcess, Nat.zero_add, take_zero, nil_append] at hcarried
    have hsplit : append.memory.take newLen = append.memory.take append.maxLargeWriteLen ++
          readAt append.memory append.maxLargeWriteLen (newLen - append.maxLargeWriteLen) := by
      rw [readAt, ← take_add, Nat.add_sub_cancel' hfull]
    simp only [carryOver, write, if_pos hmore, contents, hfile, hcarried]
    rw [append_assoc, hsplit]
  · have hexact : ¬ newLen > append.maxLargeWriteLen := by omega
    simp only [carryOver, write, if_neg hexact, contents, hfile, take_zero, append_nil]
    rw [hfits]

theorem Inv.carryOver_inv (hfull : append.maxLargeWriteLen ≤ newLen)
    (hroom : newLen < append.maxLargeWriteLen + append.maxBufferLen) (uncompressed : Nat) :
    Inv { append.carryOver newLen with
      fileLen := append.largeWritePosition + newLen
      fileLenUncompressed := uncompressed } := by
  have hmemory := h.memory_len
  have hpos := h.buffer_pos
  have hle := h.buffer_le
  have hposition := h.position_le_write append.maxLargeWriteLen (by omega)
  rcases Nat.lt_or_eq_of_le hfull with hmore | hfits
  · have hexcess : (readAt append.memory append.maxLargeWriteLen
        (newLen - append.maxLargeWriteLen)).length =
        newLen - append.maxLargeWriteLen := length_readAt (by omega)
    simp only [carryOver, write, if_pos hmore]
    exact { h with
      memory_len := (length_writeAt (by omega)).trans hmemory
      large_lt := by dsimp only; omega
      position_le := hposition
      fileLen_eq := by simp only [nextBufferPosition]; omega }
  · have hexact : ¬ newLen > append.maxLargeWriteLen := by omega
    simp only [carryOver, write, if_neg hexact]
    exact { h with
      large_lt := Nat.lt_of_lt_of_le hpos hle
      position_le := hposition
      fileLen_eq := by simp only [nextBufferPosition]; omega }

theorem Inv.fill (bytes : List Byte)
    (hroom : bytes.length ≤ append.maxBufferLen) : (append.fill bytes).Inv := by
  have hmemory := h.memory_len
  have hlarge := h.large_lt
  exact { h with memory_len := (length_writeAt (by omega)).trans h.memory_len }

/-- A finished buffer is appended to the file. -/
theorem finishBuffer_spec {used : Nat} (hlen : bytes.length = used)
    (hused : used ≤ append.bufferLen)
    (hbuffer : append.bufferLen ≤ append.maxBufferLen) (uncompressed : Nat) :
    ∃ next, finishBuffer (append.fill bytes) used uncompressed = .ok next ∧
      next.Inv ∧ next.contents = append.contents ++ bytes ∧
      next.maxBufferLen = append.maxBufferLen ∧
      next.maxLargeWriteLen = append.maxLargeWriteLen := by
  have hmemory := h.memory_len
  have hlarge := h.large_lt
  have hfill := h.fill bytes (by omega)
  have hfilled : (append.fill bytes).memory.take (append.largeWriteLen + used) =
      append.memory.take append.largeWriteLen ++ bytes := by
    rw [← hlen]
    exact take_writeAt bytes (by omega)
  have hcontents : append.file.take append.largeWritePosition ++
      (append.fill bytes).memory.take (append.largeWriteLen + used) = append.contents ++ bytes := by
    rw [hfilled, contents, append_assoc]
  have hfileLen : append.fileLen + used =
      append.largeWritePosition + (append.largeWriteLen + used) := by
    rw [h.fileLen_eq, nextBufferPosition, Nat.add_assoc]
  have hnot : ¬ used > (append.fill bytes).bufferLen := Nat.not_lt.mpr hused
  rw [finishBuffer, if_neg hnot]
  by_cases hfull : (append.fill bytes).largeWriteLen + used ≥ (append.fill bytes).maxLargeWriteLen
  · have hroom : append.largeWriteLen + used <
        append.maxLargeWriteLen + append.maxBufferLen := by omega
    have hkept := carryOver_fileLen (append.fill bytes) (append.largeWriteLen + used)
    have hlimits := carryOver_limits (append.fill bytes) (append.largeWriteLen + used)
    have hcarried := hfill.contents_carryOver hfull (hfill.memory_len ▸ Nat.le_of_lt hroom)
    simp only [if_pos hfull]
    refine ⟨_, rfl, ?_, hcarried.trans hcontents, hlimits.1, hlimits.2⟩
    have hinv := hfill.carryOver_inv hfull hroom
      (((append.fill bytes).carryOver (append.largeWriteLen + used)).fileLenUncompressed +
        uncompressed)
    rw [show (append.fill bytes).largeWritePosition + ((append.fill bytes).largeWriteLen + used) =
        ((append.fill bytes).carryOver (append.largeWriteLen + used)).fileLen + used
      from (hkept.symm ▸ hfileLen).symm] at hinv
    exact hinv
  · simp only [if_neg hfull]
    refine ⟨_, rfl, ?_, hcontents, rfl, rfl⟩
    exact { hfill with
      large_lt := Nat.lt_of_not_le hfull
      fileLen_eq := hfileLen }

/-- A buffer of enough length that is filled and finished. -/
theorem put_spec {bufferLen : Nat} (hlen : bytes.length ≤ bufferLen)
    (hbuffer : bufferLen ≤ append.maxBufferLen) (uncompressed : Nat) :
    ∃ got next, append.getBuffer bufferLen = .ok got ∧
      (got.fill bytes).finishBuffer bytes.length uncompressed = .ok next ∧
      got.nextBufferPosition = append.contents.length ∧
      next.Inv ∧ next.contents = append.contents ++ bytes ∧
      next.maxBufferLen = append.maxBufferLen ∧
      next.maxLargeWriteLen = append.maxLargeWriteLen := by
  have hgot : Inv { append with bufferLen := bufferLen } := { h with }
  obtain ⟨next, hnext, hspec⟩ := finishBuffer_spec hgot rfl hlen hbuffer uncompressed
  exact ⟨_, next, if_neg (Nat.not_lt.mpr hbuffer), hnext, h.length_contents.symm, hspec⟩

end

/-- What holds while no file is open. -/
structure Idle (append : BufferedAppend) : Prop extends append.Sized where
  large_eq : append.largeWriteLen = 0

theorem Idle.setFile (h : append.Idle) {file : List Byte} {eof : Nat}
    (heof : eof ≤ file.length) (uncompressed : Nat) :
    (append.setFile file eof uncompressed).Inv ∧
      (append.setFile file eof uncompressed).contents = file.take eof := by
  have hlarge := h.large_eq
  have hpos := Nat.lt_of_lt_of_le h.buffer_pos h.buffer_le
  constructor
  · exact { h with
      large_lt := lt_of_eq_of_lt hlarge hpos
      position_le := heof
      fileLen_eq := by simp only [nextBufferPosition, BufferedAppend.setFile, hlarge,
        Nat.add_zero] }
  · simp [contents, BufferedAppend.setFile, hlarge]

/-- The completed file begins with what was gathered for it. -/
theorem completeFile_spec (h : append.Inv) : ∃ next file uncompressed,
      append.completeFile = (next, file, append.contents.length, uncompressed) ∧
      next.Idle ∧ file.take append.contents.length = append.contents ∧
      append.contents.length ≤ file.length ∧ next.maxBufferLen = append.maxBufferLen ∧
      next.maxLargeWriteLen = append.maxLargeWriteLen := by
  have hmemory := h.memory_len
  have hlarge := h.large_lt
  have hlength := h.length_contents
  have hfileLen := h.fileLen_eq.trans hlength.symm
  by_cases hrest : append.largeWriteLen > 0
  · have htake := h.take_file_write append.largeWriteLen (by omega)
    have hle := h.position_le_write append.largeWriteLen (by omega)
    simp only [completeFile, if_pos hrest, write, hfileLen, hlength]
    exact ⟨_, _, _, rfl, ⟨{ h with }, rfl⟩, htake, hle, rfl, rfl⟩
  · have hnone : append.largeWriteLen = 0 := Nat.eq_zero_of_not_pos hrest
    have hposition := h.position_le
    simp only [completeFile, if_neg hrest, hfileLen, hlength]
    refine ⟨_, _, _, rfl, ⟨{ h with }, rfl⟩, ?_, ?_, rfl, rfl⟩
    · simp only [nextBufferPosition, contents, hnone, Nat.add_zero, take_zero, append_nil]
    · simp only [nextBufferPosition, hnone, Nat.add_zero]
      exact hposition

end BufferedAppend

/-- A buffer that the caller gets and fills with `buffer`, and then finishes or cancels. -/
inductive AppendStep
  | finish (buffer : List Byte) (usedLen usedLenUncompressed : Nat)
  | cancel (buffer : List Byte)

namespace AppendStep

def buffer : AppendStep → List Byte
  | finish buffer _ _ => buffer
  | cancel buffer => buffer

/-- The caller keeps to the limits. -/
def Fits (maxBufferLen : Nat) : AppendStep → Prop
  | finish buffer usedLen _ => buffer.length ≤ maxBufferLen ∧ usedLen ≤ buffer.length
  | cancel buffer => buffer.length ≤ maxBufferLen

instance (maxBufferLen : Nat) : (step : AppendStep) → Decidable (step.Fits maxBufferLen)
  | finish _ _ _ => inferInstanceAs (Decidable (_ ∧ _))
  | cancel _ => inferInstanceAs (Decidable (_ ≤ _))

def finishedBytes : AppendStep → List Byte
  | finish buffer usedLen _ => buffer.take usedLen
  | cancel _ => []

theorem Fits.length_le {maxBufferLen : Nat} {step : AppendStep} (h : step.Fits maxBufferLen) :
    step.buffer.length ≤ maxBufferLen := by
  cases step with
  | finish buffer usedLen uncompressed => exact h.1
  | cancel buffer => exact h

end AppendStep

/-- Inserts that follow each other without a gap. -/
def insertsAt (offset : Nat) : List (List Byte) → List AoInsert
  | [] => []
  | buffer :: rest => ⟨offset, buffer⟩ :: insertsAt (offset + buffer.length) rest

theorem insertsAt_concat (buffer : List Byte) (payloads : List (List Byte)) :
    ∀ offset, insertsAt offset (payloads ++ [buffer]) =
      insertsAt offset payloads ++ [⟨offset + payloads.flatten.length, buffer⟩] := by
  induction payloads with
  | nil => exact fun offset => rfl
  | cons payload rest ih =>
    intro offset
    rw [cons_append, insertsAt, ih, insertsAt, cons_append, flatten_cons,
      length_append, Nat.add_assoc]

namespace BufferedAppend

def step (append : BufferedAppend) : AppendStep → Except StorageError BufferedAppend
  | .finish buffer usedLen usedLenUncompressed => do
      let got ← append.getBuffer buffer.length
      (got.fill buffer).finishBuffer usedLen usedLenUncompressed
  | .cancel buffer => do
      let got ← append.getBuffer buffer.length
      return (got.fill buffer).cancelLastBuffer

def steps (append : BufferedAppend) (steps : List AppendStep) :
    Except StorageError BufferedAppend :=
  steps.foldlM step append

variable {append : BufferedAppend}

/-- The large writes so far are in the file and in the log. -/
structure Logged (original : List Byte) (eof : Nat) (payloads : List (List Byte))
    (append : BufferedAppend) : Prop where
  position_eq : append.largeWritePosition = eof + payloads.flatten.length
  file_eq : append.file = writeAt original eof payloads.flatten
  xlog_eq : append.xlog = insertsAt eof payloads

section

variable {original : List Byte} {eof : Nat} {payloads : List (List Byte)}
  (h : append.Logged original eof payloads)

include h

variable (heof : eof ≤ original.length)

include heof

theorem Logged.write {writeLen : Nat} (hroom : writeLen ≤ append.memory.length) :
    Logged original eof (payloads ++ [append.memory.take writeLen])
      (write { append with largeWriteLen := writeLen }) := by
  have hflat : (payloads ++ [append.memory.take writeLen]).flatten =
      payloads.flatten ++ append.memory.take writeLen := by
    rw [flatten_append, flatten_singleton]
  constructor
  · simp only [BufferedAppend.write]
    rw [hflat, length_append, length_take_of_le hroom, h.position_eq, Nat.add_assoc]
  · simp only [BufferedAppend.write]
    rw [hflat, h.file_eq, h.position_eq, writeAt_append _ _ heof]
  · simp only [BufferedAppend.write]
    rw [h.xlog_eq, h.position_eq, insertsAt_concat]

/-- The whole of what is finished: what is written and what waits in the memory. -/
theorem Logged.contents_eq : append.contents =
      original.take eof ++ (payloads.flatten ++ append.memory.take append.largeWriteLen) := by
  rw [contents, h.file_eq, h.position_eq, take_writeAt _ heof, append_assoc]

theorem Logged.finishBuffer (hroom : append.maxLargeWriteLen ≤ append.memory.length)
    {usedLen uncompressed : Nat} {next : BufferedAppend}
    (hnext : append.finishBuffer usedLen uncompressed = .ok next) :
    ∃ payloads, next.Logged original eof payloads := by
  rw [BufferedAppend.finishBuffer] at hnext
  split_ifs at hnext with hused
  cases hnext
  have hwrite := h.write heof hroom
  by_cases hfull : append.largeWriteLen + usedLen ≥ append.maxLargeWriteLen
  · refine ⟨payloads ++ [append.memory.take append.maxLargeWriteLen], ?_⟩
    simp only [if_pos hfull, carryOver]
    split_ifs with hmore
    · exact { hwrite with }
    · exact { hwrite with }
  · refine ⟨payloads, ?_⟩
    simp only [if_neg hfull]
    exact { h with }

theorem Logged.completeFile (hroom : append.largeWriteLen ≤ append.memory.length) :
    ∃ payloads', append.completeFile.1.xlog = insertsAt eof payloads' ∧
      append.completeFile.2.1 = writeAt original eof payloads'.flatten ∧
      payloads'.flatten = payloads.flatten ++ append.memory.take append.largeWriteLen := by
  by_cases hrest : append.largeWriteLen > 0
  · have hwrite := h.write heof hroom
    refine ⟨payloads ++ [append.memory.take append.largeWriteLen], ?_⟩
    simp only [BufferedAppend.completeFile, if_pos hrest]
    exact ⟨hwrite.xlog_eq, hwrite.file_eq, by rw [flatten_append, flatten_singleton]⟩
  · refine ⟨payloads, ?_⟩
    simp only [BufferedAppend.completeFile, if_neg hrest]
    rw [Nat.eq_zero_of_not_pos hrest, take_zero, append_nil]
    exact ⟨h.xlog_eq, h.file_eq, rfl⟩

end

/-- The state between two steps: `finished` is what the steps so far have finished. -/
structure Wrote (original : List Byte) (eof : Nat) (finished : List Byte)
    (append : BufferedAppend) : Prop where
  inv : append.Inv
  logged : ∃ payloads, append.Logged original eof payloads
  contents_eq : append.contents = original.take eof ++ finished

section

variable {original finished : List Byte} {eof : Nat}

theorem Inv.memory_le (h : append.Inv) : append.maxLargeWriteLen ≤ append.memory.length := by
  rw [h.memory_len]
  exact Nat.le_add_right _ _

section

variable (h : append.Wrote original eof finished)

include h

theorem Wrote.nextBufferPosition_eq
    (heof : eof ≤ original.length) : append.nextBufferPosition = eof + finished.length := by
  rw [← h.inv.length_contents, h.contents_eq, length_append, length_take_of_le heof]

theorem Wrote.getBuffer {bufferLen : Nat} (hlength : bufferLen ≤ append.maxBufferLen) :
    ∃ got, append.getBuffer bufferLen = .ok got ∧ got.Wrote original eof finished ∧
      got.bufferLen = bufferLen ∧ got.maxBufferLen = append.maxBufferLen := by
  obtain ⟨payloads, hlogged⟩ := h.logged
  exact ⟨_, if_neg (Nat.not_lt.mpr hlength), ⟨{ h.inv with },
    ⟨payloads, hlogged.position_eq, hlogged.file_eq, hlogged.xlog_eq⟩, h.contents_eq⟩, rfl, rfl⟩

theorem Wrote.fill {buffer : List Byte} (hlength : buffer.length ≤ append.maxBufferLen) :
    (append.fill buffer).Wrote original eof finished := by
  obtain ⟨payloads, hlogged⟩ := h.logged
  refine ⟨h.inv.fill buffer hlength,
    ⟨payloads, hlogged.position_eq, hlogged.file_eq, hlogged.xlog_eq⟩, ?_⟩
  have hlarge := h.inv.large_lt
  have hmemory := h.inv.memory_le
  have hfront : (append.memory.take append.largeWriteLen).length = append.largeWriteLen :=
    length_take_of_le (by omega)
  rw [← h.contents_eq, contents, contents]
  congr 1
  show (writeAt append.memory append.largeWriteLen buffer).take append.largeWriteLen = _
  rw [writeAt, append_assoc, take_left' hfront]

/-- The used part of a filled buffer is finished. -/
theorem Wrote.finishBuffer (heof : eof ≤ original.length)
    {buffer : List Byte} (hbuffer : append.bufferLen = buffer.length)
    (hlength : buffer.length ≤ append.maxBufferLen) {usedLen : Nat}
    (hused : usedLen ≤ buffer.length) (uncompressed : Nat) :
    ∃ next, (append.fill buffer).finishBuffer usedLen uncompressed = .ok next ∧
      next.Wrote original eof (finished ++ buffer.take usedLen) ∧
      next.maxBufferLen = append.maxBufferLen := by
  have hfill := h.fill hlength
  -- The used part stands in the memory already.
  have hagain : (append.fill buffer).fill (buffer.take usedLen) = append.fill buffer := by
    have hlarge := h.inv.large_lt
    have hmemory := h.inv.memory_len
    simp only [BufferedAppend.fill]
    rw [writeAt_take (by omega) hused]
  obtain ⟨next, hnext, hinv, hcontents, hmax, -⟩ := finishBuffer_spec hfill.inv
    (length_take_of_le hused) (le_of_le_of_eq hused hbuffer.symm)
    (le_of_eq_of_le hbuffer hlength) uncompressed
  rw [hagain] at hnext
  obtain ⟨payloads, hlogged⟩ := hfill.logged
  refine ⟨next, hnext, ⟨hinv, hlogged.finishBuffer heof hfill.inv.memory_le hnext, ?_⟩, hmax⟩
  rw [hcontents, hfill.contents_eq, append_assoc]

/-- Each step finishes its bytes. -/
theorem Wrote.step (heof : eof ≤ original.length)
    {step : AppendStep} (hfits : step.Fits append.maxBufferLen) :
    ∃ got next, append.getBuffer step.buffer.length = .ok got ∧
      (got.fill step.buffer).nextBufferPosition = eof + finished.length ∧
      append.step step = .ok next ∧ next.Wrote original eof (finished ++ step.finishedBytes) ∧
      next.maxBufferLen = append.maxBufferLen := by
  have hlength := hfits.length_le
  obtain ⟨got, hgot, hwrote, hbuffer, hmax⟩ := h.getBuffer hlength
  rw [← hmax] at hlength
  have hfill := hwrote.fill hlength
  have hposition := hfill.nextBufferPosition_eq heof
  cases step with
  | finish buffer usedLen uncompressed =>
    obtain ⟨next, hnext, hwrote', hmax'⟩ :=
      hwrote.finishBuffer heof hbuffer hlength hfits.2 uncompressed
    refine ⟨got, next, hgot, hposition, ?_, hwrote', hmax'.trans hmax⟩
    rw [BufferedAppend.step]
    exact hgot ▸ hnext
  | cancel buffer =>
    obtain ⟨payloads, hlogged⟩ := hfill.logged
    refine ⟨got, (got.fill buffer).cancelLastBuffer, hgot, hposition, ?_,
      ⟨{ hfill.inv with }, ⟨payloads, hlogged.position_eq, hlogged.file_eq, hlogged.xlog_eq⟩,
        ?_⟩, hmax⟩
    · rw [BufferedAppend.step]
      exact hgot ▸ rfl
    · rw [AppendStep.finishedBytes, append_nil]
      exact hfill.contents_eq

end

/-- The steps one after the other. -/
theorem Wrote.steps (heof : eof ≤ original.length) (steps : List AppendStep) :
    ∀ {append : BufferedAppend} {finished : List Byte}, append.Wrote original eof finished →
      (∀ step ∈ steps, step.Fits append.maxBufferLen) → ∃ next, append.steps steps = .ok next ∧
        next.Wrote original eof (finished ++ steps.flatMap AppendStep.finishedBytes) ∧
        next.maxBufferLen = append.maxBufferLen := by
  induction steps with
  | nil =>
    intro append finished h _
    exact ⟨append, rfl, by rwa [flatMap_nil, append_nil], rfl⟩
  | cons step rest ih =>
    intro append finished h hfits
    obtain ⟨-, next, -, -, hnext, hwrote, hmax⟩ := h.step heof (hfits step mem_cons_self)
    obtain ⟨last, hlast, hwrote', hmax'⟩ := ih hwrote fun other hmem => by
      rw [hmax]
      exact hfits other (mem_cons_of_mem _ hmem)
    refine ⟨last, ?_, by rwa [flatMap_cons, ← append_assoc], hmax'.trans hmax⟩
    rw [BufferedAppend.steps, foldlM_cons, hnext]
    exact hlast

end

end BufferedAppend

/-- A file that is opened at `eof` and completed has grown by what was finished; the log has
the same bytes at the same places. -/
theorem completedFile_finished {maxBufferLen maxLargeWriteLen : Nat} (hpos : 0 < maxBufferLen)
    (hle : maxBufferLen ≤ maxLargeWriteLen) {memory : List Byte}
    (hmemory : memory.length = bufferedAppendMemoryLen maxBufferLen maxLargeWriteLen)
    {file : List Byte} {eof : Nat} (heof : eof ≤ file.length) (eofUncompressed : Nat)
    (steps : List AppendStep) (hfits : ∀ step ∈ steps, step.Fits maxBufferLen) :
    let opened := (bufferedAppendInit memory maxBufferLen maxLargeWriteLen).setFile file eof
      eofUncompressed
    let finished := steps.flatMap AppendStep.finishedBytes
    (∀ earlier step later, steps = earlier ++ step :: later →
      ∃ reached got, opened.steps earlier = .ok reached ∧ reached.nextBufferPosition =
          eof + (earlier.flatMap AppendStep.finishedBytes).length ∧
        reached.getBuffer step.buffer.length = .ok got ∧
        (got.fill step.buffer).nextBufferPosition = reached.nextBufferPosition) ∧
    ∃ last completed uncompressed payloads, opened.steps steps = .ok last ∧
      last.nextBufferPosition = eof + finished.length ∧
      last.completeFile =
        (completed, writeAt file eof finished, eof + finished.length, uncompressed) ∧
      completed.xlog = insertsAt eof payloads ∧ payloads.flatten = finished := by
  intro opened finished
  have hidle : (bufferedAppendInit memory maxBufferLen maxLargeWriteLen).Idle :=
    ⟨⟨hpos, hle, hmemory⟩, rfl⟩
  obtain ⟨hinv, hcontents⟩ := hidle.setFile heof eofUncompressed
  have hopened : opened.Wrote file eof [] := by
    refine ⟨hinv, ⟨[], rfl, ?_, rfl⟩, ?_⟩
    · rw [flatten_nil, writeAt, append_nil]
      exact (take_append_drop eof file).symm
    · rw [append_nil]
      exact hcontents
  constructor
  · intro earlier step later hsplit
    obtain ⟨reached, hreached, hwrote, hmax⟩ := BufferedAppend.Wrote.steps heof earlier hopened
      fun item hmem => hfits item (hsplit ▸ mem_append_left _ hmem)
    have hstep : step.Fits opened.maxBufferLen :=
      hfits step (hsplit ▸ mem_append_right _ mem_cons_self)
    obtain ⟨got, -, hgot, hposition, -⟩ := hwrote.step heof (hmax ▸ hstep)
    have hreachedPosition := hwrote.nextBufferPosition_eq heof
    exact ⟨reached, got, hreached, hreachedPosition, hgot, hposition.trans hreachedPosition.symm⟩
  · obtain ⟨last, hlast, hwrote, -⟩ := BufferedAppend.Wrote.steps heof steps hopened hfits
    obtain ⟨payloads, hlogged⟩ := hwrote.logged
    have hlarge := hwrote.inv.large_lt
    have hroom := hwrote.inv.memory_le
    obtain ⟨payloads', hxlog, hfile, hflat⟩ := hlogged.completeFile heof (by omega)
    obtain ⟨completed, written, uncompressed, hcomplete, -⟩ :=
      BufferedAppend.completeFile_spec hwrote.inv
    have hposition := hwrote.nextBufferPosition_eq heof
    rw [← hwrote.inv.length_contents] at hposition
    have hall : payloads'.flatten = finished := by
      have hsame := (hlogged.contents_eq heof).symm.trans hwrote.contents_eq
      rw [← hflat] at hsame
      exact append_cancel_left hsame
    rw [hcomplete] at hxlog hfile
    rw [hall] at hfile
    refine ⟨last, completed, uncompressed, payloads', hlast, ?_, ?_, hxlog, hall⟩
    · exact hwrote.nextBufferPosition_eq heof
    · rw [hcomplete, hposition]
      exact congrArg _ (congrArg (·, _) hfile)

namespace AppendRunsWitness

/-- The second buffer lies across the end of a large write; the third is cancelled. -/
def threeSteps : List AppendStep := [.finish [1, 2] 2 2, .finish [3, 4] 2 2, .cancel [9]]

theorem threeSteps_finished : threeSteps.flatMap AppendStep.finishedBytes = [1, 2, 3, 4] ∧
    let opened := (bufferedAppendInit (List.replicate 5 0) 2 3).setFile [7, 8] 1 1
    let finished := threeSteps.flatMap AppendStep.finishedBytes
    (∀ earlier step later, threeSteps = earlier ++ step :: later →
      ∃ reached got, opened.steps earlier = .ok reached ∧ reached.nextBufferPosition =
          1 + (earlier.flatMap AppendStep.finishedBytes).length ∧
        reached.getBuffer step.buffer.length = .ok got ∧
        (got.fill step.buffer).nextBufferPosition = reached.nextBufferPosition) ∧
    ∃ last completed uncompressed payloads, opened.steps threeSteps = .ok last ∧
      last.nextBufferPosition = 1 + finished.length ∧
      last.completeFile =
        (completed, writeAt [7, 8] 1 finished, 1 + finished.length, uncompressed) ∧
      completed.xlog = insertsAt 1 payloads ∧ payloads.flatten = finished :=
  ⟨by decide, completedFile_finished (by decide) (by decide) rfl (by decide) 1 threeSteps
    (by decide)⟩

end AppendRunsWitness

end Greenplum.AoStorage
