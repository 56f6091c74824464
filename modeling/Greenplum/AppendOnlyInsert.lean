/-
Rows of a row-oriented append-only table that are too long for a VarBlock
(appendonlyam.c, with `useNoToast`): such a row is written as large content, after which
the next block is set up before the number of the row is taken.  The storage is a list of
logical blocks here, each with its rows; how it keeps their bytes is not part of this.
-/
import Greenplum.VarBlockRoundTrip
import Mathlib.Data.List.Nodup

namespace Greenplum.AppendOnly

open VarBlock List

section

/-- A tuple has a header at least, and its memory was allocated (`MaxAllocSize`). -/
structure MemTuple where
  bytes : List Byte
  nonempty : bytes ≠ []
  allocated : bytes.length < 2 ^ 30
deriving DecidableEq

/-- The memory in which the VarBlocks of an insertion are made, for blocks of at most 2 MB. -/
structure VarBlockSpace where
  buffer : List Byte
  maxDataLen : Nat
  tempSpace : List Byte
  header_le : headerLen ≤ maxDataLen
  le_buffer : maxDataLen ≤ buffer.length
  maxDataLen_le : maxDataLen ≤ 2 ^ 21

/-- A VarBlock without rows. -/
def VarBlockSpace.fresh (space : VarBlockSpace) : VarBlockMaker :=
  makerInit space.buffer space.maxDataLen space.tempSpace space.tempSpace.length

/-- A row that has no room in a VarBlock without rows. -/
def VarBlockSpace.isLarge (space : VarBlockSpace) (tup : MemTuple) : Bool :=
  (makerGetNextItemPtr space.fresh tup.bytes.length).isNone

inductive ExecutorBlockKind where
  | varBlock
  | singleRow
deriving Repr, DecidableEq

/-- A logical block of the storage, which gives it back as it was written.  Its first row
number is stored if it was set when the block was written. -/
structure Block where
  executorBlockKind : ExecutorBlockKind
  firstRowNum : Option Nat
  rows : List MemTuple

/-- The state of an insertion: `firstRowNum` is that of the storage for its next block,
`nonCompressedData` tells whether a buffer of the storage is allocated, and `rows` are in
the VarBlock that is being made. -/
structure InsertDesc where
  shouldCompress : Bool
  lastSequence : Nat
  firstRowNum : Option Nat
  nonCompressedData : Bool
  varBlockMaker : VarBlockMaker
  rows : List MemTuple
  file : List Block

/-- `AOSmallContentHeader_MaxRowCount`. -/
def maxRowCount : Nat := 0x3FFF

variable (desc : InsertDesc) (tup : MemTuple)

def setupNextWriteBlock : InsertDesc :=
  let maker := desc.varBlockMaker
  { desc with
    firstRowNum := some (desc.lastSequence + 1)
    nonCompressedData := !desc.shouldCompress
    varBlockMaker := makerInit maker.buffer maker.maxBufferLen maker.tempScratchSpace
      maker.tempScratchSpaceLen
    rows := [] }

/-- The storage turns the first row number off when its buffer is cancelled. -/
def cancelLastBuffer : InsertDesc :=
  if desc.nonCompressedData then
    { desc with nonCompressedData := false, firstRowNum := none }
  else desc

/-- `AppendOnlyStorageWrite_Content` or `AppendOnlyStorageWrite_FinishBuffer`. -/
def writeBlock (kind : ExecutorBlockKind) (rows : List MemTuple) : InsertDesc :=
  { desc with
    file := desc.file ++ [⟨kind, desc.firstRowNum, rows⟩]
    firstRowNum := none
    nonCompressedData := false }

def finishWriteBlock : InsertDesc :=
  if desc.varBlockMaker.currentItemCount = 0 then cancelLastBuffer desc
  else
    writeBlock desc
      (if desc.varBlockMaker.currentItemCount = 1 then .singleRow else .varBlock) desc.rows

/-- Place the tuple in the VarBlock, if there is room. -/
def placeItem : Option InsertDesc :=
  (makerGetNextItemPtr desc.varBlockMaker tup.bytes.length).map fun (itemPtr, maker) =>
    { desc with
      varBlockMaker :=
        { maker with buffer := ByteMemory.writeAt maker.buffer itemPtr tup.bytes }
      rows := desc.rows ++ [tup] }

/-- Write the tuple as large content. -/
def writeLargeContent : InsertDesc :=
  setupNextWriteBlock (writeBlock (cancelLastBuffer desc) .singleRow [tup])

/-- Where `appendonly_insert` puts the tuple, and whether it is large content. -/
def storeItem : InsertDesc × Bool :=
  let first :=
    if maxRowCount ≤ desc.varBlockMaker.currentItemCount then none else placeItem desc tup
  match first with
  | some placed => (placed, false)
  | none =>
    if desc.varBlockMaker.currentItemCount = 0 then (writeLargeContent desc tup, true)
    else
      let next := setupNextWriteBlock (finishWriteBlock desc)
      match placeItem next tup with
      | some placed => (placed, false)
      | none => (writeLargeContent next tup, true)

/-- `appendonly_insert`: the row number it returns is taken after the tuple was stored.
The sequence numbers of a session are consecutive, as nobody else takes them. -/
def insert : InsertDesc × Nat :=
  let stored := (storeItem desc tup).1
  let lastSequence := stored.lastSequence + 1
  ({ stored with lastSequence := lastSequence }, lastSequence)

/-- A session, with the row number of each row. -/
def insertAll (desc : InsertDesc) : List MemTuple → InsertDesc × List Nat
  | [] => (desc, [])
  | tup :: rows =>
    let (next, rowNum) := insert desc tup
    let (final, rowNums) := insertAll next rows
    (final, rowNum :: rowNums)

/-- `appendonly_insert_init` on a segment file with this content; the row numbers go on
behind the last fast sequence. -/
def insertInit (shouldCompress : Bool) (space : VarBlockSpace) (file : List Block)
    (lastSequence : Nat) : InsertDesc :=
  setupNextWriteBlock {
    shouldCompress := shouldCompress
    lastSequence := lastSequence
    firstRowNum := none
    nonCompressedData := false
    varBlockMaker := space.fresh
    rows := []
    file := file }

end

/-- The rows of a block under their row numbers, and the row number behind them.  A block
without a stored number goes on where the last one has ended. -/
def scanBlock (blockFirstRowNum : Nat) (block : Block) : List (MemTuple × Nat) × Nat :=
  let first := block.firstRowNum.getD blockFirstRowNum
  let rows := match block.executorBlockKind with
    | .varBlock => block.rows.zipIdx first
    | .singleRow => block.rows.head?.toList.map fun tup => (tup, first)
  (rows, first + block.rows.length)

def scanBlocks (blockFirstRowNum : Nat) : List Block → List (MemTuple × Nat) × Nat
  | [] => ([], blockFirstRowNum)
  | block :: blocks =>
    let (rows, next) := scanBlock blockFirstRowNum block
    let (more, last) := scanBlocks next blocks
    (rows ++ more, last)

/-- A full scan of a segment file. -/
def scan (file : List Block) : List (MemTuple × Nat) := (scanBlocks 1 file).1

/-- The row number that a scan is at behind the last block. -/
def scanEnd (file : List Block) : Nat := (scanBlocks 1 file).2

theorem scanBlocks_append (start : Nat) (file more : List Block) : scanBlocks start (file ++ more) =
      ((scanBlocks start file).1 ++ (scanBlocks (scanBlocks start file).2 more).1,
        (scanBlocks (scanBlocks start file).2 more).2) := by
  induction file generalizing start with
  | nil => rfl
  | cons block file ih => simp [scanBlocks, ih]

theorem scan_concat (file : List Block) (block : Block) :
    scan (file ++ [block]) = scan file ++ (scanBlock (scanEnd file) block).1 ∧
      scanEnd (file ++ [block]) = (scanBlock (scanEnd file) block).2 := by
  simp [scan, scanEnd, scanBlocks_append, scanBlocks]

section

variable {maker : VarBlockMaker} {space : VarBlockSpace} {tup : MemTuple} {small : Bool}
  {items : List (List Byte)} {itemLen : Nat}

/-- There is room for an item of this length in a VarBlock without items. -/
def HasRoom (maker : VarBlockMaker) (itemLen : Nat) : Prop :=
  2 ≤ maker.tempScratchSpaceLen ∧ headerLen + evenLen itemLen + 2 ≤ maker.maxBufferLen

/-- What is in a VarBlock is far from the bounds of the arithmetic. -/
theorem filled_lt (h : Filled maker small items) (hmax : maker.maxBufferLen ≤ 2 ^ 21) :
    items.flatten.length ≤ 2 ^ 21 ∧ items.length < 2 ^ 24 := by
  have hfits := h.fits
  have hsum := le_evenLen items.flatten.length
  have hcount := le_evenLen (items.length * entryLen small)
  have hentries := Nat.le_mul_of_pos_right items.length (entryLen_pos small)
  omega

/-- An item that has room behind others has room without them. -/
theorem hasRoom_of_some (h : Filled maker small items) (hmax : maker.maxBufferLen ≤ 2 ^ 21)
    (hlen : itemLen < 2 ^ 30) {result : Nat × VarBlockMaker}
    (hget : makerGetNextItemPtr maker itemLen = some result) : HasRoom maker itemLen := by
  obtain ⟨hsum, hcount⟩ := filled_lt h hmax
  have hnew : int32 (maker.currentItemLenSum + itemLen) =
      (items.flatten.length + itemLen : Nat) := by
    rw [h.sum]
    exact int32_eq (by omega) (by omega)
  have hmost := h.most
  unfold HasRoom
  rw [makerGetNextItemPtr] at hget
  simp only [hnew, getOffsetsAreSmall_maker h.word03, h.count,
    newTotalLenSmall_eq (show items.flatten.length + itemLen < _ by omega) hcount,
    newTotalLenLarge_eq (show items.flatten.length + itemLen < _ by omega) hcount,
    Int.ofNat_lt, evenLen, byteOffset24Len] at hget ⊢
  split_ifs at hget with hfull hsmall hfar hlong hmany hlong hlong
  · omega
  · rw [hsmall, entryLen, if_pos rfl] at hmost
    omega
  · rw [eq_false_of_ne_true hsmall, entryLen, if_neg Bool.false_ne_true] at hmost
    omega

theorem isNone_iff (h : Filled maker true []) (hlen : itemLen < 2 ^ 30) :
    (makerGetNextItemPtr maker itemLen).isNone = true ↔ ¬ HasRoom maker itemLen := by
  have hnew : int32 (maker.currentItemLenSum + itemLen) = (itemLen : Nat) := by
    rw [h.sum]
    exact int32_eq (by simp) (by omega)
  have hmost := h.most
  have hnear : ¬ last2ByteOffset < maker.nextItemPtr := by
    rw [h.next]
    decide
  rw [entryLen, if_pos rfl] at hmost
  unfold HasRoom
  rw [makerGetNextItemPtr]
  simp only [hnew, getOffsetsAreSmall_maker h.word03, h.count, if_neg hnear,
    newTotalLenSmall_eq (show itemLen < _ by omega) (show 0 < 2 ^ 24 by decide), Int.ofNat_lt,
    length_nil, evenLen]
  split_ifs <;> simp <;> omega

/-- A VarBlock that is being made holds the rows, in the memory of the insertion. -/
structure Makes (space : VarBlockSpace) (maker : VarBlockMaker) (rows : List MemTuple) :
    Prop where
  filled : ∃ small, Filled maker small (rows.map (·.bytes)) ∧ (rows = [] → small = true)
  maxBufferLen : maker.maxBufferLen = space.maxDataLen
  tempLen : maker.tempScratchSpaceLen = space.tempSpace.length

theorem VarBlockSpace.makes (space : VarBlockSpace) : Makes space space.fresh [] :=
  ⟨⟨true, makerInit_filled space.header_le space.le_buffer, fun _ => rfl⟩, rfl, rfl⟩

variable {rows : List MemTuple} (h : Makes space maker rows)

include h

theorem Makes.isLarge_iff : space.isLarge tup = true ↔ ¬ HasRoom maker tup.bytes.length := by
  unfold HasRoom
  rw [h.maxBufferLen, h.tempLen]
  exact isNone_iff (makerInit_filled space.header_le space.le_buffer) tup.allocated

theorem Makes.renew : Makes space (makerInit maker.buffer maker.maxBufferLen
    maker.tempScratchSpace maker.tempScratchSpaceLen) [] := by
  obtain ⟨small, hfilled, -⟩ := h.filled
  have hscratch := hfilled.scratch_len
  rw [← hscratch]
  exact ⟨⟨true, makerInit_filled (h.maxBufferLen ▸ space.header_le) hfilled.buffer_len,
    fun _ => rfl⟩, h.maxBufferLen, hscratch.trans h.tempLen⟩

theorem Makes.push {itemPtr : Nat} {next : VarBlockMaker}
    (hget : makerGetNextItemPtr maker tup.bytes.length = some (itemPtr, next)) :
    Makes space { next with buffer := ByteMemory.writeAt next.buffer itemPtr tup.bytes }
      (rows ++ [tup]) ∧ space.isLarge tup = false := by
  obtain ⟨small, hfilled, -⟩ := h.filled
  have hmax : maker.maxBufferLen ≤ 2 ^ 21 := h.maxBufferLen ▸ space.maxDataLen_le
  have hroom := hasRoom_of_some hfilled hmax tup.allocated hget
  refine ⟨?_, Bool.eq_false_iff.mpr fun hlarge => h.isLarge_iff.mp hlarge hroom⟩
  have hadd : makerAddItem maker tup.bytes = ({ next with
      buffer := ByteMemory.writeAt next.buffer itemPtr tup.bytes }, true) := by
    rw [makerAddItem, hget]
  have hlen := tup.allocated
  obtain ⟨hsum, hcount⟩ := filled_lt hfilled hmax
  obtain ⟨small', hnext⟩ := makerAddItem_filled hfilled (by omega) hcount
    (congrArg Prod.snd hadd)
  obtain ⟨hbufferLen, htempLen⟩ := makerAddItem_lens maker tup.bytes
  rw [hadd] at hnext hbufferLen htempLen
  refine ⟨⟨small', ?_, fun hnone => absurd hnone (concat_ne_nil _ _)⟩,
    hbufferLen.trans h.maxBufferLen, htempLen.trans h.tempLen⟩
  simpa using hnext

theorem Makes.isLarge (hrows : rows = [])
    (hget : makerGetNextItemPtr maker tup.bytes.length = none) : space.isLarge tup = true := by
  obtain ⟨small, hfilled, hsmall⟩ := h.filled
  rw [hsmall hrows, hrows] at hfilled
  rw [h.isLarge_iff, ← isNone_iff hfilled tup.allocated, hget]
  rfl

end

section

variable (space : VarBlockSpace) (desc : InsertDesc) (first : Nat)

/-- Between two insertions: the first row number for the block is set, a buffer is
allocated unless it is to be compressed, and the VarBlock holds the rows. -/
structure Ready : Prop where
  firstRowNum : desc.firstRowNum = some first
  allocated : desc.nonCompressedData = !desc.shouldCompress
  makes : Makes space desc.varBlockMaker desc.rows

/-- What a scan reports once the block is finished. -/
def reported : List (MemTuple × Nat) :=
  scan desc.file ++ desc.rows.zipIdx first

/-- The row number that such a scan is at then. -/
def due : Nat :=
  if desc.rows = [] then scanEnd desc.file else first + desc.rows.length

/-- The number a row is reported under that is written as large content. -/
def largeRowNum : Nat :=
  if desc.shouldCompress then first else scanEnd desc.file

/-- The next row of the VarBlock is reported under the next sequence number, or under the
one before that if the block was set up for a large row. -/
structure Lags (lag : Bool) : Prop where
  next : first + desc.rows.length + lag.toNat = desc.lastSequence + 1
  empty : lag = true → desc.rows = []

/-- How a row is stored: in the VarBlock, or as large content if that is empty. -/
inductive Stores (desc : InsertDesc) (tup : MemTuple) : InsertDesc → Bool → Prop
  | placed {stored : InsertDesc} (h : placeItem desc tup = some stored) :
      Stores desc tup stored false
  | large (h : desc.rows = []) (hfull : placeItem desc tup = none) :
      Stores desc tup (writeLargeContent desc tup) true

/-- A row is reported once, behind the rows before it; its number is one behind if the
block lags, and that of large content without compression is the number that is due. -/
structure Reports (tup : MemTuple) (stored : InsertDesc) (large : Bool) (number next : Nat) :
    Prop where
  ready : Ready space stored next
  large_eq : large = space.isLarge tup
  reported : AppendOnly.reported stored next = AppendOnly.reported desc first ++ [(tup, number)]
  compress : stored.shouldCompress = desc.shouldCompress
  lastSequence : stored.lastSequence = desc.lastSequence
  numbered : ∀ lag, Lags desc first lag →
    if large && !desc.shouldCompress then number = due desc first
    else number + lag.toNat = desc.lastSequence + 1
  right : number = desc.lastSequence + 1 →
    next + stored.rows.length + large.toNat = desc.lastSequence + 2 ∧
      (large = true → stored.rows = []) ∧ due stored next = desc.lastSequence + 2

variable {space desc first} {tup : MemTuple}

theorem setupNextWriteBlock_ready {rows : List MemTuple}
    (h : Makes space desc.varBlockMaker rows) :
    Ready space (setupNextWriteBlock desc) (desc.lastSequence + 1) :=
  ⟨rfl, rfl, h.renew⟩

variable (h : Ready space desc first)

include h

theorem Ready.count : desc.varBlockMaker.currentItemCount = desc.rows.length := by
  obtain ⟨small, hfilled, -⟩ := h.makes.filled
  rw [hfilled.count, length_map]

theorem finishWriteBlock_scan :
    scan (finishWriteBlock desc).file = reported desc first ∧
      scanEnd (finishWriteBlock desc).file = due desc first := by
  unfold finishWriteBlock reported due
  rw [h.count]
  match hrows : desc.rows with
  | [] =>
    simp only [length_nil, if_true, cancelLastBuffer]
    split <;> simp
  | [tup] =>
    simp only [writeBlock, h.firstRowNum]
    exact scan_concat desc.file ⟨.singleRow, some first, [tup]⟩
  | tup :: other :: rows =>
    simp only [writeBlock, h.firstRowNum]
    exact scan_concat desc.file ⟨.varBlock, some first, tup :: other :: rows⟩

theorem placeItem_spec {placed : InsertDesc} (hplaced : placeItem desc tup = some placed) :
    Ready space placed first ∧ space.isLarge tup = false ∧ placed = { desc with
      varBlockMaker := placed.varBlockMaker, rows := desc.rows ++ [tup] } := by
  obtain ⟨⟨itemPtr, maker⟩, hget, rfl⟩ := Option.map_eq_some_iff.mp hplaced
  obtain ⟨hmakes, hsmall⟩ := h.makes.push hget
  exact ⟨⟨h.firstRowNum, h.allocated, hmakes⟩, hsmall, rfl⟩

theorem cancelLastBuffer_eq : cancelLastBuffer desc = { desc with
    nonCompressedData := false
    firstRowNum := if desc.shouldCompress then some first else none } := by
  obtain ⟨hfirst, hallocated, -⟩ := h
  unfold cancelLastBuffer
  cases hcompress : desc.shouldCompress with
  | true =>
    rw [hcompress] at hallocated
    rw [if_neg (by simp [hallocated]), if_pos rfl, ← hfirst, ← hcompress]
    exact congrArg (fun data => { desc with nonCompressedData := data }) hallocated
  | false =>
    rw [if_pos (by simp [hallocated, hcompress])]
    rfl

theorem writeLargeContent_scan (tup : MemTuple) :
    scan (writeLargeContent desc tup).file = scan desc.file ++ [(tup, largeRowNum desc first)] ∧
      scanEnd (writeLargeContent desc tup).file = largeRowNum desc first + 1 := by
  have hscan := scan_concat desc.file
    ⟨.singleRow, if desc.shouldCompress then some first else none, [tup]⟩
  rw [writeLargeContent, cancelLastBuffer_eq h, largeRowNum]
  cases hcompress : desc.shouldCompress <;> rw [hcompress] at hscan <;> exact hscan

theorem storeItem_cases (tup : MemTuple) :
    Stores desc tup (storeItem desc tup).1 (storeItem desc tup).2 ∨
      desc.rows ≠ [] ∧ Stores (setupNextWriteBlock (finishWriteBlock desc)) tup
        (storeItem desc tup).1 (storeItem desc tup).2 := by
  have hempty : desc.varBlockMaker.currentItemCount = 0 ↔ desc.rows = [] := by
    rw [h.count, length_eq_zero_iff]
  unfold storeItem
  dsimp only
  split
  case h_1 placed hplaced =>
    split_ifs at hplaced
    exact .inl (.placed hplaced)
  case h_2 hfull =>
    split_ifs with hcount
    · rw [hcount, if_neg (by decide)] at hfull
      exact .inl (.large (hempty.mp hcount) hfull)
    · refine .inr ⟨mt hempty.mpr hcount, ?_⟩
      split
      case h_1 placed hplaced => exact .placed hplaced
      case h_2 hfull => exact .large rfl hfull

theorem Stores.reports {stored : InsertDesc} {large : Bool}
    (hstored : Stores desc tup stored large) :
    ∃ number next, Reports space desc first tup stored large number next := by
  cases hstored with
  | placed hplaced =>
    obtain ⟨hready, hsmall, heq⟩ := placeItem_spec h hplaced
    refine ⟨first + desc.rows.length, first, hready, hsmall.symm, ?_, ?_, ?_, ?_, ?_⟩
    · rw [heq]
      simp [AppendOnly.reported, zipIdx_append]
    · rw [heq]
    · rw [heq]
    · exact fun lag hlag => hlag.next
    · rw [heq]
      simp [due]
      omega
  | large hrows hfull =>
    obtain ⟨hscan, hend⟩ := writeLargeContent_scan h tup
    have hcancel := cancelLastBuffer_eq h
    have hget := Option.map_eq_none_iff.mp hfull
    refine ⟨largeRowNum desc first, desc.lastSequence + 1, ?_,
      (h.makes.isLarge hrows hget).symm, ?_, ?_, ?_, ?_, ?_⟩
    · rw [writeLargeContent, hcancel]
      exact setupNextWriteBlock_ready h.makes
    · rw [AppendOnly.reported, hscan, AppendOnly.reported, hrows]
      simp [writeLargeContent, setupNextWriteBlock]
    · rw [writeLargeContent, hcancel]
      rfl
    · rw [writeLargeContent, hcancel]
      rfl
    · intro lag hlag
      have hnext := hlag.next
      rw [hrows] at hnext
      cases hkind : desc.shouldCompress <;> simp [largeRowNum, due, hkind, hrows]
      simpa using hnext
    · intro hnumber
      refine ⟨rfl, fun _ => rfl, ?_⟩
      rw [due, if_pos (show (writeLargeContent desc tup).rows = [] from rfl), hend, hnumber]

/-- The block before is finished first if the row has no room in it. -/
theorem storeItem_reports (tup : MemTuple) : ∃ number next,
    Reports space desc first tup (storeItem desc tup).1 (storeItem desc tup).2 number next := by
  rcases storeItem_cases h tup with hstored | ⟨hrows, hstored⟩
  · exact hstored.reports h
  · obtain ⟨hscan, hend⟩ := finishWriteBlock_scan h
    have hfinish : finishWriteBlock desc = writeBlock desc
        (if desc.varBlockMaker.currentItemCount = 1 then .singleRow else .varBlock) desc.rows := by
      rw [finishWriteBlock, if_neg (by simpa [h.count] using hrows)]
    have hmakes : Makes space (finishWriteBlock desc).varBlockMaker desc.rows := by
      rw [hfinish]
      exact h.makes
    obtain ⟨number, next, hreports⟩ := hstored.reports (setupNextWriteBlock_ready hmakes)
    rw [hfinish] at hreports hscan hend
    refine ⟨number, next, hreports.ready, hreports.large_eq, ?_, hreports.compress,
      hreports.lastSequence, ?_, hreports.right⟩
    · rw [hreports.reported, ← hscan]
      simp [AppendOnly.reported, setupNextWriteBlock]
    · intro lag hlag
      have hsame : lag = false := by
        cases lag with
        | true => exact absurd (hlag.empty rfl) hrows
        | false => rfl
      subst hsame
      rw [← hend]
      exact hreports.numbered false ⟨rfl, nofun⟩

end

section

variable {space : VarBlockSpace} {desc : InsertDesc} {first : Nat}

/-- Only large rows may come behind a large row, and not even these with compression. -/
def MayPrecede (compress before after : Bool) : Prop :=
  before = true → compress = false ∧ after = true

theorem pairwise_mayPrecede_cons {compress lag large : Bool} {rest : List Bool} :
    (lag :: large :: rest).Pairwise (MayPrecede compress) ↔
      MayPrecede compress lag large ∧ (large :: rest).Pairwise (MayPrecede compress) := by
  rw [pairwise_cons]
  refine and_congr_left fun hrest => ⟨fun h => h large mem_cons_self, fun h after hafter => ?_⟩
  rcases mem_cons.mp hafter with rfl | hafter
  · exact h
  · exact fun hlag => (pairwise_cons.mp hrest).1 after hafter (h hlag).2

/-- A large row without compression is reported under the number that is due. -/
def StartsRight (desc : InsertDesc) (first : Nat) (large : List Bool) : Prop :=
  large.head? = some true → desc.shouldCompress = true ∨ due desc first = desc.lastSequence + 1

theorem Reports.right_iff {tup : MemTuple} {stored : InsertDesc} {large lag : Bool}
    {number next : Nat} (h : Reports space desc first tup stored large number next)
    (hlag : Lags desc first lag) (rest : List Bool) :
    number = desc.lastSequence + 1 ↔
      StartsRight desc first (large :: rest) ∧ MayPrecede desc.shouldCompress lag large := by
  have hnumber := h.numbered lag hlag
  unfold StartsRight MayPrecede
  cases hcompress : desc.shouldCompress <;> cases large <;> cases lag <;>
    simp [hcompress] at hnumber ⊢ <;> omega

/-- The rows of a session are reported in order.  They have the numbers that were returned
if and only if large rows are where they may be. -/
theorem insertAll_reports (rows : List MemTuple) (h : Ready space desc first) :
    ∃ numbers next, Ready space (insertAll desc rows).1 next ∧ numbers.length = rows.length ∧
      reported (insertAll desc rows).1 next = reported desc first ++ rows.zip numbers ∧
      (insertAll desc rows).2 = List.range' (desc.lastSequence + 1) rows.length ∧
      ∀ lag, Lags desc first lag →
        (numbers = List.range' (desc.lastSequence + 1) rows.length ↔
          StartsRight desc first (rows.map space.isLarge) ∧
            (lag :: rows.map space.isLarge).Pairwise (MayPrecede desc.shouldCompress)) := by
  induction rows generalizing desc first with
  | nil =>
    refine ⟨[], first, h, rfl, by simp [insertAll], rfl, fun lag _ => iff_of_true rfl ?_⟩
    exact ⟨nofun, pairwise_singleton _ _⟩
  | cons tup rows ih =>
    obtain ⟨number, next, hreports⟩ := storeItem_reports h tup
    have hready : Ready space (insert desc tup).1 next := { hreports.ready with }
    obtain ⟨numbers, final, hfinal, hlength, hreported, hids, hright⟩ := ih hready
    have hsequence : (insert desc tup).1.lastSequence = desc.lastSequence + 1 :=
      congrArg (· + 1) hreports.lastSequence
    have hcompress : (insert desc tup).1.shouldCompress = desc.shouldCompress := hreports.compress
    have hrow : (insert desc tup).2 = desc.lastSequence + 1 := hsequence
    rw [hsequence] at hids hright
    refine ⟨number :: numbers, final, hfinal, by simp [hlength], ?_, ?_, fun lag hlag => ?_⟩
    · rw [zip_cons_cons, append_cons, ← hreports.reported]
      exact hreported
    · rw [length_cons, List.range'_succ, ← hids, ← hrow]
      rfl
    · have hiff := hreports.right_iff hlag (rows.map space.isLarge)
      rw [hreports.large_eq] at hiff
      rw [map_cons, length_cons, List.range'_succ, List.cons.injEq,
        pairwise_mayPrecede_cons, ← and_assoc]
      refine (and_congr_left' hiff).trans (and_congr_right fun hfirst => ?_)
      obtain ⟨hnext, hempty, hdue⟩ := hreports.right (hiff.mpr hfirst)
      rw [hreports.large_eq] at hnext hempty
      rw [hright (space.isLarge tup) ⟨hsequence ▸ hnext, hempty⟩, hcompress]
      exact and_iff_right fun _ => .inr (hdue.trans (congrArg (· + 1) hsequence.symm))

/-- A scan after the session reports its rows under the row numbers that were returned for
them, which are all different. -/
def Faithful (desc : InsertDesc) (rows : List MemTuple) : Prop :=
  let rowNums := (insertAll desc rows).2
  scan (finishWriteBlock (insertAll desc rows).1).file = scan desc.file ++ rows.zip rowNums ∧
    rowNums.Nodup

theorem faithful_iff (h : Ready space desc first) (hlag : Lags desc first false)
    (hrows : desc.rows = []) (rows : List MemTuple) :
    Faithful desc rows ↔ StartsRight desc first (rows.map space.isLarge) ∧
      (rows.map space.isLarge).Pairwise (MayPrecede desc.shouldCompress) := by
  obtain ⟨numbers, next, hfinal, hlength, hreported, hids, hright⟩ := insertAll_reports rows h
  have hscan := (finishWriteBlock_scan hfinal).1.trans hreported
  rw [reported, hrows, zipIdx_nil, append_nil] at hscan
  have hright := hright false hlag
  rw [pairwise_cons, and_iff_right (fun _ _ => nofun)] at hright
  rw [← hright, Faithful, hscan, hids, append_right_inj, and_iff_left nodup_range']
  constructor
  · intro hzip
    have hnumbers := congrArg (List.map Prod.snd) hzip
    rwa [map_snd_zip (Nat.le_of_eq hlength), map_snd_zip (by simp)] at hnumbers
  · rintro rfl
    rfl

end

/-- A session is faithful if and only if, with compression, only its last row is large and,
without, no small row comes behind a large one and a large row at its start has the number
that a scan is at. -/
theorem session_faithful_iff (shouldCompress : Bool) (space : VarBlockSpace)
    (file : List Block) (lastSequence : Nat) (rows : List MemTuple) :
    let large := rows.map space.isLarge
    Faithful (insertInit shouldCompress space file lastSequence) rows ↔
      (large.head? = some true → shouldCompress = true ∨ scanEnd file = lastSequence + 1) ∧
        large.Pairwise (MayPrecede shouldCompress) :=
  faithful_iff (setupNextWriteBlock_ready space.makes) ⟨rfl, nofun⟩ rfl rows

namespace InsertWitness

def space : VarBlockSpace where
  buffer := List.replicate 24 0
  maxDataLen := 24
  tempSpace := List.replicate 8 0
  header_le := by decide
  le_buffer := by decide
  maxDataLen_le := by decide

def short : MemTuple := ⟨[1], by decide, by decide⟩

def long : MemTuple := ⟨List.replicate 20 2, by decide, by decide⟩

theorem short_under_long : ¬ Faithful (insertInit false space [] 0) [long, short] := by
  unfold Faithful
  decide +kernel

/-- A large row at the end of a session is reported under its number. -/
theorem long_behind_short : space.isLarge long = true ∧
    Faithful (insertInit false space [] 0) [short, long] ∧
      Faithful (insertInit true space [] 0) [short, long] := by
  refine ⟨by decide +kernel, (session_faithful_iff false space [] 0 [short, long]).mpr ?_,
    (session_faithful_iff true space [] 0 [short, long]).mpr ?_⟩ <;>
  · unfold MayPrecede
    decide +kernel

end InsertWitness

end Greenplum.AppendOnly
