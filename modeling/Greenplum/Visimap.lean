/-
The visibility map of an append-only table (`appendonly_visimap_entry.c`,
`appendonly_visimap_store.c`, `appendonly_visimap.c`).  A row of the map hides
tuples of one range of row numbers of one segment file; its bitmap is stored
compressed.  An entry that a delete session leaves is appended to a work file; a hash
table keeps the offset of its latest version, which is stored at the end.
-/
import Greenplum.BitmapCompression
import Greenplum.Fallible
import Mathlib.Data.List.AList

namespace Greenplum.Visimap

open BitmapCompression ByteMemory ByteNumbers

/-- APPENDONLY_VISIMAP_MAX_RANGE. -/
def maxRange : Nat := 32768

section

structure AOTupleId where
  bytes01 : BitVec 16
  bytes23 : BitVec 16
  bytes45 : BitVec 16
deriving Repr, DecidableEq

def AOTupleId.segmentFileNum (h : AOTupleId) : Nat :=
  ((h.bytes01 &&& 0xFE00) >>> 9).toNat

def AOTupleId.rowNum (h : AOTupleId) : Nat :=
  (((h.bytes01 &&& 0x01FF).setWidth 64 <<< 31) ||| (h.bytes23.setWidth 64 <<< 15) |||
    (h.bytes45 &&& 0x7FFF).setWidth 64).toNat

/-- The first row number of the range that the tuple is in. -/
def AOTupleId.firstRowNum (h : AOTupleId) : Nat := h.rowNum / maxRange * maxRange

theorem mul_two_pow_or {high low shift : Nat} (hlow : low < 2 ^ shift) :
    high * 2 ^ shift ||| low = high * 2 ^ shift + low := by
  rw [← Nat.shiftLeft_eq, Nat.shiftLeft_add_eq_or_of_lt hlow]

variable (tupleId : AOTupleId)

theorem AOTupleId.segmentFileNum_eq : tupleId.segmentFileNum = tupleId.bytes01.toNat / 2 ^ 9 := by
  rw [AOTupleId.segmentFileNum, BitVec.ushiftRight_and_distrib, BitVec.toNat_and,
    BitVec.toNat_ushiftRight, Nat.shiftRight_eq_div_pow]
  exact (Nat.and_two_pow_sub_one_eq_mod _ 7).trans (Nat.mod_eq_of_lt (by omega))

theorem AOTupleId.rowNum_eq : tupleId.rowNum = tupleId.bytes01.toNat % 2 ^ 9 * 2 ^ 31 +
      (tupleId.bytes23.toNat * 2 ^ 15 + tupleId.bytes45.toNat % 2 ^ 15) := by
  have hhigh : (tupleId.bytes01 &&& 0x01FF).toNat = tupleId.bytes01.toNat % 2 ^ 9 :=
    Nat.and_two_pow_sub_one_eq_mod _ 9
  have hlow : (tupleId.bytes45 &&& 0x7FFF).toNat = tupleId.bytes45.toNat % 2 ^ 15 :=
    Nat.and_two_pow_sub_one_eq_mod _ 15
  rw [← mul_two_pow_or (by omega), ← mul_two_pow_or (by omega)]
  simp only [AOTupleId.rowNum, BitVec.toNat_or, BitVec.toNat_shiftLeft, BitVec.toNat_setWidth,
    hhigh, hlow, Nat.or_assoc, Nat.shiftLeft_eq]
  congr 1
  · omega
  · congr 1 <;> omega

theorem AOTupleId.rowNum_lt : tupleId.rowNum < 2 ^ 40 := by
  rw [tupleId.rowNum_eq]
  omega

end

section

/-- The words of a bitmap set; the null pointer has none. -/
abbrev Bitmapset := List Word

variable (a : Bitmapset)

def bmsCoversMember (x : Nat) : Bool := x / 32 < a.length

def bmsIsMember (x : Nat) (a : Bitmapset) : Bool := (a.getD (x / 32) 0).getLsbD (x % 32)

def bmsIsEmpty : Bool := a.all (· == 0)

def bmsResize (wc : Nat) : Bitmapset :=
  if a.length ≥ wc then a else a ++ List.replicate (wc - a.length) 0

def bmsMakeSingleton (x : Nat) : Bitmapset :=
  List.replicate (x / 32) 0 ++ [1#32 <<< (x % 32)]

def bmsAddMember (x : Nat) : Bitmapset :=
  if x / 32 ≥ a.length then
    List.zipWithAll (fun old new => old.getD 0 ||| new.getD 0) a (bmsMakeSingleton x)
  else a.modify (x / 32) fun word => word ||| 1#32 <<< (x % 32)

end

inductive Error where
  /-- error occured during visimap bitmap decompression -/
  | decompression
  | compression
  /-- negative bitmapset member not allowed -/
  | negativeMember
  /-- failed to read visimap delete spill data -/
  | spillData
  /-- failed to write visimap delete spill key information -/
  | workFileFull
  /-- found a stashed visimap entry without corresponding meta data -/
  | noMetaData
  /-- the tuple to update is not there any more -/
  | updated
  /-- duplicate key value violates unique constraint -/
  | duplicateKey
  /-- the scan of the spill file has not come to its end -/
  | running
deriving Repr, DecidableEq

section

/-- A heap tuple id. -/
abbrev Tid := Nat

/-- The current entry; a number of -1 says that nothing is loaded.  Of `data`
only the bytes up to its VARSIZE are kept. -/
structure Entry where
  data : List Byte
  bitmap : Bitmapset
  segmentFileNum : Int
  firstRowNum : Int
  dirty : Bool
  tupleTid : Option Tid
deriving Repr, DecidableEq

def entryInit : Entry := ⟨[], [], -1, -1, false, none⟩

/-- VARSIZE: the length word stands in network order. -/
def varsize (data : List Byte) : Nat := beNat (data.take 4) % 2 ^ 30

/-- Offset of the bitmap in the on-disk data, behind length and version. -/
def dataHeaderSize : Nat := 8

/-- A row of the visimap table. -/
structure Row where
  tid : Tid
  segno : Int
  firstRowNum : Int
  visimap : Option (List Byte)
deriving Repr, DecidableEq

def Row.key (row : Row) : Int × Int := (row.segno, row.firstRowNum)

variable (entry : Entry) (tupleId : AOTupleId)

/-- `AppendOnlyVisimapEntry_New`. -/
def entryNew : Entry :=
  { entry with
    bitmap := []
    segmentFileNum := tupleId.segmentFileNum
    firstRowNum := tupleId.firstRowNum
    tupleTid := none }

/-- `AppendOnlyVisiMapEnty_ReadData`: the bitmap out of the compressed data. -/
def readData (dataSize : Nat) : Except Error Entry :=
  let (state, _) := bitmapDecompressInit (readAt entry.data dataHeaderSize dataSize) dataSize
  if bitmapDecompressHasError state then .error .decompression
  else if state.blockCount > 0 then
    match bitmapDecompressDecompress state (List.replicate state.blockCount 0) state.blockCount with
    | .error _ => .error .decompression
    | .ok words => .ok { entry with bitmap := words }
  else .ok { entry with bitmap := [] }

def copyout (row : Row) : Except Error Entry :=
  let entry := { entry with segmentFileNum := row.segno, firstRowNum := row.firstRowNum }
  match row.visimap with
  | none => .ok { entry with bitmap := [] }
  | some value =>
    readData { entry with data := value } (varsize value - dataHeaderSize)

def writeData : Except Error Entry :=
  let bitmapSize := 4 * entry.bitmap.length + 2
  match bitmapCompress .default entry.bitmap bitmapSize with
  | .error _ => .error .compression
  | .ok (compressedBitmapSize, out) =>
    .ok { entry with
      data := beBytes 4 ((dataHeaderSize + compressedBitmapSize) % 2 ^ 30) ++
        leBytes 4 1 ++ out.take compressedBitmapSize }

/-- The values of the tuple that the entry is persisted as. -/
def entryWrite : Except Error (Option (List Byte) × Entry) :=
  if bmsIsEmpty entry.bitmap then .ok (none, { entry with dirty := false })
  else
    match writeData entry with
    | .error error => .error error
    | .ok entry => .ok (some entry.data, { entry with dirty := false })

def isValid : Bool := 0 ≤ entry.segmentFileNum ∧ 0 ≤ entry.firstRowNum

def coversTuple : Bool :=
  isValid entry && entry.segmentFileNum == tupleId.segmentFileNum &&
    decide (entry.firstRowNum ≤ tupleId.rowNum ∧ entry.firstRowNum + maxRange > tupleId.rowNum)

def getRownumOffset (rowNum : Nat) : Int := rowNum - entry.firstRowNum

def entryIsVisible : Except Error Bool :=
  if bmsIsEmpty entry.bitmap then .ok true
  else if getRownumOffset entry tupleId.rowNum < 0 then .error .negativeMember
  else .ok !(bmsIsMember (getRownumOffset entry tupleId.rowNum).toNat entry.bitmap)

/-- The number of words that covers the offset, rounded up to a power of two. -/
def getMinimalSizeToCover (offset : Nat) : Nat :=
  let minSize := BitVec.ofNat 32 (offset / 32 + 1) - 1
  let minSize := minSize ||| minSize >>> 1
  let minSize := minSize ||| minSize >>> 2
  let minSize := minSize ||| minSize >>> 4
  let minSize := minSize ||| minSize >>> 8
  let minSize := minSize ||| minSize >>> 16
  (minSize + 1).toNat

inductive HTSUResult where
  | mayBeUpdated
  | selfUpdated
  | updated
deriving Repr, DecidableEq

def hideTuple : Except Error (HTSUResult × Entry) :=
  if getRownumOffset entry tupleId.rowNum < 0 then .error .negativeMember
  else
    let rowNumOffset := (getRownumOffset entry tupleId.rowNum).toNat
    let bitmap := if !bmsCoversMember entry.bitmap rowNumOffset then
        bmsResize entry.bitmap (getMinimalSizeToCover rowNumOffset)
      else entry.bitmap
    if !bmsIsMember rowNumOffset bitmap then
      .ok (.mayBeUpdated, { entry with bitmap := bmsAddMember bitmap rowNumOffset, dirty := true })
    else if entry.dirty then .ok (.selfUpdated, { entry with bitmap := bitmap })
    else .ok (.updated, { entry with bitmap := bitmap, dirty := true })

end

section

/-- The visimap table: its live rows, the next tid that an insertion gets, and
the tids of the rows that were updated. -/
structure Heap where
  rows : List Row
  nextTid : Tid
  updates : List Tid
deriving Repr, DecidableEq

variable (heap : Heap)

/-- The unique index on segno and firstRowNum. -/
def catalogUpdateIndexes : Except Error Heap :=
  if (heap.rows.map Row.key).Nodup then .ok heap else .error .duplicateKey

def simpleHeapInsert (segno firstRowNum : Int) (visimap : Option (List Byte)) : Heap :=
  { heap with
    rows := heap.rows ++ [⟨heap.nextTid, segno, firstRowNum, visimap⟩]
    nextTid := heap.nextTid + 1 }

/-- The old version goes, the new one gets a tid of its own. -/
def simpleHeapUpdate (otid : Tid) (segno firstRowNum : Int)
    (visimap : Option (List Byte)) : Except Error Heap :=
  if otid ∈ heap.rows.map Row.tid then
    .ok (simpleHeapInsert
      { heap with
        rows := heap.rows.filter (·.tid ≠ otid)
        updates := otid :: heap.updates } segno firstRowNum visimap)
  else .error .updated

/-- `AppendOnlyVisimapStore_Store`. -/
def storeStore (entry : Entry) : Except Error (Heap × Entry) := do
  let (visimap, entry) ← entryWrite entry
  let heap ← match entry.tupleTid with
    | some tid => simpleHeapUpdate heap tid entry.segmentFileNum entry.firstRowNum visimap
    | none => pure (simpleHeapInsert heap entry.segmentFileNum entry.firstRowNum visimap)
  let heap ← catalogUpdateIndexes heap
  pure (heap, { entry with tupleTid := none })

/-- `AppendOnlyVisimapStore_Find`: the entry of the row, if there is one. -/
def storeFind (segmentFileNum firstRowNum : Int) (entry : Entry) : Except Error (Option Entry) :=
  match heap.rows.find? (·.key == (segmentFileNum, firstRowNum)) with
  | none => .ok none
  | some row =>
    match copyout entry row with
    | .error error => .error error
    | .ok entry => .ok (some { entry with tupleTid := some row.tid })

/-- `AppendOnlyVisimap_Find`. -/
def visimapFind (entry : Entry) (tupleId : AOTupleId) : Except Error Entry :=
  match storeFind heap tupleId.segmentFileNum tupleId.firstRowNum entry with
  | .error error => .error error
  | .ok (some entry) => .ok entry
  | .ok none => .ok (entryNew entry tupleId)

/-- `AppendOnlyVisimap_IsVisible` asked of a map that was just opened. -/
def isVisible (tupleId : AOTupleId) : Except Error Bool := do
  let entry ← visimapFind heap entryInit tupleId
  entryIsVisible entry tupleId

end

/-- Both numbers are of type uint64. -/
structure DeleteKey where
  segno : Nat
  firstRowNum : Nat
deriving Repr, DecidableEq

/-- Where the latest version is in the work file, and the row it came from. -/
structure DeleteData where
  workFileOffset : Nat
  tupleTid : Option Tid
deriving Repr, DecidableEq

/-- The hash table of the versions in the work file. -/
abbrev DirtyEntryCache := AList fun _ : DeleteKey => DeleteData

/-- `hash_search` with HASH_FIND. -/
def hashFind (cache : DirtyEntryCache) (key : DeleteKey) : Option DeleteData :=
  cache.lookup key

/-- `hash_search` with HASH_ENTER, and the data that is then set. -/
def hashEnter (cache : DirtyEntryCache) (key : DeleteKey) (data : DeleteData) : DirtyEntryCache :=
  cache.insert key data

structure DeleteState where
  heap : Heap
  entry : Entry
  dirtyEntryCache : DirtyEntryCache
  workfile : List Byte

def deleteInit (heap : Heap) : DeleteState := ⟨heap, entryInit, ∅, []⟩

def DeleteKey.bytes (key : DeleteKey) : List Byte :=
  leBytes 8 key.segno ++ leBytes 8 key.firstRowNum

def DeleteKey.ofBytes (bytes : List Byte) : DeleteKey :=
  ⟨leNat (bytes.take 8), leNat (bytes.drop 8)⟩

def keySize : Nat := 16

/-- The key of the current entry, with its numbers converted to uint64. -/
def entryKey (entry : Entry) : DeleteKey :=
  ⟨(entry.segmentFileNum % 2 ^ 64).toNat, (entry.firstRowNum % 2 ^ 64).toNat⟩

/-- `AppendOnlyVisimapDelete_RebuildEntry`; the key's numbers are passed as int
and int64. -/
def rebuildEntry (entry : Entry) (key : DeleteKey) (tid : Option Tid) : Except Error Entry :=
  let entry := { entry with
      segmentFileNum := Int.bmod key.segno (2 ^ 32)
      firstRowNum := Int.bmod key.firstRowNum (2 ^ 64) }
  match readData entry (varsize entry.data - dataHeaderSize) with
  | .error error => .error error
  | .ok entry => .ok { entry with dirty := true, tupleTid := tid }

/-- The data of the spilled version whose key stands at `offset`: first the
length word, then as much as it says. -/
def readSpilled (workfile : List Byte) (offset : Nat) : Except Error (List Byte) :=
  let lengthWord := readAt workfile (offset + keySize) 4
  if lengthWord.length ≠ 4 then .error .spillData
  else
    let rest := readAt workfile (offset + keySize + 4) (varsize lengthWord - 4)
    if rest.length ≠ varsize lengthWord - 4 then .error .spillData
    else .ok (lengthWord ++ rest)

variable (state : DeleteState)

def unstash (key : DeleteKey) (deleteData : DeleteData) : Except Error Entry :=
  if (readAt state.workfile deleteData.workFileOffset keySize).length ≠ keySize then
    .error .spillData
  else
    match readSpilled state.workfile deleteData.workFileOffset with
    | .error error => .error error
    | .ok data => rebuildEntry { state.entry with data := data } key deleteData.tupleTid

variable (tupleId : AOTupleId)

/-- The key of the range that the tuple is in. -/
def AOTupleId.deleteKey : DeleteKey :=
  ⟨tupleId.segmentFileNum, tupleId.firstRowNum⟩

/-- `AppendOnlyVisimapDelete_Find`. -/
def deleteFind : Except Error DeleteState := do
  let entry ← match hashFind state.dirtyEntryCache tupleId.deleteKey with
    | some deleteData => unstash state tupleId.deleteKey deleteData
    | none => visimapFind state.heap state.entry tupleId
  pure { state with entry := entry }

def int64Max : Nat := 2 ^ 63 - 1

/-- Append the current entry to the work file and note where.  No file grows
beyond the offsets that an int64 can hold. -/
def stash : Except Error DeleteState := do
  let key := entryKey state.entry
  let entry ← writeData state.entry
  let record := key.bytes ++ entry.data
  if state.workfile.length + record.length > int64Max then throw .workFileFull
  else pure { state with
    entry := { entry with dirty := false }
    dirtyEntryCache :=
      hashEnter state.dirtyEntryCache key ⟨state.workfile.length, entry.tupleTid⟩
    workfile := state.workfile ++ record }

/-- `AppendOnlyVisimapDelete_Hide`. -/
def deleteHide : Except Error (HTSUResult × DeleteState) := do
  let state ←
    if !coversTuple state.entry tupleId then do
      let state ← if state.entry.dirty then stash state else pure state
      deleteFind state tupleId
    else pure state
  let (result, entry) ← hideTuple state.entry tupleId
  pure (result, { state with entry := entry })

/-- The scan of `AppendOnlyVisimapDelete_WriteBackStashedEntries` from
`currentOffset` on. -/
def writeBackLoop : Nat → Nat → DeleteState → Except Error DeleteState
  | 0, _, _ => .error .running
  | fuel + 1, currentOffset, state =>
    let keyBytes := readAt state.workfile currentOffset keySize
    if keyBytes.length = keySize then do
      let key := DeleteKey.ofBytes keyBytes
      let data ← readSpilled state.workfile currentOffset
      let state := { state with entry := { state.entry with data := data } }
      match hashFind state.dirtyEntryCache key with
      | none => throw .noMetaData
      | some deleteData =>
        let next := currentOffset + (varsize data + keySize)
        -- an outdated version is passed over
        if currentOffset ≠ deleteData.workFileOffset then
          writeBackLoop fuel next state
        else do
          let entry ← rebuildEntry state.entry key deleteData.tupleTid
          let (heap, entry) ← storeStore state.heap entry
          writeBackLoop fuel next { state with heap := heap, entry := entry }
    else if keyBytes.length ≠ 0 then .error .spillData
    else .ok state

/-- Every version takes more than one byte, so that the length of the file is
fuel enough for the scan. -/
def writeBackStashedEntries : Except Error DeleteState :=
  if state.dirtyEntryCache.entries.length = 0 then .ok state
  else writeBackLoop (state.workfile.length + 1) 0 state

/-- Store the current entry, which is the newest of its range, and invalidate
what the hash table has of it. -/
def storeCurrent : Except Error DeleteState :=
  if state.entry.dirty then do
    let (heap, entry) ← storeStore state.heap state.entry
    let key := entryKey entry
    let cache := match hashFind state.dirtyEntryCache key with
      | some _ => hashEnter state.dirtyEntryCache key ⟨int64Max, none⟩
      | none => state.dirtyEntryCache
    pure { state with heap := heap, entry := entry, dirtyEntryCache := cache }
  else pure state

/-- `AppendOnlyVisimapDelete_Finish`. -/
def deleteFinish : Except Error DeleteState := do
  let state ← storeCurrent state
  writeBackStashedEntries state

/-- The calls of a session up to its end. -/
def hideAll : DeleteState → List AOTupleId → Except Error DeleteState
  | state, [] => .ok state
  | state, tupleId :: tupleIds => do
      let (_, state) ← deleteHide state tupleId
      hideAll state tupleIds

/-- A whole session on a visimap table. -/
def deleteSession (heap : Heap) (tupleIds : List AOTupleId) : Except Error Heap := do
  let state ← hideAll (deleteInit heap) tupleIds
  let state ← deleteFinish state
  pure state.heap

end Greenplum.Visimap
