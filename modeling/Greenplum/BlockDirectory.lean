/-
The block directory of an append-only table (`appendonlyblockdirectory.c`).  For
every segment file and column group it keeps entries that say at which file offset
the rows from some row number on are stored.  The entries are packed into
minipages; a row of the directory relation holds one minipage.
-/
import Greenplum.BinarySearch
import Greenplum.Visimap
import Mathlib.Data.List.ModifyLast

namespace Greenplum.BlockDirectory

open BinarySearch Visimap

/-- The settings gp_blockdirectory_entry_min_range and
gp_blockdirectory_minipage_size. -/
structure Settings where
  entryMinRange : Int
  minipageSize : Nat
deriving Repr, DecidableEq

/-- Row numbers have 40 bits and file offsets are not negative, so that no sum or
difference of them leaves the range of an int64. -/
structure MinipageEntry where
  firstRowNum : Int
  fileOffset : Int
  rowCount : Int
deriving Repr, DecidableEq

section

/-- A row of the directory relation. -/
structure BlkdirRow where
  tid : Tid
  segno : Int
  columnGroupNo : Nat
  firstRowNum : Int
  minipage : List MinipageEntry
deriving Repr, DecidableEq

/-- The directory relation: its live rows and the next tid. -/
structure BlkdirRel where
  rows : List BlkdirRow
  nextTid : Tid
deriving Repr, DecidableEq

def BlkdirRow.key (row : BlkdirRow) : Int × Nat × Int :=
  (row.segno, row.columnGroupNo, row.firstRowNum)

/-- The row belongs to this column group of this segment file. -/
def BlkdirRow.isAt (segno : Int) (columnGroupNo : Nat) (row : BlkdirRow) : Bool :=
  row.segno == segno && row.columnGroupNo == columnGroupNo

variable (rel : BlkdirRel)

/-- The first row of a backward scan of the index with the keys segno, column
group and "firstRowNum at most". -/
def indexGetnext (segno : Int) (columnGroupNo : Nat) (rowNum : Int) : Option BlkdirRow :=
  (rel.rows.filter fun row => row.isAt segno columnGroupNo && row.firstRowNum ≤ rowNum).maxOn?
    BlkdirRow.firstRowNum

def heapInsert (segno : Int) (columnGroupNo : Nat) (firstRowNum : Int)
    (minipage : List MinipageEntry) : BlkdirRel :=
  ⟨rel.rows ++ [⟨rel.nextTid, segno, columnGroupNo, firstRowNum, minipage⟩], rel.nextTid + 1⟩

/-- The old version goes, the new one gets a tid of its own. -/
def heapUpdate (otid : Tid) (segno : Int) (columnGroupNo : Nat)
    (firstRowNum : Int) (minipage : List MinipageEntry) : Except Error BlkdirRel :=
  if otid ∈ rel.rows.map BlkdirRow.tid then
    .ok (heapInsert { rel with rows := rel.rows.filter (·.tid ≠ otid) }
      segno columnGroupNo firstRowNum minipage)
  else .error .updated

/-- The unique index on segno, column group and firstRowNum. -/
def updateIndexes : Except Error BlkdirRel :=
  if (rel.rows.map BlkdirRow.key).Nodup then .ok rel else .error .duplicateKey

end

/-- The end of a segment file, and of its columns' files when it has columns. -/
structure FileSegInfo where
  segno : Int
  eof : Int
  vpinfoEof : List Int
deriving Repr, DecidableEq

/-- The minipage in memory: its first numMinipageEntries entries, and the row of
the relation that it was read from. -/
structure MinipagePerColumnGroup where
  entries : List MinipageEntry
  tupleTid : Option Tid
deriving Repr, DecidableEq

/-- What is known of the table: the number of its attributes and column groups. -/
structure Table where
  natts : Nat
  numColumnGroups : Nat
  isAOCol : Bool
deriving Repr, DecidableEq

/-- An opened block directory. -/
structure Directory where
  table : Table
  blkdirRel : BlkdirRel
  proj : Option (List Bool)
  segmentFileInfo : List FileSegInfo
  currentSegmentFileNum : Int
  currentSegmentFileInfo : Option FileSegInfo
  minipages : Nat → MinipagePerColumnGroup

def isProjected (proj : Option (List Bool)) (columnGroupNo : Nat) : Bool :=
  match proj with
  | none => true
  | some proj => proj.getD columnGroupNo false

def segEof (isAOCol : Bool) (fsInfo : FileSegInfo) (columnGroupNo : Nat) : Int :=
  if isAOCol then fsInfo.vpinfoEof.getD columnGroupNo 0 else fsInfo.eof

/-- The end of the current segment file; there always is one when it is asked for. -/
def currentEof (dir : Directory) (columnGroupNo : Nat) : Int :=
  match dir.currentSegmentFileInfo with
  | none => 0
  | some fsInfo => segEof dir.table.isAOCol fsInfo columnGroupNo

section

variable (entries : List MinipageEntry)

def entryAt (i : Nat) : MinipageEntry :=
  entries.getD i ⟨0, 0, 0⟩

/-- Where an entry's offset lies relative to the end of the file. -/
def probeOffset (eof : Int) (mid : Nat) : Ordering :=
  if (entryAt entries mid).fileOffset > eof then .gt
  else if (entryAt entries mid).fileOffset < eof then .lt
  else .eq

/-- How many entries of the minipage lie before the end of the file. -/
def entriesBeforeEof (eof : Int) : Nat :=
  match search (probeOffset entries eof) entries.length 0 entries.length with
  | .hit mid => mid
  | .miss start => start

/-- `extract_minipage`: entries that a cancelled insert left behind are dropped. -/
def extractMinipage (dir : Directory) (tuple : BlkdirRow) (columnGroupNo : Nat) : Directory :=
  { dir with
    minipages := Function.update dir.minipages columnGroupNo
      ⟨tuple.minipage.take (entriesBeforeEof tuple.minipage (currentEof dir columnGroupNo)),
        some tuple.tid⟩ }

/-- Where an entry lies relative to a row. -/
def probeRow (rowNum : Int) (entryNo : Nat) : Ordering :=
  let entry := entryAt entries entryNo
  if entry.firstRowNum ≤ rowNum ∧ entry.firstRowNum + entry.rowCount > rowNum then .eq
  else if entry.firstRowNum > rowNum then .gt
  else .lt

/-- `find_minipage_entry`; `none` stands for -1. -/
def findMinipageEntry (rowNum : Int) : Option Nat :=
  match search (probeRow entries rowNum) entries.length 0 entries.length with
  | .hit entryNo => some entryNo
  | .miss _ => none

/-- `write_minipage`: a minipage that was read from the relation replaces its row. -/
def writeMinipage (rel : BlkdirRel) (segno : Int) (columnGroupNo : Nat)
    (minipageInfo : MinipagePerColumnGroup) : Except Error BlkdirRel := do
  let firstRowNum := (entryAt minipageInfo.entries 0).firstRowNum
  let rel ← match minipageInfo.tupleTid with
    | some tid => heapUpdate rel tid segno columnGroupNo firstRowNum minipageInfo.entries
    | none => pure (heapInsert rel segno columnGroupNo firstRowNum minipageInfo.entries)
  updateIndexes rel

end

section

/-- `load_last_minipage`. -/
def loadLastMinipage (dir : Directory) (lastSequence : Int) (columnGroupNo : Nat) : Directory :=
  let lastSequence := if lastSequence = 0 then 1 else lastSequence
  match indexGetnext dir.blkdirRel dir.currentSegmentFileNum columnGroupNo lastSequence with
  | some tuple => extractMinipage dir tuple columnGroupNo
  | none => dir

/-- `AppendOnlyBlockDirectory_Init_forInsert`. -/
def initForInsert (table : Table) (rel : BlkdirRel) (segmentFileInfo : FileSegInfo)
    (lastSequence : Int) (segno : Int) : Directory :=
  (List.range table.numColumnGroups).foldl (loadLastMinipage · lastSequence ·)
    { table := table
      blkdirRel := rel
      proj := none
      segmentFileInfo := []
      currentSegmentFileNum := segno
      currentSegmentFileInfo := some segmentFileInfo
      minipages := fun _ => ⟨[], none⟩ }

variable (settings : Settings)

/-- The second half of `insert_new_entry`: a full minipage is written first. -/
def appendEntry (dir : Directory) (columnGroupNo : Nat)
    (minipageIndex : Nat) (minipageInfo : MinipagePerColumnGroup) (entry : MinipageEntry) :
    Except Error Directory :=
  if minipageInfo.entries.length ≥ settings.minipageSize then do
    let rel ← writeMinipage dir.blkdirRel dir.currentSegmentFileNum columnGroupNo minipageInfo
    pure { dir with
      blkdirRel := rel
      minipages := Function.update dir.minipages minipageIndex ⟨[entry], none⟩ }
  else
    pure { dir with
      minipages := Function.update dir.minipages minipageIndex
        { minipageInfo with entries := minipageInfo.entries ++ [entry] } }

/-- `insert_new_entry`.  With `addColAction` the column group is an attribute
number, and the minipages are those of the new columns only. -/
def insertNewEntry (dir : Directory) (columnGroupNo : Nat)
    (firstRowNum fileOffset rowCount : Int) (addColAction : Bool) :
    Except Error (Bool × Directory) :=
  if rowCount = 0 then .ok (false, dir)
  else
    let minipageIndex :=
      if addColAction then columnGroupNo - (dir.table.natts - dir.table.numColumnGroups)
      else columnGroupNo
    let minipageInfo := dir.minipages minipageIndex
    match minipageInfo.entries.getLast? with
    | some entry =>
      if settings.entryMinRange > 0 ∧ fileOffset - entry.fileOffset < settings.entryMinRange
      then .ok (true, dir)
      else do
        -- the latest entry now ends where the new one begins
        let dir ← appendEntry settings dir columnGroupNo minipageIndex
          { minipageInfo with
            entries := minipageInfo.entries.modifyLast fun entry =>
              { entry with rowCount := firstRowNum - entry.firstRowNum } }
          ⟨firstRowNum, fileOffset, rowCount⟩
        pure (true, dir)
    | none => do
        let dir ← appendEntry settings dir columnGroupNo minipageIndex minipageInfo
          ⟨firstRowNum, fileOffset, rowCount⟩
        pure (true, dir)

/-- `AppendOnlyBlockDirectory_End_forInsert` from the given column group on. -/
def endForInsertFrom (dir : Directory) : List Nat → BlkdirRel → Except Error BlkdirRel
  | [], rel => .ok rel
  | groupNo :: groupNos, rel =>
    let minipageInfo := dir.minipages groupNo
    if minipageInfo.entries.length > 0 then do
      let rel ← writeMinipage rel dir.currentSegmentFileNum groupNo minipageInfo
      endForInsertFrom dir groupNos rel
    else endForInsertFrom dir groupNos rel

def endForInsert (dir : Directory) : Except Error BlkdirRel :=
  endForInsertFrom dir (List.range dir.table.numColumnGroups) dir.blkdirRel

/-- A block of a column group: its first row, its place in the file, its rows. -/
structure Block where
  columnGroupNo : Nat
  firstRowNum : Int
  fileOffset : Int
  rowCount : Int
deriving Repr, DecidableEq

/-- An insert session into one segment file. -/
structure InsertSession where
  segmentFileInfo : FileSegInfo
  lastSequence : Int
  blocks : List Block
deriving Repr, DecidableEq

def insertBlocks (settings : Settings) : Directory → List Block → Except Error Directory
  | dir, [] => .ok dir
  | dir, block :: blocks => do
      let (_, dir) ← insertNewEntry settings dir block.columnGroupNo block.firstRowNum
        block.fileOffset block.rowCount false
      insertBlocks settings dir blocks

def runSession (table : Table) (rel : BlkdirRel)
    (session : InsertSession) : Except Error BlkdirRel := do
  let dir := initForInsert table rel session.segmentFileInfo session.lastSequence
    session.segmentFileInfo.segno
  let dir ← insertBlocks settings dir session.blocks
  endForInsert dir

def runSessions (settings : Settings) (table : Table) : BlkdirRel → List InsertSession →
    Except Error BlkdirRel
  | rel, [] => .ok rel
  | rel, session :: sessions => do
      let rel ← runSession settings table rel session
      runSessions settings table rel sessions

end

section

/-- The range of an `AppendOnlyBlockDirectoryEntry`. -/
structure DirectoryEntry where
  fileOffset : Int
  firstRowNum : Int
  afterFileOffset : Int
  lastRowNum : Int
deriving Repr, DecidableEq

/-- `AppendOnlyBlockDirectory_Init_forSearch`. -/
def initForSearch (table : Table) (rel : BlkdirRel) (segmentFileInfo : List FileSegInfo)
    (proj : Option (List Bool)) : Directory :=
  { table := table
    blkdirRel := rel
    proj := proj
    segmentFileInfo := segmentFileInfo
    currentSegmentFileNum := -1
    currentSegmentFileInfo := none
    minipages := fun _ => ⟨[], none⟩ }

/-- The greatest int64. -/
def maxRowNum : Int := 2 ^ 63 - 1

variable (settings : Settings) (dir : Directory)

/-- `set_directoryentry_range`; `none` stands for false. -/
def setDirectoryentryRange (columnGroupNo : Nat) (entryNo : Nat) : Option DirectoryEntry :=
  let entries := (dir.minipages columnGroupNo).entries
  let entry := entryAt entries entryNo
  let nextEntry := entries[entryNo + 1]?
  let eof := currentEof dir columnGroupNo
  let afterFileOffset := match nextEntry with
    | some next => next.fileOffset
    | none => eof
  let lastRowNum :=
    if nextEntry.isNone ∧ settings.entryMinRange ≠ 0 then maxRowNum
    else entry.firstRowNum + entry.rowCount - 1
  if entry.fileOffset > eof then none
  else
    let afterFileOffset := if afterFileOffset > eof then eof else afterFileOffset
    some ⟨entry.fileOffset, entry.firstRowNum, afterFileOffset, lastRowNum⟩

/-- The first half of `AppendOnlyBlockDirectory_GetEntry`: what the minipage in
memory says of the row; `none` when the index has to be searched. -/
def cachedEntry (segmentFileNum rowNum : Int)
    (columnGroupNo : Nat) : Option (Option DirectoryEntry) :=
  let entries := (dir.minipages columnGroupNo).entries
  if segmentFileNum = dir.currentSegmentFileNum ∧ entries.length > 0 ∧
      rowNum ≥ (entryAt entries 0).firstRowNum then
    match findMinipageEntry entries rowNum with
    | some entryNo => some (setDirectoryentryRange settings dir columnGroupNo entryNo)
    | none =>
      let entry := entryAt entries (entries.length - 1)
      if rowNum < entry.firstRowNum + entry.rowCount - 1 then some none else none
  else none

/-- The segment file's info, or the last one when there is none. -/
def findSegInfo : List FileSegInfo → Int → Option FileSegInfo
  | [], _ => none
  | [fsInfo], _ => some fsInfo
  | fsInfo :: fsInfos, segmentFileNum =>
    if segmentFileNum = fsInfo.segno then some fsInfo
    else findSegInfo fsInfos segmentFileNum

/-- The minipages of the projected column groups are loaded one after the other;
false when the index has none for one of them. -/
def loadMinipages (segmentFileNum rowNum : Int) (fsInfo : Option FileSegInfo) :
    List Nat → Directory → Directory × Bool
  | [], dir => (dir, true)
  | tmpGroupNo :: groupNos, dir =>
    if !isProjected dir.proj tmpGroupNo then
      loadMinipages segmentFileNum rowNum fsInfo groupNos dir
    else
      match indexGetnext dir.blkdirRel segmentFileNum tmpGroupNo rowNum with
      | some tuple =>
        loadMinipages segmentFileNum rowNum fsInfo groupNos
          (extractMinipage
            { dir with
              currentSegmentFileNum := segmentFileNum
              currentSegmentFileInfo := fsInfo } tuple tmpGroupNo)
      | none => (dir, false)

/-- The entry of a minipage that was just loaded. -/
def loadedEntry (rowNum : Int) (columnGroupNo : Nat) : Option DirectoryEntry :=
  let entries := (dir.minipages columnGroupNo).entries
  match findMinipageEntry entries rowNum with
  | some entryNo => setDirectoryentryRange settings dir columnGroupNo entryNo
  | none =>
    if entries.length = 0 then none
    -- the last few blocks may not be logged in the block directory
    else setDirectoryentryRange settings dir columnGroupNo (entries.length - 1)

/-- `AppendOnlyBlockDirectory_GetEntry`; `none` stands for false. -/
def getEntry (aoTupleId : AOTupleId) (columnGroupNo : Nat) : Directory × Option DirectoryEntry :=
  match cachedEntry settings dir aoTupleId.segmentFileNum aoTupleId.rowNum columnGroupNo with
  | some result => (dir, result)
  | none =>
    let fsInfo := findSegInfo dir.segmentFileInfo aoTupleId.segmentFileNum
    match loadMinipages aoTupleId.segmentFileNum aoTupleId.rowNum fsInfo
        (List.range dir.table.numColumnGroups) dir with
    | (dir, false) => (dir, none)
    | (dir, true) => (dir, loadedEntry settings dir aoTupleId.rowNum columnGroupNo)

/-- The directory after a sequence of lookups. -/
def runLookups (lookups : List (AOTupleId × Nat)) : Directory :=
  lookups.foldl (fun dir lookup => (getEntry settings dir lookup.1 lookup.2).1) dir

end

end Greenplum.BlockDirectory
