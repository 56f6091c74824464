/-
Insert sessions keep the directory relation: the minipages of a column group, one
after the other, are the entries of all blocks inserted so far.
-/
import Greenplum.BlockDirectoryEntries
import Mathlib.Data.List.Nodup

namespace Greenplum.BlockDirectory

open BinarySearch List Fallible Function

section

/-- The rows of one column group of a segment file. -/
def rowsAt (rel : BlkdirRel) (segno : Int) (groupNo : Nat) : List BlkdirRow :=
  rel.rows.filter (BlkdirRow.isAt segno groupNo)

/-- The directory relation: tids are not used twice, a row is stored under the
first row number of its minipage, and the rows of a column group stand in order. -/
structure RelOk (rel : BlkdirRel) : Prop where
  tids : (rel.rows.map BlkdirRow.tid).Nodup
  fresh : ∀ row ∈ rel.rows, row.tid < rel.nextTid
  heads : ∀ row ∈ rel.rows,
    ∃ head, row.minipage.head? = some head ∧ head.firstRowNum = row.firstRowNum
  order : ∀ segno groupNo, (rowsAt rel segno groupNo).Pairwise
    fun row later => row.firstRowNum < later.firstRowNum

/-- All other column groups have the rows that they had. -/
def SameElsewhere (segno : Int) (groupNo : Nat) (rel rel' : BlkdirRel) : Prop :=
  ∀ segno' groupNo', ¬ (segno' = segno ∧ groupNo' = groupNo) →
    rowsAt rel' segno' groupNo' = rowsAt rel segno' groupNo'

variable {rel : BlkdirRel} {segno segno' : Int} {groupNo groupNo' : Nat}

theorem isAt_iff {row : BlkdirRow} : row.isAt segno groupNo = true ↔
      row.segno = segno ∧ row.columnGroupNo = groupNo := by
  rw [BlkdirRow.isAt, Bool.and_eq_true, beq_iff_eq, beq_iff_eq]

theorem mem_rowsAt {row : BlkdirRow} : row ∈ rowsAt rel segno groupNo ↔
      row ∈ rel.rows ∧ row.segno = segno ∧ row.columnGroupNo = groupNo := by
  rw [rowsAt, mem_filter, isAt_iff]

theorem keys_nodup {rows : List BlkdirRow}
    (horder : ∀ segno groupNo, (rows.filter (BlkdirRow.isAt segno groupNo)).Pairwise
      fun row later => row.firstRowNum < later.firstRowNum) : (rows.map BlkdirRow.key).Nodup := by
  induction rows with
  | nil => exact nodup_nil
  | cons row rows ih =>
    rw [map_cons, nodup_cons]
    constructor
    · intro hmem
      obtain ⟨later, hlater, hkey⟩ := mem_map.mp hmem
      simp only [BlkdirRow.key, Prod.mk.injEq] at hkey
      have hhere := horder row.segno row.columnGroupNo
      rw [filter_cons_of_pos (isAt_iff.mpr ⟨rfl, rfl⟩), pairwise_cons] at hhere
      have hlt := hhere.1 later (mem_filter.mpr ⟨hlater, isAt_iff.mpr ⟨hkey.1, hkey.2.1⟩⟩)
      rw [hkey.2.2] at hlt
      exact absurd hlt (lt_irrefl _)
    · apply ih
      intro segno groupNo
      exact (horder segno groupNo).sublist ((sublist_cons_self row rows).filter _)

/-- What the index scan returns: the last row that begins at or before the key. -/
theorem indexGetnext_spec (horder : (rowsAt rel segno groupNo).Pairwise
      fun row later => row.firstRowNum < later.firstRowNum) (rowNum : Int) :
    match indexGetnext rel segno groupNo rowNum with
    | none => ∀ row ∈ rowsAt rel segno groupNo, rowNum < row.firstRowNum
    | some row => ∃ before after, rowsAt rel segno groupNo = before ++ row :: after ∧
        row.firstRowNum ≤ rowNum ∧ ∀ next ∈ after, rowNum < next.firstRowNum := by
  have hmem : ∀ row, (row ∈ rel.rows.filter fun row =>
      row.isAt segno groupNo && row.firstRowNum ≤ rowNum) ↔
      row ∈ rowsAt rel segno groupNo ∧ row.firstRowNum ≤ rowNum := by
    intro row
    rw [rowsAt, mem_filter, mem_filter, Bool.and_eq_true, decide_eq_true_iff, and_assoc]
  cases hindex : indexGetnext rel segno groupNo rowNum with
  | none =>
    intro row hrow
    by_contra hle
    have hsome := List.isSome_maxOn?_of_mem (f := BlkdirRow.firstRowNum)
      ((hmem row).mpr ⟨hrow, not_lt.mp hle⟩)
    rw [indexGetnext] at hindex
    rw [hindex] at hsome
    cases hsome
  | some row =>
    obtain ⟨hrow, hle⟩ := (hmem row).mp (List.maxOn?_mem hindex)
    obtain ⟨before, after, hsplit⟩ := append_of_mem hrow
    refine ⟨before, after, hsplit, hle, ?_⟩
    intro next hnext
    by_contra hge
    rw [hsplit, pairwise_append, pairwise_cons] at horder
    have hlt := horder.2.1.1 next hnext
    have hnextAt : next ∈ rowsAt rel segno groupNo := by
      rw [hsplit]
      exact mem_append_right _ (mem_cons_of_mem _ hnext)
    have hmax := List.le_apply_get_maxOn?_of_mem (f := BlkdirRow.firstRowNum)
      ((hmem next).mpr ⟨hnextAt, not_lt.mp hge⟩)
    rw [indexGetnext] at hindex
    simp only [hindex, Option.get_some] at hmax
    exact absurd hmax (not_le.mpr hlt)

theorem rowsAt_heapInsert_self (firstRowNum : Int) (minipage : List MinipageEntry) :
    rowsAt (heapInsert rel segno groupNo firstRowNum minipage) segno groupNo =
      rowsAt rel segno groupNo ++ [⟨rel.nextTid, segno, groupNo, firstRowNum, minipage⟩] := by
  rw [rowsAt, heapInsert, filter_append, filter_cons_of_pos, filter_nil, rowsAt]
  exact isAt_iff.mpr ⟨rfl, rfl⟩

theorem sameElsewhere_heapInsert (firstRowNum : Int) (minipage : List MinipageEntry) :
    SameElsewhere segno groupNo rel (heapInsert rel segno groupNo firstRowNum minipage) := by
  intro segno' groupNo' hne
  rw [rowsAt, heapInsert, filter_append, filter_cons_of_neg, filter_nil, append_nil, rowsAt]
  rw [isAt_iff]
  exact fun heq => hne ⟨heq.1.symm, heq.2.symm⟩

theorem RelOk.heapInsert (h : RelOk rel) {head : MinipageEntry} {minipage : List MinipageEntry}
    (hhead : minipage.head? = some head)
    (hbehind : ∀ row ∈ rowsAt rel segno groupNo, row.firstRowNum < head.firstRowNum) :
    RelOk (heapInsert rel segno groupNo head.firstRowNum minipage) := by
  refine ⟨?_, ?_, ?_, ?_⟩
  · rw [BlockDirectory.heapInsert, map_append, nodup_append]
    refine ⟨h.tids, nodup_singleton _, ?_⟩
    intro tid htid new hnew
    obtain ⟨row, hrow, rfl⟩ := mem_map.mp htid
    rw [map_singleton, mem_singleton] at hnew
    rw [hnew]
    exact ne_of_lt (h.fresh row hrow)
  · intro row hrow
    rw [BlockDirectory.heapInsert, mem_append, mem_singleton] at hrow
    rcases hrow with hold | rfl
    · exact (h.fresh row hold).trans (Nat.lt_succ_self _)
    · exact Nat.lt_succ_self _
  · intro row hrow
    rw [BlockDirectory.heapInsert, mem_append, mem_singleton] at hrow
    rcases hrow with hold | rfl
    · exact h.heads row hold
    · exact ⟨head, hhead, rfl⟩
  · intro segno' groupNo'
    by_cases hsame : segno' = segno ∧ groupNo' = groupNo
    · rw [hsame.1, hsame.2, rowsAt_heapInsert_self, pairwise_append]
      refine ⟨h.order _ _, pairwise_singleton _ _, ?_⟩
      intro row hrow later hlater
      rw [mem_singleton.mp hlater]
      exact hbehind row hrow
    · rw [sameElsewhere_heapInsert _ _ _ _ hsame]
      exact h.order _ _

theorem rowsAt_filter (p : BlkdirRow → Bool) :
    rowsAt { rel with rows := rel.rows.filter p } segno groupNo =
      (rowsAt rel segno groupNo).filter p := by
  rw [rowsAt, rowsAt, filter_filter, filter_filter]
  exact filter_congr fun row _ => Bool.and_comm _ _

theorem RelOk.filter (h : RelOk rel) (p : BlkdirRow → Bool) :
    RelOk { rel with rows := rel.rows.filter p } := by
  refine ⟨?_, ?_, ?_, ?_⟩
  · exact h.tids.sublist (filter_sublist.map _)
  · exact fun row hrow => h.fresh row (mem_of_mem_filter hrow)
  · exact fun row hrow => h.heads row (mem_of_mem_filter hrow)
  · intro segno groupNo
    rw [rowsAt_filter]
    exact (h.order _ _).sublist filter_sublist

end

section

/-- The rows that are kept besides the minipage in memory: its own row, if it has
one, is the last. -/
def OnDisk (minipageInfo : MinipagePerColumnGroup) (stored kept : List BlkdirRow) : Prop :=
  match minipageInfo.tupleTid with
  | none => stored = kept
  | some tid => ∃ row, stored = kept ++ [row] ∧ row.tid = tid

variable {rel : BlkdirRel} {segno : Int} {groupNo : Nat}
  {minipageInfo : MinipagePerColumnGroup} {kept : List BlkdirRow}

theorem rowsAt_filter_tid (h : RelOk rel) {row : BlkdirRow}
    (hstored : rowsAt rel segno groupNo = kept ++ [row]) :
    rowsAt { rel with rows := rel.rows.filter (·.tid ≠ row.tid) } segno groupNo = kept := by
  have hnodup : ((kept ++ [row]).map BlkdirRow.tid).Nodup := by
    rw [← hstored]
    exact h.tids.sublist (filter_sublist.map _)
  rw [map_append, nodup_append] at hnodup
  have hkept : kept.filter (fun other => decide (other.tid ≠ row.tid)) = kept := by
    apply filter_eq_self.mpr
    intro other hother
    exact decide_eq_true (hnodup.2.2 other.tid (mem_map_of_mem hother) row.tid
      (mem_singleton_self _))
  rw [rowsAt_filter, hstored, filter_append, hkept, filter_cons_of_neg, filter_nil, append_nil]
  exact fun htrue => of_decide_eq_true htrue rfl

theorem sameElsewhere_filter_tid (h : RelOk rel) {row : BlkdirRow}
    (hrow : row ∈ rowsAt rel segno groupNo) :
    SameElsewhere segno groupNo rel { rel with rows := rel.rows.filter (·.tid ≠ row.tid) } := by
  intro segno' groupNo' hne
  rw [rowsAt_filter]
  apply filter_eq_self.mpr
  intro other hother
  apply decide_eq_true
  intro htid
  obtain ⟨hotherMem, hotherAt⟩ := mem_rowsAt.mp hother
  obtain ⟨hrowMem, hrowAt⟩ := mem_rowsAt.mp hrow
  have heq := inj_on_of_nodup_map h.tids hotherMem hrowMem htid
  rw [heq] at hotherAt
  exact hne ⟨hotherAt.1.symm.trans hrowAt.1, hotherAt.2.symm.trans hrowAt.2⟩

/-- Writing a minipage that lies behind all kept ones appends it to them. -/
theorem writeMinipage_spec (h : RelOk rel)
    (hdisk : OnDisk minipageInfo (rowsAt rel segno groupNo) kept)
    {head : MinipageEntry} (hhead : minipageInfo.entries.head? = some head)
    (hbehind : ∀ row ∈ kept, row.firstRowNum < head.firstRowNum) :
    ∃ rel' row, writeMinipage rel segno groupNo minipageInfo = .ok rel' ∧ RelOk rel' ∧
      rowsAt rel' segno groupNo = kept ++ [row] ∧ row.minipage = minipageInfo.entries ∧
      SameElsewhere segno groupNo rel rel' := by
  have hfirst : (entryAt minipageInfo.entries 0).firstRowNum = head.firstRowNum := by
    rw [head?_eq_getElem?] at hhead
    rw [entryAt_eq hhead]
  simp only [writeMinipage, hfirst]
  cases htid : minipageInfo.tupleTid with
  | none =>
    rw [OnDisk, htid] at hdisk
    have hok := h.heapInsert hhead (hdisk ▸ hbehind)
    refine ⟨_, ⟨rel.nextTid, segno, groupNo, head.firstRowNum, minipageInfo.entries⟩,
      ?_, hok, ?_, rfl, sameElsewhere_heapInsert _ _⟩
    · exact if_pos (keys_nodup hok.order)
    · rw [rowsAt_heapInsert_self, hdisk]
  | some tid =>
    rw [OnDisk, htid] at hdisk
    obtain ⟨row, hstored, rfl⟩ := hdisk
    have hrow : row ∈ rowsAt rel segno groupNo := by
      rw [hstored]
      exact mem_append_right _ mem_cons_self
    have hlive : row.tid ∈ rel.rows.map BlkdirRow.tid := mem_map_of_mem (mem_rowsAt.mp hrow).1
    have hkept := rowsAt_filter_tid h hstored
    have hok := (h.filter (·.tid ≠ row.tid)).heapInsert hhead (hkept.symm ▸ hbehind)
    refine ⟨_, ⟨rel.nextTid, segno, groupNo, head.firstRowNum, minipageInfo.entries⟩,
      ?_, hok, ?_, rfl, fun _ _ hne => ?_⟩
    · simp only [heapUpdate, if_pos hlive, ok_bind]
      exact if_pos (keys_nodup hok.order)
    · rw [rowsAt_heapInsert_self, hkept]
    · rw [sameElsewhere_heapInsert _ _ _ _ hne]
      exact sameElsewhere_filter_tid h hrow _ _ hne

end

section

variable {segno lastSequence : Int} {block : Block} {groupNo : Nat}
  {minipageInfo : MinipagePerColumnGroup} {kept : List BlkdirRow} {rel : BlkdirRel}
  {blocks : List Block} {page : List MinipageEntry} {table : Table}

/-- The blocks that were inserted into each column group of each segment file. -/
abbrev History := Int → Nat → List Block

def History.add (history : History) (segno : Int) (block : Block) : History :=
  fun segno' groupNo =>
    if segno' = segno ∧ groupNo = block.columnGroupNo then
      history segno' groupNo ++ [block]
    else history segno' groupNo

/-- The stored rows and the minipage in memory hold the entries of the blocks. -/
def GroupOpen (settings : Settings) (stored : List BlkdirRow)
    (minipageInfo : MinipagePerColumnGroup) (blocks : List Block) : Prop :=
  ∃ kept, OnDisk minipageInfo stored kept ∧
    kept.flatMap BlkdirRow.minipage ++ minipageInfo.entries = entriesOf settings blocks ∧
    (minipageInfo.entries = [] → stored = [])

/-- During a session the column groups in `pending` have their last minipage in
memory, all others are stored. -/
structure OpenInv (settings : Settings) (history : History) (pending : Set Nat)
    (dir : Directory) : Prop where
  rel : RelOk dir.blkdirRel
  increasing : ∀ segno groupNo, Increasing (history segno groupNo)
  opened : ∀ groupNo ∈ pending, GroupOpen settings
    (rowsAt dir.blkdirRel dir.currentSegmentFileNum groupNo)
    (dir.minipages groupNo) (history dir.currentSegmentFileNum groupNo)
  stored : ∀ segno groupNo, ¬ (segno = dir.currentSegmentFileNum ∧ groupNo ∈ pending) →
    (rowsAt dir.blkdirRel segno groupNo).flatMap BlkdirRow.minipage =
      entriesOf settings (history segno groupNo)

variable {settings : Settings} {history : History} {pending : Set Nat} {dir : Directory}

theorem entriesOf_concat (settings : Settings) (blocks : List Block) (block : Block) :
    entriesOf settings (blocks ++ [block]) =
      addBlock settings (entriesOf settings blocks) block := by
  rw [entriesOf, foldl_append]
  rfl

theorem History.add_self : history.add segno block segno block.columnGroupNo =
      history segno block.columnGroupNo ++ [block] :=
  if_pos ⟨rfl, rfl⟩

theorem History.add_of_ne {segno' : Int}
    (hne : ¬ (segno' = segno ∧ groupNo = block.columnGroupNo)) :
    history.add segno block segno' groupNo = history segno' groupNo :=
  if_neg hne

theorem OnDisk.kept_subset {stored : List BlkdirRow}
    (h : OnDisk minipageInfo stored kept) : kept ⊆ stored := by
  unfold OnDisk at h
  split at h
  · rw [h]
    exact List.Subset.refl _
  · obtain ⟨row, rfl, -⟩ := h
    exact subset_append_left _ _

/-- The kept rows lie before the minipage in memory. -/
theorem kept_before (h : RelOk rel) (hkept : ∀ row ∈ kept, row ∈ rel.rows)
    {head : MinipageEntry} (hhead : page.head? = some head)
    (hindexed : Indexed settings blocks (kept.flatMap BlkdirRow.minipage ++ page)) :
    ∀ row ∈ kept, row.firstRowNum < head.firstRowNum := by
  intro row hrow
  obtain ⟨first, hfirst, hfirstRow⟩ := h.heads row (hkept row hrow)
  have hmem : first ∈ kept.flatMap BlkdirRow.minipage :=
    mem_flatMap.mpr ⟨row, hrow, mem_of_mem_head? hfirst⟩
  have hle := (pairwise_append.mp hindexed.order).2.2 first hmem head (mem_of_mem_head? hhead)
  have hpositive := hindexed.positive first (mem_append_left _ hmem)
  omega

/-- The page in memory gets an entry, after it was written if it was full. -/
theorem appendEntry_spec (hsize : 1 ≤ settings.minipageSize) (h : RelOk dir.blkdirRel)
    (hdisk : OnDisk minipageInfo (rowsAt dir.blkdirRel dir.currentSegmentFileNum groupNo) kept)
    {entry : MinipageEntry} (hindexed : Indexed settings blocks
      (kept.flatMap BlkdirRow.minipage ++ minipageInfo.entries ++ [entry])) :
    ∃ rel' minipageInfo' kept',
      appendEntry settings dir groupNo groupNo minipageInfo entry = .ok { dir with
          blkdirRel := rel'
          minipages := update dir.minipages groupNo minipageInfo' } ∧ RelOk rel' ∧
      SameElsewhere dir.currentSegmentFileNum groupNo dir.blkdirRel rel' ∧
      OnDisk minipageInfo' (rowsAt rel' dir.currentSegmentFileNum groupNo) kept' ∧
      kept'.flatMap BlkdirRow.minipage ++ minipageInfo'.entries =
        kept.flatMap BlkdirRow.minipage ++ minipageInfo.entries ++ [entry] ∧
      minipageInfo'.entries ≠ [] := by
  have hkept : ∀ row ∈ kept, row ∈ dir.blkdirRel.rows :=
    fun row hrow => (mem_rowsAt.mp (hdisk.kept_subset hrow)).1
  by_cases hfull : minipageInfo.entries.length ≥ settings.minipageSize
  · obtain ⟨head, hhead⟩ : ∃ head, minipageInfo.entries.head? = some head := by
      cases hentries : minipageInfo.entries with
      | nil =>
        rw [hentries, length_nil] at hfull
        omega
      | cons head _ => exact ⟨head, rfl⟩
    have hbehind : ∀ row ∈ kept, row.firstRowNum < head.firstRowNum := by
      have hhead' : (minipageInfo.entries ++ [entry]).head? = some head := by
        rw [head?_append, hhead, Option.some_or]
      apply kept_before h hkept hhead'
      rw [← append_assoc]
      exact hindexed
    obtain ⟨rel', row, hwrite, hrel', hrows, hpage, hothers⟩ :=
      writeMinipage_spec h hdisk hhead hbehind
    refine ⟨rel', ⟨[entry], none⟩, kept ++ [row], ?_, hrel', hothers, hrows, ?_, cons_ne_nil _ _⟩
    · simp only [appendEntry, if_pos hfull, hwrite, ok_bind, pure, Except.pure]
    · rw [flatMap_append, flatMap_singleton, hpage]
  · refine ⟨dir.blkdirRel, { minipageInfo with entries := minipageInfo.entries ++ [entry] },
      kept, ?_, h, fun _ _ _ => rfl, hdisk, (append_assoc _ _ _).symm, ?_⟩
    · simp only [appendEntry, if_neg hfull, pure, Except.pure]
    · exact append_ne_nil_of_right_ne_nil _ (cons_ne_nil _ _)

/-- One column group changes, everything else stays as it was. -/
theorem OpenInv.insert (h : OpenInv settings history pending dir) (hincreasing : Increasing
      (history dir.currentSegmentFileNum block.columnGroupNo ++ [block]))
    (hpending : block.columnGroupNo ∈ pending) {rel' : BlkdirRel}
    {minipageInfo' : MinipagePerColumnGroup} (hrel' : RelOk rel')
    (hothers : SameElsewhere dir.currentSegmentFileNum block.columnGroupNo dir.blkdirRel rel')
    (hgroup : GroupOpen settings
      (rowsAt rel' dir.currentSegmentFileNum block.columnGroupNo) minipageInfo'
      (history dir.currentSegmentFileNum block.columnGroupNo ++ [block])) :
    OpenInv settings (history.add dir.currentSegmentFileNum block) pending { dir with
        blkdirRel := rel'
        minipages := update dir.minipages block.columnGroupNo minipageInfo' } := by
  refine ⟨hrel', ?_, ?_, ?_⟩
  · intro segno groupNo
    by_cases hsame : segno = dir.currentSegmentFileNum ∧ groupNo = block.columnGroupNo
    · rw [hsame.1, hsame.2, History.add_self]
      exact hincreasing
    · rw [History.add_of_ne hsame]
      exact h.increasing segno groupNo
  · intro groupNo hmem
    by_cases hsame : groupNo = block.columnGroupNo
    · subst hsame
      dsimp only
      rw [History.add_self, update_self]
      exact hgroup
    · have hne : ¬ (dir.currentSegmentFileNum = dir.currentSegmentFileNum ∧
          groupNo = block.columnGroupNo) := fun heq => hsame heq.2
      dsimp only
      rw [History.add_of_ne hne, update_of_ne hsame, hothers _ _ hne]
      exact h.opened groupNo hmem
  · intro segno groupNo houtside
    have hne : ¬ (segno = dir.currentSegmentFileNum ∧ groupNo = block.columnGroupNo) := by
      rintro ⟨rfl, rfl⟩
      exact houtside ⟨rfl, hpending⟩
    rw [History.add_of_ne hne, hothers _ _ hne]
    exact h.stored segno groupNo houtside

theorem closeLast_append (entries : List MinipageEntry) (hpage : page ≠ []) (firstRowNum : Int) :
    closeLast (entries ++ page) firstRowNum = entries ++ closeLast page firstRowNum := by
  obtain ⟨init, last, rfl⟩ := page.eq_nil_or_concat'.resolve_left hpage
  rw [← append_assoc, closeLast_concat, closeLast_concat, append_assoc]

section

variable (hsize : 1 ≤ settings.minipageSize) (h : OpenInv settings history pending dir)
  (hpending : block.columnGroupNo ∈ pending) (hincreasing : Increasing
    (history dir.currentSegmentFileNum block.columnGroupNo ++ [block]))

include hsize h hpending hincreasing

/-- The new entry goes behind the minipage in memory. -/
theorem OpenInv.append (hdisk : OnDisk minipageInfo
      (rowsAt dir.blkdirRel dir.currentSegmentFileNum block.columnGroupNo) kept)
    (hentries : entriesOf settings
        (history dir.currentSegmentFileNum block.columnGroupNo ++ [block]) =
      kept.flatMap BlkdirRow.minipage ++ minipageInfo.entries ++ [block.entry]) :
    ∃ dir', appendEntry settings dir block.columnGroupNo block.columnGroupNo minipageInfo
        block.entry = .ok dir' ∧
      dir'.table = dir.table ∧ dir'.currentSegmentFileNum = dir.currentSegmentFileNum ∧
      OpenInv settings (history.add dir.currentSegmentFileNum block) pending dir' := by
  have hindexed : Indexed settings _ (entriesOf settings _) := indexed_entriesOf hincreasing
  rw [hentries] at hindexed
  obtain ⟨rel', info', kept', happend, hrel', hothers, hdisk', hentries', hne⟩ :=
    appendEntry_spec hsize h.rel hdisk hindexed
  exact ⟨_, happend, rfl, rfl, h.insert hincreasing hpending hrel' hothers
    ⟨kept', hdisk', hentries'.trans hentries.symm, fun hnil => absurd hnil hne⟩⟩

/-- One call of `AppendOnlyBlockDirectory_InsertEntry`. -/
theorem insertNewEntry_spec :
    ∃ result dir', insertNewEntry settings dir block.columnGroupNo block.firstRowNum
        block.fileOffset block.rowCount false = .ok (result, dir') ∧
      dir'.table = dir.table ∧ dir'.currentSegmentFileNum = dir.currentSegmentFileNum ∧
      OpenInv settings (history.add dir.currentSegmentFileNum block) pending dir' := by
  obtain ⟨kept, hdisk, hentries, hnone⟩ := h.opened block.columnGroupNo hpending
  have hempty : (dir.minipages block.columnGroupNo).entries = [] → kept = [] :=
    fun hnil => subset_nil.mp (hnone hnil ▸ hdisk.kept_subset)
  have hnew := entriesOf_concat settings
    (history dir.currentSegmentFileNum block.columnGroupNo) block
  rw [← hentries] at hnew
  -- the page stays as it is when the sequence of entries does
  have hunchanged : entriesOf settings
        (history dir.currentSegmentFileNum block.columnGroupNo ++ [block]) =
      kept.flatMap BlkdirRow.minipage ++ (dir.minipages block.columnGroupNo).entries →
      OpenInv settings (history.add dir.currentSegmentFileNum block) pending dir := by
    intro heq
    have hinv := h.insert hincreasing hpending h.rel (fun _ _ _ => rfl)
      ⟨kept, hdisk, heq.symm, hnone⟩
    rw [update_eq_self] at hinv
    exact hinv
  simp only [insertNewEntry, Bool.false_eq_true, if_false]
  by_cases hzero : block.rowCount = 0
  · rw [addBlock, if_pos hzero] at hnew
    exact ⟨false, dir, if_pos hzero, rfl, rfl, hunchanged hnew⟩
  · rw [if_neg hzero]
    rw [addBlock, if_neg hzero] at hnew
    rcases (dir.minipages block.columnGroupNo).entries.eq_nil_or_concat' with hnil | ⟨init,
      last, hpage⟩
    · have hentry : entriesOf settings
            (history dir.currentSegmentFileNum block.columnGroupNo ++ [block]) =
          kept.flatMap BlkdirRow.minipage ++ (dir.minipages block.columnGroupNo).entries ++
            [block.entry] := by
        rw [hempty hnil, hnil] at hnew ⊢
        exact hnew
      obtain ⟨dir', happend, hdir'⟩ := OpenInv.append hsize h hpending hincreasing hdisk hentry
      refine ⟨true, dir', ?_, hdir'⟩
      rw [Block.entry] at happend
      rw [hnil, getLast?_nil]
      simp [happend, ok_bind, pure, Except.pure]
    · rw [hpage, ← append_assoc, getLast?_concat] at hnew
      rw [hpage, getLast?_concat]
      dsimp only at hnew ⊢
      by_cases hnear : settings.entryMinRange > 0 ∧
          block.fileOffset - last.fileOffset < settings.entryMinRange
      · rw [if_pos hnear]
        rw [if_pos hnear, append_assoc, ← hpage] at hnew
        exact ⟨true, dir, rfl, rfl, rfl, hunchanged hnew⟩
      · rw [if_neg hnear]
        rw [if_neg hnear, append_assoc, closeLast_append _ (by simp)] at hnew
        obtain ⟨dir', happend, hdir'⟩ := OpenInv.append hsize h hpending hincreasing
          (show OnDisk { dir.minipages block.columnGroupNo with
            entries := closeLast (init ++ [last]) block.firstRowNum } _ kept from hdisk) hnew
        refine ⟨true, dir', ?_, hdir'⟩
        rw [Block.entry] at happend
        rw [closeLast] at happend
        simp [happend, ok_bind, pure, Except.pure]

end

def History.addAll (history : History) (segno : Int) (blocks : List Block) : History :=
  blocks.foldl (fun history block => history.add segno block) history

theorem History.addAll_self (history : History) (segno : Int) (blocks : List Block)
    (groupNo : Nat) :
    history.addAll segno blocks segno groupNo =
      history segno groupNo ++ blocks.filter (·.columnGroupNo = groupNo) := by
  induction blocks generalizing history with
  | nil => exact (append_nil _).symm
  | cons block blocks ih =>
    refine (ih (history.add segno block)).trans ?_
    by_cases hsame : block.columnGroupNo = groupNo
    · subst hsame
      rw [History.add_self, append_assoc, singleton_append, filter_cons_of_pos]
      exact decide_eq_true rfl
    · rw [History.add_of_ne fun heq => hsame heq.2.symm, filter_cons_of_neg]
      exact fun htrue => hsame (of_decide_eq_true htrue)

/-- The calls of a session. -/
theorem insertBlocks_spec (hsize : 1 ≤ settings.minipageSize) :
    ∀ (blocks : List Block) {history : History} {dir : Directory},
      OpenInv settings history pending dir → (∀ block ∈ blocks, block.columnGroupNo ∈ pending) →
      (∀ groupNo, Increasing
        (history.addAll dir.currentSegmentFileNum blocks dir.currentSegmentFileNum groupNo)) →
      ∃ dir', insertBlocks settings dir blocks = .ok dir' ∧ dir'.table = dir.table ∧
        dir'.currentSegmentFileNum = dir.currentSegmentFileNum ∧
        OpenInv settings (history.addAll dir.currentSegmentFileNum blocks) pending dir' := by
  intro blocks
  induction blocks with
  | nil =>
    intro history dir h _ _
    exact ⟨dir, rfl, rfl, rfl, h⟩
  | cons block blocks ih =>
    intro history dir h hpending hincreasing
    have hhere : Increasing (history dir.currentSegmentFileNum block.columnGroupNo ++ [block]) := by
      have hall := hincreasing block.columnGroupNo
      rw [History.addAll_self, filter_cons, if_pos (by exact decide_eq_true rfl),
        ← singleton_append, ← append_assoc] at hall
      exact ⟨(pairwise_append.mp hall.order).1,
        fun other hother => hall.rows other (mem_append_left _ hother)⟩
    obtain ⟨result, dir₁, hinsert, htable₁, hsegno₁, h₁⟩ :=
      insertNewEntry_spec hsize h (hpending block mem_cons_self) hhere
    rw [← hsegno₁] at h₁ hincreasing
    obtain ⟨dir', hrun, htable, hsegno, h'⟩ :=
      ih h₁ (fun other hother => hpending other (mem_cons_of_mem _ hother)) hincreasing
    refine ⟨dir', ?_, htable.trans htable₁, hsegno.trans hsegno₁, ?_⟩
    · simp only [insertBlocks, hinsert, ok_bind, hrun]
    · rw [← hsegno₁]
      exact h'

/-- No entry is dropped when all lie before the end of the file. -/
theorem entriesBeforeEof_eq {eof : Int} (heof : ∀ entry ∈ page, entry.fileOffset < eof) :
    entriesBeforeEof page eof = page.length := by
  have hbefore : ∀ i < page.length, probeOffset page eof i = .lt := by
    intro i hi
    obtain ⟨entry, hentry⟩ := exists_getElem? hi
    have hlt := heof entry (mem_of_getElem? hentry)
    rw [probeOffset, entryAt_eq hentry, if_neg (by omega), if_pos hlt]
  rw [entriesBeforeEof, search_eq_miss hbefore]

theorem extractMinipage_eq {tuple : BlkdirRow}
    (heof : ∀ entry ∈ tuple.minipage, entry.fileOffset < currentEof dir groupNo) :
    extractMinipage dir tuple groupNo = { dir with
        minipages := update dir.minipages groupNo ⟨tuple.minipage, some tuple.tid⟩ } := by
  rw [extractMinipage, entriesBeforeEof_eq heof, take_length]

/-- Every stored entry is at the place of an inserted block. -/
theorem placed_of_stored {rows : List BlkdirRow} (hincreasing : Increasing blocks)
    (hstored : rows.flatMap BlkdirRow.minipage = entriesOf settings blocks)
    {row : BlkdirRow} (hrow : row ∈ rows) : ∀ entry ∈ row.minipage, ∃ block ∈ blocks,
      entry.firstRowNum = block.firstRowNum ∧ entry.fileOffset = block.fileOffset := by
  intro entry hentry
  have hindexed : Indexed settings _ (entriesOf settings _) := indexed_entriesOf hincreasing
  apply hindexed.placed entry
  rw [← hstored]
  exact mem_flatMap.mpr ⟨row, hrow, hentry⟩

/-- The last minipage of a column group is loaded. -/
theorem loadLastMinipage_spec (h : OpenInv settings history pending dir)
    (hnew : groupNo ∉ pending) (hpage : dir.minipages groupNo = ⟨[], none⟩)
    (hsequence : ∀ block ∈ history dir.currentSegmentFileNum groupNo,
      block.firstRowNum ≤ lastSequence)
    (heof : ∀ block ∈ history dir.currentSegmentFileNum groupNo,
      block.fileOffset < currentEof dir groupNo) :
    ∃ minipageInfo, loadLastMinipage dir lastSequence groupNo = { dir with
          minipages := update dir.minipages groupNo minipageInfo } ∧
      GroupOpen settings (rowsAt dir.blkdirRel dir.currentSegmentFileNum groupNo)
        minipageInfo (history dir.currentSegmentFileNum groupNo) := by
  have hstored := h.stored dir.currentSegmentFileNum groupNo fun hmem => hnew hmem.2
  have hincreasing := h.increasing dir.currentSegmentFileNum groupNo
  generalize hbound : (if lastSequence = 0 then 1 else lastSequence) = bound
  have hrows : ∀ row ∈ rowsAt dir.blkdirRel dir.currentSegmentFileNum groupNo,
      row.firstRowNum ≤ bound := by
    intro row hrow
    obtain ⟨head, hhead, hfirst⟩ := h.rel.heads row (mem_rowsAt.mp hrow).1
    obtain ⟨block, hblock, hplace, -⟩ :=
      placed_of_stored hincreasing hstored hrow head (mem_of_mem_head? hhead)
    have := hsequence block hblock
    omega
  have hindex := indexGetnext_spec (h.rel.order dir.currentSegmentFileNum groupNo) bound
  simp only [loadLastMinipage, hbound]
  cases hget : indexGetnext dir.blkdirRel dir.currentSegmentFileNum groupNo bound with
  | none =>
    rw [hget] at hindex
    have hnil : rowsAt dir.blkdirRel dir.currentSegmentFileNum groupNo = [] := by
      apply eq_nil_iff_forall_not_mem.mpr
      exact fun row hrow => absurd (hindex row hrow) (not_lt.mpr (hrows row hrow))
    refine ⟨⟨[], none⟩, ?_, ?_⟩
    · rw [← hpage, update_eq_self]
    · rw [hnil] at hstored ⊢
      exact ⟨[], rfl, hstored, fun _ => rfl⟩
  | some row =>
    rw [hget] at hindex
    obtain ⟨before, after, hsplit, -, hafter⟩ := hindex
    have hrow : row ∈ rowsAt dir.blkdirRel dir.currentSegmentFileNum groupNo := by
      rw [hsplit]
      exact mem_append_right _ mem_cons_self
    have hnil : after = [] := by
      apply eq_nil_iff_forall_not_mem.mpr
      intro next hnext
      apply absurd (hafter next hnext) (not_lt.mpr (hrows next _))
      rw [hsplit]
      exact mem_append_right _ (mem_cons_of_mem _ hnext)
    rw [hnil] at hsplit
    refine ⟨⟨row.minipage, some row.tid⟩, ?_, before, ⟨row, hsplit, rfl⟩, ?_, ?_⟩
    · apply extractMinipage_eq
      intro entry hentry
      obtain ⟨block, hblock, -, hoffset⟩ := placed_of_stored hincreasing hstored hrow entry hentry
      rw [hoffset]
      exact heof block hblock
    · rw [← hstored, hsplit, flatMap_append, flatMap_singleton]
    · intro hempty
      dsimp only at hempty
      obtain ⟨head, hhead, -⟩ := h.rel.heads row (mem_rowsAt.mp hrow).1
      rw [hempty] at hhead
      cases hhead

/-- The last minipages of the column groups are loaded one after the other. -/
theorem loadLastMinipages_spec : ∀ (groupNos : List Nat) {pending : Set Nat} {dir : Directory},
      OpenInv settings history pending dir → groupNos.Nodup →
      (∀ groupNo ∈ groupNos, groupNo ∉ pending ∧ dir.minipages groupNo = ⟨[], none⟩ ∧
        ∀ block ∈ history dir.currentSegmentFileNum groupNo,
          block.firstRowNum ≤ lastSequence ∧ block.fileOffset < currentEof dir groupNo) →
      ∃ minipages, groupNos.foldl (loadLastMinipage · lastSequence ·) dir =
          { dir with minipages := minipages } ∧
        OpenInv settings history (pending ∪ {groupNo | groupNo ∈ groupNos})
          { dir with minipages := minipages } := by
  intro groupNos
  induction groupNos with
  | nil =>
    intro pending dir h _ _
    refine ⟨dir.minipages, rfl, ?_⟩
    simpa using h
  | cons groupNo groupNos ih =>
    intro pending dir h hnodup hall
    rw [nodup_cons] at hnodup
    obtain ⟨hnew, hpage, hblocks⟩ := hall groupNo mem_cons_self
    obtain ⟨minipageInfo, hload, hgroup⟩ := loadLastMinipage_spec h hnew hpage
      (fun block hblock => (hblocks block hblock).1)
      (fun block hblock => (hblocks block hblock).2)
    have h₁ : OpenInv settings history (insert groupNo pending)
        { dir with minipages := update dir.minipages groupNo minipageInfo } := by
      refine ⟨h.rel, h.increasing, ?_, ?_⟩
      · intro other hother
        rcases Set.mem_insert_iff.mp hother with rfl | hother
        · dsimp only
          rw [update_self]
          exact hgroup
        · have hne : other ≠ groupNo := fun heq => hnew (heq ▸ hother)
          dsimp only
          rw [update_of_ne hne]
          exact h.opened other hother
      · intro segno other hout
        exact h.stored segno other fun hin => hout ⟨hin.1, Set.mem_insert_of_mem _ hin.2⟩
    obtain ⟨minipages, hrun, h'⟩ := ih h₁ hnodup.2 (by
      intro other hother
      have hne : other ≠ groupNo := fun heq => hnodup.1 (heq ▸ hother)
      obtain ⟨hnew', hpage', hblocks'⟩ := hall other (mem_cons_of_mem _ hother)
      refine ⟨?_, ?_, hblocks'⟩
      · exact fun hin => (Set.mem_insert_iff.mp hin).elim hne hnew'
      · dsimp only
        rw [update_of_ne hne]
        exact hpage')
    refine ⟨minipages, ?_, ?_⟩
    · rw [foldl_cons, hload, hrun]
    · have hset : insert groupNo pending ∪ {other | other ∈ groupNos} =
          pending ∪ {other | other ∈ groupNo :: groupNos} := by
        ext other
        simp only [Set.mem_union, Set.mem_insert_iff, Set.mem_ofPred_eq, mem_cons]
        tauto
      rw [hset] at h'
      exact h'

/-- The minipages in memory are written one after the other. -/
theorem endForInsertFrom_spec : ∀ (groupNos : List Nat) {rel : BlkdirRel}, groupNos.Nodup →
      OpenInv settings history {groupNo | groupNo ∈ groupNos} { dir with blkdirRel := rel } →
      ∃ rel', endForInsertFrom dir groupNos rel = .ok rel' ∧
        OpenInv settings history ∅ { dir with blkdirRel := rel' } := by
  intro groupNos
  induction groupNos with
  | nil =>
    intro rel _ h
    refine ⟨rel, rfl, ?_⟩
    simpa using h
  | cons groupNo groupNos ih =>
    intro rel hnodup h
    rw [nodup_cons] at hnodup
    obtain ⟨kept, hdisk, hentries, hnone⟩ := h.opened groupNo mem_cons_self
    -- the relation after this group, in which the group is stored
    have hstep : ∃ rel₁, endForInsertFrom dir (groupNo :: groupNos) rel =
          endForInsertFrom dir groupNos rel₁ ∧ RelOk rel₁ ∧
        (rowsAt rel₁ dir.currentSegmentFileNum groupNo).flatMap BlkdirRow.minipage =
          entriesOf settings (history dir.currentSegmentFileNum groupNo) ∧
        SameElsewhere dir.currentSegmentFileNum groupNo rel rel₁ := by
      cases hpage : (dir.minipages groupNo).entries with
      | nil =>
        refine ⟨rel, ?_, h.rel, ?_, fun _ _ _ => rfl⟩
        · rw [endForInsertFrom]
          simp only [hpage, length_nil, gt_iff_lt, lt_irrefl, if_false]
        · have hkept : kept = [] := subset_nil.mp (hnone hpage ▸ hdisk.kept_subset)
          rw [hnone hpage, ← hentries, hkept, hpage]
          rfl
      | cons head tail =>
        have hhead : (dir.minipages groupNo).entries.head? = some head := by
          rw [hpage, head?_cons]
        have hindexed : Indexed settings _ (entriesOf settings _) :=
          indexed_entriesOf (h.increasing dir.currentSegmentFileNum groupNo)
        rw [← hentries] at hindexed
        have hkept : ∀ row ∈ kept, row ∈ rel.rows :=
          fun row hrow => (mem_rowsAt.mp (hdisk.kept_subset hrow)).1
        obtain ⟨rel₁, row, hwrite, hrel₁, hrows, hrowPage, hothers⟩ :=
          writeMinipage_spec h.rel hdisk hhead (kept_before h.rel hkept hhead hindexed)
        refine ⟨rel₁, ?_, hrel₁, ?_, hothers⟩
        · rw [endForInsertFrom]
          simp only [hpage, length_cons, gt_iff_lt, Nat.succ_pos, if_true, hwrite, bind,
            Except.bind]
        · rw [hrows, flatMap_append, flatMap_singleton, hrowPage, hentries]
    obtain ⟨rel₁, hrun, hrel₁, hstored, hothers⟩ := hstep
    have h₁ : OpenInv settings history {other | other ∈ groupNos}
        { dir with blkdirRel := rel₁ } := by
      refine ⟨hrel₁, h.increasing, ?_, ?_⟩
      · intro other hother
        have hne : other ≠ groupNo := fun heq => hnodup.1 (heq ▸ hother)
        rw [hothers _ _ fun heq => hne heq.2]
        exact h.opened other (mem_cons_of_mem _ hother)
      · intro segno other hout
        by_cases hsame : segno = dir.currentSegmentFileNum ∧ other = groupNo
        · rw [hsame.1, hsame.2]
          exact hstored
        · rw [hothers _ _ hsame]
          apply h.stored segno other
          rintro ⟨hsegno, hmem⟩
          rcases mem_cons.mp hmem with heq | hin
          · exact hsame ⟨hsegno, heq⟩
          · exact hout ⟨hsegno, hin⟩
    rw [hrun]
    exact ih hnodup.2 h₁

/-- Between sessions everything is stored. -/
structure Stored (settings : Settings) (history : History) (rel : BlkdirRel) : Prop where
  relOk : RelOk rel
  increasing : ∀ segno groupNo, Increasing (history segno groupNo)
  stored : ∀ segno groupNo, (rowsAt rel segno groupNo).flatMap BlkdirRow.minipage =
      entriesOf settings (history segno groupNo)

def History.addSession (history : History) (session : InsertSession) : History :=
  history.addAll session.segmentFileInfo.segno session.blocks

/-- A session inserts blocks that come behind those inserted before, it knows the
last row number that was given out, and the segment file ends behind the earlier
blocks. -/
structure SessionOk (table : Table) (history : History) (session : InsertSession) : Prop where
  groups : ∀ block ∈ session.blocks, block.columnGroupNo < table.numColumnGroups
  increasing : ∀ columnGroupNo, Increasing
    (history.addSession session session.segmentFileInfo.segno columnGroupNo)
  sequence : ∀ columnGroupNo, ∀ block ∈ history session.segmentFileInfo.segno columnGroupNo,
    block.firstRowNum ≤ session.lastSequence
  eof : ∀ columnGroupNo, ∀ block ∈ history session.segmentFileInfo.segno columnGroupNo,
    block.fileOffset < segEof table.isAOCol session.segmentFileInfo columnGroupNo

/-- A whole session. -/
theorem runSession_spec (hsize : 1 ≤ settings.minipageSize)
    (h : Stored settings history rel) {session : InsertSession}
    (hsession : SessionOk table history session) :
    ∃ rel', runSession settings table rel session = .ok rel' ∧
      Stored settings (history.addSession session) rel' := by
  obtain ⟨fsInfo, lastSequence, blocks⟩ := session
  have hstart : OpenInv settings history ∅
      { table := table
        blkdirRel := rel
        proj := none
        segmentFileInfo := []
        currentSegmentFileNum := fsInfo.segno
        currentSegmentFileInfo := some fsInfo
        minipages := fun _ => ⟨[], none⟩ } :=
    ⟨h.relOk, h.increasing, fun _ hmem => absurd hmem (Set.notMem_empty _),
      fun segno groupNo _ => h.stored segno groupNo⟩
  obtain ⟨minipages, hinit, hopen⟩ := loadLastMinipages_spec (List.range table.numColumnGroups)
    hstart nodup_range (fun groupNo _ => ⟨Set.notMem_empty _, rfl,
      fun block hblock => ⟨hsession.sequence groupNo block hblock,
        hsession.eof groupNo block hblock⟩⟩)
  rw [Set.empty_union] at hopen
  obtain ⟨dir', hinsert, htable, hsegno, hinserted⟩ := insertBlocks_spec hsize blocks hopen
    (fun block hblock => mem_range.mpr (hsession.groups block hblock)) hsession.increasing
  rw [show table = dir'.table from htable.symm] at hinserted
  obtain ⟨rel', hend, hclosed⟩ := endForInsertFrom_spec _ nodup_range hinserted
  refine ⟨rel', ?_, hclosed.rel, hclosed.increasing, ?_⟩
  · simp only [runSession, initForInsert, hinit, hinsert, ok_bind, endForInsert, hend]
  · exact fun segno groupNo =>
      hclosed.stored segno groupNo fun hmem => Set.notMem_empty _ hmem.2

/-- Every session meets its conditions after those before it. -/
def SessionsOk (table : Table) : History → List InsertSession → Prop
  | _, [] => True
  | history, session :: sessions =>
    SessionOk table history session ∧ SessionsOk table (history.addSession session) sessions

/-- Any number of sessions. -/
theorem runSessions_spec (hsize : 1 ≤ settings.minipageSize) :
    ∀ (sessions : List InsertSession) {history : History} {rel : BlkdirRel},
      Stored settings history rel → SessionsOk table history sessions →
      ∃ rel', runSessions settings table rel sessions = .ok rel' ∧
        Stored settings (sessions.foldl History.addSession history) rel' := by
  intro sessions
  induction sessions with
  | nil => exact fun h _ => ⟨_, rfl, h⟩
  | cons session sessions ih =>
    intro history rel h hsessions
    obtain ⟨rel₁, hrun₁, h₁⟩ := runSession_spec hsize h hsessions.1
    obtain ⟨rel', hrun, h'⟩ := ih h₁ hsessions.2
    refine ⟨rel', ?_, h'⟩
    simp [runSessions, hrun₁, ok_bind, hrun]

theorem stored_empty : Stored settings (fun _ _ => []) ⟨[], 0⟩ := by
  refine ⟨⟨nodup_nil, ?_, ?_, fun _ _ => List.Pairwise.nil⟩, fun _ _ => ?_, fun _ _ => rfl⟩
  · exact fun _ hrow => absurd hrow not_mem_nil
  · exact fun _ hrow => absurd hrow not_mem_nil
  · exact ⟨List.Pairwise.nil, fun _ hblock => absurd hblock not_mem_nil⟩

end

end Greenplum.BlockDirectory
