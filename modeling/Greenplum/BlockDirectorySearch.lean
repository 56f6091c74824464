/-
Lookups in the block directory.  Whatever was looked up before, the minipages in
memory belong to the current segment file, and a row that was inserted is found
under the entry of its block.
-/
import Greenplum.BlockDirectoryInsert

namespace Greenplum.BlockDirectory

open Visimap List

/-- The entry leads to the block of the row. -/
structure DirectoryEntry.Finds (settings : Settings) (entry : DirectoryEntry) (rowNum : Int)
    (block : Block) : Prop where
  first : entry.firstRowNum ≤ rowNum
  last : rowNum ≤ entry.lastRowNum
  offset : entry.fileOffset ≤ block.fileOffset
  after : block.fileOffset < entry.afterFileOffset
  exact : settings.entryMinRange = 0 → entry.fileOffset = block.fileOffset

section

variable {settings : Settings} {dir : Directory} {groupNo : Nat} {blocks : List Block}
  {entries : List MinipageEntry} {block : Block} {rowNum : Int} {k : Nat}
  {entry : MinipageEntry}

/-- The range of an entry that the block lies under. -/
theorem setDirectoryentryRange_finds {next : Option MinipageEntry}
    (hentry : (dir.minipages groupNo).entries[k]? = some entry)
    (hcovers : Covers settings entry next block)
    (hnext : ∀ later, (dir.minipages groupNo).entries[k + 1]? = some later →
      next = some later) (heof : block.fileOffset < currentEof dir groupNo)
    (hin : block.Contains rowNum) (hlast : entry.Contains rowNum ∨ settings.entryMinRange ≠ 0 ∧
      (dir.minipages groupNo).entries[k + 1]? = none) (hmax : rowNum ≤ maxRowNum) :
    ∃ range, setDirectoryentryRange settings dir groupNo k = some range ∧
      range.Finds settings rowNum block := by
  have hoffset := hcovers.offset
  have hfirst := hcovers.first.trans hin.1
  have hinside : ¬ entry.fileOffset > currentEof dir groupNo := by omega
  simp only [setDirectoryentryRange, entryAt_eq hentry, if_neg hinside]
  refine ⟨_, rfl, hfirst, ?_, hoffset, ?_, fun hzero => (hcovers.exact hzero).1⟩
  · dsimp only
    split
    · exact hmax
    · rename_i hnotLast
      rcases hlast with hcontains | ⟨hrange, hnone⟩
      · have := hcontains.2
        omega
      · rw [hnone] at hnotLast
        exact absurd ⟨rfl, hrange⟩ hnotLast
  · cases hlater : (dir.minipages groupNo).entries[k + 1]? with
    | none =>
      dsimp only
      split <;> exact heof
    | some later =>
      have hafter := (hcovers.next later (hnext later hlater)).2
      dsimp only
      split
      · exact heof
      · exact hafter

/-- The minipage in memory is a page of the sequence of entries. -/
structure PageOf (dir : Directory) (groupNo : Nat) (entries before page after :
    List MinipageEntry) : Prop where
  page_eq : (dir.minipages groupNo).entries = page
  entries_eq : entries = before ++ (page ++ after)

variable {before page after : List MinipageEntry} (h : PageOf dir groupNo entries before page after)

include h

theorem PageOf.next (later : MinipageEntry)
    (hlater : (dir.minipages groupNo).entries[k + 1]? = some later) :
    entries[before.length + k + 1]? = some later := by
  rw [h.page_eq] at hlater
  rw [Nat.add_assoc, getElem?_middle h.entries_eq (List.getElem?_eq_some_iff.mp hlater).1, hlater]

variable (hindexed : Indexed settings blocks entries)

include hindexed

theorem PageOf.find_correct (rowNum : Int) :
    match findMinipageEntry page rowNum with
    | some k => ∃ entry, page[k]? = some entry ∧ entry.Contains rowNum
    | none => ∀ entry ∈ page, ¬ entry.Contains rowNum := by
  have hmem : ∀ entry ∈ page, entry ∈ entries := by
    rw [h.entries_eq]
    exact fun entry hentry => mem_append_right _ (mem_append_left _ hentry)
  have horder := hindexed.order
  rw [h.entries_eq, pairwise_append, pairwise_append] at horder
  exact findMinipageEntry_correct (fun entry hentry => hindexed.positive entry (hmem entry hentry))
    horder.2.1.1

variable (hblock : block ∈ blocks) (hin : block.Contains rowNum)
  (heof : block.fileOffset < currentEof dir groupNo) (hmax : rowNum ≤ maxRowNum)

include hblock hin heof hmax

theorem PageOf.finds_of_contains (hentry : page[k]? = some entry)
    (hcontains : entry.Contains rowNum) :
    ∃ range, setDirectoryentryRange settings dir groupNo k = some range ∧
      range.Finds settings rowNum block := by
  have hk := (List.getElem?_eq_some_iff.mp hentry).1
  have hentryAt : entries[before.length + k]? = some entry := by
    rw [getElem?_middle h.entries_eq hk, hentry]
  have hcovers := hindexed.covers_of_contains hblock hin hentryAt hcontains
  rw [← h.page_eq] at hentry
  exact setDirectoryentryRange_finds hentry hcovers (fun later => h.next later) heof hin
    (.inl hcontains) hmax

/-- What the minipage in memory says of an inserted row. -/
theorem PageOf.cachedEntry_finds {segmentFileNum : Int} {result : Option DirectoryEntry}
    (hcached : cachedEntry settings dir segmentFileNum rowNum groupNo = some result) :
    ∃ range, result = some range ∧ range.Finds settings rowNum block := by
  simp only [cachedEntry, h.page_eq] at hcached
  split at hcached
  · rename_i hpage
    have hfind := h.find_correct hindexed rowNum
    cases hsearch : findMinipageEntry page rowNum with
    | some k =>
      rw [hsearch] at hfind hcached
      obtain ⟨entry, hentry, hcontains⟩ := hfind
      rw [← Option.some.inj hcached]
      exact h.finds_of_contains hindexed hblock hin heof hmax hentry hcontains
    | none =>
      -- the row is behind the page, the index is asked
      rw [hsearch] at hfind hcached
      dsimp only at hcached
      split at hcached
      · rename_i hlt
        obtain ⟨head, hhead⟩ := exists_getElem? hpage.2.1
        obtain ⟨last, hlast⟩ := exists_getElem? (show page.length - 1 < page.length by omega)
        rw [entryAt_eq hhead] at hpage
        rw [entryAt_eq hlast] at hlt
        have hjoined := hindexed.joined
        rw [h.entries_eq, isChain_append, isChain_append] at hjoined
        rw [← getLast?_eq_getElem?] at hlast
        rw [← head?_eq_getElem?] at hhead
        obtain ⟨entry, hmem, hcontains⟩ :=
          exists_contains hjoined.2.1.1 hhead hlast hpage.2.2 (by omega)
        exact absurd hcontains (hfind entry hmem)
      · cases hcached
  · cases hcached

/-- What a minipage says of an inserted row that the index led to. -/
theorem PageOf.loadedEntry_finds {head : MinipageEntry} (hhead : page.head? = some head)
    (hlow : head.firstRowNum ≤ rowNum) (hafter : ∀ next ∈ after.head?, rowNum < next.firstRowNum) :
    ∃ range, loadedEntry settings dir rowNum groupNo = some range ∧
      range.Finds settings rowNum block := by
  have hfind := h.find_correct hindexed rowNum
  simp only [loadedEntry, h.page_eq]
  cases hsearch : findMinipageEntry page rowNum with
  | some k =>
    rw [hsearch] at hfind
    obtain ⟨entry, hentry, hcontains⟩ := hfind
    exact h.finds_of_contains hindexed hblock hin heof hmax hentry hcontains
  | none =>
    rw [hsearch] at hfind
    obtain ⟨k, entry, hentry, hcovers, hplace⟩ :=
      hindexed.exists_in_page hblock hin h.entries_eq hhead hlow hafter
    obtain ⟨hrange, hk⟩ := hplace.resolve_left (hfind entry (mem_of_getElem? hentry))
    have hnone : (dir.minipages groupNo).entries[k + 1]? = none := by
      rw [h.page_eq, hk]
      exact getElem?_eq_none (le_refl _)
    rw [← h.page_eq] at hentry
    rw [if_neg (by omega), show page.length - 1 = k by omega]
    exact setDirectoryentryRange_finds hentry hcovers (fun later => h.next later) heof hin
      (.inr ⟨hrange, hnone⟩) hmax

end

section

variable {settings : Settings} {history : History} {rel : BlkdirRel} {segno rowNum : Int}
  {groupNo : Nat}

/-- The first stored row begins with the first inserted row. -/
theorem Stored.head_rowsAt (h : Stored settings history rel) (segno : Int) (groupNo : Nat) :
    (rowsAt rel segno groupNo).head?.map BlkdirRow.firstRowNum =
      begins (history segno groupNo) := by
  have hindexed : Indexed settings _ (entriesOf settings _) :=
    indexed_entriesOf (h.increasing segno groupNo)
  rw [← hindexed.begins_eq, ← h.stored]
  cases hrows : rowsAt rel segno groupNo with
  | nil => rfl
  | cons row rows =>
    have hrow : row ∈ rowsAt rel segno groupNo := hrows ▸ mem_cons_self
    obtain ⟨head, hhead, hfirst⟩ := h.relOk.heads row (mem_rowsAt.mp hrow).1
    rw [flatMap_cons, head?_append, hhead, Option.some_or, Option.map_some, hfirst]
    rfl

/-- The index has a minipage for the row when rows were inserted from there on. -/
theorem Stored.isSome_indexGetnext (h : Stored settings history rel) :
    (indexGetnext rel segno groupNo rowNum).isSome ↔
      ∃ first ∈ begins (history segno groupNo), first ≤ rowNum := by
  have hindex := indexGetnext_spec (h.relOk.order segno groupNo) rowNum
  rw [← h.head_rowsAt]
  have horder := h.relOk.order segno groupNo
  cases hget : indexGetnext rel segno groupNo rowNum with
  | none =>
    rw [hget] at hindex
    refine iff_of_false Bool.false_ne_true ?_
    rintro ⟨first, hfirst, hle⟩
    obtain ⟨row, hrow, rfl⟩ := Option.map_eq_some_iff.mp hfirst
    exact absurd hle (not_le.mpr (hindex row (mem_of_mem_head? hrow)))
  | some row =>
    rw [hget] at hindex
    obtain ⟨before, after, hsplit, hle, -⟩ := hindex
    refine iff_of_true rfl ?_
    rw [hsplit] at horder ⊢
    cases before with
    | nil => exact ⟨row.firstRowNum, rfl, hle⟩
    | cons head before =>
      have hlt := (pairwise_cons.mp horder).1 row (mem_append_right _ mem_cons_self)
      exact ⟨head.firstRowNum, rfl, (le_of_lt hlt).trans hle⟩

theorem mem_rowsAt_of_indexGetnext {row : BlkdirRow}
    (hrow : indexGetnext rel segno groupNo rowNum = some row) :
    row ∈ rowsAt rel segno groupNo := by
  have hmem := List.mem_filter.mp (List.maxOn?_mem hrow)
  rw [Bool.and_eq_true] at hmem
  exact List.mem_filter.mpr ⟨hmem.1, hmem.2.1⟩

/-- All projected column groups have a minipage for the row: they are loaded. -/
theorem loadMinipages_loaded {fsInfo : FileSegInfo} : ∀ (groupNos : List Nat) {dir : Directory},
      (∀ groupNo ∈ groupNos, isProjected dir.proj groupNo = true →
        ∃ row, indexGetnext dir.blkdirRel segno groupNo rowNum = some row ∧ ∀ entry ∈ row.minipage,
            entry.fileOffset < segEof dir.table.isAOCol fsInfo groupNo) →
      ∃ fileNum fileInfo minipages, loadMinipages segno rowNum (some fsInfo) groupNos dir =
          ({ dir with
              currentSegmentFileNum := fileNum
              currentSegmentFileInfo := fileInfo
              minipages := minipages }, true) ∧
        (fileNum = dir.currentSegmentFileNum ∧ fileInfo = dir.currentSegmentFileInfo ∨
          fileNum = segno ∧ fileInfo = some fsInfo) ∧
        (∀ groupNo ∈ groupNos, isProjected dir.proj groupNo = true →
          fileNum = segno ∧ fileInfo = some fsInfo ∧
          ∃ row, indexGetnext dir.blkdirRel segno groupNo rowNum = some row ∧
            (minipages groupNo).entries = row.minipage) ∧
        ∀ groupNo, ¬ (groupNo ∈ groupNos ∧ isProjected dir.proj groupNo = true) →
          minipages groupNo = dir.minipages groupNo := by
  intro groupNos
  induction groupNos with
  | nil =>
    intro dir _
    exact ⟨_, _, _, rfl, .inl ⟨rfl, rfl⟩, fun _ hmem => absurd hmem not_mem_nil, fun _ _ => rfl⟩
  | cons groupNo groupNos ih =>
    intro dir hall
    have hrest := fun other hother => hall other (mem_cons_of_mem groupNo hother)
    by_cases hproj : isProjected dir.proj groupNo = true
    · obtain ⟨row, hrow, heof⟩ := hall groupNo mem_cons_self hproj
      have hextract : extractMinipage
          { dir with currentSegmentFileNum := segno, currentSegmentFileInfo := some fsInfo }
          row groupNo =
          { dir with
            currentSegmentFileNum := segno
            currentSegmentFileInfo := some fsInfo
            minipages := Function.update dir.minipages groupNo
              ⟨row.minipage, some row.tid⟩ } := extractMinipage_eq heof
      obtain ⟨fileNum, fileInfo, minipages, hload, hfile, hloaded, hothers⟩ := @ih { dir with
          currentSegmentFileNum := segno
          currentSegmentFileInfo := some fsInfo
          minipages := Function.update dir.minipages groupNo ⟨row.minipage, some row.tid⟩ } hrest
      have hcurrent : fileNum = segno ∧ fileInfo = some fsInfo := hfile.elim id id
      refine ⟨fileNum, fileInfo, minipages, ?_, .inr hcurrent, ?_, ?_⟩
      · rw [loadMinipages, if_neg (by rw [hproj]; decide), hrow]
        dsimp only
        rw [hextract, hload]
      · intro other hother hprojected
        by_cases hmem : other ∈ groupNos
        · exact hloaded other hmem hprojected
        · obtain rfl := (mem_cons.mp hother).resolve_right hmem
          refine ⟨hcurrent.1, hcurrent.2, row, hrow, ?_⟩
          rw [hothers other fun hin => hmem hin.1]
          dsimp only
          rw [Function.update_self]
      · intro other hout
        have hne : other ≠ groupNo := by
          rintro rfl
          exact hout ⟨mem_cons_self, hproj⟩
        rw [hothers other fun hin => hout ⟨mem_cons_of_mem _ hin.1, hin.2⟩]
        dsimp only
        rw [Function.update_of_ne hne]
    · obtain ⟨fileNum, fileInfo, minipages, hload, hfile, hloaded, hothers⟩ := ih hrest
      refine ⟨fileNum, fileInfo, minipages, ?_, hfile, ?_, ?_⟩
      · rw [loadMinipages, if_pos (by rw [Bool.eq_false_of_not_eq_true hproj]; rfl)]
        exact hload
      · intro other hother hprojected
        rcases mem_cons.mp hother with rfl | hmem
        · exact absurd hprojected hproj
        · exact hloaded other hmem hprojected
      · intro other hout
        exact hothers other fun hin => hout ⟨mem_cons_of_mem _ hin.1, hin.2⟩

/-- No projected column group has a minipage for the row: nothing is loaded. -/
theorem loadMinipages_unchanged {fsInfo : Option FileSegInfo} {dir : Directory} :
    ∀ (groupNos : List Nat), (∀ groupNo ∈ groupNos, isProjected dir.proj groupNo = true →
        indexGetnext dir.blkdirRel segno groupNo rowNum = none) →
      (loadMinipages segno rowNum fsInfo groupNos dir).1 = dir := by
  intro groupNos
  induction groupNos with
  | nil => exact fun _ => rfl
  | cons groupNo groupNos ih =>
    intro hall
    by_cases hproj : isProjected dir.proj groupNo = true
    · rw [loadMinipages, if_neg (by rw [hproj]; decide), hall groupNo mem_cons_self hproj]
    · rw [loadMinipages, if_pos (by rw [Bool.eq_false_of_not_eq_true hproj]; rfl)]
      exact ih fun other hother => hall other (mem_cons_of_mem _ hother)

end

section

variable {segno rowNum : Int} {groupNo : Nat} {row : BlkdirRow} {block : Block}
  {after : List BlkdirRow}

/-- A search knows the segment files of all inserted blocks, and they end behind
them. -/
structure SearchOk (table : Table) (history : History) (segmentFileInfo : List FileSegInfo) :
    Prop where
  files : (segmentFileInfo.map FileSegInfo.segno).Nodup
  known : ∀ segno columnGroupNo, ∀ block ∈ history segno columnGroupNo,
    ∃ fsInfo ∈ segmentFileInfo, fsInfo.segno = segno ∧
      block.fileOffset < segEof table.isAOCol fsInfo columnGroupNo

/-- In each segment file the projected column groups begin with the same row. -/
def BeginTogether (table : Table) (history : History) (proj : Option (List Bool)) : Prop :=
  ∀ segno columnGroupNo columnGroupNo', columnGroupNo < table.numColumnGroups →
    columnGroupNo' < table.numColumnGroups → isProjected proj columnGroupNo = true →
    isProjected proj columnGroupNo' = true →
    begins (history segno columnGroupNo) = begins (history segno columnGroupNo')

theorem findSegInfo_eq {fsInfos : List FileSegInfo}
    (hnodup : (fsInfos.map FileSegInfo.segno).Nodup) {fsInfo : FileSegInfo}
    (hmem : fsInfo ∈ fsInfos) : findSegInfo fsInfos fsInfo.segno = some fsInfo := by
  induction fsInfos with
  | nil => cases hmem
  | cons first rest ih =>
    rw [map_cons, nodup_cons] at hnodup
    cases rest with
    | nil =>
      rw [mem_singleton.mp hmem]
      rfl
    | cons second rest =>
      simp only [findSegInfo]
      rcases mem_cons.mp hmem with rfl | hrest
      · rw [if_pos rfl]
      · rw [if_neg, ih hnodup.2 hrest]
        intro heq
        apply hnodup.1
        rw [← heq]
        exact mem_map_of_mem hrest

/-- A minipage in memory is one of the current segment file. -/
structure SearchInv (table : Table) (rel : BlkdirRel) (fsInfos : List FileSegInfo)
    (proj : Option (List Bool)) (dir : Directory) : Prop where
  table_eq : dir.table = table
  rel_eq : dir.blkdirRel = rel
  files_eq : dir.segmentFileInfo = fsInfos
  proj_eq : dir.proj = proj
  page : ∀ groupNo, (dir.minipages groupNo).entries = [] ∨
    dir.currentSegmentFileInfo = findSegInfo fsInfos dir.currentSegmentFileNum ∧
    ∃ row ∈ rowsAt rel dir.currentSegmentFileNum groupNo,
      (dir.minipages groupNo).entries = row.minipage
  unused : ∀ groupNo, ¬ (groupNo < table.numColumnGroups ∧
    isProjected proj groupNo = true) → (dir.minipages groupNo).entries = []

variable {settings : Settings} {history : History} {rel : BlkdirRel} {table : Table}
  {fsInfos : List FileSegInfo} {proj : Option (List Bool)} {dir : Directory}

theorem searchInv_init : SearchInv table rel fsInfos proj (initForSearch table rel fsInfos proj) :=
  ⟨rfl, rfl, rfl, rfl, fun _ => .inl rfl, fun _ _ => rfl⟩

/-- A row of the index lies in a segment file that is known. -/
theorem SearchOk.eof_of_row (hsearch : SearchOk table history fsInfos)
    (hstored : Stored settings history rel) (hrow : row ∈ rowsAt rel segno groupNo) :
    ∃ fsInfo, findSegInfo fsInfos segno = some fsInfo ∧ ∀ entry ∈ row.minipage,
      entry.fileOffset < segEof table.isAOCol fsInfo groupNo := by
  have hplaced := placed_of_stored (hstored.increasing segno groupNo)
    (hstored.stored segno groupNo) hrow
  obtain ⟨head, hhead, -⟩ := hstored.relOk.heads row (mem_rowsAt.mp hrow).1
  obtain ⟨block, hblock, -⟩ := hplaced head (mem_of_mem_head? hhead)
  obtain ⟨fsInfo, hmem, rfl, -⟩ := hsearch.known segno groupNo block hblock
  refine ⟨fsInfo, findSegInfo_eq hsearch.files hmem, ?_⟩
  intro entry hentry
  obtain ⟨other, hother, -, hoffset⟩ := hplaced entry hentry
  obtain ⟨fsInfo', hmem', hsegno, hlt⟩ := hsearch.known _ groupNo other hother
  rw [hoffset, inj_on_of_nodup_map hsearch.files hmem hmem' hsegno.symm]
  exact hlt

section

variable (hstored : Stored settings history rel)

include hstored

variable (hsearch : SearchOk table history fsInfos) (htogether : BeginTogether table history proj)
  (h : SearchInv table rel fsInfos proj dir)

include hsearch htogether h

/-- The index is searched: the minipages of all projected column groups are
loaded, or none is. -/
theorem loadMinipages_spec (segno rowNum : Int) :
    (∃ dir', loadMinipages segno rowNum (findSegInfo fsInfos segno)
        (List.range table.numColumnGroups) dir = (dir', true) ∧
      SearchInv table rel fsInfos proj dir' ∧
      ∀ groupNo < table.numColumnGroups, isProjected proj groupNo = true →
        dir'.currentSegmentFileInfo = findSegInfo fsInfos segno ∧
        ∃ row, indexGetnext rel segno groupNo rowNum = some row ∧
          (dir'.minipages groupNo).entries = row.minipage) ∨
    ((loadMinipages segno rowNum (findSegInfo fsInfos segno)
        (List.range table.numColumnGroups) dir).1 = dir ∧
      ∀ groupNo < table.numColumnGroups, isProjected proj groupNo = true →
        indexGetnext rel segno groupNo rowNum = none) := by
  by_cases hfound : ∃ groupNo < table.numColumnGroups, isProjected proj groupNo = true ∧
      (indexGetnext rel segno groupNo rowNum).isSome
  · left
    obtain ⟨first, hfirst, hfirstProj, hfirstSome⟩ := hfound
    have hall : ∀ groupNo < table.numColumnGroups, isProjected proj groupNo = true →
        ∃ row, indexGetnext rel segno groupNo rowNum = some row ∧
          row ∈ rowsAt rel segno groupNo := by
      intro groupNo hgroup hproj
      have hsome : (indexGetnext rel segno groupNo rowNum).isSome := by
        rw [hstored.isSome_indexGetnext] at hfirstSome ⊢
        rw [htogether segno groupNo first hgroup hfirst hproj hfirstProj]
        exact hfirstSome
      obtain ⟨row, hrow⟩ := Option.isSome_iff_exists.mp hsome
      exact ⟨row, hrow, mem_rowsAt_of_indexGetnext hrow⟩
    obtain ⟨firstRow, -, hfirstMem⟩ := hall first hfirst hfirstProj
    obtain ⟨fsInfo, hfsInfo, -⟩ := hsearch.eof_of_row hstored hfirstMem
    obtain ⟨fileNum, fileInfo, minipages, hload, -, hloaded, hothers⟩ :=
      @loadMinipages_loaded segno rowNum fsInfo (List.range table.numColumnGroups) dir (by
        intro groupNo hgroup hproj
        rw [h.proj_eq] at hproj
        rw [h.rel_eq, h.table_eq]
        obtain ⟨row, hrow, hmem⟩ := hall groupNo (mem_range.mp hgroup) hproj
        obtain ⟨fsInfo', hfsInfo', heof⟩ := hsearch.eof_of_row hstored hmem
        obtain rfl : fsInfo = fsInfo' := Option.some.inj (hfsInfo.symm.trans hfsInfo')
        exact ⟨row, hrow, heof⟩)
    rw [h.proj_eq, h.rel_eq] at hloaded
    rw [h.proj_eq] at hothers
    rw [hfsInfo]
    refine ⟨_, hload, ?_, ?_⟩
    · refine ⟨h.table_eq, h.rel_eq, h.files_eq, h.proj_eq, ?_, ?_⟩
      · intro groupNo
        by_cases hused : groupNo < table.numColumnGroups ∧ isProjected proj groupNo = true
        · obtain ⟨rfl, rfl, row, hrow, hpage⟩ := hloaded groupNo (mem_range.mpr hused.1) hused.2
          exact .inr ⟨hfsInfo.symm, row, mem_rowsAt_of_indexGetnext hrow, hpage⟩
        · left
          dsimp only
          rw [hothers groupNo fun hin => hused ⟨mem_range.mp hin.1, hin.2⟩]
          exact h.unused groupNo hused
      · intro groupNo hunused
        dsimp only
        rw [hothers groupNo fun hin => hunused ⟨mem_range.mp hin.1, hin.2⟩]
        exact h.unused groupNo hunused
    · intro groupNo hgroup hproj
      obtain ⟨-, hinfo, hpage⟩ := hloaded groupNo (mem_range.mpr hgroup) hproj
      exact ⟨hinfo, hpage⟩
  · right
    have hnone : ∀ groupNo < table.numColumnGroups, isProjected proj groupNo = true →
        indexGetnext rel segno groupNo rowNum = none := by
      intro groupNo hgroup hproj
      apply Option.not_isSome_iff_eq_none.mp
      exact fun hsome => hfound ⟨groupNo, hgroup, hproj, hsome⟩
    refine ⟨loadMinipages_unchanged _ ?_, hnone⟩
    rw [h.proj_eq, h.rel_eq]
    exact fun groupNo hgroup => hnone groupNo (mem_range.mp hgroup)

theorem getEntry_inv (aoTupleId : AOTupleId) (groupNo : Nat) :
    SearchInv table rel fsInfos proj (getEntry settings dir aoTupleId groupNo).1 := by
  rw [getEntry]
  split
  · exact h
  · rw [h.files_eq, h.table_eq]
    dsimp only
    rcases loadMinipages_spec hstored hsearch htogether h aoTupleId.segmentFileNum
      aoTupleId.rowNum with ⟨dir', hload, h', -⟩ | ⟨hsame, -⟩
    · rw [hload]
      exact h'
    · split
      · rename_i hload
        rw [hload] at hsame
        rw [hsame]
        exact h
      · rename_i hload
        rw [hload] at hsame
        rw [hsame]
        exact h

theorem runLookups_inv (lookups : List (AOTupleId × Nat)) :
    SearchInv table rel fsInfos proj (runLookups settings dir lookups) := by
  induction lookups generalizing dir with
  | nil => exact h
  | cons lookup lookups ih =>
    exact ih (getEntry_inv hstored hsearch htogether h lookup.1 lookup.2)

end

theorem Indexed.begins_le {blocks : List Block} {entries : List MinipageEntry}
    (h : Indexed settings blocks entries) (hblock : block ∈ blocks)
    (hin : block.Contains rowNum) : ∃ first ∈ begins blocks, first ≤ rowNum := by
  have hrows : 0 < block.rowCount := by
    have := hin.1.trans_lt hin.2
    omega
  obtain ⟨i, entry, hentry, hcovers⟩ := h.covers block hblock hrows
  have hlength : 0 < entries.length := Nat.zero_lt_of_lt (List.getElem?_eq_some_iff.mp hentry).1
  obtain ⟨head, hhead⟩ := exists_getElem? hlength
  have hle := h.firstRowNum_le hhead hentry (Nat.zero_le i)
  refine ⟨head.firstRowNum, ?_, hle.trans (hcovers.first.trans hin.1)⟩
  rw [← h.begins_eq, head?_eq_getElem?, hhead]
  rfl

/-- A stored row is a page of the sequence of entries. -/
theorem Stored.pageOf (hstored : Stored settings history rel) {before : List BlkdirRow}
    (hsplit : rowsAt rel segno groupNo = before ++ row :: after)
    (hpage : (dir.minipages groupNo).entries = row.minipage) :
    PageOf dir groupNo (entriesOf settings (history segno groupNo))
      (before.flatMap BlkdirRow.minipage) row.minipage (after.flatMap BlkdirRow.minipage) := by
  refine ⟨hpage, ?_⟩
  rw [← hstored.stored, hsplit, flatMap_append, flatMap_cons]

/-- The minipage behind begins behind the row. -/
theorem head_flatMap_of_lt (hrel : RelOk rel) (hmem : ∀ next ∈ after, next ∈ rel.rows)
    (hafter : ∀ next ∈ after, rowNum < next.firstRowNum) :
    ∀ entry ∈ (after.flatMap BlkdirRow.minipage).head?, rowNum < entry.firstRowNum := by
  cases after with
  | nil => exact fun _ hentry => absurd hentry (by simp)
  | cons next after =>
    intro entry hentry
    obtain ⟨head, hhead, hfirst⟩ := hrel.heads next (hmem next mem_cons_self)
    rw [flatMap_cons, head?_append, hhead, Option.some_or, Option.mem_some_iff] at hentry
    rw [← hentry, hfirst]
    exact hafter next mem_cons_self

/-- The lookup of an inserted row, whatever is in memory. -/
theorem SearchInv.getEntry_finds (hstored : Stored settings history rel)
    (hsearch : SearchOk table history fsInfos) (htogether : BeginTogether table history proj)
    (h : SearchInv table rel fsInfos proj dir) {aoTupleId : AOTupleId}
    (hgroup : groupNo < table.numColumnGroups) (hproj : isProjected proj groupNo = true)
    (hblock : block ∈ history aoTupleId.segmentFileNum groupNo)
    (hin : block.Contains aoTupleId.rowNum) :
    ∃ range, (getEntry settings dir aoTupleId groupNo).2 = some range ∧
      range.Finds settings aoTupleId.rowNum block := by
  have hmax : (aoTupleId.rowNum : Int) ≤ maxRowNum := by
    have hlt := aoTupleId.rowNum_lt
    unfold maxRowNum
    omega
  have hindexed : Indexed settings _ (entriesOf settings _) :=
    indexed_entriesOf (hstored.increasing aoTupleId.segmentFileNum groupNo)
  obtain ⟨fsInfo, hfsMem, hsegno, heof⟩ := hsearch.known _ groupNo block hblock
  have hfsInfo := findSegInfo_eq hsearch.files hfsMem
  rw [hsegno] at hfsInfo
  -- the end of the file is the same for all directories that look at this file
  have hcurrent : ∀ dir' : Directory, dir'.table = table →
      dir'.currentSegmentFileInfo = findSegInfo fsInfos aoTupleId.segmentFileNum →
      block.fileOffset < currentEof dir' groupNo := by
    intro dir' htable hinfo
    rw [currentEof, hinfo, hfsInfo, htable]
    exact heof
  rw [getEntry]
  cases hcached : cachedEntry settings dir aoTupleId.segmentFileNum aoTupleId.rowNum groupNo with
  | some result =>
    have hhit : (aoTupleId.segmentFileNum : Int) = dir.currentSegmentFileNum ∧
        (dir.minipages groupNo).entries.length > 0 := by
      simp only [cachedEntry] at hcached
      split at hcached
      · rename_i hcond
        exact ⟨hcond.1, hcond.2.1⟩
      · cases hcached
    rcases h.page groupNo with hempty | ⟨hinfo, row, hrow, hpage⟩
    · rw [hempty] at hhit
      exact absurd hhit.2 (lt_irrefl 0)
    · rw [← hhit.1] at hinfo hrow
      obtain ⟨before, after, hsplit⟩ := append_of_mem hrow
      exact (hstored.pageOf hsplit hpage).cachedEntry_finds hindexed hblock hin
        (hcurrent dir h.table_eq hinfo) hmax hcached
  | none =>
    dsimp only
    rw [h.files_eq, h.table_eq]
    rcases loadMinipages_spec hstored hsearch htogether h aoTupleId.segmentFileNum
      aoTupleId.rowNum with ⟨dir', hload, h', hloaded⟩ | ⟨-, hnone⟩
    · obtain ⟨hinfo, row, hget, hpage⟩ := hloaded groupNo hgroup hproj
      have hindex := indexGetnext_spec
        (hstored.relOk.order aoTupleId.segmentFileNum groupNo) aoTupleId.rowNum
      rw [hget] at hindex
      obtain ⟨before, after, hsplit, hle, hafter⟩ := hindex
      have hmem : ∀ other ∈ row :: after, other ∈ rel.rows := by
        intro other hother
        refine (mem_rowsAt.mp (?_ : other ∈ rowsAt rel aoTupleId.segmentFileNum groupNo)).1
        rw [hsplit]
        exact mem_append_right _ hother
      obtain ⟨head, hhead, hfirst⟩ := hstored.relOk.heads row (hmem row mem_cons_self)
      rw [hload]
      apply (hstored.pageOf hsplit hpage).loadedEntry_finds hindexed hblock hin
        (hcurrent dir' h'.table_eq hinfo) hmax hhead (hfirst ▸ hle)
      exact head_flatMap_of_lt hstored.relOk
        (fun next hnext => hmem next (mem_cons_of_mem _ hnext)) hafter
    · have hsome := hstored.isSome_indexGetnext.mpr (hindexed.begins_le hblock hin)
      rw [hnone groupNo hgroup hproj] at hsome
      cases hsome

/-- The blocks that the sessions insert. -/
def inserted (sessions : List InsertSession) : History :=
  sessions.foldl History.addSession fun _ _ => []

/-- After any number of insert sessions and any lookups, the lookup of a row of an
inserted block leads to this block, provided that in each segment file the
projected column groups begin with the same row. -/
theorem getEntry_leads_to_block (settings : Settings) (hsize : 1 ≤ settings.minipageSize)
    (table : Table) (sessions : List InsertSession)
    (hsessions : SessionsOk table (fun _ _ => []) sessions) :
    ∃ rel, runSessions settings table ⟨[], 0⟩ sessions = .ok rel ∧
      ∀ (segmentFileInfo : List FileSegInfo) (proj : Option (List Bool)),
        SearchOk table (inserted sessions) segmentFileInfo →
        BeginTogether table (inserted sessions) proj →
        ∀ (lookups : List (AOTupleId × Nat)) (aoTupleId : AOTupleId) (columnGroupNo : Nat),
          columnGroupNo < table.numColumnGroups → isProjected proj columnGroupNo = true →
          ∀ block ∈ inserted sessions aoTupleId.segmentFileNum columnGroupNo,
            block.Contains aoTupleId.rowNum → ∃ range, (getEntry settings (runLookups settings
                (initForSearch table rel segmentFileInfo proj) lookups)
                aoTupleId columnGroupNo).2 = some range ∧
              range.Finds settings aoTupleId.rowNum block := by
  obtain ⟨rel, hrun, hstored⟩ := runSessions_spec hsize sessions stored_empty hsessions
  refine ⟨rel, hrun, ?_⟩
  intro segmentFileInfo proj hsearch htogether lookups aoTupleId columnGroupNo hgroup hproj
    block hblock hin
  exact (runLookups_inv hstored hsearch htogether searchInv_init lookups).getEntry_finds hstored
    hsearch htogether hgroup hproj hblock hin

end

section

variable {history : History} {segno segno' : Int} {groupNo : Nat} {block : Block}

theorem mem_addAll {blocks : List Block}
    (hblock : block ∈ history.addAll segno blocks segno' groupNo) :
    block ∈ history segno' groupNo ∨
      segno' = segno ∧ block ∈ blocks ∧ block.columnGroupNo = groupNo := by
  induction blocks generalizing history with
  | nil => exact .inl hblock
  | cons first rest ih =>
    rcases ih hblock with hold | ⟨hsegno, hrest, hgroup⟩
    · dsimp only at hold
      by_cases hsame : segno' = segno ∧ groupNo = first.columnGroupNo
      · obtain ⟨rfl, rfl⟩ := hsame
        rw [History.add_self] at hold
        rcases mem_append.mp hold with hhistory | hnew
        · exact .inl hhistory
        · rw [mem_singleton.mp hnew]
          exact .inr ⟨rfl, mem_cons_self, rfl⟩
      · rw [History.add_of_ne hsame] at hold
        exact .inl hold
    · exact .inr ⟨hsegno, mem_cons_of_mem _ hrest, hgroup⟩

theorem mem_inserted {sessions : List InsertSession}
    (hblock : block ∈ inserted sessions segno groupNo) :
    ∃ session ∈ sessions, segno = session.segmentFileInfo.segno ∧ block ∈ session.blocks ∧
      block.columnGroupNo = groupNo := by
  induction sessions using List.reverseRecOn with
  | nil => exact absurd hblock not_mem_nil
  | append_singleton sessions session ih =>
    rw [inserted, foldl_append] at hblock
    rcases mem_addAll hblock with hold | hnew
    · obtain ⟨earlier, hearlier, hfrom⟩ := ih hold
      exact ⟨earlier, mem_append_left _ hearlier, hfrom⟩
    · exact ⟨session, mem_append_right _ mem_cons_self, hnew⟩

end

namespace BlockDirectoryWitness

/-- A table with two column groups. -/
def table : Table := ⟨2, 2, true⟩

def files : List FileSegInfo := [⟨1, 0, [100, 100]⟩, ⟨2, 0, [100, 100]⟩]

def settings : Settings := ⟨0, 1⟩

def tuple (segno row : Nat) : AOTupleId :=
  ⟨BitVec.ofNat 16 (512 * segno), 0, BitVec.ofNat 16 row⟩

/-- A session of a new segment file. -/
def session (segno : Int) (blocks : List Block) : InsertSession :=
  ⟨⟨segno, 0, [0, 0]⟩, 0, blocks⟩

/-- The blocks are those of one session: in each column group they are in order. -/
def BlocksOk (blocks : List Block) : Prop :=
  (∀ block ∈ blocks, block.columnGroupNo < 2 ∧ 0 ≤ block.rowCount) ∧
    blocks.Pairwise fun block later => block.columnGroupNo = later.columnGroupNo →
      block.Before later

instance (blocks : List Block) : Decidable (BlocksOk blocks) :=
  inferInstanceAs (Decidable (_ ∧ _))

theorem session_ok {history : History} {segno : Int} {blocks : List Block}
    (hnew : ∀ groupNo, history segno groupNo = []) (hblocks : BlocksOk blocks) :
    SessionOk table history (session segno blocks) := by
  refine ⟨fun block hblock => (hblocks.1 block hblock).1, ?_, ?_, ?_⟩
  · intro groupNo
    change Increasing (history.addAll segno blocks segno groupNo)
    rw [History.addAll_self, hnew groupNo, nil_append]
    refine ⟨pairwise_filter.mpr (hblocks.2.imp ?_), ?_⟩
    · intro block later hbefore hblock hlater
      exact hbefore ((of_decide_eq_true hblock).trans (of_decide_eq_true hlater).symm)
    · exact fun block hblock => (hblocks.1 block (mem_of_mem_filter hblock)).2
  · intro groupNo block hblock
    rw [session, hnew groupNo] at hblock
    cases hblock
  · intro groupNo block hblock
    rw [session, hnew groupNo] at hblock
    cases hblock

theorem sessions_ok {first second : List Block} (hfirst : BlocksOk first)
    (hsecond : BlocksOk second) :
    SessionsOk table (fun _ _ => []) [session 1 first, session 2 second] := by
  refine ⟨session_ok (fun _ => rfl) hfirst, session_ok ?_ hsecond, trivial⟩
  intro groupNo
  apply eq_nil_iff_forall_not_mem.mpr
  intro block hblock
  rcases mem_addAll hblock with hold | ⟨hsegno, -⟩
  · cases hold
  · exact absurd hsegno (show (2 : Int) ≠ 1 by decide)

theorem search_ok {sessions : List InsertSession}
    (hsessions : ∀ session ∈ sessions, ∀ block ∈ session.blocks, ∃ fsInfo ∈ files,
      fsInfo.segno = session.segmentFileInfo.segno ∧
        block.fileOffset < segEof table.isAOCol fsInfo block.columnGroupNo) :
    SearchOk table (inserted sessions) files := by
  refine ⟨by decide, ?_⟩
  intro segno groupNo block hblock
  obtain ⟨session, hsession, rfl, hmem, rfl⟩ := mem_inserted hblock
  exact hsessions session hsession block hmem

/-- Both column groups begin with row 1 in both segment files. -/
def evenSessions : List InsertSession :=
  [session 1 [⟨0, 1, 0, 10⟩, ⟨1, 1, 0, 20⟩, ⟨0, 11, 40, 10⟩],
    session 2 [⟨0, 1, 0, 20⟩, ⟨1, 1, 0, 5⟩, ⟨1, 6, 40, 15⟩]]

theorem even_together : BeginTogether table (inserted evenSessions) none := by
  intro segno groupNo groupNo' hgroup hgroup' _ _
  have hall : ∀ groupNo < 2, begins (inserted evenSessions segno groupNo) =
      if segno = 1 ∨ segno = 2 then some 1 else none := by
    by_cases hfirst : segno = 1
    · subst hfirst
      decide
    · by_cases hsecond : segno = 2
      · subst hsecond
        decide
      · simp [inserted, evenSessions, session, History.addSession, History.addAll, History.add,
          hfirst, hsecond, begins]
  rw [hall groupNo hgroup, hall groupNo' hgroup']

/-- A lookup in the second segment file after one in the first. -/
theorem even_lookup_leads_to_block :
    ∃ rel range, runSessions settings table ⟨[], 0⟩ evenSessions = .ok rel ∧
      (getEntry settings (runLookups settings (initForSearch table rel files none)
        [(tuple 1 12, 0)]) (tuple 2 12) 1).2 = some range ∧ range.fileOffset = 40 := by
  obtain ⟨rel, hrun, hall⟩ := getEntry_leads_to_block settings (by decide) table evenSessions
    (sessions_ok (by decide) (by decide))
  obtain ⟨range, hget, hfinds⟩ := hall files none (search_ok (by decide)) even_together
    [(tuple 1 12, 0)] (tuple 2 12) 1 (by decide) rfl ⟨1, 6, 40, 15⟩ (by decide)
    ⟨by decide, by decide⟩
  exact ⟨rel, range, hrun, hget, hfinds.exact rfl⟩

/-- In the second segment file the column groups begin with rows 1 and 10. -/
def unevenSessions : List InsertSession :=
  [session 1 [⟨0, 1, 0, 20⟩, ⟨1, 1, 0, 20⟩], session 2 [⟨0, 1, 0, 20⟩, ⟨1, 10, 40, 11⟩]]

def unevenRel : BlkdirRel :=
  ⟨[⟨0, 1, 0, 1, [⟨1, 0, 20⟩]⟩, ⟨1, 1, 1, 1, [⟨1, 0, 20⟩]⟩,
    ⟨2, 2, 0, 1, [⟨1, 0, 20⟩]⟩, ⟨3, 2, 1, 10, [⟨10, 40, 11⟩]⟩], 4⟩

/-- Row 5 of the second segment file is in a block of the first column group, but
its lookup returns false.  It leaves the second column group's minipage of the
first segment file in memory; the lookup of row 12, which is in blocks of both
column groups, then returns the offset of a block of the first segment file. -/
theorem uneven_lookup_misled : SessionsOk table (fun _ _ => []) unevenSessions ∧
      SearchOk table (inserted unevenSessions) files ∧
      runSessions settings table ⟨[], 0⟩ unevenSessions = .ok unevenRel ∧
      (⟨0, 1, 0, 20⟩ : Block) ∈ inserted unevenSessions (tuple 2 5).segmentFileNum 0 ∧
      Block.Contains ⟨0, 1, 0, 20⟩ (tuple 2 5).rowNum ∧
      (getEntry settings (initForSearch table unevenRel files none) (tuple 2 5) 0).2 = none ∧
      (⟨1, 10, 40, 11⟩ : Block) ∈ inserted unevenSessions (tuple 2 12).segmentFileNum 1 ∧
      Block.Contains ⟨1, 10, 40, 11⟩ (tuple 2 12).rowNum ∧
      (getEntry settings (runLookups settings (initForSearch table unevenRel files none)
        [(tuple 1 12, 1), (tuple 2 5, 0)]) (tuple 2 12) 1).2 = some ⟨0, 1, 100, 20⟩ := by
  exact ⟨sessions_ok (by decide) (by decide), search_ok (by decide), by decide, by decide,
    ⟨by decide, by decide⟩, by decide, by decide, ⟨by decide, by decide⟩, by decide⟩

end BlockDirectoryWitness

end Greenplum.BlockDirectory
