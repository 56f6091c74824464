/-
The multi-key heap over readers: every call takes one entry from what is pending, and
what is pending runs out.
-/
import Greenplum.MkHeapMerge

namespace Greenplum.MkSort

open IndexedCells List

variable {T D : Type} (ctxt : MKContext T D)

/-- The entry of a record of a reader. -/
def recordEntry (n : Nat) (record : Record T D) : MKEntry T D := mkeSetReader (readtup record) n

/-- What readers still have, the first of them with number `n`. -/
def remainingFrom : List (List (Record T D)) → Nat → List (Content T D)
  | [], _ => []
  | records :: readers, n =>
    records.map (fun record => content ctxt (recordEntry n record)) ++ remainingFrom readers (n + 1)

/-- The contents that are still to come out of a heap. -/
def pending (heap : MKHeap T D) : List (Content T D) :=
  (liveEntries heap.p).map (content ctxt) ++ remainingFrom ctxt heap.readers 0

section

variable {ctxt} {readers : List (List (Record T D))}

theorem compareKeys_recordEntry (e : MKEntry T D) (n : Nat) (record : Record T D) :
    compareKeys ctxt e (recordEntry n record) = compareKeys ctxt e (readtup record) :=
  compareFrom_of_keys ctxt (fun _ => rfl) (fun l => keyAt_setReader ctxt (readtup record) n l) 0 _

theorem recordEntry_compareKeys (e : MKEntry T D) (n : Nat) (record : Record T D) :
    compareKeys ctxt (recordEntry n record) e = compareKeys ctxt (readtup record) e :=
  compareFrom_of_keys ctxt (fun l => keyAt_setReader ctxt (readtup record) n l) (fun _ => rfl) 0 _

/-- A record that is read leaves the rest. -/
theorem remainingFrom_set (ctxt : MKContext T D) (readers : List (List (Record T D)))
    (i n : Nat) (record : Record T D) (records : List (Record T D))
    (hn : readers[n]? = some (record :: records)) :
    (content ctxt (recordEntry (i + n) record) ::
      remainingFrom ctxt (readers.set n records) i).Perm (remainingFrom ctxt readers i) := by
  induction readers generalizing i n with
  | nil => cases hn
  | cons first readers ih =>
    cases n with
    | zero =>
      cases hn
      exact List.Perm.refl _
    | succ n =>
      have hrest := ih (i + 1) n hn
      have hindex : i + 1 + n = i + (n + 1) := by omega
      rw [hindex] at hrest
      exact perm_middle.symm.trans (hrest.append_left _)

theorem mem_remainingFrom {i : Nat} {c : Content T D} (hc : c ∈ remainingFrom ctxt readers i) :
    ∃ n records record, readers[n]? = some records ∧ record ∈ records ∧
      c = content ctxt (recordEntry (i + n) record) := by
  induction readers generalizing i with
  | nil => cases hc
  | cons first readers ih =>
    rcases mem_append.1 hc with hc | hc
    · obtain ⟨record, hrecord, rfl⟩ := mem_map.1 hc
      exact ⟨0, first, record, rfl, hrecord, rfl⟩
    · obtain ⟨n, records, record, hn, hrecord, rfl⟩ := ih hc
      refine ⟨n + 1, records, record, hn, hrecord, ?_⟩
      have hindex : i + 1 + n = i + (n + 1) := by omega
      rw [hindex]

theorem content_mem_remainingFrom {record : Record T D} (h : record ∈ readers.flatten) (i : Nat) :
    ∃ n, content ctxt (recordEntry n record) ∈ remainingFrom ctxt readers i := by
  induction readers generalizing i with
  | nil => cases h
  | cons first readers ih =>
    rcases mem_append.1 h with h | h
    · exact ⟨i, mem_append_left _ (mem_map_of_mem h)⟩
    · obtain ⟨n, hn⟩ := ih h (i + 1)
      exact ⟨n, mem_append_right _ hn⟩

theorem remainingFrom_eq_nil (i : Nat)
    (hnone : ∀ (n : Nat) (records : List (Record T D)), readers[n]? = some records → records = []) :
    remainingFrom ctxt readers i = [] := by
  apply eq_nil_iff_forall_not_mem.2
  intro c hc
  obtain ⟨n, records, record, hn, hrecord, -⟩ := mem_remainingFrom hc
  rw [hnone n records hn] at hrecord
  cases hrecord

theorem length_remainingFrom (readers : List (List (Record T D))) (i : Nat) :
    (remainingFrom ctxt readers i).length = recordCount readers := by
  unfold recordCount
  induction readers generalizing i with
  | nil => rfl
  | cons first readers ih =>
    unfold remainingFrom
    rw [length_append, length_map, ih, map_cons, sum_cons]

end

/-- The records come in the order of their keys. -/
abbrev SortedRecords (records : List (Record T D)) : Prop :=
  records.Pairwise (fun a b => (compareKeys ctxt (readtup a) (readtup b)).isLE)

/-- The entry is not behind any of the records. -/
abbrev AheadOf (y : MKEntry T D) (records : List (Record T D)) : Prop :=
  ∀ record ∈ records, (compareKeys ctxt y (readtup record)).isLE

/-- The contents of the live entries. -/
abbrev liveContents (p : List (MKEntry T D)) : List (Content T D) :=
  (liveEntries p).map (content ctxt)

/-- The readers of a heap: sorted, each behind its entry in the heap, and exhausted if
it has none there. -/
structure Sources (heap : MKHeap T D) : Prop where
  nonempty : 0 < heap.readers.length
  few : heap.readers.length ≤ mkeMaxReader + 1
  sorted : ∀ records ∈ heap.readers, SortedRecords ctxt records
  behind : ∀ y, content ctxt y ∈ liveContents ctxt heap.p →
    ∃ records, heap.readers[y.reader.val]? = some records ∧ AheadOf ctxt y records
  covered : ∀ (n : Nat) (records : List (Record T D)), heap.readers[n]? = some records →
    records ≠ [] → ∃ y, content ctxt y ∈ liveContents ctxt heap.p ∧ y.reader.val = n

section

variable {ctxt} {heap next : MKHeap T D} {lv : Nat} {top : MKEntry T D}

theorem aheadOf_of_content {x y : MKEntry T D} {records : List (Record T D)}
    (hcontent : content ctxt y = content ctxt x) (hahead : AheadOf ctxt x records) :
    AheadOf ctxt y records := by
  intro record hrecord
  rw [compareKeys_of_content hcontent rfl]
  exact hahead record hrecord

/-- The reader of the top goes on: the top is replaced, the others stay. -/
theorem Sources.step (h : Sources ctxt heap) (added : List (MKEntry T D))
    {others : List (Content T D)} {old rest : List (Record T D)}
    (hbefore : liveContents ctxt heap.p = content ctxt top :: others)
    (hafter : (liveContents ctxt next.p).Perm (added.map (content ctxt) ++ others))
    (hold : heap.readers[top.reader.val]? = some old) (hrest : rest.Sublist old)
    (hreaders : next.readers = heap.readers.set top.reader.val rest)
    (hadded : ∀ y ∈ added, y.reader = top.reader ∧ AheadOf ctxt y rest)
    (hself : rest ≠ [] → added ≠ []) : Sources ctxt next := by
  have hn := (List.getElem?_eq_some_iff.1 hold).1
  have hsetSelf : next.readers[top.reader.val]? = some rest := by
    rw [hreaders]
    exact getElem?_set_self hn
  have hsetOther : ∀ m, m ≠ top.reader.val → next.readers[m]? = heap.readers[m]? := by
    intro m hm
    rw [hreaders]
    exact getElem?_set_ne' hm rest
  refine ⟨?_, ?_, ?_, ?_, ?_⟩
  · rw [hreaders, length_set]
    exact h.nonempty
  · rw [hreaders, length_set]
    exact h.few
  · intro records hrecords
    rw [hreaders] at hrecords
    rcases mem_or_eq_of_mem_set hrecords with hrecords | rfl
    · exact h.sorted records hrecords
    · exact (h.sorted old (mem_of_getElem? hold)).sublist hrest
  · intro y hy
    rcases mem_append.1 (hafter.subset hy) with hy | hy
    · obtain ⟨x, hx, hcontent⟩ := mem_map.1 hy
      have hreader : x.reader = y.reader := congrArg Content.reader hcontent
      rw [← hreader, (hadded x hx).1]
      exact ⟨rest, hsetSelf, aheadOf_of_content hcontent.symm (hadded x hx).2⟩
    · obtain ⟨records, hrecords, hahead⟩ := h.behind y (hbefore ▸ mem_cons_of_mem _ hy)
      by_cases hyn : y.reader.val = top.reader.val
      · rw [hyn, hold] at hrecords
        cases hrecords
        rw [hyn]
        exact ⟨rest, hsetSelf, fun record hrecord => hahead record (hrest.subset hrecord)⟩
      · rw [hsetOther _ hyn]
        exact ⟨records, hrecords, hahead⟩
  · intro m records hm hne
    by_cases hmn : m = top.reader.val
    · rw [hmn, hsetSelf] at hm
      cases hm
      obtain ⟨y, hy⟩ := exists_mem_of_ne_nil _ (hself hne)
      refine ⟨y, hafter.symm.subset (mem_append_left _ (mem_map_of_mem hy)), ?_⟩
      rw [(hadded y hy).1, hmn]
    · rw [hsetOther m hmn] at hm
      obtain ⟨y, hy, hyReader⟩ := h.covered m records hm hne
      refine ⟨y, hafter.symm.subset (mem_append_right _ ?_), hyReader⟩
      rw [hbefore] at hy
      apply (mem_cons.1 hy).resolve_left
      intro htop
      exact hmn (hyReader.symm.trans (congrArg (fun c => c.reader.val) htop))

theorem top_isLE_pending (hheap : HeapAt ctxt lv top heap)
    (hsettled : Settled ctxt lv top heap) (hsources : Sources ctxt heap) {e : MKEntry T D}
    (he : content ctxt e ∈ pending ctxt heap) : (compareKeys ctxt top e).isLE := by
  have hlive : ∀ y, content ctxt y ∈ liveContents ctxt heap.p → (compareKeys ctxt top y).isLE := by
    intro y hy
    obtain ⟨x, hx, hcontent⟩ := mem_map.1 hy
    obtain ⟨hxMem, hxLive⟩ := mem_liveEntries.1 hx
    rw [compareKeys_of_content rfl hcontent.symm]
    exact top_isLE ctxt hheap hsettled hxMem hxLive
  rcases mem_append.1 he with he | he
  · exact hlive e he
  · obtain ⟨n, records, record, hn, hrecord, hcontent⟩ := mem_remainingFrom he
    obtain ⟨y, hy, hyReader⟩ := hsources.covered n records hn (ne_nil_of_mem hrecord)
    obtain ⟨records', hrecords', hahead⟩ := hsources.behind y hy
    rw [hyReader, hn] at hrecords'
    cases hrecords'
    rw [compareKeys_of_content rfl hcontent, compareKeys_recordEntry]
    exact Std.TransCmp.isLE_trans (hlive y hy) (hahead record hrecord)

theorem HeapAt.liveContents (h : HeapAt ctxt lv top heap) :
    ∃ tail, heap.p = top :: tail ∧ liveEntries heap.p = top :: liveEntries tail ∧
      liveContents ctxt heap.p = content ctxt top :: liveContents ctxt tail := by
  obtain ⟨tail, hp⟩ := h.tail
  have hlive : liveEntries heap.p = top :: liveEntries tail := by
    rw [hp]
    exact liveEntries_cons h.placed.empty
  refine ⟨tail, hp, hlive, ?_⟩
  rw [MkSort.liveContents, hlive, map_cons]

theorem Sources.aheadOf_top (h : Sources ctxt heap) (hheap : HeapAt ctxt lv top heap)
    {records : List (Record T D)} (hrecords : heap.readers[top.reader.val]? = some records) :
    AheadOf ctxt top records := by
  obtain ⟨tail, -, -, hlive⟩ := hheap.liveContents
  obtain ⟨records', hrecords', hahead⟩ := h.behind top (hlive ▸ mem_cons_self)
  rw [hrecords] at hrecords'
  cases hrecords'
  exact hahead

end

section

variable {heap : MKHeap T D} {lv lv' : Nat} {top top' e' : MKEntry T D}
  {record : Record T D} {rest : List (Record T D)} {heap' : MKHeap T D}

theorem heapAt_readers (h : HeapAt ctxt lv top heap)
    (readers : List (List (Record T D))) : HeapAt ctxt lv top { heap with readers := readers } :=
  { h with }

theorem checkDuplicates_off (henforce : ctxt.enforceUnique = false) (heap : MKHeap T D) :
    checkDuplicates ctxt heap = .ok () := by
  unfold checkDuplicates
  rw [henforce]
  rfl

/-- What one call does: the smallest pending entry comes out. -/
structure Yields (heap next : MKHeap T D) (out : MKEntry T D) : Prop where
  live : out.compflags.empty = false
  ready : HeapReady ctxt next
  sources : Sources ctxt next
  pending : (content ctxt out :: pending ctxt next).Perm (pending ctxt heap)
  least : ∀ e, content ctxt e ∈ MkSort.pending ctxt heap → (compareKeys ctxt out e).isLE

theorem recordEntry_reader {n : Nat} (hn : n ≤ mkeMaxReader) (record : Record T D) :
    (recordEntry n record).reader.val = n := by
  have hlt : n < 0x4000 := Nat.lt_succ_of_le hn
  exact Nat.mod_eq_of_lt hlt

section

variable (hheap : HeapAt ctxt lv top heap) (hsettled : Settled ctxt lv top heap)
  (hsources : Sources ctxt heap)
  (hrecords : heap.readers[top.reader.val]? = some (record :: rest))
  (hfitted : Fitted ctxt { heap with readers := heap.readers.set top.reader.val rest } top
    (recordEntry top.reader.val record) lv' heap' top' e')

include hfitted in
/-- Fitting an entry changes the top and the levels. -/
theorem fitted_eq {tail : List (MKEntry T D)} (hp : heap.p = top :: tail) :
    heap'.p = top' :: tail ∧ heap'.readers = heap.readers.set top.reader.val rest ∧
      heap'.count = heap.count := by
  rw [hfitted.rest]
  rw [hp, set_cons_zero]
  exact ⟨rfl, rfl, rfl⟩

include hheap hsettled hsources hrecords hfitted

/-- An entry that equals the top comes out right away. -/
theorem yields_equal (hcount : heap.count = (liveEntries heap.p).length)
    (hsettled' : Settled ctxt lv' top' heap') (hshares : Shares ctxt ctxt.totalLv e' top') :
    Yields ctxt heap heap' e' := by
  obtain ⟨tail, hp, hlive, hcontents⟩ := hheap.liveContents
  obtain ⟨hp', hreaders, hcount'⟩ := fitted_eq ctxt hfitted hp
  have hlive' : liveEntries heap'.p = top' :: liveEntries tail := by
    rw [hp']
    exact liveEntries_cons hfitted.heapAt.placed.empty
  have hcontents' : liveContents ctxt heap'.p = content ctxt top' :: liveContents ctxt tail := by
    rw [liveContents, hlive', map_cons]
  refine ⟨?_, ⟨?_, .inr ⟨lv', top', hfitted.heapAt, hsettled'⟩⟩, ?_, ?_, ?_⟩
  · exact congrArg Content.empty hfitted.entryContent
  · rw [hcount', hcount, hlive, hlive', length_cons, length_cons]
  · apply hsources.step [top'] hcontents (List.Perm.of_eq hcontents') hrecords
      (sublist_cons_self record rest) hreaders
    · intro y hy
      rw [mem_singleton.1 hy]
      refine ⟨congrArg Content.reader hfitted.topContent, ?_⟩
      apply aheadOf_of_content hfitted.topContent
      exact fun other hother =>
        hsources.aheadOf_top hheap hrecords other (mem_cons_of_mem _ hother)
    · exact fun _ => cons_ne_nil _ _
  · unfold pending
    rw [hreaders, hfitted.entryContent]
    have hremaining := remainingFrom_set ctxt heap.readers 0 top.reader.val record rest hrecords
    rw [zero_add] at hremaining
    have hsame : liveContents ctxt heap'.p = liveContents ctxt heap.p := by
      rw [hcontents', hcontents, hfitted.topContent]
    exact perm_middle.symm.trans ((List.Perm.of_eq hsame).append hremaining)
  · intro e he
    have hle := top_isLE_pending hheap hsettled hsources he
    rw [← compareKeys_of_content hfitted.topContent rfl] at hle
    have heq := compareKeys_of_all hshares
    exact Std.TransCmp.isLE_trans (by rw [heq]; rfl) hle

/-- An entry behind the top takes its place. -/
theorem yields_replaced {next : MKHeap T D} (hready : HeapReady ctxt next)
    (hreaders : next.readers = heap'.readers)
    (hperm : (next.p.map (content ctxt)).Perm ((heap'.p.set 0 e').map (content ctxt))) :
    Yields ctxt heap next top' := by
  obtain ⟨tail, hp, -, hcontents⟩ := hheap.liveContents
  obtain ⟨hp', hreaders', -⟩ := fitted_eq ctxt hfitted hp
  have hnextReaders := hreaders.trans hreaders'
  have heLive : e'.compflags.empty = false := congrArg Content.empty hfitted.entryContent
  have hsorted := hsources.sorted _ (mem_of_getElem? hrecords)
  have hn : top.reader.val ≤ mkeMaxReader := Nat.le_of_lt_succ top.reader.isLt
  have hnext := liveContents_perm ctxt hperm
  rw [hp', set_cons_zero, liveEntries_cons heLive, map_cons] at hnext
  refine ⟨hfitted.heapAt.placed.empty, hready, ?_, ?_, ?_⟩
  · apply hsources.step [e'] hcontents hnext hrecords (sublist_cons_self record rest) hnextReaders
    · intro y hy
      rw [mem_singleton.1 hy]
      refine ⟨(congrArg Content.reader hfitted.entryContent).trans
        (Fin.ext (recordEntry_reader hn record)), aheadOf_of_content hfitted.entryContent ?_⟩
      intro other hother
      rw [recordEntry_compareKeys]
      exact (pairwise_cons.1 hsorted).1 other hother
    · exact fun _ => cons_ne_nil _ _
  · rw [hfitted.entryContent] at hnext
    have hremaining := remainingFrom_set ctxt heap.readers 0 top.reader.val record rest hrecords
    rw [zero_add] at hremaining
    unfold pending
    rw [show (liveEntries heap.p).map (content ctxt) = _ from hcontents, hfitted.topContent,
      hnextReaders]
    exact ((hnext.append_right _).trans (perm_middle.symm.trans (hremaining.append_left _))).cons _
  · intro e he
    have hle := top_isLE_pending hheap hsettled hsources he
    rw [compareKeys_of_content hfitted.topContent rfl]
    exact hle

end

theorem pending_of_empty (hready : HeapReady ctxt heap) (hsources : Sources ctxt heap)
    (hzero : heap.count = 0) : pending ctxt heap = [] := by
  have hnone : liveEntries heap.p = [] := by
    have hcount := hready.1
    exact length_eq_zero_iff.1 (by omega)
  unfold pending
  rw [hnone, remainingFrom_eq_nil 0]
  · rfl
  · intro n records hn
    by_contra hne
    obtain ⟨y, hy, -⟩ := hsources.covered n records hn hne
    rw [liveContents, hnone] at hy
    cases hy

variable (hmask : ctxt.limitmask = false) (hmax : ctxt.totalLv ≤ mkeMaxLv + 1)
  (henforce : ctxt.enforceUnique = false)

include hmask hmax henforce

section

variable (hheap : HeapAt ctxt lv top heap) (hsettled : Settled ctxt lv top heap)
  (hsources : Sources ctxt heap) (hcount : heap.count = (liveEntries heap.p).length)

include hheap hsettled hsources hcount

/-- The reader of the top has a next record. -/
theorem putAndGet_record (hrecords : heap.readers[top.reader.val]? = some (record :: rest)) :
    ∃ next out ret,
      mkheapPutAndGetImpl ctxt { heap with readers := heap.readers.set top.reader.val rest }
        (recordEntry top.reader.val record) = .ok (next, out, ret) ∧ Yields ctxt heap next out := by
  obtain ⟨tail, hp, hlive, -⟩ := hheap.liveContents
  have hle : (compareKeys ctxt top (recordEntry top.reader.val record)).isLE := by
    rw [compareKeys_recordEntry]
    exact hsources.aheadOf_top hheap hrecords record mem_cons_self
  obtain ⟨heap', e', c, lv', top', hfit, hfitted, hresult⟩ := fitEntry_spec ctxt hmask hmax
    (heapAt_readers ctxt hheap (heap.readers.set top.reader.val rest)) hsettled
    (e := recordEntry top.reader.val record) rfl rfl hle
  have hempty : mkeIsEmpty (recordEntry top.reader.val record) = false := rfl
  have hrun : ¬ mkeGetRun (recordEntry top.reader.val record) ≠ mkeGetRun top := by
    unfold mkeGetRun
    rw [hheap.placed.run]
    exact not_not_intro rfl
  have hread : read MkError.outside
      ({ heap with readers := heap.readers.set top.reader.val rest } : MKHeap T D).p 0 =
      .ok top := read_zero _ hheap.first
  simp only [mkheapPutAndGetImpl, checkDuplicates_off ctxt henforce, hread, hempty,
    Bool.false_eq_true, if_false, hrun, hfit, bind, Except.bind]
  rcases hresult with ⟨hpos, hplaced⟩ | ⟨rfl, hsettled', hshares⟩
  · obtain ⟨hp', -, hcount'⟩ := fitted_eq ctxt hfitted hp
    have heLive : e'.compflags.empty = false := hplaced.empty
    obtain ⟨next, hreplace, hready, hreaders, hperm⟩ := replaceTop_spec ctxt
      hfitted.heapAt hmask hmax (.inr hplaced) heap'.count (by
        rw [hcount', hcount, hp', set_cons_zero, liveEntries_cons heLive, hlive,
          length_cons, length_cons])
    rw [if_pos hpos]
    exact ⟨next, top', 1, hreplace,
      yields_replaced ctxt hheap hsettled hsources hrecords hfitted hready hreaders hperm⟩
  · rw [if_neg (by decide), henforce]
    exact ⟨heap', e', 0, rfl,
      yields_equal ctxt hheap hsettled hsources hrecords hfitted hcount hsettled' hshares⟩

/-- The reader of the top is exhausted. -/
theorem putAndGet_exhausted [Inhabited T] [Inhabited D]
    (hrecords : heap.readers[top.reader.val]? = some []) :
    ∃ next, mkheapPutAndGetImpl ctxt heap mkeSetEmpty = .ok (next, top, 1) ∧
      Yields ctxt heap next top := by
  obtain ⟨tail, hp, hlive, hcontents⟩ := hheap.liveContents
  have hliveSet : liveEntries (heap.p.set 0 mkeSetEmpty) = liveEntries tail := by
    rw [hp]
    exact liveEntries_cons_empty rfl
  obtain ⟨next, hreplace, hready, hreaders, hperm⟩ := replaceTop_spec ctxt hheap hmask hmax
    (e := mkeSetEmpty) (.inl rfl) (heap.count - 1) (by
      rw [hliveSet, hcount, hlive, length_cons]
      omega)
  have hnext := liveContents_perm ctxt hperm
  rw [hliveSet] at hnext
  refine ⟨next, ?_, hheap.placed.empty, hready, ?_, ?_, ?_⟩
  · have hempty : mkeIsEmpty (mkeSetEmpty : MKEntry T D) = true := rfl
    simp only [mkheapPutAndGetImpl, checkDuplicates_off ctxt henforce, read_zero _ hheap.first,
      hempty, if_true, bind, Except.bind]
    exact hreplace
  · exact hsources.step [] hcontents hnext hrecords (List.Sublist.refl _)
      (by rw [set_self hrecords]; exact hreaders) nofun (absurd rfl)
  · unfold pending
    rw [show (liveEntries heap.p).map (content ctxt) = _ from hcontents, hreaders]
    exact (hnext.append_right _).cons _
  · intro e he
    exact top_isLE_pending hheap hsettled hsources he

end

variable [Inhabited T] [Inhabited D]

theorem mkheapPutAndGet_spec (hready : HeapReady ctxt heap) (hsources : Sources ctxt heap)
    (hsome : heap.count ≠ 0) :
    ∃ next out ret, mkheapPutAndGet ctxt heap mkeSetEmpty = .ok (next, out, ret) ∧
      Yields ctxt heap next out := by
  obtain ⟨hcount, hzero | ⟨lv, top, hheap, hsettled⟩⟩ := hready
  · exact absurd hzero hsome
  obtain ⟨tail, -, -, hcontents⟩ := hheap.liveContents
  obtain ⟨records, hrecords, -⟩ := hsources.behind top (hcontents ▸ mem_cons_self)
  unfold mkheapPutAndGet mkheapPutAndGetReader
  rw [if_pos hsources.nonempty, if_neg hsome]
  simp only [read_zero _ hheap.first, readNext, mkeGetReader, hrecords, bind, Except.bind]
  cases records with
  | nil =>
    obtain ⟨next, himpl, hyields⟩ :=
      putAndGet_exhausted ctxt hmask hmax henforce hheap hsettled hsources hcount hrecords
    exact ⟨next, top, 1, himpl, hyields⟩
  | cons record rest =>
    exact putAndGet_record ctxt hmask hmax henforce hheap hsettled hsources hcount hrecords

/-- Everything that is pending comes out once, in order. -/
theorem drain_spec (fuel : Nat) (heap : MKHeap T D)
    (hready : HeapReady ctxt heap) (hsources : Sources ctxt heap)
    (hfuel : (pending ctxt heap).length < fuel) :
    ∃ out, drain ctxt fuel heap = .ok out ∧ (out.map (content ctxt)).Perm (pending ctxt heap) ∧
      InOrder ctxt out := by
  induction fuel generalizing heap with
  | zero => omega
  | succ fuel ih =>
    unfold drain
    by_cases hzero : heap.count = 0
    · have hcall : mkheapPutAndGet ctxt heap mkeSetEmpty = .ok (heap, mkeSetEmpty, -1) := by
        unfold mkheapPutAndGet mkheapPutAndGetReader
        rw [if_pos hsources.nonempty, if_pos hzero]
        rfl
      have hempty : mkeIsEmpty (mkeSetEmpty : MKEntry T D) = true := rfl
      simp only [hcall, hempty, if_true, bind, Except.bind]
      refine ⟨[], rfl, ?_, List.Pairwise.nil⟩
      rw [pending_of_empty ctxt hready hsources hzero]
      exact List.Perm.refl _
    · obtain ⟨next, out, ret, hcall, hyields⟩ :=
        mkheapPutAndGet_spec ctxt hmask hmax henforce hready hsources hzero
      have hlength := hyields.pending.length_eq
      rw [length_cons] at hlength
      obtain ⟨rest, hrest, hperm, hsorted⟩ := ih next hyields.ready hyields.sources (by omega)
      have hlive : mkeIsEmpty out = false := hyields.live
      simp only [hcall, hlive, Bool.false_eq_true, if_false, hrest, bind, Except.bind]
      refine ⟨out :: rest, rfl, ?_, pairwise_cons.2 ⟨?_, hsorted⟩⟩
      · exact (hperm.cons _).trans hyields.pending
      · intro e he
        apply hyields.least
        apply hyields.pending.subset
        exact mem_cons_of_mem _ (hperm.subset (mem_map_of_mem he))

end

section

variable {readers : List (List (Record T D))} {entries : List (MKEntry T D)}

/-- The first entries of the readers and what the readers keep of sorted records. -/
structure FirstRead (readers : List (List (Record T D))) (i : Nat) (entries : List (MKEntry T D))
    (rest : List (List (Record T D))) : Prop where
  length : rest.length = readers.length
  contents : (entries.map (content ctxt) ++ remainingFrom ctxt rest i).Perm
    (remainingFrom ctxt readers i)
  fresh : ∀ e ∈ entries, e.compflags.empty = false ∧ e.compflags.run = 0
  sorted : ∀ records ∈ rest, SortedRecords ctxt records
  behind : ∀ e ∈ entries, ∃ n records, rest[n]? = some records ∧ e.reader.val = i + n ∧
    AheadOf ctxt e records
  covered : ∀ (n : Nat) (records : List (Record T D)), rest[n]? = some records → records ≠ [] →
    ∃ e ∈ entries, e.reader.val = i + n

/-- A reader without a record, or one whose first record is read. -/
theorem FirstRead.cons {rest : List (List (Record T D))} {i : Nat}
    (h : FirstRead ctxt readers (i + 1) entries rest) (old records : List (Record T D))
    (first : List (MKEntry T D)) (hcontents : (first.map (content ctxt) ++
      records.map (fun record => content ctxt (recordEntry i record))).Perm
        (old.map (fun record => content ctxt (recordEntry i record))))
    (hfresh : ∀ e ∈ first, e.compflags.empty = false ∧ e.compflags.run = 0 ∧ e.reader.val = i ∧
      AheadOf ctxt e records) (hsorted : SortedRecords ctxt records)
    (hcovered : records ≠ [] → first ≠ []) :
    FirstRead ctxt (old :: readers) i (first ++ entries) (records :: rest) where
  length := congrArg Nat.succ h.length
  contents := by
    rw [map_append, append_assoc]
    have hmove : (entries.map (content ctxt) ++
        records.map (fun record => content ctxt (recordEntry i record))).Perm
        (records.map (fun record => content ctxt (recordEntry i record)) ++
          entries.map (content ctxt)) := perm_append_comm
    have hmoved := hmove.append_right (remainingFrom ctxt rest (i + 1))
    rw [append_assoc, append_assoc] at hmoved
    refine (hmoved.append_left _).trans ?_
    rw [← append_assoc]
    exact hcontents.append h.contents
  fresh := by
    intro e he
    rcases mem_append.1 he with he | he
    · exact ⟨(hfresh e he).1, (hfresh e he).2.1⟩
    · exact h.fresh e he
  sorted := by
    intro records' hrecords'
    rcases mem_cons.1 hrecords' with rfl | hrecords'
    · exact hsorted
    · exact h.sorted records' hrecords'
  behind := by
    intro e he
    rcases mem_append.1 he with he | he
    · exact ⟨0, records, rfl, (hfresh e he).2.2.1, (hfresh e he).2.2.2⟩
    · obtain ⟨n, records', hn, hreader, hbehind⟩ := h.behind e he
      exact ⟨n + 1, records', hn, by omega, hbehind⟩
  covered := by
    intro n records' hn hne
    cases n with
    | zero =>
      cases hn
      obtain ⟨e, he⟩ := exists_mem_of_ne_nil _ (hcovered hne)
      exact ⟨e, mem_append_left _ he, (hfresh e he).2.2.1⟩
    | succ n =>
      obtain ⟨e, he, hreader⟩ := h.covered n records' hn hne
      exact ⟨e, mem_append_right _ he, by omega⟩

theorem readFirst_spec (readers : List (List (Record T D))) (i : Nat)
    (hfew : i + readers.length ≤ mkeMaxReader + 1)
    (hsorted : ∀ records ∈ readers, SortedRecords ctxt records) :
    FirstRead ctxt readers i (readFirst readers i).1 (readFirst readers i).2 := by
  induction readers generalizing i with
  | nil =>
    exact ⟨rfl, List.Perm.refl _, nofun, nofun, nofun, nofun⟩
  | cons old readers ih =>
    rw [length_cons] at hfew
    have hrest := ih (i + 1) (by omega) (fun records hrecords =>
      hsorted records (mem_cons_of_mem _ hrecords))
    have hold := hsorted old mem_cons_self
    cases old with
    | nil => exact hrest.cons ctxt [] [] [] (List.Perm.refl _) nofun List.Pairwise.nil (absurd rfl)
    | cons record records =>
      obtain ⟨hfirst, hrecords⟩ := pairwise_cons.1 hold
      apply hrest.cons ctxt (record :: records) records [recordEntry i record]
        (List.Perm.refl _) _ hrecords
      · exact fun _ => cons_ne_nil _ _
      · intro e he
        rw [mem_singleton] at he
        rw [he]
        refine ⟨rfl, rfl, recordEntry_reader (by omega) record, ?_⟩
        intro record' hrecord'
        rw [recordEntry_compareKeys]
        exact hfirst record' hrecord'

/-- The readers of a heap that holds their first entries. -/
theorem sources_of_firstRead {heap : MKHeap T D} (hnonempty : readers ≠ [])
    (hfew : readers.length ≤ mkeMaxReader + 1)
    (hread : FirstRead ctxt readers 0 entries heap.readers)
    (hlive : (liveContents ctxt heap.p).Perm (entries.map (content ctxt))) :
    Sources ctxt heap := by
  refine ⟨?_, ?_, hread.sorted, ?_, ?_⟩
  · rw [hread.length]
    exact length_pos_iff.2 hnonempty
  · rw [hread.length]
    exact hfew
  · intro y hy
    obtain ⟨x, hx, hcontent⟩ := mem_map.1 (hlive.subset hy)
    obtain ⟨n, records, hn, hreader, hahead⟩ := hread.behind x hx
    have hsame : x.reader = y.reader := congrArg Content.reader hcontent
    refine ⟨records, ?_, aheadOf_of_content hcontent.symm hahead⟩
    rw [← hsame, hreader, zero_add]
    exact hn
  · intro n records hn hne
    obtain ⟨x, hx, hreader⟩ := hread.covered n records hn hne
    exact ⟨x, hlive.symm.subset (mem_map_of_mem hx), hreader.trans (zero_add n)⟩

theorem liveEntries_of_fresh {p : List (MKEntry T D)}
    (h : ∀ e ∈ p, e.compflags.empty = false) : liveEntries p = p := by
  unfold liveEntries
  rw [filter_eq_self]
  intro e he
  rw [h e he]
  rfl

variable [Inhabited T] [Inhabited D]

theorem mkheapFromReader_spec (hmask : ctxt.limitmask = false)
    (hmax : ctxt.totalLv ≤ mkeMaxLv + 1) (readers : List (List (Record T D)))
    (hnonempty : readers ≠ []) (hfew : readers.length ≤ mkeMaxReader + 1)
    (hsorted : ∀ records ∈ readers, SortedRecords ctxt records) (roundrobin : Nat) :
    ∃ heap, mkheapFromReader ctxt readers roundrobin = .ok heap ∧ HeapReady ctxt heap ∧
      Sources ctxt heap ∧ (pending ctxt heap).Perm (remainingFrom ctxt readers 0) := by
  have hread := readFirst_spec ctxt readers 0 (by omega) hsorted
  unfold mkheapFromReader
  generalize hentries : (readFirst readers 0).1 = entries at hread
  generalize hrest : (readFirst readers 0).2 = rest at hread
  have hpair : readFirst readers 0 = (entries, rest) := by rw [← hentries, ← hrest]
  simp only [hpair]
  by_cases hsome : entries.length > 0
  · have hall : AllIn (SameRun false 0) entries 0 (entries.length - 1) :=
      allIn_of_forall hread.fresh
    obtain ⟨p, hprepare, hmoved, halike⟩ :=
      mkPrepareArray_spec ctxt (Nat.zero_le mkeMaxLv) (by omega) hall
    have hlength := hmoved.length
    obtain ⟨heap, top, hheapify, hheap, hkept⟩ := @mkheapHeapify_build T D ctxt
      { lvtops := List.replicate ctxt.totalLv zeroEntry, p := p, count := entries.length,
        maxentry := entries.length, readers := rest, roundrobin := roundrobin }
      hmask hlength hsome length_replicate (forall_of_allIn halike (by dsimp only; omega)) hmax
    have hperm : (heap.p.map (content ctxt)).Perm (entries.map (content ctxt)) :=
      hkept.perm.trans hmoved.perm
    have hreaders : heap.readers = rest := hkept.readers
    have hlive : liveEntries entries = entries :=
      liveEntries_of_fresh (fun e he => (hread.fresh e he).1)
    have hcontents := liveContents_perm ctxt hperm
    rw [hlive] at hcontents
    rw [← hreaders] at hread
    simp only [hsome, if_true, hprepare, hheapify, bind, Except.bind]
    refine ⟨heap, rfl, ⟨?_, .inr ⟨_, top, hheap, .inl ?_⟩⟩,
      sources_of_firstRead ctxt hnonempty hfew hread hcontents, ?_⟩
    · rw [liveEntries_length_of_perm ctxt hperm, hlive]
      exact hkept.count
    · have hpos := ctxt.totalLv_pos
      omega
    · exact (hcontents.append_right _).trans hread.contents
  · have hnone : entries = [] := length_eq_zero_iff.1 (by omega)
    subst hnone
    refine ⟨_, rfl, ⟨rfl, .inl rfl⟩, ?_, hread.contents⟩
    exact sources_of_firstRead ctxt hnonempty hfew hread (List.Perm.refl _)

end

namespace MergeWitness

open QsortWitness (pairs pairs_sameOrder longTexts textEntry)

def pairRecord (t : Nat × Nat) : Record (Nat × Nat) Nat := { ptr := t, key := ⟨0, 0⟩ }

def threeReaders : List (List (Record (Nat × Nat) Nat)) :=
  [[(1, 4), (2, 5), (7, 1)], [], [(1, 4), (1, 1), (2, 7)]].map (List.map pairRecord)

end MergeWitness

end Greenplum.MkSort
