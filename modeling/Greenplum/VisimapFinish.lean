/-
The end of a delete session: the current entry is stored first, then one scan of
the work file stores the latest version of every other range that was touched.  The calls
of a session answer by one dirty flag for all rows of an entry.
-/
import Greenplum.VisimapSession

namespace Greenplum.Visimap

open ByteMemory RecordLog List

section

variable {heap : Heap} {tuples : List AOTupleId} {versions : List Version}
  {state : DeleteState} {i : Nat} {data : DeleteData}

/-- The scan stands in front of version `i`: the keys whose latest version was
passed, and those the hash table has as invalid, are stored. -/
structure Scanning (heap : Heap) (tuples : List AOTupleId) (versions : List Version)
    (i : Nat) (stored : Set (Int × Int)) (state : DeleteState) : Prop where
  spill : SpillOk versions state
  storing : Storing heap state.heap stored
  done : ∀ key ∈ stored, ∀ x, Hides state.heap key x ↔ Hidden heap tuples key x
  cached : ∀ key data, hashFind state.dirtyEntryCache key = some data →
    (data.workFileOffset = int64Max ∧ key.rowKey ∈ stored) ∨
      (Stashed heap tuples versions key data ∧
        (key.rowKey ∈ stored ↔ data.workFileOffset < start Version.record versions i))

theorem start_lt_int64Max (h : SpillOk versions state) (hi : i < versions.length) :
    start Version.record versions i < int64Max := by
  have hlt : start Version.record versions i < start Version.record versions versions.length :=
    start_lt (fun version _ => version.record_ne_nil) hi (le_refl _)
  rw [start_length, ← h.file] at hlt
  exact lt_of_lt_of_le hlt h.room

theorem start_lt_start_succ_iff {j : Nat} (hi : i < versions.length) (hne : j ≠ i) :
    start Version.record versions j < start Version.record versions i ↔
      start Version.record versions j < start Version.record versions (i + 1) := by
  have hcells : ∀ version ∈ versions, version.record ≠ [] := fun version _ => version.record_ne_nil
  constructor
  · intro hlt
    exact lt_of_lt_of_le hlt (start_mono versions (Nat.le_succ i))
  · intro hlt
    rcases lt_trichotomy j i with hless | heq | hmore
    · exact start_lt hcells hless (le_of_lt hi)
    · exact absurd heq hne
    · exact absurd hlt (Nat.not_lt.mpr (start_mono versions hmore))

variable {i : Nat} {stored : Set (Int × Int)} {version : Version}

/-- A version that is not the latest of its range is passed over. -/
theorem Scanning.skip (h : Scanning heap tuples versions i stored state)
    (hversion : versions[i]? = some version)
    (hlookup : hashFind state.dirtyEntryCache version.key = some data)
    (hstale : start Version.record versions i ≠ data.workFileOffset) (entry : Entry) :
    Scanning heap tuples versions (i + 1) stored { state with entry := entry } where
  spill := { h.spill with }
  storing := h.storing
  done := h.done
  cached := by
    intro key data' hlookup'
    rcases h.cached key data' hlookup' with hinvalid | ⟨hstashed, hstored⟩
    · exact .inl hinvalid
    · refine .inr ⟨hstashed, hstored.trans ?_⟩
      have hi := (List.getElem?_eq_some_iff.mp hversion).1
      obtain ⟨j, version', words, hversion', hkey, hstart, -, -⟩ := hstashed
      have hne : j ≠ i := by
        rintro rfl
        rw [hversion] at hversion'
        obtain rfl := Option.some.inj hversion'
        rw [hkey, hlookup', Option.some.injEq] at hlookup
        exact hstale (hlookup ▸ hstart)
      rw [← hstart]
      exact start_lt_start_succ_iff hi hne

/-- The latest version of a range is stored. -/
theorem Scanning.store (htable : TableOk heap) (h : Scanning heap tuples versions i stored state)
    (hversion : versions[i]? = some version)
    (hlookup : hashFind state.dirtyEntryCache version.key = some data)
    (hlatest : start Version.record versions i = data.workFileOffset) :
    ∃ entry after entry',
      rebuildEntry { state.entry with data := version.data } version.key data.tupleTid = .ok entry ∧
      storeStore state.heap entry = .ok (after, entry') ∧
      Scanning heap tuples versions (i + 1) (insert version.key.rowKey stored)
        { state with heap := after, entry := entry' } := by
  have hi := (List.getElem?_eq_some_iff.mp hversion).1
  have hmem := mem_of_getElem? hversion
  have hproper := h.spill.proper version hmem
  have hcells : ∀ version ∈ versions, version.record ≠ [] := fun version _ => version.record_ne_nil
  -- the version is the one that the hash table points at
  obtain ⟨words, hholds, hwords, hfresh⟩ : ∃ words, Holds version.data words ∧
      Latest heap tuples version.key words data.tupleTid ∧ version.key.rowKey ∉ stored := by
    rcases h.cached _ _ hlookup with ⟨hinvalid, -⟩ | ⟨hstashed, hstored⟩
    · exact absurd (hlatest.trans hinvalid) (ne_of_lt (start_lt_int64Max h.spill hi))
    · obtain ⟨j, version', words, hversion', -, hstart, hholds, hwords⟩ := hstashed
      have hj := (List.getElem?_eq_some_iff.mp hversion').1
      obtain rfl := start_inj hcells hi hj (hlatest.trans hstart.symm)
      rw [hversion] at hversion'
      obtain rfl := Option.some.inj hversion'
      refine ⟨words, hholds, hwords, fun hold => ?_⟩
      have hlt := hstored.mp hold
      omega
  have hrebuild := rebuildEntry_spec { state.entry with data := version.data } hholds hproper
    data.tupleTid
  obtain ⟨after, entry', hstore, -, -, hstoring, hhides, hother⟩ :=
    h.storing.store htable ⟨version.data, words, version.key.segno,
      version.key.firstRowNum, true, data.tupleTid⟩ hwords.length_le hfresh hwords.tid_eq
  refine ⟨_, after, entry', hrebuild, hstore, { h.spill with }, hstoring, ?_, ?_⟩
  · intro key hkey x
    by_cases heq : key = version.key.rowKey
    · rw [heq]
      exact (hhides x).trans (hwords.member x)
    · have hold := Set.mem_of_mem_insert_of_ne hkey heq
      exact (hother key heq x).trans (h.done key hold x)
  · intro key data' hlookup'
    by_cases heq : key = version.key
    · subst heq
      rw [hlookup, Option.some.injEq] at hlookup'
      refine .inr ⟨⟨i, version, words, hversion, rfl, hlookup' ▸ hlatest, hholds,
        hlookup' ▸ hwords⟩, iff_of_true (Set.mem_insert _ _) ?_⟩
      rw [← hlookup', ← hlatest]
      exact start_lt hcells (Nat.lt_succ_self i) hi
    · have hkeep : key.rowKey ∈ insert version.key.rowKey stored ↔ key.rowKey ∈ stored := by
        exact or_iff_right fun hrow => heq (DeleteKey.rowKey_inj hrow)
      rcases h.cached key data' hlookup' with ⟨hinvalid, hstored⟩ | ⟨hstashed, hstored⟩
      · exact .inl ⟨hinvalid, hkeep.mpr hstored⟩
      · refine .inr ⟨hstashed, hkeep.trans (hstored.trans ?_)⟩
        obtain ⟨j, version', words', hversion', hkey, hstart, -, -⟩ := hstashed
        have hne : j ≠ i := by
          rintro rfl
          rw [hversion] at hversion'
          obtain rfl := Option.some.inj hversion'
          exact heq hkey.symm
        rw [← hstart]
        exact start_lt_start_succ_iff hi hne

/-- The scan from version `i` to the end of the file. -/
theorem writeBackLoop_spec (htable : TableOk heap) :
    ∀ (fuel i : Nat) {stored : Set (Int × Int)} {state : DeleteState},
      Scanning heap tuples versions i stored state → i ≤ versions.length →
      versions.length - i < fuel → ∃ final stored',
        writeBackLoop fuel (start Version.record versions i) state = .ok final ∧
        Scanning heap tuples versions versions.length stored' final ∧ stored ⊆ stored' ∧
        final.dirtyEntryCache = state.dirtyEntryCache := by
  intro fuel
  induction fuel with
  | zero => exact fun i _ _ _ _ hfuel => absurd hfuel (Nat.not_lt_zero _)
  | succ fuel ih =>
    intro i stored state h hi hfuel
    rcases lt_or_eq_of_le hi with hlt | rfl
    · have hversion : versions[i]? = some versions[i] := getElem?_eq_getElem hlt
      generalize versions[i] = version at hversion
      have hmem := mem_of_getElem? hversion
      obtain ⟨words, hholds⟩ := h.spill.holds version hmem
      obtain ⟨data, hlookup⟩ := Option.isSome_iff_exists.mp (h.spill.noted version hmem)
      have hread := readAt_key hversion
      have hspilled := readSpilled_version hversion hholds
      rw [← h.spill.file] at hread hspilled
      have hnext : start Version.record versions i + (varsize version.data + keySize) =
          start Version.record versions (i + 1) := by
        rw [start_succ hversion, Version.record, length_append, hholds.varsize_eq,
          version.key.length_bytes, Nat.add_comm keySize]
      have hlength : version.key.bytes.length = keySize := version.key.length_bytes
      have hkey := DeleteKey.ofBytes_bytes (h.spill.proper version hmem)
      simp only [writeBackLoop, hread, hlength, hspilled, hkey, hlookup, hnext, if_true, bind,
        Except.bind]
      by_cases hstale : start Version.record versions i = data.workFileOffset
      · obtain ⟨entry, after, entry', hrebuild, hstore, hscan⟩ :=
          h.store htable hversion hlookup hstale
        obtain ⟨final, stored', hrun, hfinal, hsubset, hcache⟩ := ih (i + 1) hscan hlt (by omega)
        refine ⟨final, stored', ?_, hfinal, (Set.subset_insert _ _).trans hsubset, hcache⟩
        simp [hstale, hrebuild, hstore, hrun]
      · obtain ⟨final, stored', hrun, hfinal, hsubset, hcache⟩ :=
          ih (i + 1) (h.skip hversion hlookup hstale { state.entry with data := version.data })
            hlt (by omega)
        refine ⟨final, stored', ?_, hfinal, hsubset, hcache⟩
        simp [hstale, hrun]
    · refine ⟨state, stored, ?_, h, subset_rfl, rfl⟩
      have hread : readAt state.workfile (start Version.record versions versions.length)
          keySize = [] := by
        rw [readAt, start_length, ← h.spill.file, drop_length, take_nil]
      simp only [writeBackLoop, hread]
      rw [if_neg (by decide), if_neg (by decide)]

end

section

variable {heap : Heap} {tuples : List AOTupleId} {versions : List Version}
  {state : DeleteState} {key key' : DeleteKey} {cache : DirtyEntryCache}
  {stored : Set (Int × Int)}

theorem storing_start (htable : TableOk heap) (hupdates : heap.updates = []) :
    Storing heap heap ∅ where
  table := htable
  same := fun _ _ => Iff.rfl
  nodup := hupdates ▸ nodup_nil
  updated := by simp [hupdates]

/-- The hash table after the current entry was stored. -/
def invalidate (cache : DirtyEntryCache) (key : DeleteKey) : DirtyEntryCache :=
  match hashFind cache key with
  | some _ => hashEnter cache key ⟨int64Max, none⟩
  | none => cache

theorem hashFind_invalidate_of_ne (hne : key' ≠ key) (cache : DirtyEntryCache) :
    hashFind (invalidate cache key) key' = hashFind cache key' := by
  unfold invalidate
  split
  · exact hashFind_hashEnter_of_ne hne cache _
  · rfl

theorem workFileOffset_invalidate {data : DeleteData}
    (hfind : hashFind (invalidate cache key) key = some data) : data.workFileOffset = int64Max := by
  unfold invalidate at hfind
  split at hfind
  · rw [hashFind_hashEnter, Option.some.injEq] at hfind
    rw [← hfind]
  · rename_i hnone
    rw [hnone] at hfind
    cases hfind

theorem isSome_hashFind_invalidate (hsome : (hashFind cache key').isSome) :
    (hashFind (invalidate cache key) key').isSome := by
  unfold invalidate
  split
  · exact isSome_hashFind_hashEnter _ (.inr hsome)
  · exact hsome

/-- The current entry is the newest of its range: it is stored, and the hash
table points at no version of it any more. -/
theorem storeCurrent_spec (htable : TableOk heap) (hupdates : heap.updates = [])
    (h : SessionInv heap tuples versions state) :
    ∃ after stored, storeCurrent state = .ok after ∧ Scanning heap tuples versions 0 stored after ∧
      ∀ tuple ∈ tuples, tuple.rowKey ∈ stored ∨
        (hashFind after.dirtyEntryCache tuple.deleteKey).isSome := by
  rcases h.current with ⟨-, hclean, rfl⟩ | ⟨key, hproper, hat, hdirty, hlatest⟩
  · have hspilled := h.spilled hclean
    refine ⟨state, ∅, ?_, ⟨h.spill, ?_, by simp, ?_⟩, by simp⟩
    · rw [storeCurrent, hclean]
      rfl
    · rw [h.heap_eq]
      exact storing_start htable hupdates
    · intro key data hlookup
      exact .inr ⟨hspilled.cached key data hlookup,
        iff_of_false (Set.notMem_empty _) (Nat.not_lt_zero _)⟩
  · have hrow : (state.entry.segmentFileNum, state.entry.firstRowNum) = key.rowKey := by
      rw [hat.1, hat.2, DeleteKey.rowKey]
    obtain ⟨after, entry, hstore, hseg, hfirst, hstoring, hhides, -⟩ :=
      (storing_start htable hupdates).store htable state.entry hlatest.length_le
        (Set.notMem_empty _) (hrow ▸ hlatest.tid_eq)
    rw [hrow] at hstoring hhides
    have hkey : entryKey entry = key :=
      Entry.At.entryKey hproper ⟨hseg.trans hat.1, hfirst.trans hat.2⟩
    refine ⟨⟨after, entry, invalidate state.dirtyEntryCache key, state.workfile⟩,
      insert key.rowKey ∅, ?_, ⟨⟨h.spill.file, h.spill.room, h.spill.proper, h.spill.holds,
        fun version hversion => isSome_hashFind_invalidate (h.spill.noted version hversion)⟩,
        hstoring, ?_, ?_⟩, ?_⟩
    · simp only [storeCurrent, hdirty, if_true, h.heap_eq, hstore, hkey, bind, Except.bind, pure,
        Except.pure]
      rfl
    · intro other hother x
      rcases Set.mem_insert_iff.mp hother with rfl | hempty
      · exact (hhides x).trans (hlatest.member x)
      · exact absurd hempty (Set.notMem_empty _)
    · intro other data hlookup
      by_cases heq : other = key
      · subst heq
        exact .inl ⟨workFileOffset_invalidate hlookup, Set.mem_insert _ _⟩
      · have hold := (hashFind_invalidate_of_ne heq _).symm.trans hlookup
        refine .inr ⟨(h.cached other data hold).resolve_left ?_,
          iff_of_false ?_ (Nat.not_lt_zero _)⟩
        · exact fun hat' => heq (hat'.unique hat)
        · rw [Set.mem_insert_iff, not_or]
          exact ⟨fun hrow => heq (DeleteKey.rowKey_inj hrow), Set.notMem_empty _⟩
    · intro tuple htuple
      rcases h.covered tuple htuple with hat' | hsome
      · left
        rw [← hat'.unique hat]
        exact Set.mem_insert _ _
      · exact .inr (isSome_hashFind_invalidate hsome)

/-- When the ranges of all calls are stored, the table hides what it should. -/
theorem Scanning.hides {i : Nat} (h : Scanning heap tuples versions i stored state)
    (hall : ∀ tuple ∈ tuples, tuple.rowKey ∈ stored) (key : Int × Int) (x : Nat) :
    Hides state.heap key x ↔ Hidden heap tuples key x := by
  by_cases hkey : key ∈ stored
  · exact h.done key hkey x
  · rw [hides_congr fun row hrow => h.storing.same row (hrow ▸ hkey)]
    refine ⟨.inl, fun hhidden => hhidden.resolve_right ?_⟩
    rintro ⟨tuple, htuple, rfl, -⟩
    exact hkey (hall tuple htuple)

/-- At the end of the file every key of the hash table is stored. -/
theorem Scanning.mem_stored (h : Scanning heap tuples versions versions.length stored state)
    (hsome : (hashFind state.dirtyEntryCache key).isSome) : key.rowKey ∈ stored := by
  obtain ⟨data, hlookup⟩ := Option.isSome_iff_exists.mp hsome
  rcases h.cached key data hlookup with ⟨-, hstored⟩ | ⟨hstashed, hstored⟩
  · exact hstored
  · obtain ⟨j, version, words, hversion, -, hstart, -, -⟩ := hstashed
    rw [hstored, ← hstart]
    exact start_lt (fun version _ => version.record_ne_nil)
      (List.getElem?_eq_some_iff.mp hversion).1 (le_refl _)

/-- After the scan every range that was touched is stored. -/
theorem deleteFinish_spec (htable : TableOk heap) (hupdates : heap.updates = [])
    (h : SessionInv heap tuples versions state) :
    ∃ final stored, deleteFinish state = .ok final ∧ Storing heap final.heap stored ∧
      ∀ key x, Hides final.heap key x ↔ Hidden heap tuples key x := by
  obtain ⟨after, stored, hstore, hscan, hcovered⟩ := storeCurrent_spec htable hupdates h
  simp only [deleteFinish, hstore, bind, Except.bind, writeBackStashedEntries]
  by_cases hempty : after.dirtyEntryCache.entries.length = 0
  · rw [if_pos hempty]
    refine ⟨after, stored, rfl, hscan.storing, hscan.hides fun tuple htuple => ?_⟩
    apply (hcovered tuple htuple).resolve_right
    rw [hashFind, AList.lookup, length_eq_zero_iff.mp hempty]
    exact Bool.false_ne_true
  · have hfuel : versions.length - 0 < after.workfile.length + 1 := by
      have hlength : versions.length ≤ (image Version.record versions).length :=
        length_le_length_image fun version _ => version.record_ne_nil
      rw [← hscan.spill.file] at hlength
      omega
    obtain ⟨final, stored', hrun, hfinal, hsubset, hcache⟩ :=
      writeBackLoop_spec htable _ 0 hscan (Nat.zero_le _) hfuel
    rw [if_neg hempty]
    refine ⟨final, stored', hrun, hfinal.storing, hfinal.hides fun tuple htuple => ?_⟩
    rcases hcovered tuple htuple with hstored | hsome
    · exact hsubset hstored
    · rw [← hcache] at hsome
      exact hfinal.mem_stored hsome

theorem AOTupleId.same_iff {tuple tupleId : AOTupleId} :
    tuple.rowKey = tupleId.rowKey ∧ tuple.offset = tupleId.offset ↔
      tuple.segmentFileNum = tupleId.segmentFileNum ∧ tuple.rowNum = tupleId.rowNum := by
  have hsum := tuple.firstRowNum_add_offset
  have hsum' := tupleId.firstRowNum_add_offset
  rw [AOTupleId.rowKey, AOTupleId.rowKey, Prod.mk.injEq, Int.natCast_inj, Int.natCast_inj]
  constructor
  · omega
  · rintro ⟨hseg, hrow⟩
    rw [AOTupleId.firstRowNum, AOTupleId.firstRowNum, AOTupleId.offset, AOTupleId.offset, hrow]
    exact ⟨⟨hseg, rfl⟩, rfl⟩

/-- A session that hides `tuples` ends with a table that hides exactly what was
hidden before and these tuples, that has one row for each key, and in which no
row of before was updated twice; unless the work file needed more bytes than a
file offset can count. -/
theorem deleteSession_hides (heap : Heap) (htable : TableOk heap) (hupdates : heap.updates = [])
    (tuples : List AOTupleId) :
    (deleteSession heap tuples = .error .workFileFull ∧ int64Max < tuples.length * maxRecord) ∨
      ∃ after, deleteSession heap tuples = .ok after ∧ (∀ tupleId : AOTupleId, ∃ visible before,
          isVisible after tupleId = .ok visible ∧ isVisible heap tupleId = .ok before ∧
          (visible = false ↔ before = false ∨ ∃ tuple ∈ tuples,
            tuple.segmentFileNum = tupleId.segmentFileNum ∧ tuple.rowNum = tupleId.rowNum)) ∧
        (after.rows.map Row.key).Nodup ∧ after.updates.Nodup ∧
        ∀ tid ∈ after.updates, ∃ row ∈ heap.rows, row.tid = tid := by
  rcases hideAll_spec htable tuples (sessionInv_init heap) with ⟨hfull, hsize⟩ | ⟨state,
    versions, hrun, hinv⟩
  · refine .inl ⟨?_, hsize⟩
    simp [deleteSession, hfull, bind, Except.bind]
  · right
    obtain ⟨final, stored, hfinish, hstoring, hhides⟩ := deleteFinish_spec htable hupdates hinv
    refine ⟨final.heap, ?_, ?_, hstoring.table.keys, hstoring.nodup, ?_⟩
    · simp only [deleteSession, hrun, hfinish, bind, Except.bind, pure, Except.pure]
    · intro tupleId
      obtain ⟨visible, hvisible, hiff⟩ := isVisible_spec hstoring.table tupleId
      obtain ⟨before, hbefore, hiffBefore⟩ := isVisible_spec htable tupleId
      refine ⟨visible, before, hvisible, hbefore, ?_⟩
      rw [hiff, hiffBefore, hhides, Hidden]
      apply or_congr Iff.rfl
      simp only [append_nil, mem_reverse]
      exact exists_congr fun tuple => and_congr Iff.rfl AOTupleId.same_iff
    · intro tid htid
      obtain ⟨row, hrow, hrowTid, -⟩ := hstoring.updated tid htid
      exact ⟨row, hrow, hrowTid⟩

end

namespace VisimapWitness

/-- A tuple of segment file 1. -/
def tuple (block row : Nat) : AOTupleId := ⟨0x0200, BitVec.ofNat 16 block, BitVec.ofNat 16 row⟩

/-- One row, of the first range, that hides nothing. -/
def heap : Heap := ⟨[⟨5, 1, 0, none⟩], 6, []⟩

/-- The third call returns to the range of the first. -/
def tuples : List AOTupleId := [tuple 0 3, tuple 1 3, tuple 0 4, tuple 0 3]

theorem heap_ok : TableOk heap := by
  refine ⟨by decide, by decide, by decide, ?_⟩
  intro row hrow
  rw [heap, mem_singleton] at hrow
  subst hrow
  exact ⟨[], rfl⟩

theorem session_hides : ∃ after, deleteSession heap tuples = .ok after ∧
      isVisible after (tuple 0 3) = .ok false ∧ isVisible after (tuple 0 5) = .ok true ∧
      after.updates.Nodup := by
  rcases deleteSession_hides heap heap_ok rfl tuples with ⟨-, hfull⟩ | ⟨after, hsession,
    hvisible, -, hnodup, -⟩
  · exact absurd hfull (by decide)
  · obtain ⟨hidden, _, hhidden, -, hhiddenIff⟩ := hvisible (tuple 0 3)
    obtain ⟨shown, before, hshown, hbefore, hshownIff⟩ := hvisible (tuple 0 5)
    rw [hhiddenIff.mpr (.inr ⟨tuple 0 3, by decide, rfl, rfl⟩)] at hhidden
    cases shown with
    | false =>
      rcases hshownIff.mp rfl with rfl | hpassed
      · cases hbefore
      · exact absurd hpassed (by decide)
    | true => exact ⟨after, hsession, hhidden, hshown, hnodup⟩

end VisimapWitness

open Fallible

/-- The answers of the calls of a session. -/
def hideResults : DeleteState → List AOTupleId → Except Error (List HTSUResult)
  | _, [] => .ok []
  | state, tupleId :: tupleIds => do
      let (result, state) ← deleteHide state tupleId
      let results ← hideResults state tupleIds
      pure (result :: results)

/-- The answer for a tuple that was hidden before the session or that an earlier
call of the session was for. -/
structure RightAnswer (before asked : Prop) (result : HTSUResult) : Prop where
  mayBeUpdated : result = .mayBeUpdated ↔ ¬ before ∧ ¬ asked
  selfUpdated : result = .selfUpdated ↔ ¬ before ∧ asked
  updated : result = .updated ↔ before

theorem Answers.right_iff {before asked touched : Prop} {result : HTSUResult}
    (h : Answers (before ∨ asked) touched result) (htouched : asked → touched) :
    RightAnswer before asked result ↔ (before → ¬ touched) := by
  cases result with
  | mayBeUpdated =>
    obtain ⟨hbefore, hasked⟩ := not_or.mp h
    exact ⟨fun _ hold => absurd hold hbefore, fun _ => ⟨by simp [hbefore, hasked],
      by simp [hasked], by simp [hbefore]⟩⟩
  | selfUpdated =>
    obtain ⟨hhidden, hyes⟩ := h
    constructor
    · exact fun hright hold => absurd hold (hright.selfUpdated.mp rfl).1
    · intro hclean
      have hbefore : ¬ before := fun hold => hclean hold hyes
      have hasked := hhidden.resolve_left hbefore
      exact ⟨by simp [hasked], by simp [hbefore, hasked], by simp [hbefore]⟩
  | updated =>
    obtain ⟨hhidden, hno⟩ := h
    have hbefore := hhidden.resolve_right fun hasked => hno (htouched hasked)
    exact ⟨fun _ _ => hno, fun _ => ⟨by simp [hbefore], by simp [hbefore], by simp [hbefore]⟩⟩

section

variable {heap : Heap} {earlier : List AOTupleId} {versions : List Version}
  {state after : DeleteState} {tuple : AOTupleId} {result : HTSUResult}

/-- Every range that the session knows is that of an earlier call. -/
def Touched (earlier : List AOTupleId) (state : DeleteState) : Prop :=
  ∀ key, state.Knows key → ∃ other ∈ earlier, other.deleteKey = key

/-- One call: the tuple was hidden or not, by whomever; the dirty flag tells
whether the session was in its range. -/
theorem deleteHide_answers (htable : TableOk heap) (h : SessionInv heap earlier versions state)
    (htouched : Touched earlier state) (hhide : deleteHide state tuple = .ok (result, after)) :
    ∃ versions', SessionInv heap (tuple :: earlier) versions' after ∧
      Touched (tuple :: earlier) after ∧ Answers (Hidden heap earlier tuple.rowKey tuple.offset)
        (∃ other ∈ earlier, other.deleteKey = tuple.deleteKey) result := by
  rw [deleteHide_eq] at hhide
  rcases arrive_spec htable h tuple with ⟨hfull, -⟩ | ⟨arrived, versions', harrive, harrived,
    hdirty, hknown⟩
  · rw [hfull] at hhide
    cases hhide
  obtain ⟨answer, entry, htuple, hat, hanswer, hinv⟩ := sessionInv_hide harrived
  simp only [harrive, htuple, bind, Except.bind, pure, Except.pure, Except.ok.injEq,
    Prod.mk.injEq] at hhide
  obtain ⟨rfl, rfl⟩ := hhide
  have hiff : arrived.entry.dirty = true ↔ ∃ other ∈ earlier, other.deleteKey = tuple.deleteKey :=
    ⟨fun hyes => htouched _ (hdirty hyes), fun ⟨other, hother, hkey⟩ =>
      harrived.dirty other hother hkey⟩
  refine ⟨versions', hinv, ?_, by rwa [hiff] at hanswer⟩
  rintro key (hnow | hsome)
  · exact ⟨tuple, mem_cons_self, hat.unique hnow⟩
  · obtain ⟨other, hother, hkey⟩ := htouched key (hknown key hsome)
    exact ⟨other, mem_cons_of_mem _ hother, hkey⟩

/-- All calls, by induction over those that are left. -/
theorem hideResults_answers (htable : TableOk heap) (tuples : List AOTupleId) :
    ∀ {earlier versions state results}, SessionInv heap earlier versions state →
      Touched earlier state → hideResults state tuples = .ok results →
      ∀ {i tuple}, tuples[i]? = some tuple → ∃ result, results[i]? = some result ∧
        Answers (Hidden heap ((tuples.take i).reverse ++ earlier) tuple.rowKey tuple.offset)
          (∃ other ∈ (tuples.take i).reverse ++ earlier, other.deleteKey = tuple.deleteKey)
          result := by
  induction tuples with
  | nil =>
    intro earlier versions state results _ _ _ i tuple hget
    cases hget
  | cons first rest ih =>
    intro earlier versions state results h htouched hrun i tuple hget
    obtain ⟨⟨result, next⟩, hhide, hrest⟩ := bind_eq_ok.mp hrun
    obtain ⟨others, hothers, hcons⟩ := bind_eq_ok.mp hrest
    obtain rfl := Except.ok.inj hcons
    obtain ⟨versions', hinv, hnext, hanswer⟩ := deleteHide_answers htable h htouched hhide
    cases i with
    | zero =>
      obtain rfl := Option.some.inj hget
      exact ⟨result, rfl, hanswer⟩
    | succ i =>
      rw [take_succ_cons, reverse_cons, append_assoc]
      exact ih hinv hnext hothers hget

end

/-- In every session each call gives the right answer if and only if no call for
a tuple that was hidden before comes after another call for the same range. -/
theorem hideResults_right_iff (heap : Heap) (htable : TableOk heap) (tuples : List AOTupleId)
    (results : List HTSUResult) (hrun : hideResults (deleteInit heap) tuples = .ok results) :
    (∀ i tuple result, tuples[i]? = some tuple → results[i]? = some result →
        RightAnswer (isVisible heap tuple = .ok false)
          (∃ other ∈ tuples.take i, other.segmentFileNum = tuple.segmentFileNum ∧
            other.rowNum = tuple.rowNum) result) ↔
      ∀ i tuple, tuples[i]? = some tuple → isVisible heap tuple = .ok false →
        ∀ other ∈ tuples.take i, other.deleteKey ≠ tuple.deleteKey := by
  have hcall : ∀ {i tuple}, tuples[i]? = some tuple → ∃ result, results[i]? = some result ∧
      (RightAnswer (isVisible heap tuple = .ok false)
          (∃ other ∈ tuples.take i, other.segmentFileNum = tuple.segmentFileNum ∧
            other.rowNum = tuple.rowNum) result ↔ (isVisible heap tuple = .ok false →
          ∀ other ∈ tuples.take i, other.deleteKey ≠ tuple.deleteKey)) := by
    intro i tuple hget
    have htouched : Touched [] (deleteInit heap) := by
      rintro key (hat | hsome)
      · exact absurd hat.1 (by simp [deleteInit, entryInit])
      · cases hsome
    obtain ⟨result, hresult, hanswer⟩ :=
      hideResults_answers htable tuples (sessionInv_init heap) htouched hrun hget
    obtain ⟨visible, hvisible, hiff⟩ := isVisible_spec htable tuple
    have hbefore : Hides heap tuple.rowKey tuple.offset ↔ isVisible heap tuple = .ok false := by
      rw [hvisible, Except.ok.injEq, hiff]
    simp only [Hidden, hbefore, AOTupleId.same_iff, append_nil, mem_reverse] at hanswer
    refine ⟨result, hresult, (hanswer.right_iff ?_).trans (by simp [not_exists, not_and])⟩
    rintro ⟨other, hother, hseg, hrow⟩
    refine ⟨other, hother, ?_⟩
    rw [AOTupleId.deleteKey, hseg, AOTupleId.firstRowNum, hrow]
    rfl
  constructor
  · intro hright i tuple hget
    obtain ⟨result, hresult, hiff⟩ := hcall hget
    exact hiff.mp (hright i tuple result hget hresult)
  · intro hclean i tuple result hget hresult
    obtain ⟨answer, hanswer, hiff⟩ := hcall hget
    obtain rfl := Option.some.inj (hresult.symm.trans hanswer)
    exact hiff.mpr (hclean i tuple hget)

namespace AnswersWitness

open VisimapWitness

/-- The data of a bitmap that hides row 5 of its range. -/
def data : List BitmapCompression.Byte := [0, 0, 0, 14, 1, 0, 0, 0, 0, 1, 32, 0, 0, 0]

def heap : Heap := ⟨[⟨5, 1, 0, some data⟩], 6, []⟩

theorem heap_ok : TableOk heap := by
  obtain ⟨stored, hwrite, hholds, -⟩ :=
    @writeData_spec { entryInit with bitmap := [32] } (by decide)
  have hstored : stored = data := congrArg Entry.data
    (Except.ok.inj (hwrite.symm.trans (by decide +kernel :
      _ = Except.ok { entryInit with bitmap := [32], data := data })))
  refine ⟨by decide, by decide, by decide, fun row hrow => ⟨[32], ?_⟩⟩
  rw [heap, mem_singleton] at hrow
  subst hrow
  exact ⟨hstored ▸ hholds, by decide⟩

/-- Row 5 was hidden before, but the session was at row 6 first. -/
theorem hidden_before_self_updated : TableOk heap ∧ isVisible heap (tuple 0 5) = .ok false ∧
      hideResults (deleteInit heap) [tuple 0 6, tuple 0 5] = .ok [.mayBeUpdated, .selfUpdated] ∧
      ¬ RightAnswer (isVisible heap (tuple 0 5) = .ok false)
        (∃ other ∈ [tuple 0 6], other.segmentFileNum = (tuple 0 5).segmentFileNum ∧
          other.rowNum = (tuple 0 5).rowNum) .selfUpdated := by
  have hhidden : isVisible heap (tuple 0 5) = .ok false := by decide +kernel
  exact ⟨heap_ok, hhidden, by decide +kernel, fun hright => (hright.selfUpdated.mp rfl).1 hhidden⟩

/-- In the other order both answers are right. -/
theorem hidden_before_updated :
    hideResults (deleteInit heap) [tuple 0 5, tuple 0 6] = .ok [.updated, .mayBeUpdated] ∧
    ∀ i tupleId result, [tuple 0 5, tuple 0 6][i]? = some tupleId →
      [HTSUResult.updated, .mayBeUpdated][i]? = some result →
      RightAnswer (isVisible heap tupleId = .ok false) (∃ other ∈ [tuple 0 5, tuple 0 6].take i,
        other.segmentFileNum = tupleId.segmentFileNum ∧ other.rowNum = tupleId.rowNum) result := by
  refine ⟨by decide +kernel, ?_⟩
  apply (hideResults_right_iff heap heap_ok [tuple 0 5, tuple 0 6] [.updated, .mayBeUpdated]
    (by decide +kernel)).mpr
  intro i tupleId hget hhidden other hother
  match i with
  | 0 => cases hother
  | 1 =>
    obtain rfl := Option.some.inj hget
    exact absurd hhidden (by decide +kernel)

end AnswersWitness

end Greenplum.Visimap
