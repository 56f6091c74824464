/-
A delete session hides exactly the tuples it was asked to.  Between the calls
every range that was touched has one latest version, which is either the current
entry or the version in the work file that the hash table points at.
-/
import Greenplum.RecordLog
import Greenplum.Visimap
import Greenplum.VisimapEntries

namespace Greenplum.Visimap

open BitmapCompression ByteMemory ByteNumbers RecordLog List

section

variable {key : Int × Int} {row : Row} {heap' : Heap} (heap : Heap)

/-- A visimap table: one row for each key, tids that are not used twice, and
bitmaps that can be read. -/
structure TableOk : Prop where
  keys : (heap.rows.map Row.key).Nodup
  tids : (heap.rows.map Row.tid).Nodup
  fresh : ∀ row ∈ heap.rows, row.tid < heap.nextTid
  holds : ∀ row ∈ heap.rows, ∃ words, row.Holds words

/-- The table hides the tuple at this place of this range. -/
def Hides (key : Int × Int) (x : Nat) : Prop :=
  ∃ row ∈ heap.rows, row.key = key ∧ ∃ words, row.Holds words ∧ bmsIsMember x words = true

/-- The tid of the row with this key. -/
def rowTid (key : Int × Int) : Option Tid :=
  (heap.rows.find? (·.key == key)).map Row.tid

variable {heap}

theorem find?_key_spec (hfind : heap.rows.find? (·.key == key) = some row) :
    row ∈ heap.rows ∧ row.key = key := by
  have hkey := find?_some hfind
  exact ⟨mem_of_find?_eq_some hfind, beq_iff_eq.mp hkey⟩

theorem find?_key_eq_some (hkeys : (heap.rows.map Row.key).Nodup)
    (hrow : row ∈ heap.rows) : heap.rows.find? (·.key == row.key) = some row := by
  cases hfind : heap.rows.find? (·.key == row.key) with
  | none =>
    have hnone := find?_eq_none.mp hfind row hrow
    simp at hnone
  | some found =>
    have hfound := find?_key_spec hfind
    rw [inj_on_of_nodup_map hkeys hfound.1 hrow hfound.2]

theorem find?_key_eq_none (hfind : heap.rows.find? (·.key == key) = none) (hrow : row ∈ heap.rows) :
    row.key ≠ key := by
  intro heq
  have hnone := find?_eq_none.mp hfind row hrow
  simp [heq] at hnone

theorem rowTid_eq_some (hkeys : (heap.rows.map Row.key).Nodup) (hrow : row ∈ heap.rows) :
    rowTid heap row.key = some row.tid := by
  rw [rowTid, find?_key_eq_some hkeys hrow, Option.map_some]

theorem rowTid_eq_none (hnone : rowTid heap key = none) (hrow : row ∈ heap.rows) : row.key ≠ key :=
  find?_key_eq_none (Option.map_eq_none_iff.mp hnone) hrow

theorem mem_of_rowTid {tid : Tid} (hsome : rowTid heap key = some tid) :
    ∃ row ∈ heap.rows, row.key = key ∧ row.tid = tid := by
  rcases Option.map_eq_some_iff.mp hsome with ⟨row, hfind, htid⟩
  have hfound := find?_key_spec hfind
  exact ⟨row, hfound.1, hfound.2, htid⟩

/-- The tid and the hidden tuples of a key are those of the row that has it. -/
theorem hides_congr
    (hsame : ∀ row, row.key = key → (row ∈ heap'.rows ↔ row ∈ heap.rows)) (x : Nat) :
    Hides heap' key x ↔ Hides heap key x := by
  constructor
  · rintro ⟨row, hrow, hkey, hwords⟩
    exact ⟨row, (hsame row hkey).mp hrow, hkey, hwords⟩
  · rintro ⟨row, hrow, hkey, hwords⟩
    exact ⟨row, (hsame row hkey).mpr hrow, hkey, hwords⟩

theorem rowTid_congr (hkeys' : (heap'.rows.map Row.key).Nodup)
    (hsame : ∀ row, row.key = key → (row ∈ heap'.rows ↔ row ∈ heap.rows)) :
    rowTid heap' key = rowTid heap key := by
  cases hfound : rowTid heap key with
  | none =>
    cases hfound' : rowTid heap' key with
    | none => rfl
    | some tid =>
      rcases mem_of_rowTid hfound' with ⟨row, hrow, hkey, -⟩
      exact absurd hkey (rowTid_eq_none hfound ((hsame row hkey).mp hrow))
  | some tid =>
    rcases mem_of_rowTid hfound with ⟨row, hrow, rfl, rfl⟩
    exact rowTid_eq_some hkeys' ((hsame row rfl).mpr hrow)

theorem hides_of_mem (hkeys : (heap.rows.map Row.key).Nodup) (hrow : row ∈ heap.rows)
    {words : Bitmapset} (hwords : row.Holds words) (x : Nat) :
    Hides heap row.key x ↔ bmsIsMember x words = true := by
  constructor
  · rintro ⟨other, hother, hkey, words', hwords', hmember⟩
    have heq := inj_on_of_nodup_map hkeys hother hrow hkey
    rw [heq] at hwords'
    rwa [hwords.unique hwords']
  · exact fun hmember => ⟨row, hrow, rfl, words, hwords, hmember⟩

/-- The key of the row that covers the tuple. -/
def AOTupleId.rowKey (tupleId : AOTupleId) : Int × Int :=
  (tupleId.segmentFileNum, tupleId.firstRowNum)

/-- What a look into the table loads. -/
theorem visimapFind_spec (htable : TableOk heap) (entry : Entry) (tupleId : AOTupleId) :
    ∃ found, visimapFind heap entry tupleId = .ok found ∧
      found.segmentFileNum = tupleId.segmentFileNum ∧ found.firstRowNum = tupleId.firstRowNum ∧
      found.dirty = entry.dirty ∧ found.tupleTid = rowTid heap tupleId.rowKey ∧
      found.bitmap.length ≤ maxWords ∧
      ∀ x, bmsIsMember x found.bitmap = true ↔ Hides heap tupleId.rowKey x := by
  unfold visimapFind storeFind
  cases hfind : heap.rows.find?
      (·.key == ((tupleId.segmentFileNum : Int), (tupleId.firstRowNum : Int))) with
  | none =>
    refine ⟨_, rfl, rfl, rfl, rfl, ?_, Nat.zero_le _, fun x => ?_⟩
    · rw [rowTid, AOTupleId.rowKey, hfind]
      rfl
    · constructor
      · intro hmember
        rw [entryNew, bmsIsMember_of_isEmpty rfl] at hmember
        cases hmember
      · rintro ⟨row, hrow, hkey, -⟩
        exact absurd hkey (find?_key_eq_none hfind hrow)
  | some row =>
    obtain ⟨hrow, hkey⟩ : row ∈ heap.rows ∧ row.key = tupleId.rowKey := find?_key_spec hfind
    obtain ⟨words, hwords⟩ := htable.holds row hrow
    obtain ⟨data, hcopy⟩ := copyout_spec entry hwords
    simp only [hcopy]
    refine ⟨_, rfl, congrArg Prod.fst hkey, congrArg Prod.snd hkey, rfl, ?_, hwords.length_le, ?_⟩
    · rw [← hkey, rowTid_eq_some htable.keys hrow]
    · exact fun x => (hkey ▸ hides_of_mem htable.keys hrow hwords x).symm

theorem isVisible_spec (htable : TableOk heap) (tupleId : AOTupleId) :
    ∃ visible, isVisible heap tupleId = .ok visible ∧
      (visible = false ↔ Hides heap tupleId.rowKey tupleId.offset) := by
  obtain ⟨found, hfind, -, hfirst, -, -, -, hmember⟩ := visimapFind_spec htable entryInit tupleId
  have hoffset := getRownumOffset_eq hfirst
  rw [← hmember]
  simp only [isVisible, hfind, bind, Except.bind, entryIsVisible, hoffset]
  cases hempty : bmsIsEmpty found.bitmap with
  | true => exact ⟨true, rfl, by simp [bmsIsMember_of_isEmpty hempty]⟩
  | false =>
    have hpos : ¬ (tupleId.offset : Int) < 0 := Int.not_lt.mpr (Int.natCast_nonneg _)
    simp [hpos]

end

section

variable {heap : Heap} {segno firstRowNum : Int} {visimap : Option (List Byte)}
  {words : Bitmapset} {row : Row}

theorem TableOk.filter (htable : TableOk heap) (keep : Row → Bool) (updates : List Tid) :
    TableOk { heap with rows := heap.rows.filter keep, updates := updates } where
  keys := htable.keys.sublist ((filter_sublist).map Row.key)
  tids := htable.tids.sublist ((filter_sublist).map Row.tid)
  fresh := fun row hrow => htable.fresh row (mem_of_mem_filter hrow)
  holds := fun row hrow => htable.holds row (mem_of_mem_filter hrow)

theorem nodup_map_snoc {α : Type} {field : Row → α} (hnodup : (heap.rows.map field).Nodup)
    (hnew : ∀ old ∈ heap.rows, field old ≠ field row) :
    ((heap.rows ++ [row]).map field).Nodup := by
  rw [map_append, map_singleton, nodup_append_comm]
  refine nodup_cons.mpr ⟨fun hmem => ?_, hnodup⟩
  obtain ⟨old, hold, hsame⟩ := mem_map.mp hmem
  exact hnew old hold hsame

/-- A row with a key of its own is inserted. -/
theorem TableOk.insert (htable : TableOk heap)
    (hnew : ∀ row ∈ heap.rows, row.key ≠ (segno, firstRowNum))
    (hwords : ∀ tid, (Row.mk tid segno firstRowNum visimap).Holds words) :
    TableOk (simpleHeapInsert heap segno firstRowNum visimap) where
  keys := nodup_map_snoc htable.keys hnew
  tids := nodup_map_snoc htable.tids fun row hrow => ne_of_lt (htable.fresh row hrow)
  fresh := forall_mem_append.mpr ⟨fun row hrow => Nat.lt_succ_of_lt (htable.fresh row hrow),
    forall_mem_singleton.mpr (Nat.lt_succ_self _)⟩
  holds := forall_mem_append.mpr ⟨htable.holds, forall_mem_singleton.mpr ⟨words, hwords _⟩⟩

theorem mem_simpleHeapInsert_of_key_ne (hkey : row.key ≠ (segno, firstRowNum)) :
    row ∈ (simpleHeapInsert heap segno firstRowNum visimap).rows ↔ row ∈ heap.rows := by
  rw [simpleHeapInsert, mem_append, mem_singleton]
  constructor
  · rintro (hold | rfl)
    · exact hold
    · exact absurd rfl hkey
  · exact Or.inl

theorem hides_simpleHeapInsert (htable : TableOk (simpleHeapInsert heap segno firstRowNum visimap))
    (hwords : ∀ tid, (Row.mk tid segno firstRowNum visimap).Holds words) (x : Nat) :
    Hides (simpleHeapInsert heap segno firstRowNum visimap) (segno, firstRowNum) x ↔
      bmsIsMember x words = true :=
  hides_of_mem htable.keys
    (mem_append_right heap.rows (mem_singleton_self _)) (hwords heap.nextTid) x

theorem mem_filter_tid (htable : TableOk heap) {old : Row} (hold : old ∈ heap.rows) :
    row ∈ heap.rows.filter (·.tid ≠ old.tid) ↔ row ∈ heap.rows ∧ row.key ≠ old.key := by
  rw [mem_filter, decide_eq_true_eq]
  constructor
  · rintro ⟨hrow, htid⟩
    refine ⟨hrow, fun hkey => htid ?_⟩
    rw [inj_on_of_nodup_map htable.keys hrow hold hkey]
  · rintro ⟨hrow, hkey⟩
    refine ⟨hrow, fun htid => hkey ?_⟩
    rw [inj_on_of_nodup_map htable.tids hrow hold htid]

theorem catalogUpdateIndexes_ok (hkeys : (heap.rows.map Row.key).Nodup) :
    catalogUpdateIndexes heap = .ok heap :=
  if_pos hkeys

/-- Storing an entry under a key: the row with the tid of the entry, if there is
one, gives way to a row with the bitmap of the entry. -/
theorem storeStore_spec (htable : TableOk heap) {entry : Entry}
    (hlength : entry.bitmap.length ≤ maxWords)
    (htid : entry.tupleTid = rowTid heap (entry.segmentFileNum, entry.firstRowNum)) :
    ∃ heap' entry', storeStore heap entry = .ok (heap', entry') ∧
      entry'.segmentFileNum = entry.segmentFileNum ∧ entry'.firstRowNum = entry.firstRowNum ∧
      TableOk heap' ∧ (∀ row, row.key ≠ (entry.segmentFileNum, entry.firstRowNum) →
        (row ∈ heap'.rows ↔ row ∈ heap.rows)) ∧
      (∀ x, Hides heap' (entry.segmentFileNum, entry.firstRowNum) x ↔
        bmsIsMember x entry.bitmap = true) ∧
      heap'.updates = entry.tupleTid.toList ++ heap.updates := by
  obtain ⟨visimap, data, words, hwrite, hwords, hmember⟩ := entryWrite_spec hlength
  cases hrow : entry.tupleTid with
  | none =>
    have hnew : ∀ row ∈ heap.rows, row.key ≠ (entry.segmentFileNum, entry.firstRowNum) :=
      fun row hmem => rowTid_eq_none (htid.symm.trans hrow) hmem
    have hafter := htable.insert hnew hwords
    refine ⟨simpleHeapInsert heap entry.segmentFileNum entry.firstRowNum visimap,
      { entry with data := data, dirty := false, tupleTid := none }, ?_, rfl, rfl, hafter,
      fun row hkey => mem_simpleHeapInsert_of_key_ne hkey,
      fun x => (hides_simpleHeapInsert hafter hwords x).trans (by rw [hmember]), rfl⟩
    simp [storeStore, hwrite, hrow, bind, Except.bind, pure, Except.pure,
      catalogUpdateIndexes_ok hafter.keys]
  | some tid =>
    obtain ⟨old, hold, hkey, rfl⟩ := mem_of_rowTid (htid.symm.trans hrow)
    have hfilter := htable.filter (fun row => row.tid ≠ old.tid) (old.tid :: heap.updates)
    have hnew : ∀ row ∈ heap.rows.filter (fun row => row.tid ≠ old.tid),
        row.key ≠ (entry.segmentFileNum, entry.firstRowNum) :=
      fun row hmem => hkey ▸ ((mem_filter_tid htable hold).mp hmem).2
    have hafter := hfilter.insert hnew hwords
    refine ⟨_, { entry with data := data, dirty := false, tupleTid := none }, ?_, rfl, rfl,
      hafter, ?_, fun x => (hides_simpleHeapInsert hafter hwords x).trans (by rw [hmember]), rfl⟩
    · have hmem : old.tid ∈ heap.rows.map Row.tid := mem_map_of_mem hold
      simp only [storeStore, hwrite, hrow, bind, Except.bind, pure, Except.pure,
        simpleHeapUpdate, if_pos hmem, catalogUpdateIndexes_ok hafter.keys]
    · intro row hother
      rw [mem_simpleHeapInsert_of_key_ne hother, mem_filter_tid htable hold, hkey]
      exact ⟨fun h => h.1, fun h => ⟨h, hother⟩⟩

/-- The table after some keys were stored: the rows of all other keys are those
of the session's start. -/
structure Storing (start now : Heap) (stored : Set (Int × Int)) : Prop where
  table : TableOk now
  same : ∀ row, row.key ∉ stored → (row ∈ now.rows ↔ row ∈ start.rows)
  nodup : now.updates.Nodup
  updated : ∀ tid ∈ now.updates, ∃ row ∈ start.rows, row.tid = tid ∧ row.key ∈ stored

/-- One more key is stored; no row is updated a second time. -/
theorem Storing.store {start now : Heap} {stored : Set (Int × Int)} (hstart : TableOk start)
    (h : Storing start now stored) (entry : Entry) (hlength : entry.bitmap.length ≤ maxWords)
    (hkey : (entry.segmentFileNum, entry.firstRowNum) ∉ stored)
    (htid : entry.tupleTid = rowTid start (entry.segmentFileNum, entry.firstRowNum)) :
    ∃ after entry', storeStore now entry = .ok (after, entry') ∧
      entry'.segmentFileNum = entry.segmentFileNum ∧ entry'.firstRowNum = entry.firstRowNum ∧
      Storing start after (insert (entry.segmentFileNum, entry.firstRowNum) stored) ∧
      (∀ x, Hides after (entry.segmentFileNum, entry.firstRowNum) x ↔
        bmsIsMember x entry.bitmap = true) ∧
      ∀ key, key ≠ (entry.segmentFileNum, entry.firstRowNum) →
        ∀ x, Hides after key x ↔ Hides now key x := by
  have hnow : rowTid now (entry.segmentFileNum, entry.firstRowNum) =
      rowTid start (entry.segmentFileNum, entry.firstRowNum) :=
    rowTid_congr h.table.keys fun row hrow => h.same row (hrow ▸ hkey)
  obtain ⟨after, entry', hstore, hseg, hfirst, htable, hother, hhides, hupdates⟩ :=
    storeStore_spec h.table hlength (htid.trans hnow.symm)
  refine ⟨after, entry', hstore, hseg, hfirst, ⟨htable, ?_, ?_, ?_⟩, hhides, ?_⟩
  · intro row hrow
    rw [Set.mem_insert_iff, not_or] at hrow
    rw [hother row hrow.1, h.same row hrow.2]
  · rw [hupdates]
    cases hrow : entry.tupleTid with
    | none => exact h.nodup
    | some tid =>
      obtain ⟨row, hmem, hrowKey, rfl⟩ := mem_of_rowTid (htid.symm.trans hrow)
      apply nodup_cons.mpr
      refine ⟨fun htwice => ?_, h.nodup⟩
      obtain ⟨row', hmem', htid', hstored⟩ := h.updated _ htwice
      rw [inj_on_of_nodup_map hstart.tids hmem' hmem htid', hrowKey] at hstored
      exact hkey hstored
  · intro tid htidMem
    rw [hupdates] at htidMem
    rcases mem_append.mp htidMem with hnew | hold
    · rw [Option.mem_toList, htid] at hnew
      obtain ⟨row, hmem, hrowKey, hrowTid⟩ := mem_of_rowTid hnew
      exact ⟨row, hmem, hrowTid, hrowKey ▸ Set.mem_insert _ _⟩
    · obtain ⟨row, hmem, hrowTid, hstored⟩ := h.updated tid hold
      exact ⟨row, hmem, hrowTid, Set.mem_insert_of_mem _ hstored⟩
  · intro key hne
    exact hides_congr fun row hrow => hother row (hrow ▸ hne)

end

section

variable {key key' : DeleteKey} {entry : Entry} {words : Bitmapset}

/-- The row that a key of the hash table stands for. -/
def DeleteKey.rowKey (key : DeleteKey) : Int × Int := (key.segno, key.firstRowNum)

theorem DeleteKey.rowKey_inj (heq : key.rowKey = key'.rowKey) : key = key' := by
  cases key
  simp only [DeleteKey.rowKey, Prod.mk.injEq, Int.natCast_inj] at heq
  rw [heq.1, heq.2]

/-- A key that a tuple id can have. -/
structure DeleteKey.Proper (key : DeleteKey) : Prop where
  segno_lt : key.segno < 2 ^ 31
  firstRowNum_lt : key.firstRowNum < 2 ^ 63
  range : ∃ n, key.firstRowNum = n * maxRange

theorem AOTupleId.deleteKey_proper (tupleId : AOTupleId) : tupleId.deleteKey.Proper where
  segno_lt := by
    show tupleId.segmentFileNum < 2 ^ 31
    rw [AOTupleId.segmentFileNum]
    omega
  firstRowNum_lt := by
    have hlt := tupleId.rowNum_lt
    have hsum := tupleId.firstRowNum_add_offset
    show tupleId.firstRowNum < 2 ^ 63
    omega
  range := ⟨tupleId.rowNum / maxRange, rfl⟩

/-- The entry is the one of this key. -/
def Entry.At (entry : Entry) (key : DeleteKey) : Prop :=
  entry.segmentFileNum = key.segno ∧ entry.firstRowNum = key.firstRowNum

theorem Entry.At.entryKey (hproper : key.Proper) (hat : entry.At key) : entryKey entry = key := by
  have hseg := hproper.segno_lt
  have hfirst := hproper.firstRowNum_lt
  rw [Visimap.entryKey, hat.1, hat.2]
  cases key
  simp only at hseg hfirst
  simp only [DeleteKey.mk.injEq]
  omega

theorem Entry.At.unique (hat : entry.At key) (hat' : entry.At key') : key = key' := by
  apply DeleteKey.rowKey_inj
  rw [DeleteKey.rowKey, DeleteKey.rowKey, ← hat.1, ← hat.2, ← hat'.1, ← hat'.2]

theorem Entry.At.coversTuple_iff (hproper : key.Proper) (hat : entry.At key) {tupleId : AOTupleId} :
    coversTuple entry tupleId = true ↔ key = tupleId.deleteKey := by
  rw [Visimap.coversTuple_iff fun _ => hproper.range.imp fun n hn => hn ▸ hat.2]
  constructor
  · intro hcovers
    exact hat.unique hcovers
  · rintro rfl
    exact hat

/-- A version of an entry in the work file. -/
structure Version where
  key : DeleteKey
  data : List Byte

def Version.record (version : Version) : List Byte := version.key.bytes ++ version.data

theorem DeleteKey.length_bytes (key : DeleteKey) : key.bytes.length = keySize := by
  rfl

theorem DeleteKey.ofBytes_bytes (hproper : key.Proper) : DeleteKey.ofBytes key.bytes = key := by
  have hseg := hproper.segno_lt
  have hfirst := hproper.firstRowNum_lt
  rw [DeleteKey.ofBytes, DeleteKey.bytes, take_left' (length_leBytes _ _),
    drop_left' (length_leBytes _ _), leNat_leBytes_of_lt (lt_of_lt_of_le hseg (by decide)),
    leNat_leBytes_of_lt (lt_of_lt_of_le hfirst (by decide))]

variable {versions : List Version} {i : Nat} {version : Version}

theorem Version.record_ne_nil (version : Version) : version.record ≠ [] := by
  intro hnil
  have hlength := congrArg List.length (append_eq_nil_iff.mp hnil).1
  cases hlength

theorem readAt_key (hversion : versions[i]? = some version) :
    readAt (image Version.record versions) (start Version.record versions i) keySize =
      version.key.bytes := by
  rw [readAt, drop_start_of_getElem? hversion, Version.record, append_assoc,
    take_left' version.key.length_bytes]

theorem readSpilled_version (hversion : versions[i]? = some version)
    (hholds : Holds version.data words) :
    readSpilled (image Version.record versions) (start Version.record versions i) =
      .ok version.data := by
  have hheader := hholds.header
  unfold dataHeaderSize at hheader
  have hread : ∀ offset count, offset + count ≤ version.data.length →
      readAt (image Version.record versions)
        (start Version.record versions i + keySize + offset) count =
        readAt version.data offset count := by
    intro offset count hinside
    rw [readAt, Nat.add_assoc, ← drop_drop, drop_start_of_getElem? hversion,
      Version.record, append_assoc, ← drop_drop, drop_left' version.key.length_bytes,
      drop_append_of_le_length (by omega),
      take_append_of_le_length (by rw [length_drop]; omega), readAt]
  have hword := hread 0 4 (by omega)
  have hsize : varsize (readAt version.data 0 4) = version.data.length := by
    rw [← hholds.varsize_eq, varsize, varsize, readAt, drop_zero, take_take]
    rfl
  have hrest := hread 4 (version.data.length - 4) (by omega)
  have hwordLength : (readAt version.data 0 4).length = 4 := length_readAt (by omega)
  have hrestLength : (readAt version.data 4 (version.data.length - 4)).length =
      version.data.length - 4 := length_readAt (by omega)
  have hwhole : readAt version.data 0 4 ++
      readAt version.data 4 (version.data.length - 4) = version.data := by
    have happend := readAt_append version.data 0 4 (version.data.length - 4)
    rw [← happend, Nat.add_sub_cancel' (by omega), readAt, drop_zero, take_length]
  rw [Nat.add_zero] at hword
  simp [readSpilled, hword, hwordLength, hsize, hrest, hrestLength, hwhole]

theorem rebuildEntry_spec (entry : Entry) (hholds : Holds entry.data words)
    (hproper : key.Proper) (tid : Option Tid) :
    rebuildEntry entry key tid = .ok { entry with
        bitmap := words
        segmentFileNum := key.segno
        firstRowNum := key.firstRowNum
        dirty := true
        tupleTid := tid } := by
  have hseg : Int.bmod key.segno (2 ^ 32) = key.segno := by
    have hlt := hproper.segno_lt
    apply Int.bmod_eq_of_le_mul_two <;> omega
  have hfirst : Int.bmod key.firstRowNum (2 ^ 64) = key.firstRowNum := by
    have hlt := hproper.firstRowNum_lt
    apply Int.bmod_eq_of_le_mul_two <;> omega
  have hread := Holds.readData
    { entry with segmentFileNum := key.segno, firstRowNum := key.firstRowNum } hholds
  unfold rebuildEntry
  rw [hseg, hfirst]
  dsimp only at hread ⊢
  rw [hread]

end

section

variable {key key' : DeleteKey} {tuple : AOTupleId}

variable (heap : Heap) (tuples : List AOTupleId) (versions : List Version) (state : DeleteState)

/-- The tuples of a range that are hidden after the calls for `tuples`. -/
def Hidden (key : Int × Int) (x : Nat) : Prop :=
  Hides heap key x ∨ ∃ tuple ∈ tuples, tuple.rowKey = key ∧ tuple.offset = x

/-- The latest version of a range: its bitmap, and the row to update with it. -/
structure Latest (key : DeleteKey) (words : Bitmapset) (tid : Option Tid) : Prop where
  length_le : words.length ≤ maxWords
  member : ∀ x, bmsIsMember x words = true ↔ Hidden heap tuples key.rowKey x
  tid_eq : tid = rowTid heap key.rowKey

/-- The hash table points at the latest version in the work file. -/
def Stashed (key : DeleteKey) (data : DeleteData) : Prop :=
  ∃ i version words, versions[i]? = some version ∧ version.key = key ∧
    start Version.record versions i = data.workFileOffset ∧
    Holds version.data words ∧ Latest heap tuples key words data.tupleTid

/-- The work file is the log of the versions, and each is known to the hash table. -/
structure SpillOk : Prop where
  file : state.workfile = image Version.record versions
  room : state.workfile.length ≤ int64Max
  proper : ∀ version ∈ versions, version.key.Proper
  holds : ∀ version ∈ versions, ∃ words, Holds version.data words
  noted : ∀ version ∈ versions, (hashFind state.dirtyEntryCache version.key).isSome

/-- The bytes that one version takes at most. -/
def maxRecord : Nat := keySize + maxDataSize

/-- The range is that of the current entry, or it has a version in the work file. -/
def DeleteState.Knows (key : DeleteKey) : Prop :=
  state.entry.At key ∨ (hashFind state.dirtyEntryCache key).isSome

/-- Between two calls. -/
structure SessionInv : Prop where
  heap_eq : state.heap = heap
  spill : SpillOk versions state
  size : state.workfile.length ≤ tuples.length * maxRecord
  current : (isValid state.entry = false ∧ state.entry.dirty = false ∧ tuples = []) ∨
    ∃ key : DeleteKey, key.Proper ∧ state.entry.At key ∧ state.entry.dirty = true ∧
      Latest heap tuples key state.entry.bitmap state.entry.tupleTid
  cached : ∀ key data, hashFind state.dirtyEntryCache key = some data →
    state.entry.At key ∨ Stashed heap tuples versions key data
  covered : ∀ tuple ∈ tuples, state.Knows tuple.deleteKey

/-- Within a call, when the current entry may be given up. -/
structure SpilledInv : Prop where
  heap_eq : state.heap = heap
  spill : SpillOk versions state
  size : state.workfile.length ≤ (tuples.length + 1) * maxRecord
  cached : ∀ key data, hashFind state.dirtyEntryCache key = some data →
    Stashed heap tuples versions key data
  covered : ∀ tuple ∈ tuples, (hashFind state.dirtyEntryCache tuple.deleteKey).isSome

/-- Within a call, when the latest version of the tuple's range is the current entry. -/
structure Arrived (tuple : AOTupleId) (state : DeleteState) : Prop where
  heap_eq : state.heap = heap
  spill : SpillOk versions state
  size : state.workfile.length ≤ (tuples.length + 1) * maxRecord
  at_key : state.entry.At tuple.deleteKey
  latest : Latest heap tuples tuple.deleteKey state.entry.bitmap state.entry.tupleTid
  dirty : ∀ other ∈ tuples, other.deleteKey = tuple.deleteKey → state.entry.dirty = true
  cached : ∀ key data, hashFind state.dirtyEntryCache key = some data →
    state.entry.At key ∨ Stashed heap tuples versions key data
  covered : ∀ other ∈ tuples, state.Knows other.deleteKey

variable {heap tuples versions state}

theorem sessionInv_init (heap : Heap) : SessionInv heap [] [] (deleteInit heap) where
  heap_eq := rfl
  spill := ⟨rfl, Nat.zero_le _, by simp, by simp, by simp⟩
  size := Nat.zero_le _
  current := .inl ⟨rfl, rfl, rfl⟩
  cached := by
    intro key data hlookup
    cases hlookup
  covered := by simp

theorem Stashed.append {data : DeleteData} (h : Stashed heap tuples versions key data)
    (version : Version) : Stashed heap tuples (versions ++ [version]) key data := by
  obtain ⟨i, old, words, hold, hkey, hstart, hholds, hlatest⟩ := h
  have hi := (List.getElem?_eq_some_iff.mp hold).1
  refine ⟨i, old, words, ?_, hkey, ?_, hholds, hlatest⟩
  · rw [getElem?_append_left hi, hold]
  · rw [start_append _ _ (le_of_lt hi), hstart]

theorem Latest.cons_of_ne {words : Bitmapset} {tid : Option Tid}
    (h : Latest heap tuples key words tid) (hne : tuple.deleteKey ≠ key) :
    Latest heap (tuple :: tuples) key words tid where
  length_le := h.length_le
  tid_eq := h.tid_eq
  member := by
    intro x
    have hkey : tuple.rowKey ≠ key.rowKey := fun heq => hne (DeleteKey.rowKey_inj heq)
    rw [h.member, Hidden, Hidden]
    simp [hkey]

theorem hashFind_hashEnter (cache : DirtyEntryCache) (key : DeleteKey) (data : DeleteData) :
    hashFind (hashEnter cache key data) key = some data :=
  AList.lookup_insert cache

theorem hashFind_hashEnter_of_ne (hne : key' ≠ key) (cache : DirtyEntryCache) (data : DeleteData) :
    hashFind (hashEnter cache key data) key' = hashFind cache key' :=
  AList.lookup_insert_ne hne

theorem isSome_hashFind_hashEnter {cache : DirtyEntryCache} (data : DeleteData)
    (hknown : key' = key ∨ (hashFind cache key').isSome) :
    (hashFind (hashEnter cache key data) key').isSome := by
  by_cases heq : key' = key
  · rw [heq, hashFind_hashEnter]
    rfl
  · rw [hashFind_hashEnter_of_ne heq]
    exact hknown.resolve_left heq

/-- The dirty entry of the session is appended to the work file. -/
theorem stash_spec (h : SessionInv heap tuples versions state) (hdirty : state.entry.dirty = true) :
    (stash state = .error .workFileFull ∧ int64Max < (tuples.length + 1) * maxRecord) ∨
      ∃ after versions', stash state = .ok after ∧
        SpilledInv heap tuples versions' after ∧ after.entry.dirty = false ∧
        ∀ key, (hashFind after.dirtyEntryCache key).isSome → state.Knows key := by
  rcases h.current with ⟨-, hclean, -⟩ | ⟨key, hproper, hat, -, hlatest⟩
  · rw [hdirty] at hclean
    cases hclean
  obtain ⟨data, hwrite, hholds, hdata⟩ := writeData_spec hlatest.length_le
  have hrecord : (key.bytes ++ data).length ≤ maxRecord := by
    rw [length_append, key.length_bytes, maxRecord]
    omega
  have hgrown : state.workfile.length + (key.bytes ++ data).length ≤
      (tuples.length + 1) * maxRecord := by
    have hsize := h.size
    rw [Nat.succ_mul]
    omega
  simp only [stash, hwrite, hat.entryKey hproper, bind, Except.bind]
  split
  · rename_i hfull
    exact .inl ⟨rfl, lt_of_lt_of_le hfull hgrown⟩
  · right
    refine ⟨_, versions ++ [⟨key, data⟩], rfl, ⟨h.heap_eq, ⟨?_, ?_,
      forall_mem_append.mpr ⟨h.spill.proper, forall_mem_singleton.mpr hproper⟩,
      forall_mem_append.mpr ⟨h.spill.holds, forall_mem_singleton.mpr ⟨_, hholds⟩⟩,
      ?_⟩, ?_, ?_, ?_⟩, rfl, ?_⟩
    · rw [image_snoc, h.spill.file]
      rfl
    · rw [length_append]
      omega
    · intro version hversion
      apply isSome_hashFind_hashEnter
      rcases mem_append.mp hversion with hold | hnew
      · exact .inr (h.spill.noted version hold)
      · exact .inl (congrArg Version.key (mem_singleton.mp hnew))
    · rw [length_append]
      exact hgrown
    · intro key' data' hlookup
      by_cases heq : key' = key
      · subst heq
        rw [hashFind_hashEnter, Option.some.injEq] at hlookup
        refine ⟨versions.length, ⟨key', data⟩, _, by simp, rfl, ?_, hholds, ?_⟩
        · rw [← hlookup, start_append _ _ (le_refl _), start_length, h.spill.file]
        · exact hlookup ▸ hlatest
      · rw [hashFind_hashEnter_of_ne heq] at hlookup
        rcases h.cached key' data' hlookup with hat' | hstashed
        · exact absurd (hat'.unique hat) heq
        · exact hstashed.append _
    · intro tuple htuple
      apply isSome_hashFind_hashEnter
      rcases h.covered tuple htuple with hat' | hsome
      · exact .inl (hat'.unique hat)
      · exact .inr hsome
    · intro key' hsome
      by_cases heq : key' = key
      · exact .inl (heq ▸ hat)
      · exact .inr (hashFind_hashEnter_of_ne heq _ _ ▸ hsome)

theorem SessionInv.spilled (h : SessionInv heap tuples versions state)
    (hclean : state.entry.dirty = false) : SpilledInv heap tuples versions state := by
  rcases h.current with ⟨hinvalid, -, hnone⟩ | ⟨key, -, -, hdirty, -⟩
  · have hnot : ∀ key : DeleteKey, ¬ state.entry.At key := by
      intro key hat
      rw [isValid, hat.1, hat.2] at hinvalid
      simp at hinvalid
    refine ⟨h.heap_eq, h.spill, ?_, ?_, ?_⟩
    · exact le_trans h.size (Nat.mul_le_mul_right _ (Nat.le_succ _))
    · exact fun key data hlookup => (h.cached key data hlookup).resolve_left (hnot key)
    · exact fun tuple htuple => (h.covered tuple htuple).resolve_left (hnot _)
  · rw [hclean] at hdirty
    cases hdirty

/-- The latest version of the tuple's range becomes the current entry. -/
theorem deleteFind_spec (htable : TableOk heap) (h : SpilledInv heap tuples versions state)
    (tuple : AOTupleId) :
    ∃ entry, deleteFind state tuple = .ok { state with entry := entry } ∧
      Arrived heap tuples versions tuple { state with entry := entry } ∧
      (entry.dirty = state.entry.dirty ∨
        (hashFind state.dirtyEntryCache tuple.deleteKey).isSome) := by
  have hspill : ∀ entry, SpillOk versions { state with entry := entry } := fun _ =>
    { h.spill with }
  unfold deleteFind
  cases hlookup : hashFind state.dirtyEntryCache tuple.deleteKey with
  | some data =>
    obtain ⟨i, version, words, hversion, hkey, hstart, hholds, hlatest⟩ := h.cached _ _ hlookup
    have hread := readAt_key hversion
    have hspilled := readSpilled_version hversion hholds
    rw [hstart, ← h.spill.file] at hread hspilled
    have hrebuild := rebuildEntry_spec { state.entry with data := version.data }
      hholds tuple.deleteKey_proper data.tupleTid
    have hlength : version.key.bytes.length = keySize := version.key.length_bytes
    refine ⟨⟨version.data, words, tuple.segmentFileNum, tuple.firstRowNum, true,
      data.tupleTid⟩, ?_, ⟨h.heap_eq, hspill _, h.size, ⟨rfl, rfl⟩, hlatest, fun _ _ _ => rfl,
      fun _ _ hsome => .inr (h.cached _ _ hsome),
      fun _ hother => .inr (h.covered _ hother)⟩, .inr rfl⟩
    simp only [unstash, hread, hspilled, hlength, hrebuild, ne_eq, not_true_eq_false, if_false,
      bind, Except.bind, pure, Except.pure]
    rfl
  | none =>
    obtain ⟨found, hfind, hseg, hfirst, hdirty, htid, hlength, hmember⟩ :=
      visimapFind_spec htable state.entry tuple
    -- no call of the session was for this range
    have hnew : ∀ other ∈ tuples, other.deleteKey ≠ tuple.deleteKey := by
      intro other hother hkey
      have hsome := h.covered other hother
      rw [hkey, hlookup] at hsome
      cases hsome
    refine ⟨found, ?_, ⟨h.heap_eq, hspill _, h.size, ⟨hseg, hfirst⟩,
      ⟨hlength, fun x => ?_, htid⟩, fun other hother hkey => absurd hkey (hnew other hother),
      fun _ _ hsome => .inr (h.cached _ _ hsome),
      fun _ hother => .inr (h.covered _ hother)⟩, .inl hdirty⟩
    · rw [h.heap_eq, hfind]
      rfl
    · rw [hmember]
      refine ⟨.inl, fun hhidden => hhidden.resolve_right ?_⟩
      rintro ⟨other, hother, hkey, -⟩
      exact hnew other hother (DeleteKey.rowKey_inj hkey)

/-- Hiding a tuple of the current entry's range. -/
theorem sessionInv_hide (h : Arrived heap tuples versions tuple state) :
    ∃ result entry, hideTuple state.entry tuple = .ok (result, entry) ∧ entry.At tuple.deleteKey ∧
      Answers (Hidden heap tuples tuple.rowKey tuple.offset) (state.entry.dirty = true) result ∧
      SessionInv heap (tuple :: tuples) versions { state with entry := entry } := by
  obtain ⟨result, bitmap, hhide, hlength, hmember, hanswer⟩ :=
    hideTuple_spec h.at_key.2 h.latest.length_le
  rw [h.latest.member] at hanswer
  refine ⟨result, _, hhide, h.at_key, hanswer, h.heap_eq, { h.spill with }, h.size,
    .inr ⟨tuple.deleteKey, tuple.deleteKey_proper, h.at_key, rfl, ?_⟩, ?_, ?_⟩
  · refine ⟨hlength, fun x => ?_, h.latest.tid_eq⟩
    rw [hmember, h.latest.member, Hidden, Hidden]
    constructor
    · rintro (hnew | hold | ⟨other, hother, hplace⟩)
      · exact .inr ⟨tuple, mem_cons_self, rfl, hnew.symm⟩
      · exact .inl hold
      · exact .inr ⟨other, mem_cons_of_mem _ hother, hplace⟩
    · rintro (hold | ⟨other, hother, hkey, hplace⟩)
      · exact .inr (.inl hold)
      · rcases mem_cons.mp hother with rfl | hother
        · exact .inl hplace.symm
        · exact .inr (.inr ⟨other, hother, hkey, hplace⟩)
  · intro key data hlookup
    by_cases heq : tuple.deleteKey = key
    · exact .inl (heq ▸ h.at_key)
    · rcases h.cached key data hlookup with hat' | ⟨i, version, words, hversion, hkey, hstart,
        hholds, hold⟩
      · exact absurd (h.at_key.unique hat') heq
      · exact .inr ⟨i, version, words, hversion, hkey, hstart, hholds, hold.cons_of_ne heq⟩
  · intro other hother
    rcases mem_cons.mp hother with rfl | hother
    · exact .inl h.at_key
    · exact h.covered other hother

/-- What a call does before it hides the tuple. -/
def arrive (state : DeleteState) (tupleId : AOTupleId) : Except Error DeleteState :=
  if coversTuple state.entry tupleId then .ok state
  else (if state.entry.dirty then stash state else .ok state) >>= (deleteFind · tupleId)

theorem deleteHide_eq (state : DeleteState) (tupleId : AOTupleId) : deleteHide state tupleId = (do
      let state ← arrive state tupleId
      let (result, entry) ← hideTuple state.entry tupleId
      pure (result, { state with entry := entry })) := by
  unfold deleteHide arrive
  cases coversTuple state.entry tupleId with
  | true => rfl
  | false => cases state.entry.dirty <;> cases stash state <;> rfl

section

variable (htable : TableOk heap) (h : SessionInv heap tuples versions state) (tuple : AOTupleId)

include htable h

/-- The latest version is loaded, or the work file is full. -/
theorem arrive_spec :
    (arrive state tuple = .error .workFileFull ∧ int64Max < (tuples.length + 1) * maxRecord) ∨
      ∃ after versions', arrive state tuple = .ok after ∧
        Arrived heap tuples versions' tuple after ∧
        (after.entry.dirty = true → state.Knows tuple.deleteKey) ∧
        ∀ key, (hashFind after.dirtyEntryCache key).isSome → state.Knows key := by
  unfold arrive
  cases hcovers : coversTuple state.entry tuple with
  | true =>
    have hsize := le_trans h.size (Nat.mul_le_mul_right maxRecord (Nat.le_succ _))
    rcases h.current with ⟨hinvalid, -, -⟩ | ⟨key, hproper, hat, hdirty, hlatest⟩
    · rw [coversTuple, hinvalid] at hcovers
      cases hcovers
    · obtain rfl := (hat.coversTuple_iff hproper).mp hcovers
      exact .inr ⟨state, versions, rfl, ⟨h.heap_eq, h.spill, hsize, hat, hlatest,
        fun _ _ _ => hdirty, h.cached, h.covered⟩, fun _ => .inl hat, fun _ => .inr⟩
  | false =>
    cases hdirty : state.entry.dirty with
    | false =>
      obtain ⟨entry, hfind, harrived, hsame⟩ := deleteFind_spec htable (h.spilled hdirty) tuple
      refine .inr ⟨_, versions, hfind, harrived, fun hnow => ?_, fun _ => .inr⟩
      exact .inr (hsame.resolve_left (by rw [hdirty, hnow]; decide))
    | true =>
      rcases stash_spec h hdirty with ⟨hfull, hsize⟩ | ⟨spilled, versions', hstash, hspilled,
        hclean, hknown⟩
      · refine .inl ⟨?_, hsize⟩
        simp [hfull, bind, Except.bind]
      · obtain ⟨entry, hfind, harrived, hsame⟩ := deleteFind_spec htable hspilled tuple
        refine .inr ⟨_, versions', ?_, harrived, fun hnow => ?_, hknown⟩
        · simp only [hstash, hfind, bind, Except.bind, Bool.false_eq_true, if_false, if_true]
        · exact hknown _ (hsame.resolve_left (by rw [hclean, hnow]; decide))

/-- One call keeps the invariant, or the work file is full. -/
theorem deleteHide_spec :
    (deleteHide state tuple = .error .workFileFull ∧ int64Max < (tuples.length + 1) * maxRecord) ∨
      ∃ result after versions', deleteHide state tuple = .ok (result, after) ∧
        SessionInv heap (tuple :: tuples) versions' after := by
  rw [deleteHide_eq]
  rcases arrive_spec htable h tuple with ⟨hfull, hsize⟩ | ⟨after, versions', harrive,
    harrived, -, -⟩
  · exact .inl ⟨by rw [hfull]; rfl, hsize⟩
  · obtain ⟨result, entry, hhide, -, -, hinv⟩ := sessionInv_hide harrived
    refine .inr ⟨result, _, versions', ?_, hinv⟩
    simp [harrive, hhide, bind, Except.bind, pure, Except.pure]

end

/-- All calls of a session, by induction over the calls that are left. -/
theorem hideAll_spec (htable : TableOk heap) (more : List AOTupleId) :
    ∀ {tuples : List AOTupleId} {versions : List Version} {state : DeleteState},
      SessionInv heap tuples versions state → (hideAll state more = .error .workFileFull ∧
          int64Max < (more.length + tuples.length) * maxRecord) ∨
        ∃ after versions', hideAll state more = .ok after ∧
          SessionInv heap (more.reverse ++ tuples) versions' after := by
  induction more with
  | nil => exact fun {tuples versions state} h => .inr ⟨state, versions, rfl, h⟩
  | cons tuple more ih =>
    intro tuples versions state h
    rcases deleteHide_spec htable h tuple with ⟨hfull, hsize⟩ | ⟨result, after, versions',
      hhide, hinv⟩
    · refine .inl ⟨?_, lt_of_lt_of_le hsize (Nat.mul_le_mul_right _ ?_)⟩
      · simp only [hideAll, hfull, bind, Except.bind]
      · rw [length_cons]
        omega
    · simp only [hideAll, hhide, bind, Except.bind]
      rcases ih hinv with ⟨hfull, hsize⟩ | ⟨final, versions'', hrun, hfinal⟩
      · refine .inl ⟨hfull, ?_⟩
        rw [length_cons] at hsize ⊢
        rwa [Nat.add_right_comm]
      · refine .inr ⟨final, versions'', hrun, ?_⟩
        rwa [reverse_cons, append_assoc, singleton_append]

end

end Greenplum.Visimap
