/-
The redo of distributed commits (cdbtm.c): the array of the transactions that are
committed and not forgotten yet, and the file in which a server in utility mode keeps
the records for the next dispatcher.  Both ways lead to the same array.
-/
import Greenplum.ByteNumbers
import Greenplum.IndexedCells
import Mathlib.Data.Finset.Card

namespace Greenplum.DtmRedo

open ByteNumbers (leBytes leNat)
open List
open IndexedCells (swapDelete swapDelete_perm)

abbrev Byte := BitVec 8

/-- `TMGIDSIZE`. -/
def tmGidSize : Nat := 22

/-- `TMGXACT_LOG` as it lies in memory; the padding aligns `gxid`. -/
structure TMGXACTLOG where
  gid : List Byte
  padding : List Byte
  gxid : BitVec 32
  gid_length : gid.length = tmGidSize
  padding_length : padding.length = 2
deriving DecidableEq

/-- The string that `gid` holds, up to its NUL or to the end of the array. -/
def TMGXACTLOG.name (log : TMGXACTLOG) : List Byte := log.gid.takeWhile (· ≠ 0)

/-- `strlen` of the identifier.  Without a NUL in the array the count goes on behind
it, and all that matters is that it has reached `TMGIDSIZE` then. -/
def TMGXACTLOG.strlen (log : TMGXACTLOG) : Nat := log.name.length

/-- The padding that aligns `gxact_log` in `TMGXACT_UTILITY_MODE_REDO`; the struct is
on the stack and these bytes of it are never set. -/
abbrev Garbage := { bytes : List Byte // bytes.length = 3 }

structure UtilityModeRedo where
  committed : Bool
  padding : Garbage
  gxactLog : TMGXACTLOG
deriving DecidableEq

def sizeofLog : Nat := tmGidSize + 2 + 4

def sizeofRedo : Nat := 4 + sizeofLog

def logBytes (log : TMGXACTLOG) : List Byte :=
  log.gid ++ (log.padding ++ leBytes 4 log.gxid.toNat)

def redoBytes (redo : UtilityModeRedo) : List Byte :=
  (if redo.committed then 1 else 0) :: (redo.padding.1 ++ logBytes redo.gxactLog)

def logOfBytes (bytes : List Byte) (hsize : bytes.length = sizeofLog) : TMGXACTLOG where
  gid := bytes.take tmGidSize
  padding := (bytes.drop tmGidSize).take 2
  gxid := BitVec.ofNat 32 (leNat (bytes.drop (tmGidSize + 2)))
  gid_length := by
    rw [length_take, hsize]
    rfl
  padding_length := by
    rw [length_take, length_drop, hsize]
    rfl

def redoOfBytes (bytes : List Byte) (hsize : bytes.length = sizeofRedo) : UtilityModeRedo where
  committed := bytes.headD 0 != 0
  padding := ⟨(bytes.drop 1).take 3, by
    rw [length_take, length_drop, hsize]
    rfl⟩
  gxactLog := logOfBytes (bytes.drop 4) (by
    rw [length_drop, hsize]
    rfl)

inductive GpRole where
  | utility
  | dispatch
  | execute
deriving Repr, DecidableEq

/-- What stops the redo: the PANIC for an identifier that is too long, the FATAL for
a full array, and the errors of the redo file. -/
inductive RedoError where
  | identifierTooLong (length : Nat)
  | limitReached (maxTmGxacts : Nat)
  | couldNotWrite
  | badRedoLength (expected found : Nat)
  | unfinished
deriving Repr, DecidableEq

/-- The committed transactions in shared memory, and the content of the redo file if
there is one. -/
structure RedoState where
  shmCommittedGxactArray : List TMGXACTLOG
  redoFile : Option (List Byte)
deriving DecidableEq

section

variable (maxTmGxacts : Nat) (garbage : Nat → Garbage) (role : GpRole) (state : RedoState)

def utilityModeFindOrCreateDtmRedoFile : RedoState :=
  if role ≠ .utility then state
  else { state with redoFile := some (state.redoFile.getD []) }

/-- The record is written behind the ones that are in the file. -/
def utilityModeSaveRedo (committed : Bool) (log : TMGXACTLOG) (state : RedoState) :
    Except RedoError RedoState :=
  match state.redoFile with
  | none => .error .couldNotWrite
  | some file =>
    .ok { state with
      redoFile := some (file ++ redoBytes ⟨committed, garbage file.length, log⟩) }

def redoDistributedCommitRecord (log : TMGXACTLOG) : Except RedoError RedoState :=
  if log.strlen ≥ tmGidSize then .error (.identifierTooLong log.strlen)
  else if role = .utility then utilityModeSaveRedo garbage true log state
  else if state.shmCommittedGxactArray.any (fun entry => log.name = entry.name) then .ok state
  else if state.shmCommittedGxactArray.length ≥ maxTmGxacts then
    .error (.limitReached maxTmGxacts)
  else
    .ok { state with shmCommittedGxactArray := state.shmCommittedGxactArray ++ [log] }

/-- The last entry of the array takes the place of the forgotten one. -/
def redoDistributedForgetCommitRecord (log : TMGXACTLOG) : Except RedoError RedoState :=
  if role = .utility then utilityModeSaveRedo garbage false log state
  else
    match state.shmCommittedGxactArray.findIdx? (fun entry => log.name = entry.name) with
    | none => .ok state
    | some i =>
      .ok { state with shmCommittedGxactArray := swapDelete state.shmCommittedGxactArray i }

def redoDtxCheckPoint (committedGxactArray : List TMGXACTLOG) : Except RedoError RedoState :=
  committedGxactArray.foldlM (redoDistributedCommitRecord maxTmGxacts garbage role) state

/-- A record of the log that is redone. -/
inductive RedoRecord where
  | checkPoint (committedGxactArray : List TMGXACTLOG)
  | distributedCommit (log : TMGXACTLOG)
  | distributedForget (log : TMGXACTLOG)
deriving DecidableEq

def redoRecord : RedoRecord → Except RedoError RedoState
  | .checkPoint committed => redoDtxCheckPoint maxTmGxacts garbage role state committed
  | .distributedCommit log => redoDistributedCommitRecord maxTmGxacts garbage role state log
  | .distributedForget log => redoDistributedForgetCommitRecord garbage role state log

def redoRecords (records : List RedoRecord) : Except RedoError RedoState :=
  records.foldlM (redoRecord maxTmGxacts garbage role) state

/-- The record that was read from the redo file. -/
def replayRedo (redo : UtilityModeRedo) : Except RedoError RedoState :=
  if redo.committed then
    redoDistributedCommitRecord maxTmGxacts garbage role state redo.gxactLog
  else redoDistributedForgetCommitRecord garbage role state redo.gxactLog

/-- The loop of `ReplayRedoFromUtilityMode` over what is left of the file; a read
delivers the next bytes, fewer than asked for only at the end of the file. -/
def replayLoop : Nat → List Byte → RedoState → Except RedoError RedoState
  | 0, _, _ => .error .unfinished
  | fuel + 1, rest, state =>
    let buffer := rest.take sizeofRedo
    if buffer.length = 0 then .ok state
    else if hsize : buffer.length = sizeofRedo then do
      let state ← replayRedo maxTmGxacts garbage role state (redoOfBytes buffer hsize)
      replayLoop fuel (rest.drop sizeofRedo) state
    else .error (.badRedoLength sizeofRedo buffer.length)

def replayRedoFromUtilityMode : Except RedoError RedoState :=
  match state.redoFile with
  | none => .ok state
  | some file => replayLoop maxTmGxacts garbage role (file.length + 1) file state

end

theorem length_logBytes (log : TMGXACTLOG) : (logBytes log).length = sizeofLog := by
  unfold logBytes
  rw [length_append, length_append, log.gid_length, log.padding_length, ByteNumbers.length_leBytes]
  rfl

theorem length_redoBytes (redo : UtilityModeRedo) : (redoBytes redo).length = sizeofRedo := by
  unfold redoBytes
  rw [length_cons, length_append, redo.padding.2, length_logBytes]
  rfl

theorem logOfBytes_logBytes (log : TMGXACTLOG) (hsize : (logBytes log).length = sizeofLog) :
    logOfBytes (logBytes log) hsize = log := by
  obtain ⟨gid, padding, gxid, hgid, hpadding⟩ := log
  have hback : (gid ++ (padding ++ leBytes 4 gxid.toNat)).drop (tmGidSize + 2) =
      leBytes 4 gxid.toNat := by
    rw [← append_assoc]
    exact drop_left' (by rw [length_append, hgid, hpadding])
  unfold logOfBytes logBytes
  rw [TMGXACTLOG.mk.injEq]
  refine ⟨take_left' hgid, ?_, ?_⟩
  · rw [drop_left' hgid, take_left' hpadding]
  · rw [hback, ByteNumbers.ofNat_leNat_leBytes (by decide)]

theorem redoOfBytes_redoBytes (redo : UtilityModeRedo)
    (hsize : (redoBytes redo).length = sizeofRedo) : redoOfBytes (redoBytes redo) hsize = redo := by
  obtain ⟨committed, ⟨padding, hpadding⟩, log⟩ := redo
  have hlog : (redoBytes ⟨committed, ⟨padding, hpadding⟩, log⟩).drop 4 = logBytes log :=
    drop_left' hpadding
  unfold redoOfBytes
  rw [UtilityModeRedo.mk.injEq]
  refine ⟨?_, Subtype.ext (take_left' hpadding), ?_⟩
  · cases committed <;> rfl
  · simp only [hlog]
    exact logOfBytes_logBytes log _

section

variable (maxTmGxacts : Nat) (garbage : Nat → Garbage) (role : GpRole)

/-- The commits and forgets that a record stands for, each with its flag. -/
def RedoRecord.entries : RedoRecord → List (Bool × TMGXACTLOG)
  | .checkPoint committed => committed.map fun log => (true, log)
  | .distributedCommit log => [(true, log)]
  | .distributedForget log => [(false, log)]

def redoEntry (state : RedoState) (entry : Bool × TMGXACTLOG) : Except RedoError RedoState :=
  if entry.1 then redoDistributedCommitRecord maxTmGxacts garbage role state entry.2
  else redoDistributedForgetCommitRecord garbage role state entry.2

theorem redoRecord_eq_entries (state : RedoState) (record : RedoRecord) :
    redoRecord maxTmGxacts garbage role state record =
      record.entries.foldlM (redoEntry maxTmGxacts garbage role) state := by
  cases record with
  | checkPoint committed =>
    unfold RedoRecord.entries
    rw [foldlM_map]
    rfl
  | distributedCommit log => exact (bind_pure _).symm
  | distributedForget log => exact (bind_pure _).symm

theorem redoRecords_eq_entries (records : List RedoRecord) :
    ∀ state, redoRecords maxTmGxacts garbage role state records =
      (records.flatMap RedoRecord.entries).foldlM (redoEntry maxTmGxacts garbage role) state := by
  induction records with
  | nil => exact fun _ => rfl
  | cons record records ih =>
    intro state
    have hstep : redoRecords maxTmGxacts garbage role state (record :: records) =
        redoRecord maxTmGxacts garbage role state record >>= fun state =>
          redoRecords maxTmGxacts garbage role state records := foldlM_cons
    rw [hstep, flatMap_cons, foldlM_append, redoRecord_eq_entries]
    congr
    funext state
    exact ih state

end

section

variable (maxTmGxacts : Nat) (garbage : Nat → Garbage)

/-- The identifiers of the commits fit with their NUL. -/
def ShortNames (entries : List (Bool × TMGXACTLOG)) : Prop :=
  ∀ entry ∈ entries, entry.1 = true → entry.2.strlen < tmGidSize

instance (entries : List (Bool × TMGXACTLOG)) : Decidable (ShortNames entries) :=
  inferInstanceAs (Decidable (∀ entry ∈ entries, entry.1 = true → entry.2.strlen < tmGidSize))

def UtilityModeRedo.entry (redo : UtilityModeRedo) : Bool × TMGXACTLOG :=
  (redo.committed, redo.gxactLog)

/-- In utility mode a record is only written to the file. -/
theorem redoEntry_utility {entry : Bool × TMGXACTLOG}
    (hshort : entry.1 = true → entry.2.strlen < tmGidSize) (array : List TMGXACTLOG)
    (file : List Byte) :
    redoEntry maxTmGxacts garbage .utility ⟨array, some file⟩ entry =
      .ok ⟨array, some (file ++ redoBytes ⟨entry.1, garbage file.length, entry.2⟩)⟩ := by
  obtain ⟨committed, log⟩ := entry
  cases committed with
  | true =>
    unfold redoEntry redoDistributedCommitRecord
    rw [if_pos rfl, if_neg (not_le.mpr (hshort rfl)), if_pos rfl]
    rfl
  | false => rfl

theorem redoEntries_utility (entries : List (Bool × TMGXACTLOG)) (array : List TMGXACTLOG) :
    ∀ file, ShortNames entries → ∃ redos : List UtilityModeRedo,
      redos.map UtilityModeRedo.entry = entries ∧
      entries.foldlM (redoEntry maxTmGxacts garbage .utility) ⟨array, some file⟩ =
        .ok ⟨array, some (file ++ redos.flatMap redoBytes)⟩ := by
  induction entries with
  | nil =>
    intro file _
    refine ⟨[], rfl, ?_⟩
    rw [flatMap_nil, append_nil]
    rfl
  | cons entry entries ih =>
    intro file hshort
    let redo : UtilityModeRedo := ⟨entry.1, garbage file.length, entry.2⟩
    obtain ⟨redos, hredos, hrest⟩ :=
      ih (file ++ redoBytes redo) fun other hother => hshort other (mem_cons_of_mem _ hother)
    have hfirst := redoEntry_utility maxTmGxacts garbage (hshort entry mem_cons_self) array file
    refine ⟨redo :: redos, ?_, ?_⟩
    · rw [map_cons, hredos]
      rfl
    · rw [foldlM_cons, hfirst, flatMap_cons, ← append_assoc]
      exact hrest

/-- The file is replayed record by record. -/
theorem replayLoop_flatMap (role : GpRole) (redos : List UtilityModeRedo) :
    ∀ fuel state, redos.length < fuel →
      replayLoop maxTmGxacts garbage role fuel (redos.flatMap redoBytes) state =
        (redos.map UtilityModeRedo.entry).foldlM (redoEntry maxTmGxacts garbage role) state := by
  induction redos with
  | nil =>
    intro fuel state hfuel
    obtain ⟨fuel, rfl⟩ := Nat.exists_eq_succ_of_ne_zero (ne_of_gt hfuel)
    rfl
  | cons redo redos ih =>
    intro fuel state hfuel
    obtain ⟨fuel, rfl⟩ := Nat.exists_eq_succ_of_ne_zero (ne_of_gt (Nat.zero_lt_of_lt hfuel))
    have hsize := length_redoBytes redo
    have htake : (redoBytes redo ++ redos.flatMap redoBytes).take sizeofRedo = redoBytes redo :=
      take_left' hsize
    have hdrop : (redoBytes redo ++ redos.flatMap redoBytes).drop sizeofRedo =
        redos.flatMap redoBytes := drop_left' hsize
    have hpositive : ¬ (redoBytes redo).length = 0 := by
      rw [hsize]
      decide
    rw [flatMap_cons, map_cons, foldlM_cons]
    unfold replayLoop
    simp only [htake, hdrop]
    rw [if_neg hpositive, dif_pos hsize, redoOfBytes_redoBytes]
    congr
    funext next
    exact ih fuel next (Nat.lt_of_succ_lt_succ hfuel)

theorem length_lt_flatMap_redoBytes (redos : List UtilityModeRedo) :
    redos.length < (redos.flatMap redoBytes).length + 1 := by
  have hcount : (redos.flatMap redoBytes).length = redos.length * sizeofRedo := by
    rw [length_flatMap, map_congr_left fun redo _ => length_redoBytes redo,
      map_const', sum_replicate_nat]
  have hsize : sizeofRedo = 32 := rfl
  rw [hsize] at hcount
  omega

end

section

variable (maxTmGxacts : Nat) (garbage : Nat → Garbage) {array : List TMGXACTLOG}
  {names : Finset (List Byte)}

/-- The identifiers that are left after a commit or a forget. -/
def afterEntry (names : Finset (List Byte)) (entry : Bool × TMGXACTLOG) : Finset (List Byte) :=
  if entry.1 then insert entry.2.name names else names.erase entry.2.name

/-- The identifiers that are committed and not forgotten by some records. -/
def pending (records : List RedoRecord) : Finset (List Byte) :=
  (records.flatMap RedoRecord.entries).foldl afterEntry ∅

/-- The array holds one entry for each of the identifiers. -/
structure Holds (array : List TMGXACTLOG) (names : Finset (List Byte)) : Prop where
  nodup : (array.map TMGXACTLOG.name).Nodup
  names_eq : (array.map TMGXACTLOG.name).toFinset = names

theorem Holds.mem_iff (h : Holds array names) (name : List Byte) :
    name ∈ names ↔ ∃ entry ∈ array, entry.name = name := by
  rw [← h.names_eq, mem_toFinset, mem_map]

theorem Holds.length_eq (h : Holds array names) : array.length = names.card := by
  rw [← h.names_eq, toFinset_card_of_nodup h.nodup, length_map]

variable {array : List TMGXACTLOG} {names : Finset (List Byte)} {file : Option (List Byte)}

theorem redoDistributedCommitRecord_holds (h : Holds array names) {log : TMGXACTLOG}
    (hshort : log.strlen < tmGidSize) (hcard : (insert log.name names).card ≤ maxTmGxacts) :
    ∃ next, redoDistributedCommitRecord maxTmGxacts garbage .dispatch ⟨array, file⟩ log =
        .ok ⟨next, file⟩ ∧ Holds next (insert log.name names) := by
  unfold redoDistributedCommitRecord
  rw [if_neg (not_le.mpr hshort), if_neg GpRole.noConfusion]
  by_cases hold : log.name ∈ names
  · have hany : array.any (fun entry => log.name = entry.name) = true := by
      obtain ⟨entry, hentry, hname⟩ := (h.mem_iff _).mp hold
      exact any_eq_true.mpr ⟨entry, hentry, decide_eq_true hname.symm⟩
    rw [if_pos hany, Finset.insert_eq_of_mem hold]
    exact ⟨array, rfl, h⟩
  · have hnone : ¬ array.any (fun entry => log.name = entry.name) = true := by
      intro hany
      obtain ⟨entry, hentry, hname⟩ := any_eq_true.mp hany
      exact hold ((h.mem_iff _).mpr ⟨entry, hentry, (of_decide_eq_true hname).symm⟩)
    have hroom : ¬ array.length ≥ maxTmGxacts := by
      rw [Finset.card_insert_of_notMem hold, ← h.length_eq] at hcard
      omega
    rw [if_neg hnone, if_neg hroom]
    refine ⟨array ++ [log], rfl, ?_, ?_⟩
    · rw [map_append, nodup_append]
      refine ⟨h.nodup, nodup_singleton _, ?_⟩
      intro name hname other hother heq
      rw [map_singleton, mem_singleton] at hother
      rw [heq, hother, ← mem_toFinset, h.names_eq] at hname
      exact hold hname
    · rw [map_append, toFinset_append, h.names_eq, map_singleton]
      simp

theorem redoDistributedForgetCommitRecord_holds (h : Holds array names) (log : TMGXACTLOG) :
    ∃ next, redoDistributedForgetCommitRecord garbage .dispatch ⟨array, file⟩ log =
        .ok ⟨next, file⟩ ∧ Holds next (names.erase log.name) := by
  unfold redoDistributedForgetCommitRecord
  cases hfind : array.findIdx? (fun entry => log.name = entry.name) with
  | none =>
    have hnot : log.name ∉ names := by
      intro hmem
      obtain ⟨entry, hentry, hname⟩ := (h.mem_iff _).mp hmem
      have hno := findIdx?_eq_none_iff.mp hfind entry hentry
      exact of_decide_eq_false hno hname.symm
    rw [Finset.erase_eq_of_notMem hnot]
    exact ⟨array, rfl, h⟩
  | some i =>
    obtain ⟨hi, hname, -⟩ := findIdx?_eq_some_iff_getElem.mp hfind
    have hname : log.name = array[i].name := of_decide_eq_true hname
    have hperm := (swapDelete_perm (getElem?_eq_getElem hi)).map TMGXACTLOG.name
    rw [map_cons, ← hname] at hperm
    have hnodup := hperm.nodup_iff.mpr h.nodup
    refine ⟨_, rfl, (nodup_cons.mp hnodup).2, ?_⟩
    rw [← h.names_eq, ← toFinset_eq_of_perm _ _ hperm, toFinset_cons, Finset.erase_insert]
    rw [mem_toFinset]
    exact (nodup_cons.mp hnodup).1

theorem redoEntry_holds (h : Holds array names) {entry : Bool × TMGXACTLOG}
    (hshort : entry.1 = true → entry.2.strlen < tmGidSize)
    (hcard : (afterEntry names entry).card ≤ maxTmGxacts) :
    ∃ next, redoEntry maxTmGxacts garbage .dispatch ⟨array, file⟩ entry = .ok ⟨next, file⟩ ∧
      Holds next (afterEntry names entry) := by
  obtain ⟨committed, log⟩ := entry
  cases committed with
  | true => exact redoDistributedCommitRecord_holds maxTmGxacts garbage h (hshort rfl) hcard
  | false => exact redoDistributedForgetCommitRecord_holds garbage h log

/-- As long as the array can hold what is left, every entry is redone. -/
theorem redoEntries_holds (entries : List (Bool × TMGXACTLOG)) :
    ∀ array names, Holds array names → ShortNames entries →
      (∀ n, ((entries.take n).foldl afterEntry names).card ≤ maxTmGxacts) →
      ∃ next, entries.foldlM (redoEntry maxTmGxacts garbage .dispatch) ⟨array, file⟩ =
          .ok ⟨next, file⟩ ∧ Holds next (entries.foldl afterEntry names) := by
  induction entries with
  | nil =>
    intro array names h _ _
    exact ⟨array, rfl, h⟩
  | cons entry entries ih =>
    intro array names h hshort hcard
    obtain ⟨middle, hfirst, hmiddle⟩ := redoEntry_holds maxTmGxacts garbage h
      (hshort entry mem_cons_self) (hcard 1)
    obtain ⟨next, hrest, hnext⟩ := ih middle (afterEntry names entry) hmiddle
      (fun other hother => hshort other (mem_cons_of_mem _ hother))
      (fun n => hcard (n + 1))
    refine ⟨next, ?_, hnext⟩
    rw [foldlM_cons, hfirst]
    exact hrest

/-- A record adds identifiers one by one or removes one, so between two records there
are never more of them than before or after. -/
theorem entries_take_card_le (record : RedoRecord) (names : Finset (List Byte)) (n : Nat) :
    ((record.entries.take n).foldl afterEntry names).card ≤
      max names.card (record.entries.foldl afterEntry names).card := by
  have hgrow : ∀ (logs : List TMGXACTLOG) (names : Finset (List Byte)),
      names ⊆ (logs.map fun log => (true, log)).foldl afterEntry names := by
    intro logs
    induction logs with
    | nil => exact fun names => Finset.Subset.refl names
    | cons log logs ih =>
      exact fun names => (Finset.subset_insert log.name names).trans (ih _)
  have hone : ∀ entry : Bool × TMGXACTLOG, (([entry].take n).foldl afterEntry names).card ≤
      max names.card ([entry].foldl afterEntry names).card := by
    intro entry
    cases n with
    | zero => exact le_max_left _ _
    | succ n =>
      rw [take_succ_cons, take_nil]
      exact le_max_right _ _
  cases record with
  | checkPoint committed =>
    apply le_trans _ (le_max_right _ _)
    apply Finset.card_le_card
    have hsplit : (RedoRecord.checkPoint committed).entries =
        (RedoRecord.checkPoint committed).entries.take n ++
          (committed.drop n).map fun log => (true, log) := by
      unfold RedoRecord.entries
      rw [map_drop, take_append_drop]
    rw [hsplit, foldl_append, ← hsplit]
    exact hgrow _ _
  | distributedCommit log => exact hone _
  | distributedForget log => exact hone _

theorem redoRecords_holds (records : List RedoRecord) : ∀ array names, Holds array names →
      ShortNames (records.flatMap RedoRecord.entries) → names.card ≤ maxTmGxacts →
      (∀ n, (((records.take n).flatMap RedoRecord.entries).foldl afterEntry names).card ≤
        maxTmGxacts) → ∃ next, redoRecords maxTmGxacts garbage .dispatch ⟨array, file⟩ records =
          .ok ⟨next, file⟩ ∧
        Holds next ((records.flatMap RedoRecord.entries).foldl afterEntry names) := by
  induction records with
  | nil =>
    intro array names h _ _ _
    exact ⟨array, rfl, h⟩
  | cons record records ih =>
    intro array names h hshort hstart hcard
    have hfirstCard : (record.entries.foldl afterEntry names).card ≤ maxTmGxacts := by
      have hone := hcard 1
      rwa [take_succ_cons, take_zero, flatMap_singleton] at hone
    obtain ⟨middle, hfirst, hmiddle⟩ := redoEntries_holds maxTmGxacts garbage record.entries
      array names h (fun entry hentry => hshort entry (by simp [hentry]))
      (fun n => (entries_take_card_le record names n).trans (Nat.max_le.mpr ⟨hstart, hfirstCard⟩))
    obtain ⟨next, hrest, hnext⟩ := ih middle _ hmiddle
      (fun entry hentry => hshort entry (by rw [flatMap_cons]; simp [hentry]))
      hfirstCard (fun n => by
        have hmore := hcard (n + 1)
        rwa [take_succ_cons, flatMap_cons, foldl_append] at hmore)
    refine ⟨next, ?_, ?_⟩
    · unfold redoRecords
      rw [foldlM_cons, redoRecord_eq_entries, hfirst]
      exact hrest
    · rw [flatMap_cons, foldl_append]
      exact hnext

end

/-- A record commits the identifier, and no later one forgets it. -/
def CommittedNotForgotten (records : List RedoRecord) (name : List Byte) : Prop :=
  ∃ before record after log, records = before ++ record :: after ∧
    (true, log) ∈ record.entries ∧ log.name = name ∧
    ∀ later, .distributedForget later ∈ after → later.name ≠ name

/-- The effect of one record on the identifiers. -/
theorem mem_foldl_afterEntry (record : RedoRecord) (names : Finset (List Byte))
    (name : List Byte) : name ∈ record.entries.foldl afterEntry names ↔
      (∃ log, (true, log) ∈ record.entries ∧ log.name = name) ∨
        name ∈ names ∧ ∀ later, record = .distributedForget later → later.name ≠ name := by
  cases record with
  | checkPoint committed =>
    induction committed generalizing names with
    | nil => simp [RedoRecord.entries]
    | cons log committed ih =>
      have hrest := ih (insert log.name names)
      simp only [RedoRecord.entries, map_cons, foldl_cons] at hrest ⊢
      rw [show afterEntry names (true, log) = insert log.name names from rfl, hrest]
      simp only [Finset.mem_insert, mem_cons, Prod.mk.injEq, true_and]
      constructor
      · rintro (⟨other, hother, hname⟩ | ⟨rfl | hold, _⟩)
        · exact .inl ⟨other, .inr hother, hname⟩
        · exact .inl ⟨log, .inl rfl, rfl⟩
        · exact .inr ⟨hold, nofun⟩
      · rintro (⟨other, rfl | hother, hname⟩ | ⟨hold, _⟩)
        · exact .inr ⟨.inl hname.symm, nofun⟩
        · exact .inl ⟨other, hother, hname⟩
        · exact .inr ⟨.inr hold, nofun⟩
  | distributedCommit log =>
    simp only [RedoRecord.entries, foldl_cons, foldl_nil, afterEntry, if_true,
      Finset.mem_insert, mem_singleton, Prod.mk.injEq, true_and, exists_eq_left]
    constructor
    · rintro (rfl | hold)
      · exact .inl rfl
      · exact .inr ⟨hold, nofun⟩
    · rintro (rfl | ⟨hold, _⟩)
      · exact .inl rfl
      · exact .inr hold
  | distributedForget log =>
    simp only [RedoRecord.entries, foldl_cons, foldl_nil, afterEntry,
      Bool.false_eq_true, if_false, Finset.mem_erase, mem_singleton, Prod.mk.injEq,
      Bool.true_eq_false, false_and, exists_false, false_or, RedoRecord.distributedForget.injEq,
      forall_eq']
    exact ⟨fun h => ⟨h.2, h.1.symm⟩, fun h => ⟨h.2.symm, h.1⟩⟩

theorem mem_pending_iff (records : List RedoRecord) (name : List Byte) :
    name ∈ pending records ↔ CommittedNotForgotten records name := by
  induction records using List.reverseRecOn with
  | nil =>
    constructor
    · exact fun hmem => absurd hmem (Finset.notMem_empty name)
    · rintro ⟨before, record, after, log, hsplit, -⟩
      exact absurd hsplit.symm (by simp)
  | append_singleton front last ih =>
    have hlast : pending (front ++ [last]) = last.entries.foldl afterEntry (pending front) := by
      unfold pending
      rw [flatMap_append, flatMap_singleton, foldl_append]
    rw [hlast, mem_foldl_afterEntry, ih]
    constructor
    · rintro (⟨log, hlog, hname⟩ | ⟨⟨before, record, after, log, rfl, hrest⟩, hkept⟩)
      · exact ⟨front, last, [], log, rfl, hlog, hname, fun _ hnone => absurd hnone nofun⟩
      · refine ⟨before, record, after ++ [last], log, by simp, hrest.1, hrest.2.1, ?_⟩
        intro later hlater
        rcases mem_append.mp hlater with hold | hnew
        · exact hrest.2.2 later hold
        · exact hkept later (mem_singleton.mp hnew).symm
    · rintro ⟨before, record, after, log, hsplit, hlog, hname, hkept⟩
      rcases eq_nil_or_concat after with rfl | ⟨init, final, rfl⟩
      · obtain ⟨-, heq⟩ := append_inj' hsplit rfl
        rw [singleton_inj] at heq
        exact .inl ⟨log, heq.symm ▸ hlog, hname⟩
      · rw [concat_eq_append, ← cons_append, ← append_assoc] at hsplit
        obtain ⟨hfront, heq⟩ := append_inj' hsplit rfl
        refine .inr ⟨⟨before, record, init, log, hfront, hlog, hname, ?_⟩, ?_⟩
        · intro later hlater
          exact hkept later (by simp [hlater])
        · rintro later rfl
          exact hkept later (by simp [← heq])

/-- Redoing records with identifiers that fit leaves one entry for each identifier
that is committed and not forgotten later, as long as there are never more of them
than the array can hold; and records that are saved in utility mode and replayed have
the effect they have when they are redone. -/
theorem redo_recovers (maxTmGxacts : Nat) (garbage : Nat → Garbage) (records : List RedoRecord)
    (hshort : ShortNames (records.flatMap RedoRecord.entries))
    (hcard : ∀ n, (pending (records.take n)).card ≤ maxTmGxacts) :
    (∃ array, redoRecords maxTmGxacts garbage .dispatch ⟨[], none⟩ records =
        .ok ⟨array, none⟩ ∧ (array.map TMGXACTLOG.name).Nodup ∧
        ∀ name, name ∈ array.map TMGXACTLOG.name ↔ CommittedNotForgotten records name) ∧
      ∀ saver, ∃ file, redoRecords maxTmGxacts garbage .utility
          (utilityModeFindOrCreateDtmRedoFile .utility ⟨saver, none⟩) records =
            .ok ⟨saver, some file⟩ ∧
        ∀ array, replayRedoFromUtilityMode maxTmGxacts garbage .dispatch ⟨array, some file⟩ =
          redoRecords maxTmGxacts garbage .dispatch ⟨array, some file⟩ records := by
  have hempty : Holds [] ∅ := ⟨nodup_nil, rfl⟩
  obtain ⟨array, hrun, hholds⟩ := redoRecords_holds maxTmGxacts garbage records [] ∅ hempty
    hshort (Nat.zero_le _) hcard
  refine ⟨⟨array, hrun, hholds.nodup, fun name => ?_⟩, fun saver => ?_⟩
  · rw [← mem_toFinset, hholds.names_eq]
    exact mem_pending_iff records name
  · -- what was saved in utility mode has the effect of the records themselves
    obtain ⟨redos, hredos, hsaved⟩ := redoEntries_utility maxTmGxacts garbage _ saver [] hshort
    refine ⟨redos.flatMap redoBytes, ?_, fun array => ?_⟩
    · rw [redoRecords_eq_entries]
      exact hsaved
    · rw [redoRecords_eq_entries, ← hredos]
      exact replayLoop_flatMap maxTmGxacts garbage .dispatch redos _ _
        (length_lt_flatMap_redoBytes redos)

namespace DtmRedoWitness

def noGarbage : Nat → Garbage := fun _ => ⟨[0, 0, 0], rfl⟩

/-- A transaction whose identifier is one character. -/
def shortLog (character : Byte) : TMGXACTLOG where
  gid := character :: List.replicate 21 0
  padding := [0, 0]
  gxid := 7
  gid_length := rfl
  padding_length := rfl

/-- A repeated checkpoint list, a forget of an unknown transaction and one of the first
entry of the array. -/
def history : List RedoRecord :=
  [.checkPoint [shortLog 1, shortLog 2], .distributedForget (shortLog 3),
    .distributedCommit (shortLog 3), .checkPoint [shortLog 2, shortLog 1],
    .distributedForget (shortLog 1)]

theorem history_recovered :
    ∃ array, redoRecords 3 noGarbage .dispatch ⟨[], none⟩ history = .ok ⟨array, none⟩ ∧
      (array.map TMGXACTLOG.name).Nodup ∧
      ∀ name, name ∈ array.map TMGXACTLOG.name ↔ CommittedNotForgotten history name := by
  have hcard : ∀ n, (pending (history.take n)).card ≤ 3 := by
    intro n
    by_cases hn : n < 5
    · have hsmall : ∀ n < 5, (pending (history.take n)).card ≤ 3 := by decide
      exact hsmall n hn
    · rw [take_of_length_le (le_of_not_gt hn)]
      decide
  exact (redo_recovers 3 noGarbage history (by decide) hcard).1

def longLog : TMGXACTLOG where
  gid := List.replicate 22 1
  padding := [0, 0]
  gxid := 7
  gid_length := rfl
  padding_length := rfl

/-- One commit more than the array can hold, and an identifier without room for its
NUL, stop the redo. -/
theorem redo_limits : redoRecords 1 noGarbage .dispatch ⟨[], none⟩
        [.distributedCommit (shortLog 1), .distributedCommit (shortLog 2)] =
      .error (.limitReached 1) ∧
    redoRecords 1 noGarbage .dispatch ⟨[], none⟩ [.distributedCommit longLog] =
      .error (.identifierTooLong 22) := by
  decide

end DtmRedoWitness

end Greenplum.DtmRedo
