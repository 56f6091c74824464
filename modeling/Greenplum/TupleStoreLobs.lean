/-
Large entries of the new tuple store, `tuplestorenew.c`.  An entry that does not fit a
page goes to the lob file, and a reference to it to the page.  The start in the reference
is the number of bytes that were put, while the bytes go to where the file stands.
-/
import Greenplum.ByteMemory
import Mathlib.Data.List.Forall2

namespace Greenplum.TupleStore

open List ByteMemory

abbrev Byte := BitVec 8

/-- A work file with its current position. -/
structure WorkFile where
  bytes : List Byte
  position : Nat

/-- `ExecWorkFile_Write`; what lies between the end and the position reads as zeros. -/
def WorkFile.write (file : WorkFile) (data : List Byte) : WorkFile where
  bytes := writeAt (file.bytes ++ replicate (file.position - file.bytes.length) 0)
    file.position data
  position := file.position + data.length

structure LobRef where
  start : Nat
  size : Nat

/-- A slot of a page; the length of a reference is stored as a negative number. -/
inductive Slot
  | data (bytes : List Byte)
  | lob (ref : LobRef)

/-- A store with the slots of all its pages in order.  Where one page ends and the next one
begins is left out. -/
structure NTupleStore where
  slots : List Slot
  lobFile : WorkFile
  lobbytes : Nat

namespace NTupleStore

def create : NTupleStore := ⟨[], ⟨[], 0⟩, 0⟩

def putLob (store : NTupleStore) (data : List Byte) : NTupleStore × LobRef :=
  ({ store with
      lobFile := store.lobFile.write data
      lobbytes := store.lobbytes + data.length },
    ⟨store.lobbytes, data.length⟩)

/-- The seek to the start of the entry and the read. -/
def getLob (store : NTupleStore) (ref : LobRef) : List Byte × NTupleStore :=
  let data := readAt store.lobFile.bytes ref.start ref.size
  (data, { store with lobFile := { store.lobFile with position := ref.start + data.length } })

/-- `NTS_MAX_ENTRY_SIZE`: a page without its header and one slot entry. -/
def maxEntrySize (blcksz : Nat) : Nat := blcksz - 48 - 4

def accPutData (blcksz : Nat) (store : NTupleStore) (data : List Byte) : NTupleStore :=
  if maxEntrySize blcksz < data.length then
    let put := store.putLob data
    { put.1 with slots := store.slots ++ [.lob put.2] }
  else { store with slots := store.slots ++ [.data data] }

/-- `ntuplestore_acc_current_data` for an accessor that stands at a slot. -/
def accCurrentData (store : NTupleStore) (slotn : Nat) : Option (List Byte) × NTupleStore :=
  match store.slots[slotn]? with
  | none => (none, store)
  | some (.data bytes) => (some bytes, store)
  | some (.lob ref) =>
      let read := store.getLob ref
      (some read.1, read.2)

end NTupleStore

open NTupleStore

/-- The calls of all accessors of a store. -/
inductive Call
  | put (data : List Byte)
  | read (slotn : Nat)

def step (blcksz : Nat) (store : NTupleStore) : Call → NTupleStore
  | .put data => store.accPutData blcksz data
  | .read slotn => (store.accCurrentData slotn).2

def run (blcksz : Nat) (store : NTupleStore) (calls : List Call) : NTupleStore :=
  calls.foldl (step blcksz) store

/-- The entries that the calls put. -/
def entries (calls : List Call) : List (List Byte) :=
  calls.filterMap fun
    | .put data => some data
    | .read _ => none

/-- A large entry is put while the lob file stands at its end. -/
def Call.AtEnd (blcksz : Nat) (store : NTupleStore) : Call → Prop
  | .put data => maxEntrySize blcksz < data.length → store.lobFile.position = store.lobbytes
  | .read _ => True

def AtEnd (blcksz : Nat) : NTupleStore → List Call → Prop
  | _, [] => True
  | store, call :: calls => call.AtEnd blcksz store ∧ AtEnd blcksz (step blcksz store call) calls

variable {blcksz : Nat} {store : NTupleStore} {before : List (List Byte)} {data : List Byte}

/-- What a slot stands for, given the bytes of the lob file. -/
def Holds (file : List Byte) : Slot → List Byte → Prop
  | .data bytes, data => bytes = data
  | .lob ref, data =>
      ref.start + ref.size ≤ file.length ∧ readAt file ref.start ref.size = data

theorem Holds.append {file : List Byte} {slot : Slot} (hholds : Holds file slot data)
    (more : List Byte) : Holds (file ++ more) slot data := by
  cases slot with
  | data bytes => exact hholds
  | lob ref =>
      obtain ⟨hinside, hread⟩ := hholds
      refine ⟨by rw [length_append]; omega, ?_⟩
      rw [readAt, drop_append_of_le_length (by omega), take_append_of_le_length]
      · exact hread
      · rw [length_drop]
        omega

/-- The lob file is as long as what was put to it, and the slots hold the entries. -/
structure Inv (store : NTupleStore) (before : List (List Byte)) : Prop where
  lobbytes : store.lobbytes = store.lobFile.bytes.length
  slots : Forall₂ (Holds store.lobFile.bytes) store.slots before

theorem Inv.put (hinv : Inv store before) (hend : (Call.put data).AtEnd blcksz store) :
    Inv (store.accPutData blcksz data) (before ++ [data]) := by
  unfold accPutData
  split
  next hlarge =>
    have hposition : store.lobFile.position = store.lobFile.bytes.length :=
      (hend hlarge).trans hinv.lobbytes
    have hfile : (store.putLob data).1.lobFile.bytes = store.lobFile.bytes ++ data := by
      simp [putLob, WorkFile.write, writeAt, hposition]
    have hlength : (store.putLob data).1.lobFile.bytes.length = store.lobbytes + data.length := by
      rw [hfile, length_append, hinv.lobbytes]
    refine ⟨hlength.symm, ?_⟩
    apply rel_append
    · rw [hfile]
      exact hinv.slots.imp fun _ _ hholds => hholds.append data
    · refine .cons ⟨Nat.le_of_eq hlength.symm, ?_⟩ .nil
      rw [hfile]
      exact readAt_back hinv.lobbytes.symm rfl
  next => exact ⟨hinv.lobbytes, rel_append hinv.slots (.cons rfl .nil)⟩

theorem Inv.read (hinv : Inv store before) (slotn : Nat) :
    Inv (store.accCurrentData slotn).2 before := by
  unfold accCurrentData
  split
  · exact hinv
  · exact hinv
  · exact ⟨hinv.lobbytes, hinv.slots⟩

theorem Inv.run (hinv : Inv store before) {calls : List Call} (hend : AtEnd blcksz store calls) :
    Inv (run blcksz store calls) (before ++ entries calls) := by
  induction calls generalizing store before with
  | nil => simpa [TupleStore.run, entries] using hinv
  | cons call calls ih =>
      cases call with
      | put data =>
          have hrest := ih (hinv.put hend.1) hend.2
          rwa [append_assoc] at hrest
      | read slotn => exact ih (hinv.read slotn) hend.2

/-- In every run in which large entries are put at the end of the lob file, every
entry is read as it was put.  This is about large entries: the others are in the slots
themselves here, as the pages are one list. -/
theorem run_reads_entries (blcksz : Nat) (calls : List Call)
    (hend : AtEnd blcksz create calls) (slotn : Nat) :
    ((run blcksz create calls).accCurrentData slotn).1 = (entries calls)[slotn]? := by
  have hstart : Inv create [] := ⟨rfl, .nil⟩
  have hslots := (hstart.run hend).slots
  rw [nil_append] at hslots
  have hentry {slot : Slot} (hslot : (run blcksz create calls).slots[slotn]? = some slot) :
      ∃ data, (entries calls)[slotn]? = some data ∧
        Holds (run blcksz create calls).lobFile.bytes slot data := by
    obtain ⟨hlt, rfl⟩ := List.getElem?_eq_some_iff.mp hslot
    have hinside : slotn < (entries calls).length := hslots.length_eq ▸ hlt
    exact ⟨_, getElem?_eq_getElem hinside, hslots.get hlt hinside⟩
  unfold accCurrentData
  split
  next hnone =>
    rw [getElem?_eq_none_iff, hslots.length_eq] at hnone
    exact (getElem?_eq_none hnone).symm
  next bytes hslot =>
    obtain ⟨data, hdata, hholds⟩ := hentry hslot
    rw [hdata, ← hholds]
  next ref hslot =>
    obtain ⟨data, hdata, hholds⟩ := hentry hslot
    rw [hdata, ← hholds.2]
    rfl

namespace LobsWitness

/-- A large entry of one byte value for pages of a kilobyte. -/
def large (byte : Byte) : List Byte := replicate 973 byte

theorem large_and_small_read :
    ((run 1024 create [.put (large 1), .put [5], .read 0, .put [6]]).accCurrentData 0).1 =
      some (large 1) :=
  run_reads_entries 1024 [.put (large 1), .put [5], .read 0, .put [6]]
    ⟨fun _ => rfl, nofun, trivial, nofun, trivial⟩ 0

/-- The first large entry is read, and the third is written over the second. -/
theorem second_entry_lost : ((run 1024 create
      [.put (large 1), .put (large 2), .read 0, .put (large 3)]).accCurrentData 1).1 =
        some (large 3) ∧ large 3 ≠ large 2 := by
  decide +kernel

end LobsWitness

end Greenplum.TupleStore
