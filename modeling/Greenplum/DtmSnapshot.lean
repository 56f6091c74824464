/-
Distributed snapshots: how the coordinator hands out distributed transaction
ids and takes snapshots (cdbtm.c, procarray.c), and how a segment tests a
committed local xid against a snapshot (cdbdistributedsnapshot.c,
cdblocaldistribxact.c).
-/
import Mathlib.Algebra.Ring.Nat
import Mathlib.Data.List.Sort

namespace Greenplum.DtmSnapshot

/-- The `uint32` ids; 0 is the invalid one. -/
def lastDistributedTransactionId : Nat := 2 ^ 32 - 1

def firstDistributedTransactionId : Nat := 1

def transactionIdIsNormal (xid : Nat) : Bool := 3 ≤ xid

/-- The order of local xids: modulo 2^31 among normal ones. -/
def transactionIdPrecedes (left right : Nat) : Bool :=
  if transactionIdIsNormal left && transactionIdIsNormal right then
    2 ^ 31 ≤ (left + 2 ^ 32 - right) % 2 ^ 32
  else left < right

def transactionIdFollows (left right : Nat) : Bool :=
  if transactionIdIsNormal left && transactionIdIsNormal right then
    0 < (left + 2 ^ 32 - right) % 2 ^ 32 && (left + 2 ^ 32 - right) % 2 ^ 32 < 2 ^ 31
  else right < left

section

/-- The part of a backend's TMGXACT that snapshots read. -/
structure Gxact where
  gxid : Nat
  xminDistributedSnapshot : Nat
deriving Repr, DecidableEq

def initGxact : Gxact := ⟨0, 0⟩

/-- A backend.  `gxid` is the local variable of `setCurrentGxact`: an id that
`generateGID` has returned and that is not in the gxact yet. -/
structure Proc where
  gxact : Gxact
  gxid : Option Nat
deriving Repr, DecidableEq

structure DistributedSnapshot where
  distribTransactionTimeStamp : Nat
  xminAllDistributedSnapshots : Nat
  distribSnapshotId : Nat
  xmin : Nat
  xmax : Nat
  inProgressXidArray : List Nat
deriving Repr, DecidableEq

/-- The values that the loop of `CreateDistributedSnapshot` computes. -/
structure Gathered where
  globalXminDistributedSnapshots : Nat
  xmin : Nat
  xmax : Nat
  inProgress : List Nat
deriving Repr, DecidableEq

/-- One turn of the loop over the proc array; `mine` is the snapshot's own
backend. -/
def gatherOne (mine : Bool) (gxact : Gxact) (acc : Gathered) : Gathered :=
  if gxact.gxid = 0 then acc
  else
    let dxid := gxact.xminDistributedSnapshot
    { globalXminDistributedSnapshots :=
        if dxid ≠ 0 ∧ dxid < acc.globalXminDistributedSnapshots then dxid
        else acc.globalXminDistributedSnapshots
      xmin := if gxact.gxid < acc.xmin then gxact.gxid else acc.xmin
      xmax := if acc.xmax < gxact.gxid then gxact.gxid else acc.xmax
      inProgress :=
        if mine then acc.inProgress else acc.inProgress ++ [gxact.gxid] }

/-- The loop, from place `index` of the array on. -/
def gather (myProc : Nat) : Nat → List Proc → Gathered → Gathered
  | _, [], acc => acc
  | index, proc :: rest, acc =>
    gather myProc (index + 1) rest (gatherOne (index == myProc) proc.gxact acc)

/-- A snapshot with the transaction that took it and, for the statements about
it, the distributed transactions that had ended before. -/
structure Taken where
  ds : DistributedSnapshot
  owner : Nat
  ended : List Nat
deriving Repr, DecidableEq

structure World where
  shmGIDSeq : Nat
  shmNextSnapshotId : Nat
  procs : List Proc
  ended : List Nat
  snapshots : List Taken
deriving Repr, DecidableEq

structure Config where
  distribTimeStamp : Nat
  maxCount : Nat
deriving Repr, DecidableEq

/-- The ids are counted up from the first one, which is never given out and is
listed as ended. -/
def World.initial (backends : Nat) : World :=
  ⟨firstDistributedTransactionId, 0, List.replicate backends ⟨initGxact, none⟩,
    [firstDistributedTransactionId], []⟩

/-- `none` is the error "reached limit of global transactions per start". -/
def generateGID (shmGIDSeq : Nat) : Option Nat :=
  if lastDistributedTransactionId ≤ shmGIDSeq then none else some (shmGIDSeq + 1)

variable (cfg : Config)

/-- `none` is the error "Too many distributed transactions for snapshot". -/
def createDistributedSnapshot (myProc : Nat) (world : World) : Option DistributedSnapshot :=
  let xmax := world.shmGIDSeq
  let gathered := gather myProc 0 world.procs ⟨xmax, lastDistributedTransactionId, xmax, []⟩
  if cfg.maxCount < gathered.inProgress.length then none
  else
    some {
      distribTransactionTimeStamp := cfg.distribTimeStamp
      xminAllDistributedSnapshots :=
        if gathered.xmin < gathered.globalXminDistributedSnapshots then
          gathered.xmin
        else gathered.globalXminDistributedSnapshots
      distribSnapshotId := (world.shmNextSnapshotId + 1) % 2 ^ 32
      xmin := gathered.xmin
      xmax := gathered.xmax
      inProgressXidArray := gathered.inProgress.insertionSort (· ≤ ·) }

/-- The atomic steps of the backends. -/
inductive Action where
  | generateGID (myProc : Nat)
  | setCurrentGxact (myProc : Nat)
  | createDistributedSnapshot (myProc : Nat)
  | procArrayEndGxact (myProc : Nat)
deriving Repr, DecidableEq

def Action.myProc : Action → Nat
  | .generateGID myProc | .setCurrentGxact myProc
  | .createDistributedSnapshot myProc | .procArrayEndGxact myProc => myProc

/-- A step of the backend that has this entry in the proc array. -/
def stepProc (world : World) (proc : Proc) : Action → Option World
  | .generateGID myProc =>
    if proc.gxid = none ∧ proc.gxact.gxid = 0 then
      (generateGID world.shmGIDSeq).map fun gxid =>
        { world with
          shmGIDSeq := gxid
          procs := world.procs.set myProc { proc with gxid := some gxid } }
    else none
  | .setCurrentGxact myProc =>
    proc.gxid.map fun gxid =>
      { world with procs := world.procs.set myProc ⟨⟨gxid, gxid⟩, none⟩ }
  | .createDistributedSnapshot myProc =>
    if proc.gxact.gxid ≠ 0 then
      (createDistributedSnapshot cfg myProc world).map fun ds =>
        let xminDistributedSnapshot :=
          if ds.xmin < proc.gxact.xminDistributedSnapshot then ds.xmin
          else proc.gxact.xminDistributedSnapshot
        { world with
          shmNextSnapshotId := ds.distribSnapshotId
          procs := world.procs.set myProc { proc with
            gxact := ⟨proc.gxact.gxid, xminDistributedSnapshot⟩ }
          snapshots := world.snapshots ++ [⟨ds, proc.gxact.gxid, world.ended⟩] }
    else none
  | .procArrayEndGxact myProc =>
    if proc.gxact.gxid ≠ 0 then
      some { world with
        procs := world.procs.set myProc { proc with gxact := initGxact }
        ended := world.ended ++ [proc.gxact.gxid] }
    else none

def step (world : World) (action : Action) : Option World :=
  world.procs[action.myProc]?.bind fun proc => stepProc cfg world proc action

def run (world : World) (actions : List Action) : Option World :=
  actions.foldlM (step cfg) world

end

section

inductive DistributedSnapshotCommitted where
  | inProgress
  | visible
  | ignore
deriving Repr, DecidableEq

/-- The snapshot as a segment uses it, with the local xids that were found to
be in progress. -/
structure DistributedSnapshotWithLocalMapping where
  ds : DistributedSnapshot
  minCachedLocalXid : Nat
  maxCachedLocalXid : Nat
  maxLocalXidsCount : Nat
  inProgressMappedLocalXids : List Nat
deriving Repr, DecidableEq

/-- The process-local cache of committed local xids with their distributed xid,
0 for a local-only transaction, the last used one first. -/
structure LocalDistribXactCache where
  maxLocalDistributedCache : Nat
  entries : List (Nat × Nat)
deriving Repr, DecidableEq

def LocalDistribXactCache.committedFind (cache : LocalDistribXactCache)
    (localXid : Nat) : Option Nat × LocalDistribXactCache :=
  if cache.maxLocalDistributedCache = 0 then (none, cache)
  else
    match cache.entries.find? (·.1 = localXid) with
    | some entry =>
      (some entry.2, { cache with
        entries := entry :: cache.entries.filter (·.1 ≠ localXid) })
    | none => (none, cache)

def LocalDistribXactCache.addCommitted (cache : LocalDistribXactCache)
    (localXid distribXid : Nat) : LocalDistribXactCache :=
  if cache.maxLocalDistributedCache = 0 then cache
  else
    let kept :=
      if cache.maxLocalDistributedCache ≤ cache.entries.length then
        cache.entries.dropLast
      else cache.entries
    { cache with entries := (localXid, distribXid) :: kept }

/-- The search in the sorted array, which stops at the first larger xid. -/
def inProgressFind (distribXid : Nat) : List Nat → Bool
  | [] => false
  | xid :: rest =>
    if distribXid = xid then true
    else if distribXid < xid then false
    else inProgressFind distribXid rest

variable (dslm : DistributedSnapshotWithLocalMapping)

def rememberInProgress (localXid : Nat) : DistributedSnapshotWithLocalMapping :=
  if dslm.inProgressMappedLocalXids.length < dslm.maxLocalXidsCount then
    { dslm with
      inProgressMappedLocalXids := dslm.inProgressMappedLocalXids ++ [localXid]
      minCachedLocalXid :=
        if dslm.minCachedLocalXid = 0 ∨
            transactionIdPrecedes localXid dslm.minCachedLocalXid then localXid
        else dslm.minCachedLocalXid
      maxCachedLocalXid :=
        if dslm.maxCachedLocalXid = 0 ∨
            transactionIdFollows localXid dslm.maxCachedLocalXid then localXid
        else dslm.maxCachedLocalXid }
  else dslm

/-- The shortcut through the local xids that were found to be in progress. -/
def cachedInProgress (localXid : Nat) : Bool :=
  !dslm.inProgressMappedLocalXids.isEmpty &&
    (localXid == dslm.minCachedLocalXid || localXid == dslm.maxCachedLocalXid ||
      (transactionIdFollows localXid dslm.minCachedLocalXid &&
        transactionIdPrecedes localXid dslm.maxCachedLocalXid &&
        dslm.inProgressMappedLocalXids.contains localXid))

/-- The comparison of a committed distributed xid with the snapshot. -/
def testDistribXid (localXid distribXid : Nat) (isVacuumCheck : Bool) :
    DistributedSnapshotCommitted × DistributedSnapshotWithLocalMapping :=
  if distribXid < dslm.ds.xminAllDistributedSnapshots then (.ignore, dslm)
  else if isVacuumCheck then (.inProgress, dslm)
  else if distribXid < dslm.ds.xmin then (.visible, dslm)
  else if dslm.ds.xmax < distribXid then (.inProgress, dslm)
  else if inProgressFind distribXid dslm.ds.inProgressXidArray then
    (.inProgress, rememberInProgress dslm localXid)
  else (.visible, dslm)

/-- What a backend of a segment keeps between two tests against one snapshot. -/
structure Reader where
  dslm : DistributedSnapshotWithLocalMapping
  cache : LocalDistribXactCache
deriving Repr, DecidableEq

/-- The test; `distributedLog` is the answer of `DistributedLog_CommittedCheck`:
the start of the DTM and the distributed xid of a committed local xid. -/
def committedTest (distributedLog : Nat → Option (Nat × Nat)) (reader : Reader)
    (localXid : Nat) (isVacuumCheck : Bool) : DistributedSnapshotCommitted × Reader :=
  if !transactionIdIsNormal localXid then (.ignore, reader)
  else if cachedInProgress reader.dslm localXid then (.inProgress, reader)
  else
    let compare := fun (distribXid : Nat) (cache : LocalDistribXactCache) =>
      let result := testDistribXid reader.dslm localXid distribXid isVacuumCheck
      (result.1, (⟨result.2, cache⟩ : Reader))
    match reader.cache.committedFind localXid with
    | (some distribXid, cache) =>
      if distribXid = 0 then (.ignore, { reader with cache := cache })
      else compare distribXid cache
    | (none, cache) =>
      match distributedLog localXid with
      | some (checkDistribTimeStamp, distribXid) =>
        if checkDistribTimeStamp ≠ reader.dslm.ds.distribTransactionTimeStamp then
          (.ignore, { reader with cache := cache })
        else compare distribXid (cache.addCommitted localXid distribXid)
      | none =>
        (.ignore, { reader with cache := cache.addCommitted localXid 0 })

end

end Greenplum.DtmSnapshot
