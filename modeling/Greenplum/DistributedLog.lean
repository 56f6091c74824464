/-
The distributed log of a segment (distributedlog.c): which distributed transaction
committed under a local xid, how far back the log is still needed, and the removal of
its oldest pages.  Local xids are 32 bit numbers that wrap around.
-/
import Greenplum.DtmSnapshot

namespace Greenplum.DistributedLog

open DtmSnapshot

abbrev TransactionId := BitVec 32

variable (xid : TransactionId)

def isNormal : Bool := transactionIdIsNormal xid.toNat

def precedes (left right : TransactionId) : Bool :=
  transactionIdPrecedes left.toNat right.toNat

def follows (left right : TransactionId) : Bool :=
  transactionIdFollows left.toNat right.toNat

/-- `TransactionIdAdvance`: the special xids at the start are left out. -/
def advance : TransactionId :=
  if isNormal (xid + 1) then xid + 1 else 3

/-- `ENTRIES_PER_PAGE`: a page is 32 kB, an entry 8 bytes. -/
def entriesPerPage : Nat := 4096

/-- `SLRU_PAGES_PER_SEGMENT`. -/
def pagesPerSegment : Nat := 32

def toPage : Nat := xid.toNat / entriesPerPage

def advanceToNextPage : TransactionId :=
  let next := xid + BitVec.ofNat 32 entriesPerPage
  let first := next - BitVec.ofNat 32 (next.toNat % entriesPerPage)
  if isNormal first then first else 3

structure DistributedLogEntry where
  distribTimeStamp : BitVec 32
  distribXid : BitVec 32
deriving Repr, DecidableEq

/-- The pages that exist with the entries on them, and the shared memory of the log;
an `oldestXmin` of 0 is not initialized. -/
structure Log where
  entry : TransactionId → DistributedLogEntry
  pages : List Nat
  latestPageNumber : Nat
  oldestXmin : TransactionId

inductive LogError where
  | oldestXminNotInitialized
  | couldNotAccessStatus (xid : TransactionId)
  | zeroTimestamp (xid : TransactionId)
  | zeroDistributedXid (xid : TransactionId)
deriving Repr, DecidableEq

/-- `DistributedLog_CommittedCheck`: the start of the DTM and the distributed xid. -/
def Log.committedCheck (log : Log) (localXid : TransactionId) :
    Except LogError (Option (Nat × Nat)) :=
  if log.oldestXmin = 0 then .error .oldestXminNotInitialized
  else if precedes localXid log.oldestXmin then .ok none
  else if toPage localXid ∉ log.pages then .error (.couldNotAccessStatus localXid)
  else
    let entry := log.entry localXid
    if entry.distribTimeStamp ≠ 0 ∧ entry.distribXid ≠ 0 then
      .ok (some (entry.distribTimeStamp.toNat, entry.distribXid.toNat))
    else if entry.distribTimeStamp = 0 ∧ entry.distribXid = 0 then .ok none
    else if entry.distribTimeStamp = 0 then .error (.zeroTimestamp localXid)
    else .error (.zeroDistributedXid localXid)

/-- The test looks into the log if neither of the caches knows the xid. -/
def consultsLog (reader : Reader) (localXid : TransactionId) : Bool :=
  isNormal localXid && !cachedInProgress reader.dslm localXid.toNat &&
    (reader.cache.committedFind localXid.toNat).1.isNone

/-- `DistributedSnapshotWithLocalMapping_CommittedTest` over a log; an error of the log
leaves the caches as they are. -/
def committedTestOn (log : Log) (reader : Reader) (localXid : TransactionId)
    (isVacuumCheck : Bool) : Except LogError (DistributedSnapshotCommitted × Reader) :=
  if consultsLog reader localXid then
    match log.committedCheck localXid with
    | .error problem => .error problem
    | .ok answer =>
      .ok (committedTest (fun _ => answer) reader localXid.toNat isVacuumCheck)
  else .ok (committedTest (fun _ => none) reader localXid.toNat isVacuumCheck)

/-- `DistributedLog_PagePrecedes`. -/
def pagePrecedes (page₁ page₂ : Nat) : Bool :=
  precedes (BitVec.ofNat 32 (page₁ * entriesPerPage + 3))
    (BitVec.ofNat 32 (page₂ * entriesPerPage + 3))

def segmentStart (page : Nat) : Nat := page - page % pagesPerSegment

/-- `SlruScanDirectory` without deletions: there are segments before the cutoff. -/
def slruScanDirectory (log : Log) (cutoffPage : Nat) : Bool :=
  log.pages.any fun page => pagePrecedes (segmentStart page) (segmentStart cutoffPage)

/-- `SimpleLruTruncateWithLock`: buffers of pages before the cutoff are dropped, and so
are the files of segments that start before it. -/
def simpleLruTruncate (log : Log) (cutoffPage : Nat) : Log :=
  let cutoff := segmentStart cutoffPage
  if pagePrecedes log.latestPageNumber cutoff then log
  else
    { log with
      pages := log.pages.filter fun page =>
        !(pagePrecedes page cutoff || pagePrecedes (segmentStart page) cutoff) }

/-- The tests at the start of `DistributedLog_Truncate`.  Two xids count as being of one
segment if they are at the same place in their segments. -/
def truncates (log : Log) (oldestXmin : TransactionId) : Bool :=
  log.oldestXmin ≠ 0 && log.oldestXmin.toNat % (entriesPerPage * pagesPerSegment) ≠
      oldestXmin.toNat % (entriesPerPage * pagesPerSegment) &&
    slruScanDirectory log (toPage oldestXmin)

section

/-- The arguments of a call of `DistributedLog_AdvanceOldestXmin`. -/
structure Request where
  oldestLocalXmin : TransactionId
  distribTransactionTimeStamp : BitVec 32
  xminAllDistributedSnapshots : BitVec 32
deriving Repr, DecidableEq

/-- The xid is visible to all distributed snapshots, or not distributed at all. -/
def passes (request : Request) (entry : DistributedLogEntry) : Bool :=
  entry.distribTimeStamp ≠ request.distribTransactionTimeStamp ||
    precedes entry.distribXid request.xminAllDistributedSnapshots

/-- The loop of `DistributedLog_AdvanceOldestXmin` over the entries of one page; the
flag tells whether the loop has ended. -/
def walkPage (log : Log) (request : Request) (page : Nat) :
    Nat → TransactionId → TransactionId × Bool
  | 0, oldestXmin => (oldestXmin, false)
  | fuel + 1, oldestXmin =>
    if oldestXmin = request.oldestLocalXmin then (oldestXmin, true)
    else if toPage oldestXmin ≠ page then (oldestXmin, false)
    else if passes request (log.entry oldestXmin) then
      walkPage log request page fuel (advance oldestXmin)
    else (oldestXmin, true)

/-- A call in a place where it may have to wait for a page: `DistributedLogControlLock`
is released while a page is read or written.  `start` is the value of the shared
`oldestXmin` that the call has read. -/
inductive Call where
  | initializing (request : Request) (oldestXmin : TransactionId)
  | walking (request : Request) (start oldestXmin : TransactionId)
  | truncating (start oldestXmin : TransactionId)
deriving Repr, DecidableEq

/-- How far a call comes before it waits again. -/
inductive Progress where
  | waits (call : Call)
  | initialized (request : Request) (oldestXmin : TransactionId)
  | finished (start : TransactionId) (log : Log) (oldestXmin : TransactionId)
  | failed

/-- One turn of the loop of `DistributedLog_InitOldestXmin`, which looks for the first
page that exists but does not go past the oldest local xmin. -/
def lookForPage (log : Log) (request : Request) (oldestXmin : TransactionId) : Progress :=
  if toPage oldestXmin ∈ log.pages then .initialized request oldestXmin
  else
    let xid := advanceToNextPage oldestXmin
    if follows xid request.oldestLocalXmin then
      .initialized request request.oldestLocalXmin
    else .waits (.initializing request xid)

/-- The end of the loop of `DistributedLog_AdvanceOldestXmin`. -/
def finishWalk (log : Log) (start oldestXmin : TransactionId) : Progress :=
  if truncates log oldestXmin then .waits (.truncating start oldestXmin)
  else .finished start log oldestXmin

/-- A call goes on with the page it has waited for; a page that cannot be read is an
error. -/
def Call.proceed (log : Log) : Call → Progress
  | .initializing request oldestXmin => lookForPage log request oldestXmin
  | .walking request start oldestXmin =>
    if toPage oldestXmin ∈ log.pages then
      match walkPage log request (toPage oldestXmin) (entriesPerPage + 1) oldestXmin with
      | (next, true) => finishWalk log start next
      | (next, false) => .waits (.walking request start next)
    else .failed
  | .truncating start oldestXmin =>
    .finished start (simpleLruTruncate log (toPage oldestXmin)) oldestXmin

/-- The log, the calls in progress and what the finished ones have returned. -/
structure World where
  log : Log
  calls : Nat → Option Call
  returned : List TransactionId

variable (world : World)

def World.setCall (backend : Nat) (call : Option Call) : World :=
  { world with calls := Function.update world.calls backend call }

/-- The call goes on with the shared value, unless that is not behind the local one. -/
def startWalk (backend : Nat) (request : Request) : World :=
  let oldestXmin := world.log.oldestXmin
  if precedes oldestXmin request.oldestLocalXmin then
    world.setCall backend (some (.walking request oldestXmin oldestXmin))
  else
    { world.setCall backend none with returned := world.returned ++ [oldestXmin] }

def applyProgress (backend : Nat) : Progress → World
  | .waits call => world.setCall backend (some call)
  | .initialized request oldestXmin =>
    startWalk { world with log := { world.log with oldestXmin := oldestXmin } } backend request
  | .finished _ log oldestXmin =>
    { world.setCall backend none with
      log := { log with oldestXmin := oldestXmin }
      returned := world.returned ++ [oldestXmin] }
  | .failed => world.setCall backend none

/-- A backend calls `DistributedLog_AdvanceOldestXmin`, where `transactionIdLimit` is the
oldest datfrozenxid, or goes on with a call. -/
inductive Action where
  | advanceOldestXmin (backend : Nat) (request : Request) (transactionIdLimit : TransactionId)
  | proceed (backend : Nat)
deriving Repr, DecidableEq

/-- One action.  The oldest datfrozenxid is a normal xid and not ahead of the oldest
local xmin. -/
def step : Action → Option World
  | .advanceOldestXmin backend request transactionIdLimit =>
    if world.calls backend = none ∧ isNormal request.oldestLocalXmin ∧ isNormal transactionIdLimit ∧
        ¬ follows transactionIdLimit request.oldestLocalXmin then
      if world.log.oldestXmin = 0 then
        some (world.setCall backend (some (.initializing request transactionIdLimit)))
      else some (startWalk world backend request)
    else none
  | .proceed backend =>
    (world.calls backend).map fun call =>
      applyProgress world backend (call.proceed world.log)

def run (actions : List Action) : Option World :=
  actions.foldlM step world

end

end Greenplum.DistributedLog
