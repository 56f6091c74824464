/-
The distributed transaction manager of the query dispatcher (cdbtm.c), the
distributed part of RecordTransactionCommit (xact.c), the checkpoint of
in-progress commits (xlog.c, procarray.c) and the protocol commands at the
segments.  One action is one atomic step of one process.
-/
import Greenplum.TwoPhaseLog

namespace Greenplum.Dtm

open TwoPhase

/-- A segment, by its content id. -/
abbrev Content := Nat

/-- The identifier printed as `"%u-%.10u"` from the DTM start time and the
distributed transaction id. -/
structure Gid where
  distribTimeStamp : Nat
  gxid : Nat
deriving Repr, DecidableEq

inductive DtxState where
  | none
  | activeNotDistributed
  | activeDistributed
  | preparing
  | prepared
  | insertingCommitted
  | insertedCommitted
  | forcedCommitted
  | notifyingCommitPrepared
  | insertingForgetCommitted
  | insertedForgetCommitted
  | notifyingAbortNoPrepared
  | notifyingAbortSomePrepared
  | notifyingAbortPrepared
  | retryCommitPrepared
  | retryAbortPrepared
deriving Repr, DecidableEq

/-- The value of the enumerator, in the order of the declaration. -/
def DtxState.code : DtxState → Nat
  | .none => 0
  | .activeNotDistributed => 1
  | .activeDistributed => 2
  | .preparing => 3
  | .prepared => 4
  | .insertingCommitted => 5
  | .insertedCommitted => 6
  | .forcedCommitted => 7
  | .notifyingCommitPrepared => 8
  | .insertingForgetCommitted => 9
  | .insertedForgetCommitted => 10
  | .notifyingAbortNoPrepared => 11
  | .notifyingAbortSomePrepared => 12
  | .notifyingAbortPrepared => 13
  | .retryCommitPrepared => 14
  | .retryAbortPrepared => 15

/-- Whether `errstart` makes a PANIC of a FATAL of the dispatcher. -/
def DtxState.fatalIsPanic : DtxState → Bool
  | .preparing | .prepared | .insertingCommitted | .insertedCommitted | .forcedCommitted
  | .notifyingCommitPrepared | .notifyingAbortSomePrepared | .notifyingAbortPrepared
  | .retryCommitPrepared | .retryAbortPrepared => true
  | .none | .activeNotDistributed | .activeDistributed | .insertingForgetCommitted
  | .insertedForgetCommitted | .notifyingAbortNoPrepared => false

/-- The protocol commands that end a transaction. -/
inductive DtxProtocolCommand where
  | abortNoPrepared
  | prepare
  | abortSomePrepared
  | commitPrepared
  | abortPrepared
  | retryCommitPrepared
  | retryAbortPrepared
  | recoveryCommitPrepared
  | recoveryAbortPrepared
deriving Repr, DecidableEq

@[simp]
def DtxProtocolCommand.kind : DtxProtocolCommand → Kind
  | .prepare => .prepare
  | .commitPrepared => .commit
  | .retryCommitPrepared => .commit
  | .recoveryCommitPrepared => .commit
  | .abortNoPrepared => .abort
  | .abortSomePrepared => .abort
  | .abortPrepared => .abort
  | .retryAbortPrepared => .abort
  | .recoveryAbortPrepared => .abort

abbrev DtmMessage := Message Gid Content DtxProtocolCommand

abbrev DtmNet := Net Gid Content DtxProtocolCommand

inductive DtxContext where
  | localOnly
  | qdDistributedCapable
  | qdRetryPhase2
deriving Repr, DecidableEq

/-- The shared part of a distributed transaction.  `direct` is the content id
of a transaction that runs on one segment only. -/
structure TMGXACT where
  gid : Gid
  state : DtxState
  badPrepareGangs : Bool
  direct : Option Content
deriving Repr, DecidableEq

/-- Where a backend is between two of its atomic steps. -/
inductive Pc where
  | running
  | awaitPrepare (seq : Nat)
  | prepared
  | commitSection
  | insertCommit
  | commitInserted (lsn : Nat)
  | commitMarked (lsn : Nat)
  | commitFlushed
  | notify
  | awaitCommit (seq : Nat)
  | retryCommit (retry : Nat)
  | awaitRetryCommit (seq retry : Nat)
  | forget
  | insertForget
  | forgetInserted
  | endCommit
  | notifyAbort
  | awaitAbort (seq : Nat)
  | retryAbort (retry : Nat)
  | awaitRetryAbort (seq retry : Nat)
  | endAbort
  | leftBehind
deriving Repr, DecidableEq

/-- A backend of the dispatcher: its PGPROC entry, its context and where it is
in `CommitTransaction` or `AbortTransaction`. -/
structure Proc where
  gxact : TMGXACT
  inCommit : Bool
  context : DtxContext
  pc : Pc
deriving Repr, DecidableEq

def initGxact : TMGXACT := ⟨⟨0, 0⟩, .none, false, none⟩

def Proc.vacant : Proc := ⟨initGxact, false, .localOnly, .running⟩

/-- The progress of `recoverInDoubtTransactions`. -/
inductive Recovery where
  | off
  | notify (index : Nat)
  | awaitNotify (index seq : Nat)
  | gather (rest : List Content) (found : List Gid)
  | abort (rest : List Gid)
  | awaitAbort (gid : Gid) (rest : List Gid) (seq : Nat)
  | recheck (rest : List Content)
deriving Repr, DecidableEq

/-- The progress of `CreateCheckPoint`: the redo point is taken, the commits in
progress are listed, and the transactions to keep are collected. -/
inductive Checkpoint where
  | off
  | redoTaken (redo : Nat)
  | waiting (redo : Nat) (delaying : List (Nat × Gid))
  | collected (redo : Nat) (info : List Gid)
deriving Repr, DecidableEq

structure Config where
  segments : List Content
  maxBackends : Nat
  maxTmGxacts : Nat
  dtxPhase2RetryCount : Nat
  lastDistributedTransactionId : Nat

structure World where
  net : DtmNet
  wal : Wal Gid
  procs : Nat → Proc
  shmDistribTimeStamp : Nat
  shmGIDSeq : Nat
  shmTmRecoverred : Bool
  shmCommittedGxactArray : List Gid
  recovery : Recovery
  checkpoint : Checkpoint

@[simp]
def World.initial : World where
  net := Net.initial
  wal := Wal.initial
  procs := fun _ => .vacant
  shmDistribTimeStamp := 0
  shmGIDSeq := 0
  shmTmRecoverred := false
  shmCommittedGxactArray := []
  recovery := .off
  checkpoint := .off

variable (world : World) (backend : Nat) (proc : Proc)

def World.setProc : World :=
  { world with procs := Function.update world.procs backend proc }

variable (cfg : Config)

/-- `copyDirectDispatchFromTransaction`: the segments of a broadcast. -/
def Config.directed (direct : Option Content) : List Content :=
  match direct with
  | some content => [content]
  | none => cfg.segments

@[simp]
def setCurrentGxactState (state : DtxState) : Proc :=
  { proc with gxact := { proc.gxact with state := state } }

/-- `clearAndResetGxact` and `finishDistributedTransactionContext`. -/
def clearAndResetGxact (_ : Proc) : Proc := .vacant

/-- `setCurrentGxact`, with the identifier from `generateGID`. -/
def setCurrentGxact (world : World) (backend : Nat) : Option World :=
  let proc := world.procs backend
  if world.shmTmRecoverred ∧ backend < cfg.maxBackends ∧
      (proc.pc = .running ∧ proc.gxact.state = .none ∨ proc.pc = .leftBehind) ∧
      world.shmGIDSeq < cfg.lastDistributedTransactionId then
    let gxid := world.shmGIDSeq + 1
    let gxact : TMGXACT := ⟨⟨world.shmDistribTimeStamp, gxid⟩, .activeNotDistributed, false, none⟩
    some { world.setProc backend ⟨gxact, false, .qdDistributedCapable, .running⟩ with
      shmGIDSeq := gxid }
  else none

/-- The content id that `dtmPreCommand` leaves for a statement that goes to the
single content `statement`, or to all of them. -/
def directAfter (gxact : TMGXACT) (statement : Option Content) : Option Content :=
  match gxact.state with
  | .activeNotDistributed => statement
  | _ => if gxact.direct = statement then gxact.direct else none

def dtmPreCommand (world : World) (backend : Nat)
    (statement : Option Content) (needsTwoPhaseCommit : Bool) : Option World :=
  let proc := world.procs backend
  if proc.pc = .running ∧ (proc.gxact.state = .activeNotDistributed ∨
      proc.gxact.state = .activeDistributed) ∧
      (∀ content ∈ statement, content ∈ cfg.segments) then
    let state :=
      if needsTwoPhaseCommit then .activeDistributed else proc.gxact.state
    some (world.setProc backend { proc with
      gxact := { proc.gxact with
        direct := directAfter proc.gxact statement
        state := state } })
  else none

variable (command : DtxProtocolCommand)

/-- A broadcast for the transaction of a backend, which then waits for the
answers at `pc`. -/
def doDispatchDtxProtocolCommand (targets : List Content) (pc : Nat → Pc) : World :=
  { world.setProc backend { proc with pc := pc world.net.nextSeq } with
    net := world.net.broadcast command proc.gxact.gid targets }

/-- `prepareDtxTransaction` up to the broadcast of PREPARE. -/
def prepareDtxTransaction (world : World) (backend : Nat) : Option World :=
  let proc := world.procs backend
  if proc.pc = .running ∧ proc.context = .qdDistributedCapable then
    match proc.gxact.state with
    | .activeNotDistributed =>
      some (world.setProc backend (clearAndResetGxact proc))
    | .activeDistributed =>
      some (doDispatchDtxProtocolCommand world backend
        (setCurrentGxactState proc .preparing) .prepare
        (cfg.directed proc.gxact.direct) .awaitPrepare)
    | _ => none
  else none

/-- `rollbackDtxTransaction` up to the broadcast, from any state.  `none` is a
PANIC. -/
def rollbackDtxTransaction : Option Proc :=
  if proc.context ≠ .qdDistributedCapable then some proc
  else
    match proc.gxact.state with
    | .activeNotDistributed => some (clearAndResetGxact proc)
    | .activeDistributed =>
      some { setCurrentGxactState proc .notifyingAbortNoPrepared with
        pc := .notifyAbort }
    | .preparing =>
      if proc.gxact.badPrepareGangs then
        some { setCurrentGxactState proc .retryAbortPrepared with
          pc := .retryAbort 0 }
      else
        some { setCurrentGxactState proc .notifyingAbortSomePrepared with
          pc := .notifyAbort }
    | .prepared =>
      some { setCurrentGxactState proc .notifyingAbortPrepared with
        pc := .notifyAbort }
    | .notifyingAbortNoPrepared => some (clearAndResetGxact proc)
    -- a FATAL, and in these states a PANIC
    | .notifyingAbortSomePrepared => none
    | .notifyingAbortPrepared => none
    | .insertingCommitted => some (clearAndResetGxact proc)
    | .insertedCommitted => some (clearAndResetGxact proc)
    | .notifyingCommitPrepared => some (clearAndResetGxact proc)
    | .insertingForgetCommitted => some (clearAndResetGxact proc)
    | .insertedForgetCommitted => some (clearAndResetGxact proc)
    | .retryCommitPrepared => some (clearAndResetGxact proc)
    | .retryAbortPrepared => some (clearAndResetGxact proc)
    | .none => none
    | .forcedCommitted => none

/-- The result of a broadcast.  The dispatcher reports success only if every
segment did, and may lose answers. -/
def succeeded (seq : Nat) (command : DtxProtocolCommand)
    (gid : Gid) (targets : List Content) (received : Bool) : Bool :=
  received && decide (world.net.Answered seq command gid targets)

def notifyingAbortCommand : DtxState → DtxProtocolCommand
  | .notifyingAbortNoPrepared => .abortNoPrepared
  | .notifyingAbortSomePrepared => .abortSomePrepared
  | _ => .abortPrepared

/-- One step of a backend inside `doPrepareTransaction`,
`RecordTransactionCommit`, `doNotifyingCommitPrepared`,
`doInsertForgetCommitted`, `doNotifyingAbort` or `retryAbortPrepared`.
`received` and `badGangs` are what the dispatcher reports; before an abort
without prepared segments `received` says whether gangs exist.  `none` is a
PANIC, or a backend with nothing to do. -/
def advance (world : World) (backend : Nat) (received badGangs : Bool) : Option World :=
  let proc := world.procs backend
  let gxact := proc.gxact
  let targets := cfg.directed gxact.direct
  match proc.pc with
  | .running => none
  | .awaitPrepare seq =>
    if succeeded world seq .prepare gxact.gid targets received then
      some (world.setProc backend { setCurrentGxactState proc .prepared with pc := .prepared })
    else
      -- the ERROR runs AbortTransaction
      (rollbackDtxTransaction { proc with
        gxact := { gxact with badPrepareGangs := badGangs } }).map (world.setProc backend)
  | .prepared =>
    some (world.setProc backend { proc with inCommit := true, pc := .commitSection })
  | .commitSection =>
    some (world.setProc backend
      { setCurrentGxactState proc .insertingCommitted with
        pc := .insertCommit })
  | .insertCommit =>
    some { world.setProc backend { proc with pc := .commitInserted world.wal.log.length } with
      wal := world.wal.append (.commit gxact.gid) }
  | .commitInserted lsn =>
    some (world.setProc backend
      { setCurrentGxactState proc .insertedCommitted with
        pc := .commitMarked lsn })
  | .commitMarked lsn =>
    some { world.setProc backend { proc with pc := .commitFlushed } with
      wal := world.wal.flush (lsn + 1) }
  | .commitFlushed =>
    some (world.setProc backend { proc with inCommit := false, pc := .notify })
  | .notify =>
    some (doDispatchDtxProtocolCommand world backend
      (setCurrentGxactState proc .notifyingCommitPrepared) .commitPrepared targets .awaitCommit)
  | .awaitCommit seq =>
    if succeeded world seq .commitPrepared gxact.gid targets received then
      some (world.setProc backend { proc with pc := .forget })
    else
      some (world.setProc backend
        { setCurrentGxactState proc .retryCommitPrepared with
          context := .qdRetryPhase2, pc := .retryCommit 0 })
  | .retryCommit retry =>
    if retry < cfg.dtxPhase2RetryCount then
      some (doDispatchDtxProtocolCommand world backend proc
        .retryCommitPrepared targets (.awaitRetryCommit · (retry + 1)))
    else none
  | .awaitRetryCommit seq retry =>
    if succeeded world seq .retryCommitPrepared gxact.gid targets received then
      some (world.setProc backend { proc with pc := .forget })
    else some (world.setProc backend { proc with pc := .retryCommit retry })
  | .forget =>
    some (world.setProc backend
      { setCurrentGxactState proc .insertingForgetCommitted with
        pc := .insertForget })
  | .insertForget =>
    some { world.setProc backend { proc with pc := .forgetInserted } with
      wal := world.wal.append (.forget gxact.gid) }
  | .forgetInserted =>
    some (world.setProc backend
      { setCurrentGxactState proc .insertedForgetCommitted with
        pc := .endCommit })
  | .endCommit => some (world.setProc backend (clearAndResetGxact proc))
  | .notifyAbort =>
    if gxact.state = .notifyingAbortNoPrepared ∧ received = false then
      some (world.setProc backend { proc with pc := .endAbort })
    else
      some (doDispatchDtxProtocolCommand world backend proc
        (notifyingAbortCommand gxact.state) targets .awaitAbort)
  | .awaitAbort seq =>
    if gxact.state = .notifyingAbortNoPrepared then
      some (world.setProc backend { proc with pc := .endAbort })
    else if succeeded world seq (notifyingAbortCommand gxact.state) gxact.gid targets received then
      -- retryAbortPrepared is called after a success too
      some (world.setProc backend { proc with pc := .retryAbort 0 })
    else
      some (world.setProc backend
        { setCurrentGxactState proc .retryAbortPrepared with
          context := .qdRetryPhase2, pc := .retryAbort 0 })
  | .retryAbort retry =>
    if retry < cfg.dtxPhase2RetryCount then
      some (doDispatchDtxProtocolCommand world backend proc
        .retryAbortPrepared cfg.segments (.awaitRetryAbort · (retry + 1)))
    else none
  | .awaitRetryAbort seq retry =>
    if succeeded world seq .retryAbortPrepared gxact.gid cfg.segments received then
      some (world.setProc backend { proc with pc := .endAbort })
    else some (world.setProc backend { proc with pc := .retryAbort retry })
  | .endAbort => some (world.setProc backend (clearAndResetGxact proc))
  | .leftBehind => none

/-- `finishDistributedTransactionContext` with a transaction that the rollback
left alone.  The two retry states go up to PostgresMain, which does nothing
about them; the next transaction of the session takes the entry over. -/
def finishDistributedTransactionContext : Option Proc :=
  if proc.gxact.state = .retryCommitPrepared ∨ proc.gxact.state = .retryAbortPrepared then
    some { proc with context := .localOnly, pc := .leftBehind }
  -- a FATAL
  else if proc.gxact.state.fatalIsPanic then none
  else some .vacant

/-- `AbortTransaction` and `CleanupTransaction`, after an ERROR at any point or a
rollback by the user.  In the critical section of the commit record (`inCommit`)
an ERROR is a PANIC.  Behind it `RecordTransactionAbort` raises a PANIC for a
transaction with a local id, unless the state is NOTIFYING_COMMIT_PREPARED; that
one is a `crash`, this step is taken otherwise. -/
def abortTransaction : Option World :=
  let proc := world.procs backend
  if proc.gxact.state = .none ∨ proc.inCommit then none
  else if proc.context = .qdDistributedCapable then
    (rollbackDtxTransaction proc).map (world.setProc backend)
  else (finishDistributedTransactionContext proc).map (world.setProc backend)

/-- The backend exits, by a FATAL or at the end of its session, when nothing can
be dispatched any more. -/
def procExit : Option World :=
  let proc := world.procs backend
  if proc.gxact.state ≠ .none ∧ (proc.gxact.state.fatalIsPanic = false ∨ proc.pc = .leftBehind) then
    some (world.setProc backend .vacant)
  else none

/-- `performDtxProtocolCommand` at a segment: the branch it leaves, and
whether it returns without an error. -/
def performDtxProtocolCommand (branch : Branch) : Branch × Bool :=
  match command with
  | .prepare =>
    match branch with
    | .idle => (.prepared, true)
    | other => (other, false)
  | .commitPrepared =>
    match branch with
    | .prepared => (.committed, true)
    | other => (other, false)
  | .abortPrepared =>
    match branch with
    | .prepared => (.aborted, true)
    | other => (other, false)
  | .retryCommitPrepared | .recoveryCommitPrepared =>
    match branch with
    | .prepared => (.committed, true)
    | other => (other, true)
  | .retryAbortPrepared | .recoveryAbortPrepared =>
    match branch with
    | .prepared => (.aborted, true)
    | other => (other, true)
  | .abortNoPrepared =>
    match branch with
    | .idle => (.aborted, true)
    | other => (other, true)
  | .abortSomePrepared =>
    match branch with
    | .idle => (.aborted, true)
    | .prepared => (.aborted, true)
    | other => (other, true)

/-- What can happen to a message: it is executed and answered, executed with
the answer lost, lost itself, or its execution fails. -/
inductive Delivery where
  | answered
  | answerLost
  | lost
  | failed
deriving Repr, DecidableEq

def deliver (branch : Branch) : Delivery → Branch × Bool
  | .answered => performDtxProtocolCommand command branch
  | .answerLost => ((performDtxProtocolCommand command branch).1, false)
  | .lost => (branch, false)
  | .failed =>
    -- a PREPARE that fails aborts the local transaction
    if command = .prepare ∧ branch = .idle then (.aborted, false)
    else (branch, false)

def segmentExecutes (message : DtmMessage) (delivery : Delivery) : Option World :=
  if message ∈ world.net.sent ∧ message ∉ world.net.done then
    let outcome := deliver message.command (world.net.branch message.target message.gid) delivery
    some { world with net := world.net.answer message outcome.1 outcome.2 }
  else none

/-- The loop of `getDtxCheckPointInfo` over the array of redone commits, whose
index is advanced in the loop header and once more in the copy. -/
def copyCommittedGxacts : List Gid → List Gid
  | [] => []
  | [gid] => [gid]
  | gid :: _ :: rest => gid :: copyCommittedGxacts rest

def includeInCheckpointIsNeeded (gxact : TMGXACT) : Bool :=
  decide ((DtxState.insertedCommitted.code ≤ gxact.state.code ∧
      gxact.state.code < DtxState.insertedForgetCommitted.code) ∨
    gxact.state = .retryCommitPrepared)

/-- The transactions that a checkpoint keeps for the second phase. -/
def getDtxCheckPointInfo (world : World) : List Gid :=
  copyCommittedGxacts world.shmCommittedGxactArray ++
    (List.range cfg.maxBackends).filterMap fun backend =>
      let gxact := (world.procs backend).gxact
      if includeInCheckpointIsNeeded gxact then some gxact.gid else none

/-- `GetVirtualXIDsDelayingChkpt`: the backends inside their commit section. -/
def transactionsInCommit (world : World) : List (Nat × Gid) :=
  (List.range cfg.maxBackends).filterMap fun backend =>
    let proc := world.procs backend
    if proc.inCommit then some (backend, proc.gxact.gid) else none

def stillInCommit (entry : Nat × Gid) : Bool :=
  (world.procs entry.1).inCommit &&
    decide ((world.procs entry.1).gxact.gid = entry.2)

/-- One step of `CreateCheckPoint`. -/
def createCheckPoint (world : World) : Option World :=
  match world.checkpoint with
  | .off =>
    some { world with checkpoint := .redoTaken world.wal.log.length }
  | .redoTaken redo =>
    some { world with
      checkpoint := .waiting redo (transactionsInCommit cfg world) }
  | .waiting redo delaying =>
    if delaying.any (stillInCommit world) then none
    else some { world with
      checkpoint := .collected redo (getDtxCheckPointInfo cfg world) }
  | .collected redo info =>
    some { world with wal := world.wal.install redo info, checkpoint := .off }

variable (committed : List Gid)

/-- `redoDistributedCommitRecord`; `none` is the FATAL of a full array. -/
def redoDistributedCommitRecord (gid : Gid) : Option (List Gid) :=
  if gid ∈ committed then some committed
  else if cfg.maxTmGxacts ≤ committed.length then none
  else some (committed ++ [gid])

/-- `redoDistributedForgetCommitRecord`: the last entry takes the place of the
forgotten one. -/
def redoDistributedForgetCommitRecord (gid : Gid) : List Gid :=
  match committed.idxOf? gid with
  | some index =>
    match committed.getLast? with
    | some last => (committed.set index last).dropLast
    | none => committed
  | none => committed

def redoRecord : Record Gid → Option (List Gid)
  | .commit gid => redoDistributedCommitRecord cfg committed gid
  | .forget gid => some (redoDistributedForgetCommitRecord committed gid)

def redoDtxCheckPoint (saved : List Gid) : Option (List Gid) :=
  saved.foldlM (redoDistributedCommitRecord cfg) []

/-- Crash redo: the list of the checkpoint, then the log from its redo point. -/
def startupXLOG (wal : Wal Gid) : Option (List Gid) :=
  (redoDtxCheckPoint cfg wal.saved).bind fun committed =>
    (wal.log.drop wal.redo).foldlM (redoRecord cfg) committed

/-- A crash that keeps the first `length` records, and the restart at the time
`timestamp`. -/
def crash (cfg : Config) (world : World) (length timestamp : Nat) : Option World :=
  if world.wal.flushed ≤ length ∧ length ≤ world.wal.log.length then
    let wal := world.wal.crash length
    (startupXLOG cfg wal).map fun committed =>
      { net := world.net
        wal := wal
        procs := fun _ => .vacant
        shmDistribTimeStamp := timestamp
        shmGIDSeq := 0
        shmTmRecoverred := false
        shmCommittedGxactArray := committed
        recovery := .off
        checkpoint := .off }
  else none

/-- `select gid from pg_prepared_xacts` at one segment. -/
def preparedXacts (net : DtmNet) (content : Content) : List Gid :=
  ((net.sent.filter fun message => message.target = content).map
    Message.gid).filter fun gid => net.branch content gid = .prepared

/-- The hash table without duplicates. -/
def hashEnter (found : List Gid) (gids : List Gid) : List Gid :=
  gids.foldl (fun table gid => if gid ∈ table then table else table ++ [gid]) found

/-- One step of `recoverTM`.  A broadcast or a query that fails ends the
attempt. -/
def recoverTM (world : World) (received : Bool) : Option World :=
  match world.recovery with
  | .off =>
    if world.shmTmRecoverred then none
    else some { world with recovery := .notify 0 }
  | .notify index =>
    match world.shmCommittedGxactArray[index]? with
    | some gid =>
      some { world with
        net := world.net.broadcast .recoveryCommitPrepared gid cfg.segments
        recovery := .awaitNotify index world.net.nextSeq }
    | none =>
      some { world with
        shmCommittedGxactArray := []
        recovery := .gather cfg.segments [] }
  | .awaitNotify index seq =>
    match world.shmCommittedGxactArray[index]? with
    | some gid =>
      if succeeded world seq .recoveryCommitPrepared gid cfg.segments received then
        some { world with
          wal := world.wal.append (.forget gid)
          recovery := .notify (index + 1) }
      else some { world with recovery := .off }
    | none => none
  | .gather (content :: rest) found =>
    if received then
      some { world with
        recovery :=
          .gather rest (hashEnter found (preparedXacts world.net content)) }
    else some { world with recovery := .off }
  | .gather [] found => some { world with recovery := .abort found }
  | .abort (gid :: rest) =>
    some { world with
      net := world.net.broadcast .recoveryAbortPrepared gid cfg.segments
      recovery := .awaitAbort gid rest world.net.nextSeq }
  | .abort [] => some { world with recovery := .recheck cfg.segments }
  | .awaitAbort gid rest seq =>
    if succeeded world seq .recoveryAbortPrepared gid cfg.segments received then
      some { world with recovery := .abort rest }
    else some { world with recovery := .off }
  | .recheck (content :: rest) =>
    if received ∧ preparedXacts world.net content = [] then
      some { world with recovery := .recheck rest }
    else some { world with recovery := .off }
  | .recheck [] =>
    some { world with
      recovery := .off, shmTmRecoverred := true, shmGIDSeq := 1 }

inductive Action where
  | setCurrentGxact (backend : Nat)
  | dtmPreCommand (backend : Nat) (statement : Option Content) (needsTwoPhaseCommit : Bool)
  | prepareDtxTransaction (backend : Nat)
  | advance (backend : Nat) (received badGangs : Bool)
  | abortTransaction (backend : Nat)
  | procExit (backend : Nat)
  | segmentExecutes (message : DtmMessage) (delivery : Delivery)
  | xlogFlush (upto : Nat)
  | createCheckPoint
  | recoverTM (received : Bool)
  | crash (length timestamp : Nat)
deriving Repr, DecidableEq

def step (world : World) : Action → Option World
  | .setCurrentGxact backend => setCurrentGxact cfg world backend
  | .dtmPreCommand backend statement needsTwoPhaseCommit =>
    dtmPreCommand cfg world backend statement needsTwoPhaseCommit
  | .prepareDtxTransaction backend => prepareDtxTransaction cfg world backend
  | .advance backend received badGangs =>
    advance cfg world backend received badGangs
  | .abortTransaction backend => abortTransaction world backend
  | .procExit backend => procExit world backend
  | .segmentExecutes message delivery => segmentExecutes world message delivery
  | .xlogFlush upto =>
    if upto ≤ world.wal.log.length then
      some { world with wal := world.wal.flush upto }
    else none
  | .createCheckPoint => createCheckPoint cfg world
  | .recoverTM received => recoverTM cfg world received
  | .crash length timestamp => crash cfg world length timestamp

def run (world : World) (actions : List Action) : Option World :=
  actions.foldlM (step cfg) world

end Greenplum.Dtm
