/-
The probe cycles of the fault tolerance service (ftsprobe.c, fts.c): one
messaging state machine for each primary-mirror pair, run by a shared loop, and
the updates of gp_segment_configuration that it decides on.  What the network
and the clock do comes from outside.
-/
import Greenplum.KeyedRows
import Mathlib.Data.List.Sort

namespace Greenplum.Fts

open KeyedRows

section

inductive Role where
  | primary
  | mirror
deriving Repr, DecidableEq

inductive Mode where
  | inSync
  | notInSync
deriving Repr, DecidableEq

inductive Status where
  | up
  | down
deriving Repr, DecidableEq

/-- A row of gp_segment_configuration. -/
structure CdbComponentDatabaseInfo where
  dbid : Int
  segindex : Int
  role : Role
  mode : Mode
  status : Status
deriving Repr, DecidableEq

variable (segInfo : CdbComponentDatabaseInfo)

def segmentIsActivePrimary : Bool :=
  segInfo.role = .primary

def segmentIsAlive : Bool :=
  segInfo.status = .up

def segmentIsInSync : Bool :=
  segInfo.mode = .inSync

def statusOf (isSegmentAlive : Bool) : Status :=
  if isSegmentAlive then .up else .down

def modeOf (isInSync : Bool) : Mode :=
  if isInSync then .inSync else .notInSync

/-- The catalog table and the status bits that the dispatcher reads from shared
memory. -/
structure Configuration where
  catalog : List CdbComponentDatabaseInfo
  ftsStatus : Int → Bool

def probeWalRepUpdateConfig (dbid : Int) (role : Role)
    (isSegmentAlive isInSync : Bool) (catalog : List CdbComponentDatabaseInfo) :
    Option (List CdbComponentDatabaseInfo) :=
  updateRow CdbComponentDatabaseInfo.dbid dbid
    (fun row => { row with
      role := role, status := statusOf isSegmentAlive, mode := modeOf isInSync })
    catalog

/-- The order of `CdbComponentDatabaseInfoCompare`: by content, the primary
first. -/
def componentLe (left right : CdbComponentDatabaseInfo) : Bool :=
  if left.segindex = right.segindex then
    segmentIsActivePrimary left || !segmentIsActivePrimary right
  else left.segindex < right.segindex

/-- The segment databases that `getCdbComponentInfo` reads from the catalog. -/
def segmentDbInfo (catalog : List CdbComponentDatabaseInfo) : List CdbComponentDatabaseInfo :=
  (catalog.filter fun row => 0 ≤ row.segindex).insertionSort
    fun left right => componentLe left right = true

def ftsGetPeerSegment (cdbs : List CdbComponentDatabaseInfo)
    (content dbid : Int) : Option CdbComponentDatabaseInfo :=
  cdbs.find? fun segInfo => segInfo.segindex = content ∧ segInfo.dbid ≠ dbid

end

inductive FtsMessageState where
  | probeSegment
  | syncrepOffSegment
  | promoteSegment
  | probeRetryWait
  | syncrepOffRetryWait
  | promoteRetryWait
  | probeSuccess
  | syncrepOffSuccess
  | promoteSuccess
  | probeFailed
  | syncrepOffFailed
  | promoteFailed
  | responseProcessed
deriving Repr, DecidableEq

def isFtsMessageStateSuccess : FtsMessageState → Bool
  | .probeSuccess | .syncrepOffSuccess | .promoteSuccess => true
  | _ => false

def isFtsMessageStateFailed : FtsMessageState → Bool
  | .probeFailed | .syncrepOffFailed | .promoteFailed => true
  | _ => false

/-- `none` is the error "cannot determine next success state". -/
def nextSuccessState : FtsMessageState → Option FtsMessageState
  | .probeSegment => some .probeSuccess
  | .syncrepOffSegment => some .syncrepOffSuccess
  | .promoteSegment => some .promoteSuccess
  | _ => none

/-- `none` is the error "cannot determine next failed state". -/
def nextFailedState : FtsMessageState → Option FtsMessageState
  | .probeSegment | .probeFailed | .probeRetryWait => some .probeFailed
  | .syncrepOffSegment | .syncrepOffFailed | .syncrepOffRetryWait =>
    some .syncrepOffFailed
  | .promoteSegment | .promoteFailed | .promoteRetryWait => some .promoteFailed
  | _ => none

structure FtsResult where
  isPrimaryAlive : Bool
  isMirrorAlive : Bool
  isInSync : Bool
  isSyncRepEnabled : Bool
  isRoleMirror : Bool
  retryRequested : Bool
deriving Repr, DecidableEq

def FtsResult.zero : FtsResult := ⟨false, false, false, false, false, false⟩

structure PollEvents where
  pollIn : Bool
  pollOut : Bool
deriving Repr, DecidableEq

structure PollRevents where
  pollIn : Bool
  pollOut : Bool
  pollHup : Bool
  pollErr : Bool
  pollNval : Bool
deriving Repr, DecidableEq

def PollEvents.none : PollEvents := ⟨false, false⟩

def PollRevents.none : PollRevents := ⟨false, false, false, false, false⟩

/-- What the prober asks of a libpq connection: whether its status is
CONNECTION_OK and whether its asyncStatus is PGASYNC_IDLE. -/
structure PgConn where
  ok : Bool
  idle : Bool
deriving Repr, DecidableEq

structure FtsSegmentInfo where
  primaryCdbinfo : CdbComponentDatabaseInfo
  mirrorCdbinfo : CdbComponentDatabaseInfo
  result : FtsResult
  state : FtsMessageState
  pollEvents : PollEvents
  pollRevents : PollRevents
  startTime : Int
  retryStartTime : Int
  conn : Option PgConn
  retryCount : Nat
  xlogrecptr : Nat
  recoveryMakingProgress : Bool
deriving Repr, DecidableEq

def FtsSegmentInfo.initial (primary mirror : CdbComponentDatabaseInfo) : FtsSegmentInfo where
  primaryCdbinfo := primary
  mirrorCdbinfo := mirror
  result := .zero
  state := .probeSegment
  pollEvents := .none
  pollRevents := .none
  startTime := 0
  retryStartTime := 0
  conn := none
  retryCount := 0
  xlogrecptr := 0
  recoveryMakingProgress := false

/-- One entry for each primary that has a mirror. -/
def ftsWalRepInitProbeContext (cdbs : List CdbComponentDatabaseInfo) : List FtsSegmentInfo :=
  cdbs.filterMap fun primary =>
    if segmentIsActivePrimary primary then
      (ftsGetPeerSegment cdbs primary.segindex primary.dbid).map (FtsSegmentInfo.initial primary)
    else none

def allDone (context : List FtsSegmentInfo) : Bool :=
  context.all fun ftsInfo => ftsInfo.state = .responseProcessed

section

structure Settings where
  probeRetries : Nat
  probeTimeout : Int
deriving Repr, DecidableEq

inductive ConnectStart where
  | outOfMemory
  | bad
  | started
deriving Repr, DecidableEq

inductive PollingStatus where
  | ok
  | reading
  | writing
  | failed
deriving Repr, DecidableEq

/-- The columns of a response to an FTS message. -/
structure Response where
  isMirrorUp : Bool
  isInSync : Bool
  isSyncRepEnabled : Bool
  isRoleMirror : Bool
  requestRetry : Bool
deriving Repr, DecidableEq

inductive Received where
  | notConsumed
  | busy
  | noResult
  | errorStatus
  | wrongShape
  | response (values : Response)
deriving Repr, DecidableEq

inductive Message where
  | probe
  | syncrepOff
  | promote
deriving Repr, DecidableEq

/-- What libpq and the network do for one pair in one turn of the loop.
`recovery` is the replay location in an error message that says that the
segment is in recovery. -/
structure PairInput where
  start : ConnectStart
  polling : PollingStatus
  recovery : Option Nat
  revents : PollRevents
  sent : Bool
  received : Received
deriving Repr, DecidableEq

def checkIfFailedDueToRecoveryInProgress (recovery : Option Nat)
    (ftsInfo : FtsSegmentInfo) : FtsSegmentInfo :=
  match recovery with
  | none => ftsInfo
  | some tmpptr =>
    if tmpptr ≤ ftsInfo.xlogrecptr then ftsInfo
    else { ftsInfo with recoveryMakingProgress := true, xlogrecptr := tmpptr }

/-- A segment whose message failed. -/
def fail (ftsInfo : FtsSegmentInfo) : Option FtsSegmentInfo :=
  (nextFailedState ftsInfo.state).map fun state => { ftsInfo with state := state }

def ftsConnectStart (now : Int) (start : ConnectStart)
    (ftsInfo : FtsSegmentInfo) : Option FtsSegmentInfo :=
  let ftsInfo := { ftsInfo with conn := some ⟨false, false⟩ }
  match start with
  | .outOfMemory => none
  | .bad => fail ftsInfo
  | .started =>
    some { ftsInfo with
      pollEvents := { ftsInfo.pollEvents with pollOut := true }
      startTime := now }

variable (settings : Settings) (now : Int) (input : PairInput) (ftsInfo : FtsSegmentInfo)

/-- The turn of the connection once its socket is ready. -/
def ftsConnectPoll : Option FtsSegmentInfo :=
  match input.polling with
  | .ok =>
    some { ftsInfo with conn := some ⟨true, true⟩, pollEvents := ⟨false, true⟩ }
  | .reading =>
    some { ftsInfo with
      pollEvents := { ftsInfo.pollEvents with pollIn := true } }
  | .writing =>
    some { ftsInfo with
      pollEvents := { ftsInfo.pollEvents with pollOut := true } }
  | .failed =>
    (fail ftsInfo).map (checkIfFailedDueToRecoveryInProgress input.recovery)

def ftsConnect : Option FtsSegmentInfo :=
  if ftsInfo.conn.any PgConn.ok then some ftsInfo
  else
    match ftsInfo.state with
    | .probeSegment | .syncrepOffSegment | .promoteSegment =>
      let ftsInfo := { ftsInfo with recoveryMakingProgress := false }
      if ftsInfo.conn.isNone then ftsConnectStart now input.start ftsInfo
      else if ftsInfo.pollRevents.pollOut || ftsInfo.pollRevents.pollIn then
        ftsConnectPoll input ftsInfo
      else some ftsInfo
    | _ => some ftsInfo

def ftsCheckTimeout : Option FtsSegmentInfo :=
  if !isFtsMessageStateSuccess ftsInfo.state ∧ settings.probeTimeout < now - ftsInfo.startTime then
    fail ftsInfo
  else some ftsInfo

def ftsPoll : Option FtsSegmentInfo :=
  if ftsInfo.pollEvents.pollIn || ftsInfo.pollEvents.pollOut then
    let revents := input.revents
    let recorded := { ftsInfo with pollRevents := revents }
    let polled :=
      if (revents.pollIn && ftsInfo.pollEvents.pollIn) ||
          (revents.pollOut && ftsInfo.pollEvents.pollOut) then
        some { recorded with pollEvents := .none }
      else if revents.pollHup || revents.pollErr then fail recorded
      else if revents.pollIn || revents.pollOut || revents.pollNval then
        fail recorded
      else some recorded
    polled.bind (ftsCheckTimeout settings now)
  else some ftsInfo

def messageOf : FtsMessageState → Option Message
  | .probeSegment => some .probe
  | .syncrepOffSegment => some .syncrepOff
  | .promoteSegment => some .promote
  | _ => none

/-- The message that `ftsSend` hands to the connection, if any. -/
def ftsSendMessage : Option Message :=
  if ftsInfo.conn = some ⟨true, true⟩ ∧ ftsInfo.pollRevents.pollOut then
    messageOf ftsInfo.state
  else none

def ftsSend : Option FtsSegmentInfo :=
  if (ftsSendMessage ftsInfo).isSome then
    if input.sent then
      some { ftsInfo with
        conn := some ⟨true, false⟩, pollEvents := ⟨true, false⟩ }
    else fail ftsInfo
  else some ftsInfo

def probeRecordResponse (values : Response) (ftsInfo : FtsSegmentInfo) : FtsSegmentInfo :=
  { ftsInfo with
    result := ⟨true, values.isMirrorUp, values.isInSync,
      values.isSyncRepEnabled, values.isRoleMirror, values.requestRetry⟩ }

def ftsReceive : Option FtsSegmentInfo :=
  match ftsInfo.state with
  | .probeSegment | .syncrepOffSegment | .promoteSegment =>
    if ftsInfo.conn.any PgConn.ok && ftsInfo.pollRevents.pollIn then
      match input.received with
      | .response values =>
        (nextSuccessState ftsInfo.state).map fun state =>
          { probeRecordResponse values ftsInfo with state := state }
      | _ => fail ftsInfo
    else some ftsInfo
  | _ => some ftsInfo

def retryForFtsFailed : FtsSegmentInfo :=
  if ftsInfo.retryCount = settings.probeRetries then ftsInfo
  else
    { ftsInfo with
      retryCount := ftsInfo.retryCount + 1
      state :=
        if ftsInfo.state = .probeSuccess ∨ ftsInfo.state = .probeFailed then
          .probeRetryWait
        else if ftsInfo.state = .syncrepOffFailed then .syncrepOffRetryWait
        else .promoteRetryWait
      retryStartTime := now
      conn := none
      pollEvents := .none
      pollRevents := .none
      result := .zero }

def processRetry : FtsSegmentInfo :=
  match ftsInfo.state with
  | .probeSuccess =>
    if ftsInfo.result.retryRequested && segmentIsAlive ftsInfo.mirrorCdbinfo then
      retryForFtsFailed settings now ftsInfo
    else ftsInfo
  | .probeFailed | .syncrepOffFailed | .promoteFailed =>
    retryForFtsFailed settings now ftsInfo
  | .probeRetryWait | .syncrepOffRetryWait | .promoteRetryWait =>
    if now - ftsInfo.retryStartTime < 1 then ftsInfo
    else
      { ftsInfo with
        state :=
          if ftsInfo.state = .probeRetryWait then .probeSegment
          else if ftsInfo.state = .syncrepOffRetryWait then .syncrepOffSegment
          else .promoteSegment }
  | _ => ftsInfo

end

section

variable (ftsInfo : FtsSegmentInfo)

def ftsResponseReady : Bool :=
  isFtsMessageStateSuccess ftsInfo.state || isFtsMessageStateFailed ftsInfo.state

/-- The row of one segment, when it needs an update. -/
def updateIf (update : Bool) (dbid : Int) (role : Role)
    (isSegmentAlive isInSync : Bool) (catalog : List CdbComponentDatabaseInfo) :
    Option (List CdbComponentDatabaseInfo) :=
  if update then
    probeWalRepUpdateConfig dbid role isSegmentAlive isInSync catalog
  else some catalog

/-- `none` is the error of an update that does not find its row. -/
def updateConfiguration (primary mirror : CdbComponentDatabaseInfo)
    (newPrimaryRole newMirrorRole : Role)
    (isInSync isPrimaryAlive isMirrorAlive : Bool) (config : Configuration) :
    Option Configuration :=
  let modeChanged := isInSync != segmentIsInSync primary
  let updatePrimary := isPrimaryAlive != segmentIsAlive primary || modeChanged
  let updateMirror := isMirrorAlive != segmentIsAlive mirror || modeChanged
  if updatePrimary || updateMirror then do
    let afterPrimary ← updateIf updatePrimary primary.dbid newPrimaryRole
      isPrimaryAlive isInSync config.catalog
    let afterMirror ← updateIf updateMirror mirror.dbid newMirrorRole
      isMirrorAlive isInSync afterPrimary
    return {
      catalog := afterMirror
      ftsStatus := Function.update
        (Function.update config.ftsStatus primary.dbid isPrimaryAlive)
        mirror.dbid isMirrorAlive }
  else some config

variable (config : Configuration)

/-- The response to a probe. -/
def processProbeSuccess : Option (FtsSegmentInfo × Configuration) :=
  let primary := ftsInfo.primaryCdbinfo
  let mirror := ftsInfo.mirrorCdbinfo
  let isPrimaryAlive := ftsInfo.result.isPrimaryAlive
  let isMirrorAlive :=
    if isPrimaryAlive then ftsInfo.result.isMirrorAlive else segmentIsAlive mirror
  let isInSync := if isPrimaryAlive then ftsInfo.result.isInSync else false
  if ftsInfo.result.isSyncRepEnabled && !isMirrorAlive then
    if !ftsInfo.result.retryRequested then
      (updateConfiguration primary mirror .primary .mirror isInSync
        isPrimaryAlive isMirrorAlive config).map fun updated =>
          ({ ftsInfo with state := .syncrepOffSegment }, updated)
    else some ({ ftsInfo with state := .responseProcessed }, config)
  else if ftsInfo.result.isRoleMirror then
    some ({ ftsInfo with state := .promoteSegment }, config)
  else
    (updateConfiguration primary mirror .primary .mirror isInSync isPrimaryAlive
      isMirrorAlive config).map fun updated =>
        ({ ftsInfo with state := .responseProcessed }, updated)

/-- The primary did not answer. -/
def processProbeFailed : Option (FtsSegmentInfo × Configuration) :=
  let primary := ftsInfo.primaryCdbinfo
  let mirror := ftsInfo.mirrorCdbinfo
  let isPrimaryAlive := ftsInfo.result.isPrimaryAlive
  let isMirrorAlive :=
    if isPrimaryAlive then ftsInfo.result.isMirrorAlive else segmentIsAlive mirror
  let isInSync := if isPrimaryAlive then ftsInfo.result.isInSync else false
  if ftsInfo.recoveryMakingProgress then
    some ({ ftsInfo with state := .responseProcessed }, config)
  else if segmentIsInSync mirror then
    (updateConfiguration primary mirror .mirror .primary isInSync isPrimaryAlive
      isMirrorAlive config).map fun updated =>
        ({ ftsInfo with
          state := .promoteSegment
          primaryCdbinfo := mirror
          mirrorCdbinfo := primary }, updated)
  else some ({ ftsInfo with state := .responseProcessed }, config)

/-- The turn of `processResponse` for one segment. -/
def processOne : Option (FtsSegmentInfo × Configuration) :=
  if ftsResponseReady ftsInfo then
    let processed :=
      match ftsInfo.state with
      | .probeSuccess => processProbeSuccess ftsInfo config
      | .probeFailed => processProbeFailed ftsInfo config
      | _ => some ({ ftsInfo with state := .responseProcessed }, config)
    processed.map fun result =>
      ({ result.1 with
        result := .zero
        conn := none
        pollEvents := .none
        pollRevents := .none
        retryCount := 0 }, result.2)
  else some (ftsInfo, config)

/-- The loop over the segments; it stops early when the prober is no longer
active, after `limit` of them. -/
def processResponse : Nat → List FtsSegmentInfo → Configuration →
    Option (List FtsSegmentInfo × Configuration)
  | 0, context, config => some (context, config)
  | _, [], config => some ([], config)
  | limit + 1, ftsInfo :: rest, config => do
      let one ← processOne ftsInfo config
      let others ← processResponse limit rest one.2
      return (one.1 :: others.1, others.2)

end

section

/-- A message that was handed to the connection of a segment, with the catalog
at that moment. -/
structure Sent where
  message : Message
  dbid : Int
  content : Int
  catalog : List CdbComponentDatabaseInfo

variable (catalog : List CdbComponentDatabaseInfo)

def sentBy (ftsInfo : FtsSegmentInfo) : Option Sent :=
  (ftsSendMessage ftsInfo).map fun message =>
    ⟨message, ftsInfo.primaryCdbinfo.dbid, ftsInfo.primaryCdbinfo.segindex, catalog⟩

/-- What the environment does in one turn of the loop: for each content, the
clock, and how many segments are processed before the prober is found to be
inactive. -/
structure TurnInput where
  pairs : Int → PairInput
  now : Int
  later : Int
  limit : Nat

/-- The service: between two cycles there is no context. -/
structure World where
  config : Configuration
  context : Option (List FtsSegmentInfo)
  active : Bool
  log : List Sent

def World.initial : World :=
  ⟨⟨catalog, fun _ => false⟩, none, true, []⟩

variable (settings : Settings)

/-- One turn of the loop of `FtsWalRepMessageSegments`. -/
def messageSegmentsTurn (input : TurnInput)
    (context : List FtsSegmentInfo) (world : World) : Option World := do
  let pairInput := fun ftsInfo : FtsSegmentInfo =>
    input.pairs ftsInfo.primaryCdbinfo.segindex
  let connected ← context.mapM fun ftsInfo =>
    ftsConnect input.now (pairInput ftsInfo) ftsInfo
  let polled ← connected.mapM fun ftsInfo =>
    ftsPoll settings input.now (pairInput ftsInfo) ftsInfo
  let sent ← polled.mapM fun ftsInfo => ftsSend (pairInput ftsInfo) ftsInfo
  let received ← sent.mapM fun ftsInfo => ftsReceive (pairInput ftsInfo) ftsInfo
  let retried := received.map (processRetry settings input.later)
  let processed ← processResponse input.limit retried world.config
  return {
    config := processed.2
    context := some processed.1
    active := decide (context.length ≤ input.limit)
    log := world.log ++ polled.filterMap (sentBy world.config.catalog) }

inductive Action where
  | startCycle
  | turn (input : TurnInput)
  | deactivate
  | endCycle
  | restart

/-- `FtsLoop` reads the catalog before every cycle. -/
def readCdbComponentInfoAndUpdateStatus (config : Configuration) : Configuration :=
  { config with
    ftsStatus := (segmentDbInfo config.catalog).foldl
      (fun ftsStatus segInfo =>
        Function.update ftsStatus segInfo.dbid (segmentIsAlive segInfo))
      config.ftsStatus }

def step (world : World) : Action → Option World
  | .startCycle =>
    if world.context.isNone then
      some { world with
        config := readCdbComponentInfoAndUpdateStatus world.config
        context := some (ftsWalRepInitProbeContext (segmentDbInfo world.config.catalog))
        active := true }
    else none
  | .turn input =>
    match world.context with
    | some context =>
      if !allDone context && world.active then
        messageSegmentsTurn settings input context world
      else none
    | none => none
  | .deactivate => some { world with active := false }
  -- an error ends the process, and the next one starts from the catalog
  | .restart => some { world with context := none }
  | .endCycle =>
    match world.context with
    | some context =>
      if allDone context || !world.active then
        some { world with context := none }
      else none
    | none => none

def run (world : World) (actions : List Action) : Option World :=
  actions.foldlM (step settings) world

end

end Greenplum.Fts
