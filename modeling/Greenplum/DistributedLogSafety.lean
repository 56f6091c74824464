/-
The log stays as long as it is needed: the oldest xmin does not pass a local xid whose
distributed xid some snapshot may still have to look up, and tests against such a
snapshot keep their answers.
-/
import Greenplum.DistributedLogAdvance

namespace Greenplum.DistributedLog

open DtmSnapshot

section

variable {first : Log} {xid : TransactionId} {call : Call} {log : Log}
  {oldestXmin transactionIdLimit : TransactionId} {request : Request}

section

variable (first : Log) (xid : TransactionId)

/-- A call has not passed the xid.  The search for the first page starts at an xid from
which neither this xid nor the oldest local xmin is out of reach; it counts only as long
as the shared value is not set. -/
def Call.Keeps (unset : Prop) : Call → Prop
  | .initializing request oldestXmin => unset →
      isNormal request.oldestLocalXmin = true ∧ isNormal oldestXmin = true ∧
        passes request (first.entry xid) = false ∧
        ∃ transactionIdLimit, isNormal transactionIdLimit = true ∧
          ahead transactionIdLimit xid < 2 ^ 31 ∧
          ahead transactionIdLimit request.oldestLocalXmin ≤ 2 ^ 31 ∧
          ahead transactionIdLimit oldestXmin ≤ ahead transactionIdLimit xid
  | .walking request _ oldestXmin =>
    isNormal oldestXmin = true ∧ passes request (first.entry xid) = false ∧
      ahead oldestXmin xid < 2 ^ 31
  | .truncating _ oldestXmin => isNormal oldestXmin = true ∧ ahead oldestXmin xid < 2 ^ 31

structure World.Keeps (world : World) : Prop where
  entry : world.log.entry = first.entry
  fresh : world.log.oldestXmin = 0 → first.oldestXmin = 0 ∧ world.log.pages = first.pages
  shared : world.log.oldestXmin ≠ 0 →
    isNormal world.log.oldestXmin = true ∧ ahead world.log.oldestXmin xid < 2 ^ 31
  calls : ∀ backend call, world.calls backend = some call →
    call.Keeps first xid (world.log.oldestXmin = 0)
  returned : ∀ oldestXmin ∈ world.returned,
    isNormal oldestXmin = true ∧ ahead oldestXmin xid < 2 ^ 31

/-- The arguments of a call do not let it pass the xid. -/
def Action.Keeps : Action → Prop
  | .advanceOldestXmin _ request transactionIdLimit =>
    passes request (first.entry xid) = false ∧
      (first.oldestXmin = 0 → ¬ precedes xid transactionIdLimit = true)
  | .proceed _ => True

end

theorem Call.Keeps.mono {unset unset' : Prop} (h : call.Keeps first xid unset)
    (himplies : unset' → unset) : call.Keeps first xid unset' := by
  cases call with
  | initializing request oldestXmin => exact fun hunset => h (himplies hunset)
  | walking request start oldestXmin => exact h
  | truncating start oldestXmin => exact h

variable {world next : World} {backend : Nat}

section

variable (h : world.Keeps first xid)

include h

theorem World.Keeps.setCall {call : Option Call}
    (hcall : call.elim True (Call.Keeps first xid (world.log.oldestXmin = 0))) :
    (world.setCall backend call).Keeps first xid := by
  refine ⟨h.entry, h.fresh, h.shared, ?_, h.returned⟩
  intro other found hfound
  rcases setCall_calls hfound with rfl | hold
  · exact hcall
  · exact h.calls other found hold

theorem World.Keeps.store
    (hentry : log.entry = world.log.entry) (hnormal : isNormal log.oldestXmin = true)
    (hahead : ahead log.oldestXmin xid < 2 ^ 31) :
    World.Keeps first xid { world with log := log } := by
  have hset := normal_ne_zero hnormal
  refine ⟨hentry.trans h.entry, fun hzero => absurd hzero hset, fun _ => ⟨hnormal, hahead⟩, ?_,
    h.returned⟩
  intro other found hfound
  exact (h.calls other found hfound).mono fun hzero => absurd hzero hset

theorem World.Keeps.returns
    (hnormal : isNormal oldestXmin = true) (hahead : ahead oldestXmin xid < 2 ^ 31) :
    World.Keeps first xid
      { world.setCall backend none with returned := world.returned ++ [oldestXmin] } := by
  have hcleared : (world.setCall backend none).Keeps first xid := h.setCall trivial
  refine ⟨h.entry, h.fresh, h.shared, hcleared.calls, ?_⟩
  exact List.forall_mem_append.mpr ⟨h.returned, List.forall_mem_singleton.mpr ⟨hnormal, hahead⟩⟩

theorem World.Keeps.startWalk (hset : world.log.oldestXmin ≠ 0)
    (hpasses : passes request (first.entry xid) = false) :
    (startWalk world backend request).Keeps first xid := by
  obtain ⟨hnormal, hahead⟩ := h.shared hset
  unfold DistributedLog.startWalk
  dsimp only
  split
  case isTrue =>
    exact h.setCall ⟨hnormal, hpasses, hahead⟩
  case isFalse => exact h.returns hnormal hahead

theorem World.Keeps.initialized (hpasses : passes request (first.entry xid) = false)
    (hnormal : isNormal oldestXmin = true) (hahead : ahead oldestXmin xid < 2 ^ 31) :
    (applyProgress world backend (.initialized request oldestXmin)).Keeps first xid := by
  have hstored : World.Keeps first xid
      { world with log := { world.log with oldestXmin := oldestXmin } } :=
    h.store rfl hnormal hahead
  exact hstored.startWalk (normal_ne_zero hnormal) hpasses

theorem World.Keeps.finished {start : TransactionId}
    (hentry : log.entry = world.log.entry) (hnormal : isNormal oldestXmin = true)
    (hahead : ahead oldestXmin xid < 2 ^ 31) :
    (applyProgress world backend (.finished start log oldestXmin)).Keeps first xid := by
  have hstored : World.Keeps first xid
      { world with log := { log with oldestXmin := oldestXmin } } :=
    h.store hentry hnormal hahead
  exact hstored.returns hnormal hahead

end

section

variable (hreach : ahead transactionIdLimit xid < 2 ^ 31)
  (hbehind : ahead transactionIdLimit oldestXmin ≤ ahead transactionIdLimit xid)

include hreach hbehind

/-- A search that has gone past the oldest local xmin has not passed the xid before. -/
theorem ahead_local {oldestLocalXmin : TransactionId}
    (hlocal : ahead transactionIdLimit oldestLocalXmin ≤ 2 ^ 31)
    (hfollows : 0 < ahead oldestLocalXmin oldestXmin ∧ ahead oldestLocalXmin oldestXmin < 2 ^ 31) :
    ahead oldestLocalXmin xid < 2 ^ 31 := by
  unfold ahead at *
  omega

theorem ahead_of_behind : ahead oldestXmin xid < 2 ^ 31 := by
  unfold ahead at *
  omega

end

section

variable (h : world.Keeps first xid) (hxid : isNormal xid = true)
  (hpage : first.oldestXmin = 0 → toPage xid ∈ first.pages)

include h hxid hpage

theorem World.Keeps.lookForPage
    (hcall : (Call.initializing request oldestXmin).Keeps first xid (world.log.oldestXmin = 0))
    (hundisturbed : (DistributedLog.lookForPage world.log request oldestXmin).Undisturbed
      world.log) :
    (applyProgress world backend (lookForPage world.log request oldestXmin)).Keeps first xid := by
  have hother : world.log.oldestXmin = 0 → toPage oldestXmin ∉ world.log.pages →
      toPage oldestXmin ≠ toPage xid := by
    intro hzero hmissing hsame
    obtain ⟨hunset, hpages⟩ := h.fresh hzero
    rw [hsame, hpages] at hmissing
    exact hmissing (hpage hunset)
  rcases lookForPage_cases world.log request oldestXmin with
    ⟨-, hprogress⟩ | ⟨hmissing, ⟨hfollows, hprogress⟩ | hprogress⟩
  · rw [hprogress] at hundisturbed ⊢
    obtain ⟨-, hnormal, hpasses, limit, -, hreach, -, hbehind⟩ := hcall hundisturbed
    exact h.initialized hpasses hnormal (ahead_of_behind hreach hbehind)
  · rw [hprogress] at hundisturbed ⊢
    obtain ⟨hlocal, hnormal, hpasses, limit, hlimit, hreach, hbound, hbehind⟩ := hcall hundisturbed
    have hnextBehind := ahead_nextPage_le hlimit hnormal hxid (hother hundisturbed hmissing) hbehind
    rw [follows_iff (advanceToNextPage_normal _) hlocal] at hfollows
    exact h.initialized hpasses hlocal (ahead_local hreach hnextBehind hbound hfollows)
  · rw [hprogress]
    apply h.setCall
    intro hzero
    obtain ⟨hlocal, hnormal, hpasses, limit, hlimit, hreach, hbound, hbehind⟩ := hcall hzero
    exact ⟨hlocal, advanceToNextPage_normal _, hpasses, limit, hlimit, hreach, hbound,
      ahead_nextPage_le hlimit hnormal hxid (hother hzero hmissing) hbehind⟩

theorem World.Keeps.proceed (hcall : call.Keeps first xid (world.log.oldestXmin = 0))
    (hundisturbed : (call.proceed world.log).Undisturbed world.log) :
    (applyProgress world backend (call.proceed world.log)).Keeps first xid := by
  cases call with
  | initializing request oldestXmin => exact h.lookForPage hxid hpage hcall hundisturbed
  | walking request start oldestXmin =>
    obtain ⟨hnormal, hpasses, hahead⟩ := hcall
    -- the walk stops at the xid itself, whose entry does not let the call pass
    have hadvance : ∀ other, isNormal other = true ∧ ahead other xid < 2 ^ 31 →
        other ≠ request.oldestLocalXmin → passes request (world.log.entry other) = true →
        isNormal (advance other) = true ∧ ahead (advance other) xid < 2 ^ 31 := by
      intro other hother _ hpassed
      have hne : other ≠ xid := by
        rintro rfl
        rw [h.entry, hpasses] at hpassed
        cases hpassed
      exact ⟨advance_normal other, lt_of_le_of_lt (ahead_advance hother.1 hxid hne) hother.2⟩
    rcases proceed_walking hadvance start ⟨hnormal, hahead⟩ with
      ⟨next, ⟨hnext, hreach⟩, hprogress | hprogress | hprogress⟩ | hprogress
    · rw [hprogress]
      exact h.setCall ⟨hnext, hpasses, hreach⟩
    · rw [hprogress]
      exact h.setCall ⟨hnext, hreach⟩
    · rw [hprogress]
      exact h.finished rfl hnext hreach
    · rw [hprogress]
      exact h.setCall trivial
  | truncating start oldestXmin =>
    exact h.finished (simpleLruTruncate_entry _ _) hcall.1 hcall.2

end

theorem step_keeps (hxid : isNormal xid = true)
    (hpage : first.oldestXmin = 0 → toPage xid ∈ first.pages) {action : Action}
    (h : world.Keeps first xid) (hlegal : action.Keeps first xid)
    (hundisturbed : UndisturbedStep world action) (hstep : step world action = some next) :
    next.Keeps first xid := by
  rcases step_cases hstep with
    ⟨backend, request, transactionIdLimit, rfl, hlocal, hlimit, hbehind,
        ⟨hzero, rfl⟩ | ⟨hset, rfl⟩⟩ |
      ⟨backend, call, rfl, hcall, rfl⟩
  · apply h.setCall
    intro _
    have hreach := hlegal.2 (h.fresh hzero).1
    rw [precedes_iff hxid hlimit] at hreach
    rw [follows_iff hlimit hlocal] at hbehind
    refine ⟨hlocal, hlimit, hlegal.1, transactionIdLimit, hlimit, lt_of_not_ge hreach, ?_, ?_⟩
    · unfold ahead at *
      omega
    · unfold ahead
      omega
  · exact h.startWalk hset hlegal.1
  · exact h.proceed hxid hpage (h.calls backend call hcall) (hundisturbed call hcall)

end

section

variable {log : Log} {reader : Reader} {localXid : TransactionId}

theorem judge_inProgress {ds : DistributedSnapshot} {isVacuumCheck : Bool}
    {answer : Option (Nat × Nat)} (hjudge : judge ds isVacuumCheck answer = .inProgress) :
    ∃ distribXid, answer = some (ds.distribTransactionTimeStamp, distribXid) ∧
      ds.xminAllDistributedSnapshots ≤ distribXid := by
  match answer, hjudge with
  | some (checkDistribTimeStamp, distribXid), hjudge =>
    rw [judge] at hjudge
    split at hjudge
    · cases hjudge
    case isFalse hsame =>
      unfold compareDistribXid at hjudge
      split at hjudge
      · cases hjudge
      case isFalse hall =>
        rw [not_not] at hsame
        exact ⟨distribXid, by rw [hsame], le_of_not_gt hall⟩

end

section

def World.initial (log : Log) : World := ⟨log, fun _ => none, []⟩

def Action.request? : Action → Option Request
  | .advanceOldestXmin _ request _ => some request
  | .proceed _ => none

def Action.transactionIdLimit? : Action → Option TransactionId
  | .advanceOldestXmin _ _ transactionIdLimit => some transactionIdLimit
  | .proceed _ => none

def requests (actions : List Action) : List Request := actions.filterMap Action.request?

def transactionIdLimits (actions : List Action) : List TransactionId :=
  actions.filterMap Action.transactionIdLimit?

section

variable (log : Log) (distribTimeStamp : BitVec 32) (actions : List Action)

/-- The calls are of one start of the DTM, whose distributed xids are within 2^31 of
each other. -/
structure OneStart : Prop where
  timestamp : ∀ request ∈ requests actions, request.distribTransactionTimeStamp = distribTimeStamp
  within : ∀ localXid, (log.entry localXid).distribTimeStamp = distribTimeStamp →
    ∀ request ∈ requests actions, (log.entry localXid).distribXid.toNat <
          request.xminAllDistributedSnapshots.toNat + 2 ^ 31 ∧
        request.xminAllDistributedSnapshots.toNat < (log.entry localXid).distribXid.toNat + 2 ^ 31

/-- The local xid has a distributed one that is not below that of any of the calls. -/
def AtOrAbove (localXid : TransactionId) : Prop :=
  (log.entry localXid).distribTimeStamp = distribTimeStamp ∧ ∀ request ∈ requests actions,
      request.xminAllDistributedSnapshots.toNat ≤ (log.entry localXid).distribXid.toNat

/-- The log is kept for the local xid when the calls begin: the oldest xmin has not
passed it or, while there is none, the xid is on a page of the log and not frozen. -/
def KeptAtFirst (localXid : TransactionId) : Prop :=
  if log.oldestXmin = 0 then
    toPage localXid ∈ log.pages ∧ ∀ transactionIdLimit ∈ transactionIdLimits actions,
        ¬ precedes localXid transactionIdLimit = true
  else ¬ precedes localXid log.oldestXmin = true

end

variable {log : Log} {distribTimeStamp : BitVec 32} {actions : List Action}
  {world : World} {localXid : TransactionId}

theorem initial_ordered (hvalid : log.oldestXmin = 0 ∨ isNormal log.oldestXmin = true) :
    (World.initial log).Ordered :=
  ⟨hvalid, fun _ _ hcall => (nomatch hcall), fun _ hlast => (nomatch hlast), List.isChain_nil⟩

theorem initial_keeps (hvalid : log.oldestXmin = 0 ∨ isNormal log.oldestXmin = true)
    (hnormal : isNormal localXid = true) (hkept : KeptAtFirst log actions localXid) :
    (World.initial log).Keeps log localXid := by
  refine ⟨rfl, fun hzero => ⟨hzero, rfl⟩, ?_, fun _ _ hcall => (nomatch hcall), ?_⟩
  · intro hset
    change log.oldestXmin ≠ 0 at hset
    have hshared := hvalid.resolve_left hset
    rw [KeptAtFirst, if_neg hset, precedes_iff hnormal hshared] at hkept
    exact ⟨hshared, lt_of_not_ge hkept⟩
  · intro oldestXmin hmem
    exact absurd hmem List.not_mem_nil

section

variable (hstart : OneStart log distribTimeStamp actions)
  (habove : AtOrAbove log distribTimeStamp actions localXid)

include hstart habove

/-- A distributed xid that is not below the one of the call stops the call. -/
theorem not_passes {request : Request} (hrequest : request ∈ requests actions) :
    passes request (log.entry localXid) = false := by
  have hbelow := habove.2 request hrequest
  have hwithin := (hstart.within localXid habove.1 request hrequest).1
  have hnot : precedes (log.entry localXid).distribXid
      request.xminAllDistributedSnapshots = false := by
    rw [precedes, transactionIdPrecedes]
    split
    · rw [decide_eq_false_iff_not]
      omega
    · rw [decide_eq_false_iff_not]
      omega
  rw [passes, hnot, Bool.or_false, decide_eq_false_iff_not, not_not, habove.1,
    hstart.timestamp request hrequest]

theorem actions_keep (hkept : KeptAtFirst log actions localXid) :
    ∀ action ∈ actions, action.Keeps log localXid := by
  intro action hmem
  cases action with
  | advanceOldestXmin backend request transactionIdLimit =>
    constructor
    · exact not_passes hstart habove (List.mem_filterMap.mpr ⟨_, hmem, rfl⟩)
    · intro hzero
      rw [KeptAtFirst, if_pos hzero] at hkept
      exact hkept.2 _ (List.mem_filterMap.mpr ⟨_, hmem, rfl⟩)
  | proceed backend => trivial

end

section

variable (hvalid : log.oldestXmin = 0 ∨ isNormal log.oldestXmin = true)
  (hrun : run (World.initial log) actions = some world)
  (hundisturbed : Undisturbed (World.initial log) actions)
  (hstart : OneStart log distribTimeStamp actions)

include hvalid hrun hundisturbed hstart

theorem run_world_keeps (hnormal : isNormal localXid = true)
    (habove : AtOrAbove log distribTimeStamp actions localXid)
    (hkept : KeptAtFirst log actions localXid) : world.Keeps log localXid := by
  have hpage : log.oldestXmin = 0 → toPage localXid ∈ log.pages := by
    intro hzero
    rw [KeptAtFirst, if_pos hzero] at hkept
    exact hkept.1
  exact run_keeps (step_keeps hnormal hpage) actions (initial_keeps hvalid hnormal hkept)
    (actions_keep hstart habove hkept) hundisturbed hrun

/-- A test that shows a transaction in progress does not show it otherwise after the
calls. -/
theorem run_test {reader : Reader}
    (htimestamp : reader.dslm.ds.distribTransactionTimeStamp = distribTimeStamp.toNat)
    (hall : ∀ request ∈ requests actions, request.xminAllDistributedSnapshots.toNat ≤
        reader.dslm.ds.xminAllDistributedSnapshots) {isVacuumCheck : Bool}
    {answer : DistributedSnapshotCommitted} {before after : Reader}
    (hbefore : committedTestOn log reader localXid isVacuumCheck = .ok (.inProgress, before))
    (hafter : committedTestOn world.log reader localXid isVacuumCheck = .ok (answer, after)) :
    answer = .inProgress := by
  unfold committedTestOn at hbefore hafter
  split at hbefore
  case isFalse hcached =>
    rw [if_neg hcached, hbefore] at hafter
    cases hafter
    rfl
  case isTrue hconsults =>
    rw [if_pos hconsults] at hafter
    cases hcheck : log.committedCheck localXid with
    | error problem =>
      rw [hcheck] at hbefore
      cases hbefore
    | ok found =>
      rw [hcheck] at hbefore
      have hjudged := committedTest_judge hconsults found isVacuumCheck
      rw [Except.ok.inj hbefore] at hjudged
      obtain ⟨distribXid, hfound, hbelow⟩ := judge_inProgress hjudged.symm
      subst hfound
      obtain ⟨hset, hfirst, hentry, -, hstamp, hxid⟩ := committedCheck_some hcheck
      have hnormal := (consultsLog_misses hconsults).1
      have habove : AtOrAbove log distribTimeStamp actions localXid := by
        refine ⟨BitVec.eq_of_toNat_eq (hstamp.trans htimestamp), ?_⟩
        intro request hrequest
        rw [hxid]
        exact (hall request hrequest).trans hbelow
      have hkept : KeptAtFirst log actions localXid := by
        rw [KeptAtFirst, if_neg hset]
        exact hfirst
      have hkeeps := run_world_keeps hvalid hrun hundisturbed hstart hnormal habove hkept
      have hsetLast : world.log.oldestXmin ≠ 0 := fun hzero => hset (hkeeps.fresh hzero).1
      obtain ⟨hlast, hreach⟩ := hkeeps.shared hsetLast
      have hlastKept : ¬ precedes localXid world.log.oldestXmin = true := by
        rw [precedes_iff hnormal hlast]
        exact not_le_of_gt hreach
      cases hcheck' : world.log.committedCheck localXid with
      | error problem =>
        rw [hcheck'] at hafter
        cases hafter
      | ok found' =>
        have hsame := (committedCheck_ok hcheck').2
        rw [if_neg hlastKept] at hsame
        rw [hkeeps.entry, ← hentry] at hsame
        rw [hcheck', hsame] at hafter
        rw [hafter] at hbefore
        cases hbefore
        rfl

end

/-- In every run in which no other call changes the oldest xmin between the place where
a call reads it and the place where the call stores it, the oldest xmin that the calls
return does not decrease and does not pass a distributed xid at or above the one of the
calls, and no test against a snapshot that is at least as new changes from in progress to
another answer. -/
theorem undisturbed_run_safe (log : Log)
    (hvalid : log.oldestXmin = 0 ∨ isNormal log.oldestXmin = true)
    (distribTimeStamp : BitVec 32) (actions : List Action) (world : World)
    (hrun : run (World.initial log) actions = some world)
    (hstart : OneStart log distribTimeStamp actions)
    (hundisturbed : Undisturbed (World.initial log) actions) :
    world.returned.IsChain NotDecreasing ∧ (∀ localXid, isNormal localXid = true →
        AtOrAbove log distribTimeStamp actions localXid → KeptAtFirst log actions localXid →
          ∀ oldestXmin ∈ world.returned, ¬ precedes localXid oldestXmin = true) ∧
      ∀ (reader : Reader) (localXid : TransactionId) (isVacuumCheck : Bool),
        reader.dslm.ds.distribTransactionTimeStamp = distribTimeStamp.toNat →
        (∀ request ∈ requests actions, request.xminAllDistributedSnapshots.toNat ≤
          reader.dslm.ds.xminAllDistributedSnapshots) →
        ∀ before, committedTestOn log reader localXid isVacuumCheck = .ok (.inProgress, before) →
          ∀ answer after, committedTestOn world.log reader localXid isVacuumCheck =
              .ok (answer, after) → answer = .inProgress := by
  refine ⟨?_, ?_, ?_⟩
  · have hordered : world.Ordered :=
      run_keeps (fun h (_ : True) hundisturbed hstep => step_ordered h hundisturbed hstep)
        actions (initial_ordered hvalid) (fun _ _ => trivial) hundisturbed hrun
    exact hordered.chain
  · intro localXid hnormal habove hkept oldestXmin hmem
    have hkeeps := run_world_keeps hvalid hrun hundisturbed hstart hnormal habove hkept
    obtain ⟨hreturned, hreach⟩ := hkeeps.returned oldestXmin hmem
    rw [precedes_iff hnormal hreturned]
    exact not_le_of_gt hreach
  · intro reader localXid isVacuumCheck htimestamp hall before hbefore answer after hafter
    exact run_test hvalid hrun hundisturbed hstart htimestamp hall hbefore hafter

end

namespace DistributedLogWitness

/-- Local xid 12 committed for distributed xid 7. -/
def oneCommitted : Log :=
  { entry := fun localXid => if localXid = 12 then ⟨5, 7⟩ else ⟨0, 0⟩
    pages := [0]
    latestPageNumber := 0
    oldestXmin := 10 }

/-- Two calls after each other; the second one stops at xid 12. -/
def inTurn : List Action :=
  [.advanceOldestXmin 0 ⟨11, 5, 6⟩ 10, .proceed 0, .advanceOldestXmin 1 ⟨20, 5, 7⟩ 10, .proceed 1]

theorem inTurn_oneStart : OneStart oneCommitted 5 inTurn := by
  constructor
  · decide
  · intro localXid
    unfold oneCommitted
    dsimp only
    split
    · exact fun _ => by decide
    · exact fun hzero => absurd hzero (by decide)

theorem inTurn_safe : ∃ world, run (World.initial oneCommitted) inTurn = some world ∧
      world.returned = [11, 12] ∧ world.returned.IsChain NotDecreasing ∧
      ∀ oldestXmin ∈ world.returned, ¬ precedes 12 oldestXmin = true := by
  have hreturned : (run (World.initial oneCommitted) inTurn).map World.returned =
      some [11, 12] := by decide
  rw [Option.map_eq_some_iff] at hreturned
  obtain ⟨world, hrun, hreturned⟩ := hreturned
  obtain ⟨hchain, hkept, -⟩ := undisturbed_run_safe oneCommitted (.inr rfl) 5 inTurn world hrun
    inTurn_oneStart (by decide)
  exact ⟨world, hrun, hreturned, hchain,
    hkept 12 rfl ⟨rfl, by decide⟩ (by unfold KeptAtFirst; decide)⟩

/-- No distributed transaction has committed. -/
def nothingCommitted : Log := { oneCommitted with entry := fun _ => ⟨0, 0⟩ }

/-- Two calls wait for the same page; the one that goes farther is the first to go on. -/
def racing : List Action :=
  [.advanceOldestXmin 0 ⟨12, 5, 6⟩ 10, .advanceOldestXmin 1 ⟨14, 5, 6⟩ 10, .proceed 1, .proceed 0]

theorem racing_decreases :
    OneStart nothingCommitted 5 racing ∧ (requests racing).Pairwise (fun earlier later =>
        earlier.xminAllDistributedSnapshots ≤ later.xminAllDistributedSnapshots) ∧
      (run (World.initial nothingCommitted) racing).map World.returned = some [14, 12] ∧
      ¬ NotDecreasing 14 12 := by
  refine ⟨⟨by decide, ?_⟩, by decide, by decide, ?_⟩
  · intro localXid hzero
    change (0 : BitVec 32) = 5 at hzero
    exact absurd hzero (by decide)
  · unfold NotDecreasing
    decide

end DistributedLogWitness

end Greenplum.DistributedLog
