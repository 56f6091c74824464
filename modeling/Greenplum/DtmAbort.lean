/-
The announcement of an abort as one backend makes it: `doNotifyingAbort` and
`retryAbortPrepared` of cdbtm.c, over any results of the broadcasts.  The retries
are entered whether or not the first broadcast failed.
-/
import Greenplum.DtmCoordinator

namespace Greenplum.Dtm

open List

/-- What a call of `doDispatchDtxProtocolCommand` comes to: every segment reports
success, some segment does not, or the dispatch raises an error. -/
inductive Dispatched where
  | succeeded
  | failed
  | raised
deriving Repr, DecidableEq

/-- A broadcast that was made, to one content or to all of them. -/
structure Broadcast where
  command : DtxProtocolCommand
  direct : Option Content
  result : Dispatched
deriving Repr, DecidableEq

/-- The transaction being aborted, with the broadcasts made for it so far. -/
structure Aborting where
  gxact : TMGXACT
  context : DtxContext
  broadcasts : List Broadcast
deriving Repr, DecidableEq

/-- How a routine ends: it returns, an error leaves it, or the server goes down. -/
inductive Ending where
  | returned
  | raised
  | panic
deriving Repr, DecidableEq

section

variable (results : Nat → Dispatched)

/-- The next broadcast; `results` says what each of them comes to. -/
def Aborting.dispatch (aborting : Aborting) (command : DtxProtocolCommand)
    (direct : Option Content) : Aborting × Dispatched :=
  let result := results aborting.broadcasts.length
  ({ aborting with broadcasts := aborting.broadcasts ++ [⟨command, direct, result⟩] }, result)

/-- The loop of `retryAbortPrepared`, with the number of retries that are left.  An
error of the dispatch is caught and counts as a failure; retries go to all the
segments, through new gangs. -/
def retryAbortLoop : Nat → Aborting → Aborting × Bool
  | 0, aborting => (aborting, false)
  | left + 1, aborting =>
    let (aborting, result) := aborting.dispatch results .retryAbortPrepared none
    if result = .succeeded then (aborting, true) else retryAbortLoop left aborting

def retryAbortPrepared (dtxPhase2RetryCount : Nat) (aborting : Aborting) : Aborting × Ending :=
  let (aborting, succeeded) := retryAbortLoop results dtxPhase2RetryCount aborting
  if succeeded then (aborting, .returned) else (aborting, .panic)

/-- `none` is the state that the assertion at the head of the routine excludes. -/
def doNotifyingAbort (dtxPhase2RetryCount : Nat) (gangsExist : Bool)
    (aborting : Aborting) : Option (Aborting × Ending) :=
  let direct := aborting.gxact.direct
  match aborting.gxact.state with
  | .notifyingAbortNoPrepared =>
    if gangsExist then
      -- errors of this dispatch are not caught
      let (aborting, result) := aborting.dispatch results .abortNoPrepared direct
      some (aborting, if result = .raised then .raised else .returned)
    else some (aborting, .returned)
  | .notifyingAbortSomePrepared | .notifyingAbortPrepared =>
    let command := notifyingAbortCommand aborting.gxact.state
    let (aborting, result) := aborting.dispatch results command direct
    let aborting :=
      if result = .succeeded then aborting
      else
        { aborting with
          gxact := { aborting.gxact with state := .retryAbortPrepared }
          context := .qdRetryPhase2 }
    -- the call stands behind the branch for a failure, not in it
    some (retryAbortPrepared results dtxPhase2RetryCount aborting)
  | _ => none

end

/-- A broadcast that may abort prepared transactions is not followed by another one
nor by a PANIC once it has succeeded, and a PANIC is preceded by failures of the
first broadcast and of all the retries. -/
structure AbortDiscipline (dtxPhase2RetryCount : Nat) (run : Aborting × Ending) : Prop where
  stops : ∀ before broadcast after, run.1.broadcasts = before ++ broadcast :: after →
    broadcast.command ≠ .abortNoPrepared → broadcast.result = .succeeded →
    after = [] ∧ run.2 ≠ .panic
  exhausts : run.2 = .panic → run.1.broadcasts.length = dtxPhase2RetryCount + 1 ∧
    ∀ broadcast ∈ run.1.broadcasts, broadcast.result ≠ .succeeded

section

variable (results : Nat → Dispatched)

/-- The retries fail until one succeeds or none is left. -/
theorem retryAbortLoop_spec (left : Nat) :
    ∀ aborting : Aborting, ∃ (failures : List Broadcast) (next : Aborting),
      (∀ broadcast ∈ failures, broadcast.result ≠ .succeeded) ∧
      (retryAbortLoop results left aborting = (next, false) ∧ failures.length = left ∧
          next.broadcasts = aborting.broadcasts ++ failures ∨
        retryAbortLoop results left aborting = (next, true) ∧
          ∃ last : Broadcast, last.result = .succeeded ∧
            next.broadcasts = aborting.broadcasts ++ failures ++ [last]) := by
  induction left with
  | zero =>
    intro aborting
    exact ⟨[], aborting, by simp, .inl ⟨rfl, rfl, (append_nil _).symm⟩⟩
  | succ left ih =>
    intro aborting
    let next := (aborting.dispatch results .retryAbortPrepared none).1
    let made : Broadcast := ⟨.retryAbortPrepared, none, results aborting.broadcasts.length⟩
    have hnext : next.broadcasts = aborting.broadcasts ++ [made] := rfl
    by_cases hresult : results aborting.broadcasts.length = .succeeded
    · have hloop : retryAbortLoop results (left + 1) aborting = (next, true) := by
        exact if_pos hresult
      refine ⟨[], next, by simp, .inr ⟨hloop, made, hresult, ?_⟩⟩
      rw [append_nil]
      exact hnext
    · have hloop : retryAbortLoop results (left + 1) aborting =
          retryAbortLoop results left next := by
        exact if_neg hresult
      obtain ⟨failures, final, hfailures, hend⟩ := ih next
      rw [hnext, ← hloop] at hend
      refine ⟨made :: failures, final, ?_, ?_⟩
      · intro broadcast hbroadcast
        rcases mem_cons.mp hbroadcast with rfl | hrest
        · exact hresult
        · exact hfailures broadcast hrest
      · rcases hend with ⟨hfalse, hlength, hall⟩ | ⟨htrue, last, hlast, hall⟩
        · refine .inl ⟨hfalse, by rw [length_cons, hlength], ?_⟩
          rw [hall, append_assoc]
          rfl
        · refine .inr ⟨htrue, last, hlast, ?_⟩
          rw [hall]
          simp

/-- The discipline of the retries that follow a first broadcast: it is kept exactly
if that broadcast did not succeed. -/
theorem retryAbortPrepared_discipline_iff (dtxPhase2RetryCount : Nat)
    {aborting : Aborting} {first : Broadcast} (honly : aborting.broadcasts = [first])
    (hcommand : first.command ≠ .abortNoPrepared) :
    AbortDiscipline dtxPhase2RetryCount (retryAbortPrepared results dtxPhase2RetryCount aborting) ↔
      first.result ≠ .succeeded := by
  obtain ⟨failures, next, hfailures, hend⟩ :=
    retryAbortLoop_spec results dtxPhase2RetryCount aborting
  rw [honly] at hend
  unfold retryAbortPrepared
  constructor
  · intro hdiscipline hfirst
    rcases hend with ⟨hrun, -, hall⟩ | ⟨hrun, last, -, hall⟩
    · rw [hrun] at hdiscipline
      exact (hdiscipline.stops [] first failures hall hcommand hfirst).2 rfl
    · rw [hrun] at hdiscipline
      have hnone := (hdiscipline.stops [] first (failures ++ [last]) hall hcommand hfirst).1
      exact append_ne_nil_of_right_ne_nil failures (cons_ne_nil last []) hnone
  · intro hfirst
    have hfailed : ∀ broadcast ∈ [first] ++ failures, broadcast.result ≠ .succeeded := by
      intro broadcast hbroadcast
      rcases mem_cons.mp hbroadcast with rfl | hrest
      · exact hfirst
      · exact hfailures broadcast hrest
    rcases hend with ⟨hrun, hlength, hall⟩ | ⟨hrun, last, hlast, hall⟩
    · simp only [hrun, Bool.false_eq_true, if_false]
      constructor
      · intro before broadcast after hsplit _ hresult
        rw [hall] at hsplit
        exact absurd hresult (hfailed broadcast (hsplit ▸ by simp))
      · intro _
        rw [hall, length_append, hlength]
        exact ⟨Nat.add_comm _ _, hfailed⟩
    · simp only [hrun, if_true]
      constructor
      · intro before broadcast after hsplit _ hresult
        refine ⟨?_, Ending.noConfusion⟩
        -- a success that is not the last broadcast would be one of the failures
        by_contra hafter
        obtain ⟨init, final, rfl⟩ := eq_nil_or_concat after |>.resolve_left hafter
        rw [hall, concat_eq_append, ← cons_append, ← append_assoc] at hsplit
        have hinit : [first] ++ failures = before ++ broadcast :: init :=
          append_inj_left' hsplit rfl
        exact absurd hresult (hfailed broadcast (hinit ▸ by simp))
      · exact Ending.noConfusion

end

/-- The states in which the routine runs. -/
def DtxState.notifyingAbort (state : DtxState) : Prop :=
  state = .notifyingAbortNoPrepared ∨ state = .notifyingAbortSomePrepared ∨
    state = .notifyingAbortPrepared

/-- The announcement of an abort ends, and it keeps the discipline exactly if no
segment can be prepared or the first broadcast does not succeed. -/
theorem doNotifyingAbort_discipline_iff (results : Nat → Dispatched)
    (dtxPhase2RetryCount : Nat) (gangsExist : Bool) (gxact : TMGXACT) (context : DtxContext)
    (hstate : gxact.state.notifyingAbort) :
    ∃ run, doNotifyingAbort results dtxPhase2RetryCount gangsExist ⟨gxact, context, []⟩ = some run ∧
      (AbortDiscipline dtxPhase2RetryCount run ↔
        gxact.state = .notifyingAbortNoPrepared ∨ results 0 ≠ .succeeded) := by
  rcases hstate with hnone | hprepared
  · -- at most one broadcast, which is not for prepared transactions
    have hquiet : ∀ run : Aborting × Ending, run.2 ≠ .panic →
        (∀ broadcast ∈ run.1.broadcasts, broadcast.command = .abortNoPrepared) →
        AbortDiscipline dtxPhase2RetryCount run := by
      intro run hend hcommands
      refine ⟨?_, fun hpanic => absurd hpanic hend⟩
      intro before broadcast after hsplit hcommand _
      exact absurd (hcommands broadcast (hsplit ▸ by simp)) hcommand
    unfold doNotifyingAbort
    rw [hnone]
    cases gangsExist with
    | false =>
      refine ⟨_, rfl, iff_of_true (hquiet _ Ending.noConfusion ?_) (.inl rfl)⟩
      exact fun _ hmem => absurd hmem not_mem_nil
    | true =>
      refine ⟨_, rfl, iff_of_true (hquiet _ ?_ ?_) (.inl rfl)⟩
      · split <;> exact Ending.noConfusion
      · intro broadcast hbroadcast
        rw [mem_singleton.mp hbroadcast]
  · have hsome : gxact.state ≠ .notifyingAbortNoPrepared := by
      rcases hprepared with heq | heq <;> rw [heq] <;> exact DtxState.noConfusion
    rw [or_iff_right hsome]
    let first : Broadcast := ⟨notifyingAbortCommand gxact.state, gxact.direct, results 0⟩
    have hcommand : first.command ≠ .abortNoPrepared := by
      change notifyingAbortCommand gxact.state ≠ _
      rcases hprepared with heq | heq <;> rw [heq] <;> exact DtxProtocolCommand.noConfusion
    let next : Aborting :=
      if results 0 = .succeeded then ⟨gxact, context, [first]⟩
      else ⟨{ gxact with state := .retryAbortPrepared }, .qdRetryPhase2, [first]⟩
    have honly : next.broadcasts = [first] := by
      change (if _ then _ else _ : Aborting).broadcasts = _
      split <;> rfl
    refine ⟨_, ?_, retryAbortPrepared_discipline_iff results dtxPhase2RetryCount honly hcommand⟩
    obtain ⟨gid, state, badPrepareGangs, direct⟩ := gxact
    rcases hprepared with rfl | rfl <;> rfl

namespace DtmAbortWitness

def preparedGxact : TMGXACT := ⟨⟨1, 5⟩, .notifyingAbortPrepared, false, none⟩

/-- The first broadcast fails, the second raises an error and the others succeed. -/
def results : Nat → Dispatched
  | 0 => .failed
  | 1 => .raised
  | _ => .succeeded

theorem firstFailure_disciplined :
    ∃ run, doNotifyingAbort results 3 true ⟨preparedGxact, .qdDistributedCapable, []⟩ =
        some run ∧ AbortDiscipline 3 run := by
  obtain ⟨run, hrun, hiff⟩ := doNotifyingAbort_discipline_iff results 3 true preparedGxact
    .qdDistributedCapable (.inr (.inr rfl))
  exact ⟨run, hrun, hiff.mpr (.inr Dispatched.noConfusion)⟩

/-- The first broadcast succeeds at all the segments.  Without retries the server goes
down all the same, and with retries the abort is broadcast again. -/
theorem firstSuccess_undisciplined :
    doNotifyingAbort (fun _ => .succeeded) 0 true ⟨preparedGxact, .qdDistributedCapable, []⟩ =
      some (⟨preparedGxact, .qdDistributedCapable, [⟨.abortPrepared, none, .succeeded⟩]⟩, .panic) ∧
    doNotifyingAbort (fun _ => .succeeded) 1 true ⟨preparedGxact, .qdDistributedCapable, []⟩ =
      some (⟨preparedGxact, .qdDistributedCapable,
        [⟨.abortPrepared, none, .succeeded⟩, ⟨.retryAbortPrepared, none, .succeeded⟩]⟩,
        .returned) := by
  decide

end DtmAbortWitness

end Greenplum.Dtm
