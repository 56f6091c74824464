/-
Every step of a backend of the dispatcher keeps the invariant, from the start
of a distributed transaction to its forget record or its abort.
-/
import Greenplum.DtmInvariant

namespace Greenplum.Dtm

open TwoPhase Option

section

variable {cfg : Config} {world next : World} {phase : Gid → Phase}
  {backend : Nat} {seq : Nat} {command : DtxProtocolCommand} {gid : Gid}
  {targets : List Content} {received badGangs : Bool} {net : DtmNet} {proc ended : Proc}
  {wal : Wal Gid}

theorem succeeded_answered (h : succeeded world seq command gid targets received = true) :
    world.net.Answered seq command gid targets := by
  simp only [succeeded, Bool.and_eq_true, decide_eq_true_eq] at h
  exact h.2

/-- The answers to the one PREPARE broadcast are the votes. -/
theorem AskedAt.voted (h : AskedAt net gid seq targets)
    (hanswered : net.Answered seq .prepare gid targets) : Voted net gid targets := by
  constructor
  · rintro ⟨mseq, mtarget, mcommand, mgid⟩ hm rfl rfl
    rcases h _ hm rfl rfl with ⟨rfl, htarget⟩
    exact ⟨hanswered mtarget htarget, htarget⟩
  · intro target htarget
    exact ⟨_, hanswered target htarget, rfl, rfl, rfl⟩

theorem Busy.doomed (h : Busy cfg net wal phase proc) (hgid : ended.gxact.gid = proc.gxact.gid)
    (hdirect : ended.gxact.direct = proc.gxact.direct)
    (hstate : ended.gxact.state ∈ ended.pc.states) (hphase : ended.pc.phase = .doomed)
    (hcommit : ended.inCommit = false) :
    Busy cfg net wal (Function.update phase proc.gxact.gid .doomed) ended := by
  rcases ended with ⟨gxact, inCommit, context, pc⟩
  refine h.goOn hgid hdirect hstate (by rw [Function.update_self, hphase]) ?_ ?_ ?_ <;>
    revert hphase
  · cases pc <;> simp_all
  · cases pc <;> simp [Ballot]
  · cases pc <;> simp [Positioned]

/-- A rollback does nothing, ends the transaction or announces the abort. -/
theorem rollbackDtxTransaction_cases (hresult : rollbackDtxTransaction proc = some ended) :
    ended = proc ∨ ended = .vacant ∨ (ended.gxact.gid = proc.gxact.gid ∧
        ended.gxact.direct = proc.gxact.direct ∧
        proc.gxact.state ∈ [.activeDistributed, .preparing, .prepared] ∧
        ended.gxact.state ∈ ended.pc.states ∧ ended.pc.phase = .doomed ∧
        ended.inCommit = proc.inCommit) := by
  simp only [rollbackDtxTransaction] at hresult
  split at hresult
  · exact .inl (some.inj hresult).symm
  · refine .inr ?_
    cases hstate : proc.gxact.state <;> simp only [hstate] at hresult
    case preparing =>
      split at hresult
      all_goals
        cases hresult
        exact .inr (by simp)
    case activeDistributed | prepared =>
      cases hresult
      exact .inr (by simp)
    case none | forcedCommitted | notifyingAbortSomePrepared | notifyingAbortPrepared =>
      cases hresult
    all_goals exact .inl (some.inj hresult).symm

theorem phase_of_open {pc : Pc} {state : DtxState} (hmem : state ∈ pc.states)
    (hopen : state ∈ [.activeDistributed, .preparing, .prepared]) : pc.phase = .active := by
  cases pc <;> grind [Pc.states, Pc.phase]

/-- Nobody waits for a transaction at such a point: it is not decided, or every
segment has committed it. -/
def Pc.Droppable (pc : Pc) : Prop :=
  pc.phase = .active ∨ pc.phase = .doomed ∨ pc.phase = .settled

theorem Inv.drop (h : Inv cfg world phase) (hoccupied : (world.procs backend).Occupied)
    (hpc : (world.procs backend).pc.Droppable) :
    ∃ phase', Inv cfg (world.setProc backend .vacant) phase' := by
  have hphase := (h.busy backend hoccupied).phase_eq
  rcases hpc with hactive | hend
  · exact ⟨_, h.doom hoccupied (hphase.trans hactive) (.inl rfl)⟩
  · exact ⟨_, h.leave hoccupied (hend.imp hphase.trans hphase.trans)⟩

/-- `AbortTransaction` gives up a transaction that is not decided. -/
theorem rollbackDtxTransaction_inv (h : Inv cfg world phase)
    (hoccupied : (world.procs backend).Occupied) (hproc : ∃ bad, proc = { world.procs backend with
      gxact := { (world.procs backend).gxact with badPrepareGangs := bad } })
    (hpc : (world.procs backend).pc.Droppable) (hcommit : (world.procs backend).inCommit = false)
    (hresult : rollbackDtxTransaction proc = some ended) :
    ∃ phase', Inv cfg (world.setProc backend ended) phase' := by
  have hbusy := h.busy backend hoccupied
  rcases hproc with ⟨bad, rfl⟩
  rcases rollbackDtxTransaction_cases hresult with
    rfl | rfl | ⟨hgid, hdirect, hopen, hstate, hdoomed, hin⟩
  · exact h.goOn hoccupied rfl rfl rfl hbusy.state_mem rfl hbusy.inCommit_eq hbusy.ballot
      hbusy.positioned
  · exact h.drop hoccupied hpc
  · have hactive := phase_of_open hbusy.state_mem hopen
    have hended := hbusy.doomed hgid hdirect hstate hdoomed (hin.trans hcommit)
    exact ⟨_, h.doom hoccupied (hbusy.phase_eq.trans hactive) (.inr ⟨hgid, hended⟩)⟩

theorem Busy.broadcast (h : Busy cfg net wal phase proc)
    (hcommand : command ≠ .prepare) (gid : Gid) (targets : List Content) :
    Busy cfg (net.broadcast command gid targets) wal phase proc := by
  refine h.mono ?_ (fun _ hm => hm) ⟨[], by simp⟩ rfl
  intro m hm _ hprepare
  rcases Net.mem_broadcast.mp hm with hm | ⟨target, _, rfl⟩
  · exact hm
  · exact absurd hprepare hcommand

section

variable (h : Inv cfg world phase)

include h

/-- What holds of a backend with a transaction at each point. -/
theorem Inv.stands (hoccupied : (world.procs backend).Occupied) {pc : Pc}
    (hpc : (world.procs backend).pc = pc) :
    (world.procs backend).gxact.state ∈ pc.states ∧
      phase (world.procs backend).gxact.gid = pc.phase ∧
      (world.procs backend).inCommit = pc.inCommit ∧
      Ballot world.net (world.procs backend).gxact.gid
        (cfg.directed (world.procs backend).gxact.direct) pc ∧
      Positioned world.wal.log (world.procs backend).gxact.gid pc := by
  have hbusy := h.busy backend hoccupied
  subst hpc
  exact ⟨hbusy.state_mem, hbusy.phase_eq, hbusy.inCommit_eq, hbusy.ballot, hbusy.positioned⟩

/-- A broadcast that changes no votes. -/
theorem Inv.announce (hoccupied : (world.procs backend).Occupied) {pc : Nat → Pc}
    (hgid : proc.gxact.gid = (world.procs backend).gxact.gid)
    (htargets : ∀ content ∈ targets, content ∈ cfg.segments)
    (hallowed : command.kind = .commit ∧ (phase proc.gxact.gid).Durable ∨
      command.kind = .abort ∧ phase proc.gxact.gid = .doomed)
    (hbusy : Busy cfg world.net world.wal phase { proc with pc := pc world.net.nextSeq }) :
    ∃ phase', Inv cfg (doDispatchDtxProtocolCommand world backend proc command targets pc)
      phase' := by
  have hprepare : command.kind ≠ .prepare := by
    rcases hallowed with ⟨hkind, -⟩ | ⟨hkind, -⟩ <;> rw [hkind] <;> decide
  refine ⟨phase, h.say hoccupied hgid htargets (fun hkind => absurd hkind hprepare)
    (fun hkind => ?_) (fun hkind => ?_) (hbusy.broadcast (mt kind_eq_prepare.mpr hprepare) _ _)⟩
  · exact hallowed.elim And.right fun habort => nomatch habort.1.symm.trans hkind
  · exact hallowed.elim (fun hcommit => nomatch hcommit.1.symm.trans hkind) And.right

variable (hstep : advance cfg world backend received badGangs = some next)

include hstep

/-- A backend that has to do something has a transaction. -/
theorem advance_occupied : (world.procs backend).Occupied := by
  by_contra hvacant
  simp [advance, (h.vacant backend hvacant).1] at hstep

variable {pc : Pc} (hpc : (world.procs backend).pc = pc)

include hpc

/-- From the broadcast of PREPARE to the insertion of the commit record. -/
theorem advance_active (hactive : pc.phase = .active) : ∃ phase', Inv cfg next phase' := by
  have hoccupied := advance_occupied h hstep
  have hbusy := h.busy backend hoccupied
  obtain ⟨hstate, hphase, hin, hballot, -⟩ := h.stands hoccupied hpc
  simp only [advance, hpc] at hstep
  cases pc <;> dsimp only at hstep
  case running => cases hstep
  case awaitPrepare seq =>
    split at hstep
    case isTrue hanswered =>
      cases hstep
      exact h.goOn hoccupied rfl hpc rfl (by simp) rfl hin
        (AskedAt.voted hballot (succeeded_answered hanswered)) trivial
    case isFalse =>
      rcases map_eq_some_iff.mp hstep with ⟨ended, hended, rfl⟩
      exact rollbackDtxTransaction_inv h hoccupied ⟨badGangs, rfl⟩
        (.inl (hpc ▸ rfl)) hin (by simpa [hpc] using hended)
  case prepared =>
    cases hstep
    exact h.goOn hoccupied rfl hpc rfl hstate rfl rfl hballot trivial
  case commitSection =>
    cases hstep
    exact h.goOn hoccupied rfl hpc rfl (by simp) rfl hin hballot trivial
  case insertCommit =>
    cases hstep
    refine ⟨_, h.insertCommit hoccupied rfl hphase hballot ⟨_, rfl⟩ (hbusy.goOn rfl rfl hstate
      (by simp) hin hballot ⟨by simp, ?_⟩)⟩
    rw [List.take_of_length_le (by simp)]
    simp
  all_goals cases hactive

/-- From the commit record to the answers of the commit broadcast. -/
theorem advance_committing (hcommitting : pc.phase = .logged ∨ pc.phase = .committed) :
    ∃ phase', Inv cfg next phase' := by
  have hoccupied := advance_occupied h hstep
  have hbusy := h.busy backend hoccupied
  obtain ⟨hstate, hphase, hin, hballot, hposition⟩ := h.stands hoccupied hpc
  have hsettle : ∀ (seq : Nat) (command : DtxProtocolCommand), pc.phase = .committed →
      pc.inCommit = false → (∀ state ∈ pc.states, state ∈ Pc.forget.states) →
      Voted world.net (world.procs backend).gxact.gid
        (cfg.directed (world.procs backend).gxact.direct) → command.kind = .commit →
      world.net.Answered seq command (world.procs backend).gxact.gid
        (cfg.directed (world.procs backend).gxact.direct) →
      ∃ phase', Inv cfg (world.setProc backend
        { world.procs backend with pc := .forget }) phase' := by
    intro seq command hcommitted hnot hmem hvoted hkind hanswered
    exact ⟨_, h.settle hoccupied rfl (hphase.trans hcommitted) hvoted hkind hanswered
      (hbusy.goOn rfl rfl (hmem _ hstate) (by simp) (hin.trans hnot) trivial trivial)⟩
  simp only [advance, hpc] at hstep
  cases pc <;> dsimp only at hstep
  case commitInserted lsn =>
    cases hstep
    exact h.goOn hoccupied rfl hpc rfl (by simp) rfl hin hballot hposition
  case commitMarked lsn =>
    cases hstep
    refine ⟨_, h.flushCommit hoccupied ?_ hphase hposition.1 hposition.2
      (hbusy.goOn rfl rfl hstate (by simp) hin hballot trivial)⟩
    rfl
  case commitFlushed =>
    cases hstep
    exact h.goOn hoccupied rfl hpc rfl hstate rfl rfl hballot trivial
  case notify =>
    cases hstep
    exact h.announce hoccupied rfl hbusy.directed (.inl ⟨rfl, .inl hphase⟩) (hbusy.goOn rfl rfl
      (by simp) hphase hin hballot trivial)
  case awaitCommit seq =>
    split at hstep
    case isTrue hanswered =>
      cases hstep
      exact hsettle seq _ rfl rfl (by simp) hballot rfl (succeeded_answered hanswered)
    case isFalse =>
      cases hstep
      exact h.goOn hoccupied rfl hpc rfl (by simp) rfl hin hballot trivial
  case retryCommit retry =>
    split at hstep
    case isTrue =>
      cases hstep
      exact h.announce hoccupied rfl hbusy.directed (.inl ⟨rfl, .inl hphase⟩)
        (hbusy.goOn rfl rfl hstate hphase hin hballot trivial)
    case isFalse => cases hstep
  case awaitRetryCommit seq retry =>
    split at hstep
    case isTrue hanswered =>
      cases hstep
      exact hsettle seq _ rfl rfl (by simp) hballot rfl (succeeded_answered hanswered)
    case isFalse =>
      cases hstep
      exact h.goOn hoccupied rfl hpc rfl hstate rfl hin hballot trivial
  all_goals simp at hcommitting

/-- The forget record and the end of the transaction. -/
theorem advance_settled (hsettled : pc.phase = .settled) : ∃ phase', Inv cfg next phase' := by
  have hoccupied := advance_occupied h hstep
  have hbusy := h.busy backend hoccupied
  obtain ⟨hstate, hphase, hin, -⟩ := h.stands hoccupied hpc
  simp only [advance, hpc] at hstep
  cases pc <;> dsimp only at hstep
  case forget | forgetInserted =>
    cases hstep
    exact h.goOn hoccupied rfl hpc rfl (by simp) rfl hin
      trivial trivial
  case insertForget =>
    cases hstep
    exact ⟨phase, h.insertForget hoccupied rfl hphase
      (hbusy.goOn rfl rfl hstate hphase hin trivial trivial)⟩
  case endCommit =>
    cases hstep
    exact ⟨phase, h.leave hoccupied (.inr hphase)⟩
  all_goals cases hsettled

/-- The announcement of an abort and its retries. -/
theorem advance_doomed (hdoomed : pc.phase = .doomed) : ∃ phase', Inv cfg next phase' := by
  have hoccupied := advance_occupied h hstep
  have hbusy := h.busy backend hoccupied
  obtain ⟨hstate, hphase, hin, -⟩ := h.stands hoccupied hpc
  have habort : ∀ state, (notifyingAbortCommand state).kind = .abort := by
    intro state
    cases state <;> rfl
  simp only [advance, hpc] at hstep
  cases pc <;> dsimp only at hstep
  case notifyAbort =>
    split at hstep
    case isTrue hgangs =>
      cases hstep
      exact h.goOn hoccupied rfl hpc rfl (by simp [hgangs.1]) rfl hin trivial trivial
    case isFalse =>
      cases hstep
      exact h.announce hoccupied rfl hbusy.directed (.inr ⟨habort _, hphase⟩)
        (hbusy.goOn rfl rfl hstate hphase hin trivial trivial)
  case awaitAbort seq =>
    split at hstep
    case isTrue hnone =>
      cases hstep
      exact h.goOn hoccupied rfl hpc rfl (by simp [hnone]) rfl hin trivial trivial
    case isFalse hsome =>
      have hrest := (List.mem_cons.mp hstate).resolve_left hsome
      split at hstep
      · cases hstep
        exact h.goOn hoccupied rfl hpc rfl
          (List.mem_append_left [DtxState.retryAbortPrepared] hrest) rfl hin trivial trivial
      · cases hstep
        exact h.goOn hoccupied rfl hpc rfl (by simp) rfl hin
          trivial trivial
  case retryAbort retry =>
    split at hstep
    case isTrue =>
      cases hstep
      exact h.announce hoccupied rfl (fun _ hmem => hmem) (.inr ⟨rfl, hphase⟩)
        (hbusy.goOn rfl rfl hstate hphase hin trivial trivial)
    case isFalse => cases hstep
  case awaitRetryAbort seq retry =>
    split at hstep
    · cases hstep
      exact h.goOn hoccupied rfl hpc rfl (List.mem_cons_of_mem _ hstate) rfl hin trivial trivial
    · cases hstep
      exact h.goOn hoccupied rfl hpc rfl hstate rfl hin trivial trivial
  case endAbort =>
    cases hstep
    exact ⟨phase, h.leave hoccupied (.inl hphase)⟩
  case leftBehind => cases hstep
  all_goals cases hdoomed

omit hpc

theorem advance_inv : ∃ phase', Inv cfg next phase' := by
  cases hphase : (world.procs backend).pc.phase with
  | active => exact advance_active h hstep rfl hphase
  | logged => exact advance_committing h hstep rfl (.inl hphase)
  | committed => exact advance_committing h hstep rfl (.inr hphase)
  | settled => exact advance_settled h hstep rfl hphase
  | doomed => exact advance_doomed h hstep rfl hphase
  | unborn =>
    revert hphase
    cases (world.procs backend).pc <;> simp

end

/-- The commit record is written and some segment may not have committed yet. -/
def DtxState.owing : DtxState → Bool
  | .insertedCommitted | .notifyingCommitPrepared | .retryCommitPrepared => true
  | _ => false

theorem droppable_of_abort {pc : Pc} {state : DtxState} (hmem : state ∈ pc.states)
    (hcommit : pc.inCommit = false) (hfree : state.owing = false) : pc.Droppable := by
  cases pc <;> grind [Pc.Droppable, Pc.states, Pc.phase, Pc.inCommit, DtxState.owing]

theorem phase_of_retryAbort {pc : Pc} (hmem : .retryAbortPrepared ∈ pc.states) :
    pc.phase = .doomed := by
  cases pc <;> simp_all

theorem droppable_of_exit {pc : Pc} {state : DtxState} (hmem : state ∈ pc.states)
    (hexit : state.fatalIsPanic = false ∨ pc = .leftBehind) : pc.Droppable := by
  cases pc <;> grind [Pc.Droppable, Pc.states, Pc.phase, DtxState.fatalIsPanic]

theorem Unasked.askedAt (h : Unasked net gid) (targets : List Content) :
    AskedAt (net.broadcast .prepare gid targets) gid net.nextSeq targets := by
  intro m hm hgid hprepare
  rcases Net.mem_broadcast.mp hm with hm | ⟨target, hmem, rfl⟩
  · exact absurd hprepare (h m hm hgid)
  · exact ⟨rfl, hmem⟩

section

variable (h : Inv cfg world phase)

include h

/-- An ERROR keeps the invariant unless it hits a transaction with segments left to commit. -/
theorem abortTransaction_inv (hfree : (world.procs backend).gxact.state.owing = false)
    (hstep : abortTransaction world backend = some next) : ∃ phase', Inv cfg next phase' := by
  simp only [abortTransaction] at hstep
  obtain ⟨hguard, hstep⟩ := ite_none_left_eq_some.mp hstep
  rcases not_or.mp hguard with ⟨hoccupied, hcommit⟩
  rw [Bool.not_eq_true] at hcommit
  have hbusy := h.busy backend hoccupied
  have hpc := droppable_of_abort hbusy.state_mem (hbusy.inCommit_eq ▸ hcommit) hfree
  split at hstep
  · rcases map_eq_some_iff.mp hstep with ⟨ended, hended, rfl⟩
    exact rollbackDtxTransaction_inv h hoccupied
      ⟨(world.procs backend).gxact.badPrepareGangs, rfl⟩ hpc hcommit hended
  · rcases map_eq_some_iff.mp hstep with ⟨ended, hended, rfl⟩
    simp only [finishDistributedTransactionContext] at hended
    split at hended
    case isTrue hretry =>
      cases hended
      have hstate : (world.procs backend).gxact.state = .retryAbortPrepared :=
        hretry.resolve_left fun hcommitted => by simp [hcommitted, DtxState.owing] at hfree
      have hdoomed := phase_of_retryAbort (hstate ▸ hbusy.state_mem)
      exact h.goOn hoccupied rfl rfl rfl (by simp [hstate]) hdoomed hcommit trivial trivial
    case isFalse =>
      obtain ⟨_, hvacant⟩ := ite_none_left_eq_some.mp hended
      cases hvacant
      exact h.drop hoccupied hpc

theorem procExit_inv (hstep : procExit world backend = some next) :
    ∃ phase', Inv cfg next phase' := by
  simp only [procExit] at hstep
  obtain ⟨⟨hoccupied, hexit⟩, hstep⟩ := ite_none_right_eq_some.mp hstep
  cases hstep
  exact h.drop hoccupied (droppable_of_exit (h.busy backend hoccupied).state_mem hexit)

theorem dtmPreCommand_inv {statement : Option Content} {needsTwoPhaseCommit : Bool}
    (hstep : dtmPreCommand cfg world backend statement needsTwoPhaseCommit = some next) :
    Inv cfg next phase := by
  simp only [dtmPreCommand] at hstep
  obtain ⟨hguard, hstep⟩ := ite_none_right_eq_some.mp hstep
  cases hstep
  rcases hguard with ⟨hpc, hstate, hcontents⟩
  have hoccupied : (world.procs backend).Occupied := by
    rcases hstate with heq | heq <;> simp [Proc.Occupied, heq]
  have hbusy := h.busy backend hoccupied
  have hdirected := hbusy.directed
  refine h.stay hoccupied rfl ?_
  constructor
  case state_mem => rw [hpc]; split <;> simp [hstate]
  case phase_eq => exact hbusy.phase_eq
  case inCommit_eq => exact hbusy.inCommit_eq
  case directed =>
    have hstatement : ∀ content ∈ cfg.directed statement, content ∈ cfg.segments := by
      cases statement with
      | none => exact fun _ hmem => hmem
      | some single => simpa [Config.directed] using hcontents single rfl
    change ∀ content ∈ cfg.directed (directAfter (world.procs backend).gxact statement), _
    unfold directAfter
    split
    · exact hstatement
    · by_cases heq : (world.procs backend).gxact.direct = statement
      · rw [if_pos heq]
        exact hdirected
      · rw [if_neg heq]
        exact fun _ hmem => hmem
  case ballot =>
    have hballot := hbusy.ballot
    rw [hpc] at hballot ⊢
    exact hballot
  case positioned => rw [hpc]; trivial

theorem prepareDtxTransaction_inv (hstep : prepareDtxTransaction cfg world backend = some next) :
    ∃ phase', Inv cfg next phase' := by
  simp only [prepareDtxTransaction] at hstep
  obtain ⟨hguard, hstep⟩ := ite_none_right_eq_some.mp hstep
  have hfacts : (world.procs backend).Occupied → phase (world.procs backend).gxact.gid = .active ∧
        Unasked world.net (world.procs backend).gxact.gid ∧
        (world.procs backend).inCommit = false := by
    intro hoccupied
    have hbusy := h.busy backend hoccupied
    have hphase := hbusy.phase_eq
    have hballot := hbusy.ballot
    have hin := hbusy.inCommit_eq
    rw [hguard.1] at hphase hballot hin
    exact ⟨hphase, hballot, hin⟩
  split at hstep
  · rename_i hstate
    have hoccupied : (world.procs backend).Occupied := by
      simp [Proc.Occupied, hstate]
    cases hstep
    exact ⟨_, h.doom hoccupied (hfacts hoccupied).1 (.inl rfl)⟩
  · rename_i hstate
    have hoccupied : (world.procs backend).Occupied := by
      simp [Proc.Occupied, hstate]
    have hbusy := h.busy backend hoccupied
    rcases hfacts hoccupied with ⟨hactive, hunasked, hin⟩
    cases hstep
    refine ⟨phase, h.say hoccupied ?_ hbusy.directed (fun _ => hactive) (by simp) (by simp)
      (hbusy.goOn rfl rfl (by simp) hactive hin (hunasked.askedAt _) trivial)⟩
    rfl
  · cases hstep

/-- A new identifier has not been used, since the timestamp grows with each
start and the sequence within it. -/
theorem Inv.begin (hrecovered : world.shmTmRecoverred = true) (hslot : backend < cfg.maxBackends)
    (hnone : (world.procs backend).gxact.state = .none) :
    ∃ phase', Inv cfg { world.setProc backend ⟨⟨⟨world.shmDistribTimeStamp, world.shmGIDSeq + 1⟩,
      .activeNotDistributed, false, none⟩, false, .qdDistributedCapable, .running⟩ with
        shmGIDSeq := world.shmGIDSeq + 1 } phase' := by
  have hfresh : phase ⟨world.shmDistribTimeStamp, world.shmGIDSeq + 1⟩ = .unborn := by
    by_contra hborn
    rcases h.born _ hborn with hlt | ⟨_, hle, _⟩
    · exact absurd hlt (Nat.lt_irrefl _)
    · exact absurd hle (Nat.not_succ_le_self _)
  refine ⟨_, h.change ⟨?_, ?_, fun _ => .inl, rfl, ⟨[], by simp [World.setProc]⟩,
    fun other hne => Function.update_of_ne hne .active phase, ?_, ?_, .inr ⟨rfl, ?_⟩⟩
    hrecovered hslot (Nat.le_succ _) (.inr ⟨rfl, Nat.le_refl _⟩)
    (fun hocc => absurd hnone hocc) ?_ ?_⟩
  · refine h.dialogue.update (by simp) ?_ ?_ ?_ ?_ <;>
      simp [hfresh]
  · refine h.journal.update ?_ ?_ ?_ <;>
      simp [hfresh]
  · simp [hfresh]
  · simp
  · constructor
    case state_mem => simp
    case phase_eq => simp
    case inCommit_eq => rfl
    case directed => exact fun _ hmem => hmem
    case ballot =>
      intro m hm hgid hprepare
      refine h.dialogue.prepare_phase m hm ?_ (hgid ▸ hfresh)
      exact kind_eq_prepare.mpr hprepare
    case positioned => trivial
  · intro other _ hocc heq
    exact (h.busy other hocc).born (heq ▸ hfresh)
  · simp

theorem setCurrentGxact_inv (hstep : setCurrentGxact cfg world backend = some next) :
    ∃ phase', Inv cfg next phase' := by
  simp only [setCurrentGxact] at hstep
  obtain ⟨hguard, hstep⟩ := ite_none_right_eq_some.mp hstep
  rcases hguard with ⟨hrecovered, hslot, hpc, _⟩
  cases hstep
  by_cases hnone : (world.procs backend).gxact.state = .none
  · exact h.begin hrecovered hslot hnone
  · -- the entry that a failed abort has left behind is taken over
    have hleft := hpc.resolve_left fun hrunning => hnone hrunning.2
    have hphase := (h.busy backend hnone).phase_eq
    rw [hleft] at hphase
    have hempty := (h.leave hnone (.inl hphase)).begin hrecovered hslot
    simpa [World.setProc] using hempty (by simp [World.setProc, Proc.vacant, initGxact])

end

end

end Greenplum.Dtm
