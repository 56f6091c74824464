/-
Atomic commitment of the distributed transaction manager over whole runs, and
the run in which a checkpoint drops a redone commit.
-/
import Greenplum.DtmRecovery

namespace Greenplum.Dtm

open TwoPhase

section

variable {cfg : Config} {world next : World} {phase : Gid → Phase} {action : Action}
  {m : DtmMessage}

/-- Not a checkpoint that collects several redone commits, an ERROR that drops a
commit which some segment may not have yet, or a restart within the second of the
last start. -/
def harmless (world : World) : Action → Bool
  | .createCheckPoint =>
    match world.checkpoint with
    | .waiting _ _ => decide (world.shmCommittedGxactArray.length ≤ 1)
    | _ => true
  | .abortTransaction backend => !(world.procs backend).gxact.state.owing
  | .crash _ timestamp => decide (world.shmDistribTimeStamp < timestamp)
  | _ => true

theorem step_inv (h : Inv cfg world phase) (hharmless : harmless world action = true)
    (hstep : step cfg world action = some next) : ∃ phase', Inv cfg next phase' := by
  cases action with
  | setCurrentGxact backend => exact setCurrentGxact_inv h hstep
  | dtmPreCommand backend statement needsTwoPhaseCommit =>
    exact ⟨phase, dtmPreCommand_inv h hstep⟩
  | prepareDtxTransaction backend => exact prepareDtxTransaction_inv h hstep
  | advance backend received badGangs => exact advance_inv h hstep
  | abortTransaction backend =>
    exact abortTransaction_inv h (by simpa [harmless] using hharmless) hstep
  | procExit backend => exact procExit_inv h hstep
  | segmentExecutes message delivery =>
    exact ⟨phase, segmentExecutes_inv h hstep⟩
  | xlogFlush upto =>
    simp only [step] at hstep
    split at hstep
    · cases hstep
      rename_i hle
      exact ⟨phase, h.environment h.dialogue (h.journal.flush hle) rfl (fun _ hm => hm) rfl⟩
    · cases hstep
  | createCheckPoint =>
    refine ⟨phase, createCheckPoint_inv h (fun redo delaying hwaiting => ?_) hstep⟩
    simpa [harmless, hwaiting] using hharmless
  | recoverTM received => exact recoverTM_inv h hstep
  | crash length timestamp => exact crash_inv h (of_decide_eq_true hharmless) hstep

/-- Every step of the run is harmless. -/
def harmlessRun (cfg : Config) : World → List Action → Bool
  | _, [] => true
  | world, action :: rest =>
    harmless world action && (step cfg world action).all fun next => harmlessRun cfg next rest

theorem harmlessRun_cons {rest : List Action} (h : harmlessRun cfg world (action :: rest) = true)
    (hstep : step cfg world action = some next) :
    harmless world action = true ∧ harmlessRun cfg next rest = true := by
  simpa [harmlessRun, hstep] using h

theorem run_inv (actions : List Action) :
    ∀ {world final : World} {phase : Gid → Phase}, Inv cfg world phase →
      harmlessRun cfg world actions = true →
      run cfg world actions = some final → ∃ phase', Inv cfg final phase' := by
  induction actions with
  | nil =>
    intro world final phase h _ hrun
    cases hrun
    exact ⟨phase, h⟩
  | cons action rest ih =>
    intro world final phase h hharmless hrun
    rcases Option.bind_eq_some_iff.mp hrun with ⟨next, hstep, hrest⟩
    rcases harmlessRun_cons hharmless hstep with ⟨hhead, htail⟩
    rcases step_inv h hhead hstep with ⟨phase', hnext⟩
    exact ih hnext htail hrest

theorem advance_sends {backend : Nat} {received badGangs : Bool}
    (hstep : advance cfg world backend received badGangs = some next) :
    next.net.sent = world.net.sent ∨ (next.net.acks = world.net.acks ∧ next.wal = world.wal ∧
        ∀ m ∈ world.net.sent, m ∈ next.net.sent) := by
  simp only [advance] at hstep
  cases hpc : (world.procs backend).pc <;> simp only [hpc] at hstep <;>
    grind [doDispatchDtxProtocolCommand, World.setProc, Net.broadcast, Option.map_eq_some_iff]

/-- A step that sends something hears nothing and logs nothing. -/
theorem step_sends (hstep : step cfg world action = some next) :
    next.net.sent = world.net.sent ∨ (next.net.acks = world.net.acks ∧ next.wal = world.wal ∧
        ∀ m ∈ world.net.sent, m ∈ next.net.sent) := by
  cases action with
  | setCurrentGxact backend =>
    grind [step, setCurrentGxact, World.setProc]
  | dtmPreCommand backend statement needsTwoPhaseCommit =>
    grind [step, dtmPreCommand, World.setProc]
  | prepareDtxTransaction backend =>
    grind [step, prepareDtxTransaction, doDispatchDtxProtocolCommand, World.setProc, Net.broadcast]
  | advance backend received badGangs => exact advance_sends hstep
  | abortTransaction backend =>
    grind [step, abortTransaction, World.setProc, Option.map_eq_some_iff]
  | procExit backend => grind [step, procExit, World.setProc]
  | segmentExecutes message delivery =>
    grind [step, segmentExecutes, Net.answer]
  | xlogFlush upto => grind [step]
  | createCheckPoint => grind [step, createCheckPoint]
  | recoverTM received => grind [step, recoverTM, Net.broadcast]
  | crash length timestamp => grind [step, crash, Option.map_eq_some_iff]

/-- What the invariant says about the messages sent so far. -/
theorem Inv.sent_commit (h : Inv cfg world phase) (hm : m ∈ world.net.sent)
    (hkind : m.command.kind = .commit) :
    (∃ direct, Voted world.net m.gid (cfg.directed direct)) ∧
      .commit m.gid ∈ world.wal.log.take world.wal.flushed := by
  have hdurable := h.dialogue.commit_phase m hm hkind
  exact ⟨h.voters _ hdurable.decided, h.journal.durable _ hdurable⟩

theorem Inv.sent_abort (h : Inv cfg world phase) (hm : m ∈ world.net.sent)
    (hkind : m.command.kind = .abort) : .commit m.gid ∉ world.wal.log := by
  rw [h.journal.logged_iff, h.dialogue.abort_phase m hm hkind]
  simp

theorem Voted.of_sent_acks {net net' : DtmNet} {gid : Gid}
    {targets : List Content} (h : Voted net' gid targets)
    (hsent : ∀ m ∈ net.sent, m ∈ net'.sent) (hacks : net'.acks = net.acks) :
    Voted net gid targets :=
  h.mono (fun m hm _ _ => hsent m hm) (by simp [hacks])

theorem harmlessRun_append (first second : List Action) : ∀ {world middle : World},
    harmlessRun cfg world (first ++ second) = true → run cfg world first = some middle →
      harmlessRun cfg world first = true ∧ harmlessRun cfg middle second = true := by
  induction first with
  | nil =>
    intro world middle hharmless hrun
    cases hrun
    exact ⟨rfl, hharmless⟩
  | cons action rest ih =>
    intro world middle hharmless hrun
    rcases Option.bind_eq_some_iff.mp hrun with ⟨next, hstep, hrest⟩
    rcases harmlessRun_cons hharmless hstep with ⟨hhead, htail⟩
    rcases ih htail hrest with ⟨hfirst, hsecond⟩
    exact ⟨by simp [harmlessRun, hhead, hstep, hfirst], hsecond⟩

/-- In every run of harmless steps a commit is dispatched only after all voters
acknowledged PREPARE and the commit record is on disk, an abort only for a
transaction without a commit record, and no transaction is committed at one
segment and aborted at another. -/
theorem run_atomic (cfg : Config) (actions : List Action) (action : Action) (world next : World)
    (hrun : run cfg World.initial actions = some world) (hstep : step cfg world action = some next)
    (hharmless : harmlessRun cfg World.initial (actions ++ [action]) = true) :
    (∀ m ∈ next.net.sent, m ∉ world.net.sent → m.command.kind = .commit →
      (∃ direct, Voted world.net m.gid (cfg.directed direct)) ∧
        .commit m.gid ∈ world.wal.log.take world.wal.flushed) ∧
    (∀ m ∈ next.net.sent, m.command.kind = .abort → .commit m.gid ∉ next.wal.log) ∧
    ∀ gid left right, next.net.branch left gid = .committed →
      next.net.branch right gid ≠ .aborted := by
  rcases harmlessRun_append actions [action] hharmless hrun with ⟨hfirst, hlast⟩
  rcases run_inv actions (initial_inv cfg) hfirst hrun with ⟨phase, hinv⟩
  rcases step_inv hinv (harmlessRun_cons hlast hstep).1 hstep with ⟨phase', hnext⟩
  refine ⟨?_, fun m => hnext.sent_abort, hnext.dialogue.atomic⟩
  intro m hm hnew hkind
  rcases step_sends hstep with hsame | ⟨hacks, hwal, hgrows⟩
  · exact absurd (hsame ▸ hm) hnew
  · rcases hnext.sent_commit hm hkind with ⟨⟨direct, hvoted⟩, hlogged⟩
    rw [hwal] at hlogged
    exact ⟨⟨direct, hvoted.of_sent_acks hgrows hacks⟩, hlogged⟩

/-- As long as a branch is prepared at some segment its transaction has not been
forgotten, and with its commit record in the log somebody still has to commit it:
the recovery that redid the record or the backend of the transaction. -/
theorem run_prepared_owed (cfg : Config) (actions : List Action) (world : World)
    (hrun : run cfg World.initial actions = some world)
    (hharmless : harmlessRun cfg World.initial actions = true) (gid : Gid) (content : Content)
    (hprepared : world.net.branch content gid = .prepared) :
    .forget gid ∉ world.wal.log ∧ (.commit gid ∈ world.wal.log →
      gid ∈ world.shmCommittedGxactArray ∨ HeldBy world.procs gid) := by
  rcases run_inv actions (initial_inv cfg) hharmless hrun with ⟨phase, h⟩
  have hopen : phase gid ≠ .settled := fun hsettled =>
    h.dialogue.settled_clear content gid hsettled hprepared
  refine ⟨fun hforget => hopen (h.journal.forgotten gid hforget), fun hcommit => ?_⟩
  rcases (h.journal.logged_iff gid).mp hcommit with hlogged | hcommitted | hsettled
  · exact .inr (h.held gid (.inr hlogged))
  · exact h.kept gid hcommitted
  · exact absurd hsettled hopen

end

namespace DtmAtomicityWitness

def twoSegments : Config := ⟨[0, 1], 2, 10, 1, 100⟩

def startDtm : List Action := List.replicate 9 (.recoverTM true)

def first : Gid := ⟨0, 2⟩

def second : Gid := ⟨0, 3⟩

/-- A transaction of one backend up to its flushed commit record. -/
def commitRecord (backend seq : Nat) (gid : Gid) : List Action :=
  [.setCurrentGxact backend, .dtmPreCommand backend none true, .prepareDtxTransaction backend,
    .segmentExecutes ⟨seq, 0, .prepare, gid⟩ .answered,
    .segmentExecutes ⟨seq, 1, .prepare, gid⟩ .answered] ++
    List.replicate 7 (.advance backend true false)

/-- The second of two transactions has been committed at one segment when the
dispatcher crashes, writes a checkpoint at its start and crashes again. -/
def droppedCommit : List Action :=
  startDtm ++ commitRecord 0 0 first ++ commitRecord 1 1 second ++
    [.advance 1 true false, .segmentExecutes ⟨2, 0, .commitPrepared, second⟩ .answered,
      .crash 2 1] ++
    List.replicate 4 .createCheckPoint ++
    [.crash 2 2, .recoverTM true, .recoverTM true,
      .segmentExecutes ⟨3, 0, .recoveryCommitPrepared, first⟩ .answered,
      .segmentExecutes ⟨3, 1, .recoveryCommitPrepared, first⟩ .answered] ++
    List.replicate 6 (.recoverTM true) ++
    [.segmentExecutes ⟨4, 1, .recoveryAbortPrepared, second⟩ .answered]

/-- The second transaction ends committed at segment 0 and aborted at segment 1,
by an abort dispatched with its commit record in the log. -/
theorem droppedCommit_not_atomic :
    ∃ world, run twoSegments World.initial droppedCommit = some world ∧
      (∃ m ∈ world.net.sent, m.command = .recoveryAbortPrepared ∧ .commit m.gid ∈ world.wal.log) ∧
      world.net.branch 0 second = .committed ∧ world.net.branch 1 second = .aborted := by
  have hrun : ((run twoSegments World.initial droppedCommit).any fun world =>
      decide ((∃ m ∈ world.net.sent, m.command = .recoveryAbortPrepared ∧
        .commit m.gid ∈ world.wal.log) ∧ world.net.branch 0 second = .committed ∧
      world.net.branch 1 second = .aborted)) = true := by
    decide +kernel
  rcases (Option.any_eq_true _ _).mp hrun with ⟨world, hsome, hworld⟩
  exact ⟨world, hsome, of_decide_eq_true hworld⟩

/-- A commit has reached one segment when an ERROR drops the transaction, so that
the next checkpoint leaves it out. -/
def erredCommit : List Action :=
  startDtm ++ commitRecord 0 0 first ++
    [.advance 0 true false, .segmentExecutes ⟨1, 0, .commitPrepared, first⟩ .answered,
      .abortTransaction 0] ++
    List.replicate 4 .createCheckPoint ++ [.crash 1 1] ++ List.replicate 6 (.recoverTM true) ++
    [.segmentExecutes ⟨2, 1, .recoveryAbortPrepared, first⟩ .answered]

example : ((run twoSegments World.initial erredCommit).any fun world =>
    world.net.branch 0 first = .committed ∧ world.net.branch 1 first = .aborted) = true := by
  decide +kernel

/-- The dispatch of a commit satisfies the hypotheses of `run_atomic`. -/
theorem commitRecord_atomic :
    ∃ world next, run twoSegments World.initial (startDtm ++ commitRecord 0 0 first) = some world ∧
      step twoSegments world (.advance 0 true false) = some next ∧
      (∃ m ∈ next.net.sent, m ∉ world.net.sent ∧ m.command.kind = .commit) ∧
      (∀ m ∈ next.net.sent, m ∉ world.net.sent → m.command.kind = .commit →
        (∃ direct, Voted world.net m.gid (twoSegments.directed direct)) ∧
          .commit m.gid ∈ world.wal.log.take world.wal.flushed) := by
  have hrun : ((run twoSegments World.initial (startDtm ++ commitRecord 0 0 first)).any fun world =>
        (step twoSegments world (.advance 0 true false)).any fun next =>
          decide (∃ m ∈ next.net.sent, m ∉ world.net.sent ∧ m.command.kind = .commit)) = true := by
    decide +kernel
  rcases (Option.any_eq_true _ _).mp hrun with ⟨world, hworld, hany⟩
  rcases (Option.any_eq_true _ _).mp hany with ⟨next, hnext, hsends⟩
  exact ⟨world, next, hworld, hnext, of_decide_eq_true hsends,
    (run_atomic twoSegments _ _ world next hworld hnext (by decide +kernel)).1⟩

/-- A flushed commit record whose commit has not been dispatched. -/
theorem commitRecord_owed :
    ∃ world, run twoSegments World.initial (startDtm ++ commitRecord 0 0 first) = some world ∧
      .commit first ∈ world.wal.log ∧ .forget first ∉ world.wal.log := by
  have hrun : ((run twoSegments World.initial (startDtm ++ commitRecord 0 0 first)).any fun world =>
      decide (world.net.branch 1 first = .prepared ∧ .commit first ∈ world.wal.log)) = true := by
    decide +kernel
  rcases (Option.any_eq_true _ _).mp hrun with ⟨world, hworld, hthere⟩
  rcases of_decide_eq_true hthere with ⟨hprepared, hcommit⟩
  exact ⟨world, hworld, hcommit, (run_prepared_owed twoSegments _ world hworld
    (by decide +kernel) first 1 hprepared).1⟩

end DtmAtomicityWitness

end Greenplum.Dtm
