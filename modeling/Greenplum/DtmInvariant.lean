/-
What holds between the coordinator, its log and the segments in every state of
a run: the phase of each transaction is the one its backend, the recovery or
the log assigns to it.
-/
import Greenplum.DtmCoordinator

namespace Greenplum.Dtm

open TwoPhase Function

/-- The states of the shared transaction at each point of a backend. -/
@[simp]
def Pc.states : Pc → List DtxState
  | .running => [.activeNotDistributed, .activeDistributed]
  | .awaitPrepare _ => [.preparing]
  | .prepared => [.prepared]
  | .commitSection => [.prepared]
  | .insertCommit => [.insertingCommitted]
  | .commitInserted _ => [.insertingCommitted]
  | .commitMarked _ => [.insertedCommitted]
  | .commitFlushed => [.insertedCommitted]
  | .notify => [.insertedCommitted]
  | .awaitCommit _ => [.notifyingCommitPrepared]
  | .retryCommit _ => [.retryCommitPrepared]
  | .awaitRetryCommit _ _ => [.retryCommitPrepared]
  | .forget => [.notifyingCommitPrepared, .retryCommitPrepared]
  | .insertForget => [.insertingForgetCommitted]
  | .forgetInserted => [.insertingForgetCommitted]
  | .endCommit => [.insertedForgetCommitted]
  | .notifyAbort => [.notifyingAbortNoPrepared, .notifyingAbortSomePrepared,
      .notifyingAbortPrepared]
  | .awaitAbort _ => [.notifyingAbortNoPrepared, .notifyingAbortSomePrepared,
      .notifyingAbortPrepared]
  | .retryAbort _ => [.notifyingAbortSomePrepared, .notifyingAbortPrepared, .retryAbortPrepared]
  | .awaitRetryAbort _ _ => [.notifyingAbortSomePrepared,
      .notifyingAbortPrepared, .retryAbortPrepared]
  | .endAbort => [.notifyingAbortNoPrepared, .notifyingAbortSomePrepared,
      .notifyingAbortPrepared, .retryAbortPrepared]
  | .leftBehind => [.retryAbortPrepared]

@[simp]
def Pc.phase : Pc → Phase
  | .running | .awaitPrepare _ | .prepared | .commitSection
  | .insertCommit => .active
  | .commitInserted _ | .commitMarked _ => .logged
  | .commitFlushed | .notify | .awaitCommit _ | .retryCommit _
  | .awaitRetryCommit _ _ => .committed
  | .forget | .insertForget | .forgetInserted | .endCommit => .settled
  | .notifyAbort | .awaitAbort _ | .retryAbort _ | .awaitRetryAbort _ _
  | .endAbort | .leftBehind => .doomed

@[simp]
def Pc.inCommit : Pc → Bool
  | .commitSection | .insertCommit | .commitInserted _ | .commitMarked _
  | .commitFlushed => true
  | _ => false

variable (net : DtmNet)

def Unasked (gid : Gid) : Prop :=
  ∀ m ∈ net.sent, m.gid = gid → m.command ≠ .prepare

section

variable (gid : Gid) (seq : Nat) (targets : List Content)

def AskedAt : Prop :=
  ∀ m ∈ net.sent, m.gid = gid → m.command = .prepare → m.seq = seq ∧ m.target ∈ targets

/-- PREPARE went to the segments in `targets` and to no others, and all of them
acknowledged it. -/
def Voted : Prop :=
  (∀ m ∈ net.sent, m.gid = gid → m.command = .prepare → m ∈ net.acks ∧ m.target ∈ targets) ∧
  ∀ target ∈ targets, ∃ m ∈ net.acks, m.command = .prepare ∧ m.target = target ∧ m.gid = gid

/-- What the votes look like at each point of a backend. -/
def Ballot : Pc → Prop
  | .running => Unasked net gid
  | .awaitPrepare seq => AskedAt net gid seq targets
  | .prepared | .commitSection | .insertCommit | .commitInserted _
  | .commitMarked _ | .commitFlushed | .notify | .awaitCommit _
  | .retryCommit _ | .awaitRetryCommit _ _ => Voted net gid targets
  | _ => True

end

def Positioned (log : List (Record Gid)) (gid : Gid) : Pc → Prop
  | .commitInserted lsn | .commitMarked lsn =>
    lsn < log.length ∧ .commit gid ∈ log.take (lsn + 1)
  | _ => True

/-- A backend with a distributed transaction. -/
structure Busy (cfg : Config) (net : DtmNet) (wal : Wal Gid)
    (phase : Gid → Phase) (proc : Proc) : Prop where
  state_mem : proc.gxact.state ∈ proc.pc.states
  phase_eq : phase proc.gxact.gid = proc.pc.phase
  inCommit_eq : proc.inCommit = proc.pc.inCommit
  directed : ∀ content ∈ cfg.directed proc.gxact.direct, content ∈ cfg.segments
  ballot : Ballot net proc.gxact.gid (cfg.directed proc.gxact.direct) proc.pc
  positioned : Positioned wal.log proc.gxact.gid proc.pc

def Proc.Occupied (proc : Proc) : Prop := proc.gxact.state ≠ .none

def Recovery.Sound (array : List Gid) (phase : Gid → Phase) : Recovery → Prop
  | .off => True
  | .notify index => ∀ gid ∈ array.take index, phase gid = .settled
  | .awaitNotify index _ => ∀ gid ∈ array.take index, phase gid = .settled
  | .gather _ found => array = [] ∧ ∀ gid ∈ found, phase gid = .doomed
  | .abort rest => array = [] ∧ ∀ gid ∈ rest, phase gid = .doomed
  | .awaitAbort gid rest _ =>
    array = [] ∧ phase gid = .doomed ∧ ∀ gid ∈ rest, phase gid = .doomed
  | .recheck _ => array = []

/-- Every commit below the redo point is settled, kept by the checkpoint, or
still to be waited for. -/
def Checkpoint.Sound (log : List (Record Gid)) (procs : Nat → Proc)
    (phase : Gid → Phase) : Checkpoint → Prop
  | .off => True
  | .redoTaken redo => redo ≤ log.length
  | .waiting redo delaying => redo ≤ log.length ∧ ∀ backend, (procs backend).Occupied →
        .commit (procs backend).gxact.gid ∈ log.take redo →
        phase (procs backend).gxact.gid = .logged →
        (backend, (procs backend).gxact.gid) ∈ delaying
  | .collected redo info => redo ≤ log.length ∧
      (∀ gid, .commit gid ∈ log.take redo → gid ∈ info ∨ phase gid = .settled) ∧
      ∀ gid ∈ info, .commit gid ∈ log

structure Inv (cfg : Config) (world : World) (phase : Gid → Phase) : Prop where
  dialogue : Dialogue DtxProtocolCommand.kind world.net phase
  journal : Journal world.wal phase
  segments : ∀ m ∈ world.net.sent, m.target ∈ cfg.segments
  born : ∀ gid, phase gid ≠ .unborn → gid.distribTimeStamp < world.shmDistribTimeStamp ∨
      (gid.distribTimeStamp = world.shmDistribTimeStamp ∧
        gid.gxid ≤ world.shmGIDSeq ∧ world.shmTmRecoverred = true)
  vacant : ∀ backend, ¬ (world.procs backend).Occupied → (world.procs backend).pc = .running ∧
      (world.procs backend).inCommit = false
  busy : ∀ backend, (world.procs backend).Occupied →
    Busy cfg world.net world.wal phase (world.procs backend)
  slot : ∀ backend, (world.procs backend).Occupied → backend < cfg.maxBackends
  owner : ∀ left right, (world.procs left).Occupied → (world.procs right).Occupied →
    (world.procs left).gxact.gid = (world.procs right).gxact.gid → left = right
  held : ∀ gid, phase gid = .active ∨ phase gid = .logged →
    ∃ backend, (world.procs backend).Occupied ∧ (world.procs backend).gxact.gid = gid
  kept : ∀ gid, phase gid = .committed → gid ∈ world.shmCommittedGxactArray ∨
      ∃ backend, (world.procs backend).Occupied ∧ (world.procs backend).gxact.gid = gid
  redone : ∀ gid ∈ world.shmCommittedGxactArray, (phase gid).Durable
  quiet : world.shmTmRecoverred = false → ∀ backend, ¬ (world.procs backend).Occupied
  started : world.shmTmRecoverred = true → world.shmCommittedGxactArray = [] ∧ world.recovery = .off
  voters : ∀ gid, (phase gid).Decided → ∃ direct, Voted world.net gid (cfg.directed direct)
  recovering : world.recovery.Sound world.shmCommittedGxactArray phase
  checkpointing : world.checkpoint.Sound world.wal.log world.procs phase

variable {cfg : Config} {world : World} {phase phase' : Gid → Phase} {backend : Nat}
  {gid : Gid} {proc : Proc} {net : DtmNet} {wal : Wal Gid}

theorem kind_eq_prepare {command : DtxProtocolCommand} :
    command.kind = .prepare ↔ command = .prepare := by
  cases command <;> simp

theorem initial_inv (cfg : Config) : Inv cfg World.initial (fun _ => .unborn) where
  dialogue := Dialogue.initial _
  journal := Journal.initial
  segments := by simp [Net.initial]
  born := by simp
  vacant backend _ := by simp [Proc.vacant]
  busy backend hoccupied := absurd rfl hoccupied
  slot backend hoccupied := absurd rfl hoccupied
  owner left right hoccupied := absurd rfl hoccupied
  held := by simp
  kept := by simp
  redone := by simp
  quiet _ backend hoccupied := hoccupied rfl
  started := by simp
  voters := by simp
  recovering := trivial
  checkpointing := trivial

section

variable {cfg : Config} {net net' : DtmNet} {wal wal' : Wal Gid}
  {phase phase' : Gid → Phase} {gid : Gid} {targets : List Content} {pc : Pc}
  {proc : Proc}

theorem Voted.mono (h : Voted net gid targets)
    (hsent : ∀ m ∈ net'.sent, m.gid = gid → m.command = .prepare →
      m ∈ net.sent) (hacks : ∀ m ∈ net.acks, m ∈ net'.acks) : Voted net' gid targets := by
  constructor
  · intro m hm hgid hprepare
    have hvote := h.1 m (hsent m hm hgid hprepare) hgid hprepare
    exact ⟨hacks m hvote.1, hvote.2⟩
  · intro target htarget
    rcases h.2 target htarget with ⟨m, hm, hrest⟩
    exact ⟨m, hacks m hm, hrest⟩

theorem Ballot.mono (h : Ballot net gid targets pc)
    (hsent : ∀ m ∈ net'.sent, m.gid = gid → m.command = .prepare →
      m ∈ net.sent) (hacks : ∀ m ∈ net.acks, m ∈ net'.acks) : Ballot net' gid targets pc := by
  cases pc with
  | running =>
    intro m hm hgid hprepare
    exact h m (hsent m hm hgid hprepare) hgid hprepare
  | awaitPrepare seq =>
    intro m hm hgid hprepare
    exact h m (hsent m hm hgid hprepare) hgid hprepare
  | _ => first | trivial | exact Voted.mono h hsent hacks

theorem Positioned.mono {log rest : List (Record Gid)} (h : Positioned log gid pc) :
    Positioned (log ++ rest) gid pc := by
  cases pc with
  | commitInserted lsn | commitMarked lsn =>
    rcases h with ⟨hlt, hmem⟩
    constructor
    · simp only [List.length_append]
      exact Nat.lt_add_right _ hlt
    · rwa [take_append_of_le hlt]
  | _ => trivial

variable (h : Busy cfg net wal phase proc)

include h

/-- A backend is not disturbed by what happens to other transactions. -/
theorem Busy.mono (hsent : ∀ m ∈ net'.sent, m.gid = proc.gxact.gid →
      m.command = .prepare → m ∈ net.sent) (hacks : ∀ m ∈ net.acks, m ∈ net'.acks)
    (hlog : ∃ rest, wal'.log = wal.log ++ rest)
    (hphase : phase' proc.gxact.gid = phase proc.gxact.gid) : Busy cfg net' wal' phase' proc where
  state_mem := h.state_mem
  phase_eq := hphase.trans h.phase_eq
  inCommit_eq := h.inCommit_eq
  directed := h.directed
  ballot := h.ballot.mono hsent hacks
  positioned := by
    rcases hlog with ⟨rest, heq⟩
    rw [heq]
    exact h.positioned.mono

/-- A backend goes on with the same transaction. -/
theorem Busy.goOn {next : Proc} (hgid : next.gxact.gid = proc.gxact.gid)
    (hdirect : next.gxact.direct = proc.gxact.direct) (hstate : next.gxact.state ∈ next.pc.states)
    (hphase : phase' proc.gxact.gid = next.pc.phase) (hcommit : next.inCommit = next.pc.inCommit)
    (hballot : Ballot net' proc.gxact.gid (cfg.directed proc.gxact.direct) next.pc)
    (hposition : Positioned wal'.log proc.gxact.gid next.pc) : Busy cfg net' wal' phase' next where
  state_mem := hstate
  phase_eq := by rw [hgid, hphase]
  inCommit_eq := hcommit
  directed := by rw [hdirect]; exact h.directed
  ballot := by rw [hgid, hdirect]; exact hballot
  positioned := by rw [hgid]; exact hposition

theorem Busy.born : phase proc.gxact.gid ≠ .unborn := by
  rw [h.phase_eq]
  cases proc.pc <;> simp

theorem Busy.occupied : proc.Occupied := by
  intro hnone
  have hmem := h.state_mem
  rw [hnone] at hmem
  revert hmem
  cases proc.pc <;> simp

end

/-- What has gone below the redo point stays there when the log grows and phases move on. -/
theorem Checkpoint.Sound.grow {checkpoint : Checkpoint} {log log' : List (Record Gid)}
    {procs procs' : Nat → Proc} (h : checkpoint.Sound log procs phase)
    (hlog : ∃ rest, log' = log ++ rest)
    (hsettled : ∀ gid, phase gid = .settled → phase' gid = .settled)
    (hlogged : ∀ backend, (procs' backend).Occupied →
      .commit (procs' backend).gxact.gid ∈ log → phase' (procs' backend).gxact.gid = .logged →
      (procs backend).Occupied ∧ (procs backend).gxact.gid = (procs' backend).gxact.gid ∧
        phase (procs backend).gxact.gid = .logged) : checkpoint.Sound log' procs' phase' := by
  rcases hlog with ⟨rest, rfl⟩
  have hle : ∀ redo, redo ≤ log.length → redo ≤ (log ++ rest).length := by
    intro redo hredo
    rw [List.length_append]
    exact Nat.le_add_right_of_le hredo
  cases checkpoint with
  | off => trivial
  | redoTaken redo => exact hle redo h
  | collected redo info =>
    refine ⟨hle redo h.1, ?_, fun gid hmem => List.mem_append_left _ (h.2.2 gid hmem)⟩
    intro gid hmem
    rw [take_append_of_le h.1] at hmem
    exact (h.2.1 gid hmem).imp_right (hsettled gid)
  | waiting redo delaying =>
    refine ⟨hle redo h.1, ?_⟩
    intro backend hoccupied hmem hnew
    rw [take_append_of_le h.1] at hmem
    rcases hlogged backend hoccupied (List.mem_of_mem_take hmem) hnew with
      ⟨hwas, heq, hold⟩
    rw [← heq] at hmem ⊢
    exact h.2 backend hwas hmem hold

/-- What a step of a backend does: the net gets messages about its transaction only, the
log grows, and no other phase changes. -/
structure Changed (cfg : Config) (world : World) (phase phase' : Gid → Phase) (gid : Gid)
    (next : Proc) (net : DtmNet) (wal : Wal Gid) : Prop where
  dialogue : Dialogue DtxProtocolCommand.kind net phase'
  journal : Journal wal phase'
  sent : ∀ m ∈ net.sent, m ∈ world.net.sent ∨ (m.gid = gid ∧ m.target ∈ cfg.segments)
  acks : net.acks = world.net.acks
  log : ∃ rest, wal.log = world.wal.log ++ rest
  others : ∀ other, other ≠ gid → phase' other = phase other
  settled : phase gid = .settled → phase' gid = .settled
  voters : (phase' gid).Decided → ∃ direct, Voted net gid (cfg.directed direct)
  proc : (next = .vacant ∧ (phase' gid = .doomed ∨ phase' gid = .settled)) ∨
    (next.gxact.gid = gid ∧ Busy cfg net wal phase' next)

def HeldBy (procs : Nat → Proc) (gid : Gid) : Prop :=
  ∃ backend, (procs backend).Occupied ∧ (procs backend).gxact.gid = gid

theorem Inv.change (h : Inv cfg world phase) {seq : Nat}
    (hchanged : Changed cfg world phase phase' gid proc net wal)
    (hrecovered : world.shmTmRecoverred = true) (hslot : backend < cfg.maxBackends)
    (hseq : world.shmGIDSeq ≤ seq) (hborn : gid.distribTimeStamp < world.shmDistribTimeStamp ∨
      (gid.distribTimeStamp = world.shmDistribTimeStamp ∧ gid.gxid ≤ seq))
    (hgid : (world.procs backend).Occupied → (world.procs backend).gxact.gid = gid)
    (hne : ∀ other, other ≠ backend → (world.procs other).Occupied →
      (world.procs other).gxact.gid ≠ gid)
    (hlogged : phase' gid = .logged → .commit gid ∈ world.wal.log →
      (world.procs backend).Occupied ∧ phase gid = .logged) :
    Inv cfg { world.setProc backend proc with
      net := net, wal := wal, shmGIDSeq := seq } phase' := by
  have hself : (world.setProc backend proc).procs backend = proc := update_self ..
  have hother : ∀ other, other ≠ backend →
      (world.setProc backend proc).procs other = world.procs other :=
    fun other hne => update_of_ne hne ..
  have heach := fun P => forall_update_iff world.procs (a := backend) (b := proc) (p := P)
  have hstarted := h.started hrecovered
  have hbusy : proc.Occupied → proc.gxact.gid = gid ∧ Busy cfg net wal phase' proc :=
    fun hocc => hchanged.proc.resolve_left fun hend => hocc (hend.1 ▸ rfl)
  have hstay : phase' gid ≠ .doomed → phase' gid ≠ .settled →
      HeldBy (world.setProc backend proc).procs gid := by
    intro hdoomed hsettle
    rcases hchanged.proc with ⟨_, hend⟩ | ⟨heq, hbusy⟩
    · exact absurd hend (by simp [hdoomed, hsettle])
    · exact ⟨backend, by rw [hself]; exact hbusy.occupied, by rw [hself]; exact heq⟩
  have hheld : ∀ other, other ≠ gid → HeldBy world.procs other →
      HeldBy (world.setProc backend proc).procs other := by
    rintro other heq ⟨holder, hocc, heq'⟩
    have hdiff : holder ≠ backend := by
      rintro rfl
      exact heq (heq'.symm.trans (hgid hocc))
    exact ⟨holder, by rwa [hother holder hdiff], by rwa [hother holder hdiff]⟩
  have hsent : ∀ other, other ≠ gid → ∀ m ∈ net.sent, m.gid = other →
      m.command = .prepare → m ∈ world.net.sent := by
    intro other heq m hm hgid' _
    rcases hchanged.sent m hm with hold | ⟨hgid'', _⟩
    · exact hold
    · exact absurd (hgid'.symm.trans hgid'') heq
  constructor
  case dialogue => exact hchanged.dialogue
  case journal => exact hchanged.journal
  case segments =>
    intro m hm
    rcases hchanged.sent m hm with hold | ⟨_, hmem⟩
    · exact h.segments m hold
    · exact hmem
  case born =>
    intro other hnew
    by_cases heq : other = gid
    · subst heq
      exact hborn.imp_right fun hhere => ⟨hhere.1, hhere.2, hrecovered⟩
    · rw [hchanged.others other heq] at hnew
      refine (h.born other hnew).imp_right fun hold => ?_
      exact ⟨hold.1, Nat.le_trans hold.2.1 hseq, hold.2.2⟩
  case vacant =>
    refine (heach fun _ proc => ¬ proc.Occupied → proc.pc = .running ∧ proc.inCommit = false).mpr
      ⟨fun hocc => ?_, fun other _ => h.vacant other⟩
    rcases hchanged.proc with ⟨rfl, _⟩ | ⟨_, hbusy⟩
    · simp [Proc.vacant]
    · exact absurd hbusy.occupied hocc
  case busy =>
    refine (heach fun _ proc => proc.Occupied → Busy cfg net wal phase' proc).mpr
      ⟨fun hocc => (hbusy hocc).2, fun other heq hocc => ?_⟩
    have hdiff := hne other heq hocc
    exact (h.busy other hocc).mono (hsent _ hdiff) (by simp [hchanged.acks]) hchanged.log
      (hchanged.others _ hdiff)
  case slot =>
    exact (heach fun other proc => proc.Occupied → other < cfg.maxBackends).mpr
      ⟨fun _ => hslot, fun other _ => h.slot other⟩
  case owner =>
    intro left right hleft hright hsame
    by_cases hl : left = backend <;> by_cases hr : right = backend
    · exact hl.trans hr.symm
    · subst hl
      rw [hself] at hleft hsame
      rw [hother right hr] at hright hsame
      exact absurd (hsame.symm.trans (hbusy hleft).1) (hne right hr hright)
    · subst hr
      rw [hself] at hright hsame
      rw [hother left hl] at hleft hsame
      exact absurd (hsame.trans (hbusy hright).1) (hne left hl hleft)
    · rw [hother left hl] at hleft hsame
      rw [hother right hr] at hright hsame
      exact h.owner left right hleft hright hsame
  case held =>
    intro other hopen
    by_cases heq : other = gid
    · subst heq
      rcases hopen with ho | ho <;> exact hstay (by simp [ho]) (by simp [ho])
    · rw [hchanged.others other heq] at hopen
      exact hheld other heq (h.held other hopen)
  case kept =>
    intro other hcommitted
    by_cases heq : other = gid
    · subst heq
      exact .inr (hstay (by simp [hcommitted]) (by simp [hcommitted]))
    · rw [hchanged.others other heq] at hcommitted
      exact (h.kept other hcommitted).imp_right (hheld other heq)
  case redone =>
    intro other hmem
    simp [World.setProc, hstarted.1] at hmem
  case quiet =>
    intro hnot
    exact absurd (hrecovered.symm.trans hnot) (by simp)
  case started => exact h.started
  case voters =>
    intro other hdecided
    by_cases heq : other = gid
    · subst heq
      exact hchanged.voters hdecided
    · rw [hchanged.others other heq] at hdecided
      rcases h.voters other hdecided with ⟨direct, hvoted⟩
      exact ⟨direct, hvoted.mono (hsent other heq) (by simp [hchanged.acks])⟩
  case recovering =>
    have hoff : (world.setProc backend proc).recovery = .off := hstarted.2
    simp [hoff, Recovery.Sound]
  case checkpointing =>
    refine h.checkpointing.grow hchanged.log ?_ ?_
    · intro other hset
      by_cases heq : other = gid
      · subst heq
        exact hchanged.settled hset
      · rw [hchanged.others other heq, hset]
    · intro other hocc hmem hnew
      by_cases heq : other = backend
      · subst heq
        rw [hself] at hocc hmem hnew ⊢
        have hsame := (hbusy hocc).1
        rw [hsame] at hmem hnew ⊢
        rcases hlogged hnew hmem with ⟨hwas, hold⟩
        exact ⟨hwas, hgid hwas, by rwa [hgid hwas]⟩
      · rw [hother other heq] at hocc hmem hnew ⊢
        rw [hchanged.others _ (hne other heq hocc)] at hnew
        exact ⟨hocc, rfl, hnew⟩

section

variable (h : Inv cfg world phase) (hoccupied : (world.procs backend).Occupied)

include h hoccupied

/-- A step of a backend with a transaction. -/
theorem Inv.move (hgid : (world.procs backend).gxact.gid = gid)
    (hchanged : Changed cfg world phase phase' gid proc net wal)
    (hlogged : phase' gid = .logged → .commit gid ∈ world.wal.log → phase gid = .logged) :
    Inv cfg { world.setProc backend proc with net := net, wal := wal } phase' := by
  have hrecovered : world.shmTmRecoverred = true := by
    by_contra hnot
    exact h.quiet (by simpa using hnot) backend hoccupied
  have hborn := h.born gid (hgid ▸ (h.busy backend hoccupied).born)
  refine h.change hchanged hrecovered (h.slot backend hoccupied) (Nat.le_refl _)
    (hborn.imp_right fun hhere => ⟨hhere.1, hhere.2.1⟩) (fun _ => hgid) ?_
    (fun hnew hmem => ⟨hoccupied, hlogged hnew hmem⟩)
  intro other hdiff hocc heq
  exact hdiff (h.owner other backend hocc hoccupied (heq.trans hgid.symm))

theorem Inv.leave (hend : phase (world.procs backend).gxact.gid = .doomed ∨
      phase (world.procs backend).gxact.gid = .settled) :
    Inv cfg (world.setProc backend .vacant) phase :=
  h.move hoccupied rfl ⟨h.dialogue, h.journal, fun _ => .inl, rfl, ⟨[], by simp⟩,
    fun _ _ => rfl, id, h.voters _, .inl ⟨rfl, hend⟩⟩ (fun hlogged _ => hlogged)

/-- A transaction without a commit record is given up. -/
theorem Inv.doom (hactive : phase (world.procs backend).gxact.gid = .active)
    (hproc : proc = .vacant ∨ (proc.gxact.gid = (world.procs backend).gxact.gid ∧
        Busy cfg world.net world.wal (update phase
          (world.procs backend).gxact.gid .doomed) proc)) :
    Inv cfg (world.setProc backend proc)
      (update phase (world.procs backend).gxact.gid .doomed) := by
  refine h.move hoccupied rfl ⟨?_, ?_, fun _ => .inl, rfl, ⟨[], by simp⟩,
    fun other hne => update_of_ne hne .., ?_, ?_, ?_⟩ ?_
  · refine h.dialogue.update (by simp) ?_ (fun _ => rfl) ?_ ?_ <;>
      simp [hactive]
  · refine h.journal.update ?_ ?_ ?_ <;>
      simp [hactive]
  · simp [hactive]
  · simp
  · simpa using hproc
  · simp

variable (hgid : proc.gxact.gid = (world.procs backend).gxact.gid)

include hgid

theorem Inv.stay (hbusy : Busy cfg world.net world.wal phase proc) :
    Inv cfg (world.setProc backend proc) phase :=
  h.move hoccupied rfl ⟨h.dialogue, h.journal, fun _ => .inl, rfl, ⟨[], by simp⟩,
    fun _ _ => rfl, id, h.voters _, .inr ⟨hgid, hbusy⟩⟩ (fun hlogged _ => hlogged)

/-- A backend goes on with its transaction in the phase that it is in. -/
theorem Inv.goOn {pc : Pc} (hpc : (world.procs backend).pc = pc)
    (hdirect : proc.gxact.direct = (world.procs backend).gxact.direct)
    (hstate : proc.gxact.state ∈ proc.pc.states) (hphase : pc.phase = proc.pc.phase)
    (hcommit : proc.inCommit = proc.pc.inCommit)
    (hballot : Ballot world.net (world.procs backend).gxact.gid
      (cfg.directed (world.procs backend).gxact.direct) proc.pc)
    (hposition : Positioned world.wal.log (world.procs backend).gxact.gid proc.pc) :
    ∃ phase', Inv cfg (world.setProc backend proc) phase' := by
  have hbusy := h.busy backend hoccupied
  exact ⟨phase, h.stay hoccupied hgid (hbusy.goOn hgid hdirect hstate
    (hbusy.phase_eq.trans (hpc ▸ hphase)) hcommit hballot hposition)⟩

/-- A broadcast by a backend, of a command its phase allows. -/
theorem Inv.say {command : DtxProtocolCommand} {targets : List Content} {pc : Nat → Pc}
    (htargets : ∀ content ∈ targets, content ∈ cfg.segments)
    (hprepare : command.kind = .prepare → phase proc.gxact.gid = .active)
    (hcommit : command.kind = .commit → (phase proc.gxact.gid).Durable)
    (habort : command.kind = .abort → phase proc.gxact.gid = .doomed)
    (hbusy : Busy cfg (world.net.broadcast command proc.gxact.gid targets)
      world.wal phase { proc with pc := pc world.net.nextSeq }) :
    Inv cfg (doDispatchDtxProtocolCommand world backend proc command targets pc) phase := by
  refine h.move hoccupied hgid.symm
    ⟨h.dialogue.broadcast command _ targets hprepare hcommit habort, h.journal, ?_, rfl,
      ⟨[], by simp [World.setProc]⟩, fun _ _ => rfl, id, ?_, .inr ⟨rfl, hbusy⟩⟩
    (fun hlogged _ => hlogged)
  · intro m hm
    rcases Net.mem_broadcast.mp hm with hold | ⟨target, hmem, rfl⟩
    · exact .inl hold
    · exact .inr ⟨rfl, htargets target hmem⟩
  · intro hdecided
    rcases h.voters _ hdecided with ⟨direct, hvoted⟩
    refine ⟨direct, hvoted.mono ?_ (fun _ hm => hm)⟩
    intro m hm _ hvote
    rcases Net.mem_broadcast.mp hm with hold | ⟨target, hmem, rfl⟩
    · exact hold
    · rw [hprepare (kind_eq_prepare.mpr hvote)] at hdecided
      simp at hdecided

/-- The commit record is inserted once everyone has voted. -/
theorem Inv.insertCommit (hactive : phase (world.procs backend).gxact.gid = .active)
    {targets : List Content} (hvoted : Voted world.net (world.procs backend).gxact.gid targets)
    (htargets : ∃ direct, cfg.directed direct = targets)
    (hbusy : Busy cfg world.net (world.wal.append (.commit (world.procs backend).gxact.gid))
      (update phase (world.procs backend).gxact.gid .logged) proc) :
    Inv cfg { world.setProc backend proc with
        wal := world.wal.append (.commit (world.procs backend).gxact.gid) }
      (update phase (world.procs backend).gxact.gid .logged) := by
  have hopen : ¬ (phase (world.procs backend).gxact.gid).Decided := by
    simp [hactive]
  refine h.move hoccupied rfl ⟨?_, h.journal.commit hopen, fun _ => .inl, rfl, ⟨_, rfl⟩,
    fun other hne => update_of_ne hne .., ?_, ?_, .inr ⟨hgid, hbusy⟩⟩ ?_
  · refine h.dialogue.update (by simp) ?_ ?_ (fun _ => .inr ?_) ?_
    · simp [hactive]
    · simp [hactive]
    · intro m hm hkind heq
      exact (hvoted.1 m hm heq (kind_eq_prepare.mp hkind)).1
    · simp
  · simp [hactive]
  · intro _
    rcases htargets with ⟨direct, rfl⟩
    exact ⟨direct, hvoted⟩
  · intro _ hmem
    exact absurd ((h.journal.logged_iff _).mp hmem) hopen

theorem Inv.flushCommit {lsn : Nat} (hlogged : phase (world.procs backend).gxact.gid = .logged)
    (hlsn : lsn < world.wal.log.length) (hmem : .commit (world.procs backend).gxact.gid ∈
      world.wal.log.take (lsn + 1))
    (hbusy : Busy cfg world.net (world.wal.flush (lsn + 1))
      (update phase (world.procs backend).gxact.gid .committed) proc) :
    Inv cfg { world.setProc backend proc with
        wal := world.wal.flush (lsn + 1) }
      (update phase (world.procs backend).gxact.gid .committed) := by
  refine h.move hoccupied rfl ⟨?_, ?_, fun _ => .inl, rfl, ⟨[], by simp⟩,
    fun other hne => update_of_ne hne .., ?_, ?_, .inr ⟨hgid, hbusy⟩⟩ ?_
  · refine h.dialogue.update (by simp) ?_ ?_ ?_ ?_ <;>
      simp [hlogged]
  · refine (h.journal.flush hlsn).update ?_ ?_ ?_
    · simp [hlogged]
    · intro _
      exact List.take_subset_take_left _ (Nat.le_max_right _ _) hmem
    · simp [hlogged]
  · simp [hlogged]
  · intro _
    exact h.voters _ (by simp [hlogged])
  · simp

/-- A broadcast of the commit that every voter answered settles it. -/
theorem Inv.settle {seq : Nat} {command : DtxProtocolCommand} {targets : List Content}
    (hcommitted : phase (world.procs backend).gxact.gid = .committed)
    (hvoted : Voted world.net (world.procs backend).gxact.gid targets)
    (hkind : command.kind = .commit) (hanswered : world.net.Answered seq command
      (world.procs backend).gxact.gid targets)
    (hbusy : Busy cfg world.net world.wal
      (update phase (world.procs backend).gxact.gid .settled) proc) :
    Inv cfg (world.setProc backend proc)
      (update phase (world.procs backend).gxact.gid .settled) := by
  have hclear := h.dialogue.clear_of_answered hkind hanswered (fun m hm hprepare heq =>
      (hvoted.1 m hm heq (kind_eq_prepare.mp hprepare)).2)
  refine h.move hoccupied rfl ⟨?_, ?_, fun _ => .inl, rfl, ⟨[], by simp⟩,
    fun other hne => update_of_ne hne .., ?_, ?_, .inr ⟨hgid, hbusy⟩⟩ ?_
  · refine h.dialogue.update (by simp) ?_ ?_ ?_ (fun _ => .inr hclear) <;>
      simp [hcommitted]
  · refine h.journal.update ?_ (fun _ => h.journal.durable _ ?_) ?_ <;>
      simp [hcommitted]
  · simp
  · intro _
    exact h.voters _ (by simp [hcommitted])
  · simp

theorem Inv.insertForget (hsettled : phase (world.procs backend).gxact.gid = .settled)
    (hbusy : Busy cfg world.net
      (world.wal.append (.forget (world.procs backend).gxact.gid)) phase proc) :
    Inv cfg { world.setProc backend proc with
        wal := world.wal.append (.forget (world.procs backend).gxact.gid) } phase :=
  h.move hoccupied rfl ⟨h.dialogue, h.journal.forget hsettled, fun _ => .inl, rfl, ⟨_, rfl⟩,
    fun _ _ => rfl, id, h.voters _, .inr ⟨hgid, hbusy⟩⟩ (fun hlogged _ => hlogged)

end

end Greenplum.Dtm
