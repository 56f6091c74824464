/-
Two-phase commit with presumed abort over a write-ahead log, for arbitrary
transactions, participants and protocol commands.  The net keeps every message
ever sent, so delayed and lost messages need no cases of their own, and a phase
per transaction says how far its coordinator has gone.
-/
import Mathlib.Data.List.Basic

namespace Greenplum.TwoPhase

open List Function

universe u v w

/-- What a command asks a participant to do. -/
inductive Kind where
  | prepare
  | commit
  | abort
deriving Repr, DecidableEq

/-- The part of a transaction that runs at one participant. -/
inductive Branch where
  | idle
  | prepared
  | committed
  | aborted
deriving Repr, DecidableEq

/-- How far a transaction has gone.  An `active` one may still take either
course, a `doomed` one will never be logged, a `logged` one has its commit
record inserted, a `committed` one has it on disk, and a `settled` one has been
committed by everyone who voted for it. -/
inductive Phase where
  | unborn
  | active
  | doomed
  | logged
  | committed
  | settled
deriving Repr, DecidableEq

@[simp]
def Phase.Decided (phase : Phase) : Prop :=
  phase = .logged ∨ phase = .committed ∨ phase = .settled

@[simp]
def Phase.Durable (phase : Phase) : Prop :=
  phase = .committed ∨ phase = .settled

theorem Phase.Durable.decided {phase : Phase} (h : phase.Durable) : phase.Decided := .inr h

inductive Record (G : Type u) where
  | commit (gid : G)
  | forget (gid : G)
deriving Repr, DecidableEq

/-- One command to one participant.  All messages of a broadcast share the
sequence number of the broadcast. -/
structure Message (G : Type u) (S : Type v) (C : Type w) where
  seq : Nat
  target : S
  command : C
  gid : G
deriving Repr, DecidableEq

/-- Messages and participants.  `done` are the messages that have been dealt
with, `acks` those answered with success. -/
structure Net (G : Type u) (S : Type v) (C : Type w) where
  sent : List (Message G S C)
  done : List (Message G S C)
  acks : List (Message G S C)
  nextSeq : Nat
  branch : S → G → Branch

/-- The write-ahead log and its checkpoint.  Records below `flushed` survive a
crash; replay starts at `redo` from the transactions in `saved`. -/
structure Wal (G : Type u) where
  log : List (Record G)
  flushed : Nat
  redo : Nat
  saved : List G
deriving Repr, DecidableEq

variable {G : Type u} {S : Type v} {C : Type w}

def Net.initial : Net G S C := ⟨[], [], [], 0, fun _ _ => .idle⟩

@[simp]
def Wal.initial : Wal G := ⟨[], 0, 0, []⟩

def Net.broadcast (net : Net G S C) (command : C) (gid : G) (targets : List S) : Net G S C :=
  { net with
    sent := net.sent ++ targets.map fun target =>
      ⟨net.nextSeq, target, command, gid⟩
    nextSeq := net.nextSeq + 1 }

/-- A participant deals with a message: its branch becomes `after`, and the
answer reaches the coordinator as a success or not at all. -/
def Net.answer [DecidableEq G] [DecidableEq S] (net : Net G S C)
    (message : Message G S C) (after : Branch) (ack : Bool) : Net G S C :=
  { net with
    done := message :: net.done
    acks := if ack then message :: net.acks else net.acks
    branch := fun target gid =>
      if target = message.target ∧ gid = message.gid then after
      else net.branch target gid }

/-- Every participant of a broadcast answered with success. -/
def Net.Answered (net : Net G S C) (seq : Nat) (command : C) (gid : G) (targets : List S) : Prop :=
  ∀ target ∈ targets, (⟨seq, target, command, gid⟩ : Message G S C) ∈ net.acks

instance [DecidableEq G] [DecidableEq S] [DecidableEq C] (net : Net G S C)
    (seq : Nat) (command : C) (gid : G) (targets : List S) :
    Decidable (net.Answered seq command gid targets) :=
  inferInstanceAs (Decidable (∀ target ∈ targets, _))

variable (wal : Wal G)

@[simp]
def Wal.append (record : Record G) : Wal G :=
  { wal with log := wal.log ++ [record] }

@[simp]
def Wal.flush (upto : Nat) : Wal G :=
  { wal with flushed := max wal.flushed upto }

@[simp]
def Wal.install (redo : Nat) (saved : List G) : Wal G :=
  { wal with redo := redo, saved := saved, flushed := wal.log.length }

/-- A crash keeps the first `length` records of the log. -/
@[simp]
def Wal.crash (length : Nat) : Wal G :=
  { wal with log := wal.log.take length, flushed := length }

/-- What a participant may do with a message of each kind.  An acknowledged
commit never leaves the branch prepared, and a refused vote may end it. -/
def Effect (kind : Kind) (before after : Branch) (ack : Bool) : Prop :=
  match kind with
  | .prepare => (before = .idle ∧ after = .prepared) ∨
      (before = .idle ∧ after = .aborted ∧ ack = false) ∨
      (after = before ∧ ack = false)
  | .commit => (before = .prepared ∧ after = .committed) ∨
      (after = before ∧ (ack = true → before ≠ .prepared))
  | .abort => ((before = .prepared ∨ before = .idle) ∧ after = .aborted) ∨ after = before

/-- The messages and branches agree with the phases. -/
structure Dialogue (kind : C → Kind) (net : Net G S C) (phase : G → Phase) : Prop where
  done_sent : ∀ m ∈ net.done, m ∈ net.sent
  acks_done : ∀ m ∈ net.acks, m ∈ net.done
  seq_lt : ∀ m ∈ net.sent, m.seq < net.nextSeq
  prepare_phase : ∀ m ∈ net.sent, kind m.command = .prepare → phase m.gid ≠ .unborn
  commit_phase : ∀ m ∈ net.sent, kind m.command = .commit → (phase m.gid).Durable
  abort_phase : ∀ m ∈ net.sent, kind m.command = .abort → phase m.gid = .doomed
  voted : ∀ m ∈ net.sent, kind m.command = .prepare → (phase m.gid).Decided → m ∈ net.acks
  prepared_sent : ∀ target gid, net.branch target gid = .prepared →
    ∃ m ∈ net.sent, kind m.command = .prepare ∧ m.target = target ∧ m.gid = gid
  committed_phase : ∀ target gid, net.branch target gid = .committed → (phase gid).Durable
  aborted_cause : ∀ target gid, net.branch target gid = .aborted → phase gid = .doomed ∨
      ∃ m ∈ net.done, kind m.command = .prepare ∧ m.gid = gid ∧ m ∉ net.acks
  settled_clear : ∀ target gid, phase gid = .settled → net.branch target gid ≠ .prepared
  acked_clear : ∀ m ∈ net.acks, kind m.command = .commit → net.branch m.target m.gid ≠ .prepared

/-- The log and its checkpoint agree with the phases. -/
structure Journal (phase : G → Phase) : Prop where
  flushed_le : wal.flushed ≤ wal.log.length
  redo_le : wal.redo ≤ wal.flushed
  logged_iff : ∀ gid, .commit gid ∈ wal.log ↔ (phase gid).Decided
  durable : ∀ gid, (phase gid).Durable → .commit gid ∈ wal.log.take wal.flushed
  forgotten : ∀ gid, .forget gid ∈ wal.log → phase gid = .settled
  saved_sound : ∀ gid, .commit gid ∈ wal.log.take wal.redo → gid ∈ wal.saved ∨ phase gid = .settled
  saved_durable : ∀ gid ∈ wal.saved, .commit gid ∈ wal.log.take wal.flushed

theorem Dialogue.initial (kind : C → Kind) :
    Dialogue kind (Net.initial : Net G S C) (fun _ => .unborn) := by
  constructor <;> simp [Net.initial]

theorem Journal.initial : Journal (Wal.initial : Wal G) (fun _ => .unborn) := by
  constructor <;> simp

section

variable {kind : C → Kind} {net : Net G S C} {phase : G → Phase} {gid : G} {command : C}
  {targets : List S} {m : Message G S C} {ack : Bool}

/-- No transaction is committed at one participant and aborted at another. -/
theorem Dialogue.atomic (h : Dialogue kind net phase) (gid : G)
    (left right : S) (hleft : net.branch left gid = .committed) :
    net.branch right gid ≠ .aborted := by
  intro hright
  have hdurable := h.committed_phase left gid hleft
  rcases h.aborted_cause right gid hright with
    hdoomed | ⟨m, hdone, hkind, hgid, hrefused⟩
  · rw [hdoomed] at hdurable
    simp at hdurable
  · subst hgid
    exact hrefused (h.voted m (h.done_sent m hdone) hkind hdurable.decided)

theorem Net.mem_broadcast : m ∈ (net.broadcast command gid targets).sent ↔
      m ∈ net.sent ∨ ∃ target ∈ targets, ⟨net.nextSeq, target, command, gid⟩ = m := by
  simp [Net.broadcast]

/-- A branch is prepared after an answer only if it was before, or if the
message asked it to vote. -/
theorem Effect.prepared_after {kind : Kind} {before : Branch}
    (heffect : Effect kind before .prepared ack) : before = .prepared ∨ kind = .prepare := by
  cases kind <;> simp_all [Effect]

section

variable (h : Dialogue kind net phase)

include h

/-- The phases may move on where the messages and branches allow it. -/
theorem Dialogue.rephase {phase' : G → Phase}
    (hborn : ∀ gid, phase gid ≠ .unborn → phase' gid ≠ .unborn)
    (hdurable : ∀ gid, (phase gid).Durable → (phase' gid).Durable)
    (hdoomed : ∀ gid, phase gid = .doomed → phase' gid = .doomed)
    (hvoted : ∀ gid, (phase' gid).Decided → (phase gid).Decided ∨
      ∀ m ∈ net.sent, kind m.command = .prepare → m.gid = gid → m ∈ net.acks)
    (hclear : ∀ gid, phase' gid = .settled →
      phase gid = .settled ∨ ∀ target, net.branch target gid ≠ .prepared) :
    Dialogue kind net phase' :=
  { h with
    prepare_phase m hm hkind := hborn _ (h.prepare_phase m hm hkind)
    commit_phase m hm hkind := hdurable _ (h.commit_phase m hm hkind)
    abort_phase m hm hkind := hdoomed _ (h.abort_phase m hm hkind)
    voted m hm hkind hdecided := by
      rcases hvoted _ hdecided with hbefore | hall
      · exact h.voted m hm hkind hbefore
      · exact hall m hm hkind rfl
    committed_phase target gid hbranch := hdurable _ (h.committed_phase target gid hbranch)
    aborted_cause target gid hbranch :=
      (h.aborted_cause target gid hbranch).imp_left (hdoomed gid)
    settled_clear target gid hsettled := by
      rcases hclear gid hsettled with hbefore | hall
      · exact h.settled_clear target gid hbefore
      · exact hall target }

/-- The same for the phase of a single transaction. -/
theorem Dialogue.update [DecidableEq G] {next : Phase} (hborn : next ≠ .unborn)
    (hdurable : (phase gid).Durable → next.Durable) (hdoomed : phase gid = .doomed → next = .doomed)
    (hvoted : next.Decided → (phase gid).Decided ∨
      ∀ m ∈ net.sent, kind m.command = .prepare → m.gid = gid → m ∈ net.acks)
    (hclear : next = .settled →
      phase gid = .settled ∨ ∀ target, net.branch target gid ≠ .prepared) :
    Dialogue kind net (update phase gid next) := by
  apply h.rephase
  · exact (forall_update_iff phase fun other new =>
      phase other ≠ .unborn → new ≠ .unborn).mpr ⟨fun _ => hborn, fun _ _ => id⟩
  · exact (forall_update_iff phase fun other new =>
      (phase other).Durable → new.Durable).mpr ⟨hdurable, fun _ _ => id⟩
  · exact (forall_update_iff phase fun other new =>
      phase other = .doomed → new = .doomed).mpr ⟨hdoomed, fun _ _ => id⟩
  · exact (forall_update_iff phase fun other new =>
      new.Decided → (phase other).Decided ∨ ∀ m ∈ net.sent,
        kind m.command = .prepare → m.gid = other → m ∈ net.acks).mpr
      ⟨hvoted, fun _ _ => .inl⟩
  · exact (forall_update_iff phase fun other new => new = .settled →
      phase other = .settled ∨ ∀ target, net.branch target other ≠ .prepared).mpr
      ⟨hclear, fun _ _ => .inl⟩

/-- A broadcast is in order when the phase of its transaction is. -/
theorem Dialogue.broadcast (command : C) (gid : G) (targets : List S)
    (hprepare : kind command = .prepare → phase gid = .active)
    (hcommit : kind command = .commit → (phase gid).Durable)
    (habort : kind command = .abort → phase gid = .doomed) :
    Dialogue kind (net.broadcast command gid targets) phase := by
  have hsplit : ∀ m ∈ (net.broadcast command gid targets).sent,
      m ∈ net.sent ∨ (m.command = command ∧ m.gid = gid ∧ m.seq = net.nextSeq) := by
    intro m hm
    rcases Net.mem_broadcast.mp hm with hm | ⟨target, _, rfl⟩
    · exact .inl hm
    · exact .inr ⟨rfl, rfl, rfl⟩
  have hkeep : ∀ m ∈ net.sent, m ∈ (net.broadcast command gid targets).sent :=
    fun m hm => mem_append_left _ hm
  refine { h with
    done_sent := fun m hm => hkeep m (h.done_sent m hm)
    seq_lt := ?seq_lt, voted := ?voted, prepared_sent := ?prepared_sent
    prepare_phase := ?prepare_phase, commit_phase := ?commit_phase, abort_phase := ?abort_phase }
  case seq_lt =>
    intro m hm
    rcases hsplit m hm with hold | ⟨_, _, hseq⟩
    · exact Nat.lt_succ_of_lt (h.seq_lt m hold)
    · exact hseq ▸ Nat.lt_succ_self _
  case prepare_phase =>
    intro m hm hkind
    rcases hsplit m hm with hold | ⟨rfl, rfl, _⟩
    · exact h.prepare_phase m hold hkind
    · simp [hprepare hkind]
  case commit_phase =>
    intro m hm hkind
    rcases hsplit m hm with hold | ⟨rfl, rfl, _⟩
    · exact h.commit_phase m hold hkind
    · exact hcommit hkind
  case abort_phase =>
    intro m hm hkind
    rcases hsplit m hm with hold | ⟨rfl, rfl, _⟩
    · exact h.abort_phase m hold hkind
    · exact habort hkind
  case voted =>
    intro m hm hkind hdecided
    rcases hsplit m hm with hold | ⟨rfl, rfl, _⟩
    · exact h.voted m hold hkind hdecided
    · rw [hprepare hkind] at hdecided
      simp at hdecided
  case prepared_sent =>
    intro target other hbranch
    rcases h.prepared_sent target other hbranch with ⟨m, hm, hrest⟩
    exact ⟨m, hkeep m hm, hrest⟩

/-- When everyone asked to vote has committed, nobody is left prepared. -/
theorem Dialogue.clear_of_answered {seq : Nat} (hkind : kind command = .commit)
    (hanswered : net.Answered seq command gid targets)
    (hvoters : ∀ m ∈ net.sent, kind m.command = .prepare → m.gid = gid → m.target ∈ targets)
    (target : S) : net.branch target gid ≠ .prepared := by
  intro hprepared
  rcases h.prepared_sent target gid hprepared with ⟨m, hm, hprepare, rfl, rfl⟩
  exact h.acked_clear _ (hanswered _ (hvoters m hm hprepare rfl)) hkind hprepared

/-- A participant that may still be asked to vote votes on an undecided
transaction. -/
theorem Dialogue.undecided_of_vote (hsent : m ∈ net.sent) (hnew : m ∉ net.done)
    (hkind : kind m.command = .prepare) : ¬ (phase m.gid).Decided :=
  fun hdecided => hnew (h.acks_done m (h.voted m hsent hkind hdecided))

/-- Participants that answer within their rules keep the dialogue in order. -/
theorem Dialogue.answer [DecidableEq G] [DecidableEq S] {after : Branch}
    (hsent : m ∈ net.sent) (hnew : m ∉ net.done)
    (heffect : Effect (kind m.command) (net.branch m.target m.gid) after ack) :
    Dialogue kind (net.answer m after ack) phase := by
  have hacks : ∀ other ∈ net.acks, other ∈ (net.answer m after ack).acks := by
    intro other hother
    cases ack
    · exact hother
    · exact mem_cons_of_mem _ hother
  have hacked : ∀ other ∈ (net.answer m after ack).acks,
      other ∈ net.acks ∨ (other = m ∧ ack = true) := by
    intro other hother
    cases ack
    · exact .inl hother
    · rcases mem_cons.mp hother with heq | hold
      · exact .inr ⟨heq, rfl⟩
      · exact .inl hold
  have hbranch : ∀ target gid state, (net.answer m after ack).branch target gid = state →
      net.branch target gid = state ∨ (target = m.target ∧ gid = m.gid ∧ after = state) := by
    intro target gid state hstate
    by_cases hhere : target = m.target ∧ gid = m.gid
    · exact .inr ⟨hhere.1, hhere.2, by simpa [Net.answer, hhere] using hstate⟩
    · exact .inl (by simpa [Net.answer, hhere] using hstate)
  constructor
  case done_sent =>
    intro other hother
    rcases mem_cons.mp hother with rfl | hold
    · exact hsent
    · exact h.done_sent other hold
  case acks_done =>
    intro other hother
    rcases hacked other hother with hold | ⟨rfl, _⟩
    · exact mem_cons_of_mem _ (h.acks_done other hold)
    · exact mem_cons_self
  case seq_lt => exact h.seq_lt
  case prepare_phase => exact h.prepare_phase
  case commit_phase => exact h.commit_phase
  case abort_phase => exact h.abort_phase
  case voted =>
    exact fun other hother hkind hdecided =>
      hacks other (h.voted other hother hkind hdecided)
  case prepared_sent =>
    intro target gid hstate
    rcases hbranch target gid _ hstate with hold | ⟨rfl, rfl, rfl⟩
    · exact h.prepared_sent target gid hold
    · rcases heffect.prepared_after with hbefore | hkind
      · exact h.prepared_sent _ _ hbefore
      · exact ⟨m, hsent, hkind, rfl, rfl⟩
  case committed_phase =>
    intro target gid hstate
    rcases hbranch target gid _ hstate with hold | ⟨rfl, rfl, rfl⟩
    · exact h.committed_phase target gid hold
    · cases hkind : kind m.command with
      | commit => exact h.commit_phase m hsent hkind
      | prepare =>
        simp [Effect, hkind] at heffect
        exact h.committed_phase _ _ heffect.1.symm
      | abort =>
        simp [Effect, hkind] at heffect
        exact h.committed_phase _ _ heffect.symm
  case aborted_cause =>
    have hkept : ∀ gid, (∃ other ∈ net.done, kind other.command = .prepare ∧
        other.gid = gid ∧ other ∉ net.acks) →
        ∃ other ∈ (net.answer m after ack).done, kind other.command = .prepare ∧ other.gid = gid ∧
            other ∉ (net.answer m after ack).acks := by
      rintro gid ⟨other, hdone, hkind, hgid, hrefused⟩
      refine ⟨other, mem_cons_of_mem _ hdone, hkind, hgid, ?_⟩
      intro hmem
      rcases hacked other hmem with hold | ⟨rfl, _⟩
      · exact hrefused hold
      · exact hnew hdone
    have hfrom : ∀ target gid, net.branch target gid = .aborted →
        phase gid = .doomed ∨ ∃ other ∈ (net.answer m after ack).done,
          kind other.command = .prepare ∧ other.gid = gid ∧ other ∉ (net.answer m after ack).acks :=
      fun target gid hold => (h.aborted_cause target gid hold).imp_right (hkept gid)
    intro target gid hstate
    rcases hbranch target gid _ hstate with hold | ⟨rfl, rfl, rfl⟩
    · exact hfrom target gid hold
    · cases hkind : kind m.command with
      | abort => exact .inl (h.abort_phase m hsent hkind)
      | commit =>
        simp [Effect, hkind] at heffect
        exact hfrom _ _ heffect.1.symm
      | prepare =>
        simp only [Effect, hkind] at heffect
        rcases heffect with ⟨_, hne⟩ | ⟨_, _, rfl⟩ | ⟨hsame, _⟩
        · cases hne
        · refine .inr ⟨m, mem_cons_self, hkind, rfl, ?_⟩
          exact fun hmem => hnew (h.acks_done m hmem)
        · exact hfrom _ _ hsame.symm
  case settled_clear =>
    intro target gid hsettled hstate
    rcases hbranch target gid _ hstate with hold | ⟨rfl, rfl, rfl⟩
    · exact h.settled_clear target gid hsettled hold
    · rcases heffect.prepared_after with hbefore | hkind
      · exact h.settled_clear _ _ hsettled hbefore
      · exact h.undecided_of_vote hsent hnew hkind (.inr (.inr hsettled))
  case acked_clear =>
    intro other hother hcommit hstate
    have hdurable : (phase other.gid).Durable := by
      rcases hacked other hother with hold | ⟨rfl, _⟩
      · exact h.commit_phase other (h.done_sent _ (h.acks_done _ hold)) hcommit
      · exact h.commit_phase other hsent hcommit
    have hbefore : net.branch other.target other.gid = .prepared := by
      rcases hbranch _ _ _ hstate with hold | ⟨htarget, hgid, rfl⟩
      · exact hold
      · rw [htarget, hgid]
        rcases heffect.prepared_after with hbefore | hkind
        · exact hbefore
        · rw [hgid] at hdurable
          exact absurd hdurable.decided (h.undecided_of_vote hsent hnew hkind)
    rcases hacked other hother with hold | ⟨rfl, rfl⟩
    · exact h.acked_clear other hold hcommit hbefore
    · simp only [Effect, hcommit] at heffect
      rcases heffect with ⟨_, rfl⟩ | ⟨_, hclear⟩
      · simp [Net.answer] at hstate
      · exact hclear trivial hbefore

end

end

section

variable {wal : Wal G} {phase : G → Phase} {phase' : G → Phase} {gid : G} {length : Nat}

/-- The phases may move on where the log allows it. -/
theorem Journal.rephase (h : Journal wal phase)
    (hdecided : ∀ gid, (phase' gid).Decided ↔ (phase gid).Decided)
    (hdurable : ∀ gid, (phase' gid).Durable → .commit gid ∈ wal.log.take wal.flushed)
    (hsettled : ∀ gid, phase gid = .settled → phase' gid = .settled) : Journal wal phase' :=
  { h with
    logged_iff gid := (h.logged_iff gid).trans (hdecided gid).symm
    durable := hdurable
    forgotten gid hmem := hsettled gid (h.forgotten gid hmem)
    saved_sound gid hmem := (h.saved_sound gid hmem).imp_right (hsettled gid) }

/-- The same for the phase of a single transaction. -/
theorem Journal.update [DecidableEq G] (h : Journal wal phase) {next : Phase}
    (hdecided : next.Decided ↔ (phase gid).Decided)
    (hdurable : next.Durable → .commit gid ∈ wal.log.take wal.flushed)
    (hsettled : phase gid = .settled → next = .settled) :
    Journal wal (update phase gid next) := by
  apply h.rephase
  · exact (forall_update_iff phase fun other new =>
      new.Decided ↔ (phase other).Decided).mpr ⟨hdecided, fun _ _ => Iff.rfl⟩
  · exact (forall_update_iff phase fun other new =>
      new.Durable → .commit other ∈ wal.log.take wal.flushed).mpr
      ⟨hdurable, fun other _ => h.durable other⟩
  · exact (forall_update_iff phase fun other new =>
      phase other = .settled → new = .settled).mpr ⟨hsettled, fun _ _ => id⟩

theorem take_append_of_le {log : List (Record G)} (hle : length ≤ log.length)
    (rest : List (Record G)) : (log ++ rest).take length = log.take length :=
  take_append_of_le_length hle

section

variable (h : Journal wal phase)

include h

/-- One more record, with the phases it goes with. -/
theorem Journal.append {record : Record G}
    (hlogged : ∀ gid, .commit gid ∈ wal.log ++ [record] ↔ (phase' gid).Decided)
    (hdurable : ∀ gid, (phase' gid).Durable → (phase gid).Durable)
    (hforgotten : ∀ gid, .forget gid ∈ wal.log ++ [record] → phase' gid = .settled)
    (hsettled : ∀ gid, phase gid = .settled → phase' gid = .settled) :
    Journal (wal.append record) phase' where
  flushed_le := by
    simp only [Wal.append, length_append]
    exact Nat.le_add_right_of_le h.flushed_le
  redo_le := h.redo_le
  logged_iff := hlogged
  durable gid hnew := by
    simpa [Wal.append, take_append_of_le h.flushed_le] using h.durable gid (hdurable gid hnew)
  forgotten := hforgotten
  saved_sound gid hmem := by
    simp only [Wal.append, take_append_of_le (Nat.le_trans h.redo_le h.flushed_le)] at hmem
    exact (h.saved_sound gid hmem).imp_right (hsettled gid)
  saved_durable gid hmem := by
    simpa [Wal.append, take_append_of_le h.flushed_le] using h.saved_durable gid hmem

theorem Journal.forget (hsettled : phase gid = .settled) :
    Journal (wal.append (.forget gid)) phase := by
  refine h.append ?_ (fun _ => id) ?_ (fun _ => id)
  · intro other
    simpa using h.logged_iff other
  · intro other hmem
    rw [mem_append, mem_singleton, Record.forget.injEq] at hmem
    rcases hmem with hold | rfl
    · exact h.forgotten other hold
    · exact hsettled

/-- The commit record of an undecided transaction decides it. -/
theorem Journal.commit [DecidableEq G] (hopen : ¬ (phase gid).Decided) :
    Journal (wal.append (.commit gid)) (Function.update phase gid .logged) := by
  have hsettled : ∀ other, phase other = .settled →
      Function.update phase gid .logged other = .settled := by
    intro other hother
    rw [update_of_ne, hother]
    rintro rfl
    exact hopen (.inr (.inr hother))
  refine h.append ?_ ?_ ?_ hsettled
  · intro other
    by_cases heq : other = gid
    · subst heq
      simp
    · simpa [heq] using h.logged_iff other
  · exact (forall_update_iff phase fun other new =>
      new.Durable → (phase other).Durable).mpr
      ⟨by simp, fun _ _ => id⟩
  · intro other hmem
    exact hsettled other (h.forgotten other (by simpa using hmem))

theorem Journal.flush {upto : Nat}
    (hupto : upto ≤ wal.log.length) : Journal (wal.flush upto) phase where
  flushed_le := Nat.max_le.mpr ⟨h.flushed_le, hupto⟩
  redo_le := Nat.le_trans h.redo_le (Nat.le_max_left _ _)
  logged_iff := h.logged_iff
  durable gid hdurable :=
    take_subset_take_left _ (Nat.le_max_left _ _) (h.durable gid hdurable)
  forgotten := h.forgotten
  saved_sound := h.saved_sound
  saved_durable gid hmem :=
    take_subset_take_left _ (Nat.le_max_left _ _) (h.saved_durable gid hmem)

theorem Journal.install {redo : Nat} {saved : List G} (hredo : redo ≤ wal.log.length)
    (hsaved : ∀ gid, .commit gid ∈ wal.log.take redo → gid ∈ saved ∨ phase gid = .settled)
    (hlogged : ∀ gid ∈ saved, .commit gid ∈ wal.log) : Journal (wal.install redo saved) phase where
  flushed_le := Nat.le_refl _
  redo_le := hredo
  logged_iff := h.logged_iff
  durable gid hdurable := by
    simpa using (h.logged_iff gid).mpr hdurable.decided
  forgotten := h.forgotten
  saved_sound := hsaved
  saved_durable gid hmem := by simpa using hlogged gid hmem

end

/-- After a crash a transaction is decided by what is left of the log. -/
def crashPhase [DecidableEq G] (log : List (Record G)) (phase : G → Phase) (gid : G) : Phase :=
  match phase gid with
  | .active => .doomed
  | .logged => if .commit gid ∈ log then .committed else .doomed
  | settledOrNot => settledOrNot

section

variable [DecidableEq G] {log : List (Record G)} {gid : G}

theorem crashPhase_eq_settled : crashPhase log phase gid = .settled ↔ phase gid = .settled := by
  unfold crashPhase
  cases phase gid <;> simp
  split <;> simp

theorem crashPhase_not_open (log : List (Record G)) (phase : G → Phase) (gid : G) :
    crashPhase log phase gid ≠ .active ∧ crashPhase log phase gid ≠ .logged := by
  unfold crashPhase
  cases phase gid <;> simp
  split <;> simp

theorem crashPhase_eq_unborn : crashPhase log phase gid = .unborn ↔ phase gid = .unborn := by
  unfold crashPhase
  cases phase gid <;> simp
  split <;> simp

end

theorem Journal.crash [DecidableEq G] (h : Journal wal phase)
    (hkept : wal.flushed ≤ length) (hle : length ≤ wal.log.length) :
    Journal (wal.crash length) (crashPhase (wal.log.take length) phase) := by
  have hdurable : ∀ gid, (phase gid).Durable → .commit gid ∈ wal.log.take length :=
    fun gid hd => take_subset_take_left _ hkept (h.durable gid hd)
  have hdecided : ∀ gid, .commit gid ∈ wal.log.take length ↔
      (crashPhase (wal.log.take length) phase gid).Decided := by
    intro gid
    have hlog : .commit gid ∈ wal.log.take length → (phase gid).Decided :=
      fun hmem => (h.logged_iff gid).mp (mem_of_mem_take hmem)
    unfold crashPhase
    cases hphase : phase gid <;> simp_all
    split <;> simp_all
  constructor
  case flushed_le => simp [hle]
  case redo_le => exact Nat.le_trans h.redo_le hkept
  case logged_iff => exact hdecided
  case durable =>
    intro gid hd
    simpa [take_take] using (hdecided gid).mpr hd.decided
  case forgotten =>
    intro gid hmem
    exact crashPhase_eq_settled.mpr (h.forgotten gid (mem_of_mem_take hmem))
  case saved_sound =>
    intro gid hmem
    rw [crashPhase_eq_settled]
    refine h.saved_sound gid ?_
    have hredo : wal.redo ≤ length := Nat.le_trans h.redo_le hkept
    simpa [take_take, hredo] using hmem
  case saved_durable =>
    intro gid hmem
    have hkeep := take_subset_take_left _ hkept (h.saved_durable gid hmem)
    simpa [take_take] using hkeep

theorem Dialogue.crash [DecidableEq G] {kind : C → Kind} {net : Net G S C}
    (h : Dialogue kind net phase) (hjournal : Journal wal phase) (length : Nat) :
    Dialogue kind net (crashPhase (wal.log.take length) phase) := by
  apply h.rephase
  · exact fun gid => mt crashPhase_eq_unborn.mp
  · intro gid hdurable
    unfold crashPhase
    rcases hdurable with heq | heq <;> simp [heq]
  · intro gid hdoomed
    simp [crashPhase, hdoomed]
  · intro gid hdecided
    refine .inl ((hjournal.logged_iff gid).mp ?_)
    by_contra hmem
    have hopen := mt (hjournal.logged_iff gid).mpr hmem
    revert hdecided
    unfold crashPhase
    cases hphase : phase gid <;> simp_all
  · exact fun gid hsettled => .inl (crashPhase_eq_settled.mp hsettled)

end

end Greenplum.TwoPhase
