/-
The segments, the checkpointer, crash redo and the recovery of in-doubt
transactions keep the invariant, as long as a checkpoint copies all the redone
commits.
-/
import Greenplum.DtmBackend

namespace Greenplum.Dtm

open TwoPhase List

section

variable {cfg : Config} {world next : World} {phase : Gid → Phase} {net : DtmNet}
  {wal : Wal Gid} {proc : Proc}

/-- Answers and flushes leave everything else as it is. -/
theorem Inv.environment (h : Inv cfg world phase)
    (hdialogue : Dialogue DtxProtocolCommand.kind net phase)
    (hjournal : Journal wal phase) (hsent : net.sent = world.net.sent)
    (hacks : ∀ m ∈ world.net.acks, m ∈ net.acks) (hlog : wal.log = world.wal.log) :
    Inv cfg { world with net := net, wal := wal } phase :=
  { h with
    dialogue := hdialogue
    journal := hjournal
    segments := by rw [hsent]; exact h.segments
    busy backend hoccupied :=
      (h.busy backend hoccupied).mono (fun _ hm _ _ => hsent ▸ hm) hacks ⟨[], by simp [hlog]⟩ rfl
    voters gid hdecided := by
      rcases h.voters gid hdecided with ⟨direct, hvoted⟩
      exact ⟨direct, hvoted.mono (fun _ hm _ _ => hsent ▸ hm) hacks⟩
    checkpointing := by rw [hlog]; exact h.checkpointing }

/-- The segments follow the rules of participants. -/
theorem deliver_effect (command : DtxProtocolCommand) (branch : Branch) (delivery : Delivery) :
    Effect command.kind branch (deliver command branch delivery).1
      (deliver command branch delivery).2 := by
  cases command <;> cases branch <;> cases delivery <;>
    simp [deliver, performDtxProtocolCommand, Effect]

theorem segmentExecutes_inv (h : Inv cfg world phase) {message : DtmMessage} {delivery : Delivery}
    (hstep : segmentExecutes world message delivery = some next) : Inv cfg next phase := by
  simp only [segmentExecutes] at hstep
  obtain ⟨hguard, hstep⟩ := Option.ite_none_right_eq_some.mp hstep
  cases hstep
  refine h.environment (h.dialogue.answer hguard.1 hguard.2
    (deliver_effect ..)) h.journal rfl ?_ rfl
  intro m hm
  simp only [Net.answer]
  split
  · exact mem_cons_of_mem _ hm
  · exact hm

/-- A checkpoint below one redone commit drops nothing of the array. -/
theorem copyCommittedGxacts_of_length_le {committed : List Gid} (hlength : committed.length ≤ 1) :
    copyCommittedGxacts committed = committed := by
  match committed, hlength with
  | [], _ => rfl
  | [_], _ => rfl

theorem mem_getDtxCheckPointInfo_of_state {backend : Nat} (hslot : backend < cfg.maxBackends)
    (hinclude : includeInCheckpointIsNeeded (world.procs backend).gxact = true) :
    (world.procs backend).gxact.gid ∈ getDtxCheckPointInfo cfg world := by
  refine mem_append_right _ (mem_filterMap.mpr ?_)
  exact ⟨backend, mem_range.mpr hslot, by simp [hinclude]⟩

/-- The states between the commit record and the forget record. -/
theorem includeInCheckpointIsNeeded_iff {gxact : TMGXACT} :
    includeInCheckpointIsNeeded gxact = true ↔
      gxact.state = .insertedCommitted ∨ gxact.state = .forcedCommitted ∨
        gxact.state = .notifyingCommitPrepared ∨ gxact.state = .insertingForgetCommitted ∨
        gxact.state = .retryCommitPrepared := by
  cases hstate : gxact.state <;>
    simp [includeInCheckpointIsNeeded, hstate, DtxState.code]

/-- A transaction whose commit is on disk but not settled is in a state that a
checkpoint includes. -/
theorem Busy.included (h : Busy cfg net wal phase proc)
    (hcommitted : phase proc.gxact.gid = .committed) :
    includeInCheckpointIsNeeded proc.gxact = true := by
  have hphase := h.phase_eq.symm.trans hcommitted
  have hstate := h.state_mem
  rw [includeInCheckpointIsNeeded_iff]
  revert hphase hstate
  cases proc.pc <;> simp +contextual [Pc.phase, Pc.states]

theorem Busy.decided_of_included (h : Busy cfg net wal phase proc)
    (hinclude : includeInCheckpointIsNeeded proc.gxact = true) :
    (phase proc.gxact.gid).Decided := by
  have hstate := h.state_mem
  rw [includeInCheckpointIsNeeded_iff] at hinclude
  rw [h.phase_eq]
  rcases hinclude with heq | heq | heq | heq | heq <;>
    rw [heq] at hstate <;> revert hstate <;>
    cases proc.pc <;> simp

theorem mem_of_mem_copyCommittedGxacts {gid : Gid} (committed : List Gid)
    (hmem : gid ∈ copyCommittedGxacts committed) : gid ∈ committed := by
  induction committed using copyCommittedGxacts.induct with
  | case1 => exact hmem
  | case2 head => exact hmem
  | case3 head skipped rest ih =>
    rcases mem_cons.mp hmem with rfl | hrest
    · exact mem_cons_self
    · exact mem_cons_of_mem _ (mem_cons_of_mem _ (ih hrest))

theorem Inv.getDtxCheckPointInfo_logged (h : Inv cfg world phase) :
    ∀ gid ∈ getDtxCheckPointInfo cfg world, .commit gid ∈ world.wal.log := by
  intro gid hmem
  rw [h.journal.logged_iff]
  rcases mem_append.mp hmem with harray | hproc
  · exact (h.redone gid (mem_of_mem_copyCommittedGxacts _ harray)).decided
  · rcases mem_filterMap.mp hproc with ⟨backend, _, hsome⟩
    simp only [Option.ite_none_right_eq_some, Option.some.injEq] at hsome
    rcases hsome with ⟨hinclude, rfl⟩
    have hoccupied : (world.procs backend).Occupied := by
      intro hnone
      simp [includeInCheckpointIsNeeded_iff, hnone] at hinclude
    exact (h.busy backend hoccupied).decided_of_included hinclude

/-- A transaction whose commit record may not be on disk keeps its backend in
the commit section. -/
theorem Busy.inCommit_of_logged (h : Busy cfg net wal phase proc)
    (hlogged : phase proc.gxact.gid = .logged) : proc.inCommit = true := by
  have hphase := h.phase_eq.symm.trans hlogged
  rw [h.inCommit_eq]
  revert hphase
  cases proc.pc <;> simp

theorem Inv.withCheckpoint (h : Inv cfg world phase) {checkpoint : Checkpoint}
    (hsound : checkpoint.Sound world.wal.log world.procs phase) :
    Inv cfg { world with checkpoint := checkpoint } phase :=
  { h with checkpointing := hsound }

/-- A checkpoint is sound when it is collected with at most one redone commit
in shared memory. -/
theorem createCheckPoint_inv (h : Inv cfg world phase)
    (hsmall : ∀ redo delaying, world.checkpoint = .waiting redo delaying →
      world.shmCommittedGxactArray.length ≤ 1)
    (hstep : createCheckPoint cfg world = some next) : Inv cfg next phase := by
  have hsound := h.checkpointing
  simp only [createCheckPoint] at hstep
  generalize world.checkpoint = checkpoint at hsound hstep hsmall
  cases checkpoint with
  | off =>
    cases hstep
    exact h.withCheckpoint (Nat.le_refl _)
  | redoTaken redo =>
    cases hstep
    refine h.withCheckpoint ⟨hsound, ?_⟩
    intro backend hoccupied _ hlogged
    refine mem_filterMap.mpr ⟨backend, mem_range.mpr (h.slot backend hoccupied), ?_⟩
    simp [(h.busy backend hoccupied).inCommit_of_logged hlogged]
  | waiting redo delaying =>
    dsimp only at hstep
    split at hstep
    · cases hstep
    · cases hstep
      rename_i hnone
      refine h.withCheckpoint ⟨hsound.1, fun gid hmem => ?_, h.getDtxCheckPointInfo_logged⟩
      have hdecided := (h.journal.logged_iff gid).mp (mem_of_mem_take hmem)
      rcases hdecided with hlogged | hcommitted | hsettled
      · rcases h.held gid (.inr hlogged) with ⟨backend, hoccupied, rfl⟩
        have hin := (h.busy backend hoccupied).inCommit_of_logged hlogged
        have hdelays := hsound.2 backend hoccupied hmem hlogged
        refine absurd (any_eq_true.mpr ⟨_, hdelays, ?_⟩) hnone
        simp [stillInCommit, hin]
      · refine .inl ?_
        rcases h.kept gid hcommitted with harray | ⟨backend, hoccupied, rfl⟩
        · refine mem_append_left _ ?_
          rwa [copyCommittedGxacts_of_length_le (hsmall _ _ rfl)]
        · exact mem_getDtxCheckPointInfo_of_state (h.slot backend hoccupied)
            ((h.busy backend hoccupied).included hcommitted)
      · exact .inr hsettled
  | collected redo info =>
    cases hstep
    exact (h.environment h.dialogue (h.journal.install hsound.1 hsound.2.1 hsound.2.2) rfl
      (fun _ hm => hm) rfl).withCheckpoint trivial

end

section

variable {cfg : Config} {committed after : List Gid} {gid other : Gid}

theorem mem_of_mem_redoForget (hmem : other ∈ redoDistributedForgetCommitRecord committed gid) :
    other ∈ committed := by
  unfold redoDistributedForgetCommitRecord at hmem
  split at hmem
  · split at hmem
    · rename_i last hlast
      rcases mem_or_eq_of_mem_set (dropLast_subset _ hmem) with
        hold | rfl
      · exact hold
      · exact mem_of_getLast? hlast
    · exact hmem
  · exact hmem

/-- Forgetting one transaction keeps the others, the last of which moves to
the freed place. -/
theorem mem_redoForget_of_ne (hne : other ≠ gid) (hmem : other ∈ committed) :
    other ∈ redoDistributedForgetCommitRecord committed gid := by
  unfold redoDistributedForgetCommitRecord
  split
  case h_2 => exact hmem
  case h_1 index hindex =>
    split
    case h_2 => exact hmem
    case h_1 last hlast =>
      rcases getLast?_eq_some_iff.mp hlast with ⟨front, rfl⟩
      rcases idxOf?_eq_some_iff.mp hindex with ⟨hlt, hhere, _⟩
      rw [set_append]
      by_cases hfront : index < front.length
      · rw [if_pos hfront, dropLast_concat]
        rw [getElem_append_left hfront] at hhere
        rcases mem_append.mp hmem with hold | hlast'
        · rcases mem_iff_getElem?.mp hold with ⟨place, hplace⟩
          have hdiff : index ≠ place := by
            rintro rfl
            rw [getElem?_eq_getElem hfront, hhere] at hplace
            exact hne (Option.some.inj hplace).symm
          refine mem_iff_getElem?.mpr ⟨place, ?_⟩
          rwa [getElem?_set_ne hdiff]
        · rw [mem_singleton.mp hlast']
          exact mem_set hfront _
      · have hlength : index = front.length := by
          simp only [length_append, length_singleton] at hlt
          exact Nat.le_antisymm (Nat.le_of_lt_succ hlt) (Nat.le_of_not_lt hfront)
        subst hlength
        simp only [getElem_concat_length] at hhere
        rw [if_neg (Nat.lt_irrefl _), Nat.sub_self, set_cons_zero, dropLast_concat]
        rcases mem_append.mp hmem with hold | hlast'
        · exact hold
        · exact absurd ((mem_singleton.mp hlast').trans hhere) hne

theorem mem_redoCommit
    (hredo : redoDistributedCommitRecord cfg committed gid = some after) (other : Gid) :
    other ∈ after ↔ other ∈ committed ∨ other = gid := by
  unfold redoDistributedCommitRecord at hredo
  split at hredo
  · rename_i hmem
    cases hredo
    constructor
    · exact Or.inl
    · rintro (hold | rfl)
      · exact hold
      · exact hmem
  · split at hredo
    · cases hredo
    · cases hredo
      simp

/-- What redo makes of a list of records: nothing but their commits, and all of
them that no record forgets. -/
theorem redoRecords_spec (records : List (Record Gid)) :
    ∀ {committed after : List Gid}, records.foldlM (redoRecord cfg) committed = some after →
      (∀ gid ∈ after, gid ∈ committed ∨ .commit gid ∈ records) ∧
      ∀ gid, gid ∈ committed ∨ .commit gid ∈ records → .forget gid ∉ records → gid ∈ after := by
  induction records with
  | nil =>
    intro committed after hredo
    cases hredo
    simp
  | cons record rest ih =>
    intro committed after hredo
    rcases Option.bind_eq_some_iff.mp hredo with ⟨middle, hfirst, hrest⟩
    rcases ih hrest with ⟨honly, hall⟩
    cases record with
    | commit first =>
      have hmiddle := mem_redoCommit hfirst
      constructor
      · intro gid hmem
        rcases honly gid hmem with hm | hm
        · rcases (hmiddle gid).mp hm with hold | rfl
          · exact .inl hold
          · exact .inr mem_cons_self
        · exact .inr (mem_cons_of_mem _ hm)
      · intro gid hmem hforget
        refine hall gid ?_ (fun hm => hforget (mem_cons_of_mem _ hm))
        rw [hmiddle]
        rw [mem_cons, Record.commit.injEq] at hmem
        tauto
    | forget first =>
      cases hfirst
      constructor
      · intro gid hmem
        rcases honly gid hmem with hm | hm
        · exact .inl (mem_of_mem_redoForget hm)
        · exact .inr (mem_cons_of_mem _ hm)
      · intro gid hmem hforget
        rw [mem_cons, not_or, Record.forget.injEq] at hforget
        refine hall gid ?_ hforget.2
        rcases hmem with hold | hm
        · exact .inl (mem_redoForget_of_ne hforget.1 hold)
        · exact .inr (by simpa using hm)

theorem startupXLOG_spec {wal : Wal Gid} (hredo : startupXLOG cfg wal = some after) :
    (∀ gid ∈ after, gid ∈ wal.saved ∨ .commit gid ∈ wal.log) ∧
    ∀ gid, gid ∈ wal.saved ∨ .commit gid ∈ wal.log.drop wal.redo →
      .forget gid ∉ wal.log → gid ∈ after := by
  have hfold : (wal.saved.map Record.commit ++ wal.log.drop wal.redo).foldlM
      (redoRecord cfg) [] = some after := by
    rw [foldlM_append, foldlM_map]
    exact hredo
  rcases redoRecords_spec _ hfold with ⟨honly, hall⟩
  constructor
  · intro gid hmem
    have hfrom := honly gid hmem
    simp only [not_mem_nil, mem_append, mem_map,
      Record.commit.injEq, exists_eq_right, false_or] at hfrom
    exact hfrom.imp_right mem_of_mem_drop
  · intro gid hmem hforget
    refine hall gid (.inr ?_) ?_
    · simpa using hmem
    · intro hm
      simp only [mem_append, mem_map, reduceCtorEq, and_false, exists_false, false_or] at hm
      exact hforget (mem_of_mem_drop hm)

variable {world next : World} {phase : Gid → Phase}

/-- After a crash, redo finds every committed transaction that is not settled.
The identifiers of the next start are new because its time is. -/
theorem crash_inv (h : Inv cfg world phase) {length timestamp : Nat}
    (htime : world.shmDistribTimeStamp < timestamp)
    (hstep : crash cfg world length timestamp = some next) : ∃ phase', Inv cfg next phase' := by
  simp only [crash] at hstep
  obtain ⟨hguard, hstep⟩ := Option.ite_none_right_eq_some.mp hstep
  rcases hguard with ⟨hflushed, hle⟩
  rcases Option.map_eq_some_iff.mp hstep with ⟨committed, hredo, rfl⟩
  have hjournal := h.journal.crash hflushed hle
  rcases startupXLOG_spec hredo with ⟨honly, hall⟩
  refine ⟨crashPhase (world.wal.log.take length) phase, ?_⟩
  have hopen := crashPhase_not_open (world.wal.log.take length) phase
  constructor
  case dialogue => exact h.dialogue.crash h.journal length
  case journal => exact hjournal
  case segments => exact h.segments
  case born =>
    intro gid hborn
    refine .inl ?_
    rcases h.born gid (mt crashPhase_eq_unborn.mpr hborn) with hlt | ⟨heq, _⟩
    · exact Nat.lt_trans hlt htime
    · exact heq ▸ htime
  case vacant => exact fun _ _ => ⟨rfl, rfl⟩
  case busy => exact fun _ hoccupied => absurd rfl hoccupied
  case slot => exact fun _ hoccupied => absurd rfl hoccupied
  case owner => exact fun _ _ hoccupied => absurd rfl hoccupied
  case held =>
    intro gid hphase
    rcases hphase with heq | heq
    · exact absurd heq (hopen gid).1
    · exact absurd heq (hopen gid).2
  case kept =>
    intro gid hcommitted
    refine .inl (hall gid ?_ ?_)
    · have hlogged := (hjournal.logged_iff gid).mpr (.inr (.inl hcommitted))
      rw [← take_append_drop (world.wal.crash length).redo
        (world.wal.crash length).log, mem_append] at hlogged
      rcases hlogged with hbelow | habove
      · refine .inl ((hjournal.saved_sound gid hbelow).resolve_right ?_)
        simp [hcommitted]
      · exact .inr habove
    · intro hforget
      exact absurd (hjournal.forgotten gid hforget) (by simp [hcommitted])
  case redone =>
    intro gid hmem
    have hlogged : .commit gid ∈ (world.wal.crash length).log := by
      rcases honly gid hmem with hsaved | hlog
      · exact mem_of_mem_take (hjournal.saved_durable gid hsaved)
      · exact hlog
    rcases (hjournal.logged_iff gid).mp hlogged with heq | hdurable
    · exact absurd heq (hopen gid).2
    · exact hdurable
  case quiet => exact fun _ _ hoccupied => hoccupied rfl
  case started => simp
  case voters =>
    intro gid hdecided
    have hlogged := (hjournal.logged_iff gid).mpr hdecided
    exact h.voters gid ((h.journal.logged_iff gid).mp (mem_of_mem_take hlogged))
  case recovering => trivial
  case checkpointing => trivial

end

section

variable {cfg : Config} {world next : World} {phase phase' : Gid → Phase} {net : DtmNet}
  {recovery : Recovery} {gid : Gid} {content : Content}

theorem mem_of_mem_hashEnter (gids : List Gid) :
    ∀ {found : List Gid}, gid ∈ hashEnter found gids → gid ∈ found ∨ gid ∈ gids := by
  induction gids with
  | nil => exact fun hmem => .inl hmem
  | cons head rest ih =>
    intro found hmem
    rcases ih hmem with hfound | hrest
    · by_cases hhead : head ∈ found
      · exact .inl (by simpa [if_pos hhead] using hfound)
      · simp only [if_neg hhead, mem_append, mem_singleton] at hfound
        rcases hfound with hold | rfl
        · exact .inl hold
        · exact .inr mem_cons_self
    · exact .inr (mem_cons_of_mem _ hrest)

theorem branch_of_mem_preparedXacts (hmem : gid ∈ preparedXacts net content) :
    net.branch content gid = .prepared := by
  simpa using (mem_filter.mp hmem).2

section

variable (h : Inv cfg world phase) (hnot : world.shmTmRecoverred = false)

include h hnot

/-- A step of the recovery, when no backend has a transaction. -/
theorem Inv.recover {wal : Wal Gid} {array : List Gid}
    (hdialogue : Dialogue DtxProtocolCommand.kind net phase')
    (hjournal : Journal wal phase') (hsent : ∀ m ∈ net.sent, m ∈ world.net.sent ∨
      (m.target ∈ cfg.segments ∧ m.command ≠ .prepare)) (hacks : net.acks = world.net.acks)
    (hlog : ∃ rest, wal.log = world.wal.log ++ rest) (hphase : ∀ gid, phase' gid = phase gid ∨
      ((phase gid).Durable ∧ phase' gid = .settled))
    (hkept : ∀ gid, phase' gid = .committed → gid ∈ array)
    (hredone : ∀ gid ∈ array, (phase' gid).Durable) (hsound : recovery.Sound array phase') :
    Inv cfg { world with
      net := net, wal := wal, shmCommittedGxactArray := array, recovery := recovery } phase' := by
  have hvacant := h.quiet hnot
  have hsettled : ∀ gid, phase gid = .settled → phase' gid = .settled := by
    intro gid heq
    rcases hphase gid with hsame | ⟨_, hset⟩
    · rw [hsame, heq]
    · exact hset
  have hprepare : ∀ m ∈ net.sent, m.command = .prepare → m ∈ world.net.sent := by
    intro m hm hvote
    rcases hsent m hm with hold | ⟨_, hne⟩
    · exact hold
    · exact absurd hvote hne
  constructor
  case dialogue => exact hdialogue
  case journal => exact hjournal
  case segments =>
    intro m hm
    rcases hsent m hm with hold | ⟨hmem, _⟩
    · exact h.segments m hold
    · exact hmem
  case born =>
    intro gid hborn
    refine h.born gid fun hunborn => ?_
    rcases hphase gid with hsame | ⟨hdurable, _⟩
    · exact hborn (hsame.trans hunborn)
    · simp [hunborn] at hdurable
  case vacant => exact h.vacant
  case busy => exact fun backend hoccupied => absurd hoccupied (hvacant backend)
  case slot => exact h.slot
  case owner => exact h.owner
  case held =>
    intro gid hopen
    rcases hphase gid with hsame | ⟨_, hset⟩
    · rw [hsame] at hopen
      exact h.held gid hopen
    · simp [hset] at hopen
  case kept => exact fun gid hcommitted => .inl (hkept gid hcommitted)
  case redone => exact hredone
  case quiet => exact h.quiet
  case started => exact fun hyes => absurd (hnot.symm.trans hyes) (by simp)
  case voters =>
    intro gid hdecided
    have hbefore : (phase gid).Decided := by
      rcases hphase gid with hsame | ⟨hdurable, _⟩
      · rwa [hsame] at hdecided
      · exact hdurable.decided
    rcases h.voters gid hbefore with ⟨direct, hvoted⟩
    exact ⟨direct, hvoted.mono (fun m hm _ hvote => hprepare m hm hvote) (by simp [hacks])⟩
  case recovering => exact hsound
  case checkpointing =>
    exact h.checkpointing.grow hlog hsettled fun backend hoccupied =>
      absurd hoccupied (hvacant backend)

/-- Before the recovery is over, the commits to be settled are the redone ones. -/
theorem Inv.mem_array (gid : Gid) (hcommitted : phase gid = .committed) :
    gid ∈ world.shmCommittedGxactArray :=
  (h.kept gid hcommitted).resolve_right
    fun ⟨backend, hoccupied, _⟩ => h.quiet hnot backend hoccupied

/-- A recovery step that moves on without a message or a record. -/
theorem Inv.recoverOn (hsound : recovery.Sound world.shmCommittedGxactArray phase) :
    Inv cfg { world with recovery := recovery } phase :=
  h.recover hnot h.dialogue h.journal (fun _ => .inl) rfl ⟨[], by simp⟩
    (fun _ => .inl rfl) (h.mem_array hnot) h.redone hsound

/-- A broadcast by the recovery. -/
theorem Inv.recoverSay {command : DtxProtocolCommand} (hprepare : command ≠ .prepare)
    (hcommit : command.kind = .commit → (phase gid).Durable)
    (habort : command.kind = .abort → phase gid = .doomed)
    (hsound : recovery.Sound world.shmCommittedGxactArray phase) :
    Inv cfg { world with
      net := world.net.broadcast command gid cfg.segments, recovery := recovery } phase := by
  refine h.recover hnot (h.dialogue.broadcast command gid cfg.segments ?_ hcommit habort)
    h.journal ?_ rfl ⟨[], by simp⟩ (fun _ => .inl rfl) (h.mem_array hnot) h.redone hsound
  · exact fun hkind => absurd (kind_eq_prepare.mp hkind) hprepare
  · intro m hm
    rcases Net.mem_broadcast.mp hm with hold | ⟨target, hmem, rfl⟩
    · exact .inl hold
    · exact .inr ⟨hmem, hprepare⟩

/-- Once the redone commits are settled, whatever is still prepared at a
segment never got a commit record. -/
theorem Inv.prepared_doomed (hempty : world.shmCommittedGxactArray = [])
    (hprepared : world.net.branch content gid = .prepared) : phase gid = .doomed := by
  rcases h.dialogue.prepared_sent content gid hprepared with
    ⟨m, hm, hkind, _, rfl⟩
  cases hphase : phase m.gid with
  | doomed => rfl
  | unborn => exact absurd hphase (h.dialogue.prepare_phase m hm hkind)
  | settled => exact absurd hprepared (h.dialogue.settled_clear _ _ hphase)
  | committed => exact absurd (h.mem_array hnot _ hphase) (by simp [hempty])
  | active =>
    rcases h.held _ (.inl hphase) with ⟨backend, hoccupied, _⟩
    exact absurd hoccupied (h.quiet hnot backend)
  | logged =>
    rcases h.held _ (.inr hphase) with ⟨backend, hoccupied, _⟩
    exact absurd hoccupied (h.quiet hnot backend)

/-- A redone commit that all segments answered is settled and forgotten. -/
theorem Inv.recoverSettle {index seq : Nat} (hget : world.shmCommittedGxactArray[index]? = some gid)
    (hbefore : ∀ other ∈ world.shmCommittedGxactArray.take index, phase other = .settled)
    (hanswered : world.net.Answered seq .recoveryCommitPrepared gid cfg.segments) :
    Inv cfg { world with
      wal := world.wal.append (.forget gid), recovery := .notify (index + 1) }
      (Function.update phase gid .settled) := by
  have hdurable := h.redone gid (mem_of_getElem? hget)
  have hclear := h.dialogue.clear_of_answered rfl hanswered (fun m hm _ _ => h.segments m hm)
  have hset : ∀ other, phase other = .settled →
      Function.update phase gid .settled other = .settled := by
    intro other heq
    by_cases hsame : other = gid
    · simp [hsame]
    · rw [Function.update_of_ne hsame, heq]
  refine h.recover hnot ?_ ?_ (fun _ => .inl) rfl ⟨_, rfl⟩ ?_ ?_ ?_ ?_
  · refine h.dialogue.update (by simp) (fun _ => .inr rfl) ?_
      (fun _ => .inl hdurable.decided) (fun _ => .inr hclear)
    intro hdoomed
    simp [hdoomed] at hdurable
  · refine (h.journal.update ?_ (fun _ => h.journal.durable gid hdurable)
      (fun _ => rfl)).forget (by simp)
    exact iff_of_true (.inr (.inr rfl)) hdurable.decided
  · intro other
    by_cases hsame : other = gid
    · subst hsame
      exact .inr ⟨hdurable, by simp⟩
    · exact .inl (Function.update_of_ne hsame ..)
  · intro other hcommitted
    have hsame : other ≠ gid := by
      rintro rfl
      simp at hcommitted
    rw [Function.update_of_ne hsame] at hcommitted
    exact h.mem_array hnot other hcommitted
  · intro other hmem
    by_cases hsame : other = gid
    · simp [hsame]
    · rw [Function.update_of_ne hsame]
      exact h.redone other hmem
  · intro other hmem
    rw [take_add_one, hget, mem_append] at hmem
    rcases hmem with hold | hhere
    · exact hset other (hbefore other hold)
    · simp_all

end

theorem recoverTM_inv (h : Inv cfg world phase) {received : Bool}
    (hstep : recoverTM cfg world received = some next) : ∃ phase', Inv cfg next phase' := by
  have hsound := h.recovering
  simp only [recoverTM] at hstep
  by_cases hoff : world.recovery = .off
  · simp only [hoff] at hstep
    split at hstep
    · cases hstep
    · cases hstep
      rename_i hnot
      exact ⟨phase, h.recoverOn (by simpa using hnot) (by simp [Recovery.Sound])⟩
  have hnot : world.shmTmRecoverred = false := by
    by_contra hyes
    exact hoff (h.started (by simpa using hyes)).2
  have hgiveUp : Inv cfg { world with recovery := .off } phase := h.recoverOn hnot trivial
  generalize world.recovery = recovery at hsound hstep hoff
  cases recovery with
  | off => exact absurd rfl hoff
  | notify index =>
    cases hget : world.shmCommittedGxactArray[index]? with
    | some gid =>
      simp only [hget] at hstep
      cases hstep
      exact ⟨phase, h.recoverSay hnot (by simp) (fun _ => h.redone gid (mem_of_getElem? hget))
        (by simp) hsound⟩
    | none =>
      simp only [hget] at hstep
      cases hstep
      have hdone : world.shmCommittedGxactArray.take index = world.shmCommittedGxactArray :=
        take_of_length_le (getElem?_eq_none_iff.mp hget)
      have hsettled : ∀ gid ∈ world.shmCommittedGxactArray, phase gid = .settled := hdone ▸ hsound
      refine ⟨phase, h.recover hnot h.dialogue h.journal (fun _ => .inl)
        rfl ⟨[], by simp⟩ (fun _ => .inl rfl) ?_ (by simp) ⟨rfl, by simp⟩⟩
      intro gid hcommitted
      exact absurd (hsettled gid (h.mem_array hnot gid hcommitted)) (by simp [hcommitted])
  | awaitNotify index seq =>
    cases hget : world.shmCommittedGxactArray[index]? with
    | none =>
      simp only [hget] at hstep
      cases hstep
    | some gid =>
      simp only [hget] at hstep
      split at hstep
      · cases hstep
        rename_i hanswered
        exact ⟨_, h.recoverSettle hnot hget hsound (succeeded_answered hanswered)⟩
      · cases hstep
        exact ⟨phase, hgiveUp⟩
  | gather rest found =>
    cases rest with
    | nil =>
      cases hstep
      exact ⟨phase, h.recoverOn hnot hsound⟩
    | cons content rest =>
      dsimp only at hstep
      split at hstep
      · cases hstep
        refine ⟨phase, h.recoverOn hnot ⟨hsound.1, fun gid hmem => ?_⟩⟩
        rcases mem_of_mem_hashEnter _ hmem with hold | hnew
        · exact hsound.2 gid hold
        · exact h.prepared_doomed hnot hsound.1 (branch_of_mem_preparedXacts hnew)
      · cases hstep
        exact ⟨phase, hgiveUp⟩
  | abort rest =>
    cases rest with
    | nil =>
      cases hstep
      exact ⟨phase, h.recoverOn hnot hsound.1⟩
    | cons gid rest =>
      cases hstep
      have hall := forall_mem_cons.mp hsound.2
      exact ⟨phase, h.recoverSay hnot (by simp) (by simp) (fun _ => hall.1) ⟨hsound.1, hall⟩⟩
  | awaitAbort gid rest seq =>
    dsimp only at hstep
    split at hstep
    · cases hstep
      exact ⟨phase, h.recoverOn hnot ⟨hsound.1, hsound.2.2⟩⟩
    · cases hstep
      exact ⟨phase, hgiveUp⟩
  | recheck rest =>
    cases rest with
    | cons content rest =>
      dsimp only at hstep
      split at hstep
      · cases hstep
        exact ⟨phase, h.recoverOn hnot hsound⟩
      · cases hstep
        exact ⟨phase, hgiveUp⟩
    | nil =>
      cases hstep
      refine ⟨phase, { hgiveUp with
        born := fun gid hborn => ?_, quiet := by simp,
        started := fun _ => ⟨hsound, rfl⟩ }⟩
      refine (h.born gid hborn).imp_right fun hhere => ?_
      exact absurd (hnot.symm.trans hhere.2.2) (by simp)

end

end Greenplum.Dtm
