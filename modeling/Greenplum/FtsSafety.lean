/-
Safety of the fault tolerance service over every sequence of probe cycles: each
content has a primary that is up and a mirror, roles are swapped only to an
in-sync mirror, and no message runs ahead of the catalog.
-/
import Greenplum.FtsPair

namespace Greenplum.Fts

open List

section

variable {settings : Settings} {catalog : List CdbComponentDatabaseInfo}
  {context : List FtsSegmentInfo}

/-- The invariant of the pairs of a cycle. -/
structure ContextOk (catalog : List CdbComponentDatabaseInfo)
    (context : List FtsSegmentInfo) : Prop where
  nodup : (contents context).Nodup
  pairs : ∀ ftsInfo ∈ context, PairOk catalog ftsInfo

section

variable {phase : FtsSegmentInfo → Option FtsSegmentInfo}
  (hphase : ∀ before after, phase before = some after → Moves before after)

include hphase

/-- One phase of the loop over all segments. -/
theorem mapM_moves (context : List FtsSegmentInfo) :
    ∀ {after : List FtsSegmentInfo}, context.mapM phase = some after →
      contents after = contents context ∧
        ∀ moved ∈ after, ∃ ftsInfo ∈ context, Moves ftsInfo moved := by
  induction context with
  | nil =>
    intro after hmap
    cases hmap
    exact ⟨rfl, by simp⟩
  | cons ftsInfo rest ih =>
    intro after hmap
    rw [mapM_cons] at hmap
    rcases Option.bind_eq_some_iff.mp hmap with ⟨one, hone, hrest⟩
    rcases Option.bind_eq_some_iff.mp hrest with ⟨others, hothers, hafter⟩
    cases hafter
    have hmoves := hphase ftsInfo one hone
    rcases ih hothers with ⟨hcontents, hall⟩
    constructor
    · simp only [contents, map_cons, hmoves.primary] at hcontents ⊢
      rw [hcontents]
    · intro moved hmem
      rcases mem_cons.mp hmem with rfl | hlater
      · exact ⟨ftsInfo, mem_cons_self, hmoves⟩
      · rcases hall moved hlater with ⟨other, hother, hmove⟩
        exact ⟨other, mem_cons_of_mem _ hother, hmove⟩

theorem ContextOk.moves {after : List FtsSegmentInfo} (h : ContextOk catalog context)
    (hmap : context.mapM phase = some after) :
    ContextOk catalog after ∧ contents after = contents context := by
  rcases mapM_moves hphase context hmap with ⟨hcontents, hall⟩
  refine ⟨⟨hcontents ▸ h.nodup, fun moved hmem => ?_⟩, hcontents⟩
  rcases hall moved hmem with ⟨ftsInfo, hbefore, hmoves⟩
  exact (h.pairs ftsInfo hbefore).moves hmoves

end

theorem ContextOk.retry (settings : Settings) (h : ContextOk catalog context) (now : Int) :
    ContextOk catalog (context.map (processRetry settings now)) ∧
      contents (context.map (processRetry settings now)) = contents context := by
  have hcontents : contents (context.map (processRetry settings now)) = contents context := by
    simp only [contents, map_map]
    apply map_congr_left
    intro ftsInfo _
    exact congrArg _ (processRetry_moves ftsInfo).primary
  refine ⟨⟨hcontents ▸ h.nodup, fun moved hmem => ?_⟩, hcontents⟩
  rcases mem_map.mp hmem with ⟨ftsInfo, hbefore, rfl⟩
  exact (h.pairs ftsInfo hbefore).moves (processRetry_moves ftsInfo)

/-- A message is sent only when the catalog says what it must say. -/
def SentOk (sent : Sent) : Prop :=
  (sent.message = .promote → RecordedPrimary sent.catalog sent.content sent.dbid) ∧
  (sent.message = .syncrepOff → RecordedDown sent.catalog sent.content sent.dbid)

theorem messageKind_of_messageOf {state : FtsMessageState} {message : Message}
    (hmessage : messageOf state = some message) : messageKind state = some message := by
  cases state <;> cases hmessage <;> rfl

theorem sentBy_ok {ftsInfo : FtsSegmentInfo} {sent : Sent}
    (h : PairOk catalog ftsInfo) (hsent : sentBy catalog ftsInfo = some sent) : SentOk sent := by
  rcases Option.map_eq_some_iff.mp hsent with ⟨message, hmessage, rfl⟩
  have hkind := h.kind
  unfold ftsSendMessage at hmessage
  split at hmessage
  · rw [messageKind_of_messageOf hmessage] at hkind
    constructor
    · rintro rfl
      exact hkind
    · rintro rfl
      exact hkind
  · cases hmessage

def TurnInput.Sound (input : TurnInput) : Prop :=
  ∀ content, (input.pairs content).Sound

theorem messageSegmentsTurn_spec {input : TurnInput} {world next : World}
    (hsafe : Safe world.config.catalog) (h : ContextOk world.config.catalog context)
    (hsound : input.Sound) (hturn : messageSegmentsTurn settings input context world = some next) :
    CatalogStep world.config.catalog next.config.catalog (· ∈ contents context) ∧
      (∃ after, next.context = some after ∧ ContextOk next.config.catalog after) ∧
      ∃ more, next.log = world.log ++ more ∧ ∀ sent ∈ more, SentOk sent := by
  unfold messageSegmentsTurn at hturn
  simp only [Option.bind_eq_bind, Option.bind_eq_some_iff] at hturn
  rcases hturn with ⟨connected, hconnect, polled, hpoll, sent, hsend, received,
    hreceive, processed, hprocess, hnext⟩
  cases hnext
  rcases h.moves (fun _ _ => ftsConnect_moves) hconnect with ⟨h₁, hcontents₁⟩
  rcases h₁.moves (fun _ _ => ftsPoll_moves) hpoll with ⟨h₂, hcontents₂⟩
  rcases h₂.moves (fun _ _ => ftsSend_moves) hsend with ⟨h₃, hcontents₃⟩
  rcases h₃.moves (fun _ _ => ftsReceive_moves (hsound _)) hreceive with
    ⟨h₄, hcontents₄⟩
  rcases h₄.retry settings input.later with ⟨h₅, hcontents₅⟩
  rcases processResponse_spec input.limit hsafe h₅.nodup h₅.pairs with
    ⟨after, updated, hafter, hstep, hcontents₆, hall⟩
  rw [hprocess] at hafter
  cases hafter
  refine ⟨?_, ⟨after, rfl, ?_, hall⟩, _, rfl, ?_⟩
  · rw [hcontents₅, hcontents₄, hcontents₃, hcontents₂, hcontents₁] at hstep
    exact hstep
  · rw [hcontents₆]
    exact h₅.nodup
  · intro entry hmem
    rcases mem_filterMap.mp hmem with ⟨ftsInfo, hinfo, hentry⟩
    exact sentBy_ok (h₂.pairs ftsInfo hinfo) hentry

end

section

variable {settings : Settings} {catalog : List CdbComponentDatabaseInfo}

theorem mem_segmentDbInfo {row : CdbComponentDatabaseInfo} :
    row ∈ segmentDbInfo catalog ↔ row ∈ catalog ∧ 0 ≤ row.segindex := by
  rw [segmentDbInfo, mem_insertionSort, mem_filter, decide_eq_true_eq]

/-- The peer of a primary is its mirror. -/
theorem ftsGetPeerSegment_paired (hsafe : Safe catalog) {primary mirror : CdbComponentDatabaseInfo}
    (hprimary : primary ∈ segmentDbInfo catalog) (hrole : primary.role = .primary)
    (hpeer : ftsGetPeerSegment (segmentDbInfo catalog) primary.segindex
      primary.dbid = some mirror) : Paired catalog primary mirror := by
  rw [mem_segmentDbInfo] at hprimary
  have hfound := find?_some hpeer
  rw [decide_eq_true_eq] at hfound
  have hmirror := mem_segmentDbInfo.mp (mem_of_find?_eq_some hpeer)
  rcases hsafe.pairs primary hprimary.1 hprimary.2 with
    ⟨primary', mirror', hseg, hpaired, _⟩
  have heq := hpaired.eq_primary hprimary.1 hseg.symm hrole
  rcases hpaired.only mirror hmirror.1 (hfound.1.trans hseg.symm) with hp | hm
  · exact absurd (congrArg _ (hp.trans heq.symm)) hfound.2
  · rw [heq, hm]
    exact hpaired

/-- The entry that the cycle makes for a segment. -/
theorem mem_initProbeContext {ftsInfo : FtsSegmentInfo}
    {primary : CdbComponentDatabaseInfo} (hsafe : Safe catalog)
    (hprimary : primary ∈ segmentDbInfo catalog) (hentry : (if segmentIsActivePrimary primary then
        (ftsGetPeerSegment (segmentDbInfo catalog) primary.segindex
          primary.dbid).map (FtsSegmentInfo.initial primary) else none) = some ftsInfo) :
    primary.role = .primary ∧ ∃ mirror, Paired catalog primary mirror ∧
      ftsInfo = FtsSegmentInfo.initial primary mirror := by
  rcases Option.ite_none_right_eq_some.mp hentry with ⟨hactive, hpeer⟩
  rcases Option.map_eq_some_iff.mp hpeer with ⟨mirror, hmirror, rfl⟩
  have hrole : primary.role = .primary := by
    simpa [segmentIsActivePrimary] using hactive
  exact ⟨hrole, mirror, ftsGetPeerSegment_paired hsafe hprimary hrole hmirror, rfl⟩

theorem initProbeContext_ok (hsafe : Safe catalog) :
    ContextOk catalog (ftsWalRepInitProbeContext (segmentDbInfo catalog)) := by
  constructor
  case nodup =>
    have hdbids : (segmentDbInfo catalog).Pairwise fun left right => left.dbid ≠ right.dbid := by
      have hfilter : ((catalog.filter fun row => 0 ≤ row.segindex).map
          CdbComponentDatabaseInfo.dbid).Nodup :=
        hsafe.dbids.sublist (filter_sublist.map _)
      have hsorted := ((perm_insertionSort (fun left right => componentLe left right = true) _).map
          CdbComponentDatabaseInfo.dbid).nodup_iff.mpr hfilter
      exact pairwise_map.mp hsorted
    rw [contents, List.Nodup, pairwise_map, ftsWalRepInitProbeContext, pairwise_filterMap]
    apply hdbids.imp_of_mem
    intro left right hleft hright hne first hfirst second hsecond heq
    rcases mem_initProbeContext hsafe hleft hfirst with
      ⟨hrole, mirror, hpaired, rfl⟩
    rcases mem_initProbeContext hsafe hright hsecond with
      ⟨hrole', mirror', hpaired', rfl⟩
    exact hne (congrArg _ (hpaired'.eq_primary hpaired.primary_mem heq hrole))
  case pairs =>
    intro ftsInfo hmem
    rcases mem_filterMap.mp hmem with ⟨primary, hprimary, hentry⟩
    rcases mem_initProbeContext hsafe hprimary hentry with
      ⟨_, mirror, hpaired, rfl⟩
    refine ⟨⟨fun _ => rfl, fun hstate => ?_⟩, ?_, hpaired⟩
    · cases hstate
    · exact (mem_segmentDbInfo.mp hprimary).2

/-- The invariant of the service. -/
structure Inv (world : World) : Prop where
  safe : Safe world.config.catalog
  context : ∀ context, world.context = some context → ContextOk world.config.catalog context
  log : ∀ sent ∈ world.log, SentOk sent

def Action.Sound : Action → Prop
  | .turn input => input.Sound
  | _ => True

theorem step_inv {world next : World} {action : Action} (h : Inv world)
    (hsound : action.Sound) (hstep : step settings world action = some next) :
    Inv next ∧ ∃ touched, CatalogStep world.config.catalog next.config.catalog touched := by
  have hstay : ∃ touched, CatalogStep world.config.catalog world.config.catalog touched :=
    ⟨fun _ => False, CatalogStep.refl h.safe _⟩
  cases action with
  | startCycle =>
    rcases Option.ite_none_right_eq_some.mp hstep with ⟨_, hnext⟩
    cases hnext
    refine ⟨⟨h.safe, fun context hcontext => ?_, h.log⟩, hstay⟩
    cases hcontext
    exact initProbeContext_ok h.safe
  | turn input =>
    dsimp only [step] at hstep
    split at hstep
    case h_1 context hcontext =>
      rcases Option.ite_none_right_eq_some.mp hstep with ⟨_, hturn⟩
      rcases messageSegmentsTurn_spec h.safe (h.context context hcontext)
        hsound hturn with ⟨hcatalog, ⟨after, hafter, hok⟩, more, hlog, hmore⟩
      refine ⟨⟨hcatalog.safe, fun context' hcontext' => ?_, ?_⟩, _, hcatalog⟩
      · rw [hafter] at hcontext'
        cases hcontext'
        exact hok
      · intro sent hmem
        rw [hlog, mem_append] at hmem
        exact hmem.elim (h.log sent) (hmore sent)
    case h_2 => cases hstep
  | deactivate =>
    cases hstep
    exact ⟨{ h with }, hstay⟩
  | restart =>
    cases hstep
    exact ⟨⟨h.safe, fun context hcontext => (by cases hcontext), h.log⟩, hstay⟩
  | endCycle =>
    dsimp only [step] at hstep
    split at hstep
    case h_1 =>
      rcases Option.ite_none_right_eq_some.mp hstep with ⟨_, hnext⟩
      cases hnext
      exact ⟨⟨h.safe, fun context hcontext => (by cases hcontext), h.log⟩, hstay⟩
    case h_2 => cases hstep

/-- Along every run no entry is lost and the invariant holds. -/
theorem run_inv (settings : Settings) (actions : List Action) :
    ∀ {start world : World}, Inv start → (∀ action ∈ actions, action.Sound) →
      run settings start actions = some world →
      Inv world ∧ ∀ row ∈ start.config.catalog, ∃ row' ∈ world.config.catalog,
        row'.dbid = row.dbid ∧ row'.segindex = row.segindex := by
  induction actions with
  | nil =>
    intro start world h _ hrun
    cases hrun
    exact ⟨h, fun row hrow => ⟨row, hrow, rfl, rfl⟩⟩
  | cons action rest ih =>
    intro start world h hsound hrun
    rcases Option.bind_eq_some_iff.mp hrun with ⟨middle, hstep, hrest⟩
    rcases step_inv h (hsound action mem_cons_self) hstep with
      ⟨hmiddle, touched, hcatalog⟩
    rcases ih hmiddle (fun other hmem =>
      hsound other (mem_cons_of_mem _ hmem)) hrest with ⟨hworld, hrows⟩
    refine ⟨hworld, fun row hrow => ?_⟩
    rcases hcatalog.persists row hrow with ⟨row₁, hrow₁, hdbid₁, hcontent₁⟩
    rcases hrows row₁ hrow₁ with ⟨row₂, hrow₂, hdbid₂, hcontent₂⟩
    exact ⟨row₂, hrow₂, hdbid₂.trans hdbid₁, hcontent₂.trans hcontent₁⟩

/-- Safety of the configuration, in every state that any sequence of probe
cycles reaches. -/
theorem run_safe (settings : Settings) (catalog : List CdbComponentDatabaseInfo)
    (hcatalog : Safe catalog) (actions : List Action)
    (hsound : ∀ action ∈ actions, action.Sound) (world : World)
    (hrun : run settings (World.initial catalog) actions = some world) :
    Safe world.config.catalog ∧ (∀ row ∈ catalog, ∃ row' ∈ world.config.catalog,
        row'.dbid = row.dbid ∧ row'.segindex = row.segindex) ∧ (∀ action next, action.Sound →
        step settings world action = some next →
        ∀ row ∈ world.config.catalog, ∀ row' ∈ next.config.catalog,
          row'.dbid = row.dbid → row'.role ≠ row.role →
          ∃ mirror ∈ world.config.catalog, mirror.segindex = row.segindex ∧
            mirror.role = .mirror ∧ mirror.mode = .inSync ∧ mirror.status = .up) ∧
      (∀ sent ∈ world.log, sent.message = .promote →
        RecordedPrimary sent.catalog sent.content sent.dbid) ∧
      (∀ sent ∈ world.log, sent.message = .syncrepOff →
        RecordedDown sent.catalog sent.content sent.dbid) := by
  have hstart : Inv (World.initial catalog) :=
    ⟨hcatalog, fun context hcontext => (by cases hcontext), fun sent hmem => (by cases hmem)⟩
  rcases run_inv settings actions hstart hsound hrun with ⟨h, hrows⟩
  refine ⟨h.safe, hrows, ?_, fun sent hmem => (h.log sent hmem).1,
    fun sent hmem => (h.log sent hmem).2⟩
  intro action next hnext hstep
  rcases (step_inv h hnext hstep).2 with ⟨touched, hcatalog'⟩
  exact hcatalog'.swap

end

namespace FtsSafetyWitness

def settings : Settings := ⟨0, 20⟩

def entry (dbid : Int) (role : Role) (mode : Mode) (status : Status) :
    CdbComponentDatabaseInfo := ⟨dbid, 0, role, mode, status⟩

/-- A pair in sync. -/
def healthy : List CdbComponentDatabaseInfo :=
  [entry 2 .primary .inSync .up, entry 3 .mirror .inSync .up]

/-- What the network does for every segment in one turn. -/
def turn (start : ConnectStart) (polling : PollingStatus)
    (revents : PollRevents) (received : Received) : Action :=
  .turn ⟨fun _ => ⟨start, polling, none, revents, true, received⟩, 1, 1, 5⟩

def writable : PollRevents := ⟨false, true, false, false, false⟩

def readable : PollRevents := ⟨true, false, false, false, false⟩

/-- The primary cannot be reached, the mirror takes over and is promoted. -/
def failover : List Action :=
  [.startCycle, turn .bad .ok writable .busy, turn .started .ok writable .busy,
    turn .started .ok writable .busy,
    turn .started .ok readable (.response ⟨false, false, false, false, false⟩), .endCycle]

theorem turn_sound {start : ConnectStart} {polling : PollingStatus}
    {revents : PollRevents} {received : Received}
    (hvalues : ∀ values, received = .response values → values.Sound) :
    (turn start polling revents received).Sound :=
  fun _ => hvalues

theorem failover_sound : ∀ action ∈ failover, action.Sound := by
  simp only [failover, forall_mem_cons]
  exact ⟨trivial, turn_sound (by simp), turn_sound (by simp),
    turn_sound (by simp), turn_sound (by simp [Response.Sound]), trivial, by simp⟩

theorem healthy_safe : Safe healthy := by
  refine ⟨by decide, fun row hrow _ => ?_⟩
  refine ⟨entry 2 .primary .inSync .up, entry 3 .mirror .inSync .up, ?_,
    ⟨by decide, by decide, rfl, rfl, rfl, by decide⟩, ⟨rfl, rfl, fun _ => rfl⟩⟩
  revert row
  decide

theorem failover_safe : ∃ world, run settings (World.initial healthy) failover = some world ∧
      world.log.length = 1 ∧ Safe world.config.catalog :=
  ⟨_, rfl, rfl, (run_safe settings healthy healthy_safe failover failover_sound _ rfl).1⟩

variable (catalog : List CdbComponentDatabaseInfo)

/-- Every content has one primary and one mirror. -/
def EachPaired : Prop :=
  (catalog.map CdbComponentDatabaseInfo.dbid).Nodup ∧
    ∀ row ∈ catalog, ∃ primary mirror, primary.segindex = row.segindex ∧
      Paired catalog primary mirror

/-- After these cycles some pair is not consistent. -/
def EndsInconsistent (actions : List Action) : Prop :=
  (∀ action ∈ actions, action.Sound) ∧
    ∃ world, run settings (World.initial catalog) actions = some world ∧
      world.context = none ∧ ∃ primary mirror,
        Paired world.config.catalog primary mirror ∧ ¬Consistent primary mirror

def oddModes : List CdbComponentDatabaseInfo :=
  [entry 2 .primary .inSync .up, entry 3 .mirror .notInSync .up]

def primaryDown : List CdbComponentDatabaseInfo :=
  [entry 2 .primary .notInSync .down, entry 3 .mirror .notInSync .up]

def syncedDown : List CdbComponentDatabaseInfo :=
  [entry 2 .primary .inSync .up, entry 3 .mirror .inSync .down]

/-- The primary cannot be reached and the mirror is not in sync. -/
def doubleFault : List Action :=
  [.startCycle, turn .bad .ok .none .busy, .endCycle]

/-- The primary cannot be reached, and neither can the mirror. -/
def failedPromotion : List Action :=
  [.startCycle, turn .bad .ok .none .busy, turn .bad .ok .none .busy, .endCycle]

/-- A start where the modes of a pair differ, where a primary is recorded down
or where a pair is in sync with a mirror that is down does not get better; from
the last one a mirror that is down even becomes the primary. -/
theorem oddStarts_inconsistent : (EachPaired oddModes ∧ EndsInconsistent oddModes doubleFault) ∧
      (EachPaired primaryDown ∧ EndsInconsistent primaryDown doubleFault) ∧
      (EachPaired syncedDown ∧ EndsInconsistent syncedDown failedPromotion) := by
  have hfault : ∀ action ∈ doubleFault, action.Sound := by
    simp only [doubleFault, forall_mem_cons]
    exact ⟨trivial, turn_sound (by simp), trivial, by simp⟩
  have hfailed : ∀ action ∈ failedPromotion, action.Sound := by
    simp only [failedPromotion, forall_mem_cons]
    exact ⟨trivial, turn_sound (by simp), turn_sound (by simp), trivial, by simp⟩
  have hpaired : ∀ mode mode' status status',
      Paired [entry 2 .primary mode status, entry 3 .mirror mode' status']
        (entry 2 .primary mode status) (entry 3 .mirror mode' status') :=
    fun mode mode' status status' =>
      ⟨by simp, by simp, rfl, rfl, rfl, by simp⟩
  have heach : ∀ mode mode' status status', EachPaired
      [entry 2 .primary mode status, entry 3 .mirror mode' status'] := by
    intro mode mode' status status'
    refine ⟨by simp [entry], fun row hrow => ⟨_, _, ?_, hpaired ..⟩⟩
    rcases mem_pair.mp hrow with rfl | rfl <;> rfl
  refine ⟨⟨heach .., hfault, _, rfl, rfl, _, _, hpaired .inSync .notInSync .up .up,
      fun h => ?_⟩, ⟨heach .., hfault, _, rfl, rfl, _, _,
      hpaired .notInSync .notInSync .down .up, fun h => ?_⟩,
    ⟨heach .., hfailed, _, rfl, rfl, entry 3 .primary .notInSync .down,
      entry 2 .mirror .notInSync .down, ?_, fun h => ?_⟩⟩
  · cases h.mode
  · cases h.up
  · exact ⟨by decide, by decide, rfl, rfl, rfl, by decide⟩
  · cases h.up

end FtsSafetyWitness

end Greenplum.Fts
