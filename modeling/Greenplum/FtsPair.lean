/-
One primary-mirror pair in a probe cycle: messaging keeps the pair and the kind
of its message, and the response decides on an update that leaves the catalog
safe.
-/
import Greenplum.FtsCatalog

namespace Greenplum.Fts

section

/-- The message that a segment is in the course of. -/
def messageKind : FtsMessageState → Option Message
  | .probeSegment | .probeRetryWait | .probeSuccess | .probeFailed =>
    some .probe
  | .syncrepOffSegment | .syncrepOffRetryWait | .syncrepOffSuccess
  | .syncrepOffFailed => some .syncrepOff
  | .promoteSegment | .promoteRetryWait | .promoteSuccess | .promoteFailed =>
    some .promote
  | .responseProcessed => none

/-- A response that says in-sync says that the mirror is up. -/
def Response.Sound (values : Response) : Prop :=
  values.isInSync = true → values.isMirrorUp = true

def PairInput.Sound (input : PairInput) : Prop :=
  ∀ values, input.received = .response values → values.Sound

/-- The result is empty until a response has come. -/
structure ResultOk (ftsInfo : FtsSegmentInfo) : Prop where
  empty : isFtsMessageStateSuccess ftsInfo.state = false → ftsInfo.result = .zero
  probe : ftsInfo.state = .probeSuccess → ftsInfo.result.isPrimaryAlive = true ∧
    (ftsInfo.result.isInSync = true → ftsInfo.result.isMirrorAlive = true)

/-- The segment stays with its pair and its message. -/
structure Moves (before after : FtsSegmentInfo) : Prop where
  primary : after.primaryCdbinfo = before.primaryCdbinfo
  mirror : after.mirrorCdbinfo = before.mirrorCdbinfo
  kind : messageKind after.state = messageKind before.state
  result : ResultOk before → ResultOk after

theorem Moves.refl (ftsInfo : FtsSegmentInfo) : Moves ftsInfo ftsInfo :=
  ⟨rfl, rfl, rfl, id⟩

theorem Moves.trans {before middle after : FtsSegmentInfo}
    (hleft : Moves before middle) (hright : Moves middle after) : Moves before after :=
  ⟨hright.primary.trans hleft.primary, hright.mirror.trans hleft.mirror,
    hright.kind.trans hleft.kind, hright.result ∘ hleft.result⟩

variable {settings : Settings} {now : Int} {input : PairInput} {before after : FtsSegmentInfo}

/-- A step that only touches the connection. -/
theorem Moves.sameState (hprimary : after.primaryCdbinfo = before.primaryCdbinfo)
    (hmirror : after.mirrorCdbinfo = before.mirrorCdbinfo)
    (hstate : after.state = before.state) (hresult : after.result = before.result) :
    Moves before after := by
  refine ⟨hprimary, hmirror, congrArg _ hstate, fun h => ⟨?_, ?_⟩⟩
  · rw [hstate, hresult]
    exact h.empty
  · rw [hstate, hresult]
    exact h.probe

theorem nextFailedState_kind {state next : FtsMessageState}
    (hnext : nextFailedState state = some next) :
    messageKind next = messageKind state ∧ isFtsMessageStateSuccess state = false ∧
      isFtsMessageStateSuccess next = false ∧ next ≠ .probeSuccess := by
  cases state <;> cases hnext <;> exact ⟨rfl, rfl, rfl, by decide⟩

theorem fail_moves (hfail : fail before = some after) : Moves before after := by
  rcases Option.map_eq_some_iff.mp hfail with ⟨next, hnext, rfl⟩
  rcases nextFailedState_kind hnext with ⟨hkind, hbefore, _, hne⟩
  exact ⟨rfl, rfl, hkind, fun h => ⟨fun _ => h.empty hbefore, fun heq => absurd heq hne⟩⟩

theorem checkRecovery_moves (recovery : Option Nat) (ftsInfo : FtsSegmentInfo) :
    Moves ftsInfo (checkIfFailedDueToRecoveryInProgress recovery ftsInfo) := by
  unfold checkIfFailedDueToRecoveryInProgress
  split
  · exact Moves.refl ftsInfo
  · split
    · exact Moves.refl ftsInfo
    · exact Moves.sameState rfl rfl rfl rfl

theorem ftsConnectStart_moves {start : ConnectStart}
    (hstart : ftsConnectStart now start before = some after) : Moves before after := by
  cases start with
  | outOfMemory => cases hstart
  | bad =>
    refine Moves.trans ?_ (fail_moves hstart)
    exact Moves.sameState rfl rfl rfl rfl
  | started =>
    cases hstart
    exact Moves.sameState rfl rfl rfl rfl

theorem ftsConnectPoll_moves (hpoll : ftsConnectPoll input before = some after) :
    Moves before after := by
  unfold ftsConnectPoll at hpoll
  split at hpoll
  case h_4 =>
    rcases Option.map_eq_some_iff.mp hpoll with ⟨failed, hfail, rfl⟩
    exact (fail_moves hfail).trans (checkRecovery_moves _ _)
  all_goals
    cases hpoll
    exact Moves.sameState rfl rfl rfl rfl

theorem ftsConnect_moves (hconnect : ftsConnect now input before = some after) :
    Moves before after := by
  have hreset : Moves before { before with recoveryMakingProgress := false } :=
    Moves.sameState rfl rfl rfl rfl
  unfold ftsConnect at hconnect
  split at hconnect
  · cases hconnect
    exact Moves.refl _
  · split at hconnect
    case h_4 =>
      cases hconnect
      exact Moves.refl _
    -- the same for the three messages
    all_goals
      dsimp only at hconnect
      split at hconnect
      · exact hreset.trans (ftsConnectStart_moves hconnect)
      · split at hconnect
        · exact hreset.trans (ftsConnectPoll_moves hconnect)
        · cases hconnect
          exact hreset

theorem ftsCheckTimeout_moves (htimeout : ftsCheckTimeout settings now before = some after) :
    Moves before after := by
  unfold ftsCheckTimeout at htimeout
  split at htimeout
  · exact fail_moves htimeout
  · cases htimeout
    exact Moves.refl _

theorem ftsPoll_moves (hpoll : ftsPoll settings now input before = some after) :
    Moves before after := by
  unfold ftsPoll at hpoll
  split at hpoll
  · rcases Option.bind_eq_some_iff.mp hpoll with ⟨polled, hpolled, htimeout⟩
    refine Moves.trans ?_ (ftsCheckTimeout_moves htimeout)
    have hrecorded : Moves before { before with pollRevents := input.revents } :=
      Moves.sameState rfl rfl rfl rfl
    split at hpolled
    · cases hpolled
      exact Moves.sameState rfl rfl rfl rfl
    · split at hpolled
      · exact hrecorded.trans (fail_moves hpolled)
      · split at hpolled
        · exact hrecorded.trans (fail_moves hpolled)
        · cases hpolled
          exact hrecorded
  · cases hpoll
    exact Moves.refl _

theorem ftsSend_moves (hsend : ftsSend input before = some after) : Moves before after := by
  unfold ftsSend at hsend
  split at hsend
  · split at hsend
    · cases hsend
      exact Moves.sameState rfl rfl rfl rfl
    · exact fail_moves hsend
  · cases hsend
    exact Moves.refl _

theorem recordResponse_moves {values : Response} {next : FtsMessageState}
    (hsound : values.Sound) (hnext : nextSuccessState before.state = some next) :
    Moves before { probeRecordResponse values before with state := next } := by
  have hkind : messageKind next = messageKind before.state ∧
      isFtsMessageStateSuccess next = true := by
    generalize before.state = state at hnext
    cases state <;> cases hnext <;> exact ⟨rfl, rfl⟩
  refine ⟨rfl, rfl, hkind.1, fun _ => ⟨fun hnot => ?_, fun _ => ⟨rfl, hsound⟩⟩⟩
  rw [hkind.2] at hnot
  cases hnot

theorem ftsReceive_cases (hreceive : ftsReceive input before = some after) :
    after = before ∨ fail before = some after ∨ ∃ values next, input.received = .response values ∧
        nextSuccessState before.state = some next ∧
        after = { probeRecordResponse values before with state := next } := by
  unfold ftsReceive at hreceive
  split at hreceive
  case h_4 =>
    cases hreceive
    exact .inl rfl
  all_goals
    split at hreceive
    · split at hreceive
      case h_1 values hvalues =>
        rcases Option.map_eq_some_iff.mp hreceive with ⟨next, hnext, rfl⟩
        exact .inr (.inr ⟨values, next, hvalues, hnext, rfl⟩)
      case h_2 => exact .inr (.inl hreceive)
    · cases hreceive
      exact .inl rfl

theorem ftsReceive_moves (hsound : input.Sound)
    (hreceive : ftsReceive input before = some after) : Moves before after := by
  rcases ftsReceive_cases hreceive with rfl | hfail | ⟨values, next, hvalues, hnext, rfl⟩
  · exact Moves.refl _
  · exact fail_moves hfail
  · exact recordResponse_moves (hsound values hvalues) hnext

theorem retryForFtsFailed_moves {ftsInfo : FtsSegmentInfo} (hstate : ftsInfo.state = .probeSuccess ∨
      isFtsMessageStateFailed ftsInfo.state = true) :
    Moves ftsInfo (retryForFtsFailed settings now ftsInfo) := by
  unfold retryForFtsFailed
  split
  · exact Moves.refl _
  · rcases ftsInfo with ⟨_, _, _, state, _, _, _, _, _, _, _, _⟩
    refine ⟨rfl, rfl, ?_, fun _ => ⟨fun _ => rfl, ?_⟩⟩
    · cases state <;> simp_all [messageKind, isFtsMessageStateFailed]
    · cases state <;> simp

theorem processRetry_moves (ftsInfo : FtsSegmentInfo) :
    Moves ftsInfo (processRetry settings now ftsInfo) := by
  have hwait : ∀ next : FtsMessageState, messageKind next = messageKind ftsInfo.state →
      isFtsMessageStateSuccess ftsInfo.state = false → next ≠ .probeSuccess →
      Moves ftsInfo { ftsInfo with state := next } :=
    fun next hkind hbefore hne => ⟨rfl, rfl, hkind, fun h =>
      ⟨fun _ => h.empty hbefore, fun heq => absurd heq hne⟩⟩
  unfold processRetry
  split
  case h_1 hstate =>
    split
    · exact retryForFtsFailed_moves (.inl hstate)
    · exact Moves.refl _
  case h_2 hstate | h_3 hstate | h_4 hstate =>
    exact retryForFtsFailed_moves (.inr (by rw [hstate]; rfl))
  case h_5 hstate | h_6 hstate | h_7 hstate =>
    split
    · exact Moves.refl _
    · exact hwait _ (by rw [hstate]; rfl) (by rw [hstate]; rfl) (by simp [hstate])
  case h_8 => exact Moves.refl _

end

section

variable {config : Configuration} {ftsInfo : FtsSegmentInfo}
  {catalog : List CdbComponentDatabaseInfo}

section

variable (catalog : List CdbComponentDatabaseInfo) (content dbid : Int)

/-- The mirror is recorded down and the pair not in sync. -/
def RecordedDown : Prop :=
  ∃ primary mirror, Paired catalog primary mirror ∧
    primary.segindex = content ∧ primary.dbid = dbid ∧
    mirror.status = .down ∧ primary.mode = .notInSync ∧
    mirror.mode = .notInSync

/-- The segment is recorded as the primary of its content. -/
def RecordedPrimary : Prop :=
  ∃ primary mirror, Paired catalog primary mirror ∧ primary.segindex = content ∧ primary.dbid = dbid

/-- What the catalog says while a message is under way. -/
def KindOk (ftsInfo : FtsSegmentInfo) :
    Option Message → Prop
  | some .probe => Paired catalog ftsInfo.primaryCdbinfo ftsInfo.mirrorCdbinfo
  | some .syncrepOff => RecordedDown catalog ftsInfo.primaryCdbinfo.segindex
      ftsInfo.primaryCdbinfo.dbid
  | some .promote => RecordedPrimary catalog ftsInfo.primaryCdbinfo.segindex
      ftsInfo.primaryCdbinfo.dbid
  | none => True

structure PairOk (ftsInfo : FtsSegmentInfo) : Prop where
  result : ResultOk ftsInfo
  segment : 0 ≤ ftsInfo.primaryCdbinfo.segindex
  kind : KindOk catalog ftsInfo (messageKind ftsInfo.state)

end

theorem PairOk.moves {before after : FtsSegmentInfo} (h : PairOk catalog before)
    (hmoves : Moves before after) : PairOk catalog after := by
  refine ⟨hmoves.result h.result, hmoves.primary ▸ h.segment, ?_⟩
  have hkind := h.kind
  rw [hmoves.kind]
  unfold KindOk at hkind ⊢
  rw [hmoves.primary, hmoves.mirror]
  exact hkind

theorem PairOk.paired (h : PairOk catalog ftsInfo)
    (hprobe : messageKind ftsInfo.state = some .probe) :
    Paired catalog ftsInfo.primaryCdbinfo ftsInfo.mirrorCdbinfo := by
  have hkind := h.kind
  rw [hprobe] at hkind
  exact hkind

theorem PairOk.frame {before after : List CdbComponentDatabaseInfo} (h : PairOk before ftsInfo)
    (hframe : ∀ row, row.segindex = ftsInfo.primaryCdbinfo.segindex →
      (row ∈ after ↔ row ∈ before)) : PairOk after ftsInfo := by
  refine ⟨h.result, h.segment, ?_⟩
  have hkind := h.kind
  generalize messageKind ftsInfo.state = kind at hkind
  match kind, hkind with
  | some .probe, hpaired => exact hpaired.frame hframe
  | some .syncrepOff, ⟨primary, mirror, hpaired, hseg, hrest⟩ =>
    exact ⟨primary, mirror, hpaired.frame fun row hrow => hframe row (hrow.trans hseg), hseg, hrest⟩
  | some .promote, ⟨primary, mirror, hpaired, hseg, hdbid⟩ =>
    exact ⟨primary, mirror, hpaired.frame fun row hrow => hframe row (hrow.trans hseg), hseg, hdbid⟩
  | none, _ => trivial

/-- The entries of a content that is probed are consistent. -/
theorem Safe.consistent (h : Safe catalog) {primary mirror : CdbComponentDatabaseInfo}
    (hpaired : Paired catalog primary mirror) (hpos : 0 ≤ primary.segindex) :
    Consistent primary mirror := by
  rcases h.pairs primary hpaired.primary_mem hpos with
    ⟨primary', mirror', hseg, hpaired', hconsistent⟩
  have hprimary := hpaired'.eq_primary hpaired.primary_mem hseg.symm hpaired.primary_role
  have hmirror := hpaired'.eq_mirror hpaired.mirror_mem
    (hpaired.content.trans hseg.symm) hpaired.mirror_role
  rw [hprimary, hmirror]
  exact hconsistent

section

variable {primary mirror : CdbComponentDatabaseInfo}

section

variable (hsafe : Safe config.catalog) (hpaired : Paired config.catalog primary mirror)
  (hpos : 0 ≤ primary.segindex)

include hsafe hpaired hpos

/-- The configuration after a primary has answered. -/
theorem updateAlive_spec {isInSync isMirrorAlive : Bool}
    (hsync : isInSync = true → isMirrorAlive = true) :
    ∃ after, updateConfiguration primary mirror .primary .mirror isInSync true
        isMirrorAlive config = some after ∧
      CatalogStep config.catalog after.catalog (· = primary.segindex) ∧
      Paired after.catalog (assign primary .primary true isInSync)
        (assign mirror .mirror isMirrorAlive isInSync) := by
  rcases updateConfiguration_spec isInSync true isMirrorAlive hsafe.dbids
    hpaired (hsafe.consistent hpaired hpos).mode (.inl ⟨rfl, rfl⟩) with
    ⟨after, hafter, hreplaced⟩
  have hnew : Consistent (assign primary .primary true isInSync)
      (assign mirror .mirror isMirrorAlive isInSync) := by
    refine ⟨rfl, rfl, fun hmode => ?_⟩
    cases isInSync with
    | true => simp [assign, statusOf, hsync rfl]
    | false => cases hmode
  have hsafe' := hreplaced.safe hsafe rfl hpaired.content rfl rfl hnew
  exact ⟨after, hafter, hreplaced.step hpaired rfl hsafe' ⟨rfl, rfl⟩ ⟨rfl, hpaired.content⟩
      (.inl ⟨rfl, rfl⟩), hreplaced.paired rfl hpaired.content rfl rfl⟩

/-- The configuration after an in-sync mirror took over. -/
theorem updateFailover_spec (hsync : segmentIsInSync mirror = true) :
    ∃ after, updateConfiguration primary mirror .mirror .primary false false
        (segmentIsAlive mirror) config = some after ∧
      CatalogStep config.catalog after.catalog (· = primary.segindex) ∧
      Paired after.catalog (assign mirror .primary true false)
        (assign primary .mirror false false) := by
  have hconsistent := hsafe.consistent hpaired hpos
  have hmode : mirror.mode = .inSync := by simpa [segmentIsInSync] using hsync
  have hup : mirror.status = .up := hconsistent.sync (hconsistent.mode.trans hmode)
  have halive : segmentIsAlive mirror = true := by simp [segmentIsAlive, hup]
  have hchange : false ≠ segmentIsInSync primary := by
    simp [segmentIsInSync, hconsistent.mode, hmode]
  rcases updateConfiguration_spec false false (segmentIsAlive mirror) hsafe.dbids
    hpaired hconsistent.mode (.inr hchange) with ⟨after, hafter, hreplaced⟩
  rw [halive] at hreplaced
  have hnew : Consistent (assign mirror .primary true false) (assign primary .mirror false false) :=
    ⟨rfl, rfl, fun hmode => by cases hmode⟩
  have hsafe' := hreplaced.symm.safe hsafe hpaired.content rfl rfl rfl hnew
  exact ⟨after, hafter, hreplaced.step hpaired rfl hsafe' ⟨rfl, rfl⟩ ⟨rfl, hpaired.content⟩
      (.inr ⟨hmode, hup⟩), hreplaced.symm.paired hpaired.content rfl rfl rfl⟩

end

end

/-- What `processResponse` does for one segment. -/
structure Processed (config : Configuration) (ftsInfo : FtsSegmentInfo)
    (result : FtsSegmentInfo × Configuration) : Prop where
  step : CatalogStep config.catalog result.2.catalog (· = ftsInfo.primaryCdbinfo.segindex)
  content : result.1.primaryCdbinfo.segindex = ftsInfo.primaryCdbinfo.segindex
  kind : KindOk result.2.catalog result.1 (messageKind result.1.state)
  notReady : isFtsMessageStateSuccess result.1.state = false

section

variable (hsafe : Safe config.catalog)

include hsafe

theorem processed_done (ftsInfo : FtsSegmentInfo) : Processed config ftsInfo
      ({ ftsInfo with state := .responseProcessed }, config) :=
  ⟨CatalogStep.refl hsafe _, rfl, trivial, rfl⟩

variable (h : PairOk config.catalog ftsInfo)

include h

theorem processProbeSuccess_spec (hstate : ftsInfo.state = .probeSuccess) :
    ∃ result, processProbeSuccess ftsInfo config = some result ∧
      Processed config ftsInfo result := by
  rcases h.result.probe hstate with ⟨halive, hsync⟩
  have hpaired := h.paired (hstate ▸ rfl)
  rcases updateAlive_spec hsafe hpaired h.segment hsync with
    ⟨after, hafter, hstep, hpair⟩
  unfold processProbeSuccess
  simp only [halive, if_true, hafter, Option.map_some]
  split
  case isTrue hdown =>
    split
    case isTrue =>
      rw [Bool.and_eq_true, Bool.not_eq_true'] at hdown
      have hoff : ftsInfo.result.isInSync = false := by
        rw [← Bool.not_eq_true]
        intro hin
        rw [hsync hin] at hdown
        cases hdown.2
      rw [hdown.2, hoff] at hpair
      exact ⟨_, rfl, hstep, rfl, ⟨_, _, hpair, rfl, rfl, rfl, rfl, rfl⟩, rfl⟩
    case isFalse => exact ⟨_, rfl, processed_done hsafe ftsInfo⟩
  case isFalse =>
    split
    case isTrue =>
      exact ⟨_, rfl, CatalogStep.refl hsafe _, rfl, ⟨_, _, hpaired, rfl, rfl⟩, rfl⟩
    case isFalse => exact ⟨_, rfl, hstep, rfl, trivial, rfl⟩

theorem processProbeFailed_spec (hstate : ftsInfo.state = .probeFailed) :
    ∃ result, processProbeFailed ftsInfo config = some result ∧
      Processed config ftsInfo result := by
  have hdown : ftsInfo.result.isPrimaryAlive = false := by
    rw [h.result.empty (by rw [hstate]; rfl)]
    rfl
  have hpaired := h.paired (hstate ▸ rfl)
  unfold processProbeFailed
  simp only [hdown, Bool.false_eq_true, if_false]
  split
  case isTrue => exact ⟨_, rfl, processed_done hsafe ftsInfo⟩
  case isFalse =>
    split
    case isTrue hsync =>
      rcases updateFailover_spec hsafe hpaired h.segment hsync with
        ⟨after, hafter, hstep, hpair⟩
      rw [hafter]
      exact ⟨_, rfl, hstep, hpaired.content, ⟨_, _, hpair, rfl, rfl⟩, rfl⟩
    case isFalse => exact ⟨_, rfl, processed_done hsafe ftsInfo⟩

theorem processOne_spec : ∃ after updated, processOne ftsInfo config = some (after, updated) ∧
      CatalogStep config.catalog updated.catalog (· = ftsInfo.primaryCdbinfo.segindex) ∧
      after.primaryCdbinfo.segindex = ftsInfo.primaryCdbinfo.segindex ∧
      PairOk updated.catalog after := by
  have hclose : ∀ {processed : Option (FtsSegmentInfo × Configuration)},
      (∃ result, processed = some result ∧ Processed config ftsInfo result) →
      ∃ after updated, (processed.map fun result =>
          ({ result.1 with
            result := .zero
            conn := none
            pollEvents := .none
            pollRevents := .none
            retryCount := 0 }, result.2)) = some (after, updated) ∧
        CatalogStep config.catalog updated.catalog (· = ftsInfo.primaryCdbinfo.segindex) ∧
        after.primaryCdbinfo.segindex = ftsInfo.primaryCdbinfo.segindex ∧
        PairOk updated.catalog after := by
    rintro _ ⟨result, rfl, hresult⟩
    refine ⟨_, _, rfl, hresult.step, hresult.content, ⟨fun _ => rfl, ?_⟩, ?_, ?_⟩
    · intro hsuccess
      have hnot := hresult.notReady
      rw [show result.1.state = .probeSuccess from hsuccess] at hnot
      cases hnot
    · exact hresult.content ▸ h.segment
    · exact hresult.kind
  unfold processOne
  split
  case isTrue =>
    apply hclose
    split
    case h_1 hstate => exact processProbeSuccess_spec hsafe h hstate
    case h_2 hstate => exact processProbeFailed_spec hsafe h hstate
    case h_3 => exact ⟨_, rfl, processed_done hsafe ftsInfo⟩
  case isFalse =>
    exact ⟨ftsInfo, config, rfl, CatalogStep.refl hsafe _, rfl, h⟩

end

/-- The contents of the pairs of a cycle. -/
def contents (context : List FtsSegmentInfo) : List Int :=
  context.map fun ftsInfo => ftsInfo.primaryCdbinfo.segindex

theorem processResponse_spec (limit : Nat) :
    ∀ {context : List FtsSegmentInfo} {config : Configuration},
      Safe config.catalog → (contents context).Nodup →
      (∀ ftsInfo ∈ context, PairOk config.catalog ftsInfo) → ∃ after updated,
        processResponse limit context config = some (after, updated) ∧
        CatalogStep config.catalog updated.catalog (· ∈ contents context) ∧
        contents after = contents context ∧ ∀ ftsInfo ∈ after, PairOk updated.catalog ftsInfo := by
  induction limit with
  | zero =>
    intro context config hsafe _ hpairs
    exact ⟨context, config, rfl, CatalogStep.refl hsafe _, rfl, hpairs⟩
  | succ limit ih =>
    intro context config hsafe hnodup hpairs
    cases context with
    | nil => exact ⟨[], config, rfl, CatalogStep.refl hsafe _, rfl, hpairs⟩
    | cons ftsInfo rest =>
      rw [contents, List.map_cons, List.nodup_cons] at hnodup
      rcases processOne_spec hsafe (hpairs ftsInfo List.mem_cons_self) with
        ⟨one, middle, hone, hstep, hcontent, hok⟩
      have hother : ∀ other ∈ rest, PairOk middle.catalog other := by
        intro other hmem
        apply (hpairs other (List.mem_cons_of_mem _ hmem)).frame
        intro row hrow
        apply hstep.frame
        intro heq
        exact hnodup.1 (heq ▸ hrow ▸ List.mem_map_of_mem hmem)
      rcases ih hstep.safe hnodup.2 hother with
        ⟨others, updated, hothers, hrest, hcontents, hall⟩
      refine ⟨one :: others, updated, ?_, ?_, ?_, ?_⟩
      · simp [processResponse, hone, hothers]
      · simpa [contents] using hstep.trans hrest hnodup.1
      · simpa [contents, hcontent] using hcontents
      · intro other hmem
        rcases List.mem_cons.mp hmem with rfl | hlater
        · apply hok.frame
          intro row hrow
          apply hrest.frame
          rw [hrow, hcontent]
          exact hnodup.1
        · exact hall other hlater

end

end Greenplum.Fts
