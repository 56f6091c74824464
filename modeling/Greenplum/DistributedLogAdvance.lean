/-
How far the distributed log is still needed: the oldest xmin moves over the entries of
the log from one call of `DistributedLog_AdvanceOldestXmin` to the next, while the calls
of several backends take turns wherever one of them waits for a page.
-/
import Mathlib.Data.List.Chain
import Greenplum.CommittedCaches

namespace Greenplum.DistributedLog

open DtmSnapshot

section

/-- How many steps the right xid is ahead of the left one on the circle of xids. -/
def ahead (left right : TransactionId) : Nat :=
  (right.toNat + 2 ^ 32 - left.toNat) % 2 ^ 32

variable {left right xid : TransactionId}

theorem isNormal_iff : isNormal xid = true ↔ 3 ≤ xid.toNat := by
  rw [isNormal, transactionIdIsNormal, decide_eq_true_iff]

theorem precedes_iff (hleft : isNormal left = true) (hright : isNormal right = true) :
    precedes left right = true ↔ 2 ^ 31 ≤ ahead right left := by
  unfold isNormal at hleft hright
  rw [precedes, transactionIdPrecedes, hleft, hright, Bool.true_and, if_pos rfl,
    decide_eq_true_iff, ahead]

theorem follows_iff (hleft : isNormal left = true) (hright : isNormal right = true) :
    follows left right = true ↔ 0 < ahead right left ∧ ahead right left < 2 ^ 31 := by
  unfold isNormal at hleft hright
  rw [follows, transactionIdFollows, hleft, hright, Bool.true_and, if_pos rfl,
    Bool.and_eq_true, decide_eq_true_iff, decide_eq_true_iff, ahead]

theorem normal_ne_zero (hnormal : isNormal xid = true) : xid ≠ 0 := by
  rintro rfl
  cases hnormal

theorem advance_normal (xid : TransactionId) : isNormal (advance xid) = true := by
  unfold advance
  split
  case isTrue hnormal => exact hnormal
  case isFalse => rfl

theorem advanceToNextPage_normal (xid : TransactionId) :
    isNormal (advanceToNextPage xid) = true := by
  unfold advanceToNextPage
  dsimp only
  split
  case isTrue hnormal => exact hnormal
  case isFalse => rfl

theorem advance_toNat (hnormal : isNormal xid = true) :
    (advance xid).toNat = xid.toNat + 1 ∨ xid.toNat = 2 ^ 32 - 1 ∧ (advance xid).toNat = 3 := by
  have hnext : (xid + 1).toNat = (xid.toNat + 1) % 2 ^ 32 := BitVec.toNat_add xid 1
  rw [isNormal_iff] at hnormal
  unfold advance
  split
  case isTrue hok =>
    rw [isNormal_iff, hnext] at hok
    omega
  case isFalse hwrapped =>
    rw [isNormal_iff, hnext] at hwrapped
    right
    constructor
    · omega
    · rfl

/-- An xid that is not the current one does not fall back by an advance. -/
theorem ahead_advance (hxid : isNormal xid = true) (hright : isNormal right = true)
    (hne : xid ≠ right) : ahead (advance xid) right ≤ ahead xid right := by
  rw [← BitVec.toNat_ne_iff_ne] at hne
  have hadvance := advance_toNat hxid
  rw [isNormal_iff] at hxid hright
  unfold ahead
  omega

/-- An advance does not jump over a normal xid. -/
theorem ahead_advance_le (hleft : isNormal left = true) (hxid : isNormal xid = true)
    (hright : isNormal right = true) (hne : xid ≠ right)
    (hbehind : ahead left xid ≤ ahead left right) :
    ahead left (advance xid) ≤ ahead left right := by
  rw [← BitVec.toNat_ne_iff_ne] at hne
  have hadvance := advance_toNat hxid
  rw [isNormal_iff] at hleft hxid hright
  unfold ahead at *
  omega

theorem advanceToNextPage_toNat (xid : TransactionId) :
    (advanceToNextPage xid).toNat = (xid.toNat / 4096 + 1) * 4096 ∨
      xid.toNat / 4096 = 2 ^ 20 - 1 ∧ (advanceToNextPage xid).toNat = 3 := by
  have hnext : (xid + BitVec.ofNat 32 entriesPerPage).toNat = (xid.toNat + 4096) % 2 ^ 32 :=
    BitVec.toNat_add xid _
  unfold advanceToNextPage
  dsimp only
  rw [hnext]
  have hfirst : (xid + BitVec.ofNat 32 entriesPerPage -
      BitVec.ofNat 32 ((xid.toNat + 4096) % 2 ^ 32 % entriesPerPage)).toNat =
        (xid.toNat + 4096) % 2 ^ 32 / 4096 * 4096 := by
    rw [BitVec.toNat_sub, hnext, BitVec.toNat_ofNat, entriesPerPage]
    omega
  split
  case isTrue hnormal =>
    rw [isNormal_iff, hfirst] at hnormal
    omega
  case isFalse hspecial =>
    rw [isNormal_iff, hfirst] at hspecial
    right
    constructor
    · omega
    · rfl

/-- The first xid of the next page is not ahead of an xid on another page. -/
theorem ahead_nextPage_le (hleft : isNormal left = true) (hxid : isNormal xid = true)
    (hright : isNormal right = true) (hpage : toPage xid ≠ toPage right)
    (hbehind : ahead left xid ≤ ahead left right) :
    ahead left (advanceToNextPage xid) ≤ ahead left right := by
  have hadvance := advanceToNextPage_toNat xid
  rw [isNormal_iff] at hleft hxid hright
  unfold toPage entriesPerPage at hpage
  unfold ahead at *
  omega

end

section

variable {log : Log} {request : Request} {oldestXmin : TransactionId} {P : TransactionId → Prop}

section

variable (hadvance : ∀ xid, P xid → xid ≠ request.oldestLocalXmin →
  passes request (log.entry xid) = true → P (advance xid))

include hadvance

/-- The walk over a page keeps what an advance over one entry keeps. -/
theorem walkPage_keeps (page : Nat) :
    ∀ (fuel : Nat) {xid : TransactionId}, P xid → P (walkPage log request page fuel xid).1 := by
  intro fuel
  induction fuel with
  | zero => exact fun h => h
  | succ fuel ih =>
    intro xid h
    unfold walkPage
    split
    case isTrue => exact h
    case isFalse hne =>
      split
      case isTrue => exact h
      case isFalse =>
        split
        case isTrue hpasses => exact ih (hadvance xid h hne hpasses)
        case isFalse => exact h

/-- What a walking call can do before it waits again. -/
theorem proceed_walking (start : TransactionId) (hxid : P oldestXmin) :
    (∃ next, P next ∧ ((Call.walking request start oldestXmin).proceed log =
            .waits (.walking request start next) ∨
          (Call.walking request start oldestXmin).proceed log = .waits (.truncating start next) ∨
          (Call.walking request start oldestXmin).proceed log = .finished start log next)) ∨
      (Call.walking request start oldestXmin).proceed log = .failed := by
  have hkept := walkPage_keeps hadvance (toPage oldestXmin) (entriesPerPage + 1) hxid
  unfold Call.proceed
  dsimp only
  split
  case isFalse => exact .inr rfl
  case isTrue =>
    left
    split
    case h_1 next hwalk =>
      rw [hwalk] at hkept
      refine ⟨next, hkept, .inr ?_⟩
      unfold finishWalk
      split
      · exact .inl rfl
      · exact .inr rfl
    case h_2 next hwalk =>
      rw [hwalk] at hkept
      exact ⟨next, hkept, .inl rfl⟩

end

theorem lookForPage_cases (log : Log) (request : Request) (oldestXmin : TransactionId) :
    toPage oldestXmin ∈ log.pages ∧
        lookForPage log request oldestXmin = .initialized request oldestXmin ∨
      toPage oldestXmin ∉ log.pages ∧
        (follows (advanceToNextPage oldestXmin) request.oldestLocalXmin = true ∧
            lookForPage log request oldestXmin = .initialized request request.oldestLocalXmin ∨
          lookForPage log request oldestXmin =
            .waits (.initializing request (advanceToNextPage oldestXmin))) := by
  unfold lookForPage
  split
  case isTrue hpage => exact .inl ⟨hpage, rfl⟩
  case isFalse hpage =>
    refine .inr ⟨hpage, ?_⟩
    dsimp only
    split
    case isTrue hfollows => exact .inl ⟨hfollows, rfl⟩
    case isFalse => exact .inr rfl

theorem simpleLruTruncate_entry (log : Log) (cutoffPage : Nat) :
    (simpleLruTruncate log cutoffPage).entry = log.entry := by
  unfold simpleLruTruncate
  dsimp only
  split
  · rfl
  · rfl

end

section

variable {world next : World} {backend : Nat}

theorem setCall_calls {call : Option Call} {other : Nat} {found : Call}
    (hfound : (world.setCall backend call).calls other = some found) :
    call = some found ∨ world.calls other = some found := by
  unfold World.setCall at hfound
  dsimp only at hfound
  by_cases hsame : other = backend
  · subst hsame
    rw [Function.update_self] at hfound
    exact .inl hfound
  · rw [Function.update_of_ne hsame] at hfound
    exact .inr hfound

/-- What one action does. -/
theorem step_cases {action : Action} (hstep : step world action = some next) :
    (∃ backend request transactionIdLimit,
        action = .advanceOldestXmin backend request transactionIdLimit ∧
        isNormal request.oldestLocalXmin = true ∧ isNormal transactionIdLimit = true ∧
        ¬ follows transactionIdLimit request.oldestLocalXmin = true ∧ (world.log.oldestXmin = 0 ∧
            next = world.setCall backend (some (.initializing request transactionIdLimit)) ∨
          world.log.oldestXmin ≠ 0 ∧ next = startWalk world backend request)) ∨
      ∃ backend call, action = .proceed backend ∧ world.calls backend = some call ∧
        next = applyProgress world backend (call.proceed world.log) := by
  cases action with
  | advanceOldestXmin backend request transactionIdLimit =>
    left
    unfold step at hstep
    dsimp only at hstep
    obtain ⟨hlegal, hstep⟩ := Option.ite_none_right_eq_some.mp hstep
    refine ⟨backend, request, transactionIdLimit, rfl, hlegal.2.1, hlegal.2.2.1, hlegal.2.2.2, ?_⟩
    split at hstep
    case isTrue hzero => exact .inl ⟨hzero, (Option.some.inj hstep).symm⟩
    case isFalse hset => exact .inr ⟨hset, (Option.some.inj hstep).symm⟩
  | proceed backend =>
    right
    unfold step at hstep
    rw [Option.map_eq_some_iff] at hstep
    obtain ⟨call, hcall, rfl⟩ := hstep
    exact ⟨backend, call, rfl, hcall, rfl⟩

/-- Where a call stores the oldest xmin, no other call has changed it since the call has
read it. -/
def Progress.Undisturbed (log : Log) : Progress → Prop
  | .waits _ => True
  | .initialized _ _ => log.oldestXmin = 0
  | .finished start _ _ => log.oldestXmin = start
  | .failed => True

def UndisturbedStep (world : World) : Action → Prop
  | .advanceOldestXmin _ _ _ => True
  | .proceed backend =>
    ∀ call ∈ world.calls backend, (call.proceed world.log).Undisturbed world.log

def Undisturbed : World → List Action → Prop
  | _, [] => True
  | world, action :: rest =>
    UndisturbedStep world action ∧ ∀ next ∈ step world action, Undisturbed next rest

instance Progress.Undisturbed.decidable (log : Log) :
    ∀ progress : Progress, Decidable (progress.Undisturbed log)
  | .waits _ => .isTrue trivial
  | .initialized _ _ => inferInstanceAs (Decidable (log.oldestXmin = 0))
  | .finished start _ _ => inferInstanceAs (Decidable (log.oldestXmin = start))
  | .failed => .isTrue trivial

instance UndisturbedStep.decidable (world : World) :
    ∀ action, Decidable (UndisturbedStep world action)
  | .advanceOldestXmin _ _ _ => .isTrue trivial
  | .proceed backend => inferInstanceAs (Decidable
      (∀ call ∈ world.calls backend, (call.proceed world.log).Undisturbed world.log))

instance Undisturbed.decidable : ∀ world actions, Decidable (Undisturbed world actions)
  | _, [] => .isTrue trivial
  | world, action :: rest =>
    have := fun next => Undisturbed.decidable next rest
    inferInstanceAs (Decidable (UndisturbedStep world action ∧
      ∀ next ∈ step world action, Undisturbed next rest))

/-- A property that every undisturbed action keeps holds after every undisturbed run. -/
theorem run_keeps {P : World → Prop} {legal : Action → Prop}
    (hkeeps : ∀ {world next action}, P world → legal action → UndisturbedStep world action →
      step world action = some next → P next) (actions : List Action) :
    ∀ {world last : World}, P world → (∀ action ∈ actions, legal action) →
      Undisturbed world actions → run world actions = some last → P last := by
  induction actions with
  | nil =>
    intro world last h _ _ hrun
    cases hrun
    exact h
  | cons action rest ih =>
    intro world last h hlegal hundisturbed hrun
    unfold run at hrun
    rw [List.foldlM_cons, Option.bind_eq_bind, Option.bind_eq_some_iff] at hrun
    obtain ⟨next, hstep, hrest⟩ := hrun
    have hnext := hkeeps h (hlegal action List.mem_cons_self) hundisturbed.1 hstep
    exact ih hnext (fun other hmem => hlegal other (List.mem_cons_of_mem _ hmem))
      (hundisturbed.2 next hstep) hrest

end

section

variable {oldestXmin : TransactionId} {request : Request}

/-- The order of the values that successive calls return. -/
def NotDecreasing (earlier later : TransactionId) : Prop :=
  earlier = later ∨ precedes earlier later = true

/-- A call is between the value it has started with and the oldest local xmin. -/
def Call.Ordered : Call → Prop
  | .initializing request oldestXmin =>
    isNormal request.oldestLocalXmin = true ∧ isNormal oldestXmin = true
  | .walking request start oldestXmin =>
    isNormal request.oldestLocalXmin = true ∧ isNormal start = true ∧ isNormal oldestXmin = true ∧
      ahead start oldestXmin ≤ ahead start request.oldestLocalXmin ∧
      ahead start request.oldestLocalXmin ≤ 2 ^ 31
  | .truncating start oldestXmin =>
    isNormal start = true ∧ isNormal oldestXmin = true ∧ ahead start oldestXmin ≤ 2 ^ 31

structure World.Ordered (world : World) : Prop where
  valid : world.log.oldestXmin = 0 ∨ isNormal world.log.oldestXmin = true
  calls : ∀ backend call, world.calls backend = some call → call.Ordered
  last : ∀ oldestXmin ∈ world.returned.getLast?,
    oldestXmin = world.log.oldestXmin ∧ isNormal oldestXmin = true
  chain : world.returned.IsChain NotDecreasing

variable {world next : World} {backend : Nat}

theorem notDecreasing_of_ahead {start : TransactionId} (hstart : isNormal start = true)
    (hnormal : isNormal oldestXmin = true) (hahead : ahead start oldestXmin ≤ 2 ^ 31) :
    NotDecreasing start oldestXmin := by
  by_cases hsame : start = oldestXmin
  · exact .inl hsame
  · right
    have hne := BitVec.toNat_ne_iff_ne.mpr hsame
    rw [precedes_iff hstart hnormal]
    unfold ahead at *
    omega

theorem ahead_le_of_precedes {left right : TransactionId} (hleft : isNormal left = true)
    (hright : isNormal right = true) (hprecedes : precedes left right = true) :
    ahead left right ≤ 2 ^ 31 := by
  rw [precedes_iff hleft hright] at hprecedes
  unfold ahead at *
  omega

variable (h : world.Ordered)

include h

theorem World.Ordered.setCall {call : Option Call} (hcall : call.elim True Call.Ordered) :
    (world.setCall backend call).Ordered := by
  refine ⟨h.valid, ?_, h.last, h.chain⟩
  intro other found hfound
  rcases setCall_calls hfound with rfl | hold
  · exact hcall
  · exact h.calls other found hold

/-- A call returns the shared value that it leaves. -/
theorem World.Ordered.returns {log : Log}
    (hlog : log.oldestXmin = oldestXmin) (hnormal : isNormal oldestXmin = true)
    (hmoves : isNormal world.log.oldestXmin = true →
      NotDecreasing world.log.oldestXmin oldestXmin) :
    World.Ordered { world.setCall backend none with
        log := log, returned := world.returned ++ [oldestXmin] } := by
  have hcleared : (world.setCall backend none).Ordered := h.setCall trivial
  refine ⟨.inr (by rw [hlog]; exact hnormal), hcleared.calls, ?_, ?_⟩
  · intro last hlast
    rw [List.getLast?_concat, Option.mem_some_iff] at hlast
    subst hlast
    exact ⟨hlog.symm, hnormal⟩
  · rw [List.isChain_append]
    refine ⟨h.chain, List.isChain_singleton _, ?_⟩
    intro last hlast first hfirst
    rw [List.head?_cons, Option.mem_some_iff] at hfirst
    obtain ⟨hshared, hlastNormal⟩ := h.last last hlast
    subst hfirst
    rw [hshared] at hlastNormal ⊢
    exact hmoves hlastNormal

theorem World.Ordered.startWalk (hlocal : isNormal request.oldestLocalXmin = true)
    (hset : isNormal world.log.oldestXmin = true) : (startWalk world backend request).Ordered := by
  unfold DistributedLog.startWalk
  dsimp only
  split
  case isTrue hprecedes =>
    apply h.setCall
    refine ⟨hlocal, hset, hset, ?_, ahead_le_of_precedes hset hlocal hprecedes⟩
    have hself : ahead world.log.oldestXmin world.log.oldestXmin = 0 := by
      unfold ahead
      omega
    rw [hself]
    exact Nat.zero_le _
  case isFalse => exact h.returns rfl hset fun _ => .inl rfl

/-- The shared value is set for the first time. -/
theorem World.Ordered.initialized (hzero : world.log.oldestXmin = 0)
    (hlocal : isNormal request.oldestLocalXmin = true) (hnormal : isNormal oldestXmin = true) :
    (applyProgress world backend (.initialized request oldestXmin)).Ordered := by
  have hset : World.Ordered { world with log := { world.log with oldestXmin := oldestXmin } } := by
    refine ⟨.inr hnormal, h.calls, ?_, h.chain⟩
    intro last hlast
    obtain ⟨hshared, hlastNormal⟩ := h.last last hlast
    rw [hshared, hzero] at hlastNormal
    cases hlastNormal
  exact hset.startWalk hlocal hnormal

theorem World.Ordered.proceed {call : Call} (hcall : call.Ordered)
    (hundisturbed : (call.proceed world.log).Undisturbed world.log) :
    (applyProgress world backend (call.proceed world.log)).Ordered := by
  cases call with
  | initializing request oldestXmin =>
    obtain ⟨hlocal, hnormal⟩ := hcall
    change (applyProgress world backend (lookForPage world.log request oldestXmin)).Ordered
    rcases lookForPage_cases world.log request oldestXmin with
      ⟨-, hprogress⟩ | ⟨-, ⟨-, hprogress⟩ | hprogress⟩
    · rw [Call.proceed, hprogress] at hundisturbed
      rw [hprogress]
      exact h.initialized hundisturbed hlocal hnormal
    · rw [Call.proceed, hprogress] at hundisturbed
      rw [hprogress]
      exact h.initialized hundisturbed hlocal hlocal
    · rw [hprogress]
      exact h.setCall ⟨hlocal, advanceToNextPage_normal _⟩
  | walking request start oldestXmin =>
    obtain ⟨hlocal, hstart, hnormal, hahead, hreach⟩ := hcall
    have hadvance : ∀ xid, isNormal xid = true ∧
          ahead start xid ≤ ahead start request.oldestLocalXmin →
        xid ≠ request.oldestLocalXmin → passes request (world.log.entry xid) = true →
        isNormal (advance xid) = true ∧
          ahead start (advance xid) ≤ ahead start request.oldestLocalXmin :=
      fun xid hxid hne _ =>
        ⟨advance_normal xid, ahead_advance_le hstart hxid.1 hlocal hne hxid.2⟩
    rcases proceed_walking hadvance start ⟨hnormal, hahead⟩ with
      ⟨next, ⟨hnext, hbehind⟩, hprogress | hprogress | hprogress⟩ | hprogress
    · rw [hprogress]
      exact h.setCall ⟨hlocal, hstart, hnext, hbehind, hreach⟩
    · rw [hprogress]
      exact h.setCall ⟨hstart, hnext, hbehind.trans hreach⟩
    · rw [hprogress] at hundisturbed ⊢
      apply h.returns rfl hnext
      intro _
      rw [hundisturbed]
      exact notDecreasing_of_ahead hstart hnext (hbehind.trans hreach)
    · rw [hprogress]
      exact h.setCall trivial
  | truncating start oldestXmin =>
    obtain ⟨hstart, hnormal, hahead⟩ := hcall
    apply h.returns rfl hnormal
    intro _
    have hshared : world.log.oldestXmin = start := hundisturbed
    rw [hshared]
    exact notDecreasing_of_ahead hstart hnormal hahead

theorem step_ordered {action : Action}
    (hundisturbed : UndisturbedStep world action) (hstep : step world action = some next) :
    next.Ordered := by
  rcases step_cases hstep with
    ⟨backend, request, transactionIdLimit, rfl, hlocal, hlimit, -, ⟨-, rfl⟩ | ⟨hset, rfl⟩⟩ |
      ⟨backend, call, rfl, hcall, rfl⟩
  · exact h.setCall ⟨hlocal, hlimit⟩
  · exact h.startWalk hlocal (h.valid.resolve_left hset)
  · exact h.proceed (h.calls backend call hcall) (hundisturbed call hcall)

end

end Greenplum.DistributedLog
