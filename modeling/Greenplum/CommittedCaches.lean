/-
The caches in front of the distributed log do not show: a series of tests against one
snapshot gives, test by test, the answers that a backend with empty caches would give.
-/
import Greenplum.DtmIsolation
import Greenplum.DistributedLog
import Greenplum.Fallible

namespace Greenplum.DistributedLog

open DtmSnapshot Fallible List

variable (ds : DistributedSnapshot)

/-- A backend that has not tested any xid against the snapshot yet. -/
def coldReader (maxLocalXidsCount maxLocalDistributedCache : Nat) : Reader :=
  ⟨⟨ds, 0, 0, maxLocalXidsCount, []⟩, ⟨maxLocalDistributedCache, []⟩⟩

/-- A series of tests; after an error of the log the backend goes on with the caches it
has. -/
def committedTestsOn (log : Log) :
    Reader → List (TransactionId × Bool) → List (Except LogError DistributedSnapshotCommitted)
  | _, [] => []
  | reader, test :: rest =>
    match committedTestOn log reader test.1 test.2 with
    | .error problem => .error problem :: committedTestsOn log reader rest
    | .ok (answer, next) => .ok answer :: committedTestsOn log next rest

/-- The comparison with the snapshot, without the mapping to local xids. -/
def compareDistribXid (distribXid : Nat) (isVacuumCheck : Bool) : DistributedSnapshotCommitted :=
  if distribXid < ds.xminAllDistributedSnapshots then .ignore
  else if isVacuumCheck then .inProgress
  else if distribXid < ds.xmin then .visible
  else if ds.xmax < distribXid then .inProgress
  else if inProgressFind distribXid ds.inProgressXidArray then .inProgress
  else .visible

/-- What the answer of the log means for the snapshot. -/
def judge (isVacuumCheck : Bool) : Option (Nat × Nat) → DistributedSnapshotCommitted
  | none => .ignore
  | some (checkDistribTimeStamp, distribXid) =>
    if checkDistribTimeStamp ≠ ds.distribTransactionTimeStamp then .ignore
    else compareDistribXid ds distribXid isVacuumCheck

/-- The test without caches. -/
def uncachedTest (log : Log) (ds : DistributedSnapshot) (localXid : TransactionId)
    (isVacuumCheck : Bool) : Except LogError DistributedSnapshotCommitted :=
  if isNormal localXid then (log.committedCheck localXid).map (judge ds isVacuumCheck)
  else .ok .ignore

section

variable (dslm : DistributedSnapshotWithLocalMapping)

theorem testDistribXid_answer (localXid distribXid : Nat) (isVacuumCheck : Bool) :
    (testDistribXid dslm localXid distribXid isVacuumCheck).1 =
      compareDistribXid dslm.ds distribXid isVacuumCheck := by
  unfold testDistribXid compareDistribXid
  repeat' split
  all_goals rfl

/-- The mapping changes only for an xid that is in progress for every kind of test. -/
theorem testDistribXid_mapping (localXid distribXid : Nat) (isVacuumCheck : Bool) :
    (testDistribXid dslm localXid distribXid isVacuumCheck).2 = dslm ∨
      (testDistribXid dslm localXid distribXid isVacuumCheck).2 = rememberInProgress dslm localXid ∧
        ∀ other, compareDistribXid dslm.ds distribXid other = .inProgress := by
  unfold testDistribXid
  split
  · exact .inl rfl
  case isFalse hall =>
    split
    · exact .inl rfl
    · split
      · exact .inl rfl
      case isFalse hxmin =>
        split
        · exact .inl rfl
        case isFalse hxmax =>
          split
          case isTrue hfind =>
            refine .inr ⟨rfl, ?_⟩
            intro other
            unfold compareDistribXid
            rw [if_neg hall, if_neg hxmin, if_neg hxmax, if_pos hfind, ite_self]
          case isFalse => exact .inl rfl

end

section

/-- The bounds of the mapped local xids are such xids themselves. -/
structure Bounded (dslm : DistributedSnapshotWithLocalMapping) : Prop where
  empty : dslm.inProgressMappedLocalXids = [] →
    dslm.minCachedLocalXid = 0 ∧ dslm.maxCachedLocalXid = 0
  bounds : dslm.inProgressMappedLocalXids ≠ [] →
    dslm.minCachedLocalXid ∈ dslm.inProgressMappedLocalXids ∧
      dslm.maxCachedLocalXid ∈ dslm.inProgressMappedLocalXids

variable {dslm : DistributedSnapshotWithLocalMapping}

theorem Bounded.cachedInProgress (h : Bounded dslm) {localXid : Nat}
    (hcached : cachedInProgress dslm localXid = true) :
    localXid ∈ dslm.inProgressMappedLocalXids := by
  unfold DtmSnapshot.cachedInProgress at hcached
  rw [Bool.and_eq_true, Bool.not_eq_true', isEmpty_eq_false_iff] at hcached
  obtain ⟨hsome, hcases⟩ := hcached
  obtain ⟨hmin, hmax⟩ := h.bounds hsome
  rw [Bool.or_eq_true, Bool.or_eq_true, beq_iff_eq, beq_iff_eq, Bool.and_eq_true,
    contains_iff_mem] at hcases
  obtain (rfl | rfl) | ⟨-, hmem⟩ := hcases
  · exact hmin
  · exact hmax
  · exact hmem

/-- A bound is either the new xid or the old bound, and then there was one. -/
theorem bound_mem {mapped : List Nat} {bound localXid : Nat} {moves : Prop} [Decidable moves]
    (hempty : mapped = [] → bound = 0) (hbound : mapped ≠ [] → bound ∈ mapped) :
    (if bound = 0 ∨ moves then localXid else bound) ∈ mapped ++ [localXid] := by
  split
  case isTrue => exact mem_append_right _ (mem_singleton_self _)
  case isFalse hstays =>
    apply mem_append_left
    apply hbound
    intro hnone
    exact hstays (.inl (hempty hnone))

theorem Bounded.rememberInProgress (h : Bounded dslm) (localXid : Nat) :
    Bounded (rememberInProgress dslm localXid) := by
  unfold DtmSnapshot.rememberInProgress
  split
  case isTrue =>
    constructor
    · intro hnone
      exact absurd hnone (append_ne_nil_of_right_ne_nil _ (cons_ne_nil _ _))
    · intro _
      exact ⟨bound_mem (fun hnone => (h.empty hnone).1) fun hsome => (h.bounds hsome).1,
        bound_mem (fun hnone => (h.empty hnone).2) fun hsome => (h.bounds hsome).2⟩
  case isFalse => exact h

theorem rememberInProgress_ds (dslm : DistributedSnapshotWithLocalMapping) (localXid : Nat) :
    (rememberInProgress dslm localXid).ds = dslm.ds := by
  unfold rememberInProgress
  split
  · rfl
  · rfl

theorem rememberInProgress_subset (dslm : DistributedSnapshotWithLocalMapping) (localXid : Nat) :
    (rememberInProgress dslm localXid).inProgressMappedLocalXids ⊆
      localXid :: dslm.inProgressMappedLocalXids := by
  unfold rememberInProgress
  split
  · intro xid hmem
    rcases mem_append.mp hmem with hold | hnew
    · exact mem_cons_of_mem _ hold
    · rw [mem_singleton.mp hnew]
      exact mem_cons_self
  · exact subset_cons_self _ _

end

section

variable {localXid : TransactionId} {distribXid : Nat} {cache : LocalDistribXactCache}

/-- What the log has answered for an entry of the local cache. -/
def cachedAnswer (distribXid : Nat) : Option (Nat × Nat) :=
  if distribXid = 0 then none else some (ds.distribTransactionTimeStamp, distribXid)

/-- The caches of a backend repeat the log. -/
structure Coherent (log : Log) (ds : DistributedSnapshot) (reader : Reader) : Prop where
  snapshot : reader.dslm.ds = ds
  bounded : Bounded reader.dslm
  mapped : ∀ localXid : TransactionId, localXid.toNat ∈ reader.dslm.inProgressMappedLocalXids →
      ∀ isVacuumCheck, uncachedTest log ds localXid isVacuumCheck = .ok .inProgress
  cached : ∀ (localXid : TransactionId) (distribXid : Nat),
    (localXid.toNat, distribXid) ∈ reader.cache.entries →
      log.committedCheck localXid = .ok (cachedAnswer ds distribXid)

variable {log : Log} {ds : DistributedSnapshot} {reader : Reader}

theorem coldReader_coherent (log : Log) (ds : DistributedSnapshot)
    (maxLocalXidsCount maxLocalDistributedCache : Nat) :
    Coherent log ds (coldReader ds maxLocalXidsCount maxLocalDistributedCache) := by
  refine ⟨rfl, ⟨fun _ => ⟨rfl, rfl⟩, fun hsome => absurd rfl hsome⟩, ?_, ?_⟩
  · intro localXid hmem
    exact absurd hmem not_mem_nil
  · intro localXid distribXid hmem
    exact absurd hmem not_mem_nil

/-- What the log answers for an xid that does not precede the oldest xmin. -/
def DistributedLogEntry.answer (entry : DistributedLogEntry) : Option (Nat × Nat) :=
  if entry.distribTimeStamp ≠ 0 ∧ entry.distribXid ≠ 0 then
    some (entry.distribTimeStamp.toNat, entry.distribXid.toNat)
  else none

theorem committedCheck_ok {answer : Option (Nat × Nat)}
    (hcheck : log.committedCheck localXid = .ok answer) : log.oldestXmin ≠ 0 ∧
      answer = if precedes localXid log.oldestXmin then none else (log.entry localXid).answer := by
  obtain ⟨hset, hcheck⟩ := ite_error_eq_ok.mp hcheck
  refine ⟨hset, ?_⟩
  split at hcheck
  case isTrue hprecedes =>
    rw [if_pos hprecedes]
    exact (Except.ok.inj hcheck).symm
  case isFalse hkept =>
    obtain ⟨-, hcheck⟩ := ite_error_eq_ok.mp hcheck
    rw [if_neg hkept, DistributedLogEntry.answer]
    dsimp only at hcheck
    split at hcheck
    case isTrue hboth =>
      rw [if_pos hboth]
      exact (Except.ok.inj hcheck).symm
    case isFalse hnone =>
      rw [if_neg hnone]
      split at hcheck
      · exact (Except.ok.inj hcheck).symm
      · split at hcheck
        · cases hcheck
        · cases hcheck

theorem committedCheck_some {checkDistribTimeStamp : Nat}
    (hcheck : log.committedCheck localXid = .ok (some (checkDistribTimeStamp, distribXid))) :
    let entry := log.entry localXid
    log.oldestXmin ≠ 0 ∧ ¬ precedes localXid log.oldestXmin = true ∧
      some (checkDistribTimeStamp, distribXid) = entry.answer ∧ distribXid ≠ 0 ∧
      entry.distribTimeStamp.toNat = checkDistribTimeStamp ∧
      entry.distribXid.toNat = distribXid := by
  obtain ⟨hset, hanswer⟩ := committedCheck_ok hcheck
  obtain ⟨hkept, hanswer⟩ := Option.ite_none_left_eq_some.mp hanswer.symm
  have hentry := hanswer
  rw [DistributedLogEntry.answer] at hentry
  obtain ⟨hboth, hentry⟩ := Option.ite_none_right_eq_some.mp hentry
  obtain ⟨hstamp, hxid⟩ := Prod.mk.inj (Option.some.inj hentry)
  refine ⟨hset, hkept, hanswer.symm, ?_, hstamp, hxid⟩
  exact fun hzero => hboth.2 (BitVec.eq_of_toNat_eq (hxid.trans hzero))

/-- A test agrees with the log and leaves coherent caches. -/
def Agrees (log : Log) (ds : DistributedSnapshot) (localXid : TransactionId)
    (isVacuumCheck : Bool) (result : DistributedSnapshotCommitted × Reader) : Prop :=
  uncachedTest log ds localXid isVacuumCheck = .ok result.1 ∧ Coherent log ds result.2

/-- A local cache that repeats the log. -/
def Repeats (log : Log) (ds : DistributedSnapshot) (cache : LocalDistribXactCache) : Prop :=
  ∀ (other : TransactionId) (found : Nat), (other.toNat, found) ∈ cache.entries →
    log.committedCheck other = .ok (cachedAnswer ds found)

theorem Repeats.addCommitted (h : Repeats log ds cache)
    (hcheck : log.committedCheck localXid = .ok (cachedAnswer ds distribXid)) :
    Repeats log ds (cache.addCommitted localXid.toNat distribXid) := by
  intro other found hmem
  rcases mem_cons.mp (cache.addCommitted_subset _ _ hmem) with hnew | hold
  · obtain ⟨hother, rfl⟩ := Prod.mk.inj hnew
    rw [BitVec.eq_of_toNat_eq hother]
    exact hcheck
  · exact h other found hold

theorem consultsLog_misses (hconsults : consultsLog reader localXid = true) :
    isNormal localXid = true ∧ cachedInProgress reader.dslm localXid.toNat = false ∧
      (reader.cache.committedFind localXid.toNat).1 = none := by
  unfold consultsLog at hconsults
  rw [Bool.and_eq_true, Bool.and_eq_true, Bool.not_eq_true', Option.isNone_iff_eq_none,
    and_assoc] at hconsults
  exact hconsults

/-- A test that looks into the log depends on nothing else than its answer. -/
theorem committedTest_judge (hconsults : consultsLog reader localXid = true)
    (answer : Option (Nat × Nat)) (isVacuumCheck : Bool) :
    (committedTest (fun _ => answer) reader localXid.toNat isVacuumCheck).1 =
      judge reader.dslm.ds isVacuumCheck answer := by
  obtain ⟨hnormal, hunmapped, hmiss⟩ := consultsLog_misses hconsults
  unfold committedTest
  rw [show transactionIdIsNormal localXid.toNat = true from hnormal, hunmapped, Bool.not_true]
  dsimp only
  rw [if_neg Bool.false_ne_true, if_neg Bool.false_ne_true]
  split
  case h_1 distribXid cache hfind =>
    rw [hfind] at hmiss
    cases hmiss
  case h_2 cache hfind =>
    split
    case h_1 checkDistribTimeStamp distribXid =>
      split
      case isTrue hother => rw [judge, if_pos hother]
      case isFalse hsame =>
        rw [judge, if_neg hsame]
        exact testDistribXid_answer _ _ _ _
    case h_2 => rfl

section

variable (h : Coherent log ds reader)

include h

/-- The comparison of a distributed xid that the log has for the local one. -/
theorem Coherent.compare (hnormal : isNormal localXid = true)
    (hcheck : log.committedCheck localXid = .ok (some (ds.distribTransactionTimeStamp, distribXid)))
    (hcache : Repeats log ds cache) (isVacuumCheck : Bool) :
    Agrees log ds localXid isVacuumCheck
      ((testDistribXid reader.dslm localXid.toNat distribXid isVacuumCheck).1,
        ⟨(testDistribXid reader.dslm localXid.toNat distribXid isVacuumCheck).2, cache⟩) := by
  have hanswer : ∀ isVacuumCheck, uncachedTest log ds localXid isVacuumCheck =
      .ok (compareDistribXid ds distribXid isVacuumCheck) := by
    intro isVacuumCheck
    rw [uncachedTest, if_pos hnormal, hcheck]
    change Except.ok (judge ds isVacuumCheck (some (_, distribXid))) = _
    rw [judge, if_neg (not_not_intro rfl)]
  constructor
  · rw [hanswer, testDistribXid_answer, h.snapshot]
  · rcases testDistribXid_mapping reader.dslm localXid.toNat distribXid isVacuumCheck with
      hsame | ⟨hremembered, hinProgress⟩
    · rw [hsame]
      exact ⟨h.snapshot, h.bounded, h.mapped, hcache⟩
    · rw [hremembered]
      refine ⟨(rememberInProgress_ds _ _).trans h.snapshot, h.bounded.rememberInProgress _, ?_,
        hcache⟩
      intro other hmem other'
      rcases mem_cons.mp (rememberInProgress_subset _ _ hmem) with hnew | hold
      · rw [BitVec.eq_of_toNat_eq hnew, hanswer, ← h.snapshot, hinProgress]
      · exact h.mapped other hold other'

theorem Coherent.committedFind (localXid : Nat) :
    Repeats log ds (reader.cache.committedFind localXid).2 :=
  fun other found hmem =>
    h.cached other found (reader.cache.committedFind_subset localXid hmem)

/-- A test that the caches answer. -/
theorem Coherent.committedTest_cached (hcached : consultsLog reader localXid = false)
    (distributedLog : Nat → Option (Nat × Nat)) (isVacuumCheck : Bool) :
    Agrees log ds localXid isVacuumCheck
      (committedTest distributedLog reader localXid.toNat isVacuumCheck) := by
  have hkept := h.committedFind localXid.toNat
  unfold committedTest
  split
  case isTrue hspecial =>
    rw [Bool.not_eq_true'] at hspecial
    refine ⟨?_, h⟩
    rw [uncachedTest, isNormal, hspecial]
    rfl
  case isFalse hnot =>
    have hnormal : isNormal localXid = true := by
      rw [Bool.not_eq_true', Bool.not_eq_false] at hnot
      exact hnot
    split
    case isTrue hmapped =>
      exact ⟨h.mapped localXid (h.bounded.cachedInProgress hmapped) isVacuumCheck, h⟩
    case isFalse hunmapped =>
      split
      case h_1 distribXid cache hfind =>
        rw [hfind] at hkept
        have hcheck := h.cached localXid distribXid
          (LocalDistribXactCache.committedFind_mem (congrArg Prod.fst hfind))
        split
        case isTrue hzero =>
          rw [cachedAnswer, if_pos hzero] at hcheck
          refine ⟨?_, h.snapshot, h.bounded, h.mapped, hkept⟩
          rw [uncachedTest, if_pos hnormal, hcheck]
          rfl
        case isFalse hvalid =>
          rw [cachedAnswer, if_neg hvalid] at hcheck
          exact h.compare hnormal hcheck hkept isVacuumCheck
      case h_2 cache hfind =>
        rw [consultsLog, hnormal, Bool.eq_false_of_not_eq_true hunmapped, hfind] at hcached
        cases hcached

/-- A test that looks into the log. -/
theorem Coherent.committedTest_consults (hconsults : consultsLog reader localXid = true)
    {answer : Option (Nat × Nat)} (hcheck : log.committedCheck localXid = .ok answer)
    (isVacuumCheck : Bool) :
    Agrees log ds localXid isVacuumCheck
      (committedTest (fun _ => answer) reader localXid.toNat isVacuumCheck) := by
  obtain ⟨hnormal, hunmapped, hmiss⟩ := consultsLog_misses hconsults
  have hkept := h.committedFind localXid.toNat
  unfold committedTest
  rw [show transactionIdIsNormal localXid.toNat = true from hnormal, hunmapped, Bool.not_true]
  dsimp only
  rw [if_neg Bool.false_ne_true, if_neg Bool.false_ne_true]
  split
  case h_1 distribXid cache hfind =>
    rw [hfind] at hmiss
    cases hmiss
  case h_2 cache hfind =>
    rw [hfind] at hkept
    have hanswer : uncachedTest log ds localXid isVacuumCheck =
        .ok (judge ds isVacuumCheck answer) := by
      rw [uncachedTest, if_pos hnormal, hcheck]
      rfl
    split
    case h_1 checkDistribTimeStamp distribXid =>
      rw [h.snapshot]
      split
      case isTrue hother =>
        rw [judge, if_pos hother] at hanswer
        exact ⟨hanswer, h.snapshot, h.bounded, h.mapped, hkept⟩
      case isFalse hsame =>
        rw [not_not] at hsame
        rw [hsame] at hcheck
        apply h.compare hnormal hcheck
        apply hkept.addCommitted
        rw [hcheck, cachedAnswer, if_neg (committedCheck_some hcheck).2.2.2.1]
    case h_2 =>
      refine ⟨hanswer, h.snapshot, h.bounded, h.mapped, ?_⟩
      apply hkept.addCommitted
      rw [hcheck, cachedAnswer, if_pos rfl]

/-- One test: the caches neither change the answer nor stop repeating the log. -/
theorem Coherent.committedTestOn (localXid : TransactionId) (isVacuumCheck : Bool) :
    (∃ problem, committedTestOn log reader localXid isVacuumCheck = .error problem ∧
        uncachedTest log ds localXid isVacuumCheck = .error problem) ∨
      ∃ result, committedTestOn log reader localXid isVacuumCheck = .ok result ∧
        Agrees log ds localXid isVacuumCheck result := by
  unfold DistributedLog.committedTestOn
  split
  case isTrue hconsults =>
    cases hcheck : log.committedCheck localXid with
    | error problem =>
      refine .inl ⟨problem, rfl, ?_⟩
      rw [uncachedTest, if_pos (consultsLog_misses hconsults).1, hcheck]
      rfl
    | ok answer =>
      exact .inr ⟨_, rfl, h.committedTest_consults hconsults hcheck isVacuumCheck⟩
  case isFalse hcached =>
    exact .inr ⟨_, rfl, h.committedTest_cached (Bool.eq_false_of_not_eq_true hcached) _
      isVacuumCheck⟩

end

theorem Coherent.committedTestsOn (tests : List (TransactionId × Bool)) :
    ∀ {reader : Reader}, Coherent log ds reader → committedTestsOn log reader tests =
        tests.map fun test => uncachedTest log ds test.1 test.2 := by
  induction tests with
  | nil =>
    intro reader _
    rfl
  | cons test rest ih =>
    intro reader h
    rw [map_cons, DistributedLog.committedTestsOn]
    rcases h.committedTestOn test.1 test.2 with
      ⟨problem, htest, hanswer⟩ | ⟨result, htest, hanswer, hnext⟩
    · rw [htest, hanswer, ih h]
    · rw [htest, hanswer, ← ih hnext]

end

/-- Every test of a series gets the answer that it would get with empty caches, whatever
the sizes of the caches are. -/
theorem committedTests_cold (log : Log) (ds : DistributedSnapshot)
    (maxLocalXidsCount maxLocalDistributedCache : Nat) (tests : List (TransactionId × Bool)) :
    committedTestsOn log (coldReader ds maxLocalXidsCount maxLocalDistributedCache) tests =
      tests.map fun test =>
        (committedTestOn log (coldReader ds maxLocalXidsCount maxLocalDistributedCache)
          test.1 test.2).map Prod.fst := by
  have hcold := coldReader_coherent log ds maxLocalXidsCount maxLocalDistributedCache
  rw [hcold.committedTestsOn tests]
  apply map_congr_left
  intro test _
  rcases hcold.committedTestOn test.1 test.2 with
    ⟨problem, htest, hanswer⟩ | ⟨result, htest, hanswer, -⟩
  · rw [htest, hanswer]
    rfl
  · rw [htest, hanswer]
    rfl

end Greenplum.DistributedLog
