/-
Isolation of distributed snapshots: a snapshot that is taken while no backend
holds an id that it has not published yet shows exactly the distributed
transactions that had ended.
-/
import Greenplum.DtmSnapshot

namespace Greenplum.DtmSnapshot

open List Option

section

variable (myProc : Nat)

/-- What the loop has found for an entry of the proc array. -/
structure Seen (gathered : Gathered) (mine : Bool) (gxid : Nat) : Prop where
  xmin : gathered.xmin ≤ gxid
  xmax : gxid ≤ gathered.xmax
  listed : mine = false → gxid ∈ gathered.inProgress

/-- Later entries only widen what was gathered. -/
structure Widens (before after : Gathered) : Prop where
  xmin : after.xmin ≤ before.xmin
  xmax : before.xmax ≤ after.xmax
  listed : ∀ gxid ∈ before.inProgress, gxid ∈ after.inProgress

theorem Seen.widens {before after : Gathered} {mine : Bool} {gxid : Nat}
    (h : Seen before mine gxid) (hwidens : Widens before after) : Seen after mine gxid :=
  ⟨le_trans hwidens.xmin h.xmin, le_trans h.xmax hwidens.xmax,
    fun hmine => hwidens.listed gxid (h.listed hmine)⟩

theorem gatherOne_widens (mine : Bool) (gxact : Gxact) (acc : Gathered) :
    Widens acc (gatherOne mine gxact acc) := by
  unfold gatherOne
  split
  · exact ⟨le_refl _, le_refl _, fun _ h => h⟩
  · constructor
    case xmin => dsimp only; split <;> omega
    case xmax => dsimp only; split <;> omega
    case listed =>
      intro gxid hmem
      dsimp only
      split
      · exact hmem
      · exact mem_append_left _ hmem

theorem gatherOne_seen (mine : Bool) {gxact : Gxact} (acc : Gathered) (hvalid : gxact.gxid ≠ 0) :
    Seen (gatherOne mine gxact acc) mine gxact.gxid := by
  rw [gatherOne, if_neg hvalid]
  constructor
  case xmin => dsimp only; split <;> omega
  case xmax => dsimp only; split <;> omega
  case listed =>
    rintro rfl
    simp

theorem gather_widens (procs : List Proc) :
    ∀ index acc, Widens acc (gather myProc index procs acc) := by
  induction procs with
  | nil => exact fun _ _ => ⟨le_refl _, le_refl _, fun _ h => h⟩
  | cons proc rest ih =>
    intro index acc
    have hone := gatherOne_widens (index == myProc) proc.gxact acc
    have hrest := ih (index + 1) (gatherOne (index == myProc) proc.gxact acc)
    exact ⟨le_trans hrest.xmin hone.xmin, le_trans hone.xmax hrest.xmax,
      fun gxid hmem => hrest.listed gxid (hone.listed gxid hmem)⟩

theorem gather_seen (procs : List Proc) :
    ∀ index acc place proc, procs[place]? = some proc → proc.gxact.gxid ≠ 0 →
      Seen (gather myProc index procs acc) (index + place == myProc) proc.gxact.gxid := by
  induction procs with
  | nil => exact fun index acc place proc hget => by cases hget
  | cons first rest ih =>
    intro index acc place proc hget hvalid
    cases place with
    | zero =>
      cases hget
      exact (gatherOne_seen _ acc hvalid).widens (gather_widens myProc rest _ _)
    | succ place =>
      have hseen := ih (index + 1)
        (gatherOne (index == myProc) first.gxact acc) place proc hget hvalid
      rwa [Nat.add_right_comm, Nat.add_assoc] at hseen

/-- `xmax` stays at the counter when no entry is above it. -/
theorem gather_xmax {bound : Nat} (procs : List Proc)
    (hbound : ∀ proc ∈ procs, proc.gxact.gxid ≤ bound) :
    ∀ index acc, acc.xmax = bound → (gather myProc index procs acc).xmax = bound := by
  induction procs with
  | nil => exact fun _ _ h => h
  | cons proc rest ih =>
    intro index acc hacc
    have hfirst := hbound proc mem_cons_self
    apply ih (fun other hmem => hbound other (mem_cons_of_mem _ hmem))
    unfold gatherOne
    split
    · exact hacc
    · dsimp only
      split <;> omega

end

/-- A snapshot counts everything as running that has not ended, apart from the
transaction that took it. -/
structure Covers (taken : Taken) : Prop where
  sorted : taken.ds.inProgressXidArray.Pairwise (· ≤ ·)
  xminAll : taken.ds.xminAllDistributedSnapshots ≤ taken.ds.xmin
  running : ∀ gxid, gxid ≠ 0 → gxid ≠ taken.owner → gxid ∉ taken.ended → taken.ds.xmin ≤ gxid ∧
      (taken.ds.xmax < gxid ∨ gxid ∈ taken.ds.inProgressXidArray)

/-- The ids of the coordinator: each one that was generated is with a backend,
published or not, or has ended. -/
structure Inv (world : World) : Prop where
  accounted : ∀ gxid, gxid ≠ 0 → gxid ≤ world.shmGIDSeq → gxid ∈ world.ended ∨
    ∃ proc ∈ world.procs, proc.gxact.gxid = gxid ∨ proc.gxid = some gxid
  published : ∀ proc ∈ world.procs, proc.gxact.gxid ≤ world.shmGIDSeq
  pending : ∀ proc ∈ world.procs, ∀ gxid, proc.gxid = some gxid →
    gxid ≤ world.shmGIDSeq ∧ proc.gxact.gxid = 0
  snapshots : ∀ taken ∈ world.snapshots, Covers taken

theorem initial_inv (backends : Nat) : Inv (World.initial backends) where
  accounted gxid hne hle := by
    have hfirst : gxid = firstDistributedTransactionId :=
      Nat.le_antisymm hle (Nat.one_le_iff_ne_zero.mpr hne)
    exact .inl (hfirst ▸ mem_singleton_self _)
  published proc hmem := by
    rw [eq_of_mem_replicate hmem]
    exact Nat.zero_le _
  pending proc hmem gxid hpending := by
    rw [eq_of_mem_replicate hmem] at hpending
    cases hpending
  snapshots taken hmem := by cases hmem

/-- No backend holds an id that it has not published. -/
def AllPublished (world : World) : Prop := ∀ proc ∈ world.procs, proc.gxid = none

theorem createDistributedSnapshot_covers {cfg : Config} {world : World}
    {myProc : Nat} {proc : Proc} {ds : DistributedSnapshot} (h : Inv world)
    (hquiet : AllPublished world) (hproc : world.procs[myProc]? = some proc)
    (hvalid : proc.gxact.gxid ≠ 0) (hds : createDistributedSnapshot cfg myProc world = some ds) :
    Covers ⟨ds, proc.gxact.gxid, world.ended⟩ := by
  have hxmax := gather_xmax myProc world.procs h.published 0
    ⟨world.shmGIDSeq, lastDistributedTransactionId, world.shmGIDSeq, []⟩ rfl
  have hseen := fun place other hget hother => gather_seen myProc world.procs 0
    ⟨world.shmGIDSeq, lastDistributedTransactionId, world.shmGIDSeq, []⟩
    place other hget hother
  unfold createDistributedSnapshot at hds
  dsimp only at hds
  obtain ⟨_, hds⟩ := ite_none_left_eq_some.mp hds
  cases hds
  constructor
  case sorted => exact pairwise_insertionSort _ _
  case xminAll => dsimp only; split <;> omega
  case running =>
    intro gxid hgxid howner hrunning
    have hmine := hseen myProc proc hproc hvalid
    by_cases hle : gxid ≤ world.shmGIDSeq
    · -- a generated id that has not ended is published by another backend
      rcases h.accounted gxid hgxid hle with hended | ⟨other, hmem, hheld⟩
      · exact absurd hended hrunning
      · have hgxact : other.gxact.gxid = gxid := by
          rcases hheld with heq | hpending
          · exact heq
          · rw [hquiet other hmem] at hpending
            cases hpending
        rcases mem_iff_getElem?.mp hmem with ⟨place, hget⟩
        have hother := hseen place other hget (hgxact ▸ hgxid)
        rw [hgxact] at hother
        refine ⟨hother.xmin, .inr ?_⟩
        rw [mem_insertionSort]
        apply hother.listed
        rw [beq_eq_false_iff_ne, Nat.zero_add]
        rintro rfl
        rw [hproc] at hget
        cases hget
        exact howner hgxact.symm
    · have hxmin := hmine.xmin
      have hxmax' := hmine.xmax
      exact ⟨by dsimp only; omega, .inl (by dsimp only; omega)⟩

section

variable {cfg : Config} {world next : World}

/-- One backend changes its entry: the ids it held stay accounted for, and so
are the new ones. -/
theorem Inv.setProc (h : Inv world) {myProc : Nat} {proc after : Proc}
    (hproc : world.procs[myProc]? = some proc) (hprocs : next.procs = world.procs.set myProc after)
    (hseq : world.shmGIDSeq ≤ next.shmGIDSeq) (hended : ∀ gxid ∈ world.ended, gxid ∈ next.ended)
    (hkeep : ∀ gxid, gxid ≠ 0 → proc.gxact.gxid = gxid ∨ proc.gxid = some gxid →
      gxid ∈ next.ended ∨ after.gxact.gxid = gxid ∨ after.gxid = some gxid)
    (hnew : ∀ gxid, world.shmGIDSeq < gxid → gxid ≤ next.shmGIDSeq → after.gxid = some gxid)
    (hpublished : after.gxact.gxid ≤ next.shmGIDSeq) (hpending : ∀ gxid, after.gxid = some gxid →
      gxid ≤ next.shmGIDSeq ∧ after.gxact.gxid = 0)
    (hsnapshots : ∀ taken ∈ next.snapshots, Covers taken) : Inv next := by
  have hafter : after ∈ next.procs := by
    rw [hprocs]
    exact List.mem_set (List.getElem?_eq_some_iff.mp hproc).1 after
  have hold : ∀ other ∈ next.procs, other ∈ world.procs ∨ other = after := by
    intro other hmem
    rw [hprocs] at hmem
    exact mem_or_eq_of_mem_set hmem
  constructor
  case accounted =>
    intro gxid hvalid hle
    by_cases hbefore : gxid ≤ world.shmGIDSeq
    · rcases h.accounted gxid hvalid hbefore with hdone | ⟨other, hmem, hheld⟩
      · exact .inl (hended gxid hdone)
      · rcases mem_iff_getElem?.mp hmem with ⟨place, hget⟩
        by_cases hplace : place = myProc
        · subst hplace
          rw [hproc] at hget
          cases hget
          exact (hkeep gxid hvalid hheld).imp_right fun hheld' =>
            ⟨after, hafter, hheld'⟩
        · refine .inr ⟨other, ?_, hheld⟩
          rw [hprocs]
          apply mem_of_getElem?
          rw [getElem?_set_ne (Ne.symm hplace)]
          exact hget
    · exact .inr ⟨after, hafter, .inr (hnew gxid (lt_of_not_ge hbefore) hle)⟩
  case published =>
    intro other hmem
    rcases hold other hmem with hmem' | rfl
    · exact le_trans (h.published other hmem') hseq
    · exact hpublished
  case pending =>
    intro other hmem gxid hgxid
    rcases hold other hmem with hmem' | rfl
    · have hother := h.pending other hmem' gxid hgxid
      exact ⟨le_trans hother.1 hseq, hother.2⟩
    · exact hpending gxid hgxid
  case snapshots => exact hsnapshots

/-- The condition on a step: a snapshot is taken only while every generated id
is published. -/
def SnapshotPublished (world : World) : Action → Prop
  | .createDistributedSnapshot _ => AllPublished world
  | _ => True

theorem step_inv {action : Action} (h : Inv world) (hquiet : SnapshotPublished world action)
    (hstep : step cfg world action = some next) : Inv next := by
  rcases bind_eq_some_iff.mp hstep with ⟨proc, hproc, hstep⟩
  have hmem := mem_of_getElem? hproc
  have hpublished := h.published proc hmem
  have hpending := h.pending proc hmem
  cases action with
  | generateGID myProc =>
    dsimp only [stepProc] at hstep
    obtain ⟨hidle, hstep⟩ := ite_none_right_eq_some.mp hstep
    rcases map_eq_some_iff.mp hstep with ⟨gxid, hgxid, rfl⟩
    have hnext : gxid = world.shmGIDSeq + 1 := by
      unfold generateGID at hgxid
      split at hgxid
      · cases hgxid
      · exact (some.inj hgxid).symm
    apply h.setProc hproc rfl
    case hseq => exact hnext ▸ Nat.le_succ _
    case hended => exact fun _ hmem => hmem
    case hkeep =>
      intro held hvalid hheld
      rcases hheld with rfl | hheld
      · exact absurd hidle.2 hvalid
      · rw [hidle.1] at hheld
        cases hheld
    case hnew =>
      intro held hlt hle
      dsimp only at hle ⊢
      congr 1
      omega
    case hpublished => dsimp only; omega
    case hpending =>
      intro held hheld
      cases hheld
      exact ⟨le_refl _, hidle.2⟩
    case hsnapshots => exact h.snapshots
  | setCurrentGxact myProc =>
    rcases map_eq_some_iff.mp hstep with ⟨gxid, hgxid, rfl⟩
    have hheldByProc := hpending gxid hgxid
    apply h.setProc hproc rfl
    case hseq => exact le_refl _
    case hended => exact fun _ hmem => hmem
    case hkeep =>
      intro held hvalid hheld
      rcases hheld with rfl | hheld
      · exact absurd hheldByProc.2 hvalid
      · rw [hgxid] at hheld
        exact .inr (.inl (some.inj hheld))
    case hnew => exact fun held hlt hle => absurd hle (Nat.not_le_of_lt hlt)
    case hpublished => exact hheldByProc.1
    case hpending => exact fun held hheld => by cases hheld
    case hsnapshots => exact h.snapshots
  | createDistributedSnapshot myProc =>
    dsimp only [stepProc] at hstep
    obtain ⟨hvalid, hstep⟩ := ite_none_right_eq_some.mp hstep
    rcases map_eq_some_iff.mp hstep with ⟨ds, hds, rfl⟩
    apply h.setProc hproc rfl
    case hseq => exact le_refl _
    case hended => exact fun _ hmem => hmem
    case hkeep => exact fun _ _ hheld => .inr hheld
    case hnew => exact fun held hlt hle => absurd hle (Nat.not_le_of_lt hlt)
    case hpublished => exact hpublished
    case hpending => exact hpending
    case hsnapshots =>
      exact forall_mem_append.mpr ⟨h.snapshots, forall_mem_singleton.mpr
        (createDistributedSnapshot_covers h hquiet hproc hvalid hds)⟩
  | procArrayEndGxact myProc =>
    dsimp only [stepProc] at hstep
    obtain ⟨hvalid, hstep⟩ := ite_none_right_eq_some.mp hstep
    cases hstep
    apply h.setProc hproc rfl
    case hseq => exact le_refl _
    case hended => exact fun _ hmem => mem_append_left _ hmem
    case hkeep =>
      intro held _ hheld
      rcases hheld with rfl | hheld
      · exact .inl (mem_append_right _ mem_cons_self)
      · exact .inr (.inr hheld)
    case hnew => exact fun held hlt hle => absurd hle (Nat.not_le_of_lt hlt)
    case hpublished => exact Nat.zero_le _
    case hpending => exact fun held hheld => ⟨(hpending held hheld).1, rfl⟩
    case hsnapshots => exact h.snapshots

/-- Every snapshot of the run is taken while all generated ids are published. -/
def SnapshotsPublished (cfg : Config) : World → List Action → Prop
  | _, [] => True
  | world, action :: rest => SnapshotPublished world action ∧
      ∀ next ∈ step cfg world action, SnapshotsPublished cfg next rest

instance (world : World) : Decidable (AllPublished world) :=
  inferInstanceAs (Decidable (∀ proc ∈ world.procs, proc.gxid = none))

instance (world : World) : ∀ action, Decidable (SnapshotPublished world action)
  | .createDistributedSnapshot _ => inferInstanceAs (Decidable (AllPublished world))
  | .generateGID _ | .setCurrentGxact _ | .procArrayEndGxact _ =>
    inferInstanceAs (Decidable True)

instance SnapshotsPublished.decidable (cfg : Config) :
    ∀ world actions, Decidable (SnapshotsPublished cfg world actions)
  | _, [] => inferInstanceAs (Decidable True)
  | world, action :: rest =>
    have := fun next => SnapshotsPublished.decidable cfg next rest
    inferInstanceAs (Decidable (SnapshotPublished world action ∧
      ∀ next ∈ step cfg world action, SnapshotsPublished cfg next rest))

theorem run_inv (actions : List Action) :
    ∀ {world final : World}, Inv world → SnapshotsPublished cfg world actions →
      run cfg world actions = some final → Inv final := by
  induction actions with
  | nil =>
    intro world final h _ hrun
    cases hrun
    exact h
  | cons action rest ih =>
    intro world final h hquiet hrun
    rcases bind_eq_some_iff.mp hrun with ⟨next, hstep, hrest⟩
    exact ih (step_inv h hquiet.1 hstep) (hquiet.2 next hstep) hrest

end

section

variable {distribXid localXid found : Nat} {taken : Taken} {ds : DistributedSnapshot}
  {reader : Reader}

theorem inProgressFind_of_mem (xids : List Nat) (hsorted : xids.Pairwise (· ≤ ·))
    (hmem : distribXid ∈ xids) : inProgressFind distribXid xids = true := by
  induction xids with
  | nil => cases hmem
  | cons xid rest ih =>
    rw [pairwise_cons] at hsorted
    rw [inProgressFind]
    by_cases heq : distribXid = xid
    · rw [if_pos heq]
    · have hrest : distribXid ∈ rest := (mem_cons.mp hmem).resolve_left heq
      have hle := hsorted.1 distribXid hrest
      rw [if_neg heq, if_neg (not_lt_of_ge hle)]
      exact ih hsorted.2 hrest

/-- A distributed xid that the snapshot counts as running is in progress for
the comparison. -/
theorem testDistribXid_running (h : Covers taken)
    {dslm : DistributedSnapshotWithLocalMapping} (hds : dslm.ds = taken.ds)
    (hvalid : distribXid ≠ 0) (howner : distribXid ≠ taken.owner)
    (hrunning : distribXid ∉ taken.ended) (localXid : Nat) (isVacuumCheck : Bool) :
    (testDistribXid dslm localXid distribXid isVacuumCheck).1 = .inProgress := by
  have hxminAll := h.xminAll
  rcases h.running distribXid hvalid howner hrunning with ⟨hxmin, hlisted⟩
  unfold testDistribXid
  rw [hds, if_neg (by omega : ¬distribXid < taken.ds.xminAllDistributedSnapshots)]
  cases isVacuumCheck with
  | true => rfl
  | false =>
    rw [if_neg Bool.false_ne_true, if_neg (not_lt_of_ge hxmin)]
    by_cases hxmax : taken.ds.xmax < distribXid
    · rw [if_pos hxmax]
    · have hmem := hlisted.resolve_left hxmax
      rw [if_neg hxmax, if_pos (inProgressFind_of_mem _ h.sorted hmem)]

theorem LocalDistribXactCache.committedFind_mem {cache : LocalDistribXactCache}
    (hfind : (cache.committedFind localXid).1 = some found) :
    (localXid, found) ∈ cache.entries := by
  unfold LocalDistribXactCache.committedFind at hfind
  split at hfind
  · cases hfind
  · split at hfind
    case h_1 entry hentry =>
      cases hfind
      have hkey := find?_some hentry
      rw [decide_eq_true_eq] at hkey
      rw [← hkey]
      exact mem_of_find?_eq_some hentry
    case h_2 => cases hfind

theorem LocalDistribXactCache.committedFind_subset (cache : LocalDistribXactCache)
    (localXid : Nat) : (cache.committedFind localXid).2.entries ⊆ cache.entries := by
  unfold LocalDistribXactCache.committedFind
  split
  · exact List.Subset.refl _
  · split
    case h_1 entry hfind =>
      intro other hmem
      rcases mem_cons.mp hmem with rfl | hrest
      · exact mem_of_find?_eq_some hfind
      · exact mem_of_mem_filter hrest
    case h_2 => exact List.Subset.refl _

theorem LocalDistribXactCache.addCommitted_subset (cache : LocalDistribXactCache)
    (localXid distribXid : Nat) :
    (cache.addCommitted localXid distribXid).entries ⊆ (localXid, distribXid) :: cache.entries := by
  unfold LocalDistribXactCache.addCommitted
  split
  · exact subset_cons_self _ _
  · apply cons_subset_cons
    split
    · exact dropLast_subset _
    · exact List.Subset.refl _

/-- The cache repeats what the distributed log says of this start of the DTM. -/
def CacheCoherent (distributedLog : Nat → Option (Nat × Nat))
    (distribTimeStamp : Nat) (cache : LocalDistribXactCache) : Prop :=
  ∀ entry ∈ cache.entries, ∀ distribXid,
    distributedLog entry.1 = some (distribTimeStamp, distribXid) → entry.2 = distribXid

variable {distributedLog : Nat → Option (Nat × Nat)} {distribTimeStamp : Nat}
  {cache : LocalDistribXactCache}

section

variable (h : CacheCoherent distributedLog distribTimeStamp cache)

include h

theorem CacheCoherent.committedFind (localXid : Nat) :
    CacheCoherent distributedLog distribTimeStamp (cache.committedFind localXid).2 :=
  fun entry hmem => h entry (cache.committedFind_subset localXid hmem)

theorem CacheCoherent.hit (hfind : (cache.committedFind localXid).1 = some found)
    (hlog : distributedLog localXid = some (distribTimeStamp, distribXid)) : found = distribXid :=
  h _ (LocalDistribXactCache.committedFind_mem hfind) distribXid hlog

theorem CacheCoherent.addCommitted (hlog : ∀ distribXid, distributedLog localXid =
      some (distribTimeStamp, distribXid) → found = distribXid) :
    CacheCoherent distributedLog distribTimeStamp (cache.addCommitted localXid found) := by
  intro entry hmem
  rcases mem_cons.mp (cache.addCommitted_subset localXid found hmem) with rfl | hkept
  · exact hlog
  · exact h entry hkept

end

theorem testDistribXid_ds (dslm : DistributedSnapshotWithLocalMapping)
    (localXid distribXid : Nat) (isVacuumCheck : Bool) :
    (testDistribXid dslm localXid distribXid isVacuumCheck).2.ds = dslm.ds := by
  unfold testDistribXid rememberInProgress
  repeat' split
  all_goals rfl

/-- What holds of a reader between two tests against a snapshot. -/
structure Reading (distributedLog : Nat → Option (Nat × Nat))
    (ds : DistributedSnapshot) (reader : Reader) : Prop where
  snapshot : reader.dslm.ds = ds
  cache : CacheCoherent distributedLog ds.distribTransactionTimeStamp reader.cache

theorem committedTest_reading (h : Reading distributedLog ds reader) (localXid : Nat)
    (isVacuumCheck : Bool) :
    Reading distributedLog ds (committedTest distributedLog reader localXid isVacuumCheck).2 := by
  have hcache := h.cache.committedFind localXid
  have hcompared := fun distribXid => Eq.trans
    (testDistribXid_ds reader.dslm localXid distribXid isVacuumCheck) h.snapshot
  unfold committedTest
  split
  · exact h
  · split
    · exact h
    · split
      case h_1 distribXid found hfind =>
        rw [hfind] at hcache
        split
        · exact ⟨h.snapshot, hcache⟩
        · exact ⟨hcompared distribXid, hcache⟩
      case h_2 found hfind =>
        rw [hfind] at hcache
        split
        case h_1 checkDistribTimeStamp distribXid hlog =>
          split
          · exact ⟨h.snapshot, hcache⟩
          · refine ⟨hcompared distribXid, hcache.addCommitted ?_⟩
            intro other hother
            rw [hlog] at hother
            cases hother
            rfl
        case h_2 hlog =>
          refine ⟨h.snapshot, hcache.addCommitted ?_⟩
          intro other hother
          rw [hlog] at hother
          cases hother

/-- A transaction that the snapshot counts as running is in progress for every
reader. -/
theorem committedTest_running (hcovers : Covers taken) (h : Reading distributedLog taken.ds reader)
    (hnormal : transactionIdIsNormal localXid) (hlog : distributedLog localXid =
      some (taken.ds.distribTransactionTimeStamp, distribXid))
    (hvalid : distribXid ≠ 0) (howner : distribXid ≠ taken.owner)
    (hrunning : distribXid ∉ taken.ended) (isVacuumCheck : Bool) :
    (committedTest distributedLog reader localXid isVacuumCheck).1 = .inProgress := by
  have hcompared := testDistribXid_running hcovers h.snapshot hvalid howner
    hrunning localXid isVacuumCheck
  unfold committedTest
  rw [hnormal, hlog]
  dsimp only
  split
  case isTrue hnot => cases hnot
  case isFalse =>
    split
    case isTrue => rfl
    case isFalse =>
      split
      case h_1 found cache hfind =>
        have hfound : found = distribXid := h.cache.hit (congrArg Prod.fst hfind) hlog
        rw [hfound, if_neg hvalid]
        exact hcompared
      case h_2 cache hfind =>
        rw [h.snapshot, if_neg (not_not_intro rfl)]
        exact hcompared

/-- A series of tests against one snapshot. -/
def committedTests (distributedLog : Nat → Option (Nat × Nat)) (reader : Reader)
    (tests : List (Nat × Bool)) : Reader :=
  tests.foldl (fun reader test =>
    (committedTest distributedLog reader test.1 test.2).2) reader

theorem committedTests_reading (tests : List (Nat × Bool)) :
    ∀ {reader : Reader}, Reading distributedLog ds reader →
      Reading distributedLog ds (committedTests distributedLog reader tests) := by
  induction tests with
  | nil => exact fun h => h
  | cons test rest ih =>
    intro reader h
    exact ih (committedTest_reading h test.1 test.2)

/-- In every run whose snapshots are taken while all generated ids are
published, a test against a snapshot shows another distributed transaction's
local xid as committed only if that transaction had ended before. -/
theorem run_isolated (cfg : Config) (backends : Nat) (actions : List Action)
    {world : World} (hrun : run cfg (World.initial backends) actions = some world)
    (hquiet : SnapshotsPublished cfg (World.initial backends) actions)
    {taken : Taken} (htaken : taken ∈ world.snapshots) {reader : Reader}
    (hreading : Reading distributedLog taken.ds reader)
    (tests : List (Nat × Bool)) {localXid gxid : Nat} (hnormal : transactionIdIsNormal localXid)
    (hlog : distributedLog localXid = some (taken.ds.distribTransactionTimeStamp, gxid))
    (hvalid : gxid ≠ 0) (howner : gxid ≠ taken.owner) (isVacuumCheck : Bool)
    (hresult : (committedTest distributedLog
      (committedTests distributedLog reader tests) localXid isVacuumCheck).1 ∈
        [DistributedSnapshotCommitted.visible, .ignore]) : gxid ∈ taken.ended := by
  have hcovers := (run_inv actions (initial_inv backends) hquiet hrun).snapshots taken htaken
  by_contra hrunning
  rw [committedTest_running hcovers (committedTests_reading tests hreading)
    hnormal hlog hvalid howner hrunning] at hresult
  simp at hresult

end

namespace DtmIsolationWitness

def config : Config := ⟨5, 4⟩

/-- Local xid 100 committed for distributed xid 3. -/
def distributedLog (localXid : Nat) : Option (Nat × Nat) :=
  if localXid = 100 then some (5, 3) else none

def readerOf (ds : DistributedSnapshot) : Reader := ⟨⟨ds, 0, 0, 4, []⟩, ⟨8, []⟩⟩

/-- Backend 1 publishes and ends before backend 0 takes its snapshot. -/
def orderly : List Action :=
  [.generateGID 0, .setCurrentGxact 0, .generateGID 1, .setCurrentGxact 1,
    .procArrayEndGxact 1, .createDistributedSnapshot 0]

def orderlyTaken : Taken := ⟨⟨5, 2, 1, 2, 3, []⟩, 2, [1, 3]⟩

def orderlyWorld : World :=
  ⟨3, 1, [⟨⟨2, 2⟩, none⟩, ⟨initGxact, none⟩], [1, 3], [orderlyTaken]⟩

theorem orderly_reading : Reading distributedLog orderlyTaken.ds (readerOf orderlyTaken.ds) :=
  ⟨rfl, fun entry hmem => by cases hmem⟩

theorem orderly_isolated :
    run config (World.initial 2) orderly = some orderlyWorld ∧ 3 ∈ orderlyTaken.ended :=
  ⟨by decide, run_isolated config 2 orderly (by decide : _ = some orderlyWorld)
    (by decide) (by decide : orderlyTaken ∈ orderlyWorld.snapshots)
    orderly_reading [] (by decide)
    (rfl : distributedLog 100 = some (orderlyTaken.ds.distribTransactionTimeStamp, 3))
    (by decide) (by decide) false (by decide)⟩

/-- Backend 1 has generated its id and has not published it when backend 0
takes its snapshot: the snapshot does not count it as running. -/
def raced : List Action :=
  [.generateGID 0, .setCurrentGxact 0, .generateGID 1,
    .createDistributedSnapshot 0, .setCurrentGxact 1, .procArrayEndGxact 1]

theorem raced_visible : ∃ world, run config (World.initial 2) raced = some world ∧
      ∃ taken ∈ world.snapshots, 3 ≠ taken.owner ∧ 3 ∉ taken.ended ∧
        (committedTest distributedLog (readerOf taken.ds) 100 false).1 = .visible :=
  ⟨⟨3, 1, [⟨⟨2, 2⟩, none⟩, ⟨initGxact, none⟩], [1, 3], [⟨⟨5, 2, 1, 2, 3, []⟩, 2, [1]⟩]⟩,
    by decide, _, mem_cons_self, by decide, by decide, by decide⟩

end DtmIsolationWitness

end Greenplum.DtmSnapshot
