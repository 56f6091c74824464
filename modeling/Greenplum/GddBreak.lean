/-
What `GddCtxBreakDeadLock` cancels.  Every round removes one vert and reduces
again, so the edges left are always the largest mutually supporting part of the
reported edges that avoids the cancelled verts.  A round makes progress when
the vert it picks still has edges; the pick starts from 0 while ids of 2^31 and
more are negative numbers, and the loop ends exactly when the transactions with
such ids are in no deadlock of their own.
-/
import Greenplum.GddReduce

namespace Greenplum.Gdd

open List

/-- The vert is one of the two ends of the edge. -/
abbrev WaitEdge.touches (edge : WaitEdge) (vid : Int) : Prop :=
  edge.waiter = vid ∨ edge.holder = vid

section

variable {ctx : GddCtx} {live : Finset GddEdge}

theorem gddGraphRemoveVid_linked (h : ctx.Linked live) (segid vid : Int) :
    (gddGraphRemoveVid ctx segid vid).Linked (live.filter fun edge =>
        ¬ (edge.segid = segid ∧ edge.toWaitEdge.touches vid)) ∧
      (gddGraphRemoveVid ctx segid vid).graphs.keys = ctx.graphs.keys := by
  rw [gddGraphRemoveVid]
  cases hfind : (ctx.vertKeys segid).findIdx? (fun id => id = vid) with
  | none =>
    have habsent : vid ∉ ctx.vertKeys segid := by
      intro hmem
      have hnot := findIdx?_eq_none_iff.mp hfind vid hmem
      simp at hnot
    have hall : (live.filter fun edge =>
        ¬ (edge.segid = segid ∧ edge.toWaitEdge.touches vid)) = live := by
      apply Finset.filter_true_of_mem
      rintro edge hedge ⟨hseg, hfrom | hto⟩
      · exact (h.ends_ne habsent edge hedge hseg).1 hfrom
      · exact (h.ends_ne habsent edge hedge hseg).2 hto
    exact ⟨hall.symm ▸ h, rfl⟩
  | some pos =>
    obtain ⟨batch, hunlinked, hbatch⟩ := gddVertUnlinkAll_unlinked h segid vid
    have hrest : live \ batch.toFinset = live.filter fun edge =>
        ¬ (edge.segid = segid ∧ edge.toWaitEdge.touches vid) := by
      ext edge
      rw [Finset.mem_sdiff, Finset.mem_filter, mem_toFinset, hbatch]
      tauto
    have hlinked := hunlinked.linked
    rw [hrest] at hlinked
    -- the array is cut at the place where the scan found the vert
    obtain ⟨hpos, hat, -⟩ := findIdx?_eq_some_iff_getElem.mp hfind
    have hkeys : (gddVertUnlinkAll ctx segid vid).1.vertKeys segid =
        (ctx.vertKeys segid).take pos ++ vid :: (ctx.vertKeys segid).drop (pos + 1) := by
      rw [hunlinked.vertKeys, ← of_decide_eq_true hat, getElem_cons_drop, take_append_drop]
    have hfree : (∀ edge ∈ live.filter fun edge =>
        ¬ (edge.segid = segid ∧ edge.toWaitEdge.touches vid),
        edge.segid = segid → edge.fromVid ≠ vid ∧ edge.toVid ≠ vid) := by
      intro edge hedge hseg
      have hnot := (Finset.mem_filter.mp hedge).2
      exact ⟨fun hfrom => hnot ⟨hseg, .inl hfrom⟩, fun hto => hnot ⟨hseg, .inr hto⟩⟩
    have hnil := hlinked.edges_eq_nil hfree
    have hdeleted := deleteVert_linked hlinked hkeys (by rw [gddVertGetInDegree, hnil.2]; rfl)
      (by rw [gddVertGetOutDegree, hnil.1]; rfl)
    rw [length_take, min_eq_left (le_of_lt hpos)] at hdeleted
    exact ⟨hdeleted, hunlinked.graphKeys⟩

theorem foldl_gddGraphRemoveVid_linked (vid : Int) (segids : List Int) :
    ∀ (ctx : GddCtx) (live : Finset GddEdge), ctx.Linked live →
      (segids.foldl (fun ctx segid => gddGraphRemoveVid ctx segid vid)
        ctx).Linked (live.filter fun edge =>
          ¬ (edge.segid ∈ segids ∧ edge.toWaitEdge.touches vid)) := by
  induction segids with
  | nil => simp
  | cons segid segids ih =>
    intro ctx live h
    have hrest := ih _ _ (gddGraphRemoveVid_linked h segid vid).1
    rw [Finset.filter_filter] at hrest
    rw [foldl_cons]
    convert hrest using 2
    rw [mem_cons]
    tauto

theorem gddCtxRemoveVid_linked (h : ctx.Linked live) (vid : Int) :
    (gddCtxRemoveVid ctx vid).Linked (live.filter fun edge => ¬ edge.toWaitEdge.touches vid) := by
  have hlinked := foldl_gddGraphRemoveVid_linked vid ctx.graphs.keys ctx live h
  rw [gddCtxRemoveVid]
  convert hlinked using 1
  apply Finset.filter_congr
  intro edge hedge
  have hseg := (h.placed edge hedge).segid_mem
  tauto

end

section

theorem le_foldl_of_step {α : Type} (f : Int → α → Int)
    (hstep : ∀ best item, best ≤ f best item) (items : List α) :
    ∀ best, best ≤ items.foldl f best := by
  induction items with
  | nil => exact fun best => Int.le_refl best
  | cons item items ih =>
    intro best
    exact Int.le_trans (hstep best item) (ih (f best item))

theorem le_foldl_of_mem {α : Type} (f : Int → α → Int)
    (hstep : ∀ best item, best ≤ f best item) {items : List α} {item : α}
    (hmem : item ∈ items) {bound : Int} (hitem : ∀ best, bound ≤ f best item)
    (best : Int) : bound ≤ items.foldl f best := by
  induction items generalizing best with
  | nil => exact absurd hmem not_mem_nil
  | cons head items ih =>
    rcases mem_cons.mp hmem with rfl | hmem
    · exact Int.le_trans (hitem best) (le_foldl_of_step f hstep items _)
    · exact ih hmem (f best head)

theorem le_raiseMaxVid (ctx : GddCtx) (segid maxvid vid : Int) :
    maxvid ≤ raiseMaxVid ctx segid maxvid vid := by
  rw [raiseMaxVid]
  split
  · exact Int.le_max_left maxvid vid
  · exact Int.le_refl maxvid

variable {ctx : GddCtx} {live : Finset GddEdge}

/-- A vert has edges on a segment exactly when it is an end of a linked edge
there. -/
theorem GddCtx.Linked.degree_ne_zero_iff (h : ctx.Linked live) (segid vid : Int) :
    (gddVertGetInDegree ctx segid vid ≠ 0 ∨ gddVertGetOutDegree ctx segid vid ≠ 0) ↔
      ∃ edge ∈ live, edge.segid = segid ∧ edge.toWaitEdge.touches vid := by
  rw [gddVertGetInDegree, gddVertGetOutDegree, Ne, Ne, length_eq_zero_iff, length_eq_zero_iff]
  constructor
  · rintro (hne | hne)
    · obtain ⟨edge, hedge⟩ := exists_mem_of_ne_nil _ hne
      obtain ⟨hlive, hseg, hto⟩ := (h.into.mem segid vid edge).mp hedge
      exact ⟨edge, hlive, hseg, .inr hto⟩
    · obtain ⟨edge, hedge⟩ := exists_mem_of_ne_nil _ hne
      obtain ⟨hlive, hseg, hfrom⟩ := (h.out.mem segid vid edge).mp hedge
      exact ⟨edge, hlive, hseg, .inl hfrom⟩
  · rintro ⟨edge, hlive, hseg, hfrom | hto⟩
    · right
      exact ne_nil_of_mem ((h.out.mem segid vid edge).mpr ⟨hlive, hseg, hfrom⟩)
    · left
      exact ne_nil_of_mem ((h.into.mem segid vid edge).mpr ⟨hlive, hseg, hto⟩)

theorem gddCtxGetMaxVid_nonneg (ctx : GddCtx) : 0 ≤ gddCtxGetMaxVid ctx := by
  apply le_foldl_of_step
  intro maxvid segid
  exact le_foldl_of_step _ (le_raiseMaxVid ctx segid) _ maxvid

theorem le_gddCtxGetMaxVid (h : ctx.Linked live) {edge : GddEdge}
    (hedge : edge ∈ live) {vid : Int} (htouches : edge.toWaitEdge.touches vid) :
    vid ≤ gddCtxGetMaxVid ctx := by
  have hkey : vid ∈ ctx.vertKeys edge.segid := by
    rcases htouches with rfl | rfl
    · exact (h.placed edge hedge).from_mem
    · exact (h.placed edge hedge).to_mem
  apply le_foldl_of_mem _ _ (h.placed edge hedge).segid_mem
  · apply le_foldl_of_mem _ (le_raiseMaxVid ctx edge.segid) hkey
    intro best
    have hdegree := (h.degree_ne_zero_iff edge.segid vid).mpr ⟨edge, hedge, rfl, htouches⟩
    rw [raiseMaxVid, if_pos hdegree]
    exact Int.le_max_right best vid
  · intro maxvid segid
    exact le_foldl_of_step _ (le_raiseMaxVid ctx segid) _ maxvid

/-- The pick is an end of a linked edge, or it is the 0 it started from. -/
theorem gddCtxGetMaxVid_mem (h : ctx.Linked live) :
    gddCtxGetMaxVid ctx = 0 ∨ ∃ edge ∈ live, edge.toWaitEdge.touches (gddCtxGetMaxVid ctx) := by
  apply List.foldlRecOn (motive := fun maxvid =>
    maxvid = 0 ∨ ∃ edge ∈ live, edge.toWaitEdge.touches maxvid)
  · exact .inl rfl
  · intro maxvid hmax segid _
    apply List.foldlRecOn (motive := fun maxvid =>
      maxvid = 0 ∨ ∃ edge ∈ live, edge.toWaitEdge.touches maxvid)
    · exact hmax
    · intro best hbest vid _
      rw [raiseMaxVid]
      split
      · rename_i hdegree
        obtain ⟨edge, hlive, -, htouches⟩ := (h.degree_ne_zero_iff segid vid).mp hdegree
        rcases max_choice best vid with heq | heq
        · rw [heq]
          exact hbest
        · rw [heq]
          exact .inr ⟨edge, hlive, htouches⟩
      · exact hbest

end

/-- The edges that remain when all the transactions of a list are cancelled. -/
def cancel (vids : List Int) (edges : List WaitEdge) : List WaitEdge :=
  edges.filter fun edge => ∀ vid ∈ vids, ¬ edge.touches vid

variable {vids : List Int} {edges : List WaitEdge} {edge : WaitEdge} {ctx : GddCtx}

theorem mem_cancel :
    edge ∈ cancel vids edges ↔ edge ∈ edges ∧ ∀ vid ∈ vids, ¬ edge.touches vid := by
  rw [cancel, mem_filter, decide_eq_true_iff]

/-- More fuel does not change the result of the reduction, so what it returns
with any fuel is what it returns with enough of it. -/
theorem gddCtxReduce_eq_some {final : GddCtx} {original : Finset GddEdge}
    (h : ctx.Linked original) {fuel : Nat} (hrun : GddCtxReduce fuel ctx = some final) :
    ∃ live, final.Linked live ∧ Pruned original live ∧
      SelfSupporting EdgeSupported (GddEdge.toWaitEdge '' ↑live) := by
  obtain ⟨other, live, henough, hlinked, hpruned, hself⟩ := gddCtxReduce_linked h
  have hother := henough (fuel + (original.card + 2)) (by omega)
  rw [GddCtxReduce, Option.map_eq_some_iff] at hrun hother
  obtain ⟨state, hstate, rfl⟩ := hrun
  obtain ⟨state', hstate', rfl⟩ := hother
  rw [whileLoop_mono (Nat.le_add_right fuel _) hstate] at hstate'
  obtain rfl := Option.some.inj hstate'
  exact ⟨live, hlinked, hpruned, hself⟩

/-- What holds at the head of the loop.  The edges left avoid the cancelled
verts and contain every mutually supporting set of reported edges that avoids
them; after the first round they support each other themselves. -/
structure Breaking (edges : List WaitEdge) (vids : List Int) (ctx : GddCtx)
    (live : Finset GddEdge) : Prop where
  linked : ctx.Linked live
  nodup : vids.Nodup
  remaining : ∀ edge ∈ live, edge.toWaitEdge ∈ cancel vids edges
  kept : ∀ values : Set WaitEdge, (∀ edge ∈ values, edge ∈ cancel vids edges) →
    SelfSupporting EdgeSupported values → values ⊆ GddEdge.toWaitEdge '' ↑live
  stable : vids = [] ∨ SelfSupporting EdgeSupported (GddEdge.toWaitEdge '' ↑live)

section

variable {edges : List WaitEdge} {vids : List Int} {ctx : GddCtx} {live : Finset GddEdge}

/-- Cancelling one more vert and reducing keeps the loop invariant. -/
theorem Breaking.round (h : Breaking edges vids ctx live) {vid : Int}
    (hnew : vid ∉ vids) {next : GddCtx} {live' : Finset GddEdge} (hlinked : next.Linked live')
    (hpruned : Pruned (live.filter fun edge => ¬ edge.toWaitEdge.touches vid) live')
    (hself : SelfSupporting EdgeSupported (GddEdge.toWaitEdge '' ↑live')) :
    Breaking edges (vids ++ [vid]) next live' where
  linked := hlinked
  nodup := nodup_append_new h.nodup hnew
  remaining edge hedge := by
    obtain ⟨hlive, htouches⟩ := Finset.mem_filter.mp (hpruned.subset hedge)
    obtain ⟨hreported, hfree⟩ := mem_cancel.mp (h.remaining edge hlive)
    exact mem_cancel.mpr ⟨hreported, forall_mem_append.mpr
      ⟨hfree, forall_mem_singleton.mpr htouches⟩⟩
  kept values hvalues hsupported := by
    apply hpruned.subset_image edgeSupported_mono _ hsupported
    intro edge hedge
    obtain ⟨hreported, hfree⟩ := mem_cancel.mp (hvalues edge hedge)
    have hbefore : values ⊆ GddEdge.toWaitEdge '' ↑live := by
      apply h.kept values _ hsupported
      intro other hother
      obtain ⟨hother, hfree⟩ := mem_cancel.mp (hvalues other hother)
      exact mem_cancel.mpr ⟨hother, fun v hv => hfree v (mem_append_left _ hv)⟩
    obtain ⟨item, hitem, rfl⟩ := hbefore hedge
    refine ⟨item, Finset.mem_filter.mpr ⟨hitem, ?_⟩, rfl⟩
    exact hfree vid (mem_append_right _ mem_cons_self)
  stable := .inr hself

/-- Mutually supporting edges with negative ends only would be a deadlock among
the verts with negative ids. -/
def NegativeFree (edges : List WaitEdge) : Prop :=
  ∀ live : Finset GddEdge, (∀ edge ∈ live, edge.toWaitEdge ∈ edges) →
    (∀ edge ∈ live, edge.fromVid < 0 ∧ edge.toVid < 0) →
    SelfSupporting EdgeSupported (GddEdge.toWaitEdge '' ↑live) → live = ∅

theorem gddCtxEmpty_iff (h : ctx.Linked live) : GddCtxEmpty ctx = true ↔ live = ∅ := by
  rw [GddCtxEmpty, decide_eq_true_iff, h.top_indeg]
  simp

/-- One round, in a graph that is not empty: either the pick has edges, and
fewer edges are left, or only negative ids are left, and then nothing remains
after the reduction. -/
theorem Breaking.step (hfree : NegativeFree edges)
    (h : Breaking edges vids ctx live) (hne : live ≠ ∅) :
    ∃ (next : GddCtx) (live' : Finset GddEdge), (∀ fuel, live.card + 1 < fuel →
        GddCtxReduce fuel (gddCtxRemoveVid ctx (gddCtxGetMaxVid ctx)) = some next) ∧
      Breaking edges (vids ++ [gddCtxGetMaxVid ctx]) next live' ∧ live'.card < live.card := by
  have hremoved := gddCtxRemoveVid_linked h.linked (gddCtxGetMaxVid ctx)
  obtain ⟨next, live', hrun, hnext, hpruned, hself⟩ := gddCtxReduce_linked hremoved
  have hsub : live' ⊆ live := hpruned.subset.trans (Finset.filter_subset _ _)
  have hfuel : ∀ fuel, live.card + 1 < fuel →
      GddCtxReduce fuel (gddCtxRemoveVid ctx (gddCtxGetMaxVid ctx)) = some next := by
    intro fuel hlt
    apply hrun
    have hcard := Finset.card_filter_le live
      fun edge => ¬ edge.toWaitEdge.touches (gddCtxGetMaxVid ctx)
    omega
  by_cases hpick : ∃ edge ∈ live, edge.toWaitEdge.touches (gddCtxGetMaxVid ctx)
  · obtain ⟨edge, hedge, htouches⟩ := hpick
    have hnew : gddCtxGetMaxVid ctx ∉ vids := fun hmem =>
      (mem_cancel.mp (h.remaining edge hedge)).2 _ hmem htouches
    refine ⟨next, live', hfuel, h.round hnew hnext hpruned hself, ?_⟩
    apply Finset.card_lt_card
    rw [Finset.ssubset_iff_of_subset hsub]
    refine ⟨edge, hedge, ?_⟩
    intro hstill
    exact (Finset.mem_filter.mp (hpruned.subset hstill)).2 htouches
  · -- no linked edge touches the pick, so the pick is the initial 0
    have hzero : gddCtxGetMaxVid ctx = 0 := (gddCtxGetMaxVid_mem h.linked).resolve_right hpick
    have hnegative : ∀ edge ∈ live, edge.fromVid < 0 ∧ edge.toVid < 0 := by
      intro edge hedge
      have hfrom := le_gddCtxGetMaxVid h.linked hedge (.inl rfl)
      have hto := le_gddCtxGetMaxVid h.linked hedge (.inr rfl)
      rw [hzero] at hfrom hto hpick
      have hfrom' : edge.fromVid ≠ 0 := fun heq =>
        hpick ⟨edge, hedge, .inl heq⟩
      have hto' : edge.toVid ≠ 0 := fun heq =>
        hpick ⟨edge, hedge, .inr heq⟩
      exact ⟨lt_of_le_of_ne hfrom hfrom', lt_of_le_of_ne hto hto'⟩
    have hreported : ∀ edge ∈ live, edge.toWaitEdge ∈ edges := fun edge hedge =>
      (mem_cancel.mp (h.remaining edge hedge)).1
    have hgone : live' = ∅ := by
      apply hfree live' _ _ hself
      · exact fun edge hedge => hreported edge (hsub hedge)
      · exact fun edge hedge => hnegative edge (hsub hedge)
    have hfirst : vids = [] := by
      apply h.stable.resolve_right
      intro hstable
      exact hne (hfree live hreported hnegative hstable)
    refine ⟨next, live', hfuel, h.round ?_ hnext hpruned hself, ?_⟩
    · rw [hfirst]
      exact not_mem_nil
    · rw [hgone, Finset.card_empty]
      exact Finset.card_pos.mpr (Finset.nonempty_iff_ne_empty.mpr hne)

/-- The loop ends in an empty graph when no deadlock is made of negative ids
only. -/
theorem Breaking.total (hfree : NegativeFree edges) (h : Breaking edges vids ctx live) :
    ∃ (vids' : List Int) (final : GddCtx), (∀ fuel, live.card + 3 ≤ fuel →
        GddCtxBreakDeadLock fuel ctx vids = some (vids', final)) ∧
      Breaking edges vids' final ∅ := by
  induction hn : live.card using Nat.strong_induction_on generalizing live ctx vids with
  | h n ih =>
    by_cases hempty : live = ∅
    · subst hempty
      refine ⟨vids, ctx, ?_, h⟩
      intro fuel hfuel
      obtain ⟨rest, rfl⟩ := Nat.exists_eq_add_of_le' (Nat.le_of_add_left_le hfuel)
      rw [GddCtxBreakDeadLock, if_pos ((gddCtxEmpty_iff h.linked).mpr rfl)]
    · obtain ⟨next, live', hrun, hnext, hless⟩ := h.step hfree hempty
      obtain ⟨vids', final, hrest, hfinal⟩ := ih live'.card (hn ▸ hless) hnext rfl
      refine ⟨vids', final, ?_, hfinal⟩
      intro fuel hfuel
      obtain ⟨rest, rfl⟩ : ∃ rest, fuel = rest + 1 := ⟨fuel - 1, by omega⟩
      rw [GddCtxBreakDeadLock, if_neg fun hdone => hempty ((gddCtxEmpty_iff h.linked).mp hdone)]
      dsimp only
      rw [hrun rest (by omega), Option.bind_some]
      exact hrest rest (by omega)

/-- Mutually supporting edges between negative ids outlive every round, and the
loop does not end. -/
theorem gddCtxBreakDeadLock_none {values : Set WaitEdge}
    (hne : values.Nonempty) (hself : SelfSupporting EdgeSupported values)
    (hnegative : ∀ edge ∈ values, edge.waiter < 0 ∧ edge.holder < 0) (fuel : Nat) :
    ∀ (ctx : GddCtx) (live : Finset GddEdge) (vids : List Int),
      ctx.Linked live → values ⊆ GddEdge.toWaitEdge '' ↑live →
      GddCtxBreakDeadLock fuel ctx vids = none := by
  induction fuel with
  | zero => exact fun _ _ _ _ _ => rfl
  | succ fuel ih =>
    intro ctx live vids hlinked hvalues
    have hnonempty : ¬ GddCtxEmpty ctx = true := by
      intro hdone
      obtain ⟨value, hvalue⟩ := hne
      obtain ⟨edge, hedge, -⟩ := hvalues hvalue
      rw [(gddCtxEmpty_iff hlinked).mp hdone] at hedge
      exact absurd hedge (Finset.notMem_empty edge)
    rw [GddCtxBreakDeadLock, if_neg hnonempty]
    dsimp only
    cases hreduce : GddCtxReduce fuel (gddCtxRemoveVid ctx (gddCtxGetMaxVid ctx)) with
    | none => rfl
    | some next =>
      have hremoved := gddCtxRemoveVid_linked hlinked (gddCtxGetMaxVid ctx)
      obtain ⟨live', hnext, hpruned, -⟩ := gddCtxReduce_eq_some hremoved hreduce
      apply ih next live' _ hnext
      apply hpruned.subset_image edgeSupported_mono _ hself
      intro value hvalue
      obtain ⟨edge, hedge, rfl⟩ := hvalues hvalue
      refine ⟨edge, Finset.mem_filter.mpr ⟨hedge, ?_⟩, rfl⟩
      have hpick := gddCtxGetMaxVid_nonneg ctx
      have hends := hnegative _ hvalue
      rintro (heq | heq) <;> omega

end

theorem buildWaitGraph_eq (gxids : List (BitVec 32)) (rows : List WaitStatus) :
    buildWaitGraph GddCtxNew gxids rows = addEdges (waitEdges gxids rows) := by
  rw [buildWaitGraph, addEdges, waitEdges]
  generalize GddCtxNew = ctx
  induction rows generalizing ctx with
  | nil => rfl
  | cons row rows ih =>
    by_cases hvalid : row.waiterXid ∈ gxids ∧ row.holderXid ∈ gxids
    · rw [foldl_cons, if_neg (by tauto),
        filter_cons_of_pos (by simpa using hvalid), map_cons, foldl_cons]
      exact ih _
    · rw [foldl_cons, if_pos (by tauto), filter_cons_of_neg (by simpa using hvalid)]
      exact ih ctx

/-- Both transaction ids of the row are 2^31 or more. -/
abbrev WaitStatus.wrapped (row : WaitStatus) : Prop :=
  2 ^ 31 ≤ row.waiterXid.toNat ∧ 2 ^ 31 ≤ row.holderXid.toNat

theorem toInt_neg_iff (xid : BitVec 32) : xid.toInt < 0 ↔ 2 ^ 31 ≤ xid.toNat := by
  rw [BitVec.toInt_eq_toNat_cond]
  split <;> omega

theorem mem_waitEdges_wrapped {gxids : List (BitVec 32)} {rows : List WaitStatus} :
    edge ∈ waitEdges gxids (rows.filter fun row => row.wrapped) ↔
      edge ∈ waitEdges gxids rows ∧ edge.waiter < 0 ∧ edge.holder < 0 := by
  simp only [waitEdges, mem_map, mem_filter, decide_eq_true_iff]
  constructor
  · rintro ⟨row, ⟨⟨hrow, hwaiter, hholder⟩, hvalid⟩, rfl⟩
    exact ⟨⟨row, ⟨hrow, hvalid⟩, rfl⟩, (toInt_neg_iff _).mpr hwaiter, (toInt_neg_iff _).mpr hholder⟩
  · rintro ⟨⟨row, ⟨hrow, hvalid⟩, rfl⟩, hwaiter, hholder⟩
    exact ⟨row, ⟨⟨hrow, (toInt_neg_iff _).mp hwaiter, (toInt_neg_iff _).mp hholder⟩, hvalid⟩, rfl⟩

/-- A new context that the edges are added to links each of them, and a part of
the edges is carried by it exactly when it was added. -/
theorem addEdges_image (edges : List WaitEdge) : ∃ original, (addEdges edges).Linked original ∧
      GddEdge.toWaitEdge '' ↑original = { edge | edge ∈ edges } := by
  obtain ⟨original, hlinked, hvalues⟩ := addEdges_linked edges
  refine ⟨original, hlinked, ?_⟩
  ext edge
  rw [Set.mem_ofPred_eq, ← Multiset.mem_coe, ← hvalues, Multiset.mem_map]
  rfl

/-- No transaction is cancelled at the start of the loop, neither in the context
as it was built nor after it was reduced. -/
theorem breaking_start (hctx : ctx = addEdges edges ∨
      ∃ fuel, GddCtxReduce fuel (addEdges edges) = some ctx) :
    ∃ live, Breaking edges [] ctx live := by
  obtain ⟨original, hlinked, himage⟩ := addEdges_image edges
  have hpruned : ∃ live, ctx.Linked live ∧ Pruned original live := by
    rcases hctx with rfl | ⟨fuel, hrun⟩
    · exact ⟨original, hlinked, Prunes.refl original⟩
    · obtain ⟨live, hlive, hpruned, -⟩ := gddCtxReduce_eq_some hlinked hrun
      exact ⟨live, hlive, hpruned⟩
  obtain ⟨live, hlive, hpruned⟩ := hpruned
  refine ⟨live, hlive, nodup_nil, ?_, ?_, .inl rfl⟩
  · intro edge hedge
    have hadded : edge.toWaitEdge ∈ { edge | edge ∈ edges } :=
      himage ▸ ⟨edge, hpruned.subset hedge, rfl⟩
    exact mem_cancel.mpr ⟨hadded, fun _ hnil => absurd hnil not_mem_nil⟩
  · intro values hvalues hself
    apply hpruned.subset_image edgeSupported_mono _ hself
    rw [himage]
    exact fun edge hedge => (mem_cancel.mp (hvalues edge hedge)).1

theorem DeadlockWalk.subset {n : Nat} {walk : Fin (n + 1) → WaitEdge}
    (h : DeadlockWalk edges n walk) : ∀ edge ∈ Set.range walk, edge ∈ edges := by
  rintro _ ⟨i, rfl⟩
  exact h.reported i

/-- An empty graph at the end of the loop means that nothing of the reported
edges survives without the cancelled transactions. -/
theorem Breaking.cancel_reduces (h : Breaking edges vids ctx ∅) :
    ∃ rest, (∃ enough, ∀ fuel, enough ≤ fuel →
        GddCtxReduce fuel (addEdges (cancel vids edges)) = some rest) ∧
      GddCtxEmpty rest = true := by
  obtain ⟨original, hlinked, himage⟩ := addEdges_image (cancel vids edges)
  obtain ⟨rest, live, hrun, hrest, hpruned, hself⟩ := gddCtxReduce_linked hlinked
  refine ⟨rest, ⟨original.card + 2, fun fuel hfuel => hrun fuel hfuel⟩, ?_⟩
  have hnone : GddEdge.toWaitEdge '' ↑live ⊆ GddEdge.toWaitEdge '' ↑(∅ : Finset GddEdge) := by
    apply h.kept _ _ hself
    rintro _ ⟨edge, hedge, rfl⟩
    have hadded : edge.toWaitEdge ∈ { edge | edge ∈ cancel vids edges } :=
      himage ▸ ⟨edge, hpruned.subset hedge, rfl⟩
    exact hadded
  rw [gddCtxEmpty_iff hrest]
  simpa using hnone

/-- Breaking the deadlocks ends, cancels nobody twice and leaves nothing that
the reduction of the remaining edges would keep, exactly when the transactions
whose ids are 2^31 or more are in no deadlock among themselves. -/
theorem gddCtxBreakDeadLock_iff (gxids : List (BitVec 32)) (rows : List WaitStatus) (ctx : GddCtx)
    (hctx : ctx = buildWaitGraph GddCtxNew gxids rows ∨
      ∃ fuel, GddCtxReduce fuel (buildWaitGraph GddCtxNew gxids rows) = some ctx) :
    (∃ (vids : List Int) (final rest : GddCtx), (∃ enough, ∀ fuel, enough ≤ fuel →
          GddCtxBreakDeadLock fuel ctx [] = some (vids, final)) ∧ vids.Nodup ∧
        (∃ enough, ∀ fuel, enough ≤ fuel →
          GddCtxReduce fuel (addEdges (cancel vids (waitEdges gxids rows))) = some rest) ∧
        GddCtxEmpty rest = true) ↔ ¬ ∃ (n : Nat) (walk : Fin (n + 1) → WaitEdge), DeadlockWalk
        (waitEdges gxids (rows.filter fun row => row.wrapped)) n walk := by
  rw [buildWaitGraph_eq] at hctx
  obtain ⟨live, hstart⟩ := breaking_start hctx
  constructor
  · rintro ⟨vids, final, -, ⟨enough, hrun⟩, -⟩ ⟨n, walk, hwalk⟩
    have hnone := gddCtxBreakDeadLock_none (Set.range_nonempty walk) hwalk.selfSupporting
      (fun edge hedge => (mem_waitEdges_wrapped.mp (hwalk.subset edge hedge)).2)
      enough ctx live [] hstart.linked
      (hstart.kept _ (fun edge hedge => mem_cancel.mpr
        ⟨(mem_waitEdges_wrapped.mp (hwalk.subset edge hedge)).1,
          fun _ hnil => absurd hnil not_mem_nil⟩) hwalk.selfSupporting)
    rw [hrun enough (le_refl enough)] at hnone
    exact absurd hnone (Option.some_ne_none _)
  · intro hno
    have hfree : NegativeFree (waitEdges gxids rows) := by
      intro part hreported hnegative hself
      by_contra hne
      apply hno
      apply exists_deadlockWalk hself _ (Finset.nonempty_iff_ne_empty.mpr hne)
      intro edge hedge
      exact mem_waitEdges_wrapped.mpr ⟨hreported edge hedge, hnegative edge hedge⟩
    obtain ⟨vids, final, hrun, hfinal⟩ := hstart.total hfree
    obtain ⟨rest, hreduce, hempty⟩ := hfinal.cancel_reduces
    exact ⟨vids, final, rest, ⟨_, hrun⟩, hfinal.nodup, hreduce, hempty⟩

namespace GddBreakWitness

/-- Two pairs of transactions waiting for each other, both old enough to have
ids below 2^31. -/
def rows : List WaitStatus :=
  [⟨0, 1, 2, true⟩, ⟨1, 2, 1, true⟩, ⟨0, 7, 4, true⟩, ⟨1, 4, 7, true⟩]

theorem rows_break : ∃ (vids : List Int) (final : GddCtx) (enough : Nat), (∀ fuel, enough ≤ fuel →
      GddCtxBreakDeadLock fuel (buildWaitGraph GddCtxNew [1, 2, 4, 7] rows) [] =
        some (vids, final)) ∧ vids.Nodup := by
  have hbreak := gddCtxBreakDeadLock_iff [1, 2, 4, 7] rows _ (.inl rfl)
  obtain ⟨vids, final, -, ⟨enough, hrun⟩, hnodup, -⟩ := hbreak.mpr (by
    rintro ⟨n, walk, hwalk⟩
    exact absurd (hwalk.reported 0) not_mem_nil)
  exact ⟨vids, final, enough, hrun, hnodup⟩

/-- Two transactions with the ids 2^31 and 2^31 + 1 waiting for each other. -/
def wrappedRows : List WaitStatus :=
  [⟨0, 0x80000000, 0x80000001, true⟩, ⟨1, 0x80000001, 0x80000000, true⟩]

/-- The detector finds the deadlock and never gets out of breaking it: it picks
0 in every round, which no vert has as its id. -/
theorem wrappedRows_never_break : ∃ ctx, GddCtxReduce 5 (buildWaitGraph GddCtxNew
        [0x80000000, 0x80000001] wrappedRows) = some ctx ∧ gddCtxGetMaxVid ctx = 0 ∧
      ∀ fuel, GddCtxBreakDeadLock fuel ctx [] = none := by
  have hpick : (GddCtxReduce 5 (buildWaitGraph GddCtxNew
      [0x80000000, 0x80000001] wrappedRows)).map gddCtxGetMaxVid = some 0 := by
    decide
  obtain ⟨ctx, hrun, hmax⟩ := Option.map_eq_some_iff.mp hpick
  refine ⟨ctx, hrun, hmax, ?_⟩
  intro fuel
  rw [buildWaitGraph_eq] at hrun
  obtain ⟨live, hstart⟩ := breaking_start (.inr ⟨5, hrun⟩)
  have hedges : waitEdges [0x80000000, 0x80000001] wrappedRows =
      [⟨0, -2147483648, -2147483647, true⟩, ⟨1, -2147483647, -2147483648, true⟩] := by decide
  have hself : SelfSupporting EdgeSupported
      { edge | edge ∈ waitEdges [0x80000000, 0x80000001] wrappedRows } := by
    rw [hedges]
    simp [SelfSupporting, EdgeSupported]
  apply gddCtxBreakDeadLock_none _ hself _ fuel ctx live [] hstart.linked
  · apply hstart.kept _ _ hself
    exact fun edge hedge => mem_cancel.mpr ⟨hedge, fun _ hnil => absurd hnil not_mem_nil⟩
  · exact ⟨⟨0, -2147483648, -2147483647, true⟩, mem_cons_self⟩
  · rw [hedges]
    simp

end GddBreakWitness

end Greenplum.Gdd
