/-
Whom `GddCtxBreakDeadLock` cancels.  A vert that a reduction leaves has edges into
it and out of it, and so has every vert it can be followed to, in both directions.
It need not be on a cycle of waits itself: it may lie on a way from one cycle to
another.
-/
import Greenplum.GddReachable
import Mathlib.Data.Set.Finite.Basic
import Mathlib.Order.WellFounded

namespace Greenplum

open List

/-- In a finite set that every element can be left from to another element, each
element leads to one that is on a cycle. -/
theorem exists_cycle_of_forall_exists {α : Type} {step : α → α → Prop} {items : Set α}
    (hfinite : items.Finite) (hnext : ∀ item ∈ items, ∃ next ∈ items, step item next)
    {first : α} (hfirst : first ∈ items) :
    ∃ last, Relation.ReflTransGen step first last ∧ Relation.TransGen step last last := by
  by_contra hnone
  push Not at hnone
  -- the elements that can be reached would be ordered by the steps between them
  let reached : Set α := { item | item ∈ items ∧ Relation.ReflTransGen step first item }
  have hreached : Finite reached := (hfinite.subset fun _ hitem => hitem.1).to_subtype
  let after (later earlier : reached) : Prop := Relation.TransGen step earlier.1 later.1
  have hirrefl : Std.Irrefl after := ⟨fun item hcycle => hnone item.1 item.2.2 hcycle⟩
  have hwf : WellFounded after := Finite.wellFounded_of_trans_of_irrefl after
  obtain ⟨last, -, hlast⟩ := hwf.has_min Set.univ ⟨⟨first, hfirst, .refl⟩, trivial⟩
  obtain ⟨next, hitem, hstep⟩ := hnext last.1 last.2.1
  exact hlast ⟨next, hitem, last.2.2.tail hstep⟩ trivial (.single hstep)

namespace Gdd

variable (edges : List WaitEdge)

/-- An edge of one of the local graphs leads from the first vert to the second. -/
def WaitsFor (waiter holder : Int) : Prop :=
  ∃ edge ∈ edges, edge.waiter = waiter ∧ edge.holder = holder

def OnCycle (vid : Int) : Prop :=
  Relation.TransGen (WaitsFor edges) vid vid

/-- The vert lies on a way of waits from a cycle to a cycle. -/
def BetweenCycles (vid : Int) : Prop :=
  ∃ first last, OnCycle edges first ∧ Relation.ReflTransGen (WaitsFor edges) first vid ∧
    Relation.ReflTransGen (WaitsFor edges) vid last ∧ OnCycle edges last

/-- The verts that still have edges. -/
def vids : Set Int :=
  { vid | ∃ edge ∈ edges, edge.touches vid }

theorem vids_finite : (vids edges).Finite := by
  apply (edges.flatMap fun edge => [edge.waiter, edge.holder]).toFinset.finite_toSet.subset
  rintro vid ⟨edge, hedge, htouches⟩
  rw [Finset.mem_coe, mem_toFinset, mem_flatMap]
  refine ⟨edge, hedge, ?_⟩
  rcases htouches with rfl | rfl <;> simp

/-- Mutually supporting edges lead into and out of every vert they touch. -/
theorem betweenCycles_of_selfSupporting {edges : List WaitEdge}
    (hself : SelfSupporting EdgeSupported { edge | edge ∈ edges }) {vid : Int}
    (hvid : vid ∈ vids edges) : BetweenCycles edges vid := by
  have hout : ∀ item ∈ vids edges, ∃ next ∈ vids edges, WaitsFor edges item next := by
    rintro item ⟨edge, hedge, rfl | rfl⟩
    · exact ⟨edge.holder, ⟨edge, hedge, .inr rfl⟩, edge, hedge, rfl, rfl⟩
    · obtain ⟨-, ⟨out, hmem, heq⟩, -⟩ := hself edge hedge
      exact ⟨out.holder, ⟨out, hmem, .inr rfl⟩, out, hmem, heq, rfl⟩
  have hin : ∀ item ∈ vids edges, ∃ next ∈ vids edges,
      Function.swap (WaitsFor edges) item next := by
    rintro item ⟨edge, hedge, rfl | rfl⟩
    · obtain ⟨⟨into, hmem, heq⟩, -⟩ := hself edge hedge
      exact ⟨into.waiter, ⟨into, hmem, .inl rfl⟩, into, hmem, rfl, heq⟩
    · exact ⟨edge.waiter, ⟨edge, hedge, .inl rfl⟩, edge, hedge, rfl, rfl⟩
  obtain ⟨last, hlast, hlastCycle⟩ := exists_cycle_of_forall_exists (vids_finite edges) hout hvid
  obtain ⟨first, hfirst, hfirstCycle⟩ := exists_cycle_of_forall_exists (vids_finite edges) hin hvid
  exact ⟨first, last, Relation.transGen_swap.mp hfirstCycle,
    Relation.reflTransGen_swap.mp hfirst, hlast, hlastCycle⟩

/-- The rounds of `GddCtxBreakDeadLock`: the context at the head of the loop and the
vid that is put in the list. -/
def breakRounds : Nat → GddCtx → List (GddCtx × Int)
  | 0, _ => []
  | fuel + 1, ctx =>
    if GddCtxEmpty ctx then []
    else
      let maxvid := gddCtxGetMaxVid ctx
      (ctx, maxvid) ::
        match GddCtxReduce fuel (gddCtxRemoveVid ctx maxvid) with
        | none => []
        | some ctx => breakRounds fuel ctx

theorem gddCtxBreakDeadLock_rounds (fuel : Nat) : ∀ (ctx final : GddCtx) (vids vids' : List Int),
      GddCtxBreakDeadLock fuel ctx vids = some (vids', final) →
      vids' = vids ++ (breakRounds fuel ctx).map Prod.snd := by
  induction fuel with
  | zero =>
    intro ctx final vids vids' hrun
    exact absurd hrun (Option.some_ne_none _).symm
  | succ fuel ih =>
    intro ctx final vids vids' hrun
    rw [GddCtxBreakDeadLock] at hrun
    rw [breakRounds]
    split at hrun
    · rename_i hempty
      rw [if_pos hempty, map_nil, append_nil]
      exact (congrArg Prod.fst (Option.some.inj hrun)).symm
    · rename_i hnonempty
      rw [if_neg hnonempty]
      obtain ⟨next, hreduce, hrest⟩ := Option.bind_eq_some_iff.mp hrun
      dsimp only
      rw [hreduce, ih next final _ vids' hrest]
      simp

section

variable {ctx : GddCtx} {live : Finset GddEdge}

theorem GddCtx.Linked.mem_outEdges (h : ctx.Linked live) (value : WaitEdge) :
    value ∈ ctx.outEdges ↔ ∃ edge ∈ live, edge.toWaitEdge = value := by
  rw [← Multiset.mem_coe, h.outEdges_eq, Multiset.mem_map]
  rfl

section

variable (h : ctx.Linked live) (hself : SelfSupporting EdgeSupported (GddEdge.toWaitEdge '' ↑live))

include h hself

theorem GddCtx.Linked.outEdges_selfSupporting :
    SelfSupporting EdgeSupported { edge | edge ∈ ctx.outEdges } := by
  have himage : { edge | edge ∈ ctx.outEdges } = GddEdge.toWaitEdge '' ↑live := by
    ext value
    exact h.mem_outEdges value
  rw [himage]
  exact hself

/-- The vid of a round lies between cycles, or it is the 0 that the search for the
largest vid starts with, and only vids below it have edges. -/
def ChosenWell (round : GddCtx × Int) : Prop :=
  BetweenCycles round.1.outEdges round.2 ∨
    round.2 = 0 ∧ ∀ edge ∈ round.1.outEdges, edge.waiter < 0 ∧ edge.holder < 0

theorem chosenWell_of_linked : ChosenWell (ctx, gddCtxGetMaxVid ctx) := by
  by_cases hpick : ∃ edge ∈ live, edge.toWaitEdge.touches (gddCtxGetMaxVid ctx)
  · obtain ⟨edge, hedge, htouches⟩ := hpick
    left
    apply betweenCycles_of_selfSupporting (h.outEdges_selfSupporting hself)
    exact ⟨edge.toWaitEdge, (h.mem_outEdges _).mpr ⟨edge, hedge, rfl⟩, htouches⟩
  · have hzero : gddCtxGetMaxVid ctx = 0 := (gddCtxGetMaxVid_mem h).resolve_right hpick
    refine .inr ⟨hzero, ?_⟩
    intro value hvalue
    obtain ⟨edge, hedge, rfl⟩ := (h.mem_outEdges value).mp hvalue
    have hfrom := le_gddCtxGetMaxVid h hedge (.inl rfl)
    have hto := le_gddCtxGetMaxVid h hedge (.inr rfl)
    rw [hzero] at hfrom hto hpick
    exact ⟨lt_of_le_of_ne hfrom fun heq => hpick ⟨edge, hedge, .inl heq⟩,
      lt_of_le_of_ne hto fun heq => hpick ⟨edge, hedge, .inr heq⟩⟩

end

theorem breakRounds_chosenWell (fuel : Nat) :
    ∀ (ctx : GddCtx) (live : Finset GddEdge), ctx.Linked live →
      SelfSupporting EdgeSupported (GddEdge.toWaitEdge '' ↑live) →
      ∀ round ∈ breakRounds fuel ctx, ChosenWell round := by
  induction fuel with
  | zero =>
    intro ctx live _ _ round hround
    exact absurd hround not_mem_nil
  | succ fuel ih =>
    intro ctx live hlinked hself round hround
    rw [breakRounds] at hround
    split at hround
    · exact absurd hround not_mem_nil
    · rcases mem_cons.mp hround with rfl | hrest
      · exact chosenWell_of_linked hlinked hself
      · cases hreduce : GddCtxReduce fuel (gddCtxRemoveVid ctx (gddCtxGetMaxVid ctx)) with
        | none =>
          rw [hreduce] at hrest
          exact absurd hrest not_mem_nil
        | some next =>
          rw [hreduce] at hrest
          obtain ⟨live', hnext, -, hself'⟩ := gddCtxReduce_eq_some
            (gddCtxRemoveVid_linked hlinked _) hreduce
          exact ih next live' hnext hself' round hrest

end

/-- Started in a reduced context, breaking deadlocks puts only those vids in its list
that lie on a way from a cycle to a cycle at the moment they are chosen, apart from
the 0 that stands for vids below it. -/
theorem gddCtxBreakDeadLock_chosenWell (built ctx : GddCtx) (hbuilt : Reachable built)
    (reduceFuel : Nat) (hreduced : GddCtxReduce reduceFuel built = some ctx) (fuel : Nat) :
    (∀ round ∈ breakRounds fuel ctx, ChosenWell round) ∧
      ∀ vids final, GddCtxBreakDeadLock fuel ctx [] = some (vids, final) →
        vids = (breakRounds fuel ctx).map Prod.snd := by
  obtain ⟨original, horiginal⟩ := hbuilt.linked
  obtain ⟨live, hlive, -, hself⟩ := gddCtxReduce_eq_some horiginal hreduced
  refine ⟨breakRounds_chosenWell fuel ctx live hlive hself, ?_⟩
  intro vids final hrun
  exact gddCtxBreakDeadLock_rounds fuel ctx final [] vids hrun

theorem reachable_addEdges : Reachable (addEdges edges) := by
  induction edges using List.reverseRecOn with
  | nil => exact Reachable.start
  | append_singleton front last ih =>
    have hadded := ih.addEdge last.segid last.waiter last.holder last.solid
    rw [addEdges, foldl_append, foldl_cons, foldl_nil]
    exact hadded

/-- If all the waits out of a set of verts stay in it, so do the ways. -/
theorem transGen_mem {edges : List WaitEdge} {items : Set Int} {first : Int}
    (hfirst : ∀ holder, WaitsFor edges first holder → holder ∈ items)
    (hitems : ∀ item ∈ items, ∀ holder, WaitsFor edges item holder → holder ∈ items)
    {last : Int} (hway : Relation.TransGen (WaitsFor edges) first last) : last ∈ items := by
  induction hway with
  | single hstep => exact hfirst _ hstep
  | tail _ hstep ih => exact hitems _ ih _ hstep

namespace GddVictimsWitness

/-- Two pairs of transactions wait for each other, and a younger one waits for the
second pair and is waited for by the first. -/
def bridge : List WaitEdge :=
  [⟨0, 1, 2, true⟩, ⟨0, 3, 4, true⟩, ⟨1, 2, 1, true⟩, ⟨1, 4, 3, true⟩,
    ⟨2, 2, 9, true⟩, ⟨2, 9, 3, true⟩]

theorem bridge_chosenWell : ∃ ctx, GddCtxReduce 9 (addEdges bridge) = some ctx ∧
      ∀ round ∈ breakRounds 9 ctx, ChosenWell round := by
  have hsome : (GddCtxReduce 9 (addEdges bridge)).isSome = true := by decide +kernel
  obtain ⟨ctx, hctx⟩ := Option.isSome_iff_exists.mp hsome
  have hchosen := gddCtxBreakDeadLock_chosenWell (addEdges bridge) ctx
    (reachable_addEdges bridge) 9 hctx 9
  exact ⟨ctx, hctx, hchosen.1⟩

/-- Only the second pair is ever waited for by the younger transaction. -/
theorem bridge_not_onCycle : ¬ OnCycle bridge 9 := by
  intro hcycle
  have hmem : (9 : Int) ∈ ({3, 4} : Set Int) := by
    apply transGen_mem _ _ hcycle
    · rintro holder ⟨edge, hedge, hwaiter, rfl⟩
      simp only [bridge, mem_cons, not_mem_nil, or_false] at hedge
      rcases hedge with rfl | rfl | rfl | rfl | rfl | rfl <;> simp at hwaiter ⊢
    · rintro item hitem holder ⟨edge, hedge, hwaiter, rfl⟩
      simp only [bridge, mem_cons, not_mem_nil, or_false] at hedge
      rcases hedge with rfl | rfl | rfl | rfl | rfl | rfl <;>
        simp [← hwaiter] at hitem ⊢
  simp at hmem

/-- Two transactions with negative vids that wait for each other. -/
def negative : List WaitEdge := [⟨0, -2, -1, true⟩, ⟨1, -1, -2, true⟩]

theorem negative_not_onCycle : ¬ OnCycle negative 0 := by
  intro hcycle
  have hmem : (0 : Int) ∈ (∅ : Set Int) := by
    apply transGen_mem _ (fun _ hnone => absurd hnone (Set.notMem_empty _)) hcycle
    rintro holder ⟨edge, hedge, hwaiter, rfl⟩
    simp only [negative, mem_cons, not_mem_nil, or_false] at hedge
    rcases hedge with rfl | rfl <;> simp at hwaiter
  exact absurd hmem (Set.notMem_empty _)

/-- The transaction between the two pairs is the first to be cancelled although it is
on no cycle, and among negative vids a 0 is chosen that no transaction has. -/
theorem chosen_off_cycles : (∃ ctx rest, GddCtxReduce 9 (addEdges bridge) = some ctx ∧
        breakRounds 9 ctx = (ctx, 9) :: rest ∧ ¬ OnCycle ctx.outEdges 9 ∧
        (GddCtxBreakDeadLock 9 ctx []).map Prod.fst = some [9, 4, 2]) ∧
      ∃ ctx rest, GddCtxReduce 4 (addEdges negative) = some ctx ∧
        breakRounds 4 ctx = (ctx, 0) :: rest ∧ ¬ OnCycle ctx.outEdges 0 := by
  have hbridge : (GddCtxReduce 9 (addEdges bridge)).map (fun ctx =>
      (ctx.outEdges, GddCtxEmpty ctx, gddCtxGetMaxVid ctx,
        (GddCtxBreakDeadLock 9 ctx []).map Prod.fst)) =
      some (bridge, false, 9, some [9, 4, 2]) := by decide +kernel
  have hnegative : (GddCtxReduce 4 (addEdges negative)).map (fun ctx =>
      (ctx.outEdges, GddCtxEmpty ctx, gddCtxGetMaxVid ctx)) =
      some (negative, false, 0) := by decide +kernel
  have hround : ∀ fuel ctx, GddCtxEmpty ctx = false → ∃ rest,
      breakRounds (fuel + 1) ctx = (ctx, gddCtxGetMaxVid ctx) :: rest := by
    intro fuel ctx hempty
    unfold breakRounds
    rw [hempty, if_neg Bool.false_ne_true]
    apply Exists.intro
    rfl
  constructor
  · obtain ⟨ctx, hctx, hvalues⟩ := Option.map_eq_some_iff.mp hbridge
    simp only [Prod.mk.injEq] at hvalues
    obtain ⟨hedges, hempty, hmax, hcancelled⟩ := hvalues
    obtain ⟨rest, hrest⟩ := hround 8 ctx hempty
    rw [hmax] at hrest
    refine ⟨ctx, rest, hctx, hrest, ?_, hcancelled⟩
    rw [hedges]
    exact bridge_not_onCycle
  · obtain ⟨ctx, hctx, hvalues⟩ := Option.map_eq_some_iff.mp hnegative
    simp only [Prod.mk.injEq] at hvalues
    obtain ⟨hedges, hempty, hmax⟩ := hvalues
    obtain ⟨rest, hrest⟩ := hround 3 ctx hempty
    rw [hmax] at hrest
    refine ⟨ctx, rest, hctx, hrest, ?_⟩
    rw [hedges]
    exact negative_not_onCycle

end GddVictimsWitness

end Gdd

end Greenplum
