/-
The bookkeeping of the deadlock detector over whole runs.  Whatever edges are
added, whatever is reduced and whichever verts are removed in between, both ends
of an edge list it once or not at all, and the three places that count degrees
agree with the lists.
-/
import Greenplum.GddBreak
import Mathlib.Algebra.Ring.Nat

namespace Greenplum.Gdd

open List

/-- The contexts that calls of the detector's operations lead to. -/
inductive Reachable : GddCtx → Prop
  | start : Reachable GddCtxNew
  | addEdge {ctx : GddCtx} (segid fromVid toVid : Int) (solid : Bool) (before : Reachable ctx) :
      Reachable (GddCtxAddEdge ctx segid fromVid toVid solid)
  | reduce {ctx next : GddCtx} {fuel : Nat} (before : Reachable ctx)
      (run : GddCtxReduce fuel ctx = some next) : Reachable next
  | removeVid {ctx : GddCtx} (vid : Int) (before : Reachable ctx) :
      Reachable (gddCtxRemoveVid ctx vid)

theorem Reachable.linked {ctx : GddCtx} (h : Reachable ctx) : ∃ live, ctx.Linked live := by
  induction h with
  | start => exact ⟨∅, gddCtxNew_linked⟩
  | addEdge segid fromVid toVid solid _ ih =>
    obtain ⟨live, hlive⟩ := ih
    obtain ⟨edge, -, -, hadded⟩ := gddCtxAddEdge_linked hlive segid fromVid toVid solid
    exact ⟨insert edge live, hadded⟩
  | reduce _ hrun ih =>
    obtain ⟨live, hlive⟩ := ih
    obtain ⟨rest, hrest, -, -⟩ := gddCtxReduce_eq_some hlive hrun
    exact ⟨rest, hrest⟩
  | removeVid vid _ ih =>
    obtain ⟨live, hlive⟩ := ih
    exact ⟨_, gddCtxRemoveVid_linked hlive vid⟩

/-- A reduction that is started in a reachable context ends. -/
theorem Reachable.reduce_returns {ctx : GddCtx} (h : Reachable ctx) :
    ∃ next enough, (∀ fuel, enough ≤ fuel → GddCtxReduce fuel ctx = some next) ∧
      Reachable next := by
  obtain ⟨live, hlive⟩ := h.linked
  obtain ⟨next, -, hrun, -⟩ := gddCtxReduce_linked hlive
  have henough : ∀ fuel, live.card + 2 ≤ fuel → GddCtxReduce fuel ctx = some next :=
    fun fuel hfuel => hrun fuel hfuel
  exact ⟨next, live.card + 2, henough, h.reduce (henough _ (le_refl _))⟩

/-- A degree of a vert id over all the local graphs that have a vert with it. -/
def GddCtx.sumDegrees (ctx : GddCtx) (degree : GddCtx → Int → Int → Nat) (vid : Int) : Nat :=
  (ctx.graphs.keys.map fun segid =>
    if vid ∈ ctx.vertKeys segid then degree ctx segid vid else 0).sum

/-- The edge is in one of the edge lists. -/
def GddCtx.Links (ctx : GddCtx) (edge : GddEdge) : Prop :=
  ∃ segid vid, edge ∈ (ctx.vert segid vid).edgesOut ∨ edge ∈ (ctx.vert segid vid).edgesIn

/-- The maps have one pair for each key, the edge lists of the two ends of an edge
agree, and all the degrees count what the lists hold. -/
structure GddCtx.Consistent (ctx : GddCtx) : Prop where
  segids_nodup : ctx.graphs.keys.Nodup
  vids_nodup : ∀ segid, (ctx.vertKeys segid).Nodup
  globals_nodup : ctx.globals.keys.Nodup
  out_count_le : ∀ segid vid edge, (ctx.vert segid vid).edgesOut.count edge ≤ 1
  in_count_le : ∀ segid vid edge, (ctx.vert segid vid).edgesIn.count edge ≤ 1
  out_iff_in : ∀ edge : GddEdge, (ctx.vert edge.segid edge.fromVid).edgesOut.count edge = 1 ↔
      edge ∈ (ctx.vert edge.segid edge.toVid).edgesIn
  out_own : ∀ segid vid, ∀ edge ∈ (ctx.vert segid vid).edgesOut,
    edge.segid = segid ∧ edge.fromVid = vid
  in_own : ∀ segid vid, ∀ edge ∈ (ctx.vert segid vid).edgesIn, edge.segid = segid ∧ edge.toVid = vid
  global_indeg : ∀ vid ∈ ctx.globals.keys, (ctx.globals.ptr vid).indeg =
    ctx.sumDegrees gddVertGetInDegree vid
  global_outdeg : ∀ vid ∈ ctx.globals.keys, (ctx.globals.ptr vid).outdeg =
    ctx.sumDegrees gddVertGetOutDegree vid
  top_indeg : ctx.topstat.indeg = ctx.inEdges.length
  top_outdeg : ctx.topstat.outdeg = ctx.outEdges.length
  top_equal : ctx.topstat.indeg = ctx.topstat.outdeg
  ends_kept : ∀ edge, ctx.Links edge → edge.segid ∈ ctx.graphs.keys ∧
    edge.fromVid ∈ ctx.vertKeys edge.segid ∧ edge.toVid ∈ ctx.vertKeys edge.segid

section

variable {ctx : GddCtx} {live : Finset GddEdge}

/-- If every segment holds its part of the edges in a list, the lists together are
as long as there are edges. -/
theorem sum_length_eq_card {keys : List Int} {part : Finset GddEdge}
    (held : Int → List GddEdge) (hkeys : keys.Nodup)
    (hmem : ∀ segid edge, edge ∈ held segid ↔ edge ∈ part ∧ edge.segid = segid)
    (hnodup : ∀ segid, (held segid).Nodup) (hsegid : ∀ edge ∈ part, edge.segid ∈ keys) :
    (keys.map fun segid => (held segid).length).sum = part.card := by
  have hflat : (keys.flatMap held).Nodup := by
    rw [nodup_flatMap]
    refine ⟨fun segid _ => hnodup segid, ?_⟩
    apply hkeys.imp
    intro first second hne edge hfirst hsecond
    exact hne (((hmem first edge).mp hfirst).2.symm.trans ((hmem second edge).mp hsecond).2)
  have hpart : (keys.flatMap held).toFinset = part := by
    ext edge
    rw [mem_toFinset, mem_flatMap]
    constructor
    · rintro ⟨segid, -, hedge⟩
      exact ((hmem segid edge).mp hedge).1
    · intro hedge
      exact ⟨edge.segid, hsegid edge hedge, (hmem _ edge).mpr ⟨hedge, rfl⟩⟩
  rw [← hpart, toFinset_card_of_nodup hflat, length_flatMap]

theorem GddCtx.Linked.degrees_of_absent (h : ctx.Linked live) {segid vid : Int}
    (habsent : vid ∉ ctx.vertKeys segid) :
    gddVertGetInDegree ctx segid vid = 0 ∧ gddVertGetOutDegree ctx segid vid = 0 := by
  have hnil := h.edges_eq_nil (h.ends_ne habsent)
  rw [gddVertGetInDegree, gddVertGetOutDegree, hnil.1, hnil.2]
  exact ⟨rfl, rfl⟩

/-- A degree that counts the edges with the vert at one of their ends, summed over
the graphs. -/
theorem GddCtx.Linked.sum_degrees (h : ctx.Linked live) (vid : Int)
    {degree : GddCtx → Int → Int → Nat} {held : Int → Int → List GddEdge}
    {place : GddEdge → Int} (hlength : ∀ segid, degree ctx segid vid = (held segid vid).length)
    (habsent : ∀ segid, vid ∉ ctx.vertKeys segid → degree ctx segid vid = 0)
    (hheld : Lists live place held) :
    ctx.sumDegrees degree vid = (live.filter fun edge => place edge = vid).card := by
  have hpart : ∀ segid edge, edge ∈ held segid vid ↔
      edge ∈ live.filter (fun edge => place edge = vid) ∧ edge.segid = segid := by
    intro segid edge
    rw [hheld.mem, Finset.mem_filter]
    tauto
  rw [← sum_length_eq_card (held · vid) h.graphs_nodup hpart (hheld.nodup · vid) fun edge hedge =>
    (h.placed edge (Finset.mem_filter.mp hedge).1).segid_mem]
  unfold GddCtx.sumDegrees
  congr 1
  apply map_congr_left
  intro segid _
  rw [← hlength]
  split
  · rfl
  · rename_i hkey
    exact (habsent segid hkey).symm

theorem GddCtx.Linked.live_of_links (h : ctx.Linked live) {edge : GddEdge}
    (hlinks : ctx.Links edge) : edge ∈ live := by
  obtain ⟨segid, vid, hout | hin⟩ := hlinks
  · exact ((h.out.mem segid vid edge).mp hout).1
  · exact ((h.into.mem segid vid edge).mp hin).1

end

theorem GddCtx.Linked.consistent {ctx : GddCtx} {live : Finset GddEdge}
    (h : ctx.Linked live) : ctx.Consistent := by
  constructor
  case segids_nodup => exact h.graphs_nodup
  case vids_nodup => exact h.verts_nodup
  case globals_nodup => exact h.globals_nodup
  case out_count_le =>
    intro segid vid edge
    exact nodup_iff_count_le_one.mp (h.out.nodup segid vid) edge
  case in_count_le =>
    intro segid vid edge
    exact nodup_iff_count_le_one.mp (h.into.nodup segid vid) edge
  case out_iff_in =>
    intro edge
    have hle := nodup_iff_count_le_one.mp (h.out.nodup edge.segid edge.fromVid) edge
    have hone : (ctx.vert edge.segid edge.fromVid).edgesOut.count edge = 1 ↔
        edge ∈ (ctx.vert edge.segid edge.fromVid).edgesOut := by
      rw [← count_pos_iff]
      omega
    rw [hone, h.out.mem, h.into.mem]
    tauto
  case out_own =>
    intro segid vid edge hedge
    exact ((h.out.mem segid vid edge).mp hedge).2
  case in_own =>
    intro segid vid edge hedge
    exact ((h.into.mem segid vid edge).mp hedge).2
  case global_indeg =>
    intro vid _
    rw [h.global_indeg, h.sum_degrees vid (fun _ => rfl)
      (fun _ habsent => (h.degrees_of_absent habsent).1) h.into]
  case global_outdeg =>
    intro vid _
    rw [h.global_outdeg, h.sum_degrees vid (fun _ => rfl)
      (fun _ habsent => (h.degrees_of_absent habsent).2) h.out]
  case top_indeg =>
    have hlength := congrArg Multiset.card h.inEdges_eq
    rw [Multiset.coe_card, Multiset.card_map, Finset.card_val] at hlength
    rw [h.top_indeg, hlength]
  case top_outdeg =>
    have hlength := congrArg Multiset.card h.outEdges_eq
    rw [Multiset.coe_card, Multiset.card_map, Finset.card_val] at hlength
    rw [h.top_outdeg, hlength]
  case top_equal => rw [h.top_indeg, h.top_outdeg]
  case ends_kept =>
    intro edge hlinks
    have hplaced := h.placed edge (h.live_of_links hlinks)
    exact ⟨hplaced.segid_mem, hplaced.from_mem, hplaced.to_mem⟩

/-- The bookkeeping is right in every context that any calls lead to. -/
theorem reachable_consistent (ctx : GddCtx) (h : Reachable ctx) : ctx.Consistent := by
  obtain ⟨live, hlive⟩ := h.linked
  exact hlive.consistent

namespace GddReachableWitness

/-- Two verts of one segment that wait for each other, one of them for itself too. -/
def tangled : GddCtx :=
  GddCtxAddEdge (GddCtxAddEdge (GddCtxAddEdge GddCtxNew 0 1 2 true) 0 2 1 false) 0 1 1 true

theorem tangled_consistent :
    Reachable (gddCtxRemoveVid tangled 1) ∧ (gddCtxRemoveVid tangled 1).Consistent := by
  have hreachable : Reachable (gddCtxRemoveVid tangled 1) :=
    (((Reachable.start.addEdge 0 1 2 true).addEdge 0 2 1 false).addEdge 0 1 1 true).removeVid 1
  exact ⟨hreachable, reachable_consistent _ hreachable⟩

theorem tangled_reduce_returns : ∃ next enough,
    (∀ fuel, enough ≤ fuel → GddCtxReduce fuel tangled = some next) ∧ Reachable next :=
  (((Reachable.start.addEdge 0 1 2 true).addEdge 0 2 1 false).addEdge 0 1 1 true).reduce_returns

end GddReachableWitness

end Greenplum.Gdd
