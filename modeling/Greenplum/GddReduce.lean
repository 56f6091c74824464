/-
What `GddCtxReduce` computes.  Every unlink of a pass deletes an edge that has
lost its support, and a pass that stays clean has visited every vert, so the
loop ends exactly at the largest set of mutually supporting wait edges.
-/
import Greenplum.GddLinked
import Greenplum.Pruning
import Mathlib.Algebra.Group.Fin.Basic

namespace Greenplum.Gdd

open List

/-- What keeps a wait edge in the graph: its waiter is waited for on some
segment, its holder waits on some segment, and a dotted edge needs the holder
to wait on the segment of the edge. -/
def EdgeSupported (edges : Set WaitEdge) (edge : WaitEdge) : Prop :=
  (∃ other ∈ edges, other.holder = edge.waiter) ∧ (∃ other ∈ edges, other.waiter = edge.holder) ∧
    (edge.solid = false → ∃ other ∈ edges, other.waiter = edge.holder ∧ other.segid = edge.segid)

theorem edgeSupported_mono ⦃small large : Set WaitEdge⦄ (hsub : small ⊆ large)
    (edge : WaitEdge) (h : EdgeSupported small edge) : EdgeSupported large edge := by
  obtain ⟨⟨into, hinto, hwaiter⟩, ⟨out, hout, hholder⟩, hdotted⟩ := h
  refine ⟨⟨into, hsub hinto, hwaiter⟩, ⟨out, hsub hout, hholder⟩, ?_⟩
  intro hsolid
  obtain ⟨same, hsame, heq⟩ := hdotted hsolid
  exact ⟨same, hsub hsame, heq⟩

abbrev Pruned (first last : Finset GddEdge) : Prop :=
  Prunes EdgeSupported GddEdge.toWaitEdge first last

/-- The linked edges of a vert of one graph that no rule applies to. -/
def StableVert (live : Finset GddEdge) (segid vid : Int) : Prop :=
  ∀ edge ∈ live, edge.segid = segid → (edge.fromVid = vid → ∃ other ∈ live, other.toVid = vid) ∧
    (edge.toVid = vid → ∃ other ∈ live, other.fromVid = vid) ∧
    (edge.toVid = vid → edge.solid = false →
      ∃ other ∈ live, other.fromVid = vid ∧ other.segid = segid)

variable {live : Finset GddEdge} {edges : List WaitEdge}

theorem selfSupporting_of_stableVert (h : ∀ edge ∈ live, StableVert live edge.segid edge.fromVid ∧
      StableVert live edge.segid edge.toVid) :
    SelfSupporting EdgeSupported (GddEdge.toWaitEdge '' ↑live) := by
  rintro _ ⟨edge, hedge, rfl⟩
  obtain ⟨hfrom, hto⟩ := h edge hedge
  refine ⟨?_, ?_, ?_⟩
  · obtain ⟨other, hother, heq⟩ := (hfrom edge hedge rfl).1 rfl
    exact ⟨other.toWaitEdge, ⟨other, hother, rfl⟩, heq⟩
  · obtain ⟨other, hother, heq⟩ := (hto edge hedge rfl).2.1 rfl
    exact ⟨other.toWaitEdge, ⟨other, hother, rfl⟩, heq⟩
  · intro hsolid
    obtain ⟨other, hother, heq⟩ := (hto edge hedge rfl).2.2 rfl hsolid
    exact ⟨other.toWaitEdge, ⟨other, hother, rfl⟩, heq⟩

section

variable {ctx : GddCtx} {live : Finset GddEdge} {segid vid : Int} {batch : List GddEdge}

section

variable (ctx : GddCtx) (edge : GddEdge) (passed cells : List GddEdge)

theorem gddEdgeUnlink_edgesIn (fromiter : Option GddListIter) :
    ((gddEdgeUnlink ctx edge fromiter (some ⟨passed, edge :: cells⟩)).vert
      edge.segid edge.toVid).edgesIn = passed ++ cells := by
  simp [gddEdgeUnlink, gddEdgeUnlinkTo, gddListDelete, gddListIterDelete, GddListIter.list]

theorem gddEdgeUnlink_edgesOut (toiter : Option GddListIter) :
    ((gddEdgeUnlink ctx edge (some ⟨[], edge :: cells⟩) toiter).vert
      edge.segid edge.fromVid).edgesOut = cells := by
  simp [gddEdgeUnlink, gddEdgeUnlinkTo, gddEdgeUnlinkFrom, gddListDelete,
    gddListIterDelete, GddListIter.list]

/-- What an unlinking loop did: the edges of `batch` are gone, the maps are as
they were, and the flag tells whether there was anything to unlink. -/
structure Unlinked (live : Finset GddEdge) (result : GddCtx × Bool) (dirty : Bool)
    (batch : List GddEdge) : Prop where
  linked : result.1.Linked (live \ batch.toFinset)
  flag : result.2 = (dirty || !batch.isEmpty)
  vertKeys : ∀ s, result.1.vertKeys s = ctx.vertKeys s
  graphKeys : result.1.graphs.keys = ctx.graphs.keys

end

/-- A loop that has unlinked one edge and goes on. -/
theorem Unlinked.cons {next : GddCtx} {result : GddCtx × Bool} {edge : GddEdge} {dirty : Bool}
    (h : Unlinked next (live.erase edge) result true batch)
    (hverts : ∀ s, next.vertKeys s = ctx.vertKeys s)
    (hgraphs : next.graphs.keys = ctx.graphs.keys) :
    Unlinked ctx live result dirty (edge :: batch) where
  linked := by
    have hsets : live.erase edge \ batch.toFinset = live \ (edge :: batch).toFinset := by
      ext other
      simp
      tauto
    exact hsets ▸ h.linked
  flag := by simpa using h.flag
  vertKeys s := (h.vertKeys s).trans (hverts s)
  graphKeys := h.graphKeys.trans hgraphs

theorem unlinkInEdges_unlinked (segid vid : Int) (keep : GddEdge → Bool) (cells : List GddEdge) :
    ∀ (ctx : GddCtx) (live : Finset GddEdge) (passed : List GddEdge)
      (dirty : Bool), ctx.Linked live → (ctx.vert segid vid).edgesIn = passed ++ cells →
      Unlinked ctx live (unlinkInEdges keep passed cells ctx dirty) dirty
        (cells.filter fun edge => !keep edge) := by
  induction cells with
  | nil =>
    intro ctx live passed dirty h hlist
    exact ⟨by simpa [unlinkInEdges] using h, by simp [unlinkInEdges], fun _ => rfl, rfl⟩
  | cons edge cells ih =>
    intro ctx live passed dirty h hlist
    cases hkeep : keep edge with
    | true =>
      have hrest := ih ctx live (passed ++ [edge]) dirty h (by simpa using hlist)
      simpa [unlinkInEdges, hkeep] using hrest
    | false =>
      obtain ⟨hedge, hseg, hto⟩ := (h.into.mem segid vid edge).mp (by simp [hlist])
      subst hseg
      subst hto
      have hunlinked := gddEdgeUnlink_linked none (some ⟨passed, edge :: cells⟩) h hedge
        (iterAt_none _) (iterAt_here hlist)
      have hrest := ih _ _ passed true hunlinked (gddEdgeUnlink_edgesIn ctx edge passed cells none)
      simp only [unlinkInEdges, hkeep, Bool.false_eq_true, ↓reduceIte, Bool.not_false,
        filter_cons_of_pos]
      exact hrest.cons (fun s => gddEdgeUnlink_vertKeys ctx edge _ _ s) rfl

theorem unlinkOutEdges_unlinked (segid vid : Int) (cells : List GddEdge) :
    ∀ (ctx : GddCtx) (live : Finset GddEdge) (dirty : Bool), ctx.Linked live →
      (ctx.vert segid vid).edgesOut = cells →
      Unlinked ctx live (unlinkOutEdges cells ctx dirty) dirty cells := by
  induction cells with
  | nil =>
    intro ctx live dirty h hlist
    exact ⟨by simpa [unlinkOutEdges] using h, by simp [unlinkOutEdges], fun _ => rfl, rfl⟩
  | cons edge cells ih =>
    intro ctx live dirty h hlist
    obtain ⟨hedge, hseg, hfrom⟩ := (h.out.mem segid vid edge).mp (by simp [hlist])
    subst hseg
    subst hfrom
    have hunlinked := gddEdgeUnlink_linked (some ⟨[], edge :: cells⟩) none h hedge
      (iterAt_here hlist) (iterAt_none _)
    have hrest := ih _ _ true hunlinked (gddEdgeUnlink_edgesOut ctx edge cells none)
    exact hrest.cons (fun s => gddEdgeUnlink_vertKeys ctx edge _ _ s) rfl

/-- One reduction step at a vert: unsupported edges are deleted, the maps stay,
a raised flag means progress, and a clean step means no rule applied. -/
structure VertReduced (ctx : GddCtx) (live : Finset GddEdge) (segid vid : Int)
    (result : GddCtx × Bool) (live' : Finset GddEdge) : Prop where
  linked : result.1.Linked live'
  pruned : Pruned live live'
  progress : result.2 = true → live'.card < live.card
  clean : result.2 = false → live' = live ∧ StableVert live segid vid
  vertKeys : ∀ s, result.1.vertKeys s = ctx.vertKeys s
  graphKeys : result.1.graphs.keys = ctx.graphs.keys

theorem card_sdiff_lt (hsub : ∀ edge ∈ batch, edge ∈ live) (hne : batch ≠ []) :
    (live \ batch.toFinset).card < live.card := by
  apply Finset.card_lt_card
  obtain ⟨edge, hedge⟩ := exists_mem_of_ne_nil batch hne
  rw [Finset.ssubset_iff_of_subset Finset.sdiff_subset]
  exact ⟨edge, hsub edge hedge, by simp [hedge]⟩

/-- A loop over unsupported edges is a reduction step, provided that a vert
without such edges is stable. -/
theorem Unlinked.vertReduced {result : GddCtx × Bool}
    (h : Unlinked ctx live result false batch) (hsub : ∀ edge ∈ batch, edge ∈ live)
    (hunsupported : ∀ edge ∈ batch, ¬ EdgeSupported (GddEdge.toWaitEdge '' ↑live) edge.toWaitEdge)
    (hstable : batch = [] → StableVert live segid vid) :
    VertReduced ctx live segid vid result (live \ batch.toFinset) where
  linked := h.linked
  pruned := Prunes.delete_list edgeSupported_mono batch hunsupported
  progress hflag := by
    apply card_sdiff_lt hsub
    rintro rfl
    simp [h.flag] at hflag
  clean hflag := by
    have hnil : batch = [] := by
      simpa [h.flag] using hflag
    exact ⟨by simp [hnil], hstable hnil⟩
  vertKeys := h.vertKeys
  graphKeys := h.graphKeys

theorem gddVertUnlinkAll_unlinked (h : ctx.Linked live) (segid vid : Int) :
    ∃ batch : List GddEdge, Unlinked ctx live (gddVertUnlinkAll ctx segid vid) false batch ∧
      ∀ edge, edge ∈ batch ↔ edge ∈ live ∧ edge.segid = segid ∧
        (edge.fromVid = vid ∨ edge.toVid = vid) := by
  let ins := (ctx.vert segid vid).edgesIn
  let middle := unlinkInEdges (fun _ => false) [] ins ctx false
  let outs := (middle.1.vert segid vid).edgesOut
  have hin : Unlinked ctx live middle false ins := by
    simpa using unlinkInEdges_unlinked segid vid (fun _ => false) ins ctx live [] false h rfl
  have hout : Unlinked middle.1 (live \ ins.toFinset)
      (unlinkOutEdges outs middle.1 middle.2) middle.2 outs :=
    unlinkOutEdges_unlinked segid vid outs middle.1 _ middle.2 hin.linked rfl
  refine ⟨ins ++ outs, ⟨?_, ?_, fun s => (hout.vertKeys s).trans (hin.vertKeys s),
    hout.graphKeys.trans hin.graphKeys⟩, ?_⟩
  · have hlinked := hout.linked
    rw [sdiff_sdiff_left, Finset.sup_eq_union, ← toFinset_append] at hlinked
    exact hlinked
  · change (unlinkOutEdges outs middle.1 middle.2).2 = _
    rw [hout.flag, hin.flag]
    cases hins : ins <;> simp
  · intro edge
    have hmemIn := h.into.mem segid vid edge
    have hmemOut := hin.linked.out.mem segid vid edge
    rw [Finset.mem_sdiff, mem_toFinset] at hmemOut
    rw [mem_append]
    tauto

/-- The rules of `gddVertReduce` delete only unsupported edges, and leave a
stable vert when they delete nothing. -/
theorem gddVertReduce_vertReduced (h : ctx.Linked live) (segid vid : Int) :
    ∃ live', VertReduced ctx live segid vid (gddVertReduce ctx segid vid) live' := by
  have hindeg : (ctx.globals.ptr vid).indeg = 0 ↔ ∀ edge ∈ live, edge.toVid ≠ vid := by
    rw [h.global_indeg, Int.natCast_eq_zero, Finset.card_eq_zero, Finset.filter_eq_empty_iff]
  have houtdeg : (ctx.globals.ptr vid).outdeg = 0 ↔ ∀ edge ∈ live, edge.fromVid ≠ vid := by
    rw [h.global_outdeg, Int.natCast_eq_zero, Finset.card_eq_zero, Finset.filter_eq_empty_iff]
  unfold gddVertReduce
  by_cases hend : (ctx.globals.ptr vid).indeg = 0 ∨ (ctx.globals.ptr vid).outdeg = 0
  · rw [if_pos hend]
    obtain ⟨batch, hunlinked, hmem⟩ := gddVertUnlinkAll_unlinked h segid vid
    refine ⟨_, hunlinked.vertReduced (fun edge hedge => ((hmem edge).mp hedge).1) ?_ ?_⟩
    · rintro edge hedge ⟨⟨_, ⟨into, hinto, rfl⟩, hwaiter⟩, ⟨_, ⟨out, hout, rfl⟩, hholder⟩, -⟩
      obtain ⟨hlive, -, hvid⟩ := (hmem edge).mp hedge
      rw [hindeg, houtdeg] at hend
      rcases hend with hend | hend
      · rcases hvid with hfrom | hto
        · exact hend into hinto (hwaiter.trans hfrom)
        · exact hend edge hlive hto
      · rcases hvid with hfrom | hto
        · exact hend edge hlive hfrom
        · exact hend out hout (hholder.trans hto)
    · intro hnil edge hedge hseg
      have hnot := hmem edge
      rw [hnil] at hnot
      have hnone := fun hvid => not_mem_nil (hnot.mpr ⟨hedge, hseg, hvid⟩)
      exact ⟨fun hfrom => (hnone (.inl hfrom)).elim, fun hto => (hnone (.inr hto)).elim,
        fun hto => (hnone (.inr hto)).elim⟩
  · rw [if_neg hend]
    rw [not_or, hindeg, houtdeg] at hend
    push Not at hend
    by_cases hlocal : gddVertGetOutDegree ctx segid vid = 0
    · rw [if_pos hlocal]
      refine ⟨_, (unlinkInEdges_unlinked segid vid GddEdge.solid
        (ctx.vert segid vid).edgesIn ctx live [] false h rfl).vertReduced ?_ ?_ ?_⟩
      · intro edge hedge
        exact ((h.into.mem segid vid edge).mp (mem_filter.mp hedge).1).1
      · intro edge hedge hsupported
        obtain ⟨hin, hdotted⟩ := mem_filter.mp hedge
        obtain ⟨-, hseg, hto⟩ := (h.into.mem segid vid edge).mp hin
        obtain ⟨_, ⟨out, hout, rfl⟩, hwaiter, hsame⟩ :=
          hsupported.2.2 (by simpa [GddEdge.toWaitEdge] using hdotted)
        exact h.out.key_ne hlocal hout (hsame.trans hseg) (hwaiter.trans hto)
      · intro hnil edge hedge hseg
        refine ⟨fun _ => hend.1, fun _ => hend.2, fun hto hdotted => ?_⟩
        have hmem : edge ∈ (ctx.vert segid vid).edgesIn.filter fun other => !other.solid := by
          rw [mem_filter]
          exact ⟨(h.into.mem segid vid edge).mpr ⟨hedge, hseg, hto⟩, by simp [hdotted]⟩
        rw [hnil] at hmem
        exact absurd hmem not_mem_nil
    · rw [if_neg hlocal]
      refine ⟨live, h, Prunes.refl live, fun hfalse => absurd hfalse (by simp),
        fun _ => ⟨rfl, ?_⟩, fun _ => rfl, rfl⟩
      intro edge hedge hseg
      refine ⟨fun _ => hend.1, fun _ => hend.2, fun _ _ => ?_⟩
      obtain ⟨out, hout⟩ := exists_mem_of_length_pos (Nat.pos_of_ne_zero hlocal)
      obtain ⟨hlive, hsame, hfrom⟩ := (h.out.mem segid vid out).mp hout
      exact ⟨out, hlive, hfrom, hsame⟩

end

section

variable {ctx : GddCtx} {live : Finset GddEdge} {segid vid : Int}

/-- The in-place delete at the end of `front` keeps the pairs before it and
leaves the pairs after it in some order. -/
theorem gddMapIterDelete_keys {α : Type} (map : GddMap α) (front back : List Int) (key : Int)
    (hkeys : map.keys = front ++ key :: back) :
    ∃ moved : List Int, moved.Perm back ∧
      (gddMapIterDelete map front.length).keys = front ++ moved := by
  cases hback : back using List.reverseRecOn with
  | nil =>
    simp [gddMapIterDelete, hkeys, hback]
  | append_singleton middle last =>
    refine ⟨last :: middle, (perm_append_singleton last middle).symm, ?_⟩
    have hset : (front ++ key :: (middle ++ [last])).set front.length last =
        (front ++ last :: middle) ++ [last] := by
      simp [set_append_right]
    simp only [gddMapIterDelete, hkeys, hback]
    have hlast : (front ++ key :: (middle ++ [last])).getLastD 0 = last := by
      rw [← cons_append, ← append_assoc, getLastD_concat]
    rw [hlast, hset, dropLast_concat]

/-- Deleting a vert without edges from its graph keeps the invariant. -/
theorem deleteVert_linked {front back : List Int} (h : ctx.Linked live)
    (hkeys : ctx.vertKeys segid = front ++ vid :: back) (hin : gddVertGetInDegree ctx segid vid = 0)
    (hout : gddVertGetOutDegree ctx segid vid = 0) :
    (ctx.setVerts segid (gddMapIterDelete (ctx.graphs.ptr segid).verts
      front.length)).Linked live := by
  obtain ⟨moved, hperm, hdeleted⟩ := gddMapIterDelete_keys
    (ctx.graphs.ptr segid).verts front back vid hkeys
  have hnodup := h.verts_nodup segid
  rw [hkeys] at hnodup
  have hsame : ∀ s v, (ctx.setVerts segid (gddMapIterDelete
      (ctx.graphs.ptr segid).verts front.length)).vert s v = ctx.vert s v := by
    intro s v
    by_cases hs : s = segid
    · subst hs
      simp [GddCtx.vert, GddCtx.setVerts, gddMapIterDelete]
    · simp [GddCtx.vert, GddCtx.setVerts, hs]
  have hkept : ∀ edge ∈ live, ∀ v ∈ ctx.vertKeys edge.segid, v = edge.fromVid ∨ v = edge.toVid →
      v ∈ (ctx.setVerts segid (gddMapIterDelete (ctx.graphs.ptr segid).verts
        front.length)).vertKeys edge.segid := by
    intro edge hedge v hmem hv
    by_cases hs : edge.segid = segid
    · have hne : v ≠ vid := by
        rcases hv with rfl | rfl
        · exact h.out.key_ne hout hedge hs
        · exact h.into.key_ne hin hedge hs
      rw [hs, hkeys, mem_append, mem_cons] at hmem
      rw [setVerts_vertKeys, if_pos hs, hdeleted, mem_append, hperm.mem_iff]
      tauto
    · simpa [hs] using hmem
  refine h.of_maps (fun s v => by simp [hsame]) (fun _ => rfl) rfl
    h.graphs_nodup ?_ h.globals_nodup ?_
  · intro s
    by_cases hs : s = segid
    · rw [setVerts_vertKeys, if_pos hs, hdeleted]
      refine ((hperm.append_left front).nodup_iff).mpr ?_
      exact hnodup.sublist (List.Sublist.append_left (sublist_cons_self vid back) front)
    · simpa [hs] using h.verts_nodup s
  · intro edge hedge
    have hplaced := h.placed edge hedge
    exact { hplaced with
      from_mem := hkept edge hedge _ hplaced.from_mem (.inl rfl)
      to_mem := hkept edge hedge _ hplaced.to_mem (.inr rfl) }

/-- What a scan did: unsupported edges are deleted, a newly raised flag means
progress, and a scan that ends clean saw only stable verts among `visited`. -/
structure Scanned (ctx : GddCtx) (live : Finset GddEdge) (dirty : Bool)
    (visited : List (Int × Int)) (result : GddCtx × Bool)
    (live' : Finset GddEdge) : Prop where
  linked : result.1.Linked live'
  pruned : Pruned live live'
  progress : result.2 = true → dirty = true ∨ live'.card < live.card
  clean : result.2 = false → dirty = false ∧ live' = live ∧
    ∀ place ∈ visited, StableVert live place.1 place.2
  graphKeys : result.1.graphs.keys = ctx.graphs.keys

theorem Scanned.nil (h : ctx.Linked live) (dirty : Bool) :
    Scanned ctx live dirty [] (ctx, dirty) live where
  linked := h
  pruned := Prunes.refl live
  progress hflag := .inl hflag
  clean hflag := ⟨hflag, rfl, by simp⟩
  graphKeys := rfl

/-- Two scans in a row. -/
theorem Scanned.trans {next : GddCtx} {live₁ live' : Finset GddEdge}
    {dirty : Bool} {first result : GddCtx × Bool} {visited places : List (Int × Int)}
    (hfirst : Scanned ctx live dirty visited first live₁)
    (hrest : Scanned next live₁ first.2 places result live')
    (hgraphs : next.graphs.keys = first.1.graphs.keys) :
    Scanned ctx live dirty (visited ++ places) result live' where
  linked := hrest.linked
  pruned := hfirst.pruned.trans hrest.pruned
  progress hflag := by
    have hle := Finset.card_le_card hrest.pruned.subset
    have hle₁ := Finset.card_le_card hfirst.pruned.subset
    rcases hrest.progress hflag with hdirty | hless
    · rcases hfirst.progress hdirty with hdirty | hless
      · exact .inl hdirty
      · exact .inr (by omega)
    · exact .inr (by omega)
  clean hflag := by
    obtain ⟨hdirty, hlive, hvisited⟩ := hrest.clean hflag
    obtain ⟨hdirty₁, hlive₁, hvisited₁⟩ := hfirst.clean hdirty
    refine ⟨hdirty₁, hlive.trans hlive₁, ?_⟩
    rw [hlive₁] at hvisited
    intro place hplace
    rcases mem_append.mp hplace with hplace | hplace
    · exact hvisited₁ place hplace
    · exact hvisited place hplace
  graphKeys := hrest.graphKeys.trans (hgraphs.trans hfirst.graphKeys)

theorem Scanned.perm {live' : Finset GddEdge} {dirty : Bool}
    {result : GddCtx × Bool} {visited places : List (Int × Int)}
    (h : Scanned ctx live dirty visited result live') (hperm : visited.Perm places) :
    Scanned ctx live dirty places result live' where
  linked := h.linked
  pruned := h.pruned
  progress := h.progress
  clean hflag := by
    simpa [hperm.mem_iff] using h.clean hflag
  graphKeys := h.graphKeys

theorem VertReduced.scanned {live₁ : Finset GddEdge} {step : GddCtx × Bool}
    (hstep : VertReduced ctx live segid vid step live₁) (dirty : Bool) :
    Scanned ctx live dirty [(segid, vid)] (step.1, dirty || step.2) live₁ where
  linked := hstep.linked
  pruned := hstep.pruned
  progress hflag := ((Bool.or_eq_true _ _).mp hflag).imp_right hstep.progress
  clean hflag := by
    obtain ⟨hdirty, hclean⟩ := Bool.or_eq_false_iff.mp hflag
    obtain ⟨hlive₁, hstable⟩ := hstep.clean hclean
    exact ⟨hdirty, hlive₁, by simpa using hstable⟩
  graphKeys := hstep.graphKeys

/-- The scan of one graph from position `front.length` on visits every vert of
`back`, whichever of them it deletes on its way. -/
theorem reduceVerts_scanned (segid : Int) (fuel : Nat) :
    ∀ (ctx : GddCtx) (live : Finset GddEdge) (dirty : Bool)
      (front back : List Int), ctx.Linked live →
      ctx.vertKeys segid = front ++ back → back.length ≤ fuel →
      ∃ live', Scanned ctx live dirty (back.map fun vid => (segid, vid))
        (reduceVerts segid fuel front.length ctx dirty) live' ∧ ∀ s, s ≠ segid →
          (reduceVerts segid fuel front.length ctx dirty).1.vertKeys s = ctx.vertKeys s := by
  induction fuel with
  | zero =>
    intro ctx live dirty front back h hkeys hfuel
    rw [Nat.le_zero, length_eq_zero_iff] at hfuel
    subst hfuel
    exact ⟨live, Scanned.nil h dirty, fun _ _ => rfl⟩
  | succ fuel ih =>
    intro ctx live dirty front back h hkeys hfuel
    cases back with
    | nil =>
      have hend : (ctx.vertKeys segid)[front.length]? = none := by
        simp [hkeys]
      simp only [reduceVerts, hend]
      exact ⟨live, Scanned.nil h dirty, fun _ _ => trivial⟩
    | cons vid rest =>
      have hhere : (ctx.vertKeys segid)[front.length]? = some vid := by
        simp [hkeys]
      obtain ⟨live₁, hreduced⟩ := gddVertReduce_vertReduced h segid vid
      have hkeys₁ : (gddVertReduce ctx segid vid).1.vertKeys segid =
          front ++ vid :: rest := (hreduced.vertKeys segid).trans hkeys
      have hlength : rest.length ≤ fuel := by
        simpa using hfuel
      simp only [reduceVerts, hhere]
      split
      · rename_i hempty
        obtain ⟨moved, hperm, hdeleted⟩ := gddMapIterDelete_keys
          ((gddVertReduce ctx segid vid).1.graphs.ptr segid).verts
          front rest vid hkeys₁
        obtain ⟨live', hscan, hother⟩ := ih _ live₁
          (dirty || (gddVertReduce ctx segid vid).2) front moved
          (deleteVert_linked hreduced.linked hkeys₁ hempty.1 hempty.2)
          (by simpa using hdeleted)
          (by rw [hperm.length_eq]; exact hlength)
        refine ⟨live', ((hreduced.scanned dirty).trans hscan rfl).perm ((hperm.map _).cons _), ?_⟩
        intro s hs
        rw [hother s hs, setVerts_vertKeys, if_neg hs, hreduced.vertKeys s]
      · obtain ⟨live', hscan, hother⟩ := ih _ live₁
          (dirty || (gddVertReduce ctx segid vid).2) (front ++ [vid]) rest
          hreduced.linked (by simpa using hkeys₁) hlength
        rw [length_append, length_singleton] at hscan hother
        refine ⟨live', (hreduced.scanned dirty).trans hscan rfl, ?_⟩
        intro s hs
        rw [hother s hs, hreduced.vertKeys s]

/-- All the verts a context has in the given graphs. -/
def GddCtx.places (ctx : GddCtx) (segids : List Int) : List (Int × Int) :=
  segids.flatMap fun segid => (ctx.vertKeys segid).map fun vid => (segid, vid)

theorem reduceGraphs_scanned (segids : List Int) :
    ∀ (ctx : GddCtx) (live : Finset GddEdge) (dirty : Bool), ctx.Linked live → segids.Nodup →
      ∃ live', Scanned ctx live dirty (ctx.places segids)
        (reduceGraphs segids ctx dirty) live' := by
  induction segids with
  | nil =>
    intro ctx live dirty h _
    exact ⟨live, Scanned.nil h dirty⟩
  | cons segid rest ih =>
    intro ctx live dirty h hnodup
    obtain ⟨hnew, hrest⟩ := nodup_cons.mp hnodup
    obtain ⟨live₁, hscan₁, hother⟩ := reduceVerts_scanned segid
      (ctx.vertKeys segid).length ctx live dirty [] (ctx.vertKeys segid) h
      rfl (le_refl _)
    rw [length_nil] at hscan₁ hother
    obtain ⟨live', hscan'⟩ := ih _ live₁
      (reduceVerts segid (ctx.vertKeys segid).length 0 ctx dirty).2
      hscan₁.linked hrest
    have hplaces : GddCtx.places (reduceVerts segid
        (ctx.vertKeys segid).length 0 ctx dirty).1 rest = ctx.places rest := by
      refine flatMap_congr fun s hs => ?_
      rw [hother s (fun heq => hnew (heq ▸ hs))]
    rw [hplaces] at hscan'
    exact ⟨live', hscan₁.trans hscan' rfl⟩

/-- The loop invariant of `GddCtxReduce`: unsupported edges of the original
set are gone, and a lowered flag means that no rule applies any more. -/
def ReduceInv (original : Finset GddEdge) (state : GddCtx × Bool) : Prop :=
  ∃ live, state.1.Linked live ∧ Pruned original live ∧
    (state.2 = false → SelfSupporting EdgeSupported (GddEdge.toWaitEdge '' ↑live))

/-- From any consistent context the loop terminates, in a context that links
exactly a self-supporting remainder of the edges. -/
theorem gddCtxReduce_linked {original : Finset GddEdge} (h : ctx.Linked original) :
    ∃ (final : GddCtx) (live : Finset GddEdge), (∀ fuel, original.card + 1 < fuel →
        GddCtxReduce fuel ctx = some final) ∧ final.Linked live ∧ Pruned original live ∧
      SelfSupporting EdgeSupported (GddEdge.toWaitEdge '' ↑live) := by
  have hstep : ∀ state : GddCtx × Bool, ReduceInv original state → state.2 = true →
      ReduceInv original (reduceGraphs state.1.graphs.keys state.1 false) ∧
      (reduceGraphs state.1.graphs.keys state.1 false).1.topstat.indeg.toNat +
          (reduceGraphs state.1.graphs.keys state.1 false).2.toNat <
        state.1.topstat.indeg.toNat + state.2.toNat := by
    rintro ⟨ctx, dirty⟩ ⟨live, hlinked, hpruned, -⟩ hguard
    obtain ⟨live', hscan⟩ := reduceGraphs_scanned ctx.graphs.keys ctx live
      false hlinked hlinked.graphs_nodup
    have hcard := Finset.card_le_card hscan.pruned.subset
    refine ⟨⟨live', hscan.linked, hpruned.trans hscan.pruned, ?_⟩, ?_⟩
    · intro hclean
      obtain ⟨-, hlive, hvisited⟩ := hscan.clean hclean
      rw [hlive]
      apply selfSupporting_of_stableVert
      intro edge hedge
      have hplaced := hlinked.placed edge hedge
      have hplace : ∀ vid ∈ ctx.vertKeys edge.segid, StableVert live edge.segid vid := by
        intro vid hvid
        apply hvisited (edge.segid, vid)
        simp only [GddCtx.places, mem_flatMap, mem_map]
        exact ⟨edge.segid, hplaced.segid_mem, vid, hvid, rfl⟩
      exact ⟨hplace _ hplaced.from_mem, hplace _ hplaced.to_mem⟩
    · subst hguard
      have htop : ctx.topstat.indeg = live.card := hlinked.top_indeg
      rw [hscan.linked.top_indeg]
      cases hflag : (reduceGraphs ctx.graphs.keys ctx false).2 with
      | false =>
        simp
        omega
      | true =>
        have hless := (hscan.progress hflag).resolve_left (by simp)
        simp
        omega
  obtain ⟨⟨final, flag⟩, ⟨live, hlinked, hpruned, hstable⟩, hflag, hrun⟩ :=
    whileLoop_total (ReduceInv original)
      (fun state => state.1.topstat.indeg.toNat + state.2.toNat) hstep
      (ctx, true) ⟨original, h, Prunes.refl _, by simp⟩
  refine ⟨final, live, ?_, hlinked, hpruned, hstable hflag⟩
  intro fuel hfuel
  rw [GddCtxReduce, hrun fuel (by simpa [h.top_indeg] using hfuel)]
  rfl

end

section

variable {ctx : GddCtx} {live : Finset GddEdge}

/-- Lists of edges held at the verts of a context enumerate the linked edges,
each once, when every edge has its place at exactly one vert. -/
theorem flatMap_verts_eq_live (h : ctx.Linked live) {held : Int → Int → List GddEdge}
    {place : GddEdge → Int} (hheld : Lists live place held)
    (hplace : ∀ edge ∈ live, place edge ∈ ctx.vertKeys edge.segid) :
    (ctx.graphs.keys.flatMap fun segid =>
      (ctx.vertKeys segid).flatMap fun vid => held segid vid : Multiset GddEdge) = live.val := by
  rw [Multiset.Nodup.ext _ live.nodup]
  · intro edge
    simp only [Multiset.mem_coe, mem_flatMap, hheld.mem, Finset.mem_val]
    constructor
    · rintro ⟨segid, _, vid, _, hlive, -⟩
      exact hlive
    · intro hlive
      exact ⟨edge.segid, (h.placed edge hlive).segid_mem, place edge, hplace edge hlive, hlive,
        rfl, rfl⟩
  · rw [Multiset.coe_nodup, nodup_flatMap]
    constructor
    · intro segid _
      rw [nodup_flatMap]
      refine ⟨fun vid _ => hheld.nodup segid vid, ?_⟩
      refine (h.verts_nodup segid).imp fun hne => ?_
      intro edge hleft hright
      rw [hheld.mem] at hleft hright
      exact hne (hleft.2.2.symm.trans hright.2.2)
    · refine h.graphs_nodup.imp fun hne => ?_
      intro edge hleft hright
      simp only [mem_flatMap, hheld.mem] at hleft hright
      obtain ⟨_, _, -, hsegLeft, -⟩ := hleft
      obtain ⟨_, _, -, hsegRight, -⟩ := hright
      exact hne (hsegLeft.symm.trans hsegRight)

theorem GddCtx.Linked.outEdges_eq (h : ctx.Linked live) :
    (ctx.outEdges : Multiset WaitEdge) = live.val.map GddEdge.toWaitEdge := by
  rw [← flatMap_verts_eq_live h h.out fun edge hedge => (h.placed edge hedge).from_mem,
    Multiset.map_coe]
  simp [GddCtx.outEdges, map_flatMap]

theorem GddCtx.Linked.inEdges_eq (h : ctx.Linked live) :
    (ctx.inEdges : Multiset WaitEdge) = live.val.map GddEdge.toWaitEdge := by
  rw [← flatMap_verts_eq_live h h.into fun edge hedge => (h.placed edge hedge).to_mem,
    Multiset.map_coe]
  simp [GddCtx.inEdges, map_flatMap]

end

/-- Two contexts that hold the same verts, edges and statistics and differ only
in the order in which the arrays of the maps list their keys. -/
structure GddCtx.Reordered (ctx ctx' : GddCtx) : Prop where
  graphs : ctx'.graphs.keys.Perm ctx.graphs.keys
  verts : ∀ segid, (ctx'.vertKeys segid).Perm (ctx.vertKeys segid)
  globals : ctx'.globals.keys.Perm ctx.globals.keys
  vert : ∀ segid vid, ctx'.vert segid vid = ctx.vert segid vid
  global : ∀ vid, ctx'.globals.ptr vid = ctx.globals.ptr vid
  topstat : ctx'.topstat = ctx.topstat
  nextEdge : ctx'.nextEdge = ctx.nextEdge

theorem GddCtx.Reordered.refl (ctx : GddCtx) : ctx.Reordered ctx :=
  ⟨List.Perm.refl _, fun _ => List.Perm.refl _, List.Perm.refl _,
    fun _ _ => rfl, fun _ => rfl, rfl, rfl⟩

theorem GddCtx.Reordered.linked {ctx ctx' : GddCtx} (horder : ctx.Reordered ctx')
    (h : ctx.Linked live) : ctx'.Linked live := by
  refine h.of_maps (fun s v => by simp [horder.vert]) horder.global horder.topstat
    (horder.graphs.nodup_iff.mpr h.graphs_nodup)
    (fun s => (horder.verts s).nodup_iff.mpr (h.verts_nodup s))
    (horder.globals.nodup_iff.mpr h.globals_nodup) fun edge hedge => ?_
  exact (h.placed edge hedge).of_keys horder.graphs.symm.subset (horder.verts _).symm.subset
    horder.globals.symm.subset horder.nextEdge.ge

/-- The edges that survive the reduction are the largest sub-multiset of the
reported edges all of whose edges support each other.  They depend neither on
the order of the reports nor on the order in which the maps list graphs and
verts, and the `while (dirty)` loop terminates. -/
theorem gddCtxReduce_greatest (reported : Multiset WaitEdge) :
    ∃ survivors : Multiset WaitEdge, IsGreatest { part : Multiset WaitEdge | part ≤ reported ∧
        SelfSupporting EdgeSupported { edge | edge ∈ part } } survivors ∧
      ∀ (edges : List WaitEdge) (ctx : GddCtx), (edges : Multiset WaitEdge) =
          reported → (addEdges edges).Reordered ctx → ∃ final, (∀ fuel, edges.length + 1 < fuel →
            GddCtxReduce fuel ctx = some final) ∧ (final.outEdges : Multiset WaitEdge) = survivors ∧
          (final.inEdges : Multiset WaitEdge) = survivors := by
  have hresult : ∀ (edges : List WaitEdge) (ctx : GddCtx), (addEdges edges).Reordered ctx →
      ∃ final, (∀ fuel, edges.length + 1 < fuel → GddCtxReduce fuel ctx = some final) ∧
        final.outEdges = (final.inEdges : Multiset WaitEdge) ∧
        IsGreatest { part : Multiset WaitEdge | part ≤ edges ∧
          SelfSupporting EdgeSupported { edge | edge ∈ part } }
          (final.outEdges : Multiset WaitEdge) := by
    intro edges ctx horder
    obtain ⟨original, hlinked, hvalues⟩ := addEdges_linked edges
    obtain ⟨final, live, hrun, hfinal, hpruned, hstable⟩ :=
      gddCtxReduce_linked (horder.linked hlinked)
    have hlength : original.card = edges.length := by
      rw [← Multiset.coe_card, ← hvalues, Multiset.card_map]
      rfl
    refine ⟨final, hlength ▸ hrun, ?_, ?_⟩
    · rw [hfinal.outEdges_eq, hfinal.inEdges_eq]
    · rw [hfinal.outEdges_eq, ← hvalues]
      exact hpruned.isGreatest edgeSupported_mono hstable
  obtain ⟨first, hfirst⟩ := Quot.exists_rep reported
  obtain ⟨base, -, -, hbase⟩ := hresult first _ (GddCtx.Reordered.refl _)
  change (first : Multiset WaitEdge) = reported at hfirst
  rw [hfirst] at hbase
  refine ⟨_, hbase, ?_⟩
  intro edges ctx hedges horder
  obtain ⟨final, hrun, hsame, hgreatest⟩ := hresult edges ctx horder
  rw [hedges] at hgreatest
  have heq := hgreatest.unique hbase
  exact ⟨final, hrun, heq, hsame ▸ heq⟩

/-- A closed walk through the reported edges in which every dotted edge is
followed by an edge of its own segment. -/
structure DeadlockWalk (edges : List WaitEdge) (n : Nat)
    (walk : Fin (n + 1) → WaitEdge) : Prop where
  reported : ∀ i, walk i ∈ edges
  chained : ∀ i, (walk i).holder = (walk (i + 1)).waiter
  dotted : ∀ i, (walk i).solid = false → (walk (i + 1)).segid = (walk i).segid

theorem DeadlockWalk.selfSupporting {n : Nat} {walk : Fin (n + 1) → WaitEdge}
    (h : DeadlockWalk edges n walk) : SelfSupporting EdgeSupported (Set.range walk) := by
  rintro _ ⟨i, rfl⟩
  refine ⟨⟨walk (i - 1), ⟨i - 1, rfl⟩, ?_⟩, ⟨walk (i + 1), ⟨i + 1, rfl⟩, ?_⟩, ?_⟩
  · have hchain := h.chained (i - 1)
    rwa [sub_add_cancel] at hchain
  · exact (h.chained i).symm
  · intro hdotted
    exact ⟨walk (i + 1), ⟨i + 1, rfl⟩, (h.chained i).symm, h.dotted i hdotted⟩

/-- Following an out edge that keeps each edge in the graph runs into a closed
walk, so a stable remainder that is not empty contains a deadlock. -/
theorem exists_deadlockWalk (hstable : SelfSupporting EdgeSupported (GddEdge.toWaitEdge '' ↑live))
    (hreported : ∀ edge ∈ live, edge.toWaitEdge ∈ edges) (hne : live.Nonempty) :
    ∃ (n : Nat) (walk : Fin (n + 1) → WaitEdge), DeadlockWalk edges n walk := by
  have hnext : ∀ edge : GddEdge, ∃ next : GddEdge, edge ∈ live →
      next ∈ live ∧ next.fromVid = edge.toVid ∧ (edge.solid = false → next.segid = edge.segid) := by
    intro edge
    by_cases hedge : edge ∈ live
    · obtain ⟨-, ⟨_, ⟨out, hout, rfl⟩, hholder⟩, hdotted⟩ := hstable _ ⟨edge, hedge, rfl⟩
      cases hsolid : edge.solid with
      | true => exact ⟨out, fun _ => ⟨hout, hholder, by simp⟩⟩
      | false =>
        obtain ⟨_, ⟨same, hsame, rfl⟩, hwaiter, hseg⟩ := hdotted hsolid
        exact ⟨same, fun _ => ⟨hsame, hwaiter, fun _ => hseg⟩⟩
    · exact ⟨edge, fun hmem => absurd hmem hedge⟩
  choose next hnext using hnext
  obtain ⟨n, orbit, horbit⟩ := exists_cyclic_orbit next (fun edge hedge => (hnext edge hedge).1) hne
  refine ⟨n, fun i => (orbit i).toWaitEdge, ?_, ?_, ?_⟩
  · intro i
    exact hreported _ (horbit i).1
  · intro i
    rw [(horbit i).2]
    exact (hnext _ (horbit i).1).2.1.symm
  · intro i hdotted
    rw [(horbit i).2]
    exact (hnext _ (horbit i).1).2.2 hdotted

/-- The detector reports a deadlock exactly when the reported edges contain a
closed walk in which every dotted edge is followed on its own segment. -/
theorem gddCtxEmpty_reduce_iff (edges : List WaitEdge) :
    ∃ final, (∀ fuel, edges.length + 1 < fuel → GddCtxReduce fuel (addEdges edges) = some final) ∧
      (GddCtxEmpty final = false ↔ ∃ (n : Nat) (walk : Fin (n + 1) → WaitEdge),
          DeadlockWalk edges n walk) := by
  obtain ⟨original, hlinked, hvalues⟩ := addEdges_linked edges
  obtain ⟨final, live, hrun, hfinal, hpruned, hstable⟩ := gddCtxReduce_linked hlinked
  have hlength : original.card = edges.length := by
    rw [← Multiset.coe_card, ← hvalues, Multiset.card_map]
    rfl
  have hreported : ∀ value, value ∈ edges ↔ ∃ edge ∈ original, edge.toWaitEdge = value := by
    intro value
    rw [← Multiset.mem_coe, ← hvalues, Multiset.mem_map]
    rfl
  refine ⟨final, hlength ▸ hrun, ?_⟩
  have hempty : GddCtxEmpty final = false ↔ live.Nonempty := by
    simp [GddCtxEmpty, hfinal.top_indeg, Finset.nonempty_iff_ne_empty]
  rw [hempty]
  constructor
  · apply exists_deadlockWalk hstable
    intro edge hedge
    exact (hreported _).mpr ⟨edge, hpruned.subset hedge, rfl⟩
  · rintro ⟨n, walk, hwalk⟩
    let part : Finset GddEdge := { edge ∈ original | ∃ i, walk i = edge.toWaitEdge }
    have himage : GddEdge.toWaitEdge '' ↑part = Set.range walk := by
      ext value
      simp only [part, Finset.coe_filter, Set.mem_image, Set.mem_ofPred_eq, Set.mem_range]
      constructor
      · rintro ⟨edge, ⟨-, i, heq⟩, rfl⟩
        exact ⟨i, heq⟩
      · rintro ⟨i, rfl⟩
        obtain ⟨edge, hedge, heq⟩ := (hreported _).mp (hwalk.reported i)
        exact ⟨edge, ⟨hedge, i, heq.symm⟩, heq⟩
    have hpart : part ⊆ live := hpruned.selfSupporting_subset edgeSupported_mono
        (Finset.filter_subset _ _) (himage ▸ hwalk.selfSupporting)
    obtain ⟨edge, hedge, heq⟩ := (hreported _).mp (hwalk.reported 0)
    exact ⟨edge, hpart (Finset.mem_filter.mpr ⟨hedge, 0, heq.symm⟩)⟩

namespace GddReduceWitness

/-- Two transactions waiting for each other on two segments, and a third one
that nobody waits for. -/
def waits : List WaitEdge :=
  [⟨0, 1, 2, true⟩, ⟨1, 2, 1, true⟩, ⟨0, 3, 2, false⟩]

theorem waits_reduce_greatest : ∃ final, GddCtxReduce 5 (addEdges waits) = some final ∧
      IsGreatest { part : Multiset WaitEdge | part ≤ waits ∧
        SelfSupporting EdgeSupported { edge | edge ∈ part } }
        (final.outEdges : Multiset WaitEdge) := by
  obtain ⟨survivors, hgreatest, hresult⟩ := gddCtxReduce_greatest waits
  obtain ⟨final, hrun, hout, -⟩ := hresult waits (addEdges waits) rfl (GddCtx.Reordered.refl _)
  exact ⟨final, hrun 5 (by decide), hout ▸ hgreatest⟩

theorem waits_reduce_nonempty :
    ∃ final, GddCtxReduce 5 (addEdges waits) = some final ∧ GddCtxEmpty final = false := by
  obtain ⟨final, hrun, hiff⟩ := gddCtxEmpty_reduce_iff waits
  refine ⟨final, hrun 5 (by decide), hiff.mpr ⟨1, ?_⟩⟩
  refine ⟨fun i => if i = 0 then ⟨0, 1, 2, true⟩ else ⟨1, 2, 1, true⟩, ?_, ?_, ?_⟩
  all_goals decide

end GddReduceWitness

end Greenplum.Gdd
