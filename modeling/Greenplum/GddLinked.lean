/-
The consistency invariant of a detector context: which edges are linked, that
both ends list them exactly once, and that the cached degrees count them.
Linking and unlinking one edge change the linked set by that edge alone.
-/
import Greenplum.GddDetector
import Mathlib.Data.Finset.Card

namespace Greenplum.Gdd

open List

section

variable (ctx : GddCtx) (segid vid : Int) (vert : GddVert)

@[simp] theorem setVert_vert (s v : Int) : (ctx.setVert segid vid vert).vert s v =
      if s = segid ∧ v = vid then vert else ctx.vert s v := by
  by_cases hs : s = segid
  · subst hs
    by_cases hv : v = vid
    · subst hv
      simp [GddCtx.vert, GddCtx.setVert, GddCtx.setVerts]
    · simp [GddCtx.vert, GddCtx.setVert, GddCtx.setVerts, hv]
  · simp [GddCtx.vert, GddCtx.setVert, GddCtx.setVerts, hs]

@[simp] theorem setVerts_vertKeys (verts : GddMap GddVert) (s : Int) :
    (ctx.setVerts segid verts).vertKeys s =
      if s = segid then verts.keys else ctx.vertKeys s := by
  by_cases hs : s = segid
  · subst hs
    simp [GddCtx.vertKeys, GddCtx.setVerts]
  · simp [GddCtx.vertKeys, GddCtx.setVerts, hs]

@[simp] theorem setVert_vertKeys (s : Int) :
    (ctx.setVert segid vid vert).vertKeys s = ctx.vertKeys s := by
  by_cases hs : s = segid
  · subst hs
    simp [GddCtx.setVert, GddCtx.setVerts, GddCtx.vertKeys]
  · simp [GddCtx.setVert, hs]

@[simp] theorem setVert_globals : (ctx.setVert segid vid vert).globals = ctx.globals := rfl

@[simp] theorem setVert_topstat : (ctx.setVert segid vid vert).topstat = ctx.topstat := rfl

variable (edges : List GddEdge)

@[simp] theorem setEdgesOut_edgesOut (s v : Int) :
    ((ctx.setEdgesOut segid vid edges).vert s v).edgesOut =
      if s = segid ∧ v = vid then edges else (ctx.vert s v).edgesOut := by
  simp only [GddCtx.setEdgesOut, setVert_vert]
  split <;> rfl

@[simp] theorem setEdgesOut_edgesIn (s v : Int) :
    ((ctx.setEdgesOut segid vid edges).vert s v).edgesIn = (ctx.vert s v).edgesIn := by
  simp only [GddCtx.setEdgesOut, setVert_vert]
  split
  · rename_i h
    rw [h.1, h.2]
  · rfl

@[simp] theorem setEdgesIn_edgesIn (s v : Int) :
    ((ctx.setEdgesIn segid vid edges).vert s v).edgesIn =
      if s = segid ∧ v = vid then edges else (ctx.vert s v).edgesIn := by
  simp only [GddCtx.setEdgesIn, setVert_vert]
  split <;> rfl

@[simp] theorem setEdgesIn_edgesOut (s v : Int) :
    ((ctx.setEdgesIn segid vid edges).vert s v).edgesOut = (ctx.vert s v).edgesOut := by
  simp only [GddCtx.setEdgesIn, setVert_vert]
  split
  · rename_i h
    rw [h.1, h.2]
  · rfl

variable (edge : GddEdge) (outdeg indeg : Int)

@[simp] theorem countEdge_vert (s v : Int) :
    (ctx.countEdge edge outdeg indeg).vert s v = ctx.vert s v := rfl

@[simp] theorem countEdge_vertKeys (s : Int) :
    (ctx.countEdge edge outdeg indeg).vertKeys s = ctx.vertKeys s := rfl

@[simp] theorem countEdge_topstat : (ctx.countEdge edge outdeg indeg).topstat =
      ⟨ctx.topstat.indeg + indeg, ctx.topstat.outdeg + outdeg⟩ := rfl

theorem countEdge_indeg (v : Int) : ((ctx.countEdge edge outdeg indeg).globals.ptr v).indeg =
      (ctx.globals.ptr v).indeg + if edge.toVid = v then indeg else 0 := by
  by_cases hto : v = edge.toVid <;> by_cases hfrom : v = edge.fromVid <;>
    simp_all [GddCtx.countEdge, GddCtx.setGlobal, Function.update_apply, eq_comm]

theorem countEdge_outdeg (v : Int) : ((ctx.countEdge edge outdeg indeg).globals.ptr v).outdeg =
      (ctx.globals.ptr v).outdeg + if edge.fromVid = v then outdeg else 0 := by
  by_cases hto : v = edge.toVid <;> by_cases hfrom : v = edge.fromVid <;>
    simp_all [GddCtx.countEdge, GddCtx.setGlobal, Function.update_apply, eq_comm]

end

/-- The maps hold both ends of the edge, and its address has been handed out. -/
structure GddEdge.Placed (ctx : GddCtx) (edge : GddEdge) : Prop where
  segid_mem : edge.segid ∈ ctx.graphs.keys
  from_mem : edge.fromVid ∈ ctx.vertKeys edge.segid
  to_mem : edge.toVid ∈ ctx.vertKeys edge.segid
  from_global : edge.fromVid ∈ ctx.globals.keys
  to_global : edge.toVid ∈ ctx.globals.keys
  address_lt : edge.address < ctx.nextEdge

theorem GddEdge.Placed.of_keys {ctx ctx' : GddCtx} {edge : GddEdge} (h : edge.Placed ctx)
    (hgraphs : ctx.graphs.keys ⊆ ctx'.graphs.keys)
    (hverts : ctx.vertKeys edge.segid ⊆ ctx'.vertKeys edge.segid)
    (hglobals : ctx.globals.keys ⊆ ctx'.globals.keys) (hnext : ctx.nextEdge ≤ ctx'.nextEdge) :
    edge.Placed ctx' :=
  ⟨hgraphs h.segid_mem, hverts h.from_mem, hverts h.to_mem, hglobals h.from_global,
    hglobals h.to_global, lt_of_lt_of_le h.address_lt hnext⟩

/-- Lists of the linked edges by their graph and one of their ends. -/
structure Lists (live : Finset GddEdge) (key : GddEdge → Int)
    (lists : Int → Int → List GddEdge) : Prop where
  mem : ∀ segid vid edge, edge ∈ lists segid vid ↔ edge ∈ live ∧ edge.segid = segid ∧ key edge = vid
  nodup : ∀ segid vid, (lists segid vid).Nodup

/-- The edges of `live` are linked in the context, and no others. -/
structure GddCtx.Linked (ctx : GddCtx) (live : Finset GddEdge) : Prop where
  graphs_nodup : ctx.graphs.keys.Nodup
  verts_nodup : ∀ segid, (ctx.vertKeys segid).Nodup
  globals_nodup : ctx.globals.keys.Nodup
  placed : ∀ edge ∈ live, edge.Placed ctx
  out : Lists live GddEdge.fromVid fun segid vid => (ctx.vert segid vid).edgesOut
  into : Lists live GddEdge.toVid fun segid vid => (ctx.vert segid vid).edgesIn
  top_indeg : ctx.topstat.indeg = live.card
  top_outdeg : ctx.topstat.outdeg = live.card
  global_indeg : ∀ vid, (ctx.globals.ptr vid).indeg =
    (live.filter fun edge => edge.toVid = vid).card
  global_outdeg : ∀ vid, (ctx.globals.ptr vid).outdeg =
    (live.filter fun edge => edge.fromVid = vid).card

theorem gddCtxNew_linked : GddCtxNew.Linked ∅ := by
  constructor <;>
    simp [GddCtxNew, gddMapInit, gddStatNew, gddGraphNew, gddVertNew, GddCtx.vertKeys, GddCtx.vert]
  all_goals exact ⟨by simp, by simp⟩

/-- Changes of the maps that leave the edge lists and the statistics alone keep
the invariant as long as the ends of the linked edges stay in the maps. -/
theorem GddCtx.Linked.of_maps {ctx ctx' : GddCtx} {live : Finset GddEdge} (h : ctx.Linked live)
    (hedges : ∀ s v, (ctx'.vert s v).edgesOut = (ctx.vert s v).edgesOut ∧
      (ctx'.vert s v).edgesIn = (ctx.vert s v).edgesIn)
    (hstat : ∀ v, ctx'.globals.ptr v = ctx.globals.ptr v) (htop : ctx'.topstat = ctx.topstat)
    (hgraphs : ctx'.graphs.keys.Nodup) (hverts : ∀ s, (ctx'.vertKeys s).Nodup)
    (hglobals : ctx'.globals.keys.Nodup) (hplaced : ∀ edge ∈ live, edge.Placed ctx') :
    ctx'.Linked live where
  graphs_nodup := hgraphs
  verts_nodup := hverts
  globals_nodup := hglobals
  placed := hplaced
  out := by simpa only [hedges] using h.out
  into := by simpa only [hedges] using h.into
  top_indeg := by rw [htop]; exact h.top_indeg
  top_outdeg := by rw [htop]; exact h.top_outdeg
  global_indeg v := by rw [hstat]; exact h.global_indeg v
  global_outdeg v := by rw [hstat]; exact h.global_outdeg v

theorem nodup_append_new {α : Type} {items : List α} {item : α}
    (hitems : items.Nodup) (hnew : item ∉ items) : (items ++ [item]).Nodup := by
  rw [nodup_append]
  refine ⟨hitems, by simp, ?_⟩
  intro old hold added hadded heq
  rw [mem_singleton] at hadded
  exact hnew (hadded ▸ heq ▸ hold)

section

variable {ctx : GddCtx} {live : Finset GddEdge}

theorem gddCtxGetGlobalStat_frame (ctx : GddCtx) (vid : Int) :
    (gddCtxGetGlobalStat ctx vid).graphs = ctx.graphs ∧
      (gddCtxGetGlobalStat ctx vid).nextEdge = ctx.nextEdge ∧
      vid ∈ (gddCtxGetGlobalStat ctx vid).globals.keys ∧
      ∀ v ∈ ctx.globals.keys, v ∈ (gddCtxGetGlobalStat ctx vid).globals.keys := by
  unfold gddCtxGetGlobalStat
  split
  · rename_i hold
    exact ⟨rfl, rfl, hold, fun v hv => hv⟩
  · exact ⟨rfl, rfl, by simp, fun v hv => by simp [hv]⟩

section

variable (h : ctx.Linked live)

include h

/-- No edge is listed at a vert that is not an end of a linked edge. -/
theorem GddCtx.Linked.edges_eq_nil {segid vid : Int}
    (hfar : ∀ edge ∈ live, edge.segid = segid → edge.fromVid ≠ vid ∧ edge.toVid ≠ vid) :
    (ctx.vert segid vid).edgesOut = [] ∧ (ctx.vert segid vid).edgesIn = [] := by
  constructor <;> rw [eq_nil_iff_forall_not_mem] <;> intro edge hedge
  · obtain ⟨hlive, hseg, hfrom⟩ := (h.out.mem segid vid edge).mp hedge
    exact (hfar edge hlive hseg).1 hfrom
  · obtain ⟨hlive, hseg, hto⟩ := (h.into.mem segid vid edge).mp hedge
    exact (hfar edge hlive hseg).2 hto

/-- A vert that is not in its graph is not an end of a linked edge there. -/
theorem GddCtx.Linked.ends_ne {segid vid : Int} (habsent : vid ∉ ctx.vertKeys segid) :
    ∀ edge ∈ live, edge.segid = segid → edge.fromVid ≠ vid ∧ edge.toVid ≠ vid := by
  rintro edge hedge rfl
  exact ⟨fun heq => habsent (heq ▸ (h.placed edge hedge).from_mem),
    fun heq => habsent (heq ▸ (h.placed edge hedge).to_mem)⟩

theorem gddCtxGetGraph_linked (segid : Int) :
    (gddCtxGetGraph ctx segid).Linked live ∧ segid ∈ (gddCtxGetGraph ctx segid).graphs.keys := by
  unfold gddCtxGetGraph
  split
  · rename_i hold
    exact ⟨h, hold⟩
  · rename_i hnew
    have hfar : ∀ edge ∈ live, edge.segid ≠ segid := by
      intro edge hedge heq
      exact hnew (heq ▸ (h.placed edge hedge).segid_mem)
    have hnil : ∀ vid, (ctx.vert segid vid).edgesOut = [] ∧
        (ctx.vert segid vid).edgesIn = [] := fun vid =>
      h.edges_eq_nil fun edge hedge heq => absurd heq (hfar edge hedge)
    refine ⟨h.of_maps ?_ (fun _ => rfl) rfl (nodup_append_new h.graphs_nodup hnew) ?_
      h.globals_nodup ?_, by simp⟩
    · intro s v
      by_cases hs : s = segid
      · subst hs
        rw [(hnil v).1, (hnil v).2]
        simp [GddCtx.vert, gddGraphNew, gddMapInit, gddVertNew]
      · simp [GddCtx.vert, hs]
    · intro s
      by_cases hs : s = segid
      · subst hs
        simp [GddCtx.vertKeys, gddGraphNew, gddMapInit]
      · simpa [GddCtx.vertKeys, hs] using h.verts_nodup s
    · intro edge hedge
      refine (h.placed edge hedge).of_keys (subset_append_left _ _) ?_ (List.Subset.refl _)
        (le_refl _)
      simp [GddCtx.vertKeys, hfar edge hedge]

theorem gddCtxGetGlobalStat_linked (vid : Int) : (gddCtxGetGlobalStat ctx vid).Linked live := by
  unfold gddCtxGetGlobalStat
  split
  · exact h
  · rename_i hnew
    have hstat : ctx.globals.ptr vid = gddStatNew := by
      have hindeg := h.global_indeg vid
      have houtdeg := h.global_outdeg vid
      have hto : ∀ edge ∈ live, edge.toVid ≠ vid := fun edge hedge heq =>
        hnew (heq ▸ (h.placed edge hedge).to_global)
      have hfrom : ∀ edge ∈ live, edge.fromVid ≠ vid := fun edge hedge heq =>
        hnew (heq ▸ (h.placed edge hedge).from_global)
      cases hvalue : ctx.globals.ptr vid with
      | mk indeg outdeg =>
        simp_all [gddStatNew]
    refine h.of_maps (fun _ _ => ⟨rfl, rfl⟩) ?_ rfl h.graphs_nodup h.verts_nodup
      (nodup_append_new h.globals_nodup hnew) fun edge hedge => (h.placed edge hedge).of_keys
        (List.Subset.refl _) (List.Subset.refl _) (subset_append_left _ _) (le_refl _)
    intro v
    by_cases hv : v = vid
    · subst hv
      simp [hstat]
    · simp [hv]

theorem gddGraphGetVert_linked (segid vid : Int) : (gddGraphGetVert ctx segid vid).Linked live := by
  unfold gddGraphGetVert
  split
  · exact h
  · rename_i hnew
    obtain ⟨hout, hin⟩ := h.edges_eq_nil (h.ends_ne hnew)
    refine h.of_maps ?_ (fun _ => rfl) rfl h.graphs_nodup ?_ h.globals_nodup ?_
    · intro s v
      by_cases hs : s = segid
      · subst hs
        by_cases hv : v = vid
        · subst hv
          rw [hout, hin]
          simp [GddCtx.vert, GddCtx.setVerts, gddVertNew]
        · simp [GddCtx.vert, GddCtx.setVerts, hv]
      · simp [GddCtx.vert, GddCtx.setVerts, hs]
    · intro s
      by_cases hs : s = segid
      · subst hs
        rw [setVerts_vertKeys, if_pos rfl]
        exact nodup_append_new (h.verts_nodup s) hnew
      · simpa [hs] using h.verts_nodup s
    · intro edge hedge
      refine (h.placed edge hedge).of_keys (List.Subset.refl _) ?_ (List.Subset.refl _) (le_refl _)
      rw [setVerts_vertKeys]
      split
      case isTrue heq => exact heq ▸ subset_append_left _ _
      case isFalse => exact List.Subset.refl _

end

theorem gddGraphGetVert_frame (ctx : GddCtx) (segid vid : Int) :
    (gddGraphGetVert ctx segid vid).graphs.keys = ctx.graphs.keys ∧
      vid ∈ (gddGraphGetVert ctx segid vid).vertKeys segid ∧ ∀ v ∈ ctx.vertKeys segid,
        v ∈ (gddGraphGetVert ctx segid vid).vertKeys segid := by
  unfold gddGraphGetVert
  split
  · rename_i hold
    exact ⟨rfl, hold, fun v hv => hv⟩
  · simp only [setVerts_vertKeys, if_true]
    exact ⟨rfl, by simp, fun v hv => mem_append.mpr (.inl hv)⟩

end

section

variable {live : Finset GddEdge} {key : GddEdge → Int}
  {lists lists' : Int → Int → List GddEdge} {edge : GddEdge}

/-- What an iterator must say about the list it walks, and what deleting the
current edge through it, or with a scan, leaves of the list. -/
def IterAt (iter : Option GddListIter) (edges : List GddEdge) (edge : GddEdge) : Prop :=
  ∀ position, iter = some position → position.list = edges ∧ position.cells.head? = some edge

theorem iterAt_none (edges : List GddEdge) : IterAt none edges edge := nofun

theorem iterAt_here {passed cells edges : List GddEdge} (hlist : edges = passed ++ edge :: cells) :
    IterAt (some ⟨passed, edge :: cells⟩) edges edge := by
  rintro position ⟨⟩
  exact ⟨hlist.symm, rfl⟩

theorem gddListDelete_eq_erase {iter : Option GddListIter}
    {edges : List GddEdge} (hiter : IterAt iter edges edge) (hnodup : edges.Nodup) :
    gddListDelete iter edges edge = edges.erase edge := by
  cases iter with
  | none => rfl
  | some position =>
    obtain ⟨hlist, hhead⟩ := hiter position rfl
    obtain ⟨passed, cells⟩ := position
    cases cells with
    | nil => simp at hhead
    | cons current rest =>
      simp only [head?_cons, Option.some.injEq] at hhead
      subst hhead
      subst hlist
      simp only [GddListIter.list] at hnodup
      have hpassed : current ∉ passed := by
        rw [nodup_append] at hnodup
        exact fun hmem => hnodup.2.2 current hmem current (by simp) rfl
      simp [gddListDelete, gddListIterDelete, GddListIter.list, erase_append_right _ hpassed]

theorem Lists.key_ne (h : Lists live key lists) {segid vid : Int}
    (hnone : (lists segid vid).length = 0) (hedge : edge ∈ live) (hseg : edge.segid = segid) :
    key edge ≠ vid := by
  intro hvid
  have hlisted := (h.mem segid vid edge).mpr ⟨hedge, hseg, hvid⟩
  rw [length_eq_zero_iff.mp hnone] at hlisted
  exact not_mem_nil hlisted

theorem Lists.link (h : Lists live key lists) (hnew : edge ∉ live)
    (hlists : ∀ s v, lists' s v = if s = edge.segid ∧ v = key edge then
      lists edge.segid (key edge) ++ [edge] else lists s v) :
    Lists (insert edge live) key lists' where
  mem s v other := by
    rw [hlists, Finset.mem_insert]
    split
    case isTrue hhere =>
      obtain ⟨rfl, rfl⟩ := hhere
      rw [mem_append, h.mem, mem_singleton]
      constructor
      · rintro (⟨hlive, heq⟩ | rfl)
        · exact ⟨.inr hlive, heq⟩
        · exact ⟨.inl rfl, rfl, rfl⟩
      · rintro ⟨rfl | hlive, heq⟩
        · exact .inr rfl
        · exact .inl ⟨hlive, heq⟩
    case isFalse hhere =>
      rw [h.mem]
      constructor
      · rintro ⟨hlive, heq⟩
        exact ⟨.inr hlive, heq⟩
      · rintro ⟨rfl | hlive, hseg, hvid⟩
        · exact absurd ⟨hseg.symm, hvid.symm⟩ hhere
        · exact ⟨hlive, hseg, hvid⟩
  nodup s v := by
    rw [hlists]
    split
    · exact nodup_append_new (h.nodup _ _) fun hmem => hnew ((h.mem _ _ edge).mp hmem).1
    · exact h.nodup s v

theorem Lists.unlink {iter : Option GddListIter} (h : Lists live key lists)
    (hiter : IterAt iter (lists edge.segid (key edge)) edge)
    (hlists : ∀ s v, lists' s v = if s = edge.segid ∧ v = key edge then
      gddListDelete iter (lists edge.segid (key edge)) edge else lists s v) :
    Lists (live.erase edge) key lists' := by
  rw [gddListDelete_eq_erase hiter (h.nodup _ _)] at hlists
  constructor
  case mem =>
    intro s v other
    rw [hlists, Finset.mem_erase, and_assoc, ← h.mem]
    split
    case isTrue hhere =>
      obtain ⟨rfl, rfl⟩ := hhere
      exact (h.nodup _ _).mem_erase_iff
    case isFalse hhere =>
      refine ⟨fun hmem => ⟨?_, hmem⟩, fun hmem => hmem.2⟩
      rintro rfl
      obtain ⟨-, hseg, hvid⟩ := (h.mem s v other).mp hmem
      exact hhere ⟨hseg.symm, hvid.symm⟩
  case nodup =>
    intro s v
    rw [hlists]
    split
    · exact (h.nodup _ _).erase edge
    · exact h.nodup s v

/-- The edges at one end, counted with a new one. -/
theorem card_link (key : GddEdge → Int) {degree v : Int}
    (hdegree : degree = (live.filter fun edge => key edge = v).card) (hnew : edge ∉ live) :
    degree + (if key edge = v then 1 else 0) =
      ((insert edge live).filter fun edge => key edge = v).card := by
  rw [Finset.filter_insert]
  split
  · rw [Finset.card_insert_of_notMem (by simp [hnew])]
    omega
  · omega

theorem card_unlink (key : GddEdge → Int) {degree v : Int}
    (hdegree : degree = (live.filter fun edge => key edge = v).card) (hedge : edge ∈ live) :
    degree + (if key edge = v then -1 else 0) =
      ((live.erase edge).filter fun edge => key edge = v).card := by
  rw [Finset.filter_erase]
  split
  case isTrue hhere =>
    have hsplit := Finset.card_erase_add_one
      (show edge ∈ live.filter fun other => key other = v by simp [hedge, hhere])
    omega
  case isFalse hhere =>
    rw [Finset.erase_eq_of_notMem (by simp [hhere])]
    omega

end

section

variable {ctx : GddCtx} {live : Finset GddEdge} {edge : GddEdge}

/-- A context with the maps of `ctx`, whose lists and degrees have been brought
up to `live'`. -/
theorem GddCtx.Linked.relink {ctx' : GddCtx} {live' : Finset GddEdge} (h : ctx.Linked live)
    (hgraphs : ctx'.graphs.keys = ctx.graphs.keys) (hverts : ∀ s, ctx'.vertKeys s = ctx.vertKeys s)
    (hglobals : ctx'.globals.keys = ctx.globals.keys) (hnext : ctx'.nextEdge = ctx.nextEdge)
    (hplaced : ∀ edge ∈ live', edge.Placed ctx)
    (hout : Lists live' GddEdge.fromVid fun s v => (ctx'.vert s v).edgesOut)
    (hin : Lists live' GddEdge.toVid fun s v => (ctx'.vert s v).edgesIn)
    (htop : ctx'.topstat.indeg = live'.card ∧ ctx'.topstat.outdeg = live'.card)
    (hindeg : ∀ v, (ctx'.globals.ptr v).indeg = (live'.filter fun edge => edge.toVid = v).card)
    (houtdeg : ∀ v, (ctx'.globals.ptr v).outdeg =
      (live'.filter fun edge => edge.fromVid = v).card) : ctx'.Linked live' where
  graphs_nodup := hgraphs ▸ h.graphs_nodup
  verts_nodup s := hverts s ▸ h.verts_nodup s
  globals_nodup := hglobals ▸ h.globals_nodup
  placed edge hedge := (hplaced edge hedge).of_keys (hgraphs ▸ Subset.refl _)
    (hverts _ ▸ Subset.refl _) (hglobals ▸ Subset.refl _) (Nat.le_of_eq hnext.symm)
  out := hout
  into := hin
  top_indeg := htop.1
  top_outdeg := htop.2
  global_indeg := hindeg
  global_outdeg := houtdeg

@[simp] theorem gddEdgeLink_vertKeys (ctx : GddCtx) (edge : GddEdge) (s : Int) :
    (gddEdgeLink ctx edge).vertKeys s = ctx.vertKeys s := by
  simp [gddEdgeLink, GddCtx.setEdgesOut, GddCtx.setEdgesIn]

/-- Linking a new edge whose ends are in the maps adds it to the linked set. -/
theorem gddEdgeLink_linked (h : ctx.Linked live) (hnew : edge ∉ live) (hplaced : edge.Placed ctx) :
    (gddEdgeLink ctx edge).Linked (insert edge live) := by
  have hcard := Finset.card_insert_of_notMem hnew
  have hindeg := h.top_indeg
  have houtdeg := h.top_outdeg
  refine h.relink rfl (gddEdgeLink_vertKeys ctx edge) rfl rfl ?_ ?_ ?_ ?_ ?_ ?_
  · rintro other hother
    rcases Finset.mem_insert.mp hother with rfl | hold
    · exact hplaced
    · exact h.placed other hold
  · exact h.out.link hnew fun s v => by
      simp [gddEdgeLink, setEdgesIn_edgesOut, setEdgesOut_edgesOut, countEdge_vert]
  · exact h.into.link hnew fun s v => by
      simp [gddEdgeLink, setEdgesIn_edgesIn, setEdgesOut_edgesIn, countEdge_vert]
  · simp only [gddEdgeLink, GddCtx.setEdgesIn, GddCtx.setEdgesOut, setVert_topstat,
      countEdge_topstat]
    omega
  · intro v
    simp only [gddEdgeLink, GddCtx.setEdgesIn, GddCtx.setEdgesOut, setVert_globals, countEdge_indeg]
    exact card_link GddEdge.toVid (h.global_indeg v) hnew
  · intro v
    simp only [gddEdgeLink, GddCtx.setEdgesIn, GddCtx.setEdgesOut, setVert_globals,
      countEdge_outdeg]
    exact card_link GddEdge.fromVid (h.global_outdeg v) hnew

@[simp] theorem gddEdgeUnlink_vertKeys (ctx : GddCtx) (edge : GddEdge)
    (fromiter toiter : Option GddListIter) (s : Int) :
    (gddEdgeUnlink ctx edge fromiter toiter).vertKeys s = ctx.vertKeys s := by
  simp [gddEdgeUnlink, gddEdgeUnlinkTo, gddEdgeUnlinkFrom, GddCtx.setEdgesIn, GddCtx.setEdgesOut]

/-- Unlinking a linked edge takes exactly that edge out of the linked set and
leaves the maps alone. -/
theorem gddEdgeUnlink_linked (fromiter toiter : Option GddListIter)
    (h : ctx.Linked live) (hedge : edge ∈ live) (hfromiter : IterAt fromiter
      (ctx.vert edge.segid edge.fromVid).edgesOut edge)
    (htoiter : IterAt toiter (ctx.vert edge.segid edge.toVid).edgesIn edge) :
    (gddEdgeUnlink ctx edge fromiter toiter).Linked (live.erase edge) := by
  have hcard := Finset.card_erase_add_one hedge
  have hindeg := h.top_indeg
  have houtdeg := h.top_outdeg
  refine h.relink rfl (gddEdgeUnlink_vertKeys ctx edge fromiter toiter) rfl rfl
    (fun other hother => h.placed other (Finset.mem_of_mem_erase hother)) ?_ ?_ ?_ ?_ ?_ <;>
    simp only [gddEdgeUnlink, gddEdgeUnlinkTo, gddEdgeUnlinkFrom]
  · exact h.out.unlink hfromiter fun s v => by
      simp [setEdgesIn_edgesOut, setEdgesOut_edgesOut, countEdge_vert]
  · exact h.into.unlink htoiter fun s v => by
      simp [setEdgesIn_edgesIn, setEdgesOut_edgesIn, countEdge_vert]
  · simp only [GddCtx.setEdgesIn, GddCtx.setEdgesOut, setVert_topstat, countEdge_topstat]
    omega
  · intro v
    simp only [GddCtx.setEdgesIn, GddCtx.setEdgesOut, setVert_globals, countEdge_indeg,
      ite_self, Int.add_zero]
    exact card_unlink GddEdge.toVid (h.global_indeg v) hedge
  · intro v
    simp only [GddCtx.setEdgesIn, GddCtx.setEdgesOut, setVert_globals, countEdge_outdeg,
      ite_self, Int.add_zero]
    exact card_unlink GddEdge.fromVid (h.global_outdeg v) hedge

/-- Adding a reported edge links one new edge for it. -/
theorem gddCtxAddEdge_linked (h : ctx.Linked live) (segid fromVid toVid : Int) (solid : Bool) :
    ∃ edge ∉ live, edge.toWaitEdge = ⟨segid, fromVid, toVid, solid⟩ ∧
      (GddCtxAddEdge ctx segid fromVid toVid solid).Linked (insert edge live) := by
  obtain ⟨hgraph, hsegid⟩ := gddCtxGetGraph_linked h segid
  let graphCtx := gddCtxGetGraph ctx segid
  let fromCtx := gddGraphGetVert graphCtx segid fromVid
  let toCtx := gddGraphGetVert fromCtx segid toVid
  let edge : GddEdge := ⟨toCtx.nextEdge, segid, fromVid, toVid, solid⟩
  let madeCtx : GddCtx := { toCtx with nextEdge := toCtx.nextEdge + 1 }
  let boundCtx := gddCtxGetGlobalStat (gddCtxGetGlobalStat madeCtx fromVid) toVid
  have hfromCtx : fromCtx.Linked live := gddGraphGetVert_linked hgraph segid fromVid
  have htoCtx : toCtx.Linked live := gddGraphGetVert_linked hfromCtx segid toVid
  have hmade : madeCtx.Linked live :=
    htoCtx.of_maps (fun _ _ => ⟨rfl, rfl⟩) (fun _ => rfl) rfl htoCtx.graphs_nodup
      htoCtx.verts_nodup htoCtx.globals_nodup fun e he => (htoCtx.placed e he).of_keys
        (List.Subset.refl _) (List.Subset.refl _) (List.Subset.refl _) (Nat.le_succ _)
  have hbound : boundCtx.Linked live :=
    gddCtxGetGlobalStat_linked (gddCtxGetGlobalStat_linked hmade fromVid) toVid
  have hnew : edge ∉ live := fun hmem =>
    lt_irrefl _ ((htoCtx.placed edge hmem).address_lt)
  obtain ⟨hfromKeys, hfromMem, -⟩ := gddGraphGetVert_frame graphCtx segid fromVid
  obtain ⟨htoKeys, htoMem, hkept⟩ := gddGraphGetVert_frame fromCtx segid toVid
  obtain ⟨hgraphs₁, hnext₁, hglobal₁, -⟩ := gddCtxGetGlobalStat_frame madeCtx fromVid
  obtain ⟨hgraphs₂, hnext₂, hglobal₂, hkeep₂⟩ :=
    gddCtxGetGlobalStat_frame (gddCtxGetGlobalStat madeCtx fromVid) toVid
  have hgraphs : boundCtx.graphs = toCtx.graphs := hgraphs₂.trans hgraphs₁
  have hverts : boundCtx.vertKeys segid = toCtx.vertKeys segid := by
    simp [GddCtx.vertKeys, hgraphs]
  refine ⟨edge, hnew, rfl, ?_⟩
  apply gddEdgeLink_linked hbound hnew
  constructor
  · rw [hgraphs, htoKeys, hfromKeys]
    exact hsegid
  · rw [hverts]
    exact hkept _ hfromMem
  · rw [hverts]
    exact htoMem
  · exact hkeep₂ _ hglobal₁
  · exact hglobal₂
  · rw [hnext₂, hnext₁]
    exact Nat.lt_succ_self _

/-- A context built by adding edges links one edge for every reported one. -/
theorem addEdges_linked (edges : List WaitEdge) :
    ∃ live : Finset GddEdge, (addEdges edges).Linked live ∧
      live.val.map GddEdge.toWaitEdge = edges := by
  induction edges using List.reverseRecOn with
  | nil => exact ⟨∅, gddCtxNew_linked, rfl⟩
  | append_singleton front last ih =>
    obtain ⟨live, hlinked, hvalues⟩ := ih
    obtain ⟨edge, hnew, hvalue, hadded⟩ := gddCtxAddEdge_linked hlinked
      last.segid last.waiter last.holder last.solid
    refine ⟨insert edge live, ?_, ?_⟩
    · simpa [addEdges] using hadded
    · rw [Finset.insert_val_of_notMem hnew, Multiset.map_cons, hvalues, hvalue]
      rw [Multiset.cons_coe, Multiset.coe_eq_coe]
      exact perm_append_singleton last front |>.symm

end

end Greenplum.Gdd
