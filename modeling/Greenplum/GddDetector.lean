/-
The global deadlock detector of `gdddetector.c`: local wait-for graphs of all
the segments, the cached global degrees, and the reduction that deletes verts
and edges until nothing can be deleted any more.
-/
import Greenplum.WhileLoop

namespace Greenplum.Gdd

/-- A simple int to pointer map, implemented with an array.  `keys` are the
keys of the array in array order, `ptr` is the memory its pointers lead to.
`gddMapSetUnsafe` is only reached for keys that are not in the map, so an
object is addressed by the key it was stored under. -/
structure GddMap (α : Type) where
  keys : List Int
  ptr : Int → α

def gddMapInit {α : Type} (memory : α) : GddMap α := ⟨[], fun _ => memory⟩

/-- Append a new pair without checking for existence. -/
@[simp]
def gddMapSetUnsafe {α : Type} (map : GddMap α) (key : Int) (object : α) : GddMap α :=
  ⟨map.keys ++ [key], Function.update map.ptr key object⟩

/-- Assignment through the pointer stored under a key. -/
@[simp]
def GddMap.store {α : Type} (map : GddMap α) (key : Int) (object : α) : GddMap α :=
  { map with ptr := Function.update map.ptr key object }

/-- In-place delete at an array position: the last pair takes the free place
and the array gets shorter by one. -/
def gddMapIterDelete {α : Type} (map : GddMap α) (pos : Nat) : GddMap α :=
  { map with
    keys := (map.keys.set pos (map.keys.getLastD 0)).dropLast }

/-- A wait relation as the caller reports it. -/
structure WaitEdge where
  segid : Int
  waiter : Int
  holder : Int
  solid : Bool
deriving Repr, DecidableEq

/-- A directed edge.  `address` is the identity of the allocated struct; the
two ends are verts of the local graph `segid`. -/
structure GddEdge where
  address : Nat
  segid : Int
  fromVid : Int
  toVid : Int
  solid : Bool
deriving Repr, DecidableEq

def GddEdge.toWaitEdge (edge : GddEdge) : WaitEdge :=
  ⟨edge.segid, edge.fromVid, edge.toVid, edge.solid⟩

/-- A vert on a segment.  Its id is the key it has in the graph, and its global
statistic is the entry of `GddCtx.globals` with the same id. -/
structure GddVert where
  edgesIn : List GddEdge
  edgesOut : List GddEdge

def gddVertNew : GddVert := ⟨[], []⟩

structure GddGraph where
  verts : GddMap GddVert

def gddGraphNew : GddGraph := ⟨gddMapInit gddVertNew⟩

structure GddStat where
  indeg : Int
  outdeg : Int
deriving Repr, DecidableEq

def gddStatNew : GddStat := ⟨0, 0⟩

/-- The toplevel struct: `topstat` holds the overall degrees, `globals` the
global degrees of every vert id, `graphs` the local graphs. -/
structure GddCtx where
  topstat : GddStat
  globals : GddMap GddStat
  graphs : GddMap GddGraph
  nextEdge : Nat

def GddCtxNew : GddCtx :=
  ⟨gddStatNew, gddMapInit gddStatNew, gddMapInit gddGraphNew, 0⟩

variable (ctx : GddCtx)

def GddCtx.vertKeys (segid : Int) : List Int :=
  (ctx.graphs.ptr segid).verts.keys

variable (segid vid : Int)

def GddCtx.vert : GddVert :=
  (ctx.graphs.ptr segid).verts.ptr vid

def GddCtx.setVerts (verts : GddMap GddVert) : GddCtx :=
  { ctx with graphs := ctx.graphs.store segid ⟨verts⟩ }

def GddCtx.setVert (vert : GddVert) : GddCtx :=
  ctx.setVerts segid ((ctx.graphs.ptr segid).verts.store vid vert)

def GddCtx.setGlobal (stat : GddStat) : GddCtx :=
  { ctx with globals := ctx.globals.store vid stat }

/-- Get the graph with a segment id; a new one is created if it is first
seen. -/
def gddCtxGetGraph : GddCtx :=
  if segid ∈ ctx.graphs.keys then ctx
  else { ctx with graphs := gddMapSetUnsafe ctx.graphs segid gddGraphNew }

/-- Get the global with a vert id; a new one is created if it is first seen. -/
def gddCtxGetGlobalStat : GddCtx :=
  if vid ∈ ctx.globals.keys then ctx
  else { ctx with globals := gddMapSetUnsafe ctx.globals vid gddStatNew }

/-- Get the vert of a graph with a vert id; a new one is created if it is first
seen. -/
def gddGraphGetVert : GddCtx :=
  if vid ∈ ctx.vertKeys segid then ctx
  else ctx.setVerts segid (gddMapSetUnsafe (ctx.graphs.ptr segid).verts vid gddVertNew)

/-- Make an edge in a graph.  The edge is not linked yet. -/
def gddGraphMakeEdge (segid fromVid toVid : Int) (solid : Bool) : GddCtx × GddEdge :=
  let ctx := gddGraphGetVert ctx segid fromVid
  let ctx := gddGraphGetVert ctx segid toVid
  ({ ctx with nextEdge := ctx.nextEdge + 1 }, ⟨ctx.nextEdge, segid, fromVid, toVid, solid⟩)

/-- Count one more edge in the overall and the global degrees. -/
def GddCtx.countEdge (edge : GddEdge) (outdeg indeg : Int) : GddCtx :=
  let ctx := { ctx with topstat :=
    ⟨ctx.topstat.indeg + indeg, ctx.topstat.outdeg + outdeg⟩ }
  let fromStat := ctx.globals.ptr edge.fromVid
  let ctx := ctx.setGlobal edge.fromVid { fromStat with outdeg := fromStat.outdeg + outdeg }
  let toStat := ctx.globals.ptr edge.toVid
  ctx.setGlobal edge.toVid { toStat with indeg := toStat.indeg + indeg }

def GddCtx.setEdgesOut (edges : List GddEdge) : GddCtx :=
  ctx.setVert segid vid { ctx.vert segid vid with edgesOut := edges }

def GddCtx.setEdgesIn (edges : List GddEdge) : GddCtx :=
  ctx.setVert segid vid { ctx.vert segid vid with edgesIn := edges }

/-- Link an edge to its from and to verts and update the degrees. -/
def gddEdgeLink (edge : GddEdge) : GddCtx :=
  let ctx := ctx.countEdge edge 1 1
  let ctx := ctx.setEdgesOut edge.segid edge.fromVid
    ((ctx.vert edge.segid edge.fromVid).edgesOut ++ [edge])
  ctx.setEdgesIn edge.segid edge.toVid ((ctx.vert edge.segid edge.toVid).edgesIn ++ [edge])

/-- Add an edge to one local graph. -/
def GddCtxAddEdge (segid fromVid toVid : Int) (solid : Bool) : GddCtx :=
  let ctx := gddCtxGetGraph ctx segid
  let (ctx, edge) := gddGraphMakeEdge ctx segid fromVid toVid solid
  let ctx := gddCtxGetGlobalStat ctx fromVid
  let ctx := gddCtxGetGlobalStat ctx toVid
  gddEdgeLink ctx edge

/-- A position in an edge list: the cells already passed and the cells from the
current one on.  Deleting the current cell leaves the iterator so that the next
step lands on the cell after it. -/
structure GddListIter where
  passed : List GddEdge
  cells : List GddEdge

def GddListIter.list (iter : GddListIter) : List GddEdge :=
  iter.passed ++ iter.cells

def gddListIterDelete (iter : GddListIter) : GddListIter :=
  ⟨iter.passed, iter.cells.tail⟩

/-- Delete an edge from a list: in place when an iterator is provided, with a
scan otherwise. -/
def gddListDelete (iter : Option GddListIter) (edges : List GddEdge)
    (edge : GddEdge) : List GddEdge :=
  match iter with
  | some iter => (gddListIterDelete iter).list
  | none => edges.erase edge

/-- Unlink an edge from its from vert and update the out degrees. -/
def gddEdgeUnlinkFrom (edge : GddEdge) (fromiter : Option GddListIter) : GddCtx :=
  let ctx := ctx.countEdge edge (-1) 0
  ctx.setEdgesOut edge.segid edge.fromVid
    (gddListDelete fromiter (ctx.vert edge.segid edge.fromVid).edgesOut edge)

/-- Unlink an edge from its to vert and update the in degrees. -/
def gddEdgeUnlinkTo (edge : GddEdge) (toiter : Option GddListIter) : GddCtx :=
  let ctx := ctx.countEdge edge 0 (-1)
  ctx.setEdgesIn edge.segid edge.toVid
    (gddListDelete toiter (ctx.vert edge.segid edge.toVid).edgesIn edge)

def gddEdgeUnlink (edge : GddEdge) (fromiter toiter : Option GddListIter) : GddCtx :=
  gddEdgeUnlinkTo (gddEdgeUnlinkFrom ctx edge fromiter) edge toiter

/-- Walk the in edges of a vert from an iterator position on, unlinking those
that `keep` does not hold for.  The flag becomes true at the first unlink. -/
def unlinkInEdges (keep : GddEdge → Bool) :
    List GddEdge → List GddEdge → GddCtx → Bool → GddCtx × Bool
  | _, [], ctx, dirty => (ctx, dirty)
  | passed, edge :: cells, ctx, dirty =>
    if keep edge then unlinkInEdges keep (passed ++ [edge]) cells ctx dirty
    else unlinkInEdges keep passed cells
      (gddEdgeUnlink ctx edge none (some ⟨passed, edge :: cells⟩)) true

/-- Walk the out edges of a vert, unlinking all of them. -/
def unlinkOutEdges : List GddEdge → GddCtx → Bool → GddCtx × Bool
  | [], ctx, dirty => (ctx, dirty)
  | edge :: cells, ctx, _ =>
    unlinkOutEdges cells (gddEdgeUnlink ctx edge (some ⟨[], edge :: cells⟩) none) true

/-- Unlink all the edges of a vert. -/
def gddVertUnlinkAll : GddCtx × Bool :=
  let (ctx, dirty) := unlinkInEdges (fun _ => false) [] (ctx.vert segid vid).edgesIn ctx false
  unlinkOutEdges (ctx.vert segid vid).edgesOut ctx dirty

def gddVertGetInDegree : Nat :=
  (ctx.vert segid vid).edgesIn.length

def gddVertGetOutDegree : Nat :=
  (ctx.vert segid vid).edgesOut.length

/-- Reduce the edges of a vert.  The flag tells whether anything is deleted. -/
def gddVertReduce : GddCtx × Bool :=
  let global := ctx.globals.ptr vid
  if global.indeg = 0 ∨ global.outdeg = 0 then gddVertUnlinkAll ctx segid vid
  else if gddVertGetOutDegree ctx segid vid = 0 then
    unlinkInEdges GddEdge.solid [] (ctx.vert segid vid).edgesIn ctx false
  else (ctx, false)

/-- The scan over the verts of one graph from array position `pos` on.  One
iteration either moves on or deletes in place, so as many iterations as the
array has places left are enough. -/
def reduceVerts (segid : Int) : Nat → Nat → GddCtx → Bool → GddCtx × Bool
  | 0, _, ctx, dirty => (ctx, dirty)
  | fuel + 1, pos, ctx, dirty =>
    match (ctx.vertKeys segid)[pos]? with
    | none => (ctx, dirty)
    | some vid =>
      let (ctx, reduced) := gddVertReduce ctx segid vid
      if gddVertGetInDegree ctx segid vid = 0 ∧ gddVertGetOutDegree ctx segid vid = 0 then
        reduceVerts segid fuel pos
          (ctx.setVerts segid (gddMapIterDelete (ctx.graphs.ptr segid).verts pos))
          (dirty || reduced)
      else reduceVerts segid fuel (pos + 1) ctx (dirty || reduced)

/-- The scan over all the graphs. -/
def reduceGraphs : List Int → GddCtx → Bool → GddCtx × Bool
  | [], ctx, dirty => (ctx, dirty)
  | segid :: rest, ctx, dirty =>
    let (ctx, dirty) := reduceVerts segid (ctx.vertKeys segid).length 0 ctx dirty
    reduceGraphs rest ctx dirty

/-- Reduce verts and edges until nothing can be deleted. -/
def GddCtxReduce (fuel : Nat) (ctx : GddCtx) : Option GddCtx :=
  (whileLoop Prod.snd (fun state : GddCtx × Bool =>
      reduceGraphs state.1.graphs.keys state.1 false) fuel (ctx, true)).map Prod.fst

/-- True if no edges are left. -/
def GddCtxEmpty : Bool := ctx.topstat.indeg = 0

/-- The linked edges in the order in which `GddCtxDump` walks them. -/
def GddCtx.outEdges : List WaitEdge :=
  ctx.graphs.keys.flatMap fun segid =>
    (ctx.vertKeys segid).flatMap fun vid =>
      (ctx.vert segid vid).edgesOut.map GddEdge.toWaitEdge

/-- The linked edges as their to verts list them. -/
def GddCtx.inEdges : List WaitEdge :=
  ctx.graphs.keys.flatMap fun segid =>
    (ctx.vertKeys segid).flatMap fun vid =>
      (ctx.vert segid vid).edgesIn.map GddEdge.toWaitEdge

/-- Add reported edges to a new context, one after the other. -/
def addEdges (edges : List WaitEdge) : GddCtx :=
  edges.foldl (fun ctx edge =>
    GddCtxAddEdge ctx edge.segid edge.waiter edge.holder edge.solid) GddCtxNew

/-- Remove the vert with a vert id from one graph, with all its local edges. -/
def gddGraphRemoveVid : GddCtx :=
  match (ctx.vertKeys segid).findIdx? (fun id => id = vid) with
  | none => ctx
  | some pos =>
    let ctx := (gddVertUnlinkAll ctx segid vid).1
    ctx.setVerts segid (gddMapIterDelete (ctx.graphs.ptr segid).verts pos)

/-- Remove verts whose vert id equals `vid` on all local graphs. -/
def gddCtxRemoveVid : GddCtx :=
  ctx.graphs.keys.foldl (fun ctx segid => gddGraphRemoveVid ctx segid vid) ctx

/-- One comparison of the search for the max vert id: a vert without edges was
already deleted and is skipped. -/
def raiseMaxVid (segid maxvid vid : Int) : Int :=
  if gddVertGetInDegree ctx segid vid ≠ 0 ∨
      gddVertGetOutDegree ctx segid vid ≠ 0 then max maxvid vid
  else maxvid

/-- Get the max vert id among the verts that still have edges.  The comparison
starts from 0. -/
def gddCtxGetMaxVid : Int :=
  ctx.graphs.keys.foldl (fun maxvid segid =>
    (ctx.vertKeys segid).foldl (raiseMaxVid ctx segid) maxvid) 0

/-- Break deadlocks and return a list of vids to cancel, together with the
context that is left. -/
def GddCtxBreakDeadLock : Nat → GddCtx → List Int → Option (List Int × GddCtx)
  | 0, _, _ => none
  | fuel + 1, ctx, vids =>
    if GddCtxEmpty ctx then some (vids, ctx)
    else
      let maxvid := gddCtxGetMaxVid ctx
      (GddCtxReduce fuel (gddCtxRemoveVid ctx maxvid)).bind fun ctx =>
        GddCtxBreakDeadLock fuel ctx (vids ++ [maxvid])

/-- A row of `pg_dist_wait_status()`: the transaction ids are unsigned. -/
structure WaitStatus where
  segid : Int
  waiterXid : BitVec 32
  holderXid : BitVec 32
  solidedge : Bool
deriving Repr, DecidableEq

/-- The edge that `GddCtxAddEdge` is given for a row: its parameters are of
type int, so an id of 2^31 or more arrives as a negative number. -/
def WaitStatus.toWaitEdge (row : WaitStatus) : WaitEdge :=
  ⟨row.segid, row.waiterXid.toInt, row.holderXid.toInt, row.solidedge⟩

/-- Add the rows to a context, skipping those with a gxid that is not valid. -/
def buildWaitGraph (gxids : List (BitVec 32)) (rows : List WaitStatus) : GddCtx :=
  rows.foldl (fun ctx row =>
    if row.waiterXid ∉ gxids ∨ row.holderXid ∉ gxids then ctx
    else
      let edge := row.toWaitEdge
      GddCtxAddEdge ctx edge.segid edge.waiter edge.holder edge.solid) ctx

/-- The edges `buildWaitGraph` adds for the reported rows. -/
def waitEdges (gxids : List (BitVec 32)) (rows : List WaitStatus) : List WaitEdge :=
  (rows.filter fun row => row.waiterXid ∈ gxids ∧ row.holderXid ∈ gxids).map WaitStatus.toWaitEdge

end Greenplum.Gdd
