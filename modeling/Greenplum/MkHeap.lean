/-
The multi-key heap of `tuplesort_mkheap.c` over readers: every entry holds the key of
the first level at which it differs from the top, and deeper levels are fetched only
when entries cannot be told apart.
-/
import Greenplum.MkQsort

namespace Greenplum.MkSort

open IndexedCells

/-- What a reader delivers: a tuple, or a datum of its own. -/
structure Record (T D : Type) where
  ptr : T
  key : Key D
  deriving DecidableEq, Repr

/-- The entry that is read for a record: all its other bits are zero. -/
def readtup {T D : Type} (record : Record T D) : MKEntry T D where
  compflags := { empty := false, run := 0, lvBits := 0, nullBits := record.key.nullBits }
  reader := 0
  d := record.key.d
  ptr := record.ptr

/-- The heap: its entries, the keys of the top and what the readers still have.  The
choice between equal children alternates. -/
structure MKHeap (T D : Type) where
  lvtops : List (MKEntry T D)
  p : List (MKEntry T D)
  count : Int
  maxentry : Nat
  readers : List (List (Record T D))
  roundrobin : Nat
  deriving DecidableEq, Repr

variable {T D : Type} (ctxt : MKContext T D)

/-- The flags without the null bits. -/
def CompFlags.high (flags : CompFlags) : Int :=
  flags.emptyBit * 0x40000000 + flags.run.val * 0x10000 + flags.lvBits.val * 4

def mkheapCompare (a b : MKEntry T D) : Int :=
  let ret := a.compflags.high - b.compflags.high
  if ret = 0 then
    let ret := a.compflags.value - b.compflags.value
    let ret :=
      if ret = 0 ∧ mkeIsNull a = false then
        tupsortCompareDatum ctxt (mkeGetLv a) a.d b.d
      else ret
    if ctxt.limitmask then -ret else ret
  else
    ret

variable (heap : MKHeap T D)

/-- The child to sift into, and the next turn. -/
def chooseChild (hole : Nat) : Except MkError (Nat × Nat) := do
  let left := 2 * hole + 1
  let right := 2 * hole + 2
  if right < heap.maxentry then
    let l ← read .outside heap.p left
    let r ← read .outside heap.p right
    let c := mkheapCompare ctxt l r
    if c = 0 then
      return (left + heap.roundrobin % 2, heap.roundrobin + 1)
    else if c > 0 then
      return (right, heap.roundrobin)
    else
      return (left, heap.roundrobin)
  else
    return (left, heap.roundrobin)

def placeEntry (hole : Nat) (e : MKEntry T D) : Except MkError (MKHeap T D) := do
  let p ← write .outside heap.p hole e
  return { heap with p := p }

def siftdownLoop (e : MKEntry T D) : Nat → MKHeap T D → Nat → Except MkError (MKHeap T D)
  | 0, _, _ => .error .unfinished
  | fuel + 1, heap, hole => do
      let (child, roundrobin) ← chooseChild ctxt heap hole
      let turned := { heap with roundrobin := roundrobin }
      if child < heap.maxentry then
        let x ← read .outside heap.p child
        if mkheapCompare ctxt e x > 0 then
          let moved ← placeEntry turned hole x
          siftdownLoop e fuel moved child
        else
          placeEntry turned hole e
      else
        placeEntry turned hole e

def mkheapSiftdown (hole : Nat) (e : MKEntry T D) : Except MkError (MKHeap T D) :=
  siftdownLoop ctxt e (heap.maxentry + 1) heap hole

/-- A child that equals its parent is expanded before the parent. -/
def expandChild (deeper : MKHeap T D → Nat → Except MkError (MKHeap T D)) (heap : MKHeap T D)
    (cur child : Nat) : Except MkError (MKHeap T D × Bool) := do
  if child < heap.maxentry then
    let a ← read .outside heap.p cur
    let b ← read .outside heap.p child
    if mkheapCompare ctxt a b = 0 then
      let heap ← deeper heap child
      return (heap, true)
    else
      return (heap, false)
  else
    return (heap, false)

/-- The entry goes down if one of its children was expanded. -/
def resift (cur : Nat) (e : MKEntry T D) (expchild : Bool) : Except MkError (MKHeap T D) :=
  if expchild then mkheapSiftdown ctxt heap cur e else .ok heap

def prepSiftdownLoop (lv : Nat) : Nat → MKHeap T D → Nat → Except MkError (MKHeap T D)
  | 0, _, _ => .error .unfinished
  | fuel + 1, heap, cur => do
      let (heap, expright) ← expandChild ctxt (prepSiftdownLoop lv fuel) heap cur (2 * cur + 2)
      let (heap, expleft) ← expandChild ctxt (prepSiftdownLoop lv fuel) heap cur (2 * cur + 1)
      let x ← read .outside heap.p cur
      let x ← mkeSetLv (prepare ctxt x lv) lv
      let heap ← placeEntry heap cur x
      resift ctxt heap cur x (expright || expleft)

def mkheapPrepSiftdownLv (lv cur : Nat) : Except MkError (MKHeap T D) :=
  prepSiftdownLoop ctxt lv (heap.maxentry + 1) heap cur

/-- The entry of one level is the top, prepared for it, or stays as it is. -/
def updateLvtop (topLv lv : Nat) (heap : MKHeap T D) : Except MkError (MKHeap T D) := do
  if lv ≤ topLv then
    let top ← read .outside heap.p (0 : Int)
    let top := prepare ctxt top lv
    let p ← write .outside heap.p 0 top
    let entry ← mkeSetLv top lv
    let lvtops ← write .outside heap.lvtops lv entry
    return { heap with p := p, lvtops := lvtops }
  else
    let old ← read .outside heap.lvtops lv
    let entry ← mkeSetLv old lv
    let lvtops ← write .outside heap.lvtops lv entry
    return { heap with lvtops := lvtops }

def mkheapUpdateLvtops : Except MkError (MKHeap T D) := do
  let top ← read .outside heap.p (0 : Int)
  (List.range ctxt.totalLv).foldlM (fun heap lv => updateLvtop ctxt (mkeGetLv top) lv heap) heap

def mkheapSaveLvtop : Except MkError (MKHeap T D) := do
  let top ← read .outside heap.p (0 : Int)
  let lvtops ← write .outside heap.lvtops (mkeGetLv top) top
  return { heap with lvtops := lvtops }

/-- Whether an entry exists and has the flags of another one. -/
def sameFlags (flags : CompFlags) (i : Nat) : Bool :=
  match heap.p[i]? with
  | some e => decide (i < heap.maxentry ∧ flags = e.compflags)
  | none => false

def mkheapNeedHeapify : Bool :=
  match heap.p[0]? with
  | some top => decide (heap.count > 1 ∧ mkeGetLv top + 1 < ctxt.totalLv) &&
      (sameFlags heap top.compflags 1 || sameFlags heap top.compflags 2)
  | none => false

def buildLoop : Nat → MKHeap T D → Except MkError (MKHeap T D)
  | 0, heap => .ok heap
  | i + 1, heap => do
      let tmp ← read .outside heap.p i
      let heap ← mkheapSiftdown ctxt heap i tmp
      buildLoop i heap

def deepenLoop : Nat → MKHeap T D → Except MkError (MKHeap T D)
  | 0, _ => .error .unfinished
  | fuel + 1, heap => do
      let top ← read .outside heap.p (0 : Int)
      if mkeGetLv top + 1 < ctxt.totalLv then
        let saved ← mkheapSaveLvtop heap
        let deeper ← mkheapPrepSiftdownLv ctxt saved (mkeGetLv top + 1) 0
        deepenLoop fuel deeper
      else
        return heap

/-- The entries at their first level become a heap, from the parent of the last one
down to the top. -/
def buildHeap (doLv0 : Bool) : Except MkError (MKHeap T D) :=
  if doLv0 then buildLoop ctxt ((heap.maxentry - 1) / 2 + 1) heap else .ok heap

def mkheapHeapify (doLv0 : Bool) : Except MkError (MKHeap T D) := do
  let heap ← buildHeap ctxt heap doLv0
  deepenLoop ctxt (ctxt.totalLv + 1) heap

/-- The first entry of every reader that has one, and what the readers keep. -/
def readFirst : List (List (Record T D)) → Nat → List (MKEntry T D) × List (List (Record T D))
  | [], _ => ([], [])
  | [] :: readers, i =>
    let (entries, rest) := readFirst readers (i + 1)
    (entries, [] :: rest)
  | (record :: records) :: readers, i =>
    let (entries, rest) := readFirst readers (i + 1)
    (mkeSetReader (readtup record) i :: entries, records :: rest)

section

variable [Inhabited T] [Inhabited D]

/-- An entry of freshly allocated memory. -/
def zeroEntry : MKEntry T D where
  compflags := { empty := false, run := 0, lvBits := 0, nullBits := 0 }
  reader := 0
  d := default
  ptr := default

variable (readers : List (List (Record T D)))

def mkheapFromReader (roundrobin : Nat) : Except MkError (MKHeap T D) := do
  let (entries, rest) := readFirst readers 0
  let heap : MKHeap T D :=
    { lvtops := List.replicate ctxt.totalLv zeroEntry, p := entries, count := entries.length,
      maxentry := entries.length, readers := rest, roundrobin := roundrobin }
  if entries.length > 0 then
    let p ← mkPrepareArray ctxt entries 0 (entries.length - 1) 0
    mkheapHeapify ctxt { heap with p := p } true
  else
    return heap

/-- Whether two entries of the heap exist and are equal. -/
def equalAt (i : Nat) : Except MkError Bool := do
  if i < heap.maxentry then
    let top ← read .outside heap.p (0 : Int)
    let e ← read .outside heap.p i
    return decide (mkheapCompare ctxt top e = 0)
  else
    return false

def mkeHasDuplicatesWithRoot : Except MkError Bool := do
  let top ← read .outside heap.p (0 : Int)
  if mkeGetLv top + 1 ≠ ctxt.totalLv then
    return false
  else
    let right ← equalAt ctxt heap 2
    let left ← equalAt ctxt heap 1
    return right || left

def checkDuplicates : Except MkError Unit := do
  if ctxt.enforceUnique then
    if (← mkeHasDuplicatesWithRoot ctxt heap) then
      .error .uniqueViolation
    else
      return ()
  else
    return ()

/-- The levels of the new entry up to the one at which it differs from the keys of the
top; the last comparison with them is given, too. -/
def matchLevels (lvtops : List (MKEntry T D)) (toplv : Nat) :
    Nat → MKEntry T D → Nat → Except MkError (MKEntry T D × Nat × Int)
  | 0, _, _ => .error .unfinished
  | fuel + 1, e, lv => do
      if lv < toplv then
        let e := prepare ctxt e lv
        let lvtop ← read .outside lvtops lv
        let c := mkheapCompare ctxt e lvtop
        if c ≠ 0 then
          return (e, lv, c)
        else
          let e ← mkeSetLv e (lv + 1)
          matchLevels lvtops toplv fuel e (lv + 1)
      else
        return (e, lv, 0)

/-- The top and an entry that equals it are expanded until they differ. -/
def expandEqual : Nat → MKHeap T D → MKEntry T D → Nat →
    Except MkError (MKHeap T D × MKEntry T D × Int)
  | 0, _, _, _ => .error .unfinished
  | fuel + 1, heap, e, lv => do
      if lv + 1 < ctxt.totalLv then
        let saved ← mkheapSaveLvtop heap
        let lv := lv + 1
        let top ← read .outside saved.p (0 : Int)
        let top ← mkeSetLv (prepare ctxt top lv) lv
        let heap ← placeEntry saved 0 top
        let e ← mkeSetLv (prepare ctxt e lv) lv
        let c := mkheapCompare ctxt e top
        if c ≠ 0 then
          return (heap, e, c)
        else
          expandEqual fuel heap e lv
      else
        return (heap, e, 0)

/-- How an entry of the run of the top compares with the top; both are expanded as far
as it takes to tell. -/
def fitEntry (e : MKEntry T D) :
    Except MkError (MKHeap T D × MKEntry T D × Int) := do
  let top ← read .outside heap.p (0 : Int)
  let toplv := mkeGetLv top
  let e ← mkeSetLv e 0
  let (e, lv, c) ← matchLevels ctxt heap.lvtops toplv (toplv + 1) e 0
  if c < 0 then
    return (heap, e, -1)
  else if lv = toplv then
    let e := prepare ctxt e lv
    let c := mkheapCompare ctxt e top
    if c < 0 then
      return (heap, e, -1)
    else if c = 0 then
      expandEqual ctxt (ctxt.totalLv + 1) heap e lv
    else
      return (heap, e, c)
  else
    return (heap, e, c)

/-- The keys of the top are kept for the next entry, if there is a top. -/
def keepLvtops : Except MkError (MKHeap T D) :=
  if heap.count > 0 then mkheapUpdateLvtops ctxt heap else .ok heap

def heapifyIfNeeded : Except MkError (MKHeap T D) :=
  if mkheapNeedHeapify ctxt heap then mkheapHeapify ctxt heap false else .ok heap

/-- The new entry goes in, and the top comes out. -/
def replaceTop (e : MKEntry T D) :
    Except MkError (MKHeap T D × MKEntry T D × Int) := do
  let top ← read .outside heap.p (0 : Int)
  let heap ← mkheapSiftdown ctxt heap 0 e
  let heap ← heapifyIfNeeded ctxt heap
  let heap ← keepLvtops ctxt heap
  return (heap, top, 1)

/-- An entry of another run is only prepared for its first level. -/
def prepareOtherRun (e : MKEntry T D) : Except MkError (MKEntry T D) :=
  if mkeGetLv e ≠ 0 then mkeSetLv (prepare ctxt e 0) 0 else .ok e

def mkheapPutAndGetImpl (e : MKEntry T D) :
    Except MkError (MKHeap T D × MKEntry T D × Int) := do
  checkDuplicates ctxt heap
  let top ← read .outside heap.p (0 : Int)
  if mkeIsEmpty e then
    replaceTop ctxt { heap with count := heap.count - 1 } e
  else if mkeGetRun e ≠ mkeGetRun top then
    let e ← prepareOtherRun ctxt e
    replaceTop ctxt heap e
  else
    let (heap, e, c) ← fitEntry ctxt heap e
    if c > 0 then
      replaceTop ctxt heap e
    else if c = 0 ∧ ctxt.enforceUnique then
      .error .uniqueViolation
    else
      return (heap, e, c)

/-- The next entry of a reader, or an empty one. -/
def readNext (n : Nat) : Except MkError (MKHeap T D × MKEntry T D) :=
  match heap.readers[n]? with
  | none => .error .outside
  | some [] => .ok (heap, mkeSetEmpty)
  | some (record :: records) =>
    .ok ({ heap with readers := heap.readers.set n records }, mkeSetReader (readtup record) n)

def mkheapPutAndGetReader :
    Except MkError (MKHeap T D × MKEntry T D × Int) := do
  if heap.count = 0 then
    return (heap, mkeSetEmpty, -1)
  else
    let top ← read .outside heap.p (0 : Int)
    let (heap, out) ← readNext heap (mkeGetReader top)
    mkheapPutAndGetImpl ctxt heap out

def mkheapPutAndGet (out : MKEntry T D) : Except MkError (MKHeap T D × MKEntry T D × Int) :=
  if heap.readers.length > 0 then mkheapPutAndGetReader ctxt heap
  else mkheapPutAndGetImpl ctxt heap out

/-- The entries that come out of the heap until an empty one does. -/
def drain : Nat → MKHeap T D → Except MkError (List (MKEntry T D))
  | 0, _ => .error .unfinished
  | fuel + 1, heap => do
      let (heap, out, _) ← mkheapPutAndGet ctxt heap mkeSetEmpty
      if mkeIsEmpty out then
        return []
      else
        let rest ← drain fuel heap
        return out :: rest

def recordCount : Nat :=
  (readers.map List.length).sum

/-- A heap is made of the readers and emptied. -/
def mergeReaders (roundrobin : Nat) : Except MkError (List (MKEntry T D)) := do
  let heap ← mkheapFromReader ctxt readers roundrobin
  drain ctxt (recordCount readers + 1) heap

end

end Greenplum.MkSort
