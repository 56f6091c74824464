/-
The multi-key quicksort of `tuplesort_mkqsort.c`: a partition in three ways around a
pivot, the recursion into the smaller and the greater entries at the same key and
into the equal ones at the next key.
-/
import Greenplum.IndexedCells
import Greenplum.MkEntry

namespace Greenplum.MkSort

open IndexedCells

variable {T D : Type} (ctxt : MKContext T D)

def mkqsSwap (a : List (MKEntry T D)) (i j : Int) : Except MkError (List (MKEntry T D)) :=
  if i ≠ j then swap .outside a i j else .ok a

variable (lv : Nat)

def mkqsComp (a b : MKEntry T D) : Int :=
  let ret := a.compflags.value - b.compflags.value
  if ret = 0 ∧ mkeIsNull a = false then tupsortCompareDatum ctxt lv a.d b.d else ret

variable (a : List (MKEntry T D))

def compAt (i j : Int) : Except MkError Int := do
  let x ← read .outside a i
  let y ← read .outside a j
  return mkqsComp ctxt lv x y

/-- The pointer to the median is given by its index. -/
def mkqsMed3 (i j k : Int) : Except MkError Int := do
  if (← compAt ctxt lv a i j) < 0 then
    if (← compAt ctxt lv a j k) < 0 then
      return j
    else if (← compAt ctxt lv a i k) < 0 then
      return k
    else
      return i
  else
    if (← compAt ctxt lv a j k) > 0 then
      return j
    else if (← compAt ctxt lv a i k) > 0 then
      return k
    else
      return i

def mkqsChoosePivot (left right : Int) : Except MkError Int := do
  let n := right - left + 1
  let pm := left + n / 2
  if n > 7 then
    let pl := left
    let pn := right
    if n > 40 then
      let s := n / 8
      let pl ← mkqsMed3 ctxt lv a pl (pl + s) (pl + s * 2)
      let pm ← mkqsMed3 ctxt lv a (pm - s) pm (pm + s)
      let pn ← mkqsMed3 ctxt lv a (pn - s * 2) (pn - s) pn
      mkqsMed3 ctxt lv a pl pm pn
    else
      mkqsMed3 ctxt lv a pl pm pn
  else
    return pm

variable (v : MKEntry T D)

/-- The innermost loop from the left: the first entry that is not smaller than the
pivot, with the comparison it gave. -/
def skipLess (rightIndex : Int) : Nat → Int → Int → Except MkError (Int × Int)
  | 0, _, _ => .error .unfinished
  | fuel + 1, leftIndex, cmp => do
      let leftIndex := leftIndex + 1
      if leftIndex < rightIndex then
        let e ← read .outside a leftIndex
        let cmp := mkqsComp ctxt lv e v
        if cmp < 0 then
          skipLess rightIndex fuel leftIndex cmp
        else
          return (leftIndex, cmp)
      else
        return (leftIndex, cmp)

/-- The scan from the left up to an entry greater than the pivot; what is equal to
the pivot goes to the left end. -/
def scanLeft (rightIndex : Int) :
    Nat → List (MKEntry T D) → Int → Int → Int → Except MkError (List (MKEntry T D) × Int × Int)
  | 0, _, _, _, _ => .error .unfinished
  | fuel + 1, a, p, leftIndex, cmp => do
      let (leftIndex, cmp) ←
        skipLess ctxt lv a v rightIndex (rightIndex - leftIndex).toNat leftIndex cmp
      if leftIndex = rightIndex ∨ cmp > 0 then
        return (a, p, leftIndex)
      else
        let p := p + 1
        let a ← mkqsSwap a p leftIndex
        scanLeft rightIndex fuel a p leftIndex cmp

/-- The innermost loop from the right. -/
def skipGreater (tmpLeftIndex : Int) : Nat → Int → Int → Except MkError (Int × Int)
  | 0, _, _ => .error .unfinished
  | fuel + 1, rightIndex, cmp => do
      let rightIndex := rightIndex - 1
      if rightIndex > tmpLeftIndex then
        let e ← read .outside a rightIndex
        let cmp := mkqsComp ctxt lv v e
        if cmp < 0 then
          skipGreater tmpLeftIndex fuel rightIndex cmp
        else
          return (rightIndex, cmp)
      else
        return (rightIndex, cmp)

/-- The scan from the right down to an entry smaller than the pivot; what is equal
to the pivot goes to the right end. -/
def scanRight (tmpLeftIndex : Int) :
    Nat → List (MKEntry T D) → Int → Int → Int → Except MkError (List (MKEntry T D) × Int × Int)
  | 0, _, _, _, _ => .error .unfinished
  | fuel + 1, a, q, rightIndex, cmp => do
      let (rightIndex, cmp) ←
        skipGreater ctxt lv a v tmpLeftIndex (rightIndex - tmpLeftIndex).toNat rightIndex cmp
      if tmpLeftIndex = rightIndex ∨ cmp > 0 then
        return (a, q, rightIndex)
      else
        let q := q - 1
        let a ← mkqsSwap a rightIndex q
        scanRight tmpLeftIndex fuel a q rightIndex cmp

/-- The state of the partition: behind the last entry of the left end, before the
first one of the right end, and the two indices that meet. -/
structure Part (T D : Type) where
  a : List (MKEntry T D)
  p : Int
  q : Int
  leftIndex : Int
  rightIndex : Int

def partLoop : Nat → Part T D → Except MkError (Part T D)
  | 0, _ => .error .unfinished
  | fuel + 1, part => do
      let (a, p, leftIndex) ← scanLeft ctxt lv v part.rightIndex
        (part.rightIndex - part.leftIndex).toNat part.a part.p part.leftIndex (-1)
      if leftIndex = part.rightIndex then
        return { part with a := a, p := p, leftIndex := leftIndex - 1 }
      else
        let tmpLeftIndex := leftIndex - 1
        let (a, q, rightIndex) ← scanRight ctxt lv v tmpLeftIndex
          (part.rightIndex - tmpLeftIndex).toNat a part.q part.rightIndex 1
        if tmpLeftIndex = rightIndex then
          return { a := a, p := p, q := q, leftIndex := leftIndex - 1,
                   rightIndex := rightIndex + 1 }
        else
          let a ← mkqsSwap a leftIndex rightIndex
          let part := { a := a, p := p, q := q, leftIndex := leftIndex, rightIndex := rightIndex }
          if leftIndex + 1 = rightIndex then
            return part
          else
            partLoop fuel part

/-- The equal entries of the left end go to the middle. -/
def pushLow (p : Int) : Nat → List (MKEntry T D) → Int → Int →
    Except MkError (List (MKEntry T D) × Int)
  | 0, _, _, _ => .error .unfinished
  | fuel + 1, a, k, leftIndex => do
      if k ≤ p then
        let a ← mkqsSwap a k leftIndex
        pushLow p fuel a (k + 1) (leftIndex - 1)
      else
        return (a, leftIndex)

/-- The equal entries of the right end go to the middle. -/
def pushHigh (q : Int) : Nat → List (MKEntry T D) → Int → Int →
    Except MkError (List (MKEntry T D) × Int)
  | 0, _, _, _ => .error .unfinished
  | fuel + 1, a, k, rightIndex => do
      if k ≥ q then
        let a ← mkqsSwap a rightIndex k
        pushHigh q fuel a (k - 1) (rightIndex + 1)
      else
        return (a, rightIndex)

/-- The three ways, with the last of the smaller and the first of the greater
entries. -/
def mkQsortPart3 (left right : Int) : Except MkError (List (MKEntry T D) × Int × Int) := do
  let size := (right - left + 2).toNat
  let pv ← mkqsChoosePivot ctxt lv a left right
  let v ← read .outside a pv
  let part ← partLoop ctxt lv v size
    { a := a, p := left - 1, q := right + 1, leftIndex := left - 1, rightIndex := right + 1 }
  let (a, leftIndex) ← pushLow part.p size part.a left part.leftIndex
  let (a, rightIndex) ← pushHigh part.q size a right part.rightIndex
  return (a, leftIndex, rightIndex)

/-- The loop of `mk_prepare_array` looks at its end only after a step. -/
def prepareLoop (last : Int) : Nat → List (MKEntry T D) → Int →
    Except MkError (List (MKEntry T D))
  | 0, _, _ => .error .unfinished
  | fuel + 1, a, cur => do
      let e ← read .outside a cur
      let e ← mkeSetLv (prepare ctxt e lv) lv
      let a ← write .outside a cur e
      if cur + 1 ≤ last then
        prepareLoop last fuel a (cur + 1)
      else
        return a

def mkPrepareArray (a : List (MKEntry T D)) (i j : Int) (lv : Nat) :
    Except MkError (List (MKEntry T D)) :=
  prepareLoop ctxt lv j ((j - i).toNat + 1) a i

/-- Entries from an index up to one before the other become empty. -/
def freeLoop [Inhabited T] [Inhabited D] (firstInHigh : Int) : Nat → List (MKEntry T D) → Int →
    Except MkError (List (MKEntry T D))
  | 0, _, _ => .error .unfinished
  | fuel + 1, a, toFreeIndex => do
      if toFreeIndex < firstInHigh then
        let a ← write .outside a toFreeIndex mkeSetEmpty
        freeLoop firstInHigh fuel a (toFreeIndex + 1)
      else
        return a

/-- What happens to entries that are equal in all keys. -/
def checkUnique [Inhabited T] [Inhabited D] (a : List (MKEntry T D)) (lastInLow firstInHigh : Int)
    (seenNull : Bool) : Except MkError (List (MKEntry T D)) := do
  if firstInHigh - 1 > lastInLow + 1 ∧ seenNull = false then
    let pivot ← read .outside a (lastInLow + 1)
    if mkeIsNull pivot then
      return a
    else if ctxt.enforceUnique then
      .error .uniqueViolation
    else if ctxt.unique then
      freeLoop firstInHigh (firstInHigh - lastInLow).toNat a (lastInLow + 2)
    else
      return a
  else
    return a

/-- The entries are prepared when the sort goes down a level. -/
def prepareDown (lvdown : Bool) (a : List (MKEntry T D)) (left right : Int) (lv : Nat) :
    Except MkError (List (MKEntry T D)) :=
  if lvdown then mkPrepareArray ctxt a left right lv else .ok a

/-- The equal entries are sorted by the next key, if there is one. -/
def sortEqual [Inhabited T] [Inhabited D]
    (deeper : List (MKEntry T D) → Int → Int → Nat → Bool → Bool →
      Except MkError (List (MKEntry T D)))
    (a : List (MKEntry T D)) (lastInLow firstInHigh : Int) (lv : Nat) (seenNull : Bool) :
    Except MkError (List (MKEntry T D)) :=
  if lv + 1 < ctxt.totalLv then do
    let pivot ← read .outside a (lastInLow + 1)
    deeper a (lastInLow + 1) (firstInHigh - 1) (lv + 1) true (seenNull || mkeIsNull pivot)
  else
    checkUnique ctxt a lastInLow firstInHigh seenNull

variable (queryFinishPending : Int → Int → Nat → Bool)

/-- The flag `QueryFinishPending` can be set at any time: it is given by what each call
finds it to be. -/
def mkQsortImpl [Inhabited T] [Inhabited D] : Nat → List (MKEntry T D) → Int → Int → Nat →
    Bool → Bool → Except MkError (List (MKEntry T D))
  | 0, _, _, _, _, _, _ => .error .unfinished
  | fuel + 1, a, left, right, lv, lvdown, seenNull => do
      if queryFinishPending left right lv then
        return a
      else if right ≤ left then
        return a
      else
        let a ← prepareDown ctxt lvdown a left right lv
        let (a, lastInLow, firstInHigh) ← mkQsortPart3 ctxt lv a left right
        let a ← mkQsortImpl fuel a left lastInLow lv false seenNull
        let a ← sortEqual ctxt (mkQsortImpl fuel) a lastInLow firstInHigh lv seenNull
        mkQsortImpl fuel a firstInHigh right lv false seenNull

/-- The steps a sort of so many entries can need. -/
def sortFuel (n : Nat) : Nat := ctxt.totalLv * (n + 1) + n + 1

def mkQsort [Inhabited T] [Inhabited D] (a : List (MKEntry T D)) (n : Int) :
    Except MkError (List (MKEntry T D)) :=
  mkQsortImpl ctxt queryFinishPending (sortFuel ctxt n.toNat) a 0 (n - 1) 0 true false

/-- The preparation of an array for its first key and the sort. -/
def prepareAndSort [Inhabited T] [Inhabited D] (a : List (MKEntry T D)) :
    Except MkError (List (MKEntry T D)) := do
  let a ← mkPrepareArray ctxt a 0 (a.length - 1) 0
  mkQsort ctxt queryFinishPending a a.length

end Greenplum.MkSort
