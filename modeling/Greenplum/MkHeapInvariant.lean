/-
The invariant of the multi-key heap between two calls, and the operations that bring
it about: building the heap, expanding its top, keeping the keys of the top.
-/
import Greenplum.MkHeapLevels
import Greenplum.MkQsortOrder

namespace Greenplum.MkSort

open IndexedCells BinaryHeap List Fallible

variable {T D : Type} (ctxt : MKContext T D)

/-- An entry that keeps a key of the top. -/
structure KeepsKey (l : Nat) (top t : MKEntry T D) : Prop where
  empty : t.compflags.empty = false
  run : t.compflags.run = 0
  level : mkeGetLv t = l
  key : keyCompare ctxt l (entryKey t) (keyAt ctxt top l) = .eq

/-- A heap with a top of level `lv`: it is in order, every entry is in its place below
the top, and the keys of the top before its level are kept. -/
structure HeapAt (lv : Nat) (top : MKEntry T D) (heap : MKHeap T D) : Prop where
  size : heap.p.length = heap.maxentry
  ordered : HeapUnder (entryCompare ctxt) heap.p 0
  first : heap.p[0]? = some top
  placed : Placed ctxt lv top top
  level : mkeGetLv top = lv
  levels : lv < ctxt.totalLv
  fits : ∀ y ∈ heap.p, Fits ctxt lv top y
  lvtopsLength : heap.lvtops.length = ctxt.totalLv
  lvtops : ∀ l, l < lv → ∃ t, heap.lvtops[l]? = some t ∧ KeepsKey ctxt l top t

/-- What the operations of the heap do not change. -/
structure Kept (heap next : MKHeap T D) : Prop where
  count : next.count = heap.count
  maxentry : next.maxentry = heap.maxentry
  readers : next.readers = heap.readers
  perm : (next.p.map (content ctxt)).Perm (heap.p.map (content ctxt))

theorem Kept.refl (heap : MKHeap T D) : Kept ctxt heap heap :=
  ⟨rfl, rfl, rfl, List.Perm.refl _⟩

variable {ctxt}

theorem Kept.trans {heap middle next : MKHeap T D} (hfirst : Kept ctxt heap middle)
    (hsecond : Kept ctxt middle next) : Kept ctxt heap next where
  count := hsecond.count.trans hfirst.count
  maxentry := hsecond.maxentry.trans hfirst.maxentry
  readers := hsecond.readers.trans hfirst.readers
  perm := hsecond.perm.trans hfirst.perm

theorem KeepsKey.shift {l : Nat} {top top' t : MKEntry T D} (h : KeepsKey ctxt l top t)
    {count : Nat} (hshares : Shares ctxt count top top') (hl : l < count) :
    KeepsKey ctxt l top' t :=
  ⟨h.empty, h.run, h.level, Std.TransCmp.eq_trans h.key (hshares l hl)⟩

theorem Placed.keepsKey {lv : Nat} {top x : MKEntry T D} (h : Placed ctxt lv top x) :
    KeepsKey ctxt (mkeGetLv x) x x := by
  refine ⟨h.empty, h.run, rfl, ?_⟩
  rw [h.held]
  exact Std.ReflCmp.compare_self

theorem fits_iff_under {lv : Nat} {top : MKEntry T D} {cells : List (MKEntry T D)} :
    FitsUnder ctxt lv top cells 0 ↔ ∀ y ∈ cells, Fits ctxt lv top y := by
  constructor
  · intro h y hy
    obtain ⟨i, hi⟩ := mem_iff_getElem?.1 hy
    exact h i y (Under.zero i) hi
  · intro h i y _ hy
    exact h y (mem_of_getElem? hy)

variable (ctxt)

section

variable {lv : Nat} {top : MKEntry T D} {heap : MKHeap T D}

theorem mkheapSaveLvtop_eq (hfirst : heap.p[0]? = some top)
    (hlevel : mkeGetLv top < heap.lvtops.length) :
    mkheapSaveLvtop heap = .ok { heap with lvtops := heap.lvtops.set (mkeGetLv top) top } := by
  simp [mkheapSaveLvtop, read_zero _ hfirst, write_natCast _ hlevel, ok_bind, pure, Except.pure]

theorem HeapAt.keepsTop {ctxt} (hheap : HeapAt ctxt lv top heap) : KeepsKey ctxt lv top top := by
  have hkeeps := hheap.placed.keepsKey
  rw [hheap.level] at hkeeps
  exact hkeeps

theorem lvtops_save (hheap : HeapAt ctxt lv top heap) {next : MKEntry T D}
    (hshares : Shares ctxt (lv + 1) next top) (l : Nat) (hl : l < lv + 1) :
    ∃ t, (heap.lvtops.set lv top)[l]? = some t ∧ KeepsKey ctxt l next t := by
  have hlength := hheap.lvtopsLength
  have hlevels := hheap.levels
  by_cases hlast : l = lv
  · refine ⟨top, ?_, ?_⟩
    · rw [hlast]
      exact getElem?_set_self (by omega)
    · rw [hlast]
      exact hheap.keepsTop.shift hshares.symm (Nat.lt_succ_self lv)
  · obtain ⟨t, ht, hkeeps⟩ := hheap.lvtops l (by omega)
    refine ⟨t, ?_, hkeeps.shift hshares.symm (by omega)⟩
    rw [getElem?_set_ne' hlast]
    exact ht

theorem HeapAt.equals (h : HeapAt ctxt lv top heap) : Equals ctxt lv top top :=
  ⟨h.placed, h.level, Shares.refl _ _⟩

/-- One level deeper the heap is in order again. -/
theorem deepen_spec (hmask : ctxt.limitmask = false) (hmax : lv + 1 ≤ mkeMaxLv)
    (hheap : HeapAt ctxt lv top heap) (hmore : lv + 1 < ctxt.totalLv) :
    ∃ saved next top', mkheapSaveLvtop heap = .ok saved ∧
      mkheapPrepSiftdownLv ctxt saved (lv + 1) 0 = .ok next ∧
      HeapAt ctxt (lv + 1) top' next ∧ Kept ctxt heap next := by
  have hlength := hheap.lvtopsLength
  have hlevel := hheap.level
  have hpos := (List.getElem?_eq_some_iff.1 hheap.first).1
  have hsize := hheap.size
  have hsave := mkheapSaveLvtop_eq hheap.first (by omega)
  rw [hlevel] at hsave
  obtain ⟨next, hnext, hexpanded, top', htop', hplaced, hlevel'⟩ := prepSiftdownLoop_spec ctxt
    hmask hmax (heap.maxentry + 1)
    { heap with lvtops := heap.lvtops.set lv top } 0 hsize (by dsimp only; omega)
    (by dsimp only; omega) hheap.first (hheap.equals ctxt) hheap.ordered
    (fits_iff_under.2 hheap.fits)
  have hshares : Shares ctxt (lv + 1) top' top := by
    have hshares := hplaced.shares
    rw [hlevel'] at hshares
    exact hshares
  have hrest := hexpanded.rest
  refine ⟨_, next, top', hsave, hnext, ?_, ?_⟩
  · refine ⟨?_, hexpanded.ordered, htop', hplaced.shift hshares.symm, hlevel', hmore, ?_, ?_, ?_⟩
    · rw [hexpanded.reshaped.length, hrest]
      exact hsize
    · intro y hy
      exact (fits_iff_under.1 hexpanded.fits y hy).shift hshares.symm
    · rw [hrest]
      rw [length_set]
      exact hlength
    · rw [hrest]
      exact lvtops_save ctxt hheap hshares
  · refine ⟨?_, ?_, ?_, hexpanded.reshaped.perm⟩
    · rw [hrest]
    · rw [hrest]
    · rw [hrest]

theorem deepenLoop_spec (hmask : ctxt.limitmask = false) (hmax : ctxt.totalLv ≤ mkeMaxLv + 1)
    (fuel lv : Nat) (top : MKEntry T D) (heap : MKHeap T D) (hheap : HeapAt ctxt lv top heap)
    (hfuel : ctxt.totalLv - lv < fuel) :
    ∃ next top', deepenLoop ctxt fuel heap = .ok next ∧
      HeapAt ctxt (ctxt.totalLv - 1) top' next ∧ Kept ctxt heap next := by
  induction fuel generalizing lv top heap with
  | zero => omega
  | succ fuel ih =>
    have hlevels := hheap.levels
    unfold deepenLoop
    simp only [read_zero _ hheap.first, hheap.level, bind, Except.bind]
    by_cases hmore : lv + 1 < ctxt.totalLv
    · obtain ⟨saved, middle, top', hsave, hprep, hmiddle, hkept⟩ :=
        deepen_spec ctxt hmask (by omega) hheap hmore
      obtain ⟨next, top'', hloop, hnext, hkept'⟩ := ih (lv + 1) top' middle hmiddle (by omega)
      rw [if_pos hmore]
      simp only [hsave, hprep]
      exact ⟨next, top'', hloop, hnext, hkept.trans hkept'⟩
    · rw [if_neg hmore]
      have hlast : ctxt.totalLv - 1 = lv := by omega
      rw [hlast]
      exact ⟨heap, top, rfl, hheap, Kept.refl ctxt heap⟩

end

section

variable {heap : MKHeap T D}

/-- A sift from one index on leaves the later subtrees in order. -/
theorem heapUnder_later {cells next : List (MKEntry T D)} {root i : Nat} (hless : root < i)
    (hbefore : HeapUnder (entryCompare ctxt) cells i) (hreshaped : Reshaped id root cells next)
    (hordered : HeapUnder (entryCompare ctxt) next root) :
    HeapUnder (entryCompare ctxt) next i := by
  by_cases hunder : Under root i
  · exact hordered.child hunder
  · apply hbefore.congr
    intro k hk
    apply hreshaped.outside
    intro hroot
    rcases hroot.comparable hk with h | h
    · exact hunder h
    · have hle := h.le
      omega

theorem heapUnder_leaf {cells : List (MKEntry T D)} {i : Nat} (hleaf : cells.length ≤ 2 * i + 1) :
    HeapUnder (entryCompare ctxt) cells i := by
  intro k hk
  refine leAt_children.2 fun j hj _ y _ hy => ?_
  have hle := hk.le
  unfold Child at hj
  rw [getElem?_eq_none (by omega)] at hy
  cases hy

variable (hmask : ctxt.limitmask = false)

include hmask

theorem buildLoop_spec (n : Nat) (heap : MKHeap T D)
    (hsize : heap.p.length = heap.maxentry) (hn : n ≤ heap.maxentry)
    (hlater : ∀ i, n ≤ i → HeapUnder (entryCompare ctxt) heap.p i) :
    ∃ next, buildLoop ctxt n heap = .ok next ∧
      next = { heap with p := next.p, roundrobin := next.roundrobin } ∧
      next.p.Perm heap.p ∧ HeapUnder (entryCompare ctxt) next.p 0 := by
  induction n generalizing heap with
  | zero => exact ⟨heap, rfl, rfl, List.Perm.refl _, hlater 0 (le_refl 0)⟩
  | succ n ih =>
    obtain ⟨x, hx⟩ : ∃ x, heap.p[n]? = some x := ⟨_, getElem?_eq_getElem (by omega)⟩
    obtain ⟨middle, hmiddle, hsifted⟩ := mkheapSiftdown_spec ctxt hmask heap n x hsize (by omega)
      fun j hj => hlater j hj.lt
    rw [set_self hx] at hsifted
    have hrest := hsifted.rest
    have hmaxentry : middle.maxentry = heap.maxentry := by rw [hrest]
    have hperm : middle.p.Perm heap.p := by
      have hperm := hsifted.reshaped.perm
      rw [map_id, map_id] at hperm
      exact hperm
    obtain ⟨next, hnext, hnextRest, hnextPerm, hordered⟩ := ih middle
      (by rw [hsifted.reshaped.length, hmaxentry]; exact hsize) (by omega) (by
        intro i hi
        by_cases hin : i = n
        · rw [hin]
          exact hsifted.ordered
        · exact heapUnder_later ctxt (by omega) (hlater i (by omega)) hsifted.reshaped
            hsifted.ordered)
    refine ⟨next, ?_, ?_, hnextPerm.trans hperm, hordered⟩
    · unfold buildLoop
      simp only [read_natCast _ hx, hmiddle, ok_bind]
      exact hnext
    · rw [hnextRest, hrest]

variable (hsize : heap.p.length = heap.maxentry) (hpos : 0 < heap.maxentry)
  (hlvtops : heap.lvtops.length = ctxt.totalLv) (halike : ∀ e ∈ heap.p, Alike ctxt 0 false 0 e)

include hsize hpos hlvtops halike

theorem buildHeap_spec :
    ∃ built top, buildHeap ctxt heap true = .ok built ∧ HeapAt ctxt 0 top built ∧
      Kept ctxt heap built := by
  obtain ⟨built, hbuild, hrest, hperm, hordered⟩ := buildLoop_spec ctxt hmask
    ((heap.maxentry - 1) / 2 + 1) heap hsize (by omega)
    (fun i hi => heapUnder_leaf ctxt (by omega))
  have hmaxentry : built.maxentry = heap.maxentry := by rw [hrest]
  have hlength := hperm.length_eq
  obtain ⟨top, htop⟩ : ∃ top, built.p[0]? = some top := ⟨_, getElem?_eq_getElem (by omega)⟩
  have hplaced : ∀ e ∈ built.p, Placed ctxt 0 top e := by
    intro e he
    have hal := halike e (hperm.subset he)
    have hlevel := hal.prepared.1
    refine ⟨hal.empty, hal.run, by omega, ?_, ?_, ?_⟩
    · rw [hlevel]
      exact hal.prepared.2
    · rw [hlevel]
      exact fun l hl => absurd hl (Nat.not_lt_zero l)
    · omega
  have htopMem := mem_of_getElem? htop
  refine ⟨built, top, hbuild, ?_, ?_, hmaxentry, ?_, hperm.map _⟩
  · refine ⟨?_, hordered, htop, hplaced top htopMem, ?_, ctxt.totalLv_pos, ?_, ?_, ?_⟩
    · rw [hlength, hmaxentry]
      exact hsize
    · exact (halike top (hperm.subset htopMem)).prepared.1
    · exact fun y hy => .inr (hplaced y hy)
    · rw [hrest]
      exact hlvtops
    · exact fun l hl => absurd hl (Nat.not_lt_zero l)
  · rw [hrest]
  · rw [hrest]

theorem mkheapHeapify_build (hmax : ctxt.totalLv ≤ mkeMaxLv + 1) :
    ∃ next top, mkheapHeapify ctxt heap true = .ok next ∧
      HeapAt ctxt (ctxt.totalLv - 1) top next ∧ Kept ctxt heap next := by
  obtain ⟨built, top, hbuild, hheap, hkept⟩ := buildHeap_spec ctxt hmask hsize hpos hlvtops halike
  obtain ⟨next, top', hloop, hnext, hkept'⟩ := deepenLoop_spec ctxt hmask hmax
    (ctxt.totalLv + 1) 0 top built hheap (by omega)
  refine ⟨next, top', ?_, hnext, hkept.trans hkept'⟩
  simp only [mkheapHeapify, hbuild, ok_bind]
  exact hloop

end

section

variable {lv : Nat} {top : MKEntry T D} {heap : MKHeap T D}

theorem prepare_prepare (e : MKEntry T D) (l l' : Nat) :
    prepare ctxt (prepare ctxt e l) l' = prepare ctxt e l' := by
  rw [prepare_compflags ctxt (prepare ctxt e l), prepare_compflags ctxt e l',
    keyAt_of_content ctxt (content_prepare ctxt e l), prepare_compflags ctxt e l]

theorem prepare_held {e : MKEntry T D} {l : Nat} (hheld : entryKey e = keyAt ctxt e l) :
    prepare ctxt e l = e := by
  rw [prepare_compflags, ← hheld]
  rfl

/-- The top and the kept keys after the update of the first `n` levels. -/
theorem updateLvtops_loop (hmax : ctxt.totalLv ≤ mkeMaxLv + 1) (hheap : HeapAt ctxt lv top heap)
    (n : Nat) (hn : n ≤ ctxt.totalLv) :
    ∃ lvtops, (List.range n).foldlM (fun heap l => updateLvtop ctxt lv l heap) heap =
        .ok { heap with
          p := heap.p.set 0 (if n = 0 then top else prepare ctxt top (min (n - 1) lv)),
          lvtops := lvtops } ∧ lvtops.length = ctxt.totalLv ∧
      ∀ l, l < n → l ≤ lv → lvtops[l]? = some (deepened ctxt l top) := by
  have hpos := (List.getElem?_eq_some_iff.1 hheap.first).1
  induction n with
  | zero =>
    refine ⟨heap.lvtops, ?_, hheap.lvtopsLength, fun l hl => absurd hl (Nat.not_lt_zero l)⟩
    simp only [range_zero, foldlM_nil, if_true, set_self hheap.first]
    rfl
  | succ n ih =>
    obtain ⟨lvtops, hloop, hlength, hkeys⟩ := ih (by omega)
    have hset := mkeSetLv_eq_ok (prepare ctxt top n) (by omega : n ≤ mkeMaxLv)
    have hfirst : (heap.p.set 0 (if n = 0 then top else prepare ctxt top (min (n - 1) lv)))[0]? =
        some (if n = 0 then top else prepare ctxt top (min (n - 1) lv)) :=
      getElem?_set_self hpos
    have hpos' : 0 < (heap.p.set 0
        (if n = 0 then top else prepare ctxt top (min (n - 1) lv))).length := by
      rw [length_set]
      exact hpos
    have hagain : prepare ctxt (if n = 0 then top else prepare ctxt top (min (n - 1) lv)) n =
        prepare ctxt top n := by
      split_ifs
      · rfl
      · exact prepare_prepare ctxt top _ n
    rw [range_succ, foldlM_append, hloop]
    simp only [foldlM_cons, foldlM_nil, ok_bind, pure, Except.pure]
    unfold updateLvtop
    by_cases hle : n ≤ lv
    · simp only [hle, if_true, read_zero _ hfirst, hagain, write_zero _ hpos', hset,
        write_natCast _ (by omega : n < lvtops.length), ok_bind]
      refine ⟨lvtops.set n (deepened ctxt n top), ?_, ?_, ?_⟩
      · have hmin : min (n + 1 - 1) lv = n := by omega
        rw [if_neg (Nat.succ_ne_zero n), hmin, set_set]
        rfl
      · rw [length_set]
        exact hlength
      · intro l hl hlLv
        by_cases hln : l = n
        · rw [hln]
          exact getElem?_set_self (by omega)
        · rw [getElem?_set_ne' hln]
          exact hkeys l (by omega) hlLv
    · obtain ⟨old, hold⟩ : ∃ old, lvtops[n]? = some old := ⟨_, getElem?_eq_getElem (by omega)⟩
      have hsetOld := mkeSetLv_eq_ok old (by omega : n ≤ mkeMaxLv)
      simp only [hle, if_false, read_natCast _ hold, hsetOld,
        write_natCast _ (by omega : n < lvtops.length), ok_bind]
      refine ⟨lvtops.set n (atLv old n), ?_, ?_, ?_⟩
      · have hmin : min (n + 1 - 1) lv = min (n - 1) lv := by omega
        rw [if_neg (Nat.succ_ne_zero n), hmin, if_neg (by omega : ¬ n = 0)]
        rfl
      · rw [length_set]
        exact hlength
      · intro l hl hlLv
        rw [getElem?_set_ne' (by omega)]
        exact hkeys l (by omega) hlLv

/-- The keys of the top are kept again; the entries stay as they are. -/
theorem mkheapUpdateLvtops_spec (hmax : ctxt.totalLv ≤ mkeMaxLv + 1)
    (hheap : HeapAt ctxt lv top heap) :
    ∃ next, mkheapUpdateLvtops ctxt heap = .ok next ∧ HeapAt ctxt lv top next ∧
      next = { heap with lvtops := next.lvtops } := by
  have hlevels := hheap.levels
  obtain ⟨lvtops, hloop, hlength, hkeys⟩ :=
    updateLvtops_loop ctxt hmax hheap ctxt.totalLv (le_refl _)
  have hmin : min (ctxt.totalLv - 1) lv = lv := by omega
  have hheld : entryKey top = keyAt ctxt top lv := by
    have hheld := hheap.placed.held
    rw [hheap.level] at hheld
    exact hheld
  have hsame : heap.p.set 0 (if ctxt.totalLv = 0 then top
      else prepare ctxt top (min (ctxt.totalLv - 1) lv)) = heap.p := by
    rw [if_neg (by omega), hmin, prepare_held ctxt hheld, set_self hheap.first]
  rw [hsame] at hloop
  refine ⟨{ heap with lvtops := lvtops }, ?_, ?_, rfl⟩
  · simp only [mkheapUpdateLvtops, read_zero _ hheap.first, hheap.level, ok_bind]
    exact hloop
  · refine ⟨hheap.size, hheap.ordered, hheap.first, hheap.placed, hheap.level, hlevels, hheap.fits,
      hlength, ?_⟩
    intro l hl
    refine ⟨deepened ctxt l top, hkeys l (by omega) (by omega), ?_⟩
    have hflags := deepened_flags ctxt l top
    have hlMax : l ≤ mkeMaxLv := by omega
    refine ⟨hflags.1.trans hheap.placed.empty, hflags.2.trans hheap.placed.run,
      mkeGetLv_deepened hlMax top, ?_⟩
    exact Std.ReflCmp.compare_self

end

section

variable {lv : Nat} {top : MKEntry T D} {heap : MKHeap T D} {p q : List (MKEntry T D)}
  {e : MKEntry T D}

/-- The entries that are not empty. -/
def liveEntries (p : List (MKEntry T D)) : List (MKEntry T D) :=
  p.filter (fun e => !e.compflags.empty)

theorem mem_liveEntries : e ∈ liveEntries p ↔ e ∈ p ∧ e.compflags.empty = false := by
  unfold liveEntries
  rw [mem_filter, Bool.not_eq_true']

theorem liveEntries_cons (he : e.compflags.empty = false) :
    liveEntries (e :: p) = e :: liveEntries p := by
  unfold liveEntries
  rw [filter_cons_of_pos (by rw [he]; rfl)]

theorem liveEntries_cons_empty (he : e.compflags.empty = true) :
    liveEntries (e :: p) = liveEntries p := by
  unfold liveEntries
  rw [filter_cons_of_neg (by rw [he]; exact Bool.false_ne_true)]

theorem HeapAt.tail {ctxt : MKContext T D} (h : HeapAt ctxt lv top heap) :
    ∃ tail, heap.p = top :: tail := by
  have hfirst := h.first
  cases hp : heap.p with
  | nil =>
    rw [hp] at hfirst
    cases hfirst
  | cons first tail =>
    rw [hp, getElem?_cons_zero] at hfirst
    cases hfirst
    exact ⟨tail, rfl⟩

/-- Nothing but the top can equal the top, unless all its keys are expanded. -/
def Settled (lv : Nat) (top : MKEntry T D) (heap : MKHeap T D) : Prop :=
  lv + 1 = ctxt.totalLv ∨ ∀ i y, 0 < i → heap.p[i]? = some y → entryCompare ctxt top y = .lt

/-- The first entry of a heap below an old top is the new top. -/
theorem heapAt_newTop {new : MKEntry T D} {next : MKHeap T D}
    (hsize : next.p.length = next.maxentry) (hordered : HeapUnder (entryCompare ctxt) next.p 0)
    (hfirst : next.p[0]? = some new) (hplaced : Placed ctxt lv top new)
    (hfits : ∀ y ∈ next.p, Fits ctxt lv top y) (hlevels : lv < ctxt.totalLv)
    (hlvtopsLength : next.lvtops.length = ctxt.totalLv)
    (hlvtops : ∀ l, l < lv → ∃ t, next.lvtops[l]? = some t ∧ KeepsKey ctxt l top t) :
    HeapAt ctxt (mkeGetLv new) new next := by
  have hlevel := hplaced.level
  have hplace : ∀ y ∈ next.p, Fits ctxt (mkeGetLv new) new y := by
    intro y hy
    rcases hfits y hy with hempty | hyPlaced
    · exact .inl hempty
    · right
      obtain ⟨i, hi⟩ := mem_iff_getElem?.1 hy
      have hle := hordered.root_le hfirst (Under.zero i) hi
      -- no entry is deeper than the new top
      have hshift : Placed ctxt (mkeGetLv new) top y :=
        ⟨hyPlaced.empty, hyPlaced.run, hplaced.level_le hyPlaced hle, hyPlaced.held,
          hyPlaced.shares, fun hless => hyPlaced.beyond (by omega)⟩
      exact hshift.shift hplaced.shares.symm
  refine ⟨hsize, hordered, hfirst,
    (hplace new (mem_of_getElem? hfirst)).placed hplaced.empty, rfl, by omega, hplace,
    hlvtopsLength, ?_⟩
  intro l hl
  obtain ⟨t, ht, hkeeps⟩ := hlvtops l (by omega)
  exact ⟨t, ht, hkeeps.shift hplaced.shares.symm hl⟩

/-- The heap between two calls: empty, or in order below a settled top. -/
def HeapReady (heap : MKHeap T D) : Prop :=
  heap.count = (liveEntries heap.p).length ∧
    (heap.count = 0 ∨ ∃ lv top, HeapAt ctxt lv top heap ∧ Settled ctxt lv top heap)

theorem liveContents_perm (h : (p.map (content ctxt)).Perm (q.map (content ctxt))) :
    ((liveEntries p).map (content ctxt)).Perm ((liveEntries q).map (content ctxt)) := by
  have hfilter : ∀ r : List (MKEntry T D), (liveEntries r).map (content ctxt) =
      (r.map (content ctxt)).filter (fun c => !c.empty) := by
    intro r
    rw [filter_map]
    rfl
  rw [hfilter, hfilter]
  exact h.filter _

theorem liveEntries_length_of_perm (h : (p.map (content ctxt)).Perm (q.map (content ctxt))) :
    (liveEntries p).length = (liveEntries q).length := by
  have hlength := (liveContents_perm ctxt h).length_eq
  rw [length_map, length_map] at hlength
  exact hlength

theorem mkheapNeedHeapify_single (hcount : heap.count ≤ 1) :
    mkheapNeedHeapify ctxt heap = false := by
  unfold mkheapNeedHeapify
  cases heap.p[0]? with
  | none => rfl
  | some first =>
    have hnot : ¬ (heap.count > 1 ∧ mkeGetLv first + 1 < ctxt.totalLv) :=
      fun h => absurd h.1 (by omega)
    dsimp only
    rw [decide_eq_false hnot]
    rfl

variable (hheap : HeapAt ctxt lv top heap)

include hheap

/-- Without another entry of its flags next to it, the top comes strictly first. -/
theorem settled_of_flags (hleft : sameFlags heap top.compflags 1 = false)
    (hright : sameFlags heap top.compflags 2 = false) : Settled ctxt lv top heap := by
  have hsize := hheap.size
  have hchild : ∀ {child z}, child = 1 ∨ child = 2 → heap.p[child]? = some z →
      entryCompare ctxt top z = .lt := by
    intro child z hor hz
    have hin := (List.getElem?_eq_some_iff.1 hz).1
    have hle : (entryCompare ctxt top z).isLE := by
      rcases hor with rfl | rfl
      · exact (hheap.ordered 0 Under.refl).1 top z hheap.first hz
      · exact (hheap.ordered 0 Under.refl).2 top z hheap.first hz
    have hflags : top.compflags ≠ z.compflags := by
      have hnot : sameFlags heap top.compflags child = false := by
        rcases hor with rfl | rfl
        · exact hleft
        · exact hright
      unfold sameFlags at hnot
      rw [hz] at hnot
      intro hsame
      exact absurd (of_decide_eq_false hnot) (not_not_intro ⟨by omega, hsame⟩)
    cases hcase : entryCompare ctxt top z with
    | lt => rfl
    | gt =>
      rw [hcase] at hle
      exact absurd hle (by decide)
    | eq =>
      -- equal keys have equal null flags, so all flags would be the same
      exfalso
      have hhigh : top.compflags.high = z.compflags.high := by
        rcases lt_trichotomy top.compflags.high z.compflags.high with h | h | h
        · rw [entryCompare_of_lt ctxt h] at hcase
          cases hcase
        · exact h
        · rw [entryCompare_of_gt ctxt h] at hcase
          cases hcase
      rw [entryCompare_of_eq ctxt hhigh] at hcase
      have hnull : top.compflags.nullBits = z.compflags.nullBits := by
        rcases lt_trichotomy top.compflags.nullBits z.compflags.nullBits with h | h | h
        · rw [keyCompare_of_lt ctxt h] at hcase
          cases hcase
        · exact h
        · rw [keyCompare_of_gt ctxt h] at hcase
          cases hcase
      apply hflags
      rw [← CompFlags.value_inj, CompFlags.value_eq_high, CompFlags.value_eq_high, hhigh, hnull]
  right
  intro i y hi hy
  have hlt := (List.getElem?_eq_some_iff.1 hy).1
  have hbehind : ∀ {child}, child = 1 ∨ child = 2 → Under child i →
      entryCompare ctxt top y = .lt := by
    intro child hor hunder
    have hle := hunder.le
    obtain ⟨z, hz⟩ : ∃ z, heap.p[child]? = some z := ⟨_, getElem?_eq_getElem (by omega)⟩
    exact Std.TransCmp.lt_of_lt_of_isLE (hchild hor hz)
      ((hheap.ordered.child (Under.zero child)).root_le hz hunder hy)
  rcases (Under.zero i).cases_children with hzero | ⟨child, hor, hunder⟩
  · omega
  · exact hbehind hor hunder

theorem settled_of_single (hcount : (liveEntries heap.p).length ≤ 1) :
    Settled ctxt lv top heap := by
  right
  intro i y hi hy
  have hempty : y.compflags.empty = true := by
    obtain ⟨rest, hp⟩ := hheap.tail
    obtain ⟨j, rfl⟩ := Nat.exists_eq_succ_of_ne_zero (by omega : i ≠ 0)
    rw [hp, getElem?_cons_succ] at hy
    by_contra hlive
    have hmem : y ∈ liveEntries rest :=
      mem_liveEntries.2 ⟨mem_of_getElem? hy, Bool.eq_false_iff.2 hlive⟩
    have hpos := length_pos_of_mem hmem
    rw [hp, liveEntries_cons hheap.placed.empty, length_cons] at hcount
    omega
  exact entryCompare_of_lt ctxt (hheap.placed.high_lt_empty hempty)

theorem settled_of_not_need (hcount : heap.count = (liveEntries heap.p).length)
    (hneed : mkheapNeedHeapify ctxt heap = false) : Settled ctxt lv top heap := by
  have hlevels := hheap.levels
  unfold mkheapNeedHeapify at hneed
  rw [hheap.first] at hneed
  dsimp only at hneed
  rw [hheap.level] at hneed
  rcases Bool.and_eq_false_iff.1 hneed with hless | hflags
  · have hnot := of_decide_eq_false hless
    by_cases hsingle : (liveEntries heap.p).length ≤ 1
    · exact settled_of_single ctxt hheap hsingle
    · exact .inl (by omega)
  · obtain ⟨hleft, hright⟩ := Bool.or_eq_false_iff.1 hflags
    exact settled_of_flags ctxt hheap hleft hright

variable (hmask : ctxt.limitmask = false) (hmax : ctxt.totalLv ≤ mkeMaxLv + 1)

include hmask hmax

theorem heapifyIfNeeded_spec (hcount : heap.count = (liveEntries heap.p).length) :
    ∃ next lv' top', heapifyIfNeeded ctxt heap = .ok next ∧ HeapAt ctxt lv' top' next ∧
      Settled ctxt lv' top' next ∧ Kept ctxt heap next := by
  have hlevels := hheap.levels
  unfold heapifyIfNeeded
  by_cases hneed : mkheapNeedHeapify ctxt heap = true
  · rw [if_pos hneed]
    obtain ⟨next, top', hloop, hnext, hkept⟩ := deepenLoop_spec ctxt hmask hmax
      (ctxt.totalLv + 1) lv top heap hheap (by omega)
    refine ⟨next, ctxt.totalLv - 1, top', ?_, hnext, .inl (by omega), hkept⟩
    exact hloop
  · rw [if_neg hneed]
    exact ⟨heap, lv, top, rfl, hheap,
      settled_of_not_need ctxt hheap hcount (Bool.eq_false_iff.2 hneed), Kept.refl ctxt heap⟩

/-- The new entry goes in, the top comes out, and the heap is ready again. -/
theorem replaceTop_spec (he : Fits ctxt lv top e) (count : Int)
    (hcount : count = (liveEntries (heap.p.set 0 e)).length) :
    ∃ next, replaceTop ctxt { heap with count := count } e = .ok (next, top, 1) ∧
      HeapReady ctxt next ∧ next.readers = heap.readers ∧
      (next.p.map (content ctxt)).Perm ((heap.p.set 0 e).map (content ctxt)) := by
  have hpos := (List.getElem?_eq_some_iff.1 hheap.first).1
  have hsize := hheap.size
  obtain ⟨middle, hmiddle, hsifted⟩ := mkheapSiftdown_spec ctxt hmask { heap with count := count }
    0 e hsize (by dsimp only; omega) fun j _ => hheap.ordered.child (Under.zero j)
  have hrest := hsifted.rest
  have hreaders : middle.readers = heap.readers := by rw [hrest]
  have hmiddleCount : middle.count = count := by rw [hrest]
  have hlvtops : middle.lvtops = heap.lvtops := by rw [hrest]
  have hperm : (middle.p.map (content ctxt)).Perm ((heap.p.set 0 e).map (content ctxt)) :=
    (hsifted.reshaped.ofId (content ctxt)).perm
  have hlive : middle.count = (liveEntries middle.p).length := by
    rw [hmiddleCount, hcount, liveEntries_length_of_perm ctxt hperm]
  have hfits : ∀ y ∈ middle.p, Fits ctxt lv top y := by
    apply fits_iff_under.1
    apply FitsUnder.reshaped _ hsifted.reshaped
    apply fits_iff_under.2
    intro y hy
    rcases mem_or_eq_of_mem_set hy with hy | rfl
    · exact hheap.fits y hy
    · exact he
  have hread : read MkError.outside ({ heap with count := count } : MKHeap T D).p 0 = .ok top :=
    read_zero _ hheap.first
  by_cases hnone : count = 0
  · refine ⟨middle, ?_, ⟨hlive, .inl (by omega)⟩, hreaders, hperm⟩
    have hneed := mkheapNeedHeapify_single ctxt (by omega : middle.count ≤ 1)
    have hheapify : heapifyIfNeeded ctxt middle = .ok middle := by
      unfold heapifyIfNeeded
      rw [hneed]
      rfl
    have hkeep : keepLvtops ctxt middle = .ok middle := by
      unfold keepLvtops
      rw [if_neg (by omega)]
    simp [replaceTop, hread, hmiddle, hheapify, hkeep, ok_bind, pure, Except.pure]
  · -- the first entry is not empty, since empty ones come last
    have hsome : 0 < (liveEntries middle.p).length := by omega
    obtain ⟨y, hy⟩ := exists_mem_of_length_pos hsome
    obtain ⟨hyMem, hyLive⟩ := mem_liveEntries.1 hy
    obtain ⟨i, hi⟩ := mem_iff_getElem?.1 hyMem
    have hlength : middle.p.length = heap.p.length := by
      rw [hsifted.reshaped.length, length_set]
    obtain ⟨new, hnew⟩ : ∃ new, middle.p[0]? = some new := ⟨_, getElem?_eq_getElem (by omega)⟩
    have hnewPlaced := (hfits new (mem_of_getElem? hnew)).placed_of_isLE
      ((hfits y hyMem).placed hyLive) (hsifted.ordered.root_le hnew (Under.zero i) hi)
    have hnewHeap : HeapAt ctxt (mkeGetLv new) new middle := by
      apply heapAt_newTop ctxt _ hsifted.ordered hnew hnewPlaced hfits hheap.levels
      · rw [hlvtops]
        exact hheap.lvtopsLength
      · rw [hlvtops]
        exact hheap.lvtops
      · rw [hlength, hrest]
        exact hsize
    obtain ⟨settled, lv', top', hheapify, hsettledHeap, hsettled, hkept⟩ :=
      heapifyIfNeeded_spec ctxt hnewHeap hmask hmax hlive
    obtain ⟨next, hupdate, hnext, hnextRest⟩ := mkheapUpdateLvtops_spec ctxt hmax hsettledHeap
    have hnextP : next.p = settled.p := by rw [hnextRest]
    have hnextCount : next.count = settled.count := by rw [hnextRest]
    have hkeep : keepLvtops ctxt settled = .ok next := by
      have hcountPos := hkept.count
      unfold keepLvtops
      rw [if_pos (by omega)]
      exact hupdate
    refine ⟨next, ?_, ⟨?_, .inr ⟨lv', top', hnext, ?_⟩⟩, ?_, ?_⟩
    · simp only [replaceTop, hread, hmiddle, hheapify, hkeep, ok_bind, pure, Except.pure]
    · rw [hnextCount, hkept.count, hlive, hnextP, liveEntries_length_of_perm ctxt hkept.perm]
    · unfold Settled
      rw [hnextP]
      exact hsettled
    · rw [hnextRest]
      exact hkept.readers.trans hreaders
    · rw [hnextP]
      exact hkept.perm.trans hperm

end

end Greenplum.MkSort
