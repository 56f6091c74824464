/-
The merge of sorted readers by the multi-key heap: every call yields the smallest entry
that is left, and all entries come out once, in the order of their keys.
-/
import Greenplum.MkHeapInvariant

namespace Greenplum.MkSort

open IndexedCells BinaryHeap List

variable {T D : Type} (ctxt : MKContext T D)

section

variable {ctxt} {a b : MKEntry T D}

theorem compareKeys_of_shares {n : Nat} (hshares : Shares ctxt n a b) (hn : n ≤ ctxt.totalLv) :
    compareKeys ctxt a b = compareFrom ctxt n (ctxt.totalLv - n) a b := by
  induction n with
  | zero => rfl
  | succ n ih =>
    have hcount : ctxt.totalLv - n = ctxt.totalLv - (n + 1) + 1 := by omega
    rw [ih (hshares.mono (Nat.le_succ n)) (by omega), hcount,
      compareFrom_of_eq ctxt (hshares n (Nat.lt_succ_self n))]

theorem compareKeys_of_all (hshares : Shares ctxt ctxt.totalLv a b) :
    compareKeys ctxt a b = .eq := by
  rw [compareKeys_of_shares hshares (le_refl _), tsub_self]
  rfl

section

variable {n : Nat} (hshares : Shares ctxt n a b) (hn : n < ctxt.totalLv)

include hshares hn

theorem compareKeys_next :
    compareKeys ctxt a b = compareFrom ctxt n (ctxt.totalLv - (n + 1) + 1) a b := by
  rw [compareKeys_of_shares hshares (by omega)]
  congr 1
  omega

theorem compareKeys_of_lt (hless : keyCompare ctxt n (keyAt ctxt a n) (keyAt ctxt b n) = .lt) :
    (compareKeys ctxt a b).isLE := by
  rw [compareKeys_next hshares hn]
  exact compareFrom_isLE_of_lt ctxt hless

theorem key_isLE_of_compareKeys (hle : (compareKeys ctxt a b).isLE) :
    (keyCompare ctxt n (keyAt ctxt a n) (keyAt ctxt b n)).isLE := by
  rw [compareKeys_next hshares hn, compareFrom] at hle
  cases hkey : keyCompare ctxt n (keyAt ctxt a n) (keyAt ctxt b n) with
  | lt => rfl
  | eq => rfl
  | gt =>
    rw [hkey] at hle
    exact absurd hle Bool.false_ne_true

end

instance compareKeys_trans : Std.TransCmp (compareKeys ctxt) :=
  compareFrom_trans ctxt 0 ctxt.totalLv

theorem compareKeys_of_content {a' b' : MKEntry T D} (ha : content ctxt a = content ctxt a')
    (hb : content ctxt b = content ctxt b') : compareKeys ctxt a b = compareKeys ctxt a' b' :=
  compareFrom_of_content ctxt ha hb 0 ctxt.totalLv

end

/-- The top of a settled heap comes before every live entry in the order by all keys. -/
theorem top_isLE {lv : Nat} {top : MKEntry T D} {heap : MKHeap T D}
    (hheap : HeapAt ctxt lv top heap) (hsettled : Settled ctxt lv top heap) {y : MKEntry T D}
    (hy : y ∈ heap.p) (hlive : y.compflags.empty = false) : (compareKeys ctxt top y).isLE := by
  have hlevels := hheap.levels
  obtain ⟨i, hi⟩ := mem_iff_getElem?.1 hy
  have hplaced := (hheap.fits y hy).placed hlive
  have hlevel := hplaced.level
  by_cases hdeep : mkeGetLv y = lv
  · have hsharesTop := hplaced.shares.symm
    rw [hdeep] at hsharesTop
    have hcompare := hheap.placed.compare_eq hplaced hheap.level hdeep
    have hroot := hheap.ordered.root_le hheap.first (Under.zero i) hi
    rw [hcompare] at hroot
    cases hkey : keyCompare ctxt lv (keyAt ctxt top lv) (keyAt ctxt y lv) with
    | lt => exact compareKeys_of_lt hsharesTop hlevels hkey
    | gt =>
      rw [hkey] at hroot
      exact absurd hroot (by decide)
    | eq =>
      rcases hsettled with hlast | hstrict
      · have hall : Shares ctxt ctxt.totalLv top y := by
          rw [← hlast]
          exact hsharesTop.succ hkey
        rw [compareKeys_of_all hall]
        rfl
      · by_cases hzero : i = 0
        · rw [hzero, hheap.first] at hi
          cases hi
          have hself : compareKeys ctxt top top = .eq := Std.ReflCmp.compare_self
          rw [hself]
          rfl
        · have hless := hstrict i y (by omega) hi
          rw [hcompare, hkey] at hless
          cases hless
  · have hless : mkeGetLv y < lv := by omega
    exact compareKeys_of_lt hplaced.shares.symm (by omega) (hplaced.beyond hless)

section

variable {toplv lv : Nat} {top e e' : MKEntry T D} {heap : MKHeap T D}

theorem prepare_eq_deepened (hlevel : mkeGetLv e = lv) :
    prepare ctxt e lv = deepened ctxt lv e := by
  have hbits : e.compflags.lvBits =
      ⟨mkeMaxLv - lv, Nat.lt_succ_of_le (Nat.sub_le mkeMaxLv lv)⟩ := by
    unfold mkeGetLv mkeMaxLv at hlevel
    apply Fin.ext
    dsimp only [mkeMaxLv]
    omega
  rw [deepened, prepare_compflags, atLv, ← hbits]

/-- Entries of the first run that hold their keys of one level compare by them. -/
theorem entryCompare_of_held {x y : MKEntry T D} {l : Nat} (hx : x.compflags.empty = false)
    (hxRun : x.compflags.run = 0) (hxLevel : mkeGetLv x = l) (hy : y.compflags.empty = false)
    (hyRun : y.compflags.run = 0) (hyLevel : mkeGetLv y = l) :
    entryCompare ctxt x y = keyCompare ctxt l (entryKey x) (entryKey y) := by
  rw [entryCompare_of_eq ctxt (by rw [high_of_live hx hxRun, high_of_live hy hyRun, hxLevel,
    hyLevel]), hyLevel]

/-- An entry of the first run that has some keys of the top and is not before it. -/
structure NotBefore (lv : Nat) (top e : MKEntry T D) : Prop where
  empty : e.compflags.empty = false
  run : e.compflags.run = 0
  shares : Shares ctxt lv e top
  le : (compareKeys ctxt top e).isLE

theorem NotBefore.ofContent {ctxt} {top' : MKEntry T D} (h : NotBefore ctxt lv top e)
    (htop : content ctxt top' = content ctxt top) (hentry : content ctxt e' = content ctxt e) :
    NotBefore ctxt lv top' e' where
  empty := (congrArg Content.empty hentry).trans h.empty
  run := (congrArg Content.run hentry).trans h.run
  shares := (h.shares.ofContent hentry).symm.ofContent htop |>.symm
  le := by
    rw [compareKeys_of_content htop hentry]
    exact h.le

/-- The next key of such an entry equals the one of the top, or the entry lies behind. -/
theorem NotBefore.compare_cases {ctxt} (hmask : ctxt.limitmask = false)
    (hmax : ctxt.totalLv ≤ mkeMaxLv + 1)
    {t : MKEntry T D} (h : NotBefore ctxt lv top e) (hlv : lv < ctxt.totalLv)
    (hkeeps : KeepsKey ctxt lv top t) :
    mkheapCompare ctxt (deepened ctxt lv e) t = 0 ∧
        NotBefore ctxt (lv + 1) top (deepened ctxt lv e) ∨
      mkheapCompare ctxt (deepened ctxt lv e) t > 0 ∧
        ∀ toplv, lv ≤ toplv → Placed ctxt toplv top (deepened ctxt lv e) := by
  have hlvMax : lv ≤ mkeMaxLv := by omega
  have hflags := deepened_flags ctxt lv e
  have hcompare : entryCompare ctxt (deepened ctxt lv e) t =
      keyCompare ctxt lv (keyAt ctxt e lv) (keyAt ctxt top lv) := by
    rw [entryCompare_of_held ctxt (hflags.1.trans h.empty) (hflags.2.trans h.run)
      (mkeGetLv_deepened hlvMax e) hkeeps.empty hkeeps.run hkeeps.level]
    exact Std.TransCmp.congr_right hkeeps.key
  have hsign := mkheapCompare_sign ctxt hmask (deepened ctxt lv e) t
  rw [hcompare] at hsign
  have hle := key_isLE_of_compareKeys h.shares.symm hlv h.le
  rw [keyCompare_swap] at hle
  cases hkey : keyCompare ctxt lv (keyAt ctxt e lv) (keyAt ctxt top lv) with
  | lt =>
    rw [hkey] at hle
    exact absurd hle (by decide)
  | eq =>
    have hcontent := content_deepened ctxt lv e
    exact .inl ⟨hsign.zero.2 hkey, NotBefore.ofContent
      ⟨h.empty, h.run, h.shares.succ hkey, h.le⟩ rfl hcontent⟩
  | gt =>
    refine .inr ⟨hsign.pos.2 hkey, fun toplv htoplv => ?_⟩
    apply placed_deepened hlvMax h.empty h.run h.shares htoplv
    intro _
    rw [keyCompare_swap, hkey]
    rfl

theorem shares_of_content {a b : MKEntry T D} (h : content ctxt a = content ctxt b) (n : Nat) :
    Shares ctxt n a b :=
  (Shares.refl n b).ofContent h

/-- The heap with a top that is one level deeper. -/
def deeperTop (heap : MKHeap T D) (lv : Nat) (top : MKEntry T D) : MKHeap T D :=
  { heap with
    p := heap.p.set 0 (deepened ctxt (lv + 1) top)
    lvtops := heap.lvtops.set lv top }

/-- A settled top can be expanded on its own. -/
theorem heapAt_deeperTop (hmax : ctxt.totalLv ≤ mkeMaxLv + 1) (hheap : HeapAt ctxt lv top heap)
    (hsettled : Settled ctxt lv top heap) (hmore : lv + 1 < ctxt.totalLv) :
    HeapAt ctxt (lv + 1) (deepened ctxt (lv + 1) top) (deeperTop ctxt heap lv top) ∧
      Settled ctxt (lv + 1) (deepened ctxt (lv + 1) top) (deeperTop ctxt heap lv top) := by
  have hlength := hheap.lvtopsLength
  have hpos := (List.getElem?_eq_some_iff.1 hheap.first).1
  have hlvMax : lv + 1 ≤ mkeMaxLv := by omega
  have hlevel : mkeGetLv (deepened ctxt (lv + 1) top) = lv + 1 := mkeGetLv_deepened hlvMax top
  have hcontent := content_deepened ctxt (lv + 1) top
  have hshares := shares_of_content ctxt hcontent
  have hplaced : Placed ctxt (lv + 1) top (deepened ctxt (lv + 1) top) :=
    (hheap.equals ctxt).deepen hlvMax
  have hstrict : ∀ i y, 0 < i → heap.p[i]? = some y → entryCompare ctxt top y = .lt := by
    rcases hsettled with hlast | hstrict
    · omega
    · exact hstrict
  have hbehind : ∀ i y, 0 < i → heap.p[i]? = some y →
      entryCompare ctxt (deepened ctxt (lv + 1) top) y = .lt := by
    intro i y _ hy
    exact hplaced.lt_of_level (hheap.fits y (mem_of_getElem? hy)) (by omega)
  have hsame : ∀ i, i ≠ 0 → (heap.p.set 0 (deepened ctxt (lv + 1) top))[i]? = heap.p[i]? :=
    fun i hi => getElem?_set_ne' hi _
  have hfirst : (heap.p.set 0 (deepened ctxt (lv + 1) top))[0]? =
      some (deepened ctxt (lv + 1) top) := getElem?_set_self hpos
  have hchild : ∀ child, child ≠ 0 → LeAt (entryCompare ctxt)
      (heap.p.set 0 (deepened ctxt (lv + 1) top)) 0 child := by
    intro child hchild x y hx hy
    rw [hfirst] at hx
    rw [hsame child hchild] at hy
    cases hx
    rw [hbehind child y (by omega) hy]
    rfl
  refine ⟨⟨?_, ?_, hfirst, hplaced.shift (hshares (lv + 1)).symm, hlevel, hmore, ?_, ?_, ?_⟩, ?_⟩
  · exact (length_set).trans hheap.size
  · have hkeep : ∀ child, child ≠ 0 → HeapUnder (entryCompare ctxt)
        (heap.p.set 0 (deepened ctxt (lv + 1) top)) child := by
      intro child hchild
      apply (hheap.ordered.child (Under.zero child)).congr
      intro i hi
      have hle := hi.le
      exact hsame i (by omega)
    exact HeapUnder.ofChildren (fun j hj => hkeep j (ne_of_gt hj.lt))
      fun j hj => hchild j (ne_of_gt hj.lt)
  · intro y hy
    obtain ⟨i, hi⟩ := mem_iff_getElem?.1 hy
    apply Fits.shift _ (hshares (lv + 1)).symm
    by_cases hzero : i = 0
    · rw [hzero] at hi
      rw [show (deeperTop ctxt heap lv top).p[0]? = _ from hfirst] at hi
      cases hi
      exact .inr hplaced
    · rw [show (deeperTop ctxt heap lv top).p[i]? = _ from hsame i hzero] at hi
      exact (hheap.equals ctxt).fits_of_lt (hheap.fits y (mem_of_getElem? hi))
        (hstrict i y (by omega) hi)
  · exact (length_set).trans hlength
  · exact lvtops_save ctxt hheap (hshares (lv + 1))
  · right
    intro i y hi hy
    rw [show (deeperTop ctxt heap lv top).p[i]? = _ from hsame i (by omega)] at hy
    exact hbehind i y hi hy

/-- The heap and the entry after the comparison with the top: both may hold deeper
keys. -/
structure Fitted (heap : MKHeap T D) (top e : MKEntry T D) (lv : Nat) (heap' : MKHeap T D)
    (top' e' : MKEntry T D) : Prop where
  heapAt : HeapAt ctxt lv top' heap'
  rest : heap' = { heap with p := heap.p.set 0 top', lvtops := heap'.lvtops }
  topContent : content ctxt top' = content ctxt top
  entryContent : content ctxt e' = content ctxt e

/-- How the comparison ends: the entry lies behind the top, or it equals the top in all
keys. -/
def FitResult (lv : Nat) (heap' : MKHeap T D) (top' e' : MKEntry T D) (c : Int) : Prop :=
  c > 0 ∧ Placed ctxt lv top' e' ∨
    c = 0 ∧ Settled ctxt lv top' heap' ∧ Shares ctxt ctxt.totalLv e' top'

theorem fitted_self (hheap : HeapAt ctxt lv top heap) (hentry : content ctxt e' = content ctxt e) :
    Fitted ctxt heap top e lv heap top e' := by
  refine ⟨hheap, ?_, rfl, hentry⟩
  rw [set_self hheap.first]

variable (hmask : ctxt.limitmask = false) (hmax : ctxt.totalLv ≤ mkeMaxLv + 1)

include hmask hmax

/-- A new entry that is not before the top finds the level at which it leaves the keys
of the top. -/
theorem matchLevels_spec (hheap : HeapAt ctxt toplv top heap) (fuel : Nat) (e : MKEntry T D)
    (lv : Nat) (hfuel : toplv - lv < fuel) (hlv : lv ≤ toplv) (hlevel : mkeGetLv e = lv)
    (h : NotBefore ctxt lv top e) :
    ∃ e' l c, matchLevels ctxt heap.lvtops toplv fuel e lv = .ok (e', l, c) ∧
      content ctxt e' = content ctxt e ∧ mkeGetLv e' = l ∧ NotBefore ctxt l top e' ∧
      (l = toplv ∧ c = 0 ∨ l < toplv ∧ c > 0 ∧ Placed ctxt toplv top e') := by
  induction fuel generalizing e lv with
  | zero => omega
  | succ fuel ih =>
    have hlevels := hheap.levels
    unfold matchLevels
    by_cases hless : lv < toplv
    · obtain ⟨t, ht, hkeeps⟩ := hheap.lvtops lv hless
      have hcontent := content_deepened ctxt lv e
      simp only [hless, if_true, read_natCast _ ht, prepare_eq_deepened ctxt hlevel, bind,
        Except.bind]
      rcases h.compare_cases hmask hmax (by omega) hkeeps with ⟨hzero, hnext⟩ | ⟨hpos, hplaced⟩
      · rw [if_neg (not_not_intro hzero),
          mkeSetLv_eq_ok (deepened ctxt lv e) (by omega : lv + 1 ≤ mkeMaxLv)]
        obtain ⟨e', l, c, hloop, hcontents, hrest⟩ := ih (atLv (deepened ctxt lv e) (lv + 1))
          (lv + 1) (by omega) (by omega) (mkeGetLv_atLv _ (by omega))
          (hnext.ofContent rfl (content_atLv ctxt _ _))
        exact ⟨e', l, c, hloop, hcontents.trans hcontent, hrest⟩
      · rw [if_pos (by omega)]
        exact ⟨deepened ctxt lv e, lv, _, rfl, hcontent, mkeGetLv_deepened (by omega) e,
          h.ofContent rfl hcontent, .inr ⟨hless, hpos, hplaced toplv hlv⟩⟩
    · simp only [hless, if_false]
      exact ⟨e, lv, 0, rfl, rfl, hlevel, h, .inl ⟨by omega, rfl⟩⟩

theorem expandEqual_spec (fuel lv : Nat) (top : MKEntry T D) (heap : MKHeap T D)
    (e : MKEntry T D) (hheap : HeapAt ctxt lv top heap) (hsettled : Settled ctxt lv top heap)
    (hfuel : ctxt.totalLv - lv < fuel) (h : NotBefore ctxt (lv + 1) top e) :
    ∃ heap' e' c lv' top', expandEqual ctxt fuel heap e lv = .ok (heap', e', c) ∧
      Fitted ctxt heap top e lv' heap' top' e' ∧ FitResult ctxt lv' heap' top' e' c := by
  induction fuel generalizing lv top heap e with
  | zero => omega
  | succ fuel ih =>
    have hlevels := hheap.levels
    have hlength := hheap.lvtopsLength
    have hpos := (List.getElem?_eq_some_iff.1 hheap.first).1
    unfold expandEqual
    by_cases hmore : lv + 1 < ctxt.totalLv
    · have hlvMax : lv + 1 ≤ mkeMaxLv := by omega
      obtain ⟨hdeeper, hdeeperSettled⟩ := heapAt_deeperTop ctxt hmax hheap hsettled hmore
      have hsave := mkheapSaveLvtop_eq hheap.first (by rw [hheap.level]; omega)
      rw [hheap.level] at hsave
      have hsetTop := mkeSetLv_eq_ok (prepare ctxt top (lv + 1)) hlvMax
      have hsetE := mkeSetLv_eq_ok (prepare ctxt e (lv + 1)) hlvMax
      have hplace : placeEntry { heap with lvtops := heap.lvtops.set lv top } 0
          (atLv (prepare ctxt top (lv + 1)) (lv + 1)) = .ok (deeperTop ctxt heap lv top) :=
        placeEntry_eq { heap with lvtops := heap.lvtops.set lv top } hpos _
      have hread : read MkError.outside
          ({ heap with lvtops := heap.lvtops.set lv top } : MKHeap T D).p 0 = .ok top :=
        read_zero _ hheap.first
      simp only [hmore, if_true, hsave, hread, hsetTop, hplace, hsetE, bind, Except.bind]
      have hcontentE := content_deepened ctxt (lv + 1) e
      have hcontentTop := content_deepened ctxt (lv + 1) top
      change ∃ heap' e' c lv' top',
        (if mkheapCompare ctxt (deepened ctxt (lv + 1) e) (deepened ctxt (lv + 1) top) ≠ 0
          then _ else _) = _ ∧ _
      rcases (h.ofContent hcontentTop rfl).compare_cases hmask hmax hmore hdeeper.keepsTop with
        ⟨hzero, hnext⟩ | ⟨hbehind, hplaced⟩
      · rw [if_neg (not_not_intro hzero)]
        obtain ⟨heap', e', c, lv', top', hloop, hfitted, hresult⟩ := ih (lv + 1) _ _ _
          hdeeper hdeeperSettled (by omega) hnext
        have hrest : (deeperTop ctxt heap lv top).p.set 0 top' = heap.p.set 0 top' := set_set _
        refine ⟨heap', e', c, lv', top', hloop, ⟨hfitted.heapAt, ?_,
          hfitted.topContent.trans hcontentTop, hfitted.entryContent.trans hcontentE⟩, hresult⟩
        rw [hfitted.rest, hrest]
        rfl
      · rw [if_pos (by omega)]
        exact ⟨deeperTop ctxt heap lv top, deepened ctxt (lv + 1) e, _, lv + 1,
          deepened ctxt (lv + 1) top, rfl, ⟨hdeeper, rfl, hcontentTop, hcontentE⟩,
          .inl ⟨hbehind, hplaced _ (le_refl _)⟩⟩
    · simp only [hmore, if_false]
      have hlast : lv + 1 = ctxt.totalLv := by omega
      refine ⟨heap, e, 0, lv, top, rfl, fitted_self ctxt hheap rfl, .inr ⟨rfl, hsettled, ?_⟩⟩
      rw [← hlast]
      exact h.shares

/-- A new entry that is not before the top. -/
theorem fitEntry_spec (hheap : HeapAt ctxt toplv top heap) (hsettled : Settled ctxt toplv top heap)
    (hempty : e.compflags.empty = false) (hrun : e.compflags.run = 0)
    (hle : (compareKeys ctxt top e).isLE) :
    ∃ heap' e' c lv' top', fitEntry ctxt heap e = .ok (heap', e', c) ∧
      Fitted ctxt heap top e lv' heap' top' e' ∧ FitResult ctxt lv' heap' top' e' c := by
  have hlevels := hheap.levels
  have hset := mkeSetLv_eq_ok e (Nat.zero_le mkeMaxLv)
  have hnotBefore : NotBefore ctxt 0 top e :=
    ⟨hempty, hrun, fun l hl => absurd hl (Nat.not_lt_zero l), hle⟩
  obtain ⟨e', l, c, hmatch, hcontent, hlevel, hnext, hcases⟩ := matchLevels_spec ctxt hmask hmax
    hheap (toplv + 1) (atLv e 0) 0 (by omega) (Nat.zero_le _)
    (mkeGetLv_atLv e (Nat.zero_le _)) (hnotBefore.ofContent rfl (content_atLv ctxt e 0))
  unfold fitEntry
  simp only [read_zero _ hheap.first, hheap.level, hset, hmatch, bind, Except.bind]
  rcases hcases with ⟨rfl, rfl⟩ | ⟨hless, hpos, hplaced⟩
  · rw [if_neg (by decide), if_pos rfl, prepare_eq_deepened ctxt hlevel]
    have hcontentE : content ctxt (deepened ctxt l e') = content ctxt e :=
      (content_deepened ctxt l e').trans hcontent
    rcases hnext.compare_cases hmask hmax hlevels hheap.keepsTop with
      ⟨hzero, hequal⟩ | ⟨hpos, hplaced⟩
    · rw [if_neg (by omega), if_pos hzero]
      obtain ⟨heap', e'', c, lv', top', hloop, hfitted, hresult⟩ := expandEqual_spec ctxt hmask
        hmax (ctxt.totalLv + 1) l top heap (deepened ctxt l e') hheap hsettled (by omega) hequal
      exact ⟨heap', e'', c, lv', top', hloop, ⟨hfitted.heapAt, hfitted.rest, hfitted.topContent,
        hfitted.entryContent.trans hcontentE⟩, hresult⟩
    · rw [if_neg (by omega), if_neg (by omega)]
      exact ⟨heap, deepened ctxt l e', _, l, top, rfl, fitted_self ctxt hheap hcontentE,
        .inl ⟨hpos, hplaced l (le_refl l)⟩⟩
  · rw [if_neg (by omega), if_neg (by omega)]
    exact ⟨heap, e', c, toplv, top, rfl, fitted_self ctxt hheap hcontent, .inl ⟨hpos, hplaced⟩⟩

end

end Greenplum.MkSort
