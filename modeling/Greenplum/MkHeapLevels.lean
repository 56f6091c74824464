/-
The levels of the multi-key heap: an entry shares the keys before its level with the
top and lies beyond the top at its level.  Expanding a level keeps this, and with it
the order of the heap.
-/
import Greenplum.MkHeapSift

namespace Greenplum.MkSort

open IndexedCells BinaryHeap

variable {T D : Type} (ctxt : MKContext T D)

/-- Two entries agree on their first keys. -/
def Shares (count : Nat) (a b : MKEntry T D) : Prop :=
  ∀ l, l < count → keyCompare ctxt l (keyAt ctxt a l) (keyAt ctxt b l) = .eq

namespace Shares

variable {ctxt} {count : Nat} {a b c : MKEntry T D}

theorem refl (count : Nat) (a : MKEntry T D) : Shares ctxt count a a :=
  fun _ _ => Std.ReflCmp.compare_self

theorem trans (hab : Shares ctxt count a b) (hbc : Shares ctxt count b c) : Shares ctxt count a c :=
  fun l hl => Std.TransCmp.eq_trans (hab l hl) (hbc l hl)

section

variable (h : Shares ctxt count a b)

include h

theorem symm : Shares ctxt count b a := by
  intro l hl
  rw [keyCompare_swap, h l hl]
  rfl

theorem mono {fewer : Nat} (hfewer : fewer ≤ count) : Shares ctxt fewer a b :=
  fun l hl => h l (by omega)

theorem succ (heq : keyCompare ctxt count (keyAt ctxt a count) (keyAt ctxt b count) = .eq) :
    Shares ctxt (count + 1) a b := by
  intro l hl
  by_cases hlast : l = count
  · rw [hlast]
    exact heq
  · exact h l (by omega)

theorem ofContent {a' : MKEntry T D} (hcontent : content ctxt a' = content ctxt a) :
    Shares ctxt count a' b := by
  intro l hl
  rw [keyAt_of_content ctxt hcontent]
  exact h l hl

end

end Shares

/-- An entry in its place below a top of level `lv`. -/
structure Placed (lv : Nat) (top e : MKEntry T D) : Prop where
  empty : e.compflags.empty = false
  run : e.compflags.run = 0
  level : mkeGetLv e ≤ lv
  held : entryKey e = keyAt ctxt e (mkeGetLv e)
  shares : Shares ctxt (mkeGetLv e) e top
  beyond : mkeGetLv e < lv →
    keyCompare ctxt (mkeGetLv e) (keyAt ctxt top (mkeGetLv e)) (keyAt ctxt e (mkeGetLv e)) = .lt

/-- A cell of the heap is empty or holds an entry in its place. -/
def Fits (lv : Nat) (top e : MKEntry T D) : Prop :=
  e.compflags.empty = true ∨ Placed ctxt lv top e

section

variable {ctxt} {lv lv' : Nat} {top top' x y : MKEntry T D}

theorem lvBits_eq (e : MKEntry T D) : e.compflags.lvBits.val = mkeMaxLv - mkeGetLv e := by
  unfold mkeGetLv mkeMaxLv
  omega

theorem mkeGetLv_le (e : MKEntry T D) : mkeGetLv e ≤ mkeMaxLv := Nat.sub_le _ _

theorem high_of_live (hempty : x.compflags.empty = false) (hrun : x.compflags.run = 0) :
    x.compflags.high = ((mkeMaxLv - mkeGetLv x : Nat) : Int) * 4 := by
  unfold CompFlags.high CompFlags.emptyBit
  rw [hempty, hrun, lvBits_eq]
  simp

theorem Placed.high (h : Placed ctxt lv top x) :
    x.compflags.high = ((mkeMaxLv - mkeGetLv x : Nat) : Int) * 4 :=
  high_of_live h.empty h.run

theorem Placed.high_lt_empty (h : Placed ctxt lv top x) (hy : y.compflags.empty = true) :
    x.compflags.high < y.compflags.high := by
  rw [CompFlags.high_lt_iff]
  left
  unfold CompFlags.emptyBit
  rw [h.empty, hy]
  decide

section

variable (hx : Placed ctxt lv top x) (hy : Placed ctxt lv' top' y)

include hx hy

theorem Placed.high_lt (hlevel : mkeGetLv y < mkeGetLv x) :
    x.compflags.high < y.compflags.high := by
  have hxMax := mkeGetLv_le x
  rw [hx.high, hy.high]
  omega

theorem Placed.compare_eq {l : Nat} (hxLevel : mkeGetLv x = l) (hyLevel : mkeGetLv y = l) :
    entryCompare ctxt x y = keyCompare ctxt l (keyAt ctxt x l) (keyAt ctxt y l) := by
  have hhigh : x.compflags.high = y.compflags.high := by
    rw [hx.high, hy.high, hxLevel, hyLevel]
  rw [entryCompare_of_eq ctxt hhigh, hx.held, hy.held, hxLevel, hyLevel]

theorem Placed.level_le (hle : (entryCompare ctxt x y).isLE) : mkeGetLv y ≤ mkeGetLv x := by
  by_contra hnot
  rw [entryCompare_of_gt ctxt (hy.high_lt hx (by omega))] at hle
  exact absurd hle (by decide)

end

theorem Fits.placed (h : Fits ctxt lv top x) (hlive : x.compflags.empty = false) :
    Placed ctxt lv top x :=
  h.resolve_left (by rw [hlive]; exact Bool.false_ne_true)

theorem Fits.placed_of_isLE (h : Fits ctxt lv top x) (hy : Placed ctxt lv' top' y)
    (hle : (entryCompare ctxt x y).isLE) : Placed ctxt lv top x := by
  rcases h with hempty | hplaced
  · rw [entryCompare_of_gt ctxt (hy.high_lt_empty hempty)] at hle
    exact absurd hle (by decide)
  · exact hplaced

theorem Placed.lt_of_level (hx : Placed ctxt lv top x) (hy : Fits ctxt lv' top' y)
    (hlevel : lv' < mkeGetLv x) : entryCompare ctxt x y = .lt := by
  rcases hy with hempty | hy
  · exact entryCompare_of_lt ctxt (hx.high_lt_empty hempty)
  · have hle := hy.level
    exact entryCompare_of_lt ctxt (hx.high_lt hy (by omega))

theorem Placed.shift (h : Placed ctxt lv top x) (hshares : Shares ctxt lv top top') :
    Placed ctxt lv top' x where
  empty := h.empty
  run := h.run
  level := h.level
  held := h.held
  shares := h.shares.trans (hshares.mono h.level)
  beyond := by
    intro hless
    have hback := hshares.symm (mkeGetLv x) hless
    exact Std.TransCmp.lt_of_eq_of_lt hback (h.beyond hless)

theorem Fits.shift (h : Fits ctxt lv top x) (hshares : Shares ctxt lv top top') :
    Fits ctxt lv top' x :=
  h.imp id (fun hplaced => hplaced.shift hshares)

section

variable (ctxt : MKContext T D) (lv : Nat) (top x : MKEntry T D)

/-- An entry as deep as the top that agrees with it on one more key. -/
structure Equals : Prop where
  placed : Placed ctxt lv top x
  level : mkeGetLv x = lv
  shares : Shares ctxt (lv + 1) x top

/-- The entry with its key of the next level. -/
def deepened : MKEntry T D :=
  atLv (prepare ctxt x lv) lv

theorem content_deepened : content ctxt (deepened ctxt lv x) = content ctxt x :=
  (content_atLv ctxt _ lv).trans (content_prepare ctxt x lv)

theorem deepened_flags :
    (deepened ctxt lv x).compflags.empty = x.compflags.empty ∧
      (deepened ctxt lv x).compflags.run = x.compflags.run := by
  have hcontent := content_deepened ctxt lv x
  exact ⟨congrArg Content.empty hcontent, congrArg Content.run hcontent⟩

end

theorem mkeGetLv_deepened (hlv : lv ≤ mkeMaxLv) (x : MKEntry T D) :
    mkeGetLv (deepened ctxt lv x) = lv := mkeGetLv_atLv _ hlv

theorem placed_deepened {level : Nat} (hmax : level ≤ mkeMaxLv) (hempty : x.compflags.empty = false)
    (hrun : x.compflags.run = 0) (hshares : Shares ctxt level x top) (hlevel : level ≤ lv)
    (hbeyond : level < lv →
      keyCompare ctxt level (keyAt ctxt top level) (keyAt ctxt x level) = .lt) :
    Placed ctxt lv top (deepened ctxt level x) := by
  have hkey : ∀ l, keyAt ctxt (deepened ctxt level x) l = keyAt ctxt x l :=
    keyAt_of_content ctxt (content_deepened ctxt level x)
  refine ⟨(deepened_flags ctxt level x).1.trans hempty, (deepened_flags ctxt level x).2.trans hrun,
    ?_, ?_, ?_, ?_⟩
  · rw [mkeGetLv_deepened hmax]
    exact hlevel
  · rw [mkeGetLv_deepened hmax]
    exact (prepared_atLv_prepare ctxt x hmax).2
  · rw [mkeGetLv_deepened hmax]
    exact hshares.ofContent (content_deepened ctxt level x)
  · rw [mkeGetLv_deepened hmax, hkey]
    exact hbeyond

theorem Equals.deepen (h : Equals ctxt lv top x) (hmax : lv + 1 ≤ mkeMaxLv) :
    Placed ctxt (lv + 1) top (deepened ctxt (lv + 1) x) :=
  placed_deepened hmax h.placed.empty h.placed.run h.shares (le_refl _)
    (fun hless => absurd hless (lt_irrefl _))

/-- What lies beyond an entry that equals the top need not be expanded. -/
theorem Equals.fits_of_lt (hx : Equals ctxt lv top x) (hy : Fits ctxt lv top y)
    (hless : entryCompare ctxt x y = .lt) : Fits ctxt (lv + 1) top y := by
  rcases hy with hempty | hy
  · exact .inl hempty
  · refine .inr ⟨hy.empty, hy.run, Nat.le_succ_of_le hy.level, hy.held, hy.shares, ?_⟩
    intro _
    by_cases hlevel : mkeGetLv y = lv
    · rw [hx.placed.compare_eq hy hx.level hlevel] at hless
      rw [hlevel]
      have heq := hx.shares.symm lv (Nat.lt_succ_self lv)
      exact Std.TransCmp.lt_of_eq_of_lt heq hless
    · exact hy.beyond (by omega)

end

section

variable {lv : Nat} {top : MKEntry T D} {cells next : List (MKEntry T D)} {root cur : Nat}
  {x : MKEntry T D}

/-- All entries of a subtree are empty or in their places. -/
def FitsUnder (lv : Nat) (top : MKEntry T D) (cells : List (MKEntry T D)) (root : Nat) : Prop :=
  ∀ i y, Under root i → cells[i]? = some y → Fits ctxt lv top y

variable {ctxt}

theorem FitsUnder.congr (h : FitsUnder ctxt lv top cells root)
    (hsame : ∀ i, Under root i → next[i]? = cells[i]?) : FitsUnder ctxt lv top next root := by
  intro i y hi hy
  rw [hsame i hi] at hy
  exact h i y hi hy

theorem FitsUnder.child {i : Nat} (h : FitsUnder ctxt lv top cells root) (hi : Under root i) :
    FitsUnder ctxt lv top cells i :=
  fun j y hj hy => h j y (hi.trans hj) hy

theorem FitsUnder.ofChildren (hroot : ∀ y, cells[root]? = some y → Fits ctxt lv top y)
    (hchildren : ∀ j, Child root j → FitsUnder ctxt lv top cells j) :
    FitsUnder ctxt lv top cells root := by
  intro i y hi hy
  rcases hi.cases_children with rfl | ⟨j, hj, hi⟩
  · exact hroot y hy
  · exact hchildren j hj i y hi hy

theorem FitsUnder.reshaped (h : FitsUnder ctxt lv top cells root)
    (hnext : Reshaped id root cells next) : FitsUnder ctxt lv top next root := by
  intro i y hi hy
  obtain ⟨j, x, hj, hx, hyx⟩ := hnext.inside i y hi hy
  rw [id, id] at hyx
  rw [hyx]
  exact h j x hj hx

variable (ctxt)

/-- A subtree whose entries are all in their places one level deeper. -/
structure Expanded (root lv : Nat) (top : MKEntry T D) (heap next : MKHeap T D) : Prop where
  rest : next = { heap with p := next.p, roundrobin := next.roundrobin }
  reshaped : Reshaped (content ctxt) root heap.p next.p
  ordered : HeapUnder (entryCompare ctxt) next.p root
  fits : FitsUnder ctxt lv top next.p root

variable (hmask : ctxt.limitmask = false)

include hmask

/-- The expansion of a child that equals its parent, and no expansion of one that lies
beyond it. -/
theorem expandChild_spec
    (deeper : MKHeap T D → Nat → Except MkError (MKHeap T D)) (heap : MKHeap T D)
    (hsize : heap.p.length = heap.maxentry) {child : Nat} (hx : heap.p[cur]? = some x)
    (hequals : Equals ctxt lv top x) (hle : LeAt (entryCompare ctxt) heap.p cur child)
    (hordered : HeapUnder (entryCompare ctxt) heap.p child)
    (hfits : FitsUnder ctxt lv top heap.p child)
    (hdeeper : ∀ y, heap.p[child]? = some y → Equals ctxt lv top y →
      ∃ next, deeper heap child = .ok next ∧ Expanded ctxt child (lv + 1) top heap next) :
    ∃ next expanded, expandChild ctxt deeper heap cur child = .ok (next, expanded) ∧
      Expanded ctxt child (lv + 1) top heap next ∧
      (expanded = false → ∀ y, next.p[child]? = some y → Fits ctxt lv top y) := by
  unfold expandChild
  by_cases hin : child < heap.maxentry
  · obtain ⟨y, hy⟩ : ∃ y, heap.p[child]? = some y := ⟨_, List.getElem?_eq_getElem (by omega)⟩
    have hleEntries := hle x y hx hy
    have hyFits := hfits child y Under.refl hy
    simp only [hin, if_true, read_natCast _ hx, read_natCast _ hy, bind, Except.bind]
    by_cases hzero : mkheapCompare ctxt x y = 0
    · have heq := (mkheapCompare_sign ctxt hmask x y).zero.1 hzero
      have hback : (entryCompare ctxt y x).isLE := by
        rw [Std.OrientedCmp.eq_symm heq]
        rfl
      have hplaced := hyFits.placed_of_isLE hequals.placed hback
      have hlevel : mkeGetLv y = lv := le_antisymm hplaced.level
        (hequals.level ▸ hplaced.level_le hequals.placed hback)
      rw [hequals.placed.compare_eq hplaced hequals.level hlevel] at heq
      have hshares : Shares ctxt (lv + 1) y top := by
        have hbefore := hplaced.shares
        rw [hlevel] at hbefore
        apply hbefore.succ
        exact Std.TransCmp.eq_trans (Std.OrientedCmp.eq_symm heq)
          (hequals.shares lv (Nat.lt_succ_self lv))
      obtain ⟨next, hnext, hexpanded⟩ := hdeeper y hy ⟨hplaced, hlevel, hshares⟩
      rw [if_pos hzero, hnext]
      exact ⟨next, true, rfl, hexpanded, fun hnot => absurd hnot (by decide)⟩
    · rw [if_neg hzero]
      have hless : entryCompare ctxt x y = .lt := by
        have hnot := mt (mkheapCompare_sign ctxt hmask x y).zero.2 hzero
        cases hcase : entryCompare ctxt x y <;> simp_all
      refine ⟨heap, false, rfl, ⟨rfl, Reshaped.refl _ _ _, hordered, ?_⟩, ?_⟩
      · intro i z hi hz
        apply hequals.fits_of_lt (hfits i z hi hz)
        exact Std.TransCmp.lt_of_lt_of_isLE hless (hordered.root_le hy hi hz)
      · intro _ z hz
        exact hfits child z Under.refl hz
  · simp only [hin, if_false]
    have hnone : ∀ {i z}, Under child i → heap.p[i]? = some z → False := by
      intro i z hi hz
      have hle := hi.le
      rw [List.getElem?_eq_none (by omega)] at hz
      cases hz
    refine ⟨heap, false, rfl, ⟨rfl, Reshaped.refl _ _ _, hordered, ?_⟩, ?_⟩
    · intro i z hi hz
      exact absurd hz (fun hz => hnone hi hz)
    · intro _ z hz
      exact absurd hz (fun hz => hnone Under.refl hz)

/-- The entry itself, once its children are done. -/
theorem resift_spec (heap : MKHeap T D)
    (hsize : heap.p.length = heap.maxentry) (hcur : cur < heap.maxentry)
    (hx : heap.p[cur]? = some x) (hplaced : Placed ctxt (lv + 1) top x)
    (hlevel : mkeGetLv x = lv + 1) (expanded : Bool)
    (hordered : ∀ j, Child cur j → HeapUnder (entryCompare ctxt) heap.p j)
    (hfits : ∀ j, Child cur j → FitsUnder ctxt (lv + 1) top heap.p j)
    (hkept : expanded = false → ∀ j y, Child cur j → heap.p[j]? = some y → Fits ctxt lv top y) :
    ∃ next, resift ctxt heap cur x expanded = .ok next ∧ Expanded ctxt cur (lv + 1) top heap next ∧
      ∃ y, next.p[cur]? = some y ∧ Placed ctxt (lv + 1) top y ∧ mkeGetLv y = lv + 1 := by
  have hfits : FitsUnder ctxt (lv + 1) top heap.p cur := by
    apply FitsUnder.ofChildren _ hfits
    intro y hy
    rw [hx] at hy
    cases hy
    exact .inr hplaced
  cases expanded with
  | true =>
    obtain ⟨next, hnext, hsifted⟩ := mkheapSiftdown_spec ctxt hmask heap cur x hsize hcur hordered
    rw [set_self hx] at hsifted
    have hnextFits := hfits.reshaped hsifted.reshaped
    refine ⟨next, hnext, ⟨hsifted.rest, hsifted.reshaped.ofId _, hsifted.ordered, hnextFits⟩, ?_⟩
    -- the new root is not behind the entry, so it is as deep
    have hlength := hsifted.reshaped.length
    obtain ⟨y, hy⟩ : ∃ y, next.p[cur]? = some y := ⟨_, List.getElem?_eq_getElem (by omega)⟩
    obtain ⟨k, z, hk, hz, hzx⟩ := hsifted.reshaped.covers cur x Under.refl hx
    rw [id, id] at hzx
    rw [hzx] at hz
    have hle := hsifted.ordered.root_le hy hk hz
    have hyPlaced := (hnextFits cur y Under.refl hy).placed_of_isLE hplaced hle
    refine ⟨y, hy, hyPlaced, le_antisymm hyPlaced.level ?_⟩
    rw [← hlevel]
    exact hyPlaced.level_le hplaced hle
  | false =>
    refine ⟨heap, rfl, ⟨rfl, Reshaped.refl _ _ _, ?_, hfits⟩, x, hx, hplaced, hlevel⟩
    refine HeapUnder.ofChildren hordered fun j hj y z hy hz => ?_
    rw [hx] at hy
    cases hy
    rw [hplaced.lt_of_level (hkept rfl j z hj hz) (by omega)]
    rfl

/-- The expansion of a subtree whose root equals the top. -/
theorem prepSiftdownLoop_spec
    (hmax : lv + 1 ≤ mkeMaxLv) (fuel : Nat) (heap : MKHeap T D) (cur : Nat)
    (hsize : heap.p.length = heap.maxentry) (hcur : cur < heap.maxentry)
    (hfuel : heap.maxentry - cur < fuel) (hx : heap.p[cur]? = some x)
    (hequals : Equals ctxt lv top x) (hordered : HeapUnder (entryCompare ctxt) heap.p cur)
    (hfits : FitsUnder ctxt lv top heap.p cur) :
    ∃ next, prepSiftdownLoop ctxt (lv + 1) fuel heap cur = .ok next ∧
      Expanded ctxt cur (lv + 1) top heap next ∧
      ∃ y, next.p[cur]? = some y ∧ Placed ctxt (lv + 1) top y ∧ mkeGetLv y = lv + 1 := by
  induction fuel generalizing heap cur x with
  | zero => omega
  | succ fuel ih =>
    have hrightUnder : Under cur (2 * cur + 2) := Under.refl.right
    have hleftUnder : Under cur (2 * cur + 1) := Under.refl.left
    have hrecurse : ∀ (heap' : MKHeap T D) child, cur < child →
        heap'.p.length = heap'.maxentry → heap'.maxentry = heap.maxentry →
        HeapUnder (entryCompare ctxt) heap'.p child → FitsUnder ctxt lv top heap'.p child →
        ∀ y, heap'.p[child]? = some y → Equals ctxt lv top y →
        ∃ next, prepSiftdownLoop ctxt (lv + 1) fuel heap' child = .ok next ∧
          Expanded ctxt child (lv + 1) top heap' next := by
      intro heap' child hchild hsize' hmaxentry hordered' hfits' y hy hyEquals
      have hin := (List.getElem?_eq_some_iff.1 hy).1
      obtain ⟨next, hnext, hexpanded, -⟩ := ih heap' child hsize' (by omega) (by omega) hy hyEquals
        hordered' hfits'
      exact ⟨next, hnext, hexpanded⟩
    -- the right child
    obtain ⟨heap₁, expright, hright, hrightExpanded, hrightKept⟩ := expandChild_spec ctxt hmask
      (prepSiftdownLoop ctxt (lv + 1) fuel) heap hsize hx hequals
      (hordered cur Under.refl).2 (hordered.child hrightUnder) (hfits.child hrightUnder)
      (hrecurse heap _ (by omega) hsize rfl (hordered.child hrightUnder) (hfits.child hrightUnder))
    have hmaxentry₁ : heap₁.maxentry = heap.maxentry := by rw [hrightExpanded.rest]
    have hsize₁ : heap₁.p.length = heap₁.maxentry := by
      rw [hrightExpanded.reshaped.length, hmaxentry₁]
      exact hsize
    have hx₁ : heap₁.p[cur]? = some x := by
      rw [hrightExpanded.reshaped.outside cur (Under.not_of_lt (by omega))]
      exact hx
    have hleftSame : ∀ i, Under (2 * cur + 1) i → heap₁.p[i]? = heap.p[i]? :=
      fun i hi => hrightExpanded.reshaped.outside i (fun hunder => hi.siblings hunder)
    have hordered₁ := (hordered.child hleftUnder).congr hleftSame
    have hfits₁ := (hfits.child hleftUnder).congr hleftSame
    have hle₁ : LeAt (entryCompare ctxt) heap₁.p cur (2 * cur + 1) := by
      intro y z hy hz
      rw [hx₁, ← hx] at hy
      rw [hleftSame _ Under.refl] at hz
      exact (hordered cur Under.refl).1 y z hy hz
    -- the left child
    obtain ⟨heap₂, expleft, hleft, hleftExpanded, hleftKept⟩ := expandChild_spec ctxt hmask
      (prepSiftdownLoop ctxt (lv + 1) fuel) heap₁ hsize₁ hx₁ hequals hle₁ hordered₁ hfits₁
      (hrecurse heap₁ _ (by omega) hsize₁ hmaxentry₁ hordered₁ hfits₁)
    have hmaxentry₂ : heap₂.maxentry = heap.maxentry := by
      rw [hleftExpanded.rest]
      exact hmaxentry₁
    have hsize₂ : heap₂.p.length = heap₂.maxentry := by
      rw [hleftExpanded.reshaped.length, hmaxentry₂, hsize₁, hmaxentry₁]
    have hx₂ : heap₂.p[cur]? = some x := by
      rw [hleftExpanded.reshaped.outside cur (Under.not_of_lt (by omega))]
      exact hx₁
    have hrightSame : ∀ i, Under (2 * cur + 2) i → heap₂.p[i]? = heap₁.p[i]? :=
      fun i hi => hleftExpanded.reshaped.outside i (fun hunder => hunder.siblings hi)
    -- the entry itself
    have hplaced := hequals.deepen hmax
    have hcur₂ : cur < heap₂.p.length := by omega
    have hchildSame : ∀ {child}, Child cur child → ∀ i, Under child i →
        (heap₂.p.set cur (deepened ctxt (lv + 1) x))[i]? = heap₂.p[i]? :=
      fun hchild i hi =>
        getElem?_set_ne' (ne_of_gt (lt_of_lt_of_le hchild.lt hi.le)) _
    obtain ⟨next, hnext, hexpanded, htop⟩ := resift_spec ctxt hmask
      { heap₂ with p := heap₂.p.set cur (deepened ctxt (lv + 1) x) }
      (by dsimp only; rw [List.length_set]; exact hsize₂) (by dsimp only; omega)
      (List.getElem?_set_self hcur₂) hplaced (mkeGetLv_deepened hmax x) (expright || expleft)
      (by
        intro j hj
        refine HeapUnder.congr ?_ (hchildSame hj)
        rcases hj with rfl | rfl
        · exact hleftExpanded.ordered
        · exact hrightExpanded.ordered.congr hrightSame)
      (by
        intro j hj
        refine FitsUnder.congr ?_ (hchildSame hj)
        rcases hj with rfl | rfl
        · exact hleftExpanded.fits
        · exact hrightExpanded.fits.congr hrightSame)
      (by
        intro hnone j y hj hy
        obtain ⟨hnoRight, hnoLeft⟩ := Bool.or_eq_false_iff.1 hnone
        rw [hchildSame hj j Under.refl] at hy
        rcases hj with rfl | rfl
        · exact hleftKept hnoLeft y hy
        · rw [hrightSame _ Under.refl] at hy
          exact hrightKept hnoRight y hy)
    refine ⟨next, ?_, ⟨?_, ?_, hexpanded.ordered, hexpanded.fits⟩, htop⟩
    · unfold prepSiftdownLoop
      simp only [hright, hleft, read_natCast _ hx₂, mkeSetLv_eq_ok _ hmax, bind, Except.bind,
        placeEntry_eq _ hcur₂]
      exact hnext
    · rw [hexpanded.rest, hleftExpanded.rest, hrightExpanded.rest]
    · have hset : Reshaped (content ctxt) cur heap₂.p
          (heap₂.p.set cur (deepened ctxt (lv + 1) x)) :=
        Reshaped.set hx₂ (content_deepened ctxt (lv + 1) x)
      have hboth := (hrightExpanded.reshaped.ofUnder hrightUnder).trans
        (hleftExpanded.reshaped.ofUnder hleftUnder)
      exact (hboth.trans hset).trans hexpanded.reshaped

end

end Greenplum.MkSort
