/-
The multi-key quicksort sorts: whatever the levels of the keys, it ends, stays within
the array and leaves its entries in the lexicographic order of their prepared keys.
-/
import Greenplum.MkQsortPartition

namespace Greenplum.MkSort

open IndexedCells ThreeWayZones List

variable {T D : Type} (ctxt : MKContext T D)

section

variable {lv : Nat} {empty : Bool} {run : Fin 0x4000} {a : List (MKEntry T D)} {left right : Int}

theorem prepareLoop_spec (hlv : lv ≤ mkeMaxLv) {last : Int} (fuel : Nat)
    (a : List (MKEntry T D)) (cur : Int) (hcur : cur ≤ last) (hfuel : last - cur < fuel)
    (hlow : 0 ≤ cur) (hhigh : last < a.length) :
    ∃ next, prepareLoop ctxt lv last fuel a cur = .ok next ∧ next.length = a.length ∧
      ∀ k, cell next k = if cur ≤ k ∧ k ≤ last
        then (cell a k).map (fun e => atLv (prepare ctxt e lv) lv) else cell a k := by
  induction fuel generalizing a cur with
  | zero => omega
  | succ fuel ih =>
    obtain ⟨e, he⟩ := exists_cell hlow (by omega : cur < a.length)
    obtain ⟨b, hb, hlength, hcell⟩ := write_spec MkError.outside hlow
      (by omega : cur < a.length) (atLv (prepare ctxt e lv) lv)
    unfold prepareLoop
    simp only [read_eq_ok he, mkeSetLv_eq_ok _ hlv, hb, bind, Except.bind]
    by_cases hmore : cur + 1 ≤ last
    · obtain ⟨next, hnext, hnextLength, hnextCell⟩ :=
        ih b (cur + 1) hmore (by omega) (by omega) (by omega)
      rw [if_pos hmore]
      refine ⟨next, hnext, hnextLength.trans hlength, ?_⟩
      intro k
      rw [hnextCell, hcell]
      by_cases hk : k = cur
      · rw [hk, if_neg (by omega), if_pos rfl, if_pos ⟨le_refl cur, hcur⟩, he]
        rfl
      · by_cases hin : cur + 1 ≤ k ∧ k ≤ last
        · rw [if_pos hin, if_neg hk, if_pos ⟨by omega, hin.2⟩]
        · rw [if_neg hin, if_neg hk, if_neg (by omega)]
    · rw [if_neg hmore]
      refine ⟨b, rfl, hlength, ?_⟩
      intro k
      rw [hcell]
      by_cases hk : k = cur
      · rw [hk, if_pos rfl, if_pos ⟨le_refl cur, hcur⟩, he]
        rfl
      · rw [if_neg hk, if_neg (by omega)]

/-- Entries of one run. -/
def SameRun (empty : Bool) (run : Fin 0x4000) (e : MKEntry T D) : Prop :=
  e.compflags.empty = empty ∧ e.compflags.run = run

theorem AllIn.content {next : List (MKEntry T D)} {lo hi : Int}
    (h : AllIn (SameRun empty run) a left right)
    (hnext : Rearranged (content ctxt) lo hi a next) (hlo : left ≤ lo) (hhi : hi ≤ right) :
    AllIn (SameRun empty run) next left right :=
  (hnext.widen hlo hhi).forall_content (fun c => c.empty = empty ∧ c.run = run) h

theorem AllIn.range {property : MKEntry T D → Prop} (h : AllIn property a left right)
    (hle : left ≤ right) : 0 ≤ left ∧ right < a.length := by
  obtain ⟨x, hx, -⟩ := h left (le_refl left) hle
  obtain ⟨y, hy, -⟩ := h right hle (le_refl right)
  exact ⟨(cell_range hx).1, (cell_range hy).2⟩

/-- Afterwards the entries of the range hold their keys of the level. -/
theorem mkPrepareArray_spec (hlv : lv ≤ mkeMaxLv) (hle : left ≤ right)
    (hall : AllIn (SameRun empty run) a left right) :
    ∃ next, mkPrepareArray ctxt a left right lv = .ok next ∧
      Rearranged (content ctxt) left right a next ∧
      AllIn (Alike ctxt lv empty run) next left right := by
  obtain ⟨hlow, hhigh⟩ := hall.range hle
  obtain ⟨next, hnext, hlength, hcell⟩ := prepareLoop_spec ctxt hlv ((right - left).toNat + 1) a
    left hle (by omega) hlow hhigh
  refine ⟨next, hnext, Rearranged.ofSame hlength ?_ ?_, ?_⟩
  · intro k
    rw [hcell]
    split_ifs
    · rw [Option.map_map]
      congr 1
      funext e
      exact (content_atLv ctxt _ lv).trans (content_prepare ctxt e lv)
    · rfl
  · intro k hk
    rw [hcell, if_neg (by omega)]
  · intro k hkLow hkHigh
    obtain ⟨e, he, hrun⟩ := hall k hkLow hkHigh
    refine ⟨atLv (prepare ctxt e lv) lv, ?_, ?_⟩
    · rw [hcell, if_pos ⟨hkLow, hkHigh⟩, he]
      rfl
    · refine ⟨prepared_atLv_prepare ctxt e hlv, ?_, ?_⟩
      · rw [prepare_compflags]
        exact hrun.1
      · rw [prepare_compflags]
        exact hrun.2

end

section

variable {o : Ordering} {x y : MKEntry T D}

/-- The entries of a range are in the order of `count` keys from level `lv` on. -/
def SortedBy (lv count : Nat) (a : List (MKEntry T D)) (left right : Int) : Prop :=
  ∀ i j x y, left ≤ i → i < j → j ≤ right → cell a i = some x → cell a j = some y →
    (compareFrom ctxt lv count x y).isLE

variable {lv count : Nat} {v : MKEntry T D} {a next : List (MKEntry T D)} {left right : Int}

theorem SortedBy.congr (h : SortedBy ctxt lv count a left right)
    (hsame : ∀ k, left ≤ k → k ≤ right → cell next k = cell a k) :
    SortedBy ctxt lv count next left right := by
  intro i j x y hi hij hj hx hy
  rw [hsame i hi (by omega)] at hx
  rw [hsame j (by omega) hj] at hy
  exact h i j x y hi hij hj hx hy

/-- The class of an entry under the pivot. -/
def HasClass (lv : Nat) (v : MKEntry T D) (o : Ordering) (e : MKEntry T D) : Prop :=
  pivotClass ctxt lv v e = o

theorem pivotClass_of_content {e e' : MKEntry T D} (h : content ctxt e = content ctxt e') :
    pivotClass ctxt lv v e = pivotClass ctxt lv v e' := by
  unfold pivotClass
  rw [keyAt_of_content ctxt h]

theorem allIn_hasClass (hzone : Zone (classes (pivotClass ctxt lv v) a) left right o)
    (hnext : Rearranged (content ctxt) left right a next) :
    AllIn (HasClass ctxt lv v o) next left right := by
  have hall : ∀ k, left ≤ k → k ≤ right → ∃ e, cell a k = some e ∧
      ∀ e', content ctxt e' = content ctxt e → HasClass ctxt lv v o e' := by
    intro k hlow hhigh
    obtain ⟨e, he, hclass⟩ := Option.map_eq_some_iff.1 (hzone k hlow hhigh)
    exact ⟨e, he, fun e' he' => (pivotClass_of_content ctxt he').trans hclass⟩
  intro k hlow hhigh
  obtain ⟨e, he, hclass⟩ := hnext.forall_content
    (fun c => ∀ e', content ctxt e' = c → HasClass ctxt lv v o e') hall k hlow hhigh
  exact ⟨e, he, hclass e rfl⟩

theorem keyCompare_lt_of_classes {o' : Ordering} (hx : HasClass ctxt lv v o x)
    (hy : HasClass ctxt lv v o' y) (hclasses : o = .lt ∧ o' ≠ .lt ∨ o ≠ .gt ∧ o' = .gt) :
    keyCompare ctxt lv (keyAt ctxt x lv) (keyAt ctxt y lv) = .lt := by
  have hy' : keyCompare ctxt lv (keyAt ctxt v lv) (keyAt ctxt y lv) = o'.swap := by
    rw [keyCompare_swap]
    exact congrArg Ordering.swap hy
  rcases hclasses with ⟨ho, ho'⟩ | ⟨ho, ho'⟩
  · rw [ho] at hx
    have hx' : keyCompare ctxt lv (keyAt ctxt x lv) (keyAt ctxt v lv) = .lt := hx
    apply Std.TransCmp.lt_of_lt_of_isLE hx'
    cases o' <;> simp_all
  · rw [ho'] at hy'
    refine Std.TransCmp.lt_of_isLE_of_lt ?_ hy'
    have hx' : keyCompare ctxt lv (keyAt ctxt x lv) (keyAt ctxt v lv) = o := hx
    cases o <;> simp_all

theorem keyCompare_eq_of_classes (hx : HasClass ctxt lv v .eq x) (hy : HasClass ctxt lv v .eq y) :
    keyCompare ctxt lv (keyAt ctxt x lv) (keyAt ctxt y lv) = .eq := by
  have hy' : keyCompare ctxt lv (keyAt ctxt v lv) (keyAt ctxt y lv) = .eq := by
    rw [keyCompare_swap]
    exact congrArg Ordering.swap hy
  exact Std.TransCmp.eq_trans hx hy'

theorem compareFrom_isLE_of_lt (h : keyCompare ctxt lv (keyAt ctxt x lv) (keyAt ctxt y lv) = .lt) :
    (compareFrom ctxt lv (count + 1) x y).isLE := by
  unfold compareFrom
  rw [h]
  rfl

theorem compareFrom_of_eq (h : keyCompare ctxt lv (keyAt ctxt x lv) (keyAt ctxt y lv) = .eq) :
    compareFrom ctxt lv (count + 1) x y = compareFrom ctxt (lv + 1) count x y := by
  rw [compareFrom, h]
  rfl

/-- The three parts in order are in order together: at their level the parts differ,
and within the middle one only the further keys count. -/
theorem sortedBy_of_parts {lastInLow firstInHigh : Int}
    (hsmaller : AllIn (HasClass ctxt lv v .lt) a left lastInLow)
    (hequal : AllIn (HasClass ctxt lv v .eq) a (lastInLow + 1) (firstInHigh - 1))
    (hgreater : AllIn (HasClass ctxt lv v .gt) a firstInHigh right)
    (hlow : SortedBy ctxt lv (count + 1) a left lastInLow)
    (hmiddle : SortedBy ctxt (lv + 1) count a (lastInLow + 1) (firstInHigh - 1))
    (hhigh : SortedBy ctxt lv (count + 1) a firstInHigh right) :
    SortedBy ctxt lv (count + 1) a left right := by
  intro i j x y hi hij hj hx hy
  have hclassOf : ∀ {k o e lo hi}, AllIn (HasClass ctxt lv v o) a lo hi → lo ≤ k → k ≤ hi →
      cell a k = some e → HasClass ctxt lv v o e := by
    intro k o e lo hi hall hkLow hkHigh he
    obtain ⟨e', he', hclass⟩ := hall k hkLow hkHigh
    rw [he] at he'
    cases he'
    exact hclass
  by_cases hiLow : i ≤ lastInLow
  · have hxClass := hclassOf hsmaller hi hiLow hx
    by_cases hjLow : j ≤ lastInLow
    · exact hlow i j x y hi hij hjLow hx hy
    · by_cases hjMiddle : j ≤ firstInHigh - 1
      · have hyClass := hclassOf hequal (by omega) hjMiddle hy
        exact compareFrom_isLE_of_lt ctxt
          (keyCompare_lt_of_classes ctxt hxClass hyClass (by decide))
      · have hyClass := hclassOf hgreater (by omega) hj hy
        exact compareFrom_isLE_of_lt ctxt
          (keyCompare_lt_of_classes ctxt hxClass hyClass (by decide))
  · by_cases hiMiddle : i ≤ firstInHigh - 1
    · have hxClass := hclassOf hequal (by omega) hiMiddle hx
      by_cases hjMiddle : j ≤ firstInHigh - 1
      · have hyClass := hclassOf hequal (by omega) hjMiddle hy
        rw [compareFrom_of_eq ctxt (keyCompare_eq_of_classes ctxt hxClass hyClass)]
        exact hmiddle i j x y (by omega) hij hjMiddle hx hy
      · have hyClass := hclassOf hgreater (by omega) hj hy
        exact compareFrom_isLE_of_lt ctxt
          (keyCompare_lt_of_classes ctxt hxClass hyClass (by decide))
    · exact hhigh i j x y (by omega) hij hj hx hy

end

section

variable {empty : Bool} {run : Fin 0x4000} {lv : Nat}
  {left right lastInLow firstInHigh : Int} {a : List (MKEntry T D)}

theorem alike_sameRun {e : MKEntry T D} (h : Alike ctxt lv empty run e) :
    SameRun empty run e := ⟨h.empty, h.run⟩

/-- The fuel that the sort of a range of at most `size` entries needs. -/
def rangeFuel (size lv : Nat) (left right : Int) : Nat :=
  (ctxt.totalLv - lv) * (size + 1) + (right - left + 1).toNat

theorem rangeFuel_level {size : Nat} (hlv : lv + 1 < ctxt.totalLv)
    (hsize : right - left + 1 ≤ size) (lo hi : Int) (hlo : left ≤ lo) (hhi : hi ≤ right) :
    rangeFuel ctxt size (lv + 1) lo hi < rangeFuel ctxt size lv left right ∨ right < left := by
  unfold rangeFuel
  have hlevels : ctxt.totalLv - lv = ctxt.totalLv - (lv + 1) + 1 := by omega
  rw [hlevels, Nat.add_mul]
  omega

/-- What the sort of a range leaves behind. -/
structure Sorts (lv : Nat) (a next : List (MKEntry T D)) (left right : Int) : Prop where
  rearranged : Rearranged (content ctxt) left right a next
  sorted : SortedBy ctxt lv (ctxt.totalLv - lv) next left right

/-- One round: the partition and the sorts of its three parts. -/
theorem sorts_of_parts {v : MKEntry T D} {b low middle high : List (MKEntry T D)}
    (hlv : lv < ctxt.totalLv) (hparted : Parted ctxt lv left right a b lastInLow firstInHigh v)
    (hlow : Sorts ctxt lv b low left lastInLow)
    (hmiddle : Sorts ctxt (lv + 1) low middle (lastInLow + 1) (firstInHigh - 1))
    (hhigh : Sorts ctxt lv middle high firstInHigh right) : Sorts ctxt lv a high left right := by
  have hlastLow := hparted.low
  have hgap := hparted.gap
  have hfirstHigh := hparted.high
  have hsameLow : ∀ k, k ≤ lastInLow → cell high k = cell low k := by
    intro k hk
    rw [hhigh.rearranged.outside k (by omega), hmiddle.rearranged.outside k (by omega)]
  have hsameMiddle : ∀ k, k ≤ firstInHigh - 1 → cell high k = cell middle k := by
    intro k hk
    rw [hhigh.rearranged.outside k (by omega)]
  constructor
  · have hpartition : Rearranged (content ctxt) left right a b :=
      hparted.rearranged.map (content ctxt)
    have hfirst := hlow.rearranged.widen (le_refl left) (by omega : lastInLow ≤ right)
    have hsecond := hmiddle.rearranged.widen (by omega : left ≤ lastInLow + 1)
      (by omega : firstInHigh - 1 ≤ right)
    have hthird := hhigh.rearranged.widen (by omega : left ≤ firstInHigh) (le_refl right)
    exact ((hpartition.trans hfirst).trans hsecond).trans hthird
  · have hcount : ctxt.totalLv - lv = ctxt.totalLv - (lv + 1) + 1 := by omega
    -- every part keeps the class that the partition gave it
    have hsmaller : AllIn (HasClass ctxt lv v .lt) high left lastInLow := by
      intro k hkLow hkHigh
      rw [hsameLow k hkHigh]
      exact allIn_hasClass ctxt hparted.smaller hlow.rearranged k hkLow hkHigh
    have hequal : AllIn (HasClass ctxt lv v .eq) high (lastInLow + 1) (firstInHigh - 1) := by
      have hzone : Zone (classes (pivotClass ctxt lv v) low) (lastInLow + 1) (firstInHigh - 1)
          .eq := by
        apply hparted.equal.congr
        intro k hkLow hkHigh
        unfold classes
        rw [hlow.rearranged.outside k (by omega)]
      intro k hkLow hkHigh
      rw [hsameMiddle k hkHigh]
      exact allIn_hasClass ctxt hzone hmiddle.rearranged k hkLow hkHigh
    have hgreater : AllIn (HasClass ctxt lv v .gt) high firstInHigh right := by
      have hzone : Zone (classes (pivotClass ctxt lv v) middle) firstInHigh right .gt := by
        apply hparted.greater.congr
        intro k hkLow hkHigh
        unfold classes
        rw [hmiddle.rearranged.outside k (by omega), hlow.rearranged.outside k (by omega)]
      exact allIn_hasClass ctxt hzone hhigh.rearranged
    have hlowSorted := hlow.sorted.congr ctxt (fun k _ hk => hsameLow k hk)
    have hmiddleSorted := hmiddle.sorted.congr ctxt (fun k _ hk => hsameMiddle k hk)
    have hhighSorted := hhigh.sorted
    rw [hcount] at hlowSorted hhighSorted ⊢
    exact sortedBy_of_parts ctxt hsmaller hequal hgreater hlowSorted hmiddleSorted hhighSorted

variable [Inhabited T] [Inhabited D] (hunique : ctxt.unique = false)

include hunique

variable (henforce : ctxt.enforceUnique = false)

include henforce

/-- Without uniqueness nothing happens to entries that are equal in all keys. -/
theorem checkUnique_off {property : MKEntry T D → Prop}
    (seenNull : Bool) (hall : AllIn property a (lastInLow + 1) (firstInHigh - 1))
    (hgap : lastInLow + 2 ≤ firstInHigh) :
    checkUnique ctxt a lastInLow firstInHigh seenNull = .ok a := by
  obtain ⟨pivot, hpivot, -⟩ := hall (lastInLow + 1) (le_refl _) (by omega)
  unfold checkUnique
  simp [read_eq_ok hpivot, hunique, henforce, bind, Except.bind, pure, Except.pure, ite_self]

/-- The middle part is sorted by the further keys, if there are any. -/
theorem sortEqual_spec (queryFinishPending : Int → Int → Nat → Bool) (fuel : Nat)
    (seenNull : Bool) (hlv : lv < ctxt.totalLv) (hgap : lastInLow + 2 ≤ firstInHigh)
    (hall : AllIn (SameRun empty run) a (lastInLow + 1) (firstInHigh - 1))
    (hdeeper : lv + 1 < ctxt.totalLv → ∀ seenNull, ∃ next,
      mkQsortImpl ctxt queryFinishPending fuel a (lastInLow + 1) (firstInHigh - 1) (lv + 1) true
        seenNull = .ok next ∧ Sorts ctxt (lv + 1) a next (lastInLow + 1) (firstInHigh - 1)) :
    ∃ next, sortEqual ctxt (mkQsortImpl ctxt queryFinishPending fuel) a lastInLow firstInHigh lv
      seenNull = .ok next ∧ Sorts ctxt (lv + 1) a next (lastInLow + 1) (firstInHigh - 1) := by
  unfold sortEqual
  by_cases hmore : lv + 1 < ctxt.totalLv
  · obtain ⟨pivot, hpivot, -⟩ := hall (lastInLow + 1) (le_refl _) (by omega)
    obtain ⟨next, hnext, hsorts⟩ := hdeeper hmore (seenNull || mkeIsNull pivot)
    refine ⟨next, ?_, hsorts⟩
    rw [if_pos hmore, read_eq_ok hpivot]
    exact hnext
  · refine ⟨a, ?_, Rearranged.refl _ _ _ a, ?_⟩
    · rw [if_neg hmore]
      exact checkUnique_off ctxt hunique henforce seenNull hall hgap
    · have hnone : ctxt.totalLv - (lv + 1) = 0 := by omega
      intro i j x y _ _ _ _ _
      rw [hnone]
      rfl

theorem mkQsortImpl_spec {queryFinishPending : Int → Int → Nat → Bool}
    (hpending : ∀ left right lv, queryFinishPending left right lv = false)
    (hlevels : ctxt.totalLv ≤ mkeMaxLv + 1) (size fuel : Nat) (a : List (MKEntry T D))
    (left right : Int) (lv : Nat) (lvdown seenNull : Bool) (hlv : lv < ctxt.totalLv)
    (hsize : right - left + 1 ≤ size) (hfuel : rangeFuel ctxt size lv left right < fuel)
    (hall : AllIn (SameRun empty run) a left right)
    (hprepared : lvdown = false → AllIn (Alike ctxt lv empty run) a left right) :
    ∃ next, mkQsortImpl ctxt queryFinishPending fuel a left right lv lvdown seenNull = .ok next ∧
      Sorts ctxt lv a next left right := by
  induction fuel generalizing a left right lv lvdown seenNull with
  | zero => omega
  | succ fuel ih =>
    unfold mkQsortImpl
    rw [if_neg (Bool.eq_false_iff.1 (hpending left right lv))]
    by_cases hshort : right ≤ left
    · rw [if_pos hshort]
      refine ⟨a, rfl, Rearranged.refl _ _ _ a, ?_⟩
      intro i j x y hi hij hj _ _
      omega
    · rw [if_neg hshort]
      obtain ⟨b, hb, hbMoved, hbAlike⟩ : ∃ b, prepareDown ctxt lvdown a left right lv = .ok b ∧
          Rearranged (content ctxt) left right a b ∧
          AllIn (Alike ctxt lv empty run) b left right := by
        cases lvdown with
        | true => exact mkPrepareArray_spec ctxt (by omega) (by omega) hall
        | false => exact ⟨a, rfl, Rearranged.refl _ _ _ a, hprepared rfl⟩
      obtain ⟨c, lastInLow, firstInHigh, v, hc, hparted⟩ :=
        mkQsortPart3_spec ctxt hbAlike (by omega)
      have hlastLow := hparted.low
      have hgap := hparted.gap
      have hfirstHigh := hparted.high
      have hcAlike := hbAlike.rearranged hparted.rearranged (le_refl left) (le_refl right)
      have hcRun := hcAlike.mono (fun e he => alike_sameRun ctxt he)
      -- the smaller entries
      obtain ⟨low, hlow, hlowSorts⟩ := ih c left lastInLow lv false seenNull hlv (by omega)
        (by unfold rangeFuel at hfuel ⊢; omega) (hcRun.narrow (le_refl left) (by omega))
        (fun _ => hcAlike.narrow (le_refl left) (by omega))
      have hlowRun := hcRun.content ctxt hlowSorts.rearranged (le_refl left) (by omega)
      -- the equal ones
      obtain ⟨middle, hmiddle, hmiddleSorts⟩ := sortEqual_spec ctxt hunique henforce
        queryFinishPending fuel seenNull hlv hgap (hlowRun.narrow (by omega) (by omega)) (by
          intro hmore seenNull
          apply ih low (lastInLow + 1) (firstInHigh - 1) (lv + 1) true seenNull hmore (by omega)
          · have hless := rangeFuel_level ctxt hmore hsize (lastInLow + 1) (firstInHigh - 1)
              (by omega) (by omega)
            omega
          · exact hlowRun.narrow (by omega) (by omega)
          · exact fun hnot => absurd hnot (by decide))
      have hmiddleRun := hlowRun.content ctxt hmiddleSorts.rearranged (by omega) (by omega)
      -- the greater ones, which nothing has touched since the partition
      have hgreaterAlike : AllIn (Alike ctxt lv empty run) middle firstInHigh right := by
        intro k hkLow hkHigh
        rw [hmiddleSorts.rearranged.outside k (by omega), hlowSorts.rearranged.outside k (by omega)]
        exact hcAlike k (by omega) hkHigh
      obtain ⟨high, hhigh, hhighSorts⟩ := ih middle firstInHigh right lv false seenNull hlv
        (by omega) (by unfold rangeFuel at hfuel ⊢; omega)
        (hmiddleRun.narrow (by omega) (le_refl right)) (fun _ => hgreaterAlike)
      have hsorts := sorts_of_parts ctxt hlv hparted hlowSorts hmiddleSorts hhighSorts
      refine ⟨high, ?_, hbMoved.trans hsorts.rearranged, hsorts.sorted⟩
      simp [hb, hc, hlow, hmiddle, hhigh, bind, Except.bind]

end

section

theorem allIn_of_forall {property : MKEntry T D → Prop} {a : List (MKEntry T D)}
    (h : ∀ e ∈ a, property e) : AllIn property a 0 (a.length - 1) := by
  intro k hlow hhigh
  obtain ⟨e, he⟩ := exists_cell hlow (by omega : k < a.length)
  have hk : cell a (k.toNat : Int) = some e := by
    rw [Int.toNat_of_nonneg hlow]
    exact he
  exact ⟨e, he, h e (mem_of_getElem? hk)⟩

theorem forall_of_allIn {property : MKEntry T D → Prop} {a : List (MKEntry T D)} {right : Int}
    (h : AllIn property a 0 right) (hright : a.length ≤ right + 1) : ∀ e ∈ a, property e := by
  intro e he
  obtain ⟨k, hk⟩ := mem_iff_getElem?.1 he
  have hlt := (List.getElem?_eq_some_iff.1 hk).1
  obtain ⟨e', he', hproperty⟩ := h (k : Int) (by omega) (by omega)
  rw [cell_natCast, hk] at he'
  cases he'
  exact hproperty

variable [Inhabited T] [Inhabited D]

end

namespace QsortWitness

/-- Tuples of two numbers: the first ascending with nulls last, the second
descending with nulls first.  A seven is a null. -/
def pairs : MKContext (Nat × Nat) Nat where
  totalLv := 2
  totalLv_pos := by decide
  lvctxt := fun lv =>
    { compare := compare, desc := lv == 1, nullsFirst := lv == 1, compare_trans := inferInstance }
  fetchForPrep := some fun t lv =>
    let d := if lv == 0 then t.1 else t.2
    (d, d == 7)
  unique := false
  enforceUnique := false

def pairEntry (t : Nat × Nat) : MKEntry (Nat × Nat) Nat :=
  mkeBlank { compflags := ⟨false, 0, 0, 0⟩, reader := 0, d := 0, ptr := t }

def shuffled : List (MKEntry (Nat × Nat) Nat) :=
  [(7, 1), (2, 3), (1, 1), (2, 7), (1, 4), (2, 5)].map pairEntry

/-- There are no strings. -/
theorem pairs_sameOrder (x y : MKEntry (Nat × Nat) Nat) : SameOrder pairs x y :=
  have hplain : ∀ lv v1 v2, KeepsOrder (pairs.lvctxt lv) v1 v2 :=
    fun _ _ _ hstring => absurd hstring Bool.false_ne_true
  ⟨fun _ _ => hplain 0 _ _, fun _ => ⟨fun _ _ => hplain 1 _ _, fun _ => trivial⟩⟩

/-- Texts of 512 times the letter a and one more letter, in a locale that transforms
nothing. -/
def longStrings : LocaleStrings UInt8 where
  lvtype := .text
  untoast := fun letter => List.replicate 512 97 ++ [letter]

/-- One descending TEXT key. -/
def longTexts : MKContext UInt8 UInt8 where
  totalLv := 1
  totalLv_pos := by decide
  lvctxt := fun _ =>
    { longStrings with
      compare := longStrings.varstrCmp
      desc := true
      nullsFirst := false
      compare_trans := longStrings.varstrCmp_trans
      compare_string := fun _ => rfl
      long_xfrm := fun _ _ _ heq =>
        congrArg (fun s => decide (strxfrmInputLengthLimit < length s)) heq }
  fetchForPrep := some fun t _ => (t, false)
  unique := false
  enforceUnique := false

def textEntry (letter : UInt8) : MKEntry UInt8 UInt8 :=
  mkeBlank { compflags := ⟨false, 0, 0, 0⟩, reader := 0, d := 0, ptr := letter }

end QsortWitness

end Greenplum.MkSort
