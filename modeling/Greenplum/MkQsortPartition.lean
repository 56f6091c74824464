/-
The three-way partition of the multi-key quicksort: it ends, stays within its range,
only moves entries around and leaves the smaller ones before the equal ones before the
greater ones.
-/
import Greenplum.MkQsort
import Greenplum.ThreeWayZones

namespace Greenplum.MkSort

open IndexedCells ThreeWayZones

variable {T D : Type} (ctxt : MKContext T D) {property : MKEntry T D → Prop}
  {a next : List (MKEntry T D)} {left right lo hi k : Int}

variable (classOf : MKEntry T D → Ordering)

/-- The classes of the entries under a way to class them. -/
def classes (a : List (MKEntry T D)) : Int → Option Ordering :=
  fun k => (cell a k).map classOf

/-- The comparisons of an entry with the pivot tell its class. -/
structure Compared (lv : Nat) (v : MKEntry T D) (classOf : MKEntry T D → Ordering)
    (e : MKEntry T D) : Prop where
  left_neg : mkqsComp ctxt lv e v < 0 ↔ classOf e = .lt
  left_pos : mkqsComp ctxt lv e v > 0 ↔ classOf e = .gt
  right_neg : mkqsComp ctxt lv v e < 0 ↔ classOf e = .gt
  right_pos : mkqsComp ctxt lv v e > 0 ↔ classOf e = .lt

/-- All entries of a range have a property. -/
def AllIn (property : MKEntry T D → Prop) (a : List (MKEntry T D)) (left right : Int) : Prop :=
  ∀ k, left ≤ k → k ≤ right → ∃ e, cell a k = some e ∧ property e

theorem AllIn.rearranged (h : AllIn property a left right)
    (hnext : Rearranged id lo hi a next) (hlo : left ≤ lo) (hhi : hi ≤ right) :
    AllIn property next left right :=
  (hnext.widen hlo hhi).forall_content property h

theorem AllIn.narrow (h : AllIn property a left right) (hlo : left ≤ lo)
    (hhi : hi ≤ right) : AllIn property a lo hi :=
  fun k hlow hhigh => h k (by omega) (by omega)

theorem AllIn.mono {other : MKEntry T D → Prop} (h : AllIn property a left right)
    (hmono : ∀ e, property e → other e) : AllIn other a left right := by
  intro k hlow hhigh
  obtain ⟨e, he, hproperty⟩ := h k hlow hhigh
  exact ⟨e, he, hmono e hproperty⟩

theorem classes_eq {e : MKEntry T D}
    (he : cell a k = some e) : classes classOf a k = some (classOf e) := by
  unfold classes
  rw [he]
  rfl

theorem classes_outside {classOf : MKEntry T D → Ordering}
    (h : Rearranged id lo hi a next) (hk : k < lo ∨ hi < k) :
    classes classOf next k = classes classOf a k := by
  unfold classes
  rw [h.outside k hk]

theorem mkqsSwap_spec {i j : Int}
    (hall : AllIn property a lo hi) (hiRange : lo ≤ i ∧ i ≤ hi) (hjRange : lo ≤ j ∧ j ≤ hi) :
    ∃ next, mkqsSwap a i j = .ok next ∧ Rearranged id lo hi a next ∧
      Swapped (classes classOf a) (classes classOf next) i j := by
  obtain ⟨x, hx, -⟩ := hall i hiRange.1 hiRange.2
  obtain ⟨y, hy, -⟩ := hall j hjRange.1 hjRange.2
  unfold mkqsSwap
  by_cases hij : i = j
  · rw [if_neg (not_not_intro hij)]
    refine ⟨a, rfl, Rearranged.refl id _ _ a, ?_⟩
    intro k
    split_ifs with hkj hki
    · rw [hkj, hij]
    · exact absurd (hki.trans hij) hkj
    · rfl
  · rw [if_pos hij]
    obtain ⟨next, hnext, hlength, hperm, hcell⟩ := swap_spec MkError.outside hx hy
    refine ⟨next, hnext, rearranged_swap hx hy hiRange hjRange hlength hperm hcell, ?_⟩
    intro k
    unfold classes
    rw [hcell k]
    split_ifs
    · rw [hx]
    · rw [hy]
    · rfl

/-- A comparison that is not negative tells the class at which a scan stops. -/
theorem stop_class {c : Int} {o skipped stop : Ordering} (hneg : c < 0 ↔ o = skipped)
    (hpos : c > 0 ↔ o = stop) (hall : ∀ o : Ordering, o = skipped ∨ o = .eq ∨ o = stop)
    (hnot : ¬ c < 0) : (c > 0 → o = stop) ∧ (¬ c > 0 → o = .eq) :=
  ⟨hpos.1, fun hstop => ((hall o).resolve_left (mt hneg.2 hnot)).resolve_right (mt hpos.2 hstop)⟩

section

variable {lv : Nat} {v : MKEntry T D} {classOf : MKEntry T D → Ordering}
  {a : List (MKEntry T D)} {left right : Int} {rightIndex tmpLeftIndex : Int}

theorem skipLess_spec (hall : AllIn (Compared ctxt lv v classOf) a left right)
    {p : Int} (hright : rightIndex ≤ right + 1) (fuel : Nat) (leftIndex cmp : Int)
    (hless : leftIndex < rightIndex) (hfuel : rightIndex - leftIndex ≤ fuel)
    (hscan : Scanned (classes classOf a) .lt left p leftIndex) :
    ∃ index cmp', skipLess ctxt lv a v rightIndex fuel leftIndex cmp = .ok (index, cmp') ∧
      leftIndex < index ∧ index ≤ rightIndex ∧ Scanned (classes classOf a) .lt left p (index - 1) ∧
      (index < rightIndex → (cmp' > 0 → classes classOf a index = some .gt) ∧
        (¬ cmp' > 0 → classes classOf a index = some .eq)) := by
  induction fuel generalizing leftIndex cmp with
  | zero => omega
  | succ fuel ih =>
    unfold skipLess
    by_cases hmeet : leftIndex + 1 < rightIndex
    · have hlow := hscan.low
      have hhigh := hscan.high
      obtain ⟨e, he, hcompared⟩ := hall (leftIndex + 1) (by omega) (by omega)
      have hclass := classes_eq classOf he
      simp only [hmeet, if_true, read_eq_ok he, bind, Except.bind]
      by_cases hneg : mkqsComp ctxt lv e v < 0
      · rw [if_pos hneg]
        rw [hcompared.left_neg.1 hneg] at hclass
        obtain ⟨index, cmp', hskip, hindex, hrest⟩ :=
          ih (leftIndex + 1) (mkqsComp ctxt lv e v) hmeet (by omega) (hscan.skip hclass)
        exact ⟨index, cmp', hskip, by omega, hrest⟩
      · rw [if_neg hneg]
        refine ⟨leftIndex + 1, mkqsComp ctxt lv e v, rfl, by omega, by omega, ?_, ?_⟩
        · rw [add_sub_cancel_right]
          exact hscan
        · intro _
          rw [hclass, Option.some_inj, Option.some_inj]
          exact stop_class hcompared.left_neg hcompared.left_pos (by decide) hneg
    · simp only [hmeet, if_false]
      refine ⟨leftIndex + 1, cmp, rfl, by omega, by omega, ?_, fun h => absurd h hmeet⟩
      rw [add_sub_cancel_right]
      exact hscan

theorem scanLeft_spec (hright : rightIndex ≤ right + 1) (fuel : Nat)
    (a : List (MKEntry T D)) (p leftIndex cmp : Int)
    (hall : AllIn (Compared ctxt lv v classOf) a left right)
    (hless : leftIndex < rightIndex) (hfuel : rightIndex - leftIndex ≤ fuel)
    (hscan : Scanned (classes classOf a) .lt left p leftIndex) :
    ∃ a' p' index, scanLeft ctxt lv v rightIndex fuel a p leftIndex cmp = .ok (a', p', index) ∧
      leftIndex < index ∧ index ≤ rightIndex ∧ Rearranged id left (index - 1) a a' ∧
      Scanned (classes classOf a') .lt left p' (index - 1) ∧
      (index < rightIndex → classes classOf a' index = some .gt) := by
  induction fuel generalizing a p leftIndex cmp with
  | zero => omega
  | succ fuel ih =>
    obtain ⟨index, cmp', hskip, hlow, hhigh, hnext, hclass⟩ :=
      skipLess_spec ctxt hall hright (rightIndex - leftIndex).toNat leftIndex cmp hless
        (by omega) hscan
    unfold scanLeft
    simp only [hskip, bind, Except.bind]
    by_cases hstop : index = rightIndex ∨ cmp' > 0
    · rw [if_pos hstop]
      exact ⟨a, p, index, rfl, hlow, hhigh, Rearranged.refl id _ _ a, hnext,
        fun hmeet => (hclass hmeet).1 (hstop.resolve_left (by omega))⟩
    · -- an equal entry goes to the left end, and the scan goes on behind it
      have hmeet : index < rightIndex := by omega
      have heq := (hclass hmeet).2 (fun hpos => hstop (.inr hpos))
      have hpLow := hnext.low
      have hpHigh := hnext.high
      rw [if_neg hstop]
      obtain ⟨b, hb, hmoved, hswap⟩ := mkqsSwap_spec classOf
        (hall.narrow (le_refl left) (by omega : index ≤ right))
        (i := p + 1) (j := index) ⟨by omega, by omega⟩ ⟨by omega, by omega⟩
      have hindex : index - 1 + 1 = index := by omega
      have hcollect : Scanned (classes classOf b) .lt left (p + 1) index := by
        have hall := hnext.collect (by rw [hindex]; exact heq) (by rw [hindex]; exact hswap)
        rw [hindex] at hall
        exact hall
      simp only [hb]
      obtain ⟨c, p', index', hscan', hlow', hhigh', hmoved', hnext', hclass'⟩ :=
        ih b (p + 1) index cmp' (hall.rearranged hmoved (le_refl left) (by omega)) hmeet
          (by omega) hcollect
      refine ⟨c, p', index', hscan', by omega, hhigh', ?_, hnext', hclass'⟩
      exact (hmoved.widen (le_refl left) (by omega)).trans hmoved'

theorem mirror_neg (cls : Int → Option Ordering) (k : Int) : mirror cls (-k) = cls k := by
  unfold mirror
  rw [neg_neg]

theorem skipGreater_spec (hall : AllIn (Compared ctxt lv v classOf) a left right)
    {q : Int} (hleft : left - 1 ≤ tmpLeftIndex) (fuel : Nat) (rightIndex cmp : Int)
    (hless : tmpLeftIndex < rightIndex) (hfuel : rightIndex - tmpLeftIndex ≤ fuel)
    (hscan : Scanned (mirror (classes classOf a)) .gt (-right) (-q) (-rightIndex)) :
    ∃ index cmp', skipGreater ctxt lv a v tmpLeftIndex fuel rightIndex cmp = .ok (index, cmp') ∧
      index < rightIndex ∧ tmpLeftIndex ≤ index ∧
      Scanned (mirror (classes classOf a)) .gt (-right) (-q) (-(index + 1)) ∧
      (tmpLeftIndex < index → (cmp' > 0 → classes classOf a index = some .lt) ∧
        (¬ cmp' > 0 → classes classOf a index = some .eq)) := by
  induction fuel generalizing rightIndex cmp with
  | zero => omega
  | succ fuel ih =>
    unfold skipGreater
    by_cases hmeet : rightIndex - 1 > tmpLeftIndex
    · have hlow := hscan.low
      have hhigh := hscan.high
      obtain ⟨e, he, hcompared⟩ := hall (rightIndex - 1) (by omega) (by omega)
      have hclass := classes_eq classOf he
      have hindex : -rightIndex + 1 = -(rightIndex - 1) := by omega
      simp only [hmeet, if_true, read_eq_ok he, bind, Except.bind]
      by_cases hneg : mkqsComp ctxt lv v e < 0
      · rw [if_pos hneg]
        rw [hcompared.right_neg.1 hneg] at hclass
        have hskipped : Scanned (mirror (classes classOf a)) .gt (-right) (-q)
            (-(rightIndex - 1)) := by
          rw [← hindex]
          apply hscan.skip
          rw [hindex, mirror_neg]
          exact hclass
        obtain ⟨index, cmp', hskip, hindex', hrest⟩ :=
          ih (rightIndex - 1) (mkqsComp ctxt lv v e) hmeet (by omega) hskipped
        exact ⟨index, cmp', hskip, by omega, hrest⟩
      · rw [if_neg hneg]
        refine ⟨rightIndex - 1, mkqsComp ctxt lv v e, rfl, by omega, by omega, ?_, ?_⟩
        · rw [sub_add_cancel]
          exact hscan
        · intro _
          rw [hclass, Option.some_inj, Option.some_inj]
          exact stop_class hcompared.right_neg hcompared.right_pos (by decide) hneg
    · simp only [hmeet, if_false]
      refine ⟨rightIndex - 1, cmp, rfl, by omega, by omega, ?_, fun h => absurd h hmeet⟩
      rw [sub_add_cancel]
      exact hscan

theorem scanRight_spec (hleft : left - 1 ≤ tmpLeftIndex) (fuel : Nat)
    (a : List (MKEntry T D)) (q rightIndex cmp : Int)
    (hall : AllIn (Compared ctxt lv v classOf) a left right)
    (hless : tmpLeftIndex < rightIndex) (hfuel : rightIndex - tmpLeftIndex ≤ fuel)
    (hscan : Scanned (mirror (classes classOf a)) .gt (-right) (-q) (-rightIndex)) :
    ∃ a' q' index, scanRight ctxt lv v tmpLeftIndex fuel a q rightIndex cmp = .ok (a', q', index) ∧
      index < rightIndex ∧ tmpLeftIndex ≤ index ∧ Rearranged id (index + 1) right a a' ∧
      Scanned (mirror (classes classOf a')) .gt (-right) (-q') (-(index + 1)) ∧
      (tmpLeftIndex < index → classes classOf a' index = some .lt) := by
  induction fuel generalizing a q rightIndex cmp with
  | zero => omega
  | succ fuel ih =>
    obtain ⟨index, cmp', hskip, hlow, hhigh, hnext, hclass⟩ :=
      skipGreater_spec ctxt hall hleft (rightIndex - tmpLeftIndex).toNat rightIndex cmp hless
        (by omega) hscan
    unfold scanRight
    simp only [hskip, bind, Except.bind]
    by_cases hstop : tmpLeftIndex = index ∨ cmp' > 0
    · rw [if_pos hstop]
      exact ⟨a, q, index, rfl, hlow, hhigh, Rearranged.refl id _ _ a, hnext,
        fun hmeet => (hclass hmeet).1 (hstop.resolve_left (by omega))⟩
    · have hmeet : tmpLeftIndex < index := by omega
      have heq := (hclass hmeet).2 (fun hpos => hstop (.inr hpos))
      have hqLow := hnext.low
      have hqHigh := hnext.high
      rw [if_neg hstop]
      obtain ⟨b, hb, hmoved, hswap⟩ := mkqsSwap_spec classOf
        (hall.narrow (by omega : left ≤ index) (le_refl right))
        (i := index) (j := q - 1) ⟨by omega, by omega⟩ ⟨by omega, by omega⟩
      have hindex : -(index + 1) + 1 = -index := by omega
      have hq : -q + 1 = -(q - 1) := by omega
      have hmirror : Swapped (mirror (classes classOf a)) (mirror (classes classOf b))
          (-q + 1) (-(index + 1) + 1) := by
        rw [hindex, hq]
        exact hswap.symm.mirror
      have hcollect : Scanned (mirror (classes classOf b)) .gt (-right) (-(q - 1)) (-index) := by
        have hstep := hnext.collect (by rw [hindex, mirror_neg]; exact heq) hmirror
        rw [hindex, hq] at hstep
        exact hstep
      simp only [hb]
      obtain ⟨c, q', index', hscan', hlow', hhigh', hmoved', hnext', hclass'⟩ :=
        ih b (q - 1) index cmp' (hall.rearranged hmoved (by omega) (le_refl right)) hmeet
          (by omega) hcollect
      refine ⟨c, q', index', hscan', by omega, hhigh', ?_, hnext', hclass'⟩
      exact (hmoved.widen (by omega) (le_refl right)).trans hmoved'

end

section

variable {lv : Nat} {v : MKEntry T D} {classOf : MKEntry T D → Ordering} {left right : Int}
  {a next : List (MKEntry T D)} {q rightIndex lo hi p leftIndex : Int}

/-- Between two rounds of the partition both ends are scanned up to the indices. -/
structure PartInv (lv : Nat) (v : MKEntry T D) (classOf : MKEntry T D → Ordering)
    (left right : Int) (part : Part T D) : Prop where
  compared : AllIn (Compared ctxt lv v classOf) part.a left right
  low : Scanned (classes classOf part.a) .lt left part.p part.leftIndex
  high : Scanned (mirror (classes classOf part.a)) .gt (-right) (-part.q) (-part.rightIndex)
  meet : part.leftIndex < part.rightIndex

/-- A rearrangement below an index leaves the right end alone. -/
theorem scanned_high_congr
    (h : Scanned (mirror (classes classOf a)) .gt (-right) (-q) (-rightIndex))
    (hmoved : Rearranged id lo hi a next) (hhi : hi < rightIndex) :
    Scanned (mirror (classes classOf next)) .gt (-right) (-q) (-rightIndex) := by
  apply h.congr
  intro k hlow hhigh
  exact classes_outside hmoved (by omega)

theorem scanned_low_congr (h : Scanned (classes classOf a) .lt left p leftIndex)
    (hmoved : Rearranged id lo hi a next) (hlo : leftIndex < lo) :
    Scanned (classes classOf next) .lt left p leftIndex := by
  apply h.congr
  intro k hlow hhigh
  exact classes_outside hmoved (by omega)

/-- A greater entry on the left and a smaller one on the right change places. -/
theorem partInv_swap (hcompared : AllIn (Compared ctxt lv v classOf) next left right)
    (hlow : Scanned (classes classOf a) .lt left p (leftIndex - 1))
    (hhigh : Scanned (mirror (classes classOf a)) .gt (-right) (-q) (-(rightIndex + 1)))
    (hless : leftIndex < rightIndex) (hgreater : classes classOf a leftIndex = some .gt)
    (hsmaller : classes classOf a rightIndex = some .lt)
    (hswap : Swapped (classes classOf a) (classes classOf next) leftIndex rightIndex) :
    PartInv ctxt lv v classOf left right
      { a := next, p := p, q := q, leftIndex := leftIndex, rightIndex := rightIndex } where
  compared := hcompared
  low := by
    have hleft : classes classOf next leftIndex = some .lt := by
      rw [hswap, if_neg (by omega), if_pos rfl]
      exact hsmaller
    have hbefore : Scanned (classes classOf next) .lt left p (leftIndex - 1) := by
      apply hlow.congr
      intro k hk hkHigh
      rw [hswap, if_neg (by omega), if_neg (by omega)]
    have hafter := hbefore.skip (by rw [sub_add_cancel]; exact hleft)
    rw [sub_add_cancel] at hafter
    exact hafter
  high := by
    have hright : classes classOf next rightIndex = some .gt := by
      rw [hswap, if_pos rfl]
      exact hgreater
    have hbefore : Scanned (mirror (classes classOf next)) .gt (-right) (-q)
        (-(rightIndex + 1)) := by
      apply hhigh.congr
      intro k hk hkHigh
      unfold mirror
      rw [hswap, if_neg (by omega), if_neg (by omega)]
    have hindex : -(rightIndex + 1) + 1 = -rightIndex := by omega
    have hafter := hbefore.skip (by rw [hindex, mirror_neg]; exact hright)
    rw [hindex] at hafter
    exact hafter
  meet := hless

theorem partLoop_spec (fuel : Nat) (part : Part T D)
    (hpart : PartInv ctxt lv v classOf left right part)
    (hfuel : part.rightIndex - part.leftIndex ≤ fuel) :
    ∃ part', partLoop ctxt lv v fuel part = .ok part' ∧
      PartInv ctxt lv v classOf left right part' ∧ Rearranged id left right part.a part'.a ∧
      part'.leftIndex + 1 = part'.rightIndex := by
  induction fuel generalizing part with
  | zero =>
    have hmeet := hpart.meet
    omega
  | succ fuel ih =>
    have hmeet := hpart.meet
    have hpLow := hpart.low.low
    have hpHigh := hpart.low.high
    have hqLow := hpart.high.low
    have hqHigh := hpart.high.high
    obtain ⟨b, p, leftIndex, hleft, hlow, hhigh, hmoved, hscanned, hgreater⟩ :=
      scanLeft_spec ctxt (by omega : part.rightIndex ≤ right + 1)
        (part.rightIndex - part.leftIndex).toNat part.a part.p part.leftIndex (-1)
        hpart.compared hmeet (by omega) hpart.low
    have hb : AllIn (Compared ctxt lv v classOf) b left right :=
      hpart.compared.rearranged hmoved (le_refl left) (by omega)
    have hbHigh := scanned_high_congr hpart.high hmoved (by omega)
    unfold partLoop
    simp only [hleft, bind, Except.bind]
    by_cases hcaught : leftIndex = part.rightIndex
    · rw [if_pos hcaught]
      refine ⟨_, rfl, ⟨hb, hscanned, hbHigh, ?_⟩, hmoved.widen (le_refl left) (by omega), ?_⟩
      · dsimp only
        omega
      · dsimp only
        omega
    · rw [if_neg hcaught]
      obtain ⟨c, q, rightIndex, hright, hlow', hhigh', hmoved', hscanned', hsmaller⟩ :=
        scanRight_spec ctxt (by omega : left - 1 ≤ leftIndex - 1)
          (part.rightIndex - (leftIndex - 1)).toNat b part.q part.rightIndex 1 hb (by omega)
          (by omega) hbHigh
      have hc : AllIn (Compared ctxt lv v classOf) c left right :=
        hb.rearranged hmoved' (by omega) (le_refl right)
      have hmovedBoth : Rearranged id left right part.a c :=
        (hmoved.widen (le_refl left) (by omega)).trans (hmoved'.widen (by omega) (le_refl right))
      have hcLow := scanned_low_congr hscanned hmoved' (by omega)
      simp only [hright]
      by_cases hcaught' : leftIndex - 1 = rightIndex
      · rw [if_pos hcaught']
        refine ⟨_, rfl, ⟨hc, hcLow, hscanned', ?_⟩, hmovedBoth, ?_⟩
        · dsimp only
          omega
        · dsimp only
          omega
      · rw [if_neg hcaught']
        -- the two entries are different ones, since one is greater and one is smaller
        have hcGreater : classes classOf c leftIndex = some .gt := by
          rw [classes_outside hmoved' (by omega)]
          exact hgreater (by omega)
        have hcSmaller := hsmaller (by omega)
        have hless : leftIndex < rightIndex := by
          by_contra hnot
          have hsame : leftIndex = rightIndex := by omega
          rw [hsame, hcSmaller] at hcGreater
          exact absurd hcGreater (by decide)
        obtain ⟨d, hd, hmovedSwap, hswap⟩ := mkqsSwap_spec classOf hc
          (i := leftIndex) (j := rightIndex) ⟨by omega, by omega⟩ ⟨by omega, by omega⟩
        have hnext := partInv_swap ctxt
          (hc.rearranged hmovedSwap (le_refl left) (le_refl right)) hcLow hscanned' hless
          hcGreater hcSmaller hswap
        simp only [hd]
        by_cases hdone : leftIndex + 1 = rightIndex
        · rw [if_pos hdone]
          exact ⟨_, rfl, hnext, hmovedBoth.trans hmovedSwap, hdone⟩
        · rw [if_neg hdone]
          obtain ⟨part', hloop, hinv, hmovedRest, hend⟩ := ih _ hnext (by dsimp only; omega)
          exact ⟨part', hloop, hinv, (hmovedBoth.trans hmovedSwap).trans hmovedRest, hend⟩

end

section

variable {classOf : MKEntry T D → Ordering} {property : MKEntry T D → Prop}

theorem pushLow_spec {left p last : Int} (fuel : Nat) (a : List (MKEntry T D)) (k i : Int)
    (hall : AllIn property a left last) (hfuel : p + 1 - k < fuel)
    (hpush : Pushed (classes classOf a) .lt left p last k i) :
    ∃ a' i', pushLow p fuel a k i = .ok (a', i') ∧ Rearranged id left last a a' ∧
      left - 1 ≤ i' ∧ i' ≤ last ∧ Zone (classes classOf a') left i' .lt ∧
      Zone (classes classOf a') (i' + 1) last .eq := by
  induction fuel generalizing a k i with
  | zero =>
    have hhigh := hpush.high
    omega
  | succ fuel ih =>
    have hlow := hpush.low
    have hhigh := hpush.high
    have hsum := hpush.sum
    have hfits := hpush.fits
    unfold pushLow
    by_cases hk : k ≤ p
    · obtain ⟨b, hb, hmoved, hswap⟩ := mkqsSwap_spec classOf hall (i := k) (j := i)
        ⟨by omega, by omega⟩ ⟨by omega, by omega⟩
      simp only [if_pos hk, hb, bind, Except.bind]
      obtain ⟨a', i', hloop, hmoved', hrest⟩ :=
        ih b (k + 1) (i - 1) (hall.rearranged hmoved (le_refl left) (le_refl last)) (by omega)
          (hpush.step hk hswap)
      exact ⟨a', i', hloop, hmoved.trans hmoved', hrest⟩
    · obtain ⟨hproper, hequal⟩ := hpush.finish hk
      simp only [if_neg hk]
      exact ⟨a, i, rfl, Rearranged.refl id _ _ a, by omega, by omega, hproper, hequal⟩

theorem pushHigh_spec {first q right : Int} (fuel : Nat) (a : List (MKEntry T D)) (k i : Int)
    (hall : AllIn property a first right) (hfuel : k - q + 1 < fuel)
    (hpush : Pushed (mirror (classes classOf a)) .gt (-right) (-q) (-first) (-k) (-i)) :
    ∃ a' i', pushHigh q fuel a k i = .ok (a', i') ∧ Rearranged id first right a a' ∧
      first ≤ i' ∧ i' ≤ right + 1 ∧ Zone (classes classOf a') i' right .gt ∧
      Zone (classes classOf a') first (i' - 1) .eq := by
  induction fuel generalizing a k i with
  | zero =>
    have hhigh := hpush.high
    omega
  | succ fuel ih =>
    have hlow := hpush.low
    have hhigh := hpush.high
    have hsum := hpush.sum
    have hfits := hpush.fits
    unfold pushHigh
    by_cases hk : k ≥ q
    · obtain ⟨b, hb, hmoved, hswap⟩ := mkqsSwap_spec classOf hall (i := i) (j := k)
        ⟨by omega, by omega⟩ ⟨by omega, by omega⟩
      have hnext : Pushed (mirror (classes classOf b)) .gt (-right) (-q) (-first) (-(k - 1))
          (-(i + 1)) := by
        have hk' : -k + 1 = -(k - 1) := by omega
        have hi' : -i - 1 = -(i + 1) := by omega
        rw [← hk', ← hi']
        exact hpush.step (by omega) hswap.symm.mirror
      simp only [if_pos hk, hb, bind, Except.bind]
      obtain ⟨a', i', hloop, hmoved', hrest⟩ :=
        ih b (k - 1) (i + 1) (hall.rearranged hmoved (le_refl first) (le_refl right)) (by omega)
          hnext
      exact ⟨a', i', hloop, hmoved.trans hmoved', hrest⟩
    · obtain ⟨hproper, hequal⟩ := hpush.finish (by omega)
      have hend : -i + 1 = -(i - 1) := by omega
      rw [hend] at hequal
      simp only [if_neg hk]
      exact ⟨a, i, rfl, Rearranged.refl id _ _ a, by omega, by omega, hproper.ofMirror,
        hequal.ofMirror⟩

end

section

variable (lv : Nat) {property : MKEntry T D → Prop} {a : List (MKEntry T D)} {left right : Int}
  (hall : AllIn property a left right)

include hall

theorem compAt_isOk {i j : Int} (hi : left ≤ i ∧ i ≤ right) (hj : left ≤ j ∧ j ≤ right) :
    ∃ c, compAt ctxt lv a i j = .ok c := by
  obtain ⟨x, hx, -⟩ := hall i hi.1 hi.2
  obtain ⟨y, hy, -⟩ := hall j hj.1 hj.2
  refine ⟨mkqsComp ctxt lv x y, ?_⟩
  simp [compAt, read_eq_ok hx, read_eq_ok hy, bind, Except.bind, pure, Except.pure]

theorem mkqsMed3_spec {i j k : Int}
    (hi : left ≤ i ∧ i ≤ right) (hj : left ≤ j ∧ j ≤ right) (hk : left ≤ k ∧ k ≤ right) :
    ∃ m, mkqsMed3 ctxt lv a i j k = .ok m ∧ left ≤ m ∧ m ≤ right := by
  obtain ⟨cij, hcij⟩ := compAt_isOk ctxt lv hall hi hj
  obtain ⟨cjk, hcjk⟩ := compAt_isOk ctxt lv hall hj hk
  obtain ⟨cik, hcik⟩ := compAt_isOk ctxt lv hall hi hk
  simp only [mkqsMed3, hcij, hcjk, hcik, bind, Except.bind, pure, Except.pure]
  split_ifs
  · exact ⟨j, rfl, hj⟩
  · exact ⟨k, rfl, hk⟩
  · exact ⟨i, rfl, hi⟩
  · exact ⟨j, rfl, hj⟩
  · exact ⟨k, rfl, hk⟩
  · exact ⟨i, rfl, hi⟩

theorem mkqsChoosePivot_spec (hless : left < right) :
    ∃ pv, mkqsChoosePivot ctxt lv a left right = .ok pv ∧ left ≤ pv ∧ pv ≤ right := by
  unfold mkqsChoosePivot
  by_cases hseven : right - left + 1 > 7
  · simp only [if_pos hseven]
    by_cases hforty : right - left + 1 > 40
    · obtain ⟨pl, hpl, hplRange⟩ := mkqsMed3_spec ctxt lv hall
        (i := left) (j := left + (right - left + 1) / 8)
        (k := left + (right - left + 1) / 8 * 2) (by omega) (by omega) (by omega)
      obtain ⟨pm, hpm, hpmRange⟩ := mkqsMed3_spec ctxt lv hall
        (i := left + (right - left + 1) / 2 - (right - left + 1) / 8)
        (j := left + (right - left + 1) / 2)
        (k := left + (right - left + 1) / 2 + (right - left + 1) / 8)
        (by omega) (by omega) (by omega)
      obtain ⟨pn, hpn, hpnRange⟩ := mkqsMed3_spec ctxt lv hall
        (i := right - (right - left + 1) / 8 * 2) (j := right - (right - left + 1) / 8)
        (k := right) (by omega) (by omega) (by omega)
      simp only [if_pos hforty, hpl, hpm, hpn, bind, Except.bind]
      exact mkqsMed3_spec ctxt lv hall hplRange hpmRange hpnRange
    · simp only [if_neg hforty]
      exact mkqsMed3_spec ctxt lv hall (by omega) (by omega) (by omega)
  · simp only [if_neg hseven]
    exact ⟨left + (right - left + 1) / 2, rfl, by omega, by omega⟩

end

section

variable {a b : MKEntry T D}

/-- Entries of one run that hold their keys of one level. -/
structure Alike (lv : Nat) (empty : Bool) (run : Fin 0x4000) (e : MKEntry T D) : Prop where
  prepared : Prepared ctxt lv e
  empty : e.compflags.empty = empty
  run : e.compflags.run = run

variable {lv : Nat} {empty : Bool} {run : Fin 0x4000}

theorem Alike.lvBits (ha : Alike ctxt lv empty run a) (hb : Alike ctxt lv empty run b) :
    a.compflags.lvBits = b.compflags.lvBits := by
  have haLv := ha.prepared.1
  have hbLv := hb.prepared.1
  unfold mkeGetLv mkeMaxLv at haLv hbLv
  omega

theorem mkqsComp_sign (ha : Alike ctxt lv empty run a)
    (hb : Alike ctxt lv empty run b) :
    SignOf (mkqsComp ctxt lv a b) (keyCompare ctxt lv (entryKey a) (entryKey b)) := by
  apply signOf_keyCompare ctxt
  unfold CompFlags.value CompFlags.emptyBit
  rw [ha.empty, hb.empty, ha.run, hb.run, ha.lvBits ctxt hb]
  omega

/-- The class of an entry: its key against the key of the pivot. -/
def pivotClass (lv : Nat) (v e : MKEntry T D) : Ordering :=
  keyCompare ctxt lv (keyAt ctxt e lv) (keyAt ctxt v lv)

theorem compared_of_alike {v e : MKEntry T D}
    (hv : Alike ctxt lv empty run v) (he : Alike ctxt lv empty run e) :
    Compared ctxt lv v (pivotClass ctxt lv v) e := by
  have hleft := mkqsComp_sign ctxt he hv
  have hright := mkqsComp_sign ctxt hv he
  have hswap := keyCompare_swap ctxt lv (entryKey v) (entryKey e)
  have hclass : pivotClass ctxt lv v e = keyCompare ctxt lv (entryKey e) (entryKey v) := by
    unfold pivotClass
    rw [he.prepared.2, hv.prepared.2]
  rw [hswap, ← hclass] at hright
  rw [← hclass] at hleft
  exact ⟨hleft.neg, hleft.pos, hright.neg.trans Ordering.swap_eq_lt,
    hright.pos.trans Ordering.swap_eq_gt⟩

theorem pivotClass_self (v : MKEntry T D) : pivotClass ctxt lv v v = .eq := by
  unfold pivotClass
  exact Std.ReflCmp.compare_self

/-- The three ways around one of the entries of the range. -/
structure Parted (lv : Nat) (left right : Int) (a next : List (MKEntry T D))
    (lastInLow firstInHigh : Int) (v : MKEntry T D) : Prop where
  rearranged : Rearranged id left right a next
  low : left - 1 ≤ lastInLow
  gap : lastInLow + 2 ≤ firstInHigh
  high : firstInHigh ≤ right + 1
  smaller : Zone (classes (pivotClass ctxt lv v) next) left lastInLow .lt
  equal : Zone (classes (pivotClass ctxt lv v) next) (lastInLow + 1) (firstInHigh - 1) .eq
  greater : Zone (classes (pivotClass ctxt lv v) next) firstInHigh right .gt

theorem mkQsortPart3_spec {a : List (MKEntry T D)}
    (hall : AllIn (Alike ctxt lv empty run) a left right) (hless : left < right) :
    ∃ next lastInLow firstInHigh v,
      mkQsortPart3 ctxt lv a left right = .ok (next, lastInLow, firstInHigh) ∧
      Parted ctxt lv left right a next lastInLow firstInHigh v := by
  obtain ⟨pv, hpv, hpvLow, hpvHigh⟩ := mkqsChoosePivot_spec ctxt lv hall hless
  obtain ⟨v, hv, hvAlike⟩ := hall pv hpvLow hpvHigh
  have hcompared : AllIn (Compared ctxt lv v (pivotClass ctxt lv v)) a left right :=
    hall.mono (fun e he => compared_of_alike ctxt hvAlike he)
  have hstart : PartInv ctxt lv v (pivotClass ctxt lv v) left right
      { a := a, p := left - 1, q := right + 1, leftIndex := left - 1,
        rightIndex := right + 1 } := by
    refine ⟨hcompared, Scanned.start _ _ left, ?_, by dsimp only; omega⟩
    have hright : -(right + 1) = -right - 1 := by omega
    rw [hright]
    exact Scanned.start _ _ (-right)
  obtain ⟨part, hloop, hpart, hmoved, hmeet⟩ :=
    partLoop_spec ctxt (right - left + 2).toNat _ hstart (by dsimp only; omega)
  have hpHigh := hpart.low.high
  have hqLow := hpart.high.low
  have hqHigh := hpart.high.high
  obtain ⟨b, lastInLow, hlow, hmovedLow, hlowFirst, hlowLast, hsmaller, hequalLow⟩ :=
    pushLow_spec (right - left + 2).toNat part.a left part.leftIndex
      (hpart.compared.narrow (le_refl left) (by omega)) (by omega) (Pushed.start hpart.low)
  have hbHigh : Scanned (mirror (classes (pivotClass ctxt lv v) b)) .gt (-right) (-part.q)
      (-part.rightIndex) := scanned_high_congr hpart.high hmovedLow (by omega)
  have hbCompared : AllIn (Compared ctxt lv v (pivotClass ctxt lv v)) b left right :=
    hpart.compared.rearranged hmovedLow (le_refl left) (by omega)
  obtain ⟨c, firstInHigh, hhigh, hmovedHigh, hhighFirst, hhighLast, hgreater, hequalHigh⟩ :=
    pushHigh_spec (right - left + 2).toNat b right part.rightIndex
      (hbCompared.narrow (by omega) (le_refl right)) (by omega) (Pushed.start hbHigh)
  have hbefore : ∀ k, k < part.rightIndex →
      classes (pivotClass ctxt lv v) c k = classes (pivotClass ctxt lv v) b k :=
    fun k hk => classes_outside hmovedHigh (.inl hk)
  have hrearranged : Rearranged id left right a c :=
    (hmoved.trans (hmovedLow.widen (le_refl left) (by omega))).trans
      (hmovedHigh.widen (by omega) (le_refl right))
  have hequal : Zone (classes (pivotClass ctxt lv v) c) (lastInLow + 1) (firstInHigh - 1) .eq := by
    have hlowPart := hequalLow.congr (fun k _ hk => hbefore k (by omega))
    apply hlowPart.append
    rw [hmeet]
    exact hequalHigh
  have hsmaller' : Zone (classes (pivotClass ctxt lv v) c) left lastInLow .lt :=
    hsmaller.congr (fun k _ hk => hbefore k (by omega))
  -- the pivot itself is one of the equal entries
  have hgap : lastInLow + 2 ≤ firstInHigh := by
    obtain ⟨k, e, hkLow, hkHigh, he, hclass⟩ := hrearranged.exists_content
      (fun e => pivotClass ctxt lv v e = .eq)
      ⟨pv, v, hpvLow, hpvHigh, hv, pivotClass_self ctxt v⟩
    have hk := classes_eq (pivotClass ctxt lv v) he
    rw [id] at hclass
    rw [hclass] at hk
    by_contra hnot
    by_cases hkSmall : k ≤ lastInLow
    · rw [hsmaller' k hkLow hkSmall] at hk
      exact absurd hk (by decide)
    · rw [hgreater k (by omega) hkHigh] at hk
      exact absurd hk (by decide)
  refine ⟨c, lastInLow, firstInHigh, v, ?_, hrearranged, hlowFirst, hgap, by omega, hsmaller',
    hequal, hgreater⟩
  simp [mkQsortPart3, hpv, read_eq_ok hv, hloop, hlow, hhigh, bind, Except.bind, pure, Except.pure]

end

end Greenplum.MkSort
