/-
The order that the multi-key heap keeps, and how its entries are sifted down.
-/
import Greenplum.BinaryHeap
import Greenplum.MkHeap

namespace Greenplum.MkSort

open IndexedCells BinaryHeap List

variable {T D : Type} (ctxt : MKContext T D) {a b : MKEntry T D}

namespace CompFlags

theorem value_eq_high (flags : CompFlags) : flags.value = flags.high + flags.nullBits.val := rfl

theorem high_lt_iff {a b : CompFlags} : a.high < b.high ↔
    a.emptyBit < b.emptyBit ∨ a.emptyBit = b.emptyBit ∧ (a.run < b.run ∨
      a.run = b.run ∧ a.lvBits < b.lvBits) := by
  have hcompare := @value_lt_iff { a with nullBits := 0 } { b with nullBits := 0 }
  have ha : ({ a with nullBits := 0 } : CompFlags).value = a.high := Int.add_zero _
  have hb : ({ b with nullBits := 0 } : CompFlags).value = b.high := Int.add_zero _
  rw [ha, hb] at hcompare
  simp only [lt_irrefl, and_false, or_false] at hcompare
  exact hcompare

theorem high_eq_iff {a b : CompFlags} : a.high = b.high ↔
    a.empty = b.empty ∧ a.run = b.run ∧ a.lvBits = b.lvBits := by
  have ha : ({ a with nullBits := 0 } : CompFlags).value = a.high := Int.add_zero _
  have hb : ({ b with nullBits := 0 } : CompFlags).value = b.high := Int.add_zero _
  rw [← ha, ← hb, value_inj]
  simp [CompFlags.mk.injEq]

end CompFlags

/-- Entries in the order of the heap: by the flags without the null bits, then by the
keys they hold. -/
def entryCompare (a b : MKEntry T D) : Ordering :=
  (compare a.compflags.high b.compflags.high).then
    (keyCompare ctxt (mkeGetLv a) (entryKey a) (entryKey b))

theorem mkeGetLv_of_high (h : a.compflags.high = b.compflags.high) : mkeGetLv a = mkeGetLv b := by
  unfold mkeGetLv
  rw [(CompFlags.high_eq_iff.1 h).2.2]

theorem entryCompare_of_lt (h : a.compflags.high < b.compflags.high) :
    entryCompare ctxt a b = .lt := by
  unfold entryCompare
  rw [compare_lt_iff_lt.2 h]
  rfl

theorem entryCompare_of_gt (h : b.compflags.high < a.compflags.high) :
    entryCompare ctxt a b = .gt := by
  unfold entryCompare
  rw [compare_gt_iff_gt.2 h]
  rfl

theorem entryCompare_of_eq (h : a.compflags.high = b.compflags.high) :
    entryCompare ctxt a b = keyCompare ctxt (mkeGetLv b) (entryKey a) (entryKey b) := by
  unfold entryCompare
  rw [compare_eq_iff_eq.2 h, mkeGetLv_of_high h]
  rfl

theorem high_le_of_isLE (h : (entryCompare ctxt a b).isLE) :
    a.compflags.high ≤ b.compflags.high := by
  by_contra hnot
  rw [entryCompare_of_gt ctxt (lt_of_not_ge hnot)] at h
  exact absurd h (by decide)

instance entryCompare_trans : Std.TransCmp (entryCompare ctxt) where
  eq_swap := by
    intro a b
    rcases lt_trichotomy a.compflags.high b.compflags.high with h | h | h
    · rw [entryCompare_of_lt ctxt h, entryCompare_of_gt ctxt h]
      rfl
    · rw [entryCompare_of_eq ctxt h, entryCompare_of_eq ctxt h.symm, mkeGetLv_of_high h]
      exact keyCompare_swap ctxt _ _ _
    · rw [entryCompare_of_lt ctxt h, entryCompare_of_gt ctxt h]
      rfl
  isLE_trans := by
    intro a b c hab hbc
    have habHigh := high_le_of_isLE ctxt hab
    have hbcHigh := high_le_of_isLE ctxt hbc
    rcases lt_or_eq_of_le (le_trans habHigh hbcHigh) with hlt | heq
    · rw [entryCompare_of_lt ctxt hlt]
      rfl
    · have hab' : a.compflags.high = b.compflags.high := by omega
      have hbc' : b.compflags.high = c.compflags.high := by omega
      rw [entryCompare_of_eq ctxt hab', mkeGetLv_of_high hbc'] at hab
      rw [entryCompare_of_eq ctxt hbc'] at hbc
      rw [entryCompare_of_eq ctxt heq]
      exact Std.TransCmp.isLE_trans hab hbc

theorem mkheapCompare_sign (hmask : ctxt.limitmask = false) (a b : MKEntry T D) :
    SignOf (mkheapCompare ctxt a b) (entryCompare ctxt a b) := by
  unfold mkheapCompare
  simp only [hmask, Bool.false_eq_true, if_false]
  rcases lt_trichotomy a.compflags.high b.compflags.high with h | h | h
  · rw [if_neg (by omega), entryCompare_of_lt ctxt h]
    exact signOf_lt (by omega)
  · rw [if_pos (by omega), entryCompare_of_eq ctxt h, mkeGetLv_of_high h]
    apply signOf_keyCompare ctxt
    rw [CompFlags.value_eq_high, CompFlags.value_eq_high]
    omega
  · rw [if_neg (by omega), entryCompare_of_gt ctxt h]
    exact signOf_gt (by omega)

section

variable {heap : MKHeap T D}

theorem getElem?_set_ne' {α : Type} {cells : List α} {i j : Nat} (h : j ≠ i) (x : α) :
    (cells.set i x)[j]? = cells[j]? :=
  getElem?_set_ne (Ne.symm h)

/-- The child to sift into comes before its sibling. -/
theorem chooseChild_spec (hmask : ctxt.limitmask = false) (heap : MKHeap T D)
    (hsize : heap.p.length = heap.maxentry) (hole : Nat) :
    ∃ child roundrobin, chooseChild ctxt heap hole = .ok (child, roundrobin) ∧ Child hole child ∧
      (∀ j, Child hole j → LeAt (entryCompare ctxt) heap.p child j) ∧
      (heap.maxentry ≤ child → heap.maxentry ≤ 2 * hole + 1) := by
  unfold chooseChild
  by_cases hright : 2 * hole + 2 < heap.maxentry
  · obtain ⟨l, hl⟩ : ∃ l, heap.p[2 * hole + 1]? = some l := ⟨_, getElem?_eq_getElem (by omega)⟩
    obtain ⟨r, hr⟩ : ∃ r, heap.p[2 * hole + 2]? = some r := ⟨_, getElem?_eq_getElem (by omega)⟩
    obtain ⟨hlt, heq, hgt⟩ := mkheapCompare_sign ctxt hmask l r
    have hleft : (entryCompare ctxt l r).isLE → ∀ j, Child hole j →
        LeAt (entryCompare ctxt) heap.p (2 * hole + 1) j := by
      rintro h j (rfl | rfl)
      · exact leAt_refl _
      · exact (leAt_iff hl hr).2 h
    have hrightLe : (entryCompare ctxt l r).isGE → ∀ j, Child hole j →
        LeAt (entryCompare ctxt) heap.p (2 * hole + 2) j := by
      rintro h j (rfl | rfl)
      · exact (leAt_iff hr hl).2 (Std.OrientedCmp.isGE_iff_isLE.1 h)
      · exact leAt_refl _
    simp only [hright, if_true, read_natCast _ hl, read_natCast _ hr, bind, Except.bind]
    by_cases hzero : mkheapCompare ctxt l r = 0
    · have hsame := heq.1 hzero
      rw [if_pos hzero]
      by_cases hturn : heap.roundrobin % 2 = 0
      · rw [hturn]
        exact ⟨_, _, rfl, .inl rfl, hleft (by rw [hsame]; rfl), by omega⟩
      · have hone : heap.roundrobin % 2 = 1 := by omega
        rw [hone]
        exact ⟨_, _, rfl, .inr rfl, hrightLe (by rw [hsame]; rfl), by omega⟩
    · rw [if_neg hzero]
      by_cases hpos : mkheapCompare ctxt l r > 0
      · rw [if_pos hpos]
        exact ⟨_, _, rfl, .inr rfl, hrightLe (by rw [hgt.1 hpos]; rfl), by omega⟩
      · rw [if_neg hpos]
        have hneg : entryCompare ctxt l r = .lt := hlt.1 (by omega)
        exact ⟨_, _, rfl, .inl rfl, hleft (by rw [hneg]; rfl), by omega⟩
  · simp only [hright, if_false]
    refine ⟨2 * hole + 1, heap.roundrobin, rfl, .inl rfl, ?_, by omega⟩
    rintro j (rfl | rfl)
    · exact leAt_refl _
    · intro x y _ hy
      rw [getElem?_eq_none (by omega)] at hy
      cases hy

theorem placeEntry_eq (heap : MKHeap T D) {hole : Nat} (hhole : hole < heap.p.length)
    (e : MKEntry T D) : placeEntry heap hole e = .ok { heap with p := heap.p.set hole e } := by
  simp [placeEntry, write_natCast _ hhole, bind, Except.bind, pure, Except.pure]

/-- What a sift leaves behind: only the entries and the turn change. -/
structure Sifted (root : Nat) (heap : MKHeap T D) (cells : List (MKEntry T D))
    (next : MKHeap T D) : Prop where
  rest : next = { heap with p := next.p, roundrobin := next.roundrobin }
  reshaped : Reshaped id root cells next.p
  ordered : HeapUnder (entryCompare ctxt) next.p root

/-- An entry and what remains with a hole: as if the entry stood in the hole. -/
theorem siftdownLoop_spec (hmask : ctxt.limitmask = false) {root : Nat} (e : MKEntry T D)
    (fuel : Nat) (heap : MKHeap T D) (hole : Nat) (hsize : heap.p.length = heap.maxentry)
    (hhole : hole < heap.maxentry) (hfuel : heap.maxentry - hole < fuel)
    (hsift : Sifting (entryCompare ctxt) (heap.p.set hole e) root hole) :
    ∃ next, siftdownLoop ctxt e fuel heap hole = .ok next ∧
      Sifted ctxt root heap (heap.p.set hole e) next := by
  induction fuel generalizing heap hole with
  | zero => omega
  | succ fuel ih =>
    obtain ⟨child, roundrobin, hchoose, hchild, hleast, hnone⟩ :=
      chooseChild_spec ctxt hmask heap hsize hole
    have hlt := hchild.lt
    have hentry : (heap.p.set hole e)[hole]? = some e := getElem?_set_self (by omega)
    have hkept : ∀ {j}, Child hole j → (heap.p.set hole e)[j]? = heap.p[j]? :=
      fun hj => getElem?_set_ne' (ne_of_gt hj.lt) e
    -- without a child, or in order with the smaller one, the entry has found its place
    have hfinish : (∀ x, heap.p[child]? = some x → (entryCompare ctxt e x).isLE) →
        Sifted ctxt root heap (heap.p.set hole e)
          { heap with p := heap.p.set hole e, roundrobin := roundrobin } := by
      intro hinOrder
      refine ⟨rfl, Reshaped.refl id root _, hsift.finish fun j hj x z hx hz => ?_⟩
      rw [hentry] at hx
      rw [hkept hj] at hz
      cases hx
      have hin := (List.getElem?_eq_some_iff.1 hz).1
      obtain ⟨y, hy⟩ : ∃ y, heap.p[child]? = some y :=
        ⟨_, getElem?_eq_getElem (by unfold Child at hj; omega)⟩
      exact Std.TransCmp.isLE_trans (hinOrder y hy) (hleast j hj y z hy hz)
    unfold siftdownLoop
    simp only [hchoose, bind, Except.bind]
    by_cases hin : child < heap.maxentry
    · obtain ⟨x, hx⟩ : ∃ x, heap.p[child]? = some x := ⟨_, getElem?_eq_getElem (by omega)⟩
      simp only [hin, if_true, read_natCast _ hx]
      by_cases hpos : mkheapCompare ctxt e x > 0
      · rw [if_pos hpos, placeEntry_eq _ (by dsimp only; omega)]
        have hgt := (mkheapCompare_sign ctxt hmask e x).pos.1 hpos
        have hxSet : (heap.p.set hole e)[child]? = some x := (hkept hchild).trans hx
        have hleastSet : ∀ j, Child hole j →
            LeAt (entryCompare ctxt) (heap.p.set hole e) child j := by
          intro j hj y z hy hz
          rw [hkept hchild] at hy
          rw [hkept hj] at hz
          exact hleast j hj y z hy hz
        have hstep := hsift.step hchild hxSet hleastSet hgt
        have hmoved := Reshaped.swap hsift.under (hsift.under.child hchild) hentry hxSet
        rw [set_set] at hstep hmoved
        obtain ⟨next, hnext, hsifted⟩ := ih
          { heap with p := heap.p.set hole x, roundrobin := roundrobin } child
          (by dsimp only; rw [length_set]; exact hsize) hin (by dsimp only; omega) hstep
        exact ⟨next, hnext, hsifted.rest, hmoved.trans hsifted.reshaped, hsifted.ordered⟩
      · rw [if_neg hpos, placeEntry_eq _ (by dsimp only; omega)]
        refine ⟨_, rfl, hfinish ?_⟩
        intro y hy
        rw [hx] at hy
        cases hy
        exact (mkheapCompare_sign ctxt hmask e x).isLE hpos
    · simp only [hin, if_false]
      rw [placeEntry_eq _ (by dsimp only; omega)]
      refine ⟨_, rfl, hfinish ?_⟩
      intro y hy
      rw [getElem?_eq_none (by omega)] at hy
      cases hy

theorem mkheapSiftdown_spec (hmask : ctxt.limitmask = false) (heap : MKHeap T D) (root : Nat)
    (e : MKEntry T D) (hsize : heap.p.length = heap.maxentry) (hroot : root < heap.maxentry)
    (hchildren : ∀ j, Child root j → HeapUnder (entryCompare ctxt) heap.p j) :
    ∃ next, mkheapSiftdown ctxt heap root e = .ok next ∧
      Sifted ctxt root heap (heap.p.set root e) next := by
  refine siftdownLoop_spec ctxt hmask e (heap.maxentry + 1) heap root hsize hroot (by omega)
    (Sifting.start fun j hj => (hchildren j hj).congr fun i hi => ?_)
  exact getElem?_set_ne' (ne_of_gt (lt_of_lt_of_le hj.lt hi.le)) e

end

end Greenplum.MkSort
