/-
Binary heaps in lists under a comparison: the order within a subtree, and how an entry
is sifted down from the root of a subtree whose children are in order.
-/
import Mathlib.Data.List.Basic

namespace Greenplum.BinaryHeap

open List

/-- The indices of the subtree under an index. -/
inductive Under (root : Nat) : Nat → Prop
  | refl : Under root root
  | left {i : Nat} : Under root i → Under root (2 * i + 1)
  | right {i : Nat} : Under root i → Under root (2 * i + 2)

/-- The two children of an index. -/
def Child (i j : Nat) : Prop := j = 2 * i + 1 ∨ j = 2 * i + 2

theorem Child.lt {i j : Nat} (h : Child i j) : i < j := by
  rcases h with rfl | rfl <;> omega

namespace Under

variable {root i j : Nat}

theorem child (h : Under root i) (hj : Child i j) : Under root j := by
  rcases hj with rfl | rfl
  · exact h.left
  · exact h.right

theorem le (h : Under root i) : root ≤ i := by
  induction h with
  | refl => exact Nat.le_refl root
  | left _ ih => omega
  | right _ ih => omega

theorem trans (hfirst : Under root i) (hsecond : Under i j) : Under root j := by
  induction hsecond with
  | refl => exact hfirst
  | left _ ih => exact ih.left
  | right _ ih => exact ih.right

theorem zero (i : Nat) : Under 0 i := by
  induction i using Nat.strongRecOn with
  | ind i ih =>
    by_cases hzero : i = 0
    · rw [hzero]
      exact Under.refl
    · by_cases hodd : i % 2 = 1
      · have hi : i = 2 * (i / 2) + 1 := by omega
        rw [hi]
        exact (ih (i / 2) (by omega)).left
      · have hi : i = 2 * (i / 2 - 1) + 2 := by omega
        rw [hi]
        exact (ih (i / 2 - 1) (by omega)).right

/-- An index under another one is that index or under one of its children. -/
theorem cases_children (h : Under root i) : i = root ∨ ∃ j, Child root j ∧ Under j i := by
  induction h with
  | refl => exact .inl rfl
  | left _ ih =>
    rcases ih with rfl | ⟨j, hj, ih⟩
    · exact .inr ⟨_, .inl rfl, Under.refl⟩
    · exact .inr ⟨j, hj, ih.left⟩
  | right _ ih =>
    rcases ih with rfl | ⟨j, hj, ih⟩
    · exact .inr ⟨_, .inr rfl, Under.refl⟩
    · exact .inr ⟨j, hj, ih.right⟩

theorem not_of_lt (h : i < root) : ¬ Under root i :=
  fun hunder => absurd hunder.le (by omega)

/-- No index is under two indices unless one of them is under the other. -/
theorem comparable (hfirst : Under root i) (hsecond : Under j i) : Under root j ∨ Under j root := by
  induction hfirst generalizing j with
  | refl => exact .inr hsecond
  | @left i hi ih =>
    generalize hk : 2 * i + 1 = k at hsecond
    cases hsecond with
    | refl =>
      rw [← hk]
      exact .inl hi.left
    | @left l hl =>
      have hsame : i = l := by omega
      rw [← hsame] at hl
      exact ih hl
    | @right l hl => omega
  | @right i hi ih =>
    generalize hk : 2 * i + 2 = k at hsecond
    cases hsecond with
    | refl =>
      rw [← hk]
      exact .inl hi.right
    | @left l hl => omega
    | @right l hl =>
      have hsame : i = l := by omega
      rw [← hsame] at hl
      exact ih hl

theorem siblings (hleft : Under (2 * root + 1) i) (hright : Under (2 * root + 2) i) : False := by
  rcases hleft.comparable hright with h | h
  · generalize hk : 2 * root + 2 = k at h
    cases h with
    | refl => omega
    | left h =>
      omega
    | right h =>
      have hle := h.le
      omega
  · have hle := h.le
    omega

end Under

section

variable {α : Type} (cmp : α → α → Ordering)

/-- The entries under two indices are in order, if there are both. -/
def LeAt (cells : List α) (i j : Nat) : Prop :=
  ∀ x y, cells[i]? = some x → cells[j]? = some y → (cmp x y).isLE

/-- Every entry of a subtree is in order with its children. -/
def HeapUnder (cells : List α) (root : Nat) : Prop :=
  ∀ i, Under root i → LeAt cmp cells i (2 * i + 1) ∧ LeAt cmp cells i (2 * i + 2)

variable {cmp} {cells next : List α} {root : Nat}

theorem leAt_refl [Std.ReflCmp cmp] (i : Nat) : LeAt cmp cells i i := by
  intro x y hx hy
  cases hx.symm.trans hy
  exact Std.ReflCmp.isLE_rfl

theorem leAt_iff {i j : Nat} {x y : α} (hx : cells[i]? = some x) (hy : cells[j]? = some y) :
    LeAt cmp cells i j ↔ (cmp x y).isLE := by
  refine ⟨fun h => h x y hx hy, fun h x' y' hx' hy' => ?_⟩
  cases hx.symm.trans hx'
  cases hy.symm.trans hy'
  exact h

theorem leAt_children {i k : Nat} : LeAt cmp cells k (2 * i + 1) ∧ LeAt cmp cells k (2 * i + 2) ↔
      ∀ j, Child i j → LeAt cmp cells k j := by
  refine ⟨?_, fun h => ⟨h _ (.inl rfl), h _ (.inr rfl)⟩⟩
  rintro ⟨hleft, hright⟩ j (rfl | rfl)
  · exact hleft
  · exact hright

theorem HeapUnder.child (h : HeapUnder cmp cells root) {i : Nat} (hi : Under root i) :
    HeapUnder cmp cells i :=
  fun j hj => h j (hi.trans hj)

theorem HeapUnder.congr (h : HeapUnder cmp cells root)
    (hsame : ∀ i, Under root i → next[i]? = cells[i]?) : HeapUnder cmp next root := by
  intro i hi
  refine leAt_children.2 fun j hj x y hx hy => ?_
  rw [hsame i hi] at hx
  rw [hsame j (hi.child hj)] at hy
  exact leAt_children.1 (h i hi) j hj x y hx hy

/-- A subtree is a heap if its children are and its root is in order with them. -/
theorem HeapUnder.ofChildren (hchildren : ∀ j, Child root j → HeapUnder cmp cells j)
    (hle : ∀ j, Child root j → LeAt cmp cells root j) : HeapUnder cmp cells root := by
  intro i hi
  rcases hi.cases_children with rfl | ⟨j, hj, hi⟩
  · exact leAt_children.2 hle
  · exact hchildren j hj i hi

/-- The entry at the root of a heap comes before every other one. -/
theorem HeapUnder.root_le [Std.TransCmp cmp] (h : HeapUnder cmp cells root) {x : α}
    (hx : cells[root]? = some x) {i : Nat} (hi : Under root i) {y : α}
    (hy : cells[i]? = some y) : (cmp x y).isLE := by
  induction hi generalizing y with
  | refl =>
    rw [hx] at hy
    cases hy
    exact Std.ReflCmp.isLE_rfl
  | @left i hi ih =>
    have hlt := (List.getElem?_eq_some_iff.1 hy).1
    obtain ⟨z, hz⟩ : ∃ z, cells[i]? = some z := ⟨_, getElem?_eq_getElem (by omega)⟩
    exact Std.TransCmp.isLE_trans (ih hz) ((h i hi).1 z y hz hy)
  | @right i hi ih =>
    have hlt := (List.getElem?_eq_some_iff.1 hy).1
    obtain ⟨z, hz⟩ : ∃ z, cells[i]? = some z := ⟨_, getElem?_eq_getElem (by omega)⟩
    exact Std.TransCmp.isLE_trans (ih hz) ((h i hi).2 z y hz hy)

end

section

variable {α β : Type} {content : α → β} {root : Nat} {cells middle next : List α}

/-- The entries of a subtree were moved around among themselves, as far as their
`content` tells; all other entries are the same. -/
structure Reshaped (content : α → β) (root : Nat) (cells next : List α) : Prop where
  length : next.length = cells.length
  perm : (next.map content).Perm (cells.map content)
  outside : ∀ k, ¬ Under root k → next[k]? = cells[k]?
  inside : ∀ k y, Under root k → next[k]? = some y →
    ∃ j x, Under root j ∧ cells[j]? = some x ∧ content y = content x
  covers : ∀ j x, Under root j → cells[j]? = some x →
    ∃ k y, Under root k ∧ next[k]? = some y ∧ content y = content x

theorem Reshaped.refl (content : α → β) (root : Nat) (cells : List α) :
    Reshaped content root cells cells where
  length := rfl
  perm := List.Perm.refl _
  outside := fun _ _ => rfl
  inside := fun k y hk hy => ⟨k, y, hk, hy, rfl⟩
  covers := fun j x hj hx => ⟨j, x, hj, hx, rfl⟩

theorem Reshaped.trans (hfirst : Reshaped content root cells middle)
    (hsecond : Reshaped content root middle next) : Reshaped content root cells next where
  length := hsecond.length.trans hfirst.length
  perm := hsecond.perm.trans hfirst.perm
  outside := fun k hk => (hsecond.outside k hk).trans (hfirst.outside k hk)
  inside := by
    intro k z hk hz
    obtain ⟨j, y, hj, hy, hzy⟩ := hsecond.inside k z hk hz
    obtain ⟨i, x, hi, hx, hyx⟩ := hfirst.inside j y hj hy
    exact ⟨i, x, hi, hx, hzy.trans hyx⟩
  covers := by
    intro i x hi hx
    obtain ⟨j, y, hj, hy, hyx⟩ := hfirst.covers i x hi hx
    obtain ⟨k, z, hk, hz, hzy⟩ := hsecond.covers j y hj hy
    exact ⟨k, z, hk, hz, hzy.trans hyx⟩

theorem Reshaped.ofUnder {inner : Nat} (h : Reshaped content inner cells next)
    (hinner : Under root inner) : Reshaped content root cells next where
  length := h.length
  perm := h.perm
  outside := fun k hk => h.outside k (fun hunder => hk (hinner.trans hunder))
  inside := by
    intro k y hk hy
    by_cases hunder : Under inner k
    · obtain ⟨j, x, hj, hx, hyx⟩ := h.inside k y hunder hy
      exact ⟨j, x, hinner.trans hj, hx, hyx⟩
    · rw [h.outside k hunder] at hy
      exact ⟨k, y, hk, hy, rfl⟩
  covers := by
    intro j x hj hx
    by_cases hunder : Under inner j
    · obtain ⟨k, y, hk, hy, hyx⟩ := h.covers j x hunder hx
      exact ⟨k, y, hinner.trans hk, hy, hyx⟩
    · rw [← h.outside j hunder] at hx
      exact ⟨j, x, hj, hx, rfl⟩

/-- The content of entries tells less than the entries. -/
theorem Reshaped.ofId (h : Reshaped id root cells next) (content : α → β) :
    Reshaped content root cells next where
  length := h.length
  perm := by
    have hperm := h.perm
    rw [map_id, map_id] at hperm
    exact hperm.map content
  outside := h.outside
  inside := by
    intro k y hk hy
    obtain ⟨j, x, hj, hx, hyx⟩ := h.inside k y hk hy
    exact ⟨j, x, hj, hx, congrArg content hyx⟩
  covers := by
    intro j x hj hx
    obtain ⟨k, y, hk, hy, hyx⟩ := h.covers j x hj hx
    exact ⟨k, y, hk, hy, congrArg content hyx⟩

theorem Reshaped.set {x y : α} (hx : cells[root]? = some x) (hy : content y = content x) :
    Reshaped content root cells (cells.set root y) where
  length := length_set
  perm := by
    apply List.Perm.of_eq
    obtain ⟨hlt, hget⟩ := List.getElem?_eq_some_iff.1 hx
    rw [map_set, hy, ← hget]
    apply ext_getElem?
    intro k
    rw [getElem?_set]
    split_ifs with hk hlength
    · rw [← hk, getElem?_map, getElem?_eq_getElem hlt]
      rfl
    · rw [length_map] at hlength
      omega
    · rfl
  outside := by
    intro k hk
    have hne : root ≠ k := by
      rintro rfl
      exact hk Under.refl
    rw [getElem?_set_ne hne]
  inside := by
    intro k z hk hz
    by_cases hne : root = k
    · obtain ⟨hlt, -⟩ := List.getElem?_eq_some_iff.1 hx
      rw [← hne, getElem?_set_self hlt] at hz
      cases hz
      exact ⟨root, x, Under.refl, hx, hy⟩
    · rw [getElem?_set_ne hne] at hz
      exact ⟨k, z, hk, hz, rfl⟩
  covers := by
    intro j z hj hz
    by_cases hne : root = j
    · rw [← hne, hx] at hz
      cases hz
      obtain ⟨hlt, -⟩ := List.getElem?_eq_some_iff.1 hx
      exact ⟨root, y, Under.refl, getElem?_set_self hlt, hy⟩
    · refine ⟨j, z, hj, ?_, rfl⟩
      rw [getElem?_set_ne hne]
      exact hz

theorem getElem?_set_set {i j : Nat} (hi : i < cells.length) (hj : j < cells.length) (x y : α)
    (k : Nat) : ((cells.set i y).set j x)[k]? =
      if k = j then some x else if k = i then some y else cells[k]? := by
  by_cases hkj : k = j
  · rw [if_pos hkj, hkj, getElem?_set_self (by rw [length_set]; exact hj)]
  · rw [if_neg hkj, getElem?_set_ne (Ne.symm hkj)]
    by_cases hki : k = i
    · rw [if_pos hki, hki, getElem?_set_self hi]
    · rw [if_neg hki, getElem?_set_ne (Ne.symm hki)]

theorem Reshaped.swap {i j : Nat} {x y : α} (hi : Under root i) (hj : Under root j)
    (hx : cells[i]? = some x) (hy : cells[j]? = some y) :
    Reshaped id root cells ((cells.set i y).set j x) := by
  obtain ⟨hiLength, hxi⟩ := List.getElem?_eq_some_iff.1 hx
  obtain ⟨hjLength, hyj⟩ := List.getElem?_eq_some_iff.1 hy
  have hcells := getElem?_set_set hiLength hjLength x y
  refine ⟨by rw [length_set, length_set], ?_, ?_, ?_, ?_⟩
  · rw [← hxi, ← hyj]
    exact (set_set_perm hiLength hjLength).map id
  · intro k hk
    rw [hcells, if_neg fun heq => hk (by rwa [heq]), if_neg fun heq => hk (by rwa [heq])]
  · intro k z hk hz
    rw [hcells] at hz
    split_ifs at hz
    · cases hz
      exact ⟨i, x, hi, hx, rfl⟩
    · cases hz
      exact ⟨j, y, hj, hy, rfl⟩
    · exact ⟨k, z, hk, hz, rfl⟩
  · intro k z hk hz
    by_cases hki : k = i
    · rw [hki, hx] at hz
      cases hz
      exact ⟨j, x, hj, by rw [hcells, if_pos rfl], rfl⟩
    · by_cases hkj : k = j
      · rw [hkj, hy] at hz
        cases hz
        exact ⟨i, y, hi, by rw [hcells, if_neg (hkj ▸ Ne.symm hki), if_pos rfl], rfl⟩
      · exact ⟨k, z, hk, by rw [hcells, if_neg hkj, if_neg hki, hz], rfl⟩

end

section

variable {α : Type} {cmp : α → α → Ordering} {cells next : List α} {root hole : Nat}

/-- While an entry is sifted down it is out of order at most with its children, and
its parent is in order with them. -/
structure Sifting (cmp : α → α → Ordering) (cells : List α) (root hole : Nat) : Prop where
  under : Under root hole
  others : ∀ i, Under root i → i ≠ hole →
    LeAt cmp cells i (2 * i + 1) ∧ LeAt cmp cells i (2 * i + 2)
  above : ∀ i, Under root i → (2 * i + 1 = hole ∨ 2 * i + 2 = hole) →
    LeAt cmp cells i (2 * hole + 1) ∧ LeAt cmp cells i (2 * hole + 2)

theorem Sifting.start (hchildren : ∀ j, Child root j → HeapUnder cmp cells j) :
    Sifting cmp cells root root where
  under := Under.refl
  others := by
    intro i hi hne
    rcases hi.cases_children with rfl | ⟨j, hj, hi⟩
    · exact absurd rfl hne
    · exact hchildren j hj i hi
  above := by
    intro i hi hchild
    have hle := hi.le
    omega

/-- In order with its children, the entry has found its place. -/
theorem Sifting.finish (h : Sifting cmp cells root hole)
    (hle : ∀ j, Child hole j → LeAt cmp cells hole j) : HeapUnder cmp cells root := by
  intro i hi
  by_cases hne : i = hole
  · rw [hne]
    exact leAt_children.2 hle
  · exact h.others i hi hne

/-- The entry changes places with the smaller one of its children. -/
theorem Sifting.step [Std.TransCmp cmp] (h : Sifting cmp cells root hole) {child : Nat}
    (hchild : Child hole child) {e x : α} (hx : cells[child]? = some x)
    (hleast : ∀ j, Child hole j → LeAt cmp cells child j) (hless : cmp e x = .gt) :
    Sifting cmp ((cells.set hole x).set child e) root child := by
  have hlt := hchild.lt
  have hlength := (List.getElem?_eq_some_iff.1 hx).1
  have hcells := getElem?_set_set (Nat.lt_trans hlt hlength) hlength e x
  generalize (cells.set hole x).set child e = next at hcells ⊢
  have hnextHole : next[hole]? = some x := by
    rw [hcells, if_neg (Nat.ne_of_lt hlt), if_pos rfl]
  have hnextChild : next[child]? = some e := by
    rw [hcells, if_pos rfl]
  have hsame : ∀ k, k ≠ child → k ≠ hole → next[k]? = cells[k]? := by
    intro k hkChild hkHole
    rw [hcells, if_neg hkChild, if_neg hkHole]
  have hunder := h.under.child hchild
  refine ⟨hunder, fun i hi hiChild => leAt_children.2 fun j hj => ?_, fun i hi hparent =>
    leAt_children.2 fun j hj => ?_⟩
  · by_cases hiHole : i = hole
    · -- the child in the place of the hole is in order with the entry and with its sibling
      subst hiHole
      by_cases hjChild : j = child
      · rw [hjChild, leAt_iff hnextHole hnextChild]
        exact Std.OrientedCmp.isGE_iff_isLE.1 (by rw [hless]; rfl)
      · intro y z hy hz
        rw [hnextHole] at hy
        rw [hsame j hjChild (Nat.ne_of_gt hj.lt)] at hz
        cases hy
        exact hleast j hj x z hx hz
    · intro y z hy hz
      rw [hsame i hiChild hiHole] at hy
      by_cases hjHole : j = hole
      · -- the parent of the hole is in order with the child that moved up
        rw [hjHole, hnextHole] at hz
        cases hz
        subst hjHole
        exact leAt_children.1 (h.above i hi (hj.imp Eq.symm Eq.symm)) child hchild y x hy hx
      · have hjChild : j ≠ child := by
          unfold Child at hj hchild
          omega
        rw [hsame j hjChild hjHole] at hz
        exact leAt_children.1 (h.others i hi hiHole) j hj y z hy hz
  · have hiHole : i = hole := by
      unfold Child at hchild
      omega
    intro y z hy hz
    rw [hiHole, hnextHole] at hy
    rw [hsame j (Nat.ne_of_gt hj.lt) (Nat.ne_of_gt (Nat.lt_trans hlt hj.lt))] at hz
    cases hy
    exact leAt_children.1 (h.others child hunder (Nat.ne_of_gt hlt)) j hj x z hx hz

end

end Greenplum.BinaryHeap
