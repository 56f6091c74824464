/-
Cells under integer indices: checked reads, writes and swaps, what it means that the
cells of a range were only moved around within the range, and deletion by moving the
last cell.
-/
import Greenplum.Fallible
import Mathlib.Data.List.Basic
import Mathlib.Data.List.Induction

namespace Greenplum.IndexedCells

open List

variable {ε α β : Type} {cells : List α} {i j : Int} {x y : α}

/-- The content under an index, if the index is one of the cells. -/
def cell (cells : List α) (i : Int) : Option α :=
  if 0 ≤ i then cells[i.toNat]? else none

variable (outside : ε)

def read (cells : List α) (i : Int) : Except ε α :=
  match cell cells i with
  | some x => .ok x
  | none => .error outside

def write (cells : List α) (i : Int) (x : α) : Except ε (List α) :=
  if 0 ≤ i ∧ i < cells.length then .ok (cells.set i.toNat x) else .error outside

def swap (cells : List α) (i j : Int) : Except ε (List α) := do
  let x ← read outside cells i
  let y ← read outside cells j
  let cells ← write outside cells i y
  write outside cells j x

theorem cell_isSome_iff : (cell cells i).isSome ↔ 0 ≤ i ∧ i < cells.length := by
  unfold cell
  by_cases hi : 0 ≤ i
  · have hin : i.toNat < cells.length ↔ i < cells.length := by omega
    simp [hi, hin]
  · simp [hi]

theorem exists_cell (hlow : 0 ≤ i) (hhigh : i < cells.length) : ∃ x, cell cells i = some x :=
  Option.isSome_iff_exists.1 (cell_isSome_iff.2 ⟨hlow, hhigh⟩)

theorem cell_range (hx : cell cells i = some x) : 0 ≤ i ∧ i < cells.length := by
  apply cell_isSome_iff.1
  rw [hx]
  rfl

theorem cell_natCast (cells : List α) (n : Nat) : cell cells (n : Int) = cells[n]? := by
  unfold cell
  rw [if_pos (Int.natCast_nonneg n), Int.toNat_natCast]

theorem read_eq_ok {outside : ε} (hx : cell cells i = some x) : read outside cells i = .ok x := by
  unfold read
  rw [hx]

theorem write_eq_ok (hlow : 0 ≤ i) (hhigh : i < cells.length) (x : α) :
    write outside cells i x = .ok (cells.set i.toNat x) := by
  unfold write
  rw [if_pos ⟨hlow, hhigh⟩]

theorem cell_set (hlow : 0 ≤ i) (hhigh : i < cells.length) (x : α) (k : Int) :
    cell (cells.set i.toNat x) k = if k = i then some x else cell cells k := by
  unfold cell
  by_cases hk : 0 ≤ k
  · rw [if_pos hk, if_pos hk, getElem?_set]
    by_cases hki : k = i
    · have hin : i.toNat < cells.length := by omega
      rw [hki, if_pos rfl, if_pos rfl, if_pos hin]
    · have hne : i.toNat ≠ k.toNat := by omega
      rw [if_neg hne, if_neg hki]
  · have hne : k ≠ i := by omega
    rw [if_neg hk, if_neg hk, if_neg hne]

theorem set_self {i : Nat} (hx : cells[i]? = some x) : cells.set i x = cells := by
  obtain ⟨hlt, rfl⟩ := List.getElem?_eq_some_iff.1 hx
  exact set_getElem_self hlt

theorem read_natCast {i : Nat} (hx : cells[i]? = some x) :
    read outside cells (i : Int) = .ok x := by
  apply read_eq_ok
  exact hx

theorem write_natCast {i : Nat} (hi : i < cells.length) (x : α) :
    write outside cells (i : Int) x = .ok (cells.set i x) := by
  rw [write_eq_ok outside (by omega) (by omega), Int.toNat_natCast]

theorem read_zero (hx : cells[0]? = some x) : read outside cells 0 = .ok x :=
  read_natCast outside hx

theorem write_zero (hpos : 0 < cells.length) (x : α) :
    write outside cells 0 x = .ok (cells.set 0 x) :=
  write_natCast outside hpos x

/-- Writing a cell: the length stays, and so does every other cell. -/
theorem write_spec (hlow : 0 ≤ i) (hhigh : i < cells.length) (x : α) :
    ∃ next, write outside cells i x = .ok next ∧ next.length = cells.length ∧
      ∀ k, cell next k = if k = i then some x else cell cells k :=
  ⟨cells.set i.toNat x, write_eq_ok outside hlow hhigh x, length_set, cell_set hlow hhigh x⟩

theorem perm_set_set {i j : Nat} (hx : cells[i]? = some x) (hy : cells[j]? = some y) :
    ((cells.set i y).set j x).Perm cells := by
  obtain ⟨hi, rfl⟩ := List.getElem?_eq_some_iff.1 hx
  obtain ⟨hj, rfl⟩ := List.getElem?_eq_some_iff.1 hy
  exact set_set_perm hi hj

/-- The cells under two indices have changed places. -/
theorem swap_spec (hx : cell cells i = some x) (hy : cell cells j = some y) :
    ∃ next, swap outside cells i j = .ok next ∧ next.length = cells.length ∧ next.Perm cells ∧
      ∀ k, cell next k = if k = j then some x else if k = i then some y else cell cells k := by
  obtain ⟨hi, hiLength⟩ := cell_range hx
  obtain ⟨hj, hjLength⟩ := cell_range hy
  have hjNext : j < (cells.set i.toNat y).length := by
    rw [length_set]
    exact hjLength
  refine ⟨(cells.set i.toNat y).set j.toNat x, ?_, ?_, ?_, ?_⟩
  · simp only [swap, read_eq_ok hx, read_eq_ok hy, write_eq_ok outside hi hiLength,
      write_eq_ok outside hj hjNext, bind, Except.bind]
  · rw [length_set, length_set]
  · apply perm_set_set
    · rw [← cell_natCast, Int.toNat_of_nonneg hi]
      exact hx
    · rw [← cell_natCast, Int.toNat_of_nonneg hj]
      exact hy
  · intro k
    rw [cell_set hj hjNext, cell_set hi hiLength]

/-- The cells from `lo` to `hi` were moved around among themselves, as far as the
`content` of a cell tells; all other cells are the same. -/
structure Rearranged (content : α → β) (lo hi : Int) (cells next : List α) : Prop where
  length : next.length = cells.length
  perm : (next.map content).Perm (cells.map content)
  outside : ∀ k, k < lo ∨ hi < k → cell next k = cell cells k
  inside : ∀ k, lo ≤ k → k ≤ hi → ∃ j, lo ≤ j ∧ j ≤ hi ∧
    (cell next k).map content = (cell cells j).map content
  covers : ∀ j, lo ≤ j → j ≤ hi → ∃ k, lo ≤ k ∧ k ≤ hi ∧
    (cell next k).map content = (cell cells j).map content

namespace Rearranged

variable {content : α → β} {lo hi : Int} {cells middle next : List α}

theorem refl (content : α → β) (lo hi : Int) (cells : List α) :
    Rearranged content lo hi cells cells where
  length := rfl
  perm := List.Perm.refl _
  outside := fun _ _ => rfl
  inside := fun k hlow hhigh => ⟨k, hlow, hhigh, rfl⟩
  covers := fun j hlow hhigh => ⟨j, hlow, hhigh, rfl⟩

theorem trans (hfirst : Rearranged content lo hi cells middle)
    (hsecond : Rearranged content lo hi middle next) : Rearranged content lo hi cells next where
  length := hsecond.length.trans hfirst.length
  perm := hsecond.perm.trans hfirst.perm
  outside := fun k hk => (hsecond.outside k hk).trans (hfirst.outside k hk)
  inside := by
    intro k hlow hhigh
    obtain ⟨j, hjLow, hjHigh, hj⟩ := hsecond.inside k hlow hhigh
    obtain ⟨i, hiLow, hiHigh, hi⟩ := hfirst.inside j hjLow hjHigh
    exact ⟨i, hiLow, hiHigh, hj.trans hi⟩
  covers := by
    intro i hlow hhigh
    obtain ⟨j, hjLow, hjHigh, hj⟩ := hfirst.covers i hlow hhigh
    obtain ⟨k, hkLow, hkHigh, hk⟩ := hsecond.covers j hjLow hjHigh
    exact ⟨k, hkLow, hkHigh, hk.trans hj⟩

/-- What is moved around in a part of a range is moved around in the range. -/
theorem widen {innerLo innerHi : Int} (h : Rearranged content innerLo innerHi cells next)
    (hlo : lo ≤ innerLo) (hhi : innerHi ≤ hi) : Rearranged content lo hi cells next where
  length := h.length
  perm := h.perm
  outside := fun k hk => h.outside k (by omega)
  inside := by
    intro k hlow hhigh
    by_cases hinner : innerLo ≤ k ∧ k ≤ innerHi
    · obtain ⟨j, hjLow, hjHigh, hj⟩ := h.inside k hinner.1 hinner.2
      exact ⟨j, by omega, by omega, hj⟩
    · rw [h.outside k (by omega)]
      exact ⟨k, hlow, hhigh, rfl⟩
  covers := by
    intro j hlow hhigh
    by_cases hinner : innerLo ≤ j ∧ j ≤ innerHi
    · obtain ⟨k, hkLow, hkHigh, hk⟩ := h.covers j hinner.1 hinner.2
      exact ⟨k, by omega, by omega, hk⟩
    · refine ⟨j, hlow, hhigh, ?_⟩
      rw [h.outside j (by omega)]

theorem ofSame (hlength : next.length = cells.length)
    (hsame : ∀ k, (cell next k).map content = (cell cells k).map content)
    (houtside : ∀ k, k < lo ∨ hi < k → cell next k = cell cells k) :
    Rearranged content lo hi cells next where
  length := hlength
  perm := by
    apply List.Perm.of_eq
    apply ext_getElem?
    intro n
    rw [getElem?_map, getElem?_map, ← cell_natCast, ← cell_natCast]
    exact hsame n
  outside := houtside
  inside := fun k hlow hhigh => ⟨k, hlow, hhigh, hsame k⟩
  covers := fun j hlow hhigh => ⟨j, hlow, hhigh, hsame j⟩

section

variable (h : Rearranged content lo hi cells next)

include h

theorem map {γ : Type} (further : β → γ) : Rearranged (further ∘ content) lo hi cells next where
  length := h.length
  perm := by
    rw [← map_map, ← map_map]
    exact h.perm.map further
  outside := h.outside
  inside := by
    intro k hlow hhigh
    obtain ⟨j, hjLow, hjHigh, hj⟩ := h.inside k hlow hhigh
    refine ⟨j, hjLow, hjHigh, ?_⟩
    rw [← Option.map_map, ← Option.map_map, hj]
  covers := by
    intro j hlow hhigh
    obtain ⟨k, hkLow, hkHigh, hk⟩ := h.covers j hlow hhigh
    refine ⟨k, hkLow, hkHigh, ?_⟩
    rw [← Option.map_map, ← Option.map_map, hk]

/-- A property of contents that all cells of the range have they still have. -/
theorem forall_content (property : β → Prop)
    (hall : ∀ k, lo ≤ k → k ≤ hi → ∃ x, cell cells k = some x ∧ property (content x)) :
    ∀ k, lo ≤ k → k ≤ hi → ∃ x, cell next k = some x ∧ property (content x) := by
  intro k hlow hhigh
  obtain ⟨j, hjLow, hjHigh, hj⟩ := h.inside k hlow hhigh
  obtain ⟨x, hx, hproperty⟩ := hall j hjLow hjHigh
  rw [hx, Option.map_some] at hj
  obtain ⟨y, hy, hcontent⟩ := Option.map_eq_some_iff.1 hj
  refine ⟨y, hy, ?_⟩
  rw [hcontent]
  exact hproperty

theorem exists_content (property : β → Prop)
    (hexists : ∃ k x, lo ≤ k ∧ k ≤ hi ∧ cell cells k = some x ∧ property (content x)) :
    ∃ k x, lo ≤ k ∧ k ≤ hi ∧ cell next k = some x ∧ property (content x) := by
  obtain ⟨j, x, hlow, hhigh, hx, hproperty⟩ := hexists
  obtain ⟨k, hkLow, hkHigh, hk⟩ := h.covers j hlow hhigh
  rw [hx, Option.map_some] at hk
  obtain ⟨y, hy, hcontent⟩ := Option.map_eq_some_iff.1 hk
  refine ⟨k, y, hkLow, hkHigh, hy, ?_⟩
  rw [hcontent]
  exact hproperty

end

end Rearranged

/-- A swap within a range moves around the cells of the range. -/
theorem rearranged_swap {lo hi : Int} {next : List α} (hx : cell cells i = some x)
    (hy : cell cells j = some y) (hiRange : lo ≤ i ∧ i ≤ hi)
    (hjRange : lo ≤ j ∧ j ≤ hi) (hlength : next.length = cells.length) (hperm : next.Perm cells)
    (hcell : ∀ k, cell next k = if k = j then some x else if k = i then some y else cell cells k) :
    Rearranged id lo hi cells next where
  length := hlength
  perm := hperm.map id
  outside := by
    intro k hk
    rw [hcell, if_neg (by omega), if_neg (by omega)]
  inside := by
    intro k hlow hhigh
    rw [hcell]
    split_ifs with hkj hki
    · exact ⟨i, hiRange.1, hiRange.2, by rw [hx]⟩
    · exact ⟨j, hjRange.1, hjRange.2, by rw [hy]⟩
    · exact ⟨k, hlow, hhigh, rfl⟩
  covers := by
    intro k hlow hhigh
    by_cases hki : k = i
    · refine ⟨j, hjRange.1, hjRange.2, ?_⟩
      rw [hcell, if_pos rfl, hki, hx]
    · by_cases hkj : k = j
      · refine ⟨i, hiRange.1, hiRange.2, ?_⟩
        rw [hcell, hkj, hy]
        by_cases hij : i = j
        · exact absurd (hkj.trans hij.symm) hki
        · rw [if_neg hij, if_pos rfl]
      · refine ⟨k, hlow, hhigh, ?_⟩
        rw [hcell, if_neg hkj, if_neg hki]

/-- A cell is deleted by moving the last one into its place. -/
def swapDelete (cells : List α) (i : Nat) : List α :=
  match cells.getLast? with
  | some last => (cells.set i last).dropLast
  | none => cells

theorem swapDelete_perm {i : Nat} (hx : cells[i]? = some x) :
    (x :: swapDelete cells i).Perm cells := by
  cases cells using List.reverseRecOn with
  | nil => exact absurd hx (Option.some_ne_none x).symm
  | append_singleton front last =>
    have hdelete : swapDelete (front ++ [last]) i = ((front ++ [last]).set i last).dropLast := by
      unfold swapDelete
      rw [getLast?_concat]
    rw [hdelete]
    by_cases hi : i < front.length
    · -- the last cell takes the place of the deleted one
      rw [getElem?_append_left hi] at hx
      obtain ⟨_, hget⟩ := List.getElem?_eq_some_iff.mp hx
      rw [set_append_left _ _ hi, dropLast_concat]
      have hfront : front = front.take i ++ x :: front.drop (i + 1) := by
        rw [← hget, getElem_cons_drop, take_append_drop]
      have hset : front.set i last = front.take i ++ last :: front.drop (i + 1) :=
        set_eq_take_append_cons_drop.trans (if_pos hi)
      rw [hset]
      nth_rewrite 3 [hfront]
      calc
        List.Perm (x :: (front.take i ++ last :: front.drop (i + 1)))
            (x :: last :: (front.take i ++ front.drop (i + 1))) :=
          List.Perm.cons x perm_middle
        List.Perm _ (last :: x :: (front.take i ++ front.drop (i + 1))) :=
          List.Perm.swap last x _
        List.Perm _ (last :: (front.take i ++ x :: front.drop (i + 1))) :=
          List.Perm.cons last perm_middle.symm
        List.Perm _ ((front.take i ++ x :: front.drop (i + 1)) ++ [last]) :=
          (perm_append_singleton last _).symm
    · have hbound := (List.getElem?_eq_some_iff.mp hx).1
      rw [length_append, length_singleton] at hbound
      obtain rfl : i = front.length := by omega
      rw [getElem?_concat_length, Option.some.injEq] at hx
      subst hx
      rw [set_append_right _ _ (Nat.le_refl _), Nat.sub_self, set_cons_zero, dropLast_concat]
      exact (perm_append_singleton last front).symm

end Greenplum.IndexedCells
