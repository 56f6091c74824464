/-
A stretch of memory as the list of its cells: copying cells out of it, copying
cells into it, and what a copy leaves alone.
-/
import Mathlib.Data.List.Basic

namespace Greenplum.ByteMemory

open List

universe u

variable {α : Type u} {memory cells before behind : List α} {offset count place : Nat}

def readAt (memory : List α) (offset count : Nat) : List α :=
  (memory.drop offset).take count

def writeAt (memory : List α) (offset : Nat) (cells : List α) : List α :=
  memory.take offset ++ cells ++ memory.drop (offset + cells.length)

theorem getElem?_readAt (memory : List α) (offset count i : Nat) :
    (readAt memory offset count)[i]? =
      if i < count then memory[offset + i]? else none := by
  rw [readAt, getElem?_take, getElem?_drop]

theorem length_readAt (hinside : offset + count ≤ memory.length) :
    (readAt memory offset count).length = count := by
  rw [readAt, length_take, length_drop]
  omega

section

variable (hinside : offset + cells.length ≤ memory.length)

include hinside

theorem length_writeAt : (writeAt memory offset cells).length = memory.length := by
  rw [writeAt, length_append, length_append, length_take, length_drop]
  omega

theorem getElem?_writeAt (i : Nat) : (writeAt memory offset cells)[i]? =
      if offset ≤ i ∧ i < offset + cells.length then cells[i - offset]?
      else memory[i]? := by
  have htake : (memory.take offset).length = offset := by
    rw [length_take]
    omega
  rw [writeAt, append_assoc]
  rcases Nat.lt_or_ge i offset with hbefore | hfrom
  · rw [getElem?_append_left (by omega), getElem?_take, if_pos hbefore, if_neg (by omega)]
  · rw [getElem?_append_right (by omega), htake]
    rcases Nat.lt_or_ge i (offset + cells.length) with hinto | hbehind
    · rw [getElem?_append_left (by omega), if_pos ⟨hfrom, hinto⟩]
    · rw [getElem?_append_right (by omega), getElem?_drop, if_neg (by omega)]
      congr 1
      omega

theorem readAt_writeAt : readAt (writeAt memory offset cells) offset cells.length = cells := by
  apply ext_getElem?
  intro i
  rw [getElem?_readAt, getElem?_writeAt hinside]
  split_ifs with hlt hmid
  · rw [Nat.add_sub_cancel_left]
  · omega
  · rw [getElem?_eq_none (by omega)]

end

/-- What is written at the end of a stretch lengthens it. -/
theorem take_writeAt (cells : List α) (hoffset : offset ≤ memory.length) :
    (writeAt memory offset cells).take (offset + cells.length) = memory.take offset ++ cells := by
  have hlength : (memory.take offset ++ cells).length = offset + cells.length := by
    rw [length_append, length_take_of_le hoffset]
  rw [writeAt, ← hlength, take_left]

theorem writeAt_append (cells more : List α) (hoffset : offset ≤ memory.length) :
    writeAt (writeAt memory offset cells) (offset + cells.length) more =
      writeAt memory offset (cells ++ more) := by
  have hlength : (memory.take offset ++ cells).length = offset + cells.length := by
    rw [length_append, length_take_of_le hoffset]
  have hdrop : (writeAt memory offset cells).drop (offset + cells.length + more.length) =
      memory.drop (offset + (cells ++ more).length) := by
    rw [writeAt, length_append, ← Nat.add_assoc, ← hlength, drop_length_add_append, drop_drop]
  rw [writeAt, take_writeAt cells hoffset, hdrop, writeAt, append_assoc (memory.take offset)]

theorem writeAt_take (hinside : offset + cells.length ≤ memory.length)
    (hcount : count ≤ cells.length) :
    writeAt (writeAt memory offset cells) offset (cells.take count) =
      writeAt memory offset cells := by
  have hlength := length_writeAt hinside
  have htake := length_take_of_le hcount
  apply ext_getElem?
  intro i
  rw [getElem?_writeAt (by omega), getElem?_writeAt hinside, htake]
  split_ifs with hpart hall hall
  · rw [getElem?_take_of_lt (by omega)]
  · omega
  · rfl
  · rfl

/-- Cells outside of the place that is written keep their values. -/
theorem readAt_writeAt_of_disjoint (hinside : offset + cells.length ≤ memory.length)
    (hapart : place + count ≤ offset ∨ offset + cells.length ≤ place) :
    readAt (writeAt memory offset cells) place count = readAt memory place count := by
  apply ext_getElem?
  intro i
  rw [getElem?_readAt, getElem?_readAt, getElem?_writeAt hinside]
  split_ifs with hlt hmid
  · omega
  · rfl
  · rfl

/-- A memory in which the cells of one place were written over. -/
structure Overwrites (memory : List α) (offset count : Nat) (cells next : List α) : Prop where
  length : next.length = memory.length
  read : readAt next offset count = cells
  frame : ∀ {place length : Nat}, place + length ≤ offset ∨ offset + count ≤ place →
    readAt next place length = readAt memory place length

theorem overwrites_writeAt (hcount : cells.length = count)
    (hinside : offset + count ≤ memory.length) :
    Overwrites memory offset count cells (writeAt memory offset cells) := by
  subst hcount
  exact ⟨length_writeAt hinside, readAt_writeAt hinside, readAt_writeAt_of_disjoint hinside⟩

theorem readAt_append (memory : List α) (offset first second : Nat) :
    readAt memory offset (first + second) =
      readAt memory offset first ++ readAt memory (offset + first) second := by
  rw [readAt, readAt, readAt, take_add, drop_drop]

theorem readAt_middle (hoffset : before.length = offset) (hcount : cells.length = count) :
    readAt (before ++ (cells ++ behind)) offset count = cells := by
  subst hoffset hcount
  rw [readAt, drop_left, take_left]

theorem readAt_front (hcount : cells.length = count) :
    readAt (cells ++ behind) 0 count = cells := by
  subst hcount
  exact take_left

theorem readAt_back (hoffset : before.length = offset) (hcount : cells.length = count) :
    readAt (before ++ cells) offset count = cells := by
  subst hoffset hcount
  rw [readAt, drop_left, take_length]

theorem readAt_readAt (memory : List α) (offset : Nat) {length : Nat}
    (hinside : place + length ≤ count) :
    readAt (readAt memory offset count) place length = readAt memory (offset + place) length := by
  apply ext_getElem?
  intro i
  rw [getElem?_readAt, getElem?_readAt, getElem?_readAt]
  split_ifs with hlt hin
  · rw [Nat.add_assoc]
  · omega
  · rfl

theorem readAt_take (memory : List α) (limit offset count : Nat) :
    readAt (memory.take limit) offset count =
      readAt memory offset (min count (limit - offset)) := by
  apply ext_getElem?
  intro i
  rw [getElem?_readAt, getElem?_readAt, getElem?_take]
  split_ifs with hlt hin hmin hmin
  · rfl
  · omega
  · omega
  · rfl
  · omega
  · rfl

theorem readAt_modify_of_le (memory : List α) (change : α → α) (hbehind : offset + count ≤ place) :
    readAt (memory.modify place change) offset count = readAt memory offset count := by
  apply ext_getElem?
  intro i
  rw [getElem?_readAt, getElem?_readAt]
  split_ifs with hlt
  · exact getElem?_modify_ne change memory (by omega)
  · rfl

theorem readAt_modify (memory : List α) (change : α → α) (hfrom : offset ≤ place) (count : Nat) :
    readAt (memory.modify place change) offset count =
      (readAt memory offset count).modify (place - offset) change := by
  rw [readAt, readAt, drop_modify_of_ge _ _ _ _ hfrom, take_modify]

/-- A fold whose step loses nothing shows a change of one cell. -/
theorem foldl_modify_ne {σ : Type u} {step : σ → α → σ}
    (hstate : ∀ cell, Function.Injective fun state => step state cell)
    (hcell : ∀ state, Function.Injective (step state)) {change : α → α}
    (hchange : ∀ cell, change cell ≠ cell) :
    ∀ {cells : List α} {place : Nat}, place < cells.length → ∀ state,
      (cells.modify place change).foldl step state ≠ cells.foldl step state := by
  have hfold : ∀ cells : List α, Function.Injective fun state => cells.foldl step state := by
    intro cells
    induction cells with
    | nil => exact Function.injective_id
    | cons cell cells ih => exact ih.comp (hstate cell)
  intro cells
  induction cells with
  | nil => exact fun hplace => absurd hplace (Nat.not_lt_zero _)
  | cons cell cells ih =>
    intro place hplace state
    cases place with
    | zero => exact fun heq => hchange cell (hcell state (hfold cells heq))
    | succ place => exact ih (Nat.lt_of_succ_lt_succ hplace) (step state cell)

end Greenplum.ByteMemory
