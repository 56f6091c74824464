/-
The comparisons of byte buffers that the C library has: `memcmp` over buffers
of one length, and `strncmp`, which stops at a NUL.
-/
import Mathlib.Data.List.Basic

namespace Greenplum.ByteCompare

open List

/-- The order of the first bytes that differ. -/
def memcmp : List (BitVec 8) → List (BitVec 8) → Ordering
  | left :: lefts, right :: rights =>
    (compare left.toNat right.toNat).then (memcmp lefts rights)
  | _, _ => .eq

/-- As `memcmp` over at most `count` bytes, but nothing behind a NUL counts. -/
def strncmp : Nat → List (BitVec 8) → List (BitVec 8) → Ordering
  | count + 1, left :: lefts, right :: rights =>
    if left = right then
      if left = 0 then .eq else strncmp count lefts rights
    else compare left.toNat right.toNat
  | _, _, _ => .eq

variable {left right : List (BitVec 8)} {count : Nat}

theorem compare_toNat_eq_iff {left right : BitVec 8} :
    compare left.toNat right.toNat = .eq ↔ left = right := by
  rw [Std.compare_eq_iff_eq, BitVec.toNat_inj]

theorem memcmp_eq_iff (hlength : left.length = right.length) :
    memcmp left right = .eq ↔ left = right := by
  induction left generalizing right with
  | nil => simp [memcmp, length_eq_zero_iff.1 hlength.symm]
  | cons byte rest ih =>
    cases right with
    | nil => simp at hlength
    | cons other others =>
      rw [memcmp, Ordering.then_eq_eq, compare_toNat_eq_iff,
        ih (Nat.succ.inj hlength), List.cons.injEq]

/-- Without a NUL `strncmp` compares all `count` bytes. -/
theorem strncmp_eq_iff (hleft : count ≤ left.length) (hright : count ≤ right.length)
    (hnul : 0 ∉ left) : strncmp count left right = .eq ↔ left.take count = right.take count := by
  induction count generalizing left right with
  | zero => simp [strncmp]
  | succ count ih =>
    cases left with
    | nil => simp at hleft
    | cons byte rest =>
      cases right with
      | nil => simp at hright
      | cons other others =>
        have hbyte : byte ≠ 0 := fun h => hnul (h ▸ mem_cons_self)
        have hrest : 0 ∉ rest := fun h => hnul (mem_cons_of_mem byte h)
        have hnext := ih (Nat.le_of_succ_le_succ hleft) (Nat.le_of_succ_le_succ hright) hrest
        by_cases hsame : byte = other
        · rw [strncmp, if_pos hsame, if_neg hbyte, hnext, take_succ_cons,
            take_succ_cons, List.cons.injEq]
          exact ⟨fun h => ⟨hsame, h⟩, fun h => h.2⟩
        · rw [strncmp, if_neg hsame, compare_toNat_eq_iff]
          simp [hsame]

/-- Two strings in front of a NUL are the same when `strncmp` finds them so. -/
theorem eq_of_strncmp_nul {lefts rights : List (BitVec 8)}
    (hleft : left.length < count) (hright : right.length < count) (hnulLeft : 0 ∉ left)
    (hnulRight : 0 ∉ right)
    (heq : strncmp count (left ++ 0 :: lefts) (right ++ 0 :: rights) = .eq) : left = right := by
  induction count generalizing left right with
  | zero => exact absurd hleft (Nat.not_lt_zero _)
  | succ count ih =>
    cases left with
    | nil =>
      cases right with
      | nil => rfl
      | cons other others =>
        have hother : (0 : BitVec 8) ≠ other := fun h => hnulRight (h ▸ mem_cons_self)
        rw [nil_append, cons_append, strncmp, if_neg hother, compare_toNat_eq_iff] at heq
        exact absurd heq hother
    | cons byte rest =>
      have hbyte : byte ≠ 0 := fun h => hnulLeft (h ▸ mem_cons_self)
      cases right with
      | nil =>
        rw [nil_append, cons_append, strncmp, if_neg hbyte, compare_toNat_eq_iff] at heq
        exact absurd heq hbyte
      | cons other others =>
        rw [cons_append, cons_append, strncmp] at heq
        by_cases hsame : byte = other
        · rw [if_pos hsame, if_neg hbyte] at heq
          have hrest := ih (Nat.lt_of_succ_lt_succ hleft) (Nat.lt_of_succ_lt_succ hright)
            (fun h => hnulLeft (mem_cons_of_mem byte h))
            (fun h => hnulRight (mem_cons_of_mem other h)) heq
          rw [hsame, hrest]
        · rw [if_neg hsame, compare_toNat_eq_iff] at heq
          exact absurd heq hsame

end Greenplum.ByteCompare
