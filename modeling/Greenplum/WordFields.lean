/-
Bit fields of a machine word: a field is put in with a shift and a mask and is
taken out with the mask and a shift back, and fields on disjoint places do not
disturb each other.
-/
import Mathlib.Data.Nat.Bitwise

namespace Greenplum.WordFields

open BitVec

variable {size : Nat} {low width : Nat}

/-- The mask of the `width` bits from place `low` on. -/
def mask (size low width : Nat) : BitVec size :=
  BitVec.ofNat size (2 ^ width - 1) <<< low

section

variable (low width : Nat) (value : BitVec size)

/-- The word that holds a value in a field and zeros elsewhere. -/
def put : BitVec size :=
  mask size low width &&& (value <<< low)

/-- The value of a field. -/
def take (word : BitVec size) : BitVec size :=
  (word &&& mask size low width) >>> low

theorem put_zero : put 0 width value = mask size 0 width &&& value := by
  rw [put, shiftLeft_zero]

theorem take_zero (word : BitVec size) : take 0 width word = word &&& mask size 0 width := by
  rw [take, ushiftRight_zero]

theorem getLsbD_mask (i : Nat) :
    (mask size low width).getLsbD i = decide (i < size ∧ low ≤ i ∧ i < low + width) := by
  rw [mask, BitVec.getLsbD_shiftLeft, BitVec.getLsbD_ofNat, Nat.testBit_two_pow_sub_one]
  rw [Bool.eq_iff_iff]
  simp only [Bool.and_eq_true, decide_eq_true_eq, Bool.not_eq_true', decide_eq_false_iff_not]
  omega

theorem getLsbD_take (word : BitVec size) (i : Nat) :
    (take low width word).getLsbD i = (word.getLsbD (low + i) && decide (i < width)) := by
  rw [take, BitVec.getLsbD_ushiftRight, BitVec.getLsbD_and, getLsbD_mask]
  by_cases hsize : low + i < size
  · have hplace : (low + i < size ∧ low ≤ low + i ∧ low + i < low + width) ↔ i < width := by
      omega
    rw [decide_eq_decide.mpr hplace]
  · rw [getLsbD_of_ge word _ (Nat.le_of_not_lt hsize), Bool.false_and, Bool.false_and]

theorem getLsbD_put (i : Nat) :
    (put low width value).getLsbD i = (decide (i < size ∧ low ≤ i ∧ i < low + width) &&
        value.getLsbD (i - low)) := by
  rw [put, getLsbD_and, getLsbD_mask, getLsbD_shiftLeft]
  by_cases hplace : i < size ∧ low ≤ i ∧ i < low + width
  · have hlow : ¬ i < low := by omega
    simp [hplace, hlow]
  · simp [hplace]

theorem ushiftRight_eq_take (htop : low + width = size) (word : BitVec size) :
    word >>> low = take low width word := by
  apply eq_of_getLsbD_eq
  intro i hsize
  rw [getLsbD_ushiftRight, getLsbD_take]
  by_cases hwidth : i < width
  · rw [decide_eq_true hwidth, Bool.and_true]
  · rw [getLsbD_of_ge word _ (by omega), Bool.false_and]

@[simp]
theorem take_or (left right : BitVec size) :
    take low width (left ||| right) = take low width left ||| take low width right := by
  apply eq_of_getLsbD_eq
  intro i _
  rw [getLsbD_or, getLsbD_take, getLsbD_take, getLsbD_take,
    getLsbD_or, Bool.and_or_distrib_right]

end

@[simp]
theorem take_put (hfits : low + width ≤ size) (value : BitVec size) :
    take low width (put low width value) = value &&& mask size 0 width := by
  apply eq_of_getLsbD_eq
  intro i hsize
  rw [getLsbD_take, getLsbD_put, getLsbD_and, getLsbD_mask, Nat.add_sub_cancel_left]
  by_cases hwidth : i < width
  · have hplace : low + i < size ∧ low ≤ low + i ∧ low + i < low + width := by omega
    have hhere : i < size ∧ 0 ≤ i ∧ i < 0 + width := by omega
    rw [decide_eq_true hplace, decide_eq_true hhere, decide_eq_true hwidth, Bool.true_and]
  · have hhere : ¬ (i < size ∧ 0 ≤ i ∧ i < 0 + width) := by omega
    rw [decide_eq_false hwidth, decide_eq_false hhere, Bool.and_false, Bool.and_false]

@[simp]
theorem take_put_of_disjoint {low' width' : Nat} (value : BitVec size)
    (hapart : low + width ≤ low' ∨ low' + width' ≤ low) :
    take low width (put low' width' value) = 0 := by
  apply eq_of_getLsbD_eq
  intro i _
  have hplace : ¬ ((low + i < size ∧ low' ≤ low + i ∧ low + i < low' + width') ∧ i < width) := by
    omega
  rw [getLsbD_take, getLsbD_put]
  by_cases hwidth : i < width
  · rw [decide_eq_false (fun h => hplace ⟨h, hwidth⟩)]
    simp
  · simp [hwidth]

theorem toNat_and_mask_zero (hfits : width ≤ size) (value : BitVec size) :
    (value &&& mask size 0 width).toNat = value.toNat % 2 ^ width := by
  have hpow : 2 ^ width ≤ 2 ^ size := Nat.pow_le_pow_right (by decide) hfits
  have hpos : 0 < 2 ^ width := Nat.two_pow_pos width
  rw [BitVec.toNat_and, mask, BitVec.shiftLeft_zero, BitVec.toNat_ofNat,
    Nat.mod_eq_of_lt (by omega), Nat.and_two_pow_sub_one_eq_mod]

/-- A value that is kept in two parts. -/
theorem join_parts (low high : Nat) (value : BitVec size) (hlt : value.toNat < 2 ^ (low + high)) :
    ((value >>> low) &&& mask size 0 high) <<< low ||| (value &&& mask size 0 low) = value := by
  apply eq_of_getLsbD_eq
  intro i hsize
  rw [getLsbD_or, getLsbD_shiftLeft, getLsbD_and,
    getLsbD_and, getLsbD_ushiftRight, getLsbD_mask, getLsbD_mask]
  by_cases hlow : i < low
  · simp [hlow, hsize]
  · have hplace : low + (i - low) = i := Nat.add_sub_cancel' (Nat.le_of_not_lt hlow)
    by_cases hhigh : i < low + high
    · have hpart : i - low < size ∧ 0 ≤ i - low ∧ i - low < 0 + high := by omega
      rw [hplace, decide_eq_true hpart]
      simp [hlow, hsize]
    · have hpow : 2 ^ (low + high) ≤ 2 ^ i :=
        Nat.pow_le_pow_right (by decide) (Nat.le_of_not_lt hhigh)
      have hzero : value.getLsbD i = false := Nat.testBit_lt_two_pow (Nat.lt_of_lt_of_le hlt hpow)
      rw [hplace, hzero]
      simp

end Greenplum.WordFields
