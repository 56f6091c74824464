/-
Bits packed into bytes, the lowest bit of a byte first: the bytes that they take and the
one-bit mask that moves along with the position.
-/
import Mathlib.Tactic.Common

namespace Greenplum.PackedBits

/-- The bytes that `bitCount` bits take. -/
def size (bitCount : Nat) : Nat := (bitCount + 7) / 8

/-- The mask of the bit at a position within its byte. -/
def mask (position : Nat) : BitVec 8 := BitVec.twoPow 8 (position % 8)

theorem mask_shiftLeft_eq_zero_iff (position : Nat) :
    mask position <<< 1 = 0 ↔ position % 8 = 7 := by
  have hlt : position % 8 < 8 := Nat.mod_lt _ (by decide)
  unfold mask
  generalize position % 8 = place at hlt
  revert place
  decide

theorem mask_succ {position : Nat} (h : position % 8 ≠ 7) :
    mask (position + 1) = mask position <<< 1 := by
  have hsucc : (position + 1) % 8 = position % 8 + 1 := by omega
  rw [mask, mask, hsucc, BitVec.twoPow_eq, BitVec.twoPow_eq, BitVec.shiftLeft_add]

theorem mask_of_mod_eq_zero {position : Nat} (h : position % 8 = 0) : mask position = 1 := by
  rw [mask, h]
  rfl

end Greenplum.PackedBits
