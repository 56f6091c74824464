/-
Numbers as strings of bytes in either byte order, and offsets that are rounded
up to an alignment.
-/
import Mathlib.Data.List.Basic
import Mathlib.Tactic.Ring

namespace Greenplum.ByteNumbers

open Nat

/-- The low `width` bytes of a number, the lowest first. -/
def leBytes : Nat → Nat → List (BitVec 8)
  | 0, _ => []
  | width + 1, number => BitVec.ofNat 8 number :: leBytes width (number / 256)

def leNat : List (BitVec 8) → Nat
  | [] => 0
  | byte :: rest => byte.toNat + 256 * leNat rest

@[simp] theorem length_leBytes (width : Nat) : ∀ number, (leBytes width number).length = width := by
  induction width with
  | zero => exact fun _ => rfl
  | succ width ih => exact fun number => congrArg (· + 1) (ih (number / 256))

theorem leNat_leBytes (width : Nat) :
    ∀ number, leNat (leBytes width number) = number % 256 ^ width := by
  induction width with
  | zero => exact fun number => (mod_one number).symm
  | succ width ih =>
    intro number
    rw [leBytes, leNat, ih, BitVec.toNat_ofNat]
    exact ((pow_succ' (n := width) (m := 256)) ▸ mod_mul).symm

theorem leNat_leBytes_of_lt {width number : Nat} (hlt : number < 256 ^ width) :
    leNat (leBytes width number) = number := by
  rw [leNat_leBytes, mod_eq_of_lt hlt]

theorem ofNat_leNat_leBytes {width bits : Nat} (hsize : 256 ^ width = 2 ^ bits)
    (word : BitVec bits) : BitVec.ofNat bits (leNat (leBytes width word.toNat)) = word := by
  rw [leNat_leBytes_of_lt (hsize ▸ word.isLt), BitVec.ofNat_toNat, BitVec.setWidth_eq]

theorem leBytes_leNat (bytes : List (BitVec 8)) : leBytes bytes.length (leNat bytes) = bytes := by
  induction bytes with
  | nil => rfl
  | cons byte rest ih =>
    have hlow : (byte.toNat + 256 * leNat rest) / 256 = leNat rest := by omega
    have hbyte : BitVec.ofNat 8 (byte.toNat + 256 * leNat rest) = byte := by
      apply BitVec.eq_of_toNat_eq
      rw [BitVec.toNat_ofNat]
      omega
    rw [List.length_cons, leNat, leBytes, hlow, hbyte, ih]

theorem leBytes_mod (width number : Nat) :
    leBytes width (number % 256 ^ width) = leBytes width number := by
  have hread := leBytes_leNat (leBytes width number)
  rwa [length_leBytes, leNat_leBytes] at hread

theorem leBytes_eq_iff (width left right : Nat) :
    leBytes width left = leBytes width right ↔ left % 256 ^ width = right % 256 ^ width := by
  constructor
  · intro heq
    rw [← leNat_leBytes, heq, leNat_leBytes]
  · intro heq
    rw [← leBytes_mod, heq, leBytes_mod]

section

variable (width number : Nat)

def beBytes : List (BitVec 8) := (leBytes width number).reverse

def beNat (bytes : List (BitVec 8)) : Nat := leNat bytes.reverse

@[simp] theorem length_beBytes : (beBytes width number).length = width := by
  rw [beBytes, List.length_reverse, length_leBytes]

theorem beNat_beBytes : beNat (beBytes width number) = number % 256 ^ width := by
  rw [beNat, beBytes, List.reverse_reverse, leNat_leBytes]

end

section

/-- The next multiple of `unit`. -/
def alignUp (unit offset : Nat) : Nat := (offset + (unit - 1)) / unit * unit

variable {unit : Nat}

theorem le_alignUp (hunit : 0 < unit) (offset : Nat) : offset ≤ alignUp unit offset := by
  have hdiv := div_add_mod (offset + (unit - 1)) unit
  have hmod := mod_lt (offset + (unit - 1)) hunit
  rw [mul_comm] at hdiv
  unfold alignUp
  omega

theorem alignUp_lt (hunit : 0 < unit) (offset : Nat) : alignUp unit offset < offset + unit := by
  have hdiv := div_add_mod (offset + (unit - 1)) unit
  rw [mul_comm] at hdiv
  unfold alignUp
  omega

theorem dvd_alignUp (unit offset : Nat) : unit ∣ alignUp unit offset :=
  dvd_mul_left _ _

theorem alignUp_of_dvd (hunit : 0 < unit) {offset : Nat} (h : unit ∣ offset) :
    alignUp unit offset = offset := by
  rcases h with ⟨count, rfl⟩
  unfold alignUp
  rw [mul_add_div hunit, div_eq_of_lt (sub_lt hunit one_pos),
    add_zero, mul_comm]

theorem alignUp_mono (unit : Nat) {low high : Nat} (h : low ≤ high) :
    alignUp unit low ≤ alignUp unit high :=
  Nat.mul_le_mul_right _ (Nat.div_le_div_right (Nat.add_le_add_right h _))

end

end Greenplum.ByteNumbers
