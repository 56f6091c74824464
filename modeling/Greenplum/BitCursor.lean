/-
Bits of a byte buffer counted from the highest bit of the first byte, the bits
of a number written highest first, and what setting or testing one bit under a
shifted mask does.
-/
import Mathlib.Data.List.GetD
import Mathlib.Tactic.Common

namespace Greenplum.BitCursor

open List

/-- The bit at a position; behind the end of the buffer there are zeros. -/
def msbBit (bytes : List (BitVec 8)) (position : Nat) : Bool :=
  (bytes.getD (position / 8) 0).getMsbD (position % 8)

/-- The lowest `width` bits of a number, the highest of them first. -/
def bitsMsb {w : Nat} : Nat → BitVec w → List Bool
  | 0, _ => []
  | width + 1, value => value.getLsbD width :: bitsMsb width value

variable {w place position : Nat} {bytes : List (BitVec 8)}

@[simp] theorem length_bitsMsb (width : Nat) (value : BitVec w) :
    (bitsMsb width value).length = width := by
  induction width with
  | zero => rfl
  | succ width ih => rw [bitsMsb, length_cons, ih]

theorem and_maskMsb_ne_zero (byte : BitVec 8) (hplace : place < 8) :
    (byte &&& 1#8 <<< (7 - place) != 0) = byte.getMsbD place := by
  have hbit : byte.getMsbD place = byte.getLsbD (7 - place) := by
    simp [BitVec.getMsbD, hplace]
  have hmask : ∀ place < 8, (BitVec.twoPow 8 (7 - place) != 0) = true := by
    decide
  rw [hbit, ← BitVec.twoPow_eq, BitVec.and_twoPow]
  cases byte.getLsbD (7 - place) with
  | false => rfl
  | true => exact hmask place hplace

theorem or_maskMsb_getMsbD (byte : BitVec 8) {other : Nat} (hplace : place < 8)
    (hother : other < 8) :
    (byte ||| 1#8 <<< (7 - place)).getMsbD other =
      (byte.getMsbD other || decide (other = place)) := by
  have hmask : ∀ place < 8, ∀ other < 8,
      (1#8 <<< (7 - place)).getMsbD other = decide (other = place) := by
    decide
  rw [BitVec.getMsbD_or, hmask place hplace other hother]

/-- Setting the bit at a position inside the buffer changes no other bit. -/
theorem msbBit_set (hinside : position / 8 < bytes.length) (other : Nat) :
    msbBit (bytes.modify (position / 8) (fun byte => byte ||| 1#8 <<< (7 - position % 8))) other =
      (msbBit bytes other || decide (other = position)) := by
  have hplace : position % 8 < 8 := Nat.mod_lt _ (by decide)
  have hother : other % 8 < 8 := Nat.mod_lt _ (by decide)
  rw [msbBit, msbBit, getD_eq_getElem?_getD, getD_eq_getElem?_getD, getElem?_modify]
  by_cases hbyte : position / 8 = other / 8
  · have hlt : other / 8 < bytes.length := hbyte ▸ hinside
    rw [getElem?_eq_getElem hlt]
    simp only [Option.map_eq_map, Option.map_some, Option.getD_some, if_pos hbyte]
    rw [or_maskMsb_getMsbD _ hplace hother]
    congr 1
    exact decide_eq_decide.mpr (by omega)
  · have hne : other ≠ position := fun heq => hbyte (heq ▸ rfl)
    simp [hbyte, hne]

theorem msbBit_take {count : Nat} (hposition : position < 8 * count) :
    msbBit (bytes.take count) position = msbBit bytes position := by
  have hbyte : position / 8 < count := by omega
  rw [msbBit, msbBit, getD_eq_getElem?_getD, getD_eq_getElem?_getD, getElem?_take, if_pos hbyte]

theorem msbBit_zeros (count position : Nat) : msbBit (List.replicate count 0) position = false := by
  rw [msbBit, getD_eq_getElem?_getD, getElem?_replicate]
  split <;> simp

/-- A mask that moves down bit by bit stands at the next lower bit. -/
theorem twoPow_succ_shiftRight (place : Nat) (hplace : place + 1 < w) :
    BitVec.twoPow w (place + 1) >>> 1 = BitVec.twoPow w place := by
  apply BitVec.eq_of_getLsbD_eq
  intro i hi
  have hleft : place + 1 < w ↔ place < w := by omega
  have hright : place + 1 = 1 + i ↔ place = i := by omega
  simp [hleft, hright]

/-- Shifting the next lower bit in: one more bit of the number is known. -/
theorem shiftRight_succ_push (value : BitVec w) (place : Nat) :
    (value >>> (place + 1)) <<< 1 ||| BitVec.setWidth w (BitVec.ofBool (value.getLsbD place)) =
      value >>> place := by
  apply BitVec.eq_of_getLsbD_eq
  intro i hi
  cases i with
  | zero => simp [hi]
  | succ i =>
    have hsum : place + 1 + i = place + (i + 1) := by omega
    simp [hi, hsum]

/-- The bits from a position on, as far as the list goes. -/
def Window (bytes : List (BitVec 8)) : Nat → List Bool → Prop
  | _, [] => True
  | position, bit :: bits =>
    msbBit bytes position = bit ∧ Window bytes (position + 1) bits

theorem window_append (front back : List Bool) :
    ∀ position, Window bytes position (front ++ back) ↔ Window bytes position front ∧
        Window bytes (position + front.length) back := by
  induction front with
  | nil =>
    simp [Window]
  | cons bit front ih =>
    intro position
    have hsum : position + 1 + front.length = position + (bit :: front).length := by
      rw [length_cons]
      omega
    rw [cons_append, Window, Window, ih, hsum, and_assoc]

theorem window_take (count : Nat) (bits : List Bool) :
    ∀ position, position + bits.length ≤ 8 * count →
      (Window (bytes.take count) position bits ↔ Window bytes position bits) := by
  induction bits with
  | nil => exact fun _ _ => Iff.rfl
  | cons bit bits ih =>
    intro position hfits
    rw [length_cons] at hfits
    rw [Window, Window, msbBit_take (by omega), ih (position + 1) (by omega)]

section

variable {bytes : List (BitVec 8)} {size : Nat} {bits : List Bool}

/-- A buffer of `size` bytes in which these bits were written, in front of
zeros. -/
structure Written (bytes : List (BitVec 8)) (size : Nat) (bits : List Bool) : Prop where
  size_eq : bytes.length = size
  fits : bits.length ≤ 8 * size
  bit : ∀ position, msbBit bytes position = bits.getD position false

theorem written_zeros (size : Nat) : Written (List.replicate size 0) size [] where
  size_eq := length_replicate
  fits := Nat.zero_le _
  bit position := msbBit_zeros size position

theorem Written.window (bits : List Bool) : ∀ front : List Bool,
      Written bytes size (front ++ bits) → Window bytes front.length bits := by
  induction bits with
  | nil => exact fun _ _ => trivial
  | cons bit bits ih =>
    intro front h
    constructor
    · rw [h.bit]
      simp
    · have hnext := ih (front ++ [bit]) (by simpa using h)
      simpa using hnext

/-- Writing one more bit: a mask is set for a one, a zero is there already. -/
theorem Written.push (h : Written bytes size bits) (hroom : bits.length < 8 * size) (bit : Bool) :
    Written (if bit then bytes.modify (bits.length / 8)
        (fun byte => byte ||| 1#8 <<< (7 - bits.length % 8)) else bytes) size (bits ++ [bit]) where
  size_eq := by
    cases bit <;> simp [h.size_eq]
  fits := by
    rw [length_append, length_singleton]
    exact hroom
  bit position := by
    have hpush : (bits ++ [bit]).getD position false =
        (bits.getD position false || (decide (position = bits.length) && bit)) := by
      rcases Nat.lt_trichotomy position bits.length with hlt | heq | hgt
      · rw [getD_append _ _ _ _ hlt]
        simp [Nat.ne_of_lt hlt]
      · subst heq
        simp
      · rw [getD_eq_default, getD_eq_default]
        · simp [Nat.ne_of_gt hgt]
        · exact Nat.le_of_lt hgt
        · rw [length_append, length_singleton]
          exact hgt
    rw [hpush, ← h.bit]
    cases bit with
    | false => simp
    | true =>
      have hinside : bits.length / 8 < bytes.length := by
        rw [h.size_eq]
        omega
      rw [if_pos rfl, msbBit_set hinside, Bool.and_true]

/-- Bits that are skipped are zeros. -/
theorem Written.skip (h : Written bytes size bits) {count : Nat}
    (hroom : bits.length + count ≤ 8 * size) :
    Written bytes size (bits ++ List.replicate count false) where
  size_eq := h.size_eq
  fits := by simpa using hroom
  bit position := by
    rw [h.bit]
    rcases Nat.lt_or_ge position bits.length with hlt | hge
    · rw [getD_append _ _ _ _ hlt]
    · rw [getD_append_right _ _ _ _ hge, getD_eq_default _ _ hge,
        getD_eq_getElem?_getD, getElem?_getD_replicate_default_eq]

end

end Greenplum.BitCursor
