/-
Tuple ids of append-only tables (`appendonlytid.h`).  A segment file number of 7 bits and a
row number of 40 bits are spread over the three words of an item pointer, with one reserved
bit that is always on, such that the item pointers are in the order of the pairs.
-/
import Greenplum.Visimap
import Mathlib.Data.Prod.Lex

namespace Greenplum.Visimap

open BitVec

namespace AOTupleId

/-- `AOTupleIdInit_Init`. -/
def init : AOTupleId := ⟨0#16, 0#16, 0x8000#16⟩

def initSegmentFileNum (h : AOTupleId) (e : BitVec 16) : AOTupleId :=
  { h with bytes01 := h.bytes01 ||| (0x007F &&& e) <<< 9 }

def initRowNum (h : AOTupleId) (e : BitVec 64) : AOTupleId where
  bytes01 := h.bytes01 ||| ((0x000000FFFFFFFFFF &&& e) >>> 31).setWidth 16
  bytes23 := h.bytes23 ||| ((0x000000007FFFFFFF &&& e) >>> 15).setWidth 16
  bytes45 := h.bytes45 ||| (0x7FFF &&& e).setWidth 16

/-- The three calls that make a tuple id. -/
def make (segno row : Nat) : AOTupleId :=
  (init.initSegmentFileNum (BitVec.ofNat 16 segno)).initRowNum (BitVec.ofNat 64 row)

end AOTupleId

structure ItemPointerData where
  biHi : BitVec 16
  biLo : BitVec 16
  ipPosid : BitVec 16

namespace ItemPointerData

variable (pointer : ItemPointerData)

def isValid : Bool := pointer.ipPosid != 0

def blockNumber : BitVec 32 := pointer.biHi.setWidth 32 <<< 16 ||| pointer.biLo.setWidth 32

end ItemPointerData

def itemPointerCompare (arg1 arg2 : ItemPointerData) : Int :=
  let b1 := arg1.blockNumber
  let b2 := arg2.blockNumber
  if b1 < b2 then -1
  else if b1 > b2 then 1
  else if arg1.ipPosid < arg2.ipPosid then -1
  else if arg1.ipPosid > arg2.ipPosid then 1
  else 0

/-- A tuple id has the layout of an item pointer. -/
def AOTupleId.itemPointer (h : AOTupleId) : ItemPointerData := ⟨h.bytes01, h.bytes23, h.bytes45⟩

/-- The three words of an item pointer as one number. -/
def ItemPointerData.number (pointer : ItemPointerData) : Nat :=
  pointer.biHi.toNat * 2 ^ 32 + pointer.biLo.toNat * 2 ^ 16 + pointer.ipPosid.toNat

theorem ItemPointerData.toNat_blockNumber (pointer : ItemPointerData) :
    pointer.blockNumber.toNat = pointer.biHi.toNat * 2 ^ 16 + pointer.biLo.toNat := by
  rw [← mul_two_pow_or pointer.biLo.isLt, blockNumber, toNat_or, toNat_shiftLeft,
    toNat_setWidth, toNat_setWidth, Nat.shiftLeft_eq]
  congr 1 <;> omega

theorem itemPointerCompare_eq (arg1 arg2 : ItemPointerData) :
    itemPointerCompare arg1 arg2 = if arg1.number < arg2.number then -1
      else if arg2.number < arg1.number then 1 else 0 := by
  have hblock1 := arg1.toNat_blockNumber
  have hblock2 := arg2.toNat_blockNumber
  unfold itemPointerCompare ItemPointerData.number
  simp only [lt_def, gt_iff_lt]
  split_ifs <;> omega

theorem toNat_mask_and {size : Nat} {mask : BitVec size} (bits : Nat)
    (hmask : mask.toNat = 2 ^ bits - 1) (e : BitVec size) :
    (mask &&& e).toNat = e.toNat % 2 ^ bits := by
  rw [toNat_and, hmask, Nat.and_comm, Nat.and_two_pow_sub_one_eq_mod]

namespace AOTupleId

variable {segno row segno' row' : Nat} (hrow : row < 2 ^ 40)

include hrow

theorem bytes23_make : (make segno row).bytes23.toNat = row / 2 ^ 15 % 2 ^ 16 := by
  have hmiddle : (0x000000007FFFFFFF &&& BitVec.ofNat 64 row).toNat = _ := toNat_mask_and 31 rfl _
  simp only [make, initRowNum, initSegmentFileNum, init, zero_or, toNat_setWidth,
    toNat_ushiftRight, hmiddle, toNat_ofNat, Nat.shiftRight_eq_div_pow]
  omega

theorem bytes45_make : (make segno row).bytes45.toNat = 1 * 2 ^ 15 + row % 2 ^ 15 := by
  have hlow : (0x7FFF &&& BitVec.ofNat 64 row).toNat = _ := toNat_mask_and 15 rfl _
  rw [← mul_two_pow_or (by omega), make, initRowNum, initSegmentFileNum, init]
  simp only [toNat_or, toNat_setWidth, hlow, toNat_ofNat]
  congr 1
  omega

variable (hsegno : segno ≤ 127)

include hsegno

theorem bytes01_make : (make segno row).bytes01.toNat = segno * 2 ^ 9 + row / 2 ^ 31 := by
  have hhigh : (0x007F &&& BitVec.ofNat 16 segno).toNat = _ := toNat_mask_and 7 rfl _
  have hlow : (0x000000FFFFFFFFFF &&& BitVec.ofNat 64 row).toNat = _ := toNat_mask_and 40 rfl _
  rw [← mul_two_pow_or (by omega), make, initRowNum, initSegmentFileNum, init]
  simp only [zero_or, toNat_or, toNat_shiftLeft, toNat_setWidth,
    toNat_ushiftRight, hhigh, hlow, toNat_ofNat, Nat.shiftLeft_eq,
    Nat.shiftRight_eq_div_pow]
  congr 1 <;> omega

/-- The reserved bit lies between the low and the high bits of the row number. -/
theorem number_make : (make segno row).itemPointer.number =
    segno * 2 ^ 41 + row / 2 ^ 15 * 2 ^ 16 + 2 ^ 15 + row % 2 ^ 15 := by
  unfold ItemPointerData.number itemPointer
  rw [bytes01_make hrow hsegno, bytes23_make hrow, bytes45_make hrow]
  omega

theorem number_lt_iff (hrow' : row' < 2 ^ 40) (hsegno' : segno' ≤ 127) :
    (make segno row).itemPointer.number < (make segno' row').itemPointer.number ↔
      toLex (segno, row) < toLex (segno', row') := by
  rw [number_make hrow hsegno, number_make hrow' hsegno', Prod.Lex.toLex_lt_toLex]
  omega

/-- A tuple id gives back the pair it was made of, its offset number is valid, and item
pointers of tuple ids are in the lexicographic order of the pairs. -/
theorem make_faithful (hrow' : row' < 2 ^ 40) (hsegno' : segno' ≤ 127) :
    (make segno row).segmentFileNum = segno ∧ (make segno row).rowNum = row ∧
    (make segno row).itemPointer.isValid = true ∧
    itemPointerCompare (make segno row).itemPointer (make segno' row').itemPointer =
      if toLex (segno, row) < toLex (segno', row') then -1
      else if toLex (segno', row') < toLex (segno, row) then 1
      else 0 := by
  have hhigh := bytes01_make hrow hsegno
  have hmiddle := @bytes23_make segno row hrow
  have hlow := @bytes45_make segno row hrow
  refine ⟨?_, ?_, ?_, ?_⟩
  · rw [segmentFileNum_eq, hhigh]
    omega
  · rw [rowNum_eq, hhigh, hmiddle, hlow]
    omega
  · have hpos : (make segno row).bytes45.toNat ≠ 0 := by omega
    exact bne_iff_ne.mpr fun hzero => hpos (congrArg BitVec.toNat hzero)
  · simp only [itemPointerCompare_eq, number_lt_iff hrow hsegno hrow' hsegno',
      number_lt_iff hrow' hsegno' hrow hsegno]

end AOTupleId

namespace TupleIdsWitness

/-- The last row of a segment file comes before the first one of the next. -/
theorem lastRow_before_next : (AOTupleId.make 126 (2 ^ 40 - 1)).rowNum = 2 ^ 40 - 1 ∧
    itemPointerCompare (AOTupleId.make 126 (2 ^ 40 - 1)).itemPointer
      (AOTupleId.make 127 0).itemPointer = -1 := by
  obtain ⟨-, hrow, -, horder⟩ := AOTupleId.make_faithful (show 2 ^ 40 - 1 < 2 ^ 40 by decide)
    (show 126 ≤ 127 by decide) (Nat.two_pow_pos 40) (Nat.le_refl 127)
  exact ⟨hrow, horder⟩

end TupleIdsWitness

end Greenplum.Visimap
