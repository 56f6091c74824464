/-
The bit-maps of a dense block stay inside of their buffers with one exception: the first
delta of a block is given room for one bit less than it takes.
-/
import Greenplum.Fallible
import Greenplum.DatumStreamWrite
import Mathlib.Data.BitVec

namespace Greenplum.DatumStream

open PackedBits Fallible List Nat

section

/-- A bit-map whose bits so far are in its buffer. -/
structure Fits (bmw : BitMapWrite) : Prop where
  room : PackedBits.size bmw.bitCount ≤ bmw.buffer.length
  place : 0 < bmw.bitCount →
    bmw.bytePointer = (bmw.bitCount - 1) / 8 ∧ bmw.byteBit = mask (bmw.bitCount - 1)
  fresh : bmw.bitCount = 0 → bmw.bytePointer = 0

/-- A bit-map that fits, with this number of bits and of bits that are on. -/
structure Holds (bmw : BitMapWrite) (bitCount bitOnCount : Nat) : Prop extends Fits bmw where
  count : bmw.bitCount = bitCount
  onCount : bmw.bitOnCount = bitOnCount

variable {bmw : BitMapWrite}

theorem init_fits (buffer : List Byte) : Fits (.init buffer) where
  room := by simp [BitMapWrite.init, PackedBits.size]
  place hpos := absurd hpos (lt_irrefl 0)
  fresh _ := rfl

variable (h : Fits bmw)

include h

theorem zeroFill_fits (hfresh : bmw.bitCount = 0) {bitCount : Nat}
    (hroom : PackedBits.size bitCount ≤ bmw.buffer.length) :
    ∃ filled, bmw.zeroFill bitCount = .ok filled ∧ Holds filled bitCount bmw.bitOnCount ∧
      filled.buffer.length = bmw.buffer.length := by
  unfold BitMapWrite.zeroFill
  by_cases hzero : bitCount = 0
  · rw [if_pos hzero]
    exact ⟨bmw, rfl, ⟨h, hfresh.trans hzero.symm, rfl⟩, rfl⟩
  · have hlength : (List.replicate (PackedBits.size bitCount) (0 : Byte) ++
        bmw.buffer.drop (PackedBits.size bitCount)).length = bmw.buffer.length := by
      simp [hroom]
    have hplace : PackedBits.size bitCount - 1 = (bitCount - 1) / 8 := by
      unfold PackedBits.size
      omega
    rw [if_neg hzero, if_neg (Nat.not_lt_of_le hroom)]
    refine ⟨_, rfl, ⟨⟨?_, fun _ => ⟨hplace, ?_⟩, fun hnone => absurd hnone hzero⟩, rfl, rfl⟩,
      hlength⟩
    · rw [hlength]
      exact hroom
    · rfl

theorem nextBit_fits (hroom : bmw.bitCount / 8 < bmw.buffer.length) :
    ∃ next, bmw.nextBit = .ok next ∧ Holds next (bmw.bitCount + 1) bmw.bitOnCount := by
  have hsize : PackedBits.size (bmw.bitCount + 1) ≤ bmw.buffer.length := by
    unfold PackedBits.size
    omega
  unfold BitMapWrite.nextBit
  by_cases hzero : bmw.bitCount = 0
  · have hpointer := h.fresh hzero
    rw [hzero] at hroom hsize
    rw [if_pos hzero, hpointer, storeByte, if_pos hroom]
    refine ⟨_, rfl, ⟨?_, fun _ => ?_, fun hnone => absurd hnone (succ_ne_zero _)⟩, rfl, rfl⟩
    · rw [hzero, length_set]
      exact hsize
    · dsimp only
      rw [hzero]
      exact ⟨rfl, (mask_of_mod_eq_zero rfl).symm⟩
  · obtain ⟨hpointer, hbit⟩ := h.place (pos_of_ne_zero hzero)
    rw [if_neg hzero, hbit]
    by_cases hfull : (bmw.bitCount - 1) % 8 = 7
    · have hbyte : bmw.bytePointer + 1 = bmw.bitCount / 8 := by omega
      rw [if_pos ((mask_shiftLeft_eq_zero_iff _).mpr hfull), hbyte, storeByte, if_pos hroom]
      refine ⟨_, rfl, ⟨?_, fun _ => ⟨rfl, ?_⟩, fun hnone => absurd hnone (succ_ne_zero _)⟩,
        rfl, rfl⟩
      · rw [length_set]
        exact hsize
      · exact (mask_of_mod_eq_zero (show bmw.bitCount % 8 = 0 by omega)).symm
    · rw [if_neg fun hshift => hfull ((mask_shiftLeft_eq_zero_iff _).mp hshift)]
      refine ⟨_, rfl, ⟨hsize, fun _ => ⟨?_, ?_⟩, fun hnone => absurd hnone (succ_ne_zero _)⟩,
        rfl, rfl⟩
      · show bmw.bytePointer = bmw.bitCount / 8
        omega
      · have hsucc : bmw.bitCount = bmw.bitCount - 1 + 1 := by omega
        show _ = mask bmw.bitCount
        rw [hsucc, mask_succ hfull, Nat.add_sub_cancel]

/-- Switching the bit on that was added last. -/
theorem set_fits (hpos : 0 < bmw.bitCount) :
    ∃ next, bmw.set = .ok next ∧ Holds next bmw.bitCount (bmw.bitOnCount + 1) := by
  have hroom : bmw.bytePointer < bmw.buffer.length := by
    have hsize := h.room
    have hpointer := (h.place hpos).1
    unfold PackedBits.size at hsize
    omega
  unfold BitMapWrite.set
  rw [storeByte, if_pos hroom]
  refine ⟨_, rfl, ⟨?_, h.place, h.fresh⟩, rfl, rfl⟩
  rw [length_set]
  exact h.room

theorem addBit_fits (hroom : bmw.bitCount / 8 < bmw.buffer.length) (on : Bool) :
    ∃ next, bmw.addBit on = .ok next ∧
      Holds next (bmw.bitCount + 1) (bmw.bitOnCount + on.toNat) := by
  obtain ⟨next, hnext, hholds⟩ := nextBit_fits h hroom
  unfold BitMapWrite.addBit
  rw [hnext]
  cases on with
  | false => exact ⟨next, rfl, hholds⟩
  | true =>
    obtain ⟨final, hset, hfinal⟩ :=
      set_fits hholds.toFits (hholds.count ▸ succ_pos bmw.bitCount)
    rw [hholds.count, hholds.onCount] at hfinal
    exact ⟨final, hset, hfinal⟩

/-- A bit behind the last byte of the buffer is written to other memory. -/
theorem addBit_outOfBounds (hfull : bmw.buffer.length ≤ bmw.bitCount / 8)
    (on : Bool) : bmw.addBit on = .error .outOfBounds := by
  have hstore : bmw.nextBit = .error .outOfBounds := by
    have hsize := h.room
    unfold PackedBits.size at hsize
    unfold BitMapWrite.nextBit
    by_cases hzero : bmw.bitCount = 0
    · have hempty : ¬ 0 < bmw.buffer.length := by omega
      rw [if_pos hzero, h.fresh hzero, storeByte, if_neg hempty]
      rfl
    · obtain ⟨hpointer, hbit⟩ := h.place (pos_of_ne_zero hzero)
      have hlast : (bmw.bitCount - 1) % 8 = 7 := by omega
      have hbehind : ¬ bmw.bytePointer + 1 < bmw.buffer.length := by omega
      rw [if_neg hzero, hbit, if_pos ((mask_shiftLeft_eq_zero_iff _).mpr hlast), storeByte,
        if_neg hbehind]
      rfl
  unfold BitMapWrite.addBit
  rw [hstore]
  rfl

end

section

variable (cfg : WriteConfig) {bmw : BitMapWrite}

/-- The size of a buffer after it was grown. -/
def grownLength (length newSize : Nat) : Nat :=
  if length < newSize then
    if length * 2 < newSize then newSize + cfg.initialMaxDatumPerBlock else length * 2
  else length

theorem le_grownLength (length newSize : Nat) : newSize ≤ grownLength cfg length newSize := by
  unfold grownLength
  repeat' split
  all_goals omega

theorem growBitMap_fits (h : Fits bmw) (newSize : Nat) :
    Holds (growBitMap cfg bmw newSize) bmw.bitCount bmw.bitOnCount ∧
      (growBitMap cfg bmw newSize).buffer.length = grownLength cfg bmw.buffer.length newSize := by
  have hsize := h.room
  unfold growBitMap grownLength
  by_cases hsmall : bmw.buffer.length < newSize
  · rw [if_pos hsmall, if_pos hsmall]
    dsimp only
    generalize hnew : (if bmw.buffer.length * 2 < newSize then
      newSize + cfg.initialMaxDatumPerBlock else bmw.buffer.length * 2) = newBufferSize
    have hlarger : bmw.buffer.length ≤ newBufferSize := by
      split at hnew <;> omega
    have hlength : (bmw.copyToLargerBuffer (cfg.palloc newBufferSize)).buffer.length =
        newBufferSize := by
      unfold BitMapWrite.copyToLargerBuffer BitMapWrite.size
      simp only [length_append, length_take, length_drop, cfg.length_palloc]
      omega
    refine ⟨⟨⟨?_, h.place, h.fresh⟩, rfl, rfl⟩, hlength⟩
    rw [hlength]
    exact le_trans hsize hlarger
  · rw [if_neg hsmall, if_neg hsmall]
    exact ⟨⟨h, rfl, rfl⟩, rfl⟩

/-- A bit-map that is in use gets room for its next bit. -/
theorem makeBitMapSpace_started (h : Fits bmw) (sized filled : Nat) :
    ∃ next, makeBitMapSpace cfg bmw true sized filled = .ok next ∧
      Holds next bmw.bitCount bmw.bitOnCount ∧ next.bitCount / 8 < next.buffer.length := by
  obtain ⟨hgrown, hlength⟩ := growBitMap_fits cfg h bmw.nextSize
  refine ⟨growBitMap cfg bmw bmw.nextSize, rfl, hgrown, ?_⟩
  have hle := le_grownLength cfg bmw.buffer.length bmw.nextSize
  rw [hgrown.count, hlength]
  unfold BitMapWrite.nextSize PackedBits.size at *
  omega

/-- A bit-map that is not in use yet is cleared up to its first bit. -/
theorem makeBitMapSpace_first (h : Fits bmw) (hfresh : bmw.bitCount = 0) {sized filled : Nat}
    (hfilled : filled ≤ sized) :
    ∃ next, makeBitMapSpace cfg bmw false sized filled = .ok next ∧
      Holds next filled bmw.bitOnCount ∧ next.buffer.length =
        grownLength cfg bmw.buffer.length (PackedBits.size sized) := by
  obtain ⟨hgrown, hlength⟩ := growBitMap_fits cfg h (PackedBits.size sized)
  have hroom : PackedBits.size filled ≤
      (growBitMap cfg bmw (PackedBits.size sized)).buffer.length := by
    rw [hlength]
    exact Nat.le_trans (Nat.div_le_div_right (Nat.add_le_add_right hfilled 7))
      (le_grownLength cfg _ _)
  obtain ⟨next, hfill, hholds, hsame⟩ :=
    zeroFill_fits hgrown.toFits (hgrown.count.trans hfresh) hroom
  rw [hgrown.onCount] at hholds
  exact ⟨next, hfill, hholds, hsame.trans hlength⟩

/-- A bit-map that fits and that is empty as long as it is not in use. -/
structure Ready (started : Bool) (bmw : BitMapWrite) : Prop extends Fits bmw where
  unused : started = false → bmw.bitCount = 0 ∧ bmw.bitOnCount = 0

theorem Fits.ready (h : Fits bmw) : Ready true bmw := ⟨h, (nomatch ·)⟩

/-- Room for more bits than are cleared is enough for the next bit. -/
theorem Ready.addBit {started : Bool} (h : Ready started bmw) (sized filled : Nat)
    (hfilled : started = false → filled < sized) (on : Bool) :
    ∃ roomy next, makeBitMapSpace cfg bmw started sized filled = .ok roomy ∧
      roomy.addBit on = .ok next ∧ Holds next ((if started then bmw.bitCount else filled) + 1)
        (bmw.bitOnCount + on.toNat) := by
  cases started with
  | true =>
    obtain ⟨roomy, hspace, hroomy, hroom⟩ := makeBitMapSpace_started cfg h.toFits sized filled
    obtain ⟨next, hadd, hnext⟩ := addBit_fits hroomy.toFits hroom on
    rw [hroomy.count, hroomy.onCount] at hnext
    exact ⟨roomy, next, hspace, hadd, hnext⟩
  | false =>
    have hless := hfilled rfl
    obtain ⟨roomy, hspace, hroomy, hlength⟩ :=
      makeBitMapSpace_first cfg h.toFits (h.unused rfl).1 (le_of_lt hless)
    have hroom : roomy.bitCount / 8 < roomy.buffer.length := by
      have hgrown := le_grownLength cfg bmw.buffer.length (PackedBits.size sized)
      rw [hroomy.count, hlength]
      unfold PackedBits.size at *
      omega
    obtain ⟨next, hadd, hnext⟩ := addBit_fits hroomy.toFits hroom on
    rw [hroomy.count, hroomy.onCount] at hnext
    exact ⟨roomy, next, hspace, hadd, hnext⟩

/-- A bit-map after a bit was added that is off, if it is in use. -/
structure Grown (started : Bool) (bmw next : BitMapWrite) : Prop extends Ready started next where
  count : started = true → next.bitCount = bmw.bitCount + 1
  onCount : next.bitOnCount = bmw.bitOnCount

theorem Ready.unchanged {started : Bool} (h : Ready started bmw) (hunused : ¬ started = true) :
    Grown started bmw bmw :=
  ⟨h, fun hused => absurd hused hunused, rfl⟩

end

section

variable (cfg : WriteConfig) {dsw : BlockWrite}

/-- The size of the repeat counts with the one that is not final yet. -/
def rleCountsSize (dsw : BlockWrite) : Nat :=
  dsw.rleRepeatcountsCurrentSize +
    if dsw.rleLastItemIsRepeated then int32CompressSize (dsw.rleRepeatcounts.getLastD 0) else 0

/-- The repeat counts that are final. -/
def finalCounts (dsw : BlockWrite) : List Nat :=
  if dsw.rleLastItemIsRepeated then dsw.rleRepeatcounts.dropLast else dsw.rleRepeatcounts

/-- The repeats of the last item so far. -/
def pendingCount (dsw : BlockWrite) : Nat :=
  if dsw.rleLastItemIsRepeated then dsw.rleRepeatcounts.getLastD 0 else 0

/-- The writer with one more repeat of the last item. -/
def withRepeat (dsw : BlockWrite) (compressBitmap : BitMapWrite) : BlockWrite :=
  { dsw with
    nth := dsw.nth + 1
    rleHasCompression := true
    rleLastItemIsRepeated := true
    rleTotalRepeatItemsWritten := dsw.rleTotalRepeatItemsWritten +
      (!dsw.rleLastItemIsRepeated).toNat + 1
    rleCompressBitmap := compressBitmap
    rleRepeatcounts := finalCounts dsw ++ [pendingCount dsw + 1] }

/-- The writer with the bits of one more item, and its repeat counts final. -/
def withItem (dsw : BlockWrite) (nullBitmap compressBitmap : BitMapWrite)
    (lastItem : Option LastItem) (lastItemSize : Nat) : BlockWrite :=
  { dsw with
    nth := dsw.nth + 1
    nullBitmap := nullBitmap
    alwaysNullBitmapCount := dsw.alwaysNullBitmapCount + 1
    rleCompressBitmap := compressBitmap
    rleLastItem := lastItem
    rleLastItemSize := lastItemSize
    rleLastItemIsRepeated := false
    rleRepeatcountsCurrentSize := rleCountsSize dsw }

theorem rleCountsSize_of_not_repeated (h : dsw.rleLastItemIsRepeated = false) :
    rleCountsSize dsw = dsw.rleRepeatcountsCurrentSize := by
  rw [rleCountsSize, h]
  rfl

/-- What is final once the last item was not repeated. -/
theorem rleFinalizeIfRepeated_eq (dsw : BlockWrite) : ∃ lastItem lastItemSize,
    (lastItem = none ∨ lastItem = dsw.rleLastItem) ∧ rleFinalizeIfRepeated dsw = { dsw with
        rleLastItem := lastItem
        rleLastItemSize := lastItemSize
        rleLastItemIsRepeated := false
        rleRepeatcountsCurrentSize := rleCountsSize dsw } := by
  unfold rleFinalizeIfRepeated
  cases hrepeated : dsw.rleLastItemIsRepeated with
  | true =>
    exact ⟨none, 0, .inl rfl, by simp [rleFinalizeRepeatCountSize, rleCountsSize, hrepeated]⟩
  | false =>
    refine ⟨dsw.rleLastItem, dsw.rleLastItemSize, .inr rfl, ?_⟩
    rw [rleCountsSize_of_not_repeated hrepeated, ← hrepeated, if_neg (by simp [hrepeated])]

/-- The bit of a NULL, the first one or a later one. -/
theorem denseIncrNull_eq (hnull : Ready dsw.hasNull dsw.nullBitmap)
    (hplain : cfg.rleWantCompression = false → dsw.rleLastItemIsRepeated = false) :
    ∃ bitmap lastItem lastItemSize, (makeNullBitMapSpace cfg dsw >>= denseIncrNull cfg) =
        .ok { withItem dsw bitmap dsw.rleCompressBitmap lastItem lastItemSize with
          hasNull := true } ∧ Holds bitmap ((if dsw.hasNull then dsw.nullBitmap.bitCount
        else dsw.alwaysNullBitmapCount) + 1) (dsw.nullBitmap.bitOnCount + 1) ∧
      (cfg.rleWantCompression = true → lastItem = none) := by
  obtain ⟨roomy, bitmap, hspace, hadd, hholds⟩ := hnull.addBit cfg _ _
    (fun _ => lt_succ_self dsw.alwaysNullBitmapCount) true
  have hmade : makeNullBitMapSpace cfg dsw =
      .ok { dsw with nullBitmap := roomy, hasNull := true } := by
    rw [makeNullBitMapSpace, hspace]
    rfl
  rw [hmade]
  show ∃ bitmap lastItem lastItemSize, denseIncrNull cfg _ = _ ∧ _
  unfold denseIncrNull addNullBit
  rw [hadd]
  dsimp only [ok_bind]
  cases hwant : cfg.rleWantCompression with
  | true =>
    obtain ⟨lastItem, lastItemSize, -, heq⟩ := rleFinalizeIfRepeated_eq { dsw with
      nullBitmap := bitmap
      hasNull := true
      alwaysNullBitmapCount := dsw.alwaysNullBitmapCount + 1 }
    rw [if_pos rfl, heq]
    exact ⟨bitmap, none, 0, rfl, hholds, fun _ => rfl⟩
  | false =>
    have hrepeated := hplain hwant
    refine ⟨bitmap, dsw.rleLastItem, dsw.rleLastItemSize, ?_, hholds, nofun⟩
    simp [withItem, rleCountsSize_of_not_repeated hrepeated, hrepeated]

/-- The bit of an item in a bit-map that is in use. -/
theorem Ready.addOff {started : Bool} {bmw : BitMapWrite} (h : Ready started bmw)
    (hstarted : started = true) (sized filled : Nat) :
    ∃ roomy next, makeBitMapSpace cfg bmw started sized filled = .ok roomy ∧
      roomy.addBit false = .ok next ∧ Grown started bmw next := by
  subst hstarted
  obtain ⟨roomy, next, hspace, hadd, hholds⟩ := h.addBit cfg sized filled (nomatch ·) false
  exact ⟨roomy, next, hspace, hadd, hholds.toFits.ready, fun _ => hholds.count, hholds.onCount⟩

/-- The bit of an item in the NULL bit-map, if there is one. -/
theorem incrNullBitmap_eq (h : Ready dsw.hasNull dsw.nullBitmap) :
    ∃ bitmap, Grown dsw.hasNull dsw.nullBitmap bitmap ∧ incrNullBitmap cfg dsw = .ok { dsw with
        nullBitmap := bitmap
        alwaysNullBitmapCount := dsw.alwaysNullBitmapCount + 1 } := by
  unfold incrNullBitmap
  by_cases hnull : dsw.hasNull = true
  · obtain ⟨roomy, bitmap, hspace, hadd, hgrown⟩ := h.addOff cfg hnull
      (dsw.alwaysNullBitmapCount + 1) dsw.alwaysNullBitmapCount
    have hmade : makeNullBitMapSpace cfg dsw =
        .ok { dsw with nullBitmap := roomy, hasNull := true } := by
      rw [makeNullBitMapSpace, hspace]
      rfl
    rw [if_pos hnull, hmade]
    refine ⟨bitmap, hgrown, ?_⟩
    show (addNullBit _ false).bind _ = _
    rw [addNullBit, hadd]
    exact congrArg (fun hasNull => Except.ok { dsw with
      hasNull := hasNull
      nullBitmap := bitmap
      alwaysNullBitmapCount := dsw.alwaysNullBitmapCount + 1 }) hnull.symm
  · rw [if_neg hnull]
    exact ⟨dsw.nullBitmap, h.unchanged hnull, rfl⟩

/-- The bit of a new item in the compress bit-map, if there is one. -/
theorem incrCompressBitmap_eq (h : Ready dsw.rleHasCompression dsw.rleCompressBitmap) :
    ∃ bitmap, Grown dsw.rleHasCompression dsw.rleCompressBitmap bitmap ∧
      incrCompressBitmap cfg dsw = .ok { dsw with rleCompressBitmap := bitmap } := by
  unfold incrCompressBitmap
  by_cases hrle : dsw.rleHasCompression = true
  · obtain ⟨roomy, bitmap, hspace, hadd, hgrown⟩ := h.addOff cfg hrle
      (totalDatumCount dsw) (totalDatumCount dsw - 1)
    refine ⟨bitmap, hgrown, ?_⟩
    rw [if_pos hrle, makeCompressBitMapSpace, hspace]
    show (roomy.addBit false).bind _ = _
    rw [hadd]
    rfl
  · rw [if_neg hrle]
    exact ⟨dsw.rleCompressBitmap, h.unchanged hrle, rfl⟩

section

variable (hnull : Ready dsw.hasNull dsw.nullBitmap)
  (hcompress : Ready dsw.rleHasCompression dsw.rleCompressBitmap)

include hnull hcompress

/-- The bits of an item or a delta, behind which the last item is another one. -/
theorem incrBitmaps_eq (lastItem : LastItem) (lastItemSize : Nat) :
    ∃ nullBitmap compressBitmap nulled, Grown dsw.hasNull dsw.nullBitmap nullBitmap ∧
      Grown dsw.rleHasCompression dsw.rleCompressBitmap compressBitmap ∧
      incrNullBitmap cfg dsw = .ok nulled ∧
      incrCompressBitmap cfg { rleFinalizeIfRepeated nulled with
          rleLastItem := some lastItem
          rleLastItemSize := lastItemSize } =
        .ok { withItem dsw nullBitmap compressBitmap (some lastItem) lastItemSize with
          nth := dsw.nth } := by
  obtain ⟨nullBitmap, hnulled, hnullStep⟩ := incrNullBitmap_eq cfg hnull
  obtain ⟨_, _, -, heq⟩ := rleFinalizeIfRepeated_eq { dsw with
    nullBitmap := nullBitmap
    alwaysNullBitmapCount := dsw.alwaysNullBitmapCount + 1 }
  obtain ⟨compressBitmap, hcompressed, hstep⟩ := @incrCompressBitmap_eq cfg { dsw with
    nullBitmap := nullBitmap
    alwaysNullBitmapCount := dsw.alwaysNullBitmapCount + 1
    rleLastItem := some lastItem
    rleLastItemSize := lastItemSize
    rleLastItemIsRepeated := false
    rleRepeatcountsCurrentSize := rleCountsSize dsw } hcompress
  refine ⟨nullBitmap, compressBitmap, _, hnulled, hcompressed, hnullStep, ?_⟩
  rw [heq]
  exact hstep

/-- The bits of an item that is stored. -/
theorem denseIncrItem_eq
    (hplain : cfg.rleWantCompression = false →
      dsw.rleHasCompression = false ∧ dsw.rleLastItemIsRepeated = false)
    (rleLastItem : LastItem) (size : Nat) :
    ∃ nullBitmap compressBitmap lastItem lastItemSize, Grown dsw.hasNull dsw.nullBitmap nullBitmap ∧
      Grown dsw.rleHasCompression dsw.rleCompressBitmap compressBitmap ∧
      (cfg.rleWantCompression = true → lastItem = some rleLastItem ∧ lastItemSize = size) ∧
      denseIncrItem cfg dsw rleLastItem size =
        .ok { withItem dsw nullBitmap compressBitmap lastItem lastItemSize with
          physicalDatumCount := dsw.physicalDatumCount + 1 } := by
  unfold denseIncrItem
  cases hwant : cfg.rleWantCompression with
  | true =>
    obtain ⟨nullBitmap, compressBitmap, nulled, hnulled, hcompressed, hfirst, hsecond⟩ :=
      incrBitmaps_eq cfg hnull hcompress rleLastItem size
    refine ⟨nullBitmap, compressBitmap, _, _, hnulled, hcompressed, fun _ => ⟨rfl, rfl⟩, ?_⟩
    rw [hfirst]
    dsimp only [ok_bind]
    rw [if_pos rfl, hsecond]
    rfl
  | false =>
    obtain ⟨hrle, hrepeated⟩ := hplain hwant
    obtain ⟨nullBitmap, hnulled, hstep⟩ := incrNullBitmap_eq cfg hnull
    refine ⟨nullBitmap, dsw.rleCompressBitmap, dsw.rleLastItem, dsw.rleLastItemSize, hnulled,
      hcompress.unchanged (by simp [hrle]), nofun, ?_⟩
    rw [hstep]
    simp [ok_bind, withItem, rleCountsSize_of_not_repeated hrepeated, hrepeated]

end

/-- A repeat of the last item, which is the first repeat of the block or a later one. -/
theorem rleIncrRepeated_eq (hcompress : Ready dsw.rleHasCompression dsw.rleCompressBitmap)
    (hcount : dsw.rleHasCompression = true → dsw.rleCompressBitmap.bitCount = totalDatumCount dsw)
    (hrepeated : dsw.rleLastItemIsRepeated = true → dsw.rleHasCompression = true)
    (hitems : 0 < totalDatumCount dsw) :
    ∃ bitmap, Holds bitmap (totalDatumCount dsw)
        (dsw.rleCompressBitmap.bitOnCount + (!dsw.rleLastItemIsRepeated).toNat) ∧
      rleIncrRepeated cfg dsw = .ok (withRepeat dsw bitmap) := by
  unfold rleIncrRepeated withRepeat finalCounts pendingCount
  by_cases hlast : dsw.rleLastItemIsRepeated = true
  · have hrle := hrepeated hlast
    refine ⟨dsw.rleCompressBitmap, ⟨hcompress.toFits, hcount hrle, ?_⟩, ?_⟩
    · rw [hlast]
      rfl
    · simp [hlast, hrle, ok_bind, Bool.toNat_false]
  · simp only [hlast, Bool.not_false, Bool.toNat_true, Bool.false_eq_true, if_false]
    by_cases hrle : dsw.rleHasCompression = true
    · obtain ⟨bitmap, hset, hholds⟩ := set_fits hcompress.toFits (hcount hrle ▸ hitems)
      rw [hcount hrle] at hholds
      refine ⟨bitmap, hholds, ?_⟩
      rw [if_pos hrle, hset]
      simp [hrle, ok_bind]
    · obtain ⟨roomy, bitmap, hspace, hadd, hholds⟩ := hcompress.addBit cfg (totalDatumCount dsw)
        (totalDatumCount dsw - 1) (fun _ => sub_one_lt_of_lt hitems) true
      rw [if_neg hrle, Nat.sub_add_cancel hitems] at hholds
      refine ⟨bitmap, hholds, ?_⟩
      rw [if_neg hrle, makeCompressBitMapSpace, hspace]
      show (roomy.addBit true).bind _ = _
      rw [hadd]
      rfl

end

section

variable {cfg : WriteConfig} {dsw : BlockWrite} {metadata sz : Nat}
  {nullBitmap compressBitmap deltaBitmap bitmap : BitMapWrite} {bytes : List Byte}

/-- The bytes of the metadata once all repeat counts are final. -/
def formattedSize (dsw : BlockWrite) : Nat :=
  16 + (if dsw.hasNull then dsw.nullBitmap.size else 0) +
    (if dsw.rleHasCompression then 16 + dsw.rleCompressBitmap.size + rleCountsSize dsw else 0) +
    if dsw.deltaHasCompression then 12 + dsw.deltaBitmap.size + dsw.deltasCurrentSize else 0

/-- The items that are stored or are a delta. -/
def itemCount (dsw : BlockWrite) : Nat := dsw.physicalDatumCount + dsw.deltaBitmap.bitOnCount

/-- What holds between two Puts: the bit-maps fit, the counts and sizes are those of what they
count, and the block has room for what is in it. -/
structure Bounded (cfg : WriteConfig) (dsw : BlockWrite) : Prop where
  null : Ready dsw.hasNull dsw.nullBitmap
  compress : Ready dsw.rleHasCompression dsw.rleCompressBitmap
  delta : Ready dsw.deltaHasCompression dsw.deltaBitmap
  plain : cfg.rleWantCompression = false → dsw.rleHasCompression = false
  unrepeated : dsw.rleHasCompression = false → dsw.rleTotalRepeatItemsWritten = 0
  deltaWanted : dsw.deltaHasCompression = true →
    cfg.deltaWantCompression = true ∧ ¬ cfg.typeInfo.datumlen < 0
  repeated : dsw.rleLastItemIsRepeated = true →
    dsw.rleHasCompression = true ∧ dsw.rleRepeatcounts ≠ []
  last : cfg.rleWantCompression = true → dsw.rleLastItem ≠ none → 0 < itemCount dsw
  always : dsw.alwaysNullBitmapCount = dsw.nullBitmap.bitOnCount + itemCount dsw
  nullCount : dsw.hasNull = true → dsw.nullBitmap.bitCount = dsw.alwaysNullBitmapCount
  compressCount : dsw.rleHasCompression = true → dsw.rleCompressBitmap.bitCount = itemCount dsw
  deltaCount : dsw.deltaHasCompression = true → dsw.deltaBitmap.bitCount = itemCount dsw
  nth : dsw.nth + dsw.rleCompressBitmap.bitOnCount =
    dsw.nullBitmap.bitOnCount + itemCount dsw + dsw.rleTotalRepeatItemsWritten
  counts : rleCountsSize dsw = (dsw.rleRepeatcounts.map int32CompressSize).sum
  deltas : dsw.deltasCurrentSize = (dsw.deltas.map (int32CompressReserved3Size ·.1)).sum
  space : 8 ∣ cfg.maxDataBlockSize → 16 ≤ cfg.maxDataBlockSize →
    maxAlign (formattedSize dsw) + dsw.datumBuffer.length ≤ cfg.maxDataBlockSize

theorem totalDatumCount_eq (h : Ready dsw.deltaHasCompression dsw.deltaBitmap) :
    totalDatumCount dsw = itemCount dsw := by
  unfold totalDatumCount itemCount
  split
  case isTrue => rfl
  case isFalse hhas => rw [(h.unused (Bool.eq_false_iff.mpr hhas)).2, add_zero]

theorem Bounded.not_repeated (h : Bounded cfg dsw) (hwant : cfg.rleWantCompression = false) :
    dsw.rleHasCompression = false ∧ dsw.rleLastItemIsRepeated = false := by
  have hplain := h.plain hwant
  refine ⟨hplain, Bool.eq_false_iff.mpr fun hrepeated => ?_⟩
  rw [(h.repeated hrepeated).1] at hplain
  cases hplain

/-- Room that was checked for, with the metadata and the data that were checked for or less. -/
theorem denseFits_space (hfits : denseFits cfg dsw metadata sz = true)
    {size length : Nat} (hsize : size ≤ 16 + metadata)
    (hlength : length ≤ dsw.datumBuffer.length + sz) :
    maxAlign size + length ≤ cfg.maxDataBlockSize := by
  have hmono : maxAlign size ≤ maxAlign (16 + metadata) := ByteNumbers.alignUp_mono 8 hsize
  unfold denseFits at hfits
  rw [Bool.and_eq_true, decide_eq_true_iff, decide_eq_true_iff] at hfits
  omega

theorem denseRleSpace_eq (dsw : BlockWrite) (null : Bool) :
    denseRleSpace dsw null = if dsw.rleHasCompression then
      16 + (if null then dsw.rleCompressBitmap.size else dsw.rleCompressBitmap.nextSize) +
        rleCountsSize dsw
    else 0 := by
  simp [denseRleSpace, rleCountsSize, add_assoc]

theorem le_denseDeltaSpace (dsw : BlockWrite) :
    (if dsw.deltaHasCompression then 12 + dsw.deltaBitmap.size + dsw.deltasCurrentSize else 0) ≤
      denseDeltaSpace dsw := by
  unfold denseDeltaSpace BitMapWrite.nextSize BitMapWrite.size PackedBits.size
  split <;> omega

theorem encodedSize_le_four (bits value : Nat) : encodedSize bits value ≤ 4 := by
  unfold encodedSize
  repeat' split
  all_goals omega

section

variable (h : Bounded cfg dsw)

include h

theorem Bounded.finalize : Bounded cfg (rleFinalizeIfRepeated dsw) := by
  obtain ⟨lastItem, lastItemSize, hlast, heq⟩ := rleFinalizeIfRepeated_eq dsw
  rw [heq]
  exact { h with
    repeated := nofun
    last := fun hwant hne => by
      rcases hlast with hnone | hsame
      · exact absurd hnone hne
      · exact h.last hwant (hsame ▸ hne) }

theorem Bounded.finalizeRepeatCountSize (hrepeated : dsw.rleLastItemIsRepeated = true) :
    Bounded cfg (rleFinalizeRepeatCountSize dsw) := by
  have hfinal := h.finalize
  rw [rleFinalizeIfRepeated, if_pos hrepeated] at hfinal
  exact hfinal

section

variable (hnull : Grown dsw.hasNull dsw.nullBitmap nullBitmap)
  (hcompress : Grown dsw.rleHasCompression dsw.rleCompressBitmap compressBitmap)

include hnull hcompress

/-- An item or a delta is added to the block. -/
theorem Bounded.withItem {hasDelta : Bool} (hdelta : Ready hasDelta deltaBitmap)
    (hdeltaCount : hasDelta = true → deltaBitmap.bitCount = itemCount dsw + 1)
    (hwanted : hasDelta = true → cfg.deltaWantCompression = true ∧ ¬ cfg.typeInfo.datumlen < 0)
    {physical : Nat} (hitems : physical + deltaBitmap.bitOnCount = itemCount dsw + 1)
    {deltas : List (Nat × Bool)} {deltasSize : Nat}
    (hdeltas : deltasSize = (deltas.map (int32CompressReserved3Size ·.1)).sum)
    (lastItem : Option LastItem) (lastItemSize : Nat) (notFirst : Bool) (compareItem : BitVec 64)
    (hfits : denseFits cfg dsw metadata sz = true) (hbytes : bytes.length ≤ sz)
    (hmetadata : (if dsw.hasNull then PackedBits.size (dsw.alwaysNullBitmapCount + 1) else 0) +
      denseRleSpace dsw false + (if hasDelta then 12 + deltaBitmap.size + deltasSize else 0) ≤
        metadata) :
    Bounded cfg { DatumStream.withItem dsw nullBitmap compressBitmap lastItem lastItemSize with
      physicalDatumCount := physical
      datumBuffer := dsw.datumBuffer ++ bytes
      deltaHasCompression := hasDelta
      notFirstDatum := notFirst
      compareItem := compareItem
      deltaBitmap := deltaBitmap
      deltas := deltas
      deltasCurrentSize := deltasSize } where
  null := hnull.toReady
  compress := hcompress.toReady
  delta := hdelta
  plain := h.plain
  unrepeated := h.unrepeated
  deltaWanted := hwanted
  repeated := nofun
  last _ _ := lt_of_lt_of_eq (succ_pos _) hitems.symm
  always := by
    show dsw.alwaysNullBitmapCount + 1 = nullBitmap.bitOnCount + (physical + deltaBitmap.bitOnCount)
    rw [hitems, hnull.onCount, h.always, add_assoc]
  nullCount hhas := (hnull.count hhas).trans (congrArg (· + 1) (h.nullCount hhas))
  compressCount hhas := (hcompress.count hhas).trans
    ((congrArg (· + 1) (h.compressCount hhas)).trans hitems.symm)
  deltaCount hhas := (hdeltaCount hhas).trans hitems.symm
  nth := by
    have hnth := h.nth
    show dsw.nth + 1 + compressBitmap.bitOnCount = nullBitmap.bitOnCount +
      (physical + deltaBitmap.bitOnCount) + dsw.rleTotalRepeatItemsWritten
    rw [hitems, hnull.onCount, hcompress.onCount]
    omega
  counts := h.counts
  deltas := hdeltas
  space _ _ := by
    refine denseFits_space hfits ?_ (by
      rw [length_append]
      exact Nat.add_le_add_left hbytes _)
    have hnullSize : (if dsw.hasNull then nullBitmap.size else 0) =
        if dsw.hasNull then PackedBits.size (dsw.alwaysNullBitmapCount + 1) else 0 := by
      split
      case isTrue hhas => rw [BitMapWrite.size, hnull.count hhas, h.nullCount hhas]
      case isFalse => rfl
    have hrleSize : (if dsw.rleHasCompression then
        16 + compressBitmap.size + rleCountsSize dsw else 0) = denseRleSpace dsw false := by
      rw [denseRleSpace_eq]
      split
      case isTrue hhas =>
        rw [BitMapWrite.size, hcompress.count hhas]
        rfl
      case isFalse => rfl
    show 16 + (if dsw.hasNull then nullBitmap.size else 0) +
      (if dsw.rleHasCompression then 16 + compressBitmap.size + rleCountsSize dsw else 0) +
      (if hasDelta then 12 + deltaBitmap.size + deltasSize else 0) ≤ 16 + metadata
    omega

/-- An item is stored in the block. -/
theorem Bounded.stored (hdelta : Grown dsw.deltaHasCompression dsw.deltaBitmap deltaBitmap)
    (lastItem : Option LastItem) (lastItemSize : Nat) (compareItem : BitVec 64)
    (hspace : denseHasSpaceItem cfg dsw sz = true) (hbytes : bytes.length ≤ sz) :
    Bounded cfg { DatumStream.withItem dsw nullBitmap compressBitmap lastItem lastItemSize with
      physicalDatumCount := dsw.physicalDatumCount + 1
      datumBuffer := dsw.datumBuffer ++ bytes
      compareItem := compareItem
      deltaBitmap := deltaBitmap } := by
  refine h.withItem hnull hcompress hdelta.toReady
    (fun hhas => (hdelta.count hhas).trans (congrArg (· + 1) (h.deltaCount hhas))) h.deltaWanted
    ?_ h.deltas lastItem lastItemSize dsw.notFirstDatum compareItem hspace hbytes ?_
  · rw [hdelta.onCount, add_right_comm]
    rfl
  · refine Nat.add_le_add_left ?_ _
    unfold denseDeltaSpace
    split
    case isTrue hhas =>
      rw [BitMapWrite.size, hdelta.count hhas]
      exact le_refl _
    case isFalse => exact le_refl 0

end

end

theorem alignSize_dvd (align : Align) : align.size ∣ 8 := by
  cases align <;> decide

variable (h : Bounded cfg dsw)

include h

/-- The padding in front of an item, which stays if the item is not accepted. -/
theorem Bounded.padded (align : Align) :
    Bounded cfg { dsw with datumBuffer := attAlignZero align dsw.datumBuffer } :=
  { h with
    space := fun height hroom => by
      have hspace := h.space height hroom
      have hpos : 0 < align.size := by cases align <;> decide
      have hfree : align.size ∣ cfg.maxDataBlockSize - maxAlign (formattedSize dsw) :=
        Nat.dvd_trans (alignSize_dvd align) (Nat.dvd_sub height (ByteNumbers.dvd_alignUp 8 _))
      have haligned := ByteNumbers.alignUp_mono align.size (Nat.le_sub_of_add_le' hspace)
      rw [ByteNumbers.alignUp_of_dvd hpos hfree] at haligned
      have hlength : (attAlignZero align dsw.datumBuffer).length =
          ByteNumbers.alignUp align.size dsw.datumBuffer.length := by
        rw [attAlignZero, length_append, length_replicate]
        exact add_sub_of_le (ByteNumbers.le_alignUp hpos _)
      show maxAlign (formattedSize dsw) + (attAlignZero align dsw.datumBuffer).length ≤ _
      omega }

/-- A NULL is added to the block. -/
theorem Bounded.withNull (hholds : Holds bitmap ((if dsw.hasNull then dsw.nullBitmap.bitCount
      else dsw.alwaysNullBitmapCount) + 1) (dsw.nullBitmap.bitOnCount + 1))
    {lastItem : Option LastItem}
    (hlast : cfg.rleWantCompression = true → lastItem = none) (lastItemSize : Nat)
    (hspace : denseHasSpaceNull cfg dsw = true) :
    Bounded cfg { DatumStream.withItem dsw bitmap dsw.rleCompressBitmap lastItem lastItemSize with
      hasNull := true } := by
  have hcount : bitmap.bitCount = dsw.alwaysNullBitmapCount + 1 := by
    rw [hholds.count]
    split
    case isTrue hhas => rw [h.nullCount hhas]
    case isFalse => rfl
  exact { h with
    null := hholds.toFits.ready
    repeated := nofun
    last := fun hwant hne => absurd (hlast hwant) hne
    always := by
      show dsw.alwaysNullBitmapCount + 1 = bitmap.bitOnCount + itemCount dsw
      rw [hholds.onCount, h.always, add_right_comm]
    nullCount := fun _ => hcount
    nth := by
      have hnth := h.nth
      show dsw.nth + 1 + dsw.rleCompressBitmap.bitOnCount =
        bitmap.bitOnCount + itemCount dsw + dsw.rleTotalRepeatItemsWritten
      rw [hholds.onCount]
      omega
    space := fun _ _ => by
      refine denseFits_space hspace ?_ (le_refl dsw.datumBuffer.length)
      have hdelta := le_denseDeltaSpace dsw
      rw [denseRleSpace_eq, ← hcount]
      show 16 + PackedBits.size bitmap.bitCount +
        (if dsw.rleHasCompression then 16 + dsw.rleCompressBitmap.size + rleCountsSize dsw else 0) +
        (if dsw.deltaHasCompression then 12 + dsw.deltaBitmap.size + dsw.deltasCurrentSize else 0) ≤
        16 + (PackedBits.size bitmap.bitCount + (if dsw.rleHasCompression then
          16 + dsw.rleCompressBitmap.size + rleCountsSize dsw else 0) + denseDeltaSpace dsw)
      omega }

/-- The size that is accounted for is that of the final repeat counts. -/
theorem Bounded.sum_finalCounts :
    ((finalCounts dsw).map int32CompressSize).sum = dsw.rleRepeatcountsCurrentSize := by
  have hcounts := h.counts
  unfold rleCountsSize at hcounts
  unfold finalCounts
  split
  case isTrue hrepeated =>
    rcases eq_nil_or_concat' dsw.rleRepeatcounts with hnil | ⟨before, count, heq⟩
    · exact absurd hnil (h.repeated hrepeated).2
    · rw [if_pos hrepeated, heq] at hcounts
      rw [heq]
      simpa using hcounts.symm
  case isFalse hrepeated =>
    rw [if_neg hrepeated] at hcounts
    exact hcounts.symm

/-- A repeat of the last item is added to the block. -/
theorem Bounded.withRepeat
    (hwant : cfg.rleWantCompression = true) (hholds : Holds bitmap (itemCount dsw)
      (dsw.rleCompressBitmap.bitOnCount + (!dsw.rleLastItemIsRepeated).toNat))
    (hspace : denseHasSpaceRepeat cfg dsw (!dsw.rleLastItemIsRepeated) = true) :
    Bounded cfg (DatumStream.withRepeat dsw bitmap) := by
  have hsize : rleCountsSize (DatumStream.withRepeat dsw bitmap) =
      dsw.rleRepeatcountsCurrentSize + int32CompressSize (pendingCount dsw + 1) := by
    simp [rleCountsSize, DatumStream.withRepeat]
  exact { h with
    compress := hholds.toFits.ready
    plain := fun hplain => nomatch hwant.symm.trans hplain
    unrepeated := nofun
    repeated := fun _ => ⟨rfl, concat_ne_nil _ _⟩
    compressCount := fun _ => hholds.count
    nth := by
      have hnth := h.nth
      show dsw.nth + 1 + bitmap.bitOnCount = dsw.nullBitmap.bitOnCount + itemCount dsw +
        (dsw.rleTotalRepeatItemsWritten + (!dsw.rleLastItemIsRepeated).toNat + 1)
      rw [hholds.onCount]
      omega
    counts := by
      rw [hsize, ← h.sum_finalCounts]
      simp [DatumStream.withRepeat]
    space := fun _ _ => by
      refine denseFits_space hspace ?_ (le_refl dsw.datumBuffer.length)
      have hnull : (if dsw.hasNull then dsw.nullBitmap.size else 0) =
          if dsw.hasNull then PackedBits.size dsw.alwaysNullBitmapCount else 0 := by
        split
        case isTrue hhas => rw [BitMapWrite.size, h.nullCount hhas]
        case isFalse => rfl
      have hbitmap : bitmap.size ≤ if !dsw.rleLastItemIsRepeated then
          PackedBits.size (totalDatumCount dsw + 1) else PackedBits.size (totalDatumCount dsw) := by
        rw [BitMapWrite.size, hholds.count, totalDatumCount_eq h.delta]
        unfold PackedBits.size
        split <;> omega
      have hcount := encodedSize_le_four 6 (pendingCount dsw + 1)
      have hdelta := le_denseDeltaSpace dsw
      unfold formattedSize
      rw [hsize]
      show 16 + (if dsw.hasNull then dsw.nullBitmap.size else 0) + (16 + bitmap.size +
        (dsw.rleRepeatcountsCurrentSize + encodedSize 6 (pendingCount dsw + 1))) +
        (if dsw.deltaHasCompression then 12 + dsw.deltaBitmap.size + dsw.deltasCurrentSize else 0)
        ≤ _
      omega }

theorem Bounded.rleIncrRepeated (hwant : cfg.rleWantCompression = true)
    {last : LastItem} (hlast : dsw.rleLastItem = some last) :
    ∃ bitmap, Holds bitmap (itemCount dsw)
        (dsw.rleCompressBitmap.bitOnCount + (!dsw.rleLastItemIsRepeated).toNat) ∧
      DatumStream.rleIncrRepeated cfg dsw = .ok (DatumStream.withRepeat dsw bitmap) := by
  have hitems := h.last hwant (by simp [hlast])
  have htotal := totalDatumCount_eq h.delta
  rw [← htotal] at hitems ⊢
  exact rleIncrRepeated_eq cfg h.compress (fun hhas => (h.compressCount hhas).trans htotal.symm)
    (fun hrepeated => (h.repeated hrepeated).1) hitems

end

section

variable (cfg : WriteConfig) {dsw : BlockWrite}

/-- The errors that are reported: a store behind a buffer is none of them. -/
def Reported (failure : Failure) : Prop := failure ≠ .outOfBounds

/-- The first delta does not come right when the physical datums fill the bytes of the
delta bit-map's buffer or twice as many.  A buffer that is more than doubled gets
`initialMaxDatumPerBlock` bytes more than it needs. -/
def firstDeltaFits (dsw : BlockWrite) : Bool :=
  let bits := 8 * dsw.deltaBitmap.buffer.length
  dsw.deltaHasCompression || (dsw.physicalDatumCount ≠ bits ∧ dsw.physicalDatumCount ≠ 2 * bits ∧
    (cfg.initialMaxDatumPerBlock = 0 → 8 ∣ dsw.physicalDatumCount →
      dsw.physicalDatumCount < 2 * bits))

/-- The comparison with the last item leaves the deltas alone. -/
theorem compareLastItem_bounded (h : Bounded cfg dsw) (isEqual : LastItem → Except Failure Bool)
    (hequal : ∀ last, Yields Reported (isEqual last) fun _ => True) :
    Yields Reported (compareLastItem cfg dsw isEqual) fun compared =>
      Bounded cfg compared.2 ∧ firstDeltaFits cfg compared.2 = firstDeltaFits cfg dsw := by
  unfold compareLastItem
  split
  case isTrue hfull => exact ⟨h.finalizeRepeatCountSize hfull.1, rfl⟩
  case isFalse =>
    split
    case h_1 => exact ⟨h, rfl⟩
    case h_2 last hlast =>
      refine (hequal last).bind fun equal _ => ?_
      cases equal with
      | false =>
        refine ⟨h.finalize, ?_⟩
        unfold rleFinalizeIfRepeated
        split <;> rfl
      | true =>
        rw [if_pos rfl]
        split
        case isTrue => exact ⟨h, rfl⟩
        case isFalse hspace =>
          have hwant : cfg.rleWantCompression = true := by
            by_contra hplain
            rw [if_neg hplain] at hlast
            cases hlast
          rw [if_pos hwant] at hlast
          obtain ⟨bitmap, hholds, hstep⟩ := h.rleIncrRepeated hwant hlast
          rw [hstep]
          exact ⟨h.withRepeat hwant hholds (by simpa using hspace), rfl⟩

theorem fixedIsEqual_reported (dsw : BlockWrite) (d : Datum) (last : LastItem) :
    Yields Reported (fixedIsEqual cfg dsw d last) fun _ => True := by
  unfold fixedIsEqual
  dsimp only
  repeat' split
  all_goals first | exact True.intro | exact nofun

end

section

variable (cfg : WriteConfig) {dsw : BlockWrite}

theorem setCompareItem_cases (number : BitVec 64) :
    (∃ compareItem, setCompareItem cfg dsw number = .ok { dsw with compareItem := compareItem }) ∨
      ¬ (cfg.typeInfo.datumlen = 4 ∨ cfg.typeInfo.datumlen = 8) ∧
        setCompareItem cfg dsw number = .error (.unexpectedLength cfg.typeInfo.datumlen) := by
  unfold setCompareItem
  split
  case isTrue => exact .inl ⟨_, rfl⟩
  case isFalse hfour =>
    split
    case isTrue => exact .inl ⟨_, rfl⟩
    case isFalse height => exact .inr ⟨fun hlength => hlength.elim hfour height, rfl⟩

theorem deltaMaintain_eq (h : Ready dsw.deltaHasCompression dsw.deltaBitmap)
    (number : BitVec 64) : Yields Reported (deltaMaintain cfg dsw number) fun next =>
      ∃ bitmap compareItem, Grown dsw.deltaHasCompression dsw.deltaBitmap bitmap ∧
        next = { dsw with deltaBitmap := bitmap, compareItem := compareItem } := by
  unfold deltaMaintain
  rcases setCompareItem_cases cfg number with ⟨compareItem, hset⟩ | ⟨-, herror⟩
  · rw [hset]
    dsimp only [ok_bind]
    split
    case isFalse hhas => exact ⟨dsw.deltaBitmap, compareItem, h.unchanged hhas, rfl⟩
    case isTrue hhas =>
      obtain ⟨roomy, bitmap, hspace, hadd, hgrown⟩ := h.addOff cfg hhas
        dsw.physicalDatumCount dsw.physicalDatumCount
      rw [makeDeltaCompressBitMapSpace, hspace]
      dsimp only [ok_bind]
      rw [hadd]
      exact ⟨bitmap, compareItem, hgrown, rfl⟩
  · rw [herror]
    exact nofun

/-- When a buffer that was grown for some bits has room for one more. -/
theorem lt_grownLength_iff (count length : Nat) :
    count / 8 < grownLength cfg length (PackedBits.size count) ↔
      count ≠ 8 * length ∧ count ≠ 2 * (8 * length) ∧
        (cfg.initialMaxDatumPerBlock = 0 → 8 ∣ count → count < 2 * (8 * length)) := by
  unfold grownLength PackedBits.size
  split_ifs <;> omega

/-- The room for a delta: the delta bit-map has its bit then, or not. -/
theorem makeDeltaCompressBitMapSpace_fits (h : Bounded cfg dsw) :
    ∃ roomy, makeDeltaCompressBitMapSpace cfg dsw = .ok { dsw with deltaBitmap := roomy } ∧
      Holds roomy (itemCount dsw) dsw.deltaBitmap.bitOnCount ∧
      (firstDeltaFits cfg dsw = true ↔ roomy.bitCount / 8 < roomy.buffer.length) := by
  have hcount := h.deltaCount
  have hunused := h.delta.unused
  unfold firstDeltaFits makeDeltaCompressBitMapSpace
  cases hhas : dsw.deltaHasCompression with
  | true =>
    obtain ⟨roomy, hspace, hholds, hroom⟩ := makeBitMapSpace_started cfg h.delta.toFits
      dsw.physicalDatumCount dsw.physicalDatumCount
    rw [hcount hhas] at hholds
    rw [hspace]
    exact ⟨roomy, rfl, hholds, fun _ => hroom, fun _ => rfl⟩
  | false =>
    obtain ⟨roomy, hspace, hholds, hlength⟩ := makeBitMapSpace_first cfg h.delta.toFits
      (hunused hhas).1 (le_refl dsw.physicalDatumCount)
    have hitems : itemCount dsw = dsw.physicalDatumCount := by
      rw [itemCount, (hunused hhas).2, add_zero]
    rw [hspace, hitems]
    refine ⟨roomy, rfl, hholds, ?_⟩
    rw [Bool.false_or, decide_eq_true_iff, hholds.count, hlength, lt_grownLength_iff]

/-- A store behind a buffer is what happens if and only if something does not fit. -/
def OutOfBoundsUnless (fits : Bool) (failure : Failure) : Prop :=
  failure = .outOfBounds ↔ fits = false

theorem outOfBoundsUnless_true {α : Type} {step : Except Failure α} {post : α → Prop} {fits : Bool}
    (hfits : fits = true) (h : Yields Reported step post) :
    Yields (OutOfBoundsUnless fits) step fun value => post value ∧ fits = true := by
  cases step with
  | ok value => exact ⟨h, hfits⟩
  | error failure =>
    exact ⟨fun hout => absurd hout h, fun hfalse => by rw [hfits] at hfalse; cases hfalse⟩

/-- A delta is added if its bit-map has room; if not it is written behind the buffer. -/
theorem deltaAdd_spec (h : Bounded cfg dsw)
    (hwanted : cfg.deltaWantCompression = true ∧ ¬ cfg.typeInfo.datumlen < 0)
    (hspace : denseHasSpaceDelta cfg dsw = true) (delta : Nat) (sign : Bool) :
    Yields (OutOfBoundsUnless (firstDeltaFits cfg dsw)) (deltaAdd cfg dsw delta sign) fun next =>
      Bounded cfg next ∧ firstDeltaFits cfg dsw = true := by
  obtain ⟨roomy, hmade, hroomy, hroom⟩ := makeDeltaCompressBitMapSpace_fits cfg h
  obtain ⟨nullBitmap, compressBitmap, nulled, hnull, hcompress, hfirst, hsecond⟩ :=
    @incrBitmaps_eq cfg { dsw with deltaBitmap := roomy, deltaHasCompression := true } h.null
      h.compress .compareItem cfg.typeInfo.datumlen.toNat
  unfold deltaAdd
  rw [hmade]
  dsimp only [bind, Except.bind]
  rw [hfirst]
  dsimp only
  rw [hsecond]
  show Yields _ ((roomy.addBit true).bind _) _
  by_cases hinside : roomy.bitCount / 8 < roomy.buffer.length
  · obtain ⟨bitmap, hadd, hholds⟩ := addBit_fits hroomy.toFits hinside true
    rw [hroomy.count, hroomy.onCount] at hholds
    rw [hadd]
    refine ⟨?_, hroom.mpr hinside⟩
    have hsize := encodedSize_le_four 5 delta
    have hbounded := h.withItem hnull hcompress hholds.toFits.ready (fun _ => hholds.count)
      (fun _ => hwanted) (congrArg (dsw.physicalDatumCount + ·) hholds.onCount)
      (show dsw.deltasCurrentSize + int32CompressReserved3Size delta =
        ((dsw.deltas ++ [(delta, sign)]).map (int32CompressReserved3Size ·.1)).sum by
          rw [h.deltas]
          simp) (some .compareItem) cfg.typeInfo.datumlen.toNat dsw.notFirstDatum dsw.compareItem
      hspace (le_refl ([] : List Byte).length) (by
        rw [totalDatumCount_eq h.delta, BitMapWrite.size, hholds.count, if_pos rfl]
        unfold int32CompressReserved3Size
        omega)
    rw [append_nil] at hbounded
    exact hbounded
  · rw [addBit_outOfBounds hroomy.toFits (Nat.le_of_not_lt hinside)]
    exact ⟨fun _ => Bool.eq_false_iff.mpr fun htrue => hinside (hroom.mp htrue), fun _ => rfl⟩

/-- Whether `performDeltaCompression` comes to add a delta. -/
def addsDelta (dsw : BlockWrite) (number : BitVec 64) : Bool :=
  dsw.notFirstDatum && match deltaOf cfg dsw.compareItem number with
    | .ok (delta, _) => decide (0 ≤ delta ∧ delta ≤ maxDeltaSupportedDeltaCompression) &&
        denseHasSpaceDelta cfg dsw
    | .error _ => false

theorem deltaOf_reported (compareItem number : BitVec 64) :
    Yields Reported (deltaOf cfg compareItem number) fun _ =>
      cfg.typeInfo.datumlen = 4 ∨ cfg.typeInfo.datumlen = 8 := by
  unfold deltaOf
  dsimp only
  split
  case isTrue hfour => split <;> exact .inl hfour
  case isFalse =>
    split
    case isTrue height => split <;> exact .inr height
    case isFalse => exact nofun

theorem performDeltaCompression_spec (h : Bounded cfg dsw)
    (hwanted : cfg.deltaWantCompression = true ∧ ¬ cfg.typeInfo.datumlen < 0) (number : BitVec 64) :
    Yields (OutOfBoundsUnless (!addsDelta cfg dsw number || firstDeltaFits cfg dsw))
      (performDeltaCompression cfg dsw number) fun performed =>
        Bounded cfg performed.2 ∧ (!addsDelta cfg dsw number || firstDeltaFits cfg dsw) = true := by
  unfold performDeltaCompression addsDelta
  have hreported := deltaOf_reported cfg dsw.compareItem number
  cases hfirst : dsw.notFirstDatum with
  | false => exact ⟨{ h with null := h.null }, rfl⟩
  | true =>
    generalize deltaOf cfg dsw.compareItem number = outcome at hreported ⊢
    cases outcome with
    | error failure => exact ⟨fun hout => absurd hout hreported, nofun⟩
    | ok amount =>
      obtain ⟨delta, positive⟩ := amount
      dsimp only [ok_bind]
      by_cases hrange : delta < 0 ∨ maxDeltaSupportedDeltaCompression < delta
      · have hout : ¬ (0 ≤ delta ∧ delta ≤ maxDeltaSupportedDeltaCompression) := by omega
        rw [if_pos hrange, decide_eq_false hout]
        exact ⟨h, rfl⟩
      · have hin : 0 ≤ delta ∧ delta ≤ maxDeltaSupportedDeltaCompression := by omega
        rw [if_neg hrange, decide_eq_true hin]
        cases hspace : denseHasSpaceDelta cfg dsw with
        | false => exact ⟨h, rfl⟩
        | true =>
          rcases setCompareItem_cases cfg number with ⟨compareItem, hset⟩ | ⟨hlength, -⟩
          · have hnext : Bounded cfg { dsw with compareItem := compareItem } :=
              { h with null := h.null }
            have hadd := deltaAdd_spec cfg hnext hwanted hspace delta.toNat positive
            rw [hset]
            exact hadd.bind fun final hfinal => hfinal
          · exact absurd hreported hlength

end

section

variable (cfg : WriteConfig) {dsw : BlockWrite}

/-- No bit of the row is written behind its buffer. -/
def putFits (dsw : BlockWrite) : Option Datum → Bool
  | none => true
  | some d =>
    if cfg.typeInfo.datumlen < 0 || !cfg.deltaWantCompression then true
    else
      match compareLastItem cfg dsw (fixedIsEqual cfg dsw d) with
      | .ok (none, next) => !addsDelta cfg next d.getValue || firstDeltaFits cfg dsw
      | _ => true

theorem putFixedLength_eq (dsw : BlockWrite) (d : Datum) :
    Yields Reported (putFixedLength cfg dsw d) fun next => ∃ bytes : List Byte,
      bytes.length ≤ cfg.typeInfo.datumlen.toNat ∧
        next = { dsw with datumBuffer := dsw.datumBuffer ++ bytes } := by
  unfold putFixedLength
  dsimp only
  split
  · exact ⟨_, length_take_le _ _, rfl⟩
  · split
    · exact ⟨_, le_of_eq (ByteNumbers.length_leBytes _ _), rfl⟩
    · exact nofun

theorem putFixedItem_bounded (h : Bounded cfg dsw) (d : Datum) :
    Yields Reported (putFixedItem cfg dsw d) fun put => Bounded cfg put.2 := by
  unfold putFixedItem
  split
  case isTrue => exact h
  case isFalse hspace =>
    rw [Bool.not_eq_true, Bool.not_eq_false'] at hspace
    refine (putFixedLength_eq cfg dsw d).bind ?_
    rintro placed ⟨bytes, hbytes, rfl⟩
    obtain ⟨nullBitmap, compressBitmap, lastItem, lastItemSize, hnull, hcompress, -, hstep⟩ :=
      @denseIncrItem_eq cfg { dsw with datumBuffer := dsw.datumBuffer ++ bytes } h.null h.compress
        h.not_repeated (.stored dsw.datumBuffer.length) cfg.typeInfo.datumlen.toNat
    rw [hstep]
    dsimp only [ok_bind]
    split
    case isTrue =>
      refine Yields.bind (deltaMaintain_eq cfg ?_ d.getValue) ?_
      · exact h.delta
      rintro next ⟨deltaBitmap, compareItem, hdelta, rfl⟩
      exact h.stored hnull hcompress hdelta lastItem lastItemSize compareItem hspace hbytes
    case isFalse hwant =>
      exact h.stored hnull hcompress
        (h.delta.unchanged fun hhas => hwant (h.deltaWanted hhas).1) lastItem lastItemSize
        dsw.compareItem hspace hbytes

theorem putDenseVariable_bounded (h : Bounded cfg dsw) (d : Datum)
    (hvariable : cfg.typeInfo.datumlen < 0) :
    Yields Reported (putDenseVariable cfg dsw d) fun put => Bounded cfg put.2 := by
  refine (compareLastItem_bounded cfg h _ fun last => ?_).bind fun compared ⟨hcompared, _⟩ => ?_
  · exact True.intro
  obtain ⟨done, next⟩ := compared
  cases done with
  | some result => exact hcompared
  | none =>
    dsimp only
    generalize variableItem cfg.typeInfo _ = item
    have hplaced : Bounded cfg (if item.2 then { next with
        datumBuffer := attAlignZero cfg.typeInfo.align next.datumBuffer } else next) := by
      split
      · exact hcompared.padded cfg.typeInfo.align
      · exact hcompared
    generalize (if item.2 = true then _ else next) = placed at hplaced ⊢
    split
    case isTrue => exact hplaced
    case isFalse hspace =>
      rw [Bool.not_eq_true, Bool.not_eq_false'] at hspace
      generalize (if cfg.typeInfo.datumlen = -1 then _ else _) = stored
      obtain ⟨nullBitmap, compressBitmap, lastItem, lastItemSize, hnull, hcompress, -, hstep⟩ :=
        @denseIncrItem_eq cfg { placed with datumBuffer := placed.datumBuffer ++ item.1 }
          hplaced.null hplaced.compress hplaced.not_repeated (.stored stored.1) stored.2
      rw [hstep]
      exact hplaced.stored hnull hcompress
        (hplaced.delta.unchanged fun hhas => (hplaced.deltaWanted hhas).2 hvariable) lastItem
        lastItemSize placed.compareItem hspace (le_refl _)

theorem putDenseFixed_spec (h : Bounded cfg dsw) (d : Datum)
    (hlength : ¬ cfg.typeInfo.datumlen < 0) :
    Yields (OutOfBoundsUnless (putFits cfg dsw (some d))) (putDenseFixed cfg dsw d) fun put =>
      Bounded cfg put.2 ∧ putFits cfg dsw (some d) = true := by
  have hcompare := compareLastItem_bounded cfg h _ (fixedIsEqual_reported cfg dsw d)
  unfold putDenseFixed putFits
  dsimp only
  generalize compareLastItem cfg dsw (fixedIsEqual cfg dsw d) = outcome at hcompare ⊢
  cases hwant : cfg.deltaWantCompression with
  | false =>
    refine outOfBoundsUnless_true (by simp) ?_
    refine hcompare.bind fun compared ⟨hcompared, _⟩ => ?_
    obtain ⟨done, next⟩ := compared
    cases done with
    | some result => exact hcompared
    | none => exact putFixedItem_bounded cfg hcompared d
  | true =>
    rw [decide_eq_false hlength, Bool.not_true, Bool.false_or, if_neg Bool.false_ne_true]
    cases outcome with
    | error failure => exact outOfBoundsUnless_true rfl hcompare
    | ok compared =>
      obtain ⟨done, next⟩ := compared
      obtain ⟨hbounded, hfits⟩ := hcompare
      cases done with
      | some result => exact ⟨hbounded, rfl⟩
      | none =>
        dsimp only at hfits ⊢
        rw [← hfits]
        refine (performDeltaCompression_spec cfg hbounded ⟨hwant, hlength⟩ d.getValue).bind
          fun ⟨status, performed⟩ ⟨hperformed, hroom⟩ => outOfBoundsUnless_true hroom ?_
        cases status with
        | ok | error => exact hperformed
        | notApplied => exact putFixedItem_bounded cfg hperformed d

theorem put_eq_putDense (hversion : cfg.version ≠ .original) (row : Option Datum) :
    put cfg dsw row = putDense cfg dsw row := by
  unfold put
  cases hkind : cfg.version with
  | original => exact absurd hkind hversion
  | dense => rfl
  | denseEnhanced => rfl

/-- A Put writes behind a buffer if and only if it adds a first delta without room. -/
theorem put_spec (hversion : cfg.version ≠ .original) (h : Bounded cfg dsw) (row : Option Datum) :
    Yields (OutOfBoundsUnless (putFits cfg dsw row)) (put cfg dsw row) fun result =>
      Bounded cfg result.2 ∧ putFits cfg dsw row = true := by
  rw [put_eq_putDense cfg hversion]
  unfold putDense
  cases row with
  | none =>
    refine outOfBoundsUnless_true rfl ?_
    dsimp only
    split
    case isTrue => exact h
    case isFalse hspace =>
      obtain ⟨bitmap, lastItem, lastItemSize, hstep, hholds, hlast⟩ :=
        denseIncrNull_eq cfg h.null fun hwant => (h.not_repeated hwant).2
      rw [← bind_assoc, hstep]
      exact h.withNull hholds hlast lastItemSize (by simpa using hspace)
  | some d =>
    dsimp only
    split
    case isTrue hvariable =>
      refine outOfBoundsUnless_true ?_ (putDenseVariable_bounded cfg h d hvariable)
      unfold putFits
      rw [decide_eq_true hvariable]
      rfl
    case isFalse hfixed => exact putDenseFixed_spec cfg h d hfixed

/-- The writer after these rows were put. -/
def puts (dsw : BlockWrite) (rows : List (Option Datum)) : Except Failure BlockWrite :=
  rows.foldlM (fun dsw row => (put cfg dsw row).map Prod.snd) dsw

/-- A writer without repeats in its block. -/
structure RleIdle (dsw : BlockWrite) : Prop where
  has : dsw.rleHasCompression = false
  repeated : dsw.rleLastItemIsRepeated = false
  total : dsw.rleTotalRepeatItemsWritten = 0
  bitmap : Ready false dsw.rleCompressBitmap
  counts : rleCountsSize dsw = (dsw.rleRepeatcounts.map int32CompressSize).sum

/-- A writer without deltas in its block. -/
structure DeltaIdle (dsw : BlockWrite) : Prop where
  has : dsw.deltaHasCompression = false
  bitmap : Ready false dsw.deltaBitmap
  sizes : dsw.deltasCurrentSize = (dsw.deltas.map (int32CompressReserved3Size ·.1)).sum

theorem init_ready (buffer : List Byte) : Ready false (.init buffer) :=
  ⟨init_fits buffer, fun _ => ⟨rfl, rfl⟩⟩

/-- The start of a block; repeats and deltas that are not wanted stay as they are. -/
theorem getReady_bounded (hversion : cfg.version ≠ .original)
    (hrle : cfg.rleWantCompression = false → RleIdle dsw)
    (hdelta : cfg.deltaWantCompression = false → DeltaIdle dsw) :
    Bounded cfg (getReady cfg dsw) := by
  have hrleNext : RleIdle (getReady cfg dsw) ∧
      (cfg.rleWantCompression = true → (getReady cfg dsw).rleLastItem = none) := by
    unfold getReady
    rw [if_neg hversion]
    cases hwant : cfg.rleWantCompression <;> cases cfg.deltaWantCompression
    all_goals first
      | exact ⟨⟨rfl, rfl, rfl, init_ready _, rfl⟩, fun _ => rfl⟩
      | exact ⟨{ hrle hwant with has := (hrle hwant).has }, nofun⟩
  have hdeltaNext : DeltaIdle (getReady cfg dsw) := by
    unfold getReady
    rw [if_neg hversion]
    cases hwant : cfg.deltaWantCompression <;> cases cfg.rleWantCompression
    all_goals first
      | exact ⟨rfl, init_ready _, rfl⟩
      | exact { hdelta hwant with has := (hdelta hwant).has }
  have hstart : (getReady cfg dsw).nth = 0 ∧ (getReady cfg dsw).physicalDatumCount = 0 ∧
      (getReady cfg dsw).alwaysNullBitmapCount = 0 ∧ (getReady cfg dsw).hasNull = false ∧
      (getReady cfg dsw).nullBitmap = .init dsw.nullBitmap.buffer ∧
      (getReady cfg dsw).datumBuffer = [] := by
    unfold getReady
    repeat' split
    all_goals exact ⟨rfl, rfl, rfl, rfl, rfl, rfl⟩
  generalize getReady cfg dsw = next at hrleNext hdeltaNext hstart
  obtain ⟨hnth, hphysical, halways, hnull, hnullMap, hbuffer⟩ := hstart
  obtain ⟨hrleNext, hlast⟩ := hrleNext
  have hitems : itemCount next = 0 := by
    rw [itemCount, hphysical, (hdeltaNext.bitmap.unused rfl).2]
  exact
    { null := by
        rw [hnull, hnullMap]
        exact init_ready _
      compress := by
        rw [hrleNext.has]
        exact hrleNext.bitmap
      delta := by
        rw [hdeltaNext.has]
        exact hdeltaNext.bitmap
      plain := fun _ => hrleNext.has
      unrepeated := fun _ => hrleNext.total
      deltaWanted := fun hhas => nomatch hdeltaNext.has.symm.trans hhas
      repeated := fun hrepeated => nomatch hrleNext.repeated.symm.trans hrepeated
      last := fun hwant hne => absurd (hlast hwant) hne
      always := by
        rw [halways, hnullMap, hitems]
        rfl
      nullCount := fun hhas => nomatch hnull.symm.trans hhas
      compressCount := fun hhas => nomatch hrleNext.has.symm.trans hhas
      deltaCount := fun hhas => nomatch hdeltaNext.has.symm.trans hhas
      nth := by
        rw [hnth, hnullMap, hitems, hrleNext.total, (hrleNext.bitmap.unused rfl).2]
        rfl
      counts := hrleNext.counts
      deltas := hdeltaNext.sizes
      space := fun _ hroom => by
        rw [formattedSize, hnull, hrleNext.has, hdeltaNext.has, hbuffer]
        simpa [maxAlign, ByteNumbers.alignUp] using hroom }

theorem init_bounded (hversion : cfg.version ≠ .original) : Bounded cfg (init cfg) :=
  getReady_bounded cfg hversion (fun _ => ⟨rfl, rfl, rfl, init_ready _, rfl⟩)
    fun _ => ⟨rfl, init_ready _, rfl⟩

/-- Each row fits when its turn comes. -/
def PutsFit (dsw : BlockWrite) (rows : List (Option Datum)) : Prop :=
  ∀ before row after next, rows = before ++ row :: after → puts cfg dsw before = .ok next →
    putFits cfg next row = true

theorem puts_cons (dsw : BlockWrite) (row : Option Datum) (rows : List (Option Datum)) :
    puts cfg dsw (row :: rows) = put cfg dsw row >>= fun result => puts cfg result.2 rows := by
  rw [puts, foldlM_cons]
  cases put cfg dsw row <;> rfl

theorem putsFit_cons {row : Option Datum} {rows : List (Option Datum)} :
    PutsFit cfg dsw (row :: rows) ↔ putFits cfg dsw row = true ∧
      ∀ result, put cfg dsw row = .ok result → PutsFit cfg result.2 rows := by
  constructor
  · intro h
    refine ⟨h [] row rows dsw rfl rfl, fun result hput before other after next hsplit hbefore => ?_⟩
    refine h (row :: before) other after next (by rw [hsplit]; rfl) ?_
    rw [puts_cons, hput]
    exact hbefore
  · rintro ⟨hrow, hrows⟩ before other after next hsplit hbefore
    cases before with
    | nil =>
      cases hsplit
      cases hbefore
      exact hrow
    | cons first before =>
      cases hsplit
      rw [puts_cons] at hbefore
      obtain ⟨result, hput, hbefore⟩ := bind_eq_ok.mp hbefore
      exact hrows result hput before other after next rfl hbefore

theorem puts_ne_outOfBounds (hversion : cfg.version ≠ .original) (rows : List (Option Datum)) :
    ∀ {dsw : BlockWrite}, Bounded cfg dsw →
      (puts cfg dsw rows ≠ .error .outOfBounds ↔ PutsFit cfg dsw rows) := by
  induction rows with
  | nil =>
    intro dsw h
    refine ⟨fun _ before row after _ hsplit => ?_, fun _ => nofun⟩
    cases before <;> cases hsplit
  | cons row rows ih =>
    intro dsw h
    have hput := put_spec cfg hversion h row
    rw [puts_cons, putsFit_cons]
    generalize put cfg dsw row = outcome at hput ⊢
    cases outcome with
    | error failure =>
      have hiff : failure ≠ .outOfBounds ↔ putFits cfg dsw row = true :=
        (not_congr hput).trans (Bool.not_eq_false _).to_iff
      constructor
      · intro hne
        exact ⟨hiff.mp fun hout => hne (hout ▸ rfl), nofun⟩
      · rintro ⟨hfits, -⟩ hout
        exact hiff.mpr hfits (Except.error.inj hout)
    | ok result =>
      refine (ih hput.1).trans ⟨fun hrows => ⟨hput.2, ?_⟩, fun hall => hall.2 result rfl⟩
      rintro other hother
      cases hother
      exact hrows

/-- No Put of a new dense block writes behind the buffer of a bit-map if and only if no first
delta comes when the physical datums fill the buffer of the delta bit-map or its double. -/
theorem densePuts_inBounds_iff (hversion : cfg.version ≠ .original) (rows : List (Option Datum)) :
    puts cfg (init cfg) rows ≠ .error .outOfBounds ↔ PutsFit cfg (init cfg) rows :=
  puts_ne_outOfBounds cfg hversion rows (init_bounded cfg hversion)

end

namespace DatumStreamWitness

/-- An eight byte integer column with RLE_TYPE and deltas. -/
def bigintColumn : WriteConfig where
  typeInfo := ⟨8, 20, .double, true⟩
  version := .denseEnhanced
  rleWantCompression := true
  deltaWantCompression := true
  initialMaxDatumPerBlock := 16383
  maxDatumPerBlock := 16383
  maxDataBlockSize := 32768
  useSmallInitialBuffers := true
  palloc size := List.replicate size 0
  length_palloc _ := length_replicate
  detoast memory := memory

/-- Values that are too far from one another for a delta. -/
def farApart (count : Nat) : List (Option Datum) :=
  (List.range count).map fun index => some (.value (BitVec.ofNat 64 (index % 2 * 2 ^ 40)))

theorem shortBlock_inBounds :
    bigintColumn.version ≠ .original ∧ PutsFit bigintColumn (init bigintColumn)
      [none, some (.value 5), some (.value 6), some (.value 6)] :=
  ⟨by decide, (densePuts_inBounds_iff bigintColumn (by decide) _).mp (by decide +kernel)⟩

/-- The delta bit-map has 8 bytes, and the first delta is the 65th item. -/
theorem firstDelta_outOfBounds :
    puts bigintColumn (init bigintColumn) (farApart 64 ++ [some (.value (2 ^ 40 + 1))]) =
      .error .outOfBounds := by
  decide +kernel

end DatumStreamWitness

end Greenplum.DatumStream
