/-
What the check of a whole VarBlock guarantees to its readers.  The loop over the offsets never
fetches them, so an accepted block may have any offsets behind the first.
-/
import Greenplum.VarBlockRoundTrip

namespace Greenplum.VarBlock

open Nat

variable (buffer : List Byte)

/-- The range of an item lies in the item area of its block. -/
def InItemArea (item : Nat × Int) : Prop :=
  0 ≤ item.2 ∧ headerLen ≤ item.1 ∧ item.1 + item.2 ≤ headerLen + getItemLenSum buffer

instance (buffer : List Byte) (item : Nat × Int) : Decidable (InItemArea buffer item) :=
  inferInstanceAs (Decidable (_ ∧ _ ∧ _))

/-- The pointers and lengths that the sequential reader gives, at most `fuel` of them. -/
def readerRanges : Nat → VarBlockReader → List (Nat × Int)
  | 0, _ => []
  | fuel + 1, reader =>
    match readerGetNextItemPtr reader with
    | none => []
    | some (item, next) => item :: readerRanges fuel next

/-- An entry of the offset array. -/
def offsetAt (itemIndex : Nat) : Nat :=
  getOffset buffer (offsetToOffsetArray (getItemLenSum buffer)).toNat itemIndex

/-- Where an item lies by the offsets. -/
def itemRange (itemIndex : Nat) : Nat × Int :=
  (offsetAt buffer itemIndex, if itemIndex + 1 < getItemCount buffer then
      (offsetAt buffer (itemIndex + 1) : Int) - offsetAt buffer itemIndex
    else headerLen + getItemLenSum buffer - (offsetAt buffer itemIndex : Int))

/-- What the loop over the offsets says that it checks. -/
def OffsetsInOrder : Prop :=
  ∀ index, index + 1 < getItemCount buffer → offsetAt buffer index ≤ offsetAt buffer (index + 1) ∧
      offsetAt buffer (index + 1) ≤ headerLen + getItemLenSum buffer

variable {buffer : List Byte} {bufferLen : Nat}

theorem isValid_first (hvalid : isValid buffer bufferLen = .ok)
    (hsome : 0 < getItemCount buffer) : offsetAt buffer 0 = headerLen := by
  unfold isValid at hvalid
  dsimp only at hvalid
  rw [if_neg (pos_iff_ne_zero.mp hsome)] at hvalid
  split_ifs at hvalid with hheader hsum harray hpad hcount hfirst
  · exact absurd hvalid hheader
  all_goals exact of_not_not hfirst

/-- The item area of an accepted block ends in front of its offset array. -/
theorem isValid_itemArea (hvalid : isValid buffer bufferLen = .ok) :
    headerLen + getItemLenSum buffer ≤ bufferLen := by
  have hsum : getItemLenSum buffer < 2 ^ 24 := by
    rw [getItemLenSum, BitVec.toNat_and]
    exact and_lt_two_pow _ (by decide)
  have harray : headerLen + getItemLenSum buffer ≤
      (offsetToOffsetArray (getItemLenSum buffer)).toNat := by
    have hround := le_evenLen (getItemLenSum buffer)
    rw [offsetToOffsetArray, roundEven_eq rfl (lt_trans (succ_lt_succ hsum) (by decide))]
    omega
  unfold isValid at hvalid
  dsimp only at hvalid
  split_ifs at hvalid with hheader _ hlen
  · exact absurd hvalid hheader
  all_goals exact le_trans harray (not_lt.mp hlen)

theorem OffsetsInOrder.header_le (h : OffsetsInOrder buffer)
    (hfirst : 0 < getItemCount buffer → offsetAt buffer 0 = headerLen) {index : Nat} :
    index < getItemCount buffer → headerLen ≤ offsetAt buffer index := by
  induction index with
  | zero => exact fun hsome => le_of_eq (hfirst hsome).symm
  | succ index ih =>
    intro hindex
    exact le_trans (ih (lt_of_succ_lt hindex)) (h index hindex).1

theorem itemRange_of_lt {index : Nat} (hindex : index + 1 < getItemCount buffer) :
    (itemRange buffer index).2 = (offsetAt buffer (index + 1) : Int) - offsetAt buffer index :=
  if_pos hindex

theorem OffsetsInOrder.inItemArea (h : OffsetsInOrder buffer)
    (hfirst : 0 < getItemCount buffer → offsetAt buffer 0 = headerLen) {index : Nat}
    (hindex : index < getItemCount buffer) : InItemArea buffer (itemRange buffer index) := by
  have hheader := h.header_le hfirst hindex
  unfold InItemArea itemRange
  split_ifs with hmore
  · obtain ⟨horder, hend⟩ := h index hmore
    omega
  · have hend : offsetAt buffer index ≤ headerLen + getItemLenSum buffer := by
      cases index with
      | zero => exact le_trans (le_of_eq (hfirst hindex)) (le_add_right _ _)
      | succ index => exact (h index hindex).2
    omega

/-- A reader of the block. -/
structure Reads (buffer : List Byte) (reader : VarBlockReader) : Prop where
  buffer_eq : reader.buffer = buffer
  array_eq : reader.offsetToOffsetArray = (offsetToOffsetArray (getItemLenSum buffer)).toNat

variable {reader : VarBlockReader}

theorem Reads.getItemPtrAndLen_eq (h : Reads buffer reader) (index : Nat) :
    getItemPtrAndLen reader index = itemRange buffer index := by
  have hcount : (index : Int) < getItemCount buffer - 1 ↔ index + 1 < getItemCount buffer := by
    omega
  unfold getItemPtrAndLen getItemLen itemRange offsetAt
  rw [h.buffer_eq, h.array_eq]
  simp [hcount]

/-- The sequential reader stands at the offset of its index, whatever the offsets are. -/
theorem Reads.readerRanges_eq (fuel : Nat) :
    ∀ {reader : VarBlockReader}, Reads buffer reader → (reader.nextIndex < getItemCount buffer →
        reader.nextItemPtr = offsetAt buffer reader.nextIndex) →
      reader.nextIndex + fuel = getItemCount buffer → readerRanges fuel reader =
        (List.range' reader.nextIndex fuel).map (itemRange buffer) := by
  induction fuel with
  | zero => exact fun _ _ _ => rfl
  | succ fuel ih =>
    intro reader h hptr hfuel
    have hmore : ¬ getItemCount reader.buffer ≤ reader.nextIndex := by
      rw [h.buffer_eq]
      omega
    have hptr := hptr (by omega)
    have hlen : getItemLen reader reader.nextIndex = (itemRange buffer reader.nextIndex).2 :=
      congrArg Prod.snd (h.getItemPtrAndLen_eq reader.nextIndex)
    have hnext : reader.nextIndex + 1 < getItemCount buffer →
        (reader.nextItemPtr + getItemLen reader reader.nextIndex).toNat =
          offsetAt buffer (reader.nextIndex + 1) := by
      intro hlt
      rw [hlen, itemRange_of_lt hlt, hptr]
      omega
    rw [List.range'_succ, List.map_cons, readerRanges, readerGetNextItemPtr, if_neg hmore]
    dsimp only
    have hrest : Reads buffer { reader with
        nextItemPtr := (reader.nextItemPtr + getItemLen reader reader.nextIndex).toNat
        nextIndex := reader.nextIndex + 1 } := ⟨h.buffer_eq, h.array_eq⟩
    rw [ih hrest hnext ((add_right_comm _ _ _).trans hfuel), hptr, hlen]
    rfl

/-- The item area of an accepted block lies in the bytes that were checked, and both readers keep
to it exactly if the offsets are what the check is meant to enforce. -/
theorem acceptedBlock_safe_iff (buffer : List Byte) (bufferLen : Nat)
    (hvalid : isValid buffer bufferLen = .ok) : headerLen + getItemLenSum buffer ≤ bufferLen ∧
    (((∀ index < getItemCount buffer,
        InItemArea buffer (getItemPtrAndLen (readerInit buffer bufferLen) index)) ∧
      ∀ item ∈ readerRanges (getItemCount buffer) (readerInit buffer bufferLen),
        InItemArea buffer item) ↔ OffsetsInOrder buffer) := by
  refine ⟨isValid_itemArea hvalid, ?_⟩
  have hfirst := isValid_first hvalid
  have hreads : Reads buffer (readerInit buffer bufferLen) := ⟨rfl, by rw [readerInit]⟩
  have hranges := hreads.readerRanges_eq (getItemCount buffer)
    (fun hsome => (hfirst hsome).symm) (zero_add _)
  simp only [hreads.getItemPtrAndLen_eq]
  constructor
  · rintro ⟨hsafe, -⟩ index hindex
    obtain ⟨hnonneg, -, -⟩ := hsafe index (lt_of_succ_lt hindex)
    obtain ⟨hnonneg', -, hend⟩ := hsafe (index + 1) hindex
    rw [itemRange_of_lt hindex] at hnonneg
    have hptr : (itemRange buffer (index + 1)).1 = offsetAt buffer (index + 1) := rfl
    constructor
    · omega
    · omega
  · intro horder
    have hsafe : ∀ index < getItemCount buffer, InItemArea buffer (itemRange buffer index) :=
      fun index hindex => horder.inItemArea hfirst hindex
    refine ⟨hsafe, ?_⟩
    intro item hitem
    rw [hranges, List.mem_map] at hitem
    obtain ⟨index, hindex, rfl⟩ := hitem
    have hlt := (List.mem_range'_1.mp hindex).2
    exact hsafe index (lt_of_lt_of_eq hlt (zero_add _))

namespace CheckWitness

/-- A block of two items whose second offset lies far behind the block. -/
def wildBlock : List Byte := [2, 0, 0, 129, 2, 0, 0, 0, 1, 2, 8, 0, 200, 0]

theorem wildBlock_accepted :
    isValid wildBlock 14 = .ok ∧ getItemPtrAndLen (readerInit wildBlock 14) 1 = (200, -190) ∧
      ¬ InItemArea wildBlock (getItemPtrAndLen (readerInit wildBlock 14) 1) := by
  decide

def goodBlock : List Byte := [2, 0, 0, 129, 2, 0, 0, 0, 1, 2, 8, 0, 9, 0]

theorem goodBlock_safe : isValid goodBlock 14 = .ok ∧
    headerLen + getItemLenSum goodBlock ≤ 14 ∧ (((∀ index < getItemCount goodBlock,
        InItemArea goodBlock (getItemPtrAndLen (readerInit goodBlock 14) index)) ∧
      ∀ item ∈ readerRanges (getItemCount goodBlock) (readerInit goodBlock 14),
        InItemArea goodBlock item) ↔ OffsetsInOrder goodBlock) :=
  ⟨by decide, acceptedBlock_safe_iff goodBlock 14 (by decide)⟩

end CheckWitness

end Greenplum.VarBlock
