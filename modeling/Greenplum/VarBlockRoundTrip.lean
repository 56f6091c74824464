/-
A VarBlock gives back the items that were put into it.  The invariant of the
maker says where the items and their offsets lie; finishing the block moves the
offsets behind the items and records both lengths in 24-bit fields, which is
what bounds the blocks that can be read back.
-/
import Greenplum.VarBlock

namespace Greenplum.VarBlock

open ByteMemory ByteNumbers List Nat

section

variable {value : Int} {length sum count : Nat}

theorem int32_eq (hvalue : value = length) (hlength : length < 2 ^ 31) : int32 value = length := by
  rw [int32, hvalue]
  apply Int.bmod_eq_of_le <;> omega

/-- A length rounded up to an even one. -/
@[simp]
def evenLen (length : Nat) : Nat := (length + 1) / 2 * 2

theorem le_evenLen (length : Nat) : length ≤ evenLen length := by
  rw [evenLen]
  omega

theorem evenLen_le (length : Nat) : evenLen length ≤ length + 1 := by
  rw [evenLen]
  omega

theorem roundEven_eq (hvalue : value = length) (hlength : length + 1 < 2 ^ 31) :
    roundEven value = evenLen length := by
  have hsucc : int32 (value + 1) = (length + 1 : Nat) := int32_eq (by omega) hlength
  rw [roundEven, hsucc, Int.tdiv_eq_ediv_of_nonneg (by omega), evenLen]
  omega

theorem newTotalLenSmall_eq (hsum : sum < 2 ^ 30 + 2 ^ 24) (hcount : count < 2 ^ 24) :
    newTotalLenSmall sum count = (headerLen + evenLen sum + evenLen ((count + 1) * 2) : Nat) := by
  have hround := evenLen_le sum
  have hitems : evenLen ((count + 1) * 2) = count * 2 + 2 := by
    rw [evenLen]
    omega
  have hoffsets : int32 ((count : Int) * 2 + 2) = (count * 2 + 2 : Nat) :=
    int32_eq (by omega) (by omega)
  rw [newTotalLenSmall, roundEven_eq rfl (by omega), hoffsets, hitems]
  exact int32_eq (by omega) (by rw [headerLen]; omega)

theorem newTotalLenLarge_eq (hsum : sum < 2 ^ 30 + 2 ^ 24) (hcount : count < 2 ^ 24) :
    newTotalLenLarge sum count =
      (headerLen + evenLen sum + evenLen ((count + 1) * byteOffset24Len) : Nat) := by
  have hround := evenLen_le sum
  have hround' := evenLen_le ((count + 1) * 3)
  have hoffsets : int32 (((count : Int) + 1) * (3 : Nat)) = ((count + 1) * 3 : Nat) :=
    int32_eq (by omega) (by omega)
  rw [newTotalLenLarge, byteOffset24Len, roundEven_eq rfl (by omega), hoffsets,
    roundEven_eq rfl (by omega)]
  exact int32_eq (by omega) (by rw [headerLen]; omega)

end

section

variable {buffer cells next : List Byte} {count offset : Nat} {small : Bool}
  {mask value : BitVec 32}

section

variable (hroom : headerLen ≤ buffer.length) (word : BitVec 32)

include hroom

theorem setBytes03_overwrites :
    Overwrites buffer 0 4 (leBytes 4 word.toNat) (setBytes03 buffer word) :=
  overwrites_writeAt (length_leBytes 4 _) (le_trans (by decide) hroom)

theorem setBytes47_overwrites :
    Overwrites buffer 4 4 (leBytes 4 word.toNat) (setBytes47 buffer word) :=
  overwrites_writeAt (length_leBytes 4 _) hroom

theorem bytes03_setBytes03 : bytes03 (setBytes03 buffer word) = word := by
  rw [bytes03, (setBytes03_overwrites hroom word).read, ofNat_leNat_leBytes (by decide)]

theorem bytes47_setBytes47 : bytes47 (setBytes47 buffer word) = word := by
  rw [bytes47, (setBytes47_overwrites hroom word).read, ofNat_leNat_leBytes (by decide)]

theorem bytes47_setBytes03 : bytes47 (setBytes03 buffer word) = bytes47 buffer := by
  rw [bytes47, bytes47, (setBytes03_overwrites hroom word).frame (.inr (le_refl 4))]

theorem bytes03_setBytes47 : bytes03 (setBytes47 buffer word) = bytes03 buffer := by
  rw [bytes03, bytes03, (setBytes47_overwrites hroom word).frame (.inl (le_refl 4))]

end

section

variable (hwritten : Overwrites buffer offset count cells next) (hbehind : headerLen ≤ offset)

include hwritten hbehind

theorem overwrites_bytes03 : bytes03 next = bytes03 buffer := by
  rw [bytes03, bytes03, hwritten.frame (.inl (le_trans (by decide) hbehind))]

theorem overwrites_bytes47 : bytes47 next = bytes47 buffer := by
  rw [bytes47, bytes47, hwritten.frame (.inl hbehind)]

end

/-- The first header word while a block is made. -/
def makerWord (small : Bool) : BitVec 32 :=
  if small then 0x81000000 else 0x01000000

/-- The first header word of a finished block. -/
def blockWord (small : Bool) (itemLenSum : BitVec 32) : BitVec 32 :=
  (makerWord small &&& 0xFF000000) ||| (0x00FFFFFF &&& itemLenSum)

theorem getOffsetsAreSmall_maker (hword : bytes03 buffer = makerWord small) :
    getOffsetsAreSmall buffer = small := by
  rw [getOffsetsAreSmall, hword]
  cases small <;> decide

/-- The bytes of one offset. -/
def entryLen (small : Bool) : Nat := if small then 2 else 3

theorem entryLen_pos (small : Bool) : 0 < entryLen small := by
  cases small <;> decide

theorem entryLen_le (small : Bool) : entryLen small ≤ 3 := by
  cases small <;> decide

theorem offsetLen_maker (hword : bytes03 buffer = makerWord small) :
    offsetLen buffer = entryLen small := by
  rw [offsetLen, getOffsetsAreSmall_maker hword]
  rfl

theorem low_and_eq_zero (hmask : mask &&& 0x00FFFFFF = 0#32) :
    (0x00FFFFFF &&& value) &&& mask = 0#32 := by
  rw [BitVec.and_comm, ← BitVec.and_assoc, hmask, BitVec.zero_and]

theorem blockWord_and (hmask : mask &&& 0x00FFFFFF = 0#32) :
    blockWord small value &&& mask = makerWord small &&& 0xFF000000 &&& mask := by
  rw [blockWord, BitVec.and_or_distrib_right, low_and_eq_zero hmask, BitVec.or_zero]

theorem low_and_toNat (value : BitVec 32) :
    (0x00FFFFFF &&& value).toNat = value.toNat % 2 ^ 24 := by
  rw [BitVec.toNat_and, Nat.and_comm]
  exact and_two_pow_sub_one_eq_mod value.toNat 24

/-- Filling the low 24 bits of a word whose low bits do not matter. -/
theorem fill_low_toNat (word value : BitVec 32) :
    (((word &&& 0xFF000000) ||| (0x00FFFFFF &&& value)) &&& 0x00FFFFFF).toNat =
      value.toNat % 2 ^ 24 := by
  have hhigh : word &&& 0xFF000000 &&& 0x00FFFFFF = 0#32 := by
    rw [BitVec.and_assoc]
    exact BitVec.and_zero
  have hlow : (0x00FFFFFF : BitVec 32) &&& value &&& 0x00FFFFFF = 0x00FFFFFF &&& value := by
    rw [BitVec.and_comm, ← BitVec.and_assoc, BitVec.and_self]
  rw [BitVec.and_or_distrib_right, hhigh, hlow, BitVec.zero_or, low_and_toNat]

theorem blockWord_shiftRight (small : Bool) (value : BitVec 32) :
    (blockWord small value >>> 31 ≠ 0) = (small = true) := by
  rw [blockWord, BitVec.ushiftRight_or_distrib, BitVec.ushiftRight_and_distrib,
    BitVec.ushiftRight_and_distrib]
  cases small <;> simp [makerWord]

end

section

variable {items : List (List Byte)} {width : Nat} {space : List Byte}

/-- The start of each item, from the start of the buffer. -/
def startOf (items : List (List Byte)) (index : Nat) : Nat :=
  headerLen + (items.take index).flatten.length

theorem startOf_append (item : List Byte) {index : Nat} (hindex : index ≤ items.length) :
    startOf (items ++ [item]) index = startOf items index := by
  rw [startOf, startOf, take_append_of_le_length hindex]

theorem startOf_length (items : List (List Byte)) :
    startOf items items.length = headerLen + items.flatten.length := by
  rw [startOf, take_length]

/-- An array holds the starts of the items in entries of `width` bytes. -/
def HoldsStarts (width : Nat) (space : List Byte) (items : List (List Byte)) : Prop :=
  ∀ index < items.length, readAt space (index * width) width = leBytes width (startOf items index)

theorem HoldsStarts.room (h : HoldsStarts width space items) (hwidth : 0 < width) :
    items.length * width ≤ space.length := by
  cases hn : items.length with
  | zero =>
    rw [zero_mul]
    exact zero_le _
  | succ n =>
    have hlast := congrArg List.length (h n (by omega))
    rw [length_leBytes, readAt, length_take, length_drop] at hlast
    rw [succ_mul]
    omega

/-- Storing the start of one more item behind the others. -/
theorem HoldsStarts.push (h : HoldsStarts width space items)
    (hroom : (items.length + 1) * width ≤ space.length) (item : List Byte) :
    HoldsStarts width (writeAt space (items.length * width)
      (leBytes width (startOf items items.length))) (items ++ [item]) := by
  have hmul : (items.length + 1) * width = items.length * width + width :=
    succ_mul items.length width
  have hwritten := overwrites_writeAt (length_leBytes width (startOf items items.length))
    (show items.length * width + width ≤ space.length by omega)
  intro index hindex
  rw [length_append, length_singleton] at hindex
  rcases Nat.lt_succ_iff_lt_or_eq.mp hindex with hold | rfl
  · have hbefore : (index + 1) * width ≤ items.length * width := mul_le_mul_right width hold
    have hsucc : (index + 1) * width = index * width + width := succ_mul index width
    rw [startOf_append item (le_of_lt hold), ← h index hold]
    exact hwritten.frame (.inl (by omega))
  · rw [hwritten.read, startOf_append item (le_refl _)]

theorem length_putOffset16 {index : Nat} (hroom : (index + 1) * 2 ≤ space.length) (offset : Nat) :
    (putOffset16 space index offset).length = space.length :=
  (overwrites_writeAt (length_leBytes 2 _) (by omega)).length

theorem putOffset24_overwrites {index : Nat} (hroom : (index + 1) * 3 ≤ space.length)
    (offset : Nat) :
    Overwrites space (index * 3) 3 (leBytes 3 offset) (putOffset24 space index offset) :=
  overwrites_writeAt (length_leBytes 3 _) (by omega)

/-- The move to three-byte entries goes from the last entry to the first, so an
entry is read before it is written over. -/
theorem widenOffsets_spec (count : Nat) : ∀ space : List Byte, count * 3 ≤ space.length →
      (widenOffsets count space).length = space.length ∧
      (∀ index < count, readAt (widenOffsets count space) (index * 3) 3 =
        leBytes 3 (leNat (readAt space (index * 2) 2))) ∧ ∀ place length, count * 3 ≤ place →
        readAt (widenOffsets count space) place length = readAt space place length := by
  induction count with
  | zero =>
    intro space _
    refine ⟨rfl, fun index hindex => absurd hindex (not_lt_zero _), ?_⟩
    intro place length _
    rfl
  | succ r ih =>
    intro space hroom
    have hwritten := putOffset24_overwrites hroom (leNat (readAt space (r * 2) 2))
    obtain ⟨hlen, hentries, hframe⟩ := ih _ (by rw [hwritten.length]; omega)
    rw [widenOffsets]
    refine ⟨hlen.trans hwritten.length, ?_, ?_⟩
    · intro index hindex
      rcases Nat.lt_succ_iff_lt_or_eq.mp hindex with hlt | rfl
      · rw [hentries index hlt, hwritten.frame (.inl (by omega))]
      · rw [hframe _ _ (le_refl _), hwritten.read]
    · intro place length hplace
      rw [hframe _ _ (by omega), hwritten.frame (.inr (by omega))]

/-- Two-byte entries that were not too large become three-byte entries. -/
theorem HoldsStarts.widen (h : HoldsStarts 2 space items)
    (hsmall : ∀ index < items.length, startOf items index < 2 ^ 16)
    (hroom : (items.length + 1) * 3 ≤ space.length) :
    HoldsStarts 3 (widenOffsets (items.length + 1) space) items := by
  obtain ⟨-, hentries, -⟩ := widenOffsets_spec (items.length + 1) space hroom
  intro index hindex
  rw [hentries index (by omega), h index hindex,
    leNat_leBytes_of_lt (lt_of_lt_of_eq (hsmall index hindex) (by decide))]

end

section

/-- What a maker holds after it has accepted `items`. -/
structure Filled (maker : VarBlockMaker) (small : Bool) (items : List (List Byte)) : Prop where
  buffer_len : maker.maxBufferLen ≤ maker.buffer.length
  scratch_len : maker.tempScratchSpace.length = maker.tempScratchSpaceLen
  word03 : bytes03 maker.buffer = makerWord small
  word47 : bytes47 maker.buffer = 0
  sum : maker.currentItemLenSum = items.flatten.length
  next : maker.nextItemPtr = startOf items items.length
  count : maker.currentItemCount = items.length
  most : maker.maxItemCount = maker.tempScratchSpaceLen / (entryLen small)
  fits : headerLen + evenLen items.flatten.length +
    evenLen (items.length * (entryLen small)) ≤ maker.maxBufferLen
  body : readAt maker.buffer headerLen items.flatten.length = items.flatten
  starts : HoldsStarts (entryLen small) maker.tempScratchSpace items
  near : small = true → ∀ index < items.length, startOf items index ≤ last2ByteOffset

variable {maker : VarBlockMaker} {small : Bool} {items : List (List Byte)}

theorem Filled.header_room (h : Filled maker small items) : headerLen ≤ maker.buffer.length := by
  have hfits := h.fits
  have hlen := h.buffer_len
  omega

theorem makerInit_filled {buffer scratch : List Byte} {maxBufferLen : Nat}
    (hmax : headerLen ≤ maxBufferLen) (hbuffer : maxBufferLen ≤ buffer.length) :
    Filled (makerInit buffer maxBufferLen scratch scratch.length) true [] := by
  have hwritten : Overwrites buffer 0 headerLen (List.replicate headerLen 0)
      (writeAt buffer 0 (List.replicate headerLen 0)) :=
    overwrites_writeAt length_replicate (by omega)
  generalize hclear : writeAt buffer 0 (List.replicate headerLen 0) = cleared at hwritten
  have hlength := hwritten.length
  have hcleared : headerLen ≤ cleared.length := by omega
  have hfirst : bytes03 cleared = 0 := by
    have hread := readAt_readAt cleared 0 (show 0 + 4 ≤ headerLen by decide)
    rw [bytes03, ← hread, hwritten.read]
    decide
  have hsecond : bytes47 cleared = 0 := by
    have hread := readAt_readAt cleared 0 (show 4 + 4 ≤ headerLen by decide)
    rw [bytes47, ← hread, hwritten.read]
    decide
  have hversion : headerLen ≤ (setVersion cleared initialVersion).length := by
    rw [setVersion, (setBytes03_overwrites hcleared _).length]
    exact hcleared
  have hbuffer' : (makerInit buffer maxBufferLen scratch scratch.length).buffer =
      setOffsetsAreSmall (setVersion cleared initialVersion) true := by
    rw [makerInit, hclear]
  refine ⟨?_, rfl, ?_, ?_, rfl, rfl, rfl, rfl, ?_, ?_, ?_, ?_⟩
  · rw [hbuffer', setOffsetsAreSmall, (setBytes03_overwrites hversion _).length, setVersion,
      (setBytes03_overwrites hcleared _).length, hlength]
    exact hbuffer
  · rw [hbuffer', setOffsetsAreSmall, bytes03_setBytes03 hversion, setVersion,
      bytes03_setBytes03 hcleared, hfirst]
    decide
  · rw [hbuffer', setOffsetsAreSmall, bytes47_setBytes03 hversion, setVersion,
      bytes47_setBytes03 hcleared, hsecond]
  · exact hmax
  · rfl
  · exact fun index hindex => absurd hindex (not_lt_zero _)
  · exact fun _ index hindex => absurd hindex (not_lt_zero _)

/-- One more item: its place is behind the items, its start is stored, and the
block still fits. -/
theorem Filled.push (h : Filled maker small items) (small' : Bool)
    (buffer scratch : List Byte) (most : Nat) (item : List Byte)
    (hlength : buffer.length = maker.buffer.length) (hword03 : bytes03 buffer = makerWord small')
    (hword47 : bytes47 buffer = 0)
    (hbody : readAt buffer headerLen items.flatten.length = items.flatten)
    (hscratch : scratch.length = maker.tempScratchSpaceLen)
    (hmost : most = maker.tempScratchSpaceLen / (entryLen small'))
    (hfits : headerLen + evenLen (items.flatten.length + item.length) +
      evenLen ((items.length + 1) * (entryLen small')) ≤ maker.maxBufferLen)
    (hstarts : HoldsStarts (entryLen small') scratch (items ++ [item]))
    (hnear : small' = true → ∀ index < items.length + 1, startOf items index ≤ last2ByteOffset) :
    Filled { maker with
      buffer := writeAt buffer maker.nextItemPtr item
      currentItemLenSum := (items.flatten.length + item.length : Nat)
      tempScratchSpace := scratch
      nextItemPtr := maker.nextItemPtr + item.length
      currentItemCount := items.length + 1
      maxItemCount := most } small' (items ++ [item]) := by
  have hsum : (items ++ [item]).flatten.length = items.flatten.length + item.length := by simp
  have hcount : (items ++ [item]).length = items.length + 1 := by simp
  have hnext := h.next
  rw [startOf_length] at hnext
  have heven := le_evenLen (items.flatten.length + item.length)
  have hbuffer := h.buffer_len
  have hwritten : Overwrites buffer maker.nextItemPtr item.length item _ :=
    overwrites_writeAt rfl (by omega)
  have hbehind : headerLen ≤ maker.nextItemPtr := by omega
  refine ⟨?_, hscratch, ?_, ?_, ?_, ?_, ?_, hmost, ?_, ?_, hstarts, ?_⟩
  · simp only [hwritten.length, hlength]
    exact h.buffer_len
  · simp only [overwrites_bytes03 hwritten hbehind, hword03]
  · simp only [overwrites_bytes47 hwritten hbehind, hword47]
  · simp only [hsum]
  · simp only [startOf_length, hsum, hnext, add_assoc]
  · simp only [hcount]
  · simp only [hsum, hcount]
    exact hfits
  · simp only [hsum]
    rw [readAt_append, hwritten.frame (.inl (by omega)), hbody, ← hnext, hwritten.read]
    simp
  · intro hsmall index hindex
    rw [hcount] at hindex
    rw [startOf_append item (by omega)]
    exact hnear hsmall index hindex

/-- An accepted item keeps the invariant, possibly with larger offsets. -/
theorem makerAddItem_filled (h : Filled maker small items) {item : List Byte}
    (hsum : items.flatten.length + item.length < 2 ^ 30 + 2 ^ 24) (hcount : items.length < 2 ^ 24)
    (haccept : (makerAddItem maker item).2 = true) :
    ∃ small', Filled (makerAddItem maker item).1 small' (items ++ [item]) := by
  have hnew : int32 (maker.currentItemLenSum + item.length) =
      (items.flatten.length + item.length : Nat) := by
    rw [h.sum]
    exact int32_eq (by omega) (by omega)
  have hmost := h.most
  have hscratch := h.scratch_len
  rw [makerAddItem] at haccept ⊢
  cases hget : makerGetNextItemPtr maker item.length with
  | none =>
    rw [hget] at haccept
    exact absurd haccept Bool.false_ne_true
  | some result =>
    rw [makerGetNextItemPtr] at hget
    simp only [hnew, getOffsetsAreSmall_maker h.word03, h.count,
      newTotalLenSmall_eq hsum hcount, newTotalLenLarge_eq hsum hcount, Int.ofNat_lt] at hget
    split_ifs at hget with hfull hsmall hfar hlong hmany hlong hlong
    · -- the switch to three-byte offsets
      subst hsmall
      obtain rfl := Option.some.inj hget
      have hroom : (items.length + 1) * 3 ≤ maker.tempScratchSpace.length := by
        rw [byteOffset24Len] at hmany
        omega
      have hwiden := widenOffsets_spec (items.length + 1) maker.tempScratchSpace hroom
      have hstarts := HoldsStarts.push (h.starts.widen (fun index hindex => by
          have hle := h.near rfl index hindex
          rw [last2ByteOffset] at hle
          omega) hroom) (by rw [hwiden.1]; exact hroom) item
      refine ⟨false, h.push false (setOffsetsAreSmall maker.buffer false)
        (putOffset24 (widenOffsets (items.length + 1) maker.tempScratchSpace)
          items.length maker.nextItemPtr) (maker.tempScratchSpaceLen / 3) item
        (setBytes03_overwrites h.header_room _).length ?_ ?_ ?_ ?_ rfl (Nat.le_of_not_lt hlong) ?_
        (fun hfalse => absurd hfalse Bool.false_ne_true)⟩
      · rw [setOffsetsAreSmall, bytes03_setBytes03 h.header_room, h.word03]
        decide
      · rw [setOffsetsAreSmall, bytes47_setBytes03 h.header_room, h.word47]
      · rw [setOffsetsAreSmall, (setBytes03_overwrites h.header_room _).frame (.inr (by decide))]
        exact h.body
      · rw [(putOffset24_overwrites (by omega) _).length, hwiden.1, hscratch]
      · rw [putOffset24, byteOffset24Len, h.next]
        exact hstarts
    · -- two-byte offsets
      subst hsmall
      obtain rfl := Option.some.inj hget
      have hroom : (items.length + 1) * 2 ≤ maker.tempScratchSpace.length := by
        rw [entryLen, if_pos rfl] at hmost
        omega
      refine ⟨true, h.push true maker.buffer
        (putOffset16 maker.tempScratchSpace items.length maker.nextItemPtr)
        maker.maxItemCount item rfl h.word03 h.word47 h.body ?_ hmost
        (Nat.le_of_not_lt hlong) ?_ ?_⟩
      · rw [length_putOffset16 hroom, hscratch]
      · rw [putOffset16, h.next]
        exact h.starts.push hroom item
      · intro _ index hindex
        rcases Nat.lt_succ_iff_lt_or_eq.mp hindex with hlt | rfl
        · exact h.near rfl index hlt
        · rw [← h.next]
          exact Nat.le_of_not_lt hfar
    · -- three-byte offsets
      obtain rfl := eq_false_of_ne_true hsmall
      obtain rfl := Option.some.inj hget
      have hroom : (items.length + 1) * 3 ≤ maker.tempScratchSpace.length := by
        rw [entryLen, if_neg Bool.false_ne_true] at hmost
        omega
      refine ⟨false, h.push false maker.buffer
        (putOffset24 maker.tempScratchSpace items.length maker.nextItemPtr)
        maker.maxItemCount item rfl h.word03 h.word47 h.body ?_ hmost (Nat.le_of_not_lt hlong) ?_
        (fun hfalse => absurd hfalse Bool.false_ne_true)⟩
      · rw [(putOffset24_overwrites hroom _).length, hscratch]
      · rw [putOffset24, byteOffset24Len, h.next]
        exact h.starts.push hroom item

theorem makerAddItem_lens (maker : VarBlockMaker) (item : List Byte) :
    (makerAddItem maker item).1.maxBufferLen = maker.maxBufferLen ∧
      (makerAddItem maker item).1.tempScratchSpaceLen = maker.tempScratchSpaceLen := by
  rw [makerAddItem]
  cases hget : makerGetNextItemPtr maker item.length with
  | none => exact ⟨rfl, rfl⟩
  | some result =>
    rw [makerGetNextItemPtr] at hget
    dsimp only at hget
    split_ifs at hget
    all_goals
      obtain rfl := Option.some.inj hget
      exact ⟨rfl, rfl⟩

theorem makerAddItems_maxBufferLen (offered : List (List Byte)) :
    ∀ maker, (makerAddItems offered maker).1.maxBufferLen = maker.maxBufferLen := by
  induction offered with
  | nil => exact fun _ => rfl
  | cons item offered ih =>
    intro maker
    have hitem := (makerAddItem_lens maker item).1
    rw [makerAddItems]
    split
    · rename_i next hnext
      rw [ih, ← hitem, hnext]
    · rename_i next hnext
      rw [hnext] at hitem
      exact (ih next).trans hitem

theorem makerAddItem_refused {item : List Byte} (hrefuse : (makerAddItem maker item).2 = false) :
    (makerAddItem maker item).1 = maker := by
  rw [makerAddItem] at hrefuse ⊢
  cases hget : makerGetNextItemPtr maker item.length with
  | none => rfl
  | some result =>
    rw [hget] at hrefuse
    exact absurd hrefuse (Ne.symm Bool.false_ne_true)

theorem makerAddItems_filled (offered : List (List Byte)) :
    ∀ (maker : VarBlockMaker) (small : Bool) (items : List (List Byte)), Filled maker small items →
      (items ++ (makerAddItems offered maker).2).flatten.length < 2 ^ 30 →
      (items ++ (makerAddItems offered maker).2).length < 2 ^ 24 →
      ∃ small', Filled (makerAddItems offered maker).1 small'
        (items ++ (makerAddItems offered maker).2) := by
  induction offered with
  | nil =>
    intro maker small items h _ _
    exact ⟨small, by simpa [makerAddItems] using h⟩
  | cons item offered ih =>
    intro maker small items h hsum hcount
    cases hflag : (makerAddItem maker item).2 with
    | false =>
      have hsame := makerAddItem_refused hflag
      have hresult : makerAddItem maker item = (maker, false) := Prod.ext hsame hflag
      simp only [makerAddItems, hresult] at hsum hcount ⊢
      exact ih maker small items h hsum hcount
    | true =>
      have hresult : makerAddItem maker item =
          ((makerAddItem maker item).1, true) := Prod.ext rfl hflag
      rw [makerAddItems, hresult] at hsum hcount ⊢
      rw [append_cons] at hsum hcount ⊢
      obtain ⟨small', h'⟩ := makerAddItem_filled h
        (by simp at hsum ⊢; omega) (by simp at hcount; omega) hflag
      exact ih _ small' _ h' hsum hcount

end

section

/-- A finished block: what its bytes say about the items. -/
structure Finished (buffer : List Byte) (small : Bool) (items : List (List Byte)) : Prop where
  word03 : bytes03 buffer = blockWord small (BitVec.ofInt 32 items.flatten.length)
  word47 : bytes47 buffer = 0x00FFFFFF &&& BitVec.ofNat 32 items.length
  body : readAt buffer headerLen items.flatten.length = items.flatten
  pad : readAt buffer (headerLen + items.flatten.length)
      (evenLen items.flatten.length - items.flatten.length) =
    List.replicate (evenLen items.flatten.length - items.flatten.length) 0
  starts : ∀ index < items.length, readAt buffer (headerLen + evenLen items.flatten.length +
        index * (entryLen small)) (entryLen small) =
      leBytes (entryLen small) (startOf items index)
  endPad : readAt buffer (headerLen + evenLen items.flatten.length +
        items.length * (entryLen small))
      (evenLen (items.length * (entryLen small)) - items.length * (entryLen small)) =
    List.replicate (evenLen (items.length * (entryLen small)) - items.length * (entryLen small)) 0

variable {maker : VarBlockMaker} {small : Bool} {items : List (List Byte)}

theorem offsetToOffsetArray_eq {value : Int} {sum : Nat} (hvalue : value = sum)
    (hsum : sum < 2 ^ 30) : offsetToOffsetArray value = (headerLen + evenLen sum : Nat) := by
  rw [offsetToOffsetArray, roundEven_eq hvalue (by omega)]
  exact (Int.natCast_add headerLen (evenLen sum)).symm

/-- The bytes of a block, step by step: the offsets, the pad behind the items,
the header and the pad behind the offsets. -/
def finishedBuffer (maker : VarBlockMaker) (sum count total : Nat) : List Byte :=
  let toArray := headerLen + evenLen sum
  let buffer := writeAt maker.buffer toArray (readAt maker.tempScratchSpace 0 total)
  let buffer := writeAt buffer (headerLen + sum) (List.replicate (evenLen sum - sum) 0)
  let buffer := setItemCount (setItemLenSum buffer sum) count
  writeAt buffer (toArray + total) (List.replicate (evenLen total - total) 0)

theorem makerFinish_eq (h : Filled maker small items)
    (hsum : items.flatten.length < 2 ^ 30) (hcount : items.length < 2 ^ 24) :
    makerFinish maker = (((headerLen + evenLen items.flatten.length +
        evenLen (items.length * entryLen small) : Nat) : Int),
      finishedBuffer maker items.flatten.length items.length (items.length * entryLen small)) := by
  have htotal : items.length * entryLen small ≤ items.length * 3 :=
    mul_le_mul_left _ (entryLen_le small)
  have hpad : (((headerLen + evenLen items.flatten.length : Nat) : Int) -
      ((headerLen : Int) + items.flatten.length)).toNat =
      evenLen items.flatten.length - items.flatten.length := by
    omega
  have hpad' : ((evenLen (items.length * entryLen small) : Int) -
      (items.length * entryLen small : Nat)).toNat =
      evenLen (items.length * entryLen small) - items.length * entryLen small := by
    omega
  have hitems : ((headerLen : Int) + items.flatten.length).toNat =
      headerLen + items.flatten.length := by
    omega
  have hend : (((headerLen + evenLen items.flatten.length : Nat) : Int) +
      (items.length * entryLen small : Nat)).toNat =
      headerLen + evenLen items.flatten.length + items.length * entryLen small := by
    omega
  rw [makerFinish, finishedBuffer, h.sum, h.count, offsetLen_maker h.word03]
  simp only [offsetToOffsetArray_eq rfl hsum, hpad, hitems, hend,
    roundEven_eq (show ((items.length * entryLen small : Nat) : Int) = _ from rfl)
      (by omega), hpad', Int.toNat_natCast]
  rw [← Int.natCast_add]

theorem finishedBuffer_finished (h : Filled maker small items) :
    Finished (finishedBuffer maker items.flatten.length items.length
      (items.length * entryLen small)) small items := by
  have hfits := h.fits
  have hbuffer := h.buffer_len
  have heven := le_evenLen items.flatten.length
  have heven' := le_evenLen (items.length * entryLen small)
  have hscratch := h.starts.room (entryLen_pos small)
  rw [finishedBuffer]
  generalize hsum : items.flatten.length = sum at *
  generalize htotal : items.length * entryLen small = total at *
  -- the offsets, copied out of the scratch buffer
  have hmoved : Overwrites maker.buffer (headerLen + evenLen sum) total _ _ :=
    overwrites_writeAt (length_readAt (show 0 + total ≤ maker.tempScratchSpace.length by omega))
      (by omega)
  generalize writeAt maker.buffer (headerLen + evenLen sum)
    (readAt maker.tempScratchSpace 0 total) = moved at *
  have hlen := hmoved.length
  -- the pad behind the items
  have hpadded : Overwrites moved (headerLen + sum) (evenLen sum - sum) _
      (writeAt moved (headerLen + sum) (List.replicate (evenLen sum - sum) 0)) :=
    overwrites_writeAt length_replicate (by omega)
  generalize writeAt moved (headerLen + sum) (List.replicate (evenLen sum - sum) 0) = padded at *
  have hlen₂ := hpadded.length
  -- the header
  have hroom : headerLen ≤ padded.length := by omega
  have hsummed : Overwrites padded 0 4 _ (setItemLenSum padded sum) := setBytes03_overwrites hroom _
  have hroom₃ : headerLen ≤ (setItemLenSum padded sum).length := by
    rw [hsummed.length]
    exact hroom
  have hcounted : Overwrites (setItemLenSum padded sum) 4 4 _
      (setItemCount (setItemLenSum padded sum) items.length) :=
    setBytes47_overwrites hroom₃ _
  have hframe₃ : ∀ {place count : Nat}, headerLen ≤ place →
      readAt (setItemCount (setItemLenSum padded sum) items.length) place count =
        readAt padded place count := by
    intro place count hplace
    rw [hcounted.frame (.inr hplace), hsummed.frame (.inr (le_trans (by decide) hplace))]
  have hlen₃ := hcounted.length.trans hsummed.length
  have hword03₃ : bytes03 (setItemCount (setItemLenSum padded sum) items.length) =
        blockWord small (BitVec.ofInt 32 sum) := by
    rw [setItemCount, bytes03_setBytes47 hroom₃, setItemLenSum, bytes03_setBytes03 hroom,
      overwrites_bytes03 hpadded (le_add_right _ _),
      overwrites_bytes03 hmoved (le_add_right _ _), h.word03, blockWord]
  have hword47₃ : bytes47 (setItemCount (setItemLenSum padded sum) items.length) =
        0x00FFFFFF &&& BitVec.ofNat 32 items.length := by
    rw [setItemCount, bytes47_setBytes47 hroom₃, setItemLenSum, bytes47_setBytes03 hroom,
      overwrites_bytes47 hpadded (le_add_right _ _),
      overwrites_bytes47 hmoved (le_add_right _ _), h.word47]
    exact BitVec.zero_or
  generalize setItemCount (setItemLenSum padded sum) items.length = labelled at *
  -- the pad behind the offsets
  have hended : Overwrites labelled (headerLen + evenLen sum + total) (evenLen total - total) _
      (writeAt labelled (headerLen + evenLen sum + total)
        (List.replicate (evenLen total - total) 0)) :=
    overwrites_writeAt length_replicate (by omega)
  refine ⟨?_, ?_, ?_, ?_, ?_, ?_⟩
  · rw [overwrites_bytes03 hended (by omega), hword03₃, hsum]
  · rw [overwrites_bytes47 hended (by omega), hword47₃]
  · rw [hsum, hended.frame (.inl (by omega)), hframe₃ (le_refl _),
      hpadded.frame (.inl (by omega)), hmoved.frame (.inl (by omega))]
    have hbody := h.body
    rwa [hsum] at hbody
  · rw [hsum, hended.frame (.inl (by omega)), hframe₃ (by omega), hpadded.read]
  · intro index hindex
    have hbefore : (index + 1) * entryLen small ≤ items.length * entryLen small :=
      mul_le_mul_right _ hindex
    rw [succ_mul, htotal] at hbefore
    have hentry := readAt_readAt maker.tempScratchSpace 0 hbefore
    have hentry' := readAt_readAt moved (headerLen + evenLen sum) hbefore
    rw [zero_add, h.starts index hindex] at hentry
    rw [hsum, hended.frame (.inl (by omega)), hframe₃ (by omega),
      hpadded.frame (.inr (by omega)), ← hentry', hmoved.read, hentry]
  · rw [hsum, htotal, hended.read]

end

section

variable {buffer : List Byte} {small : Bool} {items : List (List Byte)} {index bufferLen : Nat}

theorem startOf_succ (hindex : index < items.length) :
    startOf items (index + 1) = startOf items index + (items[index]).length := by
  rw [startOf, startOf, take_succ_eq_append_getElem hindex,
    flatten_append, length_append, add_assoc]
  simp

theorem startOf_le (hindex : index < items.length) :
    startOf items index ≤ startOf items (items.length - 1) := by
  have htake : items.take index = (items.take (items.length - 1)).take index := by
    rw [take_take, min_eq_left (by omega)]
  have hsplit := take_append_drop index (items.take (items.length - 1))
  rw [startOf, startOf, htake]
  have hlength := congrArg (fun parts => (List.flatten parts).length) hsplit
  simp only [flatten_append, length_append] at hlength
  omega

theorem readAt_flatten (hindex : index < items.length) :
    readAt items.flatten (items.take index).flatten.length
      (items[index]).length = items[index] := by
  have hsplit : items.flatten = (items.take index).flatten ++
      (items[index] ++ (items.drop (index + 1)).flatten) := by
    have hitems := take_append_drop index items
    rw [drop_eq_getElem_cons hindex] at hitems
    have hflat := congrArg List.flatten hitems.symm
    rwa [flatten_append, flatten_cons] at hflat
  rw [hsplit, readAt, drop_left, take_left]

section

variable (h : Finished buffer small items)

include h

/-- The header records the sum of the lengths in 24 bits. -/
theorem Finished.getItemLenSum_mod (hsum : items.flatten.length < 2 ^ 30) :
    getItemLenSum buffer = items.flatten.length % 2 ^ 24 := by
  rw [getItemLenSum, h.word03, blockWord, fill_low_toNat, BitVec.ofInt_natCast, BitVec.toNat_ofNat,
    mod_eq_of_lt (show items.flatten.length < 2 ^ 32 by omega)]

theorem Finished.getItemLenSum_eq (hsum : items.flatten.length < 2 ^ 24) :
    getItemLenSum buffer = items.flatten.length := by
  rw [h.getItemLenSum_mod (by omega), mod_eq_of_lt hsum]

theorem Finished.getItemCount_eq
    (hcount : items.length < 2 ^ 24) : getItemCount buffer = items.length := by
  have hlow : (0x00FFFFFF : BitVec 32) &&& BitVec.ofNat 32 items.length &&&
      0x00FFFFFF = 0x00FFFFFF &&& BitVec.ofNat 32 items.length := by
    rw [BitVec.and_comm, ← BitVec.and_assoc, BitVec.and_self]
  rw [getItemCount, h.word47, hlow, low_and_toNat, BitVec.toNat_ofNat]
  omega

theorem Finished.getOffsetsAreSmall_eq : getOffsetsAreSmall buffer = small := by
  rw [getOffsetsAreSmall, h.word03]
  simp only [blockWord_shiftRight, Bool.decide_eq_true]

theorem Finished.offsetLen_eq : offsetLen buffer = entryLen small := by
  rw [offsetLen, h.getOffsetsAreSmall_eq]
  rfl

theorem Finished.headerIsValid_eq : headerIsValid buffer = .ok := by
  have hversion : getVersion buffer = initialVersion := by
    rw [getVersion, h.word03, blockWord_and (by decide)]
    cases small <;> decide
  have hreserved : getReserved buffer = 0 := by
    rw [getReserved, h.word03, blockWord_and (by decide)]
    cases small <;> decide
  have hmore : getMoreReserved buffer = 0 := by
    rw [getMoreReserved, h.word47, low_and_eq_zero (by decide)]
    decide
  simp [headerIsValid, hversion, hreserved, hmore]

end

/-- The bounds of the 24-bit fields, for the items of a block: the sum of their
lengths, their number and the start of the last of them. -/
structure Fits24 (items : List (List Byte)) : Prop where
  sum : items.flatten.length < 2 ^ 24
  count : items.length < 2 ^ 24
  last : startOf items (items.length - 1) < 2 ^ 24

theorem Fits24.sum30 (h : Fits24 items) : items.flatten.length < 2 ^ 30 :=
  lt_trans h.sum (by decide)

variable (h : Finished buffer small items) (hfits : Fits24 items)
  (hnear : small = true → ∀ index < items.length, startOf items index ≤ last2ByteOffset)

include h hfits hnear

theorem Finished.getOffset_eq (hindex : index < items.length) :
    getOffset buffer (headerLen + evenLen items.flatten.length) index = startOf items index := by
  rw [getOffset, h.offsetLen_eq, h.starts index hindex, leNat_leBytes]
  cases small with
  | false =>
    have hle := startOf_le hindex
    have hlast := hfits.last
    rw [entryLen, if_neg Bool.false_ne_true]
    omega
  | true =>
    have hle := hnear rfl index hindex
    rw [last2ByteOffset] at hle
    rw [entryLen, if_pos rfl]
    omega

omit hnear in
theorem Finished.toArray_eq : (offsetToOffsetArray (getItemLenSum buffer)).toNat =
      headerLen + evenLen items.flatten.length := by
  rw [h.getItemLenSum_eq hfits.sum, offsetToOffsetArray_eq rfl hfits.sum30, Int.toNat_natCast]

omit hnear in
theorem Finished.lenFromHeader_eq :
    lenFromHeader buffer = (headerLen + evenLen items.flatten.length +
      evenLen (items.length * entryLen small) : Nat) := by
  have htotal : items.length * entryLen small ≤ items.length * 3 :=
    mul_le_mul_left _ (entryLen_le small)
  have hcount := hfits.count
  rw [lenFromHeader, h.getItemLenSum_eq hfits.sum, h.getItemCount_eq hcount,
    h.offsetLen_eq, offsetToOffsetArray_eq rfl hfits.sum30, roundEven_eq rfl (by omega)]
  exact (Int.natCast_add _ _).symm

omit h hfits hnear in
theorem checkOffsets_ok {offset itemLenSum : Nat}
    (hoffset : offset ≤ itemLenSum + headerLen) (count : Nat) :
    checkOffsets offset itemLenSum count = .ok := by
  induction count with
  | zero => rfl
  | succ count ih =>
    rw [checkOffsets, if_neg (lt_irrefl _), if_neg (by omega), ih]

omit h hfits hnear in
theorem zeroPad_of_replicate {start stop length : Nat} (hlength : stop - start = length)
    (hpad : readAt buffer start length = List.replicate length 0) :
    zeroPad buffer start stop = true := by
  rw [zeroPad, hlength, hpad]
  simp

theorem Finished.isValid_eq : isValid buffer (headerLen + evenLen items.flatten.length +
      evenLen (items.length * entryLen small)) = .ok := by
  have hbound := le_evenLen items.flatten.length
  have hpad : zeroPad buffer (headerLen + items.flatten.length)
      (headerLen + evenLen items.flatten.length) = true :=
    zeroPad_of_replicate (by omega) h.pad
  have hpad' : zeroPad buffer (headerLen + evenLen items.flatten.length +
      items.length * entryLen small) (headerLen + evenLen items.flatten.length +
        evenLen (items.length * entryLen small)) = true :=
    zeroPad_of_replicate (by omega) h.endPad
  have harray := h.toArray_eq hfits
  rw [h.getItemLenSum_eq hfits.sum] at harray
  rw [isValid, if_neg (by simp [h.headerIsValid_eq])]
  simp only [h.getItemLenSum_eq hfits.sum, harray, h.getItemCount_eq hfits.count, h.offsetLen_eq]
  have hround : (items.length * entryLen small + 1) / 2 * 2 =
      evenLen (items.length * entryLen small) := rfl
  rw [if_neg (by rw [headerLen]; omega), if_neg (by omega), if_neg (not_not_intro hpad), hround]
  by_cases hnone : items.length = 0
  · rw [if_pos hnone, if_neg (by simp [hnone])]
  · have hfirst : getOffset buffer (headerLen + evenLen items.flatten.length) 0 =
        headerLen := h.getOffset_eq hfits hnear (pos_of_ne_zero hnone)
    have hcheck : checkOffsets headerLen items.flatten.length
        (items.length - 1) = .ok := checkOffsets_ok (by omega) _
    rw [if_neg hnone, if_neg (by omega), hfirst, if_neg (not_not_intro rfl),
      if_neg (not_not_intro hcheck), if_neg (not_not_intro hpad')]

/-- The reader finds an item by its index. -/
theorem Finished.getItemPtrAndLen_eq (hindex : index < items.length)
    {reader : VarBlockReader} (hbuffer : reader.buffer = buffer)
    (harray : reader.offsetToOffsetArray = (readerInit buffer bufferLen).offsetToOffsetArray) :
    getItemPtrAndLen reader index = (startOf items index, ((items[index]).length : Int)) := by
  have hplace : reader.offsetToOffsetArray = headerLen + evenLen items.flatten.length := by
    rw [harray, readerInit, h.toArray_eq hfits]
  have hnext := startOf_succ hindex
  rw [getItemPtrAndLen, getItemLen]
  simp only [hbuffer, hplace, h.getOffset_eq hfits hnear hindex,
    h.getItemCount_eq hfits.count, h.getItemLenSum_eq hfits.sum]
  congr 1
  split_ifs with hlast
  · rw [h.getOffset_eq hfits hnear (show index + 1 < items.length by omega)]
    omega
  · have hend : index + 1 = items.length := by omega
    rw [hend, startOf_length] at hnext
    omega

omit hnear hfits in
theorem Finished.itemBytes_eq (hindex : index < items.length) :
    itemBytes buffer (startOf items index, ((items[index]).length : Int)) = items[index] := by
  have hnext := startOf_succ hindex
  have hwhole : startOf items (index + 1) ≤ headerLen + items.flatten.length := by
    have hsplit := congrArg (fun parts => (List.flatten parts).length)
      (take_append_drop (index + 1) items)
    simp only [flatten_append, length_append] at hsplit
    rw [startOf]
    omega
  rw [hnext] at hwhole
  rw [startOf] at hwhole
  have hinside : (items.take index).flatten.length + (items[index]).length ≤
      items.flatten.length := by
    omega
  rw [itemBytes]
  simp only [Int.toNat_natCast]
  rw [startOf, ← readAt_readAt buffer headerLen hinside, h.body, readAt_flatten hindex]

/-- The reader returns the items in order, and then no more. -/
theorem Finished.readerItems_eq (left : Nat) :
    ∀ (index : Nat) (reader : VarBlockReader), reader.buffer = buffer → reader.offsetToOffsetArray =
        (readerInit buffer bufferLen).offsetToOffsetArray →
      reader.nextIndex = index → reader.nextItemPtr = startOf items index →
      index + left = items.length → readerItems (left + 1) reader = (items.drop index, true) := by
  induction left with
  | zero =>
    intro index reader hbuffer _ hindex _ hend
    rw [readerItems, readerGetNextItemPtr, hbuffer,
      h.getItemCount_eq hfits.count, if_pos (by omega), drop_eq_nil_iff.mpr (by omega)]
  | succ left ih =>
    intro index reader hbuffer harray hindex hnext hend
    have hlt : index < items.length := by omega
    have hitem := h.getItemPtrAndLen_eq hfits hnear hlt hbuffer harray
    have hlen : getItemLen reader index = ((items[index]).length : Int) := congrArg Prod.snd hitem
    rw [readerItems, readerGetNextItemPtr, hbuffer,
      h.getItemCount_eq hfits.count, if_neg (by omega)]
    simp only [hindex, hlen, hnext]
    have hrest := ih (index + 1) ⟨buffer, reader.bufferLen, index + 1,
        ((startOf items index : Int) + (items[index]).length).toNat,
        reader.offsetToOffsetArray⟩ rfl harray rfl
      (by rw [startOf_succ hlt]; exact Int.toNat_natCast _) (by omega)
    rw [hrest, h.itemBytes_eq hlt, drop_eq_getElem_cons hlt]

end

/-- Whatever items a client offers to a new maker, in a buffer of any size with
any scratch space: the accepted items are in the finished block, and a reader
gets them back in order and by index, as long as they stay within the 24-bit
fields of the format. -/
theorem varBlock_roundTrip (buffer scratch : List Byte) (maxBufferLen : Nat)
    (hmax : headerLen ≤ maxBufferLen) (hbuffer : maxBufferLen ≤ buffer.length)
    (offered : List (List Byte)) {maker : VarBlockMaker} {items : List (List Byte)}
    (hrun : makerAddItems offered
      (makerInit buffer maxBufferLen scratch scratch.length) = (maker, items))
    (hsum : items.flatten.length < 2 ^ 24) (hcount : items.length < 2 ^ 24)
    (hlast : startOf items (items.length - 1) < 2 ^ 24) :
    ∃ (bufferLen : Nat) (block : List Byte), makerFinish maker = ((bufferLen : Int), block) ∧
      bufferLen ≤ maxBufferLen ∧ lenFromHeader block = bufferLen ∧ isValid block bufferLen = .ok ∧
      readerItems (items.length + 1) (readerInit block bufferLen) = (items, true) ∧
      ∀ index (hindex : index < items.length),
        itemBytes block (getItemPtrAndLen (readerInit block bufferLen) index) = items[index] := by
  have hfits : Fits24 items := ⟨hsum, hcount, hlast⟩
  obtain ⟨small, hfilled⟩ := makerAddItems_filled offered _ true []
    (makerInit_filled hmax hbuffer) (by rw [hrun]; exact hfits.sum30)
    (by rw [hrun]; exact hcount)
  rw [hrun, nil_append] at hfilled
  have hfinish := makerFinish_eq hfilled hfits.sum30 hcount
  have hblock := finishedBuffer_finished hfilled
  have hmaker : maker.maxBufferLen = maxBufferLen := by
    have hkept := makerAddItems_maxBufferLen offered
      (makerInit buffer maxBufferLen scratch scratch.length)
    rwa [hrun] at hkept
  refine ⟨_, _, hfinish, hmaker ▸ hfilled.fits, hblock.lenFromHeader_eq hfits,
    hblock.isValid_eq hfits hfilled.near, ?_, ?_⟩
  · exact hblock.readerItems_eq hfits hfilled.near items.length 0 _ rfl rfl rfl
      rfl (zero_add _)
  · intro index hindex
    rw [hblock.getItemPtrAndLen_eq hfits hfilled.near hindex rfl rfl, hblock.itemBytes_eq hindex]

namespace VarBlockWitness

theorem three_items_roundTrip :
    ∃ (bufferLen : Nat) (block : List Byte), makerFinish (makerAddItems [[1, 2, 3], [], [4]]
        (makerInit (List.replicate 40 7) 40 [0, 0, 0, 0, 0, 0] 6)).1 = ((bufferLen : Int), block) ∧
      readerItems 4 (readerInit block bufferLen) = ([[1, 2, 3], [], [4]], true) := by
  have hitems : (makerAddItems [[1, 2, 3], [], [4]]
      (makerInit (List.replicate 40 7) 40 [0, 0, 0, 0, 0, 0] 6)).2 = [[1, 2, 3], [], [4]] := by
    decide
  obtain ⟨bufferLen, block, hfinish, -, -, -, hread, -⟩ := varBlock_roundTrip
    (List.replicate 40 7) [0, 0, 0, 0, 0, 0] 40 (by decide) (by decide)
    [[1, 2, 3], [], [4]] (Prod.ext rfl hitems) (by decide) (by decide) (by decide)
  exact ⟨bufferLen, block, hfinish, hread⟩

/-- An item of 2^24 bytes in a buffer that has the place for it. -/
theorem finish_long_item {buffer item : List Byte}
    (hbuffer : buffer.length = 2 ^ 24 + 10) (hitem : item.length = 2 ^ 24) :
    ∃ maker, makerAddItem (makerInit buffer (2 ^ 24 + 10) [0, 0] 2) item = (maker, true) ∧
      (makerFinish maker).1 = 2 ^ 24 + 10 ∧ lenFromHeader (makerFinish maker).2 = 10 := by
  have hstart : Filled (makerInit buffer (2 ^ 24 + 10) [0, 0] 2) true [] :=
    makerInit_filled (by rw [headerLen]; omega) (le_of_eq hbuffer.symm)
  generalize hmaker : makerInit buffer (2 ^ 24 + 10) [0, 0] 2 = start at hstart ⊢
  have haccept : (makerAddItem start item).2 = true := by
    have hplace : ¬ start.maxItemCount ≤ start.currentItemCount := by
      rw [← hmaker]
      simp [makerInit]
    have hnear : ¬ last2ByteOffset < start.nextItemPtr := by
      rw [← hmaker]
      simp [makerInit, last2ByteOffset, headerLen]
    have hroom : ¬ ((start.maxBufferLen : Int) < newTotalLenSmall
        (int32 (start.currentItemLenSum + ((2 ^ 24 : Nat) : Int))) start.currentItemCount) := by
      have hsum : int32 (0 + ((2 ^ 24 : Nat) : Int)) = (2 ^ 24 : Nat) :=
        int32_eq (by omega) (by omega)
      rw [← hmaker]
      simp only [makerInit]
      rw [hsum, newTotalLenSmall_eq (by omega) (by omega)]
      simp [headerLen]
    rw [makerAddItem, makerGetNextItemPtr, hitem,
      getOffsetsAreSmall_maker hstart.word03, if_neg hplace]
    rw [if_pos rfl, if_neg hnear, if_neg hroom]
  have hmax : (makerAddItem start item).1.maxBufferLen = 2 ^ 24 + 10 := by
    rw [(makerAddItem_lens _ _).1, ← hmaker]
    rfl
  have hsum : [item].flatten.length = 2 ^ 24 := by simp [hitem]
  have hcount : [item].length < 2 ^ 24 := by simp
  obtain ⟨small, hfilled⟩ := makerAddItem_filled hstart (by simp [hitem]) (by simp) haccept
  rw [nil_append] at hfilled
  cases hadd : makerAddItem start item with
  | mk maker accepted =>
  rw [hadd] at haccept hfilled hmax
  simp only at haccept hfilled hmax
  have hblock := finishedBuffer_finished hfilled
  -- only two-byte offsets leave the place for the item
  have hsmall : small = true := by
    have hfits := hfilled.fits
    rw [hsum, hmax] at hfits
    cases small with
    | false => simp [headerLen, entryLen] at hfits
    | true => rfl
  subst hsmall
  have hfinish := makerFinish_eq hfilled (by omega) hcount
  refine ⟨maker, by rw [haccept], ?_, ?_⟩
  · rw [congrArg Prod.fst hfinish, hsum]
    simp [headerLen, entryLen]
  · rw [congrArg Prod.snd hfinish, lenFromHeader, hblock.getItemLenSum_mod (by omega),
      hblock.getItemCount_eq hcount, hblock.offsetLen_eq, hsum]
    simp [offsetToOffsetArray, headerLen, roundEven, int32, entryLen]

/-- The maker accepts the item and finishes a block of 2^24 + 10 bytes, but the
header of the block says that there are no item bytes. -/
theorem long_item_lost : ∃ maker, makerAddItem (makerInit (List.replicate (2 ^ 24 + 10) 0)
        (2 ^ 24 + 10) [0, 0] 2) (List.replicate (2 ^ 24) 0) = (maker, true) ∧
      (makerFinish maker).1 = 2 ^ 24 + 10 ∧ lenFromHeader (makerFinish maker).2 = 10 :=
  finish_long_item length_replicate length_replicate

end VarBlockWitness

end Greenplum.VarBlock
