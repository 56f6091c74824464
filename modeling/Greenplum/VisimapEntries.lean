/-
What one entry of the visibility map holds: hiding a tuple adds its offset to
the bitmap, and the bitmap comes back from the data it was written to.
-/
import Greenplum.BitmapRoundTrip
import Greenplum.Visimap

namespace Greenplum.Visimap

open BitmapCompression ByteMemory ByteNumbers List Nat

/-- The words that a bitmap of a full range has. -/
def maxWords : Nat := 1024

theorem getD_append_zeros (a : Bitmapset) (count i : Nat) :
    (a ++ List.replicate count 0).getD i 0 = a.getD i 0 := by
  rw [getD_eq_getElem?_getD, getD_eq_getElem?_getD, getElem?_append]
  split
  · rfl
  · rename_i hge
    rw [getElem?_replicate, getElem?_eq_none (not_lt.mp hge)]
    split <;> rfl

theorem bmsIsMember_resize (a : Bitmapset) (wc x : Nat) :
    bmsIsMember x (bmsResize a wc) = bmsIsMember x a := by
  rw [bmsIsMember, bmsResize]
  split
  · rfl
  · rw [getD_append_zeros]
    rfl

theorem length_bmsResize (a : Bitmapset) (wc : Nat) :
    (bmsResize a wc).length = max a.length wc := by
  rw [bmsResize]
  split
  · omega
  · rw [length_append, length_replicate]
    omega

theorem length_bmsAddMember {a : Bitmapset} {x : Nat} (hcovers : x / 32 < a.length) :
    (bmsAddMember a x).length = a.length := by
  rw [bmsAddMember, if_neg (not_le.mpr hcovers), length_modify]

theorem bmsIsMember_addMember {a : Bitmapset} {x : Nat} (hcovers : x / 32 < a.length)
    (y : Nat) : bmsIsMember y (bmsAddMember a x) = (decide (y = x) || bmsIsMember y a) := by
  have hbit : ∀ bit < 32, (1#32 <<< (x % 32)).getLsbD bit = decide (bit = x % 32) := by
    intro bit hlt
    by_cases heq : bit = x % 32
    · simp [heq, mod_lt x (show 0 < 32 by decide)]
    · have hone : BitVec.getLsbD 1#32 (bit - x % 32) = false ∨ bit < x % 32 := by
        rcases lt_or_ge bit (x % 32) with hless | hmore
        · exact .inr hless
        · simp
          omega
      rcases hone with hone | hless
      · simp [heq, hone]
      · simp [heq, hless]
  rw [bmsIsMember, bmsIsMember, bmsAddMember, if_neg (not_le.mpr hcovers),
    getD_eq_getElem?_getD, getD_eq_getElem?_getD, getElem?_modify]
  by_cases hword : x / 32 = y / 32
  · have hget : a[y / 32]? = some a[y / 32] := getElem?_eq_getElem (hword ▸ hcovers)
    have heq : (y % 32 = x % 32) ↔ y = x := by omega
    simp [hget, hword, hbit _ (mod_lt y (show 0 < 32 by decide)), heq, Bool.or_comm]
  · have hne : y ≠ x := fun h => hword (congrArg (· / 32) h.symm)
    simp [hword, hne]

/-- The size that the bitmap grows to covers the offset and stays in range. -/
theorem getMinimalSizeToCover_bounds {offset : Nat} (hoffset : offset < maxRange) :
    offset / 32 < getMinimalSizeToCover offset ∧ getMinimalSizeToCover offset ≤ maxWords := by
  have hall : ∀ word < 1024, word < getMinimalSizeToCover (word * 32) ∧
      getMinimalSizeToCover (word * 32) ≤ maxWords := by
    decide +kernel
  have hword : offset / 32 < 1024 := by
    unfold maxRange at hoffset
    omega
  have hsame : getMinimalSizeToCover offset = getMinimalSizeToCover (offset / 32 * 32) := by
    rw [getMinimalSizeToCover, getMinimalSizeToCover, Nat.mul_div_cancel _ (show 0 < 32 by decide)]
  rw [hsame]
  exact hall _ hword

section

variable {entry : Entry} {tupleId : AOTupleId}

/-- The place of the tuple in the bitmap of its range. -/
def AOTupleId.offset (tupleId : AOTupleId) : Nat := tupleId.rowNum % maxRange

theorem AOTupleId.offset_lt (tupleId : AOTupleId) : tupleId.offset < maxRange :=
  mod_lt _ (by decide)

theorem AOTupleId.firstRowNum_add_offset (tupleId : AOTupleId) :
    tupleId.firstRowNum + tupleId.offset = tupleId.rowNum := by
  rw [AOTupleId.firstRowNum, AOTupleId.offset, mul_comm]
  exact div_add_mod _ _

theorem getRownumOffset_eq (hfirst : entry.firstRowNum = tupleId.firstRowNum) :
    getRownumOffset entry tupleId.rowNum = tupleId.offset := by
  have hsum := tupleId.firstRowNum_add_offset
  rw [getRownumOffset, hfirst, ← hsum]
  omega

/-- The range of the tuple is the only one that covers it. -/
theorem coversTuple_iff
    (hrange : isValid entry = true → ∃ n : Nat, entry.firstRowNum = ↑(n * maxRange)) :
    coversTuple entry tupleId = true ↔ entry.segmentFileNum = tupleId.segmentFileNum ∧
        entry.firstRowNum = tupleId.firstRowNum := by
  have hsum := tupleId.firstRowNum_add_offset
  have hlt := tupleId.offset_lt
  simp only [coversTuple, Bool.and_eq_true, beq_iff_eq, decide_eq_true_eq]
  constructor
  · rintro ⟨⟨hvalid, hseg⟩, hlow, hhigh⟩
    rcases hrange hvalid with ⟨n, hn⟩
    have hquot : n = tupleId.rowNum / maxRange := by
      symm
      apply (Nat.div_eq_iff (by decide)).mpr
      omega
    exact ⟨hseg, by rw [hn, hquot, AOTupleId.firstRowNum]⟩
  · rintro ⟨hseg, hfirst⟩
    have hvalid : isValid entry = true := by
      rw [isValid, hseg, hfirst]
      simp
    refine ⟨⟨hvalid, hseg⟩, ?_⟩
    omega

/-- The answer of a call: was the tuple hidden, and if so, was the entry dirty. -/
def Answers (hidden dirty : Prop) : HTSUResult → Prop
  | .mayBeUpdated => ¬ hidden
  | .selfUpdated => hidden ∧ dirty
  | .updated => hidden ∧ ¬ dirty

/-- Hiding a tuple of the entry's range adds the tuple to the bitmap and makes
the entry dirty. -/
theorem hideTuple_spec (hfirst : entry.firstRowNum = tupleId.firstRowNum)
    (hlength : entry.bitmap.length ≤ maxWords) :
    ∃ result bitmap, hideTuple entry tupleId =
        .ok (result, { entry with bitmap := bitmap, dirty := true }) ∧ bitmap.length ≤ maxWords ∧
      (∀ x, bmsIsMember x bitmap = true ↔ x = tupleId.offset ∨ bmsIsMember x entry.bitmap = true) ∧
      Answers (bmsIsMember tupleId.offset entry.bitmap = true) (entry.dirty = true) result := by
  have hoffset := getRownumOffset_eq hfirst
  have hbounds := getMinimalSizeToCover_bounds tupleId.offset_lt
  -- the bitmap after it was made large enough
  obtain ⟨grown, hgrown, hcovers, hgrownLength, hgrownMember⟩ : ∃ grown,
      (if !bmsCoversMember entry.bitmap tupleId.offset then
        bmsResize entry.bitmap (getMinimalSizeToCover tupleId.offset)
      else entry.bitmap) = grown ∧ tupleId.offset / 32 < grown.length ∧ grown.length ≤ maxWords ∧
        ∀ x, bmsIsMember x grown = bmsIsMember x entry.bitmap := by
    cases hsmall : bmsCoversMember entry.bitmap tupleId.offset with
    | true => exact ⟨entry.bitmap, rfl, of_decide_eq_true hsmall, hlength, fun _ => rfl⟩
    | false =>
      refine ⟨bmsResize entry.bitmap (getMinimalSizeToCover tupleId.offset), rfl, ?_, ?_,
        bmsIsMember_resize entry.bitmap _⟩
      · rw [length_bmsResize]
        omega
      · rw [length_bmsResize]
        omega
  have hpos : ¬ (tupleId.offset : Int) < 0 := Int.not_lt.mpr (Int.natCast_nonneg _)
  simp only [hideTuple, hoffset, if_neg hpos, Int.toNat_natCast, hgrown]
  cases hmember : bmsIsMember tupleId.offset grown with
  | false =>
    refine ⟨.mayBeUpdated, bmsAddMember grown tupleId.offset, rfl, ?_, ?_, ?_⟩
    · rw [length_bmsAddMember hcovers]
      exact hgrownLength
    · intro x
      rw [bmsIsMember_addMember hcovers, hgrownMember, Bool.or_eq_true, decide_eq_true_eq]
    · rw [hgrownMember] at hmember
      exact Bool.eq_false_iff.mp hmember
  | true =>
    have hkept : ∀ x, bmsIsMember x grown = true ↔
        x = tupleId.offset ∨ bmsIsMember x entry.bitmap = true := by
      intro x
      rw [← hgrownMember]
      exact ⟨.inr, fun h => h.elim (fun heq => heq ▸ hmember) id⟩
    have hhidden := hgrownMember tupleId.offset ▸ hmember
    cases hdirty : entry.dirty with
    | true => exact ⟨.selfUpdated, grown, rfl, hgrownLength, hkept, hhidden, rfl⟩
    | false => exact ⟨.updated, grown, rfl, hgrownLength, hkept, hhidden, Bool.false_ne_true⟩

end

/-- On-disk data of a bitmap with these words. -/
structure Holds (data : List Byte) (words : Bitmapset) : Prop where
  header : dataHeaderSize ≤ data.length
  varsize_eq : varsize data = data.length
  decodes : Decodes (data.drop dataHeaderSize) words

theorem Holds.readData (entry : Entry) {words : Bitmapset} (h : Holds entry.data words) :
    readData entry (varsize entry.data - dataHeaderSize) = .ok { entry with bitmap := words } := by
  rcases h.decodes with ⟨state, hinit, herror, hblocks, hdecompress⟩
  have hsize : varsize entry.data - dataHeaderSize = (entry.data.drop dataHeaderSize).length := by
    rw [h.varsize_eq, length_drop]
  have hread : readAt entry.data dataHeaderSize (entry.data.drop dataHeaderSize).length =
      entry.data.drop dataHeaderSize := by
    rw [readAt, take_length]
  have hwords := hdecompress (List.replicate words.length 0) (by simp)
  rw [length_replicate, drop_of_length_le (by simp), append_nil] at hwords
  simp only [Visimap.readData, hsize, hread, hinit, herror, hblocks, hwords]
  by_cases hsome : words.length > 0
  · simp [hsome]
  · have hnil : words = [] := length_eq_zero_iff.mp (by omega)
    simp [hnil]

theorem Holds.unique {data : List Byte} {words words' : Bitmapset}
    (h : Holds data words) (h' : Holds data words') : words = words' := by
  have hread := Holds.readData { entryInit with data := data } h
  have hread' := Holds.readData { entryInit with data := data } h'
  rw [hread] at hread'
  exact congrArg Entry.bitmap (Except.ok.inj hread')

theorem varsize_header {size : Nat} (hsize : size < 2 ^ 30) (rest : List Byte) :
    varsize (beBytes 4 size ++ rest) = size := by
  rw [varsize, take_left' (length_beBytes 4 size), beNat_beBytes,
    mod_eq_of_lt (show size < 256 ^ 4 by omega), mod_eq_of_lt hsize]

/-- The data that a bitmap of a full range needs at most. -/
def maxDataSize : Nat := dataHeaderSize + (4 * maxWords + 2)

theorem writeData_spec {entry : Entry} (hlength : entry.bitmap.length ≤ maxWords) :
    ∃ data, writeData entry = .ok { entry with data := data } ∧
      Holds data entry.bitmap ∧ data.length ≤ maxDataSize := by
  unfold maxWords at hlength
  obtain ⟨length, out, hcompress, hlow, hhigh, hout, hdecodes⟩ :=
    bitmapCompress_decodes entry.bitmap (by omega)
  have htake : (out.take length).length = length := by
    rw [length_take]
    omega
  have hsmall : dataHeaderSize + length < 2 ^ 30 := by
    unfold dataHeaderSize
    omega
  simp only [writeData, hcompress, mod_eq_of_lt hsmall]
  refine ⟨_, rfl, ⟨?_, ?_, ?_⟩, ?_⟩
  · simp [dataHeaderSize]
    omega
  · rw [append_assoc, varsize_header hsmall]
    simp [htake, dataHeaderSize]
    omega
  · exact hdecodes
  · simp [htake, maxDataSize, maxWords, dataHeaderSize]
    omega

section

variable {row : Row} {words : Bitmapset}

/-- The bitmap of a row; NULL stands for the bitmap without members. -/
def Row.Holds (row : Row) (words : Bitmapset) : Prop :=
  match row.visimap with
  | none => words = []
  | some value => Visimap.Holds value words ∧ words.length ≤ maxWords

theorem Row.Holds.length_le (h : row.Holds words) : words.length ≤ maxWords := by
  unfold Row.Holds at h
  cases hvisimap : row.visimap with
  | none =>
    rw [hvisimap] at h
    rw [h]
    exact zero_le _
  | some value =>
    rw [hvisimap] at h
    exact h.2

theorem Row.Holds.unique {words' : Bitmapset} (h : row.Holds words)
    (h' : row.Holds words') : words = words' := by
  unfold Row.Holds at h h'
  cases hvisimap : row.visimap with
  | none =>
    rw [hvisimap] at h h'
    exact h.trans h'.symm
  | some value =>
    rw [hvisimap] at h h'
    exact h.1.unique h'.1

theorem copyout_spec (entry : Entry) (h : row.Holds words) :
    ∃ data, copyout entry row = .ok { entry with
        data := data
        bitmap := words
        segmentFileNum := row.segno
        firstRowNum := row.firstRowNum } := by
  unfold Row.Holds at h
  cases hvisimap : row.visimap with
  | none =>
    rw [hvisimap] at h
    simp only [copyout, hvisimap]
    rw [h]
    exact ⟨entry.data, rfl⟩
  | some value =>
    rw [hvisimap] at h
    simp only [copyout, hvisimap]
    exact ⟨value, Visimap.Holds.readData
      { entry with
        data := value
        segmentFileNum := row.segno
        firstRowNum := row.firstRowNum } h.1⟩

theorem bmsIsMember_of_isEmpty {a : Bitmapset} (hempty : bmsIsEmpty a = true) (x : Nat) :
    bmsIsMember x a = false := by
  rw [bmsIsMember, getD_eq_getElem?_getD]
  cases hget : a[x / 32]? with
  | none => simp
  | some word =>
    have hzero := all_eq_true.mp hempty word (mem_of_getElem? hget)
    rw [Option.getD_some, beq_iff_eq.mp hzero]
    exact BitVec.getLsbD_zero

/-- The tuple that an entry is persisted as has the members of its bitmap. -/
theorem entryWrite_spec {entry : Entry} (hlength : entry.bitmap.length ≤ maxWords) :
    ∃ visimap data words,
      entryWrite entry = .ok (visimap, { entry with data := data, dirty := false }) ∧
      (∀ tid, (Row.mk tid entry.segmentFileNum entry.firstRowNum visimap).Holds words) ∧
      ∀ x, bmsIsMember x words = bmsIsMember x entry.bitmap := by
  unfold entryWrite
  cases hempty : bmsIsEmpty entry.bitmap with
  | true =>
    refine ⟨none, entry.data, [], rfl, fun _ => rfl, fun x => ?_⟩
    rw [bmsIsMember_of_isEmpty hempty, bmsIsMember]
    exact BitVec.getLsbD_zero
  | false =>
    obtain ⟨data, hwrite, hholds, -⟩ := writeData_spec hlength
    rw [hwrite]
    exact ⟨some data, data, entry.bitmap, rfl, fun _ => ⟨hholds, hlength⟩, fun _ => rfl⟩

end

end Greenplum.Visimap
