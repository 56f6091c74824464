/-
Which bytes a decompression reads.  The bit stream is asked for its bounds at
every bit, so that whatever a compressed bitmap holds, it is read inside the
input; the words of an uncompressed bitmap are copied without a look at the size.
-/
import Greenplum.BitmapRoundTrip

namespace Greenplum.BitmapCompression

open List Nat

section

/-- The byte offsets that `get` reads: every bit that `getBit` delivers is one of the
byte at its cursor. -/
def Bitstream.getReads : Nat → Bitstream → List Nat
  | 0, _ => []
  | n + 1, bitstream =>
    match bitstream.getBit with
    | (_, none) => []
    | (next, some _) => bitstream.byteOffset :: getReads n next

/-- The byte offsets that `bitmapDecompressInit` reads. -/
def initReads (inData : List Byte) (inDataSize : Nat) : List Nat :=
  (Bitstream.init inData inDataSize).getReads 1 ++
    match (Bitstream.init inData inDataSize).get 1 with
    | (_, none) => []
    | (bitstream, some _) =>
      match bitstream.skip 3 with
      | (_, false) => []
      | (bitstream, true) => bitstream.getReads 12

/-- The byte offsets that `decodeFlag` reads. -/
def flagReads (flag : Word) (bitstream : Bitstream) : List Nat :=
  if flag = Flag.zero.code ∨ flag = Flag.one.code then []
  else if flag = Flag.raw.code then bitstream.getReads 32
  else bitstream.getReads 8

/-- The byte offsets that `decompressLoop` reads. -/
def loopReads : Nat → Nat → Decoder → List Nat
  | 0, _, _ => []
  | left + 1, i, decoder =>
    if decoder.rleRepeatCount = 0 then
      decoder.bitstream.getReads 2 ++
        match decoder.bitstream.get 2 with
        | (_, none) => []
        | (bitstream, some flag) =>
          let decoder := decodeFlag flag i { decoder with bitstream := bitstream }
          flagReads flag bitstream ++
            loopReads left (i + 1) { decoder with lastBlockData := decoder.bitmap.getD i 0 }
    else
      loopReads left (i + 1)
        { decoder with
          bitmap := decoder.bitmap.set i decoder.lastBlockData
          rleRepeatCount := decoder.rleRepeatCount - 1 }

/-- The byte offsets that `bitmapDecompressDecompress` reads: of an uncompressed
bitmap all of its words. -/
def decompressReads (state : DecompressState) (bitmap : List Word) (bitmapDataSize : Nat) :
    List Nat :=
  if bitmapDataSize < state.blockCount then []
  else if state.compressionType = 0 then
    List.range' (state.bitstream.getAlignedData 16) (4 * state.blockCount)
  else if state.compressionType = 1 then
    loopReads state.blockCount 0 ⟨state.bitstream, bitmap, 0, 0, false⟩
  else []

variable {bitstream : Bitstream} {offset : Nat}

section

variable (bitstream : Bitstream)

theorem checkForError_dataSize : bitstream.checkForError.1.dataSize = bitstream.dataSize := by
  unfold Bitstream.checkForError
  split_ifs <;> rfl

theorem skip_dataSize (count : Nat) : (bitstream.skip count).1.dataSize = bitstream.dataSize := by
  have hcheck := checkForError_dataSize bitstream
  simp only [Bitstream.skip]
  split_ifs <;> exact hcheck

theorem getBit_dataSize : bitstream.getBit.1.dataSize = bitstream.dataSize := by
  have hcheck := checkForError_dataSize bitstream
  simp only [Bitstream.getBit, Bitstream.nextBit]
  split_ifs <;> exact hcheck

theorem getLoop_dataSize (n : Nat) : ∀ (v : Word) (bitstream : Bitstream),
    (Bitstream.getLoop n v bitstream).1.dataSize = bitstream.dataSize := by
  induction n with
  | zero => exact fun _ _ => rfl
  | succ n ih =>
    intro v bitstream
    have hbit := getBit_dataSize bitstream
    rw [Bitstream.getLoop]
    split
    · rename_i heq
      rwa [heq] at hbit
    · rename_i heq
      rw [heq] at hbit
      rw [ih, hbit]

theorem get_dataSize (n : Nat) : (bitstream.get n).1.dataSize = bitstream.dataSize :=
  getLoop_dataSize n 0 bitstream

end

theorem getBit_some {next : Bitstream} {bit : Bool} (h : bitstream.getBit = (next, some bit)) :
    bitstream.byteOffset < bitstream.dataSize := by
  by_contra hend
  have hnone : bitstream.getBit.2 = none := by
    cases herror : bitstream.error <;>
      simp [Bitstream.getBit, Bitstream.checkForError, herror, not_lt.mp hend]
  rw [h] at hnone
  cases hnone

theorem getReads_lt (n : Nat) : ∀ {bitstream : Bitstream},
    offset ∈ bitstream.getReads n → offset < bitstream.dataSize := by
  induction n with
  | zero => exact fun h => absurd h not_mem_nil
  | succ n ih =>
    intro bitstream h
    have hsize := getBit_dataSize bitstream
    rw [Bitstream.getReads] at h
    split at h
    · cases h
    · rename_i next _ hbit
      rw [hbit] at hsize
      rcases mem_cons.mp h with rfl | hlater
      · exact getBit_some hbit
      · exact hsize ▸ ih hlater

theorem flagReads_lt {flag : Word} (h : offset ∈ flagReads flag bitstream) :
    offset < bitstream.dataSize := by
  unfold flagReads at h
  split_ifs at h
  · cases h
  · exact getReads_lt 32 h
  · exact getReads_lt 8 h

theorem decodeFlag_dataSize (flag : Word) (i : Nat) (decoder : Decoder) :
    (decodeFlag flag i decoder).bitstream.dataSize = decoder.bitstream.dataSize := by
  have hraw := get_dataSize decoder.bitstream 32
  have hrle := get_dataSize decoder.bitstream 8
  unfold decodeFlag
  split_ifs
  · rfl
  · rfl
  · split <;> (rename_i heq; rwa [heq] at hraw)
  · split <;> (rename_i heq; rwa [heq] at hrle)

theorem loopReads_lt (left : Nat) : ∀ {i : Nat} {decoder : Decoder},
    offset ∈ loopReads left i decoder → offset < decoder.bitstream.dataSize := by
  induction left with
  | zero => exact fun h => absurd h not_mem_nil
  | succ left ih =>
    intro i decoder h
    have hget := get_dataSize decoder.bitstream 2
    rw [loopReads] at h
    split_ifs at h
    · rcases mem_append.mp h with hmark | hrest
      · exact getReads_lt 2 hmark
      · split at hrest
        · cases hrest
        · rename_i bitstream flag heq
          rw [heq] at hget
          rcases mem_append.mp hrest with hflag | hlater
          · exact hget ▸ flagReads_lt hflag
          · have hlt := ih hlater
            rwa [decodeFlag_dataSize, hget] at hlt
    · have hlt := ih h
      exact hlt

end

section

variable {size i : Nat} {decoder other : Decoder} {bitstream : Bitstream}

/-- Two runs on the same input into buffers that held different words.  Without a
failed read the words that were passed are the same. -/
structure Alike (size i : Nat) (decoder other : Decoder) : Prop where
  bitstream_eq : other.bitstream = decoder.bitstream
  repeat_eq : other.rleRepeatCount = decoder.rleRepeatCount
  failed_eq : other.failed = decoder.failed
  length_eq : decoder.bitmap.length = size
  other_length : other.bitmap.length = size
  words : decoder.failed = false → other.lastBlockData = decoder.lastBlockData ∧
    other.bitmap.take i = decoder.bitmap.take i

section

variable (h : Alike size i decoder other)

include h

theorem Alike.fail (next : Nat) (last last' : Word) :
    Alike size next { decoder with bitstream := bitstream, failed := true, lastBlockData := last }
      { other with bitstream := bitstream, failed := true, lastBlockData := last' } :=
  ⟨rfl, h.repeat_eq, rfl, h.length_eq, h.other_length, nofun⟩

/-- One word is written. -/
theorem Alike.write (hi : i < size) {word word' : Word}
    (hword : decoder.failed = false → word' = word) {last last' : Word}
    (hlast : decoder.failed = false → last' = last) (count : Nat) :
    Alike size (i + 1) ⟨bitstream, decoder.bitmap.set i word, last, count, decoder.failed⟩
      ⟨bitstream, other.bitmap.set i word', last', count, other.failed⟩ := by
  refine ⟨rfl, rfl, h.failed_eq, ?_, ?_, fun hok => ⟨hlast hok, ?_⟩⟩
  · rw [length_set, h.length_eq]
  · rw [length_set, h.other_length]
  · have hlt := h.length_eq ▸ hi
    have hlt' := h.other_length ▸ hi
    rw [take_add_one, take_add_one, take_set_of_le (le_refl _),
      take_set_of_le (le_refl _), (h.words hok).2, getElem?_set_self hlt,
      getElem?_set_self hlt', hword hok]

theorem Alike.set (hi : i < size) {word word' : Word}
    (hword : decoder.failed = false → word' = word) (count : Nat) :
    Alike size (i + 1)
      ⟨bitstream, decoder.bitmap.set i word, (decoder.bitmap.set i word).getD i 0, count,
        decoder.failed⟩
      ⟨bitstream, other.bitmap.set i word', (other.bitmap.set i word').getD i 0, count,
        other.failed⟩ := by
  refine h.write hi hword (fun hok => ?_) count
  rw [getD_eq_getElem?_getD, getElem?_set_self (h.other_length ▸ hi),
    getD_eq_getElem?_getD, getElem?_set_self (h.length_eq ▸ hi), hword hok]

theorem decodeFlag_alike (hi : i < size) (flag : Word) :
    Alike size (i + 1) { decodeFlag flag i decoder with
        lastBlockData := (decodeFlag flag i decoder).bitmap.getD i 0 }
      { decodeFlag flag i other with
        lastBlockData := (decodeFlag flag i other).bitmap.getD i 0 } := by
  unfold decodeFlag
  rw [h.bitstream_eq]
  split_ifs
  · exact h.repeat_eq ▸ h.bitstream_eq ▸ h.set hi (fun _ => rfl) _
  · exact h.repeat_eq ▸ h.bitstream_eq ▸ h.set hi (fun _ => rfl) _
  · split
    · exact h.fail _ _ _
    · exact h.repeat_eq ▸ h.set hi (fun _ => rfl) _
  · split
    · exact h.fail _ _ _
    · exact h.set hi (fun hok => (h.words hok).1) _

end

theorem decompressLoop_alike (left : Nat) : ∀ {i decoder other}, Alike size i decoder other →
    i + left = size →
    Alike size size (decompressLoop left i decoder) (decompressLoop left i other) := by
  induction left with
  | zero => exact fun {i decoder other} h hsum => hsum ▸ h
  | succ left ih =>
    intro i decoder other h hsum
    rw [decompressLoop, decompressLoop, h.repeat_eq, h.bitstream_eq]
    split_ifs with hnone
    · split
      · exact ⟨rfl, rfl, rfl, h.length_eq, h.other_length, by simp⟩
      · refine ih (decodeFlag_alike ?_ (by omega) _) (by omega)
        exact ⟨rfl, rfl, h.failed_eq, h.length_eq, h.other_length, h.words⟩
    · have hlast := fun hok => (h.words hok).1
      exact ih (h.write (by omega) hlast hlast _) (by omega)

theorem length_bytesWords (count : Nat) : ∀ bytes, (bytesWords count bytes).length = count := by
  induction count with
  | zero => exact fun _ => rfl
  | succ count ih =>
    intro bytes
    rw [bytesWords, length_cons, ih]

/-- A decompression fills the whole buffer or ends with an error; what the buffer
held before does not matter. -/
theorem bitmapDecompressDecompress_fills (state : DecompressState) {bitmap other : List Word}
    (hlength : bitmap.length = state.blockCount) (hother : other.length = state.blockCount) :
    bitmapDecompressDecompress state other state.blockCount =
        bitmapDecompressDecompress state bitmap state.blockCount ∧
      ∀ words, bitmapDecompressDecompress state bitmap state.blockCount = .ok words →
        words.length = state.blockCount := by
  unfold bitmapDecompressDecompress
  rw [if_neg (lt_irrefl _), if_neg (lt_irrefl _)]
  split_ifs
  · rw [drop_of_length_le (le_of_eq hlength), drop_of_length_le (le_of_eq hother)]
    refine ⟨rfl, fun words hwords => ?_⟩
    obtain rfl := Except.ok.inj hwords
    rw [append_nil, length_bytesWords]
  · have hrun := decompressLoop_alike state.blockCount
      (show Alike state.blockCount 0 ⟨state.bitstream, bitmap, 0, 0, false⟩
        ⟨state.bitstream, other, 0, 0, false⟩ from
        ⟨rfl, rfl, rfl, hlength, hother, fun _ => ⟨rfl, rfl⟩⟩) (zero_add _)
    dsimp only
    rw [hrun.repeat_eq, hrun.failed_eq]
    split_ifs with hrepeat hfailed
    · exact ⟨rfl, nofun⟩
    · exact ⟨rfl, nofun⟩
    · have hwords := (hrun.words (Bool.eq_false_iff.mpr hfailed)).2
      rw [take_of_length_le (le_of_eq hrun.length_eq),
        take_of_length_le (le_of_eq hrun.other_length)] at hwords
      exact ⟨congrArg _ hwords, fun words heq => Except.ok.inj heq ▸ hrun.length_eq⟩
  · exact ⟨rfl, nofun⟩

end

section

variable {data : List Byte} {size position : Nat}

/-- Reading bits moves the cursor behind them. -/
theorem getLoop_some (n : Nat) : ∀ {position : Nat} {v value : Word} {bitstream : Bitstream},
    Bitstream.getLoop n v (streamAt data size position) = (bitstream, some value) →
    bitstream = streamAt data size (position + n) := by
  induction n with
  | zero =>
    intro position v value bitstream h
    exact (congrArg Prod.fst h).symm
  | succ n ih =>
    intro position v value bitstream h
    rw [Bitstream.getLoop] at h
    by_cases hinside : position < 8 * size
    · rw [getBit_at hinside] at h
      rw [ih h, add_right_comm, add_assoc]
    · have hnone : (streamAt data size position).getBit.2 = none := by
        simp [Bitstream.getBit, checkForError_end (not_lt.mp hinside)]
      split at h
      · cases h
      · rename_i heq
        rw [heq] at hnone
        cases hnone

/-- Behind the header the cursor stands at the third byte. -/
theorem bitmapDecompressInit_stream {state : DecompressState}
    (h : bitmapDecompressInit data size = (state, true)) :
    state.bitstream = streamAt data size 16 := by
  unfold bitmapDecompressInit at h
  rw [init_eq] at h
  split at h
  · cases h
  · rename_i hfirst
    rw [getLoop_some 1 hfirst] at h
    split at h
    · cases h
    · rename_i hskip
      by_cases hinside : 0 + 1 < 8 * size
      · rw [skip_at hinside] at hskip
        obtain rfl := congrArg Prod.fst hskip
        split at h
        · cases h
        · rename_i hsecond
          obtain rfl := (congrArg Prod.fst h).symm
          exact getLoop_some 12 hsecond
      · simp [Bitstream.skip, checkForError_end (not_lt.mp hinside)] at hskip

theorem initReads_lt {offset : Nat} (h : offset ∈ initReads data size) : offset < size := by
  rcases mem_append.mp h with hfirst | hrest
  · exact getReads_lt 1 hfirst
  · split at hrest
    · cases hrest
    · rename_i heq
      have hget := get_dataSize (Bitstream.init data size) 1
      rw [heq] at hget
      split at hrest
      · cases hrest
      · rename_i bitstream _ _ next hskip
        have hsize := skip_dataSize bitstream 3
        rw [hskip] at hsize
        exact lt_of_lt_of_eq (getReads_lt 12 hrest) (hsize.trans hget)

/-- The input is decompressed, or refused, without a look at what is behind it. -/
structure Inside (inData : List Byte) : Prop where
  init : ∀ offset ∈ initReads inData inData.length, offset < inData.length
  decompress : ∀ state, bitmapDecompressInit inData inData.length = (state, true) →
    (∃ outcome, (∀ bitmap, bitmap.length = state.blockCount →
        bitmapDecompressDecompress state bitmap state.blockCount = outcome) ∧
      ∀ words, outcome = .ok words → words.length = state.blockCount) ∧
    ∀ bitmap, bitmap.length = state.blockCount →
      ∀ offset ∈ decompressReads state bitmap state.blockCount, offset < inData.length

/-- Every input is decompressed inside its bounds if and only if the words of an
uncompressed bitmap are all there. -/
theorem inside_iff (inData : List Byte) :
    Inside inData ↔ ∀ state, bitmapDecompressInit inData inData.length = (state, true) →
      state.compressionType = 0 → 4 * state.blockCount ≤ inData.length - 2 := by
  have hword : ∀ state, bitmapDecompressInit inData inData.length = (state, true) →
      state.bitstream.dataSize = inData.length ∧ state.bitstream.getAlignedData 16 = 2 := by
    intro state hinit
    rw [bitmapDecompressInit_stream hinit]
    exact ⟨rfl, getAlignedData_header _ _⟩
  constructor
  · intro h state hinit htype
    have hreads := (h.decompress state hinit).2 (List.replicate state.blockCount 0) (by simp)
      (2 + (4 * state.blockCount - 1))
    rw [decompressReads, if_neg (lt_irrefl _), if_pos htype, (hword state hinit).2,
      mem_range'_1] at hreads
    omega
  · intro h
    refine ⟨fun offset => initReads_lt, fun state hinit => ⟨?_, ?_⟩⟩
    · have hzeros : (List.replicate state.blockCount (0 : Word)).length = state.blockCount :=
        length_replicate
      exact ⟨_, fun _ hlength => (bitmapDecompressDecompress_fills state hzeros hlength).1,
        (bitmapDecompressDecompress_fills state hzeros hzeros).2⟩
    · intro bitmap hlength offset hoffset
      unfold decompressReads at hoffset
      rw [if_neg (lt_irrefl _)] at hoffset
      split_ifs at hoffset with htype
      · have hroom := h state hinit htype
        rw [(hword state hinit).2, mem_range'_1] at hoffset
        omega
      · exact (hword state hinit).1 ▸ loopReads_lt _ hoffset
      · cases hoffset

end

namespace BoundsWitness

/-- A header of two bytes that announces 4095 words without compression. -/
theorem header_not_inside : ¬ Inside [0x0F, 0xFF] := by
  intro h
  have hlast := (h.decompress ⟨streamAt [0x0F, 0xFF] 2 16, 0, 4095⟩ (by decide)).2
    (List.replicate 4095 0) length_replicate 2 (mem_range'_1.mpr (by decide))
  exact absurd hlast (by decide)

end BoundsWitness

end Greenplum.BitmapCompression
