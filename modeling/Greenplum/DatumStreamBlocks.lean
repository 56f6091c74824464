/-
Every block of a dense writer: what DatumStreamBlockWrite_CheckDenseInvariant compares agrees
after every call, and DatumStreamBlockWrite_BlockDense formats the block without an error.
The length field in the first byte of a compressed integer says how many bytes it has.
-/
import Greenplum.DatumStreamBounds

namespace Greenplum.DatumStream

open ByteNumbers Fallible List

section

variable (cfg : WriteConfig)

/-- A Put, accepted or not, or the start of a new block. -/
inductive WriteCall where
  | put (row : Option Datum)
  | getReady
deriving Repr, DecidableEq

def call (dsw : BlockWrite) : WriteCall → Except Failure BlockWrite
  | .put row => do
      let (_, dsw) ← put cfg dsw row
      .ok dsw
  | .getReady => .ok (getReady cfg dsw)

/-- The writer after these calls; a call that stores behind a buffer has no next state. -/
def calls (dsw : BlockWrite) (history : List WriteCall) : Except Failure BlockWrite :=
  history.foldlM (call cfg) dsw

variable {cfg} {dsw next : BlockWrite}

theorem call_bounded (hversion : cfg.version ≠ .original) (h : Bounded cfg dsw)
    {step : WriteCall} (hcall : call cfg dsw step = .ok next) : Bounded cfg next := by
  cases step with
  | put row =>
    have hput := put_spec cfg hversion h row
    obtain ⟨result, hresult, hnext⟩ := bind_eq_ok.mp hcall
    rw [hresult] at hput
    cases hnext
    exact hput.1
  | getReady =>
    cases hcall
    refine getReady_bounded cfg hversion (fun hwant => ?_) fun hwant => ?_
    · obtain ⟨hhas, hrepeated⟩ := h.not_repeated hwant
      exact ⟨hhas, hrepeated, h.unrepeated hhas, hhas ▸ h.compress, h.counts⟩
    · have hhas : dsw.deltaHasCompression = false := Bool.eq_false_iff.mpr fun hhas => by
        rw [(h.deltaWanted hhas).1] at hwant
        cases hwant
      exact ⟨hhas, hhas ▸ h.delta, h.deltas⟩

theorem calls_bounded (hversion : cfg.version ≠ .original) (history : List WriteCall) :
    ∀ {dsw : BlockWrite}, Bounded cfg dsw → calls cfg dsw history = .ok next →
      Bounded cfg next := by
  induction history with
  | nil =>
    intro dsw h hcalls
    cases hcalls
    exact h
  | cons step history ih =>
    intro dsw h hcalls
    obtain ⟨middle, hcall, hrest⟩ := bind_eq_ok.mp hcalls
    exact ih (call_bounded hversion h hcall) hrest

end

section

variable {cfg : WriteConfig} {dsw : BlockWrite}

inductive InvariantError where
  | nthPosition (found expected : Int)
  | nullOnCount (found expected : Int)
  | compressPosition (found expected : Int)
  | nullCount (found expected : Int)
  | deltaPosition (found expected : Int)
  | deltaCount (found expected : Int)
deriving Repr, DecidableEq

variable (failure : Int → Int → InvariantError)

def checkEqual (found expected : Int) : Except InvariantError Unit :=
  if found ≠ expected then .error (failure found expected) else .ok ()

def checkDenseInvariant (dsw : BlockWrite) : Except InvariantError Unit := do
  let nullOnCount := dsw.nullBitmap.bitOnCount
  let deltaOnCount := if dsw.deltaHasCompression then dsw.deltaBitmap.bitOnCount else 0
  let totalDatumCount := dsw.physicalDatumCount + deltaOnCount
  if !dsw.rleHasCompression then
    if !dsw.hasNull then checkEqual .nthPosition dsw.nth totalDatumCount
    else checkEqual .nullOnCount nullOnCount (dsw.nth - totalDatumCount)
  let compressCount := dsw.rleCompressBitmap.bitCount
  let compressOffCount : Int := compressCount - dsw.rleCompressBitmap.bitOnCount
  if dsw.rleHasCompression then
    checkEqual .compressPosition (compressCount - 1) (dsw.physicalDatumCount - 1 + deltaOnCount)
    if !dsw.hasNull then
      checkEqual .nthPosition dsw.nth (compressOffCount + dsw.rleTotalRepeatItemsWritten)
    else
      checkEqual .nthPosition dsw.nth
        (nullOnCount + compressOffCount + dsw.rleTotalRepeatItemsWritten)
      checkEqual .nullCount dsw.nullBitmap.bitCount (nullOnCount + compressCount)
  if dsw.deltaHasCompression then
    let deltaCount := dsw.deltaBitmap.bitCount
    checkEqual .deltaPosition (deltaCount - 1) (dsw.physicalDatumCount - 1 + deltaOnCount)
    if dsw.rleHasCompression then checkEqual .deltaCount deltaCount compressCount

theorem checkEqual_ok {found expected : Int}
    (h : found = expected) : checkEqual failure found expected = .ok () :=
  if_neg (not_not_intro h)

theorem Bounded.checkDenseInvariant (h : Bounded cfg dsw) :
    DatumStream.checkDenseInvariant dsw = .ok () := by
  have hdeltaOn : (if dsw.deltaHasCompression then dsw.deltaBitmap.bitOnCount else 0) =
      dsw.deltaBitmap.bitOnCount := by
    split
    case isTrue => rfl
    case isFalse hhas => exact (h.delta.unused (Bool.eq_false_iff.mpr hhas)).2.symm
  have hnth := h.nth
  have halways := h.always
  have hplain := fun hrle => And.intro (h.compress.unused hrle).2 (h.unrepeated hrle)
  have hnonull := fun hnull => (h.null.unused hnull).2
  have hnull := h.nullCount
  have hcompress := h.compressCount
  have hdelta := h.deltaCount
  unfold itemCount at hnth halways hcompress hdelta
  unfold DatumStream.checkDenseInvariant
  rw [hdeltaOn]
  cases hrle : dsw.rleHasCompression <;> cases hhas : dsw.hasNull <;>
    cases hdeltas : dsw.deltaHasCompression
  all_goals
    simp only [hrle, hhas, hdeltas, forall_const, reduceCtorEq, false_implies]
      at hplain hnonull hnull hcompress hdelta
    simp (disch := omega) [checkEqual_ok, ok_bind, pure, Except.pure]

end

section

variable {cfg : WriteConfig} {dsw : BlockWrite}

theorem length_encodedBytes (bits value : Nat) :
    (encodedBytes bits value).length = encodedSize bits value := by
  unfold encodedBytes encodedSize
  repeat' split
  all_goals rfl

theorem length_encodedCounts (counts : List Nat) :
    (counts.flatMap int32CompressEncode).length = (counts.map int32CompressSize).sum := by
  induction counts with
  | nil => rfl
  | cons count counts ih =>
    rw [flatMap_cons, length_append, ih, map_cons, sum_cons,
      int32CompressEncode, length_encodedBytes]
    rfl

theorem length_encodedDeltas (deltas : List (Nat × Bool)) :
    (deltas.flatMap fun delta => int32CompressReserved3Encode delta.1 delta.2).length =
      (deltas.map (int32CompressReserved3Size ·.1)).sum := by
  induction deltas with
  | nil => rfl
  | cons delta deltas ih =>
    have hlength : (int32CompressReserved3Encode delta.1 delta.2).length =
        int32CompressReserved3Size delta.1 := by
      unfold int32CompressReserved3Encode
      split
      · rw [length_modify, length_encodedBytes]
        rfl
      · exact length_encodedBytes 5 delta.1
    rw [flatMap_cons, length_append, ih, map_cons, sum_cons, hlength]

/-- After every call what the writer counts agrees, and the sizes are those of the repeat counts
and deltas in the format of the block.  A run in which a first delta is stored behind the buffer
of its bit-map has no next state, and nothing is said about it. -/
theorem denseCalls_invariant (hversion : cfg.version ≠ .original) {history : List WriteCall}
    (hcalls : calls cfg (init cfg) history = .ok dsw) :
    checkDenseInvariant dsw = .ok () ∧
      dsw.rleRepeatcountsCurrentSize = ((finalCounts dsw).flatMap int32CompressEncode).length ∧
      dsw.deltasCurrentSize = (dsw.deltas.flatMap fun delta =>
        int32CompressReserved3Encode delta.1 delta.2).length := by
  have h := calls_bounded hversion history (init_bounded cfg hversion) hcalls
  refine ⟨h.checkDenseInvariant, ?_, ?_⟩
  · rw [length_encodedCounts, h.sum_finalCounts]
  · rw [length_encodedDeltas, h.deltas]

theorem metadataSize_finalize (dsw : BlockWrite) :
    metadataSize (rleFinalizeIfRepeated dsw) = formattedSize dsw := by
  obtain ⟨lastItem, lastItemSize, -, heq⟩ := rleFinalizeIfRepeated_eq dsw
  rw [heq]
  rfl

theorem Bounded.length_formatMetadata (h : Bounded cfg dsw)
    (hfinal : dsw.rleLastItemIsRepeated = false) :
    (formatMetadata cfg dsw).length = metadataSize dsw := by
  have hcounts := h.sum_finalCounts
  have hdeltas := h.deltas
  have htake : ∀ {bmw : BitMapWrite}, Fits bmw → (bmw.buffer.take bmw.size).length = bmw.size :=
    fun hfits => length_take_of_le hfits.room
  rw [finalCounts, hfinal, if_neg Bool.false_ne_true, ← length_encodedCounts] at hcounts
  rw [← length_encodedDeltas] at hdeltas
  unfold formatMetadata metadataSize rleExtension deltaExtension
  cases dsw.hasNull <;> cases dsw.rleHasCompression <;> cases dsw.deltaHasCompression
  all_goals
    simp only [Bool.false_eq_true, if_true, if_false, length_append, length_leBytes,
      htake h.null.toFits, htake h.compress.toFits, htake h.delta.toFits, hcounts, ← hdeltas,
      length_nil]
    try omega

theorem integrityCheckDense_ok (hversion : cfg.version ≠ .original) (padding data : List Byte) :
    integrityCheckDense (formatMetadata cfg dsw ++ padding ++ data) = .ok () := by
  have htake : (formatMetadata cfg dsw ++ padding ++ data).take 2 =
      leBytes 2 cfg.version.number := by
    exact take_left' (length_leBytes 2 _)
  have hlength : ¬ (formatMetadata cfg dsw ++ padding ++ data).length < 16 := by
    simp only [formatMetadata, length_append, length_leBytes]
    omega
  unfold integrityCheckDense
  rw [if_neg hlength, htake]
  cases hkind : cfg.version with
  | original => exact absurd hkind hversion
  | dense => decide
  | denseEnhanced => decide

/-- In every block of a dense writer the formatted metadata have the size that was accounted
for, and the block is formatted within its size.  As above this leaves out the runs that store
behind the buffer of the delta bit-map: they end there. -/
theorem denseCalls_blockDense (hversion : cfg.version ≠ .original)
    (hmultiple : 8 ∣ cfg.maxDataBlockSize) (hheader : 16 ≤ cfg.maxDataBlockSize)
    {history : List WriteCall} (hcalls : calls cfg (init cfg) history = .ok dsw) :
    (formatMetadata cfg (rleFinalizeIfRepeated dsw)).length =
        metadataSize (rleFinalizeIfRepeated dsw) ∧
      maxAlign (metadataSize (rleFinalizeIfRepeated dsw)) + dsw.datumBuffer.length ≤
        cfg.maxDataBlockSize ∧ ∃ block, blockDense cfg dsw = .ok block := by
  have h := calls_bounded hversion history (init_bounded cfg hversion) hcalls
  have hrepeated : (rleFinalizeIfRepeated dsw).rleLastItemIsRepeated = false := by
    obtain ⟨lastItem, lastItemSize, -, heq⟩ := rleFinalizeIfRepeated_eq dsw
    rw [heq]
  have hlength := h.finalize.length_formatMetadata hrepeated
  have hspace := h.space hmultiple hheader
  rw [← metadataSize_finalize] at hspace
  refine ⟨hlength, hspace, ?_⟩
  have hbuffer : (rleFinalizeIfRepeated dsw).datumBuffer = dsw.datumBuffer := by
    obtain ⟨lastItem, lastItemSize, -, heq⟩ := rleFinalizeIfRepeated_eq dsw
    rw [heq]
  unfold blockDense
  dsimp only
  rw [if_neg (not_not_intro hlength), hbuffer, if_neg (Nat.not_lt_of_le hspace),
    integrityCheckDense_ok hversion]
  exact ⟨_, rfl⟩

end

namespace BlocksWitness

open DatumStreamWitness

/-- A NULL, two items, a repeat and a delta, and then a new block. -/
def history : List WriteCall :=
  [.put none, .put (some (.value 5)), .put (some (.value 5)), .put (some (.value 7)), .getReady,
    .put (some (.value 7)), .put (some (.value 8)), .put (some (.value 8))]

theorem history_ok : ∃ dsw, calls bigintColumn (init bigintColumn) history = .ok dsw := by
  have hok : (calls bigintColumn (init bigintColumn) history).isOk = true := by decide +kernel
  cases hcalls : calls bigintColumn (init bigintColumn) history with
  | ok dsw => exact ⟨dsw, rfl⟩
  | error failure =>
    rw [hcalls] at hok
    cases hok

theorem history_invariant : ∃ dsw, calls bigintColumn (init bigintColumn) history = .ok dsw ∧
    checkDenseInvariant dsw = .ok () := by
  obtain ⟨dsw, hcalls⟩ := history_ok
  exact ⟨dsw, hcalls, (denseCalls_invariant (by decide) hcalls).1⟩

theorem history_blockDense : ∃ dsw, calls bigintColumn (init bigintColumn) history = .ok dsw ∧
    ∃ block, blockDense bigintColumn dsw = .ok block := by
  obtain ⟨dsw, hcalls⟩ := history_ok
  exact ⟨dsw, hcalls, (denseCalls_blockDense (by decide) (by decide) (by decide) hcalls).2.2⟩

end BlocksWitness

/-- `DatumStreamInt32Compress_Size` of any `int32`. -/
def int32CompressSizeInt (value : Int) : Nat :=
  if value ≤ 0x3F then 1 else int32CompressSize value.toNat

/-- `DatumStreamInt32Compress_Encode` of any `int32`.  A negative one is below every
limit and is cut to one byte. -/
def int32CompressEncodeInt (value : Int) : List Byte :=
  if value ≤ 0x3F then [BitVec.ofInt 8 value] else int32CompressEncode value.toNat

/-- The number behind the `reserved` bits of the first byte, and how many bytes it takes. -/
def decodedNumber (reserved : Byte) (buffer : List Byte) : Option (Nat × Nat) := do
  let first ← buffer[0]?
  let high := (first &&& ~~~reserved).toNat
  match ((first &&& 0xC0) >>> 6).toNat + 1 with
  | 1 => some (high, 1)
  | 2 => some (high <<< 8 ||| (← buffer[1]?).toNat, 2)
  | 3 => some (high <<< 16 ||| (← buffer[1]?).toNat <<< 8 ||| (← buffer[2]?).toNat, 3)
  | 4 =>
      some (high <<< 24 ||| (← buffer[1]?).toNat <<< 16 ||| (← buffer[2]?).toNat <<< 8 |||
        (← buffer[3]?).toNat, 4)
  | _ => none

def int32CompressDecode (buffer : List Byte) : Option (Nat × Nat) := decodedNumber 0xC0 buffer

def int32CompressReserved3Decode (buffer : List Byte) : Option ((Nat × Bool) × Nat) := do
  let first ← buffer[0]?
  let (value, byteLen) ← decodedNumber 0xE0 buffer
  some ((value, first &&& 0x20 != 0), byteLen)

/-- `count` numbers that stand one behind the other, each with the bytes it took. -/
def decodeAll {α : Type} (decode : List Byte → Option (α × Nat)) :
    Nat → List Byte → Option (List (α × Nat))
  | 0, _ => some []
  | count + 1, buffer => do
      let (value, byteLen) ← decode buffer
      some ((value, byteLen) :: (← decodeAll decode count (buffer.drop byteLen)))

/-- A code whose words can be told from what follows them. -/
theorem decodeAll_flatMap {α : Type} {encode : α → List Byte}
    {decode : List Byte → Option (α × Nat)} {values : List α} (rest : List Byte)
    (hdecode : ∀ value ∈ values, ∀ rest,
      decode (encode value ++ rest) = some (value, (encode value).length)) :
    decodeAll decode values.length (values.flatMap encode ++ rest) =
      some (values.map fun value => (value, (encode value).length)) := by
  induction values with
  | nil => rfl
  | cons value values ih =>
      rw [length_cons, decodeAll, flatMap_cons, append_assoc, hdecode value mem_cons_self]
      simp only [Option.bind_eq_bind, Option.bind_some, drop_left]
      rw [ih fun other hother => hdecode other (mem_cons_of_mem value hother)]
      rfl

theorem or_mod (value width : Nat) : (value / 2 ^ width % 2 ^ 8) <<< width ||| value % 2 ^ width =
    value % 2 ^ (width + 8) := by
  have hlow := Nat.mod_lt value (Nat.two_pow_pos width)
  rw [← Nat.shiftLeft_add_eq_or_of_lt hlow, Nat.shiftLeft_eq, Nat.pow_add, Nat.mod_mul,
    Nat.add_comm, Nat.mul_comm]

theorem div_or_mod (value width : Nat) :
    (value / 2 ^ width) <<< width ||| value % 2 ^ width = value := by
  have hlow := Nat.mod_lt value (Nat.two_pow_pos width)
  rw [← Nat.shiftLeft_add_eq_or_of_lt hlow, Nat.shiftLeft_eq, Nat.div_add_mod']

theorem div_pow_lt {value bits width : Nat} (hlt : value < 2 ^ (bits + width)) :
    value / 2 ^ width < 2 ^ bits :=
  Nat.div_lt_of_lt_mul (by rwa [← Nat.pow_add, Nat.add_comm])

/-- In a first byte with `bits` bits of the number, `mark` leaves the length field and
the number alone, and the other bits are `reserved`. -/
def Readable (bits : Nat) (reserved : Byte) (mark : Byte → Byte) : Prop :=
  ∀ tag < 4, ∀ high < 2 ^ bits,
    let first := mark (BitVec.ofNat 8 (tag * 64) ||| BitVec.ofNat 8 high)
    ((first &&& 0xC0) >>> 6).toNat = tag ∧ (first &&& ~~~reserved).toNat = high

theorem Readable.decode {bits : Nat} {reserved : Byte} {mark : Byte → Byte}
    (hread : Readable bits reserved mark) {value : Nat} (hvalue : value < 2 ^ (bits + 24))
    (rest : List Byte) :
    decodedNumber reserved ((encodedBytes bits value).modify 0 mark ++ rest) =
        some (value, encodedSize bits value) ∧
      ∃ tag < 4, ∃ high < 2 ^ bits, ((encodedBytes bits value).modify 0 mark ++ rest)[0]? =
        some (mark (BitVec.ofNat 8 (tag * 64) ||| BitVec.ofNat 8 high)) := by
  have hlow := or_mod value 8
  have hmiddle := or_mod value 16
  unfold encodedBytes encodedSize
  split_ifs with h1 h2 h3
  · obtain ⟨htag, hnumber⟩ := hread 0 (by decide) value h1
    refine ⟨?_, 0, by decide, value, h1, by simp⟩
    simp_all [decodedNumber]
  · obtain ⟨htag, hnumber⟩ := hread 1 (by decide) _ (div_pow_lt h2)
    refine ⟨?_, 1, by decide, _, div_pow_lt h2, rfl⟩
    have hjoin := div_or_mod value 8
    simp_all [decodedNumber]
  · obtain ⟨htag, hnumber⟩ := hread 2 (by decide) _ (div_pow_lt h3)
    refine ⟨?_, 2, by decide, _, div_pow_lt h3, rfl⟩
    have hjoin := div_or_mod value 16
    simp_all [decodedNumber, Nat.or_assoc]
  · obtain ⟨htag, hnumber⟩ := hread 3 (by decide) _ (div_pow_lt hvalue)
    refine ⟨?_, 3, by decide, _, div_pow_lt hvalue, rfl⟩
    have hjoin := div_or_mod value 24
    simp_all [decodedNumber, Nat.or_assoc]

theorem decode_int32Compress {value : Nat} (hvalue : value < 2 ^ 30) (rest : List Byte) :
    int32CompressDecode (int32CompressEncode value ++ rest) =
      some (value, (int32CompressEncode value).length) := by
  have hread : Readable 6 0xC0 id := by
    unfold Readable
    decide +kernel
  have hdecode := (hread.decode hvalue rest).1
  rw [modify_id] at hdecode
  rw [int32CompressDecode, int32CompressEncode, hdecode, length_encodedBytes]

/-- The first byte of a number in the form with a sign. -/
def withSign (sign : Bool) : Byte → Byte := if sign then (· ||| 0x20) else id

theorem int32CompressReserved3Encode_eq (value : Nat) (sign : Bool) :
    int32CompressReserved3Encode value sign = (encodedBytes 5 value).modify 0 (withSign sign) := by
  cases sign with
  | false => simp [int32CompressReserved3Encode, withSign]
  | true => rfl

theorem decode_int32CompressReserved3 {value : Nat} (hvalue : value < 2 ^ 29) (sign : Bool)
    (rest : List Byte) :
    int32CompressReserved3Decode (int32CompressReserved3Encode value sign ++ rest) =
      some ((value, sign), (int32CompressReserved3Encode value sign).length) := by
  have hread : Readable 5 0xE0 (withSign sign) := by
    unfold Readable
    cases sign <;> decide +kernel
  have hsign : ∀ tag < 4, ∀ high < 2 ^ 5, (withSign sign
      (BitVec.ofNat 8 (tag * 64) ||| BitVec.ofNat 8 high) &&& 0x20 != 0) = sign := by
    cases sign <;> decide +kernel
  obtain ⟨hdecode, tag, htag, high, hhigh, hfirst⟩ := hread.decode hvalue rest
  rw [int32CompressReserved3Decode, int32CompressReserved3Encode_eq, hdecode, hfirst,
    length_modify, length_encodedBytes]
  exact congrArg (fun sign => some ((value, sign), _)) (hsign tag htag high hhigh)

theorem int32CompressEncodeInt_natCast (value : Nat) :
    int32CompressEncodeInt value = int32CompressEncode value := by
  unfold int32CompressEncodeInt
  split_ifs with hsmall
  · have hlt : value < 2 ^ 6 := by omega
    rw [int32CompressEncode, encodedBytes, if_pos hlt, BitVec.ofInt_natCast]
  · rw [Int.toNat_natCast]

/-- Numbers of 30 bits, and numbers of 29 bits with their signs, are read back one
behind the other, each with the bytes that were written for it. -/
theorem compressedIntegers_roundTrip (values : List Nat) (deltas : List (Nat × Bool))
    (rest : List Byte) (hvalues : ∀ value ∈ values, value < 2 ^ 30)
    (hdeltas : ∀ delta ∈ deltas, delta.1 < 2 ^ 29) :
    decodeAll int32CompressDecode values.length
        (values.flatMap (fun value : Nat => int32CompressEncodeInt value) ++ rest) =
      some (values.map fun value : Nat => (value, (int32CompressEncodeInt value).length)) ∧
    decodeAll int32CompressReserved3Decode deltas.length
        (deltas.flatMap (fun delta => int32CompressReserved3Encode delta.1 delta.2) ++ rest) =
      some (deltas.map fun delta =>
        (delta, (int32CompressReserved3Encode delta.1 delta.2).length)) ∧
    (∀ value : Int, int32CompressSizeInt value = (int32CompressEncodeInt value).length) ∧
    ∀ value sign, int32CompressReserved3Size value =
      (int32CompressReserved3Encode value sign).length := by
  refine ⟨decodeAll_flatMap rest fun value hvalue rest => ?_,
    decodeAll_flatMap rest fun delta hdelta rest => ?_, fun value => ?_, fun value sign => ?_⟩
  · rw [int32CompressEncodeInt_natCast]
    exact decode_int32Compress (hvalues value hvalue) rest
  · exact decode_int32CompressReserved3 (hdeltas delta hdelta) delta.2 rest
  · unfold int32CompressEncodeInt int32CompressSizeInt
    split_ifs
    · rfl
    · exact (length_encodedBytes 6 _).symm
  · rw [int32CompressReserved3Encode_eq, length_modify, length_encodedBytes]
    rfl

namespace IntegersWitness

theorem limits_roundTrip : decodeAll int32CompressDecode 2 ([0x3FFFFFFF, 64].flatMap
        (fun value : Nat => int32CompressEncodeInt value) ++ [9]) =
      some [(0x3FFFFFFF, 4), (64, 2)] :=
  (compressedIntegers_roundTrip [0x3FFFFFFF, 64] [(0x1FFFFFFF, false), (31, true)] [9]
    (by decide) (by decide)).1

/-- A negative number is one byte that announces four. -/
theorem negative_lost : int32CompressEncodeInt (-1) = [0xFF] ∧
      decodeAll int32CompressDecode 4 ([-1, 1, 2, 3].flatMap int32CompressEncodeInt) = none ∧
      int32CompressDecode ([-1, 1, 2, 3].flatMap int32CompressEncodeInt) =
        some (0x3F010203, 4) := by
  decide

end IntegersWitness

end Greenplum.DatumStream
