/-
A compressed bitmap decompresses to itself.  Both sides meet at a list of
tokens: the encoder writes the bits of tokens that expand to the words it has
seen, and the decoder, standing in front of the bits of tokens, produces the
words they expand to.
-/
import Greenplum.BitmapCompression

namespace Greenplum.BitmapCompression

open BitCursor List Nat

section

/-- A stream without error whose cursor stands at a bit position. -/
def streamAt (data : List Byte) (size position : Nat) : Bitstream :=
  ⟨position % 8, position / 8, data, size, false⟩

theorem init_eq (data : List Byte) (size : Nat) :
    Bitstream.init data size = streamAt data size 0 := rfl

variable {data : List Byte} {size position : Nat}

theorem checkForError_end (hend : 8 * size ≤ position) :
    (streamAt data size position).checkForError.2 = false := by
  have hbyte : size ≤ position / 8 := by omega
  simp [Bitstream.checkForError, streamAt, hbyte]

theorem nextBit_at : (streamAt data size position).nextBit = streamAt data size (position + 1) := by
  by_cases hlast : position % 8 + 1 = 8
  · have hbit : (position + 1) % 8 = 0 := by omega
    have hbyte : (position + 1) / 8 = position / 8 + 1 := by omega
    simp [Bitstream.nextBit, streamAt, hlast, hbit, hbyte]
  · have hbit : (position + 1) % 8 = position % 8 + 1 := by omega
    have hbyte : (position + 1) / 8 = position / 8 := by omega
    simp [Bitstream.nextBit, streamAt, hlast, hbit, hbyte]

theorem putBit_end (hend : 8 * size ≤ position) (v : Bool) :
    ((streamAt data size position).putBit v).2 = false := by
  simp [Bitstream.putBit, checkForError_end hend]

section

variable (hinside : position < 8 * size)

include hinside

theorem checkForError_at :
    (streamAt data size position).checkForError = (streamAt data size position, true) := by
  have hbyte : ¬ size ≤ position / 8 := by omega
  simp [Bitstream.checkForError, streamAt, hbyte]

theorem getBit_at : (streamAt data size position).getBit =
      (streamAt data size (position + 1), some (msbBit data position)) := by
  have hplace : position % 8 < 8 := mod_lt _ (by decide)
  rw [Bitstream.getBit, checkForError_at hinside]
  simp only [↓reduceIte, nextBit_at]
  rw [msbBit, ← and_maskMsb_ne_zero _ hplace]
  rfl

theorem putBit_at (v : Bool) :
    (streamAt data size position).putBit v = (streamAt (if v then data.modify (position / 8)
        (fun byte => byte ||| 1#8 <<< (7 - position % 8)) else data)
        size (position + 1), true) := by
  rw [Bitstream.putBit, checkForError_at hinside]
  simp only [↓reduceIte, ← nextBit_at]
  rfl

theorem skip_at (count : Nat) :
    (streamAt data size position).skip count = (streamAt data size (position + count), true) := by
  have hbit : (position % 8 + count) % 8 = (position + count) % 8 := by omega
  have hbyte : position / 8 + (position % 8 + count) / 8 = (position + count) / 8 := by omega
  rw [Bitstream.skip, checkForError_at hinside]
  simp [streamAt, hbit, hbyte]

end

/-- Reading a number: the bits read so far are its high bits. -/
theorem getLoop_at (value : Word) (width : Nat) :
    ∀ position, position + width ≤ 8 * size → Window data position (bitsMsb width value) →
      Bitstream.getLoop width (value >>> width) (streamAt data size position) =
        (streamAt data size (position + width), some value) := by
  induction width with
  | zero =>
    simp [Bitstream.getLoop]
  | succ width ih =>
    intro position hinside hwindow
    rw [Bitstream.getLoop, getBit_at (by omega)]
    simp only
    rw [hwindow.1, shiftRight_succ_push, ih (position + 1) (by omega) hwindow.2]
    congr 2
    omega

theorem get_at (width : Nat) {value : Word} (hvalue : value.toNat < 2 ^ width)
    (hinside : position + width ≤ 8 * size) (hwindow : Window data position (bitsMsb width value)) :
    (streamAt data size position).get width =
      (streamAt data size (position + width), some value) := by
  have hzero : value >>> width = 0 := by
    apply BitVec.eq_of_toNat_eq
    rw [BitVec.toNat_ushiftRight, shiftRight_eq_div_pow, div_eq_of_lt hvalue]
    rfl
  rw [Bitstream.get, ← hzero]
  exact getLoop_at value width position hinside hwindow

end

section

variable {bits : List Bool} {data : List Byte}

/-- What a writing step returns when the stream should hold `bits` after it:
success with these bits written if they fit, failure if they do not. -/
def Puts (result : Bitstream × Bool) (size : Nat) (bits : List Bool) : Prop :=
  (bits.length ≤ 8 * size → ∃ data,
      result = (streamAt data size bits.length, true) ∧ Written data size bits) ∧
    (8 * size < bits.length → result.2 = false)

variable {size : Nat}

theorem Puts.of_success {result : Bitstream × Bool} (h : Puts result size bits)
    (hok : result.2 = true) :
    ∃ data, result.1 = streamAt data size bits.length ∧ Written data size bits := by
  by_cases hfits : bits.length ≤ 8 * size
  · obtain ⟨data, heq, hwritten⟩ := h.1 hfits
    exact ⟨data, by rw [heq], hwritten⟩
  · rw [h.2 (by omega)] at hok
    exact absurd hok Bool.false_ne_true

theorem Puts.here (h : Written data size bits) :
    Puts (streamAt data size bits.length, true) size bits :=
  ⟨fun _ => ⟨data, rfl, h⟩, fun hfull => absurd h.fits (by omega)⟩

/-- Two steps in sequence. -/
theorem Puts.andThen {first : Bitstream × Bool} {next : Bitstream → Bitstream × Bool}
    {more : List Bool} (hfirst : Puts first size bits) (hnext : ∀ data, Written data size bits →
      Puts (next (streamAt data size bits.length)) size (bits ++ more)) :
    Puts (andThen first next) size (bits ++ more) := by
  have hlength : (bits ++ more).length = bits.length + more.length := length_append
  by_cases hfits : bits.length ≤ 8 * size
  · obtain ⟨data, rfl, hwritten⟩ := hfirst.1 hfits
    exact hnext data hwritten
  · have hfail := hfirst.2 (by omega)
    refine ⟨fun hroom => absurd hroom (by omega), fun _ => ?_⟩
    rw [BitmapCompression.andThen, if_neg (by simp [hfail])]
    exact hfail

theorem putBit_puts (h : Written data size bits) (v : Bool) :
    Puts ((streamAt data size bits.length).putBit v) size (bits ++ [v]) := by
  have hlength : (bits ++ [v]).length = bits.length + 1 := by simp
  constructor
  · intro hroom
    have hinside : bits.length < 8 * size := by omega
    exact ⟨_, by rw [putBit_at hinside v, hlength], h.push hinside v⟩
  · intro hfull
    exact putBit_end (by omega) v

theorem and_twoPow_ne_zero (v : Word) {place : Nat} (hplace : place < 32) :
    (v &&& BitVec.twoPow 32 place != 0) = v.getLsbD place := by
  have hmask : ∀ place < 32, (BitVec.twoPow 32 place != 0) = true := by decide
  rw [BitVec.and_twoPow]
  cases v.getLsbD place with
  | false => rfl
  | true => exact hmask place hplace

theorem putLoop_puts (v : Word) (bitCount : Nat) :
    ∀ (data : List Byte) (bits : List Bool), bitCount ≤ 32 → Written data size bits →
      Puts (Bitstream.putLoop v bitCount (BitVec.twoPow 32 (bitCount - 1))
        (streamAt data size bits.length)) size (bits ++ bitsMsb bitCount v) := by
  induction bitCount with
  | zero =>
    intro data bits _ h
    rw [bitsMsb, append_nil]
    exact Puts.here h
  | succ bitCount ih =>
    intro data bits hcount h
    have hbit := putBit_puts h (v.getLsbD bitCount)
    have hstep : Bitstream.putLoop v (bitCount + 1)
        (BitVec.twoPow 32 bitCount) (streamAt data size bits.length) =
        andThen ((streamAt data size bits.length).putBit (v.getLsbD bitCount))
          (Bitstream.putLoop v bitCount (BitVec.twoPow 32 bitCount >>> 1)) := by
      rw [Bitstream.putLoop, and_twoPow_ne_zero v (by omega), BitmapCompression.andThen]
      split <;> simp_all
    rw [Nat.add_sub_cancel, hstep, bitsMsb, append_cons]
    apply hbit.andThen
    intro data' h'
    cases bitCount with
    | zero =>
      rw [bitsMsb, append_nil]
      exact Puts.here h'
    | succ place =>
      rw [twoPow_succ_shiftRight place (by omega)]
      exact ih data' _ (by omega) h'

theorem put_puts (v : Word) {bitCount : Nat} (hcount : bitCount ≤ 32) (h : Written data size bits) :
    Puts ((streamAt data size bits.length).put v bitCount) size (bits ++ bitsMsb bitCount v) := by
  exact putLoop_puts v bitCount data bits hcount h

theorem skip_puts {count : Nat} (h : Written data size bits)
    (hroom : bits.length + count ≤ 8 * size) (hcount : 0 < count) :
    Puts ((streamAt data size bits.length).skip count) size
      (bits ++ List.replicate count false) := by
  have hlength : (bits ++ List.replicate count false).length = bits.length + count := by simp
  rw [skip_at (by omega), ← hlength]
  exact Puts.here (h.skip hroom)

end

section

/-- The units of the default format. -/
inductive Token where
  | zero
  | one
  | raw (word : Word)
  | rle (repeats : Nat)
deriving Repr, DecidableEq

def Token.bits : Token → List Bool
  | zero => bitsMsb 2 Flag.zero.code
  | one => bitsMsb 2 Flag.one.code
  | raw word => bitsMsb 2 Flag.raw.code ++ bitsMsb 32 word
  | rle repeats =>
    bitsMsb 2 Flag.rle.code ++ bitsMsb 8 (BitVec.ofNat 32 (repeats - 1))

/-- A run is not empty, and its counter fits into eight bits. -/
def Token.Fits : Token → Prop
  | rle repeats => 1 ≤ repeats ∧ repeats ≤ 256
  | _ => True

/-- The words that tokens stand for, behind a last word. -/
def expand : Word → List Token → List Word
  | _, [] => []
  | _, .zero :: tokens => 0 :: expand 0 tokens
  | _, .one :: tokens => 0xFFFFFFFF :: expand 0xFFFFFFFF tokens
  | _, .raw word :: tokens => word :: expand word tokens
  | last, .rle repeats :: tokens =>
    List.replicate repeats last ++ expand last tokens

/-- The mark and the token of a word that is written by its value. -/
def blockFlag (word : Word) : Flag :=
  if word = 0 then .zero else if word = 0xFFFFFFFF then .one else .raw

def blockToken (word : Word) : Token :=
  if word = 0 then .zero else if word = 0xFFFFFFFF then .one else .raw word

theorem expand_blockToken (last word : Word) (tokens : List Token) :
    expand last (blockToken word :: tokens) = word :: expand word tokens := by
  rw [blockToken]
  split_ifs with hzero hone
  · rw [expand, hzero]
  · rw [expand, hone]
  · rw [expand]

theorem blockToken_fits (word : Word) : (blockToken word).Fits := by
  rw [blockToken]
  split_ifs <;> trivial

variable (last : Word)

/-- The tokens of a run of repeats of the last word. -/
def runTokens (repeats : Nat) : List Token :=
  if repeats = 0 then []
  else if blockFlag last = .raw ∨ 4 < repeats then [.rle repeats]
  else List.replicate repeats (blockToken last)

theorem expand_replicate_blockToken (repeats : Nat) (tokens : List Token) :
    expand last (List.replicate repeats (blockToken last) ++ tokens) =
      List.replicate repeats last ++ expand last tokens := by
  induction repeats with
  | zero => rfl
  | succ repeats ih =>
    rw [replicate_succ, cons_append, expand_blockToken, ih, replicate_succ]
    rfl

theorem expand_runTokens (repeats : Nat) (tokens : List Token) :
    expand last (runTokens last repeats ++ tokens) =
      List.replicate repeats last ++ expand last tokens := by
  rw [runTokens]
  split_ifs with hnone hrle
  · rw [hnone]
    rfl
  · rfl
  · exact expand_replicate_blockToken last repeats tokens

theorem runTokens_fits {repeats : Nat} (hrepeats : repeats ≤ 256) :
    ∀ token ∈ runTokens last repeats, token.Fits := by
  intro token htoken
  rw [runTokens] at htoken
  split_ifs at htoken with hnone hrle
  · exact absurd htoken not_mem_nil
  · rw [mem_singleton.mp htoken]
    exact ⟨one_le_iff_ne_zero.mpr hnone, hrepeats⟩
  · rw [eq_of_mem_replicate htoken]
    exact blockToken_fits last

end

section

variable {size : Nat} {data : List Byte} {bits : List Bool}

theorem putFlags_puts (last : Word) (hlast : blockFlag last ≠ .raw) (count : Nat) :
    ∀ (data : List Byte) (bits : List Bool), Written data size bits →
      Puts (putFlags (blockFlag last) count (streamAt data size bits.length)) size
        (bits ++ (List.replicate count (blockToken last)).flatMap Token.bits) := by
  have hbits : (blockToken last).bits = bitsMsb 2 (blockFlag last).code := by
    rw [blockToken, blockFlag] at *
    split_ifs at * <;> first | rfl | exact absurd rfl hlast
  induction count with
  | zero =>
    intro data bits h
    rw [replicate_zero, flatMap_nil, append_nil]
    exact Puts.here h
  | succ count ih =>
    intro data bits h
    rw [replicate_succ, flatMap_cons, hbits, ← append_assoc]
    exact (put_puts _ (by decide) h).andThen fun data' h' => ih data' _ h'

theorem putBlock_puts (word : Word) (h : Written data size bits) :
    Puts (putBlock word (streamAt data size bits.length)).1 size
      (bits ++ (blockToken word).bits) := by
  rw [putBlock, blockToken]
  split_ifs
  · exact put_puts _ (by decide) h
  · exact put_puts _ (by decide) h
  · rw [Token.bits, ← append_assoc]
    exact (put_puts _ (by decide) h).andThen fun data' h' =>
      put_puts _ (by decide) h'

theorem putBlock_flag (word : Word) (bitstream : Bitstream) :
    (putBlock word bitstream).2 = blockFlag word := by
  rw [putBlock, blockFlag]
  split_ifs <;> rfl

theorem flush_puts {encoder : Encoder} (h : Written data size bits)
    (hstream : encoder.bitstream = streamAt data size bits.length)
    (hflag : encoder.lastBlockFlag = blockFlag encoder.lastBlockData) :
    Puts encoder.flush size (bits ++ (runTokens encoder.lastBlockData
      encoder.rleRepeatCount).flatMap Token.bits) := by
  rw [Encoder.flush, hstream, hflag, runTokens]
  by_cases hnone : encoder.rleRepeatCount = 0
  · rw [if_neg (by omega), if_pos hnone, flatMap_nil, append_nil]
    exact Puts.here h
  · rw [if_pos (pos_of_ne_zero hnone), if_neg hnone, bitmapEncodeRLE]
    split_ifs with hrle
    · rw [flatMap_cons, flatMap_nil, append_nil, Token.bits, ← append_assoc]
      exact (put_puts _ (by decide) h).andThen fun data' h' =>
        put_puts _ (by decide) h'
    · exact putFlags_puts _ (fun hraw => hrle (.inl hraw)) _ data bits h

/-- What the encoder has done when it has seen `words`: behind a header it has
written tokens which, together with the pending run, expand to the words. -/
structure Encodes (size : Nat) (header : List Bool) (encoder : Encoder)
    (words : List Word) (tokens : List Token) : Prop where
  stream : ∃ data, Written data size (header ++ tokens.flatMap Token.bits) ∧ encoder.bitstream =
      streamAt data size (header ++ tokens.flatMap Token.bits).length
  flag : encoder.lastBlockFlag = blockFlag encoder.lastBlockData
  repeats : encoder.rleRepeatCount ≤ 256
  last : ∀ more, expand 0 (tokens ++ more) = expand 0 tokens ++ expand encoder.lastBlockData more
  fits : ∀ token ∈ tokens, token.Fits
  words : expand 0 tokens ++ List.replicate encoder.rleRepeatCount encoder.lastBlockData = words

variable {header : List Bool} {encoder : Encoder} {words : List Word} {tokens : List Token}

section

variable (h : Encodes size header encoder words tokens)

include h

theorem Encodes.repeat_word (hroom : encoder.rleRepeatCount ≤ 255) : Encodes size header
      { encoder with rleRepeatCount := encoder.rleRepeatCount + 1 }
      (words ++ [encoder.lastBlockData]) tokens where
  stream := h.stream
  flag := h.flag
  repeats := succ_le_succ hroom
  last := h.last
  fits := h.fits
  words := by
    rw [← h.words, append_assoc, replicate_succ']

/-- Writing the pending run leaves a list of tokens that expand to all the words
seen so far. -/
theorem Encodes.flush (hok : encoder.flush.2 = true) : ∃ data tokens', encoder.flush.1 =
        streamAt data size (header ++ tokens'.flatMap Token.bits).length ∧
      Written data size (header ++ tokens'.flatMap Token.bits) ∧
      (∀ more, expand 0 (tokens' ++ more) = words ++ expand encoder.lastBlockData more) ∧
      ∀ token ∈ tokens', token.Fits := by
  obtain ⟨data, hwritten, hstream⟩ := h.stream
  obtain ⟨data', heq, hwritten'⟩ := (flush_puts hwritten hstream h.flag).of_success hok
  rw [append_assoc, ← flatMap_append] at heq hwritten'
  refine ⟨data', _, heq, hwritten', fun more => ?_, ?_⟩
  · rw [append_assoc, h.last, expand_runTokens, ← append_assoc, h.words]
  · intro token htoken
    rcases mem_append.mp htoken with htoken | htoken
    · exact h.fits token htoken
    · exact runTokens_fits _ h.repeats token htoken

/-- A word that starts anew: the pending run is written, then the word. -/
theorem Encodes.new_word {word : Word} {bitstream bitstream' : Bitstream} {flag : Flag}
    (hflush : encoder.flush = (bitstream, true))
    (hblock : putBlock word bitstream = ((bitstream', true), flag)) :
    ∃ tokens', Encodes size header ⟨bitstream', word, flag, 0⟩ (words ++ [word]) tokens' := by
  obtain ⟨data, tokens', heq, hwritten, hwords, hfits⟩ := h.flush (by rw [hflush])
  rw [hflush] at heq
  obtain rfl : bitstream = _ := heq
  have hputs := putBlock_puts word hwritten
  obtain ⟨data', heq', hwritten'⟩ := hputs.of_success (by rw [hblock])
  have hflag := putBlock_flag word
    (streamAt data size (header ++ tokens'.flatMap Token.bits).length)
  rw [hblock] at heq' hflag
  have hbits : header ++ tokens'.flatMap Token.bits ++ (blockToken word).bits =
      header ++ (tokens' ++ [blockToken word]).flatMap Token.bits := by
    simp
  rw [hbits] at heq' hwritten'
  refine ⟨tokens' ++ [blockToken word], ⟨data', hwritten', heq'⟩, hflag, zero_le _, ?_, ?_, ?_⟩
  · intro more
    rw [append_assoc, hwords, hwords, append_assoc, singleton_append,
      expand_blockToken, expand_blockToken]
    rfl
  · exact forall_mem_append.mpr ⟨hfits, forall_mem_singleton.mpr (blockToken_fits word)⟩
  · rw [hwords, expand_blockToken, expand, replicate_zero, append_nil]

end

theorem compressLoop_encodes (rest : List Word) :
    ∀ (i : Nat) (encoder final : Encoder) (words : List Word)
      (tokens : List Token), Encodes size header encoder words tokens →
      compressLoop rest i encoder = some final →
      ∃ tokens', Encodes size header final (words ++ rest) tokens' := by
  induction rest with
  | nil =>
    intro i encoder final words tokens h hrun
    obtain rfl := Option.some.inj hrun
    exact ⟨tokens, by rwa [append_nil]⟩
  | cons word rest ih =>
    intro i encoder final words tokens h hrun
    rw [compressLoop] at hrun
    rw [append_cons]
    split_ifs at hrun with hrepeat
    · rw [hrepeat.1]
      exact ih _ _ _ _ _ (h.repeat_word hrepeat.2.1) hrun
    · split at hrun
      · exact absurd hrun (by simp)
      · rename_i bitstream hflush
        split at hrun
        · exact absurd hrun (by simp)
        · rename_i bitstream' flag hblock
          obtain ⟨tokens', h'⟩ := h.new_word hflush hblock
          exact ih _ _ _ _ _ h' hrun

/-- When the default compression succeeds, the stream holds the header and
tokens that expand to the bitmap. -/
theorem bitmapCompressDefault_written {bitmap : List Word} {result : Bitstream}
    (h : Written data size header)
    (hrun : bitmapCompressDefault bitmap (streamAt data size header.length) = some result) :
    ∃ data' tokens, result = streamAt data' size (header ++ tokens.flatMap Token.bits).length ∧
      Written data' size (header ++ tokens.flatMap Token.bits) ∧
      expand 0 tokens = bitmap ∧ ∀ token ∈ tokens, token.Fits := by
  have hstart : Encodes size header ⟨streamAt data size header.length, 0, .zero, 0⟩ [] [] :=
    ⟨⟨data, by simpa using h, by simp⟩, rfl, zero_le _, fun _ => rfl,
      fun _ hnil => absurd hnil not_mem_nil, rfl⟩
  rw [bitmapCompressDefault] at hrun
  split at hrun
  · exact absurd hrun (by simp)
  · rename_i encoder hloop
    obtain ⟨tokens, hencodes⟩ := compressLoop_encodes _ _ _ _ _ _ hstart hloop
    split at hrun
    · exact absurd hrun (by simp)
    · rename_i bitstream hflush
      obtain rfl := Option.some.inj hrun
      obtain ⟨data', tokens', heq, hwritten, hwords, hfits⟩ := hencodes.flush (by rw [hflush])
      rw [hflush] at heq
      exact ⟨data', tokens', heq, hwritten, by simpa [expand] using hwords [], hfits⟩

end

section

variable {token : Token}

def Token.flag : Token → Flag
  | zero => .zero
  | one => .one
  | raw _ => .raw
  | rle _ => .rle

/-- The first word of a token, and how many times it is repeated after that. -/
def Token.first (last : Word) : Token → Word
  | zero => 0
  | one => 0xFFFFFFFF
  | raw word => word
  | rle _ => last

def Token.more : Token → Nat
  | rle repeats => repeats - 1
  | _ => 0

theorem expand_cons (last : Word) (hfits : token.Fits) (tokens : List Token) :
    expand last (token :: tokens) = token.first last ::
      (List.replicate token.more (token.first last) ++ expand (token.first last) tokens) := by
  cases token with
  | zero => rfl
  | one => rfl
  | raw word => rfl
  | rle repeats =>
    obtain ⟨count, rfl⟩ := Nat.exists_eq_add_of_le' hfits.1
    rfl

variable {data : List Byte} {size position : Nat}

theorem get_flag (hinside : position + token.bits.length ≤ 8 * size)
    (hwindow : Window data position token.bits) :
    (streamAt data size position).get 2 =
      (streamAt data size (position + 2), some token.flag.code) := by
  have hbits : ∃ more, token.bits = bitsMsb 2 token.flag.code ++ more := by
    cases token with
    | zero => exact ⟨[], rfl⟩
    | one => exact ⟨[], rfl⟩
    | raw word => exact ⟨_, rfl⟩
    | rle repeats => exact ⟨_, rfl⟩
  obtain ⟨more, hbits⟩ := hbits
  rw [hbits, length_append, length_bitsMsb] at hinside
  rw [hbits, window_append] at hwindow
  apply get_at 2 _ (by omega) hwindow.1
  cases token.flag <;> decide

/-- Behind its mark, the rest of a token is read by the `switch`. -/
theorem decodeFlag_token (hfits : token.Fits) (hinside : position + token.bits.length ≤ 8 * size)
    (hwindow : Window data position token.bits) (decoder : Decoder)
    (hstream : decoder.bitstream = streamAt data size (position + 2))
    (hnone : decoder.rleRepeatCount = 0) (i : Nat) :
    decodeFlag token.flag.code i decoder = { decoder with
        bitstream := streamAt data size (position + token.bits.length)
        bitmap := decoder.bitmap.set i (token.first decoder.lastBlockData)
        rleRepeatCount := token.more } := by
  cases decoder with
  | mk bitstream bitmap lastBlockData rleRepeatCount failed =>
    subst hstream hnone
    cases token with
    | zero => rfl
    | one => rfl
    | raw word =>
      simp only [Token.bits, length_append, length_bitsMsb] at hinside
      rw [Token.bits, window_append, length_bitsMsb] at hwindow
      have hget := get_at 32 word.isLt (by omega) hwindow.2
      simp only [decodeFlag, Token.flag, Flag.code, hget]
      simp [Token.bits, Token.first, Token.more, add_assoc]
    | rle repeats =>
      simp only [Token.bits, length_append, length_bitsMsb] at hinside
      rw [Token.bits, window_append, length_bitsMsb] at hwindow
      have hcount : (BitVec.ofNat 32 (repeats - 1)).toNat = repeats - 1 := by
        rw [BitVec.toNat_ofNat]
        have hle := hfits.2
        omega
      have hsmall : (BitVec.ofNat 32 (repeats - 1)).toNat < 2 ^ 8 := by
        have hle := hfits.2
        omega
      have hget := get_at 8 hsmall (by omega) hwindow.2
      simp only [decodeFlag, Token.flag, Flag.code, hget, hcount]
      simp [Token.bits, Token.first, Token.more, add_assoc]

theorem set_done {α : Type} {done tail : List α} {i : Nat} (hdone : done.length = i)
    (htail : 0 < tail.length) (value : α) :
    (done ++ tail).set i value = (done ++ [value]) ++ tail.drop 1 := by
  obtain ⟨head, rest, rfl⟩ := exists_cons_of_length_pos htail
  rw [set_append_right _ _ (Nat.le_of_eq hdone), hdone, Nat.sub_self]
  simp

/-- The decoder, in front of the bits of tokens and inside a run, produces the
rest of the run and the words that the tokens expand to. -/
theorem decompressLoop_expands (left : Nat) :
    ∀ (i position : Nat) (decoder : Decoder) (tokens : List Token) (done tail : List Word),
      decoder.bitstream = streamAt data size position →
      Window data position (tokens.flatMap Token.bits) →
      position + (tokens.flatMap Token.bits).length ≤ 8 * size → (∀ token ∈ tokens, token.Fits) →
      decoder.failed = false →
      left = (List.replicate decoder.rleRepeatCount decoder.lastBlockData ++
        expand decoder.lastBlockData tokens).length →
      decoder.bitmap = done ++ tail → done.length = i → left ≤ tail.length →
      (decompressLoop left i decoder).rleRepeatCount = 0 ∧
        (decompressLoop left i decoder).failed = false ∧
        (decompressLoop left i decoder).bitmap = done ++
          (List.replicate decoder.rleRepeatCount decoder.lastBlockData ++
            expand decoder.lastBlockData tokens) ++ tail.drop left := by
  induction left with
  | zero =>
    intro i position decoder tokens done tail _ _ _ _ hfailed hleft hbitmap _ _
    have hnil := length_eq_zero_iff.mp hleft.symm
    have hnone : decoder.rleRepeatCount = 0 := by
      simpa using (append_eq_nil_iff.mp hnil).1
    rw [hnil]
    exact ⟨hnone, hfailed, by simpa [decompressLoop] using hbitmap⟩
  | succ left ih =>
    intro i position decoder tokens done tail hstream hwindow hinside hfits
      hfailed hleft hbitmap hdone htail
    have htail' : 0 < tail.length := by omega
    have hset := fun value => set_done hdone htail' value
    have hrest : ∀ value, (done ++ [value]).length = i + 1 := by
      intro value
      rw [length_append, hdone]
      rfl
    have hroom : left ≤ (tail.drop 1).length := by
      rw [length_drop]
      omega
    rw [decompressLoop]
    split_ifs with hnone
    · -- at a mark: the next token gives this word and the following repeats
      rw [hnone, replicate_zero, nil_append] at hleft ⊢
      cases tokens with
      | nil => exact absurd hleft (by simp [expand])
      | cons token tokens =>
        have hfit := hfits token mem_cons_self
        rw [flatMap_cons, window_append] at hwindow
        rw [flatMap_cons, length_append] at hinside
        rw [expand_cons _ hfit] at hleft ⊢
        rw [hstream, get_flag (by omega) hwindow.1]
        simp only
        have hdecode := decodeFlag_token hfit (by omega) hwindow.1
          ⟨streamAt data size (position + 2), decoder.bitmap,
            decoder.lastBlockData, 0, decoder.failed⟩ rfl rfl i
        rw [hdecode]
        have hword : (decoder.bitmap.set i (token.first decoder.lastBlockData)).getD i 0 =
            token.first decoder.lastBlockData := by
          rw [hbitmap, hset, append_assoc, getD_append_right _ _ _ _
            (Nat.le_of_eq hdone), hdone, Nat.sub_self]
          rfl
        have hnext := ih (i + 1) (position + token.bits.length)
          ⟨streamAt data size (position + token.bits.length),
            decoder.bitmap.set i (token.first decoder.lastBlockData),
            token.first decoder.lastBlockData, token.more, decoder.failed⟩
          tokens (done ++ [token.first decoder.lastBlockData]) (tail.drop 1)
          rfl hwindow.2 (by omega)
          (fun other hother => hfits other (mem_cons_of_mem _ hother))
          hfailed (by simpa using hleft) (by rw [hbitmap, hset]) (hrest _) hroom
        simp only [hword]
        simpa using hnext
    · -- inside a run
      obtain ⟨count, hcount⟩ := exists_eq_succ_of_ne_zero hnone
      rw [hcount, replicate_succ, cons_append] at hleft ⊢
      have hnext := ih (i + 1) position
        ⟨decoder.bitstream, decoder.bitmap.set i decoder.lastBlockData,
          decoder.lastBlockData, count, decoder.failed⟩
        tokens (done ++ [decoder.lastBlockData]) (tail.drop 1) hstream hwindow
        hinside hfits hfailed (by simpa using hleft) (by rw [hbitmap, hset])
        (hrest _) hroom
      simpa using hnext

end

section

def headerBits (compressionType : CompressionType) (blockCount : Nat) : List Bool :=
  bitsMsb 1 compressionType.code ++ List.replicate 3 false ++
    bitsMsb 12 (BitVec.ofNat 32 blockCount)

theorem length_headerBits (compressionType : CompressionType) (blockCount : Nat) :
    (headerBits compressionType blockCount).length = 16 := by
  simp [headerBits]

variable {size : Nat}

theorem bitmapCompressWriteHeader_written (hsize : 2 ≤ size)
    (compressionType : CompressionType) (blockCount : Nat) :
    ∃ data, bitmapCompressWriteHeader compressionType blockCount
        (Bitstream.init (List.replicate size 0) size) =
        (streamAt data size (headerBits compressionType blockCount).length, true) ∧
      Written data size (headerBits compressionType blockCount) := by
  have hputs : Puts (bitmapCompressWriteHeader compressionType blockCount
      (Bitstream.init (List.replicate size 0) size)) size
      ([] ++ (bitsMsb 1 compressionType.code ++ List.replicate 3 false ++
        bitsMsb 12 (BitVec.ofNat 32 blockCount))) := by
    apply (put_puts _ (by decide) (written_zeros size)).andThen
    intro data hdata
    have hroom : ([] ++ bitsMsb 1 compressionType.code).length + 3 ≤ 8 * size := by
      simp
      omega
    exact (skip_puts hdata hroom (by decide)).andThen fun data' hdata' =>
      put_puts _ (by decide) hdata'
  apply hputs.1
  rw [nil_append, ← headerBits, length_headerBits]
  omega

theorem bitmapDecompressInit_header {data : List Byte} (hsize : 2 ≤ size)
    {blockCount : Nat} (hcount : blockCount ≤ 4095) (compressionType : CompressionType)
    (hwindow : Window data 0 (headerBits compressionType blockCount)) :
    bitmapDecompressInit data size =
      (⟨streamAt data size 16, compressionType.code.toNat, blockCount⟩, true) := by
  rw [headerBits, append_assoc, window_append, length_bitsMsb,
    window_append, length_replicate] at hwindow
  obtain ⟨htype, -, hblocks⟩ := hwindow
  have hsmall : (BitVec.ofNat 32 blockCount).toNat = blockCount := by
    rw [BitVec.toNat_ofNat]
    omega
  have hgetType := get_at 1 (by cases compressionType <;> decide)
    (show 0 + 1 ≤ 8 * size by omega) htype
  have hgetCount := get_at 12 (by rw [hsmall]; omega)
    (show 0 + 1 + 3 + 12 ≤ 8 * size by omega) hblocks
  rw [bitmapDecompressInit, init_eq, hgetType]
  simp only
  rw [skip_at (by omega)]
  simp only
  rw [hgetCount]
  simp [hsmall]

theorem getAlignedData_header (data : List Byte) (size : Nat) :
    (streamAt data size 16).getAlignedData 16 = 2 := by
  simp [Bitstream.getAlignedData, Bitstream.align, Bitstream.getOffset, streamAt]

theorem getLength_at (data : List Byte) (size position : Nat) :
    (streamAt data size position).getLength = (position + 7) / 8 := by
  rw [Bitstream.getLength, streamAt]
  simp only
  split <;> omega

end

section

variable (bitmap : List Word)

theorem length_wordBytes : (wordBytes bitmap).length = bitmap.length * 4 := by
  induction bitmap with
  | nil => rfl
  | cons word bitmap ih =>
    rw [wordBytes, flatMap_cons, length_append, length_cons, ByteNumbers.length_leBytes]
    rw [wordBytes] at ih
    omega

theorem bytesWords_wordBytes : bytesWords bitmap.length (wordBytes bitmap) = bitmap := by
  induction bitmap with
  | nil => rfl
  | cons word bitmap ih =>
    have hfour : (ByteNumbers.leBytes 4 word.toNat).length = 4 :=
      ByteNumbers.length_leBytes 4 word.toNat
    have hword : BitVec.ofNat 32 (ByteNumbers.leNat (ByteNumbers.leBytes 4 word.toNat)) = word :=
      ByteNumbers.ofNat_leNat_leBytes (by decide) word
    rw [wordBytes, flatMap_cons, length_cons, bytesWords, take_left' hfour, drop_left' hfour, hword]
    exact congrArg _ ih

/-- What the uncompressed format returns: the header and the words. -/
theorem bitmapCompressNo_ok :
    ∃ out, bitmapCompressNo bitmap (4 * bitmap.length + 2) = .ok (4 * bitmap.length + 2, out) ∧
      out.length = 4 * bitmap.length + 2 ∧ Window out 0 (headerBits .no bitmap.length) ∧
      out.drop 2 = wordBytes bitmap := by
  obtain ⟨data, hheader, hwritten⟩ := bitmapCompressWriteHeader_written
    (show 2 ≤ 4 * bitmap.length + 2 by omega) .no bitmap.length
  have hwindow : Window data 0 (headerBits .no bitmap.length) := Written.window _ [] hwritten
  rw [length_headerBits] at hheader
  rw [bitmapCompressNo]
  simp only [hheader]
  by_cases hnone : bitmap.length = 0
  · refine ⟨data, ?_, hwritten.size_eq, hwindow, ?_⟩
    · rw [if_pos hnone, hnone]
      rfl
    · have hdata : data.length = 2 := by
        rw [hwritten.size_eq, hnone]
      rw [length_eq_zero_iff.mp hnone, ← hdata, drop_length]
      rfl
  · have hcover : data.drop (2 + (wordBytes bitmap).length) = [] := by
      rw [drop_eq_nil_iff, hwritten.size_eq, length_wordBytes]
      omega
    have htake : (data.take 2).length = 2 := by
      rw [length_take, hwritten.size_eq]
      omega
    have hout : ByteMemory.writeAt data 2 (wordBytes bitmap) = data.take 2 ++ wordBytes bitmap := by
      rw [ByteMemory.writeAt, hcover, append_nil]
    refine ⟨data.take 2 ++ wordBytes bitmap, ?_, ?_, ?_, ?_⟩
    · rw [if_neg hnone, getAlignedData_header, mul_comm, ← hout]
      rfl
    · rw [length_append, htake, length_wordBytes]
      omega
    · have hbits := length_headerBits .no bitmap.length
      rw [← window_take 2 _ 0 (by omega), take_left' htake, window_take 2 _ 0 (by omega)]
      exact hwindow
    · exact drop_left' htake

end

/-- The bytes decompress without an error to the words of `bitmap`. -/
def Decodes (bytes : List Byte) (bitmap : List Word) : Prop :=
  ∃ state, bitmapDecompressInit bytes bytes.length = (state, true) ∧
    bitmapDecompressHasError state = false ∧
    state.blockCount = bitmap.length ∧
    ∀ target, bitmap.length ≤ target.length →
      bitmapDecompressDecompress state target target.length =
        .ok (bitmap ++ target.drop bitmap.length)

/-- What `bitmapCompressNo` writes. -/
theorem decodes_uncompressed {bitmap : List Word} (hcount : bitmap.length ≤ 4095)
    {out : List Byte} (hlength : out.length = 4 * bitmap.length + 2)
    (hwindow : Window out 0 (headerBits .no bitmap.length))
    (hwords : out.drop 2 = wordBytes bitmap) : Decodes out bitmap := by
  have hinit := bitmapDecompressInit_header (show 2 ≤ out.length by omega) hcount .no hwindow
  refine ⟨⟨streamAt out out.length 16, 0, bitmap.length⟩, hinit, rfl, rfl, ?_⟩
  intro target htarget
  rw [bitmapDecompressDecompress, if_neg (by simp only; omega), if_pos rfl]
  simp only [getAlignedData_header]
  rw [streamAt, hwords, bytesWords_wordBytes]

/-- What `bitmapCompressDefault` writes, cut to its length. -/
theorem decodes_tokens {bitmap : List Word} (hcount : bitmap.length ≤ 4095)
    {out : List Byte} {tokens : List Token}
    (hwindow : Window out 0 (headerBits .default bitmap.length))
    (htokens : Window out 16 (tokens.flatMap Token.bits))
    (hfits : ∀ token ∈ tokens, token.Fits) (hwords : expand 0 tokens = bitmap)
    (hroom : 16 + (tokens.flatMap Token.bits).length ≤ 8 * out.length) : Decodes out bitmap := by
  have hinit := bitmapDecompressInit_header (show 2 ≤ out.length by omega) hcount .default hwindow
  refine ⟨⟨streamAt out out.length 16, 1, bitmap.length⟩, hinit, rfl, rfl, ?_⟩
  intro target htarget
  obtain ⟨hnone, hfailed, hbitmap⟩ := decompressLoop_expands bitmap.length
    0 16 ⟨streamAt out out.length 16, target, 0, 0, false⟩
    tokens [] target rfl htokens hroom hfits rfl (by rw [hwords]; rfl) rfl rfl htarget
  rw [bitmapDecompressDecompress, if_neg (by simp only; omega), if_neg one_ne_zero, if_pos rfl]
  simp only [hnone, hfailed, hbitmap, hwords]
  rfl

/-- A buffer of exactly the size the source asks for is enough. -/
theorem bitmapCompress_decodes (bitmap : List Word) (hcount : bitmap.length ≤ 4095) :
    ∃ (length : Nat) (out : List Byte),
      bitmapCompress .default bitmap (4 * bitmap.length + 2) = .ok (length, out) ∧
      2 ≤ length ∧ length ≤ 4 * bitmap.length + 2 ∧
      out.length = 4 * bitmap.length + 2 ∧ Decodes (out.take length) bitmap := by
  obtain ⟨data, hheader, hwritten⟩ := bitmapCompressWriteHeader_written
    (show 2 ≤ 4 * bitmap.length + 2 by omega) .default bitmap.length
  rw [bitmapCompress]
  simp only [hheader]
  cases hdefault : bitmapCompressDefault bitmap
      (streamAt data (4 * bitmap.length + 2) (headerBits .default bitmap.length).length) with
  | none =>
    obtain ⟨out, hout, hlength, hwindow, hwords⟩ := bitmapCompressNo_ok bitmap
    refine ⟨4 * bitmap.length + 2, out, hout, by omega, le_refl _, hlength, ?_⟩
    rw [take_of_length_le (le_of_eq hlength)]
    exact decodes_uncompressed hcount hlength hwindow hwords
  | some bitstream =>
    obtain ⟨data', tokens, rfl, hwritten', hwords, hfits⟩ :=
      bitmapCompressDefault_written hwritten hdefault
    have hbits := length_headerBits .default bitmap.length
    have hfull := hwritten'.fits
    have hsize := hwritten'.size_eq
    rw [length_append, hbits] at hfull
    have hwindow : Window data' 0 (headerBits .default bitmap.length ++
        tokens.flatMap Token.bits) := Written.window _ [] hwritten'
    rw [window_append, hbits] at hwindow
    simp only [getLength_at, length_append, hbits]
    generalize hcut : (16 + (tokens.flatMap Token.bits).length + 7) / 8 = length
    have htake : (data'.take length).length = length := by
      rw [length_take]
      omega
    refine ⟨length, data', rfl, by omega, by omega, hsize, ?_⟩
    exact decodes_tokens hcount ((window_take length _ 0 (by omega)).mpr hwindow.1)
      ((window_take length _ _ (by omega)).mpr hwindow.2) hfits hwords (by omega)

/-- Compressing a bitmap of at most 4095 words into a buffer of exactly the size
the source asks for gives at least the header and at most the buffer, and the
bytes decompress without an error to the words of the bitmap. -/
theorem bitmapCompress_roundTrip (bitmap : List Word)
    (hcount : bitmap.length ≤ 4095) (target : List Word) (htarget : bitmap.length ≤ target.length) :
    ∃ (length : Nat) (out : List Byte) (state : DecompressState),
      bitmapCompress .default bitmap (4 * bitmap.length + 2) = .ok (length, out) ∧
      2 ≤ length ∧ length ≤ 4 * bitmap.length + 2 ∧
      bitmapDecompressInit (out.take length) length = (state, true) ∧
      bitmapDecompressHasError state = false ∧ state.blockCount = bitmap.length ∧
      bitmapDecompressDecompress state target target.length =
        .ok (bitmap ++ target.drop bitmap.length) := by
  obtain ⟨length, out, hcompress, hlow, hhigh, hsize, state, hinit, herror, hblocks,
    hdecompress⟩ := bitmapCompress_decodes bitmap hcount
  have htake : (out.take length).length = length := by
    rw [length_take]
    omega
  rw [htake] at hinit
  exact ⟨length, out, state, hcompress, hlow, hhigh, hinit, herror, hblocks,
    hdecompress target htarget⟩

namespace BitmapRoundTripWitness

/-- A word by its value, a run of it, zeros and ones. -/
def bitmap : List Word := [7, 7, 7, 0, 0, 0xFFFFFFFF]

theorem bitmap_roundTrip : ∃ (length : Nat) (out : List Byte) (state : DecompressState),
      bitmapCompress .default bitmap 26 = .ok (length, out) ∧
      bitmapDecompressInit (out.take length) length = (state, true) ∧
      bitmapDecompressDecompress state (List.replicate 8 5) 8 = .ok (bitmap ++ [5, 5]) := by
  obtain ⟨length, out, state, hcompress, -, -, hinit, -, -, hdecompress⟩ :=
    bitmapCompress_roundTrip bitmap (by decide) (List.replicate 8 5) (by decide)
  exact ⟨length, out, state, hcompress, hinit, hdecompress⟩

end BitmapRoundTripWitness

end Greenplum.BitmapCompression
