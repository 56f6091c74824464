/-
How often RLE_TYPE stores the items of a column of fixed length: once for every run of equal
values, but for single bytes with the high bit, which are compared as an unsigned character
with a signed one and are never found equal.
-/
import Greenplum.DatumStreamBlocks

namespace Greenplum.DatumStream

open ByteNumbers Fallible

section

/-- The last row, the repeats of it so far, and how many runs there were. -/
structure Runs where
  last : Option (BitVec 64)
  repeats : Nat
  count : Nat
deriving Repr, DecidableEq

def low (width : Nat) (number : BitVec 64) : Nat := number.toNat % 256 ^ width

/-- A value goes on with the run of the last row if it is found to be equal; a run has a
maximal length and ends at a NULL. -/
def Runs.next (found : Nat → Bool) (width : Nat) (runs : Runs) : Option (BitVec 64) → Runs
  | none => { runs with last := none }
  | some number =>
    if runs.last.map (low width) = some (low width number) ∧
        found (low width number) = true ∧ runs.repeats < maxRepeatCount then
      { runs with last := some number, repeats := runs.repeats + 1 }
    else ⟨some number, 0, runs.count + 1⟩

/-- The maximal runs of equal values. -/
def runCount (width : Nat) (rows : List (Option (BitVec 64))) : Nat :=
  (rows.foldl (Runs.next (fun _ => true) width) ⟨none, 0, 0⟩).count

/-- A byte with the high bit. -/
def highByte (width value : Nat) : Bool := width = 1 && 128 ≤ value

/-- A byte with the high bit that repeats the row before it. -/
def HighRepeat (width : Nat) (first second : Option (BitVec 64)) : Prop :=
  ∃ value, first.map (low width) = some value ∧ second.map (low width) = some value ∧
    highByte width value = true

variable {width : Nat} {runs stored : Runs}

theorem Runs.next_last (found : Nat → Bool) (runs : Runs) (row : Option (BitVec 64)) :
    (runs.next found width row).last = row := by
  cases row with
  | none => rfl
  | some number =>
    rw [Runs.next]
    split <;> rfl

/-- The items that are stored are the runs and the repeats that are missed. -/
structure Behind (width : Nat) (runs stored : Runs) : Prop where
  last : stored.last = runs.last
  count : runs.count ≤ stored.count
  same : ∀ value, runs.last.map (low width) = some value → highByte width value = false →
    stored.repeats = runs.repeats
  missed : ∀ value, runs.last.map (low width) = some value → highByte width value = true →
    0 < runs.repeats → runs.count < stored.count

theorem Behind.next (h : Behind width runs stored) (row : Option (BitVec 64)) :
    Behind width (runs.next (fun _ => true) width row)
        (stored.next (fun value => !highByte width value) width row) ∧
      ((stored.next (fun value => !highByte width value) width row).count =
          (runs.next (fun _ => true) width row).count ↔
        stored.count = runs.count ∧ ¬ HighRepeat width runs.last row) := by
  have hcount := h.count
  cases row with
  | none =>
    refine ⟨⟨rfl, hcount, nofun, nofun⟩, fun heq => ⟨heq, ?_⟩, And.left⟩
    rintro ⟨value, -, hnone, -⟩
    cases hnone
  | some number =>
    have hfresh : ∀ {left right : Nat}, left ≤ right →
        Behind width ⟨some number, 0, left⟩ ⟨some number, 0, right⟩ := fun hle =>
      ⟨rfl, hle, fun _ _ _ => rfl, fun _ _ _ hpos => absurd hpos (Nat.lt_irrefl 0)⟩
    have hrepeat : HighRepeat width runs.last (some number) ↔
        runs.last.map (low width) = some (low width number) ∧
          highByte width (low width number) = true := by
      constructor
      · rintro ⟨value, hlast, hvalue, hhigh⟩
        cases hvalue
        exact ⟨hlast, hhigh⟩
      · exact fun hboth => ⟨_, hboth.1, rfl, hboth.2⟩
    rw [hrepeat]
    simp only [Runs.next, h.last]
    by_cases hequal : runs.last.map (low width) = some (low width number)
    · cases hhigh : highByte width (low width number) with
      | false =>
        rw [h.same _ hequal hhigh]
        by_cases hroom : runs.repeats < maxRepeatCount
        · simp only [hequal, hroom, Bool.not_false, and_self, if_true, Bool.false_eq_true,
            and_false, not_false_iff, and_true]
          refine ⟨rfl, hcount, fun _ _ _ => rfl, fun value hvalue htrue => ?_⟩
          cases hvalue
          exact nomatch hhigh.symm.trans htrue
        · simpa [hroom] using hfresh (Nat.succ_le_succ hcount)
      | true =>
        have hmissed := h.missed _ hequal hhigh
        by_cases hroom : runs.repeats < maxRepeatCount
        · simp only [hequal, hroom, Bool.not_true, Bool.false_eq_true, false_and, and_false,
            and_self, if_true, if_false, not_true, iff_false]
          refine ⟨⟨rfl, Nat.le_succ_of_le hcount, fun value hvalue hfalse => ?_,
            fun _ _ _ _ => Nat.lt_succ_of_le hcount⟩, by omega⟩
          cases hvalue
          exact nomatch hhigh.symm.trans hfalse
        · have hpos : 0 < runs.repeats := by
            unfold maxRepeatCount at hroom
            omega
          simp only [hequal, hroom, Bool.not_true, Bool.false_eq_true, false_and, and_false,
            and_self, if_false, not_true, iff_false]
          exact ⟨hfresh (Nat.succ_le_succ hcount), by omega⟩
    · simpa [hequal] using hfresh (Nat.succ_le_succ hcount)

/-- As many items are stored as there are runs if and only if no high byte repeats another. -/
theorem Behind.count_eq_iff (rows : List (Option (BitVec 64))) :
    ∀ {runs stored : Runs}, Behind width runs stored →
      ((rows.foldl (Runs.next (fun value => !highByte width value) width) stored).count =
          (rows.foldl (Runs.next (fun _ => true) width) runs).count ↔ stored.count = runs.count ∧
          (runs.last :: rows).IsChain fun first second => ¬ HighRepeat width first second) := by
  induction rows with
  | nil => exact fun _ => ⟨fun heq => ⟨heq, .singleton _⟩, And.left⟩
  | cons row rows ih =>
    intro runs stored h
    obtain ⟨hnext, hiff⟩ := h.next row
    rw [List.foldl_cons, List.foldl_cons, ih hnext, hiff, Runs.next_last, List.isChain_cons_cons,
      and_assoc]

end

section

variable {cfg : WriteConfig} {width : Nat} {runs : Runs} {dsw next : BlockWrite}

/-- A column of fixed length that is passed by value, with RLE_TYPE and without deltas. -/
structure RleColumn (cfg : WriteConfig) (width : Nat) : Prop where
  version : cfg.version ≠ .original
  byval : cfg.typeInfo.byval = true
  length : cfg.typeInfo.datumlen = width
  widths : width = 1 ∨ width = 2 ∨ width = 4 ∨ width = 8
  rle : cfg.rleWantCompression = true
  delta : cfg.deltaWantCompression = false

/-- The writer after these rows, if all of them were accepted. -/
def acceptedPuts (cfg : WriteConfig) (dsw : BlockWrite) (rows : List (Option (BitVec 64))) :
    Option BlockWrite :=
  rows.foldlM (fun dsw row =>
    match put cfg dsw (row.map Datum.value) with
    | .ok (result, next) => if 0 ≤ result then some next else none
    | .error _ => none) dsw

/-- The writer has the runs in its block, and the last one at hand. -/
structure Matches (cfg : WriteConfig) (width : Nat) (runs : Runs) (dsw : BlockWrite) : Prop where
  bounded : Bounded cfg dsw
  count : dsw.physicalDatumCount = runs.count
  fresh : runs.last = none → dsw.rleLastItem = none ∧ dsw.rleLastItemIsRepeated = false
  going : ∀ number, runs.last = some number → pendingCount dsw = runs.repeats ∧
    dsw.rleLastItemSize = width ∧ ∃ offset, dsw.rleLastItem = some (.stored offset) ∧
      leNat ((dsw.datumBuffer.drop offset).take width) = low width number

theorem signedByte_eq_iff {value : Nat} (hvalue : value < 256) (number : BitVec 64) :
    ((value : Int) == (number.setWidth 8).toInt) =
      decide (value = low 1 number ∧ highByte 1 (low 1 number) = false) := by
  rw [BitVec.toInt_eq_toNat_cond, BitVec.toNat_setWidth]
  unfold low highByte
  rw [beq_eq_decide, decide_eq_decide]
  simp only [decide_true, Bool.true_and, decide_eq_false_iff_not]
  split <;> omega

section

variable (hcolumn : RleColumn cfg width)

include hcolumn

theorem fixedIsEqual_eq (number last : BitVec 64) {offset : Nat}
    (hsize : dsw.rleLastItemSize = width)
    (hstored : leNat ((dsw.datumBuffer.drop offset).take width) = low width last) :
    fixedIsEqual cfg dsw (.value number) (.stored offset) =
      .ok (decide (low width last = low width number ∧
        highByte width (low width number) = false)) := by
  have hlength : cfg.typeInfo.datumlen.toNat = width := by
    rw [hcolumn.length]
    rfl
  unfold fixedIsEqual lastItemMemory
  rw [hlength, if_neg (not_not_intro hsize), hcolumn.byval, if_neg (by decide), hstored]
  by_cases hone : width = 1
  · subst hone
    exact congrArg Except.ok (signedByte_eq_iff (Nat.mod_lt _ (by decide)) number)
  · have hpow : 2 ^ (8 * width) = 256 ^ width := Nat.pow_mul 2 8 width
    rw [if_neg hone, if_pos (hcolumn.widths.resolve_left hone), hpow, beq_eq_decide]
    refine congrArg Except.ok (decide_eq_decide.mpr ?_)
    simp [low, Datum.getValue, highByte, hone]

/-- The comparison finds the value equal to the last row, or it is to be stored. -/
theorem compareLastItem_matches (h : Matches cfg width runs dsw)
    (number : BitVec 64) {done : Option Int}
    (hcompare : compareLastItem cfg dsw (fixedIsEqual cfg dsw (.value number)) = .ok (done, next)) :
    if runs.last.map (low width) = some (low width number) ∧
        (!highByte width (low width number)) = true ∧ runs.repeats < maxRepeatCount then
      done = some (-1) ∨ done = some 0 ∧ ∃ bitmap, next = withRepeat dsw bitmap
    else done = none ∧ next.physicalDatumCount = dsw.physicalDatumCount := by
  unfold compareLastItem at hcompare
  cases hlast : runs.last with
  | none =>
    obtain ⟨hnone, hrepeated⟩ := h.fresh hlast
    rw [if_neg (by simp [hrepeated]), hnone, ite_self] at hcompare
    cases hcompare
    simp
  | some last =>
    obtain ⟨hpending, hsize, offset, hstored, hvalue⟩ := h.going last hlast
    rw [hstored, if_pos hcolumn.rle] at hcompare
    dsimp only at hcompare
    rw [fixedIsEqual_eq hcolumn number last hsize hvalue] at hcompare
    have hfull : (dsw.rleLastItemIsRepeated = true ∧
        maxRepeatCount ≤ dsw.rleRepeatcounts.getLastD 0) ↔ ¬ runs.repeats < maxRepeatCount := by
      rw [← hpending, pendingCount]
      cases dsw.rleLastItemIsRepeated <;> simp [maxRepeatCount]
    by_cases hroom : runs.repeats < maxRepeatCount
    · rw [if_neg fun hboth => hfull.mp hboth hroom] at hcompare
      dsimp only [ok_bind] at hcompare
      by_cases hsame : low width last = low width number ∧ highByte width (low width number) = false
      · rw [decide_eq_true hsame, if_pos rfl] at hcompare
        rw [if_pos (by simp [hsame, hroom])]
        split at hcompare
        · cases hcompare
          exact .inl rfl
        · obtain ⟨bitmap, -, hstep⟩ := h.bounded.rleIncrRepeated hcolumn.rle hstored
          rw [hstep] at hcompare
          cases hcompare
          exact .inr ⟨rfl, bitmap, rfl⟩
      · rw [decide_eq_false hsame, if_neg Bool.false_ne_true] at hcompare
        cases hcompare
        rw [if_neg (by simpa [hroom] using hsame)]
        obtain ⟨_, _, -, heq⟩ := rleFinalizeIfRepeated_eq dsw
        rw [heq]
        exact ⟨rfl, rfl⟩
    · rw [if_pos (hfull.mpr hroom)] at hcompare
      cases hcompare
      rw [if_neg fun hboth => hroom hboth.2.2]
      exact ⟨rfl, rfl⟩

theorem datumlen_toNat : cfg.typeInfo.datumlen.toNat = width := by
  rw [hcolumn.length]
  rfl

/-- The value is stored behind the others, and is the last item then. -/
theorem putFixed_eq (h : Bounded cfg dsw) (number : BitVec 64) : ∃ placed nullBitmap compressBitmap,
      placed = { dsw with datumBuffer := dsw.datumBuffer ++ leBytes width number.toNat } ∧
      putFixedLength cfg dsw (.value number) = .ok placed ∧
      denseIncrItem cfg placed (.stored dsw.datumBuffer.length) cfg.typeInfo.datumlen.toNat =
        .ok { withItem placed nullBitmap compressBitmap (some (.stored dsw.datumBuffer.length))
            width with
          physicalDatumCount := dsw.physicalDatumCount + 1 } := by
  obtain ⟨nullBitmap, compressBitmap, lastItem, lastItemSize, -, -, hlast, hstep⟩ :=
    @denseIncrItem_eq cfg { dsw with datumBuffer := dsw.datumBuffer ++ leBytes width number.toNat }
      h.null h.compress h.not_repeated (.stored dsw.datumBuffer.length) width
  obtain ⟨rfl, rfl⟩ := hlast hcolumn.rle
  rw [datumlen_toNat hcolumn]
  refine ⟨_, nullBitmap, compressBitmap, rfl, ?_, hstep⟩
  unfold putFixedLength
  rw [hcolumn.byval, datumlen_toNat hcolumn, if_neg (by decide), if_pos hcolumn.widths]
  rfl

theorem put_matches (h : Matches cfg width runs dsw) (row : Option (BitVec 64)) {result : Int}
    (hput : put cfg dsw (row.map Datum.value) = .ok (result, next)) (haccepted : 0 ≤ result) :
    Matches cfg width (runs.next (fun value => !highByte width value) width row) next := by
  have hspec := put_spec cfg hcolumn.version h.bounded (row.map Datum.value)
  rw [hput] at hspec
  have hbounded : Bounded cfg next := hspec.1
  rw [put_eq_putDense cfg hcolumn.version] at hput
  unfold putDense at hput
  cases row with
  | none =>
    dsimp only [Option.map] at hput
    split at hput
    · cases hput
      exact absurd haccepted (by decide)
    · obtain ⟨bitmap, lastItem, lastItemSize, hstep, -, hlast⟩ :=
        denseIncrNull_eq cfg h.bounded.null fun hwant => (h.bounded.not_repeated hwant).2
      rw [← bind_assoc, hstep] at hput
      cases hput
      exact ⟨hbounded, h.count, fun _ => ⟨hlast hcolumn.rle, rfl⟩, by rintro _ ⟨⟩⟩
  | some number =>
    dsimp only [Option.map] at hput
    rw [if_neg (by rw [hcolumn.length]; omega)] at hput
    obtain ⟨⟨done, middle⟩, hcompare, hrest⟩ := bind_eq_ok.mp hput
    have hcases := compareLastItem_matches hcolumn h number hcompare
    have hmiddle := compareLastItem_bounded cfg h.bounded _
      (fixedIsEqual_reported cfg dsw (.value number))
    rw [hcompare] at hmiddle
    rw [Runs.next]
    split
    case isTrue hmerge =>
      rw [if_pos hmerge] at hcases
      rcases hcases with rfl | ⟨rfl, bitmap, rfl⟩
      · cases hrest
        exact absurd haccepted (by decide)
      · cases hrest
        obtain ⟨last, hlast, hlow⟩ := Option.map_eq_some_iff.mp hmerge.1
        obtain ⟨hpending, hsize, offset, hstored, hvalue⟩ := h.going last hlast
        refine ⟨hbounded, h.count, by rintro ⟨⟩, ?_⟩
        rintro other ⟨⟩
        refine ⟨?_, hsize, offset, hstored, hvalue.trans hlow⟩
        rw [← hpending]
        simp [pendingCount, withRepeat]
    case isFalse hmerge =>
      rw [if_neg hmerge] at hcases
      obtain ⟨rfl, hcount⟩ := hcases
      obtain ⟨placed, nullBitmap, compressBitmap, rfl, hplaced, hstep⟩ :=
        putFixed_eq hcolumn hmiddle.1 number
      dsimp only [putFixedItem, bind, Except.bind] at hrest
      rw [hplaced, hcolumn.delta, if_neg Bool.false_ne_true] at hrest
      dsimp only at hrest
      rw [hstep] at hrest
      split at hrest
      · cases hrest
        rw [hcolumn.length] at haccepted
        rcases hcolumn.widths with rfl | rfl | rfl | rfl <;> exact absurd haccepted (by decide)
      · cases hrest
        refine ⟨hbounded, congrArg (· + 1) (hcount.trans h.count), by rintro ⟨⟩, ?_⟩
        rintro other ⟨⟩
        refine ⟨rfl, rfl, _, rfl, ?_⟩
        show leNat (((middle.datumBuffer ++ leBytes width number.toNat).drop
          middle.datumBuffer.length).take width) = _
        rw [List.drop_left, List.take_of_length_le (Nat.le_of_eq (length_leBytes _ _)),
          leNat_leBytes, low]

theorem acceptedPuts_matches (rows : List (Option (BitVec 64))) :
    ∀ {runs : Runs} {dsw : BlockWrite}, Matches cfg width runs dsw →
      acceptedPuts cfg dsw rows = some next →
      Matches cfg width (rows.foldl (Runs.next (fun value => !highByte width value) width) runs)
        next := by
  induction rows with
  | nil =>
    intro runs dsw h hputs
    cases hputs
    exact h
  | cons row rows ih =>
    intro runs dsw h hputs
    rw [acceptedPuts, List.foldlM_cons] at hputs
    obtain ⟨middle, hrow, hrest⟩ := Option.bind_eq_some_iff.mp hputs
    split at hrow
    · rename_i result accepted hput
      split at hrow
      · cases hrow
        exact ih (put_matches hcolumn h row hput ‹_›) hrest
      · cases hrow
    · cases hrow

end

/-- Of a column of fixed length as many items are stored as there are runs of equal values if
and only if no row repeats a single byte with the high bit. -/
theorem physicalDatumCount_eq_runCount_iff (hcolumn : RleColumn cfg width)
    {history : List WriteCall} {before : BlockWrite}
    (hbefore : calls cfg (init cfg) history = .ok before) {rows : List (Option (BitVec 64))}
    (hputs : acceptedPuts cfg (getReady cfg before) rows = some dsw) :
    dsw.physicalDatumCount = runCount width rows ↔
      rows.IsChain fun first second => ¬ HighRepeat width first second := by
  have hready : Matches cfg width ⟨none, 0, 0⟩ (getReady cfg before) := by
    refine ⟨@call_bounded cfg before _ hcolumn.version
      (calls_bounded hcolumn.version history (init_bounded cfg hcolumn.version) hbefore) .getReady
      rfl, ?_, fun _ => ?_, nofun⟩
    all_goals simp [getReady, hcolumn.version, hcolumn.rle, hcolumn.delta]
  have hbehind : Behind width ⟨none, 0, 0⟩ ⟨none, 0, 0⟩ := ⟨rfl, Nat.le_refl 0, nofun, nofun⟩
  have hnone : ∀ row, ¬ HighRepeat width none row := by
    rintro row ⟨value, hvalue, -⟩
    cases hvalue
  rw [(acceptedPuts_matches hcolumn rows hready hputs).count, runCount,
    Behind.count_eq_iff rows hbehind]
  cases rows with
  | nil => exact ⟨fun _ => .nil, fun _ => ⟨rfl, .singleton _⟩⟩
  | cons row rows =>
    rw [List.isChain_cons_cons]
    exact ⟨fun h => h.2.2, fun h => ⟨rfl, hnone row, h⟩⟩

end

namespace RunsWitness

/-- A column of the one byte type "char" with RLE_TYPE. -/
def charColumn : WriteConfig :=
  { DatumStreamWitness.bigintColumn with
    typeInfo := ⟨1, 18, .char, true⟩
    deltaWantCompression := false
    maxDataBlockSize := 32736 }

theorem charColumn_rle : RleColumn charColumn 1 :=
  ⟨by decide, rfl, rfl, .inl rfl, rfl, rfl⟩

/-- Two rows with the same high byte are stored twice. -/
theorem highBytes_stored : (acceptedPuts charColumn (getReady charColumn (init charColumn))
        [some 0x80, some 0x80]).map BlockWrite.physicalDatumCount = some 2 ∧
      runCount 1 [some 0x80, some 0x80] = 1 := by
  decide +kernel

theorem lowBytes_stored : ∃ dsw, acceptedPuts charColumn (getReady charColumn (init charColumn))
      [some 0x41, some 0x41, none, some 0x41] = some dsw ∧
    (dsw.physicalDatumCount = runCount 1 [some 0x41, some 0x41, none, some 0x41] ↔
      List.IsChain (fun first second => ¬ HighRepeat 1 first second)
        [some 0x41, some 0x41, none, some 0x41]) := by
  have hsome : (acceptedPuts charColumn (getReady charColumn (init charColumn))
      [some 0x41, some 0x41, none, some 0x41]).isSome = true := by decide +kernel
  obtain ⟨dsw, hdsw⟩ := Option.isSome_iff_exists.mp hsome
  exact ⟨dsw, hdsw, physicalDatumCount_eq_runCount_iff charColumn_rle
    (show calls charColumn (init charColumn) [] = _ from rfl) hdsw⟩

end RunsWitness

end Greenplum.DatumStream
