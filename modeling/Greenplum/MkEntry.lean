/-
The entries of the multi-key sort, `tuplesort_mk_details.h` and `tuplesort_mk.c`: a
tuple with the datum of one of its keys and the flags that take part in
comparisons.
-/
import Mathlib.Order.Fin.Basic
import Mathlib.Tactic.Linarith

namespace Greenplum.MkSort

inductive MkError
  | outside
  | insufficientStatementMemory
  | uniqueViolation
  | unfinished
  deriving DecidableEq, Repr

def mkeMaxLv : Nat := 0x3FFF

def mkeMaxReader : Nat := 0x3FFF

scoped instance neZero_nulls : NeZero 4 := ⟨by decide⟩

scoped instance neZero_level : NeZero 0x4000 := ⟨by decide⟩

/-- Null is smaller than non null. -/
def nullFirst : Fin 4 := 1

def notNull : Fin 4 := 2

/-- Null is bigger than non null. -/
def nullLast : Fin 4 := 3

/-- The flags that are involved in comparisons, from the highest to the lowest
bits.  A level is kept as its distance from the highest level. -/
structure CompFlags where
  empty : Bool
  run : Fin 0x4000
  lvBits : Fin 0x4000
  nullBits : Fin 4
  deriving DecidableEq, Repr

namespace CompFlags

def emptyBit (flags : CompFlags) : Nat := if flags.empty then 1 else 0

def value (flags : CompFlags) : Int :=
  flags.emptyBit * 0x40000000 + flags.run.val * 0x10000 + flags.lvBits.val * 4 + flags.nullBits.val

theorem value_lt_iff {a b : CompFlags} : a.value < b.value ↔
    a.emptyBit < b.emptyBit ∨ a.emptyBit = b.emptyBit ∧ (a.run < b.run ∨
      a.run = b.run ∧ (a.lvBits < b.lvBits ∨ a.lvBits = b.lvBits ∧ a.nullBits < b.nullBits)) := by
  unfold value
  omega

theorem value_inj {a b : CompFlags} : a.value = b.value ↔ a = b := by
  constructor
  · intro hvalue
    have hless : ¬ a.value < b.value := by omega
    have hgreater : ¬ b.value < a.value := by omega
    rw [value_lt_iff] at hless hgreater
    have hempty : a.emptyBit = b.emptyBit := by omega
    have hrun : a.run = b.run := Fin.ext (by omega)
    have hlv : a.lvBits = b.lvBits := Fin.ext (by omega)
    have hnull : a.nullBits = b.nullBits := Fin.ext (by omega)
    have hemptyFlag : a.empty = b.empty := by
      unfold emptyBit at hempty
      cases ha : a.empty <;> cases hb : b.empty <;> simp_all
    cases a
    simp_all
  · rintro rfl
    rfl

end CompFlags

inductive MKLvType
  | none
  | int32
  | char
  | text
  deriving DecidableEq, Repr

/-- The types whose datums are prepared for the locale. -/
def MKLvType.isString : MKLvType → Bool
  | .char | .text => true
  | .none | .int32 => false

/-- The length without trailing blanks. -/
def bcTruelen (p : List UInt8) : Nat := (p.reverse.dropWhile (· = 32)).length

/-- On strings without a zero byte. -/
def strcmp (s1 s2 : List UInt8) : Ordering :=
  List.compareLex (compareOn UInt8.toNat) s1 s2

theorem strcmp_trans {α : Type} (chars : α → List UInt8) :
    Std.TransCmp fun v1 v2 => strcmp (chars v1) (chars v2) := by
  have hbytes : Std.TransCmp (List.compareLex (compareOn UInt8.toNat)) := inferInstance
  exact { eq_swap := hbytes.eq_swap, isLE_trans := hbytes.isLE_trans }

def strxfrmInputLengthLimit : Nat := 512

/-- The strings of a level: the bytes of its datums, and what the locale makes of them. -/
structure LocaleStrings (D : Type) where
  lvtype : MKLvType := .none
  untoast : D → List UInt8 := fun _ => []
  strxfrm : List UInt8 → List UInt8 := id

namespace LocaleStrings

variable {D : Type} (strings : LocaleStrings D)

/-- The characters of a datum that count. -/
def chars (v : D) : List UInt8 :=
  let p := strings.untoast v
  if strings.lvtype = .char then p.take (bcTruelen p) else p

def xfrm (v : D) : List UInt8 := strings.strxfrm (strings.chars v)

/-- The string of a datum is beyond the limit. -/
def long (v : D) : Bool := strxfrmInputLengthLimit < (strings.chars v).length

/-- What is kept of its transformed string. -/
def kept (v : D) : List UInt8 :=
  if strings.long v then (strings.xfrm v).take strxfrmInputLengthLimit else strings.xfrm v

/-- `strcoll`, which orders strings as `strcmp` does what `strxfrm` makes of them, and
`strcmp` where it finds them equal. -/
def varstrCmp (v1 v2 : D) : Ordering :=
  (strcmp (strings.xfrm v1) (strings.xfrm v2)).then (strcmp (strings.chars v1) (strings.chars v2))

/-- The strings of any datums are totally preordered in every locale. -/
theorem varstrCmp_trans : Std.TransCmp strings.varstrCmp := by
  have hstrcoll := strcmp_trans strings.xfrm
  have hstrcmp := strcmp_trans strings.chars
  exact inferInstanceAs (Std.TransCmp (compareLex _ _))

end LocaleStrings

/-- One key of the sort: how its datums compare and where its nulls go.  The sort
function of a CHAR or TEXT level is `bpcharcmp` or `bttextcmp`, and the locale does not
take a string beyond the limit for one within it. -/
structure MKLvContext (D : Type) extends LocaleStrings D where
  compare : D → D → Ordering
  desc : Bool
  nullsFirst : Bool
  compare_trans : Std.TransCmp compare
  compare_string : lvtype.isString = true → compare = toLocaleStrings.varstrCmp := by
    intro hstring
    exact absurd hstring (by decide)
  long_xfrm : lvtype.isString = true → ∀ v1 v2,
    toLocaleStrings.xfrm v1 = toLocaleStrings.xfrm v2 →
      toLocaleStrings.long v1 = toLocaleStrings.long v2 := by
    intro hstring
    exact absurd hstring (by decide)

/-- A sort by at least one key.  Without a function that fetches datums the entries
bring theirs along; a limit mask turns the order of a heap around. -/
structure MKContext (T D : Type) where
  totalLv : Nat
  totalLv_pos : 0 < totalLv
  lvctxt : Nat → MKLvContext D
  fetchForPrep : Option (T → Nat → D × Bool)
  unique : Bool
  enforceUnique : Bool
  limitmask : Bool := false

structure MKEntry (T D : Type) where
  compflags : CompFlags
  reader : Fin 0x4000
  d : D
  ptr : T
  deriving DecidableEq, Repr

section

variable {T D : Type} (e : MKEntry T D)

def mkeBlank : MKEntry T D :=
  { e with
    compflags := { empty := false, run := 0, lvBits := ⟨mkeMaxLv, by decide⟩, nullBits := 0 }
    reader := 0 }

def mkeSetNull (first : Bool) : MKEntry T D :=
  { e with compflags := { e.compflags with nullBits := if first then nullFirst else nullLast } }

def mkeSetNotNull : MKEntry T D :=
  { e with compflags := { e.compflags with nullBits := notNull } }

def mkeIsNull : Bool := decide (e.compflags.nullBits ≠ notNull)

def mkeGetRun : Nat := e.compflags.run

def mkeGetLv : Nat := mkeMaxLv - e.compflags.lvBits

def atLv (lv : Nat) : MKEntry T D :=
  { e with compflags := { e.compflags with lvBits :=
    ⟨mkeMaxLv - lv, Nat.lt_succ_of_le (Nat.sub_le mkeMaxLv lv)⟩ } }

def mkeSetLv (lv : Nat) : Except MkError (MKEntry T D) :=
  if mkeMaxLv < lv then .error .insufficientStatementMemory else .ok (atLv e lv)

/-- The null pointer and the datum zero are the default values of their types. -/
def mkeSetEmpty [Inhabited T] [Inhabited D] : MKEntry T D where
  compflags := { empty := true, run := 0, lvBits := 0, nullBits := 0 }
  reader := 0
  d := default
  ptr := default

def mkeIsEmpty : Bool := e.compflags.empty

def mkeGetReader : Nat := e.reader

/-- A reader beyond the highest one loses its high bits. -/
def mkeSetReader (r : Nat) : MKEntry T D :=
  { e with reader := Fin.ofNat 0x4000 r }

def orderingInt : Ordering → Int
  | .lt => -1
  | .eq => 0
  | .gt => 1

variable (lvctxt : MKLvContext D)

def inlineApplySortFunction (v1 v2 : D) : Int :=
  let result := orderingInt (lvctxt.compare v1 v2)
  if lvctxt.desc then -result else result

structure RefcntLocaleStr where
  data : List UInt8
  xfrm : List UInt8
  isPrefixOnly : Bool

/-- Of a long string only the start of the transformed string is kept. -/
def tupsortPrepareChar (v : D) : RefcntLocaleStr :=
  if lvctxt.long v then
    { data := [], xfrm := (lvctxt.xfrm v).take strxfrmInputLengthLimit, isPrefixOnly := true }
  else
    { data := lvctxt.chars v, xfrm := lvctxt.xfrm v, isPrefixOnly := false }

/-- Strings that come out equal are then shared, which changes none of them. -/
def tupsortCompareChar (v1 v2 : D) : Int :=
  let p1 := tupsortPrepareChar lvctxt v1
  let p2 := tupsortPrepareChar lvctxt v2
  let result := orderingInt (strcmp p1.xfrm p2.xfrm)
  let result :=
    if result = 0 then
      if p1.isPrefixOnly || p2.isPrefixOnly then
        -- the datums are fetched again
        inlineApplySortFunction lvctxt v1 v2
      else orderingInt (strcmp p1.data p2.data)
    else result
  if lvctxt.desc then -result else result

variable (ctxt : MKContext T D)

def tupsortCompareDatum (lv : Nat) (v1 v2 : D) : Int :=
  match (ctxt.lvctxt lv).lvtype with
  -- the sort function of an INT32 level is `btint4cmp`
  | .none | .int32 => inlineApplySortFunction (ctxt.lvctxt lv) v1 v2
  | .char | .text => tupsortCompareChar (ctxt.lvctxt lv) v1 v2

/-- An entry at a CHAR or TEXT level is given by the datum of its string, from which
`tupsortCompareChar` prepares the string. -/
def tupsortPrepare (fetch : T → Nat → D × Bool) (e : MKEntry T D) (lv : Nat) : MKEntry T D :=
  let (d, isnull) := fetch e.ptr lv
  let e := { e with d := d }
  if isnull then mkeSetNull e (ctxt.lvctxt lv).nullsFirst else mkeSetNotNull e

/-- Both the quicksort and the heap leave an entry alone if there is nothing to
fetch. -/
def prepare (e : MKEntry T D) (lv : Nat) : MKEntry T D :=
  match ctxt.fetchForPrep with
  | some fetch => tupsortPrepare ctxt fetch e lv
  | none => e

end

/-- The null flag and the datum an entry is compared by at one level. -/
structure Key (D : Type) where
  nullBits : Fin 4
  d : D
  deriving DecidableEq, Repr

/-- What no preparation changes in an entry. -/
structure Content (T D : Type) where
  empty : Bool
  run : Fin 0x4000
  reader : Fin 0x4000
  ptr : T
  own : Option (Key D)
  deriving DecidableEq, Repr

section

variable {T D : Type} (ctxt : MKContext T D) {lv : Nat} {a b : Key D}

def entryKey (e : MKEntry T D) : Key D where
  nullBits := e.compflags.nullBits
  d := e.d

def content (e : MKEntry T D) : Content T D where
  empty := e.compflags.empty
  run := e.compflags.run
  reader := e.reader
  ptr := e.ptr
  own := if ctxt.fetchForPrep.isSome then none else some (entryKey e)

/-- The key of an entry at a level. -/
def keyAt (e : MKEntry T D) (lv : Nat) : Key D := entryKey (prepare ctxt e lv)

def signOrdering (c : Int) : Ordering := if c < 0 then .lt else if c = 0 then .eq else .gt

/-- The order in which a level has its datums. -/
def datumCompare (lv : Nat) (v1 v2 : D) : Ordering :=
  signOrdering (tupsortCompareDatum ctxt lv v1 v2)

/-- Keys compare by their null flags, then by their datums unless they are null. -/
def keyCompare (lv : Nat) (a b : Key D) : Ordering :=
  (compare a.nullBits b.nullBits).then
    (if a.nullBits = notNull then datumCompare ctxt lv a.d b.d else .eq)

/-- The order of entries by `count` keys, the first of them at level `lv`. -/
def compareFrom : Nat → Nat → MKEntry T D → MKEntry T D → Ordering
  | _, 0, _, _ => .eq
  | lv, count + 1, a, b =>
    (keyCompare ctxt lv (keyAt ctxt a lv) (keyAt ctxt b lv)).then (compareFrom (lv + 1) count a b)

/-- The lexicographic order of entries by all keys. -/
def compareKeys (a b : MKEntry T D) : Ordering := compareFrom ctxt 0 ctxt.totalLv a b

/-- The same keys, compared by their sort functions alone. -/
def MKContext.bySortFunctions : MKContext T D :=
  { ctxt with lvctxt := fun lv =>
      { ctxt.lvctxt lv with
        lvtype := .none
        compare_string := fun hstring => absurd hstring (by decide)
        long_xfrm := fun hstring => absurd hstring (by decide) } }

@[simp]
theorem signOrdering_orderingInt (o : Ordering) : signOrdering (orderingInt o) = o := by
  cases o <;> rfl

@[simp]
theorem signOrdering_neg (o : Ordering) : signOrdering (-orderingInt o) = o.swap := by
  cases o <;> rfl

theorem strcmp_eq_iff {s1 s2 : List UInt8} : strcmp s1 s2 = .eq ↔ s1 = s2 := by
  have hbytes : Std.LawfulEqCmp (compareOn UInt8.toNat) :=
    { compare_self := Std.ReflCmp.compare_self
      eq_of_compare := fun h => UInt8.toNat_inj.1 (compare_eq_iff_eq.1 h) }
  exact @Std.LawfulEqCmp.compare_eq_iff_eq _ (List.compareLex (compareOn UInt8.toNat)) _ s1 s2

theorem strcmp_take_lt (s : List UInt8) (n : Nat) (h : n < s.length) :
    strcmp (s.take n) s = .lt := by
  induction s generalizing n with
  | nil => exact absurd h (Nat.not_lt_zero n)
  | cons c s ih =>
    cases n with
    | zero => rfl
    | succ n =>
      have hcons : strcmp (c :: s.take n) (c :: s) =
          (compareOn UInt8.toNat c c).then (strcmp (s.take n) s) := List.compareLex_cons_cons
      have hself : compareOn UInt8.toNat c c = .eq := Std.ReflCmp.compare_self
      rw [List.take_succ_cons, hcons, hself, ih n (Nat.lt_of_succ_lt_succ h)]
      rfl

section

variable (lvctxt : MKLvContext D) {v1 v2 : D}

/-- A comparison in the direction of a level. -/
def MKLvContext.direct (o : Ordering) : Ordering := if lvctxt.desc then o.swap else o

theorem MKLvContext.direct_eq_iff (o : Ordering) : lvctxt.direct o = .eq ↔ o = .eq := by
  unfold MKLvContext.direct
  cases lvctxt.desc <;> cases o <;> decide

theorem direct_trans {α : Type} {c : α → α → Ordering} (hc : Std.TransCmp c) :
    Std.TransCmp fun a b => lvctxt.direct (c a b) := by
  unfold MKLvContext.direct
  cases lvctxt.desc with
  | false => exact hc
  | true =>
    have heq : (fun a b => (c a b).swap) = fun a b => c b a :=
      funext₂ fun a b => Std.OrientedCmp.eq_swap.symm
    simpa [heq] using @Std.TransCmp.opposite _ c _

theorem inlineApplySortFunction_sign :
    signOrdering (inlineApplySortFunction lvctxt v1 v2) = lvctxt.direct (lvctxt.compare v1 v2) := by
  unfold inlineApplySortFunction MKLvContext.direct
  split_ifs <;> simp

theorem tupsortPrepareChar_eq (v : D) : tupsortPrepareChar lvctxt v =
    ⟨if lvctxt.long v then [] else lvctxt.chars v, lvctxt.kept v, lvctxt.long v⟩ := by
  unfold tupsortPrepareChar LocaleStrings.kept
  cases lvctxt.long v <;> rfl

/-- A level orders two strings as its sort function does: what is kept of them differs
that way, or it is the same and no descending level turns their order around twice. -/
def KeepsOrder (v1 v2 : D) : Prop :=
  lvctxt.lvtype.isString = true →
    if lvctxt.kept v1 = lvctxt.kept v2 then
      lvctxt.long v1 || lvctxt.long v2 → lvctxt.desc → lvctxt.compare v1 v2 = .eq
    else strcmp (lvctxt.kept v1) (lvctxt.kept v2) = lvctxt.compare v1 v2

variable {lvctxt} (hstring : lvctxt.lvtype.isString = true)

include hstring

/-- A string that is kept whole comes before a longer one of which the same is kept. -/
theorem compare_of_kept (hwhole : lvctxt.long v1 = false) (hlong : lvctxt.long v2 = true)
    (hkept : lvctxt.kept v1 = lvctxt.kept v2) : lvctxt.compare v1 v2 = .lt := by
  unfold LocaleStrings.kept at hkept
  rw [if_neg (by rw [hwhole]; decide), if_pos hlong] at hkept
  have hlength : strxfrmInputLengthLimit < (lvctxt.xfrm v2).length := by
    by_contra hle
    rw [List.take_of_length_le (Nat.not_lt.1 hle)] at hkept
    cases hwhole.symm.trans ((lvctxt.long_xfrm hstring v1 v2 hkept).trans hlong)
  rw [lvctxt.compare_string hstring, LocaleStrings.varstrCmp, hkept, strcmp_take_lt _ _ hlength]
  rfl

/-- Strings that are kept whole compare by their bytes where the same is kept of them. -/
theorem compare_of_whole (hlong : (lvctxt.long v1 || lvctxt.long v2) = false)
    (hkept : lvctxt.kept v1 = lvctxt.kept v2) :
    lvctxt.compare v1 v2 = strcmp (lvctxt.chars v1) (lvctxt.chars v2) := by
  rw [Bool.or_eq_false_iff] at hlong
  simp only [LocaleStrings.kept, hlong, Bool.false_eq_true, if_false] at hkept
  rw [lvctxt.compare_string hstring, LocaleStrings.varstrCmp, strcmp_eq_iff.2 hkept]
  rfl

/-- Strings are compared by what is kept of them.  Where it is the same, a descending level
turns the order of strings that are not kept whole around twice. -/
theorem tupsortCompareChar_eq : signOrdering (tupsortCompareChar lvctxt v1 v2) =
    if lvctxt.kept v1 = lvctxt.kept v2 then
      if lvctxt.long v1 || lvctxt.long v2 then lvctxt.compare v1 v2
      else lvctxt.direct (lvctxt.compare v1 v2)
    else lvctxt.direct (strcmp (lvctxt.kept v1) (lvctxt.kept v2)) := by
  unfold tupsortCompareChar inlineApplySortFunction MKLvContext.direct
  rw [tupsortPrepareChar_eq, tupsortPrepareChar_eq]
  dsimp only
  by_cases hkept : lvctxt.kept v1 = lvctxt.kept v2
  · rw [if_pos hkept, strcmp_eq_iff.2 hkept]
    cases hlong : lvctxt.long v1 || lvctxt.long v2 with
    | true => cases lvctxt.desc <;> cases lvctxt.compare v1 v2 <;> rfl
    | false =>
      rw [compare_of_whole hstring hlong hkept]
      rw [Bool.or_eq_false_iff] at hlong
      simp only [hlong, Bool.false_eq_true, if_false]
      cases lvctxt.desc <;> cases strcmp (lvctxt.chars v1) (lvctxt.chars v2) <;> rfl
  · rw [if_neg hkept]
    rw [← strcmp_eq_iff] at hkept
    revert hkept
    cases strcmp (lvctxt.kept v1) (lvctxt.kept v2) <;>
      cases lvctxt.desc <;> simp [orderingInt, signOrdering]

theorem tupsortCompareChar_eq_iff :
    signOrdering (tupsortCompareChar lvctxt v1 v2) = .eq ↔ lvctxt.compare v1 v2 = .eq := by
  rw [tupsortCompareChar_eq hstring]
  split_ifs with hkept
  · rfl
  · exact lvctxt.direct_eq_iff _
  · rw [lvctxt.direct_eq_iff, strcmp_eq_iff]
    refine iff_of_false hkept fun hcompare => hkept ?_
    rw [lvctxt.compare_string hstring, LocaleStrings.varstrCmp, Ordering.then_eq_eq] at hcompare
    unfold LocaleStrings.kept LocaleStrings.long
    rw [strcmp_eq_iff.1 hcompare.1, strcmp_eq_iff.1 hcompare.2]

theorem tupsortCompareChar_keepsOrder :
    signOrdering (tupsortCompareChar lvctxt v1 v2) = lvctxt.direct (lvctxt.compare v1 v2) ↔
      KeepsOrder lvctxt v1 v2 := by
  rw [tupsortCompareChar_eq hstring, KeepsOrder, imp_iff_right hstring]
  unfold MKLvContext.direct
  split_ifs
  · cases lvctxt.compare v1 v2 <;> simp_all
  all_goals simp_all

/-- The same order, one comparison after the other. -/
theorem tupsortCompareChar_eq_then : signOrdering (tupsortCompareChar lvctxt v1 v2) =
    (lvctxt.direct (strcmp (lvctxt.kept v1) (lvctxt.kept v2))).then
      ((compare (lvctxt.long v1).toNat (lvctxt.long v2).toNat).then
        ((lvctxt.direct (strcmp (tupsortPrepareChar lvctxt v1).data
          (tupsortPrepareChar lvctxt v2).data)).then (lvctxt.compare v1 v2))) := by
  have hcompare := lvctxt.compare_trans
  rw [tupsortCompareChar_eq hstring, tupsortPrepareChar_eq, tupsortPrepareChar_eq]
  dsimp only
  by_cases hkept : lvctxt.kept v1 = lvctxt.kept v2
  · rw [if_pos hkept, strcmp_eq_iff.2 hkept, (lvctxt.direct_eq_iff _).2 rfl]
    cases h1 : lvctxt.long v1 <;> cases h2 : lvctxt.long v2
    · rw [compare_of_whole hstring (by rw [h1, h2]; rfl) hkept]
      cases hdata : strcmp (lvctxt.chars v1) (lvctxt.chars v2) <;>
        cases hdesc : lvctxt.desc <;> simp [MKLvContext.direct, hdata, hdesc]
    · rw [compare_of_kept hstring h1 h2 hkept]
      rfl
    · have hlt := compare_of_kept hstring h2 h1 hkept.symm
      have hgt : lvctxt.compare v1 v2 = .gt := Std.OrientedCmp.gt_iff_lt.2 hlt
      rw [hgt]
      rfl
    · cases lvctxt.compare v1 v2 <;> cases hdesc : lvctxt.desc <;>
        simp [MKLvContext.direct, hdesc, strcmp_eq_iff.2]
  · rw [if_neg hkept]
    have hne := mt (lvctxt.direct_eq_iff _).1 (mt strcmp_eq_iff.1 hkept)
    revert hne
    cases lvctxt.direct _ <;> simp

end

/-- A level of strings compares what is prepared of them, any other by its sort function. -/
theorem datumCompare_eq (lv : Nat) (v1 v2 : D) : datumCompare ctxt lv v1 v2 =
    if (ctxt.lvctxt lv).lvtype.isString then
      signOrdering (tupsortCompareChar (ctxt.lvctxt lv) v1 v2)
    else (ctxt.lvctxt lv).direct ((ctxt.lvctxt lv).compare v1 v2) := by
  unfold datumCompare tupsortCompareDatum
  cases (ctxt.lvctxt lv).lvtype with
  | none | int32 => exact inlineApplySortFunction_sign _
  | char | text => rfl

instance datumCompare_trans (lv : Nat) : Std.TransCmp (datumCompare ctxt lv) := by
  have hsort := (ctxt.lvctxt lv).compare_trans
  have hcompare := direct_trans (ctxt.lvctxt lv) hsort
  have hkept := direct_trans (ctxt.lvctxt lv) (strcmp_trans (ctxt.lvctxt lv).kept)
  have hdata := direct_trans (ctxt.lvctxt lv)
    (strcmp_trans fun v => (tupsortPrepareChar (ctxt.lvctxt lv) v).data)
  rw [funext₂ (datumCompare_eq ctxt lv)]
  split_ifs with hstring
  · simp only [tupsortCompareChar_eq_then hstring]
    exact inferInstanceAs (Std.TransCmp (compareLex _ (compareLex
      (compareOn fun v => ((ctxt.lvctxt lv).long v).toNat) (compareLex _ _))))
  · exact hcompare

theorem datumCompare_eq_iff (lv : Nat) (v1 v2 : D) :
    datumCompare ctxt lv v1 v2 = .eq ↔ (ctxt.lvctxt lv).compare v1 v2 = .eq := by
  rw [datumCompare_eq]
  split_ifs with hstring
  · exact tupsortCompareChar_eq_iff hstring
  · exact MKLvContext.direct_eq_iff _ _

theorem datumCompare_keepsOrder (lv : Nat) (v1 v2 : D) :
    datumCompare ctxt lv v1 v2 = datumCompare ctxt.bySortFunctions lv v1 v2 ↔
      KeepsOrder (ctxt.lvctxt lv) v1 v2 := by
  have hsort : datumCompare ctxt.bySortFunctions lv v1 v2 = (ctxt.lvctxt lv).direct _ :=
    datumCompare_eq ctxt.bySortFunctions lv v1 v2
  rw [hsort, datumCompare_eq]
  split_ifs with hstring
  · exact tupsortCompareChar_keepsOrder hstring
  · exact iff_of_true rfl fun hkeeps => absurd hkeeps hstring

theorem keyCompare_eq_iff (a b : Key D) :
    keyCompare ctxt lv a b = .eq ↔ keyCompare ctxt.bySortFunctions lv a b = .eq := by
  have hdatum := datumCompare_eq_iff ctxt lv a.d b.d
  have hsort := datumCompare_eq_iff ctxt.bySortFunctions lv a.d b.d
  unfold keyCompare
  rw [Ordering.then_eq_eq, Ordering.then_eq_eq]
  split_ifs
  · exact and_congr_right fun _ => hdatum.trans hsort.symm
  · rfl

theorem keyCompare_keepsOrder (a b : Key D) :
    keyCompare ctxt lv a b = keyCompare ctxt.bySortFunctions lv a b ↔
      (a.nullBits = notNull → b.nullBits = notNull → KeepsOrder (ctxt.lvctxt lv) a.d b.d) := by
  rw [← datumCompare_keepsOrder]
  unfold keyCompare
  cases hflags : compare a.nullBits b.nullBits with
  | lt | gt =>
    refine iff_of_true rfl fun ha hb => ?_
    rw [ha, hb] at hflags
    cases hflags
  | eq =>
    rw [compare_eq_iff_eq] at hflags
    split_ifs with hnull
    · exact ⟨fun hsame _ _ => hsame, fun hsame => hsame hnull (hflags ▸ hnull)⟩
    · exact iff_of_true rfl fun ha => absurd ha hnull

theorem keyCompare_of_lt (h : a.nullBits < b.nullBits) : keyCompare ctxt lv a b = .lt := by
  unfold keyCompare
  rw [compare_lt_iff_lt.2 h]
  rfl

theorem keyCompare_of_gt (h : b.nullBits < a.nullBits) : keyCompare ctxt lv a b = .gt := by
  unfold keyCompare
  rw [compare_gt_iff_gt.2 h]
  rfl

theorem keyCompare_of_eq (h : a.nullBits = b.nullBits) : keyCompare ctxt lv a b =
      if b.nullBits = notNull then datumCompare ctxt lv a.d b.d else .eq := by
  unfold keyCompare
  rw [compare_eq_iff_eq.2 h, h]
  rfl

/-- An integer with the sign of an ordering. -/
structure SignOf (c : Int) (o : Ordering) : Prop where
  neg : c < 0 ↔ o = .lt
  zero : c = 0 ↔ o = .eq
  pos : c > 0 ↔ o = .gt

theorem signOf_lt {c : Int} (h : c < 0) : SignOf c .lt := by
  constructor <;> simp only [reduceCtorEq, iff_true, iff_false] <;> omega

theorem signOf_gt {c : Int} (h : 0 < c) : SignOf c .gt := by
  constructor <;> simp only [reduceCtorEq, iff_true, iff_false] <;> omega

theorem signOf_signOrdering (c : Int) : SignOf c (signOrdering c) := by
  unfold signOrdering
  split_ifs <;> constructor <;> simp <;> omega

theorem SignOf.isLE {c : Int} {o : Ordering} (h : SignOf c o) (hc : ¬ c > 0) : o.isLE :=
  Ordering.isLE_iff_ne_gt.2 fun hgt => hc (h.pos.2 hgt)

/-- Where the flags differ in the null bits alone, the datums decide between equal flags. -/
theorem signOf_keyCompare {x y : MKEntry T D} {difference : Int}
    (hdifference : difference = (x.compflags.nullBits.val : Int) - y.compflags.nullBits.val) :
    SignOf (if difference = 0 ∧ mkeIsNull x = false then tupsortCompareDatum ctxt lv x.d y.d
      else difference) (keyCompare ctxt lv (entryKey x) (entryKey y)) := by
  rcases lt_trichotomy x.compflags.nullBits y.compflags.nullBits with h | h | h
  · rw [if_neg (fun hzero => by omega), keyCompare_of_lt ctxt h]
    exact signOf_lt (by omega)
  · have hzero : difference = 0 := by
      omega
    have hkeys : keyCompare ctxt lv (entryKey x) (entryKey y) = _ := keyCompare_of_eq ctxt h
    by_cases hnull : (entryKey y).nullBits = notNull
    · rw [hkeys, if_pos hnull, if_pos ⟨hzero, decide_eq_false (not_not_intro (h.trans hnull))⟩]
      exact signOf_signOrdering _
    · have hisNull : ¬ mkeIsNull x = false :=
        fun hfalse => of_decide_eq_false hfalse fun hx => hnull (h.symm.trans hx)
      rw [hkeys, if_neg hnull, if_neg (fun hboth => hisNull hboth.2), hzero]
      constructor <;> decide
  · rw [if_neg (fun hzero => by omega), keyCompare_of_gt ctxt h]
    exact signOf_gt (by omega)

instance keyCompare_trans (lv : Nat) : Std.TransCmp (keyCompare ctxt lv) := by
  let _ : Ord D := ⟨datumCompare ctxt lv⟩
  have _ : Std.TransOrd D := datumCompare_trans ctxt lv
  have heq : keyCompare ctxt lv = compareLex (compareOn Key.nullBits)
      (compareOn fun key => if key.nullBits = notNull then some key.d else none) := by
    funext a b
    unfold keyCompare compareLex compareOn
    dsimp only
    cases hflags : compare a.nullBits b.nullBits with
    | lt | gt => rfl
    | eq =>
      rw [compare_eq_iff_eq] at hflags
      rw [hflags]
      split_ifs <;> rfl
  rw [heq]
  infer_instance

theorem keyCompare_swap (lv : Nat) (a b : Key D) :
    keyCompare ctxt lv a b = (keyCompare ctxt lv b a).swap :=
  Std.OrientedCmp.eq_swap

instance compareFrom_trans (lv count : Nat) : Std.TransCmp (compareFrom ctxt lv count) := by
  induction count generalizing lv with
  | zero => exact { eq_swap := rfl, isLE_trans := fun _ _ => rfl }
  | succ count ih =>
    have hkeys : Std.TransCmp fun a b => keyCompare ctxt lv (keyAt ctxt a lv) (keyAt ctxt b lv) :=
      { eq_swap := Std.OrientedCmp.eq_swap
        isLE_trans := fun hab hbc => Std.TransCmp.isLE_trans hab hbc }
    have heq : compareFrom ctxt lv (count + 1) =
        compareLex (fun a b => keyCompare ctxt lv (keyAt ctxt a lv) (keyAt ctxt b lv))
          (compareFrom ctxt (lv + 1) count) := rfl
    rw [heq]
    infer_instance

end

section

variable {T D : Type} (ctxt : MKContext T D) {a b a' b' : MKEntry T D} {lv : Nat}

/-- An entry that holds its key of a level. -/
def Prepared (lv : Nat) (e : MKEntry T D) : Prop :=
  mkeGetLv e = lv ∧ entryKey e = keyAt ctxt e lv

variable (e : MKEntry T D)

theorem prepare_compflags (lv : Nat) : prepare ctxt e lv = { e with
        compflags := { e.compflags with nullBits := (keyAt ctxt e lv).nullBits }
        d := (keyAt ctxt e lv).d } := by
  unfold keyAt prepare
  cases ctxt.fetchForPrep with
  | none => rfl
  | some fetch =>
    unfold tupsortPrepare
    dsimp only
    split_ifs
    · rfl
    · rfl

theorem content_prepare (lv : Nat) : content ctxt (prepare ctxt e lv) = content ctxt e := by
  cases hfetch : ctxt.fetchForPrep with
  | none =>
    unfold prepare
    rw [hfetch]
  | some fetch =>
    rw [prepare_compflags]
    simp [content, hfetch]

theorem content_atLv (lv : Nat) : content ctxt (atLv e lv) = content ctxt e :=
  rfl

/-- The keys of an entry come from its tuple, or the entry brings its key along. -/
theorem keyAt_congr (hptr : a.ptr = b.ptr)
    (hown : ctxt.fetchForPrep = none → entryKey a = entryKey b) (lv : Nat) :
    keyAt ctxt a lv = keyAt ctxt b lv := by
  unfold keyAt prepare
  cases hfetch : ctxt.fetchForPrep with
  | none => exact hown hfetch
  | some fetch =>
    unfold tupsortPrepare
    rw [hptr]
    dsimp only
    split_ifs
    · rfl
    · rfl

/-- The keys of an entry are the same before and after a preparation. -/
theorem keyAt_of_content (h : content ctxt a = content ctxt b) (lv : Nat) :
    keyAt ctxt a lv = keyAt ctxt b lv := by
  refine keyAt_congr ctxt (congrArg Content.ptr h) (fun hfetch => ?_) lv
  have hown := congrArg Content.own h
  simpa [content, hfetch] using hown

theorem compareFrom_of_keys (ha : ∀ l, keyAt ctxt a l = keyAt ctxt a' l)
    (hb : ∀ l, keyAt ctxt b l = keyAt ctxt b' l) (lv count : Nat) :
    compareFrom ctxt lv count a b = compareFrom ctxt lv count a' b' := by
  induction count generalizing lv with
  | zero => rfl
  | succ count ih =>
    unfold compareFrom
    rw [ha, hb, ih]

theorem compareFrom_of_content (ha : content ctxt a = content ctxt a')
    (hb : content ctxt b = content ctxt b') (lv count : Nat) :
    compareFrom ctxt lv count a b = compareFrom ctxt lv count a' b' :=
  compareFrom_of_keys ctxt (keyAt_of_content ctxt ha) (keyAt_of_content ctxt hb) lv count

theorem keyAt_setReader (r l : Nat) : keyAt ctxt (mkeSetReader e r) l = keyAt ctxt e l :=
  keyAt_congr ctxt (a := mkeSetReader e r) (b := e) rfl (fun _ => rfl) l

theorem mkeGetLv_atLv (hlv : lv ≤ mkeMaxLv) : mkeGetLv (atLv e lv) = lv := by
  unfold mkeGetLv atLv
  dsimp only
  omega

theorem mkeSetLv_eq_ok (hlv : lv ≤ mkeMaxLv) : mkeSetLv e lv = .ok (atLv e lv) := by
  unfold mkeSetLv
  rw [if_neg (by omega)]

theorem prepared_atLv_prepare (hlv : lv ≤ mkeMaxLv) :
    Prepared ctxt lv (atLv (prepare ctxt e lv) lv) := by
  constructor
  · exact mkeGetLv_atLv _ hlv
  · have hcontent : content ctxt (atLv (prepare ctxt e lv) lv) = content ctxt e := by
      rw [content_atLv, content_prepare]
    exact (keyAt_of_content ctxt hcontent lv).symm

/-- Two entries are in the same order by `count` keys as by the sort functions of these:
the strings of the first key in which they differ are. -/
def SameOrderFrom : Nat → Nat → MKEntry T D → MKEntry T D → Prop
  | _, 0, _, _ => True
  | lv, count + 1, x, y =>
    let a := keyAt ctxt x lv
    let b := keyAt ctxt y lv
    (a.nullBits = notNull → b.nullBits = notNull → KeepsOrder (ctxt.lvctxt lv) a.d b.d) ∧
      (keyCompare ctxt.bySortFunctions lv a b = .eq → SameOrderFrom (lv + 1) count x y)

def SameOrder (x y : MKEntry T D) : Prop := SameOrderFrom ctxt 0 ctxt.totalLv x y

/-- The levels keep the order of any two of the entries. -/
def SameOrders (entries : List (MKEntry T D)) : Prop :=
  ∀ x ∈ entries, ∀ y ∈ entries, SameOrder ctxt x y

/-- The entries come in the order of their keys. -/
abbrev InOrder (entries : List (MKEntry T D)) : Prop :=
  entries.Pairwise fun x y => (compareKeys ctxt x y).isLE

theorem compareFrom_eq_iff (x y : MKEntry T D) (lv count : Nat) :
    compareFrom ctxt lv count x y = .eq ↔
      compareFrom ctxt.bySortFunctions lv count x y = .eq := by
  induction count generalizing lv with
  | zero => exact Iff.rfl
  | succ count ih =>
    change Ordering.then _ _ = _ ↔ Ordering.then _ _ = _
    rw [Ordering.then_eq_eq, Ordering.then_eq_eq]
    exact and_congr (keyCompare_eq_iff ctxt _ _) (ih (lv + 1))

theorem sameOrderFrom_iff (x y : MKEntry T D) (lv count : Nat) :
    SameOrderFrom ctxt lv count x y ↔
      compareFrom ctxt lv count x y = compareFrom ctxt.bySortFunctions lv count x y := by
  induction count generalizing lv with
  | zero => exact iff_of_true trivial rfl
  | succ count ih =>
    have hthen : ∀ o o' r r' : Ordering, (o = .eq ↔ o' = .eq) →
        (o = o' ∧ (o' = .eq → r = r') ↔ o.then r = o'.then r') := by
      decide
    rw [SameOrderFrom, ← keyCompare_keepsOrder, ih]
    exact hthen _ _ _ _ (keyCompare_eq_iff ctxt _ _)

theorem sameOrder_iff (x y : MKEntry T D) : SameOrder ctxt x y ↔
    compareKeys ctxt x y = compareKeys ctxt.bySortFunctions x y :=
  sameOrderFrom_iff ctxt x y 0 ctxt.totalLv

theorem SameOrder.symm (h : SameOrder ctxt a b) : SameOrder ctxt b a := by
  have hswap : ∀ c : MKContext T D, compareKeys c b a = (compareKeys c a b).swap :=
    fun c => (compareFrom_trans c 0 c.totalLv).eq_swap
  rw [sameOrder_iff] at h ⊢
  exact (hswap ctxt).trans ((congrArg Ordering.swap h).trans (hswap _).symm)

/-- What is sorted by the prepared datums is sorted by the sort functions just if these
put any two entries in the same order. -/
theorem inOrder_iff_sameOrders {entries : List (MKEntry T D)} (h : InOrder ctxt entries) :
    InOrder ctxt.bySortFunctions entries ↔ SameOrders ctxt entries := by
  constructor
  · intro hsort
    have hsame : entries.Pairwise (SameOrder ctxt) := by
      refine (h.and hsort).imp fun {x y} hboth => (sameOrder_iff ctxt x y).2 ?_
      have heq : compareKeys ctxt x y = .eq ↔ compareKeys ctxt.bySortFunctions x y = .eq :=
        compareFrom_eq_iff ctxt x y 0 ctxt.totalLv
      have hsign : ∀ o o' : Ordering, o.isLE → o'.isLE → (o = .eq ↔ o' = .eq) → o = o' := by
        decide
      exact hsign _ _ hboth.1 hboth.2 heq
    have hself : ∀ (c : MKContext T D) x, compareKeys c x x = .eq :=
      fun c x => @Std.ReflCmp.compare_self _ (compareFrom c 0 c.totalLv) _ x
    intro x hx y hy
    exact List.Pairwise.forall_of_forall_of_flip
      (fun x _ => (sameOrder_iff ctxt x x).2
        ((hself ctxt x).trans (hself ctxt.bySortFunctions x).symm)) hsame
      (hsame.imp fun hxy => SameOrder.symm ctxt hxy) hx hy
  · intro hsame
    refine h.imp_of_mem fun {x y} hx hy hle => ?_
    rwa [← (sameOrder_iff ctxt x y).1 (hsame x hx y hy)]

/-- The order of entries depends on their keys alone. -/
theorem sameOrders_of_keys {entries others : List (MKEntry T D)}
    (hkeys : ∀ x ∈ others, ∃ e ∈ entries, ∀ l, keyAt ctxt e l = keyAt ctxt x l)
    (h : SameOrders ctxt entries) : SameOrders ctxt others := by
  intro x hx y hy
  obtain ⟨d, hd, hdkeys⟩ := hkeys x hx
  obtain ⟨e, he, hekeys⟩ := hkeys y hy
  have hsame := h d hd e he
  rw [sameOrder_iff] at hsame ⊢
  unfold compareKeys at hsame ⊢
  rwa [compareFrom_of_keys ctxt hdkeys hekeys,
    compareFrom_of_keys ctxt.bySortFunctions hdkeys hekeys] at hsame

end

end Greenplum.MkSort
