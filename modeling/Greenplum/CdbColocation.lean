/-
Rows with equal distribution keys belong on one segment.  Equality of two values
makes `hashDatum` feed the same buffer for every type but three: intervals,
char(n) values one of which is the empty string, and arrays.  For these the
buffers agree exactly when the values are stored alike.
-/
import Greenplum.CdbHash

namespace Greenplum.CdbHash

open ByteCompare ByteNumbers List

section

variable {width : Nat} {left right : BitVec width}

theorem length_intBytes (value : BitVec width) : (intBytes value).length = width / 8 :=
  length_leBytes _ _

theorem intBytes_inj (hwidth : 8 ∣ width) : intBytes left = intBytes right ↔ left = right := by
  have hpow : 256 ^ (width / 8) = 2 ^ width := by
    rw [show 256 = 2 ^ 8 from rfl, ← Nat.pow_mul, Nat.mul_div_cancel' hwidth]
  rw [intBytes, intBytes, leBytes_eq_iff, hpow, Nat.mod_eq_of_lt left.isLt,
    Nat.mod_eq_of_lt right.isLt, BitVec.toNat_inj]

/-- Equal integers of any two widths are cast to the same eight bytes. -/
theorem intBytes_signExtend_eq {width1 width2 : Nat} {value1 : BitVec width1}
    {value2 : BitVec width2} (hwidth1 : width1 ≤ 64) (hwidth2 : width2 ≤ 64)
    (heq : (value1.toInt == value2.toInt) = true) :
    intBytes (value1.signExtend 64) = intBytes (value2.signExtend 64) := by
  apply congrArg intBytes
  apply BitVec.eq_of_toInt_eq
  rw [BitVec.toInt_signExtend_of_le hwidth1, BitVec.toInt_signExtend_of_le hwidth2,
    beq_iff_eq.1 heq]

theorem hashInt8 (value : BitVec 64) :
    hashScalar (.int8 value) = intBytes (value.signExtend 64) := by
  rw [hashScalar, BitVec.signExtend_eq]

theorem eq_of_not_lt_not_gt (hlt : ¬ left.toInt < right.toInt)
    (hgt : ¬ left.toInt > right.toInt) : left = right :=
  BitVec.eq_of_toInt_eq (Int.le_antisymm (Int.not_lt.1 hgt) (Int.not_lt.1 hlt))

end

section

variable {other weight : Int} {digits digits1 digits2 : List (BitVec 16)} {num1 num2 : Numeric}

theorem passHigh_of_le (hle : ¬ weight > other) :
    passHigh other weight digits = some (weight, digits) := by
  cases digits with
  | nil => rfl
  | cons digit digits => rw [passHigh, if_neg hle]

theorem passHigh_of_gt (hgt : weight > other) (hne : digits ≠ []) (hhead : digits.head? ≠ some 0) :
    passHigh other weight digits = none := by
  cases digits with
  | nil => exact absurd rfl hne
  | cons digit digits =>
    have hdigit : digit ≠ 0 := fun h => hhead (congrArg some h)
    rw [passHigh, if_pos hgt, if_pos hdigit]

/-- What the walk leaves stands behind the digits that both numbers have. -/
theorem passCommon_ok {left1 left2 : List (BitVec 16)}
    (hpass : passCommon digits1 digits2 = .ok (left1, left2)) :
    ∃ common, digits1 = common ++ left1 ∧ digits2 = common ++ left2 ∧
      (left1 = [] ∨ left2 = []) := by
  fun_induction passCommon digits1 digits2 with
  | case1 => cases hpass
  | case2 digit1 digits1 digit2 digits2 hstat ih =>
    have hdigit : digit1 = digit2 := BitVec.eq_of_toInt_eq (Int.sub_eq_zero.1 (not_not.1 hstat))
    rcases ih hpass with ⟨common, h1, h2, hleft⟩
    refine ⟨digit1 :: common, ?_, ?_, hleft⟩
    · rw [h1, cons_append]
    · rw [hdigit, h2, cons_append]
  | case3 digits1 digits2 hend =>
    cases hpass
    refine ⟨[], rfl, rfl, ?_⟩
    cases left1 with
    | nil => exact .inl rfl
    | cons digit1 rest1 =>
      cases left2 with
      | nil => exact .inr rfl
      | cons digit2 rest2 => exact (hend _ _ _ _ rfl rfl).elim

theorem passCommon_error {stat : Ordering}
    (hpass : passCommon digits1 digits2 = .error stat) : stat ≠ .eq := by
  fun_induction passCommon digits1 digits2 with
  | case1 =>
    cases hpass
    split <;> simp
  | case2 digit1 digits1 digit2 digits2 hstat ih => exact ih hpass
  | case3 => cases hpass

/-- Zeroes alone are left of a number that does not end in one: nothing is. -/
theorem eq_nil_of_any_ne_zero {common left : List (BitVec 16)}
    (hlast : digits.getLast? ≠ some 0) (hdigits : digits = common ++ left)
    (hany : ¬ left.any (· ≠ 0) = true) : left = [] := by
  by_contra hne
  apply hlast
  rw [hdigits, getLast?_append_of_ne_nil _ hne, getLast?_eq_some_getLast hne]
  have hmem := getLast_mem hne
  simp only [any_eq_true, not_exists, not_and, decide_eq_true_eq, not_not] at hany
  exact congrArg some (hany _ hmem)

theorem digits_eq_of_cmpAbsCommon (hne1 : num1.digits ≠ []) (hne2 : num2.digits ≠ [])
    (hcmp : cmpAbsCommon num1.digits num1.weight.toInt num2.digits num2.weight.toInt = .eq) :
    num1.digits = num2.digits := by
  unfold cmpAbsCommon at hcmp
  -- a higher first digit is not zero, so it would decide the comparison
  have hle1 : ¬ num1.weight.toInt > num2.weight.toInt := by
    intro hgt
    rw [passHigh_of_gt hgt hne1 num1.head_ne_zero] at hcmp
    cases hcmp
  rw [passHigh_of_le hle1] at hcmp
  have hle2 : ¬ num2.weight.toInt > num1.weight.toInt := by
    intro hgt
    dsimp only at hcmp
    rw [passHigh_of_gt hgt hne2 num2.head_ne_zero] at hcmp
    cases hcmp
  dsimp only at hcmp
  rw [passHigh_of_le hle2] at hcmp
  dsimp only at hcmp
  rw [if_pos (Int.le_antisymm (Int.not_lt.1 hle1) (Int.not_lt.1 hle2))] at hcmp
  cases hpass : passCommon num1.digits num2.digits with
  | error stat =>
    rw [hpass] at hcmp
    exact absurd hcmp (passCommon_error hpass)
  | ok left =>
    rw [hpass] at hcmp
    dsimp only at hcmp
    rcases passCommon_ok hpass with ⟨common, h1, h2, -⟩
    split at hcmp
    · cases hcmp
    · rename_i hleft1
      split at hcmp
      · cases hcmp
      · rename_i hleft2
        rw [h1, h2, eq_nil_of_any_ne_zero num1.last_ne_zero h1 hleft1,
          eq_nil_of_any_ne_zero num2.last_ne_zero h2 hleft2]

theorem digits_eq_of_cmpVarCommon (hcmp : cmpVarCommon num1 num2 = .eq) :
    num1.digits = num2.digits := by
  unfold cmpVarCommon at hcmp
  simp only [length_eq_zero_iff] at hcmp
  by_cases hnil1 : num1.digits = []
  · by_cases hnil2 : num2.digits = []
    · rw [hnil1, hnil2]
    · rw [if_pos hnil1, if_neg hnil2] at hcmp
      split at hcmp <;> cases hcmp
  · rw [if_neg hnil1] at hcmp
    by_cases hnil2 : num2.digits = []
    · rw [if_pos hnil2] at hcmp
      split at hcmp <;> cases hcmp
    · rw [if_neg hnil2] at hcmp
      split at hcmp
      · split at hcmp
        · cases hcmp
        · exact digits_eq_of_cmpAbsCommon hnil1 hnil2 hcmp
      · split at hcmp
        · cases hcmp
        · exact (digits_eq_of_cmpAbsCommon hnil2 hnil1 hcmp).symm

theorem hashNumeric_eq (hcmp : cmpNumerics num1 num2 = .eq) :
    hashScalar (.numeric num1) = hashScalar (.numeric num2) := by
  unfold cmpNumerics at hcmp
  by_cases hnan1 : num1.sign = .nan
  · by_cases hnan2 : num2.sign = .nan
    · rw [hashScalar, hashScalar, if_pos hnan1, if_pos hnan2]
    · rw [if_pos hnan1, if_neg hnan2] at hcmp
      cases hcmp
  · by_cases hnan2 : num2.sign = .nan
    · rw [if_neg hnan1, if_pos hnan2] at hcmp
      cases hcmp
    · rw [if_neg hnan1, if_neg hnan2] at hcmp
      rw [hashScalar, hashScalar, if_neg hnan1, if_neg hnan2, Numeric.data, Numeric.data,
        digits_eq_of_cmpVarCommon hcmp]

end

section

variable {arg1 arg2 : Text} {len : Nat}

theorem textEq_bytes (heq : textEq arg1 arg2 = true) : arg1.bytes = arg2.bytes := by
  unfold textEq at heq
  split at heq
  · cases heq
  · rename_i hlength
    have hcount := (not_not.1 hlength).le
    have htake := (strncmp_eq_iff (le_refl _) hcount arg1.no_nul).1 (beq_iff_eq.1 heq)
    rwa [take_length, not_not.1 hlength, take_length] at htake

theorem byteaEq_eq {arg1 arg2 : List Byte} (heq : byteaEq arg1 arg2 = true) : arg1 = arg2 := by
  unfold byteaEq at heq
  split at heq
  · cases heq
  · rename_i hlength
    exact (memcmp_eq_iff (not_not.1 hlength)).1 (beq_iff_eq.1 heq)

theorem nameEq_nameStr {arg1 arg2 : Name} (heq : nameEq arg1 arg2 = true) :
    arg1.nameStr = arg2.nameStr := by
  have hpad : ∀ name : Name, name.nameStr =
      name.string ++ 0 :: List.replicate (namedatalen - name.string.length - 1) 0 := by
    intro name
    have hroom : namedatalen - name.string.length = namedatalen - name.string.length - 1 + 1 := by
      have := name.length_lt
      omega
    rw [Name.nameStr, hroom, replicate_succ, Nat.add_sub_cancel]
  rw [nameEq, beq_iff_eq, hpad, hpad] at heq
  have hstring := eq_of_strncmp_nul arg1.length_lt arg2.length_lt arg1.no_nul arg2.no_nul heq
  rw [Name.nameStr, Name.nameStr, hstring]

variable (bytes : List Byte)

theorem bcTruelen_le (len : Nat) : bcTruelen bytes len ≤ len := by
  induction len with
  | zero => exact le_refl 0
  | succ len ih =>
    rw [bcTruelen]
    split <;> omega

/-- All blanks but the first character are ignored. -/
theorem ignoreblanks_eq (hlen : 2 ≤ len) :
    ignoreblanks bytes len = max 1 (bcTruelen bytes len) := by
  induction len with
  | zero => exact absurd hlen (by decide)
  | succ len ih =>
    rw [ignoreblanks, bcTruelen]
    by_cases hblank : bytes[len]? = some blank
    · rw [if_pos hblank, if_neg (not_not_intro hblank)]
      by_cases hone : len = 1
      · have := bcTruelen_le bytes len
        rw [if_pos hone]
        omega
      · rw [if_neg hone]
        exact ih (by omega)
    · rw [if_neg hblank, if_pos hblank]
      omega

theorem blank_of_bcTruelen_eq_zero {bytes : List Byte}
    (hzero : bcTruelen bytes len = 0) : ∀ i < len, bytes[i]? = some blank := by
  induction len with
  | zero => exact fun i hi => absurd hi (Nat.not_lt_zero i)
  | succ len ih =>
    intro i hi
    rw [bcTruelen] at hzero
    by_cases hblank : bytes[len]? = some blank
    · rw [if_neg (not_not_intro hblank)] at hzero
      rcases Nat.lt_succ_iff_lt_or_eq.1 hi with hlt | rfl
      · exact ih hzero i hlt
      · exact hblank
    · rw [if_pos hblank] at hzero
      cases hzero

/-- What is left of a string is its text without trailing blanks, or one blank
when there is no text but a blank. -/
theorem stringBuffer_eq : stringBuffer bytes = if bytes = [] then [] else
      if bcTruelen bytes bytes.length = 0 then [blank]
      else bytes.take (bcTruelen bytes bytes.length) := by
  have hfirst : bcTruelen bytes bytes.length = 0 → bytes ≠ [] → bytes.take 1 = [blank] := by
    intro hzero hne
    have hblank := blank_of_bcTruelen_eq_zero hzero 0 (length_pos_iff.2 hne)
    rw [take_one, head?_eq_getElem?, hblank]
    rfl
  unfold stringBuffer
  by_cases hlong : bytes.length > 1
  · have hne : bytes ≠ [] := ne_nil_of_length_pos (Nat.lt_of_succ_lt hlong)
    rw [if_pos hlong, if_neg hne, ignoreblanks_eq bytes hlong]
    by_cases hzero : bcTruelen bytes bytes.length = 0
    · rw [if_pos hzero, hzero]
      exact hfirst hzero hne
    · rw [if_neg hzero, Nat.max_eq_right (Nat.pos_of_ne_zero hzero)]
  · rw [if_neg hlong]
    by_cases hnil : bytes = []
    · rw [if_pos hnil, hnil]
    · have hone : bytes.length = 1 := by
        have := length_pos_iff.2 hnil
        omega
      rw [if_neg hnil]
      by_cases hzero : bcTruelen bytes bytes.length = 0
      · rw [if_pos hzero, ← hfirst hzero hnil, take_of_length_le hone.le]
      · rw [if_neg hzero, take_of_length_le (by omega)]

/-- Equal char(n) values have the same text in front of their blanks. -/
theorem bpcharEq_text (heq : bpcharEq arg1 arg2 = true) :
    bcTruelen arg1.bytes arg1.bytes.length = bcTruelen arg2.bytes arg2.bytes.length ∧
      arg1.bytes.take (bcTruelen arg1.bytes arg1.bytes.length) =
        arg2.bytes.take (bcTruelen arg1.bytes arg1.bytes.length) := by
  simp only [bpcharEq] at heq
  split at heq
  · cases heq
  · rename_i hlength
    have hlen := not_not.1 hlength
    have hle2 := hlen ▸ bcTruelen_le arg2.bytes arg2.bytes.length
    have htake := (strncmp_eq_iff (bcTruelen_le _ _) hle2 arg1.no_nul).1 (beq_iff_eq.1 heq)
    exact ⟨hlen, htake⟩

theorem hashBpchar_eq_iff (heq : bpcharEq arg1 arg2 = true) :
    hashScalar (.bpchar arg1) = hashScalar (.bpchar arg2) ↔
      (arg1.bytes = [] ↔ arg2.bytes = []) := by
  rcases bpcharEq_text heq with ⟨hlen, htext⟩
  rw [hashScalar, hashScalar, stringBuffer_eq, stringBuffer_eq, ← hlen, ← htext]
  -- a string that is not empty feeds at least one character
  have hsome : ∀ bytes : List Byte, bytes ≠ [] → (if bcTruelen bytes bytes.length = 0 then [blank]
        else bytes.take (bcTruelen bytes bytes.length)) ≠ [] := by
    intro bytes hne
    split
    · simp
    · rename_i hpos
      simp [hne, hpos]
  by_cases hnil1 : arg1.bytes = []
  · by_cases hnil2 : arg2.bytes = []
    · simp [hnil1, hnil2]
    · have hfed := hsome _ hnil2
      rw [← hlen, ← htext] at hfed
      rw [if_pos hnil1, if_neg hnil2]
      exact ⟨fun h => absurd h.symm hfed, fun h => absurd (h.1 hnil1) hnil2⟩
  · by_cases hnil2 : arg2.bytes = []
    · rw [if_neg hnil1, if_pos hnil2]
      exact ⟨fun h => absurd h (hsome _ hnil1), fun h => absurd (h.2 hnil2) hnil1⟩
    · simp [hnil1, hnil2]

end

/-- A comparison is undecided when none of its tests decides it. -/
theorem ite_lt_eq_iff {test : Prop} [Decidable test] {rest : Ordering} :
    (if test then .lt else rest) = .eq ↔ ¬ test ∧ rest = .eq := by
  split <;> simp [*]

theorem ite_gt_eq_iff {test : Prop} [Decidable test] {rest : Ordering} :
    (if test then .gt else rest) = .eq ↔ ¬ test ∧ rest = .eq := by
  split <;> simp [*]

theorem not_lt_not_gt {width : Nat} {left right : BitVec width} (hlt : ¬ left < right)
    (hgt : ¬ left > right) : left = right :=
  BitVec.le_antisymm (BitVec.not_lt.1 hgt) (BitVec.not_lt.1 hlt)

/-- The halves of a word that was put together from two. -/
theorem block_halves {hi1 lo1 hi2 lo2 : BitVec 16}
    (heq : (hi1.setWidth 32 <<< 16) ||| lo1.setWidth 32 =
      (hi2.setWidth 32 <<< 16) ||| lo2.setWidth 32) : hi1 = hi2 ∧ lo1 = lo2 := by
  constructor
  · apply BitVec.eq_of_getLsbD_eq
    intro i hi
    have hbit := congrArg (BitVec.getLsbD · (i + 16)) heq
    simpa [show i + 16 < 32 by omega, show ¬ i + 16 < 16 by omega, show i < 32 by omega,
      BitVec.getLsbD_of_ge _ (i + 16) (show 16 ≤ i + 16 by omega)] using hbit
  · apply BitVec.eq_of_getLsbD_eq
    intro i hi
    have hbit := congrArg (BitVec.getLsbD · i) heq
    simpa [hi, show i < 32 by omega] using hbit

theorem itemPointerCompare_eq {arg1 arg2 : Tid}
    (heq : itemPointerCompare arg1 arg2 = .eq) : arg1 = arg2 := by
  rw [itemPointerCompare, ite_lt_eq_iff, ite_gt_eq_iff, ite_lt_eq_iff, ite_gt_eq_iff] at heq
  rcases heq with ⟨hlt, hgt, hposLt, hposGt, -⟩
  rcases block_halves (not_lt_not_gt hlt hgt) with ⟨hhi, hlo⟩
  have hposid := not_lt_not_gt hposLt hposGt
  cases arg1
  simp_all

theorem timetzCmpInternal_eq {time1 time2 : TimeTz}
    (heq : timetzCmpInternal time1 time2 = .eq) : time1 = time2 := by
  rw [timetzCmpInternal, ite_gt_eq_iff, ite_lt_eq_iff, ite_gt_eq_iff, ite_lt_eq_iff] at heq
  rcases heq with ⟨hgt, hlt, hzoneGt, hzoneLt, -⟩
  have hzone := eq_of_not_lt_not_gt hzoneLt hzoneGt
  have hgmt := eq_of_not_lt_not_gt hlt hgt
  rw [TimeTz.gmt, TimeTz.gmt, hzone, BitVec.add_left_inj] at hgmt
  cases time1
  simp_all

theorem invalidLastCmp_eq {invalid value1 value2 : BitVec 32}
    (heq : invalidLastCmp invalid value1 value2 = .eq) : value1 = value2 := by
  unfold invalidLastCmp at heq
  split at heq
  · rename_i hinvalid1
    split at heq
    · rename_i hinvalid2
      rw [hinvalid1, hinvalid2]
    · cases heq
  · rw [ite_lt_eq_iff, ite_gt_eq_iff] at heq
    rcases heq with ⟨-, -, hlast⟩
    split at hlast
    · rename_i hsame
      exact hsame
    · cases hlast

theorem hashTinterval_eq {a b : TimeInterval} (heq : tintervalCmpInternal a b = .eq) :
    hashScalar (.tinterval a) = hashScalar (.tinterval b) := by
  unfold tintervalCmpInternal at heq
  split at heq
  · rename_i hinvalidA
    split at heq
    · rename_i hinvalidB
      rw [hashScalar, hashScalar, if_pos hinvalidA, if_pos hinvalidB]
    · cases heq
  · rename_i hvalidA
    rw [ite_lt_eq_iff, ite_gt_eq_iff] at heq
    rcases heq with ⟨hvalidB, -, hlast⟩
    split at hlast
    · rename_i hlen
      rw [hashScalar, hashScalar, if_neg hvalidA, if_neg hvalidB, hlen]
    · cases hlast

/-- The last comparison of two addresses goes over all their bits. -/
theorem networkCmpInternal_eq {a1 a2 : Inet} (heq : networkCmpInternal a1 a2 = .eq) :
    inetGetkey a1 = inetGetkey a2 := by
  unfold networkCmpInternal at heq
  split at heq
  · rename_i hfamily
    rw [Ordering.then_eq_eq, Ordering.then_eq_eq, compare_toNat_eq_iff] at heq
    rcases heq with ⟨⟨-, hbits⟩, hall⟩
    have hlength1 : a1.ipaddr.length = a1.family.maxbits / 8 := by
      rw [a1.length_ipaddr]
      cases a1.family <;> rfl
    have hlength2 : a2.ipaddr.length = a1.family.maxbits / 8 := by
      rw [a2.length_ipaddr, hfamily]
      cases a2.family <;> rfl
    have hwhole : a1.family.maxbits % 8 = 0 := by cases a1.family <;> rfl
    simp only [bitncmp, hwhole, or_true, if_true] at hall
    rw [take_of_length_le hlength1.le, take_of_length_le hlength2.le,
      memcmp_eq_iff (hlength1.trans hlength2.symm)] at hall
    rw [inetGetkey, inetGetkey, hfamily, hbits, hall]
  · cases h1 : a1.family <;> cases h2 : a2.family <;> simp_all [AddressFamily.code]

/-- The bytes of a number that was put together from three. -/
theorem three_bytes {a b c a' b' c' : Byte}
    (heq : (a.setWidth 64 <<< 16) ||| (b.setWidth 64 <<< 8) ||| c.setWidth 64 =
      (a'.setWidth 64 <<< 16) ||| (b'.setWidth 64 <<< 8) ||| c'.setWidth 64) :
    a = a' ∧ b = b' ∧ c = c' := by
  refine ⟨?_, ?_, ?_⟩
  all_goals
    apply BitVec.eq_of_getLsbD_eq
    intro i hi
  · have hbit := congrArg (BitVec.getLsbD · (i + 16)) heq
    simpa [show i + 16 < 64 by omega, show ¬ i + 16 < 16 by omega,
      BitVec.getLsbD_of_ge _ (i + 16 - 8) (show 8 ≤ i + 16 - 8 by omega),
      BitVec.getLsbD_of_ge _ (i + 16) (show 8 ≤ i + 16 by omega)] using hbit
  · have hbit := congrArg (BitVec.getLsbD · (i + 8)) heq
    simpa [show i + 8 < 64 by omega, show i + 8 < 16 by omega, show ¬ i + 8 < 8 by omega,
      show i < 64 by omega, BitVec.getLsbD_of_ge _ (i + 8) (show 8 ≤ i + 8 by omega)] using hbit
  · have hbit := congrArg (BitVec.getLsbD · i) heq
    simpa [hi, show i < 16 by omega, show i < 64 by omega] using hbit

theorem macaddrCmpInternal_eq {a1 a2 : Macaddr}
    (heq : macaddrCmpInternal a1 a2 = .eq) : a1 = a2 := by
  rw [macaddrCmpInternal, ite_lt_eq_iff, ite_gt_eq_iff, ite_lt_eq_iff, ite_gt_eq_iff] at heq
  rcases heq with ⟨hlt, hgt, hloLt, hloGt, -⟩
  rcases three_bytes (not_lt_not_gt hlt hgt) with ⟨ha, hb, hc⟩
  rcases three_bytes (not_lt_not_gt hloLt hloGt) with ⟨hd, he, hf⟩
  cases a1
  simp_all

theorem bitEq_bits {arg1 arg2 : VarBit} (heq : bitEq arg1 arg2 = true) : arg1.bits = arg2.bits := by
  unfold bitEq at heq
  split at heq
  · cases heq
  · rename_i hlen
    have hlength : arg1.bits.length = arg2.bits.length := by
      rw [arg1.length_bits, arg2.length_bits, not_not.1 hlen]
    simp only [beq_iff_eq, bitCmp, Ordering.then_eq_eq, ← hlength, Nat.min_self] at heq
    have hmem := heq.1
    rwa [take_length, hlength, take_length, memcmp_eq_iff hlength] at hmem

theorem oidvectorEq_eq {a b : List Oid} (heq : oidvectorEq a b = true) : a = b := by
  unfold oidvectorEq at heq
  split at heq
  · cases heq
  · rename_i hlength
    have hcmp := beq_iff_eq.1 heq
    clear heq
    induction a generalizing b with
    | nil => exact (length_eq_zero_iff.1 (not_not.1 hlength).symm).symm
    | cons oid oids ih =>
      cases b with
      | nil => simp at hlength
      | cons other others =>
        rw [oidsCmp] at hcmp
        split at hcmp
        · split at hcmp <;> cases hcmp
        · rename_i hsame
          rw [not_not.1 hsame, ih (by simpa using hlength) hcmp]

theorem uuidInternalCmp_data {arg1 arg2 : Uuid} (heq : uuidInternalCmp arg1 arg2 = .eq) :
    arg1.data = arg2.data :=
  (memcmp_eq_iff (arg1.length_data.trans arg2.length_data.symm)).1 heq

theorem hashInterval (value : Interval) :
    hashScalar (.interval value) = intBytes value.time ++ intBytes value.day := by
  exact take_left' (by rw [length_append, length_intBytes, length_intBytes])

theorem hashInterval_eq_iff (value1 value2 : Interval) :
    hashScalar (.interval value1) = hashScalar (.interval value2) ↔
      value1.time = value2.time ∧ value1.day = value2.day := by
  have hlength : (intBytes value1.time).length = (intBytes value2.time).length := by
    rw [length_intBytes, length_intBytes]
  rw [hashInterval, hashInterval]
  constructor
  · intro happend
    rcases append_inj happend hlength with ⟨htime, hday⟩
    exact ⟨(intBytes_inj (by decide)).1 htime, (intBytes_inj (by decide)).1 hday⟩
  · rintro ⟨htime, hday⟩
    rw [htime, hday]

section

variable {elems1 elems2 : List (Option Scalar)}

theorem elemsEqual_isSome (hlength : elems1.length = elems2.length)
    (heq : elemsEqual elems1 elems2 = true) :
    elems1.map Option.isSome = elems2.map Option.isSome := by
  fun_induction elemsEqual elems1 elems2 with
  | case1 elems1 elems2 ih => simp [ih (Nat.succ.inj hlength) heq]
  | case2 elt1 elems1 elt2 elems2 helt ih => simp [ih (Nat.succ.inj hlength) heq]
  | case3 => cases heq
  | case4 => cases heq
  | case5 => cases heq
  | case6 elems1 elems2 hnone hsome hnoneSome hsomeNone =>
    cases elems1 with
    | nil => simp [length_eq_zero_iff.1 hlength.symm]
    | cons elem1 rest1 =>
      cases elems2 with
      | nil => cases hlength
      | cons elem2 rest2 =>
        cases elem1 with
        | none =>
          cases elem2 with
          | none => exact (hnone _ _ rfl rfl).elim
          | some elt2 => exact (hnoneSome _ _ _ rfl rfl).elim
        | some elt1 =>
          cases elem2 with
          | none => exact (hsomeNone _ _ _ rfl rfl).elim
          | some elt2 => exact (hsome _ _ _ _ rfl rfl).elim

/-- The null bitmap says nothing about the elements but which of them are NULL. -/
theorem nullBitmap_eq (hsome : elems1.map Option.isSome = elems2.map Option.isSome) :
    nullBitmap elems1 = nullBitmap elems2 := by
  have hlength : elems1.length = elems2.length := by
    simpa using congrArg List.length hsome
  have hbit : ∀ k : Nat, (elems1[k]?).join.isSome = (elems2[k]?).join.isSome := by
    intro k
    have hk := congrArg (fun flags => (flags[k]?).getD false) hsome
    simp only [getElem?_map] at hk
    cases h1 : elems1[k]? <;> cases h2 : elems2[k]? <;> simp_all
  have hbyte : nullBitmapByte elems1 = nullBitmapByte elems2 := by
    funext i
    simp [nullBitmapByte, hbit]
  rw [nullBitmap, nullBitmap, hlength, hbyte]

theorem length_bitmap_le (array : ArrayType) : array.bitmap.length ≤ maxArraySize := by
  have hle := array.elems_le
  rw [ArrayType.bitmap]
  split
  · rw [nullBitmap, length_map, length_range]
    omega
  · exact Nat.zero_le _

theorem dataoffset_eq_zero_iff (array : ArrayType) :
    array.dataoffset = 0 ↔ array.hasNullBitmap = false := by
  have hlow := le_alignUp (show 0 < 8 by decide) (16 + 8 * array.dims.length + array.bitmap.length)
  have hhigh := alignUp_lt (show 0 < 8 by decide) (16 + 8 * array.dims.length + array.bitmap.length)
  have hdims := array.length_dims
  have hbitmap := length_bitmap_le array
  unfold maxdim at hdims
  unfold maxArraySize at hbitmap
  rw [ArrayType.dataoffset]
  cases hflag : array.hasNullBitmap with
  | false => simp
  | true =>
    have hoverhead : array.overhead % 2 ^ 32 ≠ 0 := by
      rw [ArrayType.overhead]
      omega
    have hne : BitVec.ofNat 32 array.overhead ≠ 0 := by
      intro hzero
      exact hoverhead (by simpa using congrArg BitVec.toNat hzero)
    simpa using hne

theorem hashArray_eq_iff {array1 array2 : ArrayType} (heq : arrayEq array1 array2 = true) :
    array1.contents = array2.contents ↔
      array1.hasNullBitmap = array2.hasNullBitmap ∧ array1.data = array2.data := by
  unfold arrayEq at heq
  split at heq
  · cases heq
  rename_i htype
  split at heq
  · cases heq
  rename_i hbounds
  rw [not_or, not_not, not_not] at hbounds
  rcases hbounds with ⟨hdims, hlbounds⟩
  have hlength : array1.elems.length = array2.elems.length := by
    rw [array1.length_elems, array2.length_elems, hdims]
  have hheader : array1.hasNullBitmap = array2.hasNullBitmap → array1.header = array2.header := by
    intro hflag
    have hbitmap : array1.bitmap = array2.bitmap := by
      rw [ArrayType.bitmap, ArrayType.bitmap, hflag, nullBitmap_eq (elemsEqual_isSome hlength heq)]
    simp [ArrayType.header, ArrayType.dataoffset, ArrayType.overhead, hbitmap, hdims, hlbounds,
      hflag, not_not.1 htype]
  constructor
  · intro hcontents
    have hoffset : array1.dataoffset = array2.dataoffset := by
      simp only [ArrayType.contents, ArrayType.header, hdims, append_assoc,
        append_cancel_left_eq] at hcontents
      have hinj := append_inj_left hcontents (by rw [length_intBytes, length_intBytes])
      exact (intBytes_inj (by decide)).1 hinj
    have hflag : array1.hasNullBitmap = array2.hasNullBitmap := by
      have h1 := dataoffset_eq_zero_iff array1
      have h2 := dataoffset_eq_zero_iff array2
      cases hflag1 : array1.hasNullBitmap <;> cases hflag2 : array2.hasNullBitmap <;> simp_all
    rw [ArrayType.contents, ArrayType.contents, hheader hflag, append_cancel_left_eq] at hcontents
    exact ⟨hflag, hcontents⟩
  · rintro ⟨hflag, hdata⟩
    rw [ArrayType.contents, ArrayType.contents, hheader hflag, hdata]

end

/-- The bytes that the equality operator does not see but the hash does. -/
def Scalar.storedAlike : Scalar → Scalar → Prop
  | .interval value1, .interval value2 => value1.time = value2.time ∧ value1.day = value2.day
  | .bpchar value1, .bpchar value2 => (value1.bytes = [] ↔ value2.bytes = [])
  | _, _ => True

def Datum.storedAlike : Datum → Datum → Prop
  | .scalar value1, .scalar value2 => value1.storedAlike value2
  | .anyarray value1, .anyarray value2 =>
    value1.hasNullBitmap = value2.hasNullBitmap ∧ value1.data = value2.data
  | _, _ => True

def columnStoredAlike : Option Datum → Option Datum → Prop
  | some datum1, some datum2 => datum1.storedAlike datum2
  | _, _ => True

theorem hashScalar_eq_iff {value1 value2 : Scalar} (heq : value1.equal value2 = true) :
    hashScalar value1 = hashScalar value2 ↔ value1.storedAlike value2 := by
  revert heq
  fun_cases Scalar.equal value1 value2 <;> intro heq
  case case1 | case2 | case4 | case5 =>
    exact iff_of_true (intBytes_signExtend_eq (by decide) (by decide) heq) trivial
  case case3 | case6 =>
    rw [hashInt8]
    exact iff_of_true (intBytes_signExtend_eq (by decide) (by decide) heq) trivial
  case case7 | case8 =>
    rw [hashInt8]
    exact iff_of_true (intBytes_signExtend_eq (by decide) (by decide) heq) trivial
  case case9 =>
    rw [hashInt8, hashInt8]
    exact iff_of_true (intBytes_signExtend_eq (by decide) (by decide) heq) trivial
  case case10 => exact iff_of_true (hashNumeric_eq (beq_iff_eq.1 heq)) trivial
  case case12 => exact hashBpchar_eq_iff heq
  case case13 | case14 =>
    exact iff_of_true (congrArg stringBuffer (textEq_bytes heq)) trivial
  case case15 => exact iff_of_true (byteaEq_eq heq) trivial
  case case16 =>
    apply iff_of_true _ trivial
    rw [hashScalar, hashScalar, nameEq_nameStr heq]
  case case17 | case18 =>
    rw [Bool.and_eq_true, beq_iff_eq, beq_iff_eq] at heq
    exact iff_of_true (congrArg (fun value : Oid => intBytes (value.setWidth 64)) heq.2) trivial
  case case19 =>
    rw [itemPointerCompare_eq (beq_iff_eq.1 heq)]
    exact iff_of_true rfl trivial
  case case24 =>
    rw [timetzCmpInternal_eq (beq_iff_eq.1 heq)]
    exact iff_of_true rfl trivial
  case case25 => exact hashInterval_eq_iff _ _
  case case26 | case27 =>
    rw [invalidLastCmp_eq (beq_iff_eq.1 heq)]
    exact iff_of_true rfl trivial
  case case28 => exact iff_of_true (hashTinterval_eq (beq_iff_eq.1 heq)) trivial
  case case29 | case30 =>
    exact iff_of_true (networkCmpInternal_eq (beq_iff_eq.1 heq)) trivial
  case case31 =>
    rw [macaddrCmpInternal_eq (beq_iff_eq.1 heq)]
    exact iff_of_true rfl trivial
  case case32 | case33 => exact iff_of_true (bitEq_bits heq) trivial
  case case35 =>
    rw [oidvectorEq_eq heq]
    exact iff_of_true rfl trivial
  case case37 => exact iff_of_true (uuidInternalCmp_data (beq_iff_eq.1 heq)) trivial
  case case38 => cases heq
  -- the types whose operator compares the stored word
  all_goals
    rw [beq_iff_eq.1 heq]
    exact iff_of_true rfl trivial

theorem hashDatum_eq_iff {datum1 datum2 : Datum} (heq : datum1.equal datum2 = true) :
    hashDatum datum1 = hashDatum datum2 ↔ datum1.storedAlike datum2 := by
  revert heq
  fun_cases Datum.equal datum1 datum2 with
  | case1 value1 value2 => exact fun heq => hashScalar_eq_iff heq
  | case2 array1 array2 => exact fun heq => hashArray_eq_iff heq
  | case3 => exact fun heq => nomatch heq

theorem hashColumn_eq_iff {column1 column2 : Option Datum}
    (heq : columnEqual column1 column2 = true) :
    hashColumn column1 = hashColumn column2 ↔ columnStoredAlike column1 column2 := by
  revert heq
  fun_cases columnEqual column1 column2 with
  | case1 => exact fun _ => iff_of_true rfl trivial
  | case2 datum1 datum2 => exact fun heq => hashDatum_eq_iff heq
  | case3 => exact fun heq => nomatch heq

/-- A key reaches the hash only through the buffers of its columns. -/
theorem foldl_cdbhash (key : List (Option Datum)) (h : Hasher) :
    key.foldl cdbhash h = (key.map hashColumn).foldl addToCdbHash h := by
  rw [foldl_map]
  rfl

theorem foldl_cdbhash_rrindex (key : List (Option Datum)) (h : Hasher) (rrindex : BitVec 32) :
    key.foldl cdbhash { h with rrindex := rrindex } =
      { key.foldl cdbhash h with rrindex := rrindex } := by
  induction key generalizing h with
  | nil => rfl
  | cons column key ih => exact ih (cdbhash h column)

/-- The round robin index of a session has no part in the segment of a key. -/
theorem segmentOf_rrindex (numsegs rrindex rrindex' : BitVec 32) (key : List (Option Datum)) :
    segmentOf numsegs rrindex key = segmentOf numsegs rrindex' key := by
  have hfold := foldl_cdbhash_rrindex key (cdbhashinit (makeCdbHash numsegs rrindex')) rrindex
  calc
    segmentOf numsegs rrindex key =
        cdbhashreduce { key.foldl cdbhash (cdbhashinit (makeCdbHash numsegs rrindex')) with
          rrindex := rrindex } := congrArg cdbhashreduce hfold
    _ = segmentOf numsegs rrindex' key := rfl

theorem map_hashColumn_eq_iff {key1 key2 : List (Option Datum)}
    (hequal : List.Forall₂ (fun column1 column2 => columnEqual column1 column2 = true) key1 key2) :
    key1.map hashColumn = key2.map hashColumn ↔ List.Forall₂ columnStoredAlike key1 key2 := by
  induction hequal with
  | nil => simp
  | cons hcolumn hrest ih =>
    rw [map_cons, map_cons, List.cons.injEq, hashColumn_eq_iff hcolumn, ih, List.forall₂_cons]

namespace ColocationWitness

def aDay : Interval := ⟨0, 1, 0⟩

def twentyFourHours : Interval := ⟨86400000000, 0, 0⟩

def emptyText : Text := ⟨[], by decide⟩

def blankText : Text := ⟨[blank], by decide⟩

/-- The array `{1}` of a numeric with the given display scale. -/
def oneOfScale (dscale : BitVec 14) : ArrayType where
  elemtype := 1700
  dims := [1]
  lbounds := [1]
  hasNullBitmap := false
  elems := [some (.numeric (makeResult .pos dscale 0 [1]))]
  length_dims := by decide
  length_lbounds := rfl
  length_elems := rfl
  elems_le := by simp [maxArraySize]
  typed := by simp [Scalar.typeOid]
  bitmap_of_null := by simp

def leftKey : List (Option Datum) :=
  [some (.scalar (.int2 7)), some (.scalar (.numeric (makeResult .pos 1 0 [1]))), none,
    some (.scalar (.bpchar ⟨[0x61], by decide⟩))]

def rightKey : List (Option Datum) :=
  [some (.scalar (.int8 7)), some (.scalar (.numeric (makeResult .pos 2 0 [1]))), none,
    some (.scalar (.bpchar ⟨[0x61, blank, blank], by decide⟩))]

theorem keys_equal :
    List.Forall₂ (fun column1 column2 => columnEqual column1 column2 = true) leftKey rightKey := by
  refine .cons ?_ (.cons ?_ (.cons ?_ (.cons ?_ .nil))) <;> decide +kernel

end ColocationWitness

end Greenplum.CdbHash
