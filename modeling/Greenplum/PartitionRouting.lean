/-
Rows go to the right partitions: at each level of the tree to the rule that holds
the row's key, or else to the default partition of that level, whatever earlier
calls have left in the shared access methods.
-/
import Greenplum.PartitionSelect
import Greenplum.BinarySearch
import Greenplum.Fallible
import Mathlib.Data.List.Pairwise

namespace Greenplum.PartitionSelect

open List Option Nat

variable {D : Type} (call : FunctionCall D) (atttypid : AttrNumber → Oid)

section

/-- The comparison functions of a type are those of a total preorder. -/
structure Ordered (typid : Oid) : Prop where
  le_total : ∀ a b, call ⟨.le, typid, typid⟩ a b = true ∨ call ⟨.le, typid, typid⟩ b a = true
  le_trans : ∀ {a b c}, call ⟨.le, typid, typid⟩ a b = true →
    call ⟨.le, typid, typid⟩ b c = true →
    call ⟨.le, typid, typid⟩ a c = true
  lt_iff : ∀ a b, call ⟨.lt, typid, typid⟩ a b = true ↔ ¬ call ⟨.le, typid, typid⟩ b a = true

/-- The comparison for a bound that belongs to the range or not. -/
def boundOp (inclusive : Bool) : CompareOp := if inclusive then .le else .lt

variable (typid : Oid) (values : RuleValues D)

/-- A value is not below the range of a rule. -/
def startOk (datum : D) : Bool :=
  values.parrangestart.all fun bound =>
    call ⟨boundOp values.parrangestartincl, typid, typid⟩ bound datum

/-- A value is not above the range of a rule. -/
def endOk (datum : D) : Bool :=
  values.parrangeend.all fun bound =>
    call ⟨boundOp values.parrangeendincl, typid, typid⟩ datum bound

/-- The bounds of a rule do not exclude every value. -/
def Proper : Prop :=
  ∀ start stop, values.parrangestart = some start → values.parrangeend = some stop →
    call ⟨.lt, typid, typid⟩ start stop = true ∨ call ⟨.le, typid, typid⟩ start stop = true ∧
        (values.parrangestartincl = true ∨ values.parrangeendincl = true)

/-- The first range ends before the second one starts. -/
def Precedes (first second : RuleValues D) : Prop :=
  ∃ stop start, first.parrangeend = some stop ∧ second.parrangestart = some start ∧
    (call ⟨.lt, typid, typid⟩ stop start = true ∨ call ⟨.le, typid, typid⟩ stop start = true ∧
        ¬ (first.parrangeendincl = true ∧ second.parrangestartincl = true))

/-- A column has the value of a constant; null is a value here. -/
@[simp]
def SameValue (attno : AttrNumber) : Option D → Option D → Prop
  | none, none => True
  | some datum, some value =>
    call ⟨.eq, atttypid attno, atttypid attno⟩ datum value = true
  | _, _ => False

/-- The rule holds the row's key. -/
def Holds (part : Partition) (row : Row D) (rule : PartitionRule D) : Prop :=
  match part.parkind with
  | .list => ∃ colvals ∈ rule.values.parlistvalues, ∀ pair ∈ part.paratts.zip colvals,
      SameValue call atttypid pair.1 (row pair.1) pair.2
  | .range => ∃ attno ∈ part.paratts, ∃ datum, row attno = some datum ∧
      startOk call (atttypid attno) rule.values datum = true ∧
      endOk call (atttypid attno) rule.values datum = true

/-- The rule for a row at one level: the one that holds its key, or the default. -/
def Chosen (node : PartitionNode D) (row : Row D) (rule : PartitionRule D) : Prop :=
  rule ∈ node.rules ∧ Holds call atttypid node.part row rule ∨
    (∀ other ∈ node.rules, ¬ Holds call atttypid node.part row other) ∧ node.defaultPart = some rule

/-- The leaf that a row reaches. -/
inductive Reaches (row : Row D) : PartitionNode D → RelId → Prop
  | leaf {node : PartitionNode D} {rule : PartitionRule D}
      (hchosen : Chosen call atttypid node row rule)
      (hleaf : rule.children = none) : Reaches row node rule.parchildrelid
  | down {node child : PartitionNode D} {rule : PartitionRule D} {relid : RelId}
      (hchosen : Chosen call atttypid node row rule)
      (hchild : rule.children = some child) (hreaches : Reaches row child relid) :
      Reaches row node relid

/-- On its way down the row comes to a level with neither a rule nor a default. -/
inductive Lost (row : Row D) : PartitionNode D → Prop
  | here {node : PartitionNode D}
      (hnone : ∀ rule, ¬ Chosen call atttypid node row rule) : Lost row node
  | down {node child : PartitionNode D} {rule : PartitionRule D}
      (hchosen : Chosen call atttypid node row rule)
      (hchild : rule.children = some child) (hlost : Lost row child) : Lost row node

/-- Disjoint lists of values, one constant for each column. -/
structure ListRules (part : Partition) (rules : List (PartitionRule D)) : Prop where
  lengths : ∀ rule ∈ rules, ∀ colvals ∈ rule.values.parlistvalues, colvals.length = part.parnatts
  disjoint : rules.Pairwise fun first second => ∀ row,
    ¬ (Holds call atttypid part row first ∧ Holds call atttypid part row second)

/-- Ranges of one column, one behind the other, with or without gaps. -/
structure RangeRules (part : Partition) (attno : AttrNumber)
    (rules : List (PartitionRule D)) : Prop where
  paratts : part.paratts = [attno]
  ordered : Ordered call (atttypid attno)
  proper : ∀ rule ∈ rules, Proper call (atttypid attno) rule.values
  sorted : rules.Pairwise fun first second =>
    Precedes call (atttypid attno) first.values second.values

/-- A tree whose nodes have the same key on the same level. -/
inductive Uniform (levels : Nat → Partition) : Nat → PartitionNode D → Prop
  | mk {level : Nat} {node : PartitionNode D} (hpart : node.part = levels level)
      (hlevel : (levels level).parlevel = level)
      (hlist : (levels level).parkind = .list → ListRules call atttypid (levels level) node.rules)
      (hrange : (levels level).parkind = .range →
        ∃ attno, RangeRules call atttypid (levels level) attno node.rules)
      (hchildren : ∀ rule, rule ∈ node.rules ∨ node.defaultPart = some rule →
        ∀ child, rule.children = some child → Uniform levels (level + 1) child) :
      Uniform levels level node

end

section

variable {call} {typid : Oid} {a b c datum : D} {values : RuleValues D}
  {rules : List (PartitionRule D)}

section

variable (h : Ordered call typid)

include h

theorem Ordered.le_of_lt (hlt : call ⟨.lt, typid, typid⟩ a b = true) :
    call ⟨.le, typid, typid⟩ a b = true :=
  (h.le_total a b).resolve_right ((h.lt_iff a b).mp hlt)

theorem Ordered.lt_of_lt_of_le (hlt : call ⟨.lt, typid, typid⟩ a b = true)
    (hle : call ⟨.le, typid, typid⟩ b c = true) :
    call ⟨.lt, typid, typid⟩ a c = true := by
  rw [h.lt_iff] at hlt ⊢
  exact fun hback => hlt (h.le_trans hle hback)

theorem Ordered.lt_of_le_of_lt (hle : call ⟨.le, typid, typid⟩ a b = true)
    (hlt : call ⟨.lt, typid, typid⟩ b c = true) :
    call ⟨.lt, typid, typid⟩ a c = true := by
  rw [h.lt_iff] at hlt ⊢
  exact fun hback => hlt (h.le_trans hback hle)

/-- The comparison for a bound lies between the strict and the weak one. -/
theorem Ordered.le_of_bound {inclusive : Bool}
    (hbound : call ⟨boundOp inclusive, typid, typid⟩ a b = true) :
    call ⟨.le, typid, typid⟩ a b = true := by
  cases inclusive with
  | true => exact hbound
  | false => exact h.le_of_lt hbound

theorem Ordered.bound_of_lt (inclusive : Bool) (hlt : call ⟨.lt, typid, typid⟩ a b = true) :
    call ⟨boundOp inclusive, typid, typid⟩ a b = true := by
  cases inclusive with
  | true => exact h.le_of_lt hlt
  | false => exact hlt

/-- What is not below the second of two ranges is above the first. -/
theorem Ordered.precedes {first second : RuleValues D} (hproper : Proper call typid first)
    (hprecedes : Precedes call typid first second)
    (hstart : startOk call typid second datum = true) :
    startOk call typid first datum = true ∧ endOk call typid first datum = false := by
  obtain ⟨stop, start, hstop, hsecond, hbetween⟩ := hprecedes
  rw [startOk, hsecond, all_some] at hstart
  have hle := h.le_of_bound hstart
  have hbeyond : call ⟨.le, typid, typid⟩ stop datum = true := by
    obtain hlt | ⟨hweak, _⟩ := hbetween
    · exact h.le_trans (h.le_of_lt hlt) hle
    · exact h.le_trans hweak hle
  have hstrict : first.parrangeendincl = true → call ⟨.lt, typid, typid⟩ stop datum = true := by
    intro hincl
    obtain hlt | ⟨hweak, hnot⟩ := hbetween
    · exact h.lt_of_lt_of_le hlt hle
    · have hexcl : second.parrangestartincl = false :=
        Bool.eq_false_iff.mpr fun hboth => hnot ⟨hincl, hboth⟩
      rw [hexcl] at hstart
      exact h.lt_of_le_of_lt hweak hstart
  constructor
  · cases hfirst : first.parrangestart with
    | none => rw [startOk, hfirst, all_none]
    | some bound =>
      rw [startOk, hfirst, all_some]
      obtain hlt | ⟨hweak, hincl⟩ := hproper bound stop hfirst hstop
      · exact h.bound_of_lt _ (h.lt_of_lt_of_le hlt hbeyond)
      · obtain hstartIncl | hendIncl := hincl
        · rw [hstartIncl]
          exact h.le_trans hweak hbeyond
        · exact h.bound_of_lt _ (h.lt_of_le_of_lt hweak (hstrict hendIncl))
  · rw [endOk, hstop, all_some, Bool.eq_false_iff]
    cases hincl : first.parrangeendincl with
    | true => exact (h.lt_iff stop datum).mp (hstrict hincl)
    | false => exact fun hlt => (h.lt_iff datum stop).mp hlt hbeyond

end

variable (call) in
/-- Where a rule lies, seen from a value. -/
def probe (typid : Oid) (datum : D) (values : RuleValues D) : Ordering :=
  if startOk call typid values datum then
    if endOk call typid values datum then .eq else .lt
  else .gt

variable (call) in
/-- The rules of a level by their places. -/
def probeAt (typid : Oid) (datum : D) (rules : List (PartitionRule D)) (place : Nat) : Ordering :=
  match rules[place]? with
  | some rule => probe call typid datum rule.values
  | none => .gt

theorem probe_eq_lt : probe call typid datum values = .lt ↔ startOk call typid values datum = true ∧
        endOk call typid values datum = false := by
  unfold probe
  cases startOk call typid values datum <;>
    cases endOk call typid values datum <;> simp

theorem probe_eq_gt : probe call typid datum values = .gt ↔
      startOk call typid values datum = false := by
  unfold probe
  cases startOk call typid values datum <;>
    cases endOk call typid values datum <;> simp

theorem probe_eq_eq : probe call typid datum values = .eq ↔ startOk call typid values datum = true ∧
        endOk call typid values datum = true := by
  unfold probe
  cases startOk call typid values datum <;>
    cases endOk call typid values datum <;> simp

theorem probeAt_get {place : Nat} {rule : PartitionRule D} (hrule : rules[place]? = some rule) :
    probeAt call typid datum rules place = probe call typid datum rule.values := by
  rw [probeAt, hrule]

/-- The rules of a level are ordered for the search. -/
theorem probeAt_ordered (h : Ordered call typid)
    (hproper : ∀ rule ∈ rules, Proper call typid rule.values)
    (hsorted : rules.Pairwise fun first second =>
      Precedes call typid first.values second.values) (datum : D) :
    BinarySearch.Ordered (probeAt call typid datum rules) rules.length := by
  have hpair : ∀ {i j} (hij : i < j) (hj : j < rules.length),
      startOk call typid rules[j].values datum = true →
      startOk call typid (rules.get ⟨i, lt_trans hij hj⟩).values datum = true ∧
        endOk call typid (rules.get ⟨i, lt_trans hij hj⟩).values datum = false := by
    intro i j hij hj hstart
    exact h.precedes (hproper _ (get_mem _ _))
      (pairwise_iff_getElem.mp hsorted i j (by omega) hj hij) hstart
  constructor
  · intro i j hij hj hlt
    rw [probeAt_get (getElem?_eq_getElem hj), probe_eq_lt] at hlt
    rw [probeAt_get (getElem?_eq_getElem (lt_trans hij hj)), probe_eq_lt]
    exact hpair hij hj hlt.1
  · intro i j hij hj hgt
    rw [probeAt_get (getElem?_eq_getElem (lt_trans hij hj)), probe_eq_gt] at hgt
    rw [probeAt_get (getElem?_eq_getElem hj), probe_eq_gt, Bool.eq_false_iff]
    intro hstart
    exact Bool.eq_false_iff.mp hgt (hpair hij hj hstart).1

end

section

variable {atttypid} {part : Partition} {keyno : Nat} {state : PartitionRangeState D}

variable (atttypid) in
/-- The type of a key column by its place. -/
def keyType (part : Partition) (keyno : Nat) : Oid :=
  atttypid (part.paratts.getD keyno 0)

variable (atttypid) in
/-- A table holds no other functions than those for the types of the columns. -/
def TableOk (part : Partition) (op : CompareOp) (table : FuncTable) : Prop :=
  ∀ keyno func, table.getD keyno none = some func →
    func = ⟨op, keyType atttypid part keyno, keyType atttypid part keyno⟩

theorem tableOk_replicate (op : CompareOp) (count : Nat) :
    TableOk atttypid part op (List.replicate count none) := by
  intro keyno func hget
  rw [getD_eq_getElem?_getD, getElem?_replicate] at hget
  split_ifs at hget <;> exact absurd hget nofun

/-- A function comes out of the table as it is looked up. -/
theorem fetch_spec {op : CompareOp} {table : FuncTable}
    (htable : TableOk atttypid part op table) {typid : Oid}
    (htype : keyType atttypid part keyno = typid) :
    ∃ next, fetch table keyno ⟨op, typid, typid⟩ = (⟨op, typid, typid⟩, next) ∧
      TableOk atttypid part op next := by
  unfold fetch
  cases hget : table.getD keyno none with
  | some func =>
    have hfunc := htable keyno func hget
    rw [htype] at hfunc
    exact ⟨table, by rw [hfunc], htable⟩
  | none =>
    refine ⟨table.set keyno (some ⟨op, typid, typid⟩), rfl, ?_⟩
    intro other func hother
    rw [getD_eq_getElem?_getD, getElem?_set] at hother
    split_ifs at hother with hsame hinside
    · cases hother
      rw [← hsame, htype]
    · exact absurd hother nofun
    · exact htable other func hother

/-- The columns are compared with the equality of their types. -/
theorem matchColvals_spec (row : Row D) :
    ∀ {pairs : List (AttrNumber × Option D)} {i : Nat} {eqfuncs : FuncTable},
    (∀ k pair, pairs[k]? = some pair → part.paratts.getD (i + k) 0 = pair.1) →
    TableOk atttypid part .eq eqfuncs →
    ∃ matched next, matchColvals call atttypid row none i pairs eqfuncs =
        (matched, next) ∧ TableOk atttypid part .eq next ∧ (matched = true ↔ ∀ pair ∈ pairs,
        SameValue call atttypid pair.1 (row pair.1) pair.2) := by
  intro pairs
  induction pairs with
  | nil =>
    intro i eqfuncs _ htable
    exact ⟨true, eqfuncs, rfl, htable, by simp⟩
  | cons pair rest ih =>
    intro i eqfuncs hplaces htable
    obtain ⟨attno, const⟩ := pair
    have hrest : ∀ k other, rest[k]? = some other → part.paratts.getD (i + 1 + k) 0 = other.1 := by
      intro k other hother
      rw [Nat.add_assoc, Nat.add_comm 1 k]
      exact hplaces (k + 1) other (by rw [getElem?_cons_succ]; exact hother)
    have hfirst : part.paratts.getD i 0 = attno := hplaces 0 (attno, const) rfl
    unfold matchColvals
    simp only [forall_mem_cons]
    cases hrow : row attno with
    | none =>
      cases const with
      | none =>
        obtain ⟨matched, next, hmatch, hnext, hiff⟩ := ih hrest htable
        exact ⟨matched, next, hmatch, hnext, by simp [hiff]⟩
      | some value => exact ⟨false, eqfuncs, rfl, htable, by simp⟩
    | some datum =>
      cases const with
      | none => exact ⟨false, eqfuncs, rfl, htable, by simp⟩
      | some value =>
        have htype : keyType atttypid part i = atttypid attno := by
          rw [keyType, hfirst]
        obtain ⟨table, hfetch, hok⟩ := fetch_spec htable htype
        simp only [getD_none, hfetch]
        by_cases hequal : call ⟨.eq, atttypid attno, atttypid attno⟩ datum value
        · obtain ⟨matched, next, hmatch, hnext, hiff⟩ := ih hrest hok
          rw [if_pos hequal]
          exact ⟨matched, next, hmatch, hnext, by simp [hiff, hequal]⟩
        · rw [if_neg hequal]
          exact ⟨false, table, rfl, hok, by simp [hequal]⟩

/-- The values of a rule are tried one after the other. -/
theorem matchValues_spec (row : Row D) :
    ∀ {values : List (List (Option D))} {eqfuncs : FuncTable}, TableOk atttypid part .eq eqfuncs →
    ∃ matched next, matchValues call atttypid part row none values eqfuncs =
        (matched, next) ∧ TableOk atttypid part .eq next ∧
      (matched = true ↔ ∃ colvals ∈ values, ∀ pair ∈ part.paratts.zip colvals,
        SameValue call atttypid pair.1 (row pair.1) pair.2) := by
  intro values
  induction values with
  | nil =>
    intro eqfuncs htable
    exact ⟨false, eqfuncs, rfl, htable, by simp⟩
  | cons colvals rest ih =>
    intro eqfuncs htable
    have hplaces : ∀ k pair, (part.paratts.zip colvals)[k]? = some pair →
        part.paratts.getD (0 + k) 0 = pair.1 := by
      intro k pair hpair
      rw [Nat.zero_add, getD_eq_getElem?_getD, (getElem?_zip_eq_some.mp hpair).1, getD_some]
    obtain ⟨matched, next, hmatch, hnext, hiff⟩ := matchColvals_spec call row hplaces htable
    rw [matchValues, hmatch]
    cases matched with
    | true =>
      refine ⟨true, next, rfl, hnext, ?_⟩
      simp only [true_iff]
      exact ⟨colvals, mem_cons_self, hiff.mp rfl⟩
    | false =>
      obtain ⟨later, last, hlater, hlast, hlaterIff⟩ := ih hnext
      refine ⟨later, last, hlater, hlast, ?_⟩
      have hnot := mt hiff.mpr Bool.false_ne_true
      simp only [hlaterIff, mem_cons, exists_eq_or_imp, hnot, false_or]

/-- The first rule that holds the row's key is found. -/
theorem findRule_spec (row : Row D) (hkind : part.parkind = .list) :
    ∀ {rules : List (PartitionRule D)} {eqfuncs : FuncTable}, TableOk atttypid part .eq eqfuncs →
    ∃ found next, findRule call atttypid part row none rules eqfuncs =
        (found, next) ∧ TableOk atttypid part .eq next ∧ (∀ rule, found = some rule → rule ∈ rules ∧
        Holds call atttypid part row rule) ∧
      (found = none → ∀ rule ∈ rules, ¬ Holds call atttypid part row rule) := by
  intro rules
  induction rules with
  | nil =>
    intro eqfuncs htable
    exact ⟨none, eqfuncs, rfl, htable, nofun, by simp⟩
  | cons rule rest ih =>
    intro eqfuncs htable
    obtain ⟨matched, next, hmatch, hnext, hiff⟩ := @matchValues_spec D call atttypid
      part row rule.values.parlistvalues eqfuncs htable
    have hholds : matched = true ↔ Holds call atttypid part row rule := by
      rw [Holds, hkind]
      exact hiff
    rw [findRule, hmatch]
    cases matched with
    | true =>
      refine ⟨some rule, next, rfl, hnext, ?_, nofun⟩
      intro other hother
      cases hother
      exact ⟨mem_cons_self, hholds.mp rfl⟩
    | false =>
      obtain ⟨found, last, hfound, hlast, hsome, hnone⟩ := ih hnext
      refine ⟨found, last, hfound, hlast, ?_, ?_⟩
      · intro other hother
        exact ⟨mem_cons_of_mem _ (hsome other hother).1, (hsome other hother).2⟩
      · intro hmiss
        rw [forall_mem_cons]
        exact ⟨mt hholds.mpr Bool.false_ne_true, hnone hmiss⟩

variable (atttypid) in
/-- The tables of a range level. -/
structure RangeTablesOk (part : Partition) (state : PartitionRangeState D) : Prop where
  leDirect : TableOk atttypid part .le state.lefuncsDirect
  ltDirect : TableOk atttypid part .lt state.ltfuncsDirect
  leInverse : TableOk atttypid part .le state.lefuncsInverse
  ltInverse : TableOk atttypid part .lt state.ltfuncsInverse

section

variable (h : RangeTablesOk atttypid part state)

include h

theorem getLessThanComparator_spec {typid : Oid} (htype : keyType atttypid part keyno = typid)
    (inclusive isDirect : Bool) :
    ∃ next, getLessThanComparator keyno state typid typid (!inclusive) isDirect =
        (⟨boundOp inclusive, typid, typid⟩, next) ∧
      RangeTablesOk atttypid part next ∧ next.rules = state.rules := by
  cases isDirect <;> cases inclusive
  · obtain ⟨table, hfetch, htable⟩ := fetch_spec h.ltInverse htype
    exact ⟨{ state with ltfuncsInverse := table }, by simp [getLessThanComparator, hfetch, boundOp],
      { h with ltInverse := htable }, rfl⟩
  · obtain ⟨table, hfetch, htable⟩ := fetch_spec h.leInverse htype
    exact ⟨{ state with lefuncsInverse := table }, by simp [getLessThanComparator, hfetch, boundOp],
      { h with leInverse := htable }, rfl⟩
  · obtain ⟨table, hfetch, htable⟩ := fetch_spec h.ltDirect htype
    exact ⟨{ state with ltfuncsDirect := table }, by simp [getLessThanComparator, hfetch, boundOp],
      { h with ltDirect := htable }, rfl⟩
  · obtain ⟨table, hfetch, htable⟩ := fetch_spec h.leDirect htype
    exact ⟨{ state with lefuncsDirect := table }, by simp [getLessThanComparator, hfetch, boundOp],
      { h with leDirect := htable }, rfl⟩

/-- The result of the test for a place seen from a value. -/
def testResult : Ordering → Int
  | .lt => 1
  | .eq => 0
  | .gt => -1

theorem endTest_spec {typid : Oid}
    (htype : keyType atttypid part keyno = typid) (datum : D) (values : RuleValues D) :
    ∃ next, endTest call datum typid typid state keyno values =
        (if endOk call typid values datum then 0 else 1, next) ∧
      RangeTablesOk atttypid part next ∧ next.rules = state.rules := by
  unfold endTest endOk
  cases hend : values.parrangeend with
  | none => exact ⟨state, rfl, h, rfl⟩
  | some bound =>
    obtain ⟨next, hnext, hok, hrules⟩ := getLessThanComparator_spec h htype
      values.parrangeendincl true
    refine ⟨next, ?_, hok, hrules⟩
    simp only [hnext, all_some]
    split_ifs <;> rfl

/-- The test of a rule sees where the value lies. -/
theorem rangeTest_spec {typid : Oid}
    (htype : keyType atttypid part keyno = typid) (datum : D) (values : RuleValues D) :
    ∃ next, rangeTest call datum typid typid state keyno values =
        (testResult (probe call typid datum values), next) ∧
      RangeTablesOk atttypid part next ∧ next.rules = state.rules := by
  have hresult : ∀ hstart : startOk call typid values datum = true,
      (if endOk call typid values datum then (0 : Int) else 1) =
        testResult (probe call typid datum values) := by
    intro hstart
    rw [probe, if_pos hstart]
    split_ifs <;> rfl
  unfold rangeTest
  cases hstart : values.parrangestart with
  | none =>
    rw [← hresult (by rw [startOk, hstart, all_none])]
    exact endTest_spec call h htype datum values
  | some bound =>
    obtain ⟨next, hnext, hok, hrules⟩ := getLessThanComparator_spec h htype
      values.parrangestartincl false
    simp only [hnext]
    by_cases hbound : call ⟨boundOp values.parrangestartincl, typid, typid⟩ bound datum = true
    · obtain ⟨last, hlast, hlastOk, hlastRules⟩ := endTest_spec call hok htype datum values
      rw [if_pos hbound, ← hresult (by rw [startOk, hstart, all_some, hbound])]
      exact ⟨last, hlast, hlastOk, hlastRules.trans hrules⟩
    · have hbelow : probe call typid datum values = .gt := by
        rw [probe_eq_gt, startOk, hstart, all_some]
        exact Bool.eq_false_iff.mpr hbound
      rw [if_neg hbound, hbelow]
      exact ⟨next, rfl, hok, hrules⟩

end

/-- The binary search finds the rule that holds the value if there is one. -/
theorem searchRange_spec {rules : List (PartitionRule D)} {typid : Oid} {datum : D}
    (htype : keyType atttypid part 0 = typid)
    (hordered : BinarySearch.Ordered (probeAt call typid datum rules) rules.length)
    (fuel : Nat) : ∀ {start stop searchpoint : Nat} {state : PartitionRangeState D},
    RangeTablesOk atttypid part state → state.rules.getD rules = rules →
    stop - start ≤ fuel → start ≤ stop → stop ≤ rules.length →
    BinarySearch.Between (probeAt call typid datum rules) rules.length start stop →
    ∃ found, searchRange call rules datum typid typid fuel start (stop - 1)
        searchpoint state = .ok found ∧ RangeTablesOk atttypid part found.state ∧
      found.state.rules = state.rules ∧
      (∀ mid rule, found.matched = some (mid, rule) → rules[mid]? = some rule ∧
        probe call typid datum rule.values = .eq) ∧
      (found.matched = none → ∀ i < rules.length, probeAt call typid datum rules i ≠ .eq) := by
  induction fuel with
  | zero =>
    intro start stop searchpoint state hok _ hfuel hle _ hbetween
    obtain rfl : start = stop := by omega
    exact ⟨⟨none, searchpoint, state⟩, rfl, hok, rfl, nofun, fun _ _ => hbetween.missed⟩
  | succ fuel ih =>
    intro start stop searchpoint state hok hrules hfuel hle hcount hbetween
    rw [searchRange]
    by_cases hlt : start < stop
    · have hmid : (start : Int) + ((stop : Int) - 1 - start) / 2 =
          (start + (stop - 1 - start) / 2 : Nat) := by omega
      rw [if_pos (by omega), hmid]
      generalize hplace : start + (stop - 1 - start) / 2 = place
      have hinside : place < rules.length := by omega
      have hget := getElem?_eq_getElem hinside
      obtain ⟨next, htest, hnext, hsame⟩ := rangeTest_spec call hok htype datum rules[place].values
      have hkept : next.rules.getD rules = rules := hsame ▸ hrules
      have hprobe := @probeAt_get D call typid datum rules place _ hget
      simp only [Int.toNat_natCast, hrules, nthRule, hget, bind, Except.bind, htest]
      rw [← hprobe]
      cases hcase : probeAt call typid datum rules place with
      | lt =>
        obtain ⟨found, hfound, hspec⟩ := @ih (place + 1) stop place next hnext hkept
          (by omega) (by omega) hcount (hbetween.up hordered hinside hcase)
        rw [hsame] at hspec
        refine ⟨found, ?_, hspec⟩
        exact hfound
      | gt =>
        obtain ⟨found, hfound, hspec⟩ := @ih start place searchpoint next hnext hkept
          (by omega) (by omega) (by omega) (hbetween.down hordered hcase)
        rw [hsame] at hspec
        refine ⟨found, ?_, hspec⟩
        exact hfound
      | eq =>
        refine ⟨⟨some (place, rules[place]), searchpoint, next⟩, rfl, hnext, hsame, ?_, nofun⟩
        intro mid rule hmatched
        cases hmatched
        exact ⟨hget, hprobe.symm.trans hcase⟩
    · obtain rfl : start = stop := by omega
      rw [if_neg (by omega)]
      exact ⟨⟨none, searchpoint, state⟩, rfl, hok, rfl, nofun, fun _ _ => hbetween.missed⟩

end

section

variable {call atttypid} {levels : Nat → Partition}
  {rootRules : List (PartitionRule D)} {methods : Option (PartitionAccessMethods D)}
  {level : Nat} {state : AmState D} {attno : AttrNumber} {row : Row D}
  {first second rule : PartitionRule D}

variable (atttypid) in
/-- What a level keeps is good for all nodes of the level. -/
def StateOk (part : Partition) (level : Nat) (rootRules : List (PartitionRule D)) : AmState D → Prop
  | .list eqfuncs => part.parkind = .list ∧ TableOk atttypid part .eq eqfuncs
  | .range state => part.parkind = .range ∧ RangeTablesOk atttypid part state ∧
      ∀ rules, state.rules = some rules → level = 0 ∧ rules = rootRules

variable (atttypid) in
/-- The access methods hold nothing that would mislead a later call. -/
def MethodsOk (levels : Nat → Partition) (rootRules : List (PartitionRule D))
    (methods : Option (PartitionAccessMethods D)) : Prop :=
  ∀ access, methods = some access → ∀ level state, access.amstate level = some state →
    StateOk atttypid (levels level) level rootRules state

theorem MethodsOk.get (h : MethodsOk atttypid levels rootRules methods)
    (hget : methods.bind (·.amstate level) = some state) :
    StateOk atttypid (levels level) level rootRules state := by
  cases methods with
  | none => exact absurd hget nofun
  | some access => exact h access rfl level state hget

theorem MethodsOk.set (h : MethodsOk atttypid levels rootRules methods)
    (hstate : StateOk atttypid (levels level) level rootRules state) :
    MethodsOk atttypid levels rootRules (methods.map (·.set level state)) := by
  intro access haccess other found hfound
  cases methods with
  | none => exact absurd haccess nofun
  | some before =>
    cases haccess
    by_cases hsame : other = level
    · rw [hsame] at hfound ⊢
      have hnew : some state = some found := by
        rw [← hfound]
        exact (Function.update_self level (some state) before.amstate).symm
      cases hnew
      exact hstate
    · have hold : before.amstate other = some found := by
        rw [← hfound]
        exact (Function.update_of_ne hsame (some state) before.amstate).symm
      exact h before rfl other found hold

variable (call atttypid) in
/-- What one level has to find. -/
structure FindsRule (node : PartitionNode D) (row : Row D)
    (found : Option (PartitionRule D)) : Prop where
  of_some : ∀ rule, found = some rule → rule ∈ node.rules ∧ Holds call atttypid node.part row rule
  of_none : found = none → ∀ rule ∈ node.rules, ¬ Holds call atttypid node.part row rule

variable {level : Nat} {node : PartitionNode D}

section

variable (hpart : node.part = levels level)

include hpart

theorem selectListPartition_spec
    (hlevel : (levels level).parlevel = level) (hkind : (levels level).parkind = .list)
    (h : MethodsOk atttypid levels rootRules methods) (row : Row D) :
    ∃ found next, selectListPartition call atttypid node row methods none =
        .ok (found, next) ∧ MethodsOk atttypid levels rootRules next ∧
      FindsRule call atttypid node row found := by
  have hstate : ∃ eqfuncs, listState node.part methods = .ok eqfuncs ∧
      TableOk atttypid (levels level) .eq eqfuncs := by
    rw [listState, hpart, hlevel]
    cases hget : methods.bind (·.amstate level) with
    | none => exact ⟨_, rfl, tableOk_replicate _ _⟩
    | some state =>
      have hok := h.get hget
      cases state with
      | list eqfuncs => exact ⟨eqfuncs, rfl, hok.2⟩
      | range state =>
        have hother := hok.1
        rw [hkind] at hother
        exact absurd hother nofun
  obtain ⟨eqfuncs, heqfuncs, htable⟩ := hstate
  obtain ⟨found, next, hfound, hnext, hsome, hnone⟩ := @findRule_spec D call atttypid
    (levels level) row hkind node.rules eqfuncs htable
  rw [← hpart] at hfound hsome hnone
  have hkept : StateOk atttypid (levels level) level rootRules (.list next) := ⟨hkind, hnext⟩
  refine ⟨found, methods.map (·.set level (.list next)), ?_, h.set hkept, hsome, hnone⟩
  simp only [selectListPartition, heqfuncs, bind, Except.bind, hfound]
  rw [hpart, hlevel]
  rfl

/-- A range level of one column finds the rule that holds the value. -/
theorem searchFirst_spec (hkind : (levels level).parkind = .range)
    (hrules : RangeRules call atttypid (levels level) attno node.rules)
    {state : PartitionRangeState D} (hok : RangeTablesOk atttypid (levels level) state)
    (hkept : state.rules.getD node.rules = node.rules) (row : Row D) :
    ∃ found searchpoint next, searchFirst call atttypid node row none state =
        .ok (found, searchpoint, next) ∧ RangeTablesOk atttypid (levels level) next ∧
      next.rules = state.rules ∧ FindsRule call atttypid node row found := by
  have hholds : ∀ rule, Holds call atttypid node.part row rule ↔ ∃ datum, row attno = some datum ∧
        probe call (atttypid attno) datum rule.values = .eq := by
    intro rule
    simp [Holds, hpart, hkind, hrules.paratts, probe_eq_eq]
  unfold searchFirst
  rw [hpart, hrules.paratts]
  dsimp only
  cases hrow : row attno with
  | none =>
    refine ⟨none, 0, state, rfl, hok, rfl, by rintro _ ⟨⟩, ?_⟩
    intro _ rule _ hrule
    obtain ⟨datum, hdatum, _⟩ := (hholds rule).mp hrule
    rw [hrow] at hdatum
    cases hdatum
  | some datum =>
    have htype : keyType atttypid (levels level) 0 = atttypid attno := by
      rw [keyType, hrules.paratts]
      rfl
    have hordered := probeAt_ordered hrules.ordered hrules.proper hrules.sorted datum
    obtain ⟨found, hfound, hnext, hsame, hmatched, hmissed⟩ := @searchRange_spec D
      call atttypid (levels level) node.rules (atttypid attno) datum htype hordered
      (node.rules.length + 1) 0 node.rules.length 0 state hok hkept (by omega) (by omega)
      (le_refl _) .all
    have hone : (levels level).parnatts = 1 := by
      rw [Partition.parnatts, hrules.paratts]
      rfl
    simp only [getD_none, bind, Except.bind]
    rw [show searchRange call node.rules datum (atttypid attno) (atttypid attno)
      (node.rules.length + 1) 0 (node.rules.length - 1) 0 state = .ok found from hfound]
    cases hresult : found.matched with
    | none =>
      refine ⟨none, found.searchpoint, found.state, ?_, hnext, hsame, by rintro _ ⟨⟩, ?_⟩
      · simp only [hresult]
        rfl
      · intro _ rule hmem hrule
        obtain ⟨other, hother, hprobe⟩ := (hholds rule).mp hrule
        rw [hrow] at hother
        cases hother
        obtain ⟨i, hi, hget⟩ := getElem_of_mem hmem
        apply hmissed hresult i hi
        rw [probeAt_get (getElem?_eq_getElem hi), hget]
        exact hprobe
    | some matched =>
      obtain ⟨mid, rule⟩ := matched
      obtain ⟨hget, hprobe⟩ := hmatched mid rule hresult
      refine ⟨some rule, found.searchpoint, found.state, ?_, hnext, hsame, ?_, by rintro ⟨⟩⟩
      · simp only [hresult, hone, if_true]
        rfl
      · intro other hother
        cases hother
        exact ⟨mem_of_getElem? hget, (hholds rule).mpr ⟨datum, hrow, hprobe⟩⟩

section

variable (hlevel : (levels level).parlevel = level) (hkind : (levels level).parkind = .range)
  (hroot : level = 0 → node.rules = rootRules) (h : MethodsOk atttypid levels rootRules methods)

include hlevel hkind hroot h

/-- A new state of a range level, or the one that was kept. -/
theorem rangeState_spec :
    ∃ state, rangeState node methods = .ok state ∧ RangeTablesOk atttypid (levels level) state ∧
      ∀ rules, state.rules = some rules → level = 0 ∧ rules = rootRules := by
  rw [rangeState, hpart, hlevel]
  cases hget : methods.bind (·.amstate level) with
  | none =>
    refine ⟨_, rfl, ⟨tableOk_replicate _ _, tableOk_replicate _ _, tableOk_replicate _ _,
      tableOk_replicate _ _⟩, ?_⟩
    intro rules hrules
    split_ifs at hrules with hzero
    cases hrules
    exact ⟨hzero, hroot hzero⟩
  | some state =>
    have hok := h.get hget
    cases state with
    | list eqfuncs =>
      have hother := hok.1
      rw [hkind] at hother
      exact absurd hother nofun
    | range state => exact ⟨state, rfl, hok.2⟩

theorem selectRangePartition_spec
    (hrules : RangeRules call atttypid (levels level) attno node.rules) (row : Row D) :
    ∃ found searchpoint next, selectRangePartition call atttypid node row methods
        none = .ok (found, searchpoint, next) ∧ MethodsOk atttypid levels rootRules next ∧
      FindsRule call atttypid node row found := by
  obtain ⟨state, hstate, hok, hunrolled⟩ := rangeState_spec hpart hlevel hkind hroot h
  have hkept : state.rules.getD node.rules = node.rules := by
    cases hget : state.rules with
    | none => rfl
    | some rules =>
      obtain ⟨hzero, hsame⟩ := hunrolled rules hget
      rw [getD_some, hsame, hroot hzero]
  obtain ⟨found, searchpoint, next, hfound, hnext, hsame, hfinds⟩ :=
    searchFirst_spec hpart hkind hrules hok hkept row
  have hnew : StateOk atttypid (levels level) level rootRules (.range next) :=
    ⟨hkind, hnext, hsame.symm ▸ hunrolled⟩
  refine ⟨found, searchpoint, methods.map (·.set level (.range next)), ?_, h.set hnew, hfinds⟩
  simp only [selectRangePartition, hstate, bind, Except.bind, hfound]
  rw [hpart, hlevel]
  rfl

end

end

section

variable (huniform : Uniform call atttypid levels level node)

include huniform

/-- Every level finds its rule, and leaves the access methods in order. -/
theorem selectRule_spec (hroot : level = 0 → node.rules = rootRules)
    (h : MethodsOk atttypid levels rootRules methods) (row : Row D) :
    ∃ found next, selectRule call atttypid node row methods = .ok (found, next) ∧
      MethodsOk atttypid levels rootRules next ∧
      FindsRule call atttypid node row found := by
  obtain ⟨hpart, hlevel, hlist, hrange, _⟩ := huniform
  unfold selectRule
  rw [hpart]
  cases hkind : (levels level).parkind with
  | list => exact selectListPartition_spec hpart hlevel hkind h row
  | range =>
    obtain ⟨attno, hrules⟩ := hrange hkind
    obtain ⟨found, searchpoint, next, hfound, hnext, hfinds⟩ :=
      selectRangePartition_spec hpart hlevel hkind hroot h hrules row
    refine ⟨found, next, ?_, hnext, hfinds⟩
    simp only [hfound, bind, Except.bind]
    rfl

theorem holds_unique (hfirst : first ∈ node.rules) (hsecond : second ∈ node.rules)
    (hholds : Holds call atttypid node.part row first)
    (hother : Holds call atttypid node.part row second) : first = second := by
  obtain ⟨hpart, _, hlist, hrange, _⟩ := huniform
  have hdisjoint : node.rules.Pairwise fun first second =>
      ¬ (Holds call atttypid node.part row first ∧ Holds call atttypid node.part row second) := by
    rw [hpart]
    cases hkind : (levels level).parkind with
    | list => exact (hlist hkind).disjoint.imp fun hnone => hnone row
    | range =>
      obtain ⟨attno, hrules⟩ := hrange hkind
      refine hrules.sorted.imp_of_mem ?_
      intro first second hmem _ hprecedes hboth
      simp only [Holds, hkind, hrules.paratts, mem_singleton, exists_eq_left] at hboth
      obtain ⟨⟨datum, hdatum, _, hend⟩, other, hsame, hstart, _⟩ := hboth
      rw [hdatum] at hsame
      cases hsame
      have habove := (hrules.ordered.precedes (hrules.proper first hmem) hprecedes hstart).2
      rw [habove] at hend
      exact absurd hend Bool.false_ne_true
  by_contra hne
  have hsymm : Std.Symm fun first second : PartitionRule D =>
      ¬ (Holds call atttypid node.part row first ∧ Holds call atttypid node.part row second) :=
    ⟨fun _ _ hnot hboth => hnot hboth.symm⟩
  exact hdisjoint.forall hfirst hsecond hne ⟨hholds, hother⟩

theorem chosen_unique (hfirst : Chosen call atttypid node row first)
    (hsecond : Chosen call atttypid node row second) : first = second := by
  obtain ⟨hmem, hholds⟩ | ⟨hnone, hdefault⟩ := hfirst
  · obtain ⟨hother, hothers⟩ | ⟨hnone, _⟩ := hsecond
    · exact holds_unique huniform hmem hother hholds hothers
    · exact absurd hholds (hnone first hmem)
  · obtain ⟨hother, hothers⟩ | ⟨_, hsame⟩ := hsecond
    · exact absurd hothers (hnone second hother)
    · rw [hdefault] at hsame
      exact some.inj hsame

theorem Uniform.child (hchosen : Chosen call atttypid node row rule) {child : PartitionNode D}
    (hchild : rule.children = some child) :
    Uniform call atttypid levels (level + 1) child := by
  obtain ⟨_, _, _, _, hchildren⟩ := huniform
  exact hchildren rule (hchosen.imp And.left And.right) child hchild

end

theorem height_le_rulesHeight {rules : List (PartitionRule D)} (hmem : rule ∈ rules) :
    rule.height ≤ rulesHeight rules := by
  induction rules with
  | nil => exact absurd hmem not_mem_nil
  | cons first rest ih =>
    obtain rfl | hrest := mem_cons.mp hmem
    · exact le_max_left _ _
    · exact le_trans (ih hrest) (le_max_right _ _)

section

variable (hchosen : Chosen call atttypid node row rule)

include hchosen

theorem height_lt {child : PartitionNode D} (hchild : rule.children = some child) :
    child.height < node.height := by
  have hrule : rule.height = child.height := by
    obtain ⟨relid, values, children⟩ := rule
    rw [PartitionRule.children] at hchild
    rw [PartitionRule.height, hchild, optionNodeHeight]
  obtain ⟨part, rules, defaultPart⟩ := node
  rw [PartitionNode.height, ← hrule]
  apply lt_succ_of_le
  obtain ⟨hmem, _⟩ | ⟨_, hdefault⟩ := hchosen
  · exact le_trans (height_le_rulesHeight hmem) (le_max_left _ _)
  · rw [PartitionNode.defaultPart] at hdefault
    rw [hdefault, optionRuleHeight]
    exact le_max_right _ _

end

/-- The answer of a call is the leaf that the row reaches, or none if it is lost. -/
structure Answers (call : FunctionCall D) (atttypid : AttrNumber → Oid)
    (node : PartitionNode D) (row : Row D) (answer : Option RelId) : Prop where
  of_some : ∀ relid, answer = some relid ↔ Reaches call atttypid row node relid
  of_none : answer = none ↔ Lost call atttypid row node

variable (call atttypid levels rootRules) in
/-- A call answers for a node and keeps the access methods in order. -/
def Answered (node : PartitionNode D) (row : Row D)
    (result : Except PartitionError (Option RelId × Option (PartitionAccessMethods D))) : Prop :=
  ∃ answer last, result = .ok (answer, last) ∧ MethodsOk atttypid levels rootRules last ∧
    Answers call atttypid node row answer

section

variable (huniform : Uniform call atttypid levels level node)
  (hchosen : Chosen call atttypid node row rule)

include huniform hchosen

theorem Answers.down {child : PartitionNode D} (hchild : rule.children = some child)
    {answer : Option RelId} (h : Answers call atttypid child row answer) :
    Answers call atttypid node row answer := by
  constructor
  · intro relid
    refine (h.of_some relid).trans ⟨.down hchosen hchild, fun hreaches => ?_⟩
    cases hreaches with
    | leaf hagain hleaf =>
      cases chosen_unique huniform hchosen hagain
      cases hchild.symm.trans hleaf
    | down hagain hsame hreaches =>
      cases chosen_unique huniform hchosen hagain
      cases hchild.symm.trans hsame
      exact hreaches
  · refine h.of_none.trans ⟨.down hchosen hchild, fun hlost => ?_⟩
    cases hlost with
    | here hnone => exact absurd hchosen (hnone rule)
    | down hagain hsame hlost =>
      cases chosen_unique huniform hchosen hagain
      cases hchild.symm.trans hsame
      exact hlost

theorem Answers.leaf (hleaf : rule.children = none) :
    Answers call atttypid node row (some rule.parchildrelid) := by
  constructor
  · refine fun relid => ⟨fun hrelid => some.inj hrelid ▸ .leaf hchosen hleaf, ?_⟩
    intro hreaches
    cases hreaches with
    | leaf hagain _ => rw [chosen_unique huniform hchosen hagain]
    | down hagain hchild _ =>
      cases chosen_unique huniform hchosen hagain
      cases hleaf.symm.trans hchild
  · refine ⟨nofun, fun hlost => ?_⟩
    cases hlost with
    | here hnone => exact absurd hchosen (hnone rule)
    | down hagain hchild _ =>
      cases chosen_unique huniform hchosen hagain
      cases hleaf.symm.trans hchild

/-- From a rule or a default partition on the way is the same. -/
theorem Answered.chosen {fuel : Nat} {next : Option (PartitionAccessMethods D)}
    (hnext : MethodsOk atttypid levels rootRules next)
    (hbelow : ∀ child, rule.children = some child → Answered call atttypid levels rootRules
      child row (selectPartition1 call atttypid fuel child row next)) :
    Answered call atttypid levels rootRules node row (match rule.children with
      | some child => selectPartition1 call atttypid fuel child row next
      | none => pure (some rule.parchildrelid, next)) := by
  cases hchild : rule.children with
  | none => exact ⟨_, next, rfl, hnext, .leaf huniform hchosen hchild⟩
  | some child =>
    obtain ⟨answer, last, hanswer, hlast, hanswers⟩ := hbelow child hchild
    exact ⟨answer, last, hanswer, hlast, hanswers.down huniform hchosen hchild⟩

end

/-- The way down from a node. -/
theorem selectPartition1_spec (row : Row D) (fuel : Nat) :
    ∀ {level : Nat} {node : PartitionNode D} {methods : Option (PartitionAccessMethods D)},
    node.height ≤ fuel → Uniform call atttypid levels level node →
    (level = 0 → node.rules = rootRules) → MethodsOk atttypid levels rootRules methods →
    Answered call atttypid levels rootRules node row
      (selectPartition1 call atttypid fuel node row methods) := by
  induction fuel with
  | zero =>
    intro level node methods hheight
    obtain ⟨part, rules, defaultPart⟩ := node
    rw [PartitionNode.height] at hheight
    omega
  | succ fuel ih =>
    intro level node methods hheight huniform hroot h
    obtain ⟨found, next, hfound, hnext, hfinds⟩ := selectRule_spec huniform hroot h row
    have hgo := fun rule (hchosen : Chosen call atttypid node row rule) =>
      Answered.chosen huniform hchosen hnext fun child hchild =>
        ih (le_of_lt_succ (lt_of_lt_of_le (height_lt hchosen hchild) hheight))
          (huniform.child hchosen hchild) (by rintro ⟨⟩) hnext
    simp only [selectPartition1, hfound, bind, Except.bind]
    cases found with
    | some rule => exact hgo rule (.inl (hfinds.of_some rule rfl))
    | none =>
      cases hdefault : node.defaultPart with
      | some rule => exact hgo rule (.inr ⟨hfinds.of_none rfl, hdefault⟩)
      | none =>
        have hnone : ∀ rule, ¬ Chosen call atttypid node row rule := by
          rintro rule (⟨hmem, hholds⟩ | ⟨_, hsome⟩)
          · exact hfinds.of_none rfl rule hmem hholds
          · cases hdefault.symm.trans hsome
        refine ⟨none, next, rfl, hnext, fun relid => ⟨by rintro ⟨⟩, fun hreaches => ?_⟩,
          iff_of_true rfl (.here hnone)⟩
        cases hreaches with
        | leaf hchosen _ | down hchosen _ _ => exact absurd hchosen (hnone _)

end

/-- New access methods are in order, and so are none. -/
theorem methodsOk_create (levels : Nat → Partition) (rootRules : List (PartitionRule D))
    {methods : Option (PartitionAccessMethods D)}
    (hnew : methods = none ∨ methods = some (createPartitionAccessMethods D)) :
    MethodsOk atttypid levels rootRules methods := by
  intro access haccess level state hstate
  obtain rfl | rfl := hnew
  · exact absurd haccess nofun
  · cases haccess
    exact absurd hstate nofun

/-- All calls on a tree keep the access methods in order. -/
theorem selectPartitions_spec {call : FunctionCall D} {atttypid : AttrNumber → Oid}
    {levels : Nat → Partition} {tree : PartitionNode D}
    (huniform : Uniform call atttypid levels 0 tree) (rows : List (Row D)) :
    ∀ {methods : Option (PartitionAccessMethods D)}, MethodsOk atttypid levels tree.rules methods →
    ∃ next, selectPartitions call atttypid tree rows methods = .ok next ∧
      MethodsOk atttypid levels tree.rules next := by
  induction rows with
  | nil =>
    intro methods h
    exact ⟨methods, rfl, h⟩
  | cons row rest ih =>
    intro methods h
    obtain ⟨answer, next, hanswer, hnext, _⟩ := selectPartition1_spec row tree.height
      (le_refl _) huniform (fun _ => rfl) h
    obtain ⟨last, hlast, hok⟩ := ih hnext
    refine ⟨last, ?_, hok⟩
    rw [selectPartitions, selectPartition, hanswer]
    exact hlast

/-- The answer for a row is the leaf that it reaches, or none if it is lost on its
way, and it is the same without access methods and after any earlier calls that
share them. -/
theorem selectPartition_routes {functionCall : FunctionCall D} {atttypid : AttrNumber → Oid}
    {levels : Nat → Partition} {tree : PartitionNode D}
    (huniform : Uniform functionCall atttypid levels 0 tree) (row : Row D) :
    ∃ answer : Option RelId,
      (∀ relid, answer = some relid ↔ Reaches functionCall atttypid row tree relid) ∧
      (answer = none ↔ Lost functionCall atttypid row tree) ∧
      ∀ start : Option (PartitionAccessMethods D),
        start = none ∨ start = some (createPartitionAccessMethods D) →
        ∀ earlier : List (Row D), ∃ methods next,
          selectPartitions functionCall atttypid tree earlier start = .ok methods ∧
          selectPartition functionCall atttypid tree row methods = .ok (answer, next) := by
  obtain ⟨answer, _, _, _, hanswers⟩ := selectPartition1_spec row tree.height
    (le_refl _) huniform (fun _ => rfl)
    (methodsOk_create atttypid levels tree.rules (.inl rfl))
  refine ⟨answer, hanswers.of_some, hanswers.of_none, ?_⟩
  intro start hstart earlier
  obtain ⟨methods, hmethods, hok⟩ := selectPartitions_spec huniform earlier
    (methodsOk_create atttypid levels tree.rules hstart)
  obtain ⟨again, next, hagain, _, hothers⟩ := selectPartition1_spec row tree.height
    (le_refl _) huniform (fun _ => rfl) hok
  refine ⟨methods, next, hmethods, ?_⟩
  have hsame : again = answer := by
    cases hcase : again with
    | none => exact (hanswers.of_none.mpr (hothers.of_none.mp hcase)).symm
    | some relid => exact ((hanswers.of_some relid).mpr ((hothers.of_some relid).mp hcase)).symm
  rw [selectPartition, hagain, hsame]

namespace RoutingWitness

def compare : FunctionCall Int := fun func first second =>
  match func.op with
  | .eq => first = second
  | .lt => first < second
  | .le => first ≤ second

def typeOf : AttrNumber → Oid := fun _ => 23

def levels (level : Nat) : Partition :=
  if level = 0 then ⟨.range, 0, [1]⟩ else ⟨.list, level, [2]⟩

def listValues (values : List (List (Option Int))) : RuleValues Int :=
  ⟨none, false, none, false, values⟩

def rangeValues (start : Int) (stop : Option Int) : RuleValues Int :=
  ⟨some start, true, stop, false, []⟩

/-- Two lists, one of them of the null value, and a default. -/
def lists : PartitionNode Int :=
  .mk (levels 1) [.mk 201 (listValues [[some 1], [some 2]]) none,
    .mk 202 (listValues [[none]]) none] (some (.mk 203 (listValues []) none))

/-- Ranges with a gap between them. -/
def tree : PartitionNode Int :=
  .mk (levels 0) [.mk 101 (rangeValues 0 (some 10)) (some lists),
    .mk 102 (rangeValues 20 none) none] none

theorem lists_uniform : Uniform compare typeOf levels 1 lists := by
  refine .mk rfl rfl (fun _ => ⟨?_, ?_⟩) (by rintro ⟨⟩) ?_
  · simp [lists, listValues, levels, Partition.parnatts]
  · simp only [lists, PartitionNode.rules, pairwise_cons, mem_singleton,
      forall_eq, not_mem_nil, false_implies, implies_true, List.Pairwise.nil, and_true]
    intro row
    cases hrow : row 2 <;>
      simp [Holds, levels, listValues, hrow]
  · intro rule hrule child hchild
    simp only [lists, PartitionNode.rules, PartitionNode.defaultPart, mem_cons,
      not_mem_nil, or_false, some_inj] at hrule
    rcases hrule with (rfl | rfl) | rfl <;> cases hchild

theorem tree_uniform : Uniform compare typeOf levels 0 tree := by
  refine .mk rfl rfl (by rintro ⟨⟩) (fun _ => ⟨1, rfl, ⟨?_, ?_, ?_⟩, ?_, ?_⟩) ?_
  · intro a b
    simpa [compare] using Int.le_total a b
  · intro a b c
    simpa [compare] using Int.le_trans
  · simp [compare]
  · simp [tree, Proper, rangeValues, compare]
  · simp [tree, Precedes, rangeValues, compare]
  · intro rule hrule child hchild
    simp only [tree, PartitionNode.rules, PartitionNode.defaultPart, mem_cons,
      not_mem_nil, or_false, reduceCtorEq] at hrule
    rcases hrule with rfl | rfl
    · cases hchild
      exact lists_uniform
    · cases hchild

/-- The second column is null. -/
def row : Row Int := fun attno => if attno = 1 then some 5 else none

theorem row_reaches : Reaches compare typeOf row tree 202 := by
  have hrange : Chosen compare typeOf tree row
      (.mk 101 (rangeValues 0 (some 10)) (some lists)) := by
    left
    simp [tree, PartitionNode.part, Holds, levels, row, startOk, endOk, rangeValues, compare,
      boundOp]
  have hlist : Chosen compare typeOf lists row (.mk 202 (listValues [[none]]) none) := by
    left
    simp [lists, PartitionNode.part, Holds, levels, row, listValues]
  exact .down hrange rfl (.leaf hlist rfl)

theorem row_routed : ∃ methods next,
    selectPartitions compare typeOf tree [fun _ => some 1, fun _ => none]
      (some (createPartitionAccessMethods Int)) = .ok methods ∧
    selectPartition compare typeOf tree row methods = .ok (some 202, next) := by
  obtain ⟨answer, hsome, _, hcalls⟩ := selectPartition_routes tree_uniform row
  rw [← (hsome 202).mpr row_reaches]
  exact hcalls _ (.inr rfl) _

end RoutingWitness

end Greenplum.PartitionSelect
