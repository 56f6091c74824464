/-
The choice of a partition for a row, `selectPartition` of `cdbpartition.c`: list
partitions are tried one after the other, range partitions are found by binary
search, and the comparison functions of a level are looked up once and kept in
the access methods that all calls share.
-/
import Mathlib.Data.PNat.Defs
import Mathlib.Tactic.Common

namespace Greenplum.PartitionSelect

abbrev Oid := Nat

/-- The Oid of a partition's table, which is not `InvalidOid`. -/
abbrev RelId := PNat

abbrev AttrNumber := Nat

inductive CompareOp
  | eq | lt | le
  deriving DecidableEq, Repr

/-- A comparison function as it is found by the name of the operator and the
types on both sides. -/
structure OpFunc where
  op : CompareOp
  lhs : Oid
  rhs : Oid
  deriving DecidableEq, Repr

inductive PartKind
  | range | list
  deriving DecidableEq, Repr

/-- The key of one level of partitions. -/
structure Partition where
  parkind : PartKind
  parlevel : Nat
  paratts : List AttrNumber
  deriving DecidableEq, Repr

def Partition.parnatts (part : Partition) : Nat := part.paratts.length

/-- The values of a rule.  Of a range only the first column counts; a constant of a
list can be null. -/
structure RuleValues (D : Type) where
  parrangestart : Option D
  parrangestartincl : Bool
  parrangeend : Option D
  parrangeendincl : Bool
  parlistvalues : List (List (Option D))
  deriving DecidableEq, Repr

mutual

/-- The partitions of one parent. -/
inductive PartitionNode (D : Type) where
  | mk (part : Partition) (rules : List (PartitionRule D)) (defaultPart : Option (PartitionRule D))

/-- One partition: a table, or the parent of further partitions. -/
inductive PartitionRule (D : Type) where
  | mk (parchildrelid : RelId) (values : RuleValues D) (children : Option (PartitionNode D))

end

namespace PartitionNode

variable {D : Type}

def part : PartitionNode D → Partition
  | .mk part _ _ => part

@[simp]
def rules : PartitionNode D → List (PartitionRule D)
  | .mk _ rules _ => rules

def defaultPart : PartitionNode D → Option (PartitionRule D)
  | .mk _ _ defaultPart => defaultPart

end PartitionNode

namespace PartitionRule

variable {D : Type}

def parchildrelid : PartitionRule D → RelId
  | .mk parchildrelid _ _ => parchildrelid

@[simp]
def values : PartitionRule D → RuleValues D
  | .mk _ values _ => values

def children : PartitionRule D → Option (PartitionNode D)
  | .mk _ _ children => children

end PartitionRule

section

variable {D : Type}

mutual

/-- The number of levels of a tree. -/
def PartitionNode.height : PartitionNode D → Nat
  | .mk _ rules defaultPart =>
    max (rulesHeight rules) (optionRuleHeight defaultPart) + 1

def rulesHeight : List (PartitionRule D) → Nat
  | [] => 0
  | rule :: rest => max rule.height (rulesHeight rest)

def optionRuleHeight : Option (PartitionRule D) → Nat
  | none => 0
  | some rule => rule.height

def PartitionRule.height : PartitionRule D → Nat
  | .mk _ _ children => optionNodeHeight children

def optionNodeHeight : Option (PartitionNode D) → Nat
  | none => 0
  | some node => node.height

end

end

section

variable (D : Type)

/-- Comparison functions by the place of the key column. -/
abbrev FuncTable := List (Option OpFunc)

/-- The state of a range level.  The rules are unrolled for the top level only. -/
structure PartitionRangeState where
  lefuncsDirect : FuncTable
  ltfuncsDirect : FuncTable
  lefuncsInverse : FuncTable
  ltfuncsInverse : FuncTable
  rules : Option (List (PartitionRule D))

/-- What a level keeps between the calls. -/
inductive AmState
  | list (eqfuncs : FuncTable)
  | range (state : PartitionRangeState D)

/-- `PartitionAccessMethods`: the state of each level. -/
structure PartitionAccessMethods where
  amstate : Nat → Option (AmState D)

def createPartitionAccessMethods : PartitionAccessMethods D where
  amstate := fun _ => none

variable {D}

def PartitionAccessMethods.set (methods : PartitionAccessMethods D) (level : Nat)
    (state : AmState D) : PartitionAccessMethods D where
  amstate := Function.update methods.amstate level (some state)

/-- The function at a place; it is looked up if it is not there yet. -/
def fetch (table : FuncTable) (keyno : Nat) (found : OpFunc) : OpFunc × FuncTable :=
  match table.getD keyno none with
  | some func => (func, table)
  | none => (found, table.set keyno (some found))

end

/-- What cannot be done in C without harm, or at all. -/
inductive PartitionError
  | stateOfAnotherKind | noSuchRule | tooDeep
  deriving DecidableEq, Repr

section

variable {D : Type}

/-- A call of a comparison function. -/
abbrev FunctionCall (D : Type) := OpFunc → D → D → Bool

/-- The row: the values of its columns, or null. -/
abbrev Row (D : Type) := AttrNumber → Option D

variable (functionCall : FunctionCall D) (atttypid : AttrNumber → Oid)

/-- Do the columns of a row have the values of a list, from place `i` on? -/
def matchColvals (row : Row D) (exprTypeOid : Option Oid) :
    Nat → List (AttrNumber × Option D) → FuncTable → Bool × FuncTable
  | _, [], eqfuncs => (true, eqfuncs)
  | i, (attno, const) :: rest, eqfuncs =>
    match row attno, const with
    | none, none => matchColvals row exprTypeOid (i + 1) rest eqfuncs
    | none, some _ => (false, eqfuncs)
    | some _, none => (false, eqfuncs)
    | some datum, some value =>
      let rhstypid := atttypid attno
      let lhstypid := exprTypeOid.getD rhstypid
      let (func, eqfuncs) := fetch eqfuncs i ⟨.eq, lhstypid, rhstypid⟩
      if functionCall func datum value then
        matchColvals row exprTypeOid (i + 1) rest eqfuncs
      else (false, eqfuncs)

/-- Does the row have one of the values of a rule? -/
def matchValues (part : Partition) (row : Row D) (exprTypeOid : Option Oid) :
    List (List (Option D)) → FuncTable → Bool × FuncTable
  | [], eqfuncs => (false, eqfuncs)
  | colvals :: rest, eqfuncs =>
    match matchColvals functionCall atttypid row exprTypeOid 0
        (part.paratts.zip colvals) eqfuncs with
    | (true, eqfuncs) => (true, eqfuncs)
    | (false, eqfuncs) => matchValues part row exprTypeOid rest eqfuncs

/-- The first rule that matches. -/
def findRule (part : Partition) (row : Row D) (exprTypeOid : Option Oid) :
    List (PartitionRule D) → FuncTable → Option (PartitionRule D) × FuncTable
  | [], eqfuncs => (none, eqfuncs)
  | rule :: rest, eqfuncs =>
    match matchValues functionCall atttypid part row exprTypeOid
        rule.values.parlistvalues eqfuncs with
    | (true, eqfuncs) => (some rule, eqfuncs)
    | (false, eqfuncs) => findRule part row exprTypeOid rest eqfuncs

/-- The state of a list level, from the access methods or new. -/
def listState (part : Partition) (methods : Option (PartitionAccessMethods D)) :
    Except PartitionError FuncTable :=
  match methods.bind (·.amstate part.parlevel) with
  | some (.list eqfuncs) => .ok eqfuncs
  | some (.range _) => .error .stateOfAnotherKind
  | none => .ok (List.replicate part.parnatts none)

variable (node : PartitionNode D) (row : Row D) (methods : Option (PartitionAccessMethods D))
  (exprTypeOid : Option Oid)

def selectListPartition :
    Except PartitionError (Option (PartitionRule D) × Option (PartitionAccessMethods D)) := do
  let eqfuncs ← listState node.part methods
  let (rule, eqfuncs) := findRule functionCall atttypid node.part row exprTypeOid node.rules eqfuncs
  return (rule, methods.map (·.set node.part.parlevel (.list eqfuncs)))

/-- The comparison of a rule's value with the value of an expression, in both
directions, and the state in which it is kept. -/
def getLessThanComparator (keyno : Nat) (state : PartitionRangeState D)
    (ruleTypeOid exprTypeOid : Oid) (strictlyless isDirect : Bool) :
    OpFunc × PartitionRangeState D :=
  let op := if strictlyless then CompareOp.lt else .le
  match isDirect, strictlyless with
  | true, true =>
    let (func, table) := fetch state.ltfuncsDirect keyno ⟨op, exprTypeOid, ruleTypeOid⟩
    (func, { state with ltfuncsDirect := table })
  | true, false =>
    let (func, table) := fetch state.lefuncsDirect keyno ⟨op, exprTypeOid, ruleTypeOid⟩
    (func, { state with lefuncsDirect := table })
  | false, true =>
    let (func, table) := fetch state.ltfuncsInverse keyno ⟨op, ruleTypeOid, exprTypeOid⟩
    (func, { state with ltfuncsInverse := table })
  | false, false =>
    let (func, table) := fetch state.lefuncsInverse keyno ⟨op, ruleTypeOid, exprTypeOid⟩
    (func, { state with lefuncsInverse := table })

section

variable (tupval : D) (ruleTypeOid exprTypeOid : Oid) (state : PartitionRangeState D) (keyno : Nat)
  (values : RuleValues D)

/-- Is the value before the end of the range? -/
def endTest : Int × PartitionRangeState D :=
  match values.parrangeend with
  | none => (0, state)
  | some bound =>
    let (func, state) := getLessThanComparator keyno state ruleTypeOid exprTypeOid
      (!values.parrangeendincl) true
    if functionCall func tupval bound then (0, state) else (1, state)

/-- Where the value lies: below the range, in it or above it. -/
def rangeTest : Int × PartitionRangeState D :=
  match values.parrangestart with
  | none => endTest functionCall tupval ruleTypeOid exprTypeOid state keyno values
  | some bound =>
    let (func, state) := getLessThanComparator keyno state ruleTypeOid exprTypeOid
      (!values.parrangestartincl) false
    if functionCall func bound tupval then
      endTest functionCall tupval ruleTypeOid exprTypeOid state keyno values
    else (-1, state)

end

def nthRule (rules : List (PartitionRule D)) (n : Nat) : Except PartitionError (PartitionRule D) :=
  match rules[n]? with
  | some rule => .ok rule
  | none => .error .noSuchRule

/-- What the binary search ends with. -/
structure RangeSearch (D : Type) where
  matched : Option (Nat × PartitionRule D)
  searchpoint : Nat
  state : PartitionRangeState D

/-- The binary search for the rule that holds a value. -/
def searchRange (rules : List (PartitionRule D)) (exprValue : D) (ruleTypeOid exprTypeOid : Oid) :
    Nat → Int → Int → Nat → PartitionRangeState D → Except PartitionError (RangeSearch D)
  | 0, _, _, searchpoint, state => .ok ⟨none, searchpoint, state⟩
  | fuel + 1, low, high, searchpoint, state =>
    if low ≤ high then do
      let mid := low + (high - low) / 2
      let rule ← nthRule (state.rules.getD rules) mid.toNat
      let (ret, state) := rangeTest functionCall exprValue ruleTypeOid exprTypeOid state
        0 rule.values
      if ret > 0 then
        searchRange rules exprValue ruleTypeOid exprTypeOid fuel (mid + 1) high mid.toNat state
      else if ret < 0 then
        searchRange rules exprValue ruleTypeOid exprTypeOid fuel low (mid - 1) searchpoint state
      else return ⟨some (mid.toNat, rule), searchpoint, state⟩
    else .ok ⟨none, searchpoint, state⟩

/-- What a rule says of all columns of a key. -/
inductive KeysTest
  | matched | firstFail | fail | isNull
  deriving DecidableEq, Repr

/-- Test the columns of a key from place `i` on. -/
def testKeys (row : Row D) (values : RuleValues D) :
    Nat → List AttrNumber → PartitionRangeState D → KeysTest × PartitionRangeState D
  | _, [], state => (.matched, state)
  | i, attno :: rest, state =>
    match row attno with
    | none => (.isNull, state)
    | some datum =>
      let ruleTypeOid := atttypid attno
      let (ret, state) := rangeTest functionCall datum ruleTypeOid ruleTypeOid state i values
      if ret ≠ 0 then (if i = 0 then .firstFail else .fail, state)
      else testKeys row values (i + 1) rest state

/-- How a walk over the rules of a key of several columns ends. -/
inductive Walk (D : Type)
  | found (rule : PartitionRule D)
  | stopped
  | isNull

/-- Walk over rules until one matches all columns or one does not match the
first. -/
def walkRules (part : Partition) (row : Row D) :
    List (PartitionRule D) → PartitionRangeState D → Walk D × PartitionRangeState D
  | [], state => (.stopped, state)
  | rule :: rest, state =>
    match testKeys functionCall atttypid row rule.values 0 part.paratts state with
    | (.matched, state) => (.found rule, state)
    | (.firstFail, state) => (.stopped, state)
    | (.fail, state) => walkRules part row rest state
    | (.isNull, state) => (.isNull, state)

/-- Walk down from the rule that was found, and then up. -/
def matchComposite (mid : Nat) (rule : PartitionRule D) (state : PartitionRangeState D) :
    Option (PartitionRule D) × PartitionRangeState D :=
  match walkRules functionCall atttypid node.part row
      (rule :: (node.rules.take mid).reverse) state with
  | (.found rule, state) => (some rule, state)
  | (.isNull, state) => (none, state)
  | (.stopped, state) =>
    match walkRules functionCall atttypid node.part row (node.rules.drop mid) state with
    | (.found rule, state) => (some rule, state)
    | (_, state) => (none, state)

/-- The state of a range level, from the access methods or new. -/
def rangeState : Except PartitionError (PartitionRangeState D) :=
  match methods.bind (·.amstate node.part.parlevel) with
  | some (.range state) => .ok state
  | some (.list _) => .error .stateOfAnotherKind
  | none =>
    let table := List.replicate node.part.parnatts none
    .ok ⟨table, table, table, table, if node.part.parlevel = 0 then some node.rules else none⟩

/-- The binary search on the first column, and for a key of several columns the
walk over the rules beside it. -/
def searchFirst (state : PartitionRangeState D) :
    Except PartitionError (Option (PartitionRule D) × Nat × PartitionRangeState D) :=
  match node.part.paratts with
  | [] => .ok (none, 0, state)
  | attno :: _ =>
    match row attno with
    | none => .ok (none, 0, state)
    | some exprValue => do
        let ruleTypeOid := atttypid attno
        let found ← searchRange functionCall node.rules exprValue ruleTypeOid
          (exprTypeOid.getD ruleTypeOid) (node.rules.length + 1) 0
          (node.rules.length - 1) 0 state
        match found.matched with
        | none => return (none, found.searchpoint, found.state)
        | some (mid, rule) =>
          if node.part.parnatts = 1 then
            return (some rule, found.searchpoint, found.state)
          else
            let (rule, state) := matchComposite functionCall atttypid node row mid rule found.state
            return (rule, found.searchpoint, state)

def selectRangePartition :
    Except PartitionError (Option (PartitionRule D) × Nat × Option (PartitionAccessMethods D)) := do
  let state ← rangeState node methods
  let (rule, searchpoint, state) ← searchFirst functionCall atttypid node row exprTypeOid state
  return (rule, searchpoint, methods.map (·.set node.part.parlevel (.range state)))

/-- One level: the rule that the row belongs to by its values. -/
def selectRule :
    Except PartitionError (Option (PartitionRule D) × Option (PartitionAccessMethods D)) :=
  match node.part.parkind with
  | .range => do
      let (rule, _, methods) ← selectRangePartition functionCall atttypid node row methods none
      return (rule, methods)
  | .list => selectListPartition functionCall atttypid node row methods none

/-- Go down the tree; where no rule matches, a default partition takes its place. -/
def selectPartition1 : Nat → PartitionNode D → Row D → Option (PartitionAccessMethods D) →
    Except PartitionError (Option RelId × Option (PartitionAccessMethods D))
  | 0, _, _, _ => .error .tooDeep
  | fuel + 1, node, row, methods => do
      let (rule, methods) ← selectRule functionCall atttypid node row methods
      match rule with
      | some rule =>
        match rule.children with
        | some child => selectPartition1 fuel child row methods
        | none => return (some rule.parchildrelid, methods)
      | none =>
        match node.defaultPart with
        | none => return (none, methods)
        | some rule =>
          match rule.children with
          | some child => selectPartition1 fuel child row methods
          | none => return (some rule.parchildrelid, methods)

/-- The table for a row; `none` stands for `InvalidOid`. -/
def selectPartition : Except PartitionError (Option RelId × Option (PartitionAccessMethods D)) :=
  selectPartition1 functionCall atttypid node.height node row methods

/-- A sequence of calls that share their access methods. -/
def selectPartitions (node : PartitionNode D) : List (Row D) → Option (PartitionAccessMethods D) →
    Except PartitionError (Option (PartitionAccessMethods D))
  | [], methods => .ok methods
  | row :: rest, methods => do
      let (_, methods) ← selectPartition functionCall atttypid node row methods
      selectPartitions node rest methods

end

end Greenplum.PartitionSelect
