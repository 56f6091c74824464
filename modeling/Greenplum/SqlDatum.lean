/-
The values of the types that rows may be distributed by, as they are stored,
and the equality operator of each type (`numeric.c`, `varlena.c`, `varchar.c`,
`timestamp.c`, `network.c`, `arrayfuncs.c` and the other files of
`utils/adt`).  The floating-point types are left out.
-/
import Greenplum.ByteCompare
import Greenplum.ByteNumbers
import Mathlib.Data.List.DropRight

namespace Greenplum.CdbHash

open ByteCompare ByteNumbers

abbrev Byte := BitVec 8

abbrev Oid := BitVec 32

/-- The bytes of a machine integer in memory. -/
def intBytes {width : Nat} (value : BitVec width) : List Byte :=
  leBytes (width / 8) value.toNat

inductive NumericSign where
  | pos
  | neg
  | nan
deriving DecidableEq, Repr

/-- A packed numeric.  It has neither a leading nor a trailing zero digit, and
the display scale is no part of the digits. -/
structure Numeric where
  sign : NumericSign
  dscale : BitVec 14
  weight : BitVec 16
  digits : List (BitVec 16)
  head_ne_zero : digits.head? ≠ some 0
  last_ne_zero : digits.getLast? ≠ some 0

theorem head?_dropWhile_ne_zero (digits : List (BitVec 16)) :
    (digits.dropWhile (· == 0)).head? ≠ some 0 := by
  intro hhead
  have hnot := List.head?_dropWhile_not (· == (0 : BitVec 16)) digits
  rw [hhead] at hnot
  simp at hnot

theorem head?_rdropWhile_ne_zero {digits : List (BitVec 16)} (hhead : digits.head? ≠ some 0) :
    (digits.rdropWhile (· == 0)).head? ≠ some 0 := by
  rcases List.rdropWhile_prefix (· == 0) digits with ⟨zeros, hzeros⟩
  intro hzero
  apply hhead
  rw [← hzeros, List.head?_append, hzero, Option.some_or]

theorem getLast?_rdropWhile_ne_zero (digits : List (BitVec 16)) :
    (digits.rdropWhile (· == 0)).getLast? ≠ some 0 := by
  intro hlast
  have hne : digits.rdropWhile (· == 0) ≠ [] := by
    intro hnil
    rw [hnil] at hlast
    cases hlast
  rw [List.getLast?_eq_some_getLast hne] at hlast
  apply List.rdropWhile_last_not (· == (0 : BitVec 16)) digits hne
  exact beq_iff_eq.2 (Option.some.inj hlast)

/-- `make_result`: pack a variable, without its leading and trailing zeroes. -/
def makeResult (sign : NumericSign) (dscale : BitVec 14) (weight : BitVec 16)
    (digits : List (BitVec 16)) : Numeric :=
  match sign with
  | .nan => ⟨.nan, 0, 0, [], by simp, by simp⟩
  | sign =>
    let stripped := digits.dropWhile (· == 0)
    let kept := stripped.rdropWhile (· == 0)
    if kept = [] then ⟨.pos, dscale, 0, [], by simp, by simp⟩
    else
      ⟨sign, dscale, weight - BitVec.ofNat 16 (digits.length - stripped.length), kept,
        head?_rdropWhile_ne_zero (head?_dropWhile_ne_zero digits), getLast?_rdropWhile_ne_zero _⟩

/-- The digits before the first digit that both numbers have; `none` when one
of them is not zero. -/
def passHigh (other : Int) : Int → List (BitVec 16) → Option (Int × List (BitVec 16))
  | weight, [] => some (weight, [])
  | weight, digit :: digits =>
    if weight > other then
      if digit ≠ 0 then none else passHigh other (weight - 1) digits
    else some (weight, digit :: digits)

/-- Walk the digits both numbers have; what is left when no two differ. -/
def passCommon : List (BitVec 16) → List (BitVec 16) →
    Except Ordering (List (BitVec 16) × List (BitVec 16))
  | digit1 :: digits1, digit2 :: digits2 =>
    if digit1.toInt - digit2.toInt ≠ 0 then
      .error (if digit1.toInt - digit2.toInt > 0 then .gt else .lt)
    else passCommon digits1 digits2
  | digits1, digits2 => .ok (digits1, digits2)

def cmpAbsCommon (digits1 : List (BitVec 16)) (weight1 : Int)
    (digits2 : List (BitVec 16)) (weight2 : Int) : Ordering :=
  match passHigh weight2 weight1 digits1 with
  | none => .gt
  | some (weight1, digits1) =>
    match passHigh weight1 weight2 digits2 with
    | none => .lt
    | some (weight2, digits2) =>
      match (if weight1 = weight2 then passCommon digits1 digits2
        else .ok (digits1, digits2)) with
      | .error stat => stat
      | .ok (left1, left2) =>
        if left1.any (· ≠ 0) then .gt
        else if left2.any (· ≠ 0) then .lt
        else .eq

def cmpVarCommon (num1 num2 : Numeric) : Ordering :=
  if num1.digits.length = 0 then
    if num2.digits.length = 0 then .eq
    else if num2.sign = .neg then .gt else .lt
  else if num2.digits.length = 0 then
    if num1.sign = .pos then .gt else .lt
  else if num1.sign = .pos then
    if num2.sign = .neg then .gt
    else cmpAbsCommon num1.digits num1.weight.toInt num2.digits num2.weight.toInt
  else if num2.sign = .pos then .lt
  else cmpAbsCommon num2.digits num2.weight.toInt num1.digits num1.weight.toInt

/-- `cmp_numerics`: all NaNs are equal and above every number. -/
def cmpNumerics (num1 num2 : Numeric) : Ordering :=
  if num1.sign = .nan then
    if num2.sign = .nan then .eq else .gt
  else if num2.sign = .nan then .lt
  else cmpVarCommon num1 num2

/-- The bytes of a text, varchar or char(n) value; the server admits no NUL
into one. -/
structure Text where
  bytes : List Byte
  no_nul : 0 ∉ bytes

def blank : Byte := 0x20

def textEq (arg1 arg2 : Text) : Bool :=
  if arg1.bytes.length ≠ arg2.bytes.length then false
  else strncmp arg1.bytes.length arg1.bytes arg2.bytes == .eq

/-- The length without trailing blanks of the first bytes of `bytes`. -/
def bcTruelen (bytes : List Byte) : Nat → Nat
  | 0 => 0
  | len + 1 => if bytes[len]? ≠ some blank then len + 1 else bcTruelen bytes len

def bpcharEq (arg1 arg2 : Text) : Bool :=
  let len1 := bcTruelen arg1.bytes arg1.bytes.length
  let len2 := bcTruelen arg2.bytes arg2.bytes.length
  if len1 ≠ len2 then false else strncmp len1 arg1.bytes arg2.bytes == .eq

def byteaEq (arg1 arg2 : List Byte) : Bool :=
  if arg1.length ≠ arg2.length then false else memcmp arg1 arg2 == .eq

def namedatalen : Nat := 64

/-- A name, which `namein` pads with zeroes to its full length. -/
structure Name where
  string : List Byte
  no_nul : 0 ∉ string
  length_lt : string.length < namedatalen

def Name.nameStr (name : Name) : List Byte :=
  name.string ++ List.replicate (namedatalen - name.string.length) 0

def nameEq (arg1 arg2 : Name) : Bool :=
  strncmp namedatalen arg1.nameStr arg2.nameStr == .eq

structure Tid where
  blockHi : BitVec 16
  blockLo : BitVec 16
  posid : BitVec 16

def Tid.blockNumber (tid : Tid) : BitVec 32 :=
  (tid.blockHi.setWidth 32 <<< 16) ||| tid.blockLo.setWidth 32

def itemPointerCompare (arg1 arg2 : Tid) : Ordering :=
  if arg1.blockNumber < arg2.blockNumber then .lt
  else if arg1.blockNumber > arg2.blockNumber then .gt
  else if arg1.posid < arg2.posid then .lt
  else if arg1.posid > arg2.posid then .gt
  else .eq

structure TimeTz where
  time : BitVec 64
  zone : BitVec 32

/-- Microseconds from GMT midnight; C computes them as a 64-bit integer. -/
def TimeTz.gmt (value : TimeTz) : BitVec 64 :=
  value.time + value.zone.signExtend 64 * 1000000

def timetzCmpInternal (time1 time2 : TimeTz) : Ordering :=
  if time1.gmt.toInt > time2.gmt.toInt then .gt
  else if time1.gmt.toInt < time2.gmt.toInt then .lt
  else if time1.zone.toInt > time2.zone.toInt then .gt
  else if time1.zone.toInt < time2.zone.toInt then .lt
  else .eq

/-- The fields of an interval in the order in which they are stored. -/
structure Interval where
  time : BitVec 64
  day : BitVec 32
  month : BitVec 32

def usecsPerDay : BitVec 64 := 86400000000

def usecsPerHour : BitVec 64 := 3600000000

/-- An interval as one span: a month has 30 days, a day has 24 hours. -/
def intervalCmpValue (interval : Interval) : BitVec 64 :=
  interval.time + interval.month.signExtend 64 * 30 * usecsPerDay +
    interval.day.signExtend 64 * 24 * usecsPerHour

def intervalCmpInternal (interval1 interval2 : Interval) : Ordering :=
  let span1 := (intervalCmpValue interval1).toInt
  let span2 := (intervalCmpValue interval2).toInt
  if span1 < span2 then .lt else if span1 > span2 then .gt else .eq

def invalidAbstime : BitVec 32 := 0x7FFFFFFE

def invalidReltime : BitVec 32 := 0x7FFFFFFE

/-- The order of abstime and of reltime, with the value `invalid` on top. -/
def invalidLastCmp (invalid value1 value2 : BitVec 32) : Ordering :=
  if value1 = invalid then
    if value2 = invalid then .eq else .gt
  else if value2 = invalid then .lt
  else if value1.toInt > value2.toInt then .gt
  else if value1 = value2 then .eq
  else .lt

def abstimeCmpInternal : BitVec 32 → BitVec 32 → Ordering :=
  invalidLastCmp invalidAbstime

def reltimeCmpInternal : BitVec 32 → BitVec 32 → Ordering :=
  invalidLastCmp invalidReltime

structure TimeInterval where
  status : BitVec 32
  start : BitVec 32
  stop : BitVec 32

/-- The status T_INTERVAL_INVAL is 0. -/
def TimeInterval.invalid (value : TimeInterval) : Bool :=
  value.status == 0 || value.start == invalidAbstime || value.stop == invalidAbstime

/-- The length of a tinterval is itself of type abstime. -/
def TimeInterval.len (value : TimeInterval) : BitVec 32 := value.stop - value.start

def tintervalCmpInternal (a b : TimeInterval) : Ordering :=
  if a.invalid then
    if b.invalid then .eq else .gt
  else if b.invalid then .lt
  else if a.len.toInt > b.len.toInt then .gt
  else if a.len = b.len then .eq
  else .lt

inductive AddressFamily where
  | inet
  | inet6
deriving DecidableEq, Repr

/-- PGSQL_AF_INET and PGSQL_AF_INET6. -/
def AddressFamily.code : AddressFamily → Byte
  | .inet => 2
  | .inet6 => 3

def AddressFamily.addrsize : AddressFamily → Nat
  | .inet => 4
  | .inet6 => 16

def AddressFamily.maxbits : AddressFamily → Nat
  | .inet => 32
  | .inet6 => 128

structure Inet where
  family : AddressFamily
  bits : Byte
  ipaddr : List Byte
  length_ipaddr : ipaddr.length = family.addrsize

/-- Compare the first `count` bits of two bytes, the highest first. -/
def highBitsCmp (left right : Byte) : Nat → Ordering
  | 0 => .eq
  | count + 1 =>
    if left.msb ≠ right.msb then
      if left.msb then .gt else .lt
    else highBitsCmp (left <<< 1) (right <<< 1) count

def bitncmp (left right : List Byte) (count : Nat) : Ordering :=
  let order := memcmp (left.take (count / 8)) (right.take (count / 8))
  if order ≠ .eq ∨ count % 8 = 0 then order
  else highBitsCmp (left.getD (count / 8) 0) (right.getD (count / 8) 0) (count % 8)

def networkCmpInternal (a1 a2 : Inet) : Ordering :=
  if a1.family = a2.family then
    ((bitncmp a1.ipaddr a2.ipaddr (min a1.bits.toNat a2.bits.toNat)).then
      (compare a1.bits.toNat a2.bits.toNat)).then (bitncmp a1.ipaddr a2.ipaddr a1.family.maxbits)
  else compare a1.family.code.toNat a2.family.code.toNat

structure Macaddr where
  a : Byte
  b : Byte
  c : Byte
  d : Byte
  e : Byte
  f : Byte

def hibits (addr : Macaddr) : BitVec 64 :=
  (addr.a.setWidth 64 <<< 16) ||| (addr.b.setWidth 64 <<< 8) ||| addr.c.setWidth 64

def lobits (addr : Macaddr) : BitVec 64 :=
  (addr.d.setWidth 64 <<< 16) ||| (addr.e.setWidth 64 <<< 8) ||| addr.f.setWidth 64

def macaddrCmpInternal (a1 a2 : Macaddr) : Ordering :=
  if hibits a1 < hibits a2 then .lt
  else if hibits a1 > hibits a2 then .gt
  else if lobits a1 < lobits a2 then .lt
  else if lobits a1 > lobits a2 then .gt
  else .eq

/-- A bit string: the number of its bits and the bytes that hold them. -/
structure VarBit where
  bitLen : BitVec 32
  bits : List Byte
  length_bits : bits.length = (bitLen.toNat + 7) / 8

def bitCmp (arg1 arg2 : VarBit) : Ordering :=
  let len := min arg1.bits.length arg2.bits.length
  (memcmp (arg1.bits.take len) (arg2.bits.take len)).then
    (if arg1.bitLen ≠ arg2.bitLen then
      if arg1.bitLen.toInt < arg2.bitLen.toInt then .lt else .gt
    else .eq)

def bitEq (arg1 arg2 : VarBit) : Bool :=
  if arg1.bitLen ≠ arg2.bitLen then false else bitCmp arg1 arg2 == .eq

/-- The walk over two oid vectors of one length. -/
def oidsCmp : List Oid → List Oid → Ordering
  | a :: as, b :: bs => if a ≠ b then (if a > b then .gt else .lt) else oidsCmp as bs
  | _, _ => .eq

def oidvectorEq (a b : List Oid) : Bool :=
  if a.length ≠ b.length then false else oidsCmp a b == .eq

def uuidLen : Nat := 16

structure Uuid where
  data : List Byte
  length_data : data.length = uuidLen

def uuidInternalCmp (arg1 arg2 : Uuid) : Ordering := memcmp arg1.data arg2.data

/-- The types that are object identifiers of some catalog. -/
inductive OidType where
  | oid
  | regproc
  | regprocedure
  | regoper
  | regoperator
  | regclass
  | regtype
deriving DecidableEq, Repr

/-- A value of a type that is no array. -/
inductive Scalar where
  | int2 (value : BitVec 16)
  | int4 (value : BitVec 32)
  | int8 (value : BitVec 64)
  | numeric (value : Numeric)
  | char (value : Byte)
  | bpchar (value : Text)
  | text (value : Text)
  | varchar (value : Text)
  | bytea (value : List Byte)
  | name (value : Name)
  | oid (type : OidType) (value : Oid)
  | enum (type : Oid) (value : Oid)
  | tid (value : Tid)
  | timestamp (value : BitVec 64)
  | timestamptz (value : BitVec 64)
  | date (value : BitVec 32)
  | time (value : BitVec 64)
  | timetz (value : TimeTz)
  | interval (value : Interval)
  | abstime (value : BitVec 32)
  | reltime (value : BitVec 32)
  | tinterval (value : TimeInterval)
  | inet (value : Inet)
  | cidr (value : Inet)
  | macaddr (value : Macaddr)
  | bit (value : VarBit)
  | varbit (value : VarBit)
  | bool (value : Bool)
  | oidvector (value : List Oid)
  | cash (value : BitVec 64)
  | uuid (value : Uuid)

/-- The equality operator of each type, and of int2, int4 and int8 also the
operators between two of them. -/
def Scalar.equal : Scalar → Scalar → Bool
  | .int2 arg1, .int2 arg2 => arg1.toInt == arg2.toInt
  | .int2 arg1, .int4 arg2 => arg1.toInt == arg2.toInt
  | .int2 arg1, .int8 arg2 => arg1.toInt == arg2.toInt
  | .int4 arg1, .int2 arg2 => arg1.toInt == arg2.toInt
  | .int4 arg1, .int4 arg2 => arg1.toInt == arg2.toInt
  | .int4 arg1, .int8 arg2 => arg1.toInt == arg2.toInt
  | .int8 arg1, .int2 arg2 => arg1.toInt == arg2.toInt
  | .int8 arg1, .int4 arg2 => arg1.toInt == arg2.toInt
  | .int8 arg1, .int8 arg2 => arg1.toInt == arg2.toInt
  | .numeric num1, .numeric num2 => cmpNumerics num1 num2 == .eq
  | .char arg1, .char arg2 => arg1 == arg2
  | .bpchar arg1, .bpchar arg2 => bpcharEq arg1 arg2
  | .text arg1, .text arg2 => textEq arg1 arg2
  | .varchar arg1, .varchar arg2 => textEq arg1 arg2
  | .bytea arg1, .bytea arg2 => byteaEq arg1 arg2
  | .name arg1, .name arg2 => nameEq arg1 arg2
  | .oid type1 arg1, .oid type2 arg2 => type1 == type2 && arg1 == arg2
  | .enum type1 a, .enum type2 b => type1 == type2 && a == b
  | .tid arg1, .tid arg2 => itemPointerCompare arg1 arg2 == .eq
  | .timestamp dt1, .timestamp dt2 => dt1 == dt2
  | .timestamptz dt1, .timestamptz dt2 => dt1 == dt2
  | .date dateVal1, .date dateVal2 => dateVal1 == dateVal2
  | .time time1, .time time2 => time1 == time2
  | .timetz time1, .timetz time2 => timetzCmpInternal time1 time2 == .eq
  | .interval interval1, .interval interval2 =>
    intervalCmpInternal interval1 interval2 == .eq
  | .abstime t1, .abstime t2 => abstimeCmpInternal t1 t2 == .eq
  | .reltime t1, .reltime t2 => reltimeCmpInternal t1 t2 == .eq
  | .tinterval i1, .tinterval i2 => tintervalCmpInternal i1 i2 == .eq
  | .inet a1, .inet a2 => networkCmpInternal a1 a2 == .eq
  | .cidr a1, .cidr a2 => networkCmpInternal a1 a2 == .eq
  | .macaddr a1, .macaddr a2 => macaddrCmpInternal a1 a2 == .eq
  | .bit arg1, .bit arg2 => bitEq arg1 arg2
  | .varbit arg1, .varbit arg2 => bitEq arg1 arg2
  | .bool arg1, .bool arg2 => arg1 == arg2
  | .oidvector a, .oidvector b => oidvectorEq a b
  | .cash c1, .cash c2 => c1 == c2
  | .uuid arg1, .uuid arg2 => uuidInternalCmp arg1 arg2 == .eq
  | _, _ => false

/-- The type's row in `pg_type`. -/
def Scalar.typeOid : Scalar → Oid
  | .int2 _ => 21
  | .int4 _ => 23
  | .int8 _ => 20
  | .numeric _ => 1700
  | .char _ => 18
  | .bpchar _ => 1042
  | .text _ => 25
  | .varchar _ => 1043
  | .bytea _ => 17
  | .name _ => 19
  | .oid .oid _ => 26
  | .oid .regproc _ => 24
  | .oid .regprocedure _ => 2202
  | .oid .regoper _ => 2203
  | .oid .regoperator _ => 2204
  | .oid .regclass _ => 2205
  | .oid .regtype _ => 2206
  | .enum type _ => type
  | .tid _ => 27
  | .timestamp _ => 1114
  | .timestamptz _ => 1184
  | .date _ => 1082
  | .time _ => 1083
  | .timetz _ => 1266
  | .interval _ => 1186
  | .abstime _ => 702
  | .reltime _ => 703
  | .tinterval _ => 704
  | .inet _ => 869
  | .cidr _ => 650
  | .macaddr _ => 829
  | .bit _ => 1560
  | .varbit _ => 1562
  | .bool _ => 16
  | .oidvector _ => 30
  | .cash _ => 790
  | .uuid _ => 2950

section

/-- A varlena with its four-byte header, which is kept in network order. -/
def varlena (data : List Byte) : List Byte :=
  beBytes 4 ((data.length + 4) % 2 ^ 30) ++ data

def NumericSign.code : NumericSign → BitVec 16
  | .pos => 0x0000
  | .neg => 0x4000
  | .nan => 0xC000

/-- The digits as they are stored behind the numeric's header. -/
def Numeric.data (num : Numeric) : List Byte := num.digits.flatMap intBytes

def Tid.bytes (tid : Tid) : List Byte :=
  intBytes tid.blockHi ++ intBytes tid.blockLo ++ intBytes tid.posid

def Inet.bytes (value : Inet) : List Byte :=
  value.family.code :: value.bits :: value.ipaddr

def Macaddr.bytes (value : Macaddr) : List Byte :=
  [value.a, value.b, value.c, value.d, value.e, value.f]

def boolByte (value : Bool) : Byte := if value then 1 else 0

/-- A value as it stands among the elements of an array. -/
def Scalar.image : Scalar → List Byte
  | .int2 value => intBytes value
  | .int4 value => intBytes value
  | .int8 value => intBytes value
  | .numeric value =>
    varlena (intBytes (value.sign.code ||| value.dscale.setWidth 16) ++
      intBytes value.weight ++ value.data)
  | .char value => [value]
  | .bpchar value => varlena value.bytes
  | .text value => varlena value.bytes
  | .varchar value => varlena value.bytes
  | .bytea value => varlena value
  | .name value => value.nameStr
  | .oid _ value => intBytes value
  | .enum _ value => intBytes value
  | .tid value => value.bytes
  | .timestamp value => intBytes value
  | .timestamptz value => intBytes value
  | .date value => intBytes value
  | .time value => intBytes value
  | .timetz value => intBytes value.time ++ intBytes value.zone
  | .interval value => intBytes value.time ++ intBytes value.day ++ intBytes value.month
  | .abstime value => intBytes value
  | .reltime value => intBytes value
  | .tinterval value =>
    intBytes value.status ++ intBytes value.start ++ intBytes value.stop
  | .inet value => varlena value.bytes
  | .cidr value => varlena value.bytes
  | .macaddr value => value.bytes
  | .bit value => varlena (intBytes value.bitLen ++ value.bits)
  | .varbit value => varlena (intBytes value.bitLen ++ value.bits)
  | .bool value => [boolByte value]
  | .oidvector value =>
    varlena (intBytes (1 : BitVec 32) ++ intBytes (0 : BitVec 32) ++
      intBytes (26 : BitVec 32) ++ intBytes (BitVec.ofNat 32 value.length) ++
      intBytes (0 : BitVec 32) ++ value.flatMap intBytes)
  | .cash value => intBytes value
  | .uuid value => value.data

/-- `typalign`, in bytes. -/
def Scalar.typalign : Scalar → Nat
  | .char _ | .name _ | .bool _ | .uuid _ => 1
  | .int2 _ | .tid _ => 2
  | .int8 _ | .timestamp _ | .timestamptz _ | .time _ | .timetz _ | .interval _
  | .cash _ => 8
  | _ => 4

def maxdim : Nat := 6

def maxArraySize : Nat := 0x3fffffff / 8

def arrayGetNItems (dims : List (BitVec 32)) : Nat :=
  if dims = [] then 0 else (dims.map BitVec.toNat).prod

/-- An array of one of the scalar types above; other element types are left out.  A NULL
element makes a null bitmap necessary, but an array may also have one in which no bit is
clear. -/
structure ArrayType where
  elemtype : Oid
  dims : List (BitVec 32)
  lbounds : List (BitVec 32)
  hasNullBitmap : Bool
  elems : List (Option Scalar)
  length_dims : dims.length ≤ maxdim
  length_lbounds : lbounds.length = dims.length
  length_elems : elems.length = arrayGetNItems dims
  elems_le : elems.length ≤ maxArraySize
  typed : ∀ elem, some elem ∈ elems → elem.typeOid = elemtype
  bitmap_of_null : none ∈ elems → hasNullBitmap = true

/-- Bit `j` of byte `i` is set when element `8 * i + j` is not NULL. -/
def nullBitmapByte (elems : List (Option Scalar)) (i : Nat) : Byte :=
  (List.range 8).foldl
    (fun byte j => if (elems[8 * i + j]?).join.isSome then byte ||| 1#8 <<< j else byte) 0

def nullBitmap (elems : List (Option Scalar)) : List Byte :=
  (List.range ((elems.length + 7) / 8)).map (nullBitmapByte elems)

def padTo (unit : Nat) (bytes : List Byte) : List Byte :=
  bytes ++ List.replicate (alignUp unit bytes.length - bytes.length) 0

def elementData : Option Scalar → List Byte
  | none => []
  | some elem => padTo elem.typalign elem.image

variable (array : ArrayType)

def ArrayType.data : List Byte := array.elems.flatMap elementData

def ArrayType.bitmap : List Byte :=
  if array.hasNullBitmap then nullBitmap array.elems else []

/-- ARR_OVERHEAD_WITHNULLS and ARR_OVERHEAD_NONULLS. -/
def ArrayType.overhead : Nat :=
  alignUp 8 (16 + 8 * array.dims.length + array.bitmap.length)

/-- The offset of the data, or 0 when there is no null bitmap. -/
def ArrayType.dataoffset : BitVec 32 :=
  if array.hasNullBitmap then BitVec.ofNat 32 array.overhead else 0

/-- The fields between the varlena header and the data. -/
def ArrayType.header : List Byte :=
  intBytes (BitVec.ofNat 32 array.dims.length) ++ intBytes array.dataoffset ++
    intBytes array.elemtype ++ array.dims.flatMap intBytes ++
    array.lbounds.flatMap intBytes ++ array.bitmap ++
    List.replicate (array.overhead - (16 + 8 * array.dims.length + array.bitmap.length)) 0

/-- VARDATA of an array. -/
def ArrayType.contents : List Byte := array.header ++ array.data

/-- The walk of `array_eq` over the elements: two NULLs are equal. -/
def elemsEqual : List (Option Scalar) → List (Option Scalar) → Bool
  | none :: elems1, none :: elems2 => elemsEqual elems1 elems2
  | some elt1 :: elems1, some elt2 :: elems2 =>
    if elt1.equal elt2 then elemsEqual elems1 elems2 else false
  | none :: _, some _ :: _ => false
  | some _ :: _, none :: _ => false
  | _, _ => true

def arrayEq (array1 array2 : ArrayType) : Bool :=
  -- arrays of different element types are no arguments of one operator
  if array1.elemtype ≠ array2.elemtype then false
  else if array1.dims ≠ array2.dims ∨ array1.lbounds ≠ array2.lbounds then false
  else elemsEqual array1.elems array2.elems

end

/-- A value that `hashDatum` is called with. -/
inductive Datum where
  | scalar (value : Scalar)
  | anyarray (value : ArrayType)

def Datum.equal : Datum → Datum → Bool
  | .scalar value1, .scalar value2 => value1.equal value2
  | .anyarray array1, .anyarray array2 => arrayEq array1 array2
  | _, _ => false

/-- Two columns of a distribution key: NULLs count as the same. -/
def columnEqual : Option Datum → Option Datum → Bool
  | none, none => true
  | some datum1, some datum2 => datum1.equal datum2
  | _, _ => false

end Greenplum.CdbHash
