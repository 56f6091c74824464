/-
Hash distribution (`cdbhash.c`): every column of a distribution key feeds one
buffer to an FNV-1 hash, and the hash is reduced to a segment number.
-/
import Greenplum.SqlDatum

namespace Greenplum.CdbHash

def nullVal : BitVec 32 := 0xF0F0F0F1

def nanVal : BitVec 32 := 0xE0E0E0E1

def invalidVal : BitVec 32 := 0xD0D0D0D1

/-- The length after ignoring trailing blanks.  The last character left is kept
in any case. -/
def ignoreblanks (data : List Byte) : Nat → Nat
  | 0 => 0
  | len + 1 =>
    if data[len]? = some blank then
      if len = 1 then 1 else ignoreblanks data len
    else len + 1

/-- The buffer of the blank-insensitive strings. -/
def stringBuffer (bytes : List Byte) : List Byte :=
  if bytes.length > 1 then bytes.take (ignoreblanks bytes bytes.length) else bytes

/-- `inet_getkey`: the family, the netmask bits and the address. -/
def inetGetkey (value : Inet) : List Byte :=
  value.family.code :: value.bits :: value.ipaddr.take value.family.addrsize

/-- The buffer of abstime and reltime. -/
def invalidableBuffer (invalid value : BitVec 32) : List Byte :=
  if value = invalid then intBytes invalidVal else intBytes value

/-- The buffer that `hashDatum` hands to the hash function. -/
def hashScalar : Scalar → List Byte
  | .int2 value => intBytes (value.signExtend 64)
  | .int4 value => intBytes (value.signExtend 64)
  | .int8 value => intBytes value
  | .numeric value => if value.sign = .nan then intBytes nanVal else value.data
  | .char value => [value]
  | .bpchar value => stringBuffer value.bytes
  | .text value => stringBuffer value.bytes
  | .varchar value => stringBuffer value.bytes
  | .bytea value => value
  | .name value => value.nameStr.take (ignoreblanks value.nameStr namedatalen)
  | .oid _ value => intBytes (value.setWidth 64)
  | .enum _ value => intBytes (value.setWidth 64)
  | .tid value => value.bytes
  | .timestamp value => intBytes value
  | .timestamptz value => intBytes value
  | .date value => intBytes value
  | .time value => intBytes value
  | .timetz value => (Scalar.timetz value).image.take (8 + 4)
  -- `sizeof(time) + sizeof(month)` bytes of the structure
  | .interval value => (Scalar.interval value).image.take (8 + 4)
  | .abstime value => invalidableBuffer invalidAbstime value
  | .reltime value => invalidableBuffer invalidReltime value
  | .tinterval value => if value.invalid then intBytes invalidVal else intBytes value.len
  | .inet value => inetGetkey value
  | .cidr value => inetGetkey value
  | .macaddr value => value.bytes
  | .bit value => value.bits
  | .varbit value => value.bits
  | .bool value => [boolByte value]
  | .oidvector value => value.flatMap intBytes
  | .cash value => intBytes value
  | .uuid value => value.data

def hashDatum : Datum → List Byte
  | .scalar value => hashScalar value
  | .anyarray value => value.contents

/-- The buffer of one column: `hashNullDatum` for a NULL. -/
def hashColumn : Option Datum → List Byte
  | none => intBytes nullVal
  | some datum => hashDatum datum

def fnv132Init : BitVec 32 := 0x811c9dc5

/-- One octet: multiply by the FNV prime with shifts, then exclusive or. -/
def fnv1Octet (hval : BitVec 32) (octet : Byte) : BitVec 32 :=
  (hval + ((hval <<< 1) + (hval <<< 4) + (hval <<< 7) + (hval <<< 8) + (hval <<< 24))) ^^^
    octet.setWidth 32

def fnv132Buf (buf : List Byte) (hval : BitVec 32) : BitVec 32 :=
  buf.foldl fnv1Octet hval

inductive ReduceAlg where
  | lazymod
  | bitmask
deriving DecidableEq, Repr

structure Hasher where
  hash : BitVec 32
  numsegs : BitVec 32
  reducealg : ReduceAlg
  rrindex : BitVec 32

def ispowof2 (numsegs : BitVec 32) : Bool := numsegs &&& (numsegs - 1) == 0

/-- `rrindex` is what `cdb_randint` returned. -/
def makeCdbHash (numsegs rrindex : BitVec 32) : Hasher :=
  ⟨0, numsegs, if ispowof2 numsegs then .bitmask else .lazymod, rrindex⟩

def cdbhashinit (h : Hasher) : Hasher := { h with hash := fnv132Init }

def addToCdbHash (h : Hasher) (buf : List Byte) : Hasher :=
  { h with hash := fnv132Buf buf h.hash }

/-- `cdbhash` of a value, `cdbhashnull` of a NULL. -/
def cdbhash (h : Hasher) (column : Option Datum) : Hasher :=
  addToCdbHash h (hashColumn column)

def cdbhashreduce (h : Hasher) : BitVec 32 :=
  match h.reducealg with
  | .bitmask => h.hash &&& (h.numsegs - 1)
  | .lazymod => h.hash % h.numsegs

/-- The segment of the row with this distribution key. -/
def segmentOf (numsegs rrindex : BitVec 32) (key : List (Option Datum)) : BitVec 32 :=
  cdbhashreduce (key.foldl cdbhash (cdbhashinit (makeCdbHash numsegs rrindex)))

end Greenplum.CdbHash
