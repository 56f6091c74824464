/-
A log of records that are written one behind the other.  A record is found again
by the offset at which it starts, also after more records were appended.
-/
import Mathlib.Data.List.Basic

namespace Greenplum.RecordLog

open List

universe u v

variable {α : Type u} {β : Type v} (encode : α → List β) {i j : Nat} {records : List α} {record : α}

/-- The cells of all records. -/
def image (records : List α) : List β := records.flatMap encode

/-- Where record `i` starts. -/
def start (records : List α) (i : Nat) : Nat := (image encode (records.take i)).length

variable {encode}

section

variable (records more : List α)

theorem image_append : image encode (records ++ more) = image encode records ++ image encode more :=
  flatMap_append

theorem image_snoc (record : α) :
    image encode (records ++ [record]) = image encode records ++ encode record := by
  rw [image_append, image, image, flatMap_singleton]

theorem start_length : start encode records records.length = (image encode records).length := by
  rw [start, take_length]

theorem start_append (hi : i ≤ records.length) :
    start encode (records ++ more) i = start encode records i := by
  rw [start, take_append_of_le_length hi, start]

end

variable (encode) in
/-- The starts of all records in a log that begins at `base`. -/
def starts : Nat → List α → List Nat
  | _, [] => []
  | base, record :: rest => base :: starts (base + (encode record).length) rest

theorem starts_append (base : Nat) (records more : List α) :
    starts encode base (records ++ more) = starts encode base records ++
      starts encode (base + (image encode records).length) more := by
  induction records generalizing base with
  | nil => rfl
  | cons record rest ih =>
    rw [cons_append, starts, ih, starts, cons_append, image, image,
      flatMap_cons, length_append, Nat.add_assoc]

theorem image_split (records : List α) (i : Nat) :
    image encode records = image encode (records.take i) ++ image encode (records.drop i) := by
  rw [← image_append, take_append_drop]

theorem drop_start (records : List α) (i : Nat) :
    (image encode records).drop (start encode records i) = image encode (records.drop i) := by
  rw [image_split records i, start, drop_left]

theorem drop_start_of_getElem? (hrecord : records[i]? = some record) :
    (image encode records).drop (start encode records i) =
      encode record ++ image encode (records.drop (i + 1)) := by
  rcases List.getElem?_eq_some_iff.mp hrecord with ⟨hi, rfl⟩
  rw [drop_start, drop_eq_getElem_cons hi, image, flatMap_cons]
  rfl

theorem start_succ (hrecord : records[i]? = some record) :
    start encode records (i + 1) = start encode records i + (encode record).length := by
  rw [start, take_add_one, hrecord, Option.toList_some, image_snoc, length_append, start]

theorem start_le_length (records : List α) (i : Nat) :
    start encode records i ≤ (image encode records).length := by
  rw [image_split records i, start, length_append]
  exact Nat.le_add_right _ _

theorem start_mono (records : List α) (hle : i ≤ j) :
    start encode records i ≤ start encode records j := by
  have htake : records.take i = (records.take j).take i := by
    rw [take_take, Nat.min_eq_left hle]
  rw [start, htake]
  exact start_le_length (records.take j) i

variable (hcells : ∀ record ∈ records, encode record ≠ [])

include hcells

theorem start_lt (hlt : i < j) (hj : j ≤ records.length) :
    start encode records i < start encode records j := by
  have hi : i < records.length := by omega
  have hne := hcells records[i] (getElem_mem hi)
  have hnext : start encode records (i + 1) = start encode records i + (encode records[i]).length :=
    start_succ (getElem?_eq_getElem hi)
  have hmono : start encode records (i + 1) ≤ start encode records j := start_mono records hlt
  have hpos := length_pos_iff.mpr hne
  omega

theorem length_le_length_image : records.length ≤ (image encode records).length := by
  induction records with
  | nil => exact Nat.zero_le _
  | cons record records ih =>
    have hpos := length_pos_iff.mpr (hcells record mem_cons_self)
    have hrest := ih fun other hother => hcells other (mem_cons_of_mem record hother)
    unfold image at hrest ⊢
    rw [flatMap_cons, length_append, length_cons]
    omega

theorem start_inj (hi : i < records.length) (hj : j < records.length)
    (heq : start encode records i = start encode records j) : i = j := by
  rcases Nat.lt_trichotomy i j with hlt | rfl | hlt
  · exact absurd heq (Nat.ne_of_lt (start_lt hcells hlt (Nat.le_of_lt hj)))
  · rfl
  · exact absurd heq.symm (Nat.ne_of_lt (start_lt hcells hlt (Nat.le_of_lt hi)))

end Greenplum.RecordLog
