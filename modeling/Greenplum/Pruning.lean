/-
Deleting unsupported elements from a finite collection.  When support can only
shrink with the collection, every exhaustive order of deletions ends in the
same place: the largest collection all of whose elements support each other.
-/
import Mathlib.Data.Fintype.Pigeonhole
import Mathlib.Order.Bounds.Basic

namespace Greenplum

open Finset

universe u v

variable {E : Type u} {V : Type v}

/-- Every element is supported by the collection it belongs to. -/
def SelfSupporting (support : Set V → V → Prop) (values : Set V) : Prop :=
  ∀ value ∈ values, support values value

/-- A run of single deletions.  Elements carry values, several elements may
carry the same one, and support only looks at values. -/
inductive Prunes [DecidableEq E] (support : Set V → V → Prop) (value : E → V) :
    Finset E → Finset E → Prop
  | refl (items : Finset E) : Prunes support value items items
  | delete {first last : Finset E} (item : E) (run : Prunes support value first last)
      (unsupported : ¬ support (value '' ↑last) (value item)) :
      Prunes support value first (last.erase item)

section

variable [DecidableEq E] {support : Set V → V → Prop} {value : E → V} {first last : Finset E}

theorem Prunes.trans {middle : Finset E} (hfirst : Prunes support value first middle)
    (hlast : Prunes support value middle last) : Prunes support value first last := by
  induction hlast with
  | refl => exact hfirst
  | delete item _ hunsupported ih => exact ih.delete item hunsupported

theorem Prunes.subset (hrun : Prunes support value first last) : last ⊆ first := by
  induction hrun with
  | refl => exact Finset.Subset.refl _
  | delete item _ _ ih => exact (erase_subset item _).trans ih

variable (hmono : ∀ ⦃small large : Set V⦄, small ⊆ large →
  ∀ item, support small item → support large item)

include hmono

/-- Elements unsupported at the start of a batch stay unsupported while the
batch is deleted, so the whole batch is one run. -/
theorem Prunes.delete_list {items : Finset E} (batch : List E)
    (hbatch : ∀ item ∈ batch, ¬ support (value '' ↑items) (value item)) :
    Prunes support value items (items \ batch.toFinset) := by
  induction batch using List.reverseRecOn with
  | nil => simpa using Prunes.refl items
  | append_singleton front item ih =>
    have hfront : Prunes support value items (items \ front.toFinset) :=
      ih fun other hother => hbatch other (by simp [hother])
    have hitem : ¬ support (value '' ↑(items \ front.toFinset)) (value item) := by
      intro hsupport
      refine hbatch item (by simp) (hmono ?_ _ hsupport)
      exact Set.image_mono (by exact_mod_cast sdiff_subset)
    have heq : items \ (front ++ [item]).toFinset = (items \ front.toFinset).erase item := by
      ext other
      simp
      tauto
    rw [heq]
    exact hfront.delete item hitem

variable (hrun : Prunes support value first last)

include hrun

theorem Prunes.selfSupporting_subset {part : Finset E} (hpart : part ⊆ first)
    (hself : SelfSupporting support (value '' ↑part)) : part ⊆ last := by
  induction hrun with
  | refl => exact hpart
  | delete item _ hunsupported ih =>
    intro other hother
    refine mem_erase.mpr ⟨?_, ih hother⟩
    rintro rfl
    apply hunsupported
    refine hmono (Set.image_mono (by exact_mod_cast ih)) _ ?_
    exact hself _ ⟨other, by simpa using hother, rfl⟩

/-- Values that support each other and are carried by the collection are still
carried by it after any run. -/
theorem Prunes.subset_image {values : Set V}
    (hvalues : values ⊆ value '' ↑first) (hself : SelfSupporting support values) :
    values ⊆ value '' ↑last := by
  classical
  let part : Finset E := first.filter fun item => value item ∈ values
  have himage : value '' ↑part = values := by
    ext v
    constructor
    · rintro ⟨item, hitem, rfl⟩
      exact (mem_filter.mp hitem).2
    · intro hv
      obtain ⟨item, hitem, rfl⟩ := hvalues hv
      exact ⟨item, mem_filter.mpr ⟨hitem, hv⟩, rfl⟩
  have hpart : part ⊆ last := hrun.selfSupporting_subset hmono (filter_subset _ _)
      (himage.symm ▸ hself)
  rw [← himage]
  exact Set.image_mono (by exact_mod_cast hpart)

/-- An exhaustive run computes the largest self-supporting sub-multiset of the
values it started from, whatever the order of its deletions. -/
theorem Prunes.isGreatest [DecidableEq V] (hstable : SelfSupporting support (value '' ↑last)) :
    IsGreatest { part : Multiset V |
        part ≤ first.val.map value ∧ SelfSupporting support { v | v ∈ part } }
      (last.val.map value) := by
  constructor
  · refine ⟨Multiset.map_le_map (val_le_iff.mpr hrun.subset), ?_⟩
    have hset : { v | v ∈ last.val.map value } = value '' ↑last := by
      ext v
      simp
    rw [hset]
    exact hstable
  · rintro part ⟨hle, hself⟩
    let kept : Finset E := first.filter fun item => value item ∈ part
    have himage : value '' ↑kept = { v | v ∈ part } := by
      ext v
      simp only [kept, Set.mem_image, coe_filter, Set.mem_ofPred_eq]
      constructor
      · rintro ⟨item, ⟨_, hitem⟩, rfl⟩
        exact hitem
      · intro hv
        obtain ⟨item, hitem, rfl⟩ := Multiset.mem_map.mp (Multiset.mem_of_le hle hv)
        exact ⟨item, ⟨hitem, hv⟩, rfl⟩
    have hkept : kept ⊆ last := hrun.selfSupporting_subset hmono (filter_subset _ _)
        (himage ▸ hself)
    have hcount : part ≤ kept.val.map value := by
      rw [Multiset.le_iff_count]
      intro v
      by_cases hv : v ∈ part
      · have hsame : (kept.val.map value).count v = (first.val.map value).count v := by
          simp only [Multiset.count_map, kept, filter_val, Multiset.filter_filter]
          congr 1
          refine Multiset.filter_congr fun item _ => ?_
          constructor
          · rintro ⟨heq, _⟩
            exact heq
          · rintro rfl
            exact ⟨rfl, hv⟩
        rw [hsame]
        exact Multiset.count_le_of_le v hle
      · rw [Multiset.count_eq_zero_of_notMem hv]
        exact Nat.zero_le _
    exact hcount.trans (Multiset.map_le_map (val_le_iff.mpr hkept))

end

/-- A map of a finite nonempty collection into itself runs into a cycle. -/
theorem exists_cyclic_orbit {items : Finset E} (next : E → E)
    (hnext : ∀ item ∈ items, next item ∈ items) (hne : items.Nonempty) :
    ∃ (n : Nat) (orbit : Fin (n + 1) → E),
      ∀ i, orbit i ∈ items ∧ orbit (i + 1) = next (orbit i) := by
  obtain ⟨start, hstart⟩ := hne
  have hmem : ∀ k, next^[k] start ∈ items := by
    intro k
    induction k with
    | zero => simpa using hstart
    | succ k ih =>
      rw [Function.iterate_succ_apply']
      exact hnext _ ih
  obtain ⟨i, j, hij, heq⟩ := Finite.exists_ne_map_eq_of_infinite
      (fun k : Nat => (⟨next^[k] start, hmem k⟩ : items))
  have hiter : ∀ i j : Nat, i < j → next^[i] start = next^[j] start →
      ∃ (n : Nat) (orbit : Fin (n + 1) → E),
        ∀ k, orbit k ∈ items ∧ orbit (k + 1) = next (orbit k) := by
    intro i j hlt hsame
    obtain ⟨n, rfl⟩ := Nat.exists_eq_add_of_lt hlt
    refine ⟨n, fun k => next^[i + k] start, fun k => ⟨hmem _, ?_⟩⟩
    rw [← Function.iterate_succ_apply' next]
    by_cases hlast : k = Fin.last n
    · subst hlast
      simp only [Fin.last_add_one, Fin.val_zero, Fin.val_last, add_zero]
      exact hsame
    · have hval : ((k + 1 : Fin (n + 1)) : Nat) = k + 1 :=
        Fin.val_add_one_of_lt (Fin.lt_last_iff_ne_last.mpr hlast)
      change next^[i + ((k + 1 : Fin (n + 1)) : Nat)] start = _
      rw [hval]
      rfl
  have hvals : next^[i] start = next^[j] start := congrArg Subtype.val heq
  rcases Nat.lt_or_gt_of_ne hij with hlt | hgt
  · exact hiter i j hlt hvals
  · exact hiter j i hgt hvals.symm

end Greenplum
