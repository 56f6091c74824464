/-
A table whose rows are known by a key.  `updateRow` changes the first row with
a given key, as an update through a unique index does.
-/
import Mathlib.Data.List.Nodup

namespace Greenplum.KeyedRows

open List

universe u v

variable {α : Type u} {κ : Type v} [DecidableEq κ] (key : α → κ)

/-- Change the row with this key; `none` when there is no such row. -/
def updateRow (wanted : κ) (change : α → α) : List α → Option (List α)
  | [] => none
  | row :: rest =>
    if key row = wanted then some (change row :: rest)
    else (updateRow wanted change rest).map (row :: ·)

variable {key}

/-- The row is changed and every other row stays. -/
theorem updateRow_spec {rows : List α} {row : α} {change : α → α}
    (hkeys : (rows.map key).Nodup) (hrow : row ∈ rows) (hsame : key (change row) = key row) :
    ∃ after, updateRow key (key row) change rows = some after ∧ after.map key = rows.map key ∧
      ∀ other, other ∈ after ↔ (other ∈ rows ∧ key other ≠ key row) ∨ other = change row := by
  induction rows with
  | nil => cases hrow
  | cons first rest ih =>
    rw [map_cons, nodup_cons] at hkeys
    have hfresh : ∀ other ∈ rest, key other ≠ key first :=
      fun other hmem heq => hkeys.1 (heq ▸ mem_map_of_mem hmem)
    by_cases hfirst : key first = key row
    · have hfound : first = row := by
        rcases mem_cons.mp hrow with heq | hlater
        · exact heq.symm
        · exact absurd hfirst.symm (hfresh row hlater)
      subst hfound
      refine ⟨change first :: rest, by rw [updateRow, if_pos rfl], ?_, ?_⟩
      · rw [map_cons, map_cons, hsame]
      · intro other
        rw [mem_cons, mem_cons]
        constructor
        · rintro (heq | hmem)
          · exact .inr heq
          · exact .inl ⟨.inr hmem, hfresh other hmem⟩
        · rintro (⟨heq | hmem, hne⟩ | heq)
          · exact absurd (congrArg key heq) hne
          · exact .inr hmem
          · exact .inl heq
    · have hlater : row ∈ rest := by
        rcases mem_cons.mp hrow with heq | hlater
        · exact absurd (congrArg key heq.symm) hfirst
        · exact hlater
      rcases ih hkeys.2 hlater with ⟨after, hafter, hmap, hmem⟩
      refine ⟨first :: after, ?_, ?_, ?_⟩
      · rw [updateRow, if_neg hfirst, hafter]
        rfl
      · rw [map_cons, map_cons, hmap]
      · intro other
        rw [mem_cons, mem_cons, hmem]
        constructor
        · rintro (heq | ⟨hold, hne⟩ | hnew)
          · exact .inl ⟨.inl heq, heq ▸ hfirst⟩
          · exact .inl ⟨.inr hold, hne⟩
          · exact .inr hnew
        · rintro (⟨heq | hold, hne⟩ | hnew)
          · exact .inl heq
          · exact .inr (.inl ⟨hold, hne⟩)
          · exact .inr (.inr hnew)

end Greenplum.KeyedRows
