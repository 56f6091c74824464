/-
Steps that can fail: a sequence of them succeeds if and only if each of them does.
-/
import Mathlib.Tactic.Common

namespace Greenplum.Fallible

universe u v

variable {ε : Type u} {α β : Type v} {first : Except ε α} {rest : α → Except ε β} {result : β}

theorem bind_eq_ok : (first >>= rest) = .ok result ↔
    ∃ value, first = .ok value ∧ rest value = .ok result := by
  cases first with
  | error problem =>
    constructor
    · exact nofun
    · rintro ⟨value, hvalue, _⟩
      exact absurd hvalue nofun
  | ok value =>
    constructor
    · exact fun h => ⟨value, rfl, h⟩
    · rintro ⟨other, hother, h⟩
      cases hother
      exact h

theorem ok_bind (value : α) (rest : α → Except ε β) : (.ok value >>= rest) = rest value :=
  rfl

theorem map_eq_ok {fn : α → β} :
    first.map fn = .ok result ↔ ∃ value, first = .ok value ∧ fn value = result := by
  cases first with
  | error problem => simp [Except.map]
  | ok value => simp [Except.map]

/-- A step that succeeds only if its condition does not hold. -/
theorem ite_error_eq_ok {condition : Prop} [Decidable condition] {problem : ε}
    {other : Except ε α} {value : α} :
    (if condition then .error problem else other) = .ok value ↔
      ¬ condition ∧ other = .ok value := by
  by_cases hcondition : condition
  · rw [if_pos hcondition]
    exact ⟨nofun, fun h => absurd hcondition h.1⟩
  · rw [if_neg hcondition]
    exact ⟨fun h => ⟨hcondition, h⟩, fun h => h.2⟩

section

variable {allowed : ε → Prop} {post : α → Prop} {afterwards : β → Prop}

/-- The step ends with a result as described or with an error that is allowed. -/
def Yields (allowed : ε → Prop) (step : Except ε α) (post : α → Prop) : Prop :=
  match step with
  | .ok value => post value
  | .error problem => allowed problem

theorem Yields.bind (h : Yields allowed first post)
    (hrest : ∀ value, post value → Yields allowed (rest value) afterwards) :
    Yields allowed (first >>= rest) afterwards := by
  cases first with
  | error problem => exact h
  | ok value => exact hrest value h

end

end Greenplum.Fallible
