/-
Fuel-bounded reading of a C `while` loop over an arbitrary state.  Running out
of fuel is visible as `none`, so a proof that a loop returns has to exhibit the
fuel that is enough for it.
-/
import Mathlib.Data.Nat.Init
import Mathlib.Tactic.Common

namespace Greenplum

universe u

variable {σ : Type u} {fuel : Nat} {state : σ} {guard : σ → Bool} {body : σ → σ}

/-- Repeat `body` while `guard` holds.  The result is the first state at which
the guard fails, or `none` when the fuel is used up before that. -/
def whileLoop (guard : σ → Bool) (body : σ → σ) : Nat → σ → Option σ
  | 0, _ => none
  | fuel + 1, state =>
    if guard state then whileLoop guard body fuel (body state)
    else some state

theorem whileLoop_of_guard_false (guard : σ → Bool) (body : σ → σ) (hfuel : 0 < fuel)
    (hguard : guard state = false) : whileLoop guard body fuel state = some state := by
  obtain ⟨n, rfl⟩ := Nat.exists_eq_succ_of_ne_zero (Nat.ne_of_gt hfuel)
  simp [whileLoop, hguard]

/-- Total correctness rule: an invariant that the body keeps, together with a
variant that it decreases, gives one final state for every sufficient fuel. -/
theorem whileLoop_total (inv : σ → Prop) (variant : σ → Nat)
    (hstep : ∀ state, inv state → guard state = true →
      inv (body state) ∧ variant (body state) < variant state) (state : σ) (hinv : inv state) :
    ∃ final, inv final ∧ guard final = false ∧ ∀ fuel, variant state < fuel →
        whileLoop guard body fuel state = some final := by
  induction hn : variant state using Nat.strong_induction_on generalizing state with
  | h n ih =>
    cases hguard : guard state with
    | false =>
      refine ⟨state, hinv, hguard, ?_⟩
      intro fuel hfuel
      exact whileLoop_of_guard_false guard body (Nat.zero_lt_of_lt hfuel) hguard
    | true =>
      obtain ⟨hnext, hless⟩ := hstep state hinv hguard
      obtain ⟨final, hfinal, hstop, hrun⟩ :=
        ih (variant (body state)) (hn ▸ hless) (body state) hnext rfl
      refine ⟨final, hfinal, hstop, ?_⟩
      intro fuel hfuel
      obtain ⟨rest, rfl⟩ := Nat.exists_eq_succ_of_ne_zero (Nat.ne_of_gt (Nat.zero_lt_of_lt hfuel))
      rw [whileLoop, if_pos hguard]
      exact hrun rest (by omega)

/-- More fuel does not change the result of a loop that has ended. -/
theorem whileLoop_mono {more : Nat} {final : σ} (hmore : fuel ≤ more)
    (hrun : whileLoop guard body fuel state = some final) :
    whileLoop guard body more state = some final := by
  induction fuel generalizing more state with
  | zero => simp [whileLoop] at hrun
  | succ fuel ih =>
    obtain ⟨rest, rfl⟩ := Nat.exists_eq_succ_of_ne_zero (Nat.ne_of_gt (Nat.zero_lt_of_lt hmore))
    rw [whileLoop] at hrun ⊢
    cases hguard : guard state with
    | false => simpa [hguard] using hrun
    | true =>
      rw [if_pos hguard] at hrun
      exact ih (Nat.le_of_succ_le_succ hmore) hrun

end Greenplum
