/-
A ring of `cap` places that holds the elements of a sliding window.  Element
number `seq`, counted from 1, lies at place `(seq - 1) % cap`, and the window
`base < seq ≤ base + cap` moves up by one when its first element is taken.
-/
import Mathlib.Data.Nat.ModEq

namespace Greenplum.RingWindow

universe u

variable {α : Type u}

def place (cap seq : Nat) : Nat := (seq - 1) % cap

structure InWindow (base cap seq : Nat) : Prop where
  above : base < seq
  below : seq ≤ base + cap

theorem place_succ (cap base : Nat) : place cap (base + 1) = base % cap := rfl

theorem place_injOn {base cap left right : Nat} (hleft : InWindow base cap left)
    (hright : InWindow base cap right)
    (hplace : place cap left = place cap right) : left = right := by
  rcases hleft with ⟨hleft, hleft'⟩
  rcases hright with ⟨hright, hright'⟩
  rcases le_total left right with hle | hle
  · have hmod : (right - 1 - (left - 1)) % cap = 0 := Nat.sub_mod_eq_zero_of_mod_eq hplace.symm
    have hlt : right - 1 - (left - 1) < cap := by omega
    rw [Nat.mod_eq_of_lt hlt] at hmod
    omega
  · have hmod : (left - 1 - (right - 1)) % cap = 0 := Nat.sub_mod_eq_zero_of_mod_eq hplace
    have hlt : left - 1 - (right - 1) < cap := by omega
    rw [Nat.mod_eq_of_lt hlt] at hmod
    omega

section

variable (cap : Nat) (ring : Nat → Option α) (seq : Nat)

/-- The element with a number, if it is in the ring. -/
def ringGet : Option α :=
  ring (place cap seq)

theorem ringGet_put_self (value : Option α) :
    ringGet cap (Function.update ring (place cap seq) value) seq = value :=
  Function.update_self ..

/-- Storing one element of the window leaves the others. -/
theorem ringGet_put_of_ne {base cap seq other : Nat} (value : Option α)
    (hseq : InWindow base cap seq) (hother : InWindow base cap other) (hne : other ≠ seq) :
    ringGet cap (Function.update ring (place cap seq) value) other = ringGet cap ring other :=
  Function.update_of_ne (fun hplace => hne (place_injOn hother hseq hplace)) ..

/-- When the first element is taken, its place belongs to the number that
enters the window. -/
theorem ringGet_take_new (base cap : Nat) (ring : Nat → Option α) :
    ringGet cap (Function.update ring (base % cap) none) (base + 1 + cap) = none := by
  have hplace : place cap (base + 1 + cap) = base % cap := by
    rw [place, add_right_comm, Nat.add_sub_cancel, Nat.add_mod_right]
  rw [ringGet, hplace, Function.update_self]

theorem ringGet_take_of_inWindow {base cap seq : Nat} (hseq : InWindow base cap seq)
    (hne : seq ≠ base + 1) :
    ringGet cap (Function.update ring (base % cap) none) seq = ringGet cap ring seq :=
  ringGet_put_of_ne ring none ⟨Nat.lt_succ_self base, by
    have habove := hseq.above
    have hbelow := hseq.below
    omega⟩ hseq hne

end

end Greenplum.RingWindow
