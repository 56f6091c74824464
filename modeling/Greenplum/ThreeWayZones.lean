/-
The zones of a three-way partition, as the classes of its cells: what is equal to
the pivot is collected at the end of the range first and pushed to the middle
afterwards.  Both are stated for the left end; the right end is its mirror image.
-/
import Mathlib.Tactic.Common

namespace Greenplum.ThreeWayZones

/-- The classes of the cells, seen from the other end. -/
def mirror (classes : Int → Option Ordering) : Int → Option Ordering :=
  fun k => classes (-k)

/-- All cells from `lo` to `hi` are of one class. -/
def Zone (classes : Int → Option Ordering) (lo hi : Int) (o : Ordering) : Prop :=
  ∀ k, lo ≤ k → k ≤ hi → classes k = some o

/-- Two cells have changed places. -/
def Swapped (classes next : Int → Option Ordering) (i j : Int) : Prop :=
  ∀ k, next k = if k = j then classes i else if k = i then classes j else classes k

variable {classes next : Int → Option Ordering} {lo hi i j : Int} {o : Ordering}

theorem Zone.ofMirror (h : Zone (ThreeWayZones.mirror classes) (-hi) (-lo) o) :
    Zone classes lo hi o := by
  intro k hlow hhigh
  have hk := h (-k) (by omega) (by omega)
  unfold ThreeWayZones.mirror at hk
  rw [Int.neg_neg] at hk
  exact hk

theorem Swapped.mirror (h : Swapped classes next i j) :
    Swapped (ThreeWayZones.mirror classes) (ThreeWayZones.mirror next) (-i) (-j) := by
  intro k
  have hj : -k = j ↔ k = -j := by omega
  have hi : -k = i ↔ k = -i := by omega
  unfold ThreeWayZones.mirror
  rw [h, Int.neg_neg, Int.neg_neg]
  simp [hj, hi]

theorem Swapped.symm (h : Swapped classes next i j) : Swapped classes next j i := by
  intro k
  rw [h]
  by_cases hj : k = j
  · by_cases hi : k = i
    · rw [if_pos hj, if_pos hi, ← hi, ← hj]
    · rw [if_pos hj, if_neg hi, if_pos hj]
  · rw [if_neg hj, if_neg hj]

theorem Zone.congr (h : Zone classes lo hi o) (hsame : ∀ k, lo ≤ k → k ≤ hi → next k = classes k) :
    Zone next lo hi o := by
  intro k hlow hhigh
  rw [hsame k hlow hhigh]
  exact h k hlow hhigh

theorem Zone.append {middle : Int} (hfirst : Zone classes lo middle o)
    (hsecond : Zone classes (middle + 1) hi o) : Zone classes lo hi o := by
  intro k hlow hhigh
  by_cases hk : k ≤ middle
  · exact hfirst k hlow hk
  · exact hsecond k (by omega) hhigh

/-- The left end while it is scanned: equal entries up to `p`, then entries of the
class that belongs there up to `i`. -/
structure Scanned (classes : Int → Option Ordering) (o : Ordering) (left p i : Int) : Prop where
  low : left - 1 ≤ p
  high : p ≤ i
  equal : Zone classes left p .eq
  proper : Zone classes (p + 1) i o

namespace Scanned

variable {classes next : Int → Option Ordering} {o : Ordering} {left p i : Int}

theorem start (classes : Int → Option Ordering) (o : Ordering) (left : Int) :
    Scanned classes o left (left - 1) (left - 1) where
  low := Int.le_refl _
  high := Int.le_refl _
  equal := by
    intro k hlow hhigh
    omega
  proper := by
    intro k hlow hhigh
    omega

variable (h : Scanned classes o left p i)

include h

theorem skip (hclass : classes (i + 1) = some o) : Scanned classes o left p (i + 1) where
  low := h.low
  high := by
    have hhigh := h.high
    omega
  equal := h.equal
  proper := by
    intro k hlow hhigh
    by_cases hk : k = i + 1
    · rw [hk]
      exact hclass
    · exact h.proper k hlow (by omega)

/-- An equal entry changes places with the first proper one. -/
theorem collect (hclass : classes (i + 1) = some .eq)
    (hswap : Swapped classes next (p + 1) (i + 1)) : Scanned next o left (p + 1) (i + 1) where
  low := by
    have hlow := h.low
    omega
  high := by
    have hhigh := h.high
    omega
  equal := by
    intro k hlow hhigh
    have hpi := h.high
    by_cases hk : k = p + 1
    · rw [hswap k]
      split_ifs with hlast
      · -- there is no proper entry yet
        have hp : p + 1 = i + 1 := by omega
        rw [hp]
        exact hclass
      · exact hclass
    · rw [hswap k, if_neg (by omega), if_neg hk]
      exact h.equal k hlow (by omega)
  proper := by
    intro k hlow hhigh
    rw [hswap k]
    by_cases hk : k = i + 1
    · rw [if_pos hk]
      exact h.proper (p + 1) (Int.le_refl _) (by omega)
    · rw [if_neg hk, if_neg (by omega)]
      exact h.proper k (by omega) (by omega)

theorem congr (hsame : ∀ k, left ≤ k → k ≤ i → next k = classes k) : Scanned next o left p i where
  low := h.low
  high := h.high
  equal := by
    have hhigh := h.high
    exact h.equal.congr (fun k hlow hk => hsame k hlow (by omega))
  proper := by
    have hlow := h.low
    exact h.proper.congr (fun k hk hhigh => hsame k (by omega) hhigh)

end Scanned

/-- The left end while equal entries are pushed from its beginning to its end `last`:
`k` goes up and `i` goes down.  Where they cross, equal entries change places with equal
ones. -/
structure Pushed (classes : Int → Option Ordering) (o : Ordering) (left p last k i : Int) :
    Prop where
  low : left ≤ k
  high : k ≤ p + 1
  fits : p ≤ last
  sum : k + i = left + last
  pushed : Zone classes left (min k (left + last - p) - 1) o
  waiting : Zone classes (min k (left + last - p)) p .eq
  proper : Zone classes (p + 1) i o
  collected : Zone classes (max (i + 1) (p + 1)) last .eq

namespace Pushed

variable {classes next : Int → Option Ordering} {o : Ordering} {left p last k i : Int}

theorem start (h : Scanned classes o left p last) : Pushed classes o left p last left last where
  low := Int.le_refl _
  high := by
    have hlow := h.low
    omega
  fits := h.high
  sum := rfl
  pushed := by
    intro j hlow hhigh
    omega
  waiting := by
    have hfits := h.high
    intro j hlow hhigh
    exact h.equal j (by omega) hhigh
  proper := h.proper
  collected := by
    intro j hlow hhigh
    omega

variable (h : Pushed classes o left p last k i)

include h

/-- While a proper entry is left, it takes the place of an equal one. -/
theorem step_proper (hk : k ≤ p) (hi : p < i)
    (hswap : Swapped classes next k i) : Pushed next o left p last (k + 1) (i - 1) := by
  have hlow := h.low
  have hsum := h.sum
  have hfirst : classes k = some .eq := h.waiting k (by omega) hk
  have hlast : classes i = some o := h.proper i (by omega) (Int.le_refl i)
  constructor
  · omega
  · omega
  · exact h.fits
  · omega
  · intro j hjLow hjHigh
    rw [hswap j, if_neg (by omega)]
    split_ifs with hj
    · exact hlast
    · exact h.pushed j hjLow (by omega)
  · intro j hjLow hjHigh
    rw [hswap j, if_neg (by omega), if_neg (by omega)]
    exact h.waiting j (by omega) hjHigh
  · intro j hjLow hjHigh
    rw [hswap j, if_neg (by omega), if_neg (by omega)]
    exact h.proper j hjLow (by omega)
  · intro j hjLow hjHigh
    rw [hswap j]
    split_ifs with hji hjk
    · exact hfirst
    · omega
    · exact h.collected j (by omega) hjHigh

/-- After that only equal entries change places. -/
theorem step_equal (hk : k ≤ p) (hi : i ≤ p)
    (hswap : Swapped classes next k i) : Pushed next o left p last (k + 1) (i - 1) := by
  have hlow := h.low
  have hsum := h.sum
  have hfirst : classes k = some .eq := h.waiting k (by omega) hk
  have hlast : classes i = some .eq := h.waiting i (by omega) hi
  have hsame : next = classes := by
    funext j
    rw [hswap j]
    split_ifs with hji hjk
    · rw [hji, hfirst, hlast]
    · rw [hjk, hfirst, hlast]
    · rfl
  rw [hsame]
  constructor
  · omega
  · omega
  · exact h.fits
  · omega
  · intro j hjLow hjHigh
    exact h.pushed j hjLow (by omega)
  · intro j hjLow hjHigh
    exact h.waiting j (by omega) hjHigh
  · intro j hjLow hjHigh
    omega
  · intro j hjLow hjHigh
    exact h.collected j (by omega) hjHigh

theorem step (hk : k ≤ p)
    (hswap : Swapped classes next k i) : Pushed next o left p last (k + 1) (i - 1) := by
  by_cases hi : p < i
  · exact h.step_proper hk hi hswap
  · exact h.step_equal hk (by omega) hswap

/-- In the end all proper entries come first. -/
theorem finish (hk : ¬ k ≤ p) : Zone classes left i o ∧ Zone classes (i + 1) last .eq := by
  have hhigh := h.high
  have hsum := h.sum
  constructor
  · intro j hjLow hjHigh
    by_cases hj : j ≤ p
    · exact h.pushed j hjLow (by omega)
    · exact h.proper j (by omega) hjHigh
  · intro j hjLow hjHigh
    by_cases hj : j ≤ p
    · exact h.waiting j (by omega) hj
    · exact h.collected j (by omega) hjHigh

end Pushed

end Greenplum.ThreeWayZones
