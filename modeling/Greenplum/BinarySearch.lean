/-
Binary search over places of a table that are known by a probe only: the probe
says whether a place lies before the wanted one, is it, or lies behind it.
-/
import Mathlib.Order.Basic

namespace Greenplum.BinarySearch

/-- What a search ends with: a place, or the border between before and behind. -/
inductive Outcome where
  | hit (mid : Nat)
  | miss (start : Nat)
deriving Repr, DecidableEq

/-- Search from `start` to before `stop`. -/
def search (probe : Nat → Ordering) : Nat → Nat → Nat → Outcome
  | 0, start, _ => .miss start
  | fuel + 1, start, stop =>
    if start < stop then
      let mid := start + (stop - start) / 2
      match probe mid with
      | .gt => search probe fuel start mid
      | .lt => search probe fuel (mid + 1) stop
      | .eq => .hit mid
    else .miss start

section

variable (probe : Nat → Ordering) (count : Nat)

/-- The places before come first, the places behind come last. -/
structure Ordered : Prop where
  before : ∀ {i j}, i < j → j < count → probe j = .lt → probe i = .lt
  behind : ∀ {i j}, i < j → j < count → probe i = .gt → probe j = .gt

/-- All places below `start` lie before, all places from `stop` on behind. -/
structure Between (start stop : Nat) : Prop where
  before : ∀ i < start, probe i = .lt
  behind : ∀ i, stop ≤ i → i < count → probe i = .gt

/-- What an outcome says about the table. -/
def Outcome.Correct : Outcome → Prop
  | .hit mid => mid < count ∧ probe mid = .eq
  | .miss start => start ≤ count ∧ Between probe count start start

end

variable {probe : Nat → Ordering} {count : Nat}

section

variable {start stop mid : Nat}

theorem Between.all : Between probe count 0 count :=
  ⟨fun i hi => absurd hi (Nat.not_lt_zero i), fun _ hi hicount => absurd hicount
    (Nat.not_lt.mpr hi)⟩

theorem Between.up (h : Between probe count start stop) (hordered : Ordered probe count)
    (hmid : mid < count) (hprobe : probe mid = .lt) : Between probe count (mid + 1) stop := by
  refine ⟨fun i hi => ?_, h.behind⟩
  rcases Nat.eq_or_lt_of_le (Nat.le_of_lt_succ hi) with rfl | hlt
  · exact hprobe
  · exact hordered.before hlt hmid hprobe

theorem Between.down (h : Between probe count start stop) (hordered : Ordered probe count)
    (hprobe : probe mid = .gt) : Between probe count start mid := by
  refine ⟨h.before, fun i hi hicount => ?_⟩
  rcases Nat.eq_or_lt_of_le hi with rfl | hgt
  · exact hprobe
  · exact hordered.behind hgt hicount hprobe

theorem Between.missed (h : Between probe count start start) {i : Nat} (hi : i < count) :
    probe i ≠ .eq := by
  intro heq
  rcases Nat.lt_or_ge i start with hlt | hge
  · cases heq.symm.trans (h.before i hlt)
  · cases heq.symm.trans (h.behind i hge hi)

end

theorem search_correct (hordered : Ordered probe count) :
    ∀ {fuel start stop : Nat}, stop - start ≤ fuel → start ≤ stop → stop ≤ count →
      Between probe count start stop → (search probe fuel start stop).Correct probe count := by
  intro fuel
  induction fuel with
  | zero =>
    intro start stop hfuel hle hcount hbetween
    obtain rfl : start = stop := by omega
    exact ⟨hcount, hbetween⟩
  | succ fuel ih =>
    intro start stop hfuel hle hcount hbetween
    rw [search]
    by_cases hlt : start < stop
    · rw [if_pos hlt]
      have hmid : start + (stop - start) / 2 < stop := by omega
      generalize hdef : start + (stop - start) / 2 = mid at hmid
      have hstart : start ≤ mid := by omega
      dsimp only
      cases hprobe : probe mid with
      | gt => exact ih (by omega) hstart (by omega) (hbetween.down hordered hprobe)
      | lt => exact ih (by omega) hmid hcount (hbetween.up hordered (by omega) hprobe)
      | eq => exact ⟨by omega, hprobe⟩
    · rw [if_neg hlt]
      obtain rfl : start = stop := by omega
      exact ⟨hcount, hbetween⟩

theorem search_all (hordered : Ordered probe count) :
    (search probe count 0 count).Correct probe count :=
  search_correct hordered (Nat.sub_le _ _) (Nat.zero_le _) (Nat.le_refl _) .all

theorem search_eq_miss (hbefore : ∀ i < count, probe i = .lt) :
    search probe count 0 count = .miss count := by
  have hordered : Ordered probe count := by
    refine ⟨fun hlt hj _ => hbefore _ (Nat.lt_trans hlt hj), fun hlt hj hgt => ?_⟩
    rw [hbefore _ (Nat.lt_trans hlt hj)] at hgt
    cases hgt
  have hcorrect := search_all hordered
  cases hsearch : search probe count 0 count with
  | hit mid =>
    rw [hsearch] at hcorrect
    have hlt := hbefore mid hcorrect.1
    rw [hcorrect.2] at hlt
    cases hlt
  | miss start =>
    rw [hsearch] at hcorrect
    obtain ⟨hle, hbetween⟩ := hcorrect
    rcases Nat.eq_or_lt_of_le hle with rfl | hlt
    · rfl
    · have hgt := hbetween.behind start (Nat.le_refl _) hlt
      rw [hbefore start hlt] at hgt
      cases hgt

end Greenplum.BinarySearch
