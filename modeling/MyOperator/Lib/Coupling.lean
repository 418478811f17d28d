import Mathlib

/-!
# Correcting a proposal

A value is proposed from one distribution and wanted from another. The proposal is
kept with the probability `min 1 (p / q)`, and otherwise replaced by a value that is
drawn proportionally to what the target has more than the proposal. The value that
comes out has the target distribution. Where the proposal is a value fixed in
advance, it is kept with its target probability, and otherwise replaced by another
value proportionally to the target.
-/

namespace MyOperator.Lib

open Finset

variable {α : Type*} [Fintype α]

/-- A distribution on finitely many values. -/
structure FinDist (α : Type*) [Fintype α] where
  prob : α → ℝ
  nonneg : ∀ x, 0 ≤ prob x
  sum_prob : ∑ x, prob x = 1

variable {p q : FinDist α} {ρ : α → α → ℝ} {x d : α}

theorem FinDist.prob_le_one (p : FinDist α) (x : α) : p.prob x ≤ 1 := by
  rw [← p.sum_prob]
  exact single_le_sum (fun y _ => p.nonneg y) (mem_univ x)

/-- The probability that a uniform number of the unit interval is at most `t`, weighing what
happens in either case. -/
theorem integral_unit_ite {t a b : ℝ} (ht : 0 ≤ t) :
    ∫ u in (0 : ℝ)..1, (if u ≤ t then a else b) = min 1 t * a + (1 - min 1 t) * b := by
  have h0 : (0 : ℝ) ≤ min 1 t := le_min zero_le_one ht
  have h1 : min 1 t ≤ 1 := min_le_left _ _
  have hleft : ∫ u in (0 : ℝ)..min 1 t, (if u ≤ t then a else b) = min 1 t * a := by
    rw [intervalIntegral.integral_congr (g := fun _ => a)]
    · rw [intervalIntegral.integral_const, sub_zero, smul_eq_mul]
    · intro u hu
      rw [Set.uIcc_of_le h0] at hu
      exact if_pos (hu.2.trans (min_le_right _ _))
  have hright : ∫ u in (min 1 t)..1, (if u ≤ t then a else b) = (1 - min 1 t) * b := by
    rw [intervalIntegral.integral_congr_ae (g := fun _ => b)]
    · rw [intervalIntegral.integral_const, smul_eq_mul]
    · refine Filter.Eventually.of_forall fun u hu => if_neg ?_
      rw [Set.uIoc_of_le h1] at hu
      -- `u` lies in the interval `(min 1 t, 1]`
      rcases min_lt_iff.mp hu.1 with h | h
      · exact absurd hu.2 (not_le.mpr h)
      · exact not_le.mpr h
  have hint : ∀ c d : ℝ, IntervalIntegrable (fun u => if u ≤ t then a else b)
      MeasureTheory.volume c d := by
    intro c d
    have hconst : IntervalIntegrable (fun _ => max |a| |b|) MeasureTheory.volume c d :=
      intervalIntegrable_const
    refine hconst.mono_fun ?_ ?_
    · exact (Measurable.ite measurableSet_Iic measurable_const
        measurable_const).aestronglyMeasurable
    · refine Filter.Eventually.of_forall fun u => ?_
      show ‖(if u ≤ t then a else b : ℝ)‖ ≤ abs (max |a| |b|)
      rw [Real.norm_eq_abs, abs_of_nonneg (le_max_of_le_left (abs_nonneg a))]
      split_ifs
      · exact le_max_left _ _
      · exact le_max_right _ _
  rw [← intervalIntegral.integral_add_adjacent_intervals (hint 0 (min 1 t)) (hint (min 1 t) 1),
    hleft, hright]

/-- The probability that a proposal is kept. -/
noncomputable def acceptProb (q p : ℝ) : ℝ := if 0 < q then min 1 (p / q) else 0

theorem mul_acceptProb {q p : ℝ} (hq : 0 ≤ q) (hp : 0 ≤ p) : q * acceptProb q p = min q p := by
  unfold acceptProb
  split_ifs with h
  · rw [mul_min_of_nonneg _ _ hq, mul_one, mul_div_cancel₀ _ h.ne']
  · have h0 : q = 0 := le_antisymm (not_lt.mp h) hq
    rw [h0, mul_zero, min_eq_left hp]

theorem min_add_max_sub (q p : ℝ) : min q p + max (p - q) 0 = p := by
  rcases le_total q p with h | h
  · rw [min_eq_left h, max_eq_left (sub_nonneg.mpr h)]
    ring
  · rw [min_eq_right h, max_eq_right (sub_nonpos.mpr h), add_zero]

theorem sum_rejected : ∑ d, q.prob d * (1 - acceptProb (q.prob d) (p.prob d)) =
    ∑ y, max (p.prob y - q.prob y) 0 := by
  have hmin : ∀ y, max (p.prob y - q.prob y) 0 = p.prob y - min (q.prob y) (p.prob y) := fun y =>
    eq_sub_of_add_eq' (min_add_max_sub _ _)
  simp_rw [hmin, mul_sub, mul_one, mul_acceptProb (q.nonneg _) (p.nonneg _),
    sum_sub_distrib, p.sum_prob, q.sum_prob]

theorem sum_accept_or_recover [DecidableEq α]
    (hρ : ∀ d x, ρ d x * ∑ y, max (p.prob y - q.prob y) 0 = max (p.prob x - q.prob x) 0) :
    ∑ d, q.prob d * (acceptProb (q.prob d) (p.prob d) * (if d = x then 1 else 0) +
      (1 - acceptProb (q.prob d) (p.prob d)) * ρ d x) = p.prob x := by
  have hrec : ∀ d, q.prob d * (1 - acceptProb (q.prob d) (p.prob d)) * ρ d x *
      (∑ y, max (p.prob y - q.prob y) 0) =
      q.prob d * (1 - acceptProb (q.prob d) (p.prob d)) * max (p.prob x - q.prob x) 0 := fun d => by
    rw [mul_assoc _ (ρ d x), hρ]
  have hres : ∑ d, q.prob d * (1 - acceptProb (q.prob d) (p.prob d)) * ρ d x =
      max (p.prob x - q.prob x) 0 := by
    by_cases hZ : ∑ y, max (p.prob y - q.prob y) 0 = 0
    · -- nothing is rejected
      have hzero := (sum_eq_zero_iff_of_nonneg fun y _ => le_max_right _ _).mp hZ
      have hrej : ∀ d ∈ Finset.univ, q.prob d * (1 - acceptProb (q.prob d) (p.prob d)) = 0 := by
        rw [← sum_eq_zero_iff_of_nonneg, sum_rejected, hZ]
        intro d _
        rw [mul_sub, mul_one, mul_acceptProb (q.nonneg d) (p.nonneg d)]
        exact sub_nonneg.mpr (min_le_left _ _)
      rw [hzero x (mem_univ x)]
      refine sum_eq_zero fun d hd => ?_
      rw [hrej d hd, zero_mul]
    · refine mul_right_cancel₀ hZ ?_
      rw [sum_mul, sum_congr rfl fun d _ => hrec d, ← sum_mul, sum_rejected, mul_comm]
  calc ∑ d, q.prob d * (acceptProb (q.prob d) (p.prob d) * (if d = x then 1 else 0) +
        (1 - acceptProb (q.prob d) (p.prob d)) * ρ d x)
      = ∑ d, (q.prob d * acceptProb (q.prob d) (p.prob d) * (if d = x then 1 else 0)) +
        ∑ d, q.prob d * (1 - acceptProb (q.prob d) (p.prob d)) * ρ d x := by
        rw [← sum_add_distrib]
        exact sum_congr rfl fun d _ => by ring
    _ = min (q.prob x) (p.prob x) + max (p.prob x - q.prob x) 0 := by
        rw [hres]
        simp [mul_acceptProb (q.nonneg x) (p.nonneg x)]
    _ = p.prob x := min_add_max_sub _ _

theorem sum_others [DecidableEq α] : ∑ y, (if y ≠ d then p.prob y else 0) = 1 - p.prob d := by
  have hdiff : ∀ y, (if y ≠ d then p.prob y else 0) = p.prob y - if y = d then p.prob d else 0 := by
    intro y
    by_cases h : y = d
    · rw [if_neg (not_not.mpr h), if_pos h, h, sub_self]
    · rw [if_pos h, if_neg h, sub_zero]
  simp_rw [hdiff, sum_sub_distrib, p.sum_prob]
  simp

/-- Keeping or replacing a value fixed in advance gives the target distribution, whichever way it
was chosen. -/
theorem sum_keep_or_recover [DecidableEq α]
    (hρ : ∀ d x, ρ d x * ∑ y, (if y ≠ d then p.prob y else 0) = if x ≠ d then p.prob x else 0) :
    ∑ d, q.prob d * (acceptProb 1 (p.prob d) * (if d = x then 1 else 0) +
      (1 - acceptProb 1 (p.prob d)) * ρ d x) = p.prob x := by
  have hstep : ∀ d, acceptProb 1 (p.prob d) * (if d = x then 1 else 0) +
      (1 - acceptProb 1 (p.prob d)) * ρ d x = p.prob x := by
    intro d
    have haccept : acceptProb 1 (p.prob d) = p.prob d := by
      rw [acceptProb, if_pos one_pos, div_one, min_eq_right (p.prob_le_one d)]
    have hrec := hρ d x
    rw [sum_others, mul_comm] at hrec
    rw [haccept, hrec]
    by_cases hdx : d = x
    · rw [if_pos hdx, hdx, if_neg (not_not.mpr rfl), mul_one, add_zero]
    · rw [if_neg hdx, if_pos (Ne.symm hdx), mul_zero, zero_add]
  rw [sum_congr rfl fun d _ => by rw [hstep d], ← sum_mul, q.sum_prob, one_mul]

end MyOperator.Lib
