import Mathlib

/-!
# Slices of a sequence

`start:stop:step` over a sequence of `n` elements, as Python takes it: a negative
bound counts from the end, a bound outside the sequence is pulled to its edge, an
omitted bound is the edge the step comes from or goes to. What is left is a plain
arithmetic sequence inside `[0, n)`.
-/

namespace MyOperator.Lib

/-- An explicit range: `start`, `start + step`, … as long as `stop` is not reached. -/
structure SliceRange where
  start : Int
  stop : Int
  step : Int
deriving DecidableEq, Repr

namespace SliceRange

/-- The number of elements of a range with a nonzero step. -/
def length (r : SliceRange) : Int :=
  if r.step < 0 then
    if r.stop < r.start then (r.start - r.stop - 1) / (-r.step) + 1 else 0
  else
    if r.start < r.stop then (r.stop - r.start - 1) / r.step + 1 else 0

/-- The element at one position. -/
def get (r : SliceRange) (k : Nat) : Int := r.start + k * r.step

/-- A bound of a slice over `n` elements, pulled into the sequence. -/
def adjust (n step x : Int) : Int :=
  if x < 0 then
    if x + n < 0 then (if step < 0 then -1 else 0) else x + n
  else
    if n ≤ x then (if step < 0 then n - 1 else n) else x

/-- `start:stop:step` over `n` elements, each bound possibly omitted. -/
def ofSlice (n : Int) (start stop : Option Int) (step : Int) : SliceRange where
  start := match start with
    | some x => adjust n step x
    | none => if step < 0 then n - 1 else 0
  stop := match stop with
    | some x => adjust n step x
    | none => if step < 0 then -1 else n
  step := step

/-- The range of a single element. -/
def single (i : Int) : SliceRange := ⟨i, i + 1, 1⟩

@[simp] theorem ofSlice_step (n : Int) (start stop : Option Int) (step : Int) :
    (ofSlice n start stop step).step = step := rfl

@[simp] theorem length_single (i : Int) : (single i).length = 1 := by
  simp [length, single]

/-! ## Where the elements lie -/

variable {n step : Int} {r : SliceRange}

theorem adjust_mem (hn : 0 ≤ n) (x : Int) :
    -1 ≤ adjust n step x ∧ adjust n step x ≤ n ∧
      (step < 0 → adjust n step x ≤ n - 1) ∧ (¬ step < 0 → 0 ≤ adjust n step x) := by
  unfold adjust
  split_ifs <;> omega

theorem ofSlice_start (hn : 0 ≤ n) (start stop : Option Int) :
    (step < 0 → (ofSlice n start stop step).start ≤ n - 1) ∧
      (¬ step < 0 → 0 ≤ (ofSlice n start stop step).start) := by
  cases start with
  | none =>
    simp only [ofSlice]
    split_ifs <;> omega
  | some x => exact (adjust_mem hn x).2.2

theorem ofSlice_stop (hn : 0 ≤ n) (start stop : Option Int) :
    -1 ≤ (ofSlice n start stop step).stop ∧ (ofSlice n start stop step).stop ≤ n := by
  cases stop with
  | none =>
    simp only [ofSlice]
    split_ifs <;> omega
  | some x => exact ⟨(adjust_mem hn x).1, (adjust_mem hn x).2.1⟩

theorem get_before_stop (hstep : r.step ≠ 0) {k : Nat} (hk : (k : Int) < r.length) :
    if r.step < 0 then r.stop < r.get k ∧ r.get k ≤ r.start
    else r.start ≤ r.get k ∧ r.get k < r.stop := by
  unfold length at hk
  unfold get
  split at hk
  · rename_i hneg
    rw [if_pos hneg]
    split at hk
    · have hle : (k : Int) ≤ (r.start - r.stop - 1) / (-r.step) := by omega
      have hmul := Int.mul_le_of_le_ediv (show (0 : Int) < -r.step by omega) hle
      have hpos : 0 ≤ (k : Int) * (-r.step) := Int.mul_nonneg (by omega) (by omega)
      rw [Int.mul_neg] at hmul hpos
      omega
    · omega
  · rename_i hneg
    rw [if_neg hneg]
    split at hk
    · have hle : (k : Int) ≤ (r.stop - r.start - 1) / r.step := by omega
      have hmul := Int.mul_le_of_le_ediv (show (0 : Int) < r.step by omega) hle
      have hpos : 0 ≤ (k : Int) * r.step := Int.mul_nonneg (by omega) (by omega)
      omega
    · omega

theorem get_ofSlice_mem (hn : 0 ≤ n) (hstep : step ≠ 0) (start stop : Option Int) {k : Nat}
    (hk : (k : Int) < (ofSlice n start stop step).length) :
    0 ≤ (ofSlice n start stop step).get k ∧ (ofSlice n start stop step).get k < n := by
  have hget := get_before_stop (r := ofSlice n start stop step) hstep hk
  obtain ⟨hneg, hpos⟩ := @ofSlice_start n step hn start stop
  obtain ⟨hlow, hhigh⟩ := @ofSlice_stop n step hn start stop
  rw [ofSlice_step] at hget
  split at hget
  · omega
  · omega

/-! ## The length by a truncating division -/

/-- Nothing lies between the bounds in the direction of the step. -/
def Reversed (r : SliceRange) : Prop :=
  (r.step < 0 ∧ r.start < r.stop) ∨ (0 < r.step ∧ r.stop < r.start)

instance (r : SliceRange) : Decidable r.Reversed := inferInstanceAs (Decidable (_ ∨ _))

/-- An interval over a step by truncating division, one more for a remainder. -/
def stepsIn (interval step : Int) : Int :=
  interval.tdiv step + if interval.tmod step ≠ 0 then 1 else 0

theorem stepsIn_neg_neg (interval step : Int) :
    stepsIn (-interval) (-step) = stepsIn interval step := by
  unfold stepsIn
  rw [Int.neg_tdiv_neg]
  congr 2
  simp

theorem pos_pred_ediv {a b : Int} (ha : 0 < a) (hb : 0 < b) : (a - 1) / b + 1 = stepsIn a b := by
  unfold stepsIn
  rw [Int.tdiv_eq_ediv_of_nonneg ha.le, Int.tmod_eq_emod_of_nonneg ha.le]
  have hsplit := Int.mul_ediv_add_emod a b
  have hlow := Int.emod_nonneg a hb.ne'
  have hhigh := Int.emod_lt_of_pos a hb
  split_ifs with h
  · -- a remainder is left: one less stays in the same quotient
    have hsame : (a - 1) / b = a / b :=
      ((Int.ediv_emod_unique (r := a % b - 1) hb).mpr ⟨by omega, by omega, by omega⟩).1
    omega
  · have hless : (a - 1) / b = a / b - 1 :=
      ((Int.ediv_emod_unique (r := b - 1) hb).mpr
        ⟨by rw [Int.mul_sub]; omega, by omega, by omega⟩).1
    omega

/-- Away from reversed bounds, the length is the interval over the step, rounded away from
zero. -/
theorem length_eq_stepsIn (hstep : r.step ≠ 0) (hrev : ¬ r.Reversed) :
    r.length = stepsIn (r.stop - r.start) r.step := by
  unfold Reversed at hrev
  unfold length
  by_cases heq : r.start = r.stop
  · simp [heq, stepsIn]
  · by_cases hneg : r.step < 0
    · rw [if_pos hneg, if_pos (by omega), pos_pred_ediv (by omega) (by omega), ← stepsIn_neg_neg,
        Int.neg_neg, Int.neg_sub]
    · rw [if_neg hneg, if_pos (by omega), pos_pred_ediv (by omega) (by omega)]

theorem length_reversed (hrev : r.Reversed) : r.length = 0 := by
  unfold Reversed at hrev
  unfold length
  split_ifs <;> omega

end SliceRange

end MyOperator.Lib
