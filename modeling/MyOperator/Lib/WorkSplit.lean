import Mathlib

/-!
# Splitting a row of work units over numbered workers

Worker `i` of `cores` takes `len i` units from unit `start i` on. `Splits` says
that the ranges are non-empty, stay inside the `n` units and take every unit
exactly once. Ranges that follow one another (`Splits.of_chain`) are such a
split; the two usual conventions, one more unit for the first workers and a
shorter last worker, are instances.
-/

namespace MyOperator.Lib

/-- The ranges `start i … start i + len i` of the workers `i < cores` split `n` units. -/
structure Splits (n cores : Nat) (start len : Nat → Nat) : Prop where
  pos : ∀ i < cores, 0 < len i
  inside : ∀ i < cores, start i + len i ≤ n
  once : ∀ k < n, ∃! i : Nat, i < cores ∧ start i ≤ k ∧ k < start i + len i

namespace Splits

variable {n cores : Nat} {start len : Nat → Nat}

theorem chain_le (hstep : ∀ i, i + 1 < cores → start (i + 1) = start i + len i)
    {i j : Nat} (hij : i < j) (hj : j < cores) : start i + len i ≤ start j := by
  induction j with
  | zero => omega
  | succ j ih =>
    rw [hstep j hj]
    rcases Nat.lt_succ_iff_lt_or_eq.mp hij with hlt | rfl
    · omega
    · exact le_rfl

theorem chain_cover (h0 : start 0 = 0)
    (hstep : ∀ i, i + 1 < cores → start (i + 1) = start i + len i) {k m : Nat} (hm : m < cores)
    (hk : k < start m + len m) : ∃ i ≤ m, start i ≤ k ∧ k < start i + len i := by
  induction m with
  | zero => exact ⟨0, le_refl 0, by omega, hk⟩
  | succ m ih =>
    by_cases hle : start (m + 1) ≤ k
    · exact ⟨m + 1, le_rfl, hle, hk⟩
    · have hbefore : k < start m + len m := by
        rw [← hstep m hm]; omega
      obtain ⟨i, hi, hin⟩ := ih (by omega) hbefore
      exact ⟨i, by omega, hin⟩

theorem of_chain (hc : 0 < cores) (h0 : start 0 = 0)
    (hstep : ∀ i, i + 1 < cores → start (i + 1) = start i + len i)
    (hend : start (cores - 1) + len (cores - 1) = n) (hpos : ∀ i < cores, 0 < len i) :
    Splits n cores start len where
  pos := hpos
  inside := by
    intro i hi
    rcases lt_or_ge i (cores - 1) with hlt | hge
    · have := chain_le hstep hlt (by omega : cores - 1 < cores)
      omega
    · have : i = cores - 1 := by omega
      subst this
      omega
  once := by
    intro k hk
    obtain ⟨i, hi, hin⟩ := chain_cover h0 hstep (by omega : cores - 1 < cores) (hend ▸ hk)
    refine ⟨i, ⟨by omega, hin⟩, ?_⟩
    intro j hj
    obtain ⟨hjc, hj1, hj2⟩ := hj
    rcases lt_trichotomy i j with hij | hij | hij
    · have := chain_le hstep hij hjc
      omega
    · exact hij.symm
    · have := chain_le hstep hij (by omega)
      omega

theorem balanced (hc : 0 < cores) (hn : cores ≤ n) :
    Splits n cores (fun i => i * (n / cores) + min i (n % cores))
      (fun i => n / cores + if i < n % cores then 1 else 0) := by
  have hq : 0 < n / cores := Nat.div_pos hn hc
  have hr : n % cores < cores := Nat.mod_lt n hc
  refine of_chain hc (by simp) ?_ ?_ (fun i _ => by omega)
  · intro i _
    simp only [add_mul]
    split <;> omega
  · have hlast : ¬ cores - 1 < n % cores := by omega
    simp only [if_neg hlast, min_eq_right (by omega : n % cores ≤ cores - 1)]
    calc (cores - 1) * (n / cores) + n % cores + (n / cores + 0)
        = (cores - 1 + 1) * (n / cores) + n % cores := by ring
      _ = cores * (n / cores) + n % cores := by rw [Nat.sub_add_cancel hc]
      _ = n := Nat.div_add_mod n cores

/-- Every worker takes `b` units but the last, which takes the `last` that remain. -/
theorem blocks {b last : Nat} (hc : 0 < cores) (hb : 0 < b) (hlast : 0 < last)
    (hn : (cores - 1) * b + last = n) :
    Splits n cores (fun i => i * b) (fun i => if i = cores - 1 then last else b) := by
  refine of_chain hc (by simp) ?_ (by simpa using hn) ?_
  · intro i hi
    rw [if_neg (by omega)]
    ring
  · intro i _
    split <;> assumption

end Splits

end MyOperator.Lib
