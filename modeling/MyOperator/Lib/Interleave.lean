import Mathlib

/-!
# Positions dealt out to ranks

Positions are dealt out to `W` ranks in runs of `I`: the first `I` go to rank 0, the next
to rank 1, and so on around. Each rank stores its runs one behind the other. The rank and
the place there determine the position, and what is dealt out in blocks of whole runs
fills the blocks of every rank.
-/

namespace MyOperator.Lib

open Nat

variable {W I S j x y : Nat}

/-- The rank that has position `x`. -/
def dealRank (W I x : Nat) : Nat := x / I % W

/-- The place of position `x` on its rank. -/
def dealPlace (W I x : Nat) : Nat := x / (W * I) * I + x % I

theorem dealRank_lt (hW : 0 < W) (I x : Nat) : dealRank W I x < W := Nat.mod_lt _ hW

theorem dealPlace_div (hI : 0 < I) : dealPlace W I x / I = x / (W * I) := by
  unfold dealPlace
  rw [mul_comm, mul_add_div hI, div_eq_of_lt (Nat.mod_lt x hI), add_zero]

theorem dealPlace_mod : dealPlace W I x % I = x % I := by
  unfold dealPlace
  rw [mul_comm, mul_add_mod, mod_mod]

theorem deal_inj (hI : 0 < I) (hrank : dealRank W I x = dealRank W I y)
    (hplace : dealPlace W I x = dealPlace W I y) : x = y := by
  have hmod : x % I = y % I := by rw [← dealPlace_mod (W := W), hplace, dealPlace_mod]
  have hrow : x / I / W = y / I / W := by
    rw [Nat.div_div_eq_div_mul, Nat.div_div_eq_div_mul, mul_comm I W,
      ← dealPlace_div hI, hplace, dealPlace_div hI]
  have hdiv : x / I = y / I := by
    rw [← div_add_mod (x / I) W, ← div_add_mod (y / I) W, hrow]
    exact congrArg _ hrank
  rw [← div_add_mod x I, ← div_add_mod y I, hdiv, hmod]

theorem block_inj (hx : x < S) (hy : y < S) {a b : Nat} (h : a * S + x = b * S + y) :
    a = b ∧ x = y := by
  have hmod : x = y := by
    rw [← mul_add_mod_of_lt (a := a) hx, h, mul_add_mod_of_lt hy]
  subst hmod
  exact ⟨Nat.eq_of_mul_eq_mul_right (by omega) (add_right_cancel h), rfl⟩

theorem deal_one (I x : Nat) : dealRank 1 I x = 0 ∧ dealPlace 1 I x = x := by
  unfold dealRank dealPlace
  rw [mod_one, one_mul, mul_comm, div_add_mod]
  exact ⟨rfl, rfl⟩

theorem dealPlace_lt (hI : 0 < I) (hS : W = 1 ∨ I ∣ S) (hx : x < S * W) : dealPlace W I x < S := by
  rcases hS with rfl | ⟨q, rfl⟩
  · rw [(deal_one I x).2]
    rwa [mul_one] at hx
  · have hrow : x / (W * I) < q := by
      refine Nat.div_lt_of_lt_mul ?_
      rwa [mul_comm W I, mul_right_comm]
    have hmod := Nat.mod_lt x hI
    have hmul : (x / (W * I) + 1) * I ≤ q * I := Nat.mul_le_mul_right I hrow
    unfold dealPlace
    rw [succ_mul] at hmul
    rw [mul_comm I q]
    omega

theorem deal_shift (hI : 0 < I) (hW : 0 < W) (hS : W = 1 ∨ I ∣ S) :
    dealRank W I (j * (S * W) + x) = dealRank W I x ∧
      dealPlace W I (j * (S * W) + x) = j * S + dealPlace W I x := by
  rcases hS with rfl | ⟨q, rfl⟩
  · rw [(deal_one I _).1, (deal_one I _).2, (deal_one I x).1, (deal_one I x).2, mul_one]
    exact ⟨rfl, rfl⟩
  · have hrank : j * (I * q * W) + x = I * (j * q * W) + x := by ring
    have hplace : j * (I * q * W) + x = W * I * (j * q) + x := by ring
    constructor
    · unfold dealRank
      rw [hrank, mul_add_div hI, mul_comm (j * q) W, mul_add_mod]
    · unfold dealPlace
      rw [hplace, mul_add_div (mul_pos hW hI), ← hplace, hrank, mul_add_mod]
      ring

theorem exists_dealPlace_ge (hI : 0 < I) (hW : W ≠ 1) (hW0 : 0 < W) (hS : ¬ I ∣ S) :
    ∃ x < S * W, dealRank W I x = 0 ∧ dealPlace W I x = S := by
  have hmod := Nat.mod_lt S hI
  have hpos : 0 < S % I := pos_of_ne_zero fun h => hS (dvd_of_mod_eq_zero h)
  have hdiv := div_add_mod S I
  -- the position behind all full rows whose place is the end of the block
  refine ⟨S / I * (W * I) + S % I, ?_, ?_, ?_⟩
  · have hlt : S % I < S % I * W := by
      have : S % I * 2 ≤ S % I * W := Nat.mul_le_mul_left _ (by omega)
      omega
    calc S / I * (W * I) + S % I < S / I * (W * I) + S % I * W := by omega
      _ = (I * (S / I) + S % I) * W := by ring
      _ = S * W := by rw [hdiv]
  · unfold dealRank
    rw [show S / I * (W * I) + S % I = I * (S / I * W) + S % I by ring, mul_add_div hI,
      div_eq_of_lt hmod, add_zero, mul_mod_left]
  · unfold dealPlace
    have hsmall : S % I < W * I := hmod.trans_le (Nat.le_mul_of_pos_left I hW0)
    rw [show S / I * (W * I) + S % I = W * I * (S / I) + S % I by ring,
      mul_add_div (mul_pos hW0 hI), div_eq_of_lt hsmall, add_zero,
      mul_assoc, mul_left_comm, mul_add_mod, mod_mod, mul_comm, hdiv]

end MyOperator.Lib
