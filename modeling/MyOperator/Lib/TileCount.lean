import Mathlib

/-!
# Cutting a length into tiles and every tile into chunks

A length `E` is cut into tiles of `T` (the last one shorter) and each tile into
chunks of `c`; what is left at the end of a tile is dropped. `tileCount E T c` is
the number of chunks obtained and `chunkStart T c i` the position at which the
`i`-th of them starts. Cutting `E` into chunks directly gives `E / c` chunks, the
`i`-th starting at `i * c`; the lemmas compare the two.
-/

namespace MyOperator.Lib

def tileCount (E T c : Nat) : Nat := E / T * (T / c) + E % T / c

def chunkStart (T c i : Nat) : Nat := i / (T / c) * T + i % (T / c) * c

variable {E T c i : Nat}

theorem chunkStart_add (t : Nat) {k : Nat} (hk : k < T / c) :
    chunkStart T c (t * (T / c) + k) = t * T + k * c := by
  have hp : 0 < T / c := by omega
  have hdiv : (t * (T / c) + k) / (T / c) = t := by
    rw [add_comm, Nat.add_mul_div_right _ _ hp, Nat.div_eq_of_lt hk, zero_add]
  have hmod : (t * (T / c) + k) % (T / c) = k := by
    rw [add_comm, Nat.add_mul_mod_self_right, Nat.mod_eq_of_lt hk]
  rw [chunkStart, hdiv, hmod]

theorem chunkStart_of_lt (hi : i < T / c) : chunkStart T c i = i * c := by
  simpa using chunkStart_add 0 hi

theorem chunkStart_of_dvd (hc : c ∣ T) (hT : 0 < T) : chunkStart T c i = i * c := by
  obtain ⟨p, rfl⟩ := hc
  have hc0 : 0 < c := Nat.pos_of_mul_pos_right hT
  rw [chunkStart, Nat.mul_div_cancel_left _ hc0]
  calc i / p * (c * p) + i % p * c = (p * (i / p) + i % p) * c := by ring
    _ = i * c := by rw [Nat.div_add_mod]

theorem tileCount_le_div (hc : 0 < c) : tileCount E T c ≤ E / c := by
  rw [Nat.le_div_iff_mul_le hc]
  have htile : T / c * c ≤ T := Nat.div_mul_le_self T c
  have hrest : E % T / c * c ≤ E % T := Nat.div_mul_le_self _ c
  calc (E / T * (T / c) + E % T / c) * c = E / T * (T / c * c) + E % T / c * c := by ring
    _ ≤ E / T * T + E % T := Nat.add_le_add (Nat.mul_le_mul_left _ htile) hrest
    _ = E := by rw [Nat.mul_comm]; exact Nat.div_add_mod E T

theorem tileCount_of_dvd (hc : c ∣ T) (hT : 0 < T) : tileCount E T c = E / c := by
  obtain ⟨p, rfl⟩ := hc
  have hc0 : 0 < c := Nat.pos_of_mul_pos_right hT
  have hE : E = E % (c * p) + c * (E / (c * p) * p) := by
    have := Nat.mod_add_div E (c * p)
    rw [mul_comm (E / (c * p)) p, ← mul_assoc]; exact this.symm
  rw [tileCount, Nat.mul_div_cancel_left _ hc0]
  conv_rhs => rw [hE, Nat.add_mul_div_left _ _ hc0]
  omega

theorem tileCount_of_le (hc : 0 < c) (hE : E / c ≤ T / c) : tileCount E T c = E / c := by
  rcases lt_or_ge E T with hlt | hge
  · simp [tileCount, Nat.div_eq_of_lt hlt, Nat.mod_eq_of_lt hlt]
  · refine le_antisymm (tileCount_le_div hc) ?_
    rcases Nat.eq_zero_or_pos T with rfl | hT
    · rw [Nat.zero_div] at hE
      omega
    · have h1 : 1 ≤ E / T := (Nat.one_le_div_iff hT).mpr hge
      calc E / c ≤ 1 * (T / c) := by simpa using hE
        _ ≤ E / T * (T / c) := Nat.mul_le_mul_right _ h1
        _ ≤ tileCount E T c := Nat.le_add_right _ _

theorem tileCount_of_tile_lt (hT : 0 < T) (hc : T < c) : tileCount E T c = 0 := by
  have hr : E % T < c := lt_trans (Nat.mod_lt _ hT) hc
  simp [tileCount, Nat.div_eq_of_lt hc, Nat.div_eq_of_lt hr]

/-- The position in `E` at which chunk number `B + 1` of the tile cut ends. -/
def cutEnd (T c B : Nat) : Nat := B / (T / c) * T + (B % (T / c) + 1) * c

/-- At most `B` chunks are cut exactly when chunk `B + 1` does not end inside `E`. -/
theorem tileCount_le_iff (hc : 0 < c) (hT : c ≤ T) (B : Nat) :
    tileCount E T c ≤ B ↔ E < cutEnd T c B := by
  have hp : 0 < T / c := Nat.div_pos hT hc
  have hT0 : 0 < T := lt_of_lt_of_le hc hT
  have htile : T / c * c ≤ T := Nat.div_mul_le_self T c
  have hrB : B % (T / c) < T / c := Nat.mod_lt _ hp
  have hEmod : E % T < T := Nat.mod_lt _ hT0
  have hEchunk : E % T / c ≤ T / c := Nat.div_le_div_right hEmod.le
  have hEeq : T * (E / T) + E % T = E := Nat.div_add_mod E T
  have hBeq : T / c * (B / (T / c)) + B % (T / c) = B := Nat.div_add_mod B (T / c)
  unfold tileCount cutEnd
  generalize T / c = p at *
  generalize B / p = q at *
  generalize B % p = r at *
  generalize E / T = n at *
  generalize E % T = m at *
  -- compare the number `n` of full tiles of `E` with the number `q` that `B` fills
  rcases lt_trichotomy n q with hlt | rfl | hgt
  · have hcount : (n + 1) * p ≤ q * p := Nat.mul_le_mul_right p hlt
    constructor <;> intro _ <;> nlinarith [Nat.zero_le ((r + 1) * c)]
  · rw [← hBeq, ← hEeq, mul_comm p n, mul_comm T n, add_le_add_iff_left,
      Nat.add_lt_add_iff_left, ← Nat.lt_succ_iff, Nat.div_lt_iff_lt_mul hc]
  · have hcount : (q + 1) * p ≤ n * p := Nat.mul_le_mul_right p hgt
    constructor <;> intro h <;> nlinarith [Nat.zero_le (m / c), Nat.zero_le m]

end MyOperator.Lib
