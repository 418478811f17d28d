import Mathlib

/-!
# Repeated blocks

A list that ends with copies of one block, seen from its end: each entry is the one at
the same place of the first block. And a search through an ascending list that stops
where a bound is passed finds what a search with the bound as a filter finds.
-/

namespace MyOperator.Lib

open List

variable {α : Type*}

theorem getElem?_flatten_replicate (b : List α) {c i : Nat} (hi : i < c * b.length) :
    (replicate c b).flatten[i]? = b[i % b.length]? := by
  induction c generalizing i with
  | zero =>
    rw [Nat.zero_mul] at hi
    exact absurd hi (Nat.not_lt_zero i)
  | succ c ih =>
    rw [replicate_succ, flatten_cons]
    by_cases hlt : i < b.length
    · rw [getElem?_append_left hlt, Nat.mod_eq_of_lt hlt]
    · have hle : b.length ≤ i := Nat.not_lt.mp hlt
      rw [getElem?_append_right hle, ih, ← Nat.mod_eq_sub_mod hle]
      rw [Nat.succ_mul] at hi
      omega

theorem length_flatten_replicate (c : Nat) (b : List α) :
    (replicate c b).flatten.length = c * b.length := by
  rw [length_flatten, map_replicate, sum_replicate_nat]

/-- A list starts with `c` copies of a block of `p` entries if and only if its first `p * c` entries
repeat with period `p`. -/
theorem replicate_flatten_prefix_iff {l : List α} {p c : Nat} (hc : 0 < c) (hlen : p * c ≤ l.length) :
    (∃ b : List α, b.length = p ∧ (replicate c b).flatten <+: l) ↔
      ∀ i < p * c, l[i]? = l[i % p]? := by
  constructor
  · rintro ⟨b, rfl, hpre⟩ i hi
    have hget : ∀ j < b.length * c, l[j]? = b[j % b.length]? := by
      intro j hj
      rw [Nat.mul_comm] at hj
      have hj' : j < (replicate c b).flatten.length := by
        rw [length_flatten_replicate]
        exact hj
      rw [← getElem?_flatten_replicate b hj]
      rw [prefix_iff_getElem?.mp hpre j hj', getElem?_eq_getElem hj']
    have hpos : 0 < b.length := Nat.pos_of_ne_zero fun hz => by
      rw [hz, Nat.zero_mul] at hi
      exact absurd hi (Nat.not_lt_zero i)
    have hmod : i % b.length < b.length * c :=
      (Nat.mod_lt i hpos).trans_le (Nat.le_mul_of_pos_right _ hc)
    rw [hget i hi, hget _ hmod, Nat.mod_mod]
  · intro hper
    have hp : p ≤ l.length := (Nat.le_mul_of_pos_right p hc).trans hlen
    have hblock : (l.take p).length = p := length_take_of_le hp
    refine ⟨l.take p, hblock, prefix_iff_getElem?.mpr fun i hi => ?_⟩
    rw [← getElem?_eq_getElem hi]
    rw [length_flatten_replicate, hblock] at hi
    rw [getElem?_flatten_replicate _ (hblock.symm ▸ hi), hblock, getElem?_take_of_lt]
    · exact hper i (Nat.mul_comm c p ▸ hi)
    · refine Nat.mod_lt i (Nat.pos_of_ne_zero fun hz => ?_)
      rw [hz] at hi
      exact absurd hi (Nat.not_lt_zero i)

/-- What is taken while a bound holds, in a list where it never starts to hold again. -/
theorem mem_takeWhile_iff {P : α → Bool} {l : List α} (hl : l.Pairwise fun a b => P b → P a) {a : α} :
    a ∈ l.takeWhile P ↔ a ∈ l ∧ P a := by
  induction l with
  | nil => simp
  | cons b l ih =>
    obtain ⟨hb, hl⟩ := pairwise_cons.mp hl
    rw [takeWhile_cons]
    cases hP : P b with
    | true =>
      rw [if_pos rfl, mem_cons, mem_cons, ih hl]
      constructor
      · rintro (rfl | ⟨hin, ha⟩)
        · exact ⟨.inl rfl, hP⟩
        · exact ⟨.inr hin, ha⟩
      · rintro ⟨rfl | hin, ha⟩
        · exact .inl rfl
        · exact .inr ⟨hin, ha⟩
    | false =>
      refine ⟨fun hin => (nomatch hin), ?_⟩
      rintro ⟨hin, ha⟩
      rcases mem_cons.mp hin with rfl | hin
      · rw [hP] at ha
        cases ha
      · have := hb a hin ha
        rw [hP] at this
        cases this

end MyOperator.Lib
