import Mathlib

/-!
# Borders

A border of the first `i` elements of a sequence is a length `v` such that the first `v`
elements stand again at the end of them. The borders of a border are the borders below it,
and a border grows by one where the next elements agree: this is what a table of longest
borders is computed from.
-/

namespace MyOperator.Lib

variable {α : Type*} {t : Nat → α} {u v i bound : Nat}

/-- The first `v` elements stand at the end of the first `i`. -/
def Border (t : Nat → α) (v i : Nat) : Prop := v ≤ i ∧ ∀ j < v, t j = t (i - v + j)

theorem border_zero (t : Nat → α) (i : Nat) : Border t 0 i :=
  ⟨Nat.zero_le i, fun _ h => absurd h (Nat.not_lt_zero _)⟩

theorem border_succ : Border t (v + 1) (i + 1) ↔ Border t v i ∧ t v = t i := by
  constructor
  · rintro ⟨hle, h⟩
    have hvi : v ≤ i := Nat.le_of_succ_le_succ hle
    refine ⟨⟨hvi, fun j hj => ?_⟩, ?_⟩
    · rw [h j (Nat.lt_succ_of_lt hj), Nat.add_sub_add_right]
    · rw [h v (Nat.lt_succ_self v), Nat.add_sub_add_right, Nat.sub_add_cancel hvi]
  · rintro ⟨⟨hle, h⟩, hnext⟩
    refine ⟨Nat.succ_le_succ hle, fun j hj => ?_⟩
    rw [Nat.add_sub_add_right]
    rcases Nat.lt_succ_iff_lt_or_eq.mp hj with hj | rfl
    · exact h j hj
    · rw [hnext, Nat.sub_add_cancel hle]

theorem border_of_border (hv : Border t v i) (huv : u ≤ v) : Border t u i ↔ Border t u v := by
  obtain ⟨hvi, h⟩ := hv
  have hpos : ∀ j < u, t (v - u + j) = t (i - u + j) := by
    intro j hj
    rw [h (v - u + j) (by omega)]
    congr 1
    omega
  constructor
  · rintro ⟨-, hu⟩
    exact ⟨huv, fun j hj => (hu j hj).trans (hpos j hj).symm⟩
  · rintro ⟨-, hu⟩
    exact ⟨Nat.le_trans huv hvi, fun j hj => (hu j hj).trans (hpos j hj)⟩

/-- `v` is the longest border of the first `i` elements below `bound`. -/
structure LongestBorder (t : Nat → α) (bound v i : Nat) : Prop where
  lt : v < bound
  border : Border t v i
  longest : ∀ u < bound, Border t u i → u ≤ v

theorem longestBorder_one (t : Nat → α) (i : Nat) : LongestBorder t 1 0 i :=
  ⟨Nat.one_pos, border_zero t i, fun _ hu _ => Nat.le_of_lt_succ hu⟩

theorem border_reverse {l : List α} {n e : Nat} (hne : n ≤ e) (he : e ≤ l.length) :
    Border (fun x => l.reverse[x]?) n e ↔ ∀ j < n, l[l.length - e + j]? = l[l.length - n + j]? := by
  have hget : ∀ x < l.length, l.reverse[x]? = l[l.length - 1 - x]? := fun x hx => List.getElem?_reverse hx
  -- the positions in the reversed list, from the other end
  have hpos : ∀ j < n, l.reverse[n - 1 - j]? = l[l.length - n + j]? ∧
      l.reverse[e - n + (n - 1 - j)]? = l[l.length - e + j]? := by
    intro j hj
    constructor
    · rw [hget _ (by omega)]
      congr 1
      omega
    · rw [hget _ (by omega)]
      congr 1
      omega
  constructor
  · rintro ⟨-, h⟩ j hj
    rw [← (hpos j hj).1, ← (hpos j hj).2]
    exact (h (n - 1 - j) (by omega)).symm
  · intro h
    refine ⟨hne, fun j hj => ?_⟩
    have hj' : n - 1 - j < n := by omega
    have hback : n - 1 - (n - 1 - j) = j := by omega
    obtain ⟨h1, h2⟩ := hpos (n - 1 - j) hj'
    rw [hback] at h1 h2
    show l.reverse[j]? = l.reverse[e - n + j]?
    rw [h1, h2]
    exact (h _ hj').symm

end MyOperator.Lib
