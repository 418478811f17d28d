import Mathlib

/-!
# Every n-th element

The elements of a list that stand `n` apart. The `n` lists that start at the first `n`
elements share out the whole list, and none of them is much longer than the others.
-/

namespace MyOperator.Lib

open List

variable {α : Type*} {n : Nat}

/-- The elements `i`, `i + n`, `i + 2 * n`, … of a list. -/
def everyNth (n : Nat) : (i : Nat) → List α → List α
  | _, [] => []
  | 0, x :: l => x :: everyNth n (n - 1) l
  | i + 1, _ :: l => everyNth n i l

@[simp] theorem everyNth_nil (n i : Nat) : everyNth n i ([] : List α) = [] := by
  cases i <;> rfl

theorem getElem?_everyNth (hn : 0 < n) (l : List α) (i j : Nat) :
    (everyNth n i l)[j]? = l[i + j * n]? := by
  induction l generalizing i j with
  | nil => simp
  | cons x l ih =>
    cases i with
    | succ i =>
      show (everyNth n i l)[j]? = _
      rw [ih, add_right_comm]
      rfl
    | zero =>
      cases j with
      | zero => rw [Nat.zero_mul]; rfl
      | succ j =>
        have hpos : 0 + (j + 1) * n = n - 1 + j * n + 1 := by
          rw [Nat.succ_mul]
          omega
        show (everyNth n (n - 1) l)[j]? = _
        rw [ih, hpos]
        rfl

theorem everyNth_eq_nil (hn : 0 < n) {i : Nat} {l : List α} (hi : l.length ≤ i) :
    everyNth n i l = [] := by
  refine ext_getElem? fun j => ?_
  rw [getElem?_everyNth hn, getElem?_eq_none (by omega)]
  rfl

theorem everyNth_eq_cons (hn : 0 < n) {i : Nat} {l : List α} {x : α} (hx : l[i]? = some x) :
    everyNth n i l = x :: everyNth n (i + n) l := by
  refine ext_getElem? fun j => ?_
  rw [getElem?_everyNth hn]
  cases j with
  | zero => rw [Nat.zero_mul, add_zero, hx, getElem?_cons_zero]
  | succ j => rw [getElem?_cons_succ, getElem?_everyNth hn, Nat.succ_mul, add_assoc, add_comm n]

theorem mem_of_mem_everyNth {i : Nat} {l : List α} {x : α} (h : x ∈ everyNth n i l) : x ∈ l := by
  induction l generalizing i with
  | nil =>
    exact h
  | cons y l ih =>
    cases i with
    | zero =>
      rcases mem_cons.mp h with rfl | h
      · exact mem_cons_self
      · exact mem_cons_of_mem _ (ih h)
    | succ i => exact mem_cons_of_mem _ (ih h)

theorem everyNth_ne_nil (hn : 0 < n) {i : Nat} {l : List α} (hi : i < l.length) :
    everyNth n i l ≠ [] := by
  intro hnil
  have hget := getElem?_everyNth hn l i 0
  rw [hnil, Nat.zero_mul, add_zero, getElem?_eq_getElem hi] at hget
  cases hget

theorem length_everyNth_le (hn : 0 < n) {i m : Nat} {l : List α} (hl : l.length ≤ n * m) :
    (everyNth n i l).length ≤ m := by
  by_contra hlong
  have hlt : m < (everyNth n i l).length := not_le.mp hlong
  have hget := getElem?_everyNth hn l i m
  rw [getElem?_eq_getElem hlt, getElem?_eq_none (by rw [mul_comm m n]; omega)] at hget
  cases hget

theorem flatMap_everyNth_perm (hn : 0 < n) (l : List α) :
    ((range n).flatMap fun i => everyNth n i l).Perm l := by
  obtain ⟨n, rfl⟩ := Nat.exists_eq_add_of_lt hn
  rw [zero_add]
  induction l with
  | nil => simp
  | cons x l ih =>
    -- the list that starts at `x` goes on as the last of the lists of `l`
    have hrotate : ((range (n + 1)).flatMap fun i => everyNth (n + 1) i (x :: l)) =
        x :: (everyNth (n + 1) n l ++ (range n).flatMap fun i => everyNth (n + 1) i l) := by
      rw [range_succ_eq_map, flatMap_cons, flatMap_map]
      rfl
    rw [hrotate]
    refine Perm.cons x (perm_append_comm.trans ?_)
    rw [range_succ, flatMap_append, flatMap_singleton] at ih
    exact ih

/-- Lists that have no element twice, neither one of them nor two, have each of theirs in one. -/
theorem existsUnique_of_nodup_flatten {L : List (List α)} (h : L.flatten.Nodup) {x : α}
    (hx : x ∈ L.flatten) : ∃! i : Nat, ∃ l, L[i]? = some l ∧ x ∈ l := by
  obtain ⟨-, hdisjoint⟩ := nodup_flatten.mp h
  have hapart : ∀ (i j : Nat) (l l' : List α), i < j → L[i]? = some l → L[j]? = some l' →
      x ∈ l → x ∉ l' := by
    intro i j l l' hij hl hl' hxl hxl'
    obtain ⟨hi, rfl⟩ := List.getElem?_eq_some_iff.mp hl
    obtain ⟨hj, rfl⟩ := List.getElem?_eq_some_iff.mp hl'
    exact pairwise_iff_getElem.mp hdisjoint i j hi hj hij hxl hxl'
  obtain ⟨l, hl, hxl⟩ := mem_flatten.mp hx
  obtain ⟨i, hi⟩ := mem_iff_getElem?.mp hl
  refine ⟨i, ⟨l, hi, hxl⟩, ?_⟩
  rintro j ⟨l', hj, hxl'⟩
  rcases lt_trichotomy i j with hlt | heq | hlt
  · exact absurd hxl' (hapart i j l l' hlt hi hj hxl)
  · exact heq.symm
  · exact absurd hxl (hapart j i l' l hlt hj hi hxl')

end MyOperator.Lib
