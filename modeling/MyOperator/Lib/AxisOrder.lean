import Mathlib

/-!
# Axes in another order

A row-major array is read in the order of a permutation of its axes: output axis by
output axis a size and the stride of the input axis behind it. `readAt` is the input
offset of an output offset. Unit axes may be dropped and an axis may be merged with its
inner neighbour when their strides fit; when some axes are kept, `rank` renumbers them.
-/

namespace MyOperator.Lib

open List

/-! ## Renumbering the kept ones -/

/-- How many numbers below `a` are kept. -/
def rank (kept : Nat → Bool) (a : Nat) : Nat := (range a).countP kept

section Rank

variable {kept : Nat → Bool} {a b n : Nat}

theorem rank_succ (kept : Nat → Bool) (a : Nat) :
    rank kept (a + 1) = rank kept a + if kept a then 1 else 0 := by
  rw [rank, range_succ, countP_append, countP_singleton]
  rfl

theorem rank_mono (hab : a ≤ b) : rank kept a ≤ rank kept b := by
  induction hab with
  | refl => exact le_rfl
  | step _ ih =>
    rw [rank_succ]
    omega

theorem rank_lt (hab : a < b) (ha : kept a = true) : rank kept a < rank kept b := by
  have hstep : rank kept (a + 1) = rank kept a + 1 := by rw [rank_succ, if_pos ha]
  have hmono : rank kept (a + 1) ≤ rank kept b := rank_mono hab
  omega

theorem rank_lt_iff (ha : kept a = true) : rank kept a < rank kept b ↔ a < b := by
  constructor
  · intro h
    by_contra hle
    exact absurd (rank_mono (Nat.le_of_not_lt hle)) (not_le.mpr h)
  · exact fun h => rank_lt h ha

theorem length_kept (kept : Nat → Bool) (n : Nat) :
    ((range n).filter kept).length = rank kept n := by
  rw [rank, countP_eq_length_filter]

theorem map_rank_kept (kept : Nat → Bool) (n : Nat) :
    ((range n).filter kept).map (rank kept) = range (rank kept n) := by
  induction n with
  | zero => rfl
  | succ n ih =>
    rw [range_succ, filter_append, map_append, ih, rank_succ]
    by_cases hn : kept n = true
    · rw [if_pos hn, range_succ]
      simp [hn]
    · simp [hn]

theorem kept_getElem? (han : a < n) (ha : kept a = true) :
    ((range n).filter kept)[rank kept a]? = some a := by
  obtain ⟨i, hi⟩ := mem_iff_getElem?.mp
    (mem_filter.mpr ⟨mem_range.mpr han, ha⟩ : a ∈ (range n).filter kept)
  have hnum : (((range n).filter kept).map (rank kept))[i]? = some (rank kept a) := by
    rw [getElem?_map, hi, Option.map_some]
  rw [map_rank_kept, getElem?_range] at hnum
  · rw [Option.some.injEq] at hnum
    rwa [← hnum]
  · rw [← length_kept]
    exact (List.getElem?_eq_some_iff.mp hi).1

theorem perm_map_rank {l : List Nat} (h : l.Perm ((range n).filter kept)) :
    (l.map (rank kept)).Perm (range (rank kept n)) := by
  rw [← map_rank_kept]
  exact h.map _

end Rank

/-! ## Strides of a row-major array -/

/-- The distance between neighbours along axis `a`. -/
def stride (shape : List Nat) (a : Nat) : Nat := (shape.drop (a + 1)).prod

theorem stride_succ {shape : List Nat} {a : Nat} (ha : a + 1 < shape.length) :
    stride shape a = shape.getD (a + 1) 0 * stride shape (a + 1) := by
  rw [stride, stride, drop_eq_getElem_cons ha, prod_cons, getD_eq_getElem _ _ ha]

theorem stride_eq_prod {shape order : List Nat} (horder : order.Perm (range shape.length))
    (a : Nat) : stride shape a = (order.map fun k => if a < k then shape.getD k 0 else 1).prod := by
  rw [(horder.map _).prod_eq]
  clear horder
  unfold stride
  induction shape using List.reverseRecOn with
  | nil => simp
  | append_singleton shape d ih =>
    rw [length_append, length_singleton, range_succ, map_append,
      prod_append, map_singleton, prod_singleton]
    have hinit : (range shape.length).map
        (fun k => if a < k then (shape ++ [d]).getD k 0 else 1) =
        (range shape.length).map fun k => if a < k then shape.getD k 0 else 1 := by
      refine map_congr_left fun k hk => ?_
      rw [getD_append _ _ _ _ (mem_range.mp hk)]
    rw [hinit, ← ih]
    have hlast : (shape ++ [d]).getD shape.length 0 = d := by simp
    by_cases ha : a < shape.length
    · rw [if_pos ha, hlast, drop_append_of_le_length (by omega), prod_append,
        prod_singleton]
    · rw [if_neg ha, drop_of_length_le (by simp; omega),
        drop_of_length_le (by omega)]
      rfl

/-! ## Reading with given strides -/

/-- Sizes and input strides of the output axes, outermost first. -/
abbrev Axes := List (Nat × Nat)

namespace Axes

def count (l : Axes) : Nat := (l.map Prod.fst).prod

/-- The input offset of output offset `o`. -/
def readAt : Axes → Nat → Nat
  | [], _ => 0
  | (d, s) :: rest, o => o / count rest % d * s + readAt rest o

/-- Axes that are read alike, as the outer axes of others see them too. -/
structure Same (l l' : Axes) : Prop where
  count : count l = count l'
  readAt : ∀ o, readAt l o = readAt l' o

theorem Same.refl (l : Axes) : Same l l := ⟨rfl, fun _ => rfl⟩

theorem Same.trans {l l' l'' : Axes} (h : Same l l') (h' : Same l' l'') : Same l l'' :=
  ⟨h.count.trans h'.count, fun o => (h.readAt o).trans (h'.readAt o)⟩

theorem Same.symm {l l' : Axes} (h : Same l l') : Same l' l :=
  ⟨h.count.symm, fun o => (h.readAt o).symm⟩

theorem Same.cons {l l' : Axes} (h : Same l l') (x : Nat × Nat) : Same (x :: l) (x :: l') where
  count := by
    have := h.count
    simp only [Axes.count, map_cons, prod_cons] at this ⊢
    rw [this]
  readAt := by
    intro o
    rw [Axes.readAt, Axes.readAt, h.count, h.readAt]

theorem Same.prepend {l l' : Axes} (h : Same l l') (before : Axes) :
    Same (before ++ l) (before ++ l') := by
  induction before with
  | nil => exact h
  | cons x before ih => exact ih.cons x

theorem dropUnit (s : Nat) (l : Axes) : Same ((1, s) :: l) l where
  count := by simp [count]
  readAt := by
    intro o
    simp [readAt, Nat.mod_one]

theorem dropUnits (l : Axes) : Same l (l.filter fun x => x.1 ≠ 1) := by
  induction l with
  | nil => exact .refl _
  | cons x l ih =>
    obtain ⟨d, s⟩ := x
    by_cases hd : d = 1
    · subst hd
      simpa using (dropUnit s l).trans ih
    · have hkeep : ((d, s) :: l).filter (fun x => x.1 ≠ 1) =
          (d, s) :: l.filter fun x => x.1 ≠ 1 := by simp [hd]
      rw [hkeep]
      exact ih.cons _

/-- An axis and its inner neighbour in the input and the output are one axis. -/
theorem merge (d d' s : Nat) (l : Axes) : Same ((d, d' * s) :: (d', s) :: l) ((d * d', s) :: l) where
  count := by simp [count, mul_assoc]
  readAt := by
    intro o
    have hcount : count ((d', s) :: l) = count l * d' := by
      simp [count, mul_comm]
    simp only [readAt]
    rw [hcount, ← Nat.div_div_eq_div_mul, mul_comm d d', Nat.mod_mul]
    ring

end Axes

end MyOperator.Lib
