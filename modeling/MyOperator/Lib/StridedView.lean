import Mathlib

/-!
# Strided views of a flat array

A view picks from each axis of an array the positions `start`, `start + step`, … and reads
the array in row-major order. Two lists of axes are the same view when they read the same
flat offsets one after another; neighbouring axes may be fused, axes of length one dropped,
and a step that is never taken may be any.
-/

namespace MyOperator.Lib

open List

/-- One axis of a view: the length of the axis in the array, and what is picked of it. -/
structure ViewAxis where
  dim : Int
  size : Int
  start : Int
  step : Int
deriving DecidableEq, Repr

namespace ViewAxis

/-- The number of elements of an array with these axes. -/
def volume : List ViewAxis → Int
  | [] => 1
  | a :: l => a.dim * volume l

/-- The number of elements that are picked. -/
def count : List ViewAxis → Int
  | [] => 1
  | a :: l => a.size * count l

/-- The flat offsets that a view reads, in row-major order. -/
def offsets : List ViewAxis → List Int
  | [] => [0]
  | a :: l => (range a.size.toNat).flatMap fun (i : Nat) =>
    (offsets l).map fun o => (a.start + (i : Int) * a.step) * volume l + o

theorem count_append (l l' : List ViewAxis) : count (l ++ l') = count l * count l' := by
  induction l with
  | nil => simp [count]
  | cons a l ih => simp only [cons_append, count, ih, Int.mul_assoc]

/-- Two lists of axes that are read alike. -/
structure Same (l l' : List ViewAxis) : Prop where
  volume : volume l = volume l'
  offsets : offsets l = offsets l'

theorem Same.refl (l : List ViewAxis) : Same l l := ⟨rfl, rfl⟩

theorem Same.trans {l l' l'' : List ViewAxis} (h : Same l l') (h' : Same l' l'') : Same l l'' :=
  ⟨h.volume.trans h'.volume, h.offsets.trans h'.offsets⟩

theorem Same.symm {l l' : List ViewAxis} (h : Same l l') : Same l' l :=
  ⟨h.volume.symm, h.offsets.symm⟩

theorem Same.prepend {l l' : List ViewAxis} (h : Same l l') (before : List ViewAxis) :
    Same (before ++ l) (before ++ l') := by
  induction before with
  | nil => exact h
  | cons a before ih =>
    constructor
    · simp only [cons_append, ViewAxis.volume, ih.volume]
    · simp only [cons_append, ViewAxis.offsets, ih.volume, ih.offsets]

/-! ## Empty views -/

theorem offsets_eq_nil_iff (l : List ViewAxis) : offsets l = [] ↔ ∃ a ∈ l, a.size ≤ 0 := by
  induction l with
  | nil => simp [offsets]
  | cons a l ih =>
    rw [offsets, flatMap_eq_nil_iff]
    simp only [map_eq_nil_iff, mem_range, ih, mem_cons, exists_eq_or_imp]
    constructor
    · intro h
      by_cases hsize : a.size ≤ 0
      · exact .inl hsize
      · exact .inr (h 0 (by omega))
    · rintro (hsize | h) i hi
      · omega
      · exact h

theorem count_eq_zero_iff (l : List ViewAxis) : count l = 0 ↔ ∃ a ∈ l, a.size = 0 := by
  induction l with
  | nil => simp [count]
  | cons a l ih => simp only [count, Int.mul_eq_zero, ih, mem_cons, exists_eq_or_imp]

/-! ## Rewriting neighbouring axes -/

theorem range_mul {α : Type} (m n : Nat) (f : Nat → List α) :
    (range (m * n)).flatMap f =
      (range m).flatMap fun i => (range n).flatMap fun j => f (i * n + j) := by
  induction m with
  | zero => simp
  | succ m ih =>
    rw [Nat.succ_mul, range_add, flatMap_append, ih, range_succ,
      flatMap_append, flatMap_singleton, flatMap_map]

/-- An axis and its inner neighbour are one axis, if its positions run through theirs. -/
theorem fuse {a b f : ViewAxis} (rest : List ViewAxis) (ha : 0 ≤ a.size) (hb : 0 ≤ b.size)
    (hdim : f.dim = a.dim * b.dim) (hsize : f.size = a.size * b.size)
    (hrun : ∀ i j : Nat, (i : Int) < a.size → (j : Int) < b.size →
      f.start + (i * b.size + j) * f.step =
        (a.start + i * a.step) * b.dim + (b.start + j * b.step)) :
    Same (a :: b :: rest) (f :: rest) := by
  constructor
  · simp only [ViewAxis.volume, hdim]
    ring
  · have hcount : f.size.toNat = a.size.toNat * b.size.toNat := by
      rw [hsize, Int.toNat_mul ha hb]
    simp only [ViewAxis.offsets, ViewAxis.volume]
    rw [hcount, range_mul]
    refine flatMap_congr fun i hi => ?_
    rw [map_flatMap]
    refine flatMap_congr fun j hj => ?_
    rw [mem_range] at hi hj
    have hij := hrun i j (by omega) (by omega)
    rw [map_map]
    refine map_congr_left fun o _ => ?_
    have hcast : (((i * b.size.toNat + j : Nat)) : Int) = i * b.size + j := by
      push_cast
      rw [Int.toNat_of_nonneg hb]
    rw [Function.comp_apply, hcast, hij]
    ring

theorem dropUnit {a : ViewAxis} (rest : List ViewAxis) (hdim : a.dim = 1) (hsize : a.size = 1)
    (hstart : a.start = 0) : Same (a :: rest) rest := by
  constructor
  · simp only [ViewAxis.volume, hdim, Int.one_mul]
  · simp [ViewAxis.offsets, hsize, hstart]

theorem restep {a : ViewAxis} (rest : List ViewAxis) {step : Int} (hsame : a.step = step ∨ a.size ≤ 1) :
    Same (a :: rest) ({ a with step := step } :: rest) := by
  rcases hsame with rfl | hsize
  · exact .refl _
  · refine ⟨rfl, ?_⟩
    refine flatMap_congr fun i hi => ?_
    rw [mem_range] at hi
    have hzero : i = 0 := by omega
    rw [hzero]
    simp

end ViewAxis

end MyOperator.Lib
