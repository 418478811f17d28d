import MyOperator.StridedSlice.Tiling
import MyOperator.Lib.StridedView

/-!
# Rewriting the axes of the tiling

Each pass changes one axis, or two neighbours, at a time. A change keeps the product of the
output lengths, and whether one of them is not positive; and where every axis is a proper
range of its input it keeps the flat offsets that the axes read.
-/

namespace MyOperator.StridedSlice

open List

open Lib (SliceRange ViewAxis)

namespace SliceAxis

/-- The axis as a view of the input. -/
def view (a : SliceAxis) : ViewAxis := ⟨a.input, a.output, a.begin, a.stride⟩

/-- The bounds of an axis as a range. -/
def range (a : SliceAxis) : SliceRange := ⟨a.begin, a.end, a.stride⟩

/-- The axis picks at least one position, all of them inside the input, and its output length
is what its bounds say. -/
structure Good (a : SliceAxis) : Prop where
  pos : 1 ≤ a.output
  length : a.output = a.range.length
  first : 0 ≤ a.begin ∧ a.begin < a.input
  last : 0 ≤ a.begin + (a.output - 1) * a.stride ∧ a.begin + (a.output - 1) * a.stride < a.input

end SliceAxis

open SliceAxis (Good)

/-- What every change of the axes keeps. -/
structure Rewrites (l l' : List SliceAxis) : Prop where
  count : ViewAxis.count (l.map SliceAxis.view) = ViewAxis.count (l'.map SliceAxis.view)
  input : (∀ a ∈ l, 0 < a.input) → ∀ a ∈ l', 0 < a.input
  empty : (∀ a ∈ l, 0 < a.input) → ((∃ a ∈ l, a.output ≤ 0) ↔ ∃ a ∈ l', a.output ≤ 0)
  good : (∀ a ∈ l, Good a) → ∀ a ∈ l', Good a
  same : (∀ a ∈ l, Good a) → ViewAxis.Same (l.map SliceAxis.view) (l'.map SliceAxis.view)

namespace Rewrites

variable {l l' l'' : List SliceAxis}

theorem refl (l : List SliceAxis) : Rewrites l l :=
  ⟨rfl, fun h => h, fun _ => Iff.rfl, fun h => h, fun _ => .refl _⟩

theorem trans (h : Rewrites l l') (h' : Rewrites l' l'') : Rewrites l l'' where
  count := h.count.trans h'.count
  input hl := h'.input (h.input hl)
  empty hl := (h.empty hl).trans (h'.empty (h.input hl))
  good hl := h'.good (h.good hl)
  same hl := (h.same hl).trans (h'.same (h.good hl))

theorem prepend (h : Rewrites l l') (before : List SliceAxis) :
    Rewrites (before ++ l) (before ++ l') where
  count := by
    rw [map_append, map_append, ViewAxis.count_append, ViewAxis.count_append, h.count]
  input hl a ha := by
    rcases mem_append.mp ha with ha | ha
    · exact hl a (mem_append_left _ ha)
    · exact h.input (fun b hb => hl b (mem_append_right _ hb)) a ha
  empty hl := by
    have hiff := h.empty fun b hb => hl b (mem_append_right _ hb)
    simp only [mem_append, or_and_right, exists_or, hiff]
  good hl a ha := by
    rcases mem_append.mp ha with ha | ha
    · exact hl a (mem_append_left _ ha)
    · exact h.good (fun b hb => hl b (mem_append_right _ hb)) a ha
  same hl := by
    rw [map_append, map_append]
    exact (h.same fun b hb => hl b (mem_append_right _ hb)).prepend _

theorem one {a a' : SliceAxis} (rest : List SliceAxis) (hinput : a'.input = a.input)
    (houtput : a'.output = a.output) (hgood : Good a → Good a')
    (hsame : Good a → ViewAxis.Same (a.view :: rest.map SliceAxis.view)
      (a'.view :: rest.map SliceAxis.view)) : Rewrites (a :: rest) (a' :: rest) where
  count := by simp only [map_cons, ViewAxis.count, SliceAxis.view, houtput]
  input hl b hb := by
    rcases mem_cons.mp hb with rfl | hb
    · rw [hinput]
      exact hl a mem_cons_self
    · exact hl b (mem_cons_of_mem _ hb)
  empty _ := by simp only [mem_cons, exists_eq_or_imp, houtput]
  good hl b hb := by
    rcases mem_cons.mp hb with rfl | hb
    · exact hgood (hl a mem_cons_self)
    · exact hl b (mem_cons_of_mem _ hb)
  same hl := hsame (hl a mem_cons_self)

end Rewrites

/-! ## One axis -/

variable {a p : SliceAxis}

theorem length_up {r : SliceRange} (hstep : 0 < r.step) (hbefore : r.start < r.stop) :
    r.length = (r.stop - r.start - 1) / r.step + 1 := by
  unfold SliceRange.length
  rw [if_neg (by omega), if_pos hbefore]

theorem length_down {r : SliceRange} (hstep : r.step < 0) (hbefore : r.stop < r.start) :
    r.length = (r.start - r.stop - 1) / (-r.step) + 1 := by
  unfold SliceRange.length
  rw [if_pos hstep, if_pos hbefore]

theorem SliceAxis.Good.direction (h : Good a) :
    (a.stride < 0 ∧ a.end < a.begin) ∨ (¬ a.stride < 0 ∧ a.begin < a.end) := by
  have hpos := h.pos
  rw [h.length] at hpos
  unfold SliceRange.length SliceAxis.range at hpos
  dsimp only at hpos
  split_ifs at hpos <;> omega

theorem length_eq_one {r : SliceRange} (hlong : (r.start < r.stop ∧ r.stop - r.start ≤ r.step) ∨
    (r.stop < r.start ∧ r.step ≤ r.stop - r.start)) : r.length = 1 := by
  rcases hlong with ⟨hbefore, hlong⟩ | ⟨hbefore, hlong⟩
  · rw [length_up (by omega) hbefore, Int.ediv_eq_zero_of_lt (by omega) (by omega)]
    rfl
  · rw [length_down (by omega) hbefore, Int.ediv_eq_zero_of_lt (by omega) (by omega)]
    rfl

theorem length_unit {r : SliceRange} (hunit : (r.step = 1 ∧ r.start < r.stop) ∨
    (r.step = -1 ∧ r.stop < r.start)) : r.length = (r.stop - r.start) * r.step := by
  rcases hunit with ⟨hstep, hbefore⟩ | ⟨hstep, hbefore⟩
  · rw [length_up (by omega) hbefore, hstep]
    omega
  · rw [length_down (by omega) hbefore, hstep, Int.neg_neg]
    omega

theorem SliceAxis.Good.clip (h : Good a) (hlong : (a.begin < a.end ∧ a.end - a.begin ≤ a.stride) ∨
    (a.end < a.begin ∧ a.stride ≤ a.end - a.begin)) :
    a.output = 1 ∧ Good { a with stride := a.end - a.begin } := by
  have hone : a.output = 1 := h.length.trans (length_eq_one hlong)
  refine ⟨hone, h.pos, hone.trans (length_eq_one ?_).symm, h.first, ?_⟩
  · show (a.begin < a.end ∧ a.end - a.begin ≤ a.end - a.begin) ∨
      (a.end < a.begin ∧ a.end - a.begin ≤ a.end - a.begin)
    omega
  · show 0 ≤ a.begin + (a.output - 1) * _ ∧ a.begin + (a.output - 1) * _ < a.input
    rw [hone]
    have hfirst := h.first
    omega

theorem Rewrites.clip (rest : List SliceAxis) {stride : Int} (hstride : Good a → stride = a.stride ∨
      (stride = a.end - a.begin ∧ ((a.begin < a.end ∧ a.end - a.begin ≤ a.stride) ∨
        (a.end < a.begin ∧ a.stride ≤ a.end - a.begin)))) :
    Rewrites (a :: rest) ({ a with stride := stride } :: rest) := by
  refine .one rest rfl rfl ?_ ?_
  · intro hgood
    rcases hstride hgood with heq | ⟨heq, hlong⟩
    · rw [heq]
      exact hgood
    · rw [heq]
      exact (hgood.clip hlong).2
  · intro hgood
    refine ViewAxis.restep _ ?_
    show a.stride = stride ∨ a.output ≤ 1
    rcases hstride hgood with heq | ⟨heq, hlong⟩
    · exact .inl heq.symm
    · exact .inr (hgood.clip hlong).1.le

theorem Rewrites.clipUp (a : SliceAxis) (rest : List SliceAxis) : Rewrites (a :: rest) ({ a with
      stride := if a.end > a.begin then min a.stride (a.end - a.begin) else a.stride } :: rest) := by
  refine .clip rest fun hgood => ?_
  split_ifs <;> omega

theorem Rewrites.clipBoth (a : SliceAxis) (rest : List SliceAxis) : Rewrites (a :: rest) ({ a with
      stride := if a.end > a.begin then min a.stride (a.end - a.begin)
        else max a.stride (a.end - a.begin) } :: rest) := by
  refine .clip rest fun hgood => ?_
  have := hgood.direction
  split_ifs <;> omega

theorem Rewrites.unit (rest : List SliceAxis) (hone : a.output = 1) :
    Rewrites (a :: rest) ({ a with stride := 1, «end» := a.begin + 1 } :: rest) := by
  refine .one rest rfl rfl ?_ ?_
  · intro hgood
    refine ⟨hgood.pos, ?_, hgood.first, ?_⟩
    · show a.output = (SliceRange.single a.begin).length
      rw [SliceRange.length_single, hone]
    · show 0 ≤ a.begin + (a.output - 1) * 1 ∧ a.begin + (a.output - 1) * 1 < a.input
      have := hgood.first
      omega
  · intro _
    exact ViewAxis.restep _ (.inr hone.le)

theorem Rewrites.drop (rest : List SliceAxis) (hinput : a.input = 1) (houtput : a.output = 1) :
    Rewrites (a :: rest) rest where
  count := by simp only [map_cons, ViewAxis.count, SliceAxis.view, houtput, Int.one_mul]
  input hl b hb := hl b (mem_cons_of_mem _ hb)
  empty _ := by
    simp only [mem_cons, exists_eq_or_imp, houtput]
    exact or_iff_right (by decide)
  good hl b hb := hl b (mem_cons_of_mem _ hb)
  same hl := by
    have hfirst := (hl a mem_cons_self).first
    exact ViewAxis.dropUnit _ hinput houtput (by show a.begin = 0; omega)

/-! ## Two axes -/

theorem SliceAxis.Good.output_unit (h : Good a) (hstride : a.stride = 1 ∨ a.stride = -1) :
    a.output = (a.end - a.begin) * a.stride := by
  have hdirection := h.direction
  refine h.length.trans (length_unit ?_)
  show (a.stride = 1 ∧ a.begin < a.end) ∨ (a.stride = -1 ∧ a.end < a.begin)
  omega

/-- A whole axis of step 1 starts at its first position, one of step -1 at its last. -/
theorem SliceAxis.Good.begin_whole (h : Good a) (hwhole : a.input = a.output) :
    (a.stride = 1 → a.begin = 0) ∧ (a.stride = -1 → a.begin = a.input - 1) := by
  have hfirst := h.first
  have hlast := h.last
  constructor
  · intro hstride
    rw [hstride] at hlast
    omega
  · intro hstride
    rw [hstride] at hlast
    omega

theorem flat_bounds {x y m n : Int} (hx : 0 ≤ x ∧ x < m) (hy : 0 ≤ y ∧ y < n) :
    0 ≤ x * n + y ∧ x * n + y < m * n := by
  have hstart : 0 ≤ x * n := Int.mul_nonneg hx.1 (by omega)
  have hless : (x + 1) * n ≤ m * n := Int.mul_le_mul_of_nonneg_right (by omega) (by omega)
  rw [Int.add_mul] at hless
  omega

theorem Rewrites.two {f : SliceAxis} (rest : List SliceAxis) (hwhole : a.input = a.output)
    (hinput : f.input = p.input * a.input) (houtput : f.output = p.output * a.output)
    (hgood : Good p → Good a → Good f) (hrun : Good p → Good a → ∀ i j : Int,
      f.begin + (i * a.output + j) * f.stride =
        (p.begin + i * p.stride) * a.input + (a.begin + j * a.stride)) :
    Rewrites (p :: a :: rest) (f :: rest) where
  count := by
    simp only [map_cons, ViewAxis.count, SliceAxis.view, houtput, Int.mul_assoc]
  input hl b hb := by
    rcases mem_cons.mp hb with rfl | hb
    · rw [hinput]
      exact Int.mul_pos (hl p mem_cons_self) (hl a (mem_cons_of_mem _ mem_cons_self))
    · exact hl b (mem_cons_of_mem _ (mem_cons_of_mem _ hb))
  empty hl := by
    have hpos : 0 < a.output := hwhole ▸ hl a (mem_cons_of_mem _ mem_cons_self)
    have hsign : p.output * a.output ≤ 0 ↔ p.output ≤ 0 := by
      rw [← not_lt, ← not_lt, mul_pos_iff_of_pos_right hpos]
    have hnot : ¬ a.output ≤ 0 := by omega
    simp only [mem_cons, exists_eq_or_imp, houtput, hsign, hnot, false_or]
  good hl b hb := by
    rcases mem_cons.mp hb with rfl | hb
    · exact hgood (hl p mem_cons_self) (hl a (mem_cons_of_mem _ mem_cons_self))
    · exact hl b (mem_cons_of_mem _ (mem_cons_of_mem _ hb))
  same hl := by
    have hp := hl p mem_cons_self
    have ha := hl a (mem_cons_of_mem _ mem_cons_self)
    exact ViewAxis.fuse _ (show 0 ≤ p.output by have := hp.pos; omega)
      (show 0 ≤ a.output by have := ha.pos; omega) hinput houtput
      (fun i j _ _ => hrun hp ha i j)

theorem Rewrites.fuse (rest : List SliceAxis) {s b e : Int} (hs : s = 1 ∨ s = -1)
    (hwhole : a.input = a.output) (hp : p.stride = s) (ha : a.stride = s)
    (hb : Good a → b = p.begin * a.input + a.begin) (he : Good a → e = p.end * a.input + a.begin) :
    Rewrites (p :: a :: rest) (⟨p.input * a.input, p.output * a.output, b, e, s⟩ :: rest) := by
  have hrun : Good p → Good a → ∀ i j : Int, b + (i * a.output + j) * s =
      (p.begin + i * p.stride) * a.input + (a.begin + j * a.stride) := by
    intro _ hga i j
    rw [hb hga, hp, ha, ← hwhole]
    ring
  refine .two rest hwhole rfl rfl (fun hgp hga => ?_) hrun
  have hpos : 0 < p.output * a.output := Int.mul_pos hgp.pos hga.pos
  have hspan : p.output * a.output = (e - b) * s := by
    rw [he hga, hb hga, ← hwhole, hgp.output_unit (hp ▸ hs), hp]
    ring
  refine ⟨hpos, hspan.trans (length_unit (r := ⟨b, e, s⟩) ?_).symm, ?_, ?_⟩
  · show (s = 1 ∧ b < e) ∨ (s = -1 ∧ e < b)
    rw [hspan] at hpos
    rcases hs with rfl | rfl <;> omega
  · show 0 ≤ b ∧ b < p.input * a.input
    rw [hb hga]
    exact flat_bounds hgp.first hga.first
  · -- the last position read is that of the last positions of the two axes
    show 0 ≤ b + (p.output * a.output - 1) * s ∧ b + (p.output * a.output - 1) * s < p.input * a.input
    have hlast := hrun hgp hga (p.output - 1) (a.output - 1)
    rw [show (p.output - 1) * a.output + (a.output - 1) = p.output * a.output - 1 by ring] at hlast
    rw [hlast]
    exact flat_bounds hgp.last hga.last

/-- Every multiple of the step is picked of an axis that it divides: the axis is one of step 1
over another of a single position `c`. -/
theorem Rewrites.split (rest : List SliceAxis) {n c : Int} (hstride : 1 < a.stride)
    (hinput : n * a.stride = a.input) (houtput : a.output = n)
    (hc : Good a → c = a.begin ∧ c < a.stride) :
    Rewrites (a :: rest) (⟨n, a.output, 0, 0 + a.output, 1⟩ :: ⟨a.stride, 1, c, c + 1, 1⟩ :: rest) where
  count := by simp only [map_cons, ViewAxis.count, SliceAxis.view, Int.one_mul]
  input hl b hb := by
    have hpos := hl a mem_cons_self
    rcases mem_cons.mp hb with rfl | hb
    · show 0 < n
      rw [← hinput] at hpos
      exact pos_of_mul_pos_left hpos (by omega)
    · rcases mem_cons.mp hb with rfl | hb
      · show 0 < a.stride
        omega
      · exact hl b (mem_cons_of_mem _ hb)
  empty _ := by
    simp only [mem_cons, exists_eq_or_imp]
    exact or_congr_right (or_iff_right (by decide)).symm
  good hl b hb := by
    have hgood := hl a mem_cons_self
    obtain ⟨heq, hlt⟩ := hc hgood
    have hpos := hgood.pos
    have hfirst := hgood.first
    rcases mem_cons.mp hb with rfl | hb
    · refine ⟨hpos, ?_, ?_, ?_⟩
      · show a.output = _
        rw [length_unit (.inl ⟨rfl, show 0 < 0 + a.output by omega⟩)]
        show a.output = (0 + a.output - 0) * 1
        omega
      · show (0 : Int) ≤ 0 ∧ 0 < n
        omega
      · show 0 ≤ 0 + (a.output - 1) * 1 ∧ 0 + (a.output - 1) * 1 < n
        omega
    · rcases mem_cons.mp hb with rfl | hb
      · refine ⟨Int.le_refl 1, (SliceRange.length_single c).symm, ?_, ?_⟩
        · show 0 ≤ c ∧ c < a.stride
          omega
        · show 0 ≤ c + (1 - 1) * 1 ∧ c + (1 - 1) * 1 < a.stride
          omega
      · exact hl b (mem_cons_of_mem _ hb)
  same hl := by
    have hgood := hl a mem_cons_self
    obtain ⟨heq, hlt⟩ := hc hgood
    have hpos := hgood.pos
    refine (ViewAxis.fuse (rest.map SliceAxis.view) (show 0 ≤ a.output by omega)
      (show (0 : Int) ≤ 1 by decide) hinput.symm (Int.mul_one _).symm fun i j _ hj => ?_).symm
    have hj : j = 0 := by
      change (j : Int) < 1 at hj
      omega
    show a.begin + (i * 1 + j) * a.stride = (0 + i * 1) * a.stride + (c + j * 1)
    rw [hj, heq]
    ring

end MyOperator.StridedSlice
