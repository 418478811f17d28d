import MyOperator.StridedSlice.Passes
import MyOperator.StridedSlice.Ranges

/-!
# What the tiling reads

The tiling computes the output lengths again from begin, end and step, without the test that
`BuildProcessingShape` makes for bounds in the wrong order. So it reads what the slice reads
as long as no axis has them in the wrong order, or the slice is empty by its formula too.
-/

namespace MyOperator.StridedSlice

open List

open Lib (SliceRange ViewAxis)
open Lib.SliceRange (stepsIn)
open SliceAxis (Good)
open SliceParametersRuntime2 (ofAxes axes_ofAxes getD_map length_ofAxes)

/-! ## The slice and the tiling as views -/

/-- The axes of the slice without masks, as a view of the input. -/
def sliceView (params : StridedSliceParams) : List ViewAxis :=
  (explicitAxes params).map fun a => ⟨a.1, a.2.length, a.2.start, a.2.step⟩

/-- The flat offsets of the slice, in row-major order. -/
def sliceOffsets (params : StridedSliceParams) : List Int := ViewAxis.offsets (sliceView params)

/-- The flat offsets that the tiling reads, in row-major order. -/
def SliceParametersRuntime2.offsets (param : SliceParametersRuntime2) : List Int :=
  ViewAxis.offsets (param.axes.map SliceAxis.view)

/-- The tiling reads what the slice reads, and counts as many elements as the shape `out`. -/
def Preserves (params : StridedSliceParams) (out : List Int) (final : SliceParametersRuntime2) :
    Prop := final.offsets = sliceOffsets params ∧ final.outputShape.prod = out.prod

/-! ## The lengths counted again -/

/-- The length counted again is zero. -/
def CountsZero (r : SliceRange) : Prop :=
  r.start = r.stop ∨
    (r.Reversed ∧ |r.step| < |r.stop - r.start| ∧ |r.stop - r.start| < 2 * |r.step|)

/-- The length counted again is not positive. -/
def CountsNone (r : SliceRange) : Prop :=
  r.start = r.stop ∨ (r.Reversed ∧ |r.step| ≤ |r.stop - r.start|)

instance (r : SliceRange) : Decidable (CountsZero r) := inferInstanceAs (Decidable (_ ∨ _))

instance (r : SliceRange) : Decidable (CountsNone r) := inferInstanceAs (Decidable (_ ∨ _))

theorem stepsIn_against {m s : Int} (hm : 0 < m) (hs : 0 < s) :
    (stepsIn (-m) s ≤ 0 ↔ s ≤ m) ∧ (stepsIn (-m) s = 0 ↔ s < m ∧ m < 2 * s) := by
  have hcount : stepsIn (-m) s = -(m / s) + if m % s ≠ 0 then 1 else 0 := by
    unfold stepsIn
    rw [Int.neg_tdiv, Int.neg_tmod, Int.tdiv_eq_ediv_of_nonneg hm.le,
      Int.tmod_eq_emod_of_nonneg hm.le]
    congr 2
    simp
  have hsum := Int.mul_ediv_add_emod m s
  have hlow := Int.emod_nonneg m hs.ne'
  have hhigh := Int.emod_lt_of_pos m hs
  have htwo := Int.le_ediv_iff_mul_le (a := 2) (b := m) hs
  rw [hcount]
  generalize m / s = q at *
  -- quotient 0, 1 or more: the remainder is the interval, what is over one step, or anything
  rcases Int.lt_trichotomy q 1 with hq | rfl | hq
  · have hzero : q = 0 ∨ q < 0 := by omega
    have hq0 : q = 0 := by
      rcases hzero with h | h
      · exact h
      · have : s * q ≤ s * (-1) := Int.mul_le_mul_of_nonneg_left (by omega) hs.le
        omega
    rw [hq0] at hsum
    split_ifs <;> omega
  · split_ifs <;> omega
  · split_ifs <;> omega

theorem stepsIn_reversed {r : SliceRange} (hrev : r.Reversed) :
    (stepsIn (r.stop - r.start) r.step ≤ 0 ↔ |r.step| ≤ |r.stop - r.start|) ∧
      (stepsIn (r.stop - r.start) r.step = 0 ↔
        |r.step| < |r.stop - r.start| ∧ |r.stop - r.start| < 2 * |r.step|) := by
  rcases hrev with ⟨hneg, hlt⟩ | ⟨hpos, hlt⟩
  · have h := stepsIn_against (m := r.stop - r.start) (s := -r.step) (by omega) (by omega)
    rw [SliceRange.stepsIn_neg_neg] at h
    rw [abs_of_neg hneg, abs_of_pos (show 0 < r.stop - r.start by omega)]
    exact h
  · have h := stepsIn_against (m := r.start - r.stop) (s := r.step) (by omega) hpos
    rw [Int.neg_sub] at h
    rw [abs_of_pos hpos, abs_of_neg (show r.stop - r.start < 0 by omega), Int.neg_sub]
    exact h

theorem length_pos {r : SliceRange} (hstep : r.step ≠ 0) (hrev : ¬ r.Reversed)
    (hne : r.start ≠ r.stop) : 0 < r.length := by
  unfold SliceRange.Reversed at hrev
  rcases Int.lt_or_gt_of_ne hstep with hneg | hpos
  · rw [length_down hneg (by omega)]
    have := Int.ediv_nonneg (show 0 ≤ r.start - r.stop - 1 by omega) (show 0 ≤ -r.step by omega)
    omega
  · rw [length_up hpos (by omega)]
    have := Int.ediv_nonneg (show 0 ≤ r.stop - r.start - 1 by omega) (show 0 ≤ r.step by omega)
    omega

theorem countsNone_iff {r : SliceRange} (hstep : r.step ≠ 0) :
    stepsIn (r.stop - r.start) r.step ≤ 0 ↔ CountsNone r := by
  unfold CountsNone
  by_cases heq : r.start = r.stop
  · simp [heq, stepsIn]
  · by_cases hrev : r.Reversed
    · simp [heq, hrev, (stepsIn_reversed hrev).1]
    · have := length_pos hstep hrev heq
      rw [SliceRange.length_eq_stepsIn hstep hrev] at this
      simp only [heq, hrev, false_and, or_false, iff_false]
      omega

theorem countsZero_iff {r : SliceRange} (hstep : r.step ≠ 0) :
    stepsIn (r.stop - r.start) r.step = 0 ↔ CountsZero r := by
  unfold CountsZero
  by_cases heq : r.start = r.stop
  · simp [heq, stepsIn]
  · by_cases hrev : r.Reversed
    · simp [heq, hrev, (stepsIn_reversed hrev).2]
    · have := length_pos hstep hrev heq
      rw [SliceRange.length_eq_stepsIn hstep hrev] at this
      simp only [heq, hrev, false_and, or_false, iff_false]
      omega

theorem CountsZero.none {r : SliceRange} (h : CountsZero r) : CountsNone r := by
  rcases h with heq | ⟨hrev, hlt, -⟩
  · exact .inl heq
  · exact .inr ⟨hrev, hlt.le⟩

/-! ## The axes that `InferShape` leaves -/

/-- A range of an axis: its step is not zero, and it stays inside. -/
structure Inside (a : Int × SliceRange) : Prop where
  pos : 0 < a.1
  step : a.2.step ≠ 0
  mem : ∀ k : Nat, (k : Int) < a.2.length → 0 ≤ a.2.get k ∧ a.2.get k < a.1

variable {params : StridedSliceParams}

theorem inside_single {dim i : Int} (hlow : 0 ≤ i) (hhigh : i < dim) :
    Inside (dim, SliceRange.single i) where
  pos := by
    show 0 < dim
    omega
  step := by
    show (1 : Int) ≠ 0
    decide
  mem := by
    intro k hk
    rw [SliceRange.length_single] at hk
    have hzero : k = 0 := by omega
    simp [hzero, SliceRange.get, SliceRange.single, hlow, hhigh]

theorem explicitAxes_inside (hpos : ∀ dim ∈ params.inputShape, 0 < dim) (hvalid : ¬ Invalid params) :
    ∀ a ∈ explicitAxes params, Inside a := by
  intro a ha
  unfold explicitAxes at ha
  split at ha
  · obtain ⟨_, -, rfl⟩ := mem_map.mp ha
    exact inside_single (by decide) (by decide)
  · obtain ⟨⟨entry, dim⟩, hmem, rfl⟩ := mem_map.mp ha
    have hdim : 0 < dim := hpos dim (of_mem_zip hmem).2
    have hgood : ¬ entry.Invalid dim := fun hbad => hvalid (.inr (.inr ⟨_, hmem, hbad⟩))
    dsimp only
    cases hshrink : entry.shrink with
    | true =>
      have hindex : ¬ (entry.stride < 0 ∨ entry.index dim < 0 ∨ dim ≤ entry.index dim) :=
        fun h => hgood (.inr ⟨hshrink, h⟩)
      unfold Entry.range
      rw [hshrink]
      exact inside_single (by omega) (by omega)
    | false =>
      have hstep : entry.stride ≠ 0 := fun h => hgood (.inl h)
      unfold Entry.range
      rw [hshrink]
      exact ⟨hdim, hstep, fun k hk => SliceRange.get_ofSlice_mem hdim.le hstep _ _ hk⟩

/-- The axis that `MakeSameDims` makes of a range. -/
def recounted (a : Int × SliceRange) : SliceAxis :=
  ⟨a.1, stepsIn (a.2.stop - a.2.start) a.2.step, a.2.start, a.2.stop, a.2.step⟩

theorem makeSameDims_eq (hinside : ∀ a ∈ explicitAxes params, Inside a) (shapeY out : List Int)
    (hbegin : params.realBeginValid = true) (hend : params.realEndValid = true) :
    makeSameDims (reconstruct shapeY (explicitParams params, out)) =
      ofAxes ((explicitAxes params).map recounted) true true := by
  unfold makeSameDims
  have hlengths : ((reconstruct shapeY (explicitParams params, out)).inputShape.length ==
      (reconstruct shapeY (explicitParams params, out)).beginList.length &&
      (reconstruct shapeY (explicitParams params, out)).inputShape.length ==
      (reconstruct shapeY (explicitParams params, out)).endList.length &&
      (reconstruct shapeY (explicitParams params, out)).inputShape.length ==
      (reconstruct shapeY (explicitParams params, out)).strideList.length) = true := by
    simp [reconstruct, explicitParams]
  simp only [hlengths, Bool.not_true, Bool.false_eq_true, if_false]
  unfold reconstruct explicitParams ofAxes
  simp only [map_map, SliceParametersRuntime2.mk.injEq]
  refine ⟨rfl, ?_, rfl, rfl, rfl, hbegin, hend⟩
  apply ext_getElem?
  intro i
  rw [length_map, getElem?_map, getElem?_map]
  by_cases hi : i < (explicitAxes params).length
  · have hget : (explicitAxes params)[i]? = some (explicitAxes params)[i] := getElem?_eq_getElem hi
    have hstep := (hinside _ (getElem_mem hi)).step
    rw [getElem?_range hi]
    simp only [Option.map_some, getD_eq_getElem?_getD, getElem?_map, hget,
      Option.getD_some, if_neg hstep]
    rfl
  · rw [getElem?_eq_none (by simpa using hi), getElem?_eq_none (by simpa using hi)]
    rfl

theorem recounted_good {a : Int × SliceRange} (h : Inside a) (hrev : ¬ a.2.Reversed)
    (hpos : 0 < stepsIn (a.2.stop - a.2.start) a.2.step) : Good (recounted a) := by
  have hlength := SliceRange.length_eq_stepsIn h.step hrev
  have hfirst := h.mem 0 (by rw [hlength]; exact hpos)
  have hlast := h.mem (stepsIn (a.2.stop - a.2.start) a.2.step - 1).toNat (by rw [hlength]; omega)
  unfold SliceRange.get at hfirst hlast
  rw [Int.toNat_of_nonneg (by omega)] at hlast
  rw [Nat.cast_zero, Int.zero_mul, Int.add_zero] at hfirst
  exact ⟨hpos, hlength.symm, hfirst, hlast⟩

/-! ## The sizes -/

theorem count_eq_prod (l : List SliceAxis) :
    ViewAxis.count (l.map SliceAxis.view) = (l.map SliceAxis.output).prod := by
  induction l with
  | nil => rfl
  | cons a l ih =>
    simp only [map_cons, ViewAxis.count, ih]
    rfl

theorem prod_outDims (l : List (Option Entry)) (dims : List Int)
    (hlength : (reals l).length ≤ dims.length) :
    (outDims l dims).prod = ViewAxis.count
      (((reals l).zip dims).map fun a => ⟨a.2, (a.1.range a.2).length, (a.1.range a.2).start,
        (a.1.range a.2).step⟩) := by
  induction l generalizing dims with
  | nil => rfl
  | cons s l ih =>
    cases s with
    | none =>
      rw [reals_none] at hlength ⊢
      rw [outDims, prod_cons, Int.one_mul, ih dims hlength]
    | some e =>
      cases dims with
      | nil =>
        rw [reals_some, length_cons, length_nil] at hlength
        omega
      | cons dim dims =>
        rw [reals_some, length_cons, length_cons] at hlength
        rw [reals_some, zip_cons_cons, map_cons, ViewAxis.count, outDims, ← ih dims (by omega)]
        cases hshrink : e.shrink with
        | true =>
          unfold Entry.range
          rw [hshrink]
          simp
        | false =>
          simp

theorem prod_out (hvalid : ¬ Invalid params) (hne : params.inputShape ≠ []) :
    (outDims (slots params) params.inputShape).prod = ViewAxis.count (sliceView params) := by
  have hreals := length_reals_slots (fun h => hvalid (.inl h)) (fun h => hvalid (.inr (.inl h)))
  rw [prod_outDims _ _ hreals.le]
  unfold sliceView explicitAxes
  rw [if_neg hne, map_map]
  rfl

/-! ## The two compared -/

/-- No bounds are in the wrong order. -/
def InOrder (params : StridedSliceParams) : Prop := ∀ a ∈ explicitAxes params, ¬ a.2.Reversed

instance (params : StridedSliceParams) : Decidable (InOrder params) :=
  inferInstanceAs (Decidable (∀ a ∈ _, _))

section compared

variable {l' : List SliceAxis}

theorem exists_mem_map {α β : Type} {f : α → β} {l : List α} {p : β → Prop} :
    (∃ b ∈ l.map f, p b) ↔ ∃ a ∈ l, p (f a) := by
  simp

theorem recounted_view {a : Int × SliceRange} (h : Inside a) (hrev : ¬ a.2.Reversed) :
    (recounted a).view = ⟨a.1, a.2.length, a.2.start, a.2.step⟩ := by
  rw [SliceRange.length_eq_stepsIn h.step hrev]
  rfl

theorem inOrder_same (hinside : ∀ a ∈ explicitAxes params, Inside a)
    (hrewrites : Rewrites ((explicitAxes params).map recounted) l') (horder : InOrder params) :
    ViewAxis.offsets (l'.map SliceAxis.view) = sliceOffsets params ∧
      ViewAxis.count (l'.map SliceAxis.view) = ViewAxis.count (sliceView params) := by
  have hview : ((explicitAxes params).map recounted).map SliceAxis.view = sliceView params := by
    rw [map_map]
    exact map_congr_left fun a ha => recounted_view (hinside a ha) (horder a ha)
  have hinput : ∀ a ∈ (explicitAxes params).map recounted, 0 < a.input := by
    intro a ha
    obtain ⟨b, hb, rfl⟩ := mem_map.mp ha
    exact (hinside b hb).pos
  refine ⟨?_, by rw [← hrewrites.count, hview]⟩
  by_cases hempty : ∃ a ∈ (explicitAxes params).map recounted, a.output ≤ 0
  · -- both read nothing
    have hempty' := (hrewrites.empty hinput).mp hempty
    have hnil : ∀ {l : List SliceAxis}, (∃ a ∈ l, a.output ≤ 0) →
        ViewAxis.offsets (l.map SliceAxis.view) = [] := by
      rintro l ⟨a, ha, hle⟩
      exact (ViewAxis.offsets_eq_nil_iff _).mpr ⟨_, mem_map_of_mem ha, hle⟩
    unfold sliceOffsets
    rw [← hview, hnil hempty, hnil hempty']
  · have hgood : ∀ a ∈ (explicitAxes params).map recounted, Good a := by
      intro a ha
      obtain ⟨b, hb, rfl⟩ := mem_map.mp ha
      refine recounted_good (hinside b hb) (horder b hb) ?_
      by_contra hle
      exact hempty ⟨_, ha, not_lt.mp hle⟩
    rw [sliceOffsets, ← hview]
    exact (hrewrites.same hgood).offsets.symm

theorem outOfOrder_empty (horder : ¬ InOrder params) :
    sliceOffsets params = [] ∧ ViewAxis.count (sliceView params) = 0 := by
  unfold InOrder at horder
  push Not at horder
  obtain ⟨a, ha, hrev⟩ := horder
  have hmem : (⟨a.1, a.2.length, a.2.start, a.2.step⟩ : ViewAxis) ∈ sliceView params :=
    mem_map_of_mem ha
  have hzero := SliceRange.length_reversed hrev
  exact ⟨(ViewAxis.offsets_eq_nil_iff _).mpr ⟨_, hmem, hzero.le⟩,
    (ViewAxis.count_eq_zero_iff _).mpr ⟨_, hmem, hzero⟩⟩

section

variable (hinside : ∀ a ∈ explicitAxes params, Inside a)
  (hrewrites : Rewrites ((explicitAxes params).map recounted) l')
include hinside hrewrites

theorem rewritten_nil_iff :
    ViewAxis.offsets (l'.map SliceAxis.view) = [] ↔ ∃ a ∈ explicitAxes params, CountsNone a.2 := by
  have hinput : ∀ a ∈ (explicitAxes params).map recounted, 0 < a.input := by
    intro a ha
    obtain ⟨b, hb, rfl⟩ := mem_map.mp ha
    exact (hinside b hb).pos
  rw [ViewAxis.offsets_eq_nil_iff, exists_mem_map]
  show (∃ a ∈ l', a.output ≤ 0) ↔ _
  rw [← hrewrites.empty hinput, exists_mem_map]
  exact exists_congr fun a => and_congr_right fun ha => countsNone_iff (hinside a ha).step

theorem rewritten_count_iff :
    ViewAxis.count (l'.map SliceAxis.view) = 0 ↔ ∃ a ∈ explicitAxes params, CountsZero a.2 := by
  rw [← hrewrites.count, ViewAxis.count_eq_zero_iff, exists_mem_map, exists_mem_map]
  exact exists_congr fun a => and_congr_right fun ha => countsZero_iff (hinside a ha).step

end

end compared

theorem tilingInput_known {shapeX : List Int} (hpos : ∀ dim ∈ shapeX, 0 < dim)
    (begins ends strides : List Int)
    (beginMask endMask ellipsisMask newAxisMask shrinkAxisMask : Nat) :
    (∀ dim ∈ (tilingInput shapeX begins ends strides beginMask endMask ellipsisMask newAxisMask
      shrinkAxisMask).inputShape, 0 < dim) ∧
    (tilingInput shapeX begins ends strides beginMask endMask ellipsisMask newAxisMask
      shrinkAxisMask).inputShape ≠ [] := by
  show (∀ dim ∈ ensureNotScalar shapeX, 0 < dim) ∧ ensureNotScalar shapeX ≠ []
  unfold ensureNotScalar
  cases shapeX with
  | nil => simp
  | cons dim shapeX => exact ⟨hpos, cons_ne_nil _ _⟩

/-- When the tiling reads the slice, and when it counts it as well: no bounds are in the wrong
order, or an axis is empty by the tiling's own formula. -/
theorem tiling_preserves_iff {shapeX begins ends strides shapeY out : List Int}
    {beginMask endMask ellipsisMask newAxisMask shrinkAxisMask : Nat}
    {inferred : StridedSliceParams} {final : SliceParametersRuntime2}
    (hpos : ∀ dim ∈ shapeX, 0 < dim)
    (hinfer : inferShape (tilingInput shapeX begins ends strides beginMask endMask ellipsisMask
      newAxisMask shrinkAxisMask) = some (inferred, out))
    (htiling : tiling4StridedSlice (tilingInput shapeX begins ends strides beginMask endMask
      ellipsisMask newAxisMask shrinkAxisMask) shapeY = some final) :
    (Preserves (tilingInput shapeX begins ends strides beginMask endMask ellipsisMask newAxisMask
        shrinkAxisMask) out final ↔
      InOrder (tilingInput shapeX begins ends strides beginMask endMask ellipsisMask newAxisMask
        shrinkAxisMask) ∨
      ∃ a ∈ explicitAxes (tilingInput shapeX begins ends strides beginMask endMask ellipsisMask
        newAxisMask shrinkAxisMask), CountsZero a.2) ∧
    (final.offsets = sliceOffsets (tilingInput shapeX begins ends strides beginMask endMask
        ellipsisMask newAxisMask shrinkAxisMask) ↔
      InOrder (tilingInput shapeX begins ends strides beginMask endMask ellipsisMask newAxisMask
        shrinkAxisMask) ∨
      ∃ a ∈ explicitAxes (tilingInput shapeX begins ends strides beginMask endMask ellipsisMask
        newAxisMask shrinkAxisMask), CountsNone a.2) := by
  obtain ⟨hdims, hne⟩ := tilingInput_known hpos begins ends strides beginMask endMask ellipsisMask
    newAxisMask shrinkAxisMask
  have hbegin : (tilingInput shapeX begins ends strides beginMask endMask ellipsisMask newAxisMask
    shrinkAxisMask).realBeginValid = true := rfl
  have hend : (tilingInput shapeX begins ends strides beginMask endMask ellipsisMask newAxisMask
    shrinkAxisMask).realEndValid = true := rfl
  have hknown : Known (tilingInput shapeX begins ends strides beginMask endMask ellipsisMask
    newAxisMask shrinkAxisMask) := ⟨rfl, rfl, rfl, rfl, fun dim h => (hdims dim h).le⟩
  generalize tilingInput shapeX begins ends strides beginMask endMask ellipsisMask newAxisMask
    shrinkAxisMask = params at *
  have hvalid : ¬ Invalid params := by
    rw [← inferShape_eq_none_iff hknown, hinfer]
    exact Option.some_ne_none _
  have hinside := explicitAxes_inside hdims hvalid
  have hshape := inferShape_valid hknown hvalid
  rw [hshape] at hinfer
  obtain ⟨rfl, rfl⟩ := hinfer
  -- the final parameters are a rewriting of the axes counted again
  obtain ⟨l', hfinal, hrewrites⟩ :=
    makePerformanceParams_rewrites ((explicitAxes params).map recounted) true
  unfold tiling4StridedSlice at htiling
  split at htiling
  · rw [hshape, Option.map_some, makeSameDims_eq hinside _ _ hbegin hend, hfinal,
      Option.some.injEq] at htiling
    subst htiling
    have hoffsets : (ofAxes l' true true).offsets = ViewAxis.offsets (l'.map SliceAxis.view) := by
      rw [SliceParametersRuntime2.offsets, axes_ofAxes]
    have hprod : (ofAxes l' true true).outputShape.prod =
        ViewAxis.count (l'.map SliceAxis.view) := (count_eq_prod l').symm
    unfold Preserves
    rw [hoffsets, hprod, prod_out hvalid hne]
    by_cases horder : InOrder params
    · obtain ⟨hsame, hcount⟩ := inOrder_same hinside hrewrites horder
      exact ⟨iff_of_true ⟨hsame, hcount⟩ (.inl horder), iff_of_true hsame (.inl horder)⟩
    · obtain ⟨hnil, hzero⟩ := outOfOrder_empty horder
      rw [hnil, hzero, rewritten_nil_iff hinside hrewrites, rewritten_count_iff hinside hrewrites]
      refine ⟨⟨fun h => .inr h.2, fun h => ?_⟩, ⟨.inr, fun h => h.resolve_left horder⟩⟩
      obtain ⟨a, ha, hcounts⟩ := h.resolve_left horder
      exact ⟨⟨a, ha, hcounts.none⟩, ⟨a, ha, hcounts⟩⟩
  · cases htiling

/-- Rows taken whole and columns from last to first: the tiling reads them so. -/
theorem tiling_preserves_mirrored :
    Preserves (tilingInput [4, 6] [0, -1] [4, -7] [1, -1] 0 0 0 0 0) [4, 6]
      ⟨[4, 6], [4, 6], [0, 5], [4, -1], [1, -1], true, true⟩ :=
  (@tiling_preserves_iff [4, 6] [0, -1] [4, -7] [1, -1] [4, 6] [4, 6] 0 0 0 0 0
    ⟨[4, 6], [0, 5], [4, -1], [1, -1], 0, 0, 0, 0, 0, true, true, true, true⟩
    ⟨[4, 6], [4, 6], [0, 5], [4, -1], [1, -1], true, true⟩ (by decide) (by decide +kernel)
    (by decide +kernel)).1.mpr (.inl (by decide +kernel))

/-- Of five elements, those from 3 up to 1 in steps of 3 are none, but the tiling reads one. -/
theorem empty_slice_read :
    ¬ ∀ (shapeX begins ends strides shapeY out : List Int)
      (beginMask endMask ellipsisMask newAxisMask shrinkAxisMask : Nat)
      (inferred : StridedSliceParams) (final : SliceParametersRuntime2), (∀ dim ∈ shapeX, 0 < dim) →
      inferShape (tilingInput shapeX begins ends strides beginMask endMask ellipsisMask newAxisMask
        shrinkAxisMask) = some (inferred, out) →
      tiling4StridedSlice (tilingInput shapeX begins ends strides beginMask endMask ellipsisMask
        newAxisMask shrinkAxisMask) shapeY = some final →
      Preserves (tilingInput shapeX begins ends strides beginMask endMask ellipsisMask newAxisMask
        shrinkAxisMask) out final := by
  intro h
  have hsame := h [5] [3] [1] [3] [0] [0] 0 0 0 0 0
    ⟨[5], [3], [1], [3], 0, 0, 0, 0, 0, true, true, true, true⟩ ⟨[5], [1], [3], [1], [3], true, true⟩
    (by decide) (by decide +kernel) (by decide +kernel)
  exact absurd hsame.2 (by decide)

end MyOperator.StridedSlice
