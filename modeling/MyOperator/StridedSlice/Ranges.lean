import MyOperator.StridedSlice.Processing

/-!
# Known specifications

With begin, end and every dimension known, each axis gets the range that Python's slicing
gives its entry, or fails exactly when the entry cannot be taken of it.
-/

namespace MyOperator.StridedSlice

open List Option Bool

open Lib (SliceRange)
open Lib.SliceRange (stepsIn)

/-- Begin and end are given, and all dimensions are. -/
structure Known (params : StridedSliceParams) : Prop where
  beginValid : params.beginValid = true
  endValid : params.endValid = true
  realBeginValid : params.realBeginValid = true
  realEndValid : params.realEndValid = true
  dims : ∀ dim ∈ params.inputShape, 0 ≤ dim

/-! ## One axis -/

theorem canonical_begin {stride dim : Int} (hstride : stride ≠ 0) (hdim : 0 ≤ dim) (masked : Bool)
    (x : Int) (stop : Option Int) :
    canonical stride dim masked true false x =
      (SliceRange.ofSlice dim (if masked then none else some x) stop stride).start := by
  unfold canonical validRange
  cases masked
  · simp only [false_eq_true, if_false, Bool.not_true, SliceRange.ofSlice, SliceRange.adjust]
    split_ifs <;> omega
  · simp only [if_true, false_eq_true, if_false, SliceRange.ofSlice]
    split_ifs <;> omega

theorem canonical_end {stride dim : Int} (hstride : stride ≠ 0) (hdim : 0 ≤ dim) (masked : Bool)
    (x : Int) (start : Option Int) :
    canonical stride dim masked true true x =
      (SliceRange.ofSlice dim start (if masked then none else some x) stride).stop := by
  unfold canonical validRange
  cases masked
  · simp only [false_eq_true, if_false, Bool.not_true, SliceRange.ofSlice, SliceRange.adjust]
    split_ifs <;> omega
  · simp only [if_true, SliceRange.ofSlice]
    split_ifs <;> omega

theorem size_eq_length {r : SliceRange} (hstep : r.step ≠ 0) :
    (if r.stop - r.start = 0 ∨ decide (r.stop - r.start < 0) ≠ decide (r.step < 0) then 0
      else stepsIn (r.stop - r.start) r.step) = r.length := by
  by_cases hrev : r.Reversed
  · rw [if_pos, SliceRange.length_reversed hrev]
    unfold SliceRange.Reversed at hrev
    right
    rw [ne_eq, decide_eq_decide]
    omega
  · by_cases hempty : r.stop - r.start = 0
    · rw [if_pos (.inl hempty), SliceRange.length_eq_stepsIn hstep hrev, hempty]
      simp [stepsIn]
    · rw [if_neg, SliceRange.length_eq_stepsIn hstep hrev]
      unfold SliceRange.Reversed at hrev
      rw [ne_eq, decide_eq_decide]
      omega

theorem range_canonical {e : Entry} (hshrink : e.shrink = false) (hstride : e.stride ≠ 0)
    {dim : Int} (hdim : 0 ≤ dim) :
    e.range dim = ⟨canonical e.stride dim e.beginMasked true false e.begin,
      canonical e.stride dim e.endMasked true true e.end, e.stride⟩ := by
  unfold Entry.range
  rw [hshrink, if_neg Bool.false_ne_true,
    canonical_begin hstride hdim _ _ (if e.endMasked then none else some e.end),
    canonical_end hstride hdim _ _ (if e.beginMasked then none else some e.begin)]
  rfl

theorem stepsIn_one {stride : Int} (hstride : 0 < stride) : stepsIn 1 stride = 1 := by
  rw [← SliceRange.pos_pred_ediv (by decide) hstride]
  simp

theorem axisBounds_shrink {params : StridedSliceParams} (hbegin : params.realBeginValid = true)
    (hend : params.realEndValid = true) (begin_ end_ stride dim : Int)
    (beginMasked endMasked : Bool) :
    axisBounds params begin_ end_ stride dim true beginMasked endMasked =
      if fwdOutOfBound (if begin_ < 0 then dim + begin_ else begin_) 0 dim then none
      else some ((if begin_ < 0 then dim + begin_ else begin_),
        (if begin_ < 0 then dim + begin_ else begin_) + 1) := by
  unfold axisBounds
  rw [hbegin, hend]
  simp only [if_true]
  cases fwdOutOfBound (if begin_ < 0 then dim + begin_ else begin_) 0 dim <;> rfl

theorem axisBounds_range {params : StridedSliceParams} (hbegin : params.realBeginValid = true)
    (hend : params.realEndValid = true) (begin_ end_ stride dim : Int)
    (beginMasked endMasked : Bool) :
    axisBounds params begin_ end_ stride dim false beginMasked endMasked =
      some (canonical stride dim beginMasked true false begin_,
        canonical stride dim endMasked true true end_) := by
  unfold axisBounds
  rw [hbegin, hend]
  rfl

variable {params : StridedSliceParams}

theorem outOfBound_iff (fwd dim : Int) : fwdOutOfBound fwd 0 dim = true ↔ fwd < 0 ∨ dim ≤ fwd := by
  unfold fwdOutOfBound
  rw [or_eq_true, decide_eq_true_eq, decide_eq_true_eq]

theorem processEntry_known (h : Known params) (e : Entry) {dim : Int} (hdim : 0 ≤ dim) :
    processEntry params (e, dim) =
      if e.Invalid dim then none
      else some ⟨(e.range dim).length, (e.range dim).start, (e.range dim).stop, e.stride⟩ := by
  have hvalid : ((denseStart params).beginValid && (denseStart params).endValid) = true := by
    show (params.beginValid && params.endValid) = true
    rw [h.beginValid, h.endValid]
    rfl
  unfold processEntry processAxis Entry.unit
  by_cases hstride : e.stride = 0
  · rw [if_pos hstride, if_pos (.inl hstride)]
  · rw [if_neg hstride, if_neg (show dim ≠ -1 by omega), if_pos hvalid]
    unfold buildProcessingShape
    simp only [hvalid, if_true]
    cases hshrink : e.shrink with
    | true =>
      rw [axisBounds_shrink h.realBeginValid h.realEndValid]
      change (if (true && decide (e.stride ≤ 0)) = true then none
        else Option.map _ (if fwdOutOfBound (e.index dim) 0 dim = true then none
          else some (e.index dim, e.index dim + 1))) = _
      by_cases hneg : e.stride ≤ 0
      · rw [if_pos (by simpa using hneg), if_pos]
        exact .inr ⟨hshrink, .inl (by omega)⟩
      · rw [if_neg (by simpa using hneg)]
        by_cases hout : e.index dim < 0 ∨ dim ≤ e.index dim
        · rw [if_pos ((outOfBound_iff _ _).mpr hout), if_pos (.inr ⟨hshrink, .inr hout⟩)]
          rfl
        · have hvalid : ¬ e.Invalid dim := by
            unfold Entry.Invalid
            omega
          have hone : e.index dim + 1 - e.index dim = 1 := by omega
          rw [if_neg (mt (outOfBound_iff _ _).mp hout), if_neg hvalid, map_some]
          unfold Entry.range
          rw [if_pos hshrink, hone, stepsIn_one (by omega)]
          simp [SliceRange.single, SliceRange.length]
          omega
    | false =>
      have hvalid : ¬ e.Invalid dim := by
        unfold Entry.Invalid
        rw [hshrink]
        simp [hstride]
      have hrange := range_canonical hshrink hstride hdim
      rw [axisBounds_range h.realBeginValid h.realEndValid, Bool.false_and,
        if_neg Bool.false_ne_true, if_neg hvalid, map_some, ← size_eq_length, hrange]
      rw [hrange]
      exact hstride

/-! ## All of them -/

/-- What a known axis gives. -/
def rangeData (a : Entry × Int) : AxisData :=
  ⟨(a.1.range a.2).length, (a.1.range a.2).start, (a.1.range a.2).stop, a.1.stride⟩

theorem processAll_known (h : Known params) {l : List (Entry × Int)} (hdims : ∀ a ∈ l, 0 ≤ a.2) :
    processAll params l = if ∃ a ∈ l, a.1.Invalid a.2 then none else some (l.map rangeData) := by
  induction l with
  | nil => simp [processAll]
  | cons a l ih =>
    have hentry : processEntry params a =
        if a.1.Invalid a.2 then none else some (rangeData a) :=
      processEntry_known h a.1 (hdims a mem_cons_self)
    rw [processAll, ih fun b hb => hdims b (mem_cons_of_mem _ hb), hentry]
    by_cases ha : a.1.Invalid a.2
    · rw [if_pos ha, bind_none]
      exact (if_pos ⟨a, mem_cons_self, ha⟩).symm
    · rw [if_neg ha, bind_some]
      by_cases hl : ∃ b ∈ l, b.1.Invalid b.2
      · obtain ⟨b, hb, hbad⟩ := hl
        rw [if_pos ⟨b, hb, hbad⟩, if_pos ⟨b, mem_cons_of_mem _ hb, hbad⟩]
        rfl
      · have hnone : ¬ ∃ b ∈ a :: l, b.1.Invalid b.2 := by
          rintro ⟨b, hb, hbad⟩
          rcases mem_cons.mp hb with rfl | hb
          · exact ha hbad
          · exact hl ⟨b, hb, hbad⟩
        rw [if_neg hl, if_neg hnone]
        rfl

theorem finalOut_known (l : List (Option Entry)) (dims : List Int) :
    finalOut l (((reals l).zip dims).map rangeData) = outDims l dims := by
  induction l generalizing dims with
  | nil => rfl
  | cons s l ih =>
    cases s with
    | none =>
      rw [reals_none, finalOut, outDims, ih]
    | some e =>
      cases dims with
      | nil => rfl
      | cons dim dims =>
        rw [reals_some, zip_cons_cons, map_cons, finalOut, ih]
        rfl

/-- The axes that the walk gives: for a shrunk axis, the range of its single element. -/
theorem finalAxes_known (l : List (Option Entry)) (dims : List Int) :
    finalAxes false l ((((reals l).zip dims).map rangeData).zip dims) =
      ((reals l).zip dims).map fun a => (a.2, a.1.range a.2) := by
  induction l generalizing dims with
  | nil => rfl
  | cons s l ih =>
    cases s with
    | none =>
      rw [reals_none, finalAxes, ih]
      rfl
    | some e =>
      cases dims with
      | nil => rfl
      | cons dim dims =>
        rw [reals_some, zip_cons_cons, map_cons, zip_cons_cons, finalAxes, ih]
        congr 2
        unfold rangeData Entry.range
        cases e.shrink <;> rfl

theorem finalAxes_scalar {l : List (Option Entry)} (hreals : reals l = []) :
    finalAxes true l [] = l.map fun _ => (1, .single 0) := by
  induction l with
  | nil => rfl
  | cons s l ih =>
    cases s with
    | none => rw [finalAxes, if_pos rfl, ih hreals, map_cons]
    | some e => cases hreals

theorem axes_dims (h : Known params) : ∀ a ∈ axes params, 0 ≤ a.2 := by
  intro a ha
  exact h.dims a.2 (of_mem_zip ha).2

theorem inferShape_valid (h : Known params) (hvalid : ¬ Invalid params) :
    inferShape params = some (explicitParams params, outDims (slots params) params.inputShape) := by
  have hone : ¬ SeveralEllipses params := fun h => hvalid (.inl h)
  have hfew : ¬ TooManyIndices params := fun h => hvalid (.inr (.inl h))
  have hgood : ¬ ∃ a ∈ axes params, a.1.Invalid a.2 := fun h => hvalid (.inr (.inr h))
  have hout : finalOut (slots params) ((axes params).map rangeData) =
      outDims (slots params) params.inputShape := finalOut_known _ _
  have haxes : finalAxes params.inputShape.isEmpty (slots params)
      (((axes params).map rangeData).zip params.inputShape) = explicitAxes params := by
    unfold explicitAxes
    by_cases hscalar : params.inputShape = []
    · have hreals := length_reals_slots hone hfew
      rw [hscalar, length_nil, length_eq_zero_iff] at hreals
      rw [hscalar, zip_nil_right]
      exact finalAxes_scalar hreals
    · rw [if_neg hscalar, isEmpty_eq_false_iff.mpr hscalar]
      exact finalAxes_known _ _
  rw [inferShape_eq hone hfew, processAll_known h (axes_dims h), if_neg hgood, map_some,
    hout, haxes]
  rfl

theorem inferShape_eq_none_iff (h : Known params) : inferShape params = none ↔ Invalid params := by
  constructor
  · intro hnone
    by_contra hvalid
    rw [inferShape_valid h hvalid] at hnone
    cases hnone
  · intro hinvalid
    by_cases hone : SeveralEllipses params
    · exact inferShape_several hone
    · by_cases hfew : TooManyIndices params
      · exact inferShape_tooMany hone hfew
      · have hbad : ∃ a ∈ axes params, a.1.Invalid a.2 :=
          (hinvalid.resolve_left hone).resolve_left hfew
        rw [inferShape_eq hone hfew, processAll_known h (axes_dims h), if_pos hbad]
        rfl

end MyOperator.StridedSlice
