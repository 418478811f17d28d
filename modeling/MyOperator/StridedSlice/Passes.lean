import MyOperator.StridedSlice.Rewrites

/-!
# The passes of the tiling are rewrites

The five lists of the tiling are one list of axes. A pass walks over it and builds a new one
at whose end it appends or fuses, so the axes built and the axes still to come are, at every
turn, a rewriting of the axes it started from.
-/

namespace MyOperator.StridedSlice

open List

namespace SliceParametersRuntime2

/-- The five lists of a list of axes. -/
def ofAxes (l : List SliceAxis) (isBeginConst isEndConst : Bool) : SliceParametersRuntime2 where
  inputShape := l.map SliceAxis.input
  outputShape := l.map SliceAxis.output
  beginList := l.map SliceAxis.begin
  endList := l.map SliceAxis.end
  strideList := l.map SliceAxis.stride
  isBeginConst := isBeginConst
  isEndConst := isEndConst

/-- The axes of the five lists. -/
def axes (param : SliceParametersRuntime2) : List SliceAxis :=
  (range param.inputShape.length).map param.axis

variable (b e : Bool)

variable {l : List SliceAxis} {i : Nat} {a : SliceAxis}

theorem getD_map (h : l[i]? = some a) (f : SliceAxis → Int) : (l.map f).getD i 0 = f a := by
  rw [getD_eq_getElem?_getD, getElem?_map, h]
  rfl

theorem ofAxes_axis (h : l[i]? = some a) : (ofAxes l b e).axis i = a := by
  unfold axis ofAxes
  simp only [getD_map h]

@[simp] theorem length_ofAxes (l : List SliceAxis) : (ofAxes l b e).inputShape.length = l.length :=
  length_map _

theorem axes_ofAxes (l : List SliceAxis) : (ofAxes l b e).axes = l := by
  unfold axes
  rw [length_ofAxes]
  apply ext_getElem?
  intro i
  rw [getElem?_map]
  by_cases hi : i < l.length
  · rw [getElem?_range hi, getElem?_eq_getElem hi, Option.map_some,
      ofAxes_axis b e (getElem?_eq_getElem hi)]
  · rw [getElem?_eq_none (by simpa using hi), getElem?_eq_none (by simpa using hi)]
    rfl

theorem ofAxes_append (l : List SliceAxis) (a : SliceAxis) :
    (ofAxes l b e).append a = ofAxes (l ++ [a]) b e := by
  simp [append, ofAxes]

theorem ofAxes_set (l : List SliceAxis) (i : Nat) (a : SliceAxis) :
    (ofAxes l b e).set i a = ofAxes (l.set i a) b e := by
  simp [set, ofAxes, map_set]

theorem ofAxes_stride (h : l[i]? = some a) :
    (ofAxes l b e).strideList.getD i 0 = a.stride := getD_map h SliceAxis.stride

end SliceParametersRuntime2

open SliceParametersRuntime2 (ofAxes ofAxes_axis ofAxes_append ofAxes_set ofAxes_stride
  length_ofAxes)
open SliceAxis (Good)

/-- The state of a pass that has built the axes `l`. -/
def built (l : List SliceAxis) : SliceParametersRuntime2 × Nat := (ofAxes l true true, l.length)

/-! ## The loops -/

/-- A step of a pass appends the next axis, leaves it out or changes the last one, and either
way rewrites. -/
def StepRewrites (param : SliceParametersRuntime2)
    (step : SliceParametersRuntime2 → SliceParametersRuntime2 × Nat → Nat →
      SliceParametersRuntime2 × Nat) : Prop :=
  ∀ (i : Nat) (a : SliceAxis) (done rest : List SliceAxis), param.axis i = a →
    (i = 0 ∨ done ≠ []) → ∃ done' : List SliceAxis, done' ≠ [] ∧
      step param (built done) i = built done' ∧ Rewrites (done ++ a :: rest) (done' ++ rest)

theorem loop_rewrites {l : List SliceAxis}
    {step : SliceParametersRuntime2 → SliceParametersRuntime2 × Nat → Nat →
      SliceParametersRuntime2 × Nat} (hstep : StepRewrites (ofAxes l true true) step) (n : Nat) :
    ∀ (s : Nat) (done : List SliceAxis), s + n = l.length → (s = 0 ∨ done ≠ []) →
      ∃ done', (List.range' s n).foldl (step (ofAxes l true true)) (built done) = built done' ∧
        Rewrites (done ++ l.drop s) done' := by
  induction n with
  | zero =>
    intro s done hlength _
    refine ⟨done, rfl, ?_⟩
    rw [drop_eq_nil_of_le (by omega), append_nil]
    exact .refl _
  | succ n ih =>
    intro s done hlength hdone
    have hs : s < l.length := by omega
    obtain ⟨done1, hne, hrun, hrewrite⟩ := hstep s l[s] done (l.drop (s + 1))
      (ofAxes_axis _ _ (getElem?_eq_getElem hs)) hdone
    obtain ⟨done', hfold, hrest⟩ := ih (s + 1) done1 (by omega) (.inr hne)
    refine ⟨done', ?_, ?_⟩
    · rw [range'_succ, foldl_cons, hrun, hfold]
    · rw [drop_eq_getElem_cons hs]
      exact hrewrite.trans hrest

theorem pass_rewrites {l : List SliceAxis}
    {step : SliceParametersRuntime2 → SliceParametersRuntime2 × Nat → Nat →
      SliceParametersRuntime2 × Nat} (hstep : StepRewrites (ofAxes l true true) step) :
    ∃ l', (range (ofAxes l true true).inputShape.length).foldl (step (ofAxes l true true))
        ((ofAxes l true true).empty, 0) = built l' ∧ Rewrites l l' := by
  obtain ⟨l', hfold, hrewrite⟩ := loop_rewrites hstep l.length 0 [] (Nat.zero_add _) (.inl rfl)
  refine ⟨l', ?_, hrewrite⟩
  rw [length_ofAxes, range_eq_range']
  exact hfold

/-! ## One step of each pass -/

theorem getLast_split {done : List SliceAxis} (hne : done ≠ []) :
    ∃ init p, done = init ++ [p] ∧ done.length - 1 = init.length ∧ done[init.length]? = some p := by
  refine ⟨done.dropLast, done.getLast hne, (dropLast_concat_getLast hne).symm, ?_, ?_⟩
  · rw [length_dropLast]
  · rw [length_dropLast, ← getLast?_eq_getElem?, getLast?_eq_getLast_of_ne_nil hne]

theorem set_last (init : List SliceAxis) (p f : SliceAxis) :
    (init ++ [p]).set init.length f = init ++ [f] := by
  simp

/-- The turn of a pass whose axis, clipped to `stride`, is appended or fused with the last one. -/
theorem append_or_fuse {i : Nat} {a : SliceAxis} {done rest : List SliceAxis} {s stride : Int}
    (f : SliceAxis → SliceAxis) (hdone : i = 0 ∨ done ≠ [])
    (hclip : Rewrites (a :: rest) ({ a with stride := stride } :: rest))
    (hfuse : ∀ p : SliceAxis, a.input = a.output → p.stride = s → stride = s →
      Rewrites (p :: { a with stride := stride } :: rest) (f p :: rest)) :
    ∃ done' : List SliceAxis, done' ≠ [] ∧
      (if i = 0 ∨ a.input ≠ a.output ∨ stride ≠ s ∨
          (ofAxes done true true).strideList.getD (done.length - 1) 0 ≠ s then
        ((ofAxes done true true).append { a with stride := stride }, done.length + 1)
      else ((ofAxes done true true).set (done.length - 1)
        (f ((ofAxes done true true).axis (done.length - 1))), done.length)) = built done' ∧
      Rewrites (done ++ a :: rest) (done' ++ rest) := by
  split_ifs with hpush
  · refine ⟨done ++ [{ a with stride := stride }], by simp, ?_, ?_⟩
    · rw [ofAxes_append, built, length_append]
      rfl
    · rw [append_assoc]
      exact hclip.prepend done
  · rw [not_or, not_or, not_or, not_not, not_not, not_not] at hpush
    obtain ⟨hi, hwhole, hstride, hlast⟩ := hpush
    obtain ⟨init, p, rfl, hlength, hget⟩ := getLast_split (hdone.resolve_left hi)
    rw [hlength, ofAxes_stride _ _ hget] at hlast
    refine ⟨init ++ [f p], by simp, ?_, ?_⟩
    · rw [hlength, ofAxes_axis _ _ hget, ofAxes_set, set_last, built]
      simp
    · rw [append_assoc, append_assoc]
      exact (hclip.prepend [p]).trans (hfuse p hwhole hlast hstride) |>.prepend init

theorem perfStep_rewrites (l : List SliceAxis) : StepRewrites (ofAxes l true true) perfStep := by
  intro i a done rest haxis hdone
  have hconst : (!(ofAxes l true true).isBeginConst && decide (a.begin < 0)) = false := rfl
  unfold perfStep built
  dsimp only
  rw [haxis, hconst]
  refine append_or_fuse (fun p => ⟨p.input * a.input, p.output * a.output, p.begin * a.input,
    p.end * a.input, 1⟩) hdone (.clipUp a rest) ?_
  intro p hwhole hlast hstride
  refine .fuse rest (.inl rfl) hwhole hlast hstride (fun hgood => ?_) fun hgood => ?_
  · rw [(hgood.begin_whole hwhole).1 hstride, Int.add_zero]
  · rw [(hgood.begin_whole hwhole).1 hstride, Int.add_zero]

theorem perfNegStep_rewrites (l : List SliceAxis) :
    StepRewrites (ofAxes l true true) perfNegStep := by
  intro i a done rest haxis hdone
  unfold perfNegStep built
  dsimp only
  rw [haxis]
  by_cases hunit : a.input = 1 ∧ a.output = 1 ∧ i ≠ 0
  · rw [if_pos hunit]
    exact ⟨done, hdone.resolve_left hunit.2.2, rfl,
      (Rewrites.drop rest hunit.1 hunit.2.1).prepend done⟩
  · rw [if_neg hunit]
    refine append_or_fuse (fun p => ⟨p.input * a.input, p.output * a.output,
      p.begin * a.input + a.input - 1, p.end * a.input + a.input - 1, -1⟩) hdone
      (.clipBoth a rest) ?_
    intro p hwhole hlast hstride
    refine .fuse rest (.inr rfl) hwhole hlast hstride (fun hgood => ?_) fun hgood => ?_
    · rw [(hgood.begin_whole hwhole).2 hstride, Int.add_sub_assoc]
    · rw [(hgood.begin_whole hwhole).2 hstride, Int.add_sub_assoc]

/-! ## The other rewrites -/

/-- What the last loop makes of an axis. -/
def unitAxis (a : SliceAxis) : SliceAxis :=
  if a.output = 1 ∧ a.stride < 0 then { a with stride := 1, «end» := a.begin + 1 } else a

theorem unitStep_eq {before rest : List SliceAxis} {a : SliceAxis} :
    unitStep (ofAxes (before ++ a :: rest) true true) before.length =
      ofAxes (before ++ unitAxis a :: rest) true true := by
  have hget : (before ++ a :: rest)[before.length]? = some a := by simp
  unfold unitStep unitAxis
  rw [ofAxes_axis _ _ hget]
  dsimp only
  split
  · rw [ofAxes_set]
    simp
  · rfl

theorem unitLoop_rewrites (l : List SliceAxis) : ∀ before : List SliceAxis,
    ∃ l', (List.range' before.length l.length).foldl unitStep (ofAxes (before ++ l) true true) =
      ofAxes (before ++ l') true true ∧ Rewrites (before ++ l) (before ++ l') := by
  induction l with
  | nil => exact fun before => ⟨[], rfl, .refl _⟩
  | cons a l ih =>
    intro before
    obtain ⟨l', hfold, hrewrite⟩ := ih (before ++ [unitAxis a])
    rw [length_append, append_assoc, append_assoc] at hfold
    rw [append_assoc, append_assoc] at hrewrite
    refine ⟨unitAxis a :: l', ?_, ?_⟩
    · rw [length_cons, range'_succ, foldl_cons, unitStep_eq]
      exact hfold
    · refine Rewrites.trans (Rewrites.prepend ?_ before) hrewrite
      unfold unitAxis
      split
      · rename_i hunit
        exact .unit l hunit.1
      · exact .refl _

theorem splitLastStride_rewrites (l : List SliceAxis) (hne : l ≠ []) :
    ∃ l', splitLastStride (ofAxes l true true) = ofAxes l' true true ∧ Rewrites l l' := by
  obtain ⟨init, a, rfl, hlength, hget⟩ := getLast_split hne
  unfold splitLastStride
  rw [length_ofAxes]
  dsimp only
  rw [hlength, ofAxes_axis _ _ hget]
  split
  · rename_i hsplit
    obtain ⟨hstride, hmod, hdiv, hout⟩ := hsplit
    have hinput : a.input.tdiv a.stride * a.stride = a.input := by
      have hsum := Int.mul_tdiv_add_tmod a.input a.stride
      rw [hmod, Int.add_zero, Int.mul_comm] at hsum
      exact hsum
    have hc : Good a → a.begin.tmod a.stride = a.begin ∧ a.begin.tmod a.stride < a.stride := by
      intro _
      have hsum := Int.mul_tdiv_add_tmod a.begin a.stride
      rw [hdiv, Int.mul_zero, Int.zero_add] at hsum
      exact ⟨hsum, Int.tmod_lt_of_pos _ (by omega)⟩
    refine ⟨init ++ [⟨a.input.tdiv a.stride, a.output, 0, 0 + a.output, 1⟩,
      ⟨a.stride, 1, a.begin.tmod a.stride, a.begin.tmod a.stride + 1, 1⟩], ?_, ?_⟩
    · rw [hdiv, ofAxes_set, set_last, ofAxes_append, append_assoc]
      rfl
    · exact (Rewrites.split [] hstride hinput hout hc).prepend init
  · exact ⟨_, rfl, .refl _⟩

/-! ## The whole rewriting -/

theorem makePerformanceParamsNeg_rewrites (l : List SliceAxis) :
    ∃ l', makePerformanceParamsNeg (ofAxes l true true) = ofAxes l' true true ∧ Rewrites l l' := by
  obtain ⟨l1, hpass, hrewrite1⟩ := pass_rewrites (perfNegStep_rewrites l)
  obtain ⟨l2, hunit, hrewrite2⟩ := unitLoop_rewrites l1 []
  refine ⟨l2, ?_, hrewrite1.trans hrewrite2⟩
  unfold makePerformanceParamsNeg
  rw [hpass]
  show (range (ofAxes l1 true true).inputShape.length).foldl unitStep _ = _
  rw [length_ofAxes, range_eq_range']
  exact hunit

theorem makePerformanceParams_rewrites (l : List SliceAxis) (isAdjustLastStride : Bool) :
    ∃ l', makePerformanceParams (ofAxes l true true) isAdjustLastStride = ofAxes l' true true ∧
      Rewrites l l' := by
  unfold makePerformanceParams
  by_cases hne : l = []
  · exact ⟨l, if_pos (by rw [hne]; rfl), .refl _⟩
  · rw [if_neg (show (ofAxes l true true).outputShape.length ≠ 0 by
      rw [ofAxes, length_map]
      exact mt length_eq_zero_iff.mp hne)]
    dsimp only
    generalize (range (ofAxes l true true).inputShape.length).any (fun i =>
      decide ((ofAxes l true true).strideList.getD i 0 < 0)) = hasNegStride
    obtain ⟨l1, hsplit, hrewrite1⟩ : ∃ l1, (if isAdjustLastStride && !hasNegStride &&
        (ofAxes l true true).isBeginConst && (ofAxes l true true).isEndConst
        then splitLastStride (ofAxes l true true) else ofAxes l true true) = ofAxes l1 true true ∧
        Rewrites l l1 := by
      split
      · exact splitLastStride_rewrites l hne
      · exact ⟨l, rfl, .refl _⟩
    obtain ⟨l2, hpass, hrewrite2⟩ := pass_rewrites (perfStep_rewrites l1)
    rw [hsplit, hpass]
    cases hasNegStride with
    | false => exact ⟨l2, rfl, hrewrite1.trans hrewrite2⟩
    | true =>
      obtain ⟨l3, hneg, hrewrite3⟩ := makePerformanceParamsNeg_rewrites l2
      exact ⟨l3, hneg, (hrewrite1.trans hrewrite2).trans hrewrite3⟩

end MyOperator.StridedSlice
