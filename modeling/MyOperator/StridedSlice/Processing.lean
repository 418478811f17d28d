import MyOperator.StridedSlice.Dense

/-!
# Inference as a walk over the axes

Once the dense specification holds the slots, the loop of `BuildProcessingData` treats each
axis by itself and `BuildFinalShape` reads the results off the gather list in order, so
the whole inference is one function of each axis and its entry.
-/

namespace MyOperator.StridedSlice

open List Option

open Lib (SliceRange)

/-! ## The loop over the axes -/

/-- What the loop reads for an entry. -/
def Entry.unit (e : Entry) (dim : Int) : InputParamUnit := ⟨e.begin, e.end, e.stride, dim, e.shrink⟩

/-- The body of the loop over the axes, for an entry. -/
def processEntry (params : StridedSliceParams) (a : Entry × Int) : Option AxisData :=
  processAxis (denseStart params) params (a.1.unit a.2) a.1.beginMasked a.1.endMasked

/-- The axes one after another, up to the first that fails. -/
def processAll (params : StridedSliceParams) : List (Entry × Int) → Option (List AxisData)
  | [] => some []
  | a :: l => (processEntry params a).bind fun r => (processAll params l).map (r :: ·)

/-- Several axes appended to the four lists. -/
def ProcessingData.addAll (data : ProcessingData) (rs : List AxisData) : ProcessingData where
  processingShape := data.processingShape ++ rs.map AxisData.size
  processingBegin := data.processingBegin ++ rs.map AxisData.begin
  processingEnd := data.processingEnd ++ rs.map AxisData.end
  processingStrides := data.processingStrides ++ rs.map AxisData.stride

theorem ProcessingData.add_addAll (data : ProcessingData) (r : AxisData) (rs : List AxisData) :
    (data.add r).addAll rs = data.addAll (r :: rs) := by
  simp [ProcessingData.add, ProcessingData.addAll]

variable {params : StridedSliceParams} {dense : StridedSliceDenseSpec}

/-- The parameters with the lists of the dense specification. -/
def withDense (params : StridedSliceParams) (dense : StridedSliceDenseSpec) : StridedSliceParams :=
  { params with begins := dense.begins, ends := dense.ends, strides := dense.strides }

theorem processAxis_flags (hflags : SameFlags (denseStart params) dense) (unit : InputParamUnit)
    (beginMasked endMasked : Bool) :
    processAxis dense (withDense params dense) unit beginMasked endMasked =
      processAxis (denseStart params) params unit beginMasked endMasked := by
  unfold processAxis buildProcessingShape
  rw [hflags.1, hflags.2]
  rfl

section

variable (hholds : dense.Holds params.inputShape.length (slots params))
  (hflags : SameFlags (denseStart params) dense)
include hholds hflags

theorem processStep_eq {i : Nat} {a : Entry × Int} (hget : (axes params)[i]? = some a)
    (data : ProcessingData) :
    processStep dense (withDense params dense) data i = (processEntry params a).map data.add := by
  obtain ⟨e, dim⟩ := a
  unfold axes at hget
  rw [getElem?_zip_eq_some] at hget
  have hentry : dense.entry i = e := hholds.entries i e hget.1
  have hdim : params.inputShape.getD i 0 = dim := by
    rw [getD_eq_getElem?_getD, hget.2, getD_some]
  unfold processStep
  rw [processAxis_flags hflags]
  subst hentry hdim
  rfl

theorem processSteps_eq {n : Nat} :
    ∀ {s : Nat} (data : ProcessingData), s + n = (axes params).length →
      (List.range' s n).foldlM (processStep dense (withDense params dense)) data =
        (processAll params ((axes params).drop s)).map data.addAll := by
  induction n with
  | zero =>
    intro s data hlength
    rw [drop_eq_nil_of_le (by omega)]
    simp [processAll, ProcessingData.addAll]
  | succ n ih =>
    intro s data hlength
    have hs : s < (axes params).length := by omega
    have hget : (axes params)[s]? = some (axes params)[s] := getElem?_eq_getElem hs
    rw [range'_succ, foldlM_cons, processStep_eq hholds hflags hget,
      drop_eq_getElem_cons hs, processAll]
    cases hfirst : processEntry params (axes params)[s] with
    | none => rfl
    | some r =>
      show (List.range' (s + 1) n).foldlM _ (data.add r) = _
      rw [ih (data.add r) (by omega), bind_some, Option.map_map]
      congr 1
      funext rs
      exact data.add_addAll r rs

end

/-! ## The loop over the gather list -/

/-- The output shape, from what the axes gave. -/
def finalOut : List (Option Entry) → List AxisData → List Int
  | none :: l, rs => 1 :: finalOut l rs
  | some e :: l, r :: rs => if e.shrink then finalOut l rs else r.size :: finalOut l rs
  | _, _ => []

/-- The axes of the canonical parameters, from what the axes of the input gave. -/
def finalAxes (scalar : Bool) : List (Option Entry) → List (AxisData × Int) → List (Int × SliceRange)
  | none :: l, rs =>
    if scalar then (1, .single 0) :: finalAxes scalar l rs else finalAxes scalar l rs
  | some e :: l, (r, dim) :: rs =>
    (dim, if e.shrink then .single r.begin else ⟨r.begin, r.end, r.stride⟩) ::
      finalAxes scalar l rs
  | _, _ => []

/-- The lists of `BuildFinalShape` for a list of axes. -/
def FinalShape.ofAxes (out : List Int) (l : List (Int × SliceRange)) (k : Nat) : FinalShape where
  outShape := out
  inputShape := l.map Prod.fst
  begins := l.map fun a => a.2.start
  ends := l.map fun a => a.2.stop
  strides := l.map fun a => a.2.step
  shrinkGatherIndex := k

theorem FinalShape.ofAxes_append (out : List Int) (l : List (Int × SliceRange)) (k : Nat)
    (a : Int × SliceRange) :
    FinalShape.ofAxes out (l ++ [a]) k = ⟨out, l.map Prod.fst ++ [a.1],
      (l.map fun a => a.2.start) ++ [a.2.start], (l.map fun a => a.2.stop) ++ [a.2.stop],
      (l.map fun a => a.2.step) ++ [a.2.step], k⟩ := by
  simp [FinalShape.ofAxes]

theorem getD_map_eq {α : Type} {l : List α} {k : Nat} {a : α} (h : l[k]? = some a) (f : α → Int) :
    (l.map f).getD k 0 = f a := by
  rw [getD_eq_getElem?_getD, getElem?_map, h]
  rfl

theorem gather_eq (rs : List (AxisData × Int)) (hdims : params.inputShape = rs.map Prod.snd) :
    ∀ (l : List (Option Entry)) (k : Nat) (out : List Int) (ax : List (Int × SliceRange)),
      k + (reals l).length ≤ rs.length →
      (codes l k).foldl (gatherStep (ProcessingData.addAll ⟨[], [], [], []⟩ (rs.map Prod.fst)) params)
          (.ofAxes out ax k) =
        .ofAxes (out ++ finalOut l ((rs.drop k).map Prod.fst))
          (ax ++ finalAxes params.inputShape.isEmpty l (rs.drop k)) (k + (reals l).length) := by
  intro l
  induction l with
  | nil =>
    intro k out ax _
    simp [codes, finalOut, finalAxes, reals]
  | cons s l ih =>
    intro k out ax hroom
    cases s with
    | none =>
      rw [codes, foldl_cons, finalOut, finalAxes]
      have hstep : gatherStep (ProcessingData.addAll ⟨[], [], [], []⟩ (rs.map Prod.fst)) params
          (.ofAxes out ax k) kStridedSliceNewAxis = .ofAxes (out ++ [1])
            (ax ++ if params.inputShape.isEmpty then [(1, .single 0)] else []) k := by
        unfold gatherStep
        rw [if_neg (by decide), if_pos rfl]
        cases params.inputShape.isEmpty
        · simp [FinalShape.ofAxes]
        · simp [FinalShape.ofAxes, SliceRange.single]
      rw [hstep, ih k _ _ hroom]
      cases params.inputShape.isEmpty <;> simp
    | some e =>
      rw [reals_some, length_cons] at hroom ⊢
      have hk : k < rs.length := by omega
      obtain ⟨⟨r, dim⟩, hget⟩ : ∃ a, rs[k]? = some a := ⟨_, getElem?_eq_getElem hk⟩
      have hdrop : rs.drop k = (r, dim) :: rs.drop (k + 1) := by
        rw [drop_eq_getElem_cons hk]
        rw [getElem?_eq_getElem hk, Option.some.injEq] at hget
        rw [hget]
      have hr : (rs.map Prod.fst)[k]? = some r := by rw [getElem?_map, hget]; rfl
      have hdim : params.inputShape.getD k 0 = dim := by rw [hdims, getD_map_eq hget]
      have hsize := getD_map_eq hr AxisData.size
      have hbegin := getD_map_eq hr AxisData.begin
      have hend := getD_map_eq hr AxisData.end
      have hstride := getD_map_eq hr AxisData.stride
      rw [codes, foldl_cons, hdrop, map_cons, finalOut, finalAxes,
        show k + ((reals l).length + 1) = k + 1 + (reals l).length by omega]
      cases hshrink : e.shrink with
      | true =>
        have hstep : gatherStep (ProcessingData.addAll ⟨[], [], [], []⟩ (rs.map Prod.fst))
            params (.ofAxes out ax k) kShrinkAxis =
            .ofAxes out (ax ++ [(dim, .single r.begin)]) (k + 1) := by
          rw [FinalShape.ofAxes_append]
          unfold gatherStep
          simp only [FinalShape.ofAxes, ProcessingData.addAll, nil_append, hdim, hbegin]
          rfl
        simp only [if_true]
        rw [hstep, ih (k + 1) _ _ (by omega), append_assoc, singleton_append]
      | false =>
        have hstep : gatherStep (ProcessingData.addAll ⟨[], [], [], []⟩ (rs.map Prod.fst))
            params (.ofAxes out ax k) (k : Int) =
            .ofAxes (out ++ [r.size]) (ax ++ [(dim, ⟨r.begin, r.end, r.stride⟩)]) (k + 1) := by
          rw [FinalShape.ofAxes_append]
          unfold gatherStep
          rw [if_pos (by omega)]
          simp only [FinalShape.ofAxes, ProcessingData.addAll, nil_append,
            Int.toNat_natCast, hdim, hsize, hbegin, hend, hstride]
        simp only [Bool.false_eq_true, if_false]
        rw [hstep, ih (k + 1) _ _ (by omega), append_assoc, append_assoc,
          singleton_append, singleton_append]

/-! ## The whole inference -/

theorem inferShape_unfold (hone : ¬ SeveralEllipses params) :
    inferShape params = (buildDenseSpec (sparseSpec params) (denseStart params)).bind fun dense =>
      (buildProcessingData dense (withDense params dense)).map fun data =>
        buildFinalShape data dense (withDense params dense) :=
  if_neg (mt (several_iff params).mp hone)

theorem inferShape_several (hseveral : SeveralEllipses params) : inferShape params = none :=
  if_pos ((several_iff params).mpr hseveral)

theorem inferShape_tooMany (hone : ¬ SeveralEllipses params) (hmany : TooManyIndices params) :
    inferShape params = none := by
  rw [inferShape_unfold hone, buildDenseSpec_overflow hone hmany]
  rfl

theorem length_processAll {l : List (Entry × Int)} {rs : List AxisData}
    (h : processAll params l = some rs) : rs.length = l.length := by
  induction l generalizing rs with
  | nil =>
    cases h
    rfl
  | cons a l ih =>
    obtain ⟨r, -, hrest⟩ := bind_eq_some_iff.mp h
    obtain ⟨rs', hrs, rfl⟩ := map_eq_some_iff.mp hrest
    rw [length_cons, length_cons, ih hrs]

/-- The parameters that `BuildFinalShape` leaves for a list of axes. -/
def withAxes (params : StridedSliceParams) (l : List (Int × SliceRange)) : StridedSliceParams :=
  { params with
    inputShape := l.map Prod.fst
    begins := l.map fun a => a.2.start
    ends := l.map fun a => a.2.stop
    strides := l.map fun a => a.2.step }

theorem inferShape_eq (hone : ¬ SeveralEllipses params) (hfew : ¬ TooManyIndices params) :
    inferShape params = (processAll params (axes params)).map fun rs =>
      (withAxes params (finalAxes params.inputShape.isEmpty (slots params)
        (rs.zip params.inputShape)), finalOut (slots params) rs) := by
  obtain ⟨dense, hdense, hholds, hflags⟩ := buildDenseSpec_fit hone hfew
  have hreals := length_reals_slots hone hfew
  have haxes : (axes params).length = params.inputShape.length := by
    unfold axes
    rw [length_zip, ← reals, hreals, Nat.min_self]
  have hsteps : buildProcessingData dense (withDense params dense) =
      (processAll params (axes params)).map (ProcessingData.addAll ⟨[], [], [], []⟩) := by
    unfold buildProcessingData
    rw [range_eq_range', processSteps_eq hholds hflags _ (by rw [Nat.zero_add, haxes]; rfl),
      drop_zero]
  rw [inferShape_unfold hone, hdense, bind_some, hsteps]
  cases hall : processAll params (axes params) with
  | none => rfl
  | some rs =>
    have hlength := length_processAll hall
    have hfst : (rs.zip params.inputShape).map Prod.fst = rs := map_fst_zip (by omega)
    have hsnd : (rs.zip params.inputShape).map Prod.snd = params.inputShape :=
      map_snd_zip (by omega)
    have hgather := @gather_eq (withDense params dense) (rs.zip params.inputShape)
      hsnd.symm (slots params) 0 [] [] (by rw [length_zip]; omega)
    rw [← hholds.gather, drop_zero, hfst] at hgather
    simp only [map_some, buildFinalShape]
    rw [show (⟨[], [], [], [], [], 0⟩ : FinalShape) = .ofAxes [] [] 0 from rfl, hgather]
    rfl

end MyOperator.StridedSlice
