import MyOperator.StridedSlice.Ranges

/-!
# What is inferred of an unknown specification

Begin and end may be unknown, and so may dimensions of the input. Whatever they turn out
to be, a dimension of the output that was reported is the one they give.
-/

namespace MyOperator.StridedSlice

open List Option

open Lib (SliceRange)
open Lib.SliceRange (stepsIn)

/-- A reported dimension is −1 or the right one. -/
def DimAgrees (dim dim' : Int) : Prop := dim = -1 ∨ dim = dim'

/-- The specification `params'` fills in what `params` does not know. -/
structure Fills (params params' : StridedSliceParams) : Prop where
  known : Known params'
  dims : Forall₂ DimAgrees params.inputShape params'.inputShape
  begins : params.beginValid = true → params.realBeginValid = true → params.begins = params'.begins
  ends : params.endValid = true → params.realEndValid = true → params.ends = params'.ends
  strides : params.strides = params'.strides
  beginMask : params.beginMask = params'.beginMask
  endMask : params.endMask = params'.endMask
  ellipsisMask : params.ellipsisMask = params'.ellipsisMask
  newAxisMask : params.newAxisMask = params'.newAxisMask
  shrinkAxisMask : params.shrinkAxisMask = params'.shrinkAxisMask

/-- Two entries that differ at most in what is unknown. -/
structure EntryAgrees (params : StridedSliceParams) (e e' : Entry) : Prop where
  begin : params.beginValid = true → params.realBeginValid = true → e.begin = e'.begin
  «end» : params.endValid = true → params.realEndValid = true → e.end = e'.end
  stride : e.stride = e'.stride
  beginMasked : e.beginMasked = e'.beginMasked
  endMasked : e.endMasked = e'.endMasked
  shrink : e.shrink = e'.shrink

variable {params params' : StridedSliceParams}

theorem EntryAgrees.refl (e : Entry) : EntryAgrees params e e :=
  ⟨fun _ _ => rfl, fun _ _ => rfl, rfl, rfl, rfl, rfl⟩

/-- Two slots that differ at most in what is unknown. -/
def SlotAgrees (params : StridedSliceParams) : Option Entry → Option Entry → Prop :=
  Option.Rel (EntryAgrees params)

/-- Two items that differ at most in what is unknown. -/
inductive ItemAgrees (params : StridedSliceParams) : Item → Item → Prop
  | ellipsis : ItemAgrees params .ellipsis .ellipsis
  | newAxis : ItemAgrees params .newAxis .newAxis
  | axis {e e' : Entry} (h : EntryAgrees params e e') : ItemAgrees params (.axis e) (.axis e')

/-! ## The slots agree -/

theorem Fills.itemAt (h : Fills params params') (i : Nat) :
    ItemAgrees params (itemAt params i) (StridedSlice.itemAt params' i) := by
  unfold StridedSlice.itemAt
  rw [← h.ellipsisMask, ← h.newAxisMask, ← h.strides, ← h.beginMask, ← h.endMask,
    ← h.shrinkAxisMask]
  split
  · exact .ellipsis
  · split
    · exact .newAxis
    · refine .axis ⟨fun hv hr => ?_, fun hv hr => ?_, rfl, rfl, rfl, rfl⟩
      · rw [h.begins hv hr]
      · rw [h.ends hv hr]

theorem Fills.items (h : Fills params params') :
    Forall₂ (ItemAgrees params) (items params) (StridedSlice.items params') := by
  unfold StridedSlice.items
  rw [← h.strides, List.forall₂_map_left_iff, List.forall₂_map_right_iff, List.forall₂_same]
  exact fun i _ => h.itemAt i

theorem count_agrees {l l' : List Item} (h : Forall₂ (ItemAgrees params) l l') :
    l.countP Item.isAxis = l'.countP Item.isAxis := by
  induction h with
  | nil => rfl
  | cons hitem _ ih =>
    rw [countP_cons, countP_cons, ih]
    cases hitem <;> rfl

theorem mem_ellipsis_agrees {l l' : List Item} (h : Forall₂ (ItemAgrees params) l l') :
    Item.ellipsis ∈ l ↔ Item.ellipsis ∈ l' := by
  induction h with
  | nil => rfl
  | cons hitem _ ih =>
    rw [mem_cons, ih]
    cases hitem <;> simp

theorem expand_agrees {item item' : Item} (h : ItemAgrees params item item') (n : Nat) :
    Forall₂ (SlotAgrees params) (item.expand n) (item'.expand n) := by
  cases h with
  | ellipsis =>
    refine List.forall₂_same.mpr fun s hs => ?_
    rw [eq_of_mem_replicate hs]
    exact .some (.refl _)
  | newAxis => exact .cons .none .nil
  | axis h => exact .cons (.some h) .nil

theorem Fills.spare (h : Fills params params') : spare params = StridedSlice.spare params' := by
  unfold StridedSlice.spare
  rw [h.dims.length_eq, count_agrees h.items]

theorem Fills.slots (h : Fills params params') :
    Forall₂ (SlotAgrees params) (slots params) (StridedSlice.slots params') := by
  have hitems : Forall₂ (ItemAgrees params) (itemsWithEllipsis params)
      (itemsWithEllipsis params') := by
    unfold itemsWithEllipsis
    by_cases hmem : Item.ellipsis ∈ StridedSlice.items params
    · rw [if_pos hmem, if_pos ((mem_ellipsis_agrees h.items).mp hmem)]
      exact h.items
    · rw [if_neg hmem, if_neg (mt (mem_ellipsis_agrees h.items).mpr hmem)]
      exact rel_append h.items (.cons .ellipsis .nil)
  unfold StridedSlice.slots
  rw [← h.spare]
  exact rel_flatMap hitems fun _ _ hitem => expand_agrees hitem _

/-! ## One axis -/

theorem canonical_agrees {stride dim x y : Int} {masked realValid isEnd : Bool}
    (hknown : realValid = true → masked = false → x = y)
    (hfound : masked = true ∨ realValid = true) :
    canonical stride dim masked realValid isEnd x = canonical stride dim masked true isEnd y := by
  cases masked with
  | true => rfl
  | false =>
    have hreal : realValid = true := hfound.resolve_left (by decide)
    rw [hreal, hknown hreal rfl]

theorem axisBounds_agrees {e e' : Entry} (h : EntryAgrees params e e')
    (hbegin : params.beginValid = true) (hend : params.endValid = true) {dim : Int} {b : Int × Int}
    (hbounds : axisBounds params e.begin e.end e.stride dim false e.beginMasked e.endMasked =
      some b) :
    b = (canonical e'.stride dim e'.beginMasked true false e'.begin,
      canonical e'.stride dim e'.endMasked true true e'.end) := by
  unfold axisBounds at hbounds
  rw [if_neg Bool.false_ne_true, bind_some] at hbounds
  split at hbounds
  · cases hbounds
  · rename_i hguard
    cases hbounds
    rw [Bool.and_eq_true, Bool.or_eq_true, Bool.or_eq_true] at hguard
    have hfoundBegin : e.beginMasked = true ∨ params.realBeginValid = true := by
      by_contra hnot
      rw [not_or, Bool.not_eq_true, Bool.not_eq_true] at hnot
      apply hguard
      rw [hnot.1, hnot.2]
      exact ⟨.inl rfl, .inl rfl⟩
    have hfoundEnd : e.endMasked = true ∨ params.realEndValid = true := by
      by_contra hnot
      rw [not_or, Bool.not_eq_true, Bool.not_eq_true] at hnot
      apply hguard
      rw [hnot.1, hnot.2]
      exact ⟨.inr rfl, .inr rfl⟩
    rw [canonical_agrees (fun hr _ => h.begin hbegin hr) hfoundBegin,
      canonical_agrees (fun hr _ => h.end hend hr) hfoundEnd, h.stride, h.beginMasked, h.endMasked]

theorem size_whole {stride dim : Int} (hstride : stride ≠ 0) :
    (if (if stride < 0 then -dim else dim) = 0 ∨
        decide ((if stride < 0 then -dim else dim) < 0) ≠ decide (stride < 0) then 0
      else stepsIn (if stride < 0 then -dim else dim) stride) =
      (SliceRange.ofSlice dim none none stride).length := by
  rw [← size_eq_length (r := SliceRange.ofSlice dim none none stride) hstride]
  have hinterval : (SliceRange.ofSlice dim none none stride).stop -
      (SliceRange.ofSlice dim none none stride).start = if stride < 0 then -dim else dim := by
    simp only [SliceRange.ofSlice]
    split_ifs <;> omega
  rw [hinterval]
  rfl

theorem processEntry_agrees {e e' : Entry} (h : EntryAgrees params e e')
    (hshrink : e.shrink = false) {dim dim' : Int} (hdim : DimAgrees dim dim') (hnonneg : 0 ≤ dim')
    {r : AxisData} (hr : processEntry params (e, dim) = some r) :
    DimAgrees r.size (e'.range dim').length := by
  have hshrink' : e'.shrink = false := h.shrink ▸ hshrink
  unfold processEntry processAxis Entry.unit at hr
  dsimp only at hr
  rw [hshrink] at hr
  by_cases hstride : e.stride = 0
  · rw [if_pos hstride] at hr
    cases hr
  · have hstride' : e'.stride ≠ 0 := h.stride ▸ hstride
    rw [if_neg hstride] at hr
    rcases hdim with rfl | rfl
    · rw [if_pos rfl, if_neg Bool.false_ne_true] at hr
      cases hr
      exact .inl rfl
    · rw [if_neg (by omega), Bool.false_and, if_neg Bool.false_ne_true] at hr
      by_cases hvalid : ((denseStart params).beginValid && (denseStart params).endValid) = true
      · rw [if_pos hvalid] at hr
        obtain ⟨b, hbounds, hb⟩ := map_eq_some_iff.mp hr
        subst hb
        rw [Bool.and_eq_true] at hvalid
        have hb := axisBounds_agrees h hvalid.1 hvalid.2 hbounds
        right
        have hrange := range_canonical hshrink' hstride' hnonneg
        unfold buildProcessingShape
        rw [hvalid.1, hvalid.2, Bool.true_and, if_pos rfl, hb, h.stride, ← size_eq_length, hrange]
        rw [hrange]
        exact hstride'
      · rw [if_neg hvalid] at hr
        cases hr
        unfold buildProcessingShape
        rw [if_neg hvalid, if_neg Bool.false_ne_true]
        by_cases hmasked : (e.beginMasked && e.endMasked) = true
        · right
          rw [if_pos hmasked, if_pos (show dim ≥ 0 from hnonneg), ← apply_ite some]
          rw [Bool.and_eq_true, h.beginMasked, h.endMasked] at hmasked
          unfold Entry.range
          rw [hshrink', hmasked.1, hmasked.2, h.stride]
          exact size_whole hstride'
        · left
          rw [if_neg hmasked]

/-! ## The output shape -/

theorem finalOut_agrees {l l' : List (Option Entry)} (h : Forall₂ (SlotAgrees params) l l') :
    ∀ {dims dims' : List Int} {rs : List AxisData}, Forall₂ DimAgrees dims dims' →
      (∀ dim ∈ dims', 0 ≤ dim) → processAll params ((reals l).zip dims) = some rs →
      (reals l).length ≤ dims.length → Forall₂ DimAgrees (finalOut l rs) (outDims l' dims') := by
  induction h with
  | nil =>
    intro dims dims' rs _ _ _ _
    exact .nil
  | cons hslot _ ih =>
    intro dims dims' rs hdims hnonneg hall hroom
    cases hslot with
    | none =>
      exact .cons (.inr rfl) (ih hdims hnonneg hall hroom)
    | @some e e' hentry =>
      cases hdims with
      | nil =>
        rw [reals_some, length_cons, length_nil] at hroom
        omega
      | @cons dim dim' dims dims' hdim hdims =>
        obtain ⟨r, hr, hrest⟩ := bind_eq_some_iff.mp hall
        obtain ⟨rs', hrs, rfl⟩ := map_eq_some_iff.mp hrest
        rw [reals_some, length_cons, length_cons] at hroom
        have htail := ih hdims (fun d hd => hnonneg d (mem_cons_of_mem _ hd)) hrs (by omega)
        rw [finalOut, outDims, ← hentry.shrink]
        cases hshrink : e.shrink with
        | true => exact htail
        | false =>
          have hhead := processEntry_agrees hentry hshrink hdim (hnonneg dim' mem_cons_self) hr
          exact .cons hhead htail

theorem inferShape_agrees (h : Fills params params') {r r' : StridedSliceParams × List Int}
    (hr : inferShape params = some r) (hr' : inferShape params' = some r') :
    Forall₂ DimAgrees r.2 r'.2 := by
  have hone : ¬ SeveralEllipses params := by
    intro hseveral
    rw [inferShape_several hseveral] at hr
    cases hr
  have hfew : ¬ TooManyIndices params := by
    intro hmany
    rw [inferShape_tooMany hone hmany] at hr
    cases hr
  have hvalid : ¬ Invalid params' := by
    rw [← inferShape_eq_none_iff h.known, hr']
    exact some_ne_none _
  rw [inferShape_valid h.known hvalid] at hr'
  cases hr'
  rw [inferShape_eq hone hfew] at hr
  obtain ⟨rs, hall, rfl⟩ := map_eq_some_iff.mp hr
  exact finalOut_agrees h.slots h.dims h.known.dims hall (length_reals_slots hone hfew).le

end MyOperator.StridedSlice

/-!
## The inference of the operator

`InferShape4StridedSlice` reads begin, end and strides from tensors, which may be unknown,
and hands them to `InferShape` with lists of one length. A result of one dimension −2 says
that not even the rank is known.
-/

namespace MyOperator.StridedSlice

def kUnknownDimNum : Int := -2

inductive DataType where
  | int32
  | int64
  | other
deriving DecidableEq, Repr

/-- The tensor of begin, end or strides: its length, −1 when unknown, and its values. -/
structure IndexTensor where
  size : Int
  dtype : DataType
  data : List Int

/-- The mask attributes. -/
structure MaskAttrs where
  begin : Int
  «end» : Int
  ellipsis : Int
  newAxis : Int
  shrinkAxis : Int

def toUint64 (x : Int) : Nat := (x % 2 ^ 64).toNat

def getConstValueToShape (tensor : IndexTensor) (size : Int) : List Int :=
  (List.range size.toNat).map fun i => tensor.data.getD i 0

/-- The list that is read, empty when it is not known. -/
def getValueList (tensor : IndexTensor) : List Int :=
  if tensor.size > 0 then
    match tensor.dtype with
    | .int32 => getConstValueToShape tensor tensor.size
    | .int64 => getConstValueToShape tensor tensor.size
    | .other => []
  else []

def calcMaxShapeSize (beginSize endSize stridesSize : Int) : Int :=
  max stridesSize (max endSize (max beginSize (-1)))

def checkInputValid (shapeMax : Int) (validStrides : Bool) : Bool := shapeMax != -1 && validStrides

/-- Begin and end, filled up where they are not known. -/
def makeParamSameLen (shapeMax : Int) (shapeX listBegin listEnd : List Int) : List Int × List Int :=
  let listBegin := if listBegin.length = 0 then List.replicate shapeMax.toNat 0 else listBegin
  let listEnd :=
    if listEnd.length = 0 then
      if shapeMax < shapeX.length then shapeX.take shapeMax.toNat
      else shapeX ++ List.replicate (shapeMax.toNat - shapeX.length)
        (shapeX.getD (shapeX.length - 1) 0)
    else listEnd
  (listBegin, listEnd)

/-- `InferShape4StridedSlice`: the shape of the output, none on failure. -/
def inferShape4 (shapeX : List Int) (tensorBegin tensorEnd tensorStrides : IndexTensor)
    (masks : MaskAttrs) : Option (List Int) :=
  let shapeMax := calcMaxShapeSize tensorBegin.size tensorEnd.size tensorStrides.size
  let begins := getValueList tensorBegin
  let ends := getValueList tensorEnd
  let strides := getValueList tensorStrides
  let validBegin := begins.length != 0
  let validEnd := ends.length != 0
  let validStrides := strides.length != 0
  if !checkInputValid shapeMax validStrides then some [kUnknownDimNum]
  else
    let same := makeParamSameLen shapeMax shapeX begins ends
    if same.2.length ≠ same.1.length then none
    else
      (inferShape
        { inputShape := shapeX
          begins := same.1
          ends := same.2
          strides := strides
          beginMask := toUint64 masks.begin
          endMask := toUint64 masks.end
          ellipsisMask := toUint64 masks.ellipsis
          newAxisMask := toUint64 masks.newAxis
          shrinkAxisMask := toUint64 masks.shrinkAxis
          beginValid := validBegin
          endValid := validEnd
          realBeginValid := true
          realEndValid := true }).map Prod.snd

/-! ## What it reports -/

/-- The tensor `tensor'` is known, and has the values of `tensor` if those are known. -/
structure TensorFills (tensor tensor' : IndexTensor) : Prop where
  known : getValueList tensor' ≠ []
  same : getValueList tensor ≠ [] → getValueList tensor = getValueList tensor'

theorem makeParamSameLen_begin {shapeMax : Int} {shapeX listBegin listEnd : List Int}
    (hbegin : listBegin ≠ []) : (makeParamSameLen shapeMax shapeX listBegin listEnd).1 = listBegin :=
  if_neg (mt List.length_eq_zero_iff.mp hbegin)

theorem makeParamSameLen_end {shapeMax : Int} {shapeX listBegin listEnd : List Int}
    (hend : listEnd ≠ []) : (makeParamSameLen shapeMax shapeX listBegin listEnd).2 = listEnd :=
  if_neg (mt List.length_eq_zero_iff.mp hend)

theorem checkInputValid_strides {tensorStrides : IndexTensor} (b e : Int)
    (hstrides : getValueList tensorStrides ≠ []) :
    checkInputValid (calcMaxShapeSize b e tensorStrides.size)
      ((getValueList tensorStrides).length != 0) = true := by
  have hsize : 0 < tensorStrides.size := by
    by_contra hneg
    exact hstrides (if_neg hneg)
  have hlength := mt List.length_eq_zero_iff.mp hstrides
  unfold checkInputValid calcMaxShapeSize
  rw [Bool.and_eq_true, bne_iff_ne, bne_iff_ne]
  exact ⟨by omega, hlength⟩

/-- The parameters of two calls, the second of which knows what the first does not. -/
theorem inferShape4_agrees {shapeX shapeX' : List Int}
    {tensorBegin tensorBegin' tensorEnd tensorEnd' tensorStrides : IndexTensor} {masks : MaskAttrs}
    {out out' : List Int} (hdims : List.Forall₂ DimAgrees shapeX shapeX')
    (hnonneg : ∀ dim ∈ shapeX', 0 ≤ dim) (hbegin : TensorFills tensorBegin tensorBegin')
    (hend : TensorFills tensorEnd tensorEnd')
    (hout : inferShape4 shapeX tensorBegin tensorEnd tensorStrides masks = some out)
    (hout' : inferShape4 shapeX' tensorBegin' tensorEnd' tensorStrides masks = some out') :
    out = [kUnknownDimNum] ∨ List.Forall₂ DimAgrees out out' := by
  by_cases hstrides : getValueList tensorStrides = []
  · left
    unfold inferShape4 checkInputValid at hout
    rw [hstrides] at hout
    simp only [List.length_nil, bne_self_eq_false, Bool.and_false] at hout
    exact (Option.some.inj hout).symm
  · right
    unfold inferShape4 at hout hout'
    simp only [checkInputValid_strides _ _ hstrides, Bool.not_true, Bool.false_eq_true, if_false]
      at hout hout'
    split at hout
    · cases hout
    · split at hout'
      · cases hout'
      · obtain ⟨r, hr, rfl⟩ := Option.map_eq_some_iff.mp hout
        obtain ⟨r', hr', rfl⟩ := Option.map_eq_some_iff.mp hout'
        refine inferShape_agrees ?_ hr hr'
        have hvalid : ∀ {t t' : IndexTensor}, TensorFills t t' →
            ((getValueList t').length != 0) = true := by
          intro t t' h
          exact bne_iff_ne.mpr (mt List.length_eq_zero_iff.mp h.known)
        constructor <;> try rfl
        · exact ⟨hvalid hbegin, hvalid hend, rfl, rfl, hnonneg⟩
        · exact hdims
        · intro hread _
          have hread : getValueList tensorBegin ≠ [] :=
            mt List.length_eq_zero_iff.mpr (bne_iff_ne.mp hread)
          rw [makeParamSameLen_begin hread, makeParamSameLen_begin hbegin.known, hbegin.same hread]
        · intro hread _
          have hread : getValueList tensorEnd ≠ [] :=
            mt List.length_eq_zero_iff.mpr (bne_iff_ne.mp hread)
          rw [makeParamSameLen_end hread, makeParamSameLen_end hend.known, hend.same hread]

/-- Shape inference is the meaning of the specification. With everything known it fails
exactly when the specification is invalid, and else gives the slice without masks and its
shape. With something unknown, every dimension that it reports is the one that any values of
the unknowns give, called directly or for the operator. -/
theorem inferShape_reference :
    (∀ params : StridedSliceParams, Known params →
      (inferShape params = none ↔ Invalid params) ∧
      (¬ Invalid params →
        inferShape params =
          some (explicitParams params, outDims (slots params) params.inputShape))) ∧
    (∀ params params' : StridedSliceParams, Fills params params' →
      ∀ r r', inferShape params = some r → inferShape params' = some r' →
        List.Forall₂ DimAgrees r.2 r'.2) ∧
    ∀ (shapeX shapeX' : List Int)
      (tensorBegin tensorBegin' tensorEnd tensorEnd' tensorStrides : IndexTensor)
      (masks : MaskAttrs) (out out' : List Int),
      List.Forall₂ DimAgrees shapeX shapeX' → (∀ dim ∈ shapeX', 0 ≤ dim) →
      TensorFills tensorBegin tensorBegin' → TensorFills tensorEnd tensorEnd' →
      inferShape4 shapeX tensorBegin tensorEnd tensorStrides masks = some out →
      inferShape4 shapeX' tensorBegin' tensorEnd' tensorStrides masks = some out' →
      out = [kUnknownDimNum] ∨ List.Forall₂ DimAgrees out out' :=
  ⟨fun _ h => ⟨inferShape_eq_none_iff h, inferShape_valid h⟩,
    fun _ _ h _ _ hr hr' => inferShape_agrees h hr hr',
    fun _ _ _ _ _ _ _ _ _ _ hdims hnonneg hbegin hend hout hout' =>
      inferShape4_agrees hdims hnonneg hbegin hend hout hout'⟩

end MyOperator.StridedSlice
