import MyOperator.Lib.PySlice

/-!
# Shape inference of `StridedSlice`

The functions of `strided_slice_util.h`. A `gert::Shape`, also used as `QuickVector`, is a
list of integers, −1 is a dimension that is not known, and a mask of 64 bits is a natural
number. A specification has one entry for each position of `strides`; the dense
specification has one for each axis of the input.
-/

namespace MyOperator.StridedSlice

open Lib.SliceRange (stepsIn)

def kStridedSliceNewAxis : Int := -2

def kShrinkAxis : Int := -1

structure StridedSliceParams where
  inputShape : List Int
  begins : List Int
  ends : List Int
  strides : List Int
  beginMask : Nat
  endMask : Nat
  ellipsisMask : Nat
  newAxisMask : Nat
  shrinkAxisMask : Nat
  beginValid : Bool
  endValid : Bool
  realBeginValid : Bool
  realEndValid : Bool
deriving DecidableEq, Repr

structure ProcessingData where
  processingShape : List Int
  processingBegin : List Int
  processingEnd : List Int
  processingStrides : List Int
deriving DecidableEq, Repr

structure InputParamUnit where
  begin : Int
  «end» : Int
  stride : Int
  dim : Int
  shrink : Bool

structure StridedSliceSparseSpec where
  dims : Nat
  numAddAxisAfterEllipsis : Nat
  begins : List Int
  ends : List Int
  strides : List Int
  beginMask : Nat
  endMask : Nat
  ellipsisMask : Nat
  newAxisMask : Nat
  shrinkAxisMask : Nat

structure StridedSliceDenseSpec where
  dims : Nat
  beginMask : Nat
  endMask : Nat
  beginValid : Bool
  endValid : Bool
  begins : List Int
  ends : List Int
  strides : List Int
  finalShapeGatherIndices : List Int
  shrinkAxisMask : Nat

def bit1value (i : Nat) : Nat := 1 <<< i

/-- `(bit_i & mask) != 0`. -/
def hasBit (mask i : Nat) : Bool := (bit1value i &&& mask) != 0

def fwdOutOfBound (fwd lower upper : Int) : Bool := fwd < lower || fwd ≥ upper

/-! ## From the list of entries to the axes -/

/-- One turn of the scan for the ellipsis and the new axes after it. -/
def scanEllipsis (params : StridedSliceParams) (state : Bool × Nat) (i : Nat) : Bool × Nat :=
  (state.1 || hasBit params.ellipsisMask i,
    if state.1 && hasBit params.newAxisMask i then state.2 + 1 else state.2)

def buildSparseSpec (params : StridedSliceParams) (sparse : StridedSliceSparseSpec) :
    StridedSliceSparseSpec :=
  let dims := params.strides.length
  let (ellipsisSeen, num) := (List.range dims).foldl (scanEllipsis params)
    (false, sparse.numAddAxisAfterEllipsis)
  let sparse := { sparse with dims := dims, numAddAxisAfterEllipsis := num }
  -- without an ellipsis one is inserted at the end
  if ellipsisSeen then sparse
  else { sparse with ellipsisMask := sparse.ellipsisMask ||| bit1value dims, dims := dims + 1 }

/-- `SetDimNum`: the positions past the old length are written before they are read. -/
def setDimNum (n : Nat) (l : List Int) : List Int := l.take n ++ List.replicate (n - l.length) 0

namespace StridedSliceDenseSpec

/-- One axis that the ellipsis stands for: all of it. -/
def addFull (dense : StridedSliceDenseSpec) (fullIndex : Nat) : StridedSliceDenseSpec :=
  { dense with
    begins := dense.begins.set fullIndex 0
    ends := dense.ends.set fullIndex 0
    strides := dense.strides.set fullIndex 1
    beginMask := dense.beginMask ||| bit1value fullIndex
    endMask := dense.endMask ||| bit1value fullIndex
    finalShapeGatherIndices := dense.finalShapeGatherIndices ++ [(fullIndex : Int)] }

def addNewAxis (dense : StridedSliceDenseSpec) : StridedSliceDenseSpec := { dense with
    finalShapeGatherIndices := dense.finalShapeGatherIndices ++ [kStridedSliceNewAxis] }

/-- One entry gathered into its axis. -/
def addIndex (dense : StridedSliceDenseSpec) (sparse : StridedSliceSparseSpec) (i fullIndex : Nat) :
    StridedSliceDenseSpec := { dense with
    begins := dense.begins.set fullIndex (sparse.begins.getD i 0)
    ends := dense.ends.set fullIndex (sparse.ends.getD i 0)
    strides := dense.strides.set fullIndex (sparse.strides.getD i 0)
    beginMask := if hasBit sparse.beginMask i then dense.beginMask ||| bit1value fullIndex
      else dense.beginMask
    endMask := if hasBit sparse.endMask i then dense.endMask ||| bit1value fullIndex
      else dense.endMask
    finalShapeGatherIndices := dense.finalShapeGatherIndices ++
      [if hasBit sparse.shrinkAxisMask i then kShrinkAxis else (fullIndex : Int)]
    shrinkAxisMask := if hasBit sparse.shrinkAxisMask i
      then dense.shrinkAxisMask ||| bit1value fullIndex else dense.shrinkAxisMask }

end StridedSliceDenseSpec

/-- The loop over the axes of the ellipsis, `n` of them from `fullIndex` on. -/
def fillEllipsis : Nat → Nat → StridedSliceDenseSpec → Nat × StridedSliceDenseSpec
  | 0, fullIndex, dense => (fullIndex, dense)
  | n + 1, fullIndex, dense => fillEllipsis n (fullIndex + 1) (dense.addFull fullIndex)

/-- One turn of the loop over the entries. -/
def denseStep (sparse : StridedSliceSparseSpec) (state : Nat × StridedSliceDenseSpec) (i : Nat) :
    Option (Nat × StridedSliceDenseSpec) :=
  let (fullIndex, dense) := state
  if hasBit sparse.ellipsisMask i then
    let nextIndex : Int := min ((dense.dims : Int) - ((sparse.dims : Int) - i) + 1 +
      sparse.numAddAxisAfterEllipsis) dense.dims
    some (fillEllipsis (nextIndex - fullIndex).toNat fullIndex dense)
  else if hasBit sparse.newAxisMask i then
    some (fullIndex, dense.addNewAxis)
  else if fullIndex = dense.begins.length then
    none
  else
    some (fullIndex + 1, dense.addIndex sparse i fullIndex)

def buildDenseSpec (sparse : StridedSliceSparseSpec) (dense : StridedSliceDenseSpec) :
    Option StridedSliceDenseSpec := let dense := { dense with
    begins := setDimNum dense.dims dense.begins
    ends := setDimNum dense.dims dense.ends
    strides := setDimNum dense.dims dense.strides
    beginMask := 0
    endMask := 0
    shrinkAxisMask := 0 }
  ((List.range sparse.dims).foldlM (denseStep sparse) (0, dense)).map Prod.snd

/-! ## The range of each axis -/

/-- `BuildProcessingShape`: the length that it appends to the processing shape. -/
def buildProcessingShape (dense : StridedSliceDenseSpec) (unit : InputParamUnit)
    (beginAndEndMasked : Bool) : Int :=
  let interval : Option Int :=
    if dense.beginValid && dense.endValid then some (unit.end - unit.begin)
    else if unit.shrink then some 1
    else if beginAndEndMasked then
      if unit.dim ≥ 0 then (if unit.stride < 0 then some (-unit.dim) else some unit.dim) else none
    else none
  match interval with
  | none => -1
  | some intervalLength =>
    if intervalLength = 0 ∨ decide (intervalLength < 0) ≠ decide (unit.stride < 0) then 0
    else stepsIn intervalLength unit.stride

/-- `valid_range`, its lower and its upper end. -/
def validRange (stride dim : Int) : Int × Int :=
  (if stride > 0 then 0 else -1, if stride > 0 then dim else dim - 1)

/-- The bound `x` made explicit, the upper one when `isEnd`; −3 says that it is not known. -/
def canonical (stride dim : Int) (masked realValid isEnd : Bool) (x : Int) : Int :=
  let range := validRange stride dim
  if masked then
    if stride > 0 then (if isEnd then range.2 else range.1)
    else (if isEnd then range.1 else range.2)
  else if !realValid then -3
  else
    let fwd := if x < 0 then dim + x else x
    if fwd < range.1 then range.1 else min fwd range.2

/-- The bounds of an axis whose dimension is known, with `begin` and `end` given. -/
def axisBounds (params : StridedSliceParams) (begin_ end_ stride dim : Int)
    (shrink beginMasked endMasked : Bool) : Option (Int × Int) :=
  let bounds : Option (Int × Int) :=
    if shrink then
      if params.realBeginValid then
        let fwd := if begin_ < 0 then dim + begin_ else begin_
        if fwdOutOfBound fwd 0 dim then none else some (fwd, fwd + 1)
      else some (-2, -2 + 1)
    else some (canonical stride dim beginMasked params.realBeginValid false begin_,
      canonical stride dim endMasked params.realEndValid true end_)
  bounds.bind fun b =>
    if (!params.realBeginValid || !params.realEndValid) && (b.1 == -3 || b.2 == -3) then none
    else some b

/-- What one axis appends to the four lists of `ProcessingData`. -/
structure AxisData where
  size : Int
  begin : Int
  «end» : Int
  stride : Int
deriving DecidableEq, Repr

def ProcessingData.add (data : ProcessingData) (axis : AxisData) : ProcessingData where
  processingShape := data.processingShape ++ [axis.size]
  processingBegin := data.processingBegin ++ [axis.begin]
  processingEnd := data.processingEnd ++ [axis.end]
  processingStrides := data.processingStrides ++ [axis.stride]

/-- The body of the loop over the axes, for what is read there. -/
def processAxis (dense : StridedSliceDenseSpec) (params : StridedSliceParams)
    (unit : InputParamUnit) (beginMasked endMasked : Bool) : Option AxisData :=
  if unit.stride = 0 then none
  else if unit.dim = -1 then
    if unit.shrink then some ⟨1, unit.begin, unit.begin + 1, 1⟩
    else some ⟨-1, unit.begin, unit.end, unit.stride⟩
  else if unit.shrink && decide (unit.stride ≤ 0) then none
  else if dense.beginValid && dense.endValid then
    (axisBounds params unit.begin unit.end unit.stride unit.dim unit.shrink beginMasked
        endMasked).map fun b =>
      ⟨buildProcessingShape dense { unit with begin := b.1, «end» := b.2 } (beginMasked && endMasked),
        b.1, b.2, unit.stride⟩
  else
    some ⟨buildProcessingShape dense unit (beginMasked && endMasked), unit.begin, unit.end, 1⟩

/-- One turn of the loop over the axes. -/
def processStep (dense : StridedSliceDenseSpec) (params : StridedSliceParams)
    (data : ProcessingData) (i : Nat) : Option ProcessingData :=
  (processAxis dense params ⟨params.begins.getD i 0, params.ends.getD i 0, params.strides.getD i 0,
      params.inputShape.getD i 0, hasBit dense.shrinkAxisMask i⟩
    (hasBit dense.beginMask i) (hasBit dense.endMask i)).map data.add

def buildProcessingData (dense : StridedSliceDenseSpec) (params : StridedSliceParams) :
    Option ProcessingData :=
  (List.range params.inputShape.length).foldlM (processStep dense params) ⟨[], [], [], []⟩

/-! ## The final shape -/

/-- What `BuildFinalShape` builds: the lists of `params` anew and the output shape. -/
structure FinalShape where
  outShape : List Int
  inputShape : List Int
  begins : List Int
  ends : List Int
  strides : List Int
  shrinkGatherIndex : Nat

/-- One turn of the loop over the gather list. -/
def gatherStep (data : ProcessingData) (params : StridedSliceParams) (final : FinalShape)
    (gatherIndex : Int) : FinalShape :=
  if gatherIndex ≥ 0 then
    let k := gatherIndex.toNat
    { outShape := final.outShape ++ [data.processingShape.getD k 0]
      inputShape := final.inputShape ++ [params.inputShape.getD k 0]
      begins := final.begins ++ [data.processingBegin.getD k 0]
      ends := final.ends ++ [data.processingEnd.getD k 0]
      strides := final.strides ++ [data.processingStrides.getD k 0]
      shrinkGatherIndex := k + 1 }
  else if gatherIndex = kStridedSliceNewAxis then
    -- a new axis is no axis of the input, unless the input is a scalar
    if params.inputShape.isEmpty then
      { final with
        outShape := final.outShape ++ [1]
        inputShape := final.inputShape ++ [1]
        begins := final.begins ++ [0]
        ends := final.ends ++ [1]
        strides := final.strides ++ [1] }
    else { final with outShape := final.outShape ++ [1] }
  else
    let k := final.shrinkGatherIndex
    { final with
      inputShape := final.inputShape ++ [params.inputShape.getD k 0]
      begins := final.begins ++ [data.processingBegin.getD k 0]
      ends := final.ends ++ [data.processingBegin.getD k 0 + 1]
      strides := final.strides ++ [1]
      shrinkGatherIndex := k + 1 }

def buildFinalShape (data : ProcessingData) (dense : StridedSliceDenseSpec)
    (params : StridedSliceParams) : StridedSliceParams × List Int :=
  let final := dense.finalShapeGatherIndices.foldl (gatherStep data params) ⟨[], [], [], [], [], 0⟩
  ({ params with
      inputShape := final.inputShape
      begins := final.begins
      ends := final.ends
      strides := final.strides }, final.outShape)

/-! ## The whole inference -/

/-- `InferShape`: the canonical parameters and the output shape, none on failure. -/
def inferShape (params : StridedSliceParams) : Option (StridedSliceParams × List Int) :=
  let ellipsisMask := params.ellipsisMask
  if ellipsisMask ≠ 0 ∧ ellipsisMask &&& (ellipsisMask - 1) ≠ 0 then none
  else
    let sparse := buildSparseSpec params
      ⟨0, 0, params.begins, params.ends, params.strides, params.beginMask, params.endMask,
        params.ellipsisMask, params.newAxisMask, params.shrinkAxisMask⟩
    (buildDenseSpec sparse
      ⟨params.inputShape.length, 0, 0, params.beginValid, params.endValid, params.begins,
        params.ends, params.strides, [], 0⟩).bind fun dense =>
      let params := { params with
        begins := dense.begins, ends := dense.ends, strides := dense.strides }
      (buildProcessingData dense params).map fun data => buildFinalShape data dense params

end MyOperator.StridedSlice

/-!
## What a slice specification means

A specification is a list of items: the ellipsis, a new axis, or one entry for an axis of
the input, that is a range `b:e:s` with either bound possibly omitted or a single index.
The ellipsis stands for the axes that no entry names, taken whole; without one it stands
at the end. What is left is one entry for each axis, taken as Python takes it, with axes
of length one in between.
-/

namespace MyOperator.StridedSlice

open Lib (SliceRange)

/-- What an axis of the input is asked for. -/
structure Entry where
  begin : Int
  «end» : Int
  stride : Int
  beginMasked : Bool
  endMasked : Bool
  shrink : Bool
deriving DecidableEq, Repr

namespace Entry

/-- The whole axis. -/
def full : Entry := ⟨0, 0, 1, true, true, false⟩

/-- The index of a shrunk axis, counted from the front. -/
def index (e : Entry) (dim : Int) : Int := if e.begin < 0 then dim + e.begin else e.begin

/-- The entry cannot be taken of an axis of this length. -/
def Invalid (e : Entry) (dim : Int) : Prop :=
  e.stride = 0 ∨ (e.shrink = true ∧ (e.stride < 0 ∨ e.index dim < 0 ∨ dim ≤ e.index dim))

instance (e : Entry) (dim : Int) : Decidable (e.Invalid dim) := inferInstanceAs (Decidable (_ ∨ _))

/-- The indices that the entry takes. -/
def range (e : Entry) (dim : Int) : SliceRange :=
  if e.shrink then .single (e.index dim)
  else .ofSlice dim (if e.beginMasked then none else some e.begin)
    (if e.endMasked then none else some e.end) e.stride

end Entry

inductive Item where
  | ellipsis
  | newAxis
  | axis (e : Entry)
deriving DecidableEq, Repr

namespace Item

def isAxis : Item → Bool
  | axis _ => true
  | _ => false

/-- The axes of the result that an item stands for, `n` of them for the ellipsis; `none` is
an axis that is not in the input. -/
def expand (n : Nat) : Item → List (Option Entry)
  | ellipsis => List.replicate n (some .full)
  | newAxis => [none]
  | axis e => [some e]

end Item

variable (params : StridedSliceParams)

/-- The item at one position: the ellipsis mark wins over the new axis, and that over the rest. -/
def itemAt (i : Nat) : Item :=
  if params.ellipsisMask.testBit i then .ellipsis
  else if params.newAxisMask.testBit i then .newAxis
  else .axis ⟨params.begins.getD i 0, params.ends.getD i 0, params.strides.getD i 0,
    params.beginMask.testBit i, params.endMask.testBit i, params.shrinkAxisMask.testBit i⟩

def items : List Item := (List.range params.strides.length).map (itemAt params)

/-- The items with the ellipsis written out. -/
def itemsWithEllipsis : List Item :=
  if Item.ellipsis ∈ items params then items params else items params ++ [.ellipsis]

/-- The axes of the input that no entry names. -/
def spare : Nat := params.inputShape.length - (items params).countP Item.isAxis

/-- One entry for each axis of the input, in order, with `none` for each new axis. -/
def slots : List (Option Entry) := (itemsWithEllipsis params).flatMap (Item.expand (spare params))

/-- Each axis of the input with its entry. -/
def axes : List (Entry × Int) := ((slots params).filterMap id).zip params.inputShape

/-- The ellipsis is marked twice. -/
def SeveralEllipses : Prop :=
  ∃ i j, i < j ∧ params.ellipsisMask.testBit i = true ∧ params.ellipsisMask.testBit j = true

/-- More entries than the input has axes. -/
def TooManyIndices : Prop := params.inputShape.length < (items params).countP Item.isAxis

/-- The specification cannot be taken of this input. -/
def Invalid : Prop :=
  SeveralEllipses params ∨ TooManyIndices params ∨ ∃ a ∈ axes params, a.1.Invalid a.2

/-- The lengths of the result: a new axis has length one, a shrunk axis is dropped. -/
def outDims : List (Option Entry) → List Int → List Int
  | none :: l, dims => 1 :: outDims l dims
  | some e :: l, dim :: dims =>
    if e.shrink then outDims l dims else (e.range dim).length :: outDims l dims
  | _, _ => []

/-- The slice without masks: a range for each axis. A scalar has one axis of length one for
each new axis. -/
def explicitAxes : List (Int × SliceRange) :=
  if params.inputShape = [] then (slots params).map fun _ => (1, .single 0)
  else (axes params).map fun a => (a.2, a.1.range a.2)

/-- The parameters that say the slice without masks. -/
def explicitParams : StridedSliceParams := { params with
    inputShape := (explicitAxes params).map Prod.fst
    begins := (explicitAxes params).map fun a => a.2.start
    ends := (explicitAxes params).map fun a => a.2.stop
    strides := (explicitAxes params).map fun a => a.2.step }

end MyOperator.StridedSlice
