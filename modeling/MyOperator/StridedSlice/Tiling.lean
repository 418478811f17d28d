import MyOperator.StridedSlice.InferShape

/-!
# The parameters of the tiling

`Tiling4StridedSlice` takes the canonical parameters of `InferShape`, computes the output
length of each axis again, and rewrites the axes: the last step is split off when it divides
the axis, axes of step 1 are fused, and with negative steps axes of step −1 too. Begin and
end that are not constant are left to the kernel; −10 and below say so.
-/

namespace MyOperator.StridedSlice

def unconstBeginValue : Int := -10

structure SliceParametersRuntime2 where
  inputShape : List Int
  outputShape : List Int
  beginList : List Int
  endList : List Int
  strideList : List Int
  isBeginConst : Bool
  isEndConst : Bool
deriving DecidableEq, Repr

/-- The values of the five lists at one position. -/
structure SliceAxis where
  input : Int
  output : Int
  begin : Int
  «end» : Int
  stride : Int
deriving DecidableEq, Repr

namespace SliceParametersRuntime2

def axis (param : SliceParametersRuntime2) (i : Nat) : SliceAxis where
  input := param.inputShape.getD i 0
  output := param.outputShape.getD i 0
  begin := param.beginList.getD i 0
  «end» := param.endList.getD i 0
  stride := param.strideList.getD i 0

/-- `AppendDim` on the five lists. -/
def append (param : SliceParametersRuntime2) (a : SliceAxis) : SliceParametersRuntime2 :=
  { param with
    inputShape := param.inputShape ++ [a.input]
    outputShape := param.outputShape ++ [a.output]
    beginList := param.beginList ++ [a.begin]
    endList := param.endList ++ [a.end]
    strideList := param.strideList ++ [a.stride] }

/-- The five lists written at one position. -/
def set (param : SliceParametersRuntime2) (i : Nat) (a : SliceAxis) : SliceParametersRuntime2 :=
  { param with
    inputShape := param.inputShape.set i a.input
    outputShape := param.outputShape.set i a.output
    beginList := param.beginList.set i a.begin
    endList := param.endList.set i a.end
    strideList := param.strideList.set i a.stride }

/-- The parameters that a pass starts to build. -/
def empty (param : SliceParametersRuntime2) : SliceParametersRuntime2 :=
  { param with inputShape := [], outputShape := [], beginList := [], endList := [], strideList := [] }

end SliceParametersRuntime2

/-- `MakeSameDims`: the output shape computed again, axis by axis. -/
def makeSameDims (param : SliceParametersRuntime2) : SliceParametersRuntime2 :=
  let sameSize := param.inputShape.length == param.beginList.length &&
    param.inputShape.length == param.endList.length &&
    param.inputShape.length == param.strideList.length
  if !sameSize then param
  else
    { param with
      outputShape := (List.range param.inputShape.length).map fun i =>
        let interval := param.endList.getD i 0 - param.beginList.getD i 0
        let stride := if param.strideList.getD i 0 = 0 then 1 else param.strideList.getD i 0
        interval.tdiv stride + if interval.tmod stride ≠ 0 then 1 else 0 }

/-- One turn of the loop of `MakePerformanceParamsNeg`; the second component is the number of
axes built so far. -/
def perfNegStep (param : SliceParametersRuntime2) (state : SliceParametersRuntime2 × Nat)
    (i : Nat) : SliceParametersRuntime2 × Nat :=
  let (perf, perfSize) := state
  let a := param.axis i
  let stride := if a.end > a.begin then min a.stride (a.end - a.begin)
    else max a.stride (a.end - a.begin)
  if a.input = 1 ∧ a.output = 1 ∧ i ≠ 0 then (perf, perfSize)
  else if i = 0 ∨ a.input ≠ a.output ∨ stride ≠ -1 ∨ perf.strideList.getD (perfSize - 1) 0 ≠ -1 then
    (perf.append { a with stride := stride }, perfSize + 1)
  else
    -- neighbours of step −1, the inner one whole
    let last := perf.axis (perfSize - 1)
    (perf.set (perfSize - 1) ⟨last.input * a.input, last.output * a.output,
      last.begin * a.input + a.input - 1, last.end * a.input + a.input - 1, -1⟩, perfSize)

/-- One turn of the last loop of `MakePerformanceParamsNeg`. -/
def unitStep (param : SliceParametersRuntime2) (i : Nat) : SliceParametersRuntime2 :=
  let a := param.axis i
  if a.output = 1 ∧ a.stride < 0 then param.set i { a with stride := 1, «end» := a.begin + 1 }
  else param

def makePerformanceParamsNeg (param : SliceParametersRuntime2) : SliceParametersRuntime2 :=
  let param := ((List.range param.inputShape.length).foldl (perfNegStep param) (param.empty, 0)).1
  (List.range param.inputShape.length).foldl unitStep param

/-- The last step is taken off, as an axis of its own, when it divides the last axis and every
multiple of it is picked. -/
def splitLastStride (param : SliceParametersRuntime2) : SliceParametersRuntime2 :=
  let th := param.inputShape.length
  let a := param.axis (th - 1)
  if a.stride > 1 ∧ a.input.tmod a.stride = 0 ∧ a.begin.tdiv a.stride = 0 ∧
      a.output = a.input.tdiv a.stride then
    let start := a.begin.tdiv a.stride
    (param.set (th - 1) ⟨a.input.tdiv a.stride, a.output, start, start + a.output, 1⟩).append
      ⟨a.stride, 1, a.begin.tmod a.stride, a.begin.tmod a.stride + 1, 1⟩
  else param

/-- One turn of the loop of `MakePerformanceParams`. -/
def perfStep (param : SliceParametersRuntime2) (state : SliceParametersRuntime2 × Nat)
    (i : Nat) : SliceParametersRuntime2 × Nat :=
  let (perf, perfSize) := state
  let a := param.axis i
  let stride := if a.end > a.begin then min a.stride (a.end - a.begin) else a.stride
  if i = 0 ∨ a.input ≠ a.output ∨ stride ≠ 1 ∨ perf.strideList.getD (perfSize - 1) 0 ≠ 1 then
    let realBegin := if !param.isBeginConst && decide (a.begin < 0) then unconstBeginValue - i
      else a.begin
    (perf.append { a with begin := realBegin, stride := stride }, perfSize + 1)
  else
    -- neighbours of step 1, the inner one whole
    let last := perf.axis (perfSize - 1)
    (perf.set (perfSize - 1) ⟨last.input * a.input, last.output * a.output, last.begin * a.input,
      last.end * a.input, 1⟩, perfSize)

def makePerformanceParams (param : SliceParametersRuntime2) (isAdjustLastStride : Bool) :
    SliceParametersRuntime2 :=
  if param.outputShape.length = 0 then param
  else
    let hasNegStride := (List.range param.inputShape.length).any fun i =>
      decide (param.strideList.getD i 0 < 0)
    let param := if isAdjustLastStride && !hasNegStride && param.isBeginConst && param.isEndConst
      then splitLastStride param else param
    let param := ((List.range param.inputShape.length).foldl (perfStep param) (param.empty, 0)).1
    if hasNegStride then makePerformanceParamsNeg param else param

/-! ## The tiling -/

def ensureNotScalar (shape : List Int) : List Int := if shape.isEmpty then [1] else shape

/-- `CheckStride` on a core that takes negative steps. -/
def checkStride (stride : List Int) : Bool := stride.all fun s => s != 0

/-- What the tiling hands to `InferShape` when begin, end and strides are constants. -/
def tilingInput (shapeX begins ends strides : List Int)
    (beginMask endMask ellipsisMask newAxisMask shrinkAxisMask : Nat) : StridedSliceParams where
  inputShape := ensureNotScalar shapeX
  begins := begins
  ends := ends
  strides := strides
  beginMask := beginMask
  endMask := endMask
  ellipsisMask := ellipsisMask
  newAxisMask := newAxisMask
  shrinkAxisMask := shrinkAxisMask
  beginValid := true
  endValid := true
  realBeginValid := true
  realEndValid := true

/-- `ReconstructSliceParamByInferShape`, over the output shape `outputShape` that was there. -/
def reconstruct (outputShape : List Int) (inferred : StridedSliceParams × List Int) :
    SliceParametersRuntime2 where
  inputShape := inferred.1.inputShape
  outputShape := outputShape ++ inferred.2
  beginList := inferred.1.begins
  endList := inferred.1.ends
  strideList := inferred.1.strides
  isBeginConst := inferred.1.realBeginValid
  isEndConst := inferred.1.realEndValid

/-- `Tiling4StridedSlice` up to the parameters it tiles with, none on failure; `shapeY` is the
output shape the operator was given. -/
def tiling4StridedSlice (params : StridedSliceParams) (shapeY : List Int) :
    Option SliceParametersRuntime2 :=
  if checkStride params.strides then
    (inferShape params).map fun inferred =>
      makePerformanceParams (makeSameDims (reconstruct (ensureNotScalar shapeY) inferred)) true
  else none

end MyOperator.StridedSlice
