import MyOperator.Lib.AxisOrder

/-!
# Axis reduction of Transpose: the passes and the removal of unit axes

`RemoveAxisV2` deletes the axes of size one and renumbers the permutation,
`MergeAxisV2` merges axes that stay neighbours. The arrays are lists of
`TRANSPOSE_MAX_AXIS_NUM` entries, of which the first `dim` count; what stands behind
them is stale and may be anything.
-/

namespace MyOperator.Transpose

open Lib List

def TRANSPOSE_MAX_AXIS_NUM : Nat := 8

/-- The fields that the two passes read and write. `lastAxisLen` and `lastAxisBurstLen`,
which `MergeAxisV2` also sets, are read by nothing and left out. -/
structure ShapeInfo where
  inShape : List Nat
  outShape : List Nat
  perm : List Nat
  reducedInShape : List Nat
  reducedOutShape : List Nat
  reducedPerm : List Nat
  dim : Nat
  deriving DecidableEq, Repr

/-! ## The passes -/

/-- `DuplicateArray`: the first `len` entries of `src` over those of `dst`. -/
def duplicateArray (src dst : List Nat) (len : Nat) : List Nat :=
  (range len).foldl (fun dst i => dst.set i (src.getD i 0)) dst

def isAllOne (s : ShapeInfo) : Bool := (s.inShape.take s.dim).all fun item => item == 1

def calcOutShape (s : ShapeInfo) : ShapeInfo := { s with
    reducedOutShape := (range s.dim).foldl
      (fun out i => out.set i (s.reducedInShape.getD (s.reducedPerm.getD i 0) 0))
      s.reducedOutShape }

/-- The locals of the first loop of `RemoveAxisV2`; `shape` is `reducedInShape`. -/
structure RemoveState where
  shape : List Nat
  shapeSize : Nat
  delPerm : List Nat

/-- Axis `i` is kept, or the entries of the permutation that name it are deleted. -/
def removeStep (s : ShapeInfo) (st : RemoveState) (i : Nat) : RemoveState :=
  if s.inShape.getD i 0 ≠ 1 then
    { st with shape := st.shape.set st.shapeSize (s.inShape.getD i 0), shapeSize := st.shapeSize + 1 }
  else
    { st with
      delPerm := (range s.dim).foldl
        (fun del j => if s.perm.getD j 0 = i then del ++ [s.perm.getD j 0] else del) st.delPerm }

/-- The entries of the permutation that are not deleted. -/
def keptPerm (s : ShapeInfo) (delPerm : List Nat) : List Nat :=
  (range s.dim).foldl (fun newPerm i =>
      if delPerm.any fun d => s.perm.getD i 0 == d then newPerm else newPerm ++ [s.perm.getD i 0]) []

/-- One deleted axis closes the gap it leaves. -/
def renumber (newPerm : List Nat) (d : Nat) : List Nat :=
  newPerm.map fun p => if p > d then p - 1 else p

def removeAxisV2 (s : ShapeInfo) : ShapeInfo :=
  if s.dim = 1 then
    { s with
      reducedInShape := duplicateArray s.inShape s.reducedInShape s.dim
      reducedPerm := duplicateArray s.perm s.reducedPerm s.dim
      reducedOutShape := duplicateArray s.outShape s.reducedOutShape s.dim }
  else if isAllOne s then
    { s with
      reducedInShape := s.reducedInShape.set 0 1
      reducedPerm := s.reducedPerm.set 0 0
      reducedOutShape := s.reducedOutShape.set 0 1
      dim := 1 }
  else
    let st := (range s.dim).foldl (removeStep s) ⟨s.reducedInShape, 0, []⟩
    -- `qsort` with `DecreaseCompare`
    let delPerm := st.delPerm.insertionSort fun a b => b ≤ a
    let newPerm := delPerm.foldl renumber (keptPerm s delPerm)
    calcOutShape { s with
        reducedInShape := st.shape
        reducedPerm := duplicateArray newPerm s.reducedPerm newPerm.length
        dim := newPerm.length }

/-- The locals of the loop of `MergeAxisV2` over the permutation. -/
structure MergeState where
  curHead : Nat
  newDimPosition : List Int
  mergedShape : List Nat
  dimIndex : Nat
  deriving DecidableEq, Repr

def mergeStep (s : ShapeInfo) (st : MergeState) (permIndex : Nat) : MergeState :=
  let next := s.reducedPerm.getD permIndex 0
  let size := s.reducedInShape.getD next 0
  if st.curHead + 1 = next then
    { st with
      curHead := next
      mergedShape := st.mergedShape.set st.dimIndex (st.mergedShape.getD st.dimIndex 0 * size) }
  else
    { curHead := next
      newDimPosition := st.newDimPosition.set next (st.dimIndex + 1 : Nat)
      mergedShape := st.mergedShape.set (st.dimIndex + 1) size
      dimIndex := st.dimIndex + 1 }

def mergeInit (s : ShapeInfo) : MergeState :=
  let curHead := s.reducedPerm.getD 0 0
  { curHead := curHead
    newDimPosition := (replicate TRANSPOSE_MAX_AXIS_NUM (-1)).set curHead 0
    mergedShape := (replicate TRANSPOSE_MAX_AXIS_NUM 0).set 0 (s.reducedInShape.getD curHead 0)
    dimIndex := 0 }

/-- The compaction of `newDimPosition` in place: the array and the number of entries
moved to its front. -/
def compactStep (st : List Int × Nat) (i : Nat) : List Int × Nat :=
  if st.1.getD i (-1) ≥ 0 then (st.1.set st.2 (st.1.getD i (-1)), st.2 + 1) else st

/-- The locals of the last loop; the two arrays start out uninitialised. -/
structure PlaceState where
  newPerm : List Nat
  newShape : List Nat
  dimIndex : Nat

def placeStep (newDimPosition : List Int) (mergedShape : List Nat) (dim : Nat) (st : PlaceState)
    (i : Nat) : PlaceState :=
  if newDimPosition.getD i (-1) ≥ 0 then
    { newPerm :=
        match (range dim).find? fun j => newDimPosition.getD j (-1) == (i : Int) with
        | some j => st.newPerm.set st.dimIndex j
        | none => st.newPerm
      newShape :=
        st.newShape.set st.dimIndex (mergedShape.getD (newDimPosition.getD i (-1)).toNat 0)
      dimIndex := st.dimIndex + 1 }
  else st

/-- `newPerm` and `newShape` are what the uninitialised arrays of these names hold. -/
def mergeAxisV2 (newPerm newShape : List Nat) (s : ShapeInfo) : ShapeInfo :=
  if s.dim = 1 then s
  else
    let merged := (List.range' 1 (s.dim - 1)).foldl (mergeStep s) (mergeInit s)
    let newDimPosition := ((range s.dim).foldl compactStep (merged.newDimPosition, 0)).1
    let placed := (range s.dim).foldl (placeStep newDimPosition merged.mergedShape s.dim)
      ⟨newPerm, newShape, 0⟩
    calcOutShape { s with
        reducedInShape := duplicateArray placed.newShape s.reducedInShape placed.dimIndex
        reducedPerm := duplicateArray placed.newPerm s.reducedPerm placed.dimIndex
        dim := merged.dimIndex + 1 }

/-! ## What a transpose reads -/

/-- The output axes: their sizes and the strides of the input axes behind them. -/
def transposeAxes (shape perm : List Nat) : Axes :=
  perm.map fun a => (shape.getD a 0, stride shape a)

/-- The input offset of the element at output offset `o`: the indices of `o` along the
output axes, times the strides of the input, as the kernels compute it. -/
def transposeOffset (shape perm : List Nat) (o : Nat) : Nat := (transposeAxes shape perm).readAt o

/-- What `CheckShapeInfo` lets through, for a `perm` that is a permutation. -/
structure ShapeInfo.Valid (s : ShapeInfo) : Prop where
  dim_pos : 1 ≤ s.dim
  dim_le : s.dim ≤ TRANSPOSE_MAX_AXIS_NUM
  inLen : s.inShape.length = TRANSPOSE_MAX_AXIS_NUM
  outLen : s.outShape.length = TRANSPOSE_MAX_AXIS_NUM
  permLen : s.perm.length = TRANSPOSE_MAX_AXIS_NUM
  redInLen : s.reducedInShape.length = TRANSPOSE_MAX_AXIS_NUM
  redOutLen : s.reducedOutShape.length = TRANSPOSE_MAX_AXIS_NUM
  redPermLen : s.reducedPerm.length = TRANSPOSE_MAX_AXIS_NUM
  isPerm : (s.perm.take s.dim).Perm (range s.dim)
  pos : ∀ d ∈ s.inShape.take s.dim, 0 < d
  out : ∀ i < s.dim, s.outShape.getD i 0 = s.inShape.getD (s.perm.getD i 0) 0

/-! ## Filling an array from the front -/

section Fill

variable {α : Type}

/-- An array whose front has been written: writing the next entry extends the front. -/
theorem set_front (front arr : List α) (x : α) (h : front.length < arr.length) :
    (front ++ arr.drop front.length).set front.length x =
      (front ++ [x]) ++ arr.drop (front.length + 1) := by
  rw [set_append_right _ _ (Nat.le_refl _), Nat.sub_self, drop_eq_getElem_cons h,
    set_cons_zero, append_assoc, singleton_append]

theorem foldl_set_range (f : Nat → α) (arr : List α) {n : Nat} (hn : n ≤ arr.length) :
    (range n).foldl (fun arr i => arr.set i (f i)) arr = (range n).map f ++ arr.drop n := by
  induction n with
  | zero => simp
  | succ n ih =>
    have hlen : ((range n).map f).length = n := by simp
    have hset := set_front ((range n).map f) arr (f n) (by omega)
    rw [hlen] at hset
    rw [range_succ, foldl_append, ih (by omega), foldl_cons, foldl_nil, hset,
      map_append, map_singleton]

theorem take_eq_map_getD (l : List Nat) {n : Nat} (hn : n ≤ l.length) :
    l.take n = (range n).map fun i => l.getD i 0 := by
  refine ext_getElem (by simp [hn]) fun i h1 h2 => ?_
  simp only [length_take, lt_inf_iff] at h1
  rw [getElem_take, getElem_map, getElem_range, getD_eq_getElem _ _ h1.2]

theorem take_front {front arr : List α} {n : Nat} (h : front.length = n) :
    (front ++ arr).take n = front := by
  rw [← h, take_left]

theorem duplicateArray_take {src dst : List Nat} {n : Nat} (hsrc : n ≤ src.length)
    (hdst : n ≤ dst.length) : (duplicateArray src dst n).take n = src.take n := by
  rw [duplicateArray, foldl_set_range _ _ hdst, take_front (by simp), take_eq_map_getD _ hsrc]

theorem duplicateArray_length (src dst : List Nat) (n : Nat) :
    (duplicateArray src dst n).length = dst.length := by
  unfold duplicateArray
  induction n with
  | zero => rfl
  | succ n ih =>
    rw [range_succ, foldl_append, foldl_cons, foldl_nil, length_set]
    exact ih

end Fill

/-! ## The state between the passes -/

/-- `s` describes the transpose of `shape` by `perm`. -/
structure Describes (s : ShapeInfo) (shape perm : List Nat) : Prop where
  dim : s.dim = shape.length
  dim_pos : 1 ≤ s.dim
  dim_le : s.dim ≤ TRANSPOSE_MAX_AXIS_NUM
  inLen : s.reducedInShape.length = TRANSPOSE_MAX_AXIS_NUM
  outLen : s.reducedOutShape.length = TRANSPOSE_MAX_AXIS_NUM
  permLen : s.reducedPerm.length = TRANSPOSE_MAX_AXIS_NUM
  takeShape : s.reducedInShape.take s.dim = shape
  takePerm : s.reducedPerm.take s.dim = perm
  isPerm : perm.Perm (range shape.length)
  out : ∀ i < s.dim, s.reducedOutShape.getD i 0 = shape.getD (perm.getD i 0) 0

theorem getD_take {l : List Nat} {n i : Nat} (hi : i < n) : (l.take n).getD i 0 = l.getD i 0 := by
  rw [getD_eq_getElem?_getD, getElem?_take, if_pos hi, getD_eq_getElem?_getD]

section Describes

variable {s : ShapeInfo} {shape perm : List Nat}

theorem perm_getD_lt (hperm : perm.Perm (range shape.length)) {i : Nat}
    (hi : i < perm.length) : perm.getD i 0 < shape.length := by
  rw [getD_eq_getElem _ _ hi]
  exact mem_range.mp (hperm.mem_iff.mp (getElem_mem hi))

theorem Describes.getD_perm (h : Describes s shape perm) {i : Nat} (hi : i < s.dim) :
    s.reducedPerm.getD i 0 = perm.getD i 0 := by
  rw [← h.takePerm, getD_take hi]

theorem Describes.getD_shape (h : Describes s shape perm) {i : Nat} (hi : i < s.dim) :
    s.reducedInShape.getD i 0 = shape.getD i 0 := by
  rw [← h.takeShape, getD_take hi]

theorem calcOutShape_out (h : s.dim ≤ s.reducedOutShape.length) :
    (calcOutShape s).reducedOutShape =
      ((range s.dim).map fun i => s.reducedInShape.getD (s.reducedPerm.getD i 0) 0) ++
        s.reducedOutShape.drop s.dim := foldl_set_range _ _ h

theorem calcOutShape_describes (hdim : s.dim = shape.length) (hpos : 1 ≤ s.dim)
    (hle : s.dim ≤ TRANSPOSE_MAX_AXIS_NUM) (hin : s.reducedInShape.length = TRANSPOSE_MAX_AXIS_NUM)
    (hout : s.reducedOutShape.length = TRANSPOSE_MAX_AXIS_NUM)
    (hplen : s.reducedPerm.length = TRANSPOSE_MAX_AXIS_NUM)
    (hshape : s.reducedInShape.take s.dim = shape) (hperm : s.reducedPerm.take s.dim = perm)
    (his : perm.Perm (range shape.length)) : Describes (calcOutShape s) shape perm where
  dim := hdim
  dim_pos := hpos
  dim_le := hle
  inLen := hin
  outLen := by
    rw [calcOutShape_out (by omega)]
    simp only [length_append, length_map, length_range, length_drop]
    omega
  permLen := hplen
  takeShape := hshape
  takePerm := hperm
  isPerm := his
  out := by
    intro i hi
    have hi : i < s.dim := hi
    rw [calcOutShape_out (by omega), getD_append _ _ _ _ (by simpa using hi)]
    have hlen : perm.length = s.dim := by rw [his.length_eq, length_range, hdim]
    have hlt := perm_getD_lt his (hlen ▸ hi)
    have hp : s.reducedPerm.getD i 0 = perm.getD i 0 := by rw [← hperm, getD_take hi]
    have hs : s.reducedInShape.getD (perm.getD i 0) 0 = shape.getD (perm.getD i 0) 0 := by
      rw [← hshape, getD_take (by omega)]
    rw [getD_eq_getElem?_getD, getElem?_map, getElem?_range hi, Option.map_some,
      Option.getD_some, hp, hs]

end Describes

end MyOperator.Transpose
