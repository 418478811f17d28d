import MyOperator.Eplb.Numpy

/-!
# The default policy

`DefaultEplb.rebalance_experts` of the expert load balancer for Ascend: the hottest experts
get redundant copies, at most one for each card, and the experts are packed onto the cards,
heaviest first, each on the lightest card with space that does not hold it.
-/

namespace MyOperator.AscendEplb

open Lib List
open Eplb (NumpyError)

/-! ## Redundant experts -/

/-- `np.argsort([t[1] for t in origin_weights], kind="stable")[::-1]`, and the weights in this order. -/
def sortDescending (weights : List (Nat × ℚ)) : List (Nat × ℚ) :=
  (weights.insertionSort fun s t => s.2 ≤ t.2).reverse

/-- The body of the loop over the redundant experts. -/
def addRedundancy (routeExpertNum : Nat) (s : List (Nat × ℚ) × List (List Nat)) (i : Nat) :
    Except NumpyError (List (Nat × ℚ) × List (List Nat)) :=
  match sortDescending s.1 with
  | [] => .error .IndexError
  | (expert, weight) :: weights =>
    match s.2[expert]? with
    | none => .error .IndexError
    | some redundancy =>
      let tmpRawWeight := weight * (redundancy.length + 1)
      let redundancy := redundancy ++ [routeExpertNum + i]
      let avgWeight := tmpRawWeight / (redundancy.length + 1)
      .ok ((expert, avgWeight) :: weights, s.2.set expert redundancy)

/-! ## Boxes -/

/-- A box: its entries of `boxes`, `boxes_weights`, `box_weights` and `box_counts`. -/
structure Box where
  items : List Nat
  weights : List ℚ
  totalWeight : ℚ
  itemCount : Nat
  deriving DecidableEq

def Box.empty : Box := ⟨[], [], 0, 0⟩

def Box.add (box : Box) (item : Nat) (weight : ℚ) : Box where
  items := box.items ++ [item]
  weights := box.weights ++ [weight]
  totalWeight := box.totalWeight + weight
  itemCount := box.itemCount + 1

/-- The items of a box as entries of a table. -/
def Box.experts (box : Box) : List Int := box.items.map fun item : Nat => (item : Int)

def curWeight (originWeights : List (Nat × ℚ)) (expert : Nat) : ℚ :=
  originWeights.foldl (fun cur x => if x.1 = expert then x.2 else cur) 0

/-- The redundant experts in the order in which they go to the boxes. -/
def redundantItems (redundancy : List (List Nat)) : List Nat :=
  redundancy.zipIdx.flatMap fun x => replicate x.1.length x.2

/-- The redundant expert number `index` goes to box `index`. -/
def placeNext (originWeights : List (Nat × ℚ)) (boxes : List Box) (x : Nat × Nat) :
    Except NumpyError (List Box) :=
  match boxes[x.2]? with
  | none => .error .IndexError
  | some box => .ok (boxes.set x.2 (box.add x.1 (curWeight originWeights x.1)))

/-- The loops over the redundant experts. -/
def placeRedundant (originWeights : List (Nat × ℚ)) (boxes : List Box) (redundant : List Nat) :
    Except NumpyError (List Box) := redundant.zipIdx.foldlM (placeNext originWeights) boxes

/-- "Only choose boxes that still have space". -/
def hasSpace (itemsPerBox remainingItems : Nat) (box : Box) : Bool :=
  box.itemCount < itemsPerBox ∨ (box.itemCount = itemsPerBox ∧ 0 < remainingItems)

/-- The body of the loop over the boxes. -/
def minBox (itemsPerBox remainingItems item : Nat) (boxes : List Box) (minBoxIndex : Option Nat)
    (i : Nat) : Option Nat :=
  match boxes[i]? with
  | none => minBoxIndex
  | some box =>
    if item ∈ box.items then minBoxIndex
    else if hasSpace itemsPerBox remainingItems box then
      match minBoxIndex.bind (boxes[·]?) with
      | none => some i
      | some least => if box.totalWeight < least.totalWeight then some i else minBoxIndex
    else minBoxIndex

/-- "Find the box with the least items but not full": `min_box_index`, none for -1. -/
def minBoxIndex (itemsPerBox remainingItems item : Nat) (boxes : List Box) : Option Nat :=
  (range boxes.length).foldl (minBox itemsPerBox remainingItems item boxes) none

/-- "Place the item (id) into the selected box": the index -1 is that of the last box. -/
def placeItem (itemsPerBox : Nat) (s : List Box × Nat) (x : Nat × ℚ) : List Box × Nat :=
  let selected := (minBoxIndex itemsPerBox s.2 x.1 s.1).getD (s.1.length - 1)
  let boxes := s.1.modify selected fun box => box.add x.1 x.2
  let remainingItems :=
    match boxes[selected]? with
    | some box => if box.itemCount = itemsPerBox + 1 ∧ 0 < s.2 then s.2 - 1 else s.2
    | none => s.2
  (boxes, remainingItems)

def originalComputeBalancedPackRedundancy (originWeights : List (Nat × ℚ))
    (cardNum numRedundancyExpert : Nat) : Except NumpyError (List Box) := do
  let routeExpertNum := originWeights.length
  let s ← (range numRedundancyExpert).foldlM (addRedundancy routeExpertNum)
    (originWeights, replicate routeExpertNum [])
  let expertNum := routeExpertNum + numRedundancyExpert
  if cardNum = 0 then .error .ZeroDivisionError else
    let boxes ← placeRedundant s.1 (replicate cardNum .empty) (redundantItems s.2)
    .ok ((sortDescending s.1).foldl (placeItem (expertNum / cardNum)) (boxes, expertNum % cardNum)).1

/-! ## Local exchange -/

/-- The position of the loop over `j` that takes the expert. -/
def findSlot (currentList newIndex : List Int) (expert : Int) : (todo j : Nat) →
    Except NumpyError (Option Nat)
  | 0, _ => .ok none
  | todo + 1, j =>
    match currentList[j]? with
    | none => .error .IndexError
    | some current =>
      if expert = current ∧ newIndex[j]? = some (-1) then .ok (some j)
      else findSlot currentList newIndex expert todo (j + 1)

/-- `new_index`, `new_result` and `remaining_elements`. -/
structure ExchangeState where
  newIndex : List Int
  newResult : List Int
  remaining : List Int

/-- The body of the loop over `i`. -/
def exchangeStep (currentList : List Int) (s : ExchangeState) (expert : Int) :
    Except NumpyError ExchangeState := do
  match ← findSlot currentList s.newIndex expert s.newIndex.length 0 with
  | some j => .ok { s with newIndex := s.newIndex.set j 0, newResult := s.newResult.set j expert }
  | none => .ok { s with remaining := s.remaining ++ [expert] }

/-- The loop over `k`. -/
def fillRemaining : (newResult remaining : List Int) → Except NumpyError (List Int)
  | [], _ => .ok []
  | expert :: newResult, remaining =>
    if expert = -1 then
      match remaining with
      | [] => .error .IndexError
      | next :: remaining => do
          let rest ← fillRemaining newResult remaining
          .ok (next :: rest)
    else do
      let rest ← fillRemaining newResult remaining
      .ok (expert :: rest)

/-- `constraint_expert_local_exchange` of a card. -/
def exchangeCard (currentList newList : List Int) : Except NumpyError (List Int) := do
  let s ← newList.foldlM (exchangeStep currentList)
    ⟨replicate newList.length (-1), replicate newList.length (-1), []⟩
  fillRemaining s.newResult s.remaining

/-- A table: a row for each layer, in it a row for each card. -/
abbrev Table (α : Type) := List (List (List α))

/-- The body of the loop over the cards of a layer. -/
def exchangeCardOf (currentExpertTable : Table Int) (layerId : Nat) (card : List Int × Nat) :
    Except NumpyError (List Int) :=
  match currentExpertTable[layerId]? with
  | none => .error .IndexError
  | some current =>
    match current[card.2]? with
    | none => .error .IndexError
    | some currentList => exchangeCard currentList card.1

def constraintExpertLocalExchange (currentExpertTable globalDeployment : Table Int) :
    Except NumpyError (Table Int) :=
  globalDeployment.zipIdx.mapM fun layer => layer.1.zipIdx.mapM (exchangeCardOf currentExpertTable layer.2)

/-! ## Rebalancing -/

/-- `np.max`. -/
def maximum : List ℚ → Except NumpyError ℚ
  | [] => .error .ValueError
  | w :: row => .ok (row.foldl max w)

/-- `add_redundant`: what the copies of an expert of a layer bear together. -/
def workloadOf (placement : List (List Int)) (workload : List (List ℚ)) (expert : Nat) : ℚ :=
  ((placement.flatten.zip workload.flatten).filterMap fun x =>
    if x.1 = (expert : Int) then some x.2 else none).sum

/-- `weights` of a layer. -/
def layerWeights (experts : Nat) (placement : List (List Int)) (workload : List (List ℚ)) :
    List (Nat × ℚ) :=
  (range experts).map fun expert => (expert, workloadOf placement workload expert)

/-- `calculate_max_heat_per_layer`. -/
def maxHeatPerLayer (workloadTable : Table ℚ) : Except NumpyError (List ℚ) :=
  workloadTable.mapM fun layer => maximum (layer.map List.sum)

/-- `num_original_expert`: the number of experts of the first layer. -/
def numOriginalExpert (placementTable : Table Int) : Nat := (placementTable.headD []).flatten.dedup.length

def numRedundancyExpert (placementTable : Table Int) : Nat :=
  (placementTable.headD []).flatten.length - numOriginalExpert placementTable

/-- `change`, `per_layer_priority` and the new placement. -/
structure Rebalanced where
  change : Nat
  perLayerPriority : List Nat
  placement : Table Int
  deriving DecidableEq

/-- `rebalance_experts`; `argsortRatio` is the order in which `np.argsort` puts the quotients of the
heats after and before. -/
def rebalanceExperts (argsortRatio : List (ℚ × ℚ) → List Nat) (currentExpertTable : Table Int)
    (expertWorkload : Table ℚ) : Except NumpyError Rebalanced := do
  let numNpus := (expertWorkload.headD []).length
  let before ← maxHeatPerLayer expertWorkload
  -- without a card the shape or the maximum is not defined
  if numNpus = 0 then .error .ValueError else
  if numNpus < numRedundancyExpert currentExpertTable then .error .ValueError else
    let boxes ← (currentExpertTable.zip expertWorkload).mapM fun layer =>
      originalComputeBalancedPackRedundancy
        (layerWeights (numOriginalExpert currentExpertTable) layer.1 layer.2) numNpus
        (numRedundancyExpert currentExpertTable)
    let after ← boxes.mapM fun layer => maximum (layer.map Box.totalWeight)
    let placement ← constraintExpertLocalExchange currentExpertTable
      (boxes.map fun layer => layer.map Box.experts)
    .ok {
      change := if after.sum < 95 / 100 * before.sum then 1 else 0
      perLayerPriority := argsortRatio (after.zip before)
      placement := placement }

end MyOperator.AscendEplb
