import MyOperator.AscendEplb.DefaultEplb
import MyOperator.AscendEplb.SwiftRedundancy

/-!
# The swift policy

`SwiftBalanceEplb.rebalance_experts` of the expert load balancer for Ascend. In a layer that
is out of balance the repeated experts of a node make room for new copies, then ranks of the
node exchange experts until the hottest one finds no partner. The layer takes its new
deployment if the imbalance reported for it is smaller than before.
-/

namespace MyOperator.AscendEplb

open Lib List
open Eplb (NumpyError Argsort assert position item setItem reshape row)

/-- Python's sets of integers. What is not documented is the order of an iteration. -/
structure IntSet where
  Carrier : Type
  empty : Carrier
  add : Carrier → Int → Carrier
  remove : Carrier → Int → Carrier
  toList : Carrier → List Int
  nodup : ∀ s, (toList s).Nodup
  toList_empty : toList empty = []
  mem_add : ∀ s x y, y ∈ toList (add s x) ↔ y = x ∨ y ∈ toList s
  mem_remove : ∀ s x y, y ∈ toList (remove s x) ↔ y ≠ x ∧ y ∈ toList s

/-- The set that is iterated in the order of insertion. -/
def IntSet.inserted : IntSet where
  Carrier := {l : List Int // l.Nodup}
  empty := ⟨[], .nil⟩
  add s x := ⟨s.1.insert x, s.2.insert⟩
  remove s x := ⟨s.1.erase x, s.2.erase x⟩
  toList s := s.1
  nodup s := s.2
  toList_empty := rfl
  mem_add _ _ _ := mem_insert_iff
  mem_remove s _ _ := s.2.mem_erase_iff

/-- `set(l)`. -/
def IntSet.ofList (S : IntSet) (l : List Int) : S.Carrier := l.foldl S.add S.empty

/-- What the policy reads of itself: the constants of `__init__`, and what
`rebalance_experts` sets before it goes through the layers. -/
structure SwiftBalanceEplb where
  numOriginalExperts : Nat := 0
  numRanks : Nat := 0
  numExpertsPerRank : Nat := 0
  numNodes : Nat := 0
  isNodeRedundant : Bool := false
  numMaxCom : Nat := 1
  imbalanceThreshold : ℚ := 101 / 100
  increment : ℚ := 1 / 100
  swapThreshold : ℚ := 0
  maxSwapTimes : Nat := 100
  numDiePerHost : Nat

/-! ## The imbalance -/

/-- `num_per_expert[expert_id] += 1`. -/
def countExpert (counts : List Nat) (expertId : Int) : Except NumpyError (List Nat) := do
  let count ← item counts expertId
  setItem counts expertId (count + 1)

/-- `rank_load` of a rank. -/
def rankLoad (experts : List ℚ) (counts : List Nat) (rank : List Int) : Except NumpyError ℚ :=
  rank.foldlM (fun load expertId => do
    let expertLoad ← item experts expertId
    let count ← item counts expertId
    return load + expertLoad / count) 0

/-- `cur_layer_imbalance` of a layer. -/
def layerImbalance (numRanks : Nat) (layer : List (List Int)) (experts : List ℚ) :
    Except NumpyError ℚ := do
  let counts ← layer.flatten.foldlM countExpert (replicate experts.length 0)
  let loads ← layer.mapM (rankLoad experts counts)
  if numRanks = 0 then .error .ZeroDivisionError else
    let avgLoad := loads.sum / numRanks
    if |avgLoad| < 1 / 10 ^ 9 then return 1 else return loads.foldl max 0 / avgLoad

def calculateImbalance (numRanks : Nat) (curDeployment : Table Int) (curExpertsLoad : List (List ℚ)) :
    Except NumpyError (List ℚ) :=
  (curDeployment.zip curExpertsLoad).mapM fun layer => layerImbalance numRanks layer.1 layer.2

/-! ## The experts of a node -/

variable (S : IntSet) (sort : Argsort) (self : SwiftBalanceEplb)

/-- What `statistics_expert_distribution` returns. -/
structure Distribution where
  redundantExpertPos : List (List Nat)
  expertFromRank : List Nat
  existingExperts : S.Carrier
  numRedundantExperts : Nat

/-- The body of the loops of `statistics_expert_distribution`, at an index and a rank. -/
def visitSlot (deployment : List (List Int)) (d : Distribution S) (slot : Nat × Nat) :
    Except NumpyError (Distribution S) := do
  let rank ← item deployment slot.2
  let expertId ← item rank slot.1
  if expertId ∉ S.toList d.existingExperts then
    let expertFromRank ← setItem d.expertFromRank expertId slot.2
    return { d with
      existingExperts := S.add d.existingExperts expertId
      expertFromRank := expertFromRank }
  else
    return { d with
      redundantExpertPos := d.redundantExpertPos.modify slot.2 (· ++ [slot.1])
      numRedundantExperts := d.numRedundantExperts + 1 }

/-- The slots of a node, the first of every rank first. -/
def slotsOf (numExpertsPerRank numRanks : Nat) : List (Nat × Nat) :=
  (range numExpertsPerRank).flatMap fun index =>
    (range numRanks).map fun rankId => (index, rankId)

def statisticsExpertDistribution (deployment : List (List Int)) : Except NumpyError (Distribution S) :=
  (slotsOf self.numExpertsPerRank deployment.length).foldlM (visitSlot S deployment) {
    redundantExpertPos := replicate deployment.length []
    expertFromRank := replicate self.numOriginalExperts 0
    existingExperts := S.empty
    numRedundantExperts := 0 }

/-- The arrays of a node that the functions below change. `numComBetweenRank` lists the
transfers: the entry of the source's array is how often the pair is in the list. -/
structure NodeState where
  rankAssignments : List (List Int)
  rankLoads : List ℚ
  redundantExpertPos : List (List Nat)
  numComBetweenRank : List (Nat × Nat)
  revExpertPerRank : List (List Int)
  deriving DecidableEq

/-- `num_com_between_rank[send][recv]`. -/
def numCom (com : List (Nat × Nat)) (send recv : Nat) : Nat := com.count (send, recv)

/-- An expert sent to a free slot of a rank. -/
def NodeState.assign (s : NodeState) (expertId : Int) (sendRank rankId pos : Nat) : NodeState :=
  { s with
    rankAssignments := s.rankAssignments.modify rankId (·.set pos expertId)
    numComBetweenRank := s.numComBetweenRank ++ [(sendRank, rankId)]
    revExpertPerRank := s.revExpertPerRank.modify rankId (· ++ [expertId]) }

/-- A rank without its redundant positions. -/
def keptExperts (rank : List Int) (pos : List Nat) : List Int :=
  rank.zipIdx.map fun x => if x.2 ∈ pos then -1 else x.1

/-- `rank_loads` of a rank, summed over the experts that are in place. -/
def placedLoad (weights : List ℚ) (rank : List Int) : Except NumpyError ℚ :=
  rank.foldlM (fun load expertId => do
    let weight ← item weights expertId
    return load + weight) 0

def nonRedundantExpertInformation (deployment : List (List Int)) (updatedWeights : List ℚ)
    (redundantExpertPos : List (List Nat)) : Except NumpyError NodeState := do
  let kept := zipWith keptExperts deployment redundantExpertPos
  let loads ← (deployment.zip redundantExpertPos).mapM fun x =>
    placedLoad updatedWeights ((x.1.zipIdx.filter fun y => y.2 ∉ x.2).map Prod.fst)
  return {
    rankAssignments := kept
    rankLoads := loads
    redundantExpertPos := redundantExpertPos
    numComBetweenRank := []
    revExpertPerRank := replicate deployment.length [] }

/-! ## New copies -/

/-- A rank that may take the copy of an expert. -/
def NodeState.takes (s : NodeState) (expertId : Int) (sendRank rankId : Nat) : Bool :=
  s.redundantExpertPos.getD rankId [] ≠ [] ∧ expertId ∉ s.rankAssignments.getD rankId [] ∧
    numCom s.numComBetweenRank sendRank rankId < self.numMaxCom

/-- The body of the loop over the ranks: `candidate`, none for -1. -/
def nextCandidate (s : NodeState) (expertId : Int) (sendRank : Nat) (candidate : Option Nat)
    (rankId : Nat) : Option Nat :=
  if s.takes self expertId sendRank rankId then
    match candidate with
    | none => some rankId
    | some best => if s.rankLoads.getD rankId 0 < s.rankLoads.getD best 0 then some rankId else candidate
  else candidate

/-- The body of the loop of `distribute_redundant_experts`. -/
def distributeExpert (expertFromRank : List Nat) (s : NodeState) (x : Nat × ℚ) :
    Except NumpyError NodeState := do
  let sendRank ← item expertFromRank x.1
  match (range s.rankAssignments.length).foldl (nextCandidate self s x.1 sendRank) none with
  | none => return s
  | some candidate =>
    match (s.redundantExpertPos.getD candidate []).getLast? with
    | none => .error .IndexError
    | some pos =>
      return { s.assign x.1 sendRank candidate pos with
        redundantExpertPos := s.redundantExpertPos.modify candidate List.dropLast
        rankLoads := s.rankLoads.modify candidate (· + x.2) }

/-- `distribute_redundant_experts`: the state, and `undeployed_ranks`. -/
def distributeRedundantExperts (s : NodeState) (redundantExpertList : List (Nat × ℚ))
    (expertFromRank : List Nat) : Except NumpyError (NodeState × List Nat) := do
  let s ← redundantExpertList.foldlM (distributeExpert self expertFromRank) s
  return (s, (range s.rankAssignments.length).filter fun rankId =>
    s.redundantExpertPos.getD rankId [] ≠ [])

def recomputingInitialWeight (initialWeights : List (Nat × ℚ)) (rankAssignments : List (List Int)) :
    Except NumpyError (List ℚ × List Nat) := do
  let counts ← (rankAssignments.flatten.filter (· ≠ -1)).foldlM countExpert
    (replicate self.numOriginalExperts 0)
  let updateWorkload ← initialWeights.foldlM (fun (updateWorkload : List ℚ) x => do
    let count ← item counts x.1
    assert (count ≠ 0)
    setItem updateWorkload x.1 (x.2 / count)) (replicate self.numOriginalExperts (-1))
  return (updateWorkload, counts)

/-- `np.isclose(a, b)`. -/
def isClose (a b : ℚ) : Bool := |a - b| ≤ 1 / 10 ^ 8 + 1 / 10 ^ 5 * |b|

/-- The loop over `sorted_expert_idx`: the first expert that the rank does not hold. -/
def pickExpert (rank : List Int) (updateWorkload : List ℚ) : List Nat → Except NumpyError (Option Nat)
  | [] => .ok none
  | expertId :: rest => do
      if (expertId : Int) ∈ rank then pickExpert rank updateWorkload rest else
        let weight ← item updateWorkload expertId
        if isClose weight (-1) then .error .ValueError else return some expertId

/-- The state of `fill_in_undeployed_ranks`. -/
structure FillState where
  node : NodeState
  updateWorkload : List ℚ
  numPerExistingExpert : List Nat
  deriving DecidableEq

/-- The body of the loops of `fill_in_undeployed_ranks`, at a rank and a position. -/
def fillSlot (expertFromRank : List Nat) (s : FillState) (slot : Nat × Nat) :
    Except NumpyError FillState := do
  let rank ← item s.node.rankAssignments slot.1
  match ← pickExpert rank s.updateWorkload (sort.argsort s.updateWorkload).reverse with
  | none => return s
  | some expertId =>
    let sendRank ← item expertFromRank expertId
    let weight ← item s.updateWorkload expertId
    let count ← item s.numPerExistingExpert expertId
    let updateWorkload ← setItem s.updateWorkload expertId (weight * (count / (count + 1)))
    let counts ← setItem s.numPerExistingExpert expertId (count + 1)
    return {
      node := s.node.assign expertId sendRank slot.1 slot.2
      updateWorkload := updateWorkload
      numPerExistingExpert := counts }

/-- `fill_in_undeployed_ranks`: the state with its new loads, and the weights. -/
def fillInUndeployedRanks (initialWeights : List (Nat × ℚ)) (s : NodeState) (undeployedRanks : List Nat)
    (expertFromRank : List Nat) : Except NumpyError (NodeState × List ℚ) := do
  let (updateWorkload, counts) ← recomputingInitialWeight self initialWeights s.rankAssignments
  let slots := undeployedRanks.flatMap fun rankId =>
    (s.redundantExpertPos.getD rankId []).map fun pos => (rankId, pos)
  let t ← slots.foldlM (fillSlot sort expertFromRank) ⟨s, updateWorkload, counts⟩
  let loads ← t.node.rankAssignments.mapM (placedLoad t.updateWorkload)
  return ({ t.node with rankLoads := loads }, t.updateWorkload)

/-- `redundancy_again`: the node after its redundancy, and `updated_weights`. An index that
counts from the end is the position it means. -/
def redundancyAgain (curLayerWorkload : List ℚ) (deployment : List (List Int)) :
    Except NumpyError (NodeState × List ℚ) := do
  let d ← statisticsExpertDistribution S self deployment
  let initialWeights ← (S.toList d.existingExperts).mapM fun expertId => do
    let id ← position self.numOriginalExperts expertId
    let weight ← item curLayerWorkload expertId
    return (id, weight)
  let (redundantExpertList, updatedWeights) ← computeRedundantAssignments sort
    self.numOriginalExperts initialWeights d.numRedundantExperts deployment.length
  let s ← nonRedundantExpertInformation deployment updatedWeights d.redundantExpertPos
  let (s, undeployedRanks) ← distributeRedundantExperts self s redundantExpertList d.expertFromRank
  if 0 < undeployedRanks.length then
    fillInUndeployedRanks sort self initialWeights s undeployedRanks d.expertFromRank
  else return (s, updatedWeights)

def redundantExpertDeployment (curLayerWorkload : List ℚ) (curLayerDeployment : List (List Int)) :
    Except NumpyError (List (NodeState × List ℚ)) :=
  if self.isNodeRedundant then
    (reshape self.numNodes self.numDiePerHost curLayerDeployment).mapM
      (redundancyAgain S sort self curLayerWorkload)
  else [curLayerDeployment].mapM (redundancyAgain S sort self curLayerWorkload)

/-! ## Exchange between ranks -/

/-- The body of the inner loop of `swap_experts_between_ranks`: `max_rank_expert`,
`swap_rank_expert` and `max_weight`. -/
def trySwap (maxRank swapRev : List Int) (workload : List ℚ) (maxRankLoad swapRankLoad : ℚ)
    (curExpertId : Int) (curWeight : ℚ) (best : Int × Int × ℚ) (nextExpertId : Int) :
    Except NumpyError (Int × Int × ℚ) := do
  if nextExpertId ∈ maxRank ∨ nextExpertId ∈ swapRev then return best else
    let nextWeight ← item workload nextExpertId
    let curLoadAfterSwap := maxRankLoad - curWeight + nextWeight
    let nextLoadAfterSwap := swapRankLoad - nextWeight + curWeight
    let maxLoadAfterSwap := max curLoadAfterSwap nextLoadAfterSwap
    if maxLoadAfterSwap < best.2.2 then return (curExpertId, nextExpertId, maxLoadAfterSwap)
    else return best

def swapExpertsBetweenRanks (maxRank swapRank maxRev swapRev : List Int) (workload : List ℚ)
    (maxRankLoad swapRankLoad : ℚ) : Except NumpyError (Int × Int × ℚ) :=
  maxRank.foldlM (fun best curExpertId => do
    if curExpertId ∈ swapRank ∨ curExpertId ∈ maxRev then return best else
      let curWeight ← item workload curExpertId
      swapRank.foldlM
        (trySwap maxRank swapRev workload maxRankLoad swapRankLoad curExpertId curWeight) best)
    (-1, -1, maxRankLoad)

/-- `rank_deploy_sets` and the arrays that an exchange changes. -/
structure SwapState where
  rankDeploySets : List S.Carrier
  rankLoads : List ℚ
  numComBetweenRank : List (Nat × Nat)
  revExpertPerRank : List (List Int)

/-- The two ranks exchange `maxRankExpert` and `swapRankExpert`. -/
def SwapState.swap (s : SwapState S) (maxLoadRankId swapRankId : Nat)
    (maxRankExpert swapRankExpert : Int) (maxWeight swapWeight : ℚ) : SwapState S where
  rankDeploySets :=
    (s.rankDeploySets.modify maxLoadRankId fun r => S.add (S.remove r maxRankExpert) swapRankExpert).modify
      swapRankId fun r => S.add (S.remove r swapRankExpert) maxRankExpert
  rankLoads :=
    (s.rankLoads.modify maxLoadRankId (· + (swapWeight - maxWeight))).modify swapRankId
      (· + (maxWeight - swapWeight))
  numComBetweenRank := s.numComBetweenRank ++ [(swapRankId, maxLoadRankId), (maxLoadRankId, swapRankId)]
  revExpertPerRank :=
    (s.revExpertPerRank.modify maxLoadRankId (· ++ [swapRankExpert])).modify swapRankId
      (· ++ [maxRankExpert])

/-- The loop over `sorted_rank_idx[:-1]`: the state after the first exchange, if there is one. -/
def exchangeOnce (updatedWeights : List ℚ) (s : SwapState S) (maxLoadRankId : Nat) (maxRankLoad : ℚ) :
    List Nat → Except NumpyError (Option (SwapState S))
  | [] => .ok none
  | swapRankId :: rest => do
      if numCom s.numComBetweenRank swapRankId maxLoadRankId < self.numMaxCom ∧
          numCom s.numComBetweenRank maxLoadRankId swapRankId < self.numMaxCom then
        let swapRankLoad ← item s.rankLoads swapRankId
        let maxRank ← item s.rankDeploySets maxLoadRankId
        let swapRank ← item s.rankDeploySets swapRankId
        let (maxRankExpert, swapRankExpert, maxWeight) ←
          swapExpertsBetweenRanks (S.toList maxRank) (S.toList swapRank)
            (s.revExpertPerRank.getD maxLoadRankId []) (s.revExpertPerRank.getD swapRankId [])
            updatedWeights maxRankLoad swapRankLoad
        if maxRankLoad - maxWeight < self.swapThreshold ∨ maxRankExpert = -1 then
          exchangeOnce updatedWeights s maxLoadRankId maxRankLoad rest
        else
          let curWeight ← item updatedWeights maxRankExpert
          let nextWeight ← item updatedWeights swapRankExpert
          return some (s.swap S maxLoadRankId swapRankId maxRankExpert swapRankExpert curWeight nextWeight)
      else exchangeOnce updatedWeights s maxLoadRankId maxRankLoad rest

/-- "while max_swap_times > 0", with the values of `exchange` and `max_rank_load`. -/
def exchangeLoop (updatedWeights : List ℚ) : (maxSwapTimes : Nat) → SwapState S → (exchange : Bool) →
    (maxRankLoad : ℚ) → Except NumpyError (SwapState S × ℚ)
  | 0, s, _, maxRankLoad => .ok (s, maxRankLoad)
  | maxSwapTimes + 1, s, exchange, _ =>
    let sortedRankIdx := sort.argsort s.rankLoads
    match sortedRankIdx.getLast? with
    | none => .error .IndexError
    | some maxLoadRankId => do
        let maxRankLoad ← item s.rankLoads maxLoadRankId
        if exchange = false then return (s, maxRankLoad) else
          match ← exchangeOnce S self updatedWeights s maxLoadRankId maxRankLoad
              sortedRankIdx.dropLast with
          | some s' => exchangeLoop updatedWeights maxSwapTimes s' true maxRankLoad
          | none => exchangeLoop updatedWeights maxSwapTimes s false maxRankLoad

def expertExchangeBetweenRanks (s : NodeState) (updatedWeights : List ℚ) :
    Except NumpyError (List (List Int) × ℚ) := do
  let (s, maxRankLoad) ← exchangeLoop S sort self updatedWeights self.maxSwapTimes {
    rankDeploySets := s.rankAssignments.map S.ofList
    rankLoads := s.rankLoads
    numComBetweenRank := s.numComBetweenRank
    revExpertPerRank := s.revExpertPerRank } true 0
  return (s.rankDeploySets.map S.toList, maxRankLoad)

/-- `exchange_experts`; rows of different lengths make no array. -/
def exchangeExperts (nodes : List (NodeState × List ℚ)) : Except NumpyError (List (List Int) × ℚ) := do
  let deployed ← nodes.mapM fun node => expertExchangeBetweenRanks S sort self node.1 node.2
  let newDeployment := (deployed.map Prod.fst).flatten
  let maxWorkload := (deployed.map Prod.snd).foldl max 0
  if newDeployment.all fun rank => rank.length = (newDeployment.headD []).length then
    return (newDeployment, maxWorkload)
  else .error .ValueError

/-! ## Rebalancing -/

/-- `new_deployment[layer] = rows`: one row, or rows of one entry, are repeated. -/
def broadcastTo (numRanks numExpertsPerRank : Nat) (rows : List (List Int)) :
    Except NumpyError (List (List Int)) :=
  let width := (rows.headD []).length
  if (rows.length = numRanks ∨ rows.length = 1) ∧ (width = numExpertsPerRank ∨ width = 1) then
    let wide := rows.map fun rank =>
      if width = numExpertsPerRank then rank else replicate numExpertsPerRank (rank.headD 0)
    return if rows.length = numRanks then wide else replicate numRanks (wide.headD [])
  else .error .ValueError

/-- `layer_workloads[layer]` of `get_original_workload`: the arrays have one shape. -/
def originalWorkload (experts : Nat) (placement : List (List Int)) (workload : List (List ℚ)) : List ℚ :=
  row experts (workloadOf placement workload)

/-- `new_max_workload / ave_workload < imbalance`; what the division by zero gives is not less. -/
def improves (newMaxWorkload aveWorkload imbalance : ℚ) : Bool :=
  aveWorkload ≠ 0 ∧ newMaxWorkload / aveWorkload < imbalance

/-- The body of the loop over the layers: the new deployment, and what goes to
`max_heat_per_layer_after`. -/
def rebalanceLayer (aveWorkload : ℚ) (placement : List (List Int)) (workload : List ℚ)
    (imbalance heatBefore : ℚ) : Except NumpyError (List (List Int) × ℚ) := do
  if imbalance < self.imbalanceThreshold then return (placement, heatBefore) else
    let nodes ← redundantExpertDeployment S sort self workload placement
    let (newLayerDeployment, newMaxWorkload) ← exchangeExperts S sort self nodes
    if improves newMaxWorkload aveWorkload imbalance then
      let newLayer ← broadcastTo self.numRanks self.numExpertsPerRank newLayerDeployment
      return (newLayer, newMaxWorkload)
    else return (placement, newMaxWorkload)

/-- The fields that `rebalance_experts` sets; `aveWorkload` is that of the first layer. -/
def SwiftBalanceEplb.prepare (numDiePerHost : Nat) (placementTable : Table Int) (aveWorkload : ℚ)
    (isNodeRedundant : Bool) : SwiftBalanceEplb :=
  let numRanks := (placementTable.headD []).length
  let fresh : SwiftBalanceEplb := { numDiePerHost := numDiePerHost }
  { fresh with
    numOriginalExperts := numOriginalExpert placementTable
    numRanks := numRanks
    numExpertsPerRank := ((placementTable.headD []).headD []).length
    numNodes := numRanks / numDiePerHost
    isNodeRedundant := isNodeRedundant
    swapThreshold := aveWorkload * fresh.increment }

/-- `rebalance_experts` of a policy on hosts with `numDiePerHost` devices. The tables have one
shape. -/
def swiftRebalanceExperts (numDiePerHost : Nat) (currentExpertTable : Table Int)
    (expertWorkload : Table ℚ) (isNodeRedundant : Bool) : Except NumpyError Rebalanced := do
  if numDiePerHost = 0 then .error .ZeroDivisionError else
  let layerWorkloads := (currentExpertTable.zip expertWorkload).map fun layer =>
    originalWorkload (numOriginalExpert currentExpertTable) layer.1 layer.2
  match layerWorkloads with
  | [] => .error .IndexError
  | firstLayer :: _ =>
    let numRanks := (currentExpertTable.headD []).length
    if numRanks = 0 then .error .ZeroDivisionError else
    let aveWorkload := firstLayer.sum / numRanks
    let self := SwiftBalanceEplb.prepare numDiePerHost currentExpertTable aveWorkload isNodeRedundant
    let imbalances ← calculateImbalance numRanks currentExpertTable layerWorkloads
    let before ← maxHeatPerLayer expertWorkload
    let layers ← (currentExpertTable.zip (layerWorkloads.zip (imbalances.zip before))).mapM fun x =>
      rebalanceLayer S sort self aveWorkload x.1 x.2.1 x.2.2.1 x.2.2.2
    let placement ← constraintExpertLocalExchange currentExpertTable (layers.map Prod.fst)
    let after := layers.map Prod.snd
    let ratios := zipWith (fun a b => if 0 < b then a / b else 1) after before
    return {
      change := if after.sum < 95 / 100 * before.sum then 1 else 0
      perLayerPriority := sort.argsort ratios
      placement := placement }

end MyOperator.AscendEplb
