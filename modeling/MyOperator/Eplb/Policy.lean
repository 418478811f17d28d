import MyOperator.Eplb.Numpy

/-!
# The expert placement policy

`DefaultEplbPolicy` and `compute_logical_maps`. The array operations act along the last
axis and the reshapes keep the layers apart, so the placement is computed one layer at a
time; the shape checks are made once. The loads are rationals.
-/

namespace MyOperator.Eplb

open Lib List

/-- An array of two axes. -/
structure Array2 (α : Type) where
  numCols : Nat
  rows : List (List α)
  rect : ∀ r ∈ rows, r.length = numCols

variable (np : Argsort)

/-! ## Packing -/

/-- What the packing loop of a layer assigns to. -/
structure PackState where
  packIndex : List Int
  rankInPack : List Int
  weightsRow : List (WithTop ℚ)
  itemsRow : List Nat

/-- A pass of the packing loop. A full pack weighs `inf`. -/
def packGroup (weight : List ℚ) (groupsPerPack : Nat) (s : PackState) (group : Nat) :
    Except NumpyError PackState := do
  let pack ← argmin s.weightsRow
  let packIndex ← setItem s.packIndex group pack
  let items ← item s.itemsRow pack
  let rankInPack ← setItem s.rankInPack group items
  let packWeight ← item s.weightsRow pack
  let groupWeight ← item weight group
  let packWeight := if items + 1 = groupsPerPack then ⊤ else packWeight + (groupWeight : WithTop ℚ)
  let weightsRow ← setItem s.weightsRow pack packWeight
  let itemsRow ← setItem s.itemsRow pack (items + 1)
  return { packIndex, rankInPack, weightsRow, itemsRow }

/-- `balanced_packing` of a layer: the pack index and the rank in its pack of every item. -/
def balancedPacking (weight : List ℚ) (numPacks : Nat) :
    Except NumpyError (List Int × List Int) := do
  let numGroups := weight.length
  assertDivisible numGroups numPacks
  let groupsPerPack := numGroups / numPacks
  if groupsPerPack = 1 then return (arange numGroups, replicate numGroups 0)
  let indices := np.argsort (weight.map fun w => -w)
  let s ← indices.foldlM (packGroup weight groupsPerPack)
    { packIndex := replicate numGroups (-1)
      rankInPack := replicate numGroups (-1)
      weightsRow := replicate numPacks 0
      itemsRow := replicate numPacks 0 }
  return (s.packIndex, s.rankInPack)

/-! ## Replication -/

/-- A pass of the replication loop, on `phy2log` and `logcnt`. -/
def replicateExpert (weight : List ℚ) (s : List Int × List Nat) (i : Nat) :
    Except NumpyError (List Int × List Nat) := do
  let redundantIndex ← argmax (zipWith (fun (w : ℚ) (c : Nat) => w / (c : ℚ)) weight s.2)
  let phy2log ← setItem s.1 i redundantIndex
  let cnt ← item s.2 redundantIndex
  let logcnt ← setItem s.2 redundantIndex (cnt + 1)
  return (phy2log, logcnt)

/-- `replicate_experts` of a layer. -/
def replicateExperts (weight : List ℚ) (numPhy : Nat) : Except NumpyError (List Int × List Nat) := do
  let numLog := weight.length
  assert (numLog ≤ numPhy)
  (List.range' numLog (numPhy - numLog)).foldlM (replicateExpert weight)
    (arange numPhy, replicate numLog 1)

/-! ## Hierarchical placement -/

/-- `inverse`. What `np.empty_like` holds is overwritten. -/
def inverse (perm : List Int) : Except NumpyError (List Int) :=
  perm.zipIdx.foldlM (fun inv e => setItem inv e.1 (e.2 : Int)) (replicate perm.length 0)

/-- The shape that `rebalance_experts_hierarchical` works with. -/
structure Shape where
  numLogicalExperts : Nat
  numPhysicalExperts : Nat
  numGroups : Nat
  numNodes : Nat
  numGpus : Nat
  deriving DecidableEq, Repr

namespace Shape

variable (sh : Shape)

def groupSize : Nat := sh.numLogicalExperts / sh.numGroups

def groupsPerNode : Nat := sh.numGroups / sh.numNodes

def phyExpertsPerGpu : Nat := sh.numPhysicalExperts / sh.numGpus

/-- `num_logical_experts // num_nodes`. -/
def logicalPerNode : Nat := sh.numLogicalExperts / sh.numNodes

/-- `num_physical_experts // num_nodes`. -/
def physicalPerNode : Nat := sh.numPhysicalExperts / sh.numNodes

end Shape

/-- Step 1 of a layer: the node-local place of every logical expert. -/
def packGroups (sh : Shape) (weight : List ℚ) : Except NumpyError (List Int) := do
  let tokensPerGroup := (reshape sh.numGroups sh.groupSize weight).map List.sum
  let (groupPackIndex, groupRankInPack) ← balancedPacking np tokensPerGroup sh.numNodes
  let groupPlace := zipWith (fun pack rank => pack * (sh.groupsPerNode : Int) + rank)
    groupPackIndex groupRankInPack
  return (groupPlace.map fun place =>
    (arange sh.groupSize).map fun k => place * (sh.groupSize : Int) + k).flatten

/-- Steps 2 and 3 of a node: its physical experts, as places in the node. -/
def placeNode (sh : Shape) (tokensPerMlog : List ℚ) : Except NumpyError (List Int) := do
  let (phy2mlog, mlogcnt) ← replicateExperts tokensPerMlog sh.physicalPerNode
  let tokensPerPhy ← takeAlong
    (zipWith (fun (w : ℚ) (c : Nat) => w / (c : ℚ)) tokensPerMlog mlogcnt) phy2mlog
  let (packIndex, rankInPack) ← balancedPacking np tokensPerPhy (sh.numGpus / sh.numNodes)
  let phy2pphy := zipWith (fun pack rank => pack * (sh.phyExpertsPerGpu : Int) + rank)
    packIndex rankInPack
  let pphy2phy ← inverse phy2pphy
  takeAlong phy2mlog pphy2phy

/-- `rebalance_experts_hierarchical` of a layer. -/
def rebalanceLayer (sh : Shape) (weight : List ℚ) : Except NumpyError (List Int) := do
  let log2mlog ← packGroups np sh weight
  let mlog2log ← inverse log2mlog
  let tokensPerMlog ← takeAlong weight mlog2log
  let nodes ← (reshape sh.numNodes sh.logicalPerNode tokensPerMlog).mapM (placeNode np sh)
  let pphy2mlog := (nodes.zipIdx.map fun node =>
    node.1.map fun place => place + (node.2 * sh.logicalPerNode : Nat)).flatten
  takeAlong mlog2log pphy2mlog

/-- `rebalance_experts_hierarchical`. A reshape to `-1` rows of no entries raises, and so
does one of no layers. -/
def rebalanceExpertsHierarchical (weight : Array2 ℚ)
    (numPhysicalExperts numGroups numNodes numGpus : Nat) : Except NumpyError (List (List Int)) := do
  let sh : Shape :=
    { numLogicalExperts := weight.numCols, numPhysicalExperts, numGroups, numNodes, numGpus }
  assertDivisible sh.numLogicalExperts numGroups
  assertDivisible numGroups numNodes
  assertDivisible numGpus numNodes
  assertDivisible numPhysicalExperts numGpus
  if sh.logicalPerNode = 0 ∨ weight.rows = [] then .error .ValueError
  else weight.rows.mapM (rebalanceLayer np sh)

/-! ## Slot preservation -/

/-- What the first pass over a rank assigns to. -/
structure SlotState where
  post : List Int
  usedNewIndices : List Bool
  preservedPositions : List Bool

/-- The new index that `matches` finds first: the expert of the old slot, not used yet. -/
def firstMatch (newLocal : List Int) (old : Int) (usedNewIndices : List Bool) : Option Nat :=
  (zipWith (fun new used => new == old && !used) newLocal usedNewIndices).findIdx? id

/-- A pass of the first loop. -/
def preserveSlot (newLocal oldLocal : List Int) (s : SlotState) (slotIdx : Nat) :
    Except NumpyError SlotState := do
  let old ← item oldLocal slotIdx
  match firstMatch newLocal old s.usedNewIndices with
  | none => return s
  | some i => do
      let new ← item newLocal i
      return {
        post := s.post.set slotIdx new
        usedNewIndices := s.usedNewIndices.set i true
        preservedPositions := s.preservedPositions.set slotIdx true }

/-- The indices with a mask entry, sorted before the others: `argsort` of the index where
the mask is set and of a sentinel elsewhere. -/
def maskedIndices (mask : List Bool) : List Nat :=
  np.argsort (mask.zipIdx.map fun e => if e.1 then e.2 else mask.length + 1)

/-- The second pass: the rest of the new experts fills the rest of the slots. -/
def fillSlots (newLocal : List Int) (s : SlotState) : Except NumpyError (List Int) := do
  let remainingMask := s.usedNewIndices.map not
  let fillMask := s.preservedPositions.map not
  let takeCount := min (remainingMask.count true) (fillMask.count true)
  let srcPos := (maskedIndices np remainingMask).take takeCount
  let dstPos := (maskedIndices np fillMask).take takeCount
  (dstPos.zip srcPos).foldlM (fun post e => do
    let new ← item newLocal e.2
    setItem post e.1 new) s.post

/-- `preserve_intragpu_slots` for a rank of a layer. -/
def preserveRank (newLocal oldLocal : List Int) : Except NumpyError (List Int) := do
  let slotsPerGpu := newLocal.length
  let s ← (range slotsPerGpu).foldlM (preserveSlot newLocal oldLocal)
    { post := newLocal
      usedNewIndices := replicate slotsPerGpu false
      preservedPositions := replicate slotsPerGpu false }
  fillSlots np newLocal s

/-- The slots of a rank. -/
def rankSlots (slotsPerGpu rank : Nat) (row : List Int) : List Int :=
  (row.drop (rank * slotsPerGpu)).take slotsPerGpu

/-- `preserve_intragpu_slots` of a layer. -/
def preserveLayer (numRanks : Nat) (phy2log oldPhy2log : List Int) :
    Except NumpyError (List Int) := do
  let numPhyExperts := phy2log.length
  if numRanks = 0 ∨ numPhyExperts % numRanks ≠ 0 then return phy2log
  let slotsPerGpu := numPhyExperts / numRanks
  let ranks ← (range numRanks).mapM fun rank =>
    preserveRank np (rankSlots slotsPerGpu rank phy2log) (rankSlots slotsPerGpu rank oldPhy2log)
  return ranks.flatten

/-- An array of one layer is broadcast to all layers. -/
def broadcastLayers (layers : Nat) : List (List Int) → List (List Int)
  | [r] => replicate layers r
  | rows => rows

def preserveIntragpuSlots (phy2log : List (List Int)) (numRanks : Nat)
    (oldPhy2log : List (List Int)) : Except NumpyError (List (List Int)) :=
  let oldPhy2log := broadcastLayers phy2log.length oldPhy2log
  if oldPhy2log.length ≠ phy2log.length then .error .ValueError
  else (phy2log.zip oldPhy2log).mapM fun layer => preserveLayer np numRanks layer.1 layer.2

def rebalanceExperts (weight : Array2 ℚ) (numReplicas numGroups numNodes numRanks : Nat)
    (oldGlobalExpertIndices : Option (List (List Int))) : Except NumpyError (List (List Int)) := do
  if numNodes = 0 then .error .ZeroDivisionError
  let phy2log ← (if numGroups % numNodes = 0 then
      rebalanceExpertsHierarchical np weight numReplicas numGroups numNodes numRanks
    else rebalanceExpertsHierarchical np weight numReplicas 1 1 numRanks :
      Except NumpyError (List (List Int)))
  match oldGlobalExpertIndices with
  | some old => preserveIntragpuSlots np phy2log numRanks old
  | none => return phy2log

/-! ## Logical maps -/

/-- `scatter_add_` of a layer of the map: an unused slot adds 0 to expert 0. -/
def logicalReplicaCount (numLogicalExperts : Nat) (phy2log : List Int) :
    Except NumpyError (List Nat) := phy2log.foldlM (fun counts expert => do
    let cnt ← item counts (max expert 0)
    setItem counts (max expert 0) (cnt + (if 0 ≤ expert then 1 else 0)))
    (replicate numLogicalExperts 0)

/-- A pass of the loop over the physical slots, on `logical_to_physical_map_out` and
`running_count`. -/
def recordSlot (s : List (List Int) × List Nat) (slot : Int × Nat) :
    Except NumpyError (List (List Int) × List Nat) := do
  if slot.1 < 0 then return s
  let replicaIdx ← item s.2 slot.1
  let slots ← item s.1 slot.1
  let slots ← setItem slots replicaIdx (slot.2 : Int)
  let out ← setItem s.1 slot.1 slots
  let runningCount ← setItem s.2 slot.1 (replicaIdx + 1)
  return (out, runningCount)

/-- A layer of `logical_to_physical_map`. -/
def logicalToPhysical (numLogicalExperts maxReplicas : Nat) (phy2log : List Int) :
    Except NumpyError (List (List Int)) := do
  let s ← phy2log.zipIdx.foldlM recordSlot
    (replicate numLogicalExperts (replicate maxReplicas (-1)), replicate numLogicalExperts 0)
  return s.1

/-- `compute_logical_maps`: `logical_to_physical_map` and `logical_replica_count`. The
maximum of no counts raises. -/
def computeLogicalMaps (physicalToLogicalMap : List (List Int)) (numLogicalExperts : Nat) :
    Except NumpyError (List (List (List Int)) × List (List Nat)) := do
  let logicalReplicaCount ← physicalToLogicalMap.mapM (logicalReplicaCount numLogicalExperts)
  match logicalReplicaCount.flatten.max? with
  | none => .error .ValueError
  | some maxReplicas =>
    let out ← physicalToLogicalMap.mapM (logicalToPhysical numLogicalExperts maxReplicas)
    return (out, logicalReplicaCount)

end MyOperator.Eplb
