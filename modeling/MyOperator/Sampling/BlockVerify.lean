import MyOperator.Sampling.RejectionRows

/-!
# Block verification

Block verification accepts draft tokens up to the last position whose uniform number
is at most a threshold of the position. There is a kernel, whose programs walk the
requests of a block one after the other, and an implementation on whole tensors with
one column for each possible position.
-/

namespace MyOperator.Sampling

open Function List

variable {K : Type*} [Field K] [LinearOrder K]

/-! ## The kernel -/

/-- `tl.sum(residual_prob)` of a tile of the vocabulary; masked loads read zero. -/
def residualTile (prefixProb : K) (draftProbs targetProbs : Nat → K)
    (vocabSize SUB_BLOCK tile : Nat) : K := ((range SUB_BLOCK).map fun lane =>
    let vocabOffset := tile * SUB_BLOCK + lane
    max (prefixProb * (if vocabOffset < vocabSize then targetProbs vocabOffset else 0) -
      (if vocabOffset < vocabSize then draftProbs vocabOffset else 0)) 0).sum

/-- `residual_mass` with the rows of the position `next_token_idx`. -/
def kernelResidualMass (a : Arrays K) (prefixProb : K) (vocabSize SUB_BLOCK nextTokenIdx : Nat) : K :=
  let nextTargetProbs := a.targetProbs.getD nextTokenIdx fun _ => 0
  match a.draftProbs with
  | none => prefixProb * (1 - nextTargetProbs (a.draftTokenIds.getD nextTokenIdx 0))
  | some draftProbs =>
    (range ((vocabSize + SUB_BLOCK - 1) / SUB_BLOCK)).foldl (fun residualMass tile =>
      residualMass + residualTile prefixProb (draftProbs.getD nextTokenIdx fun _ => 0)
        nextTargetProbs vocabSize SUB_BLOCK tile) 0

/-- One pass of the loop over the positions, on `accepted_len` and `prefix_prob`. -/
def blockVerifyStep (a : Arrays K) (vocabSize SUB_BLOCK startIdx numDraftTokens : Nat)
    (s : Nat × K) (pos : Nat) : Nat × K :=
  let tokenIdx := startIdx + pos
  let draftTokenId := a.draftTokenIds.getD tokenIdx 0
  let targetProb := a.targetProbs.getD tokenIdx (fun _ => 0) draftTokenId
  let draftProb := a.draftProb tokenIdx draftTokenId
  let prefixProb := if 0 < draftProb then min (s.2 * targetProb / draftProb) 1 else 0
  let hBlock :=
    if pos = numDraftTokens - 1 then prefixProb
    else
      let residualMass := kernelResidualMass a prefixProb vocabSize SUB_BLOCK (tokenIdx + 1)
      let denom := residualMass + 1 - prefixProb
      if 0 < denom then residualMass / denom else 0
  (if a.uniformProbs.getD tokenIdx 0 ≤ hBlock then pos + 1 else s.1, prefixProb)

/-- What the kernel does for a request that is not greedy. -/
def blockVerifyRequest (a : Arrays K) (maxSpecLen vocabSize SUB_BLOCK : Nat)
    (outputTokenIds : Nat → Int) (reqIdx : Nat) : Nat → Int :=
  let startIdx := a.startIdx reqIdx
  let numDraftTokens := a.endIdx reqIdx - startIdx
  let base := reqIdx * (maxSpecLen + 1)
  if numDraftTokens = 0 then
    update outputTokenIds base (a.bonusTokenIds.getD reqIdx 0 : Int)
  else
    let s := (range numDraftTokens).foldl
      (blockVerifyStep a vocabSize SUB_BLOCK startIdx numDraftTokens) (0, 1)
    let out := (range s.1).foldl (fun out pos =>
      update out (base + pos) (a.draftTokenIds.getD (startIdx + pos) 0 : Int))
      outputTokenIds
    if s.1 = numDraftTokens then
      update out (base + numDraftTokens) (a.bonusTokenIds.getD reqIdx 0 : Int)
    else
      update out (base + s.1) (a.recoveredTokenIds.getD (startIdx + s.1) 0 : Int)

/-- `rejection_random_sample_block_verify_kernel`, for a block of requests. -/
def rejectionRandomSampleBlockVerifyKernel (a : Arrays K)
    (maxSpecLen vocabSize vecLen BLOCK_SIZE SUB_BLOCK : Nat) (outputTokenIds : Nat → Int)
    (blockIdx : Nat) : Nat → Int := (range BLOCK_SIZE).foldl (fun out reqI =>
    let reqIdx := blockIdx * BLOCK_SIZE + reqI
    if reqIdx < vecLen ∧ a.isGreedy.getD reqIdx true = false then
      blockVerifyRequest a maxSpecLen vocabSize SUB_BLOCK out reqIdx
    else out) outputTokenIds

/-- `cal_grid_and_block_size`, for a device with at least one vector core. -/
def calGridAndBlockSize (vectorcoreNum : PNat) (batchSize : Nat) : Nat × Nat :=
  if batchSize ≤ vectorcoreNum.val then (batchSize, 1)
  else (vectorcoreNum.val, 2 ^ Nat.clog 2 ((batchSize + vectorcoreNum.val - 1) / vectorcoreNum.val))

/-- The launch of the kernel on a batch. -/
def blockVerifyLaunch (b : Batch K) (noDraftProbs : Bool) (vectorcoreNum : PNat)
    (maxSpecLen vocabSize : Nat) (outputTokenIds : Nat → Int) : Nat → Int :=
  let g := calGridAndBlockSize vectorcoreNum b.length
  (range g.1).foldl (rejectionRandomSampleBlockVerifyKernel (b.arrays noDraftProbs) maxSpecLen
    vocabSize b.length g.2 (4 * 1024)) outputTokenIds

/-! ## The implementation on tensors

A tensor with a row for each request is a function of the request and the column; the columns of
`i_indices` are `1 … max_spec_len`, those here start at zero. -/

namespace BlockVerifyPytorch

def numDraftPerBatch (a : Arrays K) (req : Nat) : Nat := a.endIdx req - a.startIdx req

def validMask (a : Arrays K) (req i : Nat) : Prop := i + 1 ≤ numDraftPerBatch a req

/-- `global_token_indices`, clamped to the flat arrays. -/
def globalTokenIndices (a : Arrays K) (req i : Nat) : Nat :=
  min (a.startIdx req + (i + 1) - 1) (a.draftTokenIds.length - 1)

def draftTokens (a : Arrays K) (req i : Nat) : Nat :=
  a.draftTokenIds.getD (globalTokenIndices a req i) 0

def draftTokenProbs (a : Arrays K) (req i : Nat) : K :=
  a.draftProb (globalTokenIndices a req i) (draftTokens a req i)

def targetTokenProbs (a : Arrays K) (req i : Nat) : K :=
  a.targetProbs.getD (globalTokenIndices a req i) (fun _ => 0) (draftTokens a req i)

/-- `ratio`, with the draft probability clamped at `1e-10`. -/
def ratio (a : Arrays K) (req i : Nat) : K :=
  if 0 < draftTokenProbs a req i then
    targetTokenProbs a req i / max (draftTokenProbs a req i) (1 / 10 ^ 10)
  else 0

def pPrefix (a : Arrays K) (req : Nat) : Nat → K
  | 0 => 1
  | k + 1 => min (pPrefix a req k * ratio a req k) 1

def pGrid (a : Arrays K) (req i : Nat) : K := pPrefix a req (i + 1)

def intermediateMask (a : Arrays K) (req i : Nat) : Prop := i + 1 < numDraftPerBatch a req

instance (a : Arrays K) (req i : Nat) : Decidable (validMask a req i) :=
  inferInstanceAs (Decidable (_ ≤ _))

instance (a : Arrays K) (req i : Nat) : Decidable (intermediateMask a req i) :=
  inferInstanceAs (Decidable (_ < _))

/-- `residual_mass` of an intermediate position, with the rows of the position itself. -/
def residualMass (a : Arrays K) (vocabSize req i : Nat) : K :=
  match a.draftProbs with
  | none => pGrid a req i * (1 - targetTokenProbs a req i)
  | some draftProbs =>
    ((range vocabSize).map fun v =>
      max (pGrid a req i * a.targetProbs.getD (globalTokenIndices a req i) (fun _ => 0) v -
        draftProbs.getD (globalTokenIndices a req i) (fun _ => 0) v) 0).sum

/-- `h_block`: that of the intermediate positions, then the last one of each request is set. If no
position is intermediate, the first step leaves zeros, as it does position by position. -/
def hBlock (a : Arrays K) (maxSpecLen vocabSize req i : Nat) : K :=
  if i = numDraftPerBatch a req - 1 then pPrefix a req (min (numDraftPerBatch a req) maxSpecLen)
  else if intermediateMask a req i then
    let denom := residualMass a vocabSize req i + (1 - pGrid a req i)
    if 0 < denom then residualMass a vocabSize req i / denom else 0
  else 0

def acceptedMask (a : Arrays K) (maxSpecLen vocabSize req i : Nat) : Prop :=
  validMask a req i ∧
    a.uniformProbs.getD (globalTokenIndices a req i) 0 ≤ hBlock a maxSpecLen vocabSize req i ∧
    a.isGreedy.getD req false = false

instance (a : Arrays K) (maxSpecLen vocabSize req i : Nat) :
    Decidable (acceptedMask a maxSpecLen vocabSize req i) := inferInstanceAs (Decidable (_ ∧ _ ∧ _))

def lastAcceptI (a : Arrays K) (maxSpecLen vocabSize req : Nat) : Nat :=
  ((range maxSpecLen).map fun i =>
    if acceptedMask a maxSpecLen vocabSize req i then i + 1 else 0).foldr max 0

/-- `output_token_ids` of a request and a column, after the three writes. -/
def outputTokenIds (a : Arrays K) (maxSpecLen vocabSize : Nat) (out : Nat → Int) (req j : Nat) :
    Int :=
  let lastAccept := lastAcceptI a maxSpecLen vocabSize req
  let nonGreedy := a.isGreedy.getD req false = false
  let out0 := out (req * (maxSpecLen + 1) + j)
  let out1 : Int :=
    if j < maxSpecLen ∧ j + 1 ≤ lastAccept ∧ validMask a req j ∧ nonGreedy then draftTokens a req j
    else out0
  let out2 : Int :=
    if j < maxSpecLen ∧ j + 1 = lastAccept + 1 ∧ validMask a req j ∧ nonGreedy then
      a.recoveredTokenIds.getD (globalTokenIndices a req j) 0
    else out1
  if numDraftPerBatch a req ≤ lastAccept ∧ nonGreedy ∧ j = numDraftPerBatch a req then
    a.bonusTokenIds.getD req 0
  else out2

end BlockVerifyPytorch

/-- `rejection_random_sample_block_verify_pytorch`: the rows it leaves. Without a column, and on a
batch of requests without a draft token, an index is out of range. -/
def rejectionRandomSampleBlockVerifyPytorch (b : Batch K) (noDraftProbs : Bool)
    (maxSpecLen vocabSize : Nat) (out : Nat → Int) : Option (List (List Int)) :=
  if maxSpecLen = 0 ∨ b.tokens = [] ∧ b ≠ [] then none
  else some ((range b.length).map fun req => (range (maxSpecLen + 1)).map fun j =>
    BlockVerifyPytorch.outputTokenIds (b.arrays noDraftProbs) maxSpecLen vocabSize out req j)

end MyOperator.Sampling
