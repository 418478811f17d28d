import MyOperator.KvCache.Lookup

/-!
# The manager of one KV cache group

`SingleTypeKVCacheManager` keeps the block table of every request for one group. The
`Base` namespace holds the methods of the base class, `MambaManager` and
`CrossAttentionManager` the overrides, and the definitions without a prefix choose
between them as the method lookup of the source does.
-/

namespace MyOperator.KvCache

open Lib

/-- The index that `l[i]` reads in a list of length `n`. -/
def pyIndex (n : Nat) (i : Int) : Except PyError Nat :=
  if 0 ≤ i ∧ i < n then .ok i.toNat
  else if i < 0 ∧ -n ≤ i then .ok (n + i).toNat
  else .error (.IndexError "list index out of range")

/-- `SingleTypeKVCacheManager`, with the attributes that `MambaManager` and
`SinkFullAttentionManager` add. -/
structure SingleTypeKVCacheManager where
  kvCacheSpec : KVCacheSpec
  blockSize : Nat
  enableCaching : Bool
  kvCacheGroupId : Nat
  nullBlock : BlockRef
  newBlockIds : List Int := []
  reqToBlocks : Dict Nat (List BlockRef) := .empty
  numCachedBlock : Dict Nat Nat := .empty
  cachedBlocksThisStep : List BlockHashWithGroupId := []
  lastStateBlockIdx : Dict Nat Int := .empty
  allocatedBlockReqs : List Nat := []
  sinkBlocks : List BlockRef := []

namespace SingleTypeKVCacheManager

/-- `get_manager_for_kv_cache_spec`: the constructors of the manager classes. -/
def new (spec : KVCacheSpec) (p : BlockPool) (enableCaching : Bool) (groupId : Nat)
    (dcpWorldSize pcpWorldSize : Nat) : Except PyError (SingleTypeKVCacheManager × BlockPool) :=
  let m : SingleTypeKVCacheManager := {
    kvCacheSpec := spec
    blockSize := if dcpWorldSize * pcpWorldSize > 1
      then spec.blockSize * (dcpWorldSize * pcpWorldSize) else spec.blockSize
    enableCaching
    kvCacheGroupId := groupId
    nullBlock := p.nullBlock }
  match spec.kind with
  | .sinkFullAttention sinkLen => do
      assert (sinkLen > 0 ∧ sinkLen % m.blockSize = 0) ""
      let (sinkBlocks, q) ← p.freeBlockQueue.popleftN (sinkLen / m.blockSize : Nat)
      .ok ({ m with sinkBlocks }, p.setQueue q)
  | _ => .ok (m, p)

variable (m : SingleTypeKVCacheManager)

/-- `self.req_to_blocks.get(request_id, [])`. -/
def table (requestId : Nat) : List BlockRef := (m.reqToBlocks.get? requestId).getD []

/-- `self.req_to_blocks[request_id]` after an update; reading the entry of an absent key
stores the empty list. -/
def setTable (requestId : Nat) (blocks : List BlockRef) : SingleTypeKVCacheManager :=
  { m with reqToBlocks := m.reqToBlocks.set requestId blocks }

/-- `self.num_cached_block[request_id] = n`. -/
def setNumCached (requestId n : Nat) : SingleTypeKVCacheManager :=
  { m with numCachedBlock := m.numCachedBlock.set requestId n }

/-- `self.new_block_ids.extend(...)`, for full attention only. -/
def extendNewBlockIds (blocks : List BlockRef) : SingleTypeKVCacheManager :=
  match m.kvCacheSpec.kind with
  | .fullAttention => { m with newBlockIds := m.newBlockIds ++ blocks.map BlockRef.blockId }
  | _ => m

/-- `get_num_skipped_tokens`. Mamba returns -1 for 0 computed tokens. -/
def getNumSkippedTokens (numComputedTokens : Nat) : Int :=
  match m.kvCacheSpec.kind with
  | .slidingWindow w => max 0 ((numComputedTokens : Int) - w + 1)
  | .chunkedLocalAttention c => (numComputedTokens / c * c : Nat)
  | .mamba _ _ => (numComputedTokens : Int) - 1
  | _ => 0

def getNumEvictableBlocks (p : BlockPool) (blocks : List BlockRef) : Nat :=
  blocks.countP fun b => (p.heap b).refCnt = 0 ∧ (p.heap b).isNull = false

def takeNewBlockIds : List Int × SingleTypeKVCacheManager :=
  (m.newBlockIds, { m with newBlockIds := [] })

/-! ## The base class -/

def Base.getNumBlocksToAllocate (p : BlockPool) (requestId numTokens : Nat)
    (newComputedBlocks : List BlockRef) (totalComputedTokens : Nat) : Except PyError Int :=
  let numRequiredBlocks := cdiv numTokens m.blockSize
  let numReqBlocks := (m.table requestId).length
  if m.numCachedBlock.contains requestId then do
    assert (newComputedBlocks.length = 0) ""
    .ok (max ((numRequiredBlocks : Int) - numReqBlocks) 0)
  else
    let numSkippedTokens := m.getNumSkippedTokens totalComputedTokens
    let numLocalComputedBlocks := newComputedBlocks.length + numReqBlocks
    let numSkippedBlocks := numSkippedTokens / m.blockSize
    let numNewBlocks :=
      max ((numRequiredBlocks : Int) - max numSkippedBlocks numLocalComputedBlocks) 0
    let numSkippedNewComputedBlocks := max 0 (numSkippedBlocks - numReqBlocks)
    let numEvictableBlocks :=
      getNumEvictableBlocks p (newComputedBlocks.drop numSkippedNewComputedBlocks.toNat)
    .ok (numNewBlocks + numEvictableBlocks)

def Base.allocateNewComputedBlocks (p : BlockPool) (requestId : Nat)
    (newComputedBlocks : List BlockRef) (numLocalComputedTokens numExternalComputedTokens : Nat) :
    Except PyError (SingleTypeKVCacheManager × BlockPool) :=
  if m.numCachedBlock.contains requestId then do
    assert (newComputedBlocks.length = 0) ""
    .ok (m, p)
  else do
    assert ((m.table requestId).length = 0) ""
    let numTotalComputedTokens := numLocalComputedTokens + numExternalComputedTokens
    let numSkippedTokens := m.getNumSkippedTokens numTotalComputedTokens
    let numSkippedBlocks := numSkippedTokens / m.blockSize
    let newComputedBlocks :=
      if numSkippedBlocks > 0 then newComputedBlocks.drop numSkippedBlocks.toNat
      else newComputedBlocks
    let numExternalComputedTokens : Int :=
      if numSkippedBlocks > 0
      then min ((numTotalComputedTokens : Int) - numSkippedTokens) numExternalComputedTokens
      else numExternalComputedTokens
    let p ← if m.enableCaching then BlockPool.touch newComputedBlocks p
      else do
        assert (newComputedBlocks = [])
          "Computed blocks should be empty when prefix caching is disabled"
        .ok p
    let reqBlocks := List.replicate numSkippedBlocks.toNat m.nullBlock ++ newComputedBlocks
    let m := (m.setTable requestId reqBlocks).setNumCached requestId reqBlocks.length
    if numExternalComputedTokens > 0 then
      let (allocatedBlocks, p) ←
        p.getNewBlocks ((cdiv numTotalComputedTokens m.blockSize : Int) - reqBlocks.length)
      .ok ((m.setTable requestId (reqBlocks ++ allocatedBlocks)).extendNewBlockIds allocatedBlocks, p)
    else .ok (m, p)

def Base.allocateNewBlocks (p : BlockPool) (requestId numTokens : Nat) :
    Except PyError (List BlockRef × SingleTypeKVCacheManager × BlockPool) :=
  let reqBlocks := m.table requestId
  let numNewBlocks : Int := (cdiv numTokens m.blockSize : Int) - reqBlocks.length
  if numNewBlocks ≤ 0 then .ok ([], m.setTable requestId reqBlocks, p)
  else do
    let (newBlocks, p) ← p.getNewBlocks numNewBlocks
    .ok (newBlocks, (m.setTable requestId (reqBlocks ++ newBlocks)).extendNewBlockIds newBlocks, p)

def Base.cacheBlocks (p : BlockPool) (request : Request) (numTokens : Nat) :
    Except PyError (SingleTypeKVCacheManager × BlockPool) :=
  let numCachedBlocks := (m.numCachedBlock.get? request.requestId).getD 0
  let numFullBlocks := numTokens / m.blockSize
  if numCachedBlocks ≥ numFullBlocks then .ok (m, p)
  else do
    let reqBlocks := m.table request.requestId
    let p ← p.cacheFullBlocks request reqBlocks numCachedBlocks numFullBlocks m.blockSize
      m.kvCacheGroupId
    .ok ((m.setTable request.requestId reqBlocks).setNumCached request.requestId numFullBlocks, p)

def Base.free (p : BlockPool) (requestId : Nat) :
    Except PyError (SingleTypeKVCacheManager × BlockPool) := do
  let p ← p.freeBlocks (m.table requestId).reverse
  .ok ({ m with
    reqToBlocks := m.reqToBlocks.erase requestId
    numCachedBlock := m.numCachedBlock.erase requestId }, p)

/-- The loop of `remove_skipped_blocks` below position `i`: the table and the removed
blocks. -/
def removeLoop (nullBlock : BlockRef) : Nat → List BlockRef → List BlockRef × List BlockRef
  | 0, blocks => (blocks, [])
  | i + 1, blocks =>
    match blocks[i]? with
    | none => (blocks, [])
    | some b =>
      if b = nullBlock then (blocks, [])
      else
        let (blocks, removedBlocks) := removeLoop nullBlock i (blocks.set i nullBlock)
        (blocks, b :: removedBlocks)

def Base.removeSkippedBlocks (p : BlockPool) (requestId totalComputedTokens : Nat) :
    Except PyError (SingleTypeKVCacheManager × BlockPool) :=
  let numSkippedTokens := m.getNumSkippedTokens totalComputedTokens
  if numSkippedTokens ≤ 0 then .ok (m, p)
  else do
    let blocks := m.table requestId
    let numSkippedBlocks := min (numSkippedTokens.toNat / m.blockSize) blocks.length
    let (blocks, removedBlocks) := removeLoop m.nullBlock numSkippedBlocks blocks
    let p ← p.freeBlocks removedBlocks
    .ok (m.setTable requestId blocks, p)

/-- `FullAttentionManager.get_num_common_prefix_blocks`; the other managers return 0. -/
def getNumCommonPrefixBlocks (p : BlockPool) (runningRequestId : Nat) : Nat :=
  if m.kvCacheSpec.isFullAttention then
    ((m.table runningRequestId).takeWhile fun b =>
      (p.heap b).refCnt = m.reqToBlocks.entries.length).length
  else 0

end SingleTypeKVCacheManager

/-! ## Mamba -/

namespace MambaManager

variable (m : SingleTypeKVCacheManager)

def removeSkippedBlocks (align : Bool) (numSpeculativeBlocks : Nat) (p : BlockPool)
    (requestId totalComputedTokens : Nat) :
    Except PyError (SingleTypeKVCacheManager × BlockPool) := do
  let numComputedTokens := totalComputedTokens - numSpeculativeBlocks
  let (m, p) ← SingleTypeKVCacheManager.Base.removeSkippedBlocks m p requestId numComputedTokens
  match align, m.lastStateBlockIdx.get? requestId with
  | true, some lastStateBlockIdx =>
    if lastStateBlockIdx < (cdiv numComputedTokens m.blockSize : Int) - 1 then do
      let blocks := m.table requestId
      let i ← pyIndex blocks.length lastStateBlockIdx
      let b := blocks.getD i m.nullBlock
      if b ≠ m.nullBlock then do
        let p ← p.freeBlocks [b]
        .ok (m.setTable requestId (blocks.set i m.nullBlock), p)
      else .ok (m.setTable requestId blocks, p)
    else .ok (m, p)
  | _, _ => .ok (m, p)

/-- `new_computed_blocks[-1].block_hash in self.cached_blocks_this_step`. -/
def hitsThisStep (p : BlockPool) (newComputedBlocks : List BlockRef) : Bool :=
  match newComputedBlocks.getLast? with
  | none => false
  | some b =>
    match (p.heap b).blockHash with
    | none => false
    | some key => m.cachedBlocksThisStep.contains key

def getNumBlocksToAllocate (align : Bool) (numSpeculativeBlocks : Nat) (p : BlockPool)
    (requestId numTokens : Nat) (newComputedBlocks : List BlockRef)
    (totalComputedTokens numTokensMainModel : Nat) :
    Except PyError (Int × SingleTypeKVCacheManager) :=
  if hitsThisStep m p newComputedBlocks then .ok ((p.numGpuBlocks : Int) + 1, m)
  else if align = false then do
    let n ← SingleTypeKVCacheManager.Base.getNumBlocksToAllocate m p requestId
      (numTokens + m.kvCacheSpec.blockSize * numSpeculativeBlocks) newComputedBlocks
      totalComputedTokens
    .ok (n, m)
  else
    let numRequiredBlocks := cdiv numTokensMainModel m.blockSize + numSpeculativeBlocks
    let reqBlocks := m.table requestId
    let m := m.setTable requestId reqBlocks
    let numNewBlocks : Int := (numRequiredBlocks : Int) - newComputedBlocks.length - reqBlocks.length
    let numNewBlocks :=
      if numNewBlocks > 0 then
        if requestId ∈ m.allocatedBlockReqs then 1 else 1 + (numSpeculativeBlocks : Int)
      else numNewBlocks
    .ok (numNewBlocks + SingleTypeKVCacheManager.getNumEvictableBlocks p newComputedBlocks, m)

/-- The loop of `allocate_new_blocks` that reuses the speculative blocks, `n` of them from
position `blockIdx` on. -/
def reuseLoop (nullBlock : BlockRef) (numSkippedBlocks : Int) :
    Nat → Int → List BlockRef → Except PyError (List BlockRef)
  | 0, _, reqBlocks => .ok reqBlocks
  | n + 1, blockIdx, reqBlocks =>
    if blockIdx < numSkippedBlocks then do
      let i ← pyIndex reqBlocks.length blockIdx
      let reqBlocks := reqBlocks ++ [reqBlocks.getD i nullBlock]
      let i ← pyIndex reqBlocks.length blockIdx
      reuseLoop nullBlock numSkippedBlocks n (blockIdx + 1) (reqBlocks.set i nullBlock)
    else .ok reqBlocks

/-- "Record the last state block". -/
def recordLastState (numSpeculativeBlocks requestId prevBlockLen : Nat) :
    SingleTypeKVCacheManager :=
  let last : Int := (prevBlockLen : Int) - 1
  if requestId ∈ m.allocatedBlockReqs then
    { m with
      lastStateBlockIdx := m.lastStateBlockIdx.set requestId (last - numSpeculativeBlocks) }
  else if prevBlockLen > 0 then
    { m with lastStateBlockIdx := m.lastStateBlockIdx.set requestId last }
  else m

/-- `allocate_new_blocks` in align mode. -/
def allocateAligned (numSpeculativeBlocks : Nat) (p : BlockPool)
    (requestId numTokensMainModel : Nat) :
    Except PyError (List BlockRef × SingleTypeKVCacheManager × BlockPool) :=
  let reqBlocks := m.table requestId
  let numRequiredBlocks := cdiv numTokensMainModel m.blockSize + numSpeculativeBlocks
  if numRequiredBlocks = reqBlocks.length then .ok ([], m.setTable requestId reqBlocks, p)
  else do
    assert (numRequiredBlocks > reqBlocks.length)
      s!"num_required_blocks {numRequiredBlocks} < len(req_blocks) {reqBlocks.length}"
    let prevBlockLen := reqBlocks.length
    let blocksAllocated := decide (requestId ∈ m.allocatedBlockReqs)
    let m := recordLastState m numSpeculativeBlocks requestId prevBlockLen
    let numSkippedBlocks : Int := (numRequiredBlocks : Int) - numSpeculativeBlocks - 1
    let reqBlocks :=
      reqBlocks ++ List.replicate (numSkippedBlocks - prevBlockLen).toNat m.nullBlock
    let reqBlocks ← if blocksAllocated then
        reuseLoop m.nullBlock numSkippedBlocks numSpeculativeBlocks
          ((prevBlockLen : Int) - numSpeculativeBlocks) reqBlocks
      else .ok reqBlocks
    let numNewBlocks : Int := (numRequiredBlocks : Int) - reqBlocks.length
    if blocksAllocated then assert (numNewBlocks ≤ 1) ""
    else assert (numNewBlocks ≤ (numSpeculativeBlocks : Int) + 1) ""
    let (newBlocks, p) ← p.getNewBlocks numNewBlocks
    let reqBlocks := reqBlocks ++ newBlocks
    .ok (reqBlocks.drop prevBlockLen, { m.setTable requestId reqBlocks with
        allocatedBlockReqs := m.allocatedBlockReqs.insert requestId }, p)

def allocateNewBlocks (align : Bool) (numSpeculativeBlocks : Nat) (p : BlockPool)
    (requestId numTokens numTokensMainModel : Nat) :
    Except PyError (List BlockRef × SingleTypeKVCacheManager × BlockPool) :=
  if align = false then
    SingleTypeKVCacheManager.Base.allocateNewBlocks m p requestId
      (numTokens + m.blockSize * numSpeculativeBlocks)
  else allocateAligned m numSpeculativeBlocks p requestId numTokensMainModel

def free (align : Bool) (p : BlockPool) (requestId : Nat) :
    Except PyError (SingleTypeKVCacheManager × BlockPool) := let m := if align then
      { m with
        allocatedBlockReqs := m.allocatedBlockReqs.erase requestId
        lastStateBlockIdx := m.lastStateBlockIdx.erase requestId }
    else m
  SingleTypeKVCacheManager.Base.free m p requestId

/-- The loop of `cache_blocks` over the newly cached blocks. -/
def recordCached (p : BlockPool) : List BlockRef → List BlockHashWithGroupId →
    Except PyError (List BlockHashWithGroupId)
  | [], keys => .ok keys
  | b :: rest, keys =>
    if (p.heap b).isNull then recordCached p rest keys
    else match (p.heap b).blockHash with
      | none => .error (.AssertionError "")
      | some key => recordCached p rest (keys.insert key)

def cacheBlocks (p : BlockPool) (request : Request) (numTokens : Nat) :
    Except PyError (SingleTypeKVCacheManager × BlockPool) := do
  let before := (m.numCachedBlock.get? request.requestId).getD 0
  let (m, p) ← SingleTypeKVCacheManager.Base.cacheBlocks m p request numTokens
  let after := (m.numCachedBlock.get? request.requestId).getD 0
  if after > before then do
    let keys ← recordCached p (((m.table request.requestId).take after).drop before)
      m.cachedBlocksThisStep
    .ok ({ m with cachedBlocksThisStep := keys }, p)
  else .ok (m, p)

end MambaManager

/-! ## Cross attention -/

namespace CrossAttentionManager

def allocateNewComputedBlocks (m : SingleTypeKVCacheManager) (p : BlockPool)
    (newComputedBlocks : List BlockRef) :
    Except PyError (SingleTypeKVCacheManager × BlockPool) := do
  assert (newComputedBlocks.length = 0) ""
  .ok (m, p)

def cacheBlocks : Except PyError (SingleTypeKVCacheManager × BlockPool) :=
  .error (.ValueError "Should not be called as prefix caching is disabled.")

end CrossAttentionManager

/-! ## Method lookup -/

namespace SingleTypeKVCacheManager

variable (m : SingleTypeKVCacheManager)

def getNumBlocksToAllocate (p : BlockPool) (requestId numTokens : Nat)
    (newComputedBlocks : List BlockRef) (totalComputedTokens numTokensMainModel : Nat) :
    Except PyError (Int × SingleTypeKVCacheManager) :=
  match m.kvCacheSpec.kind with
  | .mamba align n => MambaManager.getNumBlocksToAllocate m align n p requestId numTokens
      newComputedBlocks totalComputedTokens numTokensMainModel
  | _ => do
      let n ← Base.getNumBlocksToAllocate m p requestId numTokens newComputedBlocks
        totalComputedTokens
      .ok (n, m)

def allocateNewComputedBlocks (p : BlockPool) (requestId : Nat) (newComputedBlocks : List BlockRef)
    (numLocalComputedTokens numExternalComputedTokens : Nat) :
    Except PyError (SingleTypeKVCacheManager × BlockPool) :=
  match m.kvCacheSpec.kind with
  | .crossAttention => CrossAttentionManager.allocateNewComputedBlocks m p newComputedBlocks
  | _ => Base.allocateNewComputedBlocks m p requestId newComputedBlocks numLocalComputedTokens
      numExternalComputedTokens

def allocateNewBlocks (p : BlockPool) (requestId numTokens numTokensMainModel : Nat) :
    Except PyError (List BlockRef × SingleTypeKVCacheManager × BlockPool) :=
  match m.kvCacheSpec.kind with
  | .mamba align n => MambaManager.allocateNewBlocks m align n p requestId numTokens
      numTokensMainModel
  | _ => Base.allocateNewBlocks m p requestId numTokens

def cacheBlocks (p : BlockPool) (request : Request) (numTokens : Nat) :
    Except PyError (SingleTypeKVCacheManager × BlockPool) :=
  match m.kvCacheSpec.kind with
  | .mamba _ _ => MambaManager.cacheBlocks m p request numTokens
  | .crossAttention => CrossAttentionManager.cacheBlocks
  | _ => Base.cacheBlocks m p request numTokens

def free (p : BlockPool) (requestId : Nat) :
    Except PyError (SingleTypeKVCacheManager × BlockPool) :=
  match m.kvCacheSpec.kind with
  | .mamba align _ => MambaManager.free m align p requestId
  | _ => Base.free m p requestId

def removeSkippedBlocks (p : BlockPool) (requestId totalComputedTokens : Nat) :
    Except PyError (SingleTypeKVCacheManager × BlockPool) :=
  match m.kvCacheSpec.kind with
  | .mamba align n => MambaManager.removeSkippedBlocks m align n p requestId totalComputedTokens
  | _ => Base.removeSkippedBlocks m p requestId totalComputedTokens

def newStepStarts : SingleTypeKVCacheManager :=
  match m.kvCacheSpec.kind with
  | .mamba _ _ => { m with cachedBlocksThisStep := [] }
  | _ => m

end SingleTypeKVCacheManager

end MyOperator.KvCache
