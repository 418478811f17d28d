import MyOperator.KvCache.HybridCoordinator
import MyOperator.KvCache.Manager

/-!
# The KV cache manager

`KVCacheManager` gives the scheduler one interface to the block pool and the managers of
all groups: it looks up the cached prefix of a request, allocates slots, caches and frees.
Its coordinator calls one manager after the other; which coordinator it has decides how a
prefix is looked up.
-/

namespace MyOperator.KvCache

open Lib

/-- The classes of coordinators. -/
inductive CoordinatorKind
  | noPrefixCache
  | unitary
  | hybrid (c : HybridKVCacheCoordinator)

structure KVCacheCoordinator where
  kind : CoordinatorKind
  useEagle : Bool
  dcpWorldSize : Nat
  pcpWorldSize : Nat
  blockPool : BlockPool
  singleTypeManagers : List SingleTypeKVCacheManager

/-- `for i, manager in enumerate(self.single_type_managers)`: what the calls return, the
managers and the pool. -/
def eachManager {β : Type} (f : Nat → SingleTypeKVCacheManager → BlockPool →
    Except PyError (β × SingleTypeKVCacheManager × BlockPool)) :
    Nat → List SingleTypeKVCacheManager → BlockPool →
    Except PyError (List β × List SingleTypeKVCacheManager × BlockPool)
  | _, [], p => .ok ([], [], p)
  | i, m :: managers, p => do
      let (r, m, p) ← f i m p
      let (rs, managers, p) ← eachManager f (i + 1) managers p
      .ok (r :: rs, m :: managers, p)

namespace KVCacheCoordinator

/-- `single_type_managers` of `__init__`, from group `i` on. -/
def initManagers (enableCaching : Bool) (dcpWorldSize pcpWorldSize : Nat) :
    Nat → List KVCacheSpec → BlockPool →
    Except PyError (List SingleTypeKVCacheManager × BlockPool)
  | _, [], p => .ok ([], p)
  | i, spec :: groups, p => do
      let (m, p) ← SingleTypeKVCacheManager.new spec p enableCaching i dcpWorldSize pcpWorldSize
      let (managers, p) ← initManagers enableCaching dcpWorldSize pcpWorldSize (i + 1) groups p
      .ok (m :: managers, p)

/-- `block_size` of `UnitaryKVCacheCoordinator`. -/
def unitaryBlockSize (spec : KVCacheSpec) (dcpWorldSize pcpWorldSize : Nat) : Nat :=
  let blockSize := if dcpWorldSize > 1 then spec.blockSize * dcpWorldSize else spec.blockSize
  if pcpWorldSize > 1 then blockSize * pcpWorldSize else blockSize

/-- `get_kv_cache_coordinator`: the constructors of the coordinator classes. -/
def getKvCacheCoordinator (groups : List KVCacheSpec) (numBlocks : Nat)
    (useEagle enableCaching enableKvCacheEvents useIntBlockHashes : Bool)
    (dcpWorldSize pcpWorldSize hashBlockSize : Nat) : Except PyError KVCacheCoordinator := do
  let p ← BlockPool.init numBlocks enableCaching hashBlockSize enableKvCacheEvents useIntBlockHashes
  let (singleTypeManagers, blockPool) ← initManagers enableCaching dcpWorldSize pcpWorldSize 0 groups p
  let kind ← match enableCaching, groups with
    | false, _ => .ok CoordinatorKind.noPrefixCache
    | true, [spec] => do
        assert (hashBlockSize = unitaryBlockSize spec dcpWorldSize pcpWorldSize)
          "UnitaryKVCacheCoordinator assumes hash_block_size == block_size"
        .ok .unitary
    | true, groups => do
        let c ← HybridKVCacheCoordinator.init groups useEagle hashBlockSize dcpWorldSize pcpWorldSize
        .ok (.hybrid c)
  .ok { kind, useEagle, dcpWorldSize, pcpWorldSize, blockPool, singleTypeManagers }

variable (c : KVCacheCoordinator)

/-- The managers and the pool after a loop. -/
def put (singleTypeManagers : List SingleTypeKVCacheManager) (blockPool : BlockPool) :
    KVCacheCoordinator := { c with singleTypeManagers, blockPool }

/-- A loop over the managers. -/
def forEach {β : Type} (f : Nat → SingleTypeKVCacheManager → BlockPool →
    Except PyError (β × SingleTypeKVCacheManager × BlockPool)) :
    Except PyError (List β × KVCacheCoordinator) := do
  let (rs, managers, p) ← eachManager f 0 c.singleTypeManagers c.blockPool
  .ok (rs, c.put managers p)

/-- `isinstance(manager, CrossAttentionManager)`. -/
def isCross (m : SingleTypeKVCacheManager) : Bool :=
  match m.kvCacheSpec.kind with
  | .crossAttention => true
  | _ => false

def getNumBlocksToAllocate (requestId numTokens : Nat) (newComputedBlocks : List (List BlockRef))
    (numEncoderTokens totalComputedTokens numTokensMainModel : Nat) :
    Except PyError (Int × KVCacheCoordinator) := do
  let (ns, c) ← c.forEach fun i m p => do
    let (n, m) ←
      if isCross m then m.getNumBlocksToAllocate p requestId numEncoderTokens [] 0 numEncoderTokens
      else
        m.getNumBlocksToAllocate p requestId numTokens (newComputedBlocks.getD i [])
          totalComputedTokens numTokensMainModel
    .ok (n, m, p)
  .ok (ns.sum, c)

def allocateNewComputedBlocks (requestId : Nat) (newComputedBlocks : List (List BlockRef))
    (numLocalComputedTokens numExternalComputedTokens : Nat) :
    Except PyError KVCacheCoordinator := do
  let (_, c) ← c.forEach fun i m p => do
    let (m, p) ← m.allocateNewComputedBlocks p requestId (newComputedBlocks.getD i [])
      numLocalComputedTokens numExternalComputedTokens
    .ok ((), m, p)
  .ok c

def allocateNewBlocks (requestId numTokens numTokensMainModel numEncoderTokens : Nat) :
    Except PyError (List (List BlockRef) × KVCacheCoordinator) := c.forEach fun _ m p =>
    m.allocateNewBlocks p requestId (if isCross m then numEncoderTokens else numTokens)
      numTokensMainModel

def cacheBlocks (request : Request) (numComputedTokens : Nat) :
    Except PyError KVCacheCoordinator := do
  let (_, c) ← c.forEach fun _ m p => do
    let (m, p) ← m.cacheBlocks p request numComputedTokens
    .ok ((), m, p)
  .ok c

def free (requestId : Nat) : Except PyError KVCacheCoordinator := do
  let (_, c) ← c.forEach fun _ m p => do
    let (m, p) ← m.free p requestId
    .ok ((), m, p)
  .ok c

def removeSkippedBlocks (requestId totalComputedTokens : Nat) :
    Except PyError KVCacheCoordinator := do
  let (_, c) ← c.forEach fun _ m p => do
    let (m, p) ← m.removeSkippedBlocks p requestId totalComputedTokens
    .ok ((), m, p)
  .ok c

def newStepStarts : KVCacheCoordinator :=
  c.put (c.singleTypeManagers.map SingleTypeKVCacheManager.newStepStarts) c.blockPool

/-- `get_num_common_prefix_blocks`. Full attention reads the entry of the request, which
stores an empty list if it is absent. -/
def getNumCommonPrefixBlocks (runningRequestId : Nat) : List Nat × KVCacheCoordinator :=
  match c.kind with
  | .noPrefixCache => (c.singleTypeManagers.map fun _ => 0, c)
  | _ =>
    let managers := c.singleTypeManagers.map fun m =>
      if m.kvCacheSpec.isFullAttention then m.setTable runningRequestId (m.table runningRequestId)
      else m
    (managers.map fun m => m.getNumCommonPrefixBlocks c.blockPool runningRequestId,
      c.put managers c.blockPool)

/-- `find_longest_cache_hit`; `none` when the bound on the rounds of a hybrid coordinator is
too small. -/
def findLongestCacheHit (blockHashes : List BlockHash) (maxCacheHitLength : Nat) :
    Except PyError (Option (List (List BlockRef) × Nat)) :=
  match c.kind with
  | .noPrefixCache => .ok (some (c.singleTypeManagers.map fun _ => [], 0))
  | .hybrid h => h.findLongestCacheHit c.blockPool blockHashes maxCacheHitLength
  | .unitary =>
    match c.singleTypeManagers with
    | [] => .error (.IndexError "tuple index out of range")
    | m :: _ => do
        let blockSize := unitaryBlockSize m.kvCacheSpec c.dcpWorldSize c.pcpWorldSize
        let columns ← KvCache.findLongestCacheHit m.kvCacheSpec c.blockPool [0] blockHashes
          maxCacheHitLength c.useEagle blockSize c.dcpWorldSize c.pcpWorldSize
        .ok (some ([groupBlocks 0 columns], columns.length * blockSize))

end KVCacheCoordinator

structure KVCacheManager where
  maxModelLen : Nat
  enableCaching : Bool
  coordinator : KVCacheCoordinator

namespace KVCacheManager

def init (groups : List KVCacheSpec) (numBlocks maxModelLen hashBlockSize : Nat)
    (enableCaching useEagle enableKvCacheEvents useIntBlockHashes : Bool)
    (dcpWorldSize pcpWorldSize : Nat) : Except PyError KVCacheManager := do
  let coordinator ← KVCacheCoordinator.getKvCacheCoordinator groups numBlocks useEagle enableCaching
    enableKvCacheEvents useIntBlockHashes dcpWorldSize pcpWorldSize hashBlockSize
  .ok { maxModelLen, enableCaching, coordinator }

variable (k : KVCacheManager)

def emptyKvCacheBlocks : List (List BlockRef) := k.coordinator.singleTypeManagers.map fun _ => []

/-- `create_kv_cache_blocks` keeps `blocks` if `any(blocks)`. -/
def createKvCacheBlocks (blocks : List (List BlockRef)) : List (List BlockRef) :=
  if blocks.any fun group => !group.isEmpty then blocks else k.emptyKvCacheBlocks

def getComputedBlocks (request : Request) :
    Except PyError (Option (List (List BlockRef) × Nat)) :=
  if !k.enableCaching || request.skipReadingPrefixCache then
    .ok (some (k.emptyKvCacheBlocks, 0))
  else do
    let maxCacheHitLength := request.numTokens - 1
    let hit ← k.coordinator.findLongestCacheHit request.blockHashes maxCacheHitLength
    .ok (hit.map fun (blocks, n) => (k.createKvCacheBlocks blocks, n))

def canFitFullSequence (request : Request) (numNewComputedTokens : Nat)
    (newComputedBlocks : List (List BlockRef)) (numExternalComputedTokens numEncoderTokens : Nat) :
    Except PyError (Bool × KVCacheManager) := do
  let numLocalComputedTokens := request.numComputedTokens + numNewComputedTokens
  let totalComputedTokens := min (numLocalComputedTokens + numExternalComputedTokens) k.maxModelLen
  let fullNumTokens := min request.numTokens k.maxModelLen
  let (n, coordinator) ← k.coordinator.getNumBlocksToAllocate request.requestId fullNumTokens
    newComputedBlocks numEncoderTokens totalComputedTokens fullNumTokens
  .ok (n ≤ coordinator.blockPool.getNumFreeBlocks, { k with coordinator })

/-- The arguments of `allocate_slots` after the request. -/
structure SlotsArgs where
  numNewTokens : Nat
  numNewComputedTokens : Nat := 0
  newComputedBlocks : List (List BlockRef)
  numLookaheadTokens : Nat := 0
  numExternalComputedTokens : Nat := 0
  delayCacheBlocks : Bool := false
  numEncoderTokens : Nat := 0
  deriving DecidableEq, Repr

/-- `total_computed_tokens` of `allocate_slots`. -/
def totalComputedTokens (request : Request) (args : SlotsArgs) : Nat :=
  min (request.numComputedTokens + args.numNewComputedTokens + args.numExternalComputedTokens)
    k.maxModelLen

/-- The first half of `allocate_slots`: skipped blocks are removed and the blocks that are
needed are counted. -/
def prepareSlots (request : Request) (args : SlotsArgs) : Except PyError (Int × KVCacheManager) := do
  let numLocalComputedTokens := request.numComputedTokens + args.numNewComputedTokens
  let numTokensMainModel := k.totalComputedTokens request args + args.numNewTokens
  let numTokensNeedSlot := min (numTokensMainModel + args.numLookaheadTokens) k.maxModelLen
  let coordinator ← k.coordinator.removeSkippedBlocks request.requestId
    (k.totalComputedTokens request args)
  let (n, coordinator) ← coordinator.getNumBlocksToAllocate request.requestId numTokensNeedSlot
    args.newComputedBlocks args.numEncoderTokens
    (numLocalComputedTokens + args.numExternalComputedTokens) numTokensMainModel
  .ok (n, { k with coordinator })

/-- Whether `allocate_slots` appends computed blocks to the request:
`new_computed_block_list is not self.empty_kv_cache_blocks.blocks or
num_external_computed_tokens > 0`. -/
def appendsComputed (args : SlotsArgs) : Bool :=
  args.newComputedBlocks.any (fun group => !group.isEmpty) || 0 < args.numExternalComputedTokens

/-- The blocks that are computed already are appended to the request. -/
def appendComputed (request : Request) (args : SlotsArgs) : Except PyError KVCacheManager :=
  if appendsComputed args then do
    let coordinator ← k.coordinator.allocateNewComputedBlocks request.requestId args.newComputedBlocks
      (request.numComputedTokens + args.numNewComputedTokens) args.numExternalComputedTokens
    .ok { k with coordinator }
  else .ok k

/-- The last part of `allocate_slots`: new blocks are allocated, and what is final is cached. -/
def allocateNew (request : Request) (args : SlotsArgs) :
    Except PyError (List (List BlockRef) × KVCacheManager) := do
  let numTokensMainModel := k.totalComputedTokens request args + args.numNewTokens
  let numTokensNeedSlot := min (numTokensMainModel + args.numLookaheadTokens) k.maxModelLen
  let (newBlocks, coordinator) ← k.coordinator.allocateNewBlocks request.requestId numTokensNeedSlot
    numTokensMainModel args.numEncoderTokens
  let k := { k with coordinator }
  if !k.enableCaching || args.delayCacheBlocks then .ok (k.createKvCacheBlocks newBlocks, k)
  else do
    let numTokensToCache := min numTokensMainModel request.numTokens
    let coordinator ← k.coordinator.cacheBlocks request numTokensToCache
    let k := { k with coordinator }
    .ok (k.createKvCacheBlocks newBlocks, k)

def allocateSlots (request : Request) (args : SlotsArgs) :
    Except PyError (Option (List (List BlockRef)) × KVCacheManager) :=
  if args.numNewTokens = 0 ∧ args.numExternalComputedTokens = 0 then
    .error (.ValueError
      "num_new_tokens must be greater than 0 when there are no external computed tokens")
  else do
    let (numBlocksToAllocate, k) ← k.prepareSlots request args
    if numBlocksToAllocate > k.coordinator.blockPool.getNumFreeBlocks then .ok (none, k)
    else do
      let k ← k.appendComputed request args
      let (newBlocks, k) ← k.allocateNew request args
      .ok (some newBlocks, k)

def free (requestId : Nat) : Except PyError KVCacheManager := do
  let coordinator ← k.coordinator.free requestId
  .ok { k with coordinator }

def removeSkippedBlocks (requestId totalComputedTokens : Nat) : Except PyError KVCacheManager := do
  let coordinator ← k.coordinator.removeSkippedBlocks requestId totalComputedTokens
  .ok { k with coordinator }

/-- The pool after an operation of its own. -/
def setPool (blockPool : BlockPool) : KVCacheManager :=
  { k with coordinator := { k.coordinator with blockPool } }

def evictBlocks (blockIds : List Nat) : Except PyError KVCacheManager := do
  let p ← BlockPool.evictBlocks blockIds k.coordinator.blockPool
  .ok (k.setPool p)

def resetPrefixCache : Bool × KVCacheManager :=
  let (done, p) := k.coordinator.blockPool.resetPrefixCache
  (done, k.setPool p)

def cacheBlocks (request : Request) (numComputedTokens : Nat) : Except PyError KVCacheManager :=
  if k.enableCaching then do
    let coordinator ← k.coordinator.cacheBlocks request numComputedTokens
    .ok { k with coordinator }
  else .ok k

def getNumCommonPrefixBlocks (runningRequestId : Nat) : List Nat × KVCacheManager :=
  let (ns, coordinator) := k.coordinator.getNumCommonPrefixBlocks runningRequestId
  (ns, { k with coordinator })

def takeNewBlockIds : List Int × KVCacheManager :=
  let taken := k.coordinator.singleTypeManagers.map SingleTypeKVCacheManager.takeNewBlockIds
  ((taken.map Prod.fst).flatten,
    { k with coordinator := k.coordinator.put (taken.map Prod.snd) k.coordinator.blockPool })

def newStepStarts : KVCacheManager := { k with coordinator := k.coordinator.newStepStarts }

def takeEvents : List KVCacheEvent × KVCacheManager :=
  let (events, p) := k.coordinator.blockPool.takeEvents
  (events, k.setPool p)

end KVCacheManager

end MyOperator.KvCache
