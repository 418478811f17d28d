import MyOperator.KvCache.FreeQueue
import MyOperator.KvCache.HashMap

/-!
# The block pool

`BlockPool` allocates, shares, frees and caches blocks. The lora fields, the
extra keys and the medium of an event, the metrics collector and the log lines are
read by nothing modelled here and left out.
-/

namespace MyOperator.KvCache

open Lib

/-- The attributes of a `Request` that the KV cache reads. -/
structure Request where
  requestId : Nat
  allTokenIds : List Nat
  blockHashes : List BlockHash
  numComputedTokens : Nat := 0
  skipReadingPrefixCache : Bool := false
  deriving DecidableEq, Repr

def Request.numTokens (r : Request) : Nat := r.allTokenIds.length

/-- `bytes | int`. -/
inductive ExternalBlockHash
  | bytes (hash : BlockHash)
  | int (value : Nat)
  deriving DecidableEq, Repr

/-- `maybe_convert_block_hash`, where `useInt` is `VLLM_KV_EVENTS_USE_INT_BLOCK_HASHES`. -/
def maybeConvertBlockHash (useInt : Bool) (hash : BlockHash) : ExternalBlockHash :=
  if useInt then .int (hash.foldl (fun n b => n * 256 + b.toNat) 0 % 18446744073709551616)
  else .bytes hash

inductive KVCacheEvent
  | BlockStored (blockHashes : List ExternalBlockHash) (parentBlockHash : Option ExternalBlockHash)
      (tokenIds : List Nat) (blockSize : Nat)
  | BlockRemoved (blockHashes : List ExternalBlockHash)
  | AllBlocksCleared
  deriving DecidableEq, Repr

/-- `BlockHashListWithBlockSize`, as the list of its items. -/
def blockHashListWithBlockSize (blockHashes : List BlockHash) (hashBlockSize targetBlockSize : Nat) :
    Except PyError (List BlockHash) := do
  assert (targetBlockSize % hashBlockSize = 0) ""
  let scaleFactor := targetBlockSize / hashBlockSize
  .ok ((List.range (blockHashes.length / scaleFactor)).map fun i =>
    ((blockHashes.drop (i * scaleFactor)).take scaleFactor).flatten)

structure BlockPool where
  numGpuBlocks : Nat
  enableCaching : Bool
  hashBlockSize : Nat
  freeBlockQueue : FreeKVCacheBlockQueue
  cachedBlockHashToBlock : BlockHashToBlockMap
  nullBlock : BlockRef
  enableKvCacheEvents : Bool
  useIntBlockHashes : Bool
  kvEventQueue : List KVCacheEvent

namespace BlockPool

def blocks (p : BlockPool) : List BlockRef := (List.range p.numGpuBlocks).map .blk

/-- The block objects. -/
abbrev heap (p : BlockPool) : Heap := p.freeBlockQueue.heap

/-- `self.cached_block_hash_to_block` after an update. -/
def setMap (p : BlockPool) (m : BlockHashToBlockMap) : BlockPool :=
  { p with cachedBlockHashToBlock := m }

/-- `self.free_block_queue` after an update. -/
def setQueue (p : BlockPool) (q : FreeKVCacheBlockQueue) : BlockPool :=
  { p with freeBlockQueue := q }

/-- An assignment to attributes other than the links. -/
def modifyBlock (p : BlockPool) (r : BlockRef) (f : KVCacheBlock → KVCacheBlock) : BlockPool :=
  p.setQueue { p.freeBlockQueue with heap := p.heap.modify r f }

/-- `r.ref_cnt += d`. -/
def addRef (p : BlockPool) (r : BlockRef) (d : Int) : BlockPool :=
  p.modifyBlock r fun b => { b with refCnt := b.refCnt + d }

/-- `r.block_hash = hash`, and `r.reset_hash()`. -/
def setHash (p : BlockPool) (r : BlockRef) (hash : Option BlockHashWithGroupId) : BlockPool :=
  p.modifyBlock r fun b => { b with blockHash := hash }

/-- `self.kv_event_queue.append(e)`, when events are enabled. -/
def emit (p : BlockPool) (e : KVCacheEvent) : BlockPool :=
  if p.enableKvCacheEvents then { p with kvEventQueue := p.kvEventQueue ++ [e] } else p

def init (numGpuBlocks : Nat) (enableCaching : Bool) (hashBlockSize : Nat)
    (enableKvCacheEvents useIntBlockHashes : Bool) : Except PyError BlockPool := do
  assert (numGpuBlocks > 0) ""
  let q := FreeKVCacheBlockQueue.init ((List.range numGpuBlocks).map .blk)
  let (nullBlock, q) ← q.popleft
  let p : BlockPool := {
    numGpuBlocks, enableCaching, hashBlockSize, freeBlockQueue := q
    cachedBlockHashToBlock := .init, nullBlock, enableKvCacheEvents, useIntBlockHashes
    kvEventQueue := [] }
  .ok (p.modifyBlock nullBlock fun b => { b with isNull := true })

def getNumFreeBlocks (p : BlockPool) : Int := p.freeBlockQueue.numFreeBlocks

/-- `get_cached_block`: one block per group, or `None` if any group misses. -/
def getCachedBlock (p : BlockPool) (blockHash : BlockHash) (groupIds : List Nat) :
    Option (List BlockRef) := groupIds.mapM fun g =>
    p.cachedBlockHashToBlock.getOneBlock (makeBlockHashWithGroupId blockHash g)

/-- "Update and added the full block to the cache." -/
def cacheBlock (p : BlockPool) (b : BlockRef) (key : BlockHashWithGroupId) : BlockPool :=
  (p.setHash b (some key)).setMap (p.cachedBlockHashToBlock.insert key b)

/-- The loop of `cache_full_blocks`: the pool and `new_hashes`. -/
def cacheLoop (groupId : Nat) : List BlockRef → List BlockHash → BlockPool →
    Except PyError (BlockPool × List BlockHash)
  | [], _, p => .ok (p, [])
  | b :: rest, hashes, p =>
    if (p.heap b).isNull then cacheLoop groupId rest hashes.tail p
    else do
      assert (p.heap b).blockHash.isNone ""
      match hashes with
      | [] => .error (.IndexError "list index out of range")
      | hash :: hashes =>
        let (p, newHashes) ← cacheLoop groupId rest hashes
          (p.cacheBlock b (makeBlockHashWithGroupId hash groupId))
        .ok (p, hash :: newHashes)

/-- The hashes of a request at the block size of a group. -/
def blockHashesAt (p : BlockPool) (request : Request) (blockSize : Nat) :
    Except PyError (List BlockHash) :=
  if blockSize = p.hashBlockSize then .ok request.blockHashes
  else blockHashListWithBlockSize request.blockHashes p.hashBlockSize blockSize

/-- `parent_block_hash` of the stored event. -/
def parentBlockHash (p : BlockPool) (blockHashes : List BlockHash) :
    Nat → Except PyError (Option ExternalBlockHash)
  | 0 => .ok none
  | n + 1 =>
    match blockHashes[n]? with
    | some h => .ok (some (maybeConvertBlockHash p.useIntBlockHashes h))
    | none => .error (.IndexError "list index out of range")

def cacheFullBlocks (p : BlockPool) (request : Request) (blocks : List BlockRef)
    (numCachedBlocks numFullBlocks blockSize groupId : Nat) : Except PyError BlockPool :=
  if numCachedBlocks ≥ numFullBlocks then .ok p
  else do
    let newFullBlocks := (blocks.take numFullBlocks).drop numCachedBlocks
    assert (request.blockHashes.length ≥ numFullBlocks) ""
    let blockHashes ← p.blockHashesAt request blockSize
    let (p, newHashes) ← cacheLoop groupId newFullBlocks (blockHashes.drop numCachedBlocks) p
    if p.enableKvCacheEvents then
      let parent ← p.parentBlockHash blockHashes numCachedBlocks
      -- the extra keys are generated block by block up to `numFullBlocks`
      if numFullBlocks > blocks.length then .error (.IndexError "list index out of range")
      else .ok (p.emit (.BlockStored (newHashes.map (maybeConvertBlockHash p.useIntBlockHashes))
        parent ((request.allTokenIds.take (numFullBlocks * blockSize)).drop
          (numCachedBlocks * blockSize)) blockSize))
    else .ok p

/-- `_maybe_evict_cached_block`: whether the block was evicted, and the pool. -/
def maybeEvictCachedBlock (p : BlockPool) (block : BlockRef) : Bool × BlockPool :=
  match (p.heap block).blockHash with
  | none => (false, p)
  | some key =>
    match p.cachedBlockHashToBlock.pop key block.blockId with
    | (none, m) => (false, p.setMap m)
    | (some _, m) =>
      let p := (p.setMap m).setHash block none
      (true, p.emit (.BlockRemoved [maybeConvertBlockHash p.useIntBlockHashes (getBlockHash key)]))

/-- The loop of `get_new_blocks` over the popped blocks. -/
def takeLoop : List BlockRef → BlockPool → Except PyError BlockPool
  | [], p => .ok p
  | b :: rest, p => do
      let p := if p.enableCaching then (p.maybeEvictCachedBlock b).2 else p
      assert ((p.heap b).refCnt = 0) ""
      takeLoop rest (p.addRef b 1)

def getNewBlocks (p : BlockPool) (numBlocks : Int) :
    Except PyError (List BlockRef × BlockPool) :=
  if numBlocks > p.getNumFreeBlocks then
    .error (.ValueError s!"Cannot get {numBlocks} free blocks from the pool")
  else do
    let (ret, q) ← p.freeBlockQueue.popleftN numBlocks
    let p ← takeLoop ret (p.setQueue q)
    .ok (ret, p)

/-- The queue after `touch` has taken an eviction candidate out of it. -/
def removeCandidate (p : BlockPool) (b : BlockRef) : Except PyError FreeKVCacheBlockQueue :=
  if (p.heap b).refCnt = 0 ∧ (p.heap b).isNull = false then p.freeBlockQueue.remove b
  else .ok p.freeBlockQueue

def touch : List BlockRef → BlockPool → Except PyError BlockPool
  | [], p => .ok p
  | b :: rest, p => do
      let q ← p.removeCandidate b
      touch rest ((p.setQueue q).addRef b 1)

/-- The first loop of `free_blocks`. -/
def releaseLoop : List BlockRef → BlockPool → BlockPool
  | [], p => p
  | b :: rest, p => releaseLoop rest (p.addRef b (-1))

def freeBlocks (p : BlockPool) (orderedBlocks : List BlockRef) : Except PyError BlockPool := do
  let p := releaseLoop orderedBlocks p
  let q ← p.freeBlockQueue.appendN (orderedBlocks.filter fun b =>
    (p.heap b).refCnt = 0 ∧ (p.heap b).isNull = false)
  .ok (p.setQueue q)

def evictBlocks : List Nat → BlockPool → Except PyError BlockPool
  | [], p => .ok p
  | id :: rest, p => do
      assert (id < p.numGpuBlocks) s!"Invalid block_id {id} >= {p.numGpuBlocks}. This indicates a bug in the KV connector - workers should only report block IDs that were allocated by the scheduler."
      evictBlocks rest (p.maybeEvictCachedBlock (.blk id)).2

/-- `for block in self.blocks: block.reset_hash()`. -/
def resetLoop : List BlockRef → BlockPool → BlockPool
  | [], p => p
  | b :: rest, p => resetLoop rest (p.setHash b none)

/-- `reset_prefix_cache`. The null block always counts as used. -/
def resetPrefixCache (p : BlockPool) : Bool × BlockPool :=
  let numUsedBlocks := p.numGpuBlocks - p.getNumFreeBlocks
  if numUsedBlocks ≠ 1 then (false, p)
  else
    let p := resetLoop p.blocks (p.setMap .init)
    (true, p.emit .AllBlocksCleared)

def takeEvents (p : BlockPool) : List KVCacheEvent × BlockPool :=
  if p.enableKvCacheEvents then (p.kvEventQueue, { p with kvEventQueue := [] }) else ([], p)

end BlockPool

end MyOperator.KvCache
