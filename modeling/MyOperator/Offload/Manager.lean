import MyOperator.Offload.Policy

/-!
# The CPU offloading manager

`CPUOffloadingManager`: a pool of CPU block ids that grows on demand and keeps freed ids
in a list, under a cache policy. A call that raises returns the exception.
-/

namespace MyOperator.Offload

open Lib
open KvCache (assert)

variable {H F : Type} [DecidableEq H] [PyFloat F]

structure CPULoadStoreSpec where
  blockIds : List Nat
  deriving DecidableEq, Repr

def CPULoadStoreSpec.medium : String := "CPU"

structure OffloadingEvent (H : Type) where
  blockHashes : List H
  blockSize : Nat
  medium : String
  removed : Bool
  deriving DecidableEq, Repr

structure PrepareStoreOutput (H : Type) where
  blockHashesToStore : List H
  storeSpec : CPULoadStoreSpec
  blockHashesEvicted : List H
  deriving DecidableEq, Repr

/-- `CPUOffloadingManager`. It never allocates more than `num_blocks` ids. -/
structure CPUOffloadingManager (H F : Type) where
  blockSize : Nat
  numBlocks : Nat
  numAllocatedBlocks : Nat
  freeList : List Nat
  events : Option (List (OffloadingEvent H))
  policy : CachePolicy H F
  allocated_le : numAllocatedBlocks ≤ numBlocks
  deriving DecidableEq

namespace CPUOffloadingManager

def init (blockSize numBlocks : Nat) (cachePolicy : CachePolicyName) (enableEvents : Bool) :
    CPUOffloadingManager H F where
  blockSize
  numBlocks
  numAllocatedBlocks := 0
  freeList := []
  events := if enableEvents then some [] else none
  policy := .init cachePolicy numBlocks
  allocated_le := Nat.zero_le _

variable (m : CPUOffloadingManager H F)

/-! ## Block pool -/

omit [DecidableEq H] [PyFloat F] in
def getNumFreeBlocks : Nat := m.freeList.length + m.numBlocks - m.numAllocatedBlocks

/-- `n` times `free_list.pop()`: the ids popped and the list left. -/
def popFree : (n : Nat) → List Nat → List Nat × List Nat
  | 0, freeList => ([], freeList)
  | n + 1, freeList =>
    match freeList.getLast? with
    | some blockId =>
      (blockId :: (popFree n freeList.dropLast).1, (popFree n freeList.dropLast).2)
    | none => ([], freeList)

omit [PyFloat F] [DecidableEq H] in
def allocateBlocks (blockHashes : List H) :
    Except PyError (List BlockStatus × CPUOffloadingManager H F) := do
  let numFresh := min blockHashes.length (m.numBlocks - m.numAllocatedBlocks)
  let numReused := blockHashes.length - numFresh
  assert (numReused ≤ m.freeList.length) ""
  let fresh := (List.range' m.numAllocatedBlocks numFresh).map BlockStatus.init
  let reused := (popFree numReused m.freeList).1.map BlockStatus.init
  return (fresh ++ reused, { m with
    numAllocatedBlocks := m.numAllocatedBlocks + numFresh
    freeList := (popFree numReused m.freeList).2
    allocated_le := by
      have := m.allocated_le
      omega })

omit [DecidableEq H] [PyFloat F] in
def freeBlock (block : BlockStatus) : CPUOffloadingManager H F :=
  { m with freeList := m.freeList ++ [block.blockId] }

def getLoadStoreSpec (blocks : List BlockStatus) : CPULoadStoreSpec :=
  { blockIds := blocks.map BlockStatus.blockId }

omit [DecidableEq H] [PyFloat F] in
/-- `self.events.append`, unless there is nothing to report. -/
def appendEvent (blockHashes : List H) (removed : Bool) : CPUOffloadingManager H F :=
  match m.events with
  | some events =>
    if blockHashes = [] then m
    else { m with events := some (events ++
      [{ blockHashes, blockSize := m.blockSize, medium := CPULoadStoreSpec.medium, removed }]) }
  | none => m

/-! ## OffloadingManager interface -/

omit [PyFloat F] in
def lookup : List H → Nat
  | [] => 0
  | blockHash :: blockHashes =>
    match m.policy.get blockHash with
    | some block => if block.isReady then 1 + lookup blockHashes else 0
    | none => 0

omit [PyFloat F] in
/-- A pass of the loop of `prepare_load`. -/
def prepareLoadBlock [Repr H] (m : CPUOffloadingManager H F) (blockHash : H) :
    Except PyError (BlockStatus × CPUOffloadingManager H F) :=
  match m.policy.get blockHash with
  | none => .error (.AssertionError s!"Block {repr blockHash} not found in cache")
  | some block =>
    if block.isReady then
      .ok (block.setRefCnt (block.refCnt + 1),
        { m with policy := m.policy.modify blockHash fun b => b.setRefCnt (b.refCnt + 1) })
    else .error (.AssertionError s!"Block {repr blockHash} is not ready for reading")

omit [PyFloat F] in
def prepareLoad [Repr H] (blockHashes : List H) :
    Except PyError (CPULoadStoreSpec × CPUOffloadingManager H F) := do
  let (blocks, m) ← blockHashes.foldlM (fun (blocks, m) blockHash => do
    let (block, m) ← prepareLoadBlock m blockHash
    return (blocks ++ [block], m)) (([] : List BlockStatus), m)
  return (getLoadStoreSpec blocks, m)

def touch (blockHashes : List H) : CPUOffloadingManager H F :=
  { m with policy := m.policy.touch blockHashes }

omit [PyFloat F] in
/-- A pass of the loop of `complete_load`. -/
def completeLoadBlock [Repr H] (m : CPUOffloadingManager H F) (blockHash : H) :
    Except PyError (CPUOffloadingManager H F) :=
  match m.policy.get blockHash with
  | none => .error (.AssertionError s!"Block {repr blockHash} not found")
  | some block =>
    if 0 < block.refCnt then
      .ok { m with policy := m.policy.modify blockHash fun b => b.setRefCnt (b.refCnt - 1) }
    else .error (.AssertionError s!"Block {repr blockHash} ref_cnt is already 0")

omit [PyFloat F] in
def completeLoad [Repr H] (blockHashes : List H) : Except PyError (CPUOffloadingManager H F) :=
  blockHashes.foldlM completeLoadBlock m

omit [PyFloat F] in
/-- The inserts at the end of `prepare_store`. -/
def insertBlocks (blockHashes : List H) (blocks : List BlockStatus) : CPUOffloadingManager H F :=
  { m with policy := (blockHashes.zip blocks).foldl (fun p e => p.insert e.1 e.2) m.policy }

omit [DecidableEq H] [PyFloat F] in
/-- The loop of `prepare_store` over the evicted blocks. -/
def freeEvicted (evicted : List (H × BlockStatus)) : CPUOffloadingManager H F :=
  evicted.foldl (fun m e => m.freeBlock e.2) m

omit [PyFloat F] in
/-- `prepare_store` from the allocation on, after the blocks in `toEvict` were evicted. -/
def storeBlocks (blockHashesToStore toEvict : List H) :
    Except PyError (Option (PrepareStoreOutput H) × CPUOffloadingManager H F) := do
  let m := m.appendEvent toEvict true
  let (blocks, m) ← m.allocateBlocks blockHashesToStore
  assert (blocks.length = blockHashesToStore.length)
    "Block pool did not allocate the expected number of blocks"
  return (some { blockHashesToStore, storeSpec := getLoadStoreSpec blocks, blockHashesEvicted := toEvict },
    m.insertBlocks blockHashesToStore blocks)

def prepareStore (blockHashes : List H) :
    Except PyError (Option (PrepareStoreOutput H) × CPUOffloadingManager H F) :=
  let blockHashesToStore := blockHashes.filter fun bh => m.policy.get bh = none
  if blockHashesToStore = [] then
    .ok (some { blockHashesToStore := [], storeSpec := getLoadStoreSpec [], blockHashesEvicted := [] }, m)
  else
    let numBlocksToEvict := blockHashesToStore.length - m.getNumFreeBlocks
    if 0 < numBlocksToEvict then
      match m.policy.evict numBlocksToEvict blockHashes.toFinset with
      | (none, policy) => .ok (none, { m with policy })
      | (some evicted, policy) =>
        ({ m with policy }.freeEvicted evicted).storeBlocks blockHashesToStore
          (evicted.map Prod.fst)
    else m.storeBlocks blockHashesToStore []

omit [PyFloat F] in
/-- A pass of the loop of `complete_store` after a success. -/
def storedBlock (acc : List H × CPUOffloadingManager H F) (blockHash : H) :
    List H × CPUOffloadingManager H F :=
  match acc.2.policy.get blockHash with
  | some block =>
    if !block.isReady then
      (acc.1 ++ [blockHash],
        { acc.2 with policy := acc.2.policy.modify blockHash (BlockStatus.setRefCnt 0) })
    else acc
  | none => acc

omit [PyFloat F] in
/-- A pass of the loop of `complete_store` after a failure. -/
def notStoredBlock (m : CPUOffloadingManager H F) (blockHash : H) : CPUOffloadingManager H F :=
  match m.policy.get blockHash with
  | some block =>
    if !block.isReady then { m with policy := m.policy.remove blockHash }.freeBlock block
    else m
  | none => m

omit [PyFloat F] in
def completeStore (blockHashes : List H) (success : Bool) : CPUOffloadingManager H F :=
  if success then
    let (storedBlockHashes, m) := blockHashes.foldl storedBlock ([], m)
    m.appendEvent storedBlockHashes false
  else blockHashes.foldl notStoredBlock m

omit [DecidableEq H] [PyFloat F] in
/-- `take_events`, read to the end. -/
def takeEvents : List (OffloadingEvent H) × CPUOffloadingManager H F :=
  match m.events with
  | some events => (events, { m with events := some [] })
  | none => ([], m)

end CPUOffloadingManager

end MyOperator.Offload
