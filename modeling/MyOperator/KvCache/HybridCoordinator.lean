import MyOperator.KvCache.Lookup

/-!
# The hybrid coordinator

How `HybridKVCacheCoordinator` groups the KV cache groups by their specs and finds
the longest prefix that is cached in every group.
-/

namespace MyOperator.KvCache

open Lib

/-- An entry of `attention_groups`. -/
structure AttentionGroup where
  spec : KVCacheSpec
  groupIds : List Nat
  managerCls : ManagerClass
  deriving DecidableEq, Repr

/-- `HybridKVCacheCoordinator`, without its pool and its managers. -/
structure HybridKVCacheCoordinator where
  kvCacheGroups : List KVCacheSpec
  useEagle : Bool
  hashBlockSize : Nat
  attentionGroups : List AttentionGroup
  lcmBlockSize : Nat
  deriving DecidableEq, Repr

/-- One group of the loop of `verify_and_split_kv_cache_groups`: it joins the attention group
with its spec, or starts a new one. -/
def addKvCacheGroup (spec : KVCacheSpec) (i : Nat) :
    List AttentionGroup → Except PyError (List AttentionGroup)
  | [] => .ok [⟨spec, [i], specManagerMap spec.kind⟩]
  | g :: rest =>
    if g.spec = spec then do
      assert (specManagerMap spec.kind = g.managerCls)
        "Expected same manager class for identical KV cache specs."
      .ok ({ g with groupIds := g.groupIds ++ [i] } :: rest)
    else do
      let rest ← addKvCacheGroup spec i rest
      .ok (g :: rest)

/-- The loop of `verify_and_split_kv_cache_groups`, from group `i` on. -/
def splitKvCacheGroups : List KVCacheSpec → Nat → List AttentionGroup →
    Except PyError (List AttentionGroup)
  | [], _, attentionGroups => .ok attentionGroups
  | spec :: rest, i, attentionGroups => do
      let attentionGroups ← addKvCacheGroup spec i attentionGroups
      splitKvCacheGroups rest (i + 1) attentionGroups

/-- `sorted(attention_groups, key=lambda x: not isinstance(x[0], FullAttentionSpec))`. -/
def fullAttentionFirst (attentionGroups : List AttentionGroup) : List AttentionGroup :=
  attentionGroups.filter (fun g => g.spec.isFullAttention) ++
    attentionGroups.filter fun g => !g.spec.isFullAttention

namespace HybridKVCacheCoordinator

/-- `__init__`, with `verify_and_split_kv_cache_groups`. -/
def init (kvCacheGroups : List KVCacheSpec) (useEagle : Bool) (hashBlockSize : Nat)
    (dcpWorldSize pcpWorldSize : Nat) : Except PyError HybridKVCacheCoordinator := do
  assert (kvCacheGroups.all fun spec => spec.blockSize % hashBlockSize = 0)
    "block_size must be divisible by hash_block_size"
  assert (dcpWorldSize = 1) "DCP not support hybrid attn now."
  assert (pcpWorldSize = 1) "PCP not support hybrid attn now."
  let attentionGroups ← splitKvCacheGroups kvCacheGroups 0 []
  assert (attentionGroups.length > 1)
    "HybridKVCacheCoordinator requires at least two attention groups."
  .ok {
    kvCacheGroups, useEagle, hashBlockSize
    attentionGroups := fullAttentionFirst attentionGroups
    lcmBlockSize := (attentionGroups.map fun g => g.spec.blockSize).foldl Nat.lcm 1 }

/-- `hit_blocks_by_group`. -/
abbrev Hits := Nat → Option (List BlockRef)

/-- `for group_id, blocks in zip(group_ids, hit_blocks)`. -/
def storeHits (groupIds : List Nat) (columns : List Column) (hits : Hits) : Hits := fun g =>
  if g ∈ groupIds then some (groupBlocks (groupIds.idxOf g) columns) else hits g

variable (c : HybridKVCacheCoordinator)

def getBlockHashes (blockHashes : List BlockHash) (spec : KVCacheSpec) :
    Except PyError (List BlockHash) :=
  if spec.blockSize = c.hashBlockSize then .ok blockHashes
  else blockHashListWithBlockSize blockHashes c.hashBlockSize spec.blockSize

/-- The loop over the attention groups, at `curr_hit_length`. -/
def groupLoop (p : BlockPool) (blockHashes : List BlockHash) :
    List AttentionGroup → Nat → Hits → Except PyError (Nat × Hits)
  | [], currHitLength, hits => .ok (currHitLength, hits)
  | g :: rest, currHitLength, hits =>
    if g.spec.isFullAttention ∧ (hits (g.groupIds.headD 0)).isSome then
      -- full attention is looked up once
      let numBlocks := currHitLength / g.spec.blockSize
      groupLoop p blockHashes rest (numBlocks * g.spec.blockSize) hits
    else do
      let blockHashes' ← c.getBlockHashes blockHashes g.spec
      let columns ← KvCache.findLongestCacheHit g.spec p g.groupIds blockHashes' currHitLength
        c.useEagle c.lcmBlockSize 1 1
      groupLoop p blockHashes rest (columns.length * g.spec.blockSize)
        (storeHits g.groupIds columns hits)

def isSimpleHybrid : Bool :=
  c.attentionGroups.length = 2 && (c.attentionGroups.head?.any fun g => g.spec.isFullAttention)

/-- The rounds from `hit_length` on; `none` when the bound on their number is too small. -/
def hitLoop (p : BlockPool) (blockHashes : List BlockHash) :
    Nat → Nat → Hits → Except PyError (Option (Nat × Hits))
  | 0, _, _ => .ok none
  | fuel + 1, hitLength, hits => do
      let (currHitLength, hits) ← c.groupLoop p blockHashes c.attentionGroups hitLength hits
      if currHitLength ≥ hitLength then .ok (some (hitLength, hits))
      else if c.isSimpleHybrid then .ok (some (currHitLength, hits))
      else hitLoop p blockHashes fuel currHitLength hits

/-- The first attention group is cut to the hit length if it is of full attention. -/
def truncateFull (hitLength : Nat) (hits : Hits) : Hits :=
  match c.attentionGroups with
  | g :: _ =>
    if g.spec.isFullAttention then fun i =>
      if i ∈ g.groupIds then (hits i).map (List.take (hitLength / g.spec.blockSize)) else hits i
    else hits
  | [] => hits

/-- `find_longest_cache_hit`: the blocks of every group and the length of the hit. Every round
but the last lowers the length, which bounds their number. -/
def findLongestCacheHit (p : BlockPool) (blockHashes : List BlockHash)
    (maxCacheHitLength : Nat) : Except PyError (Option (List (List BlockRef) × Nat)) := do
  let res ← c.hitLoop p blockHashes (maxCacheHitLength + 1) maxCacheHitLength fun _ => none
  .ok (res.map fun (hitLength, hits) =>
    ((List.range c.kvCacheGroups.length).map fun g => (c.truncateFull hitLength hits g).getD [],
      hitLength))

end HybridKVCacheCoordinator

end MyOperator.KvCache
