import MyOperator.KvCache.BlockPool

/-!
# KV cache specs

The specs that a KV cache group can have. The fields that only size the tensors
(heads, dtypes, page sizes) take part in nothing but the equality of two specs; one
opaque `layout` stands for them.
-/

namespace MyOperator.KvCache

/-- The spec classes, with the fields that the cache managers read. -/
inductive SpecKind
  | fullAttention
  | mlaAttention
  | sinkFullAttention (sinkLen : Nat)
  | slidingWindow (slidingWindow : Nat)
  | chunkedLocalAttention (attentionChunkSize : Nat)
  | mamba (align : Bool) (numSpeculativeBlocks : Nat)
  | crossAttention
  deriving DecidableEq, Repr

structure KVCacheSpec where
  blockSize : Nat
  kind : SpecKind
  layout : Nat := 0
  deriving DecidableEq, Repr

/-- `isinstance(spec, FullAttentionSpec)`. -/
def KVCacheSpec.isFullAttention (spec : KVCacheSpec) : Bool :=
  match spec.kind with
  | .fullAttention | .mlaAttention | .sinkFullAttention _ => true
  | _ => false

/-- The classes of cache managers. -/
inductive ManagerClass
  | FullAttentionManager
  | SlidingWindowManager
  | ChunkedLocalAttentionManager
  | MambaManager
  | CrossAttentionManager
  | SinkFullAttentionManager
  deriving DecidableEq, Repr

def specManagerMap : SpecKind → ManagerClass
  | .fullAttention => .FullAttentionManager
  | .mlaAttention => .FullAttentionManager
  | .slidingWindow _ => .SlidingWindowManager
  | .chunkedLocalAttention _ => .ChunkedLocalAttentionManager
  | .mamba _ _ => .MambaManager
  | .crossAttention => .CrossAttentionManager
  | .sinkFullAttention _ => .SinkFullAttentionManager

/-- `cdiv(a, b)`: the quotient rounded up. -/
def cdiv (a b : Nat) : Nat := (a + b - 1) / b

theorem cdiv_le_iff {a b n : Nat} (hb : 0 < b) : cdiv a b ≤ n ↔ a ≤ n * b := by
  unfold cdiv
  rw [Nat.div_le_iff_le_mul_add_pred hb, Nat.mul_comm b n]
  omega

theorem le_cdiv_mul (a : Nat) {b : Nat} (hb : 0 < b) : a ≤ cdiv a b * b :=
  (cdiv_le_iff hb).mp (Nat.le_refl _)

theorem cdiv_mul_lt (a : Nat) {b : Nat} (hb : 0 < b) : cdiv a b * b < a + b := by
  have := Nat.div_mul_le_self (a + b - 1) b
  unfold cdiv
  omega

end MyOperator.KvCache

/-!
## Prefix-cache lookups

`find_longest_cache_hit` of every manager class. The lists that a lookup builds for
the groups of one attention type grow and shrink together, so they are kept as one
list of columns; a column holds one block per group.
-/

namespace MyOperator.KvCache

open Lib

/-- The blocks of all groups at one position. -/
abbrev Column := List BlockRef

/-- The list of one group. -/
def groupBlocks (k : Nat) (columns : List Column) : List BlockRef :=
  columns.filterMap fun column => column[k]?

/-- `[block_pool.null_block]` in every group. -/
def nullColumn (p : BlockPool) (groupIds : List Nat) : Column := groupIds.map fun _ => p.nullBlock

/-- The cache lookup at a position. -/
def hitAt (p : BlockPool) (groupIds : List Nat) (blockHashes : List BlockHash) (i : Nat) :
    Option Column := blockHashes[i]?.bind fun h => p.getCachedBlock h groupIds

/-- `while block_size != alignment_tokens and len(computed) * block_size % alignment_tokens != 0`:
the last column is popped. -/
def popUnalignedLoop (blockSize alignmentTokens : Nat) : Nat → List Column → List Column
  | 0, computed => computed
  | fuel + 1, computed =>
    if blockSize ≠ alignmentTokens ∧ computed.length * blockSize % alignmentTokens ≠ 0 then
      popUnalignedLoop blockSize alignmentTokens fuel computed.dropLast
    else computed

/-- The loop above; it pops at most every column. -/
def popUnaligned (blockSize alignmentTokens : Nat) (computed : List Column) : List Column :=
  popUnalignedLoop blockSize alignmentTokens computed.length computed

/-! ## Full attention -/

/-- The hits up to the first miss. -/
def fullLoop (p : BlockPool) (groupIds : List Nat) : List BlockHash → List Column
  | [] => []
  | h :: rest =>
    match p.getCachedBlock h groupIds with
    | some cached => cached :: fullLoop p groupIds rest
    | none => []

/-- `FullAttentionManager.find_longest_cache_hit`. -/
def findFull (p : BlockPool) (groupIds : List Nat) (blockHashes : List BlockHash)
    (maxLength blockSize : Nat) (useEagle : Bool) (alignmentTokens : Nat) : List Column :=
  let computed := fullLoop p groupIds (blockHashes.take (maxLength / blockSize))
  let computed := if useEagle then computed.dropLast else computed
  popUnaligned blockSize alignmentTokens computed

/-! ## Sliding window -/

/-- The search from right to left: the columns, the length of the current run of hits and
whether a match was found. The search stands before position `i`. -/
def slidingLoop (p : BlockPool) (groupIds : List Nat) (blockHashes : List BlockHash)
    (blockSize alignmentTokens need : Nat) :
    Nat → List Column → Nat → Except PyError (List Column × Nat × Bool)
  | 0, computed, n => .ok (computed, n, false)
  | i + 1, computed, n =>
    if i < blockHashes.length then
      match hitAt p groupIds blockHashes i with
      | none => slidingLoop p groupIds blockHashes blockSize alignmentTokens need i computed 0
      | some cached =>
        -- a run may only start at an aligned position
        if n = 0 ∧ blockSize ≠ alignmentTokens ∧ (i + 1) * blockSize % alignmentTokens ≠ 0 then
          slidingLoop p groupIds blockHashes blockSize alignmentTokens need i computed n
        else
          let computed := computed.set i cached
          if n + 1 ≥ need then .ok (computed.take (i + (n + 1)), n + 1, true)
          else slidingLoop p groupIds blockHashes blockSize alignmentTokens need i computed (n + 1)
    else .error (.IndexError "list index out of range")

/-- `SlidingWindowManager.find_longest_cache_hit`. -/
def findSliding (p : BlockPool) (groupIds : List Nat) (blockHashes : List BlockHash)
    (maxLength blockSize slidingWindow : Nat) (useEagle : Bool) (alignmentTokens : Nat) :
    Except PyError (List Column) := do
  let need := cdiv (slidingWindow - 1) blockSize + if useEagle then 1 else 0
  let maxNumBlocks := maxLength / blockSize
  let (computed, n, matchFound) ← slidingLoop p groupIds blockHashes blockSize alignmentTokens need
    maxNumBlocks (List.replicate maxNumBlocks (nullColumn p groupIds)) 0
  let computed := if matchFound then computed
    else popUnaligned blockSize alignmentTokens (computed.take n)
  .ok (if useEagle then popUnaligned blockSize alignmentTokens computed.dropLast else computed)

/-! ## Chunked local attention -/

/-- The hits from position `i` on, over the next `n` positions. -/
def chunkedLoop (p : BlockPool) (groupIds : List Nat) (blockHashes : List BlockHash) :
    Nat → Nat → Except PyError (List Column)
  | _, 0 => .ok []
  | i, n + 1 =>
    if i < blockHashes.length then
      match hitAt p groupIds blockHashes i with
      | some cached => do
          let rest ← chunkedLoop p groupIds blockHashes (i + 1) n
          .ok (cached :: rest)
      | none => .ok []
    else .error (.IndexError "list index out of range")

/-- `ChunkedLocalAttentionManager.find_longest_cache_hit`. -/
def findChunked (p : BlockPool) (groupIds : List Nat) (blockHashes : List BlockHash)
    (maxLength blockSize attentionChunkSize : Nat) (useEagle : Bool) (alignmentTokens : Nat) :
    Except PyError (List Column) := do
  assert (!useEagle) "Hybrid KV cache is not supported for eagle + chunked local attention."
  assert (blockSize = alignmentTokens)
    "KV cache groups with different block sizes are not compatible with chunked local attention now"
  let maxNumBlocks := maxLength / blockSize
  let localAttentionStartIdx :=
    if maxLength > 0 then maxLength / attentionChunkSize * attentionChunkSize else 0
  let localAttentionStartBlockIdx := localAttentionStartIdx / blockSize
  let hits ← chunkedLoop p groupIds blockHashes localAttentionStartBlockIdx
    (maxNumBlocks - localAttentionStartBlockIdx)
  .ok (List.replicate localAttentionStartBlockIdx (nullColumn p groupIds) ++ hits)

/-! ## Mamba -/

/-- The search from right to left for one aligned hit. -/
def mambaLoop (p : BlockPool) (groupIds : List Nat) (blockHashes : List BlockHash)
    (blockSize alignmentTokens : Nat) : Nat → Except PyError (List Column)
  | 0 => .ok []
  | i + 1 =>
    if i < blockHashes.length then
      match hitAt p groupIds blockHashes i with
      | none => mambaLoop p groupIds blockHashes blockSize alignmentTokens i
      | some cached =>
        if blockSize ≠ alignmentTokens ∧ (i + 1) * blockSize % alignmentTokens ≠ 0 then
          mambaLoop p groupIds blockHashes blockSize alignmentTokens i
        else .ok (List.replicate i (nullColumn p groupIds) ++ [cached])
    else .error (.IndexError "list index out of range")

/-- `MambaManager.find_longest_cache_hit`. -/
def findMamba (p : BlockPool) (groupIds : List Nat) (blockHashes : List BlockHash)
    (maxLength blockSize alignmentTokens : Nat) : Except PyError (List Column) :=
  mambaLoop p groupIds blockHashes blockSize alignmentTokens (maxLength / blockSize)

/-! ## Dispatch -/

def findLongestCacheHit (spec : KVCacheSpec) (p : BlockPool) (groupIds : List Nat)
    (blockHashes : List BlockHash) (maxLength : Nat) (useEagle : Bool) (alignmentTokens : Nat)
    (dcpWorldSize pcpWorldSize : Nat) : Except PyError (List Column) :=
  match spec.kind with
  | .fullAttention | .mlaAttention | .sinkFullAttention _ =>
    let blockSize := if dcpWorldSize * pcpWorldSize > 1
      then spec.blockSize * (dcpWorldSize * pcpWorldSize) else spec.blockSize
    .ok (findFull p groupIds blockHashes maxLength blockSize useEagle alignmentTokens)
  | .slidingWindow w => do
      assert (dcpWorldSize = 1) "DCP not support sliding window attn now."
      assert (pcpWorldSize = 1) "PCP not support sliding window attn now."
      findSliding p groupIds blockHashes maxLength spec.blockSize w useEagle alignmentTokens
  | .chunkedLocalAttention c => do
      assert (dcpWorldSize = 1) "DCP not support chunked local attn now."
      assert (pcpWorldSize = 1) "PCP not support chunked local attn now."
      findChunked p groupIds blockHashes maxLength spec.blockSize c useEagle alignmentTokens
  | .mamba _ _ => do
      assert (dcpWorldSize = 1) "DCP not support mamba now."
      assert (pcpWorldSize = 1) "PCP not support mamba now."
      findMamba p groupIds blockHashes maxLength spec.blockSize alignmentTokens
  | .crossAttention =>
    .error (.NotImplementedError "CrossAttentionManager does not support caching")

end MyOperator.KvCache
