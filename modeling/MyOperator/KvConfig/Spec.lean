import MyOperator.KvCache.Lookup

/-!
# The specs of the KV cache

`KVCacheSpec` and its classes with everything that sizes the cache: the bytes of a page,
the bytes that one request of the maximum length may need, and the merging of the specs of
the layers of a group. `torch.dtype` is a type `D` whose values have a size.
-/

namespace MyOperator.KvConfig

open Lib

/-- What the code may raise. -/
inductive ConfigError
  | AssertionError (msg : String)
  | ValueError (msg : String)
  | IndexError (msg : String)
  | KeyError (msg : String)
  | ZeroDivisionError
  deriving DecidableEq, Repr

/-- `assert c, msg`. -/
def assert (c : Bool) (msg : String) : Except ConfigError Unit :=
  if c then .ok () else .error (.AssertionError msg)

/-- `cdiv(a, b)`. -/
def cdiv (a b : Nat) : Except ConfigError Nat :=
  if b = 0 then .error .ZeroDivisionError else .ok (KvCache.cdiv a b)

/-- `torch.dtype`, with `get_dtype_size`. -/
class TorchDtype (D : Type) where
  getDtypeSize : D → Nat

open TorchDtype (getDtypeSize)

inductive MambaCacheMode
  | all
  | align
  | none
  deriving DecidableEq, Repr

/-- The fields of `VllmConfig` that the specs read. -/
structure VllmConfig where
  maxModelLen : Nat
  decodeContextParallelSize : Nat := 1
  prefillContextParallelSize : Nat := 1
  maxNumBatchedTokens : Nat
  maxNumEncoderInputTokens : Nat := 0
  mambaCacheMode : MambaCacheMode := .none
  deriving DecidableEq, Repr

/-- The fields of `AttentionSpec`. -/
structure AttentionSpec (D : Type) where
  blockSize : Nat
  numKvHeads : Nat
  headSize : Nat
  dtype : D
  pageSizePadded : Option Nat := none
  deriving DecidableEq

/-- The fields of `FullAttentionSpec`. -/
structure FullAttentionSpec (D : Type) extends AttentionSpec D where
  headSizeV : Nat := headSize
  slidingWindow : Option Nat := none
  attentionChunkSize : Option Nat := none
  deriving DecidableEq

structure MambaSpec (D : Type) where
  blockSize : Nat
  shapes : List (List Nat)
  dtypes : List D
  pageSizePadded : Option Nat := none
  mambaType : String := "mamba2"
  mambaCacheMode : MambaCacheMode := .none
  numSpeculativeBlocks : Nat := 0
  deriving DecidableEq

/-- The classes of specs that a layer can have. -/
inductive KVCacheSpec (D : Type)
  | fullAttention (spec : FullAttentionSpec D)
  | mlaAttention (spec : FullAttentionSpec D) (cacheDtypeStr : Option String)
  | sinkFullAttention (spec : FullAttentionSpec D) (sinkLen : Option Nat)
  | chunkedLocalAttention (spec : AttentionSpec D) (attentionChunkSize : Nat)
  | slidingWindow (spec : AttentionSpec D) (slidingWindow : Nat)
  | encoderOnlyAttention (spec : AttentionSpec D)
  | crossAttention (spec : AttentionSpec D)
  | mamba (spec : MambaSpec D)
  deriving DecidableEq

variable {D : Type} [TorchDtype D]

/-! ## Page sizes -/

/-- `page_size_bytes` of a page that may be padded. -/
def paddedPageSize (realPageSize : Nat) : (pageSizePadded : Option Nat) → Except ConfigError Nat
  | none => .ok realPageSize
  | some padded => do
      assert (decide (realPageSize ≤ padded)) ""
      return padded

def AttentionSpec.realPageSizeBytes (spec : AttentionSpec D) : Nat :=
  2 * spec.blockSize * spec.numKvHeads * spec.headSize * getDtypeSize spec.dtype

def FullAttentionSpec.realPageSizeBytes (spec : FullAttentionSpec D) : Nat :=
  spec.blockSize * spec.numKvHeads * (spec.headSize + spec.headSizeV) * getDtypeSize spec.dtype

/-- `MLAAttentionSpec.real_page_size_bytes` -/
def mlaRealPageSizeBytes (spec : FullAttentionSpec D) (cacheDtypeStr : Option String) : Nat :=
  if cacheDtypeStr = some "fp8_ds_mla" then spec.blockSize * 656
  else spec.blockSize * spec.numKvHeads * spec.headSize * getDtypeSize spec.dtype

/-- `MambaSpec.page_size_bytes` without its padding. -/
def MambaSpec.realPageSizeBytes (spec : MambaSpec D) : Nat :=
  ((spec.shapes.zip spec.dtypes).map fun x => x.1.prod * getDtypeSize x.2).sum

def KVCacheSpec.pageSizeBytes : KVCacheSpec D → Except ConfigError Nat
  | .fullAttention spec | .sinkFullAttention spec _ =>
    paddedPageSize spec.realPageSizeBytes spec.pageSizePadded
  | .mlaAttention spec cacheDtypeStr =>
    paddedPageSize (mlaRealPageSizeBytes spec cacheDtypeStr) spec.pageSizePadded
  | .chunkedLocalAttention spec _ | .slidingWindow spec _ | .encoderOnlyAttention spec
  | .crossAttention spec => paddedPageSize spec.realPageSizeBytes spec.pageSizePadded
  | .mamba spec => paddedPageSize spec.realPageSizeBytes spec.pageSizePadded

/-! ## Memory -/

/-- `cdiv(num_tokens, self.block_size) * self.page_size_bytes`, with `extra` blocks more. -/
def pagesFor (spec : KVCacheSpec D) (numTokens blockSize extra : Nat) : Except ConfigError Nat := do
  let blocks ← cdiv numTokens blockSize
  let pageSize ← spec.pageSizeBytes
  return (blocks + extra) * pageSize

/-- `FullAttentionSpec.max_memory_usage_bytes` -/
def fullMaxMemoryUsageBytes (spec : KVCacheSpec D) (blockSize : Nat) (config : VllmConfig) :
    Except ConfigError Nat :=
  let worldSize := config.decodeContextParallelSize * config.prefillContextParallelSize
  if 1 < worldSize then do
    let maxModelLen ← cdiv config.maxModelLen worldSize
    pagesFor spec maxModelLen blockSize 0
  else pagesFor spec config.maxModelLen blockSize 0

def KVCacheSpec.maxMemoryUsageBytes (spec : KVCacheSpec D) (config : VllmConfig) :
    Except ConfigError Nat :=
  match spec with
  | .fullAttention s | .mlaAttention s _ | .sinkFullAttention s _ =>
    fullMaxMemoryUsageBytes spec s.blockSize config
  | .chunkedLocalAttention s attentionChunkSize =>
    pagesFor spec (min (attentionChunkSize + config.maxNumBatchedTokens) config.maxModelLen) s.blockSize 0
  | .slidingWindow s window => do
      assert (config.decodeContextParallelSize = 1) "DCP not support sliding window."
      -- the window may not start at the beginning of a block: one block more
      pagesFor spec (min (window + config.maxNumBatchedTokens - 1) config.maxModelLen) s.blockSize 1
  | .mamba s =>
    match config.mambaCacheMode with
    | .all => pagesFor spec config.maxModelLen s.blockSize 0
    | .align => do return (← spec.pageSizeBytes) * (2 + s.numSpeculativeBlocks)
    | .none => do return (← spec.pageSizeBytes) * (1 + s.numSpeculativeBlocks)
  | .encoderOnlyAttention _ => .ok 0
  | .crossAttention s => pagesFor spec config.maxNumEncoderInputTokens s.blockSize 0

/-! ## Groups -/

/-- The spec of a group: one for all layers, or `UniformTypeKVCacheSpecs` with one for each. -/
inductive ManagerSpec (D : Type)
  | layerSpec (spec : KVCacheSpec D)
  | uniformTypeKVCacheSpecs (blockSize : Nat) (kvCacheSpecs : List (String × KVCacheSpec D))
  deriving DecidableEq

structure KVCacheGroupSpec (D : Type) where
  layerNames : List String
  kvCacheSpec : ManagerSpec D
  deriving DecidableEq

def ManagerSpec.pageSizeBytes : ManagerSpec D → Except ConfigError Nat
  | .layerSpec spec => spec.pageSizeBytes
  | .uniformTypeKVCacheSpecs _ specs => do
      return (← specs.mapM fun x => x.2.pageSizeBytes).sum

/-- `max` of a sequence. -/
def pyMax : List Nat → Except ConfigError Nat
  | [] => .error (.ValueError "max() arg is an empty sequence")
  | a :: l => .ok (l.foldl max a)

def ManagerSpec.maxMemoryUsageBytes (spec : ManagerSpec D) (config : VllmConfig) : Except ConfigError Nat :=
  match spec with
  | .layerSpec spec => spec.maxMemoryUsageBytes config
  | .uniformTypeKVCacheSpecs _ specs => do
      let pages ← specs.mapM fun x => do
        let memory ← x.2.maxMemoryUsageBytes config
        cdiv memory (← x.2.pageSizeBytes)
      let maxNumPages ← pyMax pages
      return maxNumPages * (← spec.pageSizeBytes)

/-! ## Merging -/

/-- The spec as a `FullAttentionSpec`, if it is an instance. -/
def KVCacheSpec.asFullAttention : KVCacheSpec D → Option (FullAttentionSpec D)
  | .fullAttention spec | .mlaAttention spec _ | .sinkFullAttention spec _ => some spec
  | _ => none

/-- The `cache_dtype_str` of an `MLAAttentionSpec`. -/
def KVCacheSpec.asMlaAttention : KVCacheSpec D → Option (Option String)
  | .mlaAttention _ cacheDtypeStr => some cacheDtypeStr
  | _ => none

def mergeWindowSizes (windowSizes : List Nat) : Except ConfigError (Option Nat) :=
  match windowSizes.dedup with
  | [] => .ok none
  | [window] => .ok (some window)
  | _ => .error (.ValueError
      "All attention layers in the same KV cache group must have the same window size.")

variable [DecidableEq D]

/-- `FullAttentionSpec.merge`; `SinkFullAttentionSpec.merge` builds its own class. -/
def mergeFullAttention (build : FullAttentionSpec D → KVCacheSpec D) (first : FullAttentionSpec D)
    (specs : List (KVCacheSpec D)) : Except ConfigError (KVCacheSpec D) := do
  assert (specs.all fun spec => spec.asFullAttention.isSome)
    "All attention layers in the same KV cache group must be FullAttentionSpec."
  assert (specs.all fun spec => spec.asMlaAttention.isNone)
    "MLAAttentionSpec should be merged in MLAAttentionSpec.merge"
  let fulls := specs.filterMap KVCacheSpec.asFullAttention
  let slidingWindow ← mergeWindowSizes (fulls.filterMap FullAttentionSpec.slidingWindow)
  let attentionChunkSize ← mergeWindowSizes (fulls.filterMap FullAttentionSpec.attentionChunkSize)
  assert (fulls.all fun spec => decide (spec.toAttentionSpec = first.toAttentionSpec))
    "All attention layers in the same KV cache group must have the same attention spec."
  assert (slidingWindow.isNone || attentionChunkSize.isNone)
    "Model with both sliding window layers and chunked local attention layers is not supported."
  return build { first with slidingWindow, attentionChunkSize }

/-- `MLAAttentionSpec.merge` -/
def mergeMlaAttention (first : FullAttentionSpec D) (specs : List (KVCacheSpec D)) :
    Except ConfigError (KVCacheSpec D) := do
  assert (specs.all fun spec => spec.asMlaAttention.isSome)
    "All attention layers in the same KV cache group must be MLAAttentionSpec."
  match (specs.filterMap KVCacheSpec.asMlaAttention).dedup with
  | [cacheDtypeStr] => return .mlaAttention { toAttentionSpec := first.toAttentionSpec } cacheDtypeStr
  | _ => .error (.AssertionError
      "All attention layers in the same KV cache group must use the same quantization method.")

/-- `specs[0].merge(specs)` -/
def mergeSpecs : List (KVCacheSpec D) → Except ConfigError (KVCacheSpec D)
  | [] => .error (.IndexError "list index out of range")
  | first :: specs =>
    match first with
    | .fullAttention spec => mergeFullAttention .fullAttention spec (first :: specs)
    | .sinkFullAttention spec sinkLen =>
      mergeFullAttention (.sinkFullAttention · sinkLen) spec (first :: specs)
    | .mlaAttention spec _ => mergeMlaAttention spec (first :: specs)
    | _ => do
        assert (specs.all fun spec => decide (spec = first))
          "All layers in the same KV cache group must be the same."
        return first

end MyOperator.KvConfig
