import MyOperator.Sched.Request

/-!
# Block hashes of a request

`get_request_block_hasher` and what it calls. The hash of a block is the caching
hash function applied to the parent hash, the tokens of the block and its extra
keys: the LoRA name, the multimodal items in the block, the cache salt and a digest
of the block's prompt embeddings, concatenated into one flat tuple.
-/

namespace MyOperator.Sched

open Lib
open KvCache (BlockHash assert)

/-- An element of the `extra_keys` tuple: a string (LoRA name or cache salt), a pair
`(mm_hash, start_offset)`, or the bytes of a digest. -/
inductive ExtraKey
  | str (s : String)
  | item (mmHash : String) (startOffset : Int)
  | bytes (digest : List UInt8)
  deriving DecidableEq, Repr

/-- The argument of the hash function. -/
abbrev HashInput := BlockHash × List TokenId × Option (List ExtraKey)

/-- What `get_request_block_hasher` closes over: `block_size`, `caching_hash_fn`, `NONE_HASH`,
and `hashlib.sha256(tensor_data(rows)).digest()`. -/
structure BlockHasher where
  blockSize : Nat
  cachingHashFn : HashInput → BlockHash
  noneHash : BlockHash
  embedsDigest : List EmbedRow → List UInt8

/-- The extra key of an item in a block that starts at `startTokenIdx`. -/
def MultiModalFeatureSpec.extraKey (startTokenIdx : Nat) (f : MultiModalFeatureSpec) : ExtraKey :=
  .item f.identifier ((f.mmPosition.offset : Int) - startTokenIdx)

/-- The loop of `_gen_mm_extra_hash_keys` from `curr_mm_idx` on, over the items that are left. -/
def mmLoop (startTokenIdx endTokenIdx : Nat) :
    List MultiModalFeatureSpec → Nat → List ExtraKey × Nat
  | [], currMmIdx => ([], currMmIdx)
  | f :: rest, currMmIdx =>
    if endTokenIdx > f.mmPosition.offset then
      if startTokenIdx ≥ f.stop then mmLoop startTokenIdx endTokenIdx rest (currMmIdx + 1)
      else if endTokenIdx ≥ f.stop then
        let (extraKeys, idx) := mmLoop startTokenIdx endTokenIdx rest (currMmIdx + 1)
        (f.extraKey startTokenIdx :: extraKeys, idx)
      else ([f.extraKey startTokenIdx], currMmIdx)
    else ([], currMmIdx)

/-- "Support start_mm_idx == -1 to indicate the last mm input." -/
def resolveMmIdx (numFeatures : Nat) (startMmIdx : Int) : Except PyError Int :=
  if startMmIdx < 0 then do
    assert (-startMmIdx ≤ numFeatures) ""
    .ok (numFeatures + startMmIdx)
  else .ok startMmIdx

def genMmExtraHashKeys (request : Request) (startTokenIdx endTokenIdx : Nat) (startMmIdx : Int) :
    Except PyError (List ExtraKey × Int) :=
  match request.mmFeatures.getLast? with
  | none => .ok ([], startMmIdx)
  | some last =>
    if last.stop ≤ startTokenIdx then .ok ([], startMmIdx)
    else do
      let startMmIdx ← resolveMmIdx request.mmFeatures.length startMmIdx
      let (extraKeys, currMmIdx) := mmLoop startTokenIdx endTokenIdx
        (request.mmFeatures.drop startMmIdx.toNat) startMmIdx.toNat
      .ok (extraKeys, currMmIdx)

def genLoraExtraHashKeys (request : Request) : List ExtraKey :=
  match request.loraRequest with
  | none => []
  | some lora => [.str lora.loraName]

/-- `cache_salt_keys`: an empty salt counts as none. -/
def cacheSaltKeys (request : Request) (startTokenIdx : Nat) : List ExtraKey :=
  match request.cacheSalt with
  | none => []
  | some salt => if startTokenIdx = 0 ∧ salt ≠ "" then [.str salt] else []

/-- `_gen_prompt_embeds_extra_hash_keys`, and the request with the digest remembered. -/
def genPromptEmbedsExtraHashKeys (H : BlockHasher) (request : Request)
    (startTokenIdx endTokenIdx : Nat) : List ExtraKey × Request :=
  match request.promptEmbeds with
  | none => ([], request)
  | some rows =>
    match request.promptEmbedsPerBlockHashes.get? (startTokenIdx, endTokenIdx) with
    | some embedsHash => ([.bytes embedsHash], request)
    | none =>
      let embedsHash := H.embedsDigest ((rows.take endTokenIdx).drop startTokenIdx)
      ([.bytes embedsHash], { request with
        promptEmbedsPerBlockHashes :=
          request.promptEmbedsPerBlockHashes.set (startTokenIdx, endTokenIdx) embedsHash })

/-- `tuple(extra_keys)`, or `None` when there are none. -/
def extraKeysTuple (extraKeys : List ExtraKey) : Option (List ExtraKey) :=
  if extraKeys = [] then none else some extraKeys

def generateBlockHashExtraKeys (H : BlockHasher) (request : Request)
    (startTokenIdx endTokenIdx : Nat) (startMmIdx : Int) :
    Except PyError (Option (List ExtraKey) × Int × Request) := do
  let (mmExtraKeys, newStartMmIdx) ← genMmExtraHashKeys request startTokenIdx endTokenIdx startMmIdx
  let (promptEmbedsKeys, request') :=
    genPromptEmbedsExtraHashKeys H request startTokenIdx endTokenIdx
  .ok (extraKeysTuple (genLoraExtraHashKeys request ++ mmExtraKeys ++
    cacheSaltKeys request startTokenIdx ++ promptEmbedsKeys), newStartMmIdx, request')

/-- `hash_block_tokens`. A missing or empty parent hash is replaced by `NONE_HASH`. -/
def hashBlockTokens (H : BlockHasher) (parentBlockHash : Option BlockHash)
    (currBlockTokenIds : List TokenId) (extraKeys : Option (List ExtraKey)) : BlockHash :=
  let parent := match parentBlockHash with
    | none => H.noneHash
    | some hash => if hash = [] then H.noneHash else hash
  H.cachingHashFn (parent, currBlockTokenIds, extraKeys)

/-- The loop of `request_block_hasher`, for at most `fuel` blocks. -/
def hashLoop (H : BlockHasher) : Nat → Request → Nat → Int → Option BlockHash →
    Except PyError (List BlockHash × Request)
  | 0, request, _, _, _ => .ok ([], request)
  | fuel + 1, request, startTokenIdx, currMmIdx, prevBlockHashValue =>
    let endTokenIdx := startTokenIdx + H.blockSize
    if endTokenIdx > request.numTokens then .ok ([], request)
    else do
      let (extraKeys, currMmIdx, request) ←
        generateBlockHashExtraKeys H request startTokenIdx endTokenIdx currMmIdx
      let blockTokens := (request.allTokenIds.take endTokenIdx).drop startTokenIdx
      let blockHash := hashBlockTokens H prevBlockHashValue blockTokens extraKeys
      let (newBlockHashes, request) ← hashLoop H fuel request endTokenIdx currMmIdx (some blockHash)
      .ok (blockHash :: newBlockHashes, request)

/-- `request_block_hasher`. A request has at most `num_tokens` blocks. -/
def requestBlockHasher (H : BlockHasher) (request : Request) :
    Except PyError (List BlockHash × Request) :=
  let startTokenIdx := request.blockHashes.length * H.blockSize
  if startTokenIdx + H.blockSize > request.numTokens then .ok ([], request)
  else
    let currMmIdx : Int := if startTokenIdx > 0 then -1 else 0
    hashLoop H request.numTokens request startTokenIdx currMmIdx request.blockHashes.getLast?

namespace Request

/-- `update_block_hashes`, where `H` is `self._block_hasher`. -/
def updateBlockHashes (H : Option BlockHasher) (r : Request) : Except PyError Request :=
  match H with
  | none => .ok r
  | some H => do
      let (newBlockHashes, r) ← requestBlockHasher H r
      .ok { r with blockHashes := r.blockHashes ++ newBlockHashes }

def appendOutputTokenIds (H : Option BlockHasher) (r : Request) (tokenIds : List TokenId) :
    Except PyError Request := updateBlockHashes H { r with
    outputTokenIds := r.outputTokenIds ++ tokenIds
    allTokenIds := r.allTokenIds ++ tokenIds }

/-- `self.max_tokens` and `self.status` as `__init__` sets them. -/
def initParams (args : Request) : Except PyError (Nat × RequestStatus) :=
  match args.poolingParams, args.samplingParams with
  | some _, _ => .ok (1, .waiting)
  | none, some params => .ok (params.maxTokens,
      if args.useStructuredOutput then .waitingForStructuredOutputGrammar else .waiting)
  | none, none => .error (.ValueError "sampling_params and pooling_params can't both be unset")

/-- `__init__`. The attributes that are copied from the arguments are those of `args`. -/
def init (H : Option BlockHasher) (args : Request) : Except PyError Request := do
  let (maxTokens, status) ← initParams args
  let numPromptTokens ← lengthFromPrompt args.promptTokenIds args.promptEmbeds
  updateBlockHashes H {
    requestId := args.requestId
    priority := args.priority
    arrivalTime := args.arrivalTime
    samplingParams := args.samplingParams
    poolingParams := args.poolingParams
    loraRequest := args.loraRequest
    useStructuredOutput := args.useStructuredOutput
    status
    maxTokens
    promptTokenIds := args.promptTokenIds
    promptEmbeds := args.promptEmbeds
    numPromptTokens
    allTokenIds := args.promptTokenIds.getD (List.replicate numPromptTokens 0)
    cacheSalt := args.cacheSalt
    mmFeatures := args.mmFeatures
    skipReadingPrefixCache := getSkipReadingPrefixCache args.samplingParams args.poolingParams
    resumable := args.resumable }

end Request

end MyOperator.Sched
