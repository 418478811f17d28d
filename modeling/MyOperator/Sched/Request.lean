import MyOperator.KvCache.Block
import MyOperator.Lib.Dict

/-!
# Requests

`Request` with the attributes that the scheduler, the block hasher and the stop
checks read. A request id is a number, a token id an integer (a placeholder for a
draft token is -1). The tensor of prompt embeddings is the list of its rows, one
per prompt position. The client, trace and statistics fields are read by nothing
modelled here and left out.
-/

namespace MyOperator.Sched

open Lib
open KvCache (BlockHash assert)

abbrev TokenId := Int

/-- The bytes of one row of a prompt embedding tensor. -/
abbrev EmbedRow := List UInt8

/-- `RequestStatus`, in the order of the source: what comes after `preempted` is finished. -/
inductive RequestStatus
  | waiting
  | waitingForStructuredOutputGrammar
  | waitingForRemoteKvs
  | waitingForStreamingReq
  | running
  | preempted
  | finishedStopped
  | finishedLengthCapped
  | finishedAborted
  | finishedIgnored
  | finishedError
  | finishedRepetition
  deriving DecidableEq, Repr

/-- `RequestStatus.is_finished`: `status > RequestStatus.PREEMPTED`. -/
def RequestStatus.isFinished : RequestStatus → Bool
  | .waiting | .waitingForStructuredOutputGrammar | .waitingForRemoteKvs
  | .waitingForStreamingReq | .running | .preempted => false
  | _ => true

/-- `_is_blocked_waiting_status`. -/
def RequestStatus.isBlockedWaiting : RequestStatus → Bool
  | .waitingForStructuredOutputGrammar | .waitingForRemoteKvs | .waitingForStreamingReq => true
  | _ => false

structure PlaceholderRange where
  offset : Nat
  length : Nat
  isEmbed : Option (List Bool) := none
  deriving DecidableEq, Repr

namespace PlaceholderRange

def getNumEmbeds (r : PlaceholderRange) : Nat :=
  match r.isEmbed with
  | none => r.length
  | some mask => mask.count true

/-- `embeds_cumsum[i]` for a mask; the index -1 reads the last entry. -/
def embedsCumsum (mask : List Bool) (i : Int) : Except PyError Nat :=
  if 0 ≤ i ∧ i < mask.length then .ok ((mask.take (i.toNat + 1)).count true)
  else if i < 0 ∧ -mask.length ≤ i then .ok ((mask.take (mask.length + i + 1).toNat).count true)
  else .error (.IndexError "index out of range")

def getEmbedsIndicesInRange (r : PlaceholderRange) (startIdx endIdx : Int) :
    Except PyError (Int × Int) :=
  match r.isEmbed with
  | none => .ok (startIdx, endIdx)
  | some mask => do
      let embedsStartIdx ← if startIdx > 0 then embedsCumsum mask (startIdx - 1) else .ok 0
      let embedsEndIdx ← embedsCumsum mask (endIdx - 1)
      .ok (embedsStartIdx, embedsEndIdx)

end PlaceholderRange

/-- `MultiModalFeatureSpec`: one multimodal item of a request. -/
structure MultiModalFeatureSpec where
  identifier : String
  mmPosition : PlaceholderRange
  deriving DecidableEq, Repr

/-- The first position after the item. -/
def MultiModalFeatureSpec.stop (f : MultiModalFeatureSpec) : Nat :=
  f.mmPosition.offset + f.mmPosition.length

structure LoRARequest where
  loraName : String
  loraIntId : Nat
  deriving DecidableEq, Repr

structure RepetitionDetectionParams where
  maxPatternSize : Int
  minPatternSize : Int
  minCount : Int
  deriving DecidableEq, Repr

structure SamplingParams where
  maxTokens : Nat
  minTokens : Nat := 0
  eosTokenId : Option TokenId := none
  stopTokenIds : List TokenId := []
  repetitionDetection : Option RepetitionDetectionParams := none
  skipReadingPrefixCache : Option Bool := none
  deriving DecidableEq, Repr

structure PoolingParams where
  skipReadingPrefixCache : Option Bool := none
  deriving DecidableEq, Repr

structure StreamingUpdate where
  mmFeatures : List MultiModalFeatureSpec
  promptTokenIds : Option (List TokenId)
  maxTokens : Nat
  arrivalTime : Int
  samplingParams : Option SamplingParams
  deriving DecidableEq, Repr

/-- `Request`. `streamingQueue` holds `none` for the sentinel that ends a session. -/
structure Request where
  requestId : Nat
  priority : Int := 0
  arrivalTime : Int := 0
  samplingParams : Option SamplingParams := none
  poolingParams : Option PoolingParams := none
  loraRequest : Option LoRARequest := none
  useStructuredOutput : Bool := false
  status : RequestStatus := .waiting
  maxTokens : Nat := 1
  promptTokenIds : Option (List TokenId) := none
  promptEmbeds : Option (List EmbedRow) := none
  promptEmbedsPerBlockHashes : Dict (Nat × Nat) (List UInt8) := .empty
  numPromptTokens : Nat := 0
  outputTokenIds : List TokenId := []
  allTokenIds : List TokenId := []
  numOutputPlaceholders : Int := 0
  discardLatestAsyncTokens : Bool := false
  specTokenIds : List TokenId := []
  numComputedTokens : Int := 0
  cacheSalt : Option String := none
  mmFeatures : List MultiModalFeatureSpec := []
  isPrefillChunk : Bool := false
  numPreemptions : Nat := 0
  numExternalComputedTokens : Int := 0
  blockHashes : List BlockHash := []
  skipReadingPrefixCache : Bool := false
  resumable : Bool := false
  streamingQueue : Option (List (Option StreamingUpdate)) := none
  deriving DecidableEq

namespace Request

variable (r : Request)

def numTokens : Nat := r.allTokenIds.length

def numTokensWithSpec : Nat := r.allTokenIds.length + r.specTokenIds.length

def numOutputTokens : Nat := r.outputTokenIds.length

def hasEncoderInputs : Bool := r.mmFeatures.length > 0

def isFinished : Bool := r.status.isFinished

def getNumEncoderEmbeds (inputId : Nat) : Except PyError Nat :=
  match r.mmFeatures[inputId]? with
  | some f => .ok f.mmPosition.getNumEmbeds
  | none => .error (.AssertionError "")

def getSkipReadingPrefixCache (samplingParams : Option SamplingParams)
    (poolingParams : Option PoolingParams) : Bool :=
  match samplingParams.bind (·.skipReadingPrefixCache) with
  | some b => b
  | none => ((poolingParams.bind (·.skipReadingPrefixCache)).getD false)

/-- `length_from_prompt_token_ids_or_embeds`. -/
def lengthFromPrompt (promptTokenIds : Option (List TokenId))
    (promptEmbeds : Option (List EmbedRow)) : Except PyError Nat :=
  match promptTokenIds, promptEmbeds with
  | none, none => .error (.ValueError "Neither prompt_token_ids nor prompt_embeds were defined.")
  | some ids, none => .ok ids.length
  | none, some rows => .ok rows.length
  | some ids, some rows =>
    if ids.length = rows.length then .ok ids.length
    else .error (.ValueError
      s!"Prompt token ids and prompt embeds had different lengths prompt_token_ids={ids.length} and prompt_embeds={rows.length}")

end Request

end MyOperator.Sched
