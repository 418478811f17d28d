import MyOperator.Sched.BlockHasher
import MyOperator.Sched.EncoderCache
import MyOperator.Sched.Queue

/-!
# The scheduler

State and configuration of `Scheduler` and `AsyncScheduler`, and the operations that
move one request: enqueue, preempt, free, finish. What is not the scheduler's own, the
KV cache manager, the connectors and the grammars, is a `World` that answers its calls
and has a state of its own.

Logging, statistics, cache events and the payloads that only the workers read are left out.
-/

namespace MyOperator.Sched

open Lib
open KvCache (assert)

/-- The arguments of `allocate_slots`. -/
structure AllocateArgs (Blocks : Type) where
  numNewTokens : Int
  numNewComputedTokens : Nat := 0
  newComputedBlocks : Option Blocks := none
  numLookaheadTokens : Nat := 0
  numExternalComputedTokens : Nat := 0
  delayCacheBlocks : Bool := false
  numEncoderTokens : Nat := 0

/-- What the scheduler calls: `kv_cache_manager`, `connector`, `ec_connector` and the structured
output manager, with their state. -/
structure World where
  State : Type
  Blocks : Type
  newStepStarts : State → State
  getComputedBlocks : Request → State → (Blocks × Nat) × State
  emptyKvCacheBlocks : Blocks
  canFitFullSequence : Request → Nat → Blocks → Nat → Nat → State → Bool
  /-- `allocate_slots(..) is not None`. -/
  allocateSlots : Request → AllocateArgs Blocks → State → Except PyError (Bool × State)
  freeKv : Request → State → State
  cacheBlocks : Request → Int → State → State
  evictBlocks : List Nat → State → State
  getBlockIds : Nat → State → List Nat
  resetPrefixCache : State → Bool × State
  /-- `take_new_block_ids`, `build_connector_meta` and `take_events`. -/
  endStep : State → State
  getNumNewMatchedTokens : Request → Nat → State → (Option Nat × Bool) × State
  updateStateAfterAlloc : Request → Nat → State → State
  requestFinished : Request → State → Bool × State
  updateConnectorOutput : State → State
  resetCache : State → Bool × State
  hasCacheItem : State → String → Bool
  ecUpdateStateAfterAlloc : Request → Nat → State → State
  /-- `structured_output_req and structured_output_req.grammar`. -/
  hasGrammar : Request → State → Bool
  acceptTokens : Request → List TokenId → State → State
  validateTokens : Request → List TokenId → State → List TokenId

/-- What is fixed when the scheduler is constructed. -/
structure Config extends EncoderConfig where
  policy : SchedulingPolicy := .fcfs
  /-- The class is `AsyncScheduler`. -/
  asyncScheduler : Bool := false
  maxNumRunningReqs : Nat
  maxNumScheduledTokens : Int
  maxNumEncoderInputTokens : Int := 0
  maxModelLen : Nat
  longPrefillTokenThreshold : Int := 0
  enableChunkedPrefill : Bool := true
  useEagle : Bool := false
  numSpecTokens : Nat := 0
  numLookaheadTokens : Nat := 0
  needMambaBlockAlignedSplit : Bool := false
  cacheBlockSize : Nat := 16
  schedulerReserveFullIsl : Bool := false
  maxLoras : Option Nat := none
  hasConnector : Bool := false
  recomputeKvLoadFailures : Bool := true
  useV2ModelRunner : Bool := false
  blockSize : Nat := 16
  blockHasher : Option BlockHasher := none
  /-- The order of `id(..)` of two objects. -/
  idLt : Ref → Ref → Bool := fun a b => decide (a < b)
  setOrder : SetOrder := ⟨id, List.Perm.refl⟩

inductive PauseState
  | unpaused
  | pausedNew
  | pausedAll
  deriving DecidableEq, Repr

/-- The attributes of the scheduler. `objs` is the heap of `Request` objects, of which the first
`numObjs` exist. -/
structure Scheduler (X : World) where
  objs : Ref → Request
  numObjs : Nat := 0
  requests : Dict Nat Ref := .empty
  waiting : RequestQueue := []
  skippedWaiting : RequestQueue := []
  running : List Ref := []
  prevStepScheduledReqIds : Finset Nat := ∅
  finishedReqIds : Finset Nat := ∅
  numWaitingForStreamingInput : Int := 0
  finishedRecvingKvReqIds : Finset Nat := ∅
  failedRecvingKvReqIds : Finset Nat := ∅
  encoderCacheManager : EncoderManager
  pauseState : PauseState := .unpaused
  world : X.State

namespace Scheduler

variable (cfg : Config) {X : World} (s : Scheduler X)

/-- Change the attributes of one request. -/
def modify (ref : Ref) (f : Request → Request) : Scheduler X :=
  { s with objs := Function.update s.objs ref (f (s.objs ref)) }

/-- `<` on requests. -/
def lt (a b : Ref) : Bool := (s.objs a).lt (s.objs b) (cfg.idLt a b)

/-- `self.requests[req_id]`. -/
def lookup (reqId : Nat) : Except PyError Ref :=
  match s.requests.get? reqId with
  | some ref => .ok ref
  | none => .error (.KeyError s!"{reqId}")

def enqueueWaitingRequest (ref : Ref) : Scheduler X :=
  if (s.objs ref).status.isBlockedWaiting then
    { s with skippedWaiting := s.skippedWaiting.addRequest cfg.policy (s.lt cfg) ref }
  else { s with waiting := s.waiting.addRequest cfg.policy (s.lt cfg) ref }

/-- The attributes of a preempted request. -/
def preempted (r : Request) : Request := { r with
  status := .preempted
  numComputedTokens := 0
  specTokenIds := []
  numPreemptions := r.numPreemptions + 1 }

def preemptRequest (ref : Ref) : Except PyError (Scheduler X) := do
  assert ((s.objs ref).status = .running) "Only running requests can be preempted"
  let encoderCacheManager ← s.encoderCacheManager.free cfg.setOrder (s.objs ref)
  let s := { s with world := X.freeKv (s.objs ref) s.world, encoderCacheManager }
  let s := s.modify ref preempted
  .ok { s with waiting := s.waiting.prependRequest cfg.policy (s.lt cfg) ref }

def freeBlocks (ref : Ref) : Except PyError (Scheduler X) := do
  assert (s.objs ref).isFinished ""
  let _ ← s.lookup (s.objs ref).requestId
  .ok { s with
    world := X.freeKv (s.objs ref) s.world
    requests := s.requests.erase (s.objs ref).requestId }

def connectorFinished (ref : Ref) : Bool × Scheduler X :=
  if cfg.hasConnector then
    let (delayFreeBlocks, world) := X.requestFinished (s.objs ref) s.world
    (delayFreeBlocks, { s with world })
  else (false, s)

def freeRequest (ref : Ref) (delayFreeBlocks : Bool) : Except PyError (Scheduler X) := do
  assert (s.objs ref).isFinished ""
  let (connectorDelayFreeBlocks, s) := s.connectorFinished cfg ref
  let encoderCacheManager ← s.encoderCacheManager.free cfg.setOrder (s.objs ref)
  let s := { s with
    encoderCacheManager
    finishedReqIds := insert (s.objs ref).requestId s.finishedReqIds }
  if delayFreeBlocks || connectorDelayFreeBlocks then .ok s else s.freeBlocks ref

/-- `self.requests.get(req_id)`, when it is there and unfinished. -/
def unfinished? (reqId : Nat) : Option Ref :=
  (s.requests.get? reqId).filter fun ref => !(s.objs ref).isFinished

/-- The first pass of `finish_requests`: take the requests out of the queues. -/
def dequeue (valid : List Ref) : Scheduler X :=
  let isRunning := fun ref => decide ((s.objs ref).status = .running)
  let waiting := valid.filter (!isRunning ·)
  { s with
    running := removeAll s.running (valid.filter (isRunning ·))
    waiting := if waiting = [] then s.waiting
      else s.waiting.removeRequests cfg.policy (s.lt cfg) waiting
    skippedWaiting := if waiting = [] then s.skippedWaiting
      else s.skippedWaiting.removeRequests cfg.policy (s.lt cfg) waiting
    numWaitingForStreamingInput := s.numWaitingForStreamingInput -
      (waiting.filter fun ref => (s.objs ref).status = .waitingForStreamingReq).length }

/-- The second pass of `finish_requests` for one request. -/
def finishOne (finishedStatus : RequestStatus) (ref : Ref) : Except PyError (Scheduler X) :=
  let reqId := (s.objs ref).requestId
  if (s.objs ref).status = .waitingForRemoteKvs then
    let delayFreeBlocks := decide (reqId ∉ s.finishedRecvingKvReqIds)
    let s := { s with
      finishedRecvingKvReqIds := s.finishedRecvingKvReqIds.erase reqId
      failedRecvingKvReqIds := s.failedRecvingKvReqIds.erase reqId }
    (s.modify ref fun r => { r with status := finishedStatus }).freeRequest cfg ref delayFreeBlocks
  else (s.modify ref fun r => { r with status := finishedStatus }).freeRequest cfg ref false

/-- `finish_requests`; `none` stands for all requests. A set of ids is given in the order in
which Python iterates over it. -/
def finishRequests (requestIds : Option (List Nat)) (finishedStatus : RequestStatus) :
    Except PyError (Scheduler X) := do
  assert finishedStatus.isFinished ""
  let requestIds := match requestIds with
    | some ids => ids.dedup
    | none => s.requests.entries.map Prod.fst
  let valid := requestIds.filterMap s.unfinished?
  valid.foldlM (fun s ref => s.finishOne cfg finishedStatus ref) (s.dequeue cfg valid)

end Scheduler

/-! ## Sessions -/

/-- `l[:i]`. -/
def pyTake {α : Type} (l : List α) (i : Int) : List α :=
  if 0 ≤ i then l.take i.toNat else l.take (l.length + i).toNat

/-- `StreamingUpdate.from_request`: `None` ends the session. -/
def StreamingUpdate.fromRequest (request : Request) : Option StreamingUpdate :=
  if request.resumable then some {
    mmFeatures := request.mmFeatures
    promptTokenIds := request.promptTokenIds
    maxTokens := request.maxTokens
    arrivalTime := request.arrivalTime
    samplingParams := request.samplingParams }
  else none

/-- The item of an update, placed behind the `base` tokens of the session. -/
def MultiModalFeatureSpec.shift (base : Nat) (f : MultiModalFeatureSpec) :
    MultiModalFeatureSpec :=
  { f with mmPosition := { f.mmPosition with offset := f.mmPosition.offset + base } }

namespace Request

/-- The part of `_update_request_as_session` that changes the request. -/
def updateAsSession (H : Option BlockHasher) (session : Request) (update : StreamingUpdate) :
    Except PyError Request :=
  let keptOutputTokens := (pyTake session.allTokenIds session.numComputedTokens).drop
    session.numPromptTokens
  let kept := pyTake session.allTokenIds session.numComputedTokens
  match session.promptTokenIds with
  | none => .error (.AssertionError "")
  | some promptTokenIds => do
      let newTokens := update.promptTokenIds.getD []
      let promptTokenIds := promptTokenIds ++ keptOutputTokens ++ newTokens
      let session ← updateBlockHashes H { session with
        allTokenIds := kept ++ newTokens
        outputTokenIds := []
        promptTokenIds := some promptTokenIds
        mmFeatures := session.mmFeatures ++ update.mmFeatures.map (·.shift kept.length) }
      .ok { session with
        numPromptTokens := promptTokenIds.length
        arrivalTime := update.arrivalTime
        samplingParams := update.samplingParams
        status := .waiting }

end Request

namespace Scheduler

variable (cfg : Config) {X : World} (s : Scheduler X)

def updateRequestAsSession (ref : Ref) (update : StreamingUpdate) :
    Except PyError (Scheduler X) := do
  let session ← (s.objs ref).updateAsSession cfg.blockHasher update
  .ok { s.modify ref (fun _ => session) with
    numWaitingForStreamingInput :=
      if (s.objs ref).status = .waitingForStreamingReq then s.numWaitingForStreamingInput - 1
      else s.numWaitingForStreamingInput }

def handleStoppedRequest (ref : Ref) : Except PyError (Bool × Scheduler X) :=
  if (s.objs ref).resumable = false then .ok (true, s)
  else
    match (s.objs ref).streamingQueue with
    | some (none :: rest) =>
      .ok (true, s.modify ref fun r => { r with streamingQueue := some rest })
    | some (some update :: rest) => do
        let s ← (s.modify ref fun r => { r with streamingQueue := some rest }).updateRequestAsSession
          cfg ref update
        .ok (false, s.enqueueWaitingRequest cfg ref)
    | _ =>
      let s := s.modify ref fun r => { r with status := .waitingForStreamingReq }
      let s := { s with numWaitingForStreamingInput := s.numWaitingForStreamingInput + 1 }
      .ok (false, s.enqueueWaitingRequest cfg ref)

/-- A new `Request` object. -/
def alloc (request : Request) : Scheduler X :=
  { s with objs := Function.update s.objs s.numObjs request, numObjs := s.numObjs + 1 }

def addRequest (request : Request) : Except PyError (Scheduler X) :=
  match s.requests.get? request.requestId with
  | some existing =>
    let update := StreamingUpdate.fromRequest request
    if (s.objs existing).status ≠ .waitingForStreamingReq then
      match (s.objs existing).streamingQueue with
      | none => .error (.AssertionError "duplicate request id")
      | some queue =>
        .ok (s.modify existing fun r => { r with streamingQueue := some (queue ++ [update]) })
    else
      match update with
      | some update => s.updateRequestAsSession cfg existing update
      | none => s.finishRequests cfg (some [request.requestId]) .finishedAborted
  | none =>
    let ref := s.numObjs
    let request := if request.resumable then { request with streamingQueue := some [] } else request
    let s := (s.alloc request).enqueueWaitingRequest cfg ref
    .ok { s with requests := s.requests.set request.requestId ref }

/-- What `reset_prefix_cache` does to a running request. -/
def forcePreempt (ref : Ref) : Except PyError (Scheduler X) := do
  let s ← s.preemptRequest cfg ref
  .ok (s.modify ref fun r => { r with
    numOutputPlaceholders := 0
    discardLatestAsyncTokens := true })

/-- `while self.running: request = self.running.pop()`, over the requests from the last on. -/
def forcePreemptAll : List Ref → Scheduler X → Except PyError (Scheduler X)
  | [], s => .ok s
  | ref :: refs, s => do
      let s ← { s with running := s.running.dropLast }.forcePreempt cfg ref
      forcePreemptAll refs s

def resetPrefixCache (resetRunningRequests resetConnector : Bool) :
    Except PyError (Bool × Scheduler X) := do
  let s ← (if resetRunningRequests then do
      let s ← forcePreemptAll cfg s.running.reverse s
      .ok { s with prevStepScheduledReqIds := ∅ }
    else .ok s : Except PyError (Scheduler X))
  let (resetSuccessful, world) := X.resetPrefixCache s.world
  let s := { s with world }
  if resetRunningRequests && !resetSuccessful then
    .error (.RuntimeError "Failed to reset KV cache even when all the running requests are preempted and moved to the waiting queue. This is likely due to the presence of running requests waiting for remote KV transfer, which is not supported yet.")
  else if resetConnector && cfg.hasConnector then
    let (connectorReset, world) := X.resetCache s.world
    .ok (connectorReset && resetSuccessful, { s with world })
  else .ok (!resetConnector && resetSuccessful, s)

/-- `update_draft_token_ids` for one request. -/
def updateDraft (reqId : Nat) (specTokenIds : List TokenId) : Scheduler X :=
  match s.unfinished? reqId with
  | none => s
  | some ref =>
    if (s.objs ref).isPrefillChunk then s.modify ref fun r => { r with specTokenIds := [] }
    else s.modify ref fun r => { r with
      specTokenIds := X.validateTokens r specTokenIds s.world }

/-- `update_draft_token_ids`, for the pairs of ids and drafts. -/
def updateDraftTokenIds (drafts : List (Nat × List TokenId)) : Scheduler X :=
  drafts.foldl (fun s d => s.updateDraft d.1 d.2) s

def setPauseState (pauseState : PauseState) : Scheduler X := { s with pauseState }

def resetEncoderCache : Scheduler X := { s with encoderCacheManager := s.encoderCacheManager.reset }

end Scheduler

end MyOperator.Sched
