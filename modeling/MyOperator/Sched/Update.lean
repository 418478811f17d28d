import MyOperator.Sched.Schedule

/-!
# `update_from_output`

What the scheduler does with the output of a step: rejected drafts are taken back, the
sampled tokens are appended until one stops the request, stopped requests are freed or
parked as sessions. Before that come the KV blocks that a connector failed to load.
-/

namespace MyOperator.Sched

open Lib
open KvCache (assert)

/-! ## Stop checks -/

/-- `_has_repeating_pattern`: the last token of each repetition is compared with the tail. -/
def hasRepeatingPattern (tokenIds : List TokenId) (patternLen repetitionMinCount : Nat) : Bool :=
  let rev := tokenIds.reverse
  (List.range patternLen).all fun n =>
    (List.range (repetitionMinCount - 1)).all fun m =>
      decide (rev[patternLen * (m + 1) + n]? = rev[n]?)

def checkSequenceRepetition (tokenIds : List TokenId) (params : RepetitionDetectionParams) : Bool :=
  let minPatternSize := if params.minPatternSize ≤ 0 then 1 else params.minPatternSize
  if params.maxPatternSize ≤ 0 ∨ params.minCount < 2 ∨ minPatternSize > params.maxPatternSize then
    false
  else
    -- the lengths are tried in order until one is too long for the sequence
    ((List.range (params.maxPatternSize - minPatternSize + 1).toNat).map
        (minPatternSize.toNat + ·)).takeWhile
        (fun (len : Nat) => decide ((len : Int) * params.minCount ≤ tokenIds.length)) |>.any
      fun patternLen => hasRepeatingPattern tokenIds patternLen params.minCount.toNat

namespace Request

def checkStop (r : Request) (maxModelLen : Nat) : Except PyError (Bool × Request) := do
  assert r.poolingParams.isNone ""
  match r.samplingParams with
  | none => .error (.AssertionError "")
  | some params =>
    if r.numOutputTokens < params.minTokens then .ok (false, r)
    else
      match r.outputTokenIds.getLast? with
      | none => .error (.IndexError "list index out of range")
      | some lastTokenId =>
        if some lastTokenId = params.eosTokenId then
          .ok (true, { r with status := .finishedStopped })
        else if lastTokenId ∈ params.stopTokenIds then
          .ok (true, { r with status := .finishedStopped })
        else if r.numTokens ≥ maxModelLen ∨ r.numOutputTokens ≥ r.maxTokens then
          .ok (true, { r with status := .finishedLengthCapped })
        else if (params.repetitionDetection.map
            (checkSequenceRepetition r.outputTokenIds)).getD false then
          .ok (true, { r with status := .finishedRepetition })
        else .ok (false, r)

/-- The loop of `_update_request_with_output`: the tokens up to the one that stops the request,
and whether one does. -/
def appendUntilStop (H : Option BlockHasher) (maxModelLen : Nat) :
    List TokenId → Request → Except PyError ((List TokenId × Bool) × Request)
  | [], r => .ok (([], false), r)
  | tokenId :: tokenIds, r => do
      let r ← r.appendOutputTokenIds H [tokenId]
      let (stopped, r) ← r.checkStop maxModelLen
      if stopped then .ok (([tokenId], true), r)
      else do
        let ((rest, stopped), r) ← appendUntilStop H maxModelLen tokenIds r
        .ok ((tokenId :: rest, stopped), r)

end Request

/-! ## The output of a step -/

/-- `KVConnectorOutput`. A set is given in the order in which Python iterates over it. -/
structure KVConnectorOutput where
  finishedSending : List Nat := []
  finishedRecving : List Nat := []
  invalidBlockIds : Finset Nat := ∅

/-- `ModelRunnerOutput`. Of the pooler output only matters where it is not `None`. -/
structure ModelRunnerOutput where
  reqIdToIndex : Dict Nat Nat
  sampledTokenIds : List (List TokenId) := []
  poolerOutput : List Bool := []
  kvConnectorOutput : Option KVConnectorOutput := none

inductive FinishReason
  | stop
  | length
  | abort
  | error
  | repetition
  deriving DecidableEq, Repr

def RequestStatus.getFinishedReason : RequestStatus → Option FinishReason
  | .finishedStopped | .waitingForStreamingReq => some .stop
  | .finishedLengthCapped | .finishedIgnored => some .length
  | .finishedAborted => some .abort
  | .finishedError => some .error
  | .finishedRepetition => some .repetition
  | _ => none

structure EngineCoreOutput where
  requestId : Nat
  newTokenIds : List TokenId
  finishReason : Option FinishReason
  deriving DecidableEq

/-- `l[i]`. -/
def listIndex {α : Type} (l : List α) (i : Nat) : Except PyError α :=
  match l[i]? with
  | some a => .ok a
  | none => .error (.IndexError "list index out of range")

namespace ModelRunnerOutput

variable (mro : ModelRunnerOutput)

/-- `model_runner_output.req_id_to_index[req_id]`. -/
def reqIndex (reqId : Nat) : Except PyError Nat :=
  match mro.reqIdToIndex.get? reqId with
  | some i => .ok i
  | none => .error (.KeyError s!"{reqId}")

/-- `sampled_token_ids[req_index] if sampled_token_ids else []`. -/
def generatedTokenIds (reqId : Nat) : Except PyError (List TokenId) := do
  let i ← mro.reqIndex reqId
  if mro.sampledTokenIds = [] then .ok [] else listIndex mro.sampledTokenIds i

/-- Whether `pooler_outputs[req_index] if pooler_outputs else None` is not `None`. -/
def hasPoolerOutput (reqId : Nat) : Except PyError Bool := do
  let i ← mro.reqIndex reqId
  if mro.poolerOutput = [] then .ok false else listIndex mro.poolerOutput i

end ModelRunnerOutput

/-- The state of the scheduler and the local variables of `update_from_output`. -/
structure UpdatePass (X : World) where
  s : Scheduler X
  stoppedRunningReqs : List Ref := []
  stoppedPreemptedReqs : List Ref := []
  outputs : List EngineCoreOutput := []

namespace Scheduler

variable (cfg : Config) {X : World} (s : Scheduler X)

/-- The request after `num_rejected` of its drafts were rejected. -/
def rejectDrafts (numRejected : Int) (r : Request) : Request := { r with
  numComputedTokens :=
    if r.numComputedTokens > 0 then r.numComputedTokens - numRejected else r.numComputedTokens
  numOutputPlaceholders :=
    if r.numOutputPlaceholders > 0 then r.numOutputPlaceholders - numRejected
    else r.numOutputPlaceholders }

/-- Take rejected drafts back: of `d` drafts and `g` generated tokens `d - (g - 1)` are. -/
def takeBackDrafts (ref : Ref) (scheduledSpecTokenIds generatedTokenIds : List TokenId) :
    Scheduler X :=
  if scheduledSpecTokenIds = [] ∨ generatedTokenIds = [] then s
  else s.modify ref (rejectDrafts (scheduledSpecTokenIds.length - (generatedTokenIds.length - 1)))

/-- `_update_request_with_output` of `Scheduler`. -/
def appendOutput (ref : Ref) (newTokenIds : List TokenId) :
    Except PyError ((List TokenId × Bool) × Scheduler X) := do
  let (result, r) ← (s.objs ref).appendUntilStop cfg.blockHasher cfg.maxModelLen newTokenIds
  .ok (result, s.modify ref fun _ => r)

/-- `_update_request_with_output` of `AsyncScheduler`. -/
def appendOutputAsync (ref : Ref) (newTokenIds : List TokenId) :
    Except PyError ((List TokenId × Bool) × Scheduler X) :=
  if (s.objs ref).discardLatestAsyncTokens then
    .ok (([], false), s.modify ref fun r => { r with discardLatestAsyncTokens := false })
  else do
    let statusBeforeUpdate := (s.objs ref).status
    let ((newTokenIds, stopped), s) ← s.appendOutput cfg ref newTokenIds
    let s := s.modify ref fun r => { r with
      numOutputPlaceholders := r.numOutputPlaceholders - newTokenIds.length }
    let r := s.objs ref
    assert (r.numOutputPlaceholders ≥ 0) ""
    let world := if statusBeforeUpdate = .running then
        X.cacheBlocks r (r.numComputedTokens - r.numOutputPlaceholders) s.world
      else s.world
    .ok ((newTokenIds, stopped), { s with world })

def updateRequestWithOutput (ref : Ref) (newTokenIds : List TokenId) :
    Except PyError ((List TokenId × Bool) × Scheduler X) :=
  if cfg.asyncScheduler then s.appendOutputAsync cfg ref newTokenIds
  else s.appendOutput cfg ref newTokenIds

/-- "Check for stop and update request status." -/
def updateStatus (ref : Ref) (generatedTokenIds : List TokenId) (hasPoolerOutput : Bool) :
    Except PyError ((List TokenId × Bool) × Scheduler X) :=
  if generatedTokenIds ≠ [] then s.updateRequestWithOutput cfg ref generatedTokenIds
  else if (s.objs ref).poolingParams.isSome ∧ hasPoolerOutput then
    .ok (([], true), s.modify ref fun r => { r with status := .finishedStopped })
  else .ok (([], false), s)

end Scheduler

namespace UpdatePass

variable (cfg : Config) {X : World} (p : UpdatePass X)

/-- What happens to a request that stopped: it is freed, or goes on as a session. -/
def stopRequest (ref : Ref) (statusBeforeStop : RequestStatus) : Except PyError (UpdatePass X) := do
  let (finished, s) ← p.s.handleStoppedRequest cfg ref
  let s ← (if finished then s.freeRequest cfg ref false else .ok s)
  if statusBeforeStop = .running then
    .ok { p with s, stoppedRunningReqs := p.stoppedRunningReqs ++ [ref] }
  else .ok { p with s, stoppedPreemptedReqs := p.stoppedPreemptedReqs ++ [ref] }

/-- The output of a request that is not finished. -/
def processOutput (ref : Ref) (scheduledSpecTokenIds generatedTokenIds : List TokenId)
    (hasPoolerOutput : Bool) : Except PyError (UpdatePass X) := do
  let s := p.s.takeBackDrafts ref scheduledSpecTokenIds generatedTokenIds
  let statusBeforeStop := (s.objs ref).status
  let ((newTokenIds, stopped), s) ← s.updateStatus cfg ref generatedTokenIds hasPoolerOutput
  let finishReason := if stopped then (s.objs ref).status.getFinishedReason else none
  let p := { p with s }
  let p ← (if stopped then p.stopRequest cfg ref statusBeforeStop else .ok p)
  let p := if newTokenIds = [] then p else { p with
    s := { p.s with world := X.acceptTokens (p.s.objs ref) newTokenIds p.s.world } }
  if newTokenIds ≠ [] ∨ hasPoolerOutput ∨ stopped then
    .ok { p with outputs := p.outputs ++
      [{ requestId := (p.s.objs ref).requestId, newTokenIds, finishReason }] }
  else .ok p

/-- One pass of the loop of `update_from_output`. -/
def processScheduled (out : SchedulerOutput) (mro : ModelRunnerOutput) (failed : List Nat)
    (reqId : Nat) (numTokensScheduled : Int) : Except PyError (UpdatePass X) := do
  assert (numTokensScheduled > 0) ""
  if reqId ∈ failed then .ok p
  else
    match p.s.unfinished? reqId with
    | none => .ok p
    | some ref => do
        let generatedTokenIds ← mro.generatedTokenIds reqId
        let hasPoolerOutput ← mro.hasPoolerOutput reqId
        p.processOutput cfg ref ((out.scheduledSpecDecodeTokens.get? reqId).getD [])
          generatedTokenIds hasPoolerOutput

/-- "Remove the stopped requests from the running and waiting queues." -/
def removeStopped : Scheduler X := { p.s with
    running := removeAll p.s.running p.stoppedRunningReqs
    waiting := if p.stoppedPreemptedReqs = [] then p.s.waiting
      else p.s.waiting.removeRequests cfg.policy (p.s.lt cfg) p.stoppedPreemptedReqs }

end UpdatePass

/-! ## Blocks that failed to load -/

/-- The local variables of `_update_requests_with_invalid_blocks`. -/
structure InvalidPass (X : World) where
  s : Scheduler X
  affectedReqIds : List Nat := []
  totalAffectedTokens : Int := 0
  blocksToEvict : List Nat := []
  markedInvalidBlockIds : Finset Nat := ∅

/-- The local variables for one request. -/
structure InvalidRequest where
  request : Request
  isAffected : Bool := false
  markedInvalidBlock : Bool := false
  markedInvalidBlockIds : Finset Nat
  totalAffectedTokens : Int
  blocksToEvict : List Nat

namespace InvalidRequest

/-- The inner loop: blocks `idx`, `idx + 1`, .. of the request. -/
def scan (blockSize : Nat) (invalidBlockIds : Finset Nat) (evictBlocks : Bool)
    (reqNumComputedTokens : Int) (reqBlockIds : List Nat) :
    Nat → List Nat → InvalidRequest → InvalidRequest
  | _, [], q => q
  | idx, blockId :: blockIds, q =>
    let next := scan blockSize invalidBlockIds evictBlocks reqNumComputedTokens reqBlockIds
      (idx + 1) blockIds
    if blockId ∉ invalidBlockIds then next q
    else
      let q := { q with isAffected := true }
      if blockId ∈ q.markedInvalidBlockIds then next q
      else
        let q := { q with markedInvalidBlockIds := insert blockId q.markedInvalidBlockIds }
        if q.markedInvalidBlock then next q
        else
          let numComputedTokens : Int := idx * blockSize
          let numAffectedTokens := reqNumComputedTokens - numComputedTokens
          next { q with
            markedInvalidBlock := true
            request := { q.request with
              numComputedTokens
              numExternalComputedTokens := q.request.numExternalComputedTokens - numAffectedTokens }
            totalAffectedTokens := q.totalAffectedTokens + numAffectedTokens
            blocksToEvict := if evictBlocks then q.blocksToEvict ++ reqBlockIds.drop idx
              else q.blocksToEvict }

/-- "Revert to considering only cached tokens as computed": all invalid blocks of the request are
recomputed by others. -/
def revert (reqNumComputedTokens : Int) (q : InvalidRequest) : InvalidRequest :=
  if q.isAffected && !q.markedInvalidBlock then { q with
    totalAffectedTokens :=
      q.totalAffectedTokens + (q.request.numComputedTokens - reqNumComputedTokens)
    request := { q.request with numComputedTokens := reqNumComputedTokens } }
  else q

end InvalidRequest

namespace InvalidPass

variable (cfg : Config) {X : World} (p : InvalidPass X)

/-- The outer loop of `_update_requests_with_invalid_blocks` for one request. -/
def scanRequest (invalidBlockIds : Finset Nat) (numScheduledTokens : Dict Nat Int)
    (evictBlocks : Bool) (ref : Ref) : InvalidPass X :=
  let request := p.s.objs ref
  let reqId := request.requestId
  let reqBlockIds := X.getBlockIds reqId p.s.world
  let reqNumComputedTokens :=
    request.numComputedTokens - (numScheduledTokens.get? reqId).getD 0
  let reqNumComputedBlocks := (reqNumComputedTokens + cfg.blockSize - 1) / cfg.blockSize
  let q := InvalidRequest.revert reqNumComputedTokens <|
    InvalidRequest.scan cfg.blockSize invalidBlockIds evictBlocks reqNumComputedTokens reqBlockIds
      0 (reqBlockIds.take reqNumComputedBlocks.toNat)
      { request
        markedInvalidBlockIds := p.markedInvalidBlockIds
        totalAffectedTokens := p.totalAffectedTokens
        blocksToEvict := p.blocksToEvict }
  { s := p.s.modify ref fun _ => q.request
    affectedReqIds := if q.isAffected then p.affectedReqIds ++ [reqId] else p.affectedReqIds
    totalAffectedTokens := q.totalAffectedTokens
    blocksToEvict := q.blocksToEvict
    markedInvalidBlockIds := q.markedInvalidBlockIds }

end InvalidPass

namespace Scheduler

variable (cfg : Config) {X : World} (s : Scheduler X)

def updateRequestsWithInvalidBlocks (requests : List Ref) (invalidBlockIds : Finset Nat)
    (numScheduledTokens : Dict Nat Int) (evictBlocks : Bool) : InvalidPass X :=
  requests.foldl
    (fun p ref => p.scanRequest cfg invalidBlockIds numScheduledTokens evictBlocks ref) { s }

/-- `_handle_invalid_blocks`: the requests to skip. -/
def handleInvalidBlocks (invalidBlockIds : Finset Nat) (numScheduledTokens : Dict Nat Int) :
    List Nat × Scheduler X :=
  let asyncLoadReqs := (s.skippedWaiting.iter cfg.policy (s.lt cfg)).filter fun ref =>
    decide ((s.objs ref).status = .waitingForRemoteKvs)
  let p := s.updateRequestsWithInvalidBlocks cfg asyncLoadReqs invalidBlockIds numScheduledTokens
    false
  let asyncFailedReqIds := p.affectedReqIds
  let p := p.s.updateRequestsWithInvalidBlocks cfg p.s.running invalidBlockIds numScheduledTokens
    true
  let syncFailedReqIds := p.affectedReqIds
  let s := p.s
  if asyncFailedReqIds = [] ∧ syncFailedReqIds = [] then ([], s)
  else if cfg.recomputeKvLoadFailures then
    (syncFailedReqIds, { s with
      failedRecvingKvReqIds := s.failedRecvingKvReqIds ∪ asyncFailedReqIds.toFinset })
  else
    (asyncFailedReqIds ++ syncFailedReqIds, { s with
      world := if p.blocksToEvict = [] then s.world else X.evictBlocks p.blocksToEvict s.world })

/-! ## Finished transfers -/

/-- A finished reception. -/
def finishRecving (reqId : Nat) : Except PyError (Scheduler X) :=
  match s.requests.get? reqId with
  | none => .error (.AssertionError "")
  | some ref =>
    if (s.objs ref).status = .waitingForRemoteKvs then
      .ok { s with finishedRecvingKvReqIds := insert reqId s.finishedRecvingKvReqIds }
    else s.freeBlocks ref

/-- A finished transmission. -/
def finishSending (reqId : Nat) : Except PyError (Scheduler X) :=
  match s.requests.get? reqId with
  | none => .error (.AssertionError "")
  | some ref => s.freeBlocks ref

def updateFromKvXferFinished (kvConnectorOutput : KVConnectorOutput) :
    Except PyError (Scheduler X) := do
  let s := if cfg.hasConnector then { s with world := X.updateConnectorOutput s.world } else s
  let s ← kvConnectorOutput.finishedRecving.foldlM (fun s reqId => s.finishRecving reqId) s
  kvConnectorOutput.finishedSending.foldlM (fun s reqId => s.finishSending reqId) s

/-! ## `update_from_output` -/

/-- The requests to skip since blocks of theirs failed to load. -/
def handleFailedLoads (out : SchedulerOutput) (mro : ModelRunnerOutput) : List Nat × Scheduler X :=
  match mro.kvConnectorOutput with
  | none => ([], s)
  | some kv =>
    if kv.invalidBlockIds = ∅ then ([], s)
    else s.handleInvalidBlocks cfg kv.invalidBlockIds out.numScheduledTokens

/-- Under the policy `fail` the affected requests are finished. -/
def failRequests (failed : List Nat) : Except PyError (List EngineCoreOutput × Scheduler X) :=
  if failed ≠ [] ∧ cfg.recomputeKvLoadFailures = false then do
    let refs ← (cfg.setOrder.order failed).mapM s.lookup
    let s ← s.finishRequests cfg (some (cfg.setOrder.order failed)) .finishedError
    .ok (refs.map fun ref =>
      { requestId := (s.objs ref).requestId
        newTokenIds := []
        finishReason := (s.objs ref).status.getFinishedReason }, s)
  else .ok ([], s)

def updateFromOutput (out : SchedulerOutput) (mro : ModelRunnerOutput) :
    Except PyError (List EngineCoreOutput × Scheduler X) := do
  let (failed, s) := s.handleFailedLoads cfg out mro
  let p ← out.numScheduledTokens.entries.foldlM
    (fun p e => p.processScheduled cfg out mro failed e.1 e.2) ({ s } : UpdatePass X)
  let (failedOutputs, s) ← (p.removeStopped cfg).failRequests cfg failed
  let s ← (match mro.kvConnectorOutput with
    | none => .ok s
    | some kv => s.updateFromKvXferFinished cfg kv)
  .ok (p.outputs ++ failedOutputs, { s with world := X.endStep s.world })

end Scheduler

end MyOperator.Sched

/-!
## Runs of the scheduler

The calls that the engine makes, in any order. A run carries the outputs of `schedule`
that were emitted.
-/

namespace MyOperator.Sched

open Lib

/-- A call of the scheduler. -/
inductive Event
  | addRequest (args : Request)
  | schedule (out : SchedulerOutput)
  | updateFromOutput (out : SchedulerOutput) (mro : ModelRunnerOutput)
  | finishRequests (requestIds : Option (List Nat)) (finishedStatus : RequestStatus)
  | resetPrefixCache (resetRunningRequests resetConnector : Bool)
  | updateDraftTokenIds (drafts : List (Nat × List TokenId))
  | setPauseState (pauseState : PauseState)
  | resetEncoderCache

namespace Scheduler

variable (cfg : Config) {X : World}

/-- After `__init__`. -/
def initial (encoderCacheManager : EncoderManager) (world : X.State) : Scheduler X :=
  { objs := fun _ => { requestId := 0 }, encoderCacheManager, world }

/-- The call returns and leaves `s'`. -/
def Does (s : Scheduler X) : Event → Scheduler X → Prop
  | .addRequest args, s' => ∃ request, Request.init cfg.blockHasher args = .ok request ∧
      s.addRequest cfg request = .ok s'
  | .schedule out, s' => s.schedule cfg = .ok (out, s')
  | .updateFromOutput out mro, s' =>
    ∃ outputs, s.updateFromOutput cfg out mro = .ok (outputs, s')
  | .finishRequests requestIds finishedStatus, s' =>
    s.finishRequests cfg requestIds finishedStatus = .ok s'
  | .resetPrefixCache resetRunningRequests resetConnector, s' =>
    ∃ b, s.resetPrefixCache cfg resetRunningRequests resetConnector = .ok (b, s')
  | .updateDraftTokenIds drafts, s' => s' = s.updateDraftTokenIds drafts
  | .setPauseState pauseState, s' => s' = s.setPauseState pauseState
  | .resetEncoderCache, s' => s' = s.resetEncoderCache

end Scheduler

/-- The scheduler, and what it emitted so far. -/
structure Run (X : World) where
  s : Scheduler X
  outputs : List SchedulerOutput := []

/-- The outputs after a call. -/
def Event.emit (outputs : List SchedulerOutput) : Event → List SchedulerOutput
  | .schedule out => outputs ++ [out]
  | _ => outputs

/-- The runs whose calls are all `allowed`. -/
def schedulerRuns (cfg : Config) {X : World} (encoderCacheManager : EncoderManager)
    (world : X.State) (allowed : Scheduler X → Event → Prop) : TSys (Run X) where
  init r := r = { s := .initial encoderCacheManager world }
  step r r' := ∃ e, allowed r.s e ∧ r.s.Does cfg e r'.s ∧ r'.outputs = e.emit r.outputs

/-- A world with room for everything that has nothing cached. -/
def roomyWorld : World where
  State := Unit
  Blocks := Unit
  newStepStarts := id
  getComputedBlocks := fun _ w => (((), 0), w)
  emptyKvCacheBlocks := ()
  canFitFullSequence := fun _ _ _ _ _ _ => true
  allocateSlots := fun _ _ w => .ok (true, w)
  freeKv := fun _ w => w
  cacheBlocks := fun _ _ w => w
  evictBlocks := fun _ w => w
  getBlockIds := fun _ _ => []
  resetPrefixCache := fun w => (true, w)
  endStep := id
  getNumNewMatchedTokens := fun _ _ w => ((some 0, false), w)
  updateStateAfterAlloc := fun _ _ w => w
  requestFinished := fun _ w => (false, w)
  updateConnectorOutput := id
  resetCache := fun w => (true, w)
  hasCacheItem := fun _ _ => false
  ecUpdateStateAfterAlloc := fun _ _ w => w
  hasGrammar := fun _ _ => true
  acceptTokens := fun _ _ w => w
  validateTokens := fun _ tokenIds _ => tokenIds

/-- A world with room for `capacity` tokens and nothing cached. The state has the tokens of each
request. -/
def smallWorld (capacity : Nat) : World where
  State := Dict Nat Nat
  Blocks := Unit
  newStepStarts := id
  getComputedBlocks := fun _ w => (((), 0), w)
  emptyKvCacheBlocks := ()
  canFitFullSequence := fun _ _ _ _ _ _ => true
  allocateSlots := fun r args w =>
    let tokens := (r.numComputedTokens + args.numNewTokens).toNat
    if (w.erase r.requestId).values.sum + tokens ≤ capacity then .ok (true, w.set r.requestId tokens)
    else .ok (false, w)
  freeKv := fun r w => w.erase r.requestId
  cacheBlocks := fun _ _ w => w
  evictBlocks := fun _ w => w
  getBlockIds := fun _ _ => []
  resetPrefixCache := fun w => (true, w)
  endStep := id
  getNumNewMatchedTokens := fun _ _ w => ((some 0, false), w)
  updateStateAfterAlloc := fun _ _ w => w
  requestFinished := fun _ w => (false, w)
  updateConnectorOutput := id
  resetCache := fun w => (true, w)
  hasCacheItem := fun _ _ => false
  ecUpdateStateAfterAlloc := fun _ _ w => w
  hasGrammar := fun _ _ => true
  acceptTokens := fun _ _ w => w
  validateTokens := fun _ tokenIds _ => tokenIds

end MyOperator.Sched
