import MyOperator.Sched.Scheduler

/-!
# `schedule`

One call of `schedule`: the loop over the running requests with its preemptions, the
loop over the waiting requests, and `_update_after_schedule`. The local variables of
`schedule` are a `Pass`; a loop iteration is a function on it.
-/

namespace MyOperator.Sched

open Lib
open KvCache (assert)

/-- The state of the scheduler and the local variables of `schedule`. -/
structure Pass (X : World) where
  s : Scheduler X
  tokenBudget : Int
  encoderComputeBudget : Int
  reqIndex : Nat := 0
  scheduledNewReqs : List Ref := []
  scheduledResumedReqs : List Ref := []
  scheduledRunningReqs : List Ref := []
  preemptedReqs : List Ref := []
  numScheduledTokens : Dict Nat Int := .empty
  scheduledSpecDecodeTokens : Dict Nat (List TokenId) := .empty
  scheduledEncoderInputs : Dict Nat (List Nat) := .empty
  /-- The items that the external encoder cache is told to load in this step. -/
  externalLoads : List String := []
  scheduledLoras : Finset Nat := ∅
  stepSkippedWaiting : RequestQueue := []

/-- `SchedulerOutput`, without the payloads for the workers. -/
structure SchedulerOutput where
  scheduledNewReqs : List Nat := []
  scheduledResumedReqs : List Nat := []
  scheduledRunningReqs : List Nat := []
  numScheduledTokens : Dict Nat Int := .empty
  scheduledSpecDecodeTokens : Dict Nat (List TokenId) := .empty
  scheduledEncoderInputs : Dict Nat (List Nat) := .empty
  /-- `ec_connector_metadata`: the items to load from the external encoder cache. -/
  externalLoads : List String := []
  preemptedReqIds : Finset Nat := ∅
  finishedReqIds : Finset Nat := ∅
  freeEncoderMmHashes : List String := []

/-- The work that one request gets in a step. -/
structure Work where
  numNewTokens : Int
  encoderInputsToSchedule : List Nat := []
  externalLoadEncoderInput : List Nat := []
  encoderComputeBudget : Int

/-- What a loop does after an iteration. -/
inductive Flow (α : Type)
  | next (a : α)
  | stop (a : α)

namespace Pass

variable (cfg : Config) {X : World} (p : Pass X)

/-- A call that changes the world only. -/
def setWorld (world : X.State) : Pass X := { p with s := { p.s with world } }

/-- A change of the attributes of one request. -/
def modify (ref : Ref) (f : Request → Request) : Pass X := { p with s := p.s.modify ref f }

/-! ## Both loops -/

def mambaBlockAlignedSplit (request : Request) (numNewTokens : Int)
    (numNewLocalComputedTokens numExternalComputedTokens : Nat) : Except PyError Int := do
  assert (numExternalComputedTokens = 0) "External KV connector is not verified yet"
  let numComputedTokens : Int := request.numComputedTokens + numNewLocalComputedTokens +
    numExternalComputedTokens
  if numComputedTokens < max (request.numPromptTokens : Int) ((request.numTokens : Int) - 1) then
    let blockSize : Int := cfg.cacheBlockSize
    let lastCachePosition : Int := request.numTokens - request.numTokens % cfg.cacheBlockSize
    let lastCachePosition :=
      if cfg.useEagle then max (lastCachePosition - blockSize) 0 else lastCachePosition
    let numComputedTokensAfterSched := numComputedTokens + numNewTokens
    if numComputedTokensAfterSched < lastCachePosition then
      .ok (numNewTokens / blockSize * blockSize)
    else if numComputedTokens < lastCachePosition ∧
        lastCachePosition < numComputedTokensAfterSched then
      .ok (lastCachePosition - numComputedTokens)
    else .ok numNewTokens
  else .ok numNewTokens

/-- `_mamba_block_aligned_split` where it is needed. -/
def split (request : Request) (numNewTokens : Int)
    (numNewLocalComputedTokens numExternalComputedTokens : Nat) : Except PyError Int :=
  if cfg.needMambaBlockAlignedSplit then
    mambaBlockAlignedSplit cfg request numNewTokens numNewLocalComputedTokens
      numExternalComputedTokens
  else .ok numNewTokens

/-- "Schedule encoder inputs": `num_new_tokens` of a request that has computed
`num_computed_tokens`, cut where an encoder input cannot be scheduled. -/
def scheduleEncoderInputs (ref : Ref) (numComputedTokens numNewTokens : Int) :
    Except PyError (Work × Pass X) :=
  let request := p.s.objs ref
  if request.hasEncoderInputs then do
    let plan ← tryScheduleEncoderInputs cfg.toEncoderConfig (X.hasCacheItem p.s.world)
      p.s.encoderCacheManager request numComputedTokens numNewTokens p.encoderComputeBudget
      (if cfg.useEagle then 1 else 0)
    .ok ({ numNewTokens := plan.numNewTokens
           encoderInputsToSchedule := plan.encoderInputsToSchedule
           externalLoadEncoderInput := plan.externalLoadEncoderInput
           encoderComputeBudget := plan.encoderComputeBudget },
      { p with s := { p.s with encoderCacheManager := plan.manager } })
  else .ok ({ numNewTokens, encoderComputeBudget := p.encoderComputeBudget }, p)

/-- "Allocate the encoder cache" for one input. -/
def allocateEncoderInput (ref : Ref) (i : Nat) : Except PyError (Pass X) := do
  let encoderCacheManager ← p.s.encoderCacheManager.allocate (p.s.objs ref) i
  let world := if cfg.hasEcConnector then X.ecUpdateStateAfterAlloc (p.s.objs ref) i p.s.world
    else p.s.world
  .ok { p with s := { p.s with encoderCacheManager, world } }

/-- "Allocate for external load encoder cache" for one input. -/
def allocateExternalLoad (ref : Ref) (i : Nat) : Except PyError (Pass X) := do
  let p ← p.allocateEncoderInput cfg ref i
  let f ← (p.s.objs ref).mmFeature i
  .ok { p with externalLoads := p.externalLoads ++ [f.identifier] }

/-- "Encoder-related." for a request that is scheduled. -/
def allocateEncoder (ref : Ref) (work : Work) : Except PyError (Pass X) := do
  let ids := work.encoderInputsToSchedule
  let scheduledEncoderInputs := p.scheduledEncoderInputs.set (p.s.objs ref).requestId ids
  let p ← (if ids = [] then .ok p else do
    let p ← ids.foldlM (fun p i => p.allocateEncoderInput cfg ref i)
      { p with scheduledEncoderInputs }
    .ok { p with encoderComputeBudget := work.encoderComputeBudget } : Except PyError (Pass X))
  work.externalLoadEncoderInput.foldlM (fun p i => p.allocateExternalLoad cfg ref i) p

/-! ## The running requests -/

/-- "Async scheduling: Avoid scheduling an extra step when we are sure that the previous step has
reached request.max_tokens." -/
def reachedMaxTokens (r : Request) : Bool :=
  r.numOutputPlaceholders > 0 &&
    r.numComputedTokens + 2 - r.numOutputPlaceholders ≥ r.numPromptTokens + r.maxTokens

/-- `num_new_tokens` of a running request before the encoder inputs are looked at. -/
def runningNumNewTokens (r : Request) (tokenBudget : Int) : Int :=
  let numNewTokens : Int := r.numTokensWithSpec + r.numOutputPlaceholders - r.numComputedTokens
  let threshold := cfg.longPrefillTokenThreshold
  let numNewTokens := if 0 < threshold ∧ threshold < numNewTokens then threshold else numNewTokens
  let numNewTokens := min numNewTokens tokenBudget
  min numNewTokens (cfg.maxModelLen - 1 - r.numComputedTokens)

/-- `max(self.running, key=lambda r: (r.priority, r.arrival_time))`: the first of the largest. -/
def maxByPriority (objs : Ref → Request) : List Ref → Option Ref
  | [] => none
  | ref :: refs =>
    some (refs.foldl (fun best ref =>
      let (a, b) := (objs best, objs ref)
      if a.priority < b.priority ∨ (a.priority = b.priority ∧ a.arrivalTime < b.arrivalTime)
      then ref else best) ref)

/-- What `schedule` takes back of a request that it preempts after scheduling it. -/
def unschedule (ref : Ref) : Except PyError (Pass X) := do
  let request := p.s.objs ref
  let reqId := request.requestId
  match p.numScheduledTokens.get? reqId with
  | none => .error (.KeyError s!"{reqId}")
  | some numTokens => do
      let encoderInputs := (p.scheduledEncoderInputs.get? reqId).getD []
      let numEmbedsToRestore ← encoderInputs.foldlM
        (fun sum i => do let n ← request.getNumEncoderEmbeds i; .ok (sum + n)) 0
      .ok { p with
        scheduledRunningReqs := p.scheduledRunningReqs.erase ref
        tokenBudget := p.tokenBudget + numTokens
        numScheduledTokens := p.numScheduledTokens.erase reqId
        scheduledSpecDecodeTokens := p.scheduledSpecDecodeTokens.erase reqId
        scheduledEncoderInputs := p.scheduledEncoderInputs.erase reqId
        encoderComputeBudget := p.encoderComputeBudget + numEmbedsToRestore
        reqIndex := p.reqIndex - 1 }

/-- "Preempt the lowest-priority request": take it out of the running requests. -/
def popVictim : Except PyError (Ref × Pass X) :=
  match cfg.policy with
  | .priority =>
    match maxByPriority p.s.objs p.s.running with
    | none => .error (.ValueError "max() arg is an empty sequence")
    | some victim => do
        let p := { p with s := { p.s with running := p.s.running.erase victim } }
        let p ← (if victim ∈ p.scheduledRunningReqs then p.unschedule victim else .ok p)
        .ok (victim, p)
  | .fcfs =>
    match p.s.running.getLast? with
    | none => .error (.IndexError "pop from empty list")
    | some victim => .ok (victim, { p with s := { p.s with running := p.s.running.dropLast } })

/-- Preempt the victim. -/
def preemptVictim (victim : Ref) : Except PyError (Pass X) := do
  let s ← p.s.preemptRequest cfg victim
  .ok { p with s, preemptedReqs := p.preemptedReqs ++ [victim] }

/-- `while True: new_blocks = allocate_slots(..)`: allocate, or preempt and try again. The value is
whether there are new blocks. Each pass takes one request out of `running`. -/
def allocateRunning (ref : Ref) (numNewTokens : Int) :
    Nat → Pass X → Except PyError (Bool × Pass X)
  | 0, _ => .error (.RuntimeError "no request left to preempt")
  | fuel + 1, p => do
      let (allocated, world) ← X.allocateSlots (p.s.objs ref)
        { numNewTokens, numLookaheadTokens := cfg.numLookaheadTokens } p.s.world
      let p := p.setWorld world
      if allocated then .ok (true, p)
      else do
        let (victim, p) ← p.popVictim cfg
        let p ← p.preemptVictim cfg victim
        if victim = ref then .ok (false, p) else allocateRunning ref numNewTokens fuel p

/-- "Speculative decode related.": the drafts that fit into the step. -/
def scheduleSpecTokens (ref : Ref) (numNewTokens : Int) : Pass X :=
  let r := p.s.objs ref
  if r.specTokenIds = [] then p
  else
    let numScheduledSpecTokens : Int :=
      numNewTokens + r.numComputedTokens - r.numTokens - r.numOutputPlaceholders
    let p := if numScheduledSpecTokens > 0 then { p with
        scheduledSpecDecodeTokens := p.scheduledSpecDecodeTokens.set r.requestId
          (r.specTokenIds.take numScheduledSpecTokens.toNat) }
      else p
    p.modify ref fun r => { r with specTokenIds := [] }

/-- "Schedule the request." -/
def scheduleRunning (ref : Ref) (work : Work) : Except PyError (Pass X) := let p := { p with
    scheduledRunningReqs := p.scheduledRunningReqs ++ [ref]
    numScheduledTokens := p.numScheduledTokens.set (p.s.objs ref).requestId work.numNewTokens
    tokenBudget := p.tokenBudget - work.numNewTokens
    reqIndex := p.reqIndex + 1 }
  (p.scheduleSpecTokens ref work.numNewTokens).allocateEncoder cfg ref work

/-- One iteration of the loop over the running requests, for the request at `req_index`. -/
def runningStep (ref : Ref) : Except PyError (Flow (Pass X)) :=
  let request := p.s.objs ref
  if reachedMaxTokens request then .ok (.next { p with reqIndex := p.reqIndex + 1 })
  else do
    let (work, p) ← p.scheduleEncoderInputs cfg ref request.numComputedTokens
      (runningNumNewTokens cfg request p.tokenBudget)
    let numNewTokens ← split cfg request work.numNewTokens 0 0
    if numNewTokens = 0 then .ok (.next { p with reqIndex := p.reqIndex + 1 })
    else do
      let (allocated, p) ← allocateRunning cfg ref numNewTokens (p.s.running.length + 1) p
      if allocated then do
        let p ← p.scheduleRunning cfg ref { work with numNewTokens }
        .ok (.next p)
      else .ok (.stop p)

/-- The loop over the running requests. An iteration moves `req_index` or shortens `running`. -/
def runningLoop : Nat → Pass X → Except PyError (Pass X)
  | 0, p => .ok p
  | fuel + 1, p =>
    match p.s.running[p.reqIndex]? with
    | none => .ok p
    | some ref =>
      if p.tokenBudget ≤ 0 then .ok p
      else do
        match ← p.runningStep cfg ref with
        | .next p => runningLoop fuel p
        | .stop p => .ok p

/-- "Record the LoRAs in scheduled_running_reqs". -/
def recordLoras : Except PyError (Pass X) :=
  match cfg.maxLoras with
  | none => .ok p
  | some maxLoras => do
      let loras := (p.scheduledRunningReqs.filterMap fun ref =>
        (p.s.objs ref).loraRequest.map (·.loraIntId)).filter (· > 0)
      assert (loras.toFinset.card ≤ maxLoras) ""
      .ok { p with scheduledLoras := loras.toFinset }

/-! ## The waiting requests -/

/-- The queue that the next request comes from. -/
inductive Source
  | waiting
  | skippedWaiting
  deriving DecidableEq, Repr

/-- `_select_waiting_queue_for_scheduling`, when one of the queues is not empty. -/
def selectQueue : Source :=
  match cfg.policy, p.s.waiting, p.s.skippedWaiting with
  | .fcfs, _, [] => .waiting
  | .fcfs, _, _ :: _ => .skippedWaiting
  | .priority, waitingReq :: _, skippedReq :: _ =>
    if p.s.lt cfg waitingReq skippedReq then .waiting else .skippedWaiting
  | .priority, [], _ => .skippedWaiting
  | .priority, _ :: _, [] => .waiting

/-- The queue. -/
def queue : Source → RequestQueue
  | .waiting => p.s.waiting
  | .skippedWaiting => p.s.skippedWaiting

def popRequest (source : Source) : Except PyError (Pass X) := do
  let q ← (p.queue source).popRequest cfg.policy (p.s.lt cfg)
  match source with
  | .waiting => .ok { p with s := { p.s with waiting := q } }
  | .skippedWaiting => .ok { p with s := { p.s with skippedWaiting := q } }

/-- `step_skipped_waiting.prepend_request(request)`. -/
def prependSkipped (ref : Ref) : Pass X := { p with
    stepSkippedWaiting := p.stepSkippedWaiting.prependRequest cfg.policy (p.s.lt cfg) ref }

/-- Leave the request for a later step. -/
def skipRequest (source : Source) (ref : Ref) : Except PyError (Pass X) := do
  let p ← p.popRequest cfg source
  .ok (p.prependSkipped cfg ref)

def updateWaitingForRemoteKv (ref : Ref) : Except PyError (Pass X) := do
  assert cfg.hasConnector ""
  let request := p.s.objs ref
  let reqId := request.requestId
  let s := p.s
  let s := if reqId ∈ s.failedRecvingKvReqIds then
      { s with
        world := if request.numComputedTokens ≠ 0 then
            X.cacheBlocks request request.numComputedTokens s.world
          else X.freeKv request s.world
        failedRecvingKvReqIds := s.failedRecvingKvReqIds.erase reqId }
    else
      { s with world := X.cacheBlocks request request.numComputedTokens s.world }.modify ref
        fun r => if r.numComputedTokens = r.numTokens then
            { r with numComputedTokens := r.numTokens - 1 }
          else r
  .ok { p with s := { s with
    finishedRecvingKvReqIds := s.finishedRecvingKvReqIds.erase reqId } }

def tryPromoteBlockedWaitingRequest (ref : Ref) : Except PyError (Bool × Pass X) :=
  let request := p.s.objs ref
  match request.status with
  | .waitingForRemoteKvs =>
    if request.requestId ∉ p.s.finishedRecvingKvReqIds then .ok (false, p)
    else do
      let p ← p.updateWaitingForRemoteKv cfg ref
      .ok (true, p.modify ref fun r => { r with
        status := if r.numPreemptions ≠ 0 then .preempted else .waiting })
  | .waitingForStructuredOutputGrammar =>
    if X.hasGrammar request p.s.world then
      .ok (true, p.modify ref fun r => { r with status := .waiting })
    else .ok (false, p)
  | .waitingForStreamingReq => do
      assert (request.streamingQueue.getD [] = []) ""
      .ok (false, p)
  | _ => .error (.AssertionError "Unexpected blocked waiting status in promotion")

/-- "try to promote blocked statuses while traversing skipped queue": whether the request may be
scheduled. -/
def promote (ref : Ref) : Except PyError (Bool × Pass X) :=
  if (p.s.objs ref).status.isBlockedWaiting then p.tryPromoteBlockedWaitingRequest cfg ref
  else .ok (true, p)

/-- "Scheduling would exceed max_loras, skip." -/
def exceedsMaxLoras (r : Request) : Bool :=
  match cfg.maxLoras, r.loraRequest with
  | some maxLoras, some lora => decide (p.scheduledLoras.card = maxLoras) &&
      decide (lora.loraIntId ∉ p.scheduledLoras)
  | _, _ => false

/-- The tokens of a waiting request that need no computation. -/
structure Computed (X : World) where
  newComputedBlocks : X.Blocks
  numNewLocalComputedTokens : Nat := 0
  numExternalComputedTokens : Nat := 0
  loadKvAsync : Bool := false
  numComputedTokens : Int

/-- "Get already-cached tokens." `none`: the connector could not tell yet. -/
def getComputed (ref : Ref) : Except PyError (Option (Computed X) × Pass X) :=
  let request := p.s.objs ref
  if request.numComputedTokens = 0 then
    let ((newComputedBlocks, numLocal), world) := X.getComputedBlocks request p.s.world
    let p := p.setWorld world
    if cfg.hasConnector then
      let ((extTokens, loadKvAsync), world) :=
        X.getNumNewMatchedTokens request numLocal p.s.world
      let p := p.setWorld world
      match extTokens with
      | none => .ok (none, p)
      | some extTokens => do
          let p := p.modify ref fun r => { r with numExternalComputedTokens := extTokens }
          assert (numLocal + extTokens ≤ request.numTokens) ""
          .ok (some { newComputedBlocks, loadKvAsync
                      numNewLocalComputedTokens := numLocal
                      numExternalComputedTokens := extTokens
                      numComputedTokens := numLocal + extTokens }, p)
    else do
      assert (numLocal ≤ request.numTokens) ""
      .ok (some { newComputedBlocks
                  numNewLocalComputedTokens := numLocal
                  numComputedTokens := numLocal }, p)
  else .ok (some { newComputedBlocks := X.emptyKvCacheBlocks
                   numComputedTokens := request.numComputedTokens }, p)

/-- The work of a waiting request; `none` ends the loop. -/
def planWaiting (ref : Ref) (computed : Computed X) : Except PyError (Option Work × Pass X) :=
  let request := p.s.objs ref
  if computed.loadKvAsync then do
    assert (computed.numExternalComputedTokens > 0) ""
    let numNewTokens ← split cfg request 0 computed.numNewLocalComputedTokens
      computed.numExternalComputedTokens
    if cfg.needMambaBlockAlignedSplit ∧ numNewTokens = 0 then .ok (none, p)
    else .ok (some { numNewTokens, encoderComputeBudget := p.encoderComputeBudget }, p)
  else
    let numNewTokens : Int := request.numTokens - computed.numComputedTokens
    let threshold := cfg.longPrefillTokenThreshold
    let numNewTokens :=
      if 0 < threshold ∧ threshold < numNewTokens then threshold else numNewTokens
    if cfg.enableChunkedPrefill = false ∧ numNewTokens > p.tokenBudget then .ok (none, p)
    else do
      let numNewTokens := min numNewTokens p.tokenBudget
      assert (numNewTokens > 0) ""
      let (work, p) ← p.scheduleEncoderInputs cfg ref computed.numComputedTokens numNewTokens
      if request.hasEncoderInputs ∧ work.numNewTokens = 0 then .ok (none, p)
      else do
        let numNewTokens ← split cfg request work.numNewTokens
          computed.numNewLocalComputedTokens computed.numExternalComputedTokens
        if cfg.needMambaBlockAlignedSplit ∧ numNewTokens = 0 then .ok (none, p)
        else .ok (some { work with numNewTokens }, p)

/-- "Determine if we need to allocate cross-attention blocks." -/
def numEncoderTokens (request : Request) (work : Work) : Except PyError Nat :=
  if cfg.isEncoderDecoder then
    work.encoderInputsToSchedule.foldlM
      (fun sum i => do let n ← request.getNumEncoderEmbeds i; .ok (sum + n)) 0
  else .ok 0

/-- The request cannot be scheduled: "we need to untouch the request from the encode cache
manager". -/
def untouchEncoder (ref : Ref) : Except PyError (Pass X) :=
  if (p.s.objs ref).hasEncoderInputs then do
    let encoderCacheManager ← p.s.encoderCacheManager.free cfg.setOrder (p.s.objs ref)
    .ok { p with s := { p.s with encoderCacheManager } }
  else .ok p

/-- `can_fit_full_sequence` where it is asked, and `allocate_slots`. -/
def allocateWaiting (ref : Ref) (computed : Computed X) (work : Work) :
    Except PyError (Bool × Pass X) := do
  let request := p.s.objs ref
  let numEncoderTokens ← numEncoderTokens cfg request work
  if cfg.schedulerReserveFullIsl ∧ X.canFitFullSequence request
      computed.numNewLocalComputedTokens computed.newComputedBlocks
      computed.numExternalComputedTokens numEncoderTokens p.s.world = false then .ok (false, p)
  else do
    let (allocated, world) ← X.allocateSlots request
      { numNewTokens := work.numNewTokens
        numNewComputedTokens := computed.numNewLocalComputedTokens
        newComputedBlocks := some computed.newComputedBlocks
        numLookaheadTokens := if request.numComputedTokens = 0 then 0 else cfg.numLookaheadTokens
        numExternalComputedTokens := computed.numExternalComputedTokens
        delayCacheBlocks := computed.loadKvAsync
        numEncoderTokens } p.s.world
    .ok (allocated, p.setWorld world)

/-- `connector.update_state_after_alloc`. -/
def updateConnector (ref : Ref) (computed : Computed X) : Pass X :=
  if cfg.hasConnector then
    p.setWorld (X.updateStateAfterAlloc (p.s.objs ref) computed.numExternalComputedTokens p.s.world)
  else p

/-- "If loading async, allocate memory and put request into the WAITING_FOR_REMOTE_KV state." -/
def startLoad (ref : Ref) (computed : Computed X) : Pass X :=
  let p := p.modify ref fun r => { r with status := .waitingForRemoteKvs }
  (p.prependSkipped cfg ref).modify ref fun r =>
    { r with numComputedTokens := computed.numComputedTokens }

/-- The request is new or resumed. -/
def recordScheduled (ref : Ref) : Except PyError (Pass X) :=
  match (p.s.objs ref).status with
  | .waiting => .ok { p with scheduledNewReqs := p.scheduledNewReqs ++ [ref] }
  | .preempted => .ok { p with scheduledResumedReqs := p.scheduledResumedReqs ++ [ref] }
  | _ => .error (.RuntimeError "Invalid request status")

/-- The request joins the running requests. -/
def admitRequest (ref : Ref) (computed : Computed X) (work : Work) : Except PyError (Pass X) := do
  let request := p.s.objs ref
  let p ← { p with s := { p.s with running := p.s.running ++ [ref] } }.recordScheduled ref
  let p := { p with
    scheduledLoras := match cfg.maxLoras, request.loraRequest with
      | some _, some lora => insert lora.loraIntId p.scheduledLoras
      | _, _ => p.scheduledLoras
    numScheduledTokens := p.numScheduledTokens.set request.requestId work.numNewTokens
    tokenBudget := p.tokenBudget - work.numNewTokens }
  let p := p.modify ref fun r => { r with
    status := .running
    numComputedTokens := computed.numComputedTokens }
  p.allocateEncoder cfg ref work

/-- The request has new blocks. -/
def admitOrLoad (source : Source) (ref : Ref) (computed : Computed X) (work : Work) :
    Except PyError (Pass X) := do
  let p ← (p.updateConnector cfg ref computed).popRequest cfg source
  if computed.loadKvAsync then .ok (p.startLoad cfg ref computed)
  else p.admitRequest cfg ref computed work

/-- One iteration of the loop over the waiting requests, for the request at the head of its
queue. -/
def waitingStep (source : Source) (ref : Ref) : Except PyError (Flow (Pass X)) := do
  let (promoted, p) ← p.promote cfg ref
  if promoted = false ∨ p.exceedsMaxLoras cfg (p.s.objs ref) then do
    let p ← p.skipRequest cfg source ref
    .ok (.next p)
  else do
    let (computed?, p) ← p.getComputed cfg ref
    match computed? with
    | none => do
        let p ← p.skipRequest cfg source ref
        .ok (.next p)
    | some computed => do
        let (work?, p) ← p.planWaiting cfg ref computed
        match work? with
        | none => .ok (.stop p)
        | some work => do
            let (allocated, p) ← p.allocateWaiting cfg ref computed work
            if allocated then do
              let p ← p.admitOrLoad cfg source ref computed work
              .ok (.next p)
            else do
              let p ← p.untouchEncoder cfg ref
              .ok (.stop p)

/-- The loop over the waiting requests. Every iteration that does not end it takes a request out of
a queue. -/
def waitingLoop : Nat → Pass X → Except PyError (Pass X)
  | 0, p => .ok p
  | fuel + 1, p =>
    if (p.s.waiting = [] ∧ p.s.skippedWaiting = []) ∨ p.tokenBudget ≤ 0 ∨
        p.s.running.length = cfg.maxNumRunningReqs then .ok p
    else do
      let source := p.selectQueue cfg
      let ref ← (p.queue source).peekRequest cfg.policy
      match ← p.waitingStep cfg source ref with
      | .next p => waitingLoop fuel p
      | .stop p => .ok p

/-- "re-queue requests skipped in this pass ahead of older skipped items." -/
def requeueSkipped : Pass X := { p with
    s := { p.s with
      skippedWaiting :=
        p.s.skippedWaiting.prependRequests cfg.policy (p.s.lt cfg) p.stepSkippedWaiting }
    stepSkippedWaiting := [] }

/-- "Next, schedule the WAITING requests." -/
def scheduleWaiting : Except PyError (Pass X) :=
  if p.preemptedReqs = [] ∧ p.s.pauseState = .unpaused then do
    let p ← waitingLoop cfg (p.s.waiting.length + p.s.skippedWaiting.length) p
    .ok (p.requeueSkipped cfg)
  else .ok p

/-! ## The output -/

/-- "Check if the scheduling constraints are satisfied." -/
def checkConstraints : Except PyError Unit := do
  assert (p.numScheduledTokens.values.sum ≤ cfg.maxNumScheduledTokens) ""
  assert (p.tokenBudget ≥ 0) ""
  assert (p.s.running.length ≤ cfg.maxNumRunningReqs) ""
  assert (p.scheduledNewReqs.length + p.scheduledResumedReqs.length +
    p.scheduledRunningReqs.length ≤ p.s.running.length) ""

/-- The assertion of `_make_cached_request_data`. -/
def checkResumed : Except PyError Unit :=
  assert (cfg.useV2ModelRunner || p.scheduledResumedReqs.all fun ref =>
    decide ((p.s.objs ref).requestId ∉ p.s.prevStepScheduledReqIds)) ""

/-- The `SchedulerOutput` of the pass, and the scheduler after it was constructed. -/
def output : SchedulerOutput × Scheduler X :=
  let reqId := fun ref => (p.s.objs ref).requestId
  let (freeEncoderMmHashes, encoderCacheManager) := p.s.encoderCacheManager.getFreedMmHashes
  ({ scheduledNewReqs := p.scheduledNewReqs.map reqId
     scheduledResumedReqs := p.scheduledResumedReqs.map reqId
     scheduledRunningReqs := p.scheduledRunningReqs.map reqId
     numScheduledTokens := p.numScheduledTokens
     scheduledSpecDecodeTokens := p.scheduledSpecDecodeTokens
     scheduledEncoderInputs := p.scheduledEncoderInputs
     externalLoads := p.externalLoads
     preemptedReqIds := (p.preemptedReqs.map reqId).toFinset
     finishedReqIds := p.s.finishedReqIds
     freeEncoderMmHashes },
   { p.s with
     encoderCacheManager
     prevStepScheduledReqIds := p.numScheduledTokens.keySet
     world := X.endStep p.s.world })

end Pass

namespace Scheduler

variable (cfg : Config) {X : World} (s : Scheduler X)

/-- `_free_encoder_inputs` for one input: it is freed once its positions are computed. -/
def freeComputedInput (ref : Ref) (inputId : Nat) : Except PyError (Scheduler X) := do
  let request := s.objs ref
  let f ← request.mmFeature inputId
  if (cfg.isEncoderDecoder ∧ request.numComputedTokens > 0) ∨
      (f.stop : Int) ≤ request.numComputedTokens then do
    let encoderCacheManager ← s.encoderCacheManager.freeEncoderInput request inputId
    .ok { s with encoderCacheManager }
  else .ok s

def freeEncoderInputs (ref : Ref) : Except PyError (Scheduler X) :=
  (cfg.setOrder.order (s.encoderCacheManager.getCachedInputIds (s.objs ref))).foldlM
    (fun s inputId => s.freeComputedInput cfg ref inputId) s

/-- The request after its tokens were scheduled. -/
def advance (numScheduledToken : Int) (r : Request) : Request :=
  let numComputedTokens := r.numComputedTokens + numScheduledToken
  { r with
    numComputedTokens
    isPrefillChunk := decide (numComputedTokens < r.numTokens + r.numOutputPlaceholders) }

/-- `_update_after_schedule` of `Scheduler` for one request. -/
def advanceRequest (reqId : Nat) (numScheduledToken : Int) : Except PyError (Scheduler X) := do
  let ref ← s.lookup reqId
  let s := s.modify ref (advance numScheduledToken)
  if (s.objs ref).hasEncoderInputs then s.freeEncoderInputs cfg ref else .ok s

/-- The request after a step was scheduled that samples for it. -/
def addPlaceholders (curNumSpecTokens : Nat) (r : Request) : Request :=
  if r.isPrefillChunk then r
  else { r with
    numOutputPlaceholders := r.numOutputPlaceholders + 1 + curNumSpecTokens
    specTokenIds := List.replicate cfg.numSpecTokens (-1) }

/-- `_update_after_schedule` of `AsyncScheduler` for one request. -/
def placeholdersRequest (out : SchedulerOutput) (reqId : Nat) : Except PyError (Scheduler X) := do
  let ref ← s.lookup reqId
  .ok (s.modify ref
    (addPlaceholders cfg ((out.scheduledSpecDecodeTokens.get? reqId).getD []).length))

def updateAfterSchedule (out : SchedulerOutput) : Except PyError (Scheduler X) := do
  let s ← out.numScheduledTokens.entries.foldlM (fun s e => s.advanceRequest cfg e.1 e.2) s
  let s := { s with finishedReqIds := ∅ }
  if cfg.asyncScheduler then
    out.numScheduledTokens.entries.foldlM (fun s e => s.placeholdersRequest cfg out e.1) s
  else .ok s

/-- The local variables at the start of `schedule`. -/
def startPass : Pass X where
  s := { s with world := X.newStepStarts s.world }
  tokenBudget := if s.pauseState = .pausedAll then 0 else cfg.maxNumScheduledTokens
  encoderComputeBudget := cfg.maxNumEncoderInputTokens

/-- Both loops of `schedule`. -/
def runPass : Except PyError (Pass X) := do
  let p ← Pass.runningLoop cfg s.running.length (s.startPass cfg)
  let p ← p.recordLoras cfg
  p.scheduleWaiting cfg

def schedule : Except PyError (SchedulerOutput × Scheduler X) := do
  let p ← s.runPass cfg
  p.checkConstraints cfg
  p.checkResumed cfg
  let s ← p.output.2.updateAfterSchedule cfg p.output.1
  .ok (p.output.1, s)

end Scheduler

end MyOperator.Sched
