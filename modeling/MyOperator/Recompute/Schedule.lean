import MyOperator.Sched.Update

/-!
# The recompute scheduler

`RecomputeScheduler` of the Ascend plugin copies `schedule` of `Scheduler` and changes
two things. Where blocks are short on an instance that is no KV producer, a running
request is not preempted but dropped: the proxy of the disaggregated deployment computes
it again. And on a KV consumer with speculative decoding a new request gets placeholder
drafts, which are scheduled along with its tokens.

What the copy has in common with the base class is taken from the model of the base class.
-/

namespace MyOperator.Recompute

open Lib
open Sched
open KvCache (assert)

/-! ## The configuration -/

inductive KVRole
  | kvProducer
  | kvConsumer
  | kvBoth
  deriving DecidableEq, Repr

/-- `KVTransferConfig`, as far as the scheduler reads it. -/
structure KVTransferConfig where
  /-- `kv_connector is not None`. -/
  hasKvConnector : Bool := true
  kvRole : Option KVRole := none
  deriving DecidableEq, Repr

namespace KVTransferConfig

def isKvProducer (c : KVTransferConfig) : Bool :=
  c.hasKvConnector && decide (c.kvRole = some .kvProducer ∨ c.kvRole = some .kvBoth)

def isKvConsumer (c : KVTransferConfig) : Bool :=
  c.hasKvConnector && decide (c.kvRole = some .kvConsumer ∨ c.kvRole = some .kvBoth)

end KVTransferConfig

/-- What is fixed when a `RecomputeScheduler` is constructed. The class is
`AsyncRecomputeScheduler` when `asyncScheduler` holds. -/
structure RecomputeConfig extends Config where
  /-- There is a `speculative_config`. -/
  hasSpeculativeConfig : Bool := false
  kvTransferConfig : Option KVTransferConfig := none
  isHybridModel : Bool := false
  /-- The number of KV cache groups, `len(block_ids)`. -/
  numKvCacheGroups : Nat := 1

namespace RecomputeConfig

variable (cfg : RecomputeConfig)

def isMtpKvConsumer : Bool :=
  cfg.hasSpeculativeConfig && cfg.kvTransferConfig.any KVTransferConfig.isKvConsumer

def isKvProducer : Bool := cfg.kvTransferConfig.any KVTransferConfig.isKvProducer

/-- `transfer_config is not None and not transfer_config.is_kv_producer`. -/
def dropsRequests : Bool := cfg.kvTransferConfig.any fun c => !c.isKvProducer

end RecomputeConfig

structure RecomputeReqInfo where
  requestId : Nat
  outputTokenIds : List TokenId
  deriving DecidableEq, Repr

structure RecomputeSchedulerOutput extends SchedulerOutput where
  recomputedReqs : List RecomputeReqInfo := []

/-- The local variables of `schedule`. -/
structure RecomputePass (X : World) extends Pass X where
  recomputedReqs : List RecomputeReqInfo := []

/-! ## `add_request` -/

/-- "Fill in placeholder tokens": the last token of the prompt goes. -/
def popLastToken (request : Request) : Except PyError Request :=
  match request.promptTokenIds with
  | none => .error (.AttributeError "'NoneType' object has no attribute 'pop'")
  | some [] => .error (.IndexError "pop from empty list")
  | some promptTokenIds => .ok { request with
      promptTokenIds := some promptTokenIds.dropLast
      allTokenIds := request.allTokenIds.dropLast
      numPromptTokens := request.numPromptTokens - 1 }

/-- The drafts of a new request: `[PLACEHOLDER_TOKEN_ID] * self.num_spec_tokens`. -/
def placeholderTokens (cfg : RecomputeConfig) : List TokenId := List.replicate cfg.numSpecTokens (-1)

section

variable (cfg : RecomputeConfig) {X : World}

/-- A new request as `add_request` enqueues it. -/
def newRequest (request : Request) : Except PyError Request := do
  let request := if request.resumable then { request with streamingQueue := some [] } else request
  let request ← (if cfg.isKvProducer ∧ cfg.isHybridModel ∧ request.numTokens > 1 then
      popLastToken request
    else .ok request)
  .ok (if cfg.isMtpKvConsumer then { request with specTokenIds := placeholderTokens cfg }
    else request)

/-- `add_request`. A request that exists already is treated as in the base class. -/
def addRequest (s : Scheduler X) (request : Request) : Except PyError (Scheduler X) :=
  match s.requests.get? request.requestId with
  | some _ => s.addRequest cfg.toConfig request
  | none => do
      let request ← newRequest cfg request
      let ref := s.numObjs
      let s := (s.alloc request).enqueueWaitingRequest cfg.toConfig ref
      .ok { s with requests := s.requests.set request.requestId ref }

/-! ## The running requests -/

/-- "We add the preempted_req to recomputed_reqs in kv_consumer to drop the request to PD
proxy." -/
def dropVictim (p : RecomputePass X) : Except PyError (Ref × RecomputePass X) :=
  match p.s.running.getLast? with
  | none => .error (.IndexError "pop from empty list")
  | some victim =>
    let request := p.s.objs victim
    .ok (victim, { p with
      s := { p.s with
        running := p.s.running.dropLast
        world := X.freeKv request p.s.world }
      recomputedReqs := p.recomputedReqs ++ [⟨request.requestId, request.outputTokenIds⟩] })

/-- "The request cannot be scheduled": drop or preempt one. -/
def makeRoom (p : RecomputePass X) : Except PyError (Ref × RecomputePass X) :=
  if cfg.dropsRequests then dropVictim p
  else do
    let (victim, q) ← p.popVictim cfg.toConfig
    let q ← q.preemptVictim cfg.toConfig victim
    .ok (victim, { p with toPass := q })

/-- `while True: new_blocks = allocate_slots(..)`: allocate, or make room and try again. The value
is whether there are new blocks. -/
def allocateRunning (ref : Ref) (numNewTokens : Int) :
    Nat → RecomputePass X → Except PyError (Bool × RecomputePass X)
  | 0, _ => .error (.RuntimeError "no request left to preempt")
  | fuel + 1, p => do
      let (allocated, world) ← X.allocateSlots (p.s.objs ref)
        { numNewTokens, numLookaheadTokens := cfg.numLookaheadTokens } p.s.world
      let p := { p with toPass := p.setWorld world }
      if allocated then .ok (true, p)
      else do
        let (victim, p) ← makeRoom cfg p
        if victim = ref then .ok (false, p) else allocateRunning ref numNewTokens fuel p

/-- One iteration of the loop over the running requests, for the request at `req_index`. -/
def runningStep (p : RecomputePass X) (ref : Ref) : Except PyError (Flow (RecomputePass X)) :=
  let request := p.s.objs ref
  if Pass.reachedMaxTokens request then
    .ok (.next { p with reqIndex := p.reqIndex + 1 })
  else do
    let (work, q) ← p.scheduleEncoderInputs cfg.toConfig ref request.numComputedTokens
      (Pass.runningNumNewTokens cfg.toConfig request p.tokenBudget)
    let numNewTokens ← Pass.split cfg.toConfig request work.numNewTokens 0 0
    if numNewTokens = 0 then
      .ok (.next { p with toPass := { q with reqIndex := q.reqIndex + 1 } })
    else do
      let (allocated, p) ← allocateRunning cfg ref numNewTokens (q.s.running.length + 1)
        { p with toPass := q }
      if allocated then do
        let q ← p.scheduleRunning cfg.toConfig ref { work with numNewTokens }
        .ok (.next { p with toPass := q })
      else .ok (.stop p)

/-- The loop over the running requests. An iteration moves `req_index` or shortens `running`. -/
def runningLoop : Nat → RecomputePass X → Except PyError (RecomputePass X)
  | 0, p => .ok p
  | fuel + 1, p =>
    match p.s.running[p.reqIndex]? with
    | none => .ok p
    | some ref =>
      if p.tokenBudget ≤ 0 then .ok p
      else do
        match ← runningStep cfg p ref with
        | .next p => runningLoop fuel p
        | .stop p => .ok p

/-! ## The waiting requests -/

/-- The tokens of a request whose blocks `block_ids` were loaded. "On a full prompt hit, we need to
re-compute the last token." -/
def numLoadedTokens (request : Request) (blockIds : List Nat) : Int :=
  let numComputedTokens : Int :=
    if cfg.numKvCacheGroups = 1 then min (blockIds.length * cfg.blockSize) request.numTokens
    else request.numTokens
  if numComputedTokens = request.numTokens then numComputedTokens - 1 else numComputedTokens

def updateWaitingForRemoteKv (p : Pass X) (ref : Ref) : Except PyError (Pass X) := do
  assert cfg.hasConnector ""
  let request := p.s.objs ref
  let reqId := request.requestId
  let s := p.s
  let s := if reqId ∈ s.failedRecvingKvReqIds then
      { s with
        world := if request.numComputedTokens ≠ 0 then
            X.cacheBlocks request request.numComputedTokens s.world
          else X.freeKv request s.world
        failedRecvingKvReqIds := s.failedRecvingKvReqIds.erase reqId }
    else
      let numComputedTokens := numLoadedTokens cfg request (X.getBlockIds reqId s.world)
      { s with world := X.cacheBlocks request numComputedTokens s.world }.modify ref
        fun r => { r with numComputedTokens }
  .ok { p with s := { s with
    finishedRecvingKvReqIds := s.finishedRecvingKvReqIds.erase reqId } }

/-- `_try_promote_blocked_waiting_request`, which calls the `_update_waiting_for_remote_kv` of this
class. -/
def tryPromoteBlockedWaitingRequest (p : Pass X) (ref : Ref) : Except PyError (Bool × Pass X) :=
  let request := p.s.objs ref
  match request.status with
  | .waitingForRemoteKvs =>
    if request.requestId ∉ p.s.finishedRecvingKvReqIds then .ok (false, p)
    else do
      let p ← updateWaitingForRemoteKv cfg p ref
      .ok (true, p.modify ref fun r => { r with
        status := if r.numPreemptions ≠ 0 then .preempted else .waiting })
  | _ => p.tryPromoteBlockedWaitingRequest cfg.toConfig ref

/-- "try to promote blocked statuses while traversing skipped queue": whether the request may be
scheduled. -/
def promote (p : Pass X) (ref : Ref) : Except PyError (Bool × Pass X) :=
  if (p.s.objs ref).status.isBlockedWaiting then tryPromoteBlockedWaitingRequest cfg p ref
  else .ok (true, p)

/-- "Number of tokens to be scheduled", before the budgets are looked at. -/
def waitingNumTokens (request : Request) (numComputedTokens : Int) : Int :=
  if cfg.isMtpKvConsumer then request.numTokensWithSpec - numComputedTokens
  else request.numTokens - numComputedTokens

/-- The work of a waiting request; `none` ends the loop. -/
def planWaiting (p : Pass X) (ref : Ref) (computed : Pass.Computed X) :
    Except PyError (Option Work × Pass X) :=
  let request := p.s.objs ref
  if computed.loadKvAsync then do
    assert (computed.numExternalComputedTokens > 0) ""
    let numNewTokens ← Pass.split cfg.toConfig request 0 computed.numNewLocalComputedTokens
      computed.numExternalComputedTokens
    if cfg.needMambaBlockAlignedSplit ∧ numNewTokens = 0 then .ok (none, p)
    else .ok (some { numNewTokens, encoderComputeBudget := p.encoderComputeBudget }, p)
  else
    let numNewTokens := waitingNumTokens cfg request computed.numComputedTokens
    let threshold := cfg.longPrefillTokenThreshold
    let numNewTokens :=
      if 0 < threshold ∧ threshold < numNewTokens then threshold else numNewTokens
    if cfg.enableChunkedPrefill = false ∧ numNewTokens > p.tokenBudget then .ok (none, p)
    else do
      let numNewTokens := min numNewTokens p.tokenBudget
      assert (numNewTokens > 0) ""
      let (work, p) ← p.scheduleEncoderInputs cfg.toConfig ref computed.numComputedTokens numNewTokens
      if request.hasEncoderInputs ∧ work.numNewTokens = 0 then .ok (none, p)
      else do
        let numNewTokens ← Pass.split cfg.toConfig request work.numNewTokens
          computed.numNewLocalComputedTokens computed.numExternalComputedTokens
        if cfg.needMambaBlockAlignedSplit ∧ numNewTokens = 0 then .ok (none, p)
        else .ok (some { work with numNewTokens }, p)

/-- `allocate_slots`. The copy has no `scheduler_reserve_full_isl`. -/
def allocateWaiting (p : Pass X) (ref : Ref) (computed : Pass.Computed X) (work : Work) :
    Except PyError (Bool × Pass X) :=
  p.allocateWaiting { cfg.toConfig with schedulerReserveFullIsl := false } ref computed work

/-- "For spec_token_ids, the waiting queue has the same processing as the running queue." -/
def scheduleWaitingSpecTokens (p : Pass X) (ref : Ref) (numNewTokens : Int) : Pass X :=
  if cfg.isMtpKvConsumer then p.scheduleSpecTokens ref numNewTokens else p

/-- The request has new blocks. -/
def admitOrLoad (p : Pass X) (source : Pass.Source) (ref : Ref) (computed : Pass.Computed X)
    (work : Work) : Except PyError (Pass X) := do
  let p ← (p.updateConnector cfg.toConfig ref computed).popRequest cfg.toConfig source
  if computed.loadKvAsync then .ok (p.startLoad cfg.toConfig ref computed)
  else
    (scheduleWaitingSpecTokens cfg p ref work.numNewTokens).admitRequest cfg.toConfig ref computed work

/-- One iteration of the loop over the waiting requests, for the request at the head of its
queue. -/
def waitingStep (p : Pass X) (source : Pass.Source) (ref : Ref) : Except PyError (Flow (Pass X)) := do
  let (promoted, p) ← promote cfg p ref
  if promoted = false ∨ p.exceedsMaxLoras cfg.toConfig (p.s.objs ref) then do
    let p ← p.skipRequest cfg.toConfig source ref
    .ok (.next p)
  else do
    let (computed?, p) ← p.getComputed cfg.toConfig ref
    match computed? with
    | none => do
        let p ← p.skipRequest cfg.toConfig source ref
        .ok (.next p)
    | some computed => do
        let (work?, p) ← planWaiting cfg p ref computed
        match work? with
        | none => .ok (.stop p)
        | some work => do
            let (allocated, p) ← allocateWaiting cfg p ref computed work
            if allocated then do
              let p ← admitOrLoad cfg p source ref computed work
              .ok (.next p)
            else do
              let p ← p.untouchEncoder cfg.toConfig ref
              .ok (.stop p)

/-- The loop over the waiting requests. -/
def waitingLoop : Nat → Pass X → Except PyError (Pass X)
  | 0, p => .ok p
  | fuel + 1, p =>
    if (p.s.waiting = [] ∧ p.s.skippedWaiting = []) ∨ p.tokenBudget ≤ 0 ∨
        p.s.running.length = cfg.maxNumRunningReqs then .ok p
    else do
      let source := p.selectQueue cfg.toConfig
      let ref ← (p.queue source).peekRequest cfg.policy
      match ← waitingStep cfg p source ref with
      | .next p => waitingLoop fuel p
      | .stop p => .ok p

/-- "Next, schedule the WAITING requests." -/
def scheduleWaiting (p : RecomputePass X) : Except PyError (RecomputePass X) :=
  if p.preemptedReqs = [] ∧ p.recomputedReqs = [] ∧ p.s.pauseState = .unpaused then do
    let q ← waitingLoop cfg (p.s.waiting.length + p.s.skippedWaiting.length) p.toPass
    .ok { p with toPass := q.requeueSkipped cfg.toConfig }
  else .ok p

/-! ## `schedule` and `update_from_output` -/

/-- Both loops of `schedule`. -/
def runPass (s : Scheduler X) : Except PyError (RecomputePass X) := do
  let p ← runningLoop cfg s.running.length { toPass := s.startPass cfg.toConfig }
  let q ← p.recordLoras cfg.toConfig
  scheduleWaiting cfg { p with toPass := q }

def schedule (s : Scheduler X) : Except PyError (RecomputeSchedulerOutput × Scheduler X) := do
  let p ← runPass cfg s
  p.checkConstraints cfg.toConfig
  p.checkResumed cfg.toConfig
  let s ← p.output.2.updateAfterSchedule cfg.toConfig p.output.1
  .ok ({ toSchedulerOutput := p.output.1, recomputedReqs := p.recomputedReqs }, s)

/-- `EngineCoreOutput` with its stop reason; those of the base class are left out. -/
structure RecomputeCoreOutput extends EngineCoreOutput where
  stopReason : Option String := none
  deriving DecidableEq

/-- "return recomputed requests as EngineCoreOutput". -/
def recomputedOutputs (out : RecomputeSchedulerOutput) : List RecomputeCoreOutput :=
  out.recomputedReqs.map fun info =>
    { requestId := info.requestId
      newTokenIds := []
      finishReason := some .stop
      stopReason := some "recomputed" }

/-- `update_from_output`. The copy calls `_handle_invalid_blocks` without `num_scheduled_tokens`. -/
def updateFromOutput (s : Scheduler X) (out : RecomputeSchedulerOutput) (mro : ModelRunnerOutput) :
    Except PyError (List RecomputeCoreOutput × Scheduler X) :=
  if mro.kvConnectorOutput.any fun kv => decide (kv.invalidBlockIds ≠ ∅) then
    .error (.TypeError
      "Scheduler._handle_invalid_blocks() missing 1 required positional argument: 'num_scheduled_tokens'")
  else do
    let (outputs, s) ← s.updateFromOutput cfg.toConfig out.toSchedulerOutput mro
    .ok (recomputedOutputs out ++ outputs.map fun o => { toEngineCoreOutput := o }, s)

end

end MyOperator.Recompute
