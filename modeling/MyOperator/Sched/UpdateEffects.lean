import MyOperator.Sched.Effects
import MyOperator.Sched.RequestEffects

/-!
# What the other operations change

As for `schedule`: one lemma per function, the state after it as the state before with
the attributes that it assigns.
-/

namespace MyOperator.Sched

open Lib
open KvCache (assert assert_eq_ok)

namespace Request

variable {H : Option BlockHasher} {r r' args : Request} {update : StreamingUpdate}

theorem init_effect (h : init H args = .ok r) :
    r.requestId = args.requestId ∧
      (r.status = .waiting ∨ r.status = .waitingForStructuredOutputGrammar) ∧
      r.streamingQueue = none ∧ r.resumable = args.resumable ∧
      r.arrivalTime = args.arrivalTime := by
  unfold init at h
  obtain ⟨⟨maxTokens, status⟩, hparams, h1⟩ := bind_ok h
  obtain ⟨numPromptTokens, -, h2⟩ := bind_ok h1
  obtain ⟨memo, hashes, rfl⟩ := updateBlockHashes_effect h2
  refine ⟨rfl, ?_, rfl, rfl, rfl⟩
  show status = .waiting ∨ status = .waitingForStructuredOutputGrammar
  unfold initParams at hparams
  split at hparams
  · cases hparams
    exact .inl rfl
  · rename_i params _ _
    have hstatus : status = if args.useStructuredOutput = true
        then .waitingForStructuredOutputGrammar else .waiting := by
      cases hparams
      rfl
    rw [hstatus]
    split
    · exact .inr rfl
    · exact .inl rfl
  · cases hparams

/-- The next chunk of the session is already there. -/
def hasNextUpdate (r : Request) : Prop :=
  r.resumable = true ∧ ∃ update rest, r.streamingQueue = some (some update :: rest)

/-- The session goes on: the kept tokens and those of the update are its new prompt. -/
theorem updateAsSession_effect (h : r.updateAsSession H update = .ok r') :
    ∃ promptTokenIds promptEmbedsPerBlockHashes hashes, r.promptTokenIds = some promptTokenIds ∧
      r' = { r with
        allTokenIds := pyTake r.allTokenIds r.numComputedTokens ++ update.promptTokenIds.getD []
        outputTokenIds := []
        promptTokenIds := some (promptTokenIds ++
          (pyTake r.allTokenIds r.numComputedTokens).drop r.numPromptTokens ++
          update.promptTokenIds.getD [])
        mmFeatures := r.mmFeatures ++
          update.mmFeatures.map (·.shift (pyTake r.allTokenIds r.numComputedTokens).length)
        promptEmbedsPerBlockHashes
        blockHashes := r.blockHashes ++ hashes
        numPromptTokens := (promptTokenIds ++
          (pyTake r.allTokenIds r.numComputedTokens).drop r.numPromptTokens ++
          update.promptTokenIds.getD []).length
        arrivalTime := update.arrivalTime
        samplingParams := update.samplingParams
        status := .waiting } := by
  unfold updateAsSession at h
  dsimp only at h
  split at h
  · cases h
  · rename_i promptTokenIds hprompt
    obtain ⟨r1, hhash, h1⟩ := bind_ok h
    obtain ⟨memo, hashes, rfl⟩ := updateBlockHashes_effect hhash
    cases h1
    exact ⟨promptTokenIds, memo, hashes, hprompt, rfl⟩

end Request

namespace Scheduler

variable {cfg : Config} {X : World} {s s' : Scheduler X} {ref : Ref}

/-! ## Enqueueing and freeing -/

/-- A request with a blocked status joins `skipped_waiting`, any other one `waiting`. -/
theorem enqueueWaitingRequest_effect (cfg : Config) (s : Scheduler X) (ref : Ref) :
    ((s.objs ref).status.isBlockedWaiting = true ∧ ∃ skippedWaiting,
      skippedWaiting.Perm (ref :: s.skippedWaiting) ∧
      s.enqueueWaitingRequest cfg ref = { s with skippedWaiting }) ∨
    ((s.objs ref).status.isBlockedWaiting = false ∧ ∃ waiting, waiting.Perm (ref :: s.waiting) ∧
      s.enqueueWaitingRequest cfg ref = { s with waiting }) := by
  unfold enqueueWaitingRequest
  split
  · rename_i hblocked
    exact .inl ⟨hblocked, _, RequestQueue.addRequest_perm, rfl⟩
  · rename_i hblocked
    exact .inr ⟨Bool.eq_false_iff.mpr hblocked, _, RequestQueue.addRequest_perm, rfl⟩

theorem freeBlocks_effect (h : s.freeBlocks ref = .ok s') :
    (s.objs ref).isFinished = true ∧ ∃ world, s' = { s with
      world
      requests := s.requests.erase (s.objs ref).requestId } := by
  obtain ⟨⟨⟩, hfin, h1⟩ := bind_ok h
  obtain ⟨r, -, h2⟩ := bind_ok h1
  cases h2
  exact ⟨assert_eq_ok.mp hfin, _, rfl⟩

theorem connectorFinished_effect (cfg : Config) (s : Scheduler X) (ref : Ref) :
    ∃ world, (s.connectorFinished cfg ref).2 = { s with world } := by
  unfold connectorFinished
  split
  · exact ⟨_, rfl⟩
  · exact ⟨_, rfl⟩

theorem freeRequest_effect {delayFreeBlocks : Bool}
    (h : s.freeRequest cfg ref delayFreeBlocks = .ok s') :
    (s.objs ref).isFinished = true ∧ ∃ encoderCacheManager world requests,
      s.encoderCacheManager.free cfg.setOrder (s.objs ref) = .ok encoderCacheManager ∧
      (requests = s.requests ∨ requests = s.requests.erase (s.objs ref).requestId) ∧ s' = { s with
        encoderCacheManager
        world
        requests
        finishedReqIds := insert (s.objs ref).requestId s.finishedReqIds } := by
  obtain ⟨⟨⟩, hfin, h1⟩ := bind_ok h
  refine ⟨assert_eq_ok.mp hfin, ?_⟩
  obtain ⟨world, hworld⟩ := connectorFinished_effect cfg s ref
  dsimp only at h1
  rw [hworld] at h1
  obtain ⟨m, hfree, h2⟩ := bind_ok h1
  split at h2
  · cases h2
    exact ⟨m, world, s.requests, hfree, .inl rfl, rfl⟩
  · obtain ⟨-, world', rfl⟩ := freeBlocks_effect h2
    exact ⟨m, world', _, hfree, .inr rfl, rfl⟩

theorem finishOne_effect {finishedStatus : RequestStatus}
    (h : s.finishOne cfg finishedStatus ref = .ok s') :
    finishedStatus.isFinished = true ∧
      ∃ encoderCacheManager world requests finishedRecvingKvReqIds failedRecvingKvReqIds,
        s.encoderCacheManager.free cfg.setOrder { s.objs ref with status := finishedStatus } =
          .ok encoderCacheManager ∧
        (requests = s.requests ∨ requests = s.requests.erase (s.objs ref).requestId) ∧
        s' = { s.modify ref (fun r => { r with status := finishedStatus }) with
          encoderCacheManager
          world
          requests
          finishedRecvingKvReqIds
          failedRecvingKvReqIds
          finishedReqIds := insert (s.objs ref).requestId s.finishedReqIds } := by
  have hmain : ∃ finishedRecvingKvReqIds failedRecvingKvReqIds delayFreeBlocks,
      (({ s with finishedRecvingKvReqIds, failedRecvingKvReqIds } : Scheduler X).modify ref
        fun r => { r with status := finishedStatus }).freeRequest cfg ref delayFreeBlocks =
          .ok s' := by
    unfold finishOne at h
    split at h
    · exact ⟨_, _, _, h⟩
    · exact ⟨_, _, _, h⟩
  obtain ⟨recving, failed, delay, hrun⟩ := hmain
  obtain ⟨hfin, m, world, requests, hfree, hreq, hs'⟩ := freeRequest_effect hrun
  rw [modify_self] at hfin hfree hreq hs'
  exact ⟨hfin, m, world, requests, recving, failed, hfree, hreq, hs'⟩

/-! ## Sessions -/

theorem updateRequestAsSession_effect {update : StreamingUpdate}
    (h : s.updateRequestAsSession cfg ref update = .ok s') :
    ∃ session numWaitingForStreamingInput,
      (s.objs ref).updateAsSession cfg.blockHasher update = .ok session ∧
      s' = { s.modify ref (fun _ => session) with numWaitingForStreamingInput } := by
  obtain ⟨session, hsession, h1⟩ := bind_ok h
  cases h1
  exact ⟨session, _, hsession, rfl⟩

/-- A request that stopped is done, or it goes on with the next update, or it waits for one. -/
theorem handleStoppedRequest_effect {finished : Bool}
    (h : s.handleStoppedRequest cfg ref = .ok (finished, s')) :
    (finished = true ∧ ¬ (s.objs ref).hasNextUpdate ∧ ∃ streamingQueue,
      s' = s.modify ref fun r => { r with streamingQueue }) ∨
    (finished = false ∧ (s.objs ref).hasNextUpdate ∧ ∃ update rest session
        numWaitingForStreamingInput waiting,
      (s.objs ref).streamingQueue = some (some update :: rest) ∧
      ({ s.objs ref with streamingQueue := some rest } : Request).updateAsSession cfg.blockHasher
        update = .ok session ∧
      waiting.Perm (ref :: s.waiting) ∧
      s' = { s.modify ref (fun _ => session) with numWaitingForStreamingInput, waiting }) ∨
    (finished = false ∧ ¬ (s.objs ref).hasNextUpdate ∧ ∃ numWaitingForStreamingInput skippedWaiting,
      skippedWaiting.Perm (ref :: s.skippedWaiting) ∧
      s' = { s.modify ref (fun r => { r with status := .waitingForStreamingReq }) with
        numWaitingForStreamingInput, skippedWaiting }) := by
  unfold handleStoppedRequest at h
  split at h
  · rename_i hres
    cases h
    refine .inl ⟨rfl, fun hnext => ?_, (s.objs ref).streamingQueue, (modify_eq_self rfl).symm⟩
    have htrue := hres.symm.trans hnext.1
    cases htrue
  · rename_i hres
    have hres : (s.objs ref).resumable = true := by simpa using hres
    split at h
    · rename_i rest hqueue
      cases h
      refine .inl ⟨rfl, ?_, _, rfl⟩
      rintro ⟨-, update, rest', hnext⟩
      rw [hqueue] at hnext
      cases hnext
    · rename_i update rest hqueue
      obtain ⟨s1, hsession, h1⟩ := bind_ok h
      obtain ⟨session, n, hupdate, rfl⟩ := updateRequestAsSession_effect hsession
      rw [modify_self] at hupdate
      rw [modify_modify] at h1
      obtain ⟨prompt, memo, hashes, -, heq⟩ := Request.updateAsSession_effect hupdate
      have hself : (s.modify ref fun _ => session).objs ref = session := modify_self _
      rcases enqueueWaitingRequest_effect cfg
          ({ s.modify ref (fun _ => session) with numWaitingForStreamingInput := n } : Scheduler X)
          ref with ⟨hblocked, -⟩ | ⟨-, waiting, hperm, hq⟩
      · rw [hself, heq] at hblocked
        cases hblocked
      · have h1 : (Except.ok (false, ({ s.modify ref (fun _ => session) with
            numWaitingForStreamingInput := n } : Scheduler X).enqueueWaitingRequest cfg ref) :
              Except PyError _) = .ok (finished, s') := h1
        rw [hq] at h1
        cases h1
        exact .inr (.inl ⟨rfl, ⟨hres, update, rest, hqueue⟩, update, rest, session, n, waiting,
          hqueue, hupdate, hperm, rfl⟩)
    · rename_i hnone hsome
      have hself : (s.modify ref fun r => { r with status := .waitingForStreamingReq }).objs ref =
          { s.objs ref with status := .waitingForStreamingReq } := modify_self _
      rcases enqueueWaitingRequest_effect cfg
          ({ s.modify ref (fun r => { r with status := .waitingForStreamingReq }) with
            numWaitingForStreamingInput := s.numWaitingForStreamingInput + 1 } : Scheduler X)
          ref with ⟨-, skippedWaiting, hperm, hq⟩ | ⟨hblocked, -⟩
      · have h1 : (Except.ok (false,
            ({ s.modify ref (fun r => { r with status := .waitingForStreamingReq }) with
              numWaitingForStreamingInput := s.numWaitingForStreamingInput + 1 } :
              Scheduler X).enqueueWaitingRequest cfg ref) : Except PyError _) =
            .ok (finished, s') := h
        rw [hq] at h1
        cases h1
        refine .inr (.inr ⟨rfl, ?_, _, skippedWaiting, hperm, rfl⟩)
        rintro ⟨-, update, rest, hnext⟩
        exact hsome update rest hnext
      · rw [hself] at hblocked
        cases hblocked

/-! ## Outputs -/

theorem takeBackDrafts_effect (s : Scheduler X) (ref : Ref) (drafts generated : List TokenId) :
    ∃ numComputedTokens numOutputPlaceholders, s.takeBackDrafts ref drafts generated =
      s.modify ref fun r => { r with numComputedTokens, numOutputPlaceholders } := by
  unfold takeBackDrafts
  split
  · exact ⟨(s.objs ref).numComputedTokens, (s.objs ref).numOutputPlaceholders,
      (modify_eq_self rfl).symm⟩
  · exact ⟨(rejectDrafts (drafts.length - (generated.length - 1)) (s.objs ref)).numComputedTokens,
      (rejectDrafts (drafts.length - (generated.length - 1)) (s.objs ref)).numOutputPlaceholders,
      modify_congr rfl⟩

end Scheduler

/-! ## Which outputs stop a request -/

/-- The tokens of a step, or the pooler's output, stop the request. -/
def Request.stopsOn (cfg : Config) (r : Request) (generatedTokenIds : List TokenId)
    (hasPoolerOutput : Bool) : Bool :=
  if generatedTokenIds ≠ [] then
    !(cfg.asyncScheduler && r.discardLatestAsyncTokens) &&
      match r.appendUntilStop cfg.blockHasher cfg.maxModelLen generatedTokenIds with
      | .ok ((_, stopped), _) => stopped
      | .error _ => false
  else r.poolingParams.isSome && hasPoolerOutput

theorem Request.stopsOn_withCounts {cfg : Config} {r : Request} {generatedTokenIds : List TokenId}
    {hasPoolerOutput : Bool} (n m k : Int) :
    (r.withCounts n m k).stopsOn cfg generatedTokenIds hasPoolerOutput =
      r.stopsOn cfg generatedTokenIds hasPoolerOutput := by
  unfold stopsOn
  rw [appendUntilStop_withCounts]
  cases happ : r.appendUntilStop cfg.blockHasher cfg.maxModelLen generatedTokenIds with
  | error e => rfl
  | ok x => rfl

namespace Scheduler

variable {cfg : Config} {X : World} {s s' : Scheduler X} {ref : Ref}

/-- What an output does to a request before a stop is handled: its status changes only with a
stop. -/
theorem updateStatus_effect {generatedTokenIds newTokenIds : List TokenId}
    {hasPoolerOutput stopped : Bool}
    (h : s.updateStatus cfg ref generatedTokenIds hasPoolerOutput = .ok ((newTokenIds, stopped), s')) :
    stopped = (s.objs ref).stopsOn cfg generatedTokenIds hasPoolerOutput ∧
      ∃ r' world, r'.requestId = (s.objs ref).requestId ∧
        (r'.priority = (s.objs ref).priority ∧ r'.arrivalTime = (s.objs ref).arrivalTime) ∧
        r'.mmFeatures = (s.objs ref).mmFeatures ∧
        r'.resumable = (s.objs ref).resumable ∧
        r'.streamingQueue = (s.objs ref).streamingQueue ∧
        (stopped = false → r'.status = (s.objs ref).status) ∧
        (stopped = true → r'.status.isFinished = true) ∧
        s' = { s.modify ref (fun _ => r') with world } := by
  have happend : ∀ {s1 : Scheduler X} {toks : List TokenId} {b : Bool},
      s.appendOutput cfg ref generatedTokenIds = .ok ((toks, b), s1) →
      ∃ r', (s.objs ref).appendUntilStop cfg.blockHasher cfg.maxModelLen generatedTokenIds =
          .ok ((toks, b), r') ∧ s1 = s.modify ref fun _ => r' := by
    intro s1 toks b hrun
    obtain ⟨⟨result, r'⟩, hr', hrun⟩ := bind_ok hrun
    cases hrun
    exact ⟨r', hr', rfl⟩
  unfold updateStatus at h
  unfold Request.stopsOn
  split at h
  · rename_i hne
    rw [if_pos hne]
    unfold updateRequestWithOutput at h
    split at h
    · rename_i hasync
      unfold appendOutputAsync at h
      split at h
      · rename_i hdiscard
        cases h
        refine ⟨?_, { s.objs ref with discardLatestAsyncTokens := false }, s.world, rfl, ⟨rfl, rfl⟩,
          rfl, rfl, rfl, fun _ => rfl, fun hs => (nomatch hs), rfl⟩
        rw [hasync, hdiscard]
        rfl
      · rename_i hdiscard
        obtain ⟨⟨⟨toks, b⟩, s1⟩, hrun, h1⟩ := bind_ok h
        obtain ⟨r', hr', rfl⟩ := happend hrun
        dsimp only at h1
        rw [modify_modify] at h1
        obtain ⟨⟨⟩, -, h2⟩ := bind_ok h1
        cases h2
        obtain ⟨happ, -⟩ := Request.appendUntilStop_effect hr'
        obtain ⟨memo, hashes, heq⟩ := happ.eq
        refine ⟨?_, { r' with numOutputPlaceholders :=
          r'.numOutputPlaceholders - newTokenIds.length }, _, ?_, ?_, ?_, ?_, ?_, happ.running,
          happ.finished, rfl⟩
        · rw [hr', Bool.eq_false_iff.mpr hdiscard, Bool.and_false]
          rfl
        · rw [heq]
        · rw [heq]
          exact ⟨rfl, rfl⟩
        · rw [heq]
        · rw [heq]
        · rw [heq]
    · rename_i hsync
      obtain ⟨r', hr', rfl⟩ := happend h
      obtain ⟨happ, -⟩ := Request.appendUntilStop_effect hr'
      obtain ⟨memo, hashes, heq⟩ := happ.eq
      refine ⟨?_, r', s.world, ?_, ?_, ?_, ?_, ?_, happ.running, happ.finished, rfl⟩
      · rw [hr', Bool.eq_false_iff.mpr hsync]
        rfl
      · rw [heq]
      · rw [heq]
        exact ⟨rfl, rfl⟩
      · rw [heq]
      · rw [heq]
      · rw [heq]
  · rename_i hnil
    rw [if_neg hnil]
    split at h
    · rename_i hpool
      cases h
      refine ⟨?_, { s.objs ref with status := .finishedStopped }, s.world, rfl, ⟨rfl, rfl⟩, rfl, rfl,
        rfl, fun hs => (nomatch hs), fun _ => rfl, rfl⟩
      rw [hpool.1, hpool.2]
      rfl
    · rename_i hpool
      cases h
      refine ⟨?_, s.objs ref, s.world, rfl, ⟨rfl, rfl⟩, rfl, rfl, rfl, fun _ => rfl, fun hs => (nomatch hs), ?_⟩
      · symm
        rw [Bool.and_eq_false_iff]
        by_contra hcon
        rw [not_or, Bool.not_eq_false, Bool.not_eq_false] at hcon
        exact hpool hcon
      · rw [modify_eq_self rfl]

/-! ## The parts that keep a property -/

section

variable {P : Scheduler X → Prop} {outputs : List EngineCoreOutput} {failed : List Nat}
  {out : SchedulerOutput} {mro : ModelRunnerOutput}

/-- `reset_prefix_cache` preempts all running requests or none. After that it changes no request and no
queue. -/
theorem resetPrefixCache_keeps {resetRunningRequests resetConnector b : Bool}
    (hworld : ∀ t world ids, P t → P { t with world, prevStepScheduledReqIds := ids })
    (hs : P s)
    (hall : ∀ t, resetRunningRequests = true →
      forcePreemptAll cfg s.running.reverse s = .ok t → P t)
    (h : s.resetPrefixCache cfg resetRunningRequests resetConnector = .ok (b, s')) : P s' := by
  obtain ⟨s1, hreset, h1⟩ := bind_ok h
  have hs1 : P s1 := by
    split at hreset
    · rename_i hb
      obtain ⟨s2, hrun, hreset⟩ := bind_ok hreset
      cases hreset
      exact hworld s2 s2.world ∅ (hall s2 hb hrun)
    · cases hreset
      exact hs
  dsimp only at h1
  split at h1
  · cases h1
  · split at h1
    · cases h1
      exact hworld s1 _ s1.prevStepScheduledReqIds hs1
    · cases h1
      exact hworld s1 _ s1.prevStepScheduledReqIds hs1

theorem failRequests_effect (h : s.failRequests cfg failed = .ok (outputs, s')) :
    s' = s ∨ cfg.recomputeKvLoadFailures = false ∧
      s.finishRequests cfg (some (cfg.setOrder.order failed)) .finishedError = .ok s' := by
  unfold failRequests at h
  split at h
  · rename_i hpolicy
    obtain ⟨refs, -, h1⟩ := bind_ok h
    obtain ⟨s1, hfinish, h2⟩ := bind_ok h1
    cases h2
    exact .inr ⟨hpolicy.2, hfinish⟩
  · cases h
    exact .inl rfl

variable
  (hworld : ∀ t world ids, P t → P { t with world, finishedRecvingKvReqIds := ids })
  (hfree : ∀ t t' reqId ref, P t → t.requests.get? reqId = some ref → t.freeBlocks ref = .ok t' →
    P t')
include hworld hfree

/-- The finished transfers free the blocks of registered requests. -/
theorem updateFromKvXferFinished_keeps {kv : KVConnectorOutput} (hs : P s)
    (h : s.updateFromKvXferFinished cfg kv = .ok s') : P s' := by
  obtain ⟨s1, hrecving, hsending⟩ := bind_ok h
  have hstart : P (if cfg.hasConnector then { s with world := X.updateConnectorOutput s.world }
      else s) := by
    split
    · exact hworld s _ s.finishedRecvingKvReqIds hs
    · exact hs
  have h1 : P s1 := by
    refine foldlM_keeps (P := P) ?_ hstart hrecving
    intro t id _ t' ht hstep
    unfold finishRecving at hstep
    split at hstep
    · cases hstep
    · rename_i ref hget
      split at hstep
      · cases hstep
        exact hworld t t.world _ ht
      · exact hfree t t' id ref ht hget hstep
  refine foldlM_keeps (P := P) ?_ h1 hsending
  intro t id _ t' ht hstep
  unfold finishSending at hstep
  split at hstep
  · cases hstep
  · rename_i ref hget
    exact hfree t t' id ref ht hget hstep

/-- After its loop `update_from_output` finishes the failed requests, then it looks at the transfers. -/
theorem updateFromOutput_keeps (h : s.updateFromOutput cfg out mro = .ok (outputs, s')) :
    ∃ p failedOutputs s2,
      out.numScheduledTokens.entries.foldlM (fun p e => p.processScheduled cfg out mro
        (s.handleFailedLoads cfg out mro).1 e.1 e.2)
        ({ s := (s.handleFailedLoads cfg out mro).2 } : UpdatePass X) = .ok p ∧
      (p.removeStopped cfg).failRequests cfg (s.handleFailedLoads cfg out mro).1 =
        .ok (failedOutputs, s2) ∧ (P s2 → P s') := by
  obtain ⟨p, hloop, h1⟩ := bind_ok h
  obtain ⟨⟨failedOutputs, s2⟩, hfail, h2⟩ := bind_ok h1
  obtain ⟨s3, hkv, h3⟩ := bind_ok h2
  cases h3
  refine ⟨p, failedOutputs, s2, hloop, hfail, fun hs2 => ?_⟩
  refine hworld s3 _ s3.finishedRecvingKvReqIds ?_
  split at hkv
  · cases hkv
    exact hs2
  · exact updateFromKvXferFinished_keeps hworld hfree hs2 hkv

end

end Scheduler

namespace UpdatePass

variable {cfg : Config} {X : World} {p p' : UpdatePass X} {ref : Ref}

/-- The output of one request changes it, and if it stops the stop is handled. -/
theorem processOutput_effect {drafts generatedTokenIds : List TokenId} {hasPoolerOutput : Bool}
    (h : p.processOutput cfg ref drafts generatedTokenIds hasPoolerOutput = .ok p') :
    ∃ r' world p1, r'.requestId = (p.s.objs ref).requestId ∧
      (r'.priority = (p.s.objs ref).priority ∧ r'.arrivalTime = (p.s.objs ref).arrivalTime) ∧
      r'.mmFeatures = (p.s.objs ref).mmFeatures ∧
      r'.resumable = (p.s.objs ref).resumable ∧
      r'.streamingQueue = (p.s.objs ref).streamingQueue ∧
      (((p.s.objs ref).stopsOn cfg generatedTokenIds hasPoolerOutput = false ∧
        r'.status = (p.s.objs ref).status ∧
        p1 = { p with s := { p.s.modify ref (fun _ => r') with world } }) ∨
      ((p.s.objs ref).stopsOn cfg generatedTokenIds hasPoolerOutput = true ∧
        r'.status.isFinished = true ∧
        ({ p with s := { p.s.modify ref (fun _ => r') with world } } : UpdatePass X).stopRequest
          cfg ref (p.s.objs ref).status = .ok p1)) ∧
      ∃ world outputs, p' = { p1 with s := { p1.s with world }, outputs } := by
  unfold processOutput at h
  obtain ⟨n, k, hback⟩ := Scheduler.takeBackDrafts_effect p.s ref drafts generatedTokenIds
  dsimp only at h
  rw [hback] at h
  obtain ⟨⟨⟨newTokenIds, stopped⟩, s2⟩, hupdate, h1⟩ := bind_ok h
  obtain ⟨p1, hstop, h2⟩ := bind_ok h1
  obtain ⟨hstopped, r', world, hid, horder, hmm, hres, hqueue, hrun, hfin, rfl⟩ :=
    Scheduler.updateStatus_effect hupdate
  rw [Scheduler.modify_self] at hstopped hid horder hmm hres hqueue hrun
  rw [Scheduler.modify_modify, Scheduler.modify_self] at hstop
  have hcounts : (p.s.objs ref).stopsOn cfg generatedTokenIds hasPoolerOutput = stopped := by
    rw [hstopped]
    exact (Request.stopsOn_withCounts n (p.s.objs ref).numExternalComputedTokens k).symm
  refine ⟨r', world, p1, hid, horder, hmm, hres, hqueue, ?_, ?_⟩
  · cases stopped with
    | true => exact .inr ⟨hcounts, hfin rfl, hstop⟩
    | false =>
      cases hstop
      exact .inl ⟨hcounts, hrun rfl, rfl⟩
  · -- what follows changes no request
    by_cases hnil : newTokenIds = []
    · split at h2 <;> cases h2 <;> exact ⟨_, _, rfl⟩
    · split at h2 <;> cases h2 <;> exact ⟨_, _, rfl⟩

end UpdatePass

end MyOperator.Sched
