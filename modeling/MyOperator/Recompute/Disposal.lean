import MyOperator.Recompute.Places

/-!
# The disposal of a request

A request that `schedule` drops is taken from `running` and its KV blocks are freed, and
that is all: it stays in `requests` with the status `RUNNING`, and its next output is
processed. So a step leaves nothing of the requests that it drops exactly when it drops
none (`disposal`), which is when the loop of the base class would preempt nobody.
-/

namespace MyOperator.Recompute

open Lib
open Sched

/-! ## The calls that free KV blocks -/

/-- The same world with the ids that `kv_cache_manager.free` was called for. -/
def logged (X : World) : World where
  State := X.State × List Nat
  Blocks := X.Blocks
  newStepStarts := fun w => (X.newStepStarts w.1, w.2)
  getComputedBlocks := fun r w =>
    ((X.getComputedBlocks r w.1).1, ((X.getComputedBlocks r w.1).2, w.2))
  emptyKvCacheBlocks := X.emptyKvCacheBlocks
  canFitFullSequence := fun r a b c d w => X.canFitFullSequence r a b c d w.1
  allocateSlots := fun r args w => (X.allocateSlots r args w.1).map fun o => (o.1, (o.2, w.2))
  freeKv := fun r w => (X.freeKv r w.1, w.2 ++ [r.requestId])
  cacheBlocks := fun r n w => (X.cacheBlocks r n w.1, w.2)
  evictBlocks := fun ids w => (X.evictBlocks ids w.1, w.2)
  getBlockIds := fun id w => X.getBlockIds id w.1
  resetPrefixCache := fun w => ((X.resetPrefixCache w.1).1, ((X.resetPrefixCache w.1).2, w.2))
  endStep := fun w => (X.endStep w.1, w.2)
  getNumNewMatchedTokens := fun r n w =>
    ((X.getNumNewMatchedTokens r n w.1).1, ((X.getNumNewMatchedTokens r n w.1).2, w.2))
  updateStateAfterAlloc := fun r n w => (X.updateStateAfterAlloc r n w.1, w.2)
  requestFinished := fun r w => ((X.requestFinished r w.1).1, ((X.requestFinished r w.1).2, w.2))
  updateConnectorOutput := fun w => (X.updateConnectorOutput w.1, w.2)
  resetCache := fun w => ((X.resetCache w.1).1, ((X.resetCache w.1).2, w.2))
  hasCacheItem := fun w hash => X.hasCacheItem w.1 hash
  ecUpdateStateAfterAlloc := fun r i w => (X.ecUpdateStateAfterAlloc r i w.1, w.2)
  hasGrammar := fun r w => X.hasGrammar r w.1
  acceptTokens := fun r ids w => (X.acceptTokens r ids w.1, w.2)
  validateTokens := fun r ids w => X.validateTokens r ids w.1

/-- An output in the encoder cache is held for the request. -/
def References (reqId : Nat) : EncoderManager → Prop
  | .multimodal m => ∃ mmHash refs, m.cached.get? mmHash = some refs ∧ reqId ∈ refs
  | .encoderDecoder _ => False

/-- A step that drops the request leaves nothing of it. -/
structure LeavesNothing {X : World} (s s' : Scheduler (logged X)) (reqId : Nat) : Prop where
  forgotten : s'.requests.get? reqId = none
  notQueued : ∀ ref ∈ s'.running ++ s'.waiting ++ s'.skippedWaiting, (s'.objs ref).requestId ≠ reqId
  unreferenced : ¬ References reqId s'.encoderCacheManager
  freedOnce : s'.world.2.count reqId = s.world.2.count reqId + 1
  /-- `update_from_output` finds no request to process an output for. -/
  ignored : s'.unfinished? reqId = none

variable {cfg : RecomputeConfig} {X : World} {s s' : Scheduler X} {out : RecomputeSchedulerOutput}

/-- On an instance that drops requests, the loop of the base class would preempt nobody: all
running requests get their blocks. -/
def DropFree (cfg : RecomputeConfig) (s : Scheduler X) : Prop :=
  cfg.dropsRequests = true → ∃ p,
    Pass.runningLoop cfg.toConfig s.running.length (s.startPass cfg.toConfig) = .ok p ∧
      p.preemptedReqs = []

theorem dropFree_iff (h : schedule cfg s = .ok (out, s')) :
    out.recomputedReqs = [] ↔ DropFree cfg s := by
  obtain ⟨r, hrun, rfl, -⟩ := schedule_eq_ok h
  obtain ⟨p, loras, hloop, hrec, -⟩ := runPass_eq_ok hrun
  show r.recomputedReqs = [] ↔ _
  rw [hrec]
  constructor
  · intro hnone hdrop
    exact ⟨p.toPass, runningLoop_eq_base hloop hnone, (runningLoop_drops hdrop hloop).preempted⟩
  · intro hfree
    cases hdrop : cfg.dropsRequests with
    | false => exact runningLoop_keeps hdrop hloop
    | true =>
      obtain ⟨t, hbase, hnone⟩ := hfree hdrop
      have hsame := runningLoop_of_base (p := { toPass := s.startPass cfg.toConfig }) hbase hnone
      rw [hloop] at hsame
      cases hsame
      rfl

theorem dropped_known (hs : s.places.Partition []) (h : schedule cfg s = .ok (out, s'))
    {info : RecomputeReqInfo} (hinfo : info ∈ out.recomputedReqs) :
    ∃ ref, s'.requests.get? info.requestId = some ref ∧ (s'.objs ref).status = .running := by
  obtain ⟨r, hrun, rfl, hafter⟩ := schedule_eq_ok h
  obtain ⟨p, loras, hloop, hrec, hwaiting⟩ := runPass_eq_ok hrun
  rw [hrec] at hinfo
  cases hdrop : cfg.dropsRequests with
  | false =>
    rw [runningLoop_keeps hdrop hloop] at hinfo
    cases hinfo
  | true =>
    have hdrops := runningLoop_drops hdrop hloop
    -- no waiting request is looked at in a step that drops one
    have hr : r = { p with scheduledLoras := loras } := by
      unfold scheduleWaiting at hwaiting
      split at hwaiting
      · rename_i hopen
        have hnone : p.recomputedReqs = [] := hopen.2.1
        rw [hnone] at hinfo
        cases hinfo
      · cases hwaiting
        rfl
    rcases hdrops.dropped info hinfo with hin | ⟨ref, href, hid⟩
    · cases hin
    · have hplaces := Scheduler.updateAfterSchedule_places hafter
      have hknown := hs.known ref (Places.mem_queued.mpr ⟨.running, href⟩)
      have hstatus := hs.fits .running ref href
      refine ⟨ref, ?_, ?_⟩
      · calc s'.requests.get? info.requestId = r.s.requests.get? info.requestId :=
              congrFun (congrArg (·.requests) hplaces) _
          _ = s.requests.get? info.requestId := by
              rw [hr]
              exact congrArg (·.get? info.requestId) hdrops.requests
          _ = some ref := by
              rw [← hid]
              exact hknown
      · calc (s'.objs ref).status = (r.s.objs ref).status :=
              congrFun (congrArg (·.status) hplaces) ref
          _ = (s.objs ref).status := by
              rw [hr]
              exact (hdrops.request ref).2
          _ = .running := hstatus

/-- A step leaves nothing of the requests that it drops exactly when it drops none. -/
theorem leavesNothing_iff {s s' : Scheduler (logged X)} (hs : s.places.Partition [])
    (h : schedule cfg s = .ok (out, s')) :
    (∀ info ∈ out.recomputedReqs, LeavesNothing s s' info.requestId) ↔ DropFree cfg s := by
  rw [← dropFree_iff h]
  constructor
  · intro hall
    refine List.eq_nil_iff_forall_not_mem.mpr fun info hinfo => ?_
    obtain ⟨ref, hknown, -⟩ := dropped_known hs h hinfo
    rw [(hall info hinfo).forgotten] at hknown
    cases hknown
  · intro hnone info hinfo
    rw [hnone] at hinfo
    cases hinfo

/-! ## Runs -/

/-- A call of the scheduler. -/
inductive Event
  | addRequest (args : Request)
  | schedule (out : RecomputeSchedulerOutput)
  | updateFromOutput (out : RecomputeSchedulerOutput) (mro : ModelRunnerOutput)
  | finishRequests (requestIds : Option (List Nat)) (finishedStatus : RequestStatus)
  | resetPrefixCache (resetRunningRequests resetConnector : Bool)
  | updateDraftTokenIds (drafts : List (Nat × List TokenId))
  | setPauseState (pauseState : PauseState)
  | resetEncoderCache

/-- The call returns and leaves `s'`. -/
def Does (cfg : RecomputeConfig) (s : Scheduler X) : Event → Scheduler X → Prop
  | .addRequest args, s' => ∃ request, Request.init cfg.blockHasher args = .ok request ∧
      addRequest cfg s request = .ok s'
  | .schedule out, s' => schedule cfg s = .ok (out, s')
  | .updateFromOutput out mro, s' => ∃ outputs, updateFromOutput cfg s out mro = .ok (outputs, s')
  | .finishRequests requestIds finishedStatus, s' =>
    s.finishRequests cfg.toConfig requestIds finishedStatus = .ok s'
  | .resetPrefixCache resetRunningRequests resetConnector, s' =>
    ∃ b, s.resetPrefixCache cfg.toConfig resetRunningRequests resetConnector = .ok (b, s')
  | .updateDraftTokenIds drafts, s' => s' = s.updateDraftTokenIds drafts
  | .setPauseState pauseState, s' => s' = s.setPauseState pauseState
  | .resetEncoderCache, s' => s' = s.resetEncoderCache

/-- The scheduler, and what it emitted so far. -/
structure Run (X : World) where
  s : Scheduler X
  outputs : List RecomputeSchedulerOutput := []

/-- The outputs after a call. -/
def Event.emit (outputs : List RecomputeSchedulerOutput) : Event → List RecomputeSchedulerOutput
  | .schedule out => outputs ++ [out]
  | _ => outputs

/-- The runs whose calls are all `allowed`. -/
def recomputeRuns (cfg : RecomputeConfig) {X : World} (encoderCacheManager : EncoderManager)
    (world : X.State) (allowed : Scheduler X → Event → Prop) : TSys (Run X) where
  init r := r = { s := .initial encoderCacheManager world }
  step r r' := ∃ e, allowed r.s e ∧ Does cfg r.s e r'.s ∧ r'.outputs = e.emit r.outputs

/-- The condition on a call: no running request has to be dropped, and stops are in place. -/
def Event.Orderly (cfg : RecomputeConfig) (s : Scheduler X) : Event → Prop
  | .schedule _ => DropFree cfg s
  | .updateFromOutput out mro => StopsInPlace cfg.toConfig s
      (s.handleFailedLoads cfg.toConfig out.toSchedulerOutput mro).1 out.toSchedulerOutput mro
  | _ => True

theorem does_places {e : Event} (hs : s.places.Partition []) (hok : e.Orderly cfg s)
    (h : Does cfg s e s') : s'.places.Partition [] := by
  have hbase : ∀ e : Sched.Event, e.StopsInPlace cfg.toConfig s → s.Does cfg.toConfig e s' →
      s'.places.Partition [] := fun e hok h => Sched.does_places hs hok h
  cases e with
  | addRequest args =>
    obtain ⟨request, hinit, hadd⟩ := h
    exact addRequest_places hs hinit hadd
  | schedule out => exact (schedule_places hs h ((dropFree_iff h).mpr hok)).1
  | updateFromOutput out mro =>
    obtain ⟨outputs, hupdate⟩ := h
    exact updateFromOutput_places hs hok hupdate
  -- the other calls are those of the base class
  | finishRequests ids status => exact hbase (.finishRequests ids status) trivial h
  | resetPrefixCache b c => exact hbase (.resetPrefixCache b c) trivial h
  | updateDraftTokenIds drafts => exact hbase (.updateDraftTokenIds drafts) trivial h
  | setPauseState state => exact hbase (.setPauseState state) trivial h
  | resetEncoderCache => exact hbase .resetEncoderCache trivial h

/-- In every run in which no running request has to be dropped the queues partition the unfinished
requests, no step schedules a request twice, and the next step leaves nothing of the requests
that it drops exactly when it drops none. -/
theorem disposal (cfg : RecomputeConfig) (X : World) (m : EncoderManager) (w : (logged X).State) :
    (recomputeRuns cfg m w (Event.Orderly cfg)).Invariant fun r =>
      QueuesSound r.s ∧ (∀ out ∈ r.outputs, out.toSchedulerOutput.scheduledReqIds.Nodup) ∧
      ∀ out s', schedule cfg r.s = .ok (out, s') →
        ((∀ info ∈ out.recomputedReqs, LeavesNothing r.s s' info.requestId) ↔
          DropFree cfg r.s) := by
  have hind : TSys.Inductive (recomputeRuns cfg m w (Event.Orderly cfg)) fun r =>
      r.s.places.Partition [] ∧ ∀ out ∈ r.outputs, out.toSchedulerOutput.scheduledReqIds.Nodup := by
    constructor
    · rintro r rfl
      exact ⟨initial_places m w, fun out hout => (nomatch hout)⟩
    · rintro r r' ⟨hp, houts⟩ ⟨e, hok, hdoes, hout'⟩
      refine ⟨does_places hp hok hdoes, ?_⟩
      rw [hout']
      cases e with
      | schedule out =>
        intro o ho
        rcases List.mem_append.mp ho with ho | ho
        · exact houts o ho
        · rw [List.mem_singleton.mp ho]
          exact (schedule_places hp hdoes ((dropFree_iff hdoes).mpr hok)).2
      | _ => exact houts
  intro r hr
  obtain ⟨hp, houts⟩ := hind.invariant r hr
  exact ⟨queuesSound_of_partition hp, houts, fun out s' h => leavesNothing_iff hp h⟩

/-! ## A request that is dropped -/

/-- A decode node. -/
def decodeConfig : RecomputeConfig where
  maxNumRunningReqs := 4
  maxNumScheduledTokens := 100
  maxModelLen := 100
  kvTransferConfig := some { kvRole := some .kvConsumer }

def decodeRequest (requestId : Nat) : Request where
  requestId
  samplingParams := some { maxTokens := 10 }
  promptTokenIds := some [1, 2, 3]

/-- Two requests of three tokens fill the cache, and each samples a token. -/
def decodeRun : Except PyError (RecomputeSchedulerOutput × Scheduler (logged (smallWorld 6))) := do
  let s : Scheduler (logged (smallWorld 6)) := .initial (.multimodal (.init 0)) (.empty, [])
  let first ← Request.init none (decodeRequest 1)
  let s ← addRequest decodeConfig s first
  let second ← Request.init none (decodeRequest 2)
  let s ← addRequest decodeConfig s second
  let (out, s) ← schedule decodeConfig s
  let (_, s) ← updateFromOutput decodeConfig s out
    { reqIdToIndex := (Dict.empty.set 1 0).set 2 1, sampledTokenIds := [[8], [9]] }
  .ok (out, s)

/-- The next step drops the second one. It stays registered, and its output would be processed. -/
theorem decodeRun_drops : (do
    let (_, s) ← decodeRun
    let (out, s') ← schedule decodeConfig s
    .ok (out.recomputedReqs, s'.requests.get? 2, s'.unfinished? 2, s'.world.2)) =
      (.ok ([⟨2, [9]⟩], some 1, some 1, [2]) : Except PyError _) := by
  rfl

/-- So a dropped request is not disposed of. -/
theorem dropped_registered : ∃ r : Run (logged (smallWorld 6)), ∃ out s',
    (recomputeRuns decodeConfig (.multimodal (.init 0)) (.empty, []) fun _ _ => True).Reachable r ∧
      schedule decodeConfig r.s = .ok (out, s') ∧ ⟨2, [9]⟩ ∈ out.recomputedReqs ∧
      s'.unfinished? 2 = some 1 ∧ ¬ LeavesNothing r.s s' 2 := by
  obtain ⟨⟨out, s⟩, hrun, heq⟩ := bind_ok decodeRun_drops
  obtain ⟨⟨out', s'⟩, hdrop, heq⟩ := bind_ok heq
  have heq : (out'.recomputedReqs, s'.requests.get? 2, s'.unfinished? 2, s'.world.2) =
      ([⟨2, [9]⟩], some 1, some 1, [2]) := Except.ok.inj heq
  obtain ⟨first, hfirst, h1⟩ := bind_ok hrun
  obtain ⟨s1, hadd1, h2⟩ := bind_ok h1
  obtain ⟨second, hsecond, h3⟩ := bind_ok h2
  obtain ⟨s2, hadd2, h4⟩ := bind_ok h3
  obtain ⟨⟨out1, s3⟩, hsched, h5⟩ := bind_ok h4
  obtain ⟨⟨outputs, s4⟩, hupdate, h6⟩ := bind_ok h5
  cases h6
  refine ⟨⟨s, [out]⟩, out', s', ?_, hdrop, ?_, congrArg (·.2.2.1) heq, fun hnone => ?_⟩
  · refine .step (s := ⟨s3, [out]⟩) (.step (s := ⟨s2, []⟩) (.step (s := ⟨s1, []⟩)
      (.step (.init rfl) ?_) ?_) ?_) ?_
    · exact ⟨.addRequest (decodeRequest 1), trivial, ⟨first, hfirst, hadd1⟩, rfl⟩
    · exact ⟨.addRequest (decodeRequest 2), trivial, ⟨second, hsecond, hadd2⟩, rfl⟩
    · exact ⟨.schedule out, trivial, hsched, rfl⟩
    · exact ⟨.updateFromOutput out _, trivial, ⟨outputs, hupdate⟩, rfl⟩
  · have hrec : out'.recomputedReqs = [⟨2, [9]⟩] := congrArg (·.1) heq
    rw [hrec]
    exact List.mem_singleton.mpr rfl
  · have hknown : s'.requests.get? 2 = some 1 := congrArg (·.2.1) heq
    rw [hnone.forgotten] at hknown
    cases hknown

end MyOperator.Recompute
