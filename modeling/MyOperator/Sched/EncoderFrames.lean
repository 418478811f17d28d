import MyOperator.Sched.Partition

/-!
# What the calls do with the encoder cache manager

Outside `schedule` the manager is changed by `free` only, for the requests that the call
finishes or preempts.
-/

namespace MyOperator.Sched

open Lib

/-- Calls of `free` for requests with the items of a request in `refs`. -/
def EncoderManager.Frees (setOrder : SetOrder) {X : World} (s : Scheduler X) (refs : Ref → Prop) :
    EncoderManager → EncoderManager → Prop :=
  Relation.ReflTransGen fun m m' => ∃ r ref, refs ref ∧
    r.mmFeatures = (s.objs ref).mmFeatures ∧ m.free setOrder r = .ok m'

theorem EncoderManager.Frees.mono {setOrder : SetOrder} {X : World} {s t : Scheduler X}
    {P Q : Ref → Prop} {m m' : EncoderManager} (h : Frees setOrder t P m m')
    (hPQ : ∀ ref, P ref → Q ref ∧ (t.objs ref).mmFeatures = (s.objs ref).mmFeatures) :
    Frees setOrder s Q m m' := by
  induction h with
  | refl => exact .refl
  | tail _ hstep ih =>
    obtain ⟨r, ref, href, hr, hfree⟩ := hstep
    obtain ⟨hq, hmm⟩ := hPQ ref href
    exact ih.tail ⟨r, ref, hq, hr.trans hmm, hfree⟩

/-- The request does not go on after it stopped. -/
def Request.endsOnStop (r : Request) : Prop :=
  r.resumable = false ∨ ∃ rest, r.streamingQueue = some (none :: rest)

namespace Scheduler

variable {cfg : Config} {X : World} {s s' t t' : Scheduler X} {ref : Ref}

theorem mmFeatures_modify {f : Request → Request}
    (hmm : (f (s.objs ref)).mmFeatures = (s.objs ref).mmFeatures) (r : Ref) :
    ((s.modify ref f).objs r).mmFeatures = (s.objs r).mmFeatures := by
  by_cases h : r = ref
  · rw [h, modify_self, hmm]
  · rw [modify_of_ne f h]

/-- The items of the requests of `s` are the same in `t`, where the manager has seen only calls of
`free` for the requests in `refs`. -/
structure FreedFrom (cfg : Config) (s : Scheduler X) (refs : Ref → Prop) (t : Scheduler X) : Prop where
  mmFeatures : ∀ r, (t.objs r).mmFeatures = (s.objs r).mmFeatures
  manager : EncoderManager.Frees cfg.setOrder s refs s.encoderCacheManager t.encoderCacheManager

theorem FreedFrom.refl (cfg : Config) (s : Scheduler X) (refs : Ref → Prop) :
    FreedFrom cfg s refs s := ⟨fun _ => rfl, .refl⟩

theorem FreedFrom.free {refs : Ref → Prop} {r : Request} (h : FreedFrom cfg s refs t)
    (href : refs ref) (hr : r.mmFeatures = (t.objs ref).mmFeatures)
    (hmm : ∀ r, (t'.objs r).mmFeatures = (t.objs r).mmFeatures)
    (hfree : t.encoderCacheManager.free cfg.setOrder r = .ok t'.encoderCacheManager) :
    FreedFrom cfg s refs t' :=
  ⟨fun r => (hmm r).trans (h.mmFeatures r),
    h.manager.tail ⟨r, ref, href, hr.trans (h.mmFeatures ref), hfree⟩⟩

/-! ## `finish_requests` -/

/-- The requests that `finish_requests` finishes. -/
def FinishedBy (s : Scheduler X) (requestIds : Option (List Nat)) (ref : Ref) : Prop :=
  ∃ reqId, (∀ ids ∈ requestIds, reqId ∈ ids) ∧ s.unfinished? reqId = some ref

theorem finishRequests_freed {requestIds : Option (List Nat)} {finishedStatus : RequestStatus}
    (h : s.finishRequests cfg requestIds finishedStatus = .ok s') :
    FreedFrom cfg s (s.FinishedBy requestIds) s' := by
  obtain ⟨⟨⟩, -, h1⟩ := bind_ok h
  obtain ⟨valid, hvalid, hrun⟩ : ∃ valid : List Ref, (∀ ref ∈ valid, s.FinishedBy requestIds ref) ∧
      valid.foldlM (fun s ref => s.finishOne cfg finishedStatus ref) (s.dequeue cfg valid) =
        .ok s' := by
    refine ⟨_, ?_, h1⟩
    intro ref href
    obtain ⟨id, hid, hget⟩ := List.mem_filterMap.mp href
    refine ⟨id, ?_, hget⟩
    rintro ids ⟨⟩
    exact List.mem_dedup.mp hid
  have hstart : FreedFrom cfg s (s.FinishedBy requestIds) (s.dequeue cfg valid) :=
    ⟨fun _ => rfl, .refl⟩
  refine foldlM_keeps (P := FreedFrom cfg s (s.FinishedBy requestIds)) ?_ hstart hrun
  intro t ref href t' ht hone
  obtain ⟨-, m, world, requests, recving, failed, hfree, -, rfl⟩ := finishOne_effect hone
  refine ht.free (r := { t.objs ref with status := finishedStatus }) (hvalid ref href) rfl ?_ hfree
  intro r
  exact mmFeatures_modify (f := fun r => { r with status := finishedStatus }) rfl r

/-! ## `reset_prefix_cache` -/

theorem forcePreemptAll_freed {refs : List Ref} {P : Ref → Prop} (hrefs : ∀ ref ∈ refs, P ref)
    (ht : FreedFrom cfg s P t) (h : forcePreemptAll cfg refs t = .ok s') : FreedFrom cfg s P s' := by
  induction refs generalizing t with
  | nil =>
    cases h
    exact ht
  | cons ref refs ih =>
    obtain ⟨t1, hforce, h1⟩ := bind_ok h
    refine ih (fun r hr => hrefs r (List.mem_cons_of_mem _ hr)) ?_ h1
    obtain ⟨t2, hpre, h2⟩ := bind_ok hforce
    obtain ⟨-, m, world, waiting, hfree, -, rfl⟩ := preemptRequest_effect hpre
    cases h2
    refine ht.free (hrefs ref List.mem_cons_self) rfl ?_ hfree
    intro r
    rw [mmFeatures_modify rfl]
    exact mmFeatures_modify (s := t) (f := preempted) rfl r

theorem resetPrefixCache_freed {resetRunningRequests resetConnector b : Bool}
    (h : s.resetPrefixCache cfg resetRunningRequests resetConnector = .ok (b, s')) :
    FreedFrom cfg s (fun ref => resetRunningRequests = true ∧ ref ∈ s.running) s' := by
  refine resetPrefixCache_keeps (P := FreedFrom cfg s _)
    (fun _ _ _ ht => ⟨ht.mmFeatures, ht.manager⟩) (.refl cfg s _) ?_ h
  intro t hb hall
  exact forcePreemptAll_freed (fun ref href => ⟨hb, List.mem_reverse.mp href⟩) (.refl cfg s _) hall

/-! ## `add_request` -/

theorem enqueueWaitingRequest_manager (cfg : Config) (s : Scheduler X) (ref : Ref) :
    (s.enqueueWaitingRequest cfg ref).encoderCacheManager = s.encoderCacheManager := by
  unfold enqueueWaitingRequest
  split
  · rfl
  · rfl

/-- Only the end of a session that waits for its next chunk finishes a request. -/
theorem addRequest_frees {request : Request} (h : s.addRequest cfg request = .ok s') :
    EncoderManager.Frees cfg.setOrder s
      (fun ref => request.resumable = false ∧ s.FinishedBy (some [request.requestId]) ref)
      s.encoderCacheManager s'.encoderCacheManager := by
  unfold addRequest at h
  split at h
  · dsimp only at h
    split at h
    · split at h
      · cases h
      · cases h
        exact .refl
    · unfold StreamingUpdate.fromRequest at h
      split at h
      · obtain ⟨session, n, -, rfl⟩ := updateRequestAsSession_effect h
        exact .refl
      · rename_i heq
        have hres : request.resumable = false := by
          by_contra hres
          rw [if_pos (by simpa using hres)] at heq
          cases heq
        exact (finishRequests_freed h).manager.mono fun ref href => ⟨⟨hres, href⟩, rfl⟩
  · cases h
    rw [enqueueWaitingRequest_manager]
    exact .refl

theorem updateDraftTokenIds_manager (drafts : List (Nat × List TokenId)) :
    (s.updateDraftTokenIds drafts).encoderCacheManager = s.encoderCacheManager := by
  unfold updateDraftTokenIds
  induction drafts generalizing s with
  | nil => rfl
  | cons d drafts ih =>
    rw [List.foldl_cons, ih]
    unfold updateDraft
    split
    · rfl
    · split
      · rfl
      · rfl

/-! ## `update_from_output` -/

theorem handleStoppedRequest_manager {finished : Bool}
    (h : s.handleStoppedRequest cfg ref = .ok (finished, s')) :
    s'.encoderCacheManager = s.encoderCacheManager ∧ (finished = true →
      (s.objs ref).endsOnStop ∧ (s'.objs ref).mmFeatures = (s.objs ref).mmFeatures) := by
  constructor
  · rcases handleStoppedRequest_effect h with ⟨-, -, queue, rfl⟩ |
      ⟨-, -, update, rest, session, n, waiting, -, -, -, rfl⟩ | ⟨-, -, n, skipped, -, rfl⟩
    · rfl
    · rfl
    · rfl
  · rintro rfl
    unfold handleStoppedRequest at h
    split at h
    · rename_i hres
      cases h
      exact ⟨.inl hres, rfl⟩
    · split at h
      · rename_i rest hqueue
        cases h
        refine ⟨.inr ⟨rest, hqueue⟩, ?_⟩
        rw [modify_self]
      · obtain ⟨s1, -, h1⟩ := bind_ok h
        cases h1
      · cases h

end Scheduler

namespace UpdatePass

variable {cfg : Config} {X : World} {p p' : UpdatePass X} {ref : Ref}

theorem processOutput_manager {drafts generatedTokenIds : List TokenId} {hasPoolerOutput : Bool}
    (h : p.processOutput cfg ref drafts generatedTokenIds hasPoolerOutput = .ok p') :
    p'.s.encoderCacheManager = p.s.encoderCacheManager ∨
      ((p.s.objs ref).stopsOn cfg generatedTokenIds hasPoolerOutput = true ∧
        (p.s.objs ref).endsOnStop ∧
        ∃ r, r.mmFeatures = (p.s.objs ref).mmFeatures ∧
          p.s.encoderCacheManager.free cfg.setOrder r = .ok p'.s.encoderCacheManager) := by
  obtain ⟨r', world, p1, -, -, hmm, hres, hqueue, hcases, world', outputs, rfl⟩ :=
    processOutput_effect h
  rcases hcases with ⟨-, -, rfl⟩ | ⟨hstops, -, hstop⟩
  · exact .inl rfl
  · have hself : (p.s.modify ref fun _ => r').objs ref = r' := Scheduler.modify_self _
    obtain ⟨⟨finished, s1⟩, hhandle, h1⟩ := bind_ok hstop
    obtain ⟨s2, hfree, h2⟩ := bind_ok h1
    have hp1 : p1.s = s2 := by
      split at h2 <;> cases h2 <;> rfl
    show p1.s.encoderCacheManager = _ ∨ _
    rw [hp1]
    obtain ⟨hm, hends⟩ := Scheduler.handleStoppedRequest_manager hhandle
    cases finished with
    | false =>
      cases hfree
      exact .inl hm
    | true =>
      obtain ⟨hends, hmm1⟩ := hends rfl
      rw [hself] at hends hmm1
      refine .inr ⟨hstops, ?_, s1.objs ref, hmm1.trans hmm, ?_⟩
      · unfold Request.endsOnStop at hends ⊢
        rwa [hres, hqueue] at hends
      · obtain ⟨-, m, world, requests, hm', -, rfl⟩ := Scheduler.freeRequest_effect hfree
        rw [hm] at hm'
        exact hm'

end UpdatePass

namespace Scheduler

variable {cfg : Config} {X : World} {s s' : Scheduler X} {out : SchedulerOutput}
  {mro : ModelRunnerOutput}

/-- The requests that `update_from_output` finishes: those that stop and do not go on, and under the
policy `fail` those with a block that failed to load. -/
def EndedBy (cfg : Config) (s : Scheduler X) (out : SchedulerOutput) (mro : ModelRunnerOutput)
    (ref : Ref) : Prop :=
  (∃ reqId generatedTokenIds hasPoolerOutput, reqId ∈ out.numScheduledTokens.keySet ∧
    reqId ∉ (s.handleFailedLoads cfg out mro).1 ∧ s.unfinished? reqId = some ref ∧
    mro.generatedTokenIds reqId = .ok generatedTokenIds ∧
    mro.hasPoolerOutput reqId = .ok hasPoolerOutput ∧
    (s.objs ref).stopsOn cfg generatedTokenIds hasPoolerOutput = true ∧ (s.objs ref).endsOnStop) ∨
  (cfg.recomputeKvLoadFailures = false ∧
    ∃ reqId ∈ (s.handleFailedLoads cfg out mro).1, s.unfinished? reqId = some ref)

theorem failRequests_frees {failed : List Nat} {outputs : List EngineCoreOutput}
    (h : s.failRequests cfg failed = .ok (outputs, s')) :
    EncoderManager.Frees cfg.setOrder s (fun ref => cfg.recomputeKvLoadFailures = false ∧
        ∃ reqId ∈ failed, s.unfinished? reqId = some ref)
      s.encoderCacheManager s'.encoderCacheManager := by
  rcases failRequests_effect h with rfl | ⟨hpolicy, hfinish⟩
  · exact .refl
  · refine (finishRequests_freed hfinish).manager.mono ?_
    rintro ref ⟨id, hid, hunf⟩
    exact ⟨⟨hpolicy, id, (cfg.setOrder.perm _).mem_iff.mp (hid _ rfl), hunf⟩, rfl⟩

/-- In the loop of `update_from_output` the requests that stop and do not go on are freed. -/
theorem updateLoop_frees {s1 : Scheduler X} {p : UpdatePass X} (hcounts : SameButCounts s s1)
    (hs1 : s1.places.Partition [])
    (hok : StopsInPlace cfg s1 (s.handleFailedLoads cfg out mro).1 out mro)
    (h : out.numScheduledTokens.entries.foldlM (fun p e => p.processScheduled cfg out mro
      (s.handleFailedLoads cfg out mro).1 e.1 e.2) ({ s := s1 } : UpdatePass X) = .ok p) :
    EncoderManager.Frees cfg.setOrder s (s.EndedBy cfg out mro) s.encoderCacheManager
      p.s.encoderCacheManager := by
  refine (UpdatePass.loop_keeps (P := fun p => EncoderManager.Frees cfg.setOrder s
    (s.EndedBy cfg out mro) s.encoderCacheManager p.s.encoderCacheManager) ?_ ?_ hok hs1 h).2
  · intro processed p0 p1 id n hinv hmem hnew hrun hP
    obtain ⟨⟨⟩, -, h1⟩ := bind_ok hrun
    split at h1
    · cases h1
      exact hP
    · rename_i hfailed
      split at h1
      · cases h1
        exact hP
      · rename_i ref hunf
        obtain ⟨generated, hgen, h2⟩ := bind_ok h1
        obtain ⟨pooler, hpool, h3⟩ := bind_ok h2
        rcases UpdatePass.processOutput_manager h3 with heq | ⟨hstops, hends, r, hr, hfree⟩
        · rw [heq]
          exact hP
        · obtain ⟨-, hobj, hunf1⟩ := hinv.unprocessed hnew hunf
          obtain ⟨a, b, c, hcount⟩ := hcounts.objs ref
          rw [hobj, hcount] at hstops hends hr
          rw [Request.stopsOn_withCounts] at hstops
          exact hP.tail ⟨r, ref, .inl ⟨id, generated, pooler, hmem, hfailed,
            hcounts.unfinished? hunf1, hgen, hpool, hstops, hends⟩, hr, hfree⟩
  · show EncoderManager.Frees _ _ _ _ s1.encoderCacheManager
    rw [hcounts.encoderCacheManager]
    exact .refl

theorem updateFromOutput_frees {outputs : List EngineCoreOutput} (hp : s.places.Partition [])
    (hok : StopsInPlace cfg s (s.handleFailedLoads cfg out mro).1 out mro)
    (h : s.updateFromOutput cfg out mro = .ok (outputs, s')) :
    EncoderManager.Frees cfg.setOrder s (s.EndedBy cfg out mro) s.encoderCacheManager
      s'.encoderCacheManager := by
  have hblocks : ∀ (t t' : Scheduler X) (reqId : Nat) (ref : Ref),
      EncoderManager.Frees cfg.setOrder s (s.EndedBy cfg out mro) s.encoderCacheManager
        t.encoderCacheManager → t.requests.get? reqId = some ref → t.freeBlocks ref = .ok t' →
      EncoderManager.Frees cfg.setOrder s (s.EndedBy cfg out mro) s.encoderCacheManager
        t'.encoderCacheManager := by
    intro t t' _ ref ht _ hfree
    obtain ⟨-, world, rfl⟩ := freeBlocks_effect hfree
    exact ht
  obtain ⟨p, failedOutputs, s2, hloop, hfail, hkeep⟩ :=
    updateFromOutput_keeps (fun _ _ _ ht => ht) hblocks h
  have hcounts := handleFailedLoads_counts cfg s out mro
  have hs1 := hcounts.places hp
  have hok1 := hcounts.stopsInPlace hok
  obtain ⟨processed, hgood, hinv⟩ := UpdatePass.loop_inv hok1 hs1 hloop
  have hmgr := updateLoop_frees hcounts hs1 hok1 hloop
  refine hkeep (hmgr.trans ((failRequests_frees hfail).mono ?_))
  rintro ref ⟨hpolicy, id, hid, hunf⟩
  -- a request with a block that failed to load was not touched in the loop
  obtain ⟨-, hobj, hunf1⟩ := hinv.unprocessed (hgood id hid) hunf
  obtain ⟨a, b, c, hcount⟩ := hcounts.objs ref
  refine ⟨.inr ⟨hpolicy, id, hid, hcounts.unfinished? hunf1⟩, ?_⟩
  show (p.s.objs ref).mmFeatures = _
  rw [hobj, hcount]
  rfl

end Scheduler

/-- The requests that a call frees in the encoder cache manager outside `schedule`. -/
def Event.Frees (cfg : Config) {X : World} (s : Scheduler X) : Event → Ref → Prop
  | .addRequest args, ref => args.resumable = false ∧ s.FinishedBy (some [args.requestId]) ref
  | .updateFromOutput out mro, ref => s.EndedBy cfg out mro ref
  | .finishRequests requestIds _, ref => s.FinishedBy requestIds ref
  | .resetPrefixCache resetRunningRequests _, ref =>
    resetRunningRequests = true ∧ ref ∈ s.running
  | _, _ => False

/-- The calls other than `schedule` and `reset_encoder_cache` only free requests. -/
theorem does_frees {cfg : Config} {X : World} {s s' : Scheduler X} {e : Event}
    (hp : s.places.Partition []) (hok : e.StopsInPlace cfg s) (hschedule : ∀ out, e ≠ .schedule out)
    (hreset : e ≠ .resetEncoderCache) (h : s.Does cfg e s') :
    EncoderManager.Frees cfg.setOrder s (e.Frees cfg s) s.encoderCacheManager
      s'.encoderCacheManager := by
  cases e with
  | addRequest args =>
    obtain ⟨request, hinit, hadd⟩ := h
    obtain ⟨hid, -, -, hres, -⟩ := Request.init_effect hinit
    have hfrees := Scheduler.addRequest_frees hadd
    rw [hid, hres] at hfrees
    exact hfrees
  | schedule out => exact absurd rfl (hschedule out)
  | updateFromOutput out mro =>
    obtain ⟨outputs, hupdate⟩ := h
    exact Scheduler.updateFromOutput_frees hp hok hupdate
  | finishRequests ids status => exact (Scheduler.finishRequests_freed h).manager
  | resetPrefixCache b c =>
    obtain ⟨ok, hreset⟩ := h
    exact (Scheduler.resetPrefixCache_freed hreset).manager
  | updateDraftTokenIds drafts =>
    obtain rfl : s' = s.updateDraftTokenIds drafts := h
    rw [Scheduler.updateDraftTokenIds_manager]
    exact .refl
  | setPauseState state =>
    obtain rfl : s' = s.setPauseState state := h
    exact .refl
  | resetEncoderCache => exact absurd rfl hreset

end MyOperator.Sched
