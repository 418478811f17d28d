import MyOperator.Sched.SchedulePlaces
import MyOperator.Sched.UpdateEffects

/-!
# The other calls keep the partition

`add_request`, `finish_requests`, `reset_prefix_cache` and the calls that move no
request.
-/

namespace MyOperator.Sched

open Lib List Option
open KvCache (assert_eq_ok)

namespace Scheduler

variable {cfg : Config} {X : World} {s s' : Scheduler X} {ref : Ref} {f : Request → Request}

/-! ## `reset_prefix_cache` -/

theorem forcePreempt_places {running : List Ref} (hp : s.places.Partition [])
    (hrun : s.running = running ++ [ref])
    (h : ({ s with running := s.running.dropLast } : Scheduler X).forcePreempt cfg ref = .ok s') :
    s'.places.Partition [] ∧ s'.running = running := by
  unfold forcePreempt at h
  obtain ⟨s1, hpre, h1⟩ := bind_ok h
  obtain ⟨-, m, world, waiting, -, hperm, rfl⟩ := preemptRequest_effect hpre
  cases h1
  have hdrop : s.running.dropLast = running := by rw [hrun, dropLast_concat]
  refine ⟨?_, hdrop⟩
  refine relocate_places s.shown_places (shown_places _) ref (fun r => { preempted r with
      numOutputPlaceholders := 0
      discardLatestAsyncTokens := true }) .waiting hp ?_ rfl rfl rfl ?_ ?_ (.inr rfl) ?_
  · show ((s.modify ref preempted).modify ref fun r => { r with
      numOutputPlaceholders := 0
      discardLatestAsyncTokens := true }).objs = _
    rw [modify_modify]
    rfl
  · show (s.running.dropLast ++ waiting ++ s.skippedWaiting).Perm
      (s.running ++ s.waiting ++ s.skippedWaiting)
    rw [hdrop, hrun, append_assoc running [ref] s.waiting]
    exact (hperm.append_left running).append_right _
  · exact hperm.mem_iff.mpr mem_cons_self
  · intro name r hr hne
    cases name with
    | running => exact mem_of_mem_dropLast hr
    | waiting => exact (mem_cons.mp (hperm.mem_iff.mp hr)).resolve_left hne
    | skipped => exact hr

theorem forcePreemptAll_places {refs : List Ref} (hp : s.places.Partition [])
    (hrun : s.running = refs.reverse) (h : forcePreemptAll cfg refs s = .ok s') :
    s'.places.Partition [] := by
  induction refs generalizing s with
  | nil =>
    cases h
    exact hp
  | cons ref refs ih =>
    unfold forcePreemptAll at h
    obtain ⟨s1, hpre, h1⟩ := bind_ok h
    rw [reverse_cons] at hrun
    obtain ⟨hp1, hrun1⟩ := forcePreempt_places hp hrun hpre
    exact ih hp1 hrun1 h1

theorem resetPrefixCache_places {resetRunningRequests resetConnector b : Bool}
    (hp : s.places.Partition [])
    (h : s.resetPrefixCache cfg resetRunningRequests resetConnector = .ok (b, s')) :
    s'.places.Partition [] := by
  refine resetPrefixCache_keeps (P := fun t : Scheduler X => t.places.Partition [])
    (fun _ _ _ ht => ht) hp ?_ h
  intro t _ hall
  exact forcePreemptAll_places hp (reverse_reverse _).symm hall

/-! ## `finish_requests` -/

theorem unfinished?_eq_some {reqId : Nat} : s.unfinished? reqId = some ref ↔
    s.requests.get? reqId = some ref ∧ (s.objs ref).isFinished = false := by
  unfold unfinished?
  simp

theorem valid_nodup {ids : List Nat} (hp : s.places.Partition []) (hids : ids.Nodup) :
    (ids.filterMap s.unfinished?).Nodup := by
  refine hids.filterMap ?_
  intro i j ref hi hj
  have hi := hp.entry i ref (unfinished?_eq_some.mp (mem_def.mp hi)).1
  have hj := hp.entry j ref (unfinished?_eq_some.mp (mem_def.mp hj)).1
  exact hi.1.symm.trans hj.1

theorem valid_known {ids : List Nat} (hp : s.places.Partition [])
    (href : ref ∈ ids.filterMap s.unfinished?) :
    s.requests.get? (s.objs ref).requestId = some ref := by
  obtain ⟨i, -, hi⟩ := mem_filterMap.mp href
  have hget := (unfinished?_eq_some.mp hi).1
  rw [show (s.objs ref).requestId = i from (hp.entry i ref hget).1]
  exact hget

theorem dequeue_places {valid : List Ref} (hp : s.places.Partition []) (hvalid : valid.Nodup)
    (hknown : ∀ r ∈ valid, s.requests.get? (s.objs r).requestId = some r) :
    (s.dequeue cfg valid).places.Partition valid := by
  refine hp.leave (w := (s.dequeue cfg valid).places) ⟨rfl, rfl, rfl⟩ rfl hvalid hknown ?_
  -- the running ones are taken out of `running`, the others out of the other two queues
  have hwaiting : ∀ q : RequestQueue, (∀ r ∈ q, (s.objs r).status ≠ .running) →
      (if valid.filter (fun ref => !decide ((s.objs ref).status = .running)) = [] then q
        else q.removeRequests cfg.policy (s.lt cfg)
          (valid.filter fun ref => !decide ((s.objs ref).status = .running))).Perm
        (q.filter (· ∉ valid)) := by
    intro q hq
    have hfilter : q.filter (· ∉ valid.filter fun ref => !decide ((s.objs ref).status = .running)) =
        q.filter (· ∉ valid) := by
      refine filter_congr fun r hr => ?_
      simp only [mem_filter, hq r hr, decide_false, Bool.not_false, and_true]
    split
    · rename_i hnil
      rw [hnil] at hfilter
      rw [← hfilter]
      simp
    · rw [← hfilter]
      exact RequestQueue.removeRequests_perm
  have hnot : ∀ name, name ≠ QueueName.running → ∀ r ∈ s.places.queue name,
      (s.objs r).status ≠ .running := by
    intro name hname r hr hst
    exact hname ((hp.fits name r hr).eq_running.mpr hst)
  intro name
  cases name with
  | running =>
    show (removeAll s.running (valid.filter fun ref =>
      decide ((s.objs ref).status = .running))).Perm (s.running.filter (· ∉ valid))
    have hnodup : s.running.Nodup := hp.queue_nodup .running
    rw [removeAll_eq_filter hnodup]
    refine .of_eq (filter_congr fun r hr => ?_)
    have hst : (s.objs r).status = .running := hp.fits .running r hr
    simp only [mem_filter, hst, decide_true, and_true]
  | waiting => exact hwaiting s.waiting (hnot .waiting (by decide))
  | skipped => exact hwaiting s.skippedWaiting (hnot .skipped (by decide))

theorem get?_erase_requests {s : Scheduler X} {requests : Dict Nat Ref} {id : Nat}
    (h : requests = s.requests ∨ requests = s.requests.erase id) :
    requests.get? = s.requests.get? ∨
      ∀ i, requests.get? i = if i = id then none else s.requests.get? i := by
  rcases h with rfl | rfl
  · exact .inl rfl
  · exact .inr fun i => Dict.get?_erase ..

theorem finishOne_places {finishedStatus : RequestStatus} {pending : List Ref}
    (hp : s.places.Partition (ref :: pending))
    (h : s.finishOne cfg finishedStatus ref = .ok s') : s'.places.Partition pending := by
  obtain ⟨hfin, m, world, requests, recving, failed, -, hreq, rfl⟩ := finishOne_effect h
  refine hp.finish ?_ rfl rfl ?_ ?_ (get?_erase_requests hreq)
  · funext r
    exact requestId_modify (f := fun r => { r with status := finishedStatus }) rfl r
  · intro r hr
    exact status_modify_of_ne (s := s) (f := fun r => { r with status := finishedStatus }) hr
  · show (((s.modify ref fun r => { r with status := finishedStatus }).objs ref).status).isFinished =
      true
    rw [modify_self]
    exact hfin

theorem finishRequests_places {requestIds : Option (List Nat)} {finishedStatus : RequestStatus}
    (hp : s.places.Partition [])
    (h : s.finishRequests cfg requestIds finishedStatus = .ok s') : s'.places.Partition [] := by
  unfold finishRequests at h
  obtain ⟨⟨⟩, -, h1⟩ := bind_ok h
  obtain ⟨ids, hids, hrun⟩ : ∃ ids : List Nat, ids.Nodup ∧
      (ids.filterMap s.unfinished?).foldlM (fun s ref => s.finishOne cfg finishedStatus ref)
        (s.dequeue cfg (ids.filterMap s.unfinished?)) = .ok s' := by
    cases requestIds with
    | some ids => exact ⟨ids.dedup, nodup_dedup ids, h1⟩
    | none => exact ⟨_, s.requests.nodupKeys, h1⟩
  have hstart : (s.dequeue cfg (ids.filterMap s.unfinished?)).places.Partition
      (ids.filterMap s.unfinished?) :=
    dequeue_places hp (valid_nodup hp hids) (fun r hr => valid_known hp hr)
  have hloop : ∀ (refs : List Ref) (t : Scheduler X), t.places.Partition refs →
      refs.foldlM (fun s ref => s.finishOne cfg finishedStatus ref) t = .ok s' →
      s'.places.Partition [] := by
    intro refs
    induction refs with
    | nil =>
      intro t ht hend
      cases hend
      exact ht
    | cons ref refs ih =>
      intro t ht hstep
      rw [foldlM_cons] at hstep
      obtain ⟨t1, hone, hrest⟩ := bind_ok hstep
      exact ih t1 (finishOne_places ht hone) hrest
  exact hloop _ _ hstart hrun

/-! ## `add_request` -/

theorem updateRequestAsSession_places {update : StreamingUpdate} (hp : s.places.Partition [])
    (href : ref ∈ s.skippedWaiting) (h : s.updateRequestAsSession cfg ref update = .ok s') :
    s'.places.Partition [] := by
  obtain ⟨session, n, hsession, rfl⟩ := updateRequestAsSession_effect h
  obtain ⟨prompt, memo, hashes, -, heq⟩ := Request.updateAsSession_effect hsession
  refine relocate_places s.shown_places (shown_places _) ref (fun _ => session) .skipped hp rfl ?_ rfl rfl (.refl _) href ?_
    (fun _ _ hr _ => hr)
  · rw [heq]
  · rw [heq]
    exact .inr (.inl rfl)

theorem addNew_places (request : Request) (hp : s.places.Partition [])
    (hnew : s.requests.get? request.requestId = none)
    (hstatus : request.status = .waiting ∨ request.status = .waitingForStructuredOutputGrammar) :
    ({ (s.alloc request).enqueueWaitingRequest cfg s.numObjs with
        requests := ((s.alloc request).enqueueWaitingRequest cfg s.numObjs).requests.set
          request.requestId s.numObjs } : Scheduler X).places.Partition [] := by
  have hself : (s.alloc request).objs s.numObjs = request := Function.update_self ..
  have hold : ∀ r, r ≠ s.numObjs → (s.alloc request).objs r = s.objs r :=
    fun r hr => Function.update_of_ne hr ..
  rcases enqueueWaitingRequest_effect cfg (s.alloc request) s.numObjs with
    ⟨hblocked, q, hperm, heq⟩ | ⟨hblocked, q, hperm, heq⟩
  · rw [heq]
    rw [hself] at hblocked
    refine hp.add (q := .skipped) hnew rfl ?_ ?_ ?_ hperm ?_ ?_
    · show ((s.alloc request).objs s.numObjs).requestId = _
      rw [hself]
    · intro id
      exact Dict.get?_set ..
    · intro r hr
      exact ⟨congrArg (·.requestId) (hold r hr), congrArg (·.status) (hold r hr)⟩
    · show QueueName.skipped.Fits ((s.alloc request).objs s.numObjs).status
      rw [hself]
      exact .inl hblocked
    · intro q' hq'
      cases q' with
      | running => rfl
      | waiting => rfl
      | skipped => exact absurd rfl hq'
  · rw [heq]
    rw [hself] at hblocked
    refine hp.add (q := .waiting) hnew rfl ?_ ?_ ?_ hperm ?_ ?_
    · show ((s.alloc request).objs s.numObjs).requestId = _
      rw [hself]
    · intro id
      exact Dict.get?_set ..
    · intro r hr
      exact ⟨congrArg (·.requestId) (hold r hr), congrArg (·.status) (hold r hr)⟩
    · show QueueName.waiting.Fits ((s.alloc request).objs s.numObjs).status
      rw [hself]
      rcases hstatus with hst | hst
      · exact .inl hst
      · rw [hst] at hblocked
        cases hblocked
    · intro q' hq'
      cases q' with
      | running => rfl
      | waiting => exact absurd rfl hq'
      | skipped => rfl

theorem addRequest_places {args request : Request} (hp : s.places.Partition [])
    (hinit : Request.init cfg.blockHasher args = .ok request)
    (h : s.addRequest cfg request = .ok s') : s'.places.Partition [] := by
  obtain ⟨-, hstatus, -⟩ := Request.init_effect hinit
  unfold addRequest at h
  split at h
  · rename_i existing hget
    dsimp only at h
    split at h
    · split at h
      · cases h
      · cases h
        rw [places_modify rfl rfl]
        exact hp
    · rename_i hstreaming
      have hstreaming : (s.objs existing).status = .waitingForStreamingReq := by simpa using hstreaming
      split at h
      · refine updateRequestAsSession_places hp ?_ h
        -- a request with a blocked status is in `skipped_waiting`
        have hunf : (s.places.status existing).isFinished = false := by
          show (s.objs existing).status.isFinished = false
          rw [hstreaming]
          rfl
        have hin := (hp.placed _ existing hget hunf).resolve_right (fun hin => (nomatch hin))
        obtain ⟨name, hname⟩ := Places.mem_queued.mp hin
        have hfit : name.Fits (s.objs existing).status := hp.fits name existing hname
        rw [hstreaming] at hfit
        cases name with
        | running => cases hfit
        | waiting => rcases hfit with hfit | hfit <;> cases hfit
        | skipped => exact hname
      · exact finishRequests_places hp h
  · rename_i hget
    cases h
    by_cases hres : request.resumable = true
    · rw [if_pos hres]
      exact addNew_places { request with streamingQueue := some [] } hp hget hstatus
    · rw [if_neg hres]
      exact addNew_places request hp hget hstatus

/-! ## The calls that change no queue -/

theorem updateDraftTokenIds_places (drafts : List (Nat × List TokenId)) :
    (s.updateDraftTokenIds drafts).places = s.places := by
  unfold updateDraftTokenIds
  induction drafts generalizing s with
  | nil => rfl
  | cons d drafts ih =>
    rw [foldl_cons, ih]
    unfold updateDraft
    split
    · rfl
    · split
      · exact places_modify rfl rfl
      · exact places_modify rfl rfl

end Scheduler

end MyOperator.Sched
