import MyOperator.Sched.EncoderDelivery
import MyOperator.Sched.QueueOrder

/-!
# The priority queues over whole runs

Only a streaming update gives a request another key, and it may do so while the request
sits in a heap. `Event.KeepsHeaps` excludes that; in the runs that keep to it every
`peek_request` and `pop_request` returns a smallest request (`priority_pops_least`).
-/

namespace MyOperator.Sched

open Lib List Function
open Lib.Heapq (IsHeap)
open KvCache (assert)

namespace Scheduler

variable {cfg : Config} {X : World} {s s' : Scheduler X} {ref : Ref} {extra : RequestQueue}

/-- The keys when the request has this arrival time. -/
def keyAt (s : Scheduler X) (ref : Ref) (arrivalTime : Int) (r : Ref) : Int ×ₗ (Int ×ₗ Nat) :=
  if r = ref then { s.objs ref with arrivalTime }.orderKey else s.key r

/-! ## The calls other than `schedule` and `update_from_output` -/

theorem Ordered.setRequests (h : Ordered s extra) (requests : Dict Nat Ref)
    (hsub : ∀ id r, requests.get? id = some r → s.requests.get? id = some r) :
    Ordered { s with requests } extra :=
  ⟨h.waiting, h.skipped, h.held, h.known, fun id r hr => h.entry id r (hsub id r hr)⟩

theorem sub_of_erase {requests : Dict Nat Ref} (reqId : Nat)
    (h : requests = s.requests ∨ requests = s.requests.erase reqId) :
    ∀ id r, requests.get? id = some r → s.requests.get? id = some r := by
  intro id r hr
  rcases h with rfl | rfl
  · exact hr
  · rw [Dict.get?_erase] at hr
    split at hr
    · cases hr
    · exact hr

theorem freeBlocks_ordered (h : Ordered s extra) (hrun : s.freeBlocks ref = .ok s') :
    Ordered s' extra := by
  obtain ⟨-, world, rfl⟩ := freeBlocks_effect hrun
  have hreq := h.setRequests _ (sub_of_erase (s.objs ref).requestId (.inr rfl))
  exact ⟨hreq.waiting, hreq.skipped, hreq.held, hreq.known, hreq.entry⟩

theorem finishOne_ordered {finishedStatus : RequestStatus} (h : Ordered s extra)
    (hrun : s.finishOne cfg finishedStatus ref = .ok s') : Ordered s' extra := by
  obtain ⟨-, m, world, requests, recving, failed, -, hreq, rfl⟩ := finishOne_effect hrun
  have hmod : Ordered (s.modify ref fun r => { r with status := finishedStatus }) extra :=
    h.modify rfl
  have hsub := hmod.setRequests requests (sub_of_erase _ hreq)
  exact ⟨hsub.waiting, hsub.skipped, hsub.held, hsub.known, hsub.entry⟩

section

variable (hpolicy : cfg.policy = .priority) (h : Ordered s extra)
include hpolicy h

theorem dequeue_ordered (valid : List Ref) : Ordered (s.dequeue cfg valid) extra := by
  have hremove : ∀ {q : RequestQueue} (refs : List Ref), IsHeap s.key q →
      IsHeap s.key (if refs = [] then q else q.removeRequests cfg.policy (s.lt cfg) refs) ∧
        ∀ r ∈ (if refs = [] then q else q.removeRequests cfg.policy (s.lt cfg) refs), r ∈ q := by
    intro q refs hq
    split
    · exact ⟨hq, fun r hr => hr⟩
    · exact ⟨RequestQueue.removeRequests_isHeap hpolicy (s.respects cfg) q refs,
        fun r hr => RequestQueue.mem_of_mem_removeRequests hr⟩
  refine ⟨(hremove _ h.waiting).1, (hremove _ h.skipped).1, h.held, fun r hr => ?_, h.entry⟩
  rcases hr with hr | hr | hr | hr
  · exact h.known_running (mem_of_mem_removeAll hr)
  · exact h.known_waiting ((hremove _ h.waiting).2 r hr)
  · exact h.known_skipped ((hremove _ h.skipped).2 r hr)
  · exact h.known_held hr

theorem finishRequests_ordered {requestIds : Option (List Nat)} {finishedStatus : RequestStatus}
    (hrun : s.finishRequests cfg requestIds finishedStatus = .ok s') : Ordered s' extra := by
  obtain ⟨⟨⟩, -, hrun⟩ := bind_ok hrun
  refine foldlM_keeps (P := fun t : Scheduler X => Ordered t extra) ?_
    (dequeue_ordered hpolicy h _) hrun
  intro t ref _ t' ht hstep
  exact finishOne_ordered ht hstep

theorem forcePreempt_ordered (href : ref < s.numObjs) (hrun : s.forcePreempt cfg ref = .ok s') :
    Ordered s' extra ∧ s'.numObjs = s.numObjs := by
  obtain ⟨s1, hpre, hrun⟩ := bind_ok hrun
  cases hrun
  exact ⟨(preemptRequest_ordered h hpolicy href hpre).modify rfl, (preemptRequest_running hpre).2⟩

theorem forcePreemptAll_ordered {refs : List Ref} (hrefs : ∀ r ∈ refs, r < s.numObjs)
    (hrun : forcePreemptAll cfg refs s = .ok s') : Ordered s' extra := by
  induction refs generalizing s with
  | nil =>
    cases hrun
    exact h
  | cons ref refs ih =>
    obtain ⟨s1, hpre, hrun⟩ := bind_ok hrun
    have hdrop : Ordered { s with running := s.running.dropLast } extra :=
      h.setRunning _ fun r hr => h.known_running (mem_of_mem_dropLast hr)
    obtain ⟨hs1, hnum⟩ := forcePreempt_ordered hpolicy hdrop (hrefs ref mem_cons_self) hpre
    refine ih hs1 (fun r hr => ?_) hrun
    rw [hnum]
    exact hrefs r (mem_cons_of_mem _ hr)

theorem resetPrefixCache_ordered {resetRunningRequests resetConnector b : Bool}
    (hrun : s.resetPrefixCache cfg resetRunningRequests resetConnector = .ok (b, s')) :
    Ordered s' extra := by
  refine resetPrefixCache_keeps (P := fun t => Ordered t extra)
    (fun _ _ _ ht => ⟨ht.waiting, ht.skipped, ht.held, ht.known, ht.entry⟩) h ?_ hrun
  intro t _ hall
  exact forcePreemptAll_ordered hpolicy h (fun r hr => h.known_running (mem_reverse.mp hr)) hall

end

theorem updateDraftTokenIds_ordered (h : Ordered s extra) (drafts : List (Nat × List TokenId)) :
    Ordered (s.updateDraftTokenIds drafts) extra := by
  induction drafts generalizing s with
  | nil => exact h
  | cons d drafts ih =>
    refine ih ?_
    show Ordered (s.updateDraft d.1 d.2) extra
    unfold updateDraft
    split
    · exact h
    · split
      · exact h.modify rfl
      · exact h.modify rfl

/-- The session gets another key, with which it still stands right in the heaps. -/
theorem updateRequestAsSession_ordered {update : StreamingUpdate} (h : Ordered s [])
    (hwaiting : IsHeap (s.keyAt ref update.arrivalTime) s.waiting)
    (hskipped : IsHeap (s.keyAt ref update.arrivalTime) s.skippedWaiting)
    (hrun : s.updateRequestAsSession cfg ref update = .ok s') : Ordered s' [] := by
  obtain ⟨session, n, hupdate, rfl⟩ := updateRequestAsSession_effect hrun
  obtain ⟨prompt, memo, hashes, -, heq⟩ := Request.updateAsSession_effect hupdate
  have hkey : (s.modify ref fun _ => session).key = s.keyAt ref update.arrivalTime := by
    funext r
    unfold key keyAt
    by_cases hr : r = ref
    · rw [hr, modify_self, if_pos rfl, heq]
      rfl
    · rw [modify_of_ne _ hr, if_neg hr]
      rfl
  have hw : IsHeap (s.modify ref fun _ => session).key s.waiting := by
    rw [hkey]
    exact hwaiting
  have hs : IsHeap (s.modify ref fun _ => session).key s.skippedWaiting := by
    rw [hkey]
    exact hskipped
  refine ⟨hw, hs, fun c _ _ => Heapq.inOrder_of_length_le (Nat.zero_le c), h.known,
    fun id r hr => ?_⟩
  obtain ⟨hid, hlt⟩ := h.entry id r hr
  refine ⟨?_, hlt⟩
  show ((s.modify ref fun _ => session).objs r).requestId = id
  by_cases hrr : r = ref
  · subst hrr
    rw [modify_self, heq]
    exact hid
  · rw [modify_of_ne _ hrr]
    exact hid

theorem enqueueWaitingRequest_ordered (hpolicy : cfg.policy = .priority) (h : Ordered s extra)
    (href : ref < s.numObjs) : Ordered (s.enqueueWaitingRequest cfg ref) extra := by
  unfold enqueueWaitingRequest
  split
  · refine h.setSkipped (RequestQueue.addRequest_isHeap hpolicy (s.respects cfg) h.skipped ref)
      fun r hr => ?_
    rcases mem_cons.mp (RequestQueue.addRequest_perm.mem_iff.mp hr) with rfl | hr
    · exact href
    · exact h.known_skipped hr
  · refine h.setWaiting (RequestQueue.addRequest_isHeap hpolicy (s.respects cfg) h.waiting ref)
      fun r hr => ?_
    rcases mem_cons.mp (RequestQueue.addRequest_perm.mem_iff.mp hr) with rfl | hr
    · exact href
    · exact h.known_waiting hr

theorem alloc_ordered (h : Ordered s extra) (request : Request) :
    Ordered (s.alloc request) extra := by
  have hold : ∀ r, r < s.numObjs → (s.alloc request).objs r = s.objs r := fun r hr =>
    update_of_ne (Nat.ne_of_lt hr) ..
  have hkey : ∀ r, r < s.numObjs → (s.alloc request).key r = s.key r := fun r hr => by
    unfold key
    rw [hold r hr]
  refine ⟨h.waiting.congr fun r hr => hkey r (h.known_waiting hr),
    h.skipped.congr fun r hr => hkey r (h.known_skipped hr),
    h.held.congr fun r hr => hkey r (h.known_held hr),
    fun r hr => Nat.lt_succ_of_lt (h.known r hr), fun id r hr => ?_⟩
  obtain ⟨hid, hlt⟩ := h.entry id r hr
  rw [hold r hlt]
  exact ⟨hid, Nat.lt_succ_of_lt hlt⟩

theorem addNew_ordered (request : Request) (hpolicy : cfg.policy = .priority) (h : Ordered s []) :
    Ordered { (s.alloc request).enqueueWaitingRequest cfg s.numObjs with
      requests := ((s.alloc request).enqueueWaitingRequest cfg s.numObjs).requests.set
        request.requestId s.numObjs } [] := by
  have henq : Ordered ((s.alloc request).enqueueWaitingRequest cfg s.numObjs) [] :=
    enqueueWaitingRequest_ordered hpolicy (alloc_ordered h request) (Nat.lt_succ_self _)
  have hsame : ((s.alloc request).enqueueWaitingRequest cfg s.numObjs).objs =
      (s.alloc request).objs ∧
      ((s.alloc request).enqueueWaitingRequest cfg s.numObjs).numObjs = s.numObjs + 1 := by
    unfold enqueueWaitingRequest
    split <;> exact ⟨rfl, rfl⟩
  generalize (s.alloc request).enqueueWaitingRequest cfg s.numObjs = t at henq hsame
  refine ⟨henq.waiting, henq.skipped, henq.held, henq.known, fun id r hr => ?_⟩
  rw [Dict.get?_set] at hr
  split at hr
  · rename_i hid
    cases hr
    refine ⟨?_, by show s.numObjs < t.numObjs; rw [hsame.2]; exact Nat.lt_succ_self _⟩
    show (t.objs s.numObjs).requestId = id
    rw [hsame.1, hid]
    show (update s.objs s.numObjs request s.numObjs).requestId = _
    rw [update_self]
  · exact henq.entry id r hr

theorem addRequest_ordered {request : Request} (hpolicy : cfg.policy = .priority) (h : Ordered s [])
    (hsession : ∀ ref, s.requests.get? request.requestId = some ref →
      (s.objs ref).status = .waitingForStreamingReq → request.resumable = true →
      IsHeap (s.keyAt ref request.arrivalTime) s.waiting ∧
        IsHeap (s.keyAt ref request.arrivalTime) s.skippedWaiting)
    (hrun : s.addRequest cfg request = .ok s') : Ordered s' [] := by
  unfold addRequest at hrun
  split at hrun
  · rename_i existing hget
    dsimp only at hrun
    split at hrun
    · split at hrun
      · cases hrun
      · cases hrun
        exact h.modify rfl
    · rename_i hstatus
      split at hrun
      · rename_i update hupdate
        unfold StreamingUpdate.fromRequest at hupdate
        split at hupdate
        · rename_i hres
          cases hupdate
          obtain ⟨hw, hs⟩ := hsession existing hget (not_not.mp hstatus) hres
          exact updateRequestAsSession_ordered h hw hs hrun
        · cases hupdate
      · exact finishRequests_ordered hpolicy h hrun
  · cases hrun
    split
    · exact addNew_ordered { request with streamingQueue := some [] } hpolicy h
    · exact addNew_ordered request hpolicy h

/-- The session would get another arrival time in a heap that is not put in order again:
`remove_requests` only sees `waiting`, and not when the request was running. -/
def MovesInHeap (s : Scheduler X) (ref : Ref) (arrivalTime : Int) : Prop :=
  (ref ∈ s.skippedWaiting ∨ ((s.objs ref).status = .running ∧ ref ∈ s.waiting)) ∧
    arrivalTime ≠ (s.objs ref).arrivalTime

/-! ## Stopped requests -/

/-- What a stop does to the queues: nothing, or the request joins `waiting` with the arrival time
of its next chunk, or it joins `skipped_waiting`. -/
theorem handleStoppedRequest_order {finished : Bool}
    (h : s.handleStoppedRequest cfg ref = .ok (finished, s')) : ∃ t : Scheduler X,
      t.numObjs = s.numObjs ∧ t.requests = s.requests ∧ t.running = s.running ∧
      t.waiting = s.waiting ∧ t.skippedWaiting = s.skippedWaiting ∧
      (∀ r, r ≠ ref → t.objs r = s.objs r) ∧ (t.objs ref).requestId = (s.objs ref).requestId ∧
      ((s' = t ∧ t.key = s.key) ∨
        (∃ update rest, (s.objs ref).resumable = true ∧
          (s.objs ref).streamingQueue = some (some update :: rest) ∧
          t.key = s.keyAt ref update.arrivalTime ∧
          s' = { t with waiting := t.waiting.addRequest cfg.policy (t.lt cfg) ref }) ∨
        (t.key = s.key ∧ s' = { t with
          skippedWaiting := t.skippedWaiting.addRequest cfg.policy (t.lt cfg) ref })) := by
  unfold handleStoppedRequest at h
  split at h
  · cases h
    exact ⟨s, rfl, rfl, rfl, rfl, rfl, fun _ _ => rfl, rfl, .inl ⟨rfl, rfl⟩⟩
  · rename_i hres
    have hres : (s.objs ref).resumable = true := by simpa using hres
    split at h
    · rename_i rest _
      cases h
      refine ⟨s.modify ref fun r => { r with streamingQueue := some rest }, rfl, rfl, rfl, rfl, rfl,
        fun r hr => modify_of_ne _ hr, ?_, .inl ⟨rfl, key_modify rfl⟩⟩
      rw [modify_self]
    · rename_i update rest hqueue
      obtain ⟨s1, hsession, h⟩ := bind_ok h
      cases h
      obtain ⟨session, n, hupdate, rfl⟩ := updateRequestAsSession_effect hsession
      rw [modify_self] at hupdate
      obtain ⟨prompt, memo, hashes, -, heq⟩ := Request.updateAsSession_effect hupdate
      rw [modify_modify]
      have hobj : ∀ r, r ≠ ref → (s.modify ref fun _ => session).objs r = s.objs r := fun r hr =>
        modify_of_ne _ hr
      have hself : (s.modify ref fun _ => session).objs ref = session := modify_self _
      have hid : session.requestId = (s.objs ref).requestId := by rw [heq]
      have hstatus : session.status = .waiting := by rw [heq]
      have hkey : (s.modify ref fun _ => session).key = s.keyAt ref update.arrivalTime := by
        funext r
        unfold key keyAt
        by_cases hr : r = ref
        · rw [hr, hself, if_pos rfl, heq]
          rfl
        · rw [hobj r hr, if_neg hr]
          rfl
      refine ⟨{ s.modify ref (fun _ => session) with numWaitingForStreamingInput := n }, rfl, rfl,
        rfl, rfl, rfl, hobj, ?_, .inr (.inl ⟨update, rest, hres, hqueue, hkey, ?_⟩)⟩
      · show ((s.modify ref fun _ => session).objs ref).requestId = _
        rw [hself, hid]
      · show enqueueWaitingRequest cfg _ ref = _
        unfold enqueueWaitingRequest
        rw [if_neg]
        · rfl
        · show ¬ ((s.modify ref fun _ => session).objs ref).status.isBlockedWaiting = true
          rw [hself, hstatus]
          decide
    · cases h
      have hself : (s.modify ref fun r => { r with status := .waitingForStreamingReq }).objs ref =
          { s.objs ref with status := .waitingForStreamingReq } := modify_self _
      have hkey : (s.modify ref fun r => { r with status := .waitingForStreamingReq }).key = s.key :=
        key_modify rfl
      have hobj : ∀ r, r ≠ ref →
          (s.modify ref fun r => { r with status := .waitingForStreamingReq }).objs r = s.objs r :=
        fun r hr => modify_of_ne _ hr
      refine ⟨{ s.modify ref (fun r => { r with status := .waitingForStreamingReq }) with
        numWaitingForStreamingInput := s.numWaitingForStreamingInput + 1 }, rfl, rfl, rfl, rfl,
        rfl, hobj, ?_, .inr (.inr ⟨hkey, ?_⟩)⟩
      · show ((s.modify ref fun r => { r with
          status := .waitingForStreamingReq }).objs ref).requestId = _
        rw [hself]
      · show enqueueWaitingRequest cfg _ ref = _
        unfold enqueueWaitingRequest
        rw [if_pos]
        · rfl
        · show ((s.modify ref fun r => { r with
            status := .waitingForStreamingReq }).objs ref).status.isBlockedWaiting = true
          rw [hself]
          rfl

end Scheduler

namespace UpdatePass

variable {cfg : Config} {X : World} {p p' : UpdatePass X} {ref : Ref} {s : Scheduler X}
  {processed : List Nat}

/-- What holds of the heaps in the loop of `update_from_output`, which started in `s` and is
through with the ids in `processed`. When the key of a request in `waiting` has changed, the
heap is `dirty` until `remove_requests` puts it in order. -/
structure HeapInv (s : Scheduler X) (processed : List Nat) (dirty : Prop) (t : Scheduler X) :
    Prop where
  waiting : IsHeap t.key t.waiting ∨ dirty
  skipped : IsHeap t.key t.skippedWaiting
  known : ∀ r, r ∈ t.running ∨ r ∈ t.waiting ∨ r ∈ t.skippedWaiting → r < t.numObjs
  entry : ∀ id r, t.requests.get? id = some r → (t.objs r).requestId = id ∧ r < t.numObjs
  requestId : ∀ r, (t.objs r).requestId = (s.objs r).requestId
  requests : ∀ id r, t.requests.get? id = some r → s.requests.get? id = some r
  same : ∀ r, (s.objs r).requestId ∉ processed → t.objs r = s.objs r ∧
    (r ∈ t.waiting → r ∈ s.waiting) ∧ (r ∈ t.skippedWaiting → r ∈ s.skippedWaiting)

variable {dirty : Prop} {t u : Scheduler X}

theorem heapInv_start (h : s.Ordered []) : HeapInv s [] dirty s where
  waiting := .inl h.waiting
  skipped := h.skipped
  known r hr := by
    rcases hr with hr | hr | hr
    · exact h.known_running hr
    · exact h.known_waiting hr
    · exact h.known_skipped hr
  entry := h.entry
  requestId _ := rfl
  requests _ _ hr := hr
  same _ _ := ⟨rfl, fun h => h, fun h => h⟩

section

variable (h : HeapInv s processed dirty t)
include h

theorem HeapInv.change {dirty' : Prop} (hdirty : dirty → dirty')
    (hobjs : ∀ r, r ≠ ref → u.objs r = t.objs r)
    (hid : (u.objs ref).requestId = (t.objs ref).requestId) (hwaiting : u.waiting = t.waiting)
    (hskipped : u.skippedWaiting = t.skippedWaiting) (hrunning : u.running = t.running)
    (hnum : u.numObjs = t.numObjs)
    (hrequests : ∀ id r, u.requests.get? id = some r → t.requests.get? id = some r)
    (hkey : u.key = t.key ∨ (ref ∉ t.skippedWaiting ∧ (ref ∉ t.waiting ∨ dirty'))) :
    HeapInv s ((s.objs ref).requestId :: processed) dirty' u := by
  have hkeep : ∀ {q : RequestQueue}, ref ∉ q → IsHeap t.key q → IsHeap u.key q := by
    intro q hq hheap
    refine hheap.congr fun r hr => ?_
    unfold Scheduler.key
    rw [hobjs r fun heq => hq (heq ▸ hr)]
  have hreqId : ∀ r, (u.objs r).requestId = (t.objs r).requestId := fun r => by
    by_cases hr : r = ref
    · rw [hr, hid]
    · rw [hobjs r hr]
  refine ⟨?_, ?_, ?_, fun id r hr => ?_, fun r => (hreqId r).trans (h.requestId r),
    fun id r hr => h.requests id r (hrequests id r hr), fun r hr => ?_⟩
  · rw [hwaiting]
    rcases h.waiting with hheap | hd
    · rcases hkey with hkey | ⟨-, hout | hd⟩
      · exact .inl (hkey ▸ hheap)
      · exact .inl (hkeep hout hheap)
      · exact .inr hd
    · exact .inr (hdirty hd)
  · rw [hskipped]
    rcases hkey with hkey | ⟨hout, -⟩
    · exact hkey ▸ h.skipped
    · exact hkeep hout h.skipped
  · rw [hrunning, hwaiting, hskipped, hnum]
    exact h.known
  · rw [hreqId, hnum]
    exact h.entry id r (hrequests id r hr)
  · rw [mem_cons, not_or] at hr
    rw [hobjs r fun heq => hr.1 (heq ▸ rfl), hwaiting, hskipped]
    exact h.same r hr.2

section

variable (href : ref < t.numObjs) (hmem : (s.objs ref).requestId ∈ processed)
include href hmem

theorem HeapInv.push {waiting skippedWaiting : RequestQueue}
    (hw : IsHeap t.key waiting ∨ dirty) (hs : IsHeap t.key skippedWaiting)
    (hinw : ∀ r ∈ waiting, r = ref ∨ r ∈ t.waiting)
    (hins : ∀ r ∈ skippedWaiting, r = ref ∨ r ∈ t.skippedWaiting) :
    HeapInv s processed dirty { t with waiting, skippedWaiting } := by
  refine ⟨hw, hs, fun r hr => ?_, h.entry, h.requestId, h.requests, fun r hr => ?_⟩
  · rcases hr with hr | hr | hr
    · exact h.known r (.inl hr)
    · rcases hinw r hr with rfl | hr
      · exact href
      · exact h.known r (.inr (.inl hr))
    · rcases hins r hr with rfl | hr
      · exact href
      · exact h.known r (.inr (.inr hr))
  · obtain ⟨hobj, hsamew, hsames⟩ := h.same r hr
    have hne : r ≠ ref := by
      rintro rfl
      exact hr hmem
    exact ⟨hobj, fun hin => hsamew ((hinw r hin).resolve_left hne),
      fun hin => hsames ((hins r hin).resolve_left hne)⟩

variable (hpolicy : cfg.policy = .priority)
include hpolicy

theorem HeapInv.pushWaiting :
    HeapInv s processed dirty
      { t with waiting := t.waiting.addRequest cfg.policy (t.lt cfg) ref } :=
  h.push href hmem (h.waiting.imp_left fun hheap =>
    RequestQueue.addRequest_isHeap hpolicy (t.respects cfg) hheap ref) h.skipped
    (fun _ hr => mem_cons.mp (RequestQueue.addRequest_perm.mem_iff.mp hr)) fun _ => .inr

theorem HeapInv.pushSkipped :
    HeapInv s processed dirty
      { t with skippedWaiting := t.skippedWaiting.addRequest cfg.policy (t.lt cfg) ref } :=
  h.push href hmem h.waiting
    (RequestQueue.addRequest_isHeap hpolicy (t.respects cfg) h.skipped ref) (fun _ => Or.inr)
    fun _ hr => mem_cons.mp (RequestQueue.addRequest_perm.mem_iff.mp hr)

end

theorem HeapInv.free {delayFreeBlocks : Bool}
    (hrun : t.freeRequest cfg ref delayFreeBlocks = .ok u) : HeapInv s processed dirty u := by
  obtain ⟨-, m, world, requests, -, hreq, rfl⟩ := Scheduler.freeRequest_effect hrun
  have hsub := Scheduler.sub_of_erase _ hreq
  exact ⟨h.waiting, h.skipped, h.known, fun id r hr => h.entry id r (hsub id r hr), h.requestId,
    fun id r hr => h.requests id r (hsub id r hr), h.same⟩

theorem handleStoppedRequest_heaps {finished : Bool} {dirty' : Prop}
    (hpolicy : cfg.policy = .priority) (href : ref < t.numObjs) (hdirty : dirty → dirty')
    (hsession : ∀ update rest, (t.objs ref).resumable = true → (t.objs ref).streamingQueue = some (some update :: rest) → update.arrivalTime = (t.objs ref).arrivalTime ∨ (ref ∉ t.skippedWaiting ∧ (ref ∉ t.waiting ∨ dirty')))
    (hrun : t.handleStoppedRequest cfg ref = .ok (finished, u)) :
    HeapInv s ((s.objs ref).requestId :: processed) dirty' u := by
  obtain ⟨v, hnum, hreq, hrunning, hwaiting, hskipped, hobjs, hid, hcases⟩ :=
    Scheduler.handleStoppedRequest_order hrun
  have hrequests : ∀ id r, v.requests.get? id = some r → t.requests.get? id = some r :=
    fun id r hr => hreq ▸ hr
  have hv : v.key = t.key ∨ (ref ∉ t.skippedWaiting ∧ (ref ∉ t.waiting ∨ dirty')) →
      HeapInv s ((s.objs ref).requestId :: processed) dirty' v := fun hkey =>
    h.change hdirty hobjs hid hwaiting hskipped hrunning hnum hrequests hkey
  rcases hcases with ⟨rfl, hkey⟩ | ⟨update, rest, hres, hqueue, hkey, rfl⟩ | ⟨hkey, rfl⟩
  · exact hv (.inl hkey)
  · refine (hv ?_).pushWaiting (hnum ▸ href) mem_cons_self hpolicy
    refine (hsession update rest hres hqueue).imp_left fun heq => ?_
    rw [hkey]
    funext r
    unfold Scheduler.keyAt Scheduler.key
    split
    · rename_i hr
      rw [hr, heq]
    · rfl
  · exact (hv (.inl hkey)).pushSkipped (hnum ▸ href) mem_cons_self hpolicy

theorem HeapInv.mono {processed' : List Nat} (hsub : ∀ id ∈ processed, id ∈ processed') :
    HeapInv s processed' dirty t :=
  ⟨h.waiting, h.skipped, h.known, h.entry, h.requestId, h.requests,
    fun r hr => h.same r fun hin => hr (hsub _ hin)⟩

end

theorem processOutput_heaps {drafts generatedTokenIds : List TokenId} {hasPoolerOutput : Bool}
    (h : HeapInv s processed (p.stoppedPreemptedReqs ≠ []) p.s) (hpolicy : cfg.policy = .priority)
    (href : ref < p.s.numObjs) (hnew : (s.objs ref).requestId ∉ processed)
    (hsession : ∀ update rest, (s.objs ref).stopsOn cfg generatedTokenIds hasPoolerOutput = true →
      (s.objs ref).resumable = true → (s.objs ref).streamingQueue = some (some update :: rest) →
      ¬ s.MovesInHeap ref update.arrivalTime)
    (hrun : p.processOutput cfg ref drafts generatedTokenIds hasPoolerOutput = .ok p') :
    HeapInv s ((s.objs ref).requestId :: processed) (p'.stoppedPreemptedReqs ≠ []) p'.s := by
  obtain ⟨r', world, p1, hid, ⟨hprio, harrival⟩, -, hres, hqueue, hcases, world', outputs, rfl⟩ :=
    processOutput_effect hrun
  obtain ⟨hobj, hw, hs⟩ := h.same ref hnew
  have hself : (p.s.modify ref fun _ => r').objs ref = r' := Scheduler.modify_self _
  have hothers : ∀ r, r ≠ ref → (p.s.modify ref fun _ => r').objs r = p.s.objs r := fun r hr =>
    Scheduler.modify_of_ne _ hr
  have hkey : (p.s.modify ref fun _ => r').key = p.s.key := by
    refine Scheduler.key_modify ?_
    unfold Request.orderKey
    rw [hprio, harrival, hid]
  have hmod : ∀ {dirty' : Prop}, (p.stoppedPreemptedReqs ≠ [] → dirty') →
      HeapInv s ((s.objs ref).requestId :: processed) dirty'
        { p.s.modify ref (fun _ => r') with world } := by
    intro dirty' hdirty
    refine h.change (u := { p.s.modify ref (fun _ => r') with world }) hdirty
      hothers ?_ rfl rfl rfl rfl (fun _ _ hr => hr)
      (.inl hkey)
    show ((p.s.modify ref fun _ => r').objs ref).requestId = _
    rw [hself, hid]
  have hend : HeapInv s ((s.objs ref).requestId :: processed) (p1.stoppedPreemptedReqs ≠ []) p1.s := by
    rcases hcases with ⟨-, -, rfl⟩ | ⟨hstops, -, hstop⟩
    · exact hmod fun hd => hd
    · obtain ⟨⟨finished, s1⟩, hhandle, hstop⟩ := bind_ok hstop
      obtain ⟨s2, hfree, hstop⟩ := bind_ok hstop
      have hs1 : HeapInv s ((s.objs ref).requestId :: processed)
          (p.stoppedPreemptedReqs ≠ [] ∨ (p.s.objs ref).status ≠ .running) s1 := by
        refine (handleStoppedRequest_heaps (hmod Or.inl) hpolicy href (fun hd => hd) ?_ hhandle).mono
          fun id hin => ?_
        · intro update rest hres' hqueue'
          change ((p.s.modify ref fun _ => r').objs ref).resumable = true at hres'
          change ((p.s.modify ref fun _ => r').objs ref).streamingQueue = _ at hqueue'
          rw [hself] at hres' hqueue'
          change update.arrivalTime = ((p.s.modify ref fun _ => r').objs ref).arrivalTime ∨
            (ref ∉ p.s.skippedWaiting ∧ (ref ∉ p.s.waiting ∨ _))
          rw [hself, harrival]
          rw [hres, hobj] at hres'
          rw [hqueue, hobj] at hqueue'
          rw [hobj] at hstops ⊢
          have hstay := hsession update rest hstops hres' hqueue'
          by_cases htime : update.arrivalTime = (s.objs ref).arrivalTime
          · exact .inl htime
          · refine .inr ⟨fun hin => hstay ⟨.inl (hs hin), htime⟩, ?_⟩
            by_cases hstatus : (s.objs ref).status = .running
            · exact .inl fun hin => hstay ⟨.inr ⟨hstatus, hw hin⟩, htime⟩
            · exact .inr (.inr hstatus)
        · rcases mem_cons.mp hin with rfl | hin
          · exact mem_cons_self
          · exact hin
      have hs2 : HeapInv s ((s.objs ref).requestId :: processed)
          (p.stoppedPreemptedReqs ≠ [] ∨ (p.s.objs ref).status ≠ .running) s2 := by
        split at hfree
        · exact hs1.free hfree
        · cases hfree
          exact hs1
      split at hstop
      · rename_i hstatus
        cases hstop
        exact ⟨hs2.waiting.imp_right fun hd => hd.resolve_right fun hne => hne hstatus, hs2.skipped,
          hs2.known, hs2.entry, hs2.requestId, hs2.requests, hs2.same⟩
      · cases hstop
        exact ⟨.inr (append_ne_nil_of_right_ne_nil _ (cons_ne_nil _ _)), hs2.skipped,
          hs2.known, hs2.entry, hs2.requestId, hs2.requests, hs2.same⟩
  exact ⟨hend.waiting, hend.skipped, hend.known, hend.entry, hend.requestId, hend.requests,
    hend.same⟩

end UpdatePass

namespace Scheduler

variable {cfg : Config} {X : World} {s s' : Scheduler X} {ref : Ref} {out : SchedulerOutput}
  {mro : ModelRunnerOutput}

/-- No session that an output stops is moved in a heap. -/
def KeepsHeaps (cfg : Config) (s : Scheduler X) (failed : List Nat) (out : SchedulerOutput)
    (mro : ModelRunnerOutput) : Prop :=
  ∀ reqId ref generatedTokenIds hasPoolerOutput update rest,
    reqId ∈ out.numScheduledTokens.keySet → reqId ∉ failed → s.unfinished? reqId = some ref →
    mro.generatedTokenIds reqId = .ok generatedTokenIds →
    mro.hasPoolerOutput reqId = .ok hasPoolerOutput →
    (s.objs ref).stopsOn cfg generatedTokenIds hasPoolerOutput = true →
    (s.objs ref).resumable = true → (s.objs ref).streamingQueue = some (some update :: rest) →
    ¬ s.MovesInHeap ref update.arrivalTime

theorem SameButCounts.ordered (h : SameButCounts s s') (hs : s.Ordered []) : s'.Ordered [] := by
  have hkey : s'.key = s.key := by
    funext r
    obtain ⟨n, m, k, heq⟩ := h.objs r
    unfold key
    rw [heq]
    rfl
  refine ⟨?_, ?_, fun c _ _ => Heapq.inOrder_of_length_le (Nat.zero_le c), ?_, fun id r hr => ?_⟩
  · rw [hkey, h.waiting]
    exact hs.waiting
  · rw [hkey, h.skippedWaiting]
    exact hs.skipped
  · rw [h.running, h.waiting, h.skippedWaiting, h.numObjs]
    exact hs.known
  · rw [h.requests] at hr
    rw [Request.requestId_of_orderKey (congrFun hkey r), h.numObjs]
    exact hs.entry id r hr

variable {failed : List Nat}

theorem SameButCounts.keepsHeaps (h : SameButCounts s s') (hok : s.KeepsHeaps cfg failed out mro) :
    s'.KeepsHeaps cfg failed out mro := by
  intro reqId ref generated pooler update rest hmem hfailed hunf hgen hpool hstops hres hqueue hmoves
  obtain ⟨n, m, k, heq⟩ := h.objs ref
  unfold MovesInHeap at hmoves
  rw [heq] at hstops hres hqueue hmoves
  rw [h.skippedWaiting, h.waiting] at hmoves
  rw [Request.stopsOn_withCounts] at hstops
  exact hok reqId ref generated pooler update rest hmem hfailed (h.unfinished? hunf) hgen hpool
    hstops hres hqueue hmoves

theorem updateLoop_heaps {p : UpdatePass X} (hpolicy : cfg.policy = .priority) (h : s.Ordered [])
    (hok : s.KeepsHeaps cfg failed out mro) (hrun : out.numScheduledTokens.entries.foldlM
      (fun p e => p.processScheduled cfg out mro failed e.1 e.2) ({ s } : UpdatePass X) = .ok p) :
    ∃ processed, UpdatePass.HeapInv s processed (p.stoppedPreemptedReqs ≠ []) p.s := by
  refine foldlM_fresh (k := Prod.fst) (P := fun processed (p : UpdatePass X) =>
    UpdatePass.HeapInv s processed (p.stoppedPreemptedReqs ≠ []) p.s) ?_
    out.numScheduledTokens.nodupKeys (fun _ _ => not_mem_nil) (UpdatePass.heapInv_start h) hrun
  intro processed p0 e he p1 hnew hinv hone
  obtain ⟨⟨⟩, -, hone⟩ := bind_ok hone
  split at hone
  · cases hone
    exact .inl hinv
  · rename_i hfailed
    split at hone
    · cases hone
      exact .inl hinv
    · rename_i ref hunf
      obtain ⟨generated, hgen, hone⟩ := bind_ok hone
      obtain ⟨pooler, hpool, hone⟩ := bind_ok hone
      obtain ⟨hget, hfin⟩ := unfinished?_eq_some.mp hunf
      obtain ⟨hid, hlt⟩ := hinv.entry e.1 ref hget
      rw [hinv.requestId] at hid
      have hfresh : (s.objs ref).requestId ∉ processed := hid ▸ hnew
      obtain ⟨hobj, -⟩ := hinv.same ref hfresh
      have hunf' : s.unfinished? e.1 = some ref :=
        unfinished?_eq_some.mpr ⟨hinv.requests _ _ hget, hobj ▸ hfin⟩
      rw [← hid]
      exact .inr (UpdatePass.processOutput_heaps hinv hpolicy hlt hfresh
        (fun update rest => hok e.1 ref generated pooler update rest
          (mem_toFinset.mpr (mem_map_of_mem he)) hfailed hunf' hgen hpool) hone)

theorem removeStopped_ordered {processed : List Nat} {p : UpdatePass X}
    (hpolicy : cfg.policy = .priority)
    (h : UpdatePass.HeapInv s processed (p.stoppedPreemptedReqs ≠ []) p.s) :
    (p.removeStopped cfg).Ordered [] := by
  have hwaiting : IsHeap p.s.key (p.removeStopped cfg).waiting ∧
      ∀ r ∈ (p.removeStopped cfg).waiting, r ∈ p.s.waiting := by
    unfold UpdatePass.removeStopped
    split
    · rename_i hnil
      exact ⟨h.waiting.resolve_right fun hne => hne hnil, fun r hr => hr⟩
    · exact ⟨RequestQueue.removeRequests_isHeap hpolicy (p.s.respects cfg) _ _,
        fun r hr => RequestQueue.mem_of_mem_removeRequests hr⟩
  refine ⟨hwaiting.1, h.skipped, fun c _ _ => Heapq.inOrder_of_length_le (Nat.zero_le c),
    fun r hr => ?_, h.entry⟩
  rcases hr with hr | hr | hr | hr
  · exact h.known r (.inl (mem_of_mem_removeAll hr))
  · exact h.known r (.inr (.inl (hwaiting.2 r hr)))
  · exact h.known r (.inr (.inr hr))
  · cases hr

theorem updateFromOutput_ordered {outputs : List EngineCoreOutput}
    (hpolicy : cfg.policy = .priority) (h : s.Ordered [])
    (hok : s.KeepsHeaps cfg (s.handleFailedLoads cfg out mro).1 out mro)
    (hrun : s.updateFromOutput cfg out mro = .ok (outputs, s')) : s'.Ordered [] := by
  obtain ⟨p, failedOutputs, s2, hloop, hfail, hkeep⟩ := updateFromOutput_keeps
    (P := fun t : Scheduler X => t.Ordered [])
    (fun _ _ _ ht => ⟨ht.waiting, ht.skipped, ht.held, ht.known, ht.entry⟩)
    (fun _ _ _ _ ht _ hfree => freeBlocks_ordered ht hfree) hrun
  have hcounts := handleFailedLoads_counts cfg s out mro
  obtain ⟨processed, hinv⟩ := updateLoop_heaps hpolicy (hcounts.ordered h)
    (hcounts.keepsHeaps hok) hloop
  have hremoved := removeStopped_ordered hpolicy hinv
  refine hkeep ?_
  rcases failRequests_effect hfail with rfl | ⟨-, hfinish⟩
  · exact hremoved
  · exact finishRequests_ordered hpolicy hremoved hfinish

end Scheduler

/-! ## Runs -/

/-- The call gives no request another place in the order while it sits in a heap. A session that
waits for its next chunk may get another arrival time when it still stands right. -/
def Event.KeepsHeaps (cfg : Config) {X : World} (s : Scheduler X) : Event → Prop
  | .addRequest args => ∀ ref, s.requests.get? args.requestId = some ref →
      (s.objs ref).status = .waitingForStreamingReq → args.resumable = true →
      IsHeap (s.keyAt ref args.arrivalTime) s.waiting ∧
        IsHeap (s.keyAt ref args.arrivalTime) s.skippedWaiting
  | .updateFromOutput out mro => s.KeepsHeaps cfg (s.handleFailedLoads cfg out mro).1 out mro
  | _ => True

variable {cfg : Config} {X : World} {s : Scheduler X}

theorem does_ordered {s' : Scheduler X} {e : Event} (hpolicy : cfg.policy = .priority)
    (h : s.Ordered []) (hok : e.KeepsHeaps cfg s) (hdoes : s.Does cfg e s') : s'.Ordered [] := by
  cases e with
  | addRequest args =>
    obtain ⟨request, hinit, hadd⟩ := hdoes
    obtain ⟨hid, -, -, hres, harrival⟩ := Request.init_effect hinit
    refine Scheduler.addRequest_ordered hpolicy h (fun ref hget hstatus hr => ?_) hadd
    rw [hid] at hget
    rw [hres] at hr
    rw [harrival]
    exact hok ref hget hstatus hr
  | schedule out => exact Scheduler.schedule_ordered hpolicy h hdoes
  | updateFromOutput out mro =>
    obtain ⟨outputs, hupdate⟩ := hdoes
    exact Scheduler.updateFromOutput_ordered hpolicy h hok hupdate
  | finishRequests ids status => exact Scheduler.finishRequests_ordered hpolicy h hdoes
  | resetPrefixCache a b =>
    obtain ⟨ok, hreset⟩ := hdoes
    exact Scheduler.resetPrefixCache_ordered hpolicy h hreset
  | updateDraftTokenIds drafts =>
    obtain rfl : s' = s.updateDraftTokenIds drafts := hdoes
    exact Scheduler.updateDraftTokenIds_ordered h drafts
  | setPauseState state =>
    obtain rfl : s' = s.setPauseState state := hdoes
    exact ⟨h.waiting, h.skipped, h.held, h.known, h.entry⟩
  | resetEncoderCache =>
    obtain rfl : s' = s.resetEncoderCache := hdoes
    exact ⟨h.waiting, h.skipped, h.held, h.known, h.entry⟩

/-! ## The result -/

/-- `peek_request` and `pop_request` return a smallest request of the queue. -/
def PopsLeast (cfg : Config) {X : World} (s : Scheduler X) (q : RequestQueue) : Prop :=
  ∀ r, q.peekRequest cfg.policy = .ok r → (∀ r' ∈ q, s.key r ≤ s.key r') ∧
    ∃ rest, q.popRequest cfg.policy (s.lt cfg) = .ok rest ∧ q.Perm (r :: rest)

theorem popsLeast_of_isHeap {q : RequestQueue} (h : IsHeap s.key q) : PopsLeast cfg s q := by
  intro r hpeek
  obtain ⟨rest, hpop⟩ : ∃ rest, q.popRequest cfg.policy (s.lt cfg) = .ok rest :=
    RequestQueue.popRequest_ok hpeek
  refine ⟨fun r' hr' => h.root_le ?_ hr', rest, hpop, RequestQueue.popRequest_perm hpeek hpop⟩
  cases q with
  | nil => cases hpeek
  | cons a rest =>
    cases hpeek
    rfl

/-- The queues of the scheduler, and in the middle of a step those of the pass. -/
def QueuesPopLeast (cfg : Config) {X : World} (s : Scheduler X) : Prop :=
  (PopsLeast cfg s s.waiting ∧ PopsLeast cfg s s.skippedWaiting) ∧
    ∀ p phase, Pass.Steps cfg (s.startPass cfg, .runningIdle) (p, phase) →
      PopsLeast cfg p.s p.s.waiting ∧ PopsLeast cfg p.s p.s.skippedWaiting ∧
        PopsLeast cfg p.s p.stepSkippedWaiting

theorem Scheduler.Ordered.queuesPopLeast (hpolicy : cfg.policy = .priority) (h : s.Ordered []) :
    QueuesPopLeast cfg s := by
  refine ⟨⟨popsLeast_of_isHeap h.waiting, popsLeast_of_isHeap h.skipped⟩, fun p phase hsteps => ?_⟩
  have hp : p.Ordered := (hsteps.ordered hpolicy (Scheduler.startPass_ordered h)).ordered
  exact ⟨popsLeast_of_isHeap hp.waiting, popsLeast_of_isHeap hp.skipped, popsLeast_of_isHeap hp.held⟩

theorem initial_ordered (m : EncoderManager) (w : X.State) :
    (Scheduler.initial m w).Ordered [] := by
  refine ⟨?_, ?_, ?_, fun r hr => ?_, fun id r hr => (nomatch hr)⟩
  · exact fun c _ _ => Heapq.inOrder_of_length_le (Nat.zero_le c)
  · exact fun c _ _ => Heapq.inOrder_of_length_le (Nat.zero_le c)
  · exact fun c _ _ => Heapq.inOrder_of_length_le (Nat.zero_le c)
  · rcases hr with hr | hr | hr | hr <;> cases hr

/-- In every run in which no streaming update moves a request in a heap, the priority queues
return smallest requests. -/
theorem priority_pops_least (cfg : Config) (hpolicy : cfg.policy = .priority) (X : World)
    (m : EncoderManager) (w : X.State) :
    (schedulerRuns cfg m w fun s e => e.KeepsHeaps cfg s).Invariant fun r =>
      QueuesPopLeast cfg r.s := by
  have hind : TSys.Inductive (schedulerRuns cfg m w fun s e => e.KeepsHeaps cfg s) fun r =>
      r.s.Ordered [] := by
    constructor
    · rintro r rfl
      exact initial_ordered m w
    · rintro r r' h ⟨e, hok, hdoes, -⟩
      exact does_ordered hpolicy h hok hdoes
  exact fun r hr => (hind.invariant r hr).queuesPopLeast hpolicy

theorem priority_pops_least_urgent :
    (schedulerRuns priorityConfig (X := roomyWorld) (.multimodal (.init 0)) ()
      fun s e => e.KeepsHeaps priorityConfig s).Invariant fun r => QueuesPopLeast priorityConfig r.s :=
  priority_pops_least priorityConfig rfl roomyWorld (.multimodal (.init 0)) ()

/-! ## A request that is not the smallest -/

/-- A chunk of a session. -/
def timedChunk (requestId : Nat) (arrivalTime : Int) : Request where
  requestId := requestId
  arrivalTime := arrivalTime
  samplingParams := some { maxTokens := 10, stopTokenIds := [7] }
  promptTokenIds := some [1, 2, 3]
  resumable := true

def urgentConfig : Config := { smallConfig with policy := .priority }

/-- Two sessions wait for their next chunks. The chunk of the first one arrives. -/
def laterChunk : Except PyError (SchedulerOutput × Scheduler roomyWorld) := do
  let s : Scheduler roomyWorld := .initial (.multimodal (.init 0)) ()
  let first ← Request.init none (timedChunk 1 1)
  let second ← Request.init none (timedChunk 2 2)
  let s ← s.addRequest urgentConfig first
  let s ← s.addRequest urgentConfig second
  let (out, s) ← s.schedule urgentConfig
  let (_, s) ← s.updateFromOutput urgentConfig out
    { reqIdToIndex := (Dict.empty.set 1 0).set 2 1, sampledTokenIds := [[7], [7]] }
  let next ← Request.init none (timedChunk 1 10)
  let s ← s.addRequest urgentConfig next
  .ok (out, s)

theorem laterChunk_eq : laterChunk.map (fun x => (x.2.skippedWaiting, x.2.key 0, x.2.key 1)) =
    .ok ([0, 1], toLex (0, toLex (10, 1)), toLex (0, toLex (2, 2))) := by
  rfl

/-- Without the condition a queue returns a request that is not the smallest. -/
theorem later_chunk_popped : ∃ r : Run roomyWorld,
    (schedulerRuns urgentConfig (.multimodal (.init 0)) () fun _ _ => True).Reachable r ∧
      ¬ PopsLeast urgentConfig r.s r.s.skippedWaiting := by
  obtain ⟨⟨out, s⟩, hrun, heq⟩ := map_eq_ok.mp laterChunk_eq
  obtain ⟨hqueue, hkeys⟩ := Prod.mk.inj heq
  obtain ⟨hfirst, hsecond⟩ := Prod.mk.inj hkeys
  obtain ⟨first, hinit1, h1⟩ := bind_ok hrun
  obtain ⟨second, hinit2, h2⟩ := bind_ok h1
  obtain ⟨s1, hadd1, h3⟩ := bind_ok h2
  obtain ⟨s2, hadd2, h4⟩ := bind_ok h3
  obtain ⟨⟨out1, s3⟩, hsched, h5⟩ := bind_ok h4
  obtain ⟨⟨o, s4⟩, hupdate, h6⟩ := bind_ok h5
  obtain ⟨next, hinit3, h7⟩ := bind_ok h6
  obtain ⟨s5, hadd3, h8⟩ := bind_ok h7
  cases h8
  refine ⟨⟨s, [out]⟩, ?_, fun hleast => ?_⟩
  · refine .step (s := ⟨s4, [out]⟩) (.step (s := ⟨s3, [out]⟩) (.step (s := ⟨s2, []⟩)
      (.step (s := ⟨s1, []⟩) (.step (.init rfl) ?_) ?_) ?_) ?_) ?_
    · exact ⟨.addRequest (timedChunk 1 1), trivial, ⟨first, hinit1, hadd1⟩, rfl⟩
    · exact ⟨.addRequest (timedChunk 2 2), trivial, ⟨second, hinit2, hadd2⟩, rfl⟩
    · exact ⟨.schedule out, trivial, hsched, rfl⟩
    · exact ⟨.updateFromOutput out _, trivial, ⟨o, hupdate⟩, rfl⟩
    · exact ⟨.addRequest (timedChunk 1 10), trivial, ⟨next, hinit3, hadd3⟩, rfl⟩
  · -- the first session now has the later arrival time, and is at the head
    change s.skippedWaiting = [0, 1] at hqueue
    change s.key 0 = _ at hfirst
    change s.key 1 = _ at hsecond
    rw [hqueue] at hleast
    have hle := (hleast 0 rfl).1 1 (mem_cons_of_mem _ mem_cons_self)
    rw [hfirst, hsecond] at hle
    exact absurd hle (by decide)

end MyOperator.Sched
