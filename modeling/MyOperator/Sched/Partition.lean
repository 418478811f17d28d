import MyOperator.Sched.CallPlaces

/-!
# The queues partition the unfinished requests

Every call keeps the partition, with one exception: an output that stops a request
which is not running. `update_from_output` then removes the request from `waiting`,
after `_handle_stopped_request` may have put it there, and never from
`skipped_waiting`.
-/

namespace MyOperator.Sched

open Lib List
open KvCache (assert_eq_ok)

namespace UpdatePass

variable {cfg : Config} {X : World} {p p' : UpdatePass X} {ref : Ref}

/-- Where the requests are once those that stopped are removed. -/
def places (p : UpdatePass X) : Places where
  reqId := fun r => (p.s.objs r).requestId
  status := fun r => (p.s.objs r).status
  requests := p.s.requests.get?
  numObjs := p.s.numObjs
  queue
    | .running => p.s.running.filter (· ∉ p.stoppedRunningReqs)
    | .waiting => p.s.waiting.filter (· ∉ p.stoppedPreemptedReqs)
    | .skipped => p.s.skippedWaiting

theorem shown_places (p : UpdatePass X) : p.s.Shown p.places := ⟨rfl, rfl, rfl, rfl⟩

theorem filter_stopped (l stopped : List Ref) (ref : Ref) :
    l.filter (· ∉ stopped ++ [ref]) = (l.filter (· ∉ stopped)).filter (· ∉ [ref]) := by
  rw [filter_filter]
  refine filter_congr fun r _ => ?_
  simp only [mem_append, not_or, Bool.decide_and]
  rw [Bool.and_comm]

/-- A pass of the loop changes one request. -/
structure Touches (ref : Ref) (p p' : UpdatePass X) : Prop where
  objs : ∃ r', r'.requestId = (p.s.objs ref).requestId ∧
    p'.s.objs = (p.s.modify ref fun _ => r').objs
  running : p'.s.running = p.s.running
  skipped : ∀ r, r ≠ ref → (r ∈ p'.s.skippedWaiting ↔ r ∈ p.s.skippedWaiting)
  requests : p'.s.requests = p.s.requests ∨
    p'.s.requests = p.s.requests.erase (p.s.objs ref).requestId
  numObjs : p'.s.numObjs = p.s.numObjs
  stoppedRunning : ∀ r ∈ p'.stoppedRunningReqs, r = ref ∨ r ∈ p.stoppedRunningReqs
  stoppedPreempted : ∀ r ∈ p'.stoppedPreemptedReqs, r = ref ∨ r ∈ p.stoppedPreemptedReqs

variable {name : QueueName} {s : Scheduler X}

theorem finish_places (r' : Request) {requests : Dict Nat Ref} (hp : p.places.Partition [])
    (hname : ref ∈ p.places.queue name) (hwaiting : name ≠ .skipped)
    (hid : r'.requestId = (p.s.objs ref).requestId) (hfin : r'.status.isFinished = true)
    (hreq : requests = p.s.requests ∨ requests = p.s.requests.erase (p.s.objs ref).requestId)
    (hobjs : p'.s.objs = (p.s.modify ref fun _ => r').objs) (hrequests : p'.s.requests = requests)
    (hnum : p'.s.numObjs = p.s.numObjs) (hrun : p'.s.running = p.s.running)
    (hwait : p'.s.waiting = p.s.waiting) (hskip : p'.s.skippedWaiting = p.s.skippedWaiting)
    (hstoppedRunning : p'.stoppedRunningReqs =
      if name = .running then p.stoppedRunningReqs ++ [ref] else p.stoppedRunningReqs)
    (hstoppedPreempted : p'.stoppedPreemptedReqs =
      if name = .running then p.stoppedPreemptedReqs else p.stoppedPreemptedReqs ++ [ref]) :
    p'.places.Partition [] := by
  have hknown := hp.known ref (Places.mem_queued.mpr ⟨name, hname⟩)
  have hmid := hp.leave (w := { p.places with
      queue := fun q => (p.places.queue q).filter (· ∉ [ref]) }) ⟨rfl, rfl, rfl⟩ rfl
    (nodup_singleton ref) (fun r hr => mem_singleton.mp hr ▸ hknown) (fun q => .refl _)
  have hother : ∀ q, q ≠ name → (p.places.queue q).filter (· ∉ [ref]) = p.places.queue q :=
    fun q hq => Places.filter_not_singleton fun hin => hq (Places.unique_of_nodup hp.nodup hin hname)
  refine hmid.finish (w := p'.places) ?_ hnum ?_ ?_ ?_ ?_
  · funext r
    show (p'.s.objs r).requestId = (p.s.objs r).requestId
    rw [hobjs, Scheduler.requestId_modify hid]
  · funext q
    cases q with
    | running =>
      show p'.s.running.filter (· ∉ p'.stoppedRunningReqs) =
        (p.s.running.filter (· ∉ p.stoppedRunningReqs)).filter (· ∉ [ref])
      rw [hrun, hstoppedRunning]
      split
      · exact filter_stopped _ _ _
      · rename_i hne
        exact (hother .running (Ne.symm hne)).symm
    | waiting =>
      show p'.s.waiting.filter (· ∉ p'.stoppedPreemptedReqs) =
        (p.s.waiting.filter (· ∉ p.stoppedPreemptedReqs)).filter (· ∉ [ref])
      rw [hwait, hstoppedPreempted]
      split
      · rename_i heq
        refine (hother .waiting ?_).symm
        rw [heq]
        decide
      · exact filter_stopped _ _ _
    | skipped =>
      show p'.s.skippedWaiting = p.s.skippedWaiting.filter (· ∉ [ref])
      rw [hskip]
      exact (hother .skipped (Ne.symm hwaiting)).symm
  · exact fun r => p.shown_places.status_of_ne p'.shown_places hobjs
  · rw [p'.shown_places.status_self hobjs]
    exact hfin
  · have hget := Scheduler.get?_erase_requests hreq
    rw [← hrequests] at hget
    exact hget

/-- A session that stopped goes on in `waiting`, or waits for input in `skipped_waiting`. -/
theorem session_places (r' : Request) (hp : p.places.Partition [])
    (hname : ref ∈ p.places.queue name) (hid : r'.requestId = (p.s.objs ref).requestId)
    (hobjs : p'.s.objs = (p.s.modify ref fun _ => r').objs) (hreq : p'.s.requests = p.s.requests)
    (hnum : p'.s.numObjs = p.s.numObjs) (hrun : p'.s.running = p.s.running)
    (hcase : (r'.status = .waiting ∧ p'.s.waiting.Perm (ref :: p.s.waiting) ∧
        p'.s.skippedWaiting = p.s.skippedWaiting ∧ (name ≠ .running → name = .skipped)) ∨
      (r'.status = .waitingForStreamingReq ∧ p'.s.waiting = p.s.waiting ∧
        p'.s.skippedWaiting.Perm (ref :: p.s.skippedWaiting) ∧ name ≠ .skipped))
    (hnot : ref ∉ p.stoppedPreemptedReqs) (hstoppedRunning : p'.stoppedRunningReqs =
      if name = .running then p.stoppedRunningReqs ++ [ref] else p.stoppedRunningReqs)
    (hstoppedPreempted : p'.stoppedPreemptedReqs =
      if name = .running then p.stoppedPreemptedReqs else p.stoppedPreemptedReqs ++ [ref]) :
    p'.places.Partition [] := by
  have hnotin : ∀ q, q ≠ name → ref ∉ p.places.queue q :=
    fun q hq hin => hq (Places.unique_of_nodup hp.nodup hin hname)
  have hself := p'.shown_places.status_self hobjs
  have hmove := fun q => hp.move (q := q)
    (p.shown_places.sameRequests p'.shown_places hobjs hid hreq hnum)
    (fun _ => p.shown_places.status_of_ne p'.shown_places hobjs) (Places.mem_queued.mpr ⟨name, hname⟩)
  have hR : p'.places.queue .running = (p.places.queue .running).filter (· ∉ [ref]) := by
    show p'.s.running.filter (· ∉ p'.stoppedRunningReqs) = _
    rw [hrun, hstoppedRunning]
    split
    · exact filter_stopped _ _ _
    · rename_i hne
      exact (Places.filter_not_singleton (hnotin .running (Ne.symm hne))).symm
  have hsame : ∀ q, q ≠ name → (p.places.queue q).filter (· ∉ [ref]) = p.places.queue q :=
    fun q hq => Places.filter_not_singleton (hnotin q hq)
  rcases hcase with ⟨hst, hwait, hskip, hskipped⟩ | ⟨hst, hwait, hskip, hnskipped⟩
  · have hK : p'.places.queue .skipped = p.places.queue .skipped := hskip
    have hW : (p'.places.queue .waiting).Perm
        ((ref :: p.s.waiting).filter (· ∉ p'.stoppedPreemptedReqs)) := hwait.filter _
    have hcons : (ref :: p.s.waiting).filter (· ∉ p.stoppedPreemptedReqs) =
        ref :: p.places.queue .waiting := filter_cons_of_pos (by simpa using hnot)
    by_cases hrunning : name = .running
    · subst hrunning
      rw [hstoppedPreempted, if_pos rfl, hcons, ← hsame .waiting (by decide)] at hW
      refine hmove .waiting hW (fun q hq => .of_eq ?_) (hself ▸ .inl hst)
      cases q with
      | running => exact hR
      | waiting => exact absurd rfl hq
      | skipped => exact hK.trans (hsame .skipped (by decide)).symm
    · -- the request is taken out of `waiting` again
      obtain rfl := hskipped hrunning
      rw [hstoppedPreempted, if_neg hrunning, filter_stopped, hcons,
        filter_cons_of_neg (by simp)] at hW
      have hperm := Places.perm_filter_singleton (hp.queue_nodup .skipped) hname
      refine hmove .skipped ((Perm.of_eq hK).trans hperm) (fun q hq => ?_) (hself ▸ .inr (.inl hst))
      cases q with
      | running => exact .of_eq hR
      | waiting => exact hW
      | skipped => exact absurd rfl hq
  · have hW : p'.places.queue .waiting = (p.places.queue .waiting).filter (· ∉ [ref]) := by
      show p'.s.waiting.filter (· ∉ p'.stoppedPreemptedReqs) = _
      rw [hwait, hstoppedPreempted]
      split
      · rename_i hrunning
        exact (hsame .waiting (by rw [hrunning]; decide)).symm
      · exact filter_stopped _ _ _
    refine hmove .skipped ?_ (fun q hq => .of_eq ?_) ?_
    · rw [hsame .skipped (Ne.symm hnskipped)]
      exact hskip
    · cases q with
      | running => exact hR
      | waiting => exact hW
      | skipped => exact absurd rfl hq
    · rw [hself, hst]
      exact .inl rfl

/-- A stop of a request that is not running leaves it in one queue. -/
def StopKeepsPlace (name : QueueName) (r : Request) : Prop :=
  name ≠ .running → (name = .skipped ↔ r.hasNextUpdate)

theorem stopRequest_places {r' : Request} {world : X.State} (hp : p.places.Partition [])
    (hname : ref ∈ p.places.queue name) (hid : r'.requestId = (p.s.objs ref).requestId)
    (hfin : r'.status.isFinished = true) (hplace : StopKeepsPlace name r')
    (hnot : ref ∉ p.stoppedPreemptedReqs)
    (h : ({ p with s := { p.s.modify ref (fun _ => r') with world } } : UpdatePass X).stopRequest
      cfg ref (p.s.objs ref).status = .ok p') :
    p'.places.Partition [] ∧ Touches ref p p' := by
  have hstatus : (p.s.objs ref).status = .running ↔ name = .running :=
    (hp.fits name ref hname).eq_running.symm
  have hself : (p.s.modify ref fun _ => r').objs ref = r' := Scheduler.modify_self _
  have hobjs : ∀ f : Request → Request, ((p.s.modify ref fun _ => r').modify ref f).objs =
      (p.s.modify ref fun _ => f r').objs := by
    intro f
    rw [Scheduler.modify_modify]
    rfl
  have hskipped : ¬ r'.hasNextUpdate → name ≠ .skipped := by
    rintro hno rfl
    exact hno ((hplace (by decide)).mp rfl)
  unfold stopRequest at h
  obtain ⟨⟨finished, s1⟩, hhandle, h1⟩ := bind_ok h
  obtain ⟨s2, hfree, h2⟩ := bind_ok h1
  -- the two lists of stopped requests
  have hlists : p' = { p with
      s := s2
      stoppedRunningReqs :=
        if name = .running then p.stoppedRunningReqs ++ [ref] else p.stoppedRunningReqs
      stoppedPreemptedReqs :=
        if name = .running then p.stoppedPreemptedReqs else p.stoppedPreemptedReqs ++ [ref] } := by
    by_cases hrun : name = .running
    · rw [if_pos (hstatus.mpr hrun)] at h2
      rw [if_pos hrun, if_pos hrun]
      cases h2
      rfl
    · rw [if_neg (fun hst => hrun (hstatus.mp hst))] at h2
      rw [if_neg hrun, if_neg hrun]
      cases h2
      rfl
  have hstopped : (∀ r ∈ p'.stoppedRunningReqs, r = ref ∨ r ∈ p.stoppedRunningReqs) ∧
      (∀ r ∈ p'.stoppedPreemptedReqs, r = ref ∨ r ∈ p.stoppedPreemptedReqs) := by
    rw [hlists]
    constructor
    · intro r hr
      split at hr
      · exact (mem_append.mp hr).symm.imp_left mem_singleton.mp
      · exact .inr hr
    · intro r hr
      split at hr
      · exact .inr hr
      · exact (mem_append.mp hr).symm.imp_left mem_singleton.mp
  rcases Scheduler.handleStoppedRequest_effect hhandle with ⟨rfl, hno, queue, rfl⟩ |
    ⟨rfl, hnext, update, rest, session, n, waiting, hqueue, hsession, hperm, rfl⟩ |
    ⟨rfl, hno, n, skippedWaiting, hperm, rfl⟩
  · -- the request is done
    obtain ⟨-, m, world', requests, -, hreq, rfl⟩ := Scheduler.freeRequest_effect hfree
    have hid' : (((p.s.modify ref fun _ => r').modify ref
        fun r => { r with streamingQueue := queue }).objs ref).requestId =
        (p.s.objs ref).requestId := by
      rw [hobjs, Scheduler.modify_self]
      exact hid
    have hreq : requests = p.s.requests ∨
        requests = p.s.requests.erase (p.s.objs ref).requestId := hid' ▸ hreq
    have hobjs' := hobjs fun r => { r with streamingQueue := queue }
    subst hlists
    exact ⟨finish_places { r' with streamingQueue := queue } hp hname (hskipped (hself ▸ hno)) hid
        hfin hreq hobjs' rfl rfl rfl rfl rfl rfl rfl,
      ⟨⟨{ r' with streamingQueue := queue }, hid, hobjs'⟩, rfl, fun _ _ => .rfl, hreq, rfl,
        hstopped.1, hstopped.2⟩⟩
  · -- the next chunk is there
    cases hfree
    have hsession : ({ r' with streamingQueue := some rest } : Request).updateAsSession
        cfg.blockHasher update = .ok session := hself ▸ hsession
    have hnext' : r'.hasNextUpdate := hself ▸ hnext
    obtain ⟨prompt, memo, hashes, -, heq⟩ := Request.updateAsSession_effect hsession
    have hid' : session.requestId = (p.s.objs ref).requestId := by
      rw [heq]
      exact hid
    have hst : session.status = .waiting := by rw [heq]
    subst hlists
    exact ⟨session_places _ hp hname hid' (hobjs fun _ => session) rfl rfl rfl
        (.inl ⟨hst, hperm, rfl, fun hne => (hplace hne).mpr hnext'⟩) hnot rfl rfl,
      ⟨⟨session, hid', hobjs fun _ => session⟩, rfl, fun _ _ => .rfl, .inl rfl, rfl, hstopped.1, hstopped.2⟩⟩
  · -- the session waits for input
    cases hfree
    have hobjs' := hobjs fun r => { r with status := .waitingForStreamingReq }
    subst hlists
    refine ⟨session_places { r' with status := .waitingForStreamingReq } hp hname hid hobjs'
        rfl rfl rfl (.inr ⟨rfl, rfl, hperm, hskipped (hself ▸ hno)⟩) hnot rfl rfl,
      ⟨⟨{ r' with status := .waitingForStreamingReq }, hid, hobjs'⟩, rfl, ?_, .inl rfl, rfl,
        hstopped.1, hstopped.2⟩⟩
    intro r hr
    exact hperm.mem_iff.trans (by rw [mem_cons]; exact or_iff_right hr)

theorem processOutput_places {drafts generatedTokenIds : List TokenId} {hasPoolerOutput : Bool}
    (hp : p.places.Partition []) (hname : ref ∈ p.places.queue name)
    (hplace : (p.s.objs ref).stopsOn cfg generatedTokenIds hasPoolerOutput = true →
      StopKeepsPlace name (p.s.objs ref)) (hnot : ref ∉ p.stoppedPreemptedReqs)
    (h : p.processOutput cfg ref drafts generatedTokenIds hasPoolerOutput = .ok p') :
    p'.places.Partition [] ∧ Touches ref p p' := by
  obtain ⟨r', world, p1, hid, -, -, hres, hqueue, hcases, world', outputs, rfl⟩ :=
    processOutput_effect h
  have hend : p1.places.Partition [] ∧ Touches ref p p1 := by
    rcases hcases with ⟨-, hstatus, rfl⟩ | ⟨hstops, hfin, hstop⟩
    · have hobjs : ∀ r, ((p.s.modify ref fun _ => r').objs r).requestId = (p.s.objs r).requestId ∧
          ((p.s.modify ref fun _ => r').objs r).status = (p.s.objs r).status :=
        fun r => ⟨Scheduler.requestId_modify hid r, Scheduler.status_modify hstatus r⟩
      refine ⟨?_, ⟨⟨r', hid, rfl⟩, rfl, fun _ _ => .rfl, .inl rfl, rfl, fun _ hr => .inr hr,
        fun _ hr => .inr hr⟩⟩
      refine hp.reorder ⟨?_, rfl, rfl⟩ ?_ (fun q => .of_eq ?_)
      · funext r
        exact (hobjs r).1
      · funext r
        exact (hobjs r).2
      · cases q <;> rfl
    · have hnext : r'.hasNextUpdate ↔ (p.s.objs ref).hasNextUpdate := by
        unfold Request.hasNextUpdate
        rw [hres, hqueue]
      have hplace' : StopKeepsPlace name r' := by
        intro hne
        rw [hnext]
        exact hplace hstops hne
      exact stopRequest_places hp hname hid hfin hplace' hnot hstop
  obtain ⟨hpart, htouch⟩ := hend
  exact ⟨hpart, ⟨htouch.objs, htouch.running, htouch.skipped, htouch.requests, htouch.numObjs,
    htouch.stoppedRunning, htouch.stoppedPreempted⟩⟩

/-! ## The loop -/

/-- What holds in the loop of `update_from_output`, which started in `s` and is through with the
ids in `processed`: the other requests are as they were. -/
structure LoopInv (s : Scheduler X) (processed : List Nat) (p : UpdatePass X) : Prop where
  partition : p.places.Partition []
  running : p.s.running = s.running
  requestId : ∀ r, (p.s.objs r).requestId = (s.objs r).requestId
  stoppedRunning : ∀ r ∈ p.stoppedRunningReqs, (s.objs r).requestId ∈ processed
  stoppedPreempted : ∀ r ∈ p.stoppedPreemptedReqs, (s.objs r).requestId ∈ processed
  objs : ∀ r, (s.objs r).requestId ∉ processed → p.s.objs r = s.objs r
  skipped : ∀ r, (s.objs r).requestId ∉ processed → (r ∈ p.s.skippedWaiting ↔ r ∈ s.skippedWaiting)
  requests : ∀ id, id ∉ processed → p.s.requests.get? id = s.requests.get? id

theorem loopInv_start (h : s.places.Partition []) : LoopInv s [] ({ s } : UpdatePass X) := by
  refine ⟨h.reorder ⟨rfl, rfl, rfl⟩ rfl ?_, rfl, fun _ => rfl, fun r hr => (nomatch hr),
    fun r hr => (nomatch hr), fun _ _ => rfl, fun _ _ => .rfl, fun _ _ => rfl⟩
  intro q
  have hall : ∀ l : List Ref, (l.filter (· ∉ ([] : List Ref))).Perm l := by
    intro l
    refine .of_eq (filter_eq_self.mpr fun r _ => ?_)
    simp
  cases q with
  | running => exact hall s.running
  | waiting => exact hall s.waiting
  | skipped => exact .refl _

theorem LoopInv.touch {processed : List Nat} (h : LoopInv s processed p)
    (hpart : p'.places.Partition []) (htouch : Touches ref p p') :
    LoopInv s ((s.objs ref).requestId :: processed) p' := by
  obtain ⟨r', hid, hobjs⟩ := htouch.objs
  have hne : ∀ r, (s.objs r).requestId ∉ (s.objs ref).requestId :: processed → r ≠ ref ∧
      (s.objs r).requestId ∉ processed := by
    intro r hr
    rw [mem_cons, not_or] at hr
    exact ⟨fun heq => hr.1 (heq ▸ rfl), hr.2⟩
  have hreqId := h.requestId ref
  refine ⟨hpart, htouch.running.trans h.running, ?_, ?_, ?_, ?_, ?_, ?_⟩
  · intro r
    rw [hobjs, Scheduler.requestId_modify hid, h.requestId]
  · intro r hr
    rcases htouch.stoppedRunning r hr with rfl | hr
    · exact mem_cons_self
    · exact mem_cons_of_mem _ (h.stoppedRunning r hr)
  · intro r hr
    rcases htouch.stoppedPreempted r hr with rfl | hr
    · exact mem_cons_self
    · exact mem_cons_of_mem _ (h.stoppedPreempted r hr)
  · intro r hr
    rw [hobjs, Scheduler.modify_of_ne _ (hne r hr).1]
    exact h.objs r (hne r hr).2
  · intro r hr
    rw [htouch.skipped r (hne r hr).1]
    exact h.skipped r (hne r hr).2
  · intro id hid'
    rw [mem_cons, not_or] at hid'
    rw [← h.requests id hid'.2]
    rcases htouch.requests with heq | heq
    · rw [heq]
    · rw [heq, Dict.get?_erase_of_ne]
      rw [hreqId]
      exact hid'.1

theorem LoopInv.unprocessed {processed : List Nat} (h : LoopInv s processed p) {id : Nat}
    (hnew : id ∉ processed) (hunf : p.s.unfinished? id = some ref) :
    (s.objs ref).requestId = id ∧ p.s.objs ref = s.objs ref ∧ s.unfinished? id = some ref := by
  obtain ⟨hget, hfin⟩ := Scheduler.unfinished?_eq_some.mp hunf
  have hreqId : (p.s.objs ref).requestId = id := (h.partition.entry id ref hget).1
  have hid : (s.objs ref).requestId = id := (h.requestId ref).symm.trans hreqId
  have hobj : p.s.objs ref = s.objs ref := h.objs ref (hid ▸ hnew)
  refine ⟨hid, hobj, Scheduler.unfinished?_eq_some.mpr ⟨?_, ?_⟩⟩
  · rw [← h.requests id hnew]
    exact hget
  · rw [← hobj]
    exact hfin

end UpdatePass

/-- No output stops a request that is not running, unless `update_from_output` then leaves the
request in one queue: it stands in `skipped_waiting` if and only if it goes on with a queued
chunk. -/
def StopsInPlace (cfg : Config) {X : World} (s : Scheduler X) (failed : List Nat)
    (out : SchedulerOutput) (mro : ModelRunnerOutput) : Prop :=
  ∀ reqId ref generatedTokenIds hasPoolerOutput, reqId ∈ out.numScheduledTokens.keySet →
    reqId ∉ failed → s.unfinished? reqId = some ref →
    mro.generatedTokenIds reqId = .ok generatedTokenIds →
    mro.hasPoolerOutput reqId = .ok hasPoolerOutput →
    (s.objs ref).stopsOn cfg generatedTokenIds hasPoolerOutput = true →
    (s.objs ref).status ≠ .running → (ref ∈ s.skippedWaiting ↔ (s.objs ref).hasNextUpdate)

namespace UpdatePass

variable {cfg : Config} {X : World} {p p' : UpdatePass X} {ref : Ref}

variable {s : Scheduler X} {failed : List Nat} {out : SchedulerOutput} {mro : ModelRunnerOutput}

/-- A pass processes its request, unless a block of it failed to load or it is finished. -/
theorem processScheduled_inv {processed : List Nat} {id : Nat} {n : Int} (h : LoopInv s processed p)
    (hok : StopsInPlace cfg s failed out mro) (hmem : id ∈ out.numScheduledTokens.keySet)
    (hnew : id ∉ processed) (hrun : p.processScheduled cfg out mro failed id n = .ok p') :
    LoopInv s processed p' ∨ (id ∉ failed ∧ LoopInv s (id :: processed) p') := by
  obtain ⟨⟨⟩, -, h1⟩ := bind_ok hrun
  split at h1
  · cases h1
    exact .inl h
  · rename_i hfailed
    split at h1
    · cases h1
      exact .inl h
    · rename_i ref hunf
      obtain ⟨generated, hgen, h2⟩ := bind_ok h1
      obtain ⟨pooler, hpool, h3⟩ := bind_ok h2
      obtain ⟨hget, hfin⟩ := Scheduler.unfinished?_eq_some.mp hunf
      obtain ⟨hid, hobj, hunf'⟩ := h.unprocessed hnew hunf
      have hin := (h.partition.placed id ref hget hfin).resolve_right not_mem_nil
      obtain ⟨name, hname⟩ := Places.mem_queued.mp hin
      have hplace : (p.s.objs ref).stopsOn cfg generated pooler = true →
          StopKeepsPlace name (p.s.objs ref) := by
        intro hstops hne
        rw [hobj] at hstops ⊢
        have hstatus : (s.objs ref).status ≠ .running := by
          rw [← hobj]
          exact fun hst => hne ((h.partition.fits name ref hname).eq_running.mpr hst)
        rw [← hok id ref generated pooler hmem hfailed hunf' hgen hpool hstops hstatus,
          ← h.skipped ref (hid ▸ hnew)]
        constructor
        · rintro rfl
          exact hname
        · intro hskipped
          exact Places.unique_of_nodup h.partition.nodup hname hskipped
      have hnot : ref ∉ p.stoppedPreemptedReqs := fun hin => hnew (hid ▸ h.stoppedPreempted ref hin)
      obtain ⟨hpart, htouch⟩ := processOutput_places h.partition hname hplace hnot h3
      exact .inr ⟨hfailed, hid ▸ h.touch hpart htouch⟩

/-- What every pass keeps when its id was not processed before, holds after the loop. -/
theorem loop_keeps {P : UpdatePass X → Prop}
    (hkeep : ∀ processed p0 p1 id n, LoopInv s processed p0 → id ∈ out.numScheduledTokens.keySet →
      id ∉ processed → p0.processScheduled cfg out mro failed id n = .ok p1 → P p0 → P p1)
    (hP : P { s }) (hok : StopsInPlace cfg s failed out mro) (hs : s.places.Partition [])
    (h : out.numScheduledTokens.entries.foldlM
      (fun p e => p.processScheduled cfg out mro failed e.1 e.2) ({ s } : UpdatePass X) = .ok p) :
    (∃ processed, (∀ id ∈ failed, id ∉ processed) ∧ LoopInv s processed p) ∧ P p := by
  have hend : ∃ processed, (∀ id ∈ failed, id ∉ processed) ∧ LoopInv s processed p ∧ P p := by
    refine foldlM_fresh (k := Prod.fst) (P := fun processed p =>
      (∀ id ∈ failed, id ∉ processed) ∧ LoopInv s processed p ∧ P p) ?_
      out.numScheduledTokens.nodupKeys (fun _ _ => not_mem_nil)
      ⟨fun _ _ => not_mem_nil, loopInv_start hs, hP⟩ h
    intro processed p0 e he p1 hfresh ⟨hfailed, hinv, hP⟩ hone
    have hkey : e.1 ∈ out.numScheduledTokens.keySet := mem_toFinset.mpr (mem_map_of_mem he)
    have hP1 := hkeep processed p0 p1 e.1 e.2 hinv hkey hfresh hone hP
    rcases processScheduled_inv hinv hok hkey hfresh hone with hinv1 | ⟨hgood, hinv1⟩
    · exact .inl ⟨hfailed, hinv1, hP1⟩
    · refine .inr ⟨fun id hid hin => ?_, hinv1, hP1⟩
      rcases mem_cons.mp hin with rfl | hin
      · exact hgood hid
      · exact hfailed id hid hin
  obtain ⟨processed, hfailed, hinv, hP⟩ := hend
  exact ⟨⟨processed, hfailed, hinv⟩, hP⟩

theorem loop_inv (hok : StopsInPlace cfg s failed out mro) (hs : s.places.Partition [])
    (h : out.numScheduledTokens.entries.foldlM
      (fun p e => p.processScheduled cfg out mro failed e.1 e.2) ({ s } : UpdatePass X) = .ok p) :
    ∃ processed, (∀ id ∈ failed, id ∉ processed) ∧ LoopInv s processed p :=
  (loop_keeps (P := fun _ => True) (fun _ _ _ _ _ _ _ _ _ _ => trivial) trivial hok hs h).1

theorem removeStopped_places (cfg : Config) {processed : List Nat} (hs : s.places.Partition [])
    (h : LoopInv s processed p) : (p.removeStopped cfg).places.Partition [] := by
  refine h.partition.reorder ⟨rfl, rfl, rfl⟩ rfl ?_
  intro q
  cases q with
  | running =>
    show (removeAll p.s.running p.stoppedRunningReqs).Perm _
    have hnodup : p.s.running.Nodup := by
      rw [h.running]
      exact hs.queue_nodup .running
    exact .of_eq (removeAll_eq_filter hnodup)
  | waiting =>
    show (if p.stoppedPreemptedReqs = [] then p.s.waiting
      else p.s.waiting.removeRequests cfg.policy (p.s.lt cfg) p.stoppedPreemptedReqs).Perm
      (p.s.waiting.filter (· ∉ p.stoppedPreemptedReqs))
    split
    · rename_i hnil
      rw [hnil]
      refine .of_eq (filter_eq_self.mpr fun r _ => ?_).symm
      simp
    · exact RequestQueue.removeRequests_perm
  | skipped => exact .refl _

end UpdatePass

namespace Scheduler

variable {cfg : Config} {X : World} {s s' : Scheduler X} {ref : Ref}

/-! ## The other parts of `update_from_output` -/

/-- The two states differ in the counters of requests and in nothing about queues. -/
structure SameButCounts (s s' : Scheduler X) : Prop where
  objs : ∀ r, ∃ n m k, s'.objs r = (s.objs r).withCounts n m k
  requests : s'.requests = s.requests
  numObjs : s'.numObjs = s.numObjs
  running : s'.running = s.running
  waiting : s'.waiting = s.waiting
  skippedWaiting : s'.skippedWaiting = s.skippedWaiting
  encoderCacheManager : s'.encoderCacheManager = s.encoderCacheManager

theorem SameButCounts.refl (s : Scheduler X) : SameButCounts s s :=
  ⟨fun _ => ⟨_, _, _, rfl⟩, rfl, rfl, rfl, rfl, rfl, rfl⟩

theorem SameButCounts.trans {s'' : Scheduler X} (h : SameButCounts s s')
    (h' : SameButCounts s' s'') : SameButCounts s s'' := by
  refine ⟨fun r => ?_, h'.requests.trans h.requests, h'.numObjs.trans h.numObjs,
    h'.running.trans h.running, h'.waiting.trans h.waiting,
    h'.skippedWaiting.trans h.skippedWaiting, h'.encoderCacheManager.trans h.encoderCacheManager⟩
  obtain ⟨n, m, k, hobj⟩ := h.objs r
  obtain ⟨n', m', k', hobj'⟩ := h'.objs r
  refine ⟨n', m', k', ?_⟩
  rw [hobj', hobj]
  rfl

theorem SameButCounts.places (h : SameButCounts s s') (hp : s.places.Partition []) :
    s'.places.Partition [] := by
  have hobj : ∀ r, (s'.objs r).requestId = (s.objs r).requestId ∧
      (s'.objs r).status = (s.objs r).status := by
    intro r
    obtain ⟨n, m, k, heq⟩ := h.objs r
    rw [heq]
    exact ⟨rfl, rfl⟩
  refine hp.reorder ⟨?_, ?_, h.numObjs⟩ ?_ ?_
  · funext r
    exact (hobj r).1
  · show s'.requests.get? = s.requests.get?
    rw [h.requests]
  · funext r
    exact (hobj r).2
  · intro q
    cases q with
    | running => exact .of_eq h.running
    | waiting => exact .of_eq h.waiting
    | skipped => exact .of_eq h.skippedWaiting

theorem SameButCounts.unfinished? {reqId : Nat} (h : SameButCounts s s')
    (hunf : s'.unfinished? reqId = some ref) : s.unfinished? reqId = some ref := by
  obtain ⟨n, m, k, heq⟩ := h.objs ref
  obtain ⟨hget, hfin⟩ := unfinished?_eq_some.mp hunf
  rw [heq] at hfin
  rw [h.requests] at hget
  exact unfinished?_eq_some.mpr ⟨hget, hfin⟩

theorem SameButCounts.stopsInPlace {failed : List Nat} {out : SchedulerOutput}
    {mro : ModelRunnerOutput} (h : SameButCounts s s') (hok : StopsInPlace cfg s failed out mro) :
    StopsInPlace cfg s' failed out mro := by
  intro reqId ref generated pooler hmem hfailed hunf hgen hpool hstops hstatus
  obtain ⟨n, m, k, heq⟩ := h.objs ref
  rw [heq] at hstops hstatus ⊢
  rw [Request.stopsOn_withCounts] at hstops
  rw [h.skippedWaiting]
  exact hok reqId ref generated pooler hmem hfailed (h.unfinished? hunf) hgen hpool hstops hstatus

theorem scan_counts {blockSize : Nat} {invalid : Finset Nat} {evict : Bool} {n : Int}
    {ids : List Nat} (idx : Nat) (blockIds : List Nat) (q : InvalidRequest) :
    ∃ a b c, (InvalidRequest.scan blockSize invalid evict n ids idx blockIds q).request =
      q.request.withCounts a b c := by
  induction blockIds generalizing idx q with
  | nil => exact ⟨_, _, _, rfl⟩
  | cons b bs ih =>
    unfold InvalidRequest.scan
    dsimp only
    split
    · exact ih _ _
    · split
      · exact ih _ _
      · split
        · exact ih _ _
        · obtain ⟨a, c, d, heq⟩ := ih (idx + 1) _
          rw [heq]
          exact ⟨a, c, d, rfl⟩

theorem revert_counts {r : Request} {q : InvalidRequest} (n : Int)
    (h : ∃ a b c, q.request = r.withCounts a b c) :
    ∃ a b c, (q.revert n).request = r.withCounts a b c := by
  obtain ⟨a, b, c, heq⟩ := h
  unfold InvalidRequest.revert
  split
  · refine ⟨n, b, c, ?_⟩
    rw [heq]
    rfl
  · exact ⟨a, b, c, heq⟩

theorem scanRequest_counts (p : InvalidPass X) (invalid : Finset Nat) (d : Dict Nat Int)
    (evict : Bool) (ref : Ref) : SameButCounts p.s (p.scanRequest cfg invalid d evict ref).s := by
  refine ⟨fun r => ?_, rfl, rfl, rfl, rfl, rfl, rfl⟩
  by_cases hr : r = ref
  · subst hr
    unfold InvalidPass.scanRequest
    rw [modify_self]
    exact revert_counts _ (scan_counts _ _ _)
  · unfold InvalidPass.scanRequest
    rw [modify_of_ne _ hr]
    exact ⟨_, _, _, rfl⟩

theorem updateRequestsWithInvalidBlocks_counts (cfg : Config) (s : Scheduler X) (refs : List Ref)
    (invalid : Finset Nat) (d : Dict Nat Int) (evict : Bool) :
    SameButCounts s (s.updateRequestsWithInvalidBlocks cfg refs invalid d evict).s := by
  have hfold : ∀ (refs : List Ref) (p : InvalidPass X), SameButCounts p.s
      (refs.foldl (fun p ref => p.scanRequest cfg invalid d evict ref) p).s := by
    intro refs
    induction refs with
    | nil => exact fun p => .refl _
    | cons ref refs ih => exact fun p => (scanRequest_counts p invalid d evict ref).trans (ih _)
  exact hfold refs { s }

theorem handleFailedLoads_counts (cfg : Config) (s : Scheduler X) (out : SchedulerOutput)
    (mro : ModelRunnerOutput) : SameButCounts s (s.handleFailedLoads cfg out mro).2 := by
  unfold handleFailedLoads
  split
  · exact .refl s
  · split
    · exact .refl s
    · rename_i kv _ _
      -- the requests that load, then the running ones
      have hloading := updateRequestsWithInvalidBlocks_counts cfg s
        ((s.skippedWaiting.iter cfg.policy (s.lt cfg)).filter fun ref =>
          decide ((s.objs ref).status = .waitingForRemoteKvs)) kv.invalidBlockIds
        out.numScheduledTokens false
      have hboth := hloading.trans (updateRequestsWithInvalidBlocks_counts cfg _
        (s.updateRequestsWithInvalidBlocks cfg
          ((s.skippedWaiting.iter cfg.policy (s.lt cfg)).filter fun ref =>
            decide ((s.objs ref).status = .waitingForRemoteKvs)) kv.invalidBlockIds
          out.numScheduledTokens false).s.running kv.invalidBlockIds out.numScheduledTokens true)
      unfold handleInvalidBlocks
      dsimp only
      split
      · exact hboth
      · split
        · exact hboth.trans ⟨fun _ => ⟨_, _, _, rfl⟩, rfl, rfl, rfl, rfl, rfl, rfl⟩
        · exact hboth.trans ⟨fun _ => ⟨_, _, _, rfl⟩, rfl, rfl, rfl, rfl, rfl, rfl⟩

variable {reqId : Nat}

section

variable (hp : s.places.Partition [])
include hp

theorem freeBlocks_places (hget : s.requests.get? reqId = some ref)
    (h : s.freeBlocks ref = .ok s') : s'.places.Partition [] := by
  obtain ⟨hfin, world, rfl⟩ := freeBlocks_effect h
  have hid : (s.objs ref).requestId = reqId := (hp.entry reqId ref hget).1
  refine hp.drop reqId rfl rfl rfl rfl hget hfin ?_
  intro id
  show (s.requests.erase (s.objs ref).requestId).get? id = _
  rw [hid]
  exact Dict.get?_erase ..

theorem updateFromOutput_places {out : SchedulerOutput} {mro : ModelRunnerOutput}
    {outputs : List EngineCoreOutput}
    (hok : StopsInPlace cfg s (s.handleFailedLoads cfg out mro).1 out mro)
    (h : s.updateFromOutput cfg out mro = .ok (outputs, s')) : s'.places.Partition [] := by
  obtain ⟨p, failedOutputs, s2, hloop, hfail, hkeep⟩ := updateFromOutput_keeps
    (P := fun t : Scheduler X => t.places.Partition []) (fun _ _ _ ht => ht)
    (fun _ _ _ _ ht hget hfree => freeBlocks_places ht hget hfree) h
  have hcounts := handleFailedLoads_counts cfg s out mro
  have hs1 := hcounts.places hp
  obtain ⟨processed, -, hinv⟩ := UpdatePass.loop_inv (hcounts.stopsInPlace hok) hs1 hloop
  have hremoved := UpdatePass.removeStopped_places cfg hs1 hinv
  refine hkeep ?_
  rcases failRequests_effect hfail with rfl | ⟨-, hfinish⟩
  · exact hremoved
  · exact finishRequests_places hremoved hfinish

end

end Scheduler

/-! ## Runs -/

/-- Each unfinished request stands in one queue, once, with a status that matches it, and nobody
else does. -/
structure QueuesSound {X : World} (s : Scheduler X) : Prop where
  once : ∀ reqId ref, s.requests.get? reqId = some ref → (s.objs ref).isFinished = false →
    (s.running ++ s.waiting ++ s.skippedWaiting).count ref = 1
  running : ∀ ref ∈ s.running, (s.objs ref).status = .running
  waiting : ∀ ref ∈ s.waiting, (s.objs ref).status = .waiting ∨ (s.objs ref).status = .preempted
  skipped : ∀ ref ∈ s.skippedWaiting, (s.objs ref).status.isBlockedWaiting ∨
    (s.objs ref).status = .waiting ∨ (s.objs ref).status = .preempted
  unfinished : ∀ ref ∈ s.running ++ s.waiting ++ s.skippedWaiting, (s.objs ref).isFinished = false
  known : ∀ ref ∈ s.running ++ s.waiting ++ s.skippedWaiting,
    s.requests.get? (s.objs ref).requestId = some ref

variable {X : World}

theorem queuesSound_of_partition {s : Scheduler X} (h : s.places.Partition []) : QueuesSound s := by
  refine ⟨?_, h.fits .running, h.fits .waiting, h.fits .skipped, ?_, h.known⟩
  · intro reqId ref hget hunf
    have hin := (h.placed reqId ref hget hunf).resolve_right (fun hin => (nomatch hin))
    exact count_eq_one_of_mem h.nodup hin
  · intro ref href
    have href : ref ∈ s.places.queued := href
    obtain ⟨q, hq⟩ := Places.mem_queued.mp href
    exact (h.fits q ref hq).unfinished

/-- The condition on a call. -/
def Event.StopsInPlace (cfg : Config) {X : World} (s : Scheduler X) : Event → Prop
  | .updateFromOutput out mro =>
    Sched.StopsInPlace cfg s (s.handleFailedLoads cfg out mro).1 out mro
  | _ => True

theorem does_places {cfg : Config} {s s' : Scheduler X} {e : Event} (hp : s.places.Partition [])
    (hok : e.StopsInPlace cfg s) (h : s.Does cfg e s') : s'.places.Partition [] := by
  cases e with
  | addRequest args =>
    obtain ⟨request, hinit, hadd⟩ := h
    exact Scheduler.addRequest_places hp hinit hadd
  | schedule out => exact (Scheduler.schedule_places hp h).1
  | updateFromOutput out mro =>
    obtain ⟨outputs, hupdate⟩ := h
    exact Scheduler.updateFromOutput_places hp hok hupdate
  | finishRequests ids status => exact Scheduler.finishRequests_places hp h
  | resetPrefixCache b c =>
    obtain ⟨ok, hreset⟩ := h
    exact Scheduler.resetPrefixCache_places hp hreset
  | updateDraftTokenIds drafts =>
    obtain rfl : s' = s.updateDraftTokenIds drafts := h
    rw [Scheduler.updateDraftTokenIds_places]
    exact hp
  | setPauseState state =>
    obtain rfl : s' = s.setPauseState state := h
    exact hp
  | resetEncoderCache =>
    obtain rfl : s' = s.resetEncoderCache := h
    exact hp

theorem initial_places (m : EncoderManager) (w : X.State) :
    (Scheduler.initial m w).places.Partition [] := by
  have hempty : ∀ q, (Scheduler.initial (X := X) m w).places.queue q = [] := by
    intro q
    cases q <;> rfl
  refine ⟨.nil, ?_, fun r hr => (nomatch hr), fun id r hr => (nomatch hr),
    fun id r hr => (nomatch hr), .nil, fun r hr => (nomatch hr)⟩
  intro q r hr
  rw [hempty] at hr
  cases hr

/-- The ids that one step schedules. -/
def SchedulerOutput.scheduledReqIds (out : SchedulerOutput) : List Nat :=
  out.scheduledNewReqs ++ out.scheduledResumedReqs ++ out.scheduledRunningReqs

/-- In every run in which stops are in place the queues partition the unfinished requests, and no
step schedules a request twice. -/
theorem queues_partition (cfg : Config) (X : World) (m : EncoderManager) (w : X.State) :
    (schedulerRuns cfg m w (Event.StopsInPlace cfg)).Invariant fun r =>
      QueuesSound r.s ∧ ∀ out ∈ r.outputs, out.scheduledReqIds.Nodup := by
  have hind : TSys.Inductive (schedulerRuns cfg m w (Event.StopsInPlace cfg)) fun r =>
      r.s.places.Partition [] ∧ ∀ out ∈ r.outputs, out.scheduledReqIds.Nodup := by
    constructor
    · rintro r rfl
      exact ⟨initial_places m w, fun out hout => (nomatch hout)⟩
    · rintro r r' ⟨hp, houts⟩ ⟨e, hok, hdoes, hout'⟩
      refine ⟨does_places hp hok hdoes, ?_⟩
      rw [hout']
      cases e with
      | schedule out =>
        intro o ho
        rcases mem_append.mp ho with ho | ho
        · exact houts o ho
        · rw [mem_singleton.mp ho]
          exact (Scheduler.schedule_places hp hdoes).2
      | _ => exact houts
  intro r hr
  obtain ⟨hp, houts⟩ := hind.invariant r hr
  exact ⟨queuesSound_of_partition hp, houts⟩

/-! ## A request that is lost -/

/-- Two chunks of a session. -/
def sessionChunk : Request where
  requestId := 1
  samplingParams := some { maxTokens := 10, stopTokenIds := [7] }
  promptTokenIds := some [1, 2, 3]
  resumable := true

def smallConfig : Config where
  maxNumRunningReqs := 4
  maxNumScheduledTokens := 100
  maxModelLen := 100

/-- The second chunk arrives while the first is processed, the session is preempted by a reset, and
then the output of the step arrives and stops it. -/
def lostSession : Except PyError (Scheduler roomyWorld) := do
  let s : Scheduler roomyWorld := .initial (.multimodal (.init 0)) ()
  let request ← Request.init none sessionChunk
  let s ← s.addRequest smallConfig request
  let (out, s) ← s.schedule smallConfig
  let s ← s.addRequest smallConfig request
  let (_, s) ← s.resetPrefixCache smallConfig true false
  let (_, s) ← s.updateFromOutput smallConfig out
    { reqIdToIndex := Dict.empty.set 1 0, sampledTokenIds := [[7]] }
  .ok s

theorem lostSession_eq : lostSession.map (fun s => (s.requests.get? 1, (s.objs 0).isFinished,
    (s.running ++ s.waiting ++ s.skippedWaiting).count 0)) = .ok (some 0, false, 0) := by
  rfl

/-- Without the condition a session is lost: it is unfinished and in no queue. -/
theorem session_lost : ∃ r : Run roomyWorld,
    (schedulerRuns smallConfig (.multimodal (.init 0)) () fun _ _ => True).Reachable r ∧
      r.s.requests.get? 1 = some 0 ∧ (r.s.objs 0).isFinished = false ∧
      (r.s.running ++ r.s.waiting ++ r.s.skippedWaiting).count 0 = 0 := by
  obtain ⟨s, hrun, heq⟩ := map_eq_ok.mp lostSession_eq
  obtain ⟨request, hinit, h1⟩ := bind_ok hrun
  obtain ⟨s1, hadd, h2⟩ := bind_ok h1
  obtain ⟨⟨out, s2⟩, hsched, h3⟩ := bind_ok h2
  obtain ⟨s3, hchunk, h4⟩ := bind_ok h3
  obtain ⟨⟨b, s4⟩, hreset, h5⟩ := bind_ok h4
  obtain ⟨⟨outputs, s5⟩, hupdate, h6⟩ := bind_ok h5
  cases h6
  refine ⟨⟨s, [out]⟩, ?_, congrArg (·.1) heq, congrArg (·.2.1) heq, congrArg (·.2.2) heq⟩
  refine .step (s := ⟨s4, [out]⟩) (.step (s := ⟨s3, [out]⟩) (.step (s := ⟨s2, [out]⟩)
    (.step (s := ⟨s1, []⟩) (.step (.init rfl) ?_) ?_) ?_) ?_) ?_
  · exact ⟨.addRequest sessionChunk, trivial, ⟨request, hinit, hadd⟩, rfl⟩
  · exact ⟨.schedule out, trivial, hsched, rfl⟩
  · exact ⟨.addRequest sessionChunk, trivial, ⟨request, hinit, hchunk⟩, rfl⟩
  · exact ⟨.resetPrefixCache true false, trivial, ⟨b, hreset⟩, rfl⟩
  · exact ⟨.updateFromOutput out _, trivial, ⟨outputs, hupdate⟩, rfl⟩

end MyOperator.Sched
