import MyOperator.Sched.Steps
import MyOperator.Sched.Places

/-!
# `schedule` keeps the partition

Each step of `schedule` moves at most one request from a queue to another, and what was
scheduled so far is without duplicates and in `running`.
-/

namespace MyOperator.Sched

open Lib List Nat

namespace Scheduler

variable {X : World} {s : Scheduler X} {ref r : Ref} {f : Request → Request}

/-- Where the requests of the scheduler are. -/
def places (s : Scheduler X) : Places where
  reqId := fun r => (s.objs r).requestId
  status := fun r => (s.objs r).status
  requests := s.requests.get?
  numObjs := s.numObjs
  queue
    | .running => s.running
    | .waiting => s.waiting
    | .skipped => s.skippedWaiting

theorem requestId_modify (hid : (f (s.objs ref)).requestId = (s.objs ref).requestId) (r : Ref) :
    ((s.modify ref f).objs r).requestId = (s.objs r).requestId := by
  by_cases h : r = ref
  · rw [h, modify_self, hid]
  · rw [modify_of_ne f h]

theorem status_modify_of_ne (h : r ≠ ref) : ((s.modify ref f).objs r).status = (s.objs r).status := by
  rw [modify_of_ne f h]

theorem status_modify (hst : (f (s.objs ref)).status = (s.objs ref).status) (r : Ref) :
    ((s.modify ref f).objs r).status = (s.objs r).status := by
  by_cases h : r = ref
  · rw [h, modify_self, hst]
  · rw [modify_of_ne f h]

theorem places_modify (hid : (f (s.objs ref)).requestId = (s.objs ref).requestId)
    (hst : (f (s.objs ref)).status = (s.objs ref).status) : (s.modify ref f).places = s.places := by
  show ({ reqId := fun r => ((s.modify ref f).objs r).requestId
          status := fun r => ((s.modify ref f).objs r).status
          requests := s.requests.get?
          numObjs := s.numObjs
          queue := s.places.queue } : Places) = s.places
  simp only [requestId_modify hid, status_modify hst]
  rfl

/-- `v` shows the requests of `s`. -/
structure Shown (s : Scheduler X) (v : Places) : Prop where
  reqId : v.reqId = fun r => (s.objs r).requestId
  status : v.status = fun r => (s.objs r).status
  requests : v.requests = s.requests.get?
  numObjs : v.numObjs = s.numObjs

variable {s' : Scheduler X} {v w : Places}

theorem Shown.sameRequests (hv : s.Shown v) (hw : s'.Shown w) (hobjs : s'.objs = (s.modify ref f).objs)
    (hid : (f (s.objs ref)).requestId = (s.objs ref).requestId) (hreq : s'.requests = s.requests)
    (hnum : s'.numObjs = s.numObjs) : Places.SameRequests v w := by
  refine ⟨?_, ?_, ?_⟩
  · rw [hv.reqId, hw.reqId, hobjs]
    exact funext (requestId_modify hid)
  · rw [hv.requests, hw.requests, hreq]
  · rw [hv.numObjs, hw.numObjs, hnum]

theorem Shown.status_of_ne (hv : s.Shown v) (hw : s'.Shown w)
    (hobjs : s'.objs = (s.modify ref f).objs) {r : Ref} (hr : r ≠ ref) : w.status r = v.status r := by
  rw [hv.status, hw.status, hobjs]
  exact status_modify_of_ne hr

theorem Shown.status_self (hw : s'.Shown w) (hobjs : s'.objs = (s.modify ref f).objs) :
    w.status ref = (f (s.objs ref)).status := by
  rw [hw.status, hobjs]
  exact congrArg Request.status (modify_self f)

theorem relocate_places (hv : s.Shown v) (hw : s'.Shown w) (ref : Ref) (f : Request → Request)
    (name : QueueName) (hp : v.Partition []) (hobjs : s'.objs = (s.modify ref f).objs)
    (hid : (f (s.objs ref)).requestId = (s.objs ref).requestId) (hreq : s'.requests = s.requests)
    (hnum : s'.numObjs = s.numObjs) (hperm : w.queued.Perm v.queued) (hq : ref ∈ w.queue name)
    (hfit : name.Fits (f (s.objs ref)).status)
    (hothers : ∀ name r, r ∈ w.queue name → r ≠ ref → r ∈ v.queue name) : w.Partition [] :=
  hp.relocate (hv.sameRequests hw hobjs hid hreq hnum) (fun _ => hv.status_of_ne hw hobjs) hperm hq
    (by rwa [hw.status_self hobjs]) hothers

theorem shown_places (s : Scheduler X) : s.Shown s.places := ⟨rfl, rfl, rfl, rfl⟩

end Scheduler

namespace Pass

variable {cfg : Config} {X : World} {p q : Pass X} {ref victim : Ref} {work : Work}
  {f : Request → Request}

/-- Where the requests are in the middle of `schedule`: a request that was put off in this step
counts as skipped. -/
def places (p : Pass X) : Places where
  reqId := fun r => (p.s.objs r).requestId
  status := fun r => (p.s.objs r).status
  requests := p.s.requests.get?
  numObjs := p.s.numObjs
  queue
    | .running => p.s.running
    | .waiting => p.s.waiting
    | .skipped => p.s.skippedWaiting ++ p.stepSkippedWaiting

/-- The queue of the places that the requests of a source are in. -/
def Source.queueName : Source → QueueName
  | .waiting => .waiting
  | .skippedWaiting => .skipped

theorem places_modify (hid : (f (p.s.objs ref)).requestId = (p.s.objs ref).requestId)
    (hst : (f (p.s.objs ref)).status = (p.s.objs ref).status) :
    (p.modify ref f).places = p.places := by
  show ({ reqId := fun r => ((p.s.modify ref f).objs r).requestId
          status := fun r => ((p.s.modify ref f).objs r).status
          requests := p.s.requests.get?
          numObjs := p.s.numObjs
          queue := p.places.queue } : Places) = p.places
  simp only [Scheduler.requestId_modify hid, Scheduler.status_modify hst]
  rfl

theorem EncoderChange.places (h : EncoderChange p q) : q.places = p.places := by
  obtain ⟨_, _, _, _, _, rfl⟩ := h.eq
  rfl

/-- What was scheduled so far. -/
def scheduled (p : Pass X) : List Ref :=
  p.scheduledNewReqs ++ p.scheduledResumedReqs ++ p.scheduledRunningReqs

/-- What holds between any two steps. -/
structure PlacesInv (p : Pass X) : Prop where
  partition : p.places.Partition []
  nodup : p.scheduled.Nodup
  running : ∀ r ∈ p.scheduled, r ∈ p.s.running

/-- What holds while the running requests are scheduled: those that are already are before
`req_index`. -/
structure RunningInv (p : Pass X) : Prop where
  new : p.scheduledNewReqs = []
  resumed : p.scheduledResumedReqs = []
  putOff : p.stepSkippedWaiting = []
  before : ∀ r ∈ p.scheduledRunningReqs, r ∈ p.s.running.take p.reqIndex

/-- What holds for the request of an iteration. It is at `req_index`; under `priority` the preemption
of a request before it moves it ahead. -/
structure WorkInv (cfg : Config) (p : Pass X) (ref : Ref) : Prop where
  running : RunningInv p
  notScheduled : ref ∉ p.scheduledRunningReqs
  mem : ref ∈ p.s.running.take (p.reqIndex + 1)
  fcfs : cfg.policy = .fcfs → p.s.running[p.reqIndex]? = some ref

/-- What holds in a phase. -/
def PhaseInv (cfg : Config) (p : Pass X) : Phase X → Prop
  | .runningIdle | .runningEnd => RunningInv p
  | .running ref => RunningInv p ∧ p.s.running[p.reqIndex]? = some ref
  | .runningWork ref _ | .runningBlocks ref _ | .runningFull ref _ => WorkInv cfg p ref
  | .waiting source ref | .waitingReady source ref | .waitingSkip source ref
  | .waitingComputed source ref _ | .waitingWork source ref _ _ | .waitingBlocks source ref _ _ =>
    (p.queue source).peekRequest cfg.policy = .ok ref
  | .waitingIdle | .waitingFull _ | .waitingEnd | .done => True

theorem shown_places (p : Pass X) : p.s.Shown p.places := ⟨rfl, rfl, rfl, rfl⟩

/-! ## Positions in `running` -/

variable {n : Nat} {source : Source} {l : RequestQueue}

theorem mem_take_erase {l : List Ref} {a b : Ref} (h : a ∈ l.take n) (hne : a ≠ b) :
    a ∈ (l.erase b).take n := by
  induction l generalizing n with
  | nil => rw [take_nil] at h; cases h
  | cons c l ih =>
    cases n with
    | zero => cases h
    | succ n =>
      by_cases hc : c = b
      · subst hc
        rw [erase_cons_head]
        have hmem := (mem_cons.mp h).resolve_left hne
        exact (take_subset_take_left l (le_succ n)) hmem
      · rw [erase_cons_tail (by simpa using hc), take_succ_cons]
        rcases mem_cons.mp h with rfl | h
        · exact mem_cons_self
        · exact mem_cons_of_mem _ (ih h)

theorem mem_take_erase_pred {l : List Ref} {m : Nat} {a b : Ref} (hb : b ∈ l.take n) (hnm : n ≤ m)
    (h : a ∈ l.take m) (hne : a ≠ b) : a ∈ (l.erase b).take (m - 1) := by
  induction l generalizing n m with
  | nil => rw [take_nil] at h; cases h
  | cons c l ih =>
    cases n with
    | zero => cases hb
    | succ n =>
      obtain ⟨m, rfl⟩ : ∃ k, m = k + 1 := ⟨m - 1, by omega⟩
      by_cases hc : c = b
      · subst hc
        rw [erase_cons_head]
        exact (mem_cons.mp h).resolve_left hne
      · rw [erase_cons_tail (by simpa using hc)]
        have hb := (mem_cons.mp hb).resolve_left (fun heq => hc heq.symm)
        obtain ⟨n, rfl⟩ : ∃ k, n = k + 1 := by
          cases n with
          | zero => cases hb
          | succ n => exact ⟨n, rfl⟩
        obtain ⟨m, rfl⟩ : ∃ k, m = k + 1 := ⟨m - 1, by omega⟩
        rcases mem_cons.mp h with rfl | h
        · exact mem_cons_self
        · exact mem_cons_of_mem _ (ih hb (by omega) h)

theorem mem_take_of_getElem? {l : List Ref} {a : Ref} (h : l[n]? = some a) :
    a ∈ l.take (n + 1) := by
  obtain ⟨hn, hna⟩ := List.getElem?_eq_some_iff.mp h
  exact mem_take_iff_getElem.mpr ⟨n, Nat.lt_min.mpr ⟨lt_succ_self n, hn⟩, hna⟩

theorem not_mem_take_of_getElem? {l : List Ref} {a : Ref} (hl : l.Nodup) (h : l[n]? = some a) :
    a ∉ l.take n := by
  intro hmem
  obtain ⟨i, hi, hia⟩ := getElem_of_mem hmem
  rw [length_take] at hi
  rw [getElem_take] at hia
  obtain ⟨hn, hna⟩ := List.getElem?_eq_some_iff.mp h
  have := (Nodup.getElem_inj_iff hl).mp (hia.trans hna.symm)
  omega

/-! ## Steps that move no request -/

theorem PlacesInv.congr (h : PlacesInv p) (hplaces : q.places = p.places)
    (hsched : q.scheduled = p.scheduled) : PlacesInv q := by
  have hrunning : q.s.running = p.s.running := congrArg (fun v => v.queue .running) hplaces
  exact ⟨hplaces ▸ h.partition, hsched ▸ h.nodup, by rw [hsched, hrunning]; exact h.running⟩

theorem EncoderChange.scheduled (h : EncoderChange p q) : q.scheduled = p.scheduled := by
  obtain ⟨_, _, _, _, _, rfl⟩ := h.eq
  rfl

theorem EncoderChange.runningInv (h : EncoderChange p q) (hp : RunningInv p) : RunningInv q := by
  obtain ⟨_, _, _, _, _, rfl⟩ := h.eq
  exact ⟨hp.new, hp.resumed, hp.putOff, hp.before⟩

theorem PlacesInv.running_nodup (h : PlacesInv p) : p.s.running.Nodup :=
  h.partition.queue_nodup .running

theorem RunningInv.advance (h : RunningInv p) :
    RunningInv ({ p with reqIndex := p.reqIndex + 1 } : Pass X) :=
  ⟨h.new, h.resumed, h.putOff, fun r hr => take_subset_take_left _ (le_succ _) (h.before r hr)⟩

/-! ## Preemption -/

theorem popVictim_running (h : p.popVictim cfg = .ok (victim, q)) :
    ∃ running, p.s.running.Perm (victim :: running) ∧ q.s = { p.s with running } ∧
      q.stepSkippedWaiting = p.stepSkippedWaiting ∧ q.preemptedReqs = p.preemptedReqs := by
  rcases popVictim_effect h with ⟨-, hrunning, rfl⟩ | ⟨-, hmem, -, rfl⟩ | ⟨-, hmem, -, hun⟩
  · refine ⟨_, ?_, rfl, rfl, rfl⟩
    nth_rewrite 1 [hrunning]
    exact perm_append_singleton _ _
  · exact ⟨_, perm_cons_erase hmem, rfl, rfl, rfl⟩
  · obtain ⟨n, k, -, -, rfl⟩ := unschedule_effect hun
    exact ⟨_, perm_cons_erase hmem, rfl, rfl, rfl⟩

/-- What was scheduled stays before `req_index` when the victim leaves, and so does the request of
the iteration, unless it is the victim. -/
theorem popVictim_runningInv (hp : PlacesInv p) (h : WorkInv cfg p ref)
    (hpop : p.popVictim cfg = .ok (victim, q)) :
    RunningInv q ∧ q.scheduledRunningReqs.Nodup ∧ victim ∉ q.scheduledRunningReqs ∧
      (victim ≠ ref → WorkInv cfg q ref) := by
  obtain ⟨hrun, hnot, hpos, hfcfs⟩ := h
  have hnodup : p.scheduledRunningReqs.Nodup := (nodup_append.mp hp.nodup).2.1
  rcases popVictim_effect hpop with ⟨hpolicy, hrunning, rfl⟩ | ⟨hpolicy, hmem, hsched, rfl⟩ |
    ⟨hpolicy, hmem, hsched, hun⟩
  · -- the victim is the last one, the request of the iteration is at `req_index`
    have hget := hfcfs hpolicy
    obtain ⟨hlt, href⟩ := List.getElem?_eq_some_iff.mp hget
    have htake : p.s.running.dropLast.take p.reqIndex = p.s.running.take p.reqIndex := by
      rw [dropLast_eq_take, take_take, min_eq_left (by omega)]
    have hbefore : ∀ r ∈ p.scheduledRunningReqs, r ∈ p.s.running.dropLast.take p.reqIndex := by
      rw [htake]
      exact hrun.before
    have hvictim : victim ∉ p.scheduledRunningReqs := by
      intro hin
      have hdrop := mem_of_mem_take (hbefore victim hin)
      have hall := hp.running_nodup
      rw [hrunning] at hall
      exact (nodup_append.mp hall).2.2 victim hdrop victim mem_cons_self rfl
    refine ⟨⟨hrun.new, hrun.resumed, hrun.putOff, hbefore⟩, hnodup, hvictim, fun hne => ?_⟩
    have hget' : p.s.running.dropLast[p.reqIndex]? = some ref := by
      rw [hrunning] at hget
      rcases lt_or_ge p.reqIndex p.s.running.dropLast.length with hin | hout
      · rwa [getElem?_append_left hin] at hget
      · rw [getElem?_append_right hout] at hget
        obtain ⟨hidx, hval⟩ := List.getElem?_eq_some_iff.mp hget
        rw [getElem_singleton] at hval
        exact absurd hval hne
    exact ⟨⟨hrun.new, hrun.resumed, hrun.putOff, hbefore⟩, hnot,
      mem_take_of_getElem? hget', fun _ => hget'⟩
  · have hbefore : ∀ r ∈ p.scheduledRunningReqs, r ∈ (p.s.running.erase victim).take p.reqIndex :=
      fun r hr => mem_take_erase (hrun.before r hr) (fun heq => hsched (heq ▸ hr))
    refine ⟨⟨hrun.new, hrun.resumed, hrun.putOff, hbefore⟩, hnodup, hsched, fun hne => ?_⟩
    refine ⟨⟨hrun.new, hrun.resumed, hrun.putOff, hbefore⟩, hnot, mem_take_erase hpos (Ne.symm hne), ?_⟩
    intro hp'
    rw [hpolicy] at hp'
    cases hp'
  · obtain ⟨n, k, -, -, rfl⟩ := unschedule_effect hun
    have hin := hrun.before victim hsched
    have hbefore : ∀ r ∈ p.scheduledRunningReqs.erase victim,
        r ∈ (p.s.running.erase victim).take (p.reqIndex - 1) := by
      intro r hr
      obtain ⟨hne, hr⟩ := hnodup.mem_erase_iff.mp hr
      exact mem_take_erase_pred hin le_rfl (hrun.before r hr) hne
    have hpos' : 0 < p.reqIndex := by
      rcases Nat.eq_zero_or_pos p.reqIndex with h0 | h0
      · rw [h0] at hin
        cases hin
      · exact h0
    have hrun' : ∀ {P : Pass X}, P.scheduledNewReqs = p.scheduledNewReqs →
        P.scheduledResumedReqs = p.scheduledResumedReqs →
        P.scheduledRunningReqs = p.scheduledRunningReqs.erase victim →
        P.stepSkippedWaiting = p.stepSkippedWaiting →
        P.s.running = p.s.running.erase victim → P.reqIndex = p.reqIndex - 1 → RunningInv P := by
      intro P h1 h2 h3 h6 h4 h5
      refine ⟨h1.trans hrun.new, h2.trans hrun.resumed, h6.trans hrun.putOff, ?_⟩
      rw [h3, h4, h5]
      exact hbefore
    refine ⟨hrun' rfl rfl rfl rfl rfl rfl, hnodup.erase _, hnodup.not_mem_erase, fun hne => ?_⟩
    refine ⟨hrun' rfl rfl rfl rfl rfl rfl, fun hmem' => hnot (mem_of_mem_erase hmem'), ?_, ?_⟩
    · have hstep := mem_take_erase_pred hin (le_succ _) hpos (Ne.symm hne)
      show ref ∈ (p.s.running.erase victim).take (p.reqIndex - 1 + 1)
      rwa [Nat.sub_add_cancel hpos']
    · intro hp'
      rw [hpolicy] at hp'
      cases hp'

theorem preempt_inv {r : Pass X} (hp : PlacesInv p) (h : WorkInv cfg p ref)
    (hpop : p.popVictim cfg = .ok (victim, q)) (hpre : q.preemptVictim cfg victim = .ok r) :
    PlacesInv r ∧ PhaseInv cfg r (if victim = ref then .runningEnd else .runningWork ref work) := by
  obtain ⟨hrun, hnodup, hvictim, hwork⟩ := popVictim_runningInv hp h hpop
  obtain ⟨running, hperm, hs, hstep, -⟩ := popVictim_running hpop
  obtain ⟨-, m, world, waiting, -, hwaiting, rfl⟩ := preemptVictim_effect hpre
  have hsched : q.scheduled = q.scheduledRunningReqs := by
    unfold scheduled
    rw [hrun.new, hrun.resumed]
    rfl
  refine ⟨⟨?_, ?_, ?_⟩, ?_⟩
  · refine Scheduler.relocate_places p.shown_places (shown_places _) victim Scheduler.preempted .waiting hp.partition ?_ rfl ?_ ?_ ?_ ?_
      (.inr rfl) ?_
    · show (q.s.modify victim Scheduler.preempted).objs = _
      rw [hs]
      rfl
    · show q.s.requests = p.s.requests
      rw [hs]
    · show q.s.numObjs = p.s.numObjs
      rw [hs]
    · show (q.s.running ++ waiting ++ (q.s.skippedWaiting ++ q.stepSkippedWaiting)).Perm
        (p.s.running ++ p.s.waiting ++ (p.s.skippedWaiting ++ p.stepSkippedWaiting))
      rw [hs] at hwaiting
      rw [hs, hstep]
      refine Perm.append_right _ ?_
      exact ((hwaiting.append_left running).trans perm_middle).trans (hperm.symm.append_right _)
    · exact hwaiting.mem_iff.mpr mem_cons_self
    · intro name r hr hne
      cases name with
      | running =>
        have hr : r ∈ q.s.running := hr
        rw [hs] at hr
        exact hperm.mem_iff.mpr (mem_cons_of_mem _ hr)
      | waiting =>
        have hr := (mem_cons.mp (hwaiting.mem_iff.mp hr)).resolve_left hne
        rw [hs] at hr
        exact hr
      | skipped =>
        have hr : r ∈ q.s.skippedWaiting ++ q.stepSkippedWaiting := hr
        rw [hs, hstep] at hr
        exact hr
  · show q.scheduled.Nodup
    rw [hsched]
    exact hnodup
  · intro r hr
    have hr : r ∈ q.scheduled := hr
    rw [hsched] at hr
    exact mem_of_mem_take (hrun.before r hr)
  · by_cases hv : victim = ref
    · rw [if_pos hv]
      exact ⟨hrun.new, hrun.resumed, hrun.putOff, hrun.before⟩
    · rw [if_neg hv]
      obtain ⟨h1, h2, h3, h4⟩ := hwork hv
      exact ⟨⟨h1.new, h1.resumed, h1.putOff, h1.before⟩, h2, h3, h4⟩

/-! ## Scheduling a running request -/

theorem scheduleRunning_inv (hp : PlacesInv p) (h : WorkInv cfg p ref)
    (hsched : p.scheduleRunning cfg ref work = .ok q) : PlacesInv q ∧ RunningInv q := by
  obtain ⟨hrun, hnot, hpos, -⟩ := h
  obtain ⟨d, hencoder⟩ := scheduleRunning_effect hsched
  have hchange := allocateEncoder_effect hencoder
  have hmem : ∀ r ∈ p.scheduledRunningReqs ++ [ref], r ∈ p.s.running.take (p.reqIndex + 1) := by
    intro r hr
    rcases mem_append.mp hr with hr | hr
    · exact take_subset_take_left _ (le_succ _) (hrun.before r hr)
    · rw [mem_singleton.mp hr]
      exact hpos
  have hscheduled : p.scheduled = p.scheduledRunningReqs := by
    unfold scheduled
    rw [hrun.new, hrun.resumed]
    rfl
  refine ⟨PlacesInv.congr ⟨?_, ?_, ?_⟩ hchange.places hchange.scheduled,
    hchange.runningInv ⟨hrun.new, hrun.resumed, hrun.putOff, hmem⟩⟩
  · rw [places_modify (f := fun r => { r with specTokenIds := [] }) rfl rfl]
    exact hp.partition
  · show (p.scheduledNewReqs ++ p.scheduledResumedReqs ++ (p.scheduledRunningReqs ++ [ref])).Nodup
    rw [← append_assoc]
    rw [← concat_eq_append]
    refine Nodup.concat ?_ hp.nodup
    show ref ∉ p.scheduled
    rw [hscheduled]
    exact hnot
  · intro r hr
    rw [hrun.new, hrun.resumed] at hr
    exact mem_of_mem_take (hmem r hr)

/-! ## The waiting requests -/

theorem peek_mem (hpeek : (p.queue source).peekRequest cfg.policy = .ok ref) :
    ref ∈ p.queue source := by
  cases hq : p.queue source with
  | nil =>
    rw [hq] at hpeek
    cases hpeek
  | cons a l =>
    rw [hq] at hpeek
    cases hpeek
    exact mem_cons_self

theorem mem_places_of_mem_queue (h : ref ∈ p.queue source) :
    ref ∈ p.places.queue source.queueName := by
  cases source with
  | waiting => exact h
  | skippedWaiting => exact mem_append_left _ h

theorem withQueue_perm (hperm : (p.queue source).Perm (ref :: l)) (rest : List Ref) :
    (ref :: ((p.withQueue source l).s.waiting ++
      ((p.withQueue source l).s.skippedWaiting ++ rest))).Perm
    (p.s.waiting ++ (p.s.skippedWaiting ++ rest)) := by
  cases source with
  | waiting => exact hperm.symm.append_right _
  | skippedWaiting =>
    exact perm_middle.symm.trans ((hperm.symm.append_right rest).append_left p.s.waiting)

theorem mem_withQueue_waiting {r : Ref} (hperm : (p.queue source).Perm (ref :: l))
    (hr : r ∈ (p.withQueue source l).s.waiting) : r ∈ p.s.waiting := by
  cases source with
  | waiting => exact hperm.mem_iff.mpr (mem_cons_of_mem _ hr)
  | skippedWaiting => exact hr

theorem mem_withQueue_skippedWaiting {r : Ref} (hperm : (p.queue source).Perm (ref :: l))
    (hr : r ∈ (p.withQueue source l).s.skippedWaiting) : r ∈ p.s.skippedWaiting := by
  cases source with
  | waiting => exact hr
  | skippedWaiting => exact hperm.mem_iff.mpr (mem_cons_of_mem _ hr)

/-- A request that is taken from its queue and put off. Its status may change on the way. -/
theorem putOff_partition {stepSkippedWaiting : RequestQueue} (hp : p.places.Partition [])
    (hperm : (p.queue source).Perm (ref :: l))
    (hskip : stepSkippedWaiting.Perm (ref :: p.stepSkippedWaiting))
    (hid : (f (p.s.objs ref)).requestId = (p.s.objs ref).requestId)
    (hfit : QueueName.skipped.Fits (f (p.s.objs ref)).status)
    (hobjs : q.s.objs = (p.s.modify ref f).objs) (hreq : q.s.requests = p.s.requests)
    (hnum : q.s.numObjs = p.s.numObjs) (hrun : q.s.running = p.s.running)
    (hwait : q.s.waiting = (p.withQueue source l).s.waiting)
    (hskipped : q.s.skippedWaiting = (p.withQueue source l).s.skippedWaiting)
    (hstep : q.stepSkippedWaiting = stepSkippedWaiting) : q.places.Partition [] := by
  refine Scheduler.relocate_places p.shown_places (shown_places _) ref f .skipped hp hobjs hid hreq hnum ?_ ?_ hfit ?_
  · show (q.s.running ++ q.s.waiting ++ (q.s.skippedWaiting ++ q.stepSkippedWaiting)).Perm
      (p.s.running ++ p.s.waiting ++ (p.s.skippedWaiting ++ p.stepSkippedWaiting))
    rw [hrun, hwait, hskipped, hstep, append_assoc, append_assoc]
    refine Perm.append_left _ (Perm.trans ?_ (withQueue_perm hperm _))
    refine Perm.trans (Perm.append_left _ ?_) perm_middle
    exact (hskip.append_left _).trans perm_middle
  · show ref ∈ q.s.skippedWaiting ++ q.stepSkippedWaiting
    rw [hstep]
    exact mem_append_right _ (hskip.mem_iff.mpr mem_cons_self)
  · intro name r hr hne
    cases name with
    | running =>
      have hr : r ∈ q.s.running := hr
      rw [hrun] at hr
      exact hr
    | waiting =>
      have hr : r ∈ q.s.waiting := hr
      rw [hwait] at hr
      exact mem_withQueue_waiting hperm hr
    | skipped =>
      have hr : r ∈ q.s.skippedWaiting ++ q.stepSkippedWaiting := hr
      rw [hskipped, hstep] at hr
      show r ∈ p.s.skippedWaiting ++ p.stepSkippedWaiting
      rcases mem_append.mp hr with hr | hr
      · exact mem_append_left _ (mem_withQueue_skippedWaiting hperm hr)
      · exact mem_append_right _ ((mem_cons.mp (hskip.mem_iff.mp hr)).resolve_left hne)

theorem skipped_fits_of_mem (hp : p.places.Partition []) (hmem : ref ∈ p.queue source) :
    QueueName.skipped.Fits (p.s.objs ref).status := by
  have hfit := hp.fits source.queueName ref (mem_places_of_mem_queue hmem)
  cases source with
  | waiting => exact .inr hfit
  | skippedWaiting => exact hfit

section

variable (hp : PlacesInv p) (hpeek : (p.queue source).peekRequest cfg.policy = .ok ref)
include hp hpeek

theorem skip_inv (h : p.skipRequest cfg source ref = .ok q) : PlacesInv q := by
  obtain ⟨l, stepSkippedWaiting, hperm, hskip, rfl⟩ := skipRequest_effect hpeek h
  have hobjs : (p.s.modify ref id).objs = p.s.objs := by
    rw [Scheduler.modify_eq_self (f := id) rfl]
  refine ⟨?_, ?_, ?_⟩
  · refine putOff_partition (f := id) hp.partition hperm hskip rfl
      (skipped_fits_of_mem hp.partition (peek_mem hpeek)) ?_ ?_ ?_ ?_ rfl rfl rfl
    · rw [hobjs]
      cases source <;> rfl
    · cases source <;> rfl
    · cases source <;> rfl
    · cases source <;> rfl
  · show (p.withQueue source l).scheduled.Nodup
    cases source <;> exact hp.nodup
  · cases source <;> exact hp.running

theorem promoted_inv {r' : Request} {world : X.State}
    {finishedRecvingKvReqIds failedRecvingKvReqIds : Finset Nat}
    (hblocked : (p.s.objs ref).status.isBlockedWaiting = true)
    (hr' : Promotes cfg (p.s.objs ref) r')
    (hq : q = { p with s := { p.s.modify ref (fun _ => r') with world, finishedRecvingKvReqIds, failedRecvingKvReqIds } }) :
    PlacesInv q ∧ (q.queue source).peekRequest cfg.policy = .ok ref := by
  subst hq
  refine ⟨⟨?_, hp.nodup, hp.running⟩, by cases source <;> exact hpeek⟩
  have hid : r'.requestId = (p.s.objs ref).requestId := by rw [hr'.eq]
  -- a blocked request is not in `waiting`
  have hmem : ref ∈ p.places.queue .skipped := by
    have hmem := mem_places_of_mem_queue (peek_mem hpeek)
    have hfit := hp.partition.fits _ _ hmem
    cases source with
    | skippedWaiting => exact hmem
    | waiting =>
      have hfit : (p.s.objs ref).status = .waiting ∨ (p.s.objs ref).status = .preempted := hfit
      rcases hfit with hst | hst <;> rw [hst] at hblocked <;> cases hblocked
  exact Scheduler.relocate_places p.shown_places (shown_places _) ref (fun _ => r') .skipped hp.partition rfl hid rfl rfl (.refl _) hmem
    (.inr hr'.status) (fun _ _ hr _ => hr)

theorem promote_inv {promoted : Bool} (h : p.promote cfg ref = .ok (promoted, q)) :
    PlacesInv q ∧ (q.queue source).peekRequest cfg.policy = .ok ref := by
  rcases promote_effect h with ⟨rfl, -⟩ | ⟨hblocked, -, world, finished, failed, r', hr', hq⟩
  · exact ⟨hp, hpeek⟩
  · exact promoted_inv hp hpeek hblocked hr' hq

end

theorem not_running_of_mem_queue (hp : PlacesInv p) (hmem : ref ∈ p.queue source) :
    ref ∉ p.s.running := by
  intro hin
  have hrun : source.queueName = .running :=
    (hp.partition.fits _ _ (mem_places_of_mem_queue hmem)).eq_running.mpr
      (hp.partition.fits .running ref hin)
  cases source <;> cases hrun

theorem admit_scheduled {new resumed : List Ref} {status : RequestStatus}
    (hrec : status = .waiting ∧ new = p.scheduledNewReqs ++ [ref] ∧
        resumed = p.scheduledResumedReqs ∨
      status = .preempted ∧ new = p.scheduledNewReqs ∧ resumed = p.scheduledResumedReqs ++ [ref]) :
    (new ++ resumed ++ p.scheduledRunningReqs).Perm (ref :: p.scheduled) := by
  have hadd : ∀ a b c : List Ref, (a ++ [ref] ++ b ++ c).Perm (ref :: (a ++ b ++ c)) ∧
      (a ++ (b ++ [ref]) ++ c).Perm (ref :: (a ++ b ++ c)) := by
    intro a b c
    constructor
    · rw [append_assoc, append_assoc, append_assoc]
      exact perm_middle
    · rw [← append_assoc, append_assoc]
      exact perm_middle
  rcases hrec with ⟨-, rfl, rfl⟩ | ⟨-, rfl, rfl⟩
  · exact (hadd _ _ _).1
  · exact (hadd _ _ _).2

theorem admit_inv {world : X.State} {computed : Computed X} (hp : PlacesInv p)
    (hmem : ref ∈ p.queue source) (hperm : (p.queue source).Perm (ref :: l))
    (h : ((p.setWorld world).withQueue source l).admitRequest cfg ref computed work = .ok q) :
    PlacesInv q := by
  obtain ⟨new, resumed, loras, hrec, hencoder⟩ := admitRequest_effect h
  have hchange := allocateEncoder_effect hencoder
  have hrunning : ((p.setWorld world).withQueue source l).s.running = p.s.running := by
    cases source <;> rfl
  have hobjs : ((p.setWorld world).withQueue source l).s.objs = p.s.objs := by
    cases source <;> rfl
  have hnotin := not_running_of_mem_queue hp hmem
  have hsched : (new ++ resumed ++ p.scheduledRunningReqs).Perm (ref :: p.scheduled) := by
    have hperm := admit_scheduled hrec
    cases source <;> exact hperm
  refine PlacesInv.congr ⟨?_, ?_, ?_⟩ hchange.places hchange.scheduled
  · refine Scheduler.relocate_places p.shown_places (shown_places _) ref (fun r => { r with
        status := .running
        numComputedTokens := computed.numComputedTokens }) .running hp.partition ?_ rfl ?_ ?_ ?_ ?_
      rfl ?_
    · cases source <;> rfl
    · cases source <;> rfl
    · cases source <;> rfl
    · have hwith := withQueue_perm hperm p.stepSkippedWaiting
      have hgoal : (p.s.running ++ [ref] ++ (p.withQueue source l).s.waiting ++
          ((p.withQueue source l).s.skippedWaiting ++ p.stepSkippedWaiting)).Perm
          (p.s.running ++ p.s.waiting ++ (p.s.skippedWaiting ++ p.stepSkippedWaiting)) := by
        rw [append_assoc, append_assoc, append_assoc p.s.running]
        exact hwith.append_left p.s.running
      cases source <;> exact hgoal
    · show ref ∈ ((p.setWorld world).withQueue source l).s.running ++ [ref]
      exact mem_append_right _ mem_cons_self
    · intro name r hr hne
      cases name with
      | running =>
        rw [hrunning] at hr
        rcases mem_append.mp hr with hr | hr
        · exact hr
        · exact absurd (mem_singleton.mp hr) hne
      | waiting => exact mem_withQueue_waiting hperm (by cases source <;> exact hr)
      | skipped =>
        have hr : r ∈ (p.withQueue source l).s.skippedWaiting ++ p.stepSkippedWaiting := by
          cases source <;> exact hr
        rcases mem_append.mp hr with hr | hr
        · exact mem_append_left _ (mem_withQueue_skippedWaiting hperm hr)
        · exact mem_append_right _ hr
  · have hnodup := hsched.nodup_iff.mpr
      (nodup_cons.mpr ⟨fun hin => hnotin (hp.running ref hin), hp.nodup⟩)
    cases source <;> exact hnodup
  · intro r hr
    have hr : r ∈ new ++ resumed ++ p.scheduledRunningReqs := by cases source <;> exact hr
    show r ∈ ((p.setWorld world).withQueue source l).s.running ++ [ref]
    rw [hrunning]
    rcases mem_cons.mp (hsched.mem_iff.mp hr) with rfl | hr
    · exact mem_append_right _ mem_cons_self
    · exact mem_append_left _ (hp.running r hr)

/-- A request with new blocks leaves its queue: it runs, or waits for a load. -/
theorem admitOrLoad_inv {computed : Computed X} (hp : PlacesInv p)
    (hpeek : (p.queue source).peekRequest cfg.policy = .ok ref)
    (h : p.admitOrLoad cfg source ref computed work = .ok q) : PlacesInv q := by
  obtain ⟨l, world, hperm, ⟨-, rfl⟩ | ⟨-, hadmit⟩⟩ := admitOrLoad_effect hpeek h
  · obtain ⟨stepSkippedWaiting, hskip, heq⟩ :=
      startLoad_effect cfg ((p.setWorld world).withQueue source l) ref computed
    have hskip : stepSkippedWaiting.Perm (ref :: p.stepSkippedWaiting) := by
      cases source <;> exact hskip
    rw [heq]
    refine ⟨putOff_partition (f := fun r => { r with
        status := .waitingForRemoteKvs
        numComputedTokens := computed.numComputedTokens }) hp.partition hperm hskip rfl (.inl rfl)
      ?_ ?_ ?_ ?_ ?_ ?_ rfl, ?_, ?_⟩
    · cases source <;> rfl
    · cases source <;> rfl
    · cases source <;> rfl
    · cases source <;> rfl
    · cases source <;> rfl
    · cases source <;> rfl
    · cases source <;> exact hp.nodup
    · cases source <;> exact hp.running
  · exact admit_inv hp (peek_mem hpeek) hperm hadmit

/-! ## Every step -/

theorem requeueSkipped_inv (hp : PlacesInv p) : PlacesInv (p.requeueSkipped cfg) := by
  refine ⟨hp.partition.reorder ⟨rfl, rfl, rfl⟩ rfl ?_, hp.nodup, hp.running⟩
  intro name
  cases name with
  | running => exact .refl _
  | waiting => exact .refl _
  | skipped =>
    show (p.s.skippedWaiting.prependRequests cfg.policy (p.s.lt cfg) p.stepSkippedWaiting ++
      []).Perm _
    rw [append_nil]
    exact RequestQueue.prependRequests_perm.trans perm_append_comm

theorem getComputed_inv {computed? : Option (Computed X)} (hp : PlacesInv p)
    (hpeek : (p.queue source).peekRequest cfg.policy = .ok ref)
    (h : p.getComputed cfg ref = .ok (computed?, q)) :
    PlacesInv q ∧ (q.queue source).peekRequest cfg.policy = .ok ref := by
  obtain ⟨world, n, rfl⟩ := getComputed_effect h
  refine ⟨hp.congr (places_modify (f := fun r => { r with numExternalComputedTokens := n }) rfl rfl)
    rfl, by cases source <;> exact hpeek⟩

theorem Step.placesInv {a b : Pass X × Phase X} (h : Step cfg a b)
    (ha : PlacesInv a.1 ∧ PhaseInv cfg a.1 a.2) : PlacesInv b.1 ∧ PhaseInv cfg b.1 b.2 := by
  obtain ⟨hp, hphase⟩ := ha
  cases h with
  | pickRunning hmore => exact ⟨hp, hphase, hmore.1⟩
  | endRunning _ => exact ⟨hp, hphase⟩
  | passOver _ => exact ⟨hp.congr rfl rfl, hphase.1.advance⟩
  | planRunning hmax hplan hsplit =>
    obtain ⟨m, rfl⟩ := scheduleEncoderInputs_effect hplan
    obtain ⟨hrun, hget⟩ := hphase
    refine ⟨hp.congr rfl rfl, ⟨hrun.new, hrun.resumed, hrun.putOff, hrun.before⟩, ?_,
      mem_take_of_getElem? hget, fun _ => hget⟩
    intro hin
    exact not_mem_take_of_getElem? hp.running_nodup hget (hrun.before _ hin)
  | noTokens _ => exact ⟨hp.congr rfl rfl, hphase.running.advance⟩
  | @tryAllocate p ref work allocated world hne hslots =>
    have hwork : WorkInv cfg (p.setWorld world) ref :=
      ⟨⟨hphase.running.new, hphase.running.resumed, hphase.running.putOff, hphase.running.before⟩,
        hphase.notScheduled, hphase.mem, hphase.fcfs⟩
    refine ⟨hp.congr rfl rfl, ?_⟩
    cases allocated <;> exact hwork
  | preempt hpop hpre => exact preempt_inv hp hphase hpop hpre
  | scheduleRunning hsched => exact scheduleRunning_inv hp hphase hsched
  | recordLoras hloras =>
    obtain ⟨loras, rfl⟩ := recordLoras_effect hloras
    refine ⟨hp.congr rfl rfl, ?_⟩
    dsimp only
    split <;> trivial
  | pickWaiting hmore hpeek => exact ⟨hp, hpeek⟩
  | endWaiting _ => exact ⟨hp, trivial⟩
  | promote hprom =>
    obtain ⟨hq, hpeek⟩ := promote_inv hp hphase hprom
    refine ⟨hq, ?_⟩
    dsimp only
    split <;> exact hpeek
  | noMatchYet hget => exact getComputed_inv hp hphase hget
  | skip hskip => exact ⟨skip_inv hp hphase hskip, trivial⟩
  | getComputed hget => exact getComputed_inv hp hphase hget
  | giveUp hplan =>
    obtain ⟨m, rfl⟩ := planWaiting_effect hplan
    exact ⟨hp.congr rfl rfl, trivial⟩
  | planWaiting hplan =>
    have hpeek := (planWaiting_sameQueues hplan).peek hphase
    obtain ⟨m, rfl⟩ := planWaiting_effect hplan
    exact ⟨hp.congr rfl rfl, hpeek⟩
  | @allocateWaiting _ _ _ _ _ _ allocated halloc =>
    have hpeek := (allocateWaiting_sameQueues halloc).peek hphase
    obtain ⟨world, rfl⟩ := allocateWaiting_effect halloc
    refine ⟨hp.congr rfl rfl, ?_⟩
    cases allocated
    · trivial
    · exact hpeek
  | untouch hun =>
    obtain ⟨m, rfl⟩ := untouchEncoder_effect hun
    exact ⟨hp.congr rfl rfl, trivial⟩
  | admitOrLoad hadmit => exact ⟨admitOrLoad_inv hp hphase hadmit, trivial⟩
  | requeue => exact ⟨requeueSkipped_inv hp, trivial⟩

theorem Steps.placesInv {a b : Pass X × Phase X} (h : Steps cfg a b)
    (ha : PlacesInv a.1 ∧ PhaseInv cfg a.1 a.2) : PlacesInv b.1 ∧ PhaseInv cfg b.1 b.2 := by
  induction h with
  | refl => exact ha
  | tail _ hstep ih => exact hstep.placesInv ih

end Pass

namespace Scheduler

variable {cfg : Config} {X : World} {s s' : Scheduler X} {out : SchedulerOutput}

theorem startPass_inv (cfg : Config) (h : s.places.Partition []) :
    Pass.PlacesInv (s.startPass cfg) ∧ Pass.RunningInv (s.startPass cfg) := by
  have hnil : s.skippedWaiting ++ [] = s.skippedWaiting := append_nil _
  refine ⟨⟨?_, .nil, fun r hr => (nomatch hr)⟩, rfl, rfl, rfl, fun r hr => (nomatch hr)⟩
  refine h.reorder ⟨rfl, rfl, rfl⟩ rfl ?_
  intro name
  cases name with
  | running => exact .refl _
  | waiting => exact .refl _
  | skipped => exact .of_eq hnil

/-- At the end of the loops the requests that were put off are in `skipped_waiting` again. -/
theorem runPass_inv {p : Pass X} (h : s.places.Partition []) (hrun : s.runPass cfg = .ok p) :
    Pass.PlacesInv p ∧ p.stepSkippedWaiting = [] := by
  obtain ⟨hp0, hrun0⟩ := startPass_inv cfg h
  refine ⟨((runPass_steps hrun).placesInv ⟨hp0, hrun0⟩).1, ?_⟩
  obtain ⟨p1, hloop, hrun⟩ := bind_ok hrun
  obtain ⟨p2, hloras, hrun⟩ := bind_ok hrun
  have hp1 : Pass.RunningInv p1 := ((Pass.runningLoop_steps le_rfl hloop).placesInv ⟨hp0, hrun0⟩).2
  obtain ⟨loras, rfl⟩ := Pass.recordLoras_effect hloras
  unfold Pass.scheduleWaiting at hrun
  split at hrun
  · obtain ⟨p3, -, hrun⟩ := bind_ok hrun
    cases hrun
    rfl
  · cases hrun
    exact hp1.putOff

theorem updateAfterSchedule_places (h : s.updateAfterSchedule cfg out = .ok s') :
    s'.places = s.places := by
  obtain ⟨s1, hadvance, h⟩ := bind_ok h
  have hs1 : s1.places = s.places := by
    refine foldlM_keeps (P := fun t => t.places = s.places) ?_ rfl hadvance
    intro t e _ t' ht hstep
    obtain ⟨ref, m, -, rfl⟩ := advanceRequest_effect hstep
    exact (places_modify (f := advance e.2) rfl rfl).trans ht
  split at h
  · refine foldlM_keeps (P := fun t => t.places = s.places) ?_ hs1 h
    intro t e _ t' ht hstep
    obtain ⟨ref, -, rfl⟩ := placeholdersRequest_effect hstep
    refine (places_modify ?_ ?_).trans ht
    · unfold addPlaceholders
      split <;> rfl
    · unfold addPlaceholders
      split <;> rfl
  · cases h
    exact hs1

/-- After the loops the partition holds of the scheduler, and no request was scheduled twice. -/
theorem output_places {p : Pass X} (hp : Pass.PlacesInv p) (hskipped : p.stepSkippedWaiting = [])
    (hafter : p.output.2.updateAfterSchedule cfg p.output.1 = .ok s') :
    s'.places.Partition [] ∧ (p.output.1.scheduledNewReqs ++ p.output.1.scheduledResumedReqs ++
      p.output.1.scheduledRunningReqs).Nodup := by
  constructor
  · rw [updateAfterSchedule_places hafter]
    refine hp.partition.reorder ⟨rfl, rfl, rfl⟩ rfl ?_
    intro name
    cases name with
    | running => exact .refl _
    | waiting => exact .refl _
    | skipped =>
      show p.s.skippedWaiting.Perm (p.s.skippedWaiting ++ p.stepSkippedWaiting)
      rw [hskipped, append_nil]
  · show (p.scheduledNewReqs.map _ ++ p.scheduledResumedReqs.map _ ++
      p.scheduledRunningReqs.map _).Nodup
    rw [← map_append, ← map_append]
    refine hp.nodup.map_on ?_
    intro a ha b hb hab
    have hqueued : ∀ r ∈ p.scheduled, r ∈ p.places.queued :=
      fun r hr => Places.mem_queued.mpr ⟨.running, hp.running r hr⟩
    exact hp.partition.reqId_inj (hqueued a ha) (hqueued b hb) hab

theorem schedule_places (h : s.places.Partition []) (hsched : s.schedule cfg = .ok (out, s')) :
    s'.places.Partition [] ∧
      (out.scheduledNewReqs ++ out.scheduledResumedReqs ++ out.scheduledRunningReqs).Nodup := by
  obtain ⟨p, hrun, -, -, rfl, hafter⟩ := schedule_eq_ok hsched
  obtain ⟨hp, hskipped⟩ := runPass_inv h hrun
  exact output_places hp hskipped hafter

end Scheduler

end MyOperator.Sched
