import MyOperator.Lib.HeapOrder
import MyOperator.Sched.Steps

/-!
# The order of the priority queues

`Scheduler.Ordered` says that the heaps of the scheduler are in the order of the requests
as they are now. A request may change in everything but its key while it is in a heap;
`schedule` changes no key, so each of its steps keeps the order.
-/

namespace MyOperator.Sched

open Lib List
open Lib.Heapq (IsHeap)
open KvCache (assert)

/-- `(priority, arrival_time, request_id)`. -/
def Request.orderKey (r : Request) : Int ×ₗ (Int ×ₗ Nat) :=
  toLex (r.priority, toLex (r.arrivalTime, r.requestId))

variable {a b : Request}

theorem Request.orderKey_le : a.orderKey ≤ b.orderKey ↔
    a.priority < b.priority ∨ (a.priority = b.priority ∧ (a.arrivalTime < b.arrivalTime ∨
      (a.arrivalTime = b.arrivalTime ∧ a.requestId ≤ b.requestId))) := by
  unfold orderKey
  rw [Prod.Lex.toLex_le_toLex, Prod.Lex.toLex_le_toLex]

theorem Request.requestId_of_orderKey (h : a.orderKey = b.orderKey) :
    a.requestId = b.requestId := by
  have hpair := Prod.mk.inj (toLex.injective h)
  exact (Prod.mk.inj (toLex.injective hpair.2)).2

theorem Request.orderKey_of_lt {idLt : Bool} :
    (a.lt b idLt = true → a.orderKey ≤ b.orderKey) ∧
      (a.lt b idLt = false → b.orderKey ≤ a.orderKey) := by
  rw [orderKey_le, orderKey_le]
  unfold lt
  constructor
  · intro h
    split at h
    · exact .inl (of_decide_eq_true h)
    · rename_i hp
      refine .inr ⟨not_not.mp hp, ?_⟩
      split at h
      · exact .inl (of_decide_eq_true h)
      · rename_i ha
        refine .inr ⟨not_not.mp ha, ?_⟩
        split at h
        · exact le_of_lt (of_decide_eq_true h)
        · rename_i hid
          exact le_of_eq (not_not.mp hid)
  · intro h
    split at h
    · have := of_decide_eq_false h
      omega
    · rename_i hp
      refine .inr ⟨(not_not.mp hp).symm, ?_⟩
      split at h
      · have := of_decide_eq_false h
        omega
      · rename_i ha
        refine .inr ⟨(not_not.mp ha).symm, ?_⟩
        split at h
        · have := of_decide_eq_false h
          omega
        · rename_i hid
          exact le_of_eq (not_not.mp hid).symm

namespace Scheduler

variable {cfg : Config} {X : World} {s s' : Scheduler X} {ref : Ref} {extra : RequestQueue}

/-- The keys of the requests as they are now. -/
def key (s : Scheduler X) (ref : Ref) : Int ×ₗ (Int ×ₗ Nat) := (s.objs ref).orderKey

theorem respects (cfg : Config) (s : Scheduler X) : Heapq.Respects (s.lt cfg) s.key :=
  ⟨fun _ _ => Request.orderKey_of_lt.1, fun _ _ => Request.orderKey_of_lt.2⟩

theorem key_modify {f : Request → Request}
    (hf : (f (s.objs ref)).orderKey = (s.objs ref).orderKey) : (s.modify ref f).key = s.key := by
  funext r
  unfold key modify
  dsimp only
  by_cases hr : r = ref
  · subst hr
    rw [Function.update_self, hf]
  · rw [Function.update_of_ne hr]

/-- The heaps are ordered, `extra` is a further one, and the requests in the queues exist. -/
structure Ordered (s : Scheduler X) (extra : RequestQueue) : Prop where
  waiting : IsHeap s.key s.waiting
  skipped : IsHeap s.key s.skippedWaiting
  held : IsHeap s.key extra
  known : ∀ r, r ∈ s.running ∨ r ∈ s.waiting ∨ r ∈ s.skippedWaiting ∨ r ∈ extra → r < s.numObjs
  entry : ∀ id r, s.requests.get? id = some r → (s.objs r).requestId = id ∧ r < s.numObjs

variable {r : Ref}

section

variable (h : Ordered s extra)
include h

theorem Ordered.known_running (hr : r ∈ s.running) : r < s.numObjs := h.known r (.inl hr)

theorem Ordered.known_waiting (hr : r ∈ s.waiting) : r < s.numObjs := h.known r (.inr (.inl hr))

theorem Ordered.known_skipped (hr : r ∈ s.skippedWaiting) :
    r < s.numObjs := h.known r (.inr (.inr (.inl hr)))

theorem Ordered.known_held (hr : r ∈ extra) : r < s.numObjs := h.known r (.inr (.inr (.inr hr)))

theorem Ordered.modify {f : Request → Request}
    (hf : (f (s.objs ref)).orderKey = (s.objs ref).orderKey) : Ordered (s.modify ref f) extra := by
  have hkey := key_modify hf
  refine ⟨?_, ?_, ?_, h.known, fun id r hr => ?_⟩
  · rw [hkey]
    exact h.waiting
  · rw [hkey]
    exact h.skipped
  · rw [hkey]
    exact h.held
  · have hid := Request.requestId_of_orderKey (congrFun hkey r)
    rw [hid]
    exact h.entry id r hr

theorem Ordered.setRunning (running : List Ref) (hrun : ∀ r ∈ running, r < s.numObjs) :
    Ordered { s with running } extra where
  waiting := h.waiting
  skipped := h.skipped
  held := h.held
  known r hr := by
    rcases hr with hr | hr
    · exact hrun r hr
    · exact h.known r (.inr hr)
  entry := h.entry

theorem Ordered.setWaiting {waiting : RequestQueue} (hheap : IsHeap s.key waiting)
    (hmem : ∀ r ∈ waiting, r < s.numObjs) : Ordered { s with waiting } extra where
  waiting := hheap
  skipped := h.skipped
  held := h.held
  known r hr := by
    rcases hr with hr | hr | hr
    · exact h.known_running hr
    · exact hmem r hr
    · exact h.known r (.inr (.inr hr))
  entry := h.entry

theorem Ordered.setSkipped {skippedWaiting : RequestQueue} (hheap : IsHeap s.key skippedWaiting)
    (hmem : ∀ r ∈ skippedWaiting, r < s.numObjs) : Ordered { s with skippedWaiting } extra where
  waiting := h.waiting
  skipped := hheap
  held := h.held
  known r hr := by
    rcases hr with hr | hr | hr | hr
    · exact h.known_running hr
    · exact h.known_waiting hr
    · exact hmem r hr
    · exact h.known_held hr
  entry := h.entry

theorem Ordered.setHeld {q : RequestQueue} (hheap : IsHeap s.key q)
    (hmem : ∀ r ∈ q, r < s.numObjs) : Ordered s q where
  waiting := h.waiting
  skipped := h.skipped
  held := hheap
  known r hr := by
    rcases hr with hr | hr | hr | hr
    · exact h.known_running hr
    · exact h.known_waiting hr
    · exact h.known_skipped hr
    · exact hmem r hr
  entry := h.entry

end

end Scheduler

/-! ## The queue operations under `PRIORITY` -/

namespace RequestQueue

variable {policy : SchedulingPolicy} {lt : Ref → Ref → Bool} {κ : Type} [Preorder κ]
  {key : Ref → κ} {q q' requests : RequestQueue} {r : Ref}

theorem addRequest_isHeap (hpolicy : policy = .priority) (hkey : Heapq.Respects lt key)
    (h : IsHeap key q) (r : Ref) : IsHeap key (addRequest policy lt q r) := by
  subst hpolicy
  exact Heapq.heappush_isHeap hkey h r

theorem prependRequest_isHeap (hpolicy : policy = .priority) (hkey : Heapq.Respects lt key)
    (h : IsHeap key q) (r : Ref) : IsHeap key (prependRequest policy lt q r) := by
  subst hpolicy
  exact Heapq.heappush_isHeap hkey h r

theorem prependRequests_isHeap (requests : RequestQueue) (hpolicy : policy = .priority) (hkey : Heapq.Respects lt key)
    (h : IsHeap key q) : IsHeap key (prependRequests policy lt q requests) := by
  have hfold : ∀ (rs : List Ref) (q : RequestQueue), IsHeap key q →
      IsHeap key (rs.foldl (fun q r => prependRequest policy lt q r) q) := by
    intro rs
    induction rs with
    | nil => exact fun q h => h
    | cons r rs ih => exact fun q h => ih _ (prependRequest_isHeap hpolicy hkey h r)
  exact hfold _ q h

theorem popRequest_isHeap (hpolicy : policy = .priority) (hkey : Heapq.Respects lt key)
    (h : IsHeap key q) (hpop : popRequest policy lt q = .ok q') :
    IsHeap key q' ∧ ∀ r ∈ q', r ∈ q := by
  subst hpolicy
  unfold popRequest at hpop
  dsimp only at hpop
  split at hpop
  · cases hpop
  · rename_i item rest hheap
    cases hpop
    refine ⟨Heapq.heappop_isHeap hkey h hheap, fun r hr => ?_⟩
    exact (Heapq.heappop_perm hheap).2.mem_iff.mpr (mem_cons_of_mem _ hr)

theorem removeRequests_isHeap (hpolicy : policy = .priority) (hkey : Heapq.Respects lt key)
    (q : RequestQueue) (requests : List Ref) : IsHeap key (removeRequests policy lt q requests) := by
  subst hpolicy
  exact Heapq.heapify_isHeap hkey _

theorem mem_of_mem_removeRequests (h : r ∈ removeRequests policy lt q requests) : r ∈ q :=
  mem_of_mem_filter (removeRequests_perm.mem_iff.mp h)

end RequestQueue

namespace Scheduler

variable {cfg : Config} {X : World} {s s' : Scheduler X} {ref : Ref} {extra : RequestQueue}

theorem Ordered.pushWaiting (h : Ordered s extra) (hpolicy : cfg.policy = .priority)
    (href : ref < s.numObjs) :
    Ordered { s with waiting := s.waiting.prependRequest cfg.policy (s.lt cfg) ref } extra := by
  refine h.setWaiting (RequestQueue.prependRequest_isHeap hpolicy (s.respects cfg) h.waiting ref)
    fun r hr => ?_
  rcases mem_cons.mp (RequestQueue.prependRequest_perm.mem_iff.mp hr) with rfl | hr
  · exact href
  · exact h.known_waiting hr

theorem preemptRequest_ordered (h : Ordered s extra) (hpolicy : cfg.policy = .priority)
    (href : ref < s.numObjs) (hrun : s.preemptRequest cfg ref = .ok s') : Ordered s' extra := by
  obtain ⟨⟨⟩, -, hrun⟩ := bind_ok hrun
  obtain ⟨m, -, hrun⟩ := bind_ok hrun
  cases hrun
  have hfreed : Ordered { s with
      world := X.freeKv (s.objs ref) s.world
      encoderCacheManager := m } extra := ⟨h.waiting, h.skipped, h.held, h.known, h.entry⟩
  exact Ordered.pushWaiting (hfreed.modify (f := preempted) rfl) hpolicy href

theorem preemptRequest_running (hrun : s.preemptRequest cfg ref = .ok s') :
    s'.running = s.running ∧ s'.numObjs = s.numObjs := by
  obtain ⟨-, m, world, waiting, -, -, rfl⟩ := preemptRequest_effect hrun
  exact ⟨rfl, rfl⟩

end Scheduler

/-! ## The steps of `schedule` -/

namespace Pass

variable {cfg : Config} {X : World} {p q : Pass X} {ref : Ref} {work : Work}

/-- All heaps of the pass are ordered. -/
abbrev Ordered (p : Pass X) : Prop := p.s.Ordered p.stepSkippedWaiting

theorem EncoderChange.ordered (h : EncoderChange p q) (hp : p.Ordered) : q.Ordered := by
  obtain ⟨m, world, budget, inputs, loads, rfl⟩ := h.eq
  exact ⟨hp.waiting, hp.skipped, hp.held, hp.known, hp.entry⟩

theorem modify_ordered (hp : p.Ordered) {f : Request → Request}
    (hf : (f (p.s.objs ref)).orderKey = (p.s.objs ref).orderKey) : (p.modify ref f).Ordered :=
  Scheduler.Ordered.modify (s := p.s) hp hf

theorem setWorld_ordered (hp : p.Ordered) (world : X.State) : (p.setWorld world).Ordered :=
  ⟨hp.waiting, hp.skipped, hp.held, hp.known, hp.entry⟩

theorem setManager_ordered (hp : p.Ordered) (m : EncoderManager) :
    ({ p with s := { p.s with encoderCacheManager := m } } : Pass X).Ordered :=
  ⟨hp.waiting, hp.skipped, hp.held, hp.known, hp.entry⟩

theorem popVictim_ordered {victim : Ref} (hp : p.Ordered)
    (h : p.popVictim cfg = .ok (victim, q)) : q.Ordered ∧ victim < q.s.numObjs := by
  have herase : ∀ running : List Ref, (∀ r ∈ running, r ∈ p.s.running) →
      Ordered { p with s := { p.s with running } } := fun _ hsub =>
    Scheduler.Ordered.setRunning hp _ fun r hr => hp.known_running (hsub r hr)
  rcases popVictim_effect h with ⟨-, hlast, rfl⟩ | ⟨-, hmem, -, rfl⟩ | ⟨-, hmem, -, hun⟩
  · refine ⟨herase _ fun r hr => mem_of_mem_dropLast hr, hp.known_running ?_⟩
    rw [hlast]
    exact mem_append_right _ mem_cons_self
  · exact ⟨herase _ fun r hr => mem_of_mem_erase hr, hp.known_running hmem⟩
  · obtain ⟨n, k, -, -, rfl⟩ := unschedule_effect hun
    have hq := herase (p.s.running.erase victim) fun r hr => mem_of_mem_erase hr
    exact ⟨⟨hq.waiting, hq.skipped, hq.held, hq.known, hq.entry⟩, hp.known_running hmem⟩

theorem preemptVictim_ordered {victim : Ref} (hpolicy : cfg.policy = .priority) (hp : p.Ordered)
    (hvictim : victim < p.s.numObjs) (h : p.preemptVictim cfg victim = .ok q) : q.Ordered := by
  obtain ⟨s, hpre, h⟩ := bind_ok h
  cases h
  exact Scheduler.preemptRequest_ordered hp hpolicy hvictim hpre

theorem popRequest_ordered {source : Source} (hpolicy : cfg.policy = .priority) (hp : p.Ordered)
    (h : p.popRequest cfg source = .ok q) : q.Ordered := by
  unfold popRequest at h
  obtain ⟨l, hpop, h⟩ := bind_ok h
  cases source with
  | waiting =>
    cases h
    obtain ⟨hheap, hmem⟩ := RequestQueue.popRequest_isHeap hpolicy (p.s.respects cfg) hp.waiting hpop
    exact Scheduler.Ordered.setWaiting hp hheap fun r hr => hp.known_waiting (hmem r hr)
  | skippedWaiting =>
    cases h
    obtain ⟨hheap, hmem⟩ := RequestQueue.popRequest_isHeap hpolicy (p.s.respects cfg) hp.skipped hpop
    exact Scheduler.Ordered.setSkipped hp hheap fun r hr => hp.known_skipped (hmem r hr)

theorem popRequest_numObjs {source : Source} (h : p.popRequest cfg source = .ok q) :
    q.s.numObjs = p.s.numObjs := by
  obtain ⟨l, -, h⟩ := bind_ok h
  cases source <;> cases h <;> rfl

theorem prependSkipped_ordered (hpolicy : cfg.policy = .priority) (hp : p.Ordered)
    (href : ref < p.s.numObjs) : (p.prependSkipped cfg ref).Ordered := by
  refine Scheduler.Ordered.setHeld hp
    (RequestQueue.prependRequest_isHeap hpolicy (p.s.respects cfg) hp.held ref) fun r hr => ?_
  rcases mem_cons.mp (RequestQueue.prependRequest_perm.mem_iff.mp hr) with rfl | hr
  · exact href
  · exact hp.known_held hr

theorem requeueSkipped_ordered (hpolicy : cfg.policy = .priority) (hp : p.Ordered) :
    (p.requeueSkipped cfg).Ordered := by
  have hpush := Scheduler.Ordered.setSkipped hp
    (RequestQueue.prependRequests_isHeap p.stepSkippedWaiting hpolicy
      (p.s.respects cfg) hp.skipped) fun r hr => by
        rcases mem_append.mp (RequestQueue.prependRequests_perm.mem_iff.mp hr) with hr | hr
        · exact hp.known_held hr
        · exact hp.known_skipped hr
  refine Scheduler.Ordered.setHeld hpush (q := []) ?_ fun r hr => nomatch hr
  exact fun c _ _ => Heapq.inOrder_of_length_le (Nat.zero_le c)

end Pass

/-- The waiting request that the iteration is about. -/
def Phase.picked {X : World} : Phase X → Option Ref
  | .waiting _ ref | .waitingReady _ ref | .waitingSkip _ ref | .waitingComputed _ ref _
  | .waitingWork _ ref _ _ | .waitingBlocks _ ref _ _ => some ref
  | _ => none

namespace Pass

variable {cfg : Config} {X : World} {p q : Pass X} {ref : Ref} {work : Work}

/-- The heaps are ordered, and the request of the iteration exists. -/
structure OrderedAt (p : Pass X) (phase : Phase X) : Prop where
  ordered : p.Ordered
  picked : ∀ ref, phase.picked = some ref → ref < p.s.numObjs

variable {phase : Phase X}

theorem Ordered.idle (h : p.Ordered) (hphase : phase.picked = none) :
    OrderedAt p phase := ⟨h, fun ref href => by rw [hphase] at href; cases href⟩

theorem OrderedAt.known (h : OrderedAt p phase) (hphase : phase.picked = some ref) :
    ref < p.s.numObjs := h.picked ref hphase

theorem Ordered.at (h : q.Ordered) (href : ref < q.s.numObjs) (hphase : phase.picked = some ref) :
    OrderedAt q phase := by
  refine ⟨h, fun ref' href' => ?_⟩
  rw [hphase] at href'
  cases href'
  exact href

theorem Ordered.peek {source : Source} (h : p.Ordered)
    (hpeek : (p.queue source).peekRequest cfg.policy = .ok ref) : ref < p.s.numObjs := by
  have hmem : ref ∈ p.queue source := by
    cases hq : p.queue source with
    | nil =>
      rw [hq] at hpeek
      cases hpeek
    | cons r rest =>
      rw [hq] at hpeek
      cases hpeek
      exact mem_cons_self
  cases source with
  | waiting => exact h.known_waiting hmem
  | skippedWaiting => exact h.known_skipped hmem

theorem promote_ordered {promoted : Bool} (hp : p.Ordered)
    (h : p.promote cfg ref = .ok (promoted, q)) : q.Ordered ∧ q.s.numObjs = p.s.numObjs := by
  rcases promote_effect h with ⟨rfl, -⟩ | ⟨-, -, world, finished, failed, r', hr', rfl⟩
  · exact ⟨hp, rfl⟩
  · have hkey : r'.orderKey = (p.s.objs ref).orderKey := by
      rw [hr'.eq]
      rfl
    have hq : (p.modify ref fun _ => r').Ordered := modify_ordered hp hkey
    exact ⟨⟨hq.waiting, hq.skipped, hq.held, hq.known, hq.entry⟩, rfl⟩

theorem getComputed_ordered {computed? : Option (Computed X)} (hp : p.Ordered)
    (h : p.getComputed cfg ref = .ok (computed?, q)) : q.Ordered ∧ q.s.numObjs = p.s.numObjs := by
  obtain ⟨world, n, rfl⟩ := getComputed_effect h
  have hq : (p.modify ref fun r => { r with numExternalComputedTokens := n }).Ordered :=
    modify_ordered hp rfl
  exact ⟨⟨hq.waiting, hq.skipped, hq.held, hq.known, hq.entry⟩, rfl⟩

theorem scheduleRunning_ordered (hp : p.Ordered) (h : p.scheduleRunning cfg ref work = .ok q) :
    q.Ordered := by
  obtain ⟨d, h⟩ := scheduleRunning_effect h
  have hq : (p.modify ref fun r => { r with specTokenIds := [] }).Ordered :=
    modify_ordered hp rfl
  exact (allocateEncoder_effect h).ordered ⟨hq.waiting, hq.skipped, hq.held, hq.known, hq.entry⟩

theorem admit_ordered {computed : Computed X} (hp : p.Ordered) (href : ref < p.s.numObjs)
    (h : p.admitRequest cfg ref computed work = .ok q) : q.Ordered := by
  obtain ⟨new, resumed, loras, -, h⟩ := admitRequest_effect h
  have hmod : (p.modify ref fun r => { r with
      status := .running
      numComputedTokens := computed.numComputedTokens }).Ordered := modify_ordered hp rfl
  have hq := Scheduler.Ordered.setRunning hmod (p.s.running ++ [ref]) fun r hr => by
    rcases mem_append.mp hr with hr | hr
    · exact hp.known_running hr
    · rw [mem_singleton.mp hr]
      exact href
  exact (allocateEncoder_effect h).ordered ⟨hq.waiting, hq.skipped, hq.held, hq.known, hq.entry⟩

section

variable (hpolicy : cfg.policy = .priority)
include hpolicy

theorem startLoad_ordered (hp : p.Ordered) (href : ref < p.s.numObjs) (computed : Computed X) :
    (p.startLoad cfg ref computed).Ordered := by
  have hmod : (p.modify ref fun r => { r with status := .waitingForRemoteKvs }).Ordered :=
    modify_ordered hp rfl
  exact modify_ordered (prependSkipped_ordered hpolicy hmod href) rfl

theorem admitOrLoad_ordered {source : Source} {computed : Computed X} (hp : p.Ordered)
    (href : ref < p.s.numObjs) (h : p.admitOrLoad cfg source ref computed work = .ok q) :
    q.Ordered := by
  unfold admitOrLoad at h
  obtain ⟨p1, hpop, h⟩ := bind_ok h
  have hconn : (p.updateConnector cfg ref computed).Ordered ∧
      (p.updateConnector cfg ref computed).s.numObjs = p.s.numObjs := by
    unfold updateConnector
    split
    · exact ⟨setWorld_ordered hp _, rfl⟩
    · exact ⟨hp, rfl⟩
  have hp1 := popRequest_ordered hpolicy hconn.1 hpop
  have href1 : ref < p1.s.numObjs := by
    rw [popRequest_numObjs hpop, hconn.2]
    exact href
  split at h
  · cases h
    exact startLoad_ordered hpolicy hp1 href1 computed
  · exact admit_ordered hp1 href1 h

theorem Step.ordered {a b : Pass X × Phase X} (h : Step cfg a b) (hp : OrderedAt a.1 a.2) :
    OrderedAt b.1 b.2 := by
  cases h with
  | pickRunning _ => exact hp.ordered.idle rfl
  | endRunning _ => exact hp.ordered.idle rfl
  | passOver _ => exact Ordered.idle hp.ordered rfl
  | planRunning _ hplan _ =>
    obtain ⟨m, rfl⟩ := scheduleEncoderInputs_effect hplan
    exact Ordered.idle (setManager_ordered hp.ordered m) rfl
  | noTokens _ => exact Ordered.idle hp.ordered rfl
  | tryAllocate _ _ =>
    refine (setWorld_ordered hp.ordered _).idle ?_
    split <;> rfl
  | preempt hpop hpre =>
    obtain ⟨hq, hvictim⟩ := popVictim_ordered hp.ordered hpop
    refine (preemptVictim_ordered hpolicy hq hvictim hpre).idle ?_
    split <;> rfl
  | scheduleRunning hrun => exact (scheduleRunning_ordered hp.ordered hrun).idle rfl
  | recordLoras hrec =>
    obtain ⟨loras, rfl⟩ := recordLoras_effect hrec
    refine Ordered.idle hp.ordered ?_
    split <;> rfl
  | pickWaiting _ hpeek => exact hp.ordered.at (hp.ordered.peek hpeek) rfl
  | endWaiting _ => exact hp.ordered.idle rfl
  | promote hpromote =>
    obtain ⟨hq, hnum⟩ := promote_ordered hp.ordered hpromote
    refine hq.at (by rw [hnum]; exact hp.known rfl) ?_
    split <;> rfl
  | noMatchYet hget =>
    obtain ⟨hq, hnum⟩ := getComputed_ordered hp.ordered hget
    exact hq.at (by rw [hnum]; exact hp.known rfl) rfl
  | skip hskip =>
    unfold skipRequest at hskip
    obtain ⟨p1, hpop, hskip⟩ := bind_ok hskip
    cases hskip
    have hp1 := popRequest_ordered hpolicy hp.ordered hpop
    refine (prependSkipped_ordered hpolicy hp1 ?_).idle rfl
    rw [popRequest_numObjs hpop]
    exact hp.known rfl
  | getComputed hget =>
    obtain ⟨hq, hnum⟩ := getComputed_ordered hp.ordered hget
    exact hq.at (by rw [hnum]; exact hp.known rfl) rfl
  | giveUp hplan =>
    obtain ⟨m, rfl⟩ := planWaiting_effect hplan
    exact Ordered.idle (setManager_ordered hp.ordered m) rfl
  | planWaiting hplan =>
    obtain ⟨m, rfl⟩ := planWaiting_effect hplan
    exact Ordered.at (setManager_ordered hp.ordered m) (hp.known rfl) rfl
  | allocateWaiting halloc =>
    obtain ⟨world, rfl⟩ := allocateWaiting_effect halloc
    refine ⟨setWorld_ordered hp.ordered world, fun ref href => ?_⟩
    split at href
    · exact hp.picked ref href
    · cases href
  | untouch hun =>
    obtain ⟨m, rfl⟩ := untouchEncoder_effect hun
    exact Ordered.idle (setManager_ordered hp.ordered m) rfl
  | admitOrLoad hadmit =>
    exact (admitOrLoad_ordered hpolicy hp.ordered (hp.known rfl) hadmit).idle rfl
  | requeue => exact (requeueSkipped_ordered hpolicy hp.ordered).idle rfl

theorem Steps.ordered {a b : Pass X × Phase X} (h : Steps cfg a b) (hp : OrderedAt a.1 a.2) :
    OrderedAt b.1 b.2 := by
  induction h with
  | refl => exact hp
  | tail _ hstep ih => exact hstep.ordered hpolicy ih

end

end Pass

namespace Scheduler

variable {cfg : Config} {X : World} {s s' : Scheduler X} {out : SchedulerOutput}

theorem startPass_ordered (h : s.Ordered []) :
    Pass.OrderedAt (s.startPass cfg) (.runningIdle) :=
  Pass.Ordered.idle ⟨h.waiting, h.skipped, h.held, h.known, h.entry⟩ rfl

theorem updateAfterSchedule_ordered (h : s.Ordered [])
    (hrun : s.updateAfterSchedule cfg out = .ok s') : s'.Ordered [] := by
  unfold updateAfterSchedule at hrun
  obtain ⟨s1, hadvance, hrun⟩ := bind_ok hrun
  have hs1 : s1.Ordered [] := by
    refine foldlM_keeps (P := fun t : Scheduler X => t.Ordered []) ?_ h hadvance
    intro t e _ t' ht hstep
    obtain ⟨ref, m, -, rfl⟩ := advanceRequest_effect hstep
    have hmod : (t.modify ref (advance e.2)).Ordered [] := ht.modify rfl
    exact ⟨hmod.waiting, hmod.skipped, hmod.held, hmod.known, hmod.entry⟩
  dsimp only at hrun
  split at hrun
  · have hs2 : Ordered { s1 with finishedReqIds := ∅ } [] :=
      ⟨hs1.waiting, hs1.skipped, hs1.held, hs1.known, hs1.entry⟩
    refine foldlM_keeps (P := fun t : Scheduler X => t.Ordered []) ?_ hs2 hrun
    intro t e _ t' ht hstep
    obtain ⟨ref, -, rfl⟩ := placeholdersRequest_effect hstep
    refine ht.modify ?_
    unfold addPlaceholders
    split <;> rfl
  · cases hrun
    exact ⟨hs1.waiting, hs1.skipped, hs1.held, hs1.known, hs1.entry⟩

theorem schedule_ordered (hpolicy : cfg.policy = .priority) (h : s.Ordered [])
    (hrun : s.schedule cfg = .ok (out, s')) : s'.Ordered [] := by
  obtain ⟨p, hpass, -, -, -, hafter⟩ := schedule_eq_ok hrun
  have hp := ((runPass_steps hpass).ordered hpolicy (startPass_ordered h)).ordered
  refine updateAfterSchedule_ordered ?_ hafter
  have hnil : p.s.Ordered [] := hp.setHeld
    (fun c _ _ => Heapq.inOrder_of_length_le (Nat.zero_le c)) fun r hr => nomatch hr
  exact ⟨hnil.waiting, hnil.skipped, hnil.held, hnil.known, hnil.entry⟩

end Scheduler

end MyOperator.Sched
