import MyOperator.Sched.Scheduler

/-!
# Where a request is

Of the scheduler's state only this matters here: which requests there are, the status
of each, and who stands in which of `running`, `waiting` and `skipped_waiting`.
`Places.Partition` says that the queues partition the unfinished requests; each lemma
after it is one kind of move: a request changes its queue, requests leave their
queues, a request finishes, an entry is dropped, a request is added.
-/

namespace MyOperator.Sched

open Lib List

/-- `running`, `waiting` and `skipped_waiting`. -/
inductive QueueName
  | running
  | waiting
  | skipped
  deriving DecidableEq, Repr

/-- The statuses that match a queue. -/
def QueueName.Fits : QueueName → RequestStatus → Prop
  | .running, status => status = .running
  | .waiting, status => status = .waiting ∨ status = .preempted
  | .skipped, status => status.isBlockedWaiting ∨ status = .waiting ∨ status = .preempted

theorem QueueName.Fits.unfinished {q : QueueName} {status : RequestStatus} (h : q.Fits status) :
    status.isFinished = false := by
  cases q <;> cases status <;> simp_all [QueueName.Fits, RequestStatus.isFinished,
    RequestStatus.isBlockedWaiting]

theorem QueueName.Fits.eq_running {q : QueueName} {status : RequestStatus} (h : q.Fits status) :
    q = .running ↔ status = .running := by
  cases q <;> cases status <;> simp_all [QueueName.Fits, RequestStatus.isBlockedWaiting]

/-- The requests that there are, and where they are. -/
structure Places where
  reqId : Ref → Nat
  status : Ref → RequestStatus
  requests : Nat → Option Ref
  numObjs : Nat
  queue : QueueName → List Ref

namespace Places

/-- All queues. -/
def queued (v : Places) : List Ref := v.queue .running ++ v.queue .waiting ++ v.queue .skipped

theorem mem_queued {v : Places} {r : Ref} : r ∈ v.queued ↔ ∃ q, r ∈ v.queue q := by
  unfold queued
  rw [mem_append, mem_append]
  constructor
  · rintro ((h | h) | h)
    · exact ⟨_, h⟩
    · exact ⟨_, h⟩
    · exact ⟨_, h⟩
  · rintro ⟨q, h⟩
    cases q with
    | running => exact .inl (.inl h)
    | waiting => exact .inl (.inr h)
    | skipped => exact .inr h

/-- The queues partition the unfinished requests, but for those that are `pending`: out of their
queue and about to be finished. -/
structure Partition (v : Places) (pending : List Ref) : Prop where
  nodup : v.queued.Nodup
  fits : ∀ q, ∀ r ∈ v.queue q, q.Fits (v.status r)
  known : ∀ r ∈ v.queued, v.requests (v.reqId r) = some r
  entry : ∀ id r, v.requests id = some r → v.reqId r = id ∧ r < v.numObjs
  placed : ∀ id r, v.requests id = some r → (v.status r).isFinished = false →
    r ∈ v.queued ∨ r ∈ pending
  pending_nodup : pending.Nodup
  pending_known : ∀ r ∈ pending, r ∉ v.queued ∧ v.requests (v.reqId r) = some r

variable {v w : Places} {pending : List Ref} {q q' : QueueName} {r ref : Ref}

theorem unique_of_nodup (h : v.queued.Nodup) (hr : r ∈ v.queue q) (hr' : r ∈ v.queue q') :
    q = q' := by
  obtain ⟨hab, hc, habc⟩ := nodup_append.mp h
  obtain ⟨-, -, hab⟩ := nodup_append.mp hab
  have hrs : r ∈ v.queue .running → r ∈ v.queue .skipped → False :=
    fun h h' => habc r (mem_append_left _ h) r h' rfl
  have hws : r ∈ v.queue .waiting → r ∈ v.queue .skipped → False :=
    fun h h' => habc r (mem_append_right _ h) r h' rfl
  cases q <;> cases q' <;> first | rfl | (exfalso; tauto)

theorem Partition.queue_nodup (h : v.Partition pending) (q : QueueName) : (v.queue q).Nodup := by
  obtain ⟨hab, hc, -⟩ := nodup_append.mp h.nodup
  obtain ⟨ha, hb, -⟩ := nodup_append.mp hab
  cases q with
  | running => exact ha
  | waiting => exact hb
  | skipped => exact hc

theorem Partition.reqId_inj (h : v.Partition pending) (hr : r ∈ v.queued) (href : ref ∈ v.queued)
    (heq : v.reqId r = v.reqId ref) : r = ref := by
  have hknown := h.known r hr
  rw [heq, h.known ref href] at hknown
  exact (Option.some.inj hknown).symm

/-- The requests and their ids are the same in both. -/
structure SameRequests (v w : Places) : Prop where
  reqId : w.reqId = v.reqId
  requests : w.requests = v.requests
  numObjs : w.numObjs = v.numObjs

/-- The queues hold the same requests as before, each where it fits. -/
theorem Partition.of_perm (h : v.Partition pending) (hsame : SameRequests v w)
    (hperm : w.queued.Perm v.queued) (hfits : ∀ q, ∀ r ∈ w.queue q, q.Fits (w.status r))
    (hunf : ∀ r, (w.status r).isFinished = false → r ∈ w.queued ∨ w.status r = v.status r) :
    w.Partition pending := by
  refine ⟨hperm.nodup_iff.mpr h.nodup, hfits, ?_, ?_, ?_, h.pending_nodup, ?_⟩
  · intro r hr
    rw [hsame.requests, hsame.reqId]
    exact h.known r (hperm.mem_iff.mp hr)
  · rw [hsame.requests, hsame.reqId, hsame.numObjs]
    exact h.entry
  · intro id r hr hfin
    rcases hunf r hfin with hin | hstatus
    · exact .inl hin
    · rw [hperm.mem_iff]
      exact h.placed id r (by rw [← hsame.requests, hr]) (hstatus ▸ hfin)
  · intro r hr
    rw [hperm.mem_iff, hsame.requests, hsame.reqId]
    exact h.pending_known r hr

theorem Partition.relocate (h : v.Partition pending) (hsame : SameRequests v w)
    (hstatus : ∀ r, r ≠ ref → w.status r = v.status r) (hperm : w.queued.Perm v.queued)
    (hq : ref ∈ w.queue q) (hfit : q.Fits (w.status ref))
    (hothers : ∀ q r, r ∈ w.queue q → r ≠ ref → r ∈ v.queue q) : w.Partition pending := by
  refine h.of_perm hsame hperm (fun q' r hr => ?_) (fun r _ => ?_)
  · by_cases heq : r = ref
    · subst heq
      rw [unique_of_nodup (hperm.nodup_iff.mpr h.nodup) hr hq]
      exact hfit
    · rw [hstatus r heq]
      exact h.fits q' r (hothers q' r hr heq)
  · by_cases heq : r = ref
    · exact .inl (mem_queued.mpr ⟨q, heq ▸ hq⟩)
    · exact .inr (hstatus r heq)

theorem Partition.reorder (h : v.Partition pending) (hsame : SameRequests v w)
    (hstatus : w.status = v.status) (hperm : ∀ q, (w.queue q).Perm (v.queue q)) :
    w.Partition pending := by
  refine h.of_perm hsame (((hperm _).append (hperm _)).append (hperm _)) (fun q r hr => ?_)
    fun r _ => .inr (congrFun hstatus r)
  rw [hstatus]
  exact h.fits q r ((hperm q).mem_iff.mp hr)

/-- One queue has a request more. -/
theorem queued_perm_cons (hq : (w.queue q).Perm (ref :: v.queue q))
    (hothers : ∀ q', q' ≠ q → (w.queue q').Perm (v.queue q')) :
    w.queued.Perm (ref :: v.queued) := by
  unfold queued
  cases q with
  | running => exact (hq.append (hothers .waiting (by decide))).append (hothers .skipped (by decide))
  | waiting =>
    exact (((hothers .running (by decide)).append hq).trans perm_middle).append
      (hothers .skipped (by decide))
  | skipped =>
    exact (((hothers .running (by decide)).append (hothers .waiting (by decide))).append hq).trans
      perm_middle

theorem filter_not_singleton {l : List Ref} (h : ref ∉ l) : l.filter (· ∉ [ref]) = l := by
  refine filter_eq_self.mpr fun r hr => ?_
  simp only [mem_singleton, decide_eq_true_eq]
  exact fun heq => h (heq ▸ hr)

theorem perm_filter_singleton {l : List Ref} (hl : l.Nodup) (h : ref ∈ l) :
    l.Perm (ref :: l.filter (· ∉ [ref])) := by
  have herase : l.filter (· ∉ [ref]) = l.erase ref := by
    rw [hl.erase_eq_filter]
    refine filter_congr fun r _ => ?_
    grind
  rw [herase]
  exact perm_cons_erase h

/-- A queued request leaves its queue for the queue `q`. -/
theorem Partition.move (h : v.Partition pending) (hsame : SameRequests v w)
    (hstatus : ∀ r, r ≠ ref → w.status r = v.status r) (href : ref ∈ v.queued)
    (hq : (w.queue q).Perm (ref :: (v.queue q).filter (· ∉ [ref])))
    (hothers : ∀ q', q' ≠ q → (w.queue q').Perm ((v.queue q').filter (· ∉ [ref])))
    (hfit : q.Fits (w.status ref)) : w.Partition pending := by
  have hperm : w.queued.Perm v.queued := by
    refine (queued_perm_cons
      (v := { v with queue := fun q => (v.queue q).filter (· ∉ [ref]) }) hq hothers).trans ?_
    unfold queued
    rw [← filter_append, ← filter_append]
    exact (perm_filter_singleton h.nodup href).symm
  refine h.relocate hsame hstatus hperm (hq.mem_iff.mpr mem_cons_self) hfit fun q' r hr hne => ?_
  by_cases heq : q' = q
  · subst heq
    exact mem_of_mem_filter ((mem_cons.mp (hq.mem_iff.mp hr)).resolve_left hne)
  · exact mem_of_mem_filter ((hothers q' heq).mem_iff.mp hr)

theorem Partition.leave (h : v.Partition []) (hsame : SameRequests v w)
    (hstatus : w.status = v.status) {refs : List Ref} (hrefs : refs.Nodup)
    (hknown : ∀ r ∈ refs, v.requests (v.reqId r) = some r)
    (hperm : ∀ q, (w.queue q).Perm ((v.queue q).filter (· ∉ refs))) : w.Partition refs := by
  have hqueued : w.queued.Perm (v.queued.filter (· ∉ refs)) := by
    unfold queued
    rw [filter_append, filter_append]
    exact ((hperm _).append (hperm _)).append (hperm _)
  have hmem : ∀ r, r ∈ w.queued ↔ r ∈ v.queued ∧ r ∉ refs := by
    intro r
    rw [hqueued.mem_iff, mem_filter, decide_eq_true_eq]
  refine ⟨hqueued.nodup_iff.mpr (h.nodup.filter _), ?_, ?_, ?_, ?_, hrefs, ?_⟩
  · intro q r hr
    rw [hstatus]
    exact h.fits q r (mem_of_mem_filter ((hperm q).mem_iff.mp hr))
  · intro r hr
    rw [hsame.requests, hsame.reqId]
    exact h.known r ((hmem r).mp hr).1
  · rw [hsame.requests, hsame.reqId, hsame.numObjs]
    exact h.entry
  · rw [hsame.requests, hstatus]
    intro id r hr hunf
    by_cases href : r ∈ refs
    · exact .inr href
    · rcases h.placed id r hr hunf with hin | hin
      · exact .inl ((hmem r).mpr ⟨hin, href⟩)
      · cases hin
  · intro r hr
    refine ⟨fun hin => ((hmem r).mp hin).2 hr, ?_⟩
    rw [hsame.requests, hsame.reqId]
    exact hknown r hr

theorem Partition.finish (h : v.Partition (ref :: pending)) (hreqId : w.reqId = v.reqId)
    (hnum : w.numObjs = v.numObjs) (hqueue : w.queue = v.queue)
    (hstatus : ∀ r, r ≠ ref → w.status r = v.status r) (hfin : (w.status ref).isFinished = true)
    (hreq : w.requests = v.requests ∨
      ∀ id, w.requests id = if id = v.reqId ref then none else v.requests id) :
    w.Partition pending := by
  have hqueued : w.queued = v.queued := by
    unfold queued
    rw [hqueue]
  obtain ⟨hout, hknown⟩ := h.pending_known ref mem_cons_self
  obtain ⟨hnotin, hnodup⟩ := nodup_cons.mp h.pending_nodup
  -- an entry that is left was there before, and the other requests keep theirs
  have hsub : ∀ id r, w.requests id = some r → v.requests id = some r := by
    intro id r hr
    rcases hreq with heq | heq
    · rw [← heq]
      exact hr
    · rw [heq] at hr
      split at hr
      · cases hr
      · exact hr
  have hkeep : ∀ r, r ≠ ref → v.requests (v.reqId r) = some r →
      w.requests (v.reqId r) = some r := by
    intro r hne hr
    rcases hreq with heq | heq
    · rw [heq]
      exact hr
    · rw [heq, if_neg]
      · exact hr
      · intro hid
        rw [hid, hknown] at hr
        exact hne (Option.some.inj hr).symm
  refine ⟨hqueued ▸ h.nodup, ?_, ?_, ?_, ?_, hnodup, ?_⟩
  · intro q r hr
    rw [hqueue] at hr
    rw [hstatus r (fun heq => hout (heq ▸ mem_queued.mpr ⟨q, hr⟩))]
    exact h.fits q r hr
  · intro r hr
    rw [hqueued] at hr
    rw [hreqId]
    exact hkeep r (fun heq => hout (heq ▸ hr)) (h.known r hr)
  · intro id r hr
    rw [hreqId, hnum]
    exact h.entry id r (hsub id r hr)
  · intro id r hr hunf
    rw [hqueued]
    have hne : r ≠ ref := by
      intro heq
      rw [heq, hfin] at hunf
      cases hunf
    rw [hstatus r hne] at hunf
    rcases h.placed id r (hsub id r hr) hunf with hin | hin
    · exact .inl hin
    · exact .inr ((mem_cons.mp hin).resolve_left hne)
  · intro r hr
    rw [hqueued, hreqId]
    obtain ⟨hout', hknown'⟩ := h.pending_known r (mem_cons_of_mem _ hr)
    exact ⟨hout', hkeep r (fun heq => hnotin (heq ▸ hr)) hknown'⟩

theorem Partition.drop (h : v.Partition []) (id : Nat) (hreqId : w.reqId = v.reqId)
    (hnum : w.numObjs = v.numObjs) (hqueue : w.queue = v.queue) (hstatus : w.status = v.status)
    (href : v.requests id = some ref) (hfin : (v.status ref).isFinished = true)
    (hreq : ∀ id', w.requests id' = if id' = id then none else v.requests id') :
    w.Partition [] := by
  have hqueued : w.queued = v.queued := by
    unfold queued
    rw [hqueue]
  have hsub : ∀ id r, w.requests id = some r → v.requests id = some r := by
    intro id r hr
    rw [hreq] at hr
    split at hr
    · cases hr
    · exact hr
  refine ⟨hqueued ▸ h.nodup, ?_, ?_, ?_, ?_, .nil, fun r hr => (nomatch hr)⟩
  · rw [hqueue, hstatus]
    exact h.fits
  · intro r hr
    rw [hqueued] at hr
    have hknown := h.known r hr
    rw [hreqId, hreq, if_neg]
    · exact hknown
    · intro hid
      rw [hid, href] at hknown
      cases hknown
      obtain ⟨q, hq⟩ := mem_queued.mp hr
      rw [(h.fits q ref hq).unfinished] at hfin
      cases hfin
  · intro id r hr
    rw [hreqId, hnum]
    exact h.entry id r (hsub id r hr)
  · intro id r hr hunf
    rw [hqueued]
    rw [hstatus] at hunf
    exact h.placed id r (hsub id r hr) hunf

theorem Partition.add (h : v.Partition []) {id : Nat} (hnew : v.requests id = none)
    (hnum : w.numObjs = v.numObjs + 1) (hreqId : w.reqId v.numObjs = id)
    (hreq : ∀ id', w.requests id' = if id' = id then some v.numObjs else v.requests id')
    (hold : ∀ r, r ≠ v.numObjs → w.reqId r = v.reqId r ∧ w.status r = v.status r)
    (hq : (w.queue q).Perm (v.numObjs :: v.queue q)) (hfit : q.Fits (w.status v.numObjs))
    (hothers : ∀ q', q' ≠ q → w.queue q' = v.queue q') : w.Partition [] := by
  have hlt : ∀ r ∈ v.queued, r ≠ v.numObjs := by
    intro r hr
    exact Nat.ne_of_lt (h.entry _ r (h.known r hr)).2
  have hqueued : w.queued.Perm (v.numObjs :: v.queued) :=
    queued_perm_cons hq fun q' hne => .of_eq (hothers q' hne)
  have hmem : ∀ r, r ∈ w.queued ↔ r = v.numObjs ∨ r ∈ v.queued := by
    intro r
    rw [hqueued.mem_iff, mem_cons]
  refine ⟨hqueued.nodup_iff.mpr (nodup_cons.mpr ⟨fun hin => hlt _ hin rfl, h.nodup⟩),
    ?_, ?_, ?_, ?_, .nil, fun r hr => (nomatch hr)⟩
  · intro q' r hr
    by_cases heq : q' = q
    · subst heq
      rcases mem_cons.mp (hq.mem_iff.mp hr) with rfl | hr
      · exact hfit
      · rw [(hold r (hlt r (mem_queued.mpr ⟨_, hr⟩))).2]
        exact h.fits q' r hr
    · rw [hothers q' heq] at hr
      rw [(hold r (hlt r (mem_queued.mpr ⟨_, hr⟩))).2]
      exact h.fits q' r hr
  · intro r hr
    rcases (hmem r).mp hr with rfl | hr
    · rw [hreqId, hreq, if_pos rfl]
    · have hknown := h.known r hr
      rw [(hold r (hlt r hr)).1, hreq, if_neg]
      · exact hknown
      · intro hid
        rw [hid, hnew] at hknown
        cases hknown
  · intro id' r hr
    rw [hreq] at hr
    split at hr
    · rename_i hid
      cases hr
      rw [hnum]
      exact ⟨hreqId.trans hid.symm, Nat.lt_succ_self _⟩
    · obtain ⟨hid, hlt'⟩ := h.entry id' r hr
      rw [(hold r (Nat.ne_of_lt hlt')).1, hnum]
      exact ⟨hid, Nat.lt_succ_of_lt hlt'⟩
  · intro id' r hr hunf
    rw [hmem]
    rw [hreq] at hr
    split at hr
    · cases hr
      exact .inl (.inl rfl)
    · have hne : r ≠ v.numObjs := Nat.ne_of_lt (h.entry id' r hr).2
      rw [(hold r hne).2] at hunf
      rcases h.placed id' r hr hunf with hin | hin
      · exact .inl (.inr hin)
      · cases hin

end Places

end MyOperator.Sched
