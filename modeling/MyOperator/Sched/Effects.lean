import MyOperator.Sched.Schedule

/-!
# What the parts of `schedule` change

One lemma per function: the state after it, as the state before with the attributes
that it assigns. The proofs about `schedule` use these and do not unfold the functions
again.
-/

namespace MyOperator.Sched

open Lib List Function
open KvCache (assert assert_eq_ok)

namespace Scheduler

variable {cfg : Config} {X : World} {s s' : Scheduler X} {ref : Ref}

@[simp] theorem modify_self (f : Request → Request) :
    (s.modify ref f).objs ref = f (s.objs ref) := update_self ..

theorem modify_of_ne {r : Ref} (f : Request → Request) (h : r ≠ ref) :
    (s.modify ref f).objs r = s.objs r := update_of_ne h ..

theorem modify_eq_self {f : Request → Request} (h : f (s.objs ref) = s.objs ref) :
    s.modify ref f = s := by
  unfold modify
  rw [h, update_eq_self]

theorem modify_congr {f g : Request → Request} (h : f (s.objs ref) = g (s.objs ref)) :
    s.modify ref f = s.modify ref g := by
  unfold modify
  rw [h]

theorem modify_modify (f g : Request → Request) :
    (s.modify ref f).modify ref g = s.modify ref (g ∘ f) := by
  unfold modify
  dsimp only
  rw [update_self, update_idem]
  rfl

theorem preemptRequest_effect (h : s.preemptRequest cfg ref = .ok s') :
    (s.objs ref).status = .running ∧ ∃ encoderCacheManager world waiting,
      s.encoderCacheManager.free cfg.setOrder (s.objs ref) = .ok encoderCacheManager ∧
      waiting.Perm (ref :: s.waiting) ∧
      s' = { s.modify ref preempted with encoderCacheManager, world, waiting } := by
  obtain ⟨⟨⟩, hrunning, h⟩ := bind_ok h
  obtain ⟨m, hfree, h⟩ := bind_ok h
  cases h
  exact ⟨of_decide_eq_true (assert_eq_ok.mp hrunning), m, _, _, hfree,
    RequestQueue.prependRequest_perm, rfl⟩

end Scheduler

namespace Pass

variable {cfg : Config} {X : World} {p q : Pass X} {ref victim : Ref} {work : Work}

/-! ## Encoder inputs -/

theorem scheduleEncoderInputs_effect {numComputedTokens numNewTokens : Int}
    (h : p.scheduleEncoderInputs cfg ref numComputedTokens numNewTokens = .ok (work, q)) :
    ∃ encoderCacheManager, q = { p with s := { p.s with encoderCacheManager } } := by
  unfold scheduleEncoderInputs at h
  dsimp only at h
  split at h
  · obtain ⟨plan, -, h⟩ := bind_ok h
    cases h
    exact ⟨plan.manager, rfl⟩
  · cases h
    exact ⟨_, rfl⟩

theorem allocateEncoderInput_effect {i : Nat} (h : p.allocateEncoderInput cfg ref i = .ok q) :
    ∃ encoderCacheManager world,
      p.s.encoderCacheManager.allocate (p.s.objs ref) i = .ok encoderCacheManager ∧
      q = { p with s := { p.s with encoderCacheManager, world } } := by
  obtain ⟨m, halloc, h⟩ := bind_ok h
  cases h
  exact ⟨m, _, halloc, rfl⟩

theorem allocateExternalLoad_effect {i : Nat} (h : p.allocateExternalLoad cfg ref i = .ok q) :
    ∃ encoderCacheManager world f,
      p.s.encoderCacheManager.allocate (p.s.objs ref) i = .ok encoderCacheManager ∧
      (p.s.objs ref).mmFeature i = .ok f ∧ q = { p with
        s := { p.s with encoderCacheManager, world }
        externalLoads := p.externalLoads ++ [f.identifier] } := by
  obtain ⟨p1, halloc, h⟩ := bind_ok h
  obtain ⟨f, hf, h⟩ := bind_ok h
  obtain ⟨m, world, hm, rfl⟩ := allocateEncoderInput_effect halloc
  cases h
  exact ⟨m, world, f, hm, hf, rfl⟩

/-- The attributes that the encoder inputs of a step live in. -/
structure EncoderChange (p q : Pass X) : Prop where
  eq : ∃ encoderCacheManager world encoderComputeBudget scheduledEncoderInputs externalLoads,
    q = { p with
      s := { p.s with encoderCacheManager, world }
      encoderComputeBudget
      scheduledEncoderInputs
      externalLoads }

theorem EncoderChange.refl (p : Pass X) : EncoderChange p p := ⟨_, _, _, _, _, rfl⟩

theorem EncoderChange.trans {r : Pass X} (h : EncoderChange p q) (h' : EncoderChange q r) :
    EncoderChange p r := by
  obtain ⟨_, _, _, _, _, rfl⟩ := h.eq
  obtain ⟨_, _, _, _, _, rfl⟩ := h'.eq
  exact ⟨_, _, _, _, _, rfl⟩

theorem EncoderChange.foldlM {f : Pass X → Nat → Except PyError (Pass X)}
    (hf : ∀ p i q, f p i = .ok q → EncoderChange p q) {ids : List Nat}
    (h : ids.foldlM f p = .ok q) : EncoderChange p q :=
  foldlM_keeps (P := EncoderChange p) (fun _ _ _ _ hp hstep => hp.trans (hf _ _ _ hstep)) (.refl p) h

theorem allocateEncoder_effect (h : p.allocateEncoder cfg ref work = .ok q) :
    EncoderChange p q := by
  obtain ⟨p1, hinputs, h⟩ := bind_ok h
  have hp1 : EncoderChange p p1 := by
    split at hinputs
    · cases hinputs
      exact .refl p
    · obtain ⟨p2, hfold, hinputs⟩ := bind_ok hinputs
      cases hinputs
      have hstart : EncoderChange p { p with
          scheduledEncoderInputs := p.scheduledEncoderInputs.set (p.s.objs ref).requestId
            work.encoderInputsToSchedule } := ⟨_, _, _, _, _, rfl⟩
      refine (hstart.trans (.foldlM ?_ hfold)).trans ⟨_, _, _, _, _, rfl⟩
      intro p i q hstep
      obtain ⟨m, world, -, rfl⟩ := allocateEncoderInput_effect hstep
      exact ⟨_, _, _, _, _, rfl⟩
  refine hp1.trans (.foldlM ?_ h)
  intro p i q hstep
  obtain ⟨m, world, f, -, -, rfl⟩ := allocateExternalLoad_effect hstep
  exact ⟨_, _, _, _, _, rfl⟩

theorem untouchEncoder_effect (h : p.untouchEncoder cfg ref = .ok q) :
    ∃ encoderCacheManager, q = { p with s := { p.s with encoderCacheManager } } := by
  unfold untouchEncoder at h
  split at h
  · obtain ⟨m, -, h⟩ := bind_ok h
    cases h
    exact ⟨m, rfl⟩
  · cases h
    exact ⟨_, rfl⟩

/-! ## The running requests -/

theorem maxByPriority_mem {objs : Ref → Request} {l : List Ref}
    (h : maxByPriority objs l = some victim) : victim ∈ l := by
  cases l with
  | nil => cases h
  | cons a l =>
    have hfold : ∀ (l : List Ref) (best : Ref), l.foldl (fun best ref =>
          if (objs best).priority < (objs ref).priority ∨ ((objs best).priority = (objs ref).priority ∧
            (objs best).arrivalTime < (objs ref).arrivalTime)
          then ref else best) best ∈ best :: l := by
      intro l
      induction l with
      | nil => exact fun best => mem_cons_self
      | cons b l ih =>
        intro best
        rw [foldl_cons]
        split
        · exact mem_cons_of_mem _ (ih b)
        · rcases mem_cons.mp (ih best) with heq | hmem
          · exact mem_cons.mpr (.inl heq)
          · exact mem_cons_of_mem _ (mem_cons_of_mem _ hmem)
    cases h
    exact hfold l a

theorem unschedule_effect (h : p.unschedule victim = .ok q) :
    ∃ numTokens numEmbeds,
      p.numScheduledTokens.get? (p.s.objs victim).requestId = some numTokens ∧
      ((p.scheduledEncoderInputs.get? (p.s.objs victim).requestId).getD []).foldlM (fun sum i => do
        let n ← (p.s.objs victim).getNumEncoderEmbeds i
        .ok (sum + n)) 0 = (.ok numEmbeds : Except PyError Nat) ∧ q = { p with
        encoderComputeBudget := p.encoderComputeBudget + numEmbeds
        scheduledRunningReqs := p.scheduledRunningReqs.erase victim
        tokenBudget := p.tokenBudget + numTokens
        numScheduledTokens := p.numScheduledTokens.erase (p.s.objs victim).requestId
        scheduledSpecDecodeTokens := p.scheduledSpecDecodeTokens.erase (p.s.objs victim).requestId
        scheduledEncoderInputs := p.scheduledEncoderInputs.erase (p.s.objs victim).requestId
        reqIndex := p.reqIndex - 1 } := by
  unfold unschedule at h
  dsimp only at h
  split at h
  · cases h
  · rename_i numTokens hget
    obtain ⟨n, hn, h⟩ := bind_ok h
    cases h
    exact ⟨numTokens, n, hget, hn, rfl⟩

/-- The victim is taken out of `running`, and out of the step if it was scheduled. Under `fcfs`
it is the last of the running requests. -/
theorem popVictim_effect (h : p.popVictim cfg = .ok (victim, q)) :
    (cfg.policy = .fcfs ∧ p.s.running = p.s.running.dropLast ++ [victim] ∧
      q = { p with s := { p.s with running := p.s.running.dropLast } }) ∨
    (cfg.policy = .priority ∧ victim ∈ p.s.running ∧ victim ∉ p.scheduledRunningReqs ∧
      q = { p with s := { p.s with running := p.s.running.erase victim } }) ∨
    (cfg.policy = .priority ∧ victim ∈ p.s.running ∧ victim ∈ p.scheduledRunningReqs ∧
      ({ p with s := { p.s with running := p.s.running.erase victim } } : Pass X).unschedule victim =
        .ok q) := by
  unfold popVictim at h
  split at h
  · rename_i hpolicy
    split at h
    · cases h
    · rename_i victim' hmax
      obtain ⟨p1, hun, h⟩ := bind_ok h
      cases h
      have hmem := maxByPriority_mem hmax
      split at hun
      · rename_i hsched
        exact .inr (.inr ⟨hpolicy, hmem, hsched, hun⟩)
      · rename_i hsched
        cases hun
        exact .inr (.inl ⟨hpolicy, hmem, hsched, rfl⟩)
  · rename_i hpolicy
    split at h
    · cases h
    · rename_i victim' hlast
      cases h
      refine .inl ⟨hpolicy, ?_, rfl⟩
      obtain ⟨l, hl⟩ := getLast?_eq_some_iff.mp hlast
      rw [hl, dropLast_concat]

theorem popVictim_max (hpolicy : cfg.policy = .priority) (h : p.popVictim cfg = .ok (victim, q)) :
    maxByPriority p.s.objs p.s.running = some victim := by
  unfold popVictim at h
  simp only [hpolicy] at h
  cases hmax : maxByPriority p.s.objs p.s.running with
  | none =>
    simp only [hmax] at h
    cases h
  | some v =>
    simp only [hmax] at h
    obtain ⟨p1, -, h1⟩ := bind_ok h
    rw [(Prod.mk.inj (Except.ok.inj h1)).1]

theorem preemptVictim_effect (h : p.preemptVictim cfg victim = .ok q) :
    (p.s.objs victim).status = .running ∧ ∃ encoderCacheManager world waiting,
      p.s.encoderCacheManager.free cfg.setOrder (p.s.objs victim) = .ok encoderCacheManager ∧
      waiting.Perm (victim :: p.s.waiting) ∧ q = { p with
        s := { p.s.modify victim Scheduler.preempted with encoderCacheManager, world, waiting }
        preemptedReqs := p.preemptedReqs ++ [victim] } := by
  obtain ⟨s, hpre, h⟩ := bind_ok h
  cases h
  obtain ⟨hrunning, m, world, waiting, hfree, hperm, rfl⟩ := Scheduler.preemptRequest_effect hpre
  exact ⟨hrunning, m, world, waiting, hfree, hperm, rfl⟩

/-- The drafts whose positions are in the step are recorded, if there are any. -/
theorem scheduleSpecTokens_eq (p : Pass X) (ref : Ref) (numNewTokens : Int) :
    p.scheduleSpecTokens ref numNewTokens = ({ p with
        scheduledSpecDecodeTokens :=
          let drafts := (p.s.objs ref).specTokenIds.take (numNewTokens +
            (p.s.objs ref).numComputedTokens - (p.s.objs ref).numTokens -
            (p.s.objs ref).numOutputPlaceholders).toNat
          if drafts = [] then p.scheduledSpecDecodeTokens
          else p.scheduledSpecDecodeTokens.set (p.s.objs ref).requestId drafts } : Pass X).modify
        ref fun r => { r with specTokenIds := [] } := by
  unfold scheduleSpecTokens
  dsimp only
  split
  · rename_i hnil
    rw [hnil, take_nil, if_pos rfl]
    have hself : p.s.modify ref (fun r => { r with specTokenIds := [] }) = p.s := by
      refine Scheduler.modify_eq_self ?_
      rw [← hnil]
    unfold modify
    rw [hself]
  · rename_i hne
    split
    · rw [if_neg]
      intro htake
      rcases take_eq_nil_iff.mp htake with hzero | hnil
      · omega
      · exact hne hnil
    · have hzero : (numNewTokens + (p.s.objs ref).numComputedTokens - (p.s.objs ref).numTokens -
          (p.s.objs ref).numOutputPlaceholders).toNat = 0 := by omega
      rw [hzero, take_zero, if_pos rfl]

theorem scheduleSpecTokens_effect (p : Pass X) (ref : Ref) (numNewTokens : Int) :
    ∃ scheduledSpecDecodeTokens, p.scheduleSpecTokens ref numNewTokens =
      ({ p with scheduledSpecDecodeTokens } : Pass X).modify ref
        fun r => { r with specTokenIds := [] } := ⟨_, scheduleSpecTokens_eq p ref numNewTokens⟩

theorem scheduleRunning_effect (h : p.scheduleRunning cfg ref work = .ok q) :
    ∃ scheduledSpecDecodeTokens, (({ p with
        scheduledRunningReqs := p.scheduledRunningReqs ++ [ref]
        numScheduledTokens := p.numScheduledTokens.set (p.s.objs ref).requestId work.numNewTokens
        tokenBudget := p.tokenBudget - work.numNewTokens
        reqIndex := p.reqIndex + 1
        scheduledSpecDecodeTokens } : Pass X).modify ref fun r =>
          { r with specTokenIds := [] }).allocateEncoder cfg ref work = .ok q := by
  unfold scheduleRunning at h
  dsimp only at h
  obtain ⟨d, heq⟩ := scheduleSpecTokens_effect { p with
    scheduledRunningReqs := p.scheduledRunningReqs ++ [ref]
    numScheduledTokens := p.numScheduledTokens.set (p.s.objs ref).requestId work.numNewTokens
    tokenBudget := p.tokenBudget - work.numNewTokens
    reqIndex := p.reqIndex + 1 } ref work.numNewTokens
  rw [heq] at h
  exact ⟨d, h⟩

theorem recordLoras_effect (h : p.recordLoras cfg = .ok q) :
    ∃ scheduledLoras, q = { p with scheduledLoras } := by
  unfold recordLoras at h
  split at h
  · cases h
    exact ⟨_, rfl⟩
  · obtain ⟨⟨⟩, -, h⟩ := bind_ok h
    cases h
    exact ⟨_, rfl⟩

/-! ## The waiting requests -/

/-- The queue after its head was taken. -/
def withQueue (p : Pass X) : Source → RequestQueue → Pass X
  | .waiting, l => { p with s := { p.s with waiting := l } }
  | .skippedWaiting, l => { p with s := { p.s with skippedWaiting := l } }

variable {source : Source} {computed : Computed X}

theorem popRequest_effect (hpeek : (p.queue source).peekRequest cfg.policy = .ok ref)
    (h : p.popRequest cfg source = .ok q) :
    ∃ l, (p.queue source).Perm (ref :: l) ∧ q = p.withQueue source l := by
  obtain ⟨l, hpop, h⟩ := bind_ok h
  refine ⟨l, RequestQueue.popRequest_perm hpeek hpop, ?_⟩
  cases source with
  | waiting =>
    cases h
    rfl
  | skippedWaiting =>
    cases h
    rfl

theorem skipRequest_effect (hpeek : (p.queue source).peekRequest cfg.policy = .ok ref)
    (h : p.skipRequest cfg source ref = .ok q) :
    ∃ l stepSkippedWaiting, (p.queue source).Perm (ref :: l) ∧
      stepSkippedWaiting.Perm (ref :: p.stepSkippedWaiting) ∧
      q = { p.withQueue source l with stepSkippedWaiting } := by
  obtain ⟨p1, hpop, h⟩ := bind_ok h
  cases h
  obtain ⟨l, hperm, rfl⟩ := popRequest_effect hpeek hpop
  refine ⟨l, (p.stepSkippedWaiting.prependRequest cfg.policy ((p.withQueue source l).s.lt cfg) ref),
    hperm, RequestQueue.prependRequest_perm, ?_⟩
  cases source <;> rfl

/-- What is known of a request that was promoted: its new status, and that a load that just ended
may have moved `num_computed_tokens` back by one. -/
structure Promotes (cfg : Config) (r r' : Request) : Prop where
  status : r'.status = .waiting ∨ r'.status = .preempted
  eq : r' = { r with status := r'.status, numComputedTokens := r'.numComputedTokens }
  numComputedTokens : cfg.hasConnector = false → r'.numComputedTokens = r.numComputedTokens

/-- The blocks of a request were received: its count changes, and the lists of ids. -/
structure Received (ref : Ref) (p q : Pass X) : Prop where
  eq : ∃ world finishedRecvingKvReqIds failedRecvingKvReqIds numComputedTokens, q = { p with
    s := { p.s.modify ref (fun r => { r with numComputedTokens }) with
      world, finishedRecvingKvReqIds, failedRecvingKvReqIds } }

theorem Received.of_same (p : Pass X) (ref : Ref) (world : X.State)
    (finishedRecvingKvReqIds failedRecvingKvReqIds : Finset Nat) : Received ref p
      { p with s := { p.s with world, finishedRecvingKvReqIds, failedRecvingKvReqIds } } := by
  refine ⟨world, finishedRecvingKvReqIds, failedRecvingKvReqIds,
    (p.s.objs ref).numComputedTokens, ?_⟩
  rw [Scheduler.modify_eq_self rfl]

theorem Received.promoted (h : Received ref p q) (hconn : cfg.hasConnector = true) :
    ∃ world finishedRecvingKvReqIds failedRecvingKvReqIds r', Promotes cfg (p.s.objs ref) r' ∧
      q.modify ref (fun r => { r with
          status := if r.numPreemptions ≠ 0 then .preempted else .waiting }) =
        { p with s := { p.s.modify ref (fun _ => r') with
          world, finishedRecvingKvReqIds, failedRecvingKvReqIds } } := by
  obtain ⟨world, finished, failed, n, rfl⟩ := h.eq
  refine ⟨world, finished, failed, { p.s.objs ref with
    numComputedTokens := n
    status := if (p.s.objs ref).numPreemptions ≠ 0 then .preempted else .waiting },
    ⟨?_, rfl, fun hno => ?_⟩, ?_⟩
  · dsimp only
    split
    · exact .inr rfl
    · exact .inl rfl
  · rw [hconn] at hno
    cases hno
  · unfold modify Scheduler.modify
    dsimp only
    rw [update_self, update_idem]

theorem updateWaitingForRemoteKv_effect (h : p.updateWaitingForRemoteKv cfg ref = .ok q) :
    cfg.hasConnector = true ∧ Received ref p q := by
  obtain ⟨⟨⟩, hconn, h⟩ := bind_ok h
  refine ⟨assert_eq_ok.mp hconn, ?_⟩
  cases h
  split
  · exact .of_same p ref _ _ _
  · have hcongr : p.s.modify ref (fun r => if r.numComputedTokens = r.numTokens then
        { r with numComputedTokens := r.numTokens - 1 } else r) =
      p.s.modify ref (fun r => { r with numComputedTokens :=
        if (p.s.objs ref).numComputedTokens = (p.s.objs ref).numTokens then
          (p.s.objs ref).numTokens - 1 else (p.s.objs ref).numComputedTokens }) := by
      refine Scheduler.modify_congr ?_
      split <;> rfl
    refine ⟨X.cacheBlocks (p.s.objs ref) (p.s.objs ref).numComputedTokens p.s.world,
      p.s.finishedRecvingKvReqIds.erase (p.s.objs ref).requestId, p.s.failedRecvingKvReqIds,
      if (p.s.objs ref).numComputedTokens = (p.s.objs ref).numTokens then
        (p.s.objs ref).numTokens - 1 else (p.s.objs ref).numComputedTokens, ?_⟩
    rw [← hcongr]
    rfl

theorem promote_effect {promoted : Bool} (h : p.promote cfg ref = .ok (promoted, q)) :
    (q = p ∧ (promoted = true → (p.s.objs ref).status.isBlockedWaiting = false)) ∨
    ((p.s.objs ref).status.isBlockedWaiting = true ∧ promoted = true ∧
      ∃ world finishedRecvingKvReqIds failedRecvingKvReqIds r', Promotes cfg (p.s.objs ref) r' ∧
        q = { p with s := { p.s.modify ref (fun _ => r') with
          world, finishedRecvingKvReqIds, failedRecvingKvReqIds } }) := by
  unfold promote at h
  split at h
  · rename_i hblocked
    unfold tryPromoteBlockedWaitingRequest at h
    dsimp only at h
    split at h
    · split at h
      · cases h
        exact .inl ⟨rfl, fun hfalse => (nomatch hfalse)⟩
      · obtain ⟨p1, hkv, h⟩ := bind_ok h
        obtain ⟨hconn, hp1⟩ := updateWaitingForRemoteKv_effect hkv
        cases h
        exact .inr ⟨hblocked, rfl, hp1.promoted hconn⟩
    · split at h
      · cases h
        exact .inr ⟨hblocked, rfl, _, _, _, { p.s.objs ref with status := .waiting },
          ⟨.inl rfl, rfl, fun _ => rfl⟩, rfl⟩
      · cases h
        exact .inl ⟨rfl, fun hfalse => (nomatch hfalse)⟩
    · obtain ⟨⟨⟩, -, h⟩ := bind_ok h
      cases h
      exact .inl ⟨rfl, fun hfalse => (nomatch hfalse)⟩
    · cases h
  · rename_i hblocked
    cases h
    exact .inl ⟨rfl, fun _ => Bool.eq_false_iff.mpr hblocked⟩

theorem getComputed_effect {computed? : Option (Computed X)}
    (h : p.getComputed cfg ref = .ok (computed?, q)) :
    ∃ world numExternalComputedTokens, q = { p with
      s := { p.s.modify ref (fun r => { r with numExternalComputedTokens }) with world } } := by
  have hself : p.s = p.s.modify ref (fun r => { r with
      numExternalComputedTokens := (p.s.objs ref).numExternalComputedTokens }) :=
    (Scheduler.modify_eq_self rfl).symm
  have hset : ∀ world, p.setWorld world = { p with
      s := { p.s.modify ref (fun r => { r with
          numExternalComputedTokens := (p.s.objs ref).numExternalComputedTokens }) with world } } := by
    intro _
    rw [← hself]
    rfl
  unfold getComputed at h
  dsimp only at h
  split at h
  · split at h
    · split at h
      · cases h
        exact ⟨_, _, hset _⟩
      · obtain ⟨⟨⟩, -, h⟩ := bind_ok h
        cases h
        exact ⟨_, _, rfl⟩
    · obtain ⟨⟨⟩, -, h⟩ := bind_ok h
      cases h
      exact ⟨_, _, hset _⟩
  · cases h
    exact ⟨_, _, hset _⟩

/-- Nothing is decided for a request that is loaded or does not fit the budget. Otherwise the
encoder inputs are chosen, and the split has the last word on the tokens. -/
theorem planWaiting_inv {work? : Option Work}
    (h : p.planWaiting cfg ref computed = .ok (work?, q)) :
    (q = p ∧ (computed.loadKvAsync = false → work? = none)) ∨
    ∃ n work, n ≤ p.tokenBudget ∧
      p.scheduleEncoderInputs cfg ref computed.numComputedTokens n = .ok (work, q) ∧
      ∀ w, work? = some w → ∃ k, split cfg (p.s.objs ref) work.numNewTokens
        computed.numNewLocalComputedTokens computed.numExternalComputedTokens = .ok k ∧
        w = { work with numNewTokens := k } := by
  unfold planWaiting at h
  dsimp only at h
  split at h
  · rename_i hload
    obtain ⟨⟨⟩, -, h⟩ := bind_ok h
    obtain ⟨n, -, h⟩ := bind_ok h
    have hq : q = p := by split at h <;> cases h <;> rfl
    exact .inl ⟨hq, fun hfalse => absurd (hload.symm.trans hfalse) (by decide)⟩
  · generalize (if 0 < cfg.longPrefillTokenThreshold ∧ cfg.longPrefillTokenThreshold <
      ((p.s.objs ref).numTokens : Int) - computed.numComputedTokens then _ else _) = n at h
    split at h
    · cases h
      exact .inl ⟨rfl, fun _ => rfl⟩
    · obtain ⟨⟨⟩, -, h⟩ := bind_ok h
      obtain ⟨⟨work, p1⟩, hplan, h⟩ := bind_ok h
      refine .inr ⟨_, work, min_le_right n _, ?_⟩
      split at h
      · cases h
        exact ⟨hplan, nofun⟩
      · obtain ⟨k, hsplit, h⟩ := bind_ok h
        split at h
        · cases h
          exact ⟨hplan, nofun⟩
        · cases h
          exact ⟨hplan, fun w hw => ⟨k, hsplit, (Option.some.inj hw).symm⟩⟩

theorem planWaiting_effect {work? : Option Work}
    (h : p.planWaiting cfg ref computed = .ok (work?, q)) :
    ∃ encoderCacheManager, q = { p with s := { p.s with encoderCacheManager } } := by
  rcases planWaiting_inv h with ⟨rfl, -⟩ | ⟨n, work, -, hplan, -⟩
  · exact ⟨_, rfl⟩
  · exact scheduleEncoderInputs_effect hplan

theorem allocateWaiting_effect {allocated : Bool}
    (h : p.allocateWaiting cfg ref computed work = .ok (allocated, q)) :
    ∃ world, q = p.setWorld world := by
  obtain ⟨n, -, h⟩ := bind_ok h
  split at h
  · cases h
    exact ⟨p.s.world, rfl⟩
  · obtain ⟨⟨a, world⟩, -, h⟩ := bind_ok h
    cases h
    exact ⟨world, rfl⟩

theorem recordScheduled_effect (h : p.recordScheduled ref = .ok q) :
    ((p.s.objs ref).status = .waiting ∧
      q = { p with scheduledNewReqs := p.scheduledNewReqs ++ [ref] }) ∨
    ((p.s.objs ref).status = .preempted ∧
      q = { p with scheduledResumedReqs := p.scheduledResumedReqs ++ [ref] }) := by
  unfold recordScheduled at h
  split at h
  · rename_i hstatus
    cases h
    exact .inl ⟨hstatus, rfl⟩
  · rename_i hstatus
    cases h
    exact .inr ⟨hstatus, rfl⟩
  · cases h

theorem admitRequest_effect (h : p.admitRequest cfg ref computed work = .ok q) :
    ∃ scheduledNewReqs scheduledResumedReqs scheduledLoras,
      ((p.s.objs ref).status = .waiting ∧ scheduledNewReqs = p.scheduledNewReqs ++ [ref] ∧
          scheduledResumedReqs = p.scheduledResumedReqs ∨
        (p.s.objs ref).status = .preempted ∧ scheduledNewReqs = p.scheduledNewReqs ∧
          scheduledResumedReqs = p.scheduledResumedReqs ++ [ref]) ∧ ({ p with
        scheduledNewReqs, scheduledResumedReqs, scheduledLoras
        numScheduledTokens := p.numScheduledTokens.set (p.s.objs ref).requestId work.numNewTokens
        tokenBudget := p.tokenBudget - work.numNewTokens
        s := { p.s.modify ref (fun r => { r with
            status := .running
            numComputedTokens := computed.numComputedTokens }) with
          running := p.s.running ++ [ref] } } : Pass X).allocateEncoder cfg ref work = .ok q := by
  obtain ⟨p1, hrec, h⟩ := bind_ok h
  rcases recordScheduled_effect hrec with ⟨hstatus, rfl⟩ | ⟨hstatus, rfl⟩
  · exact ⟨_, _, _, .inl ⟨hstatus, rfl, rfl⟩, h⟩
  · exact ⟨_, _, _, .inr ⟨hstatus, rfl, rfl⟩, h⟩

theorem startLoad_effect (cfg : Config) (p : Pass X) (ref : Ref) (computed : Computed X) :
    ∃ stepSkippedWaiting, stepSkippedWaiting.Perm (ref :: p.stepSkippedWaiting) ∧
      p.startLoad cfg ref computed = { p with
        stepSkippedWaiting
        s := p.s.modify ref fun r => { r with
          status := .waitingForRemoteKvs
          numComputedTokens := computed.numComputedTokens } } := by
  refine ⟨p.stepSkippedWaiting.prependRequest cfg.policy ((p.modify ref fun r =>
      { r with status := .waitingForRemoteKvs }).s.lt cfg) ref,
    RequestQueue.prependRequest_perm, ?_⟩
  unfold startLoad prependSkipped modify
  dsimp only
  rw [Scheduler.modify_modify]
  rfl

theorem admitOrLoad_effect (hpeek : (p.queue source).peekRequest cfg.policy = .ok ref)
    (h : p.admitOrLoad cfg source ref computed work = .ok q) :
    ∃ l world, (p.queue source).Perm (ref :: l) ∧
      ((computed.loadKvAsync = true ∧
          q = ((p.setWorld world).withQueue source l).startLoad cfg ref computed) ∨
        (computed.loadKvAsync = false ∧
          ((p.setWorld world).withQueue source l).admitRequest cfg ref computed work = .ok q)) := by
  obtain ⟨p1, hpop, h⟩ := bind_ok h
  have hconn : ∃ world, p.updateConnector cfg ref computed = p.setWorld world := by
    unfold updateConnector
    split
    · exact ⟨_, rfl⟩
    · exact ⟨p.s.world, rfl⟩
  obtain ⟨world, hworld⟩ := hconn
  rw [hworld] at hpop
  have hpeek' : ((p.setWorld world).queue source).peekRequest cfg.policy = .ok ref := by
    cases source <;> exact hpeek
  obtain ⟨l, hperm, rfl⟩ := popRequest_effect hpeek' hpop
  refine ⟨l, world, by cases source <;> exact hperm, ?_⟩
  split at h
  · rename_i hload
    cases h
    exact .inl ⟨hload, rfl⟩
  · rename_i hload
    exact .inr ⟨Bool.eq_false_iff.mpr hload, h⟩

end Pass

namespace Scheduler

variable {cfg : Config} {X : World} {s s' : Scheduler X} {ref : Ref} {out : SchedulerOutput}
  {reqId : Nat}

/-! ## After the step was scheduled -/

theorem lookup_eq_ok : s.lookup reqId = .ok ref ↔ s.requests.get? reqId = some ref := by
  unfold lookup
  cases s.requests.get? reqId <;> simp

theorem freeComputedInput_effect {i : Nat} (h : s.freeComputedInput cfg ref i = .ok s') :
    ∃ encoderCacheManager, s' = { s with encoderCacheManager } := by
  obtain ⟨f, -, h⟩ := bind_ok h
  split at h
  · obtain ⟨m, -, h⟩ := bind_ok h
    cases h
    exact ⟨m, rfl⟩
  · cases h
    exact ⟨_, rfl⟩

theorem freeEncoderInputs_effect (h : s.freeEncoderInputs cfg ref = .ok s') :
    ∃ encoderCacheManager, s' = { s with encoderCacheManager } := by
  refine foldlM_keeps (P := fun t => ∃ encoderCacheManager, t = { s with encoderCacheManager })
    ?_ ⟨_, rfl⟩ h
  rintro _ i - t' ⟨m, rfl⟩ hstep
  obtain ⟨m', rfl⟩ := freeComputedInput_effect hstep
  exact ⟨m', rfl⟩

theorem advanceRequest_effect {n : Int} (h : s.advanceRequest cfg reqId n = .ok s') :
    ∃ ref encoderCacheManager, s.requests.get? reqId = some ref ∧
      s' = { s.modify ref (advance n) with encoderCacheManager } := by
  obtain ⟨ref, hlookup, h⟩ := bind_ok h
  dsimp only at h
  split at h
  · obtain ⟨m, rfl⟩ := freeEncoderInputs_effect h
    exact ⟨ref, m, lookup_eq_ok.mp hlookup, rfl⟩
  · cases h
    exact ⟨ref, _, lookup_eq_ok.mp hlookup, rfl⟩

theorem placeholdersRequest_effect (h : s.placeholdersRequest cfg out reqId = .ok s') :
    ∃ ref, s.requests.get? reqId = some ref ∧ s' = s.modify ref
      (addPlaceholders cfg ((out.scheduledSpecDecodeTokens.get? reqId).getD []).length) := by
  obtain ⟨ref, hlookup, h⟩ := bind_ok h
  cases h
  exact ⟨ref, lookup_eq_ok.mp hlookup, rfl⟩

end Scheduler

end MyOperator.Sched
