import MyOperator.Sched.Effects

/-!
# `schedule` step by step

The loops of `schedule` as steps of a machine: the state is the `Pass`, the phase says
where the control is and what was decided for the request of the iteration.
`runPass_steps` takes a call of `schedule` apart once; an invariant of `schedule` is
then a property that every step keeps. The loops end since each iteration moves
`req_index` on, or shortens a queue.
-/

namespace MyOperator.Sched

open Lib List
open KvCache (assert)

/-- Where the control is. -/
inductive Phase (X : World)
  /-- Between two iterations over the running requests. -/
  | runningIdle
  /-- A running request was picked. -/
  | running (ref : Ref)
  /-- Its work is decided. -/
  | runningWork (ref : Ref) (work : Work)
  /-- It has its blocks. -/
  | runningBlocks (ref : Ref) (work : Work)
  /-- There are no blocks for it. -/
  | runningFull (ref : Ref) (work : Work)
  /-- After the running requests. -/
  | runningEnd
  /-- Between two iterations over the waiting requests. -/
  | waitingIdle
  /-- A waiting request was picked from a queue. -/
  | waiting (source : Pass.Source) (ref : Ref)
  /-- It may be scheduled. -/
  | waitingReady (source : Pass.Source) (ref : Ref)
  /-- It is put off. -/
  | waitingSkip (source : Pass.Source) (ref : Ref)
  /-- Its computed tokens are known. -/
  | waitingComputed (source : Pass.Source) (ref : Ref) (computed : Pass.Computed X)
  /-- Its work is decided. -/
  | waitingWork (source : Pass.Source) (ref : Ref) (computed : Pass.Computed X) (work : Work)
  /-- It has its blocks. -/
  | waitingBlocks (source : Pass.Source) (ref : Ref) (computed : Pass.Computed X) (work : Work)
  /-- There are no blocks for it. -/
  | waitingFull (ref : Ref)
  /-- After the waiting requests. -/
  | waitingEnd
  /-- After both loops. -/
  | done

namespace Pass

variable {X : World}

/-- The condition of the loop over the running requests. -/
def MoreRunning (p : Pass X) (ref : Ref) : Prop :=
  p.s.running[p.reqIndex]? = some ref ∧ p.tokenBudget > 0

/-- The condition of the loop over the waiting requests. -/
def MoreWaiting (cfg : Config) (p : Pass X) : Prop :=
  ¬ ((p.s.waiting = [] ∧ p.s.skippedWaiting = []) ∨ p.tokenBudget ≤ 0 ∨
    p.s.running.length = cfg.maxNumRunningReqs)

/-- The waiting requests are looked at. -/
def WaitingOpen (p : Pass X) : Prop := p.preemptedReqs = [] ∧ p.s.pauseState = .unpaused

instance (p : Pass X) : Decidable (WaitingOpen p) :=
  inferInstanceAs (Decidable (p.preemptedReqs = [] ∧ p.s.pauseState = .unpaused))

/-- One step of `schedule`. -/
inductive Step (cfg : Config) : Pass X × Phase X → Pass X × Phase X → Prop
  | pickRunning {p ref} : MoreRunning p ref → Step cfg (p, .runningIdle) (p, .running ref)
  | endRunning {p : Pass X} : (∀ ref, ¬ MoreRunning p ref) →
      Step cfg (p, .runningIdle) (p, .runningEnd)
  | passOver {p : Pass X} {ref} : reachedMaxTokens (p.s.objs ref) = true →
      Step cfg (p, .running ref) ({ p with reqIndex := p.reqIndex + 1 }, .runningIdle)
  | planRunning {p q ref work numNewTokens} : reachedMaxTokens (p.s.objs ref) = false →
      p.scheduleEncoderInputs cfg ref (p.s.objs ref).numComputedTokens
        (runningNumNewTokens cfg (p.s.objs ref) p.tokenBudget) = .ok (work, q) →
      split cfg (p.s.objs ref) work.numNewTokens 0 0 = .ok numNewTokens →
      Step cfg (p, .running ref) (q, .runningWork ref { work with numNewTokens })
  | noTokens {p : Pass X} {ref work} : work.numNewTokens = 0 →
      Step cfg (p, .runningWork ref work) ({ p with reqIndex := p.reqIndex + 1 }, .runningIdle)
  | tryAllocate {p : Pass X} {ref work allocated world} : work.numNewTokens ≠ 0 →
      X.allocateSlots (p.s.objs ref) { numNewTokens := work.numNewTokens
                                       numLookaheadTokens := cfg.numLookaheadTokens }
        p.s.world = .ok (allocated, world) →
      Step cfg (p, .runningWork ref work)
        (p.setWorld world, if allocated then .runningBlocks ref work else .runningFull ref work)
  | preempt {p q r : Pass X} {ref work victim} : p.popVictim cfg = .ok (victim, q) →
      q.preemptVictim cfg victim = .ok r →
      Step cfg (p, .runningFull ref work)
        (r, if victim = ref then .runningEnd else .runningWork ref work)
  | scheduleRunning {p q : Pass X} {ref work} : p.scheduleRunning cfg ref work = .ok q →
      Step cfg (p, .runningBlocks ref work) (q, .runningIdle)
  | recordLoras {p q : Pass X} : p.recordLoras cfg = .ok q →
      Step cfg (p, .runningEnd) (q, if WaitingOpen q then .waitingIdle else .done)
  | pickWaiting {p : Pass X} {ref} : MoreWaiting cfg p →
      (p.queue (p.selectQueue cfg)).peekRequest cfg.policy = .ok ref →
      Step cfg (p, .waitingIdle) (p, .waiting (p.selectQueue cfg) ref)
  | endWaiting {p : Pass X} : ¬ MoreWaiting cfg p → Step cfg (p, .waitingIdle) (p, .waitingEnd)
  | promote {p q : Pass X} {source ref promoted} : p.promote cfg ref = .ok (promoted, q) →
      Step cfg (p, .waiting source ref)
        (q, if promoted = false ∨ q.exceedsMaxLoras cfg (q.s.objs ref) then .waitingSkip source ref
          else .waitingReady source ref)
  | noMatchYet {p q : Pass X} {source ref} : p.getComputed cfg ref = .ok (none, q) →
      Step cfg (p, .waitingReady source ref) (q, .waitingSkip source ref)
  | skip {p q : Pass X} {source ref} : p.skipRequest cfg source ref = .ok q →
      Step cfg (p, .waitingSkip source ref) (q, .waitingIdle)
  | getComputed {p q : Pass X} {source ref computed} :
      p.getComputed cfg ref = .ok (some computed, q) →
      Step cfg (p, .waitingReady source ref) (q, .waitingComputed source ref computed)
  | giveUp {p q : Pass X} {source ref computed} : p.planWaiting cfg ref computed = .ok (none, q) →
      Step cfg (p, .waitingComputed source ref computed) (q, .waitingEnd)
  | planWaiting {p q : Pass X} {source ref computed work} :
      p.planWaiting cfg ref computed = .ok (some work, q) →
      Step cfg (p, .waitingComputed source ref computed) (q, .waitingWork source ref computed work)
  | allocateWaiting {p q : Pass X} {source ref computed work allocated} :
      p.allocateWaiting cfg ref computed work = .ok (allocated, q) →
      Step cfg (p, .waitingWork source ref computed work)
        (q, if allocated then .waitingBlocks source ref computed work else .waitingFull ref)
  | untouch {p q : Pass X} {ref} : p.untouchEncoder cfg ref = .ok q →
      Step cfg (p, .waitingFull ref) (q, .waitingEnd)
  | admitOrLoad {p q : Pass X} {source ref computed work} :
      p.admitOrLoad cfg source ref computed work = .ok q →
      Step cfg (p, .waitingBlocks source ref computed work) (q, .waitingIdle)
  | requeue {p : Pass X} : Step cfg (p, .waitingEnd) (p.requeueSkipped cfg, .done)

/-- Some steps of `schedule`. -/
abbrev Steps (cfg : Config) : Pass X × Phase X → Pass X × Phase X → Prop :=
  Relation.ReflTransGen (Step cfg)

variable {cfg : Config} {p q : Pass X} {ref : Ref} {work : Work}

/-! ## The running requests -/

/-- What is left of the loop over the running requests. -/
def runningLeft (p : Pass X) : Nat := p.s.running.length - p.reqIndex

/-- A preemption takes one request away, and moves `req_index` by at most one. -/
theorem preempt_runningLeft {r : Pass X} {victim : Ref} (hpop : p.popVictim cfg = .ok (victim, q))
    (hpre : q.preemptVictim cfg victim = .ok r) :
    r.runningLeft ≤ p.runningLeft ∧ r.s.running.length + 1 = p.s.running.length := by
  obtain ⟨-, m, world, waiting, -, -, rfl⟩ := preemptVictim_effect hpre
  show q.s.running.length - q.reqIndex ≤ p.s.running.length - p.reqIndex ∧
    q.s.running.length + 1 = p.s.running.length
  rcases popVictim_effect hpop with ⟨-, hrun, rfl⟩ | ⟨-, hmem, -, rfl⟩ | ⟨-, hmem, -, hun⟩
  · have hlen := congrArg List.length hrun
    rw [length_append, length_singleton] at hlen
    dsimp only
    omega
  · have hlen := length_erase_add_one hmem
    dsimp only
    omega
  · have hlen := length_erase_add_one hmem
    obtain ⟨n, k, -, -, rfl⟩ := unschedule_effect hun
    dsimp only
    omega

variable {fuel : Nat} {source : Source} {computed : Computed X}

/-- The allocation loop ends with blocks for the request, or with the request preempted. -/
theorem allocateRunning_steps {allocated : Bool} (hne : work.numNewTokens ≠ 0)
    (h : allocateRunning cfg ref work.numNewTokens fuel p = .ok (allocated, q)) :
    Steps cfg (p, .runningWork ref work)
        (q, if allocated then .runningBlocks ref work else .runningEnd) ∧
      q.runningLeft ≤ p.runningLeft := by
  induction fuel generalizing p with
  | zero => cases h
  | succ fuel ih =>
    obtain ⟨⟨allocated', world⟩, hslots, h1⟩ := bind_ok h
    have htry := Step.tryAllocate hne hslots
    cases allocated' with
    | true =>
      cases h1
      exact ⟨.single htry, le_rfl⟩
    | false =>
      obtain ⟨⟨victim, p1⟩, hpop, h2⟩ := bind_ok h1
      obtain ⟨p2, hpre, h3⟩ := bind_ok h2
      have hstep : Steps cfg (p, .runningWork ref work)
          (p2, if victim = ref then .runningEnd else .runningWork ref work) :=
        (Relation.ReflTransGen.single htry).tail (.preempt hpop hpre)
      have hleft : p2.runningLeft ≤ p.runningLeft := (preempt_runningLeft hpop hpre).1
      by_cases hv : victim = ref
      · rw [if_pos hv] at h3 hstep
        cases h3
        exact ⟨hstep, hleft⟩
      · rw [if_neg hv] at h3 hstep
        obtain ⟨hsteps, hleft'⟩ := ih h3
        exact ⟨hstep.trans hsteps, hleft'.trans hleft⟩

/-- The allocation loop never runs out of fuel: a pass takes a request out of `running`, and from
none left it raises. -/
theorem allocateRunning_fuel (numNewTokens : Int) (hfuel : p.s.running.length < fuel) :
    allocateRunning cfg ref numNewTokens (fuel + 1) p = allocateRunning cfg ref numNewTokens fuel p := by
  induction fuel generalizing p with
  | zero => omega
  | succ fuel ih =>
    rw [allocateRunning, allocateRunning]
    cases hslots : X.allocateSlots (p.s.objs ref) _ p.s.world with
    | error e => rfl
    | ok x =>
      obtain ⟨allocated, world⟩ := x
      cases allocated with
      | true => rfl
      | false =>
        simp only [ok_bind]
        cases hpop : (p.setWorld world).popVictim cfg with
        | error e => rfl
        | ok x =>
          obtain ⟨victim, p1⟩ := x
          simp only [ok_bind]
          cases hpre : p1.preemptVictim cfg victim with
          | error e => rfl
          | ok p2 =>
            have hlen := (preempt_runningLeft hpop hpre).2
            simp only [ok_bind]
            have hlen : p2.s.running.length + 1 = p.s.running.length := hlen
            rw [ih (by omega)]

theorem scheduleRunning_runningLeft (h : p.scheduleRunning cfg ref work = .ok q) :
    q.runningLeft = p.runningLeft - 1 := by
  obtain ⟨d, hencoder⟩ := scheduleRunning_effect h
  obtain ⟨_, _, _, _, _, rfl⟩ := (allocateEncoder_effect hencoder).eq
  show p.s.running.length - (p.reqIndex + 1) = p.s.running.length - p.reqIndex - 1
  omega

theorem runningStep_steps {flow : Flow (Pass X)} (hmore : MoreRunning p ref)
    (h : p.runningStep cfg ref = .ok flow) :
    (∃ q, flow = .next q ∧ Steps cfg (p, .running ref) (q, .runningIdle) ∧
      q.runningLeft < p.runningLeft) ∨
    (∃ q, flow = .stop q ∧ Steps cfg (p, .running ref) (q, .runningEnd)) := by
  have hpos : 0 < p.runningLeft := by
    obtain ⟨hlt, -⟩ := List.getElem?_eq_some_iff.mp hmore.1
    unfold runningLeft
    omega
  have hnext : ({ p with reqIndex := p.reqIndex + 1 } : Pass X).runningLeft < p.runningLeft := by
    unfold runningLeft at hpos ⊢
    dsimp only
    omega
  unfold runningStep at h
  dsimp only at h
  split at h
  · rename_i hmax
    cases h
    exact .inl ⟨_, rfl, .single (.passOver hmax), hnext⟩
  · rename_i hmax
    obtain ⟨⟨work, p1⟩, hplan, h1⟩ := bind_ok h
    obtain ⟨n, hsplit, h2⟩ := bind_ok h1
    have hstep : Steps cfg (p, .running ref) (p1, .runningWork ref { work with numNewTokens := n }) :=
      .single (.planRunning (Bool.eq_false_iff.mpr hmax) hplan hsplit)
    obtain ⟨m, rfl⟩ := scheduleEncoderInputs_effect hplan
    by_cases hn : n = 0
    · rw [if_pos hn] at h2
      cases h2
      exact .inl ⟨_, rfl, hstep.tail (.noTokens hn), hnext⟩
    · rw [if_neg hn] at h2
      obtain ⟨⟨allocated, p2⟩, halloc, h3⟩ := bind_ok h2
      have halloc' : Steps cfg _ (p2, if allocated
            then .runningBlocks ref { work with numNewTokens := n } else .runningEnd) ∧ _ :=
        allocateRunning_steps hn halloc
      obtain ⟨hsteps, hleft⟩ := halloc'
      cases allocated with
      | true =>
        obtain ⟨p3, hsched, h4⟩ := bind_ok h3
        cases h4
        refine .inl ⟨p3, rfl, (hstep.trans hsteps).tail (.scheduleRunning hsched), ?_⟩
        rw [scheduleRunning_runningLeft hsched]
        exact lt_of_le_of_lt (Nat.sub_le_sub_right hleft 1) (Nat.sub_lt hpos Nat.one_pos)
      | false =>
        cases h3
        exact .inr ⟨p2, rfl, hstep.trans hsteps⟩

theorem runningLoop_steps (hfuel : p.runningLeft ≤ fuel) (h : runningLoop cfg fuel p = .ok q) :
    Steps cfg (p, .runningIdle) (q, .runningEnd) := by
  have hend : p.s.running[p.reqIndex]? = none → Steps cfg (p, .runningIdle) (p, .runningEnd) := by
    intro hnone
    refine .single (.endRunning fun ref hmore => ?_)
    rw [hmore.1] at hnone
    cases hnone
  induction fuel generalizing p with
  | zero =>
    cases h
    refine hend (getElem?_eq_none ?_)
    unfold runningLeft at hfuel
    omega
  | succ fuel ih =>
    unfold runningLoop at h
    split at h
    · rename_i hnone
      cases h
      exact hend hnone
    · rename_i ref hget
      split at h
      · cases h
        exact .single (.endRunning fun ref hmore => absurd hmore.2 (by omega))
      · have hmore : MoreRunning p ref := ⟨hget, by omega⟩
        obtain ⟨flow, hstep, h1⟩ := bind_ok h
        rcases runningStep_steps hmore hstep with ⟨p1, rfl, hsteps, hleft⟩ | ⟨p1, rfl, hsteps⟩
        · refine (Relation.ReflTransGen.head (.pickRunning hmore) hsteps).trans
            (ih (by omega) h1 ?_)
          intro hnone
          refine .single (.endRunning fun ref hmore => ?_)
          rw [hmore.1] at hnone
          cases hnone
        · cases h1
          exact .head (.pickRunning hmore) hsteps

/-! ## The waiting requests -/

/-- What is left of the loop over the waiting requests. -/
def waitingLeft (p : Pass X) : Nat := p.s.waiting.length + p.s.skippedWaiting.length

theorem withQueue_waitingLeft {l : RequestQueue} (h : (p.queue source).Perm (ref :: l)) :
    (p.withQueue source l).waitingLeft < p.waitingLeft := by
  have hlen := h.length_eq
  cases source with
  | waiting =>
    have hlen : p.s.waiting.length = l.length + 1 := hlen
    show l.length + p.s.skippedWaiting.length < p.s.waiting.length + p.s.skippedWaiting.length
    omega
  | skippedWaiting =>
    have hlen : p.s.skippedWaiting.length = l.length + 1 := hlen
    show p.s.waiting.length + l.length < p.s.waiting.length + p.s.skippedWaiting.length
    omega

theorem skipRequest_waitingLeft (hpeek : (p.queue source).peekRequest cfg.policy = .ok ref)
    (h : p.skipRequest cfg source ref = .ok q) : q.waitingLeft < p.waitingLeft := by
  obtain ⟨l, step, hperm, -, rfl⟩ := skipRequest_effect hpeek h
  exact withQueue_waitingLeft hperm

theorem admitOrLoad_waitingLeft (hpeek : (p.queue source).peekRequest cfg.policy = .ok ref)
    (h : p.admitOrLoad cfg source ref computed work = .ok q) : q.waitingLeft < p.waitingLeft := by
  obtain ⟨l, world, hperm, ⟨-, rfl⟩ | ⟨-, hadmit⟩⟩ := admitOrLoad_effect hpeek h
  · obtain ⟨step, -, heq⟩ :=
      startLoad_effect cfg ((p.setWorld world).withQueue source l) ref computed
    have hleft := withQueue_waitingLeft hperm
    cases source <;> exact hleft
  · obtain ⟨new, resumed, loras, -, hencoder⟩ := admitRequest_effect hadmit
    obtain ⟨_, _, _, _, _, rfl⟩ := (allocateEncoder_effect hencoder).eq
    have hleft := withQueue_waitingLeft hperm
    cases source <;> exact hleft

/-- The queues as they are. -/
def SameQueues (p q : Pass X) : Prop :=
  q.s.waiting = p.s.waiting ∧ q.s.skippedWaiting = p.s.skippedWaiting

theorem SameQueues.peek (h : SameQueues p q)
    (hpeek : (p.queue source).peekRequest cfg.policy = .ok ref) :
    (q.queue source).peekRequest cfg.policy = .ok ref := by
  cases source with
  | waiting =>
    show q.s.waiting.peekRequest cfg.policy = .ok ref
    rw [h.1]
    exact hpeek
  | skippedWaiting =>
    show q.s.skippedWaiting.peekRequest cfg.policy = .ok ref
    rw [h.2]
    exact hpeek

theorem SameQueues.waitingLeft (h : SameQueues p q) : q.waitingLeft = p.waitingLeft := by
  unfold Pass.waitingLeft
  rw [h.1, h.2]

theorem SameQueues.trans {r : Pass X} (h : SameQueues p q) (h' : SameQueues q r) : SameQueues p r :=
  ⟨h'.1.trans h.1, h'.2.trans h.2⟩

theorem promote_sameQueues {promoted : Bool} (h : p.promote cfg ref = .ok (promoted, q)) :
    SameQueues p q := by
  rcases promote_effect h with ⟨rfl, -⟩ | ⟨-, -, world, finished, failed, r', -, rfl⟩
  · exact ⟨rfl, rfl⟩
  · exact ⟨rfl, rfl⟩

theorem getComputed_sameQueues {computed? : Option (Computed X)}
    (h : p.getComputed cfg ref = .ok (computed?, q)) : SameQueues p q := by
  obtain ⟨world, n, rfl⟩ := getComputed_effect h
  exact ⟨rfl, rfl⟩

theorem planWaiting_sameQueues {work? : Option Work}
    (h : p.planWaiting cfg ref computed = .ok (work?, q)) : SameQueues p q := by
  obtain ⟨m, rfl⟩ := planWaiting_effect h
  exact ⟨rfl, rfl⟩

theorem allocateWaiting_sameQueues {allocated : Bool}
    (h : p.allocateWaiting cfg ref computed work = .ok (allocated, q)) : SameQueues p q := by
  obtain ⟨world, rfl⟩ := allocateWaiting_effect h
  exact ⟨rfl, rfl⟩

theorem waitingStep_steps {flow : Flow (Pass X)}
    (hpeek : (p.queue source).peekRequest cfg.policy = .ok ref)
    (h : p.waitingStep cfg source ref = .ok flow) :
    (∃ q, flow = .next q ∧ Steps cfg (p, .waiting source ref) (q, .waitingIdle) ∧
      q.waitingLeft < p.waitingLeft) ∨
    (∃ q, flow = .stop q ∧ Steps cfg (p, .waiting source ref) (q, .waitingEnd)) := by
  obtain ⟨⟨promoted, p1⟩, hpromote, h1⟩ := bind_ok h
  have hq1 := promote_sameQueues hpromote
  have hstep1 : Step cfg (p, .waiting source ref) (p1, if promoted = false ∨
      p1.exceedsMaxLoras cfg (p1.s.objs ref) then .waitingSkip source ref
      else .waitingReady source ref) := .promote hpromote
  dsimp only at h1
  split at h1
  · rename_i hskip
    rw [if_pos hskip] at hstep1
    obtain ⟨p2, hpop, h2⟩ := bind_ok h1
    cases h2
    refine .inl ⟨p2, rfl, (Relation.ReflTransGen.single hstep1).tail (.skip hpop), ?_⟩
    rw [← hq1.waitingLeft]
    exact skipRequest_waitingLeft (hq1.peek hpeek) hpop
  · rename_i hskip
    rw [if_neg hskip] at hstep1
    obtain ⟨⟨computed?, p2⟩, hcomp, h2⟩ := bind_ok h1
    have hq2 := hq1.trans (getComputed_sameQueues hcomp)
    cases computed? with
    | none =>
      obtain ⟨p3, hpop, h3⟩ := bind_ok h2
      cases h3
      refine .inl ⟨p3, rfl, ((Relation.ReflTransGen.single hstep1).tail
        (.noMatchYet hcomp)).tail (.skip hpop), ?_⟩
      rw [← hq2.waitingLeft]
      exact skipRequest_waitingLeft (hq2.peek hpeek) hpop
    | some computed =>
      have hstep2 := (Relation.ReflTransGen.single hstep1).tail (.getComputed hcomp)
      obtain ⟨⟨work?, p3⟩, hplan, h3⟩ := bind_ok h2
      have hq3 := hq2.trans (planWaiting_sameQueues hplan)
      cases work? with
      | none =>
        cases h3
        exact .inr ⟨p3, rfl, hstep2.tail (.giveUp hplan)⟩
      | some work =>
        have hstep3 := hstep2.tail (.planWaiting hplan)
        obtain ⟨⟨allocated, p4⟩, halloc, h4⟩ := bind_ok h3
        have hq4 := hq3.trans (allocateWaiting_sameQueues halloc)
        have hstep4 := hstep3.tail (.allocateWaiting halloc)
        cases allocated with
        | true =>
          obtain ⟨p5, hadmit, h5⟩ := bind_ok h4
          cases h5
          refine .inl ⟨p5, rfl, hstep4.tail (.admitOrLoad hadmit), ?_⟩
          rw [← hq4.waitingLeft]
          exact admitOrLoad_waitingLeft (hq4.peek hpeek) hadmit
        | false =>
          obtain ⟨p5, hun, h5⟩ := bind_ok h4
          cases h5
          exact .inr ⟨p5, rfl, hstep4.tail (.untouch hun)⟩

theorem waitingLoop_steps (hfuel : p.waitingLeft ≤ fuel) (h : waitingLoop cfg fuel p = .ok q) :
    Steps cfg (p, .waitingIdle) (q, .waitingEnd) := by
  induction fuel generalizing p with
  | zero =>
    cases h
    refine .single (.endWaiting fun hmore => hmore (.inl ?_))
    unfold waitingLeft at hfuel
    exact ⟨length_eq_zero_iff.mp (by omega), length_eq_zero_iff.mp (by omega)⟩
  | succ fuel ih =>
    unfold waitingLoop at h
    split at h
    · rename_i hstop
      cases h
      exact .single (.endWaiting fun hmore => hmore hstop)
    · rename_i hmore
      obtain ⟨ref, hpeek, h1⟩ := bind_ok h
      obtain ⟨flow, hstep, h2⟩ := bind_ok h1
      have hpick : Step cfg (p, .waitingIdle) (p, .waiting (p.selectQueue cfg) ref) :=
        .pickWaiting hmore hpeek
      rcases waitingStep_steps hpeek hstep with ⟨p1, rfl, hsteps, hleft⟩ | ⟨p1, rfl, hsteps⟩
      · exact (Relation.ReflTransGen.head hpick hsteps).trans (ih (by omega) h2)
      · cases h2
        exact .head hpick hsteps

theorem scheduleWaiting_steps (h : p.scheduleWaiting cfg = .ok q) :
    Steps cfg (p, if WaitingOpen p then .waitingIdle else .done) (q, .done) := by
  unfold scheduleWaiting at h
  split at h
  · rename_i hopen
    rw [if_pos (show WaitingOpen p from hopen)]
    obtain ⟨p1, hloop, h1⟩ := bind_ok h
    cases h1
    exact (waitingLoop_steps le_rfl hloop).tail .requeue
  · rename_i hopen
    rw [if_neg (show ¬ WaitingOpen p from hopen)]
    cases h
    exact .refl

end Pass

namespace Scheduler

variable {X : World} {cfg : Config} {s s' : Scheduler X} {out : SchedulerOutput}

theorem runPass_steps {p : Pass X} (h : s.runPass cfg = .ok p) :
    Pass.Steps cfg (s.startPass cfg, .runningIdle) (p, .done) := by
  obtain ⟨p1, hrun, h1⟩ := bind_ok h
  obtain ⟨p2, hlora, h2⟩ := bind_ok h1
  exact ((Pass.runningLoop_steps le_rfl hrun).tail (.recordLoras hlora)).trans
    (Pass.scheduleWaiting_steps h2)

theorem schedule_eq_ok (h : s.schedule cfg = .ok (out, s')) :
    ∃ p : Pass X, s.runPass cfg = .ok p ∧ p.checkConstraints cfg = .ok () ∧
      p.checkResumed cfg = .ok () ∧ p.output.1 = out ∧
      p.output.2.updateAfterSchedule cfg out = .ok s' := by
  obtain ⟨p, hrun, h1⟩ := bind_ok h
  obtain ⟨⟨⟩, hcheck, h2⟩ := bind_ok h1
  obtain ⟨⟨⟩, hresumed, h3⟩ := bind_ok h2
  obtain ⟨s1, hafter, h4⟩ := bind_ok h3
  cases h4
  exact ⟨p, hrun, hcheck, hresumed, rfl, hafter⟩

end Scheduler

end MyOperator.Sched
