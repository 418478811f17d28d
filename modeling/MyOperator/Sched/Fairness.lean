import MyOperator.Sched.Update
import MyOperator.Sched.Steps

/-!
# Which running requests a pass considers

The loop over the running requests walks an index along `running` while preemptions
take requests out of it. Beside the pass a `PassRun` carries the requests that were
running at its start, those that the loop picked and those that it skipped. Under the
priority policy no request is passed by, unless the preempted request stands before the
index without having been scheduled: then the index is not moved back.
-/

namespace MyOperator.Sched

open Lib List

variable {X : World}

/-! ## The runs of a pass -/

/-- The request that a step picks. -/
def Phase.considers : Phase X → Phase X → List Ref
  | .runningIdle, .running ref => [ref]
  | _, _ => []

/-- The request that a step skips: it will reach its last token without this step, or there is
nothing to schedule for it. -/
def Phase.skips : Phase X → Phase X → List Ref
  | .running ref, .runningIdle => [ref]
  | .runningWork ref _, .runningIdle => [ref]
  | _, _ => []

/-- A step that preempts the request of the iteration itself ends the loop. -/
def Phase.fails : Phase X → Phase X → Bool
  | .runningFull _ _, .runningEnd => true
  | _, _ => false

/-- A pass with its history. -/
structure PassRun (X : World) where
  pass : Pass X
  phase : Phase X
  start : List Ref
  considered : List Ref := []
  skipped : List Ref := []
  failed : Bool := false

namespace PassRun

/-- The history after a step. -/
def next (r : PassRun X) (pass : Pass X) (phase : Phase X) : PassRun X where
  pass := pass
  phase := phase
  start := r.start
  considered := r.considered ++ Phase.considers r.phase phase
  skipped := r.skipped ++ Phase.skips r.phase phase
  failed := r.failed || Phase.fails r.phase phase

/-- The start of a pass. -/
def ofScheduler (cfg : Config) (s : Scheduler X) : PassRun X where
  pass := s.startPass cfg
  phase := .runningIdle
  start := s.running

/-- The lowest-priority request, if it stands before the index, was scheduled in this pass and
not skipped. -/
def Clean (r : PassRun X) : Prop :=
  ∀ ref work, r.phase = .runningFull ref work → ∀ victim,
    Pass.maxByPriority r.pass.s.objs r.pass.s.running = some victim →
      victim ∈ r.pass.s.running.take r.pass.reqIndex → victim ∈ r.pass.scheduledRunningReqs

/-- The running requests were considered one after the other. `rest` are those that were not
reached: behind all others, and only where the budget is used up or a preemption failed. All
that were neither considered nor left were preempted. -/
structure Fair (r : PassRun X) : Prop where
  reached : ∃ rest, (r.considered ++ rest).Sublist r.start ∧
    r.start.Subperm (r.considered ++ rest ++ r.pass.preemptedReqs) ∧
    (rest = [] ∨ r.pass.tokenBudget ≤ 0 ∨ r.failed = true)
  decided : ∀ ref ∈ r.considered, ref ∈ r.pass.scheduledRunningReqs ∨ ref ∈ r.skipped ∨
    ref ∈ r.pass.preemptedReqs

end PassRun

/-- The passes of `schedule`, from every state that the scheduler reaches. -/
def passRuns (cfg : Config) (m : EncoderManager) (w : X.State) : TSys (PassRun X) where
  init r := ∃ run, (schedulerRuns cfg m w fun _ _ => True).Reachable run ∧
    r = .ofScheduler cfg run.s
  step r r' := Pass.Step cfg (r.pass, r.phase) (r'.pass, r'.phase) ∧ r' = r.next r'.pass r'.phase

/-- The passes in which no skipped request is preempted. -/
def cleanPassRuns (cfg : Config) (m : EncoderManager) (w : X.State) : TSys (PassRun X) where
  init := (passRuns cfg m w).init
  step r r' := r.Clean ∧ (passRuns cfg m w).step r r'

/-! ## The index along `running` -/

namespace PassRun

variable {cfg : Config} {r : PassRun X} {before behind : List Ref} {current : Option Ref}

/-- The index stands behind the requests `before`: those that were scheduled are among them. The
requests `behind` are still to come; `current` is the request of the iteration. -/
structure Cursor (r : PassRun X) (before behind : List Ref) (current : Option Ref) : Prop where
  index : r.pass.reqIndex = before.length
  scheduled : r.pass.scheduledRunningReqs.Sublist before
  order : (r.considered ++ behind).Sublist r.start
  all : r.start.Subperm (r.considered ++ behind ++ r.pass.preemptedReqs)
  decided : ∀ ref ∈ r.considered, ref ∈ r.pass.scheduledRunningReqs ∨ ref ∈ r.skipped ∨
    ref ∈ r.pass.preemptedReqs ∨ current = some ref

/-- What holds in the phases of the loop. -/
def Inv (r : PassRun X) : Prop :=
  match r.phase with
  | .runningIdle => ∃ before behind, r.pass.s.running = before ++ behind ∧
      r.Cursor before behind none
  | .running ref | .runningWork ref _ | .runningBlocks ref _ | .runningFull ref _ =>
    ∃ before behind, r.pass.s.running = before ++ ref :: behind ∧ r.Cursor before behind (some ref)
  | .runningEnd => r.Fair
  | _ => True

theorem inv_ofScheduler (cfg : Config) (s : Scheduler X) : (ofScheduler cfg s).Inv := by
  refine ⟨[], s.running, rfl, rfl, Sublist.refl _, Sublist.refl _, ?_,
    fun ref href => (nomatch href)⟩
  show s.running.Subperm ([] ++ s.running ++ [])
  rw [nil_append, append_nil]

theorem subperm_preempted {l considered behind preempted : List Ref} (victim : Ref)
    (h : l.Subperm (considered ++ behind ++ preempted)) :
    l.Subperm (considered ++ behind ++ (preempted ++ [victim])) := by
  refine h.trans (Sublist.subperm ?_)
  exact Sublist.append_left (sublist_append_left _ _) _

theorem subperm_erase {l considered behind preempted : List Ref} {victim : Ref}
    (hmem : victim ∈ behind) (h : l.Subperm (considered ++ behind ++ preempted)) :
    l.Subperm (considered ++ behind.erase victim ++ (preempted ++ [victim])) := by
  refine h.trans (Perm.subperm ?_)
  rw [append_assoc, append_assoc]
  refine Perm.append_left _ ?_
  calc (behind ++ preempted).Perm (victim :: behind.erase victim ++ preempted) :=
        (perm_cons_erase hmem).append_right _
    _ = victim :: (behind.erase victim ++ preempted) := cons_append
    _ |>.Perm (behind.erase victim ++ preempted ++ [victim]) := (perm_append_singleton _ _).symm
    _ = behind.erase victim ++ (preempted ++ [victim]) := append_assoc ..

/-- The index moves past the request of the iteration, which was scheduled or skipped. -/
theorem Cursor.advance {r' : PassRun X} {ref : Ref} (h : r.Cursor before behind (some ref))
    (hphase : r'.phase = .runningIdle) (hrunning : r'.pass.s.running = before ++ ref :: behind)
    (hindex : r'.pass.reqIndex = r.pass.reqIndex + 1)
    (hsched : r'.pass.scheduledRunningReqs.Sublist (r.pass.scheduledRunningReqs ++ [ref]))
    (hstart : r'.start = r.start) (hcons : r'.considered = r.considered)
    (hpre : r'.pass.preemptedReqs = r.pass.preemptedReqs)
    (hkept : r.pass.scheduledRunningReqs ⊆ r'.pass.scheduledRunningReqs)
    (hskipped : r.skipped ⊆ r'.skipped)
    (href : ref ∈ r'.pass.scheduledRunningReqs ∨ ref ∈ r'.skipped) : r'.Inv := by
  unfold Inv
  rw [hphase]
  refine ⟨before ++ [ref], behind, by rw [hrunning, append_cons], ?_, ?_, ?_, ?_, ?_⟩
  · rw [hindex, h.index, length_append, length_singleton]
  · exact hsched.trans (h.scheduled.append_right _)
  · rw [hcons, hstart]
    exact h.order
  · rw [hcons, hstart, hpre]
    exact h.all
  · intro v hv
    rw [hcons] at hv
    rw [hpre]
    rcases h.decided v hv with h1 | h1 | h1 | h1
    · exact .inl (hkept h1)
    · exact .inr (.inl (hskipped h1))
    · exact .inr (.inr (.inl h1))
    · obtain rfl := Option.some.inj h1
      exact href.imp_right .inl

theorem Cursor.keep {r' : PassRun X} (h : r.Cursor before behind current)
    (hindex : r'.pass.reqIndex = r.pass.reqIndex)
    (hsched : r'.pass.scheduledRunningReqs = r.pass.scheduledRunningReqs)
    (hstart : r'.start = r.start) (hcons : r'.considered = r.considered)
    (hpre : r'.pass.preemptedReqs = r.pass.preemptedReqs) (hskipped : r'.skipped = r.skipped) :
    r'.Cursor before behind current where
  index := hindex.trans h.index
  scheduled := hsched ▸ h.scheduled
  order := by
    rw [hcons, hstart]
    exact h.order
  all := by
    rw [hcons, hstart, hpre]
    exact h.all
  decided := by
    rw [hcons, hsched, hskipped, hpre]
    exact h.decided

theorem Cursor.fair (h : r.Cursor before behind none)
    (hrest : behind = [] ∨ r.pass.tokenBudget ≤ 0 ∨ r.failed = true) : r.Fair where
  reached := ⟨behind, h.order, h.all, hrest⟩
  decided := by
    intro v hv
    rcases h.decided v hv with h1 | h1 | h1 | h1
    · exact .inl h1
    · exact .inr (.inl h1)
    · exact .inr (.inr h1)
    · cases h1

/-- A preemption: the victim is before the index, and the index moves back, or behind it, or it is
the request of the iteration. -/
theorem Cursor.preempt {r' : PassRun X} {p : Pass X} {ref victim : Ref} {work : Work}
    (hpolicy : cfg.policy = .priority) (hclean : r.Clean)
    (hphase : r.phase = .runningFull ref work)
    (hrunning : r.pass.s.running = before ++ ref :: behind)
    (h : r.Cursor before behind (some ref)) (hpop : r.pass.popVictim cfg = .ok (victim, p))
    (hpre : p.preemptVictim cfg victim = .ok r'.pass) (hstart : r'.start = r.start)
    (hcons : r'.considered = r.considered) (hskipped : r'.skipped = r.skipped) :
    ∃ before' behind', r'.Cursor before' behind' (if victim = ref then none else some ref) ∧
      (victim ≠ ref → r'.pass.s.running = before' ++ ref :: behind') := by
  have hmax := Pass.popVictim_max hpolicy hpop
  have hbefore : r.pass.s.running.take r.pass.reqIndex = before := by
    rw [hrunning, h.index, take_left']
    rfl
  have hcond := hclean ref work hphase victim hmax
  rw [hbefore] at hcond
  obtain ⟨-, m, world, waiting, -, -, heq⟩ := Pass.preemptVictim_effect hpre
  have hpreempted : r'.pass.preemptedReqs = p.preemptedReqs ++ [victim] := by rw [heq]
  -- a request that was decided stays so, or is the victim
  have hdecided : p.preemptedReqs = r.pass.preemptedReqs →
      (∀ v, v ∈ r.pass.scheduledRunningReqs → v ≠ victim → v ∈ p.scheduledRunningReqs) →
      ∀ v ∈ r'.considered, v ∈ r'.pass.scheduledRunningReqs ∨ v ∈ r'.skipped ∨
        v ∈ r'.pass.preemptedReqs ∨ (if victim = ref then none else some ref) = some v := by
    intro hp hkeep v hv
    rw [hcons] at hv
    rw [hskipped, hpreempted, hp]
    by_cases hvv : v = victim
    · exact .inr (.inr (.inl (mem_append_right _ (mem_singleton.mpr hvv))))
    · rcases h.decided v hv with h1 | h1 | h1 | h1
      · refine .inl ?_
        rw [heq]
        exact hkeep v h1 hvv
      · exact .inr (.inl h1)
      · exact .inr (.inr (.inl (mem_append_left _ h1)))
      · obtain rfl := Option.some.inj h1
        exact .inr (.inr (.inr (if_neg (Ne.symm hvv))))
  rcases Pass.popVictim_effect hpop with ⟨hfcfs, -⟩ | ⟨-, hmem, hsched, rfl⟩ | ⟨-, hmem, hsched, hun⟩
  · rw [hpolicy] at hfcfs
    cases hfcfs
  · -- not scheduled, so not before the index
    have hnot : victim ∉ before := fun hin => hsched (hcond hin)
    have hrun' : r'.pass.s.running = before ++ (ref :: behind).erase victim := by
      rw [heq]
      show r.pass.s.running.erase victim = _
      rw [hrunning, erase_append_right _ hnot]
    have hindex : r'.pass.reqIndex = before.length := by
      rw [heq]
      exact h.index
    have hsub : r'.pass.scheduledRunningReqs.Sublist before := by
      rw [heq]
      exact h.scheduled
    have hdec := hdecided rfl fun v hv _ => hv
    by_cases hv : victim = ref
    · refine ⟨before, behind, ⟨hindex, hsub, ?_, ?_, hdec⟩, fun hne => absurd hv hne⟩
      · rw [hcons, hstart]
        exact h.order
      · rw [hcons, hstart, hpreempted]
        exact subperm_preempted victim h.all
    · have hbehind : victim ∈ behind := by
        rw [hrunning] at hmem
        rcases mem_append.mp hmem with hin | hin
        · exact absurd hin hnot
        · exact (mem_cons.mp hin).resolve_left hv
      refine ⟨before, behind.erase victim, ⟨hindex, hsub, ?_, ?_, hdec⟩, fun _ => ?_⟩
      · rw [hcons, hstart]
        exact ((erase_sublist).append_left _).trans h.order
      · rw [hcons, hstart, hpreempted]
        exact subperm_erase hbehind h.all
      · rw [hrun', erase_cons_tail (by simpa using Ne.symm hv)]
  · -- scheduled, so before the index
    obtain ⟨n, k, -, -, rfl⟩ := Pass.unschedule_effect hun
    have hin : victim ∈ before := h.scheduled.subset hsched
    have hindex : r'.pass.reqIndex = (before.erase victim).length := by
      rw [heq, length_erase_of_mem hin, ← h.index]
    have hsub : r'.pass.scheduledRunningReqs.Sublist (before.erase victim) := by
      rw [heq]
      exact h.scheduled.erase victim
    have hdec := hdecided rfl fun v hv hne => (mem_erase_of_ne hne).mpr hv
    refine ⟨before.erase victim, behind, ⟨hindex, hsub, ?_, ?_, hdec⟩, fun _ => ?_⟩
    · rw [hcons, hstart]
      exact h.order
    · rw [hcons, hstart, hpreempted]
      exact subperm_preempted victim h.all
    · rw [heq]
      show r.pass.s.running.erase victim = _
      rw [hrunning, erase_append_left _ hin]

theorem Inv.step {p' : Pass X} {phase' : Phase X} (hpolicy : cfg.policy = .priority) (h : r.Inv)
    (hclean : r.Clean) (hstep : Pass.Step cfg (r.pass, r.phase) (p', phase')) :
    (r.next p' phase').Inv := by
  obtain ⟨p, phase, start, considered, skipped, failed⟩ := r
  dsimp only at hstep
  cases hstep with
  | @pickRunning _ ref hmore =>
    obtain ⟨before, behind, hrun, hcursor⟩ := h
    replace hrun : p'.s.running = before ++ behind := hrun
    obtain ⟨hlt, hget⟩ := List.getElem?_eq_some_iff.mp hmore.1
    have hdrop : behind = ref :: p'.s.running.drop (p'.reqIndex + 1) := by
      rw [← hget, getElem_cons_drop, hrun, show p'.reqIndex = before.length from hcursor.index,
        drop_left']
      rfl
    generalize p'.s.running.drop (p'.reqIndex + 1) = rest at hdrop
    subst hdrop
    refine ⟨before, rest, hrun, hcursor.index, hcursor.scheduled, ?_, ?_, ?_⟩
    · show (considered ++ [ref] ++ rest).Sublist start
      rw [append_assoc]
      exact hcursor.order
    · show start.Subperm (considered ++ [ref] ++ rest ++ p'.preemptedReqs)
      rw [append_assoc considered]
      exact hcursor.all
    · intro v hv
      rcases mem_append.mp hv with hv | hv
      · rcases hcursor.decided v hv with h1 | h1 | h1 | h1
        · exact .inl h1
        · exact .inr (.inl (mem_append_left _ h1))
        · exact .inr (.inr (.inl h1))
        · cases h1
      · rw [mem_singleton.mp hv]
        exact .inr (.inr (.inr rfl))
  | endRunning hend =>
    obtain ⟨before, behind, hrun, hcursor⟩ := h
    have hcursor' : Cursor ⟨p', .runningEnd, start, considered ++ [], skipped ++ [],
        failed || false⟩ before behind none := by
      rw [append_nil, append_nil]
      exact { hcursor with }
    refine hcursor'.fair ?_
    cases behind with
    | nil => exact .inl rfl
    | cons ref rest =>
      refine .inr (.inl ?_)
      by_contra hbudget
      refine hend ref ⟨?_, Int.not_le.mp hbudget⟩
      rw [hrun, show p'.reqIndex = before.length from hcursor.index,
        getElem?_append_right (Nat.le_refl _), Nat.sub_self]
      rfl
  | passOver hmax =>
    obtain ⟨before, behind, hrun, hcursor⟩ := h
    exact hcursor.advance rfl hrun rfl (sublist_append_left _ _) rfl (append_nil _) rfl
      (Subset.refl _) (subset_append_left _ _) (.inr (mem_append_right _ mem_cons_self))
  | planRunning hmax hplan hsplit =>
    obtain ⟨m, rfl⟩ := Pass.scheduleEncoderInputs_effect hplan
    obtain ⟨before, behind, hrun, hcursor⟩ := h
    refine ⟨before, behind, hrun, ?_⟩
    exact hcursor.keep rfl rfl rfl (append_nil _) rfl (append_nil _)
  | noTokens hzero =>
    obtain ⟨before, behind, hrun, hcursor⟩ := h
    exact hcursor.advance rfl hrun rfl (sublist_append_left _ _) rfl (append_nil _) rfl
      (Subset.refl _) (subset_append_left _ _) (.inr (mem_append_right _ mem_cons_self))
  | @tryAllocate p ref work allocated world hne hslots =>
    obtain ⟨before, behind, hrun, hcursor⟩ := h
    have hkeep : ∀ phase', Cursor ⟨p.setWorld world, phase', start, considered ++ [],
        skipped ++ [], failed || false⟩ before behind (some ref) := fun phase' =>
      hcursor.keep rfl rfl rfl (append_nil _) rfl (append_nil _)
    cases allocated with
    | true => exact ⟨before, behind, hrun, hkeep _⟩
    | false => exact ⟨before, behind, hrun, hkeep _⟩
  | @preempt _ q _ ref work victim hpop hpre =>
    obtain ⟨before, behind, hrun, hcursor⟩ := h
    by_cases hv : victim = ref
    · simp only [if_pos hv]
      obtain ⟨before', behind', hcursor', -⟩ := @Cursor.preempt _ _ _ before behind
        ⟨p', .runningEnd, start, considered ++ [], skipped ++ [], failed || true⟩ q ref victim work
        hpolicy hclean rfl hrun hcursor hpop hpre rfl (append_nil _) (append_nil _)
      rw [if_pos hv] at hcursor'
      exact hcursor'.fair (.inr (.inr (Bool.or_true _)))
    · simp only [if_neg hv]
      obtain ⟨before', behind', hcursor', hrun'⟩ := @Cursor.preempt _ _ _ before behind
        ⟨p', .runningWork ref work, start, considered ++ [], skipped ++ [], failed || false⟩ q ref
        victim work hpolicy hclean rfl hrun hcursor hpop hpre rfl (append_nil _) (append_nil _)
      rw [if_neg hv] at hcursor'
      exact ⟨before', behind', hrun' hv, hcursor'⟩
  | scheduleRunning hsched =>
    obtain ⟨before, behind, hrun, hcursor⟩ := h
    obtain ⟨d, hencoder⟩ := Pass.scheduleRunning_effect hsched
    obtain ⟨_, _, _, _, _, rfl⟩ := (Pass.allocateEncoder_effect hencoder).eq
    exact hcursor.advance rfl hrun rfl (Sublist.refl _) rfl (append_nil _) rfl
      (subset_append_left _ _) (subset_append_left _ _) (.inl (mem_append_right _ mem_cons_self))
  | recordLoras _ =>
    unfold PassRun.next
    split_ifs <;> trivial
  | promote _ =>
    unfold PassRun.next
    split_ifs <;> trivial
  | allocateWaiting _ =>
    unfold PassRun.next
    split_ifs <;> trivial
  | _ => trivial

end PassRun

/-- Under the priority policy every pass in which no skipped request is preempted considers the
running requests one after the other. -/
theorem running_fair (cfg : Config) (hpolicy : cfg.policy = .priority) (m : EncoderManager)
    (w : X.State) : (cleanPassRuns cfg m w).Invariant fun r => r.phase = .runningEnd → r.Fair := by
  have hinv : (cleanPassRuns cfg m w).Inductive PassRun.Inv := {
    base := by
      rintro r ⟨run, -, rfl⟩
      exact PassRun.inv_ofScheduler cfg run.s
    step := by
      rintro r r' h ⟨hclean, hstep, hnext⟩
      rw [hnext]
      exact h.step hpolicy hclean hstep }
  intro r hr hphase
  have h := hinv.invariant r hr
  unfold PassRun.Inv at h
  rw [hphase] at h
  exact h

/-- A request with a priority and a prompt. -/
def patientRequest (requestId : Nat) (priority : Int) (promptTokenIds : List TokenId) : Request where
  requestId := requestId
  priority := priority
  samplingParams := some { maxTokens := 10 }
  promptTokenIds := some promptTokenIds

/-- Prompts are computed two tokens at a time. -/
def chunkConfig : Config where
  policy := .priority
  maxNumRunningReqs := 4
  maxNumScheduledTokens := 100
  maxModelLen := 100
  longPrefillTokenThreshold := 2

/-- The passes over blocks for six tokens. -/
theorem running_fair_chunked :
    (cleanPassRuns chunkConfig (.multimodal (.init 0)) (show (smallWorld 6).State from .empty)).Invariant
      fun r => r.phase = .runningEnd → r.Fair :=
  running_fair chunkConfig rfl _ _

theorem PassRun.reach {cfg : Config} {m : EncoderManager} {w : X.State} {r : PassRun X}
    {p : Pass X} {phase : Phase X} (hr : (passRuns cfg m w).Reachable r)
    (hstep : Pass.Step cfg (r.pass, r.phase) (p, phase)) :
    (passRuns cfg m w).Reachable (r.next p phase) := hr.step ⟨hstep, rfl⟩

/-- The first request waits for the output of its whole prompt when two more are admitted. -/
def threeRunning : Except PyError (Scheduler (smallWorld 6)) := do
  let s : Scheduler (smallWorld 6) := .initial (.multimodal (.init 0)) .empty
  let first ← Request.init none (patientRequest 1 5 [1])
  let second ← Request.init none (patientRequest 2 0 [1, 2, 3, 4, 5])
  let third ← Request.init none (patientRequest 3 0 [1, 2, 3, 4, 5])
  let s ← s.addRequest chunkConfig first
  let (_, s) ← s.schedule chunkConfig
  let s ← s.addRequest chunkConfig second
  let s ← s.addRequest chunkConfig third
  let (_, s) ← s.schedule chunkConfig
  .ok s

/-- In the next pass the first request is skipped and then preempted for the second: the third
request, for which there is budget, is not considered. -/
theorem request_passed_by : ∃ r : PassRun (smallWorld 6),
    (passRuns chunkConfig (.multimodal (.init 0)) (Dict.empty : Dict Nat Nat)).Reachable r ∧
      r.phase = .runningEnd ∧ ¬ r.Fair := by
  have hrun := eq_ok_get (x := threeRunning) rfl
  generalize hs : threeRunning.toOption.get rfl = s at hrun
  have hreach : ∃ outs, (schedulerRuns chunkConfig (.multimodal (.init 0))
      (Dict.empty : Dict Nat Nat) fun _ _ => True).Reachable ⟨s, outs⟩ := by
    obtain ⟨first, hinit1, h1⟩ := bind_ok hrun
    obtain ⟨second, hinit2, h2⟩ := bind_ok h1
    obtain ⟨third, hinit3, h3⟩ := bind_ok h2
    obtain ⟨s1, hadd1, h4⟩ := bind_ok h3
    obtain ⟨⟨out1, s2⟩, hsched1, h5⟩ := bind_ok h4
    obtain ⟨s3, hadd2, h6⟩ := bind_ok h5
    obtain ⟨s4, hadd3, h7⟩ := bind_ok h6
    obtain ⟨⟨out2, s5⟩, hsched2, h8⟩ := bind_ok h7
    cases h8
    refine ⟨[out1, out2], ?_⟩
    refine .step (s := ⟨s4, [out1]⟩) (.step (s := ⟨s3, [out1]⟩) (.step (s := ⟨s2, [out1]⟩)
      (.step (s := ⟨s1, []⟩) (.step (.init rfl) ?_) ?_) ?_) ?_) ?_
    · exact ⟨.addRequest _, trivial, ⟨first, hinit1, hadd1⟩, rfl⟩
    · exact ⟨.schedule out1, trivial, hsched1, rfl⟩
    · exact ⟨.addRequest _, trivial, ⟨second, hinit2, hadd2⟩, rfl⟩
    · exact ⟨.addRequest _, trivial, ⟨third, hinit3, hadd3⟩, rfl⟩
    · exact ⟨.schedule out2, trivial, hsched2, rfl⟩
  obtain ⟨outs, hreach⟩ := hreach
  have h0 : (passRuns chunkConfig (.multimodal (.init 0)) (Dict.empty : Dict Nat Nat)).Reachable
      (.ofScheduler chunkConfig s) := .init ⟨_, hreach, rfl⟩
  subst hs
  have h1 := PassRun.reach h0 (@Pass.Step.pickRunning _ chunkConfig _ 0 ⟨rfl, by decide⟩)
  have h2 := PassRun.reach h1 (.planRunning rfl rfl rfl)
  have h3 := PassRun.reach h2 (.noTokens rfl)
  have h4 := PassRun.reach h3 (@Pass.Step.pickRunning _ chunkConfig _ 1 ⟨rfl, by decide⟩)
  have h5 := PassRun.reach h4 (.planRunning rfl rfl rfl)
  have h6 := PassRun.reach h5 (@Pass.Step.tryAllocate _ chunkConfig _ _ _ false _ (by decide) rfl)
  have h7 := PassRun.reach h6 (@Pass.Step.preempt _ chunkConfig _ _ _ _ _ 0 rfl rfl)
  have h8 := PassRun.reach h7 (@Pass.Step.tryAllocate _ chunkConfig _ _ _ true _ (by decide) rfl)
  have h9 := PassRun.reach h8 (.scheduleRunning rfl)
  have h10 := PassRun.reach h9 (.endRunning fun ref hmore => (nomatch hmore.1))
  refine ⟨_, h10, rfl, fun hfair => ?_⟩
  obtain ⟨rest, -, hall, hrest⟩ := hfair.reached
  obtain rfl : rest = [] := hrest.resolve_right (by decide)
  have hmem : 2 ∈ [0, 1] ++ [] ++ [0] := hall.subset (show 2 ∈ [0, 1, 2] by decide)
  exact absurd hmem (by decide)

end MyOperator.Sched
