import MyOperator.Sched.Partition

/-!
# How many requests run

`schedule` admits requests while there are fewer than `max_num_running_reqs`; no other
call adds a request to `running`.
-/

namespace MyOperator.Sched

open Lib

theorem removeAll_sublist (l items : List Ref) : (removeAll l items).Sublist l := by
  unfold removeAll
  split
  · exact .refl l
  · exact List.erase_sublist
  · exact List.filter_sublist

/-! ## The calls other than `schedule` -/

namespace Scheduler

variable {cfg : Config} {X : World} {s s' : Scheduler X} {ref : Ref}

/-- Requests left `running`, and no other came. -/
def RunsLess (s s' : Scheduler X) : Prop := s'.running.Sublist s.running

theorem RunsLess.refl (s : Scheduler X) : RunsLess s s := List.Sublist.refl _

theorem RunsLess.trans {s'' : Scheduler X} (h : RunsLess s s') (h' : RunsLess s' s'') :
    RunsLess s s'' := List.Sublist.trans h' h

theorem RunsLess.foldlM {α : Type} {f : Scheduler X → α → Except PyError (Scheduler X)}
    (hf : ∀ s a s', f s a = .ok s' → RunsLess s s') {l : List α}
    (h : l.foldlM f s = .ok s') : RunsLess s s' := by
  refine foldlM_keeps (P := fun t => RunsLess s t) ?_ (.refl s) h
  intro t a _ t' ht hstep
  exact ht.trans (hf t a t' hstep)

theorem freeBlocks_runsLess (h : s.freeBlocks ref = .ok s') : RunsLess s s' := by
  obtain ⟨-, world, rfl⟩ := freeBlocks_effect h
  exact .refl s

theorem finishRequests_runsLess {requestIds : Option (List Nat)} {finishedStatus : RequestStatus}
    (h : s.finishRequests cfg requestIds finishedStatus = .ok s') : RunsLess s s' := by
  obtain ⟨⟨⟩, -, hrun⟩ := bind_ok h
  have hdequeue : ∀ valid, RunsLess s (s.dequeue cfg valid) := fun valid => removeAll_sublist _ _
  refine (hdequeue _).trans (.foldlM ?_ hrun)
  intro t r t' hstep
  obtain ⟨-, m, world, requests, recving, failed, -, -, rfl⟩ := finishOne_effect hstep
  exact .refl t

theorem enqueueWaitingRequest_running (cfg : Config) (s : Scheduler X) (ref : Ref) :
    (s.enqueueWaitingRequest cfg ref).running = s.running := by
  rcases enqueueWaitingRequest_effect cfg s ref with ⟨-, q, -, heq⟩ | ⟨-, q, -, heq⟩
  · rw [heq]
  · rw [heq]

theorem addRequest_runsLess {request : Request} (h : s.addRequest cfg request = .ok s') :
    RunsLess s s' := by
  unfold addRequest at h
  split at h
  · dsimp only at h
    split at h
    · split at h
      · cases h
      · cases h
        exact .refl s
    · split at h
      · obtain ⟨session, n, -, rfl⟩ := updateRequestAsSession_effect h
        exact .refl s
      · exact finishRequests_runsLess h
  · have hrunning := congrArg Scheduler.running (Except.ok.inj h)
    unfold RunsLess
    rw [← hrunning]
    exact (enqueueWaitingRequest_running cfg _ _).symm ▸ List.Sublist.refl _

theorem forcePreemptAll_runsLess {refs : List Ref} (h : forcePreemptAll cfg refs s = .ok s') :
    RunsLess s s' := by
  induction refs generalizing s with
  | nil =>
    cases h
    exact .refl _
  | cons ref refs ih =>
    unfold forcePreemptAll at h
    obtain ⟨s1, hforce, hrest⟩ := bind_ok h
    unfold forcePreempt at hforce
    obtain ⟨s2, hpre, h1⟩ := bind_ok hforce
    cases h1
    obtain ⟨-, m, world, waiting, -, -, rfl⟩ := preemptRequest_effect hpre
    have hdrop : s'.running.Sublist s.running.dropLast := ih hrest
    exact hdrop.trans (List.dropLast_sublist _)

theorem resetPrefixCache_runsLess {resetRunningRequests resetConnector b : Bool}
    (h : s.resetPrefixCache cfg resetRunningRequests resetConnector = .ok (b, s')) :
    RunsLess s s' := by
  refine resetPrefixCache_keeps (P := RunsLess s) (fun _ _ _ ht => ht) (.refl s) ?_ h
  intro t _ hall
  exact forcePreemptAll_runsLess hall

theorem handleStoppedRequest_running {finished : Bool}
    (h : s.handleStoppedRequest cfg ref = .ok (finished, s')) : s'.running = s.running := by
  rcases handleStoppedRequest_effect h with ⟨-, -, queue, rfl⟩ |
    ⟨-, -, update, rest, session, n, waiting, -, -, -, rfl⟩ | ⟨-, -, n, skipped, -, rfl⟩
  · rfl
  · rfl
  · rfl

end Scheduler

namespace UpdatePass

variable {cfg : Config} {X : World} {p p' : UpdatePass X} {ref : Ref}

theorem stopRequest_running {statusBeforeStop : RequestStatus}
    (h : p.stopRequest cfg ref statusBeforeStop = .ok p') : p'.s.running = p.s.running := by
  obtain ⟨⟨finished, s1⟩, hstop, h1⟩ := bind_ok h
  obtain ⟨s2, hfree, h2⟩ := bind_ok h1
  have hs2 : s2.running = p.s.running := by
    refine Eq.trans ?_ (Scheduler.handleStoppedRequest_running hstop)
    split at hfree
    · obtain ⟨-, m, world, requests, -, -, rfl⟩ := Scheduler.freeRequest_effect hfree
      rfl
    · cases hfree
      rfl
  split at h2
  · cases h2
    exact hs2
  · cases h2
    exact hs2

theorem processScheduled_running {out : SchedulerOutput} {mro : ModelRunnerOutput}
    {failed : List Nat} {reqId : Nat} {n : Int}
    (h : p.processScheduled cfg out mro failed reqId n = .ok p') : p'.s.running = p.s.running := by
  obtain ⟨⟨⟩, -, h1⟩ := bind_ok h
  split at h1
  · cases h1
    rfl
  · split at h1
    · cases h1
      rfl
    · obtain ⟨generated, -, h2⟩ := bind_ok h1
      obtain ⟨pooler, -, h3⟩ := bind_ok h2
      obtain ⟨r', world, p1, -, -, -, -, -, hcase, world', outputs, rfl⟩ := processOutput_effect h3
      rcases hcase with ⟨-, -, rfl⟩ | ⟨-, -, hstop⟩
      · rfl
      · have hrunning := stopRequest_running hstop
        exact hrunning

end UpdatePass

namespace Scheduler

variable {cfg : Config} {X : World} {s s' : Scheduler X}

theorem updateFromOutput_runsLess {out : SchedulerOutput} {mro : ModelRunnerOutput}
    {outputs : List EngineCoreOutput}
    (h : s.updateFromOutput cfg out mro = .ok (outputs, s')) : RunsLess s s' := by
  obtain ⟨p, failedOutputs, s2, hloop, hfail, hkeep⟩ := updateFromOutput_keeps (P := RunsLess s)
    (fun _ _ _ ht => ht) (fun _ _ _ _ ht _ hfree => ht.trans (freeBlocks_runsLess hfree)) h
  have hp : p.s.running = s.running := by
    refine foldlM_keeps (P := fun q : UpdatePass X => q.s.running = s.running) ?_
      (handleFailedLoads_counts cfg s out mro).running hloop
    intro q e _ q' hq hstep
    exact (UpdatePass.processScheduled_running hstep).trans hq
  have hremoved : RunsLess s (p.removeStopped cfg) := by
    show (removeAll p.s.running _).Sublist s.running
    rw [hp]
    exact removeAll_sublist _ _
  refine hkeep ?_
  rcases failRequests_effect hfail with rfl | ⟨-, hfinish⟩
  · exact hremoved
  · exact hremoved.trans (finishRequests_runsLess hfinish)

theorem updateDraftTokenIds_running (drafts : List (Nat × List TokenId)) :
    (s.updateDraftTokenIds drafts).running = s.running := by
  unfold updateDraftTokenIds
  induction drafts generalizing s with
  | nil => rfl
  | cons d drafts ih =>
    rw [List.foldl_cons, ih]
    unfold updateDraft
    split
    · rfl
    · split <;> rfl

end Scheduler

/-! ## `schedule` -/

namespace Pass

variable {cfg : Config} {X : World} {p q : Pass X} {ref : Ref} {work : Work}

/-- There is room for one more request. -/
def Phase.picked : Phase X → Bool
  | .waiting _ _ | .waitingReady _ _ | .waitingComputed _ _ _ | .waitingWork _ _ _ _
  | .waitingBlocks _ _ _ _ => true
  | _ => false

/-- No more requests run than allowed, and one less while one is to be admitted. -/
structure RoomInv (cfg : Config) (p : Pass X) (phase : Phase X) : Prop where
  le : p.s.running.length ≤ cfg.maxNumRunningReqs
  lt : Phase.picked phase = true → p.s.running.length < cfg.maxNumRunningReqs

theorem RoomInv.keep {phase phase' : Phase X} (h : RoomInv cfg p phase)
    (hrunning : q.s.running = p.s.running)
    (hpicked : Phase.picked phase' = true → Phase.picked phase = true) : RoomInv cfg q phase' := by
  refine ⟨hrunning ▸ h.le, fun hp => ?_⟩
  rw [hrunning]
  exact h.lt (hpicked hp)

theorem Step.roomInv {a b : Pass X × Phase X} (h : Step cfg a b) (ha : RoomInv cfg a.1 a.2)
    (hphase : PhaseInv cfg a.1 a.2) : RoomInv cfg b.1 b.2 := by
  cases h with
  | pickRunning _ => exact ha.keep rfl id
  | endRunning _ => exact ha.keep rfl id
  | passOver _ => exact ha.keep rfl id
  | planRunning _ hplan _ =>
    obtain ⟨m, rfl⟩ := scheduleEncoderInputs_effect hplan
    exact ha.keep rfl id
  | noTokens _ => exact ha.keep rfl id
  | @tryAllocate p _ _ allocated _ _ _ => cases allocated <;> exact ha.keep rfl id
  | @preempt p q r ref work victim hpop hpre =>
    have hlen : r.s.running.length + 1 = p.s.running.length := (preempt_runningLeft hpop hpre).2
    have hle : p.s.running.length ≤ cfg.maxNumRunningReqs := ha.le
    refine ⟨?_, ?_⟩
    · show r.s.running.length ≤ _
      omega
    · intro hpicked
      split at hpicked <;> cases hpicked
  | scheduleRunning hsched =>
    obtain ⟨d, hencoder⟩ := scheduleRunning_effect hsched
    obtain ⟨_, _, _, _, _, rfl⟩ := (allocateEncoder_effect hencoder).eq
    exact ha.keep rfl id
  | recordLoras hloras =>
    obtain ⟨loras, rfl⟩ := recordLoras_effect hloras
    refine ha.keep rfl fun hpicked => ?_
    split at hpicked <;> cases hpicked
  | pickWaiting hmore hpeek =>
    refine ⟨ha.le, fun _ => lt_of_le_of_ne ha.le fun heq => hmore (.inr (.inr heq))⟩
  | endWaiting _ => exact ha.keep rfl id
  | promote hprom =>
    rcases promote_effect hprom with ⟨rfl, -⟩ | ⟨-, -, world, finished, failed, r', -, rfl⟩
    · exact ha.keep rfl fun _ => rfl
    · exact ha.keep rfl fun _ => rfl
  | noMatchYet hget =>
    obtain ⟨world, n, rfl⟩ := getComputed_effect hget
    exact ha.keep rfl fun _ => rfl
  | @skip _ _ source _ hskip =>
    obtain ⟨l, skipped, -, -, rfl⟩ := skipRequest_effect hphase hskip
    cases source <;> exact ha.keep rfl fun hpicked => (nomatch hpicked)
  | getComputed hget =>
    obtain ⟨world, n, rfl⟩ := getComputed_effect hget
    exact ha.keep rfl id
  | giveUp hplan =>
    obtain ⟨m, rfl⟩ := planWaiting_effect hplan
    exact ha.keep rfl fun hpicked => (nomatch hpicked)
  | planWaiting hplan =>
    obtain ⟨m, rfl⟩ := planWaiting_effect hplan
    exact ha.keep rfl id
  | @allocateWaiting _ _ _ _ _ _ allocated halloc =>
    obtain ⟨world, rfl⟩ := allocateWaiting_effect halloc
    exact ha.keep rfl fun _ => rfl
  | untouch hun =>
    obtain ⟨m, rfl⟩ := untouchEncoder_effect hun
    exact ha.keep rfl id
  | @admitOrLoad p _ source ref computed work hadmit =>
    have hlt : p.s.running.length < cfg.maxNumRunningReqs := ha.lt rfl
    have hrunning : ∀ world l, ((p.setWorld world).withQueue source l).s.running = p.s.running := by
      intro world l
      cases source <;> rfl
    refine ⟨?_, fun hpicked => (nomatch hpicked)⟩
    obtain ⟨l, world, -, ⟨-, rfl⟩ | ⟨-, hadmit⟩⟩ := admitOrLoad_effect hphase hadmit
    · obtain ⟨step, -, heq⟩ :=
        startLoad_effect cfg ((p.setWorld world).withQueue source l) ref computed
      show ((p.setWorld world).withQueue source l).s.running.length ≤ _
      rw [hrunning]
      exact hlt.le
    · obtain ⟨new, resumed, loras, -, hencoder⟩ := admitRequest_effect hadmit
      obtain ⟨_, _, _, _, _, rfl⟩ := (allocateEncoder_effect hencoder).eq
      show (((p.setWorld world).withQueue source l).s.running ++ [ref]).length ≤ _
      rw [hrunning, List.length_append]
      exact hlt
  | requeue => exact ha.keep rfl id

theorem Steps.roomInv {a b : Pass X × Phase X} (h : Steps cfg a b) (hp : PlacesInv a.1)
    (hphase : PhaseInv cfg a.1 a.2) (ha : RoomInv cfg a.1 a.2) : RoomInv cfg b.1 b.2 := by
  induction h with
  | refl => exact ha
  | tail hsteps hstep ih => exact hstep.roomInv ih (Steps.placesInv hsteps ⟨hp, hphase⟩).2

end Pass

/-! ## Runs -/

theorem startPass_roomInv {cfg : Config} {X : World} {s : Scheduler X}
    (h : s.running.length ≤ cfg.maxNumRunningReqs) :
    Pass.RoomInv cfg (s.startPass cfg) .runningIdle := ⟨h, fun hpicked => (nomatch hpicked)⟩

theorem does_room {cfg : Config} {X : World} {s s' : Scheduler X} {e : Event}
    (hp : s.places.Partition []) (hroom : s.running.length ≤ cfg.maxNumRunningReqs)
    (h : s.Does cfg e s') : s'.running.length ≤ cfg.maxNumRunningReqs := by
  have hless : Scheduler.RunsLess s s' → s'.running.length ≤ cfg.maxNumRunningReqs :=
    fun hsub => hsub.length_le.trans hroom
  cases e with
  | addRequest args =>
    obtain ⟨request, -, hadd⟩ := h
    exact hless (Scheduler.addRequest_runsLess hadd)
  | schedule out =>
    obtain ⟨p, hrun, -, -, rfl, hafter⟩ := Scheduler.schedule_eq_ok h
    obtain ⟨hp0, hrun0⟩ := Scheduler.startPass_inv cfg hp
    have hend : p.s.running.length ≤ cfg.maxNumRunningReqs :=
      ((Scheduler.runPass_steps hrun).roomInv hp0 hrun0 (startPass_roomInv hroom)).le
    have hplaces := congrFun (congrArg Places.queue
      (Scheduler.updateAfterSchedule_places hafter)) .running
    have hrunning : s'.running = p.s.running := hplaces
    rw [hrunning]
    exact hend
  | updateFromOutput out mro =>
    obtain ⟨outputs, hupdate⟩ := h
    exact hless (Scheduler.updateFromOutput_runsLess hupdate)
  | finishRequests ids status => exact hless (Scheduler.finishRequests_runsLess h)
  | resetPrefixCache b c =>
    obtain ⟨ok, hreset⟩ := h
    exact hless (Scheduler.resetPrefixCache_runsLess hreset)
  | updateDraftTokenIds drafts =>
    obtain rfl := h
    rw [Scheduler.updateDraftTokenIds_running]
    exact hroom
  | setPauseState state =>
    obtain rfl := h
    exact hroom
  | resetEncoderCache =>
    obtain rfl := h
    exact hroom

/-- In every reachable state the requests are in their places, and no more run than allowed. -/
theorem running_room (cfg : Config) {X : World} (m : EncoderManager) (w : X.State) :
    (schedulerRuns cfg m w (Event.StopsInPlace cfg)).Invariant fun r =>
      r.s.places.Partition [] ∧ r.s.running.length ≤ cfg.maxNumRunningReqs := by
  have hind : TSys.Inductive (schedulerRuns cfg m w (Event.StopsInPlace cfg)) fun r =>
      r.s.places.Partition [] ∧ r.s.running.length ≤ cfg.maxNumRunningReqs := by
    constructor
    · rintro r rfl
      exact ⟨initial_places m w, Nat.zero_le _⟩
    · rintro r r' ⟨hp, hroom⟩ ⟨e, hok, hdoes, -⟩
      exact ⟨does_places hp hok hdoes, does_room hp hroom hdoes⟩
  exact hind.invariant

end MyOperator.Sched
