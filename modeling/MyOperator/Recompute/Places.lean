import MyOperator.Recompute.Effects

/-!
# The recompute scheduler keeps the partition

The loop over the waiting requests moves the requests as that of the base class does. So
a step that drops nobody keeps the partition of the base class, and the other calls of
the class do too.
-/

namespace MyOperator.Recompute

open Lib
open Sched
open KvCache (assert assert_eq_ok)

variable {cfg : RecomputeConfig} {X : World} {p q : Pass X} {ref : Ref} {source : Pass.Source}
  {computed : Pass.Computed X} {work : Work}

/-! ## Promotion -/

theorem updateWaitingForRemoteKv_effect (h : updateWaitingForRemoteKv cfg p ref = .ok q) :
    cfg.hasConnector = true ∧ Pass.Received ref p q := by
  obtain ⟨⟨⟩, hconn, h⟩ := bind_ok h
  refine ⟨assert_eq_ok.mp hconn, ?_⟩
  cases h
  split
  · exact .of_same p ref _ _ _
  · exact ⟨_, _, _, _, rfl⟩

section

variable (hp : Pass.PlacesInv p) (hpeek : (p.queue source).peekRequest cfg.policy = .ok ref)
include hp hpeek

theorem promote_inv {promoted : Bool} (h : promote cfg p ref = .ok (promoted, q)) :
    Pass.PlacesInv q ∧ (q.queue source).peekRequest cfg.policy = .ok ref := by
  unfold promote at h
  split at h
  · rename_i hblocked
    unfold tryPromoteBlockedWaitingRequest at h
    dsimp only at h
    split at h
    · split at h
      · cases h
        exact ⟨hp, hpeek⟩
      · obtain ⟨p1, hkv, h⟩ := bind_ok h
        obtain ⟨hconn, hp1⟩ := updateWaitingForRemoteKv_effect hkv
        cases h
        have hconn : cfg.toConfig.hasConnector = true := hconn
        obtain ⟨world, finished, failed, r', hr', hq⟩ := hp1.promoted hconn
        exact Pass.promoted_inv hp hpeek hblocked hr' hq
    · have hbase : p.promote cfg.toConfig ref = .ok (promoted, q) := by
        unfold Pass.promote
        rw [if_pos hblocked]
        exact h
      exact Pass.promote_inv hp hpeek hbase
  · cases h
    exact ⟨hp, hpeek⟩

/-! ## Admission -/

theorem admit_inv {l : RequestQueue} {world : X.State} (hperm : (p.queue source).Perm (ref :: l))
    (h : (scheduleWaitingSpecTokens cfg ((p.setWorld world).withQueue source l) ref work.numNewTokens).admitRequest cfg.toConfig ref computed work = .ok q) :
    Pass.PlacesInv q := by
  unfold scheduleWaitingSpecTokens at h
  split at h
  · obtain ⟨drafts, heq⟩ := Pass.scheduleSpecTokens_effect
      ((p.setWorld world).withQueue source l) ref work.numNewTokens
    rw [heq] at h
    have hp' : Pass.PlacesInv (({ p with scheduledSpecDecodeTokens := drafts } : Pass X).modify ref
        fun r => { r with specTokenIds := [] }) :=
      hp.congr (Pass.places_modify (p := { p with scheduledSpecDecodeTokens := drafts })
        (f := fun r => { r with specTokenIds := [] }) rfl rfl) rfl
    have hmem := Pass.peek_mem hpeek
    have hq : (((({ p with scheduledSpecDecodeTokens := drafts } : Pass X).modify ref
        fun r => { r with specTokenIds := [] }).setWorld world).withQueue source l).admitRequest
        cfg.toConfig ref computed work = .ok q := by cases source <;> exact h
    exact Pass.admit_inv hp' (by cases source <;> exact hmem) (by cases source <;> exact hperm) hq
  · exact Pass.admit_inv hp (Pass.peek_mem hpeek) hperm h

theorem admitOrLoad_inv (h : admitOrLoad cfg p source ref computed work = .ok q) :
    Pass.PlacesInv q := by
  cases hload : computed.loadKvAsync with
  | true =>
    -- a load starts as in the base class
    have hbase : p.admitOrLoad cfg.toConfig source ref computed work = .ok q := by
      unfold Pass.admitOrLoad
      obtain ⟨p1, hpop, h⟩ := bind_ok h
      rw [hpop, ok_bind, if_pos hload]
      rw [if_pos hload] at h
      exact h
    exact Pass.admitOrLoad_inv hp hpeek hbase
  | false =>
    obtain ⟨p1, hpop, h⟩ := bind_ok h
    rw [hload, if_neg (by decide)] at h
    have hconn : ∃ world, p.updateConnector cfg.toConfig ref computed = p.setWorld world :=
      updateConnector_setWorld p ref computed
    obtain ⟨world, hworld⟩ := hconn
    rw [hworld] at hpop
    have hpeek' : ((p.setWorld world).queue source).peekRequest cfg.policy = .ok ref := by
      cases source <;> exact hpeek
    obtain ⟨l, hperm, rfl⟩ := Pass.popRequest_effect hpeek' hpop
    have hperm' : (p.queue source).Perm (ref :: l) := by cases source <;> exact hperm
    exact admit_inv hp hpeek hperm' h

/-! ## The loop over the waiting requests -/

theorem waitingStep_inv {flow : Flow (Pass X)} (h : waitingStep cfg p source ref = .ok flow) :
    Pass.PlacesInv (baseFlowPass flow) := by
  unfold waitingStep at h
  obtain ⟨⟨promoted, p1⟩, hpromote, h⟩ := bind_ok h
  obtain ⟨hp1, hpeek1⟩ := promote_inv hp hpeek hpromote
  dsimp only at h
  split at h
  · obtain ⟨p2, hskip, h⟩ := bind_ok h
    cases h
    exact Pass.skip_inv hp1 hpeek1 hskip
  · obtain ⟨⟨computed?, p2⟩, hget, h⟩ := bind_ok h
    obtain ⟨hp2, hpeek2⟩ := Pass.getComputed_inv hp1 hpeek1 hget
    cases computed? with
    | none =>
      obtain ⟨p3, hskip, h⟩ := bind_ok h
      cases h
      exact Pass.skip_inv hp2 hpeek2 hskip
    | some computed =>
      obtain ⟨⟨work?, p3⟩, hplan, h⟩ := bind_ok h
      obtain ⟨m, rfl⟩ := planWaiting_effect hplan
      cases work? with
      | none =>
        cases h
        exact hp2.congr rfl rfl
      | some work =>
        obtain ⟨⟨allocated, p4⟩, halloc, h⟩ := bind_ok h
        obtain ⟨world, rfl⟩ := Pass.allocateWaiting_effect halloc
        have hp4 : Pass.PlacesInv (({ p2 with
            s := { p2.s with encoderCacheManager := m } } : Pass X).setWorld world) :=
          hp2.congr rfl rfl
        dsimp only at h
        split at h
        · obtain ⟨p5, hadmit, h⟩ := bind_ok h
          cases h
          refine admitOrLoad_inv hp4 ?_ hadmit
          cases source <;> exact hpeek2
        · obtain ⟨p5, huntouch, h⟩ := bind_ok h
          cases h
          obtain ⟨m', rfl⟩ := Pass.untouchEncoder_effect huntouch
          exact hp4.congr rfl rfl

end

theorem waitingLoop_inv {fuel : Nat} (hp : Pass.PlacesInv p)
    (h : waitingLoop cfg fuel p = .ok q) : Pass.PlacesInv q := by
  induction fuel generalizing p with
  | zero =>
    cases h
    exact hp
  | succ fuel ih =>
    unfold waitingLoop at h
    split at h
    · cases h
      exact hp
    · obtain ⟨ref, hpeek, h⟩ := bind_ok h
      obtain ⟨flow, hstep, h⟩ := bind_ok h
      have hflow := waitingStep_inv hp hpeek hstep
      cases flow with
      | next p1 => exact ih hflow h
      | stop p1 =>
        cases h
        exact hflow

/-! ## `schedule` -/

variable {s s' : Scheduler X} {out : RecomputeSchedulerOutput}

theorem schedule_eq_ok (h : schedule cfg s = .ok (out, s')) :
    ∃ p, runPass cfg s = .ok p ∧ out = { toSchedulerOutput := p.output.1
                                         recomputedReqs := p.recomputedReqs } ∧
      p.output.2.updateAfterSchedule cfg.toConfig p.output.1 = .ok s' := by
  unfold schedule at h
  obtain ⟨p, hrun, h⟩ := bind_ok h
  obtain ⟨⟨⟩, -, h⟩ := bind_ok h
  obtain ⟨⟨⟩, -, h⟩ := bind_ok h
  obtain ⟨s1, hafter, h⟩ := bind_ok h
  cases h
  exact ⟨p, hrun, rfl, hafter⟩

/-- The loop over the running requests, and what is left of the pass after it. -/
theorem runPass_eq_ok {r : RecomputePass X} (h : runPass cfg s = .ok r) :
    ∃ p loras, runningLoop cfg s.running.length { toPass := s.startPass cfg.toConfig } = .ok p ∧
      r.recomputedReqs = p.recomputedReqs ∧
      scheduleWaiting cfg { p with scheduledLoras := loras } = .ok r := by
  unfold runPass at h
  obtain ⟨p, hloop, h⟩ := bind_ok h
  obtain ⟨t, hloras, h⟩ := bind_ok h
  obtain ⟨loras, rfl⟩ := Pass.recordLoras_effect hloras
  refine ⟨p, loras, hloop, ?_, h⟩
  unfold scheduleWaiting at h
  split at h
  · obtain ⟨q, -, h⟩ := bind_ok h
    cases h
    rfl
  · cases h
    rfl

theorem runPass_inv {r : RecomputePass X} (hs : s.places.Partition []) (h : runPass cfg s = .ok r)
    (hnone : r.recomputedReqs = []) : Pass.PlacesInv r.toPass ∧ r.stepSkippedWaiting = [] := by
  obtain ⟨p, loras, hloop, hrec, hwaiting⟩ := runPass_eq_ok h
  rw [hnone] at hrec
  have hbase := runningLoop_eq_base hloop hrec.symm
  obtain ⟨hp, hrun⟩ := (Pass.runningLoop_steps (Nat.le_refl _) hbase).placesInv
    (Scheduler.startPass_inv cfg.toConfig hs)
  unfold scheduleWaiting at hwaiting
  split at hwaiting
  · obtain ⟨q, hloop', hwaiting⟩ := bind_ok hwaiting
    cases hwaiting
    have hstart : Pass.PlacesInv { p.toPass with scheduledLoras := loras } := hp.congr rfl rfl
    have hq : Pass.PlacesInv q := waitingLoop_inv hstart hloop'
    exact ⟨Pass.requeueSkipped_inv hq, rfl⟩
  · cases hwaiting
    exact ⟨hp.congr rfl rfl, hrun.putOff⟩

/-- A step that drops nobody keeps the partition, and schedules no request twice. -/
theorem schedule_places (hs : s.places.Partition []) (h : schedule cfg s = .ok (out, s'))
    (hnone : out.recomputedReqs = []) :
    s'.places.Partition [] ∧ out.toSchedulerOutput.scheduledReqIds.Nodup := by
  obtain ⟨p, hrun, rfl, hafter⟩ := schedule_eq_ok h
  obtain ⟨hp, hskipped⟩ := runPass_inv hs hrun hnone
  exact Scheduler.output_places hp hskipped hafter

/-! ## The other calls -/

theorem popLastToken_effect {request request' : Request} (h : popLastToken request = .ok request') :
    request'.requestId = request.requestId ∧ request'.status = request.status := by
  unfold popLastToken at h
  split at h
  · cases h
  · cases h
  · cases h
    exact ⟨rfl, rfl⟩

theorem newRequest_effect {request request' : Request} (h : newRequest cfg request = .ok request') :
    request'.requestId = request.requestId ∧ request'.status = request.status := by
  unfold newRequest at h
  dsimp only at h
  have hr : ∀ b : Bool, ∀ r : Request,
      r = (if b = true then { request with streamingQueue := some [] } else request) →
      r.requestId = request.requestId ∧ r.status = request.status := by
    rintro b r rfl
    cases b <;> exact ⟨rfl, rfl⟩
  generalize hstart : (if request.resumable = true then
    { request with streamingQueue := some [] } else request) = r at h
  obtain ⟨hid, hstatus⟩ := hr _ r hstart.symm
  obtain ⟨r', hpop, h⟩ := bind_ok h
  have hr' : r'.requestId = request.requestId ∧ r'.status = request.status := by
    split at hpop
    · obtain ⟨hid', hstatus'⟩ := popLastToken_effect hpop
      exact ⟨hid'.trans hid, hstatus'.trans hstatus⟩
    · cases hpop
      exact ⟨hid, hstatus⟩
  cases h
  split
  · exact hr'
  · exact hr'

theorem addRequest_places {args request : Request} (hs : s.places.Partition [])
    (hinit : Request.init cfg.blockHasher args = .ok request)
    (h : addRequest cfg s request = .ok s') : s'.places.Partition [] := by
  unfold addRequest at h
  split at h
  · exact Scheduler.addRequest_places hs hinit h
  · rename_i hget
    obtain ⟨request', hnew, h⟩ := bind_ok h
    obtain ⟨hid, hstatus⟩ := newRequest_effect hnew
    obtain ⟨-, hinit, -⟩ := Request.init_effect hinit
    cases h
    rw [← hid] at hget
    rw [← hstatus] at hinit
    exact Scheduler.addNew_places request' hs hget hinit

theorem updateFromOutput_places {mro : ModelRunnerOutput} {outputs : List RecomputeCoreOutput}
    (hs : s.places.Partition []) (hok : StopsInPlace cfg.toConfig s
      (s.handleFailedLoads cfg.toConfig out.toSchedulerOutput mro).1 out.toSchedulerOutput mro)
    (h : updateFromOutput cfg s out mro = .ok (outputs, s')) : s'.places.Partition [] := by
  unfold updateFromOutput at h
  split at h
  · cases h
  · obtain ⟨⟨outputs', s1⟩, hbase, h⟩ := bind_ok h
    cases h
    exact Scheduler.updateFromOutput_places hs hok hbase

end MyOperator.Recompute
