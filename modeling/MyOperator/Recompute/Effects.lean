import MyOperator.Recompute.Drafts
import MyOperator.Sched.Partition

/-!
# The loop over the running requests of the recompute scheduler

As long as `allocate_slots` finds blocks for the running requests, the loop over them is
that of the base class (`runningLoop_eq_base`, `runningLoop_of_base`). Where requests are
dropped, the dropped ones stay registered with their status (`Drops`).
-/

namespace MyOperator.Recompute

open Lib List
open Sched
open KvCache (assert)

variable {cfg : RecomputeConfig} {X : World} {p q : RecomputePass X} {ref victim : Ref} {work : Work}

/-! ## Dropping -/

/-- What a piece of the loop over the running requests does where requests are dropped: nobody is
preempted, and all requests stay registered under their ids, with their status. -/
structure Drops (p q : RecomputePass X) : Prop where
  preempted : q.preemptedReqs = p.preemptedReqs
  requests : q.s.requests = p.s.requests
  request : ∀ r, (q.s.objs r).requestId = (p.s.objs r).requestId ∧
    (q.s.objs r).status = (p.s.objs r).status
  running : ∀ r ∈ q.s.running, r ∈ p.s.running
  grows : p.recomputedReqs <+: q.recomputedReqs
  dropped : ∀ info ∈ q.recomputedReqs, info ∈ p.recomputedReqs ∨
    ∃ r ∈ p.s.running, (p.s.objs r).requestId = info.requestId

theorem Drops.refl (p : RecomputePass X) : Drops p p :=
  ⟨rfl, rfl, fun _ => ⟨rfl, rfl⟩, fun _ hr => hr, prefix_refl _, fun _ hin => .inl hin⟩

theorem Drops.trans {r : RecomputePass X} (h : Drops p q) (h' : Drops q r) : Drops p r := by
  refine ⟨h'.preempted.trans h.preempted, h'.requests.trans h.requests,
    fun a => ⟨(h'.request a).1.trans (h.request a).1, (h'.request a).2.trans (h.request a).2⟩,
    fun a ha => h.running a (h'.running a ha), h.grows.trans h'.grows, fun info hin => ?_⟩
  rcases h'.dropped info hin with hin | ⟨a, ha, hid⟩
  · exact h.dropped info hin
  · exact .inr ⟨a, h.running a ha, (h.request a).1.symm.trans hid⟩

variable {t u : Pass X} {fuel : Nat} {n : Int} {allocated : Bool} {flow : Flow (RecomputePass X)}

theorem Drops.of_pass (hpre : t.preemptedReqs = p.preemptedReqs)
    (hreq : t.s.requests = p.s.requests) (hrun : t.s.running = p.s.running)
    (hobj : ∀ r, (t.s.objs r).requestId = (p.s.objs r).requestId ∧
      (t.s.objs r).status = (p.s.objs r).status) : Drops p { p with toPass := t } :=
  ⟨hpre, hreq, hobj, fun _ hr => hrun ▸ hr, prefix_refl _, fun _ hin => .inl hin⟩

theorem dropVictim_drops (h : dropVictim p = .ok (victim, q)) :
    Drops p q ∧ q.recomputedReqs ≠ [] := by
  unfold dropVictim at h
  split at h
  · cases h
  · rename_i last hlast
    cases h
    refine ⟨⟨rfl, rfl, fun _ => ⟨rfl, rfl⟩, fun r hr => mem_of_mem_dropLast hr,
      prefix_append _ _, fun info hin => ?_⟩, append_ne_nil_of_right_ne_nil _ (by simp)⟩
    rcases mem_append.mp hin with hin | hin
    · exact .inl hin
    · rw [mem_singleton.mp hin]
      exact .inr ⟨_, mem_of_getLast? hlast, rfl⟩

theorem allocateRunning_drops (hdrop : cfg.dropsRequests = true)
    (h : allocateRunning cfg ref n fuel p = .ok (allocated, q)) : Drops p q := by
  induction fuel generalizing p with
  | zero => cases h
  | succ fuel ih =>
    obtain ⟨⟨allocated', world⟩, -, h⟩ := bind_ok h
    have hworld : Drops p { p with toPass := p.setWorld world } :=
      .of_pass rfl rfl rfl fun _ => ⟨rfl, rfl⟩
    dsimp only at h
    split at h
    · cases h
      exact hworld
    · obtain ⟨⟨victim, p1⟩, hroom, h⟩ := bind_ok h
      unfold makeRoom at hroom
      rw [if_pos hdrop] at hroom
      have hp1 := hworld.trans (dropVictim_drops hroom).1
      split at h
      · cases h
        exact hp1
      · exact hp1.trans (ih h)

theorem scheduleRunning_drops (h : p.scheduleRunning cfg.toConfig ref work = .ok t) :
    Drops p { p with toPass := t } := by
  obtain ⟨d, hencoder⟩ := Pass.scheduleRunning_effect h
  obtain ⟨m, world, budget, inputs, loads, rfl⟩ := (Pass.allocateEncoder_effect hencoder).eq
  refine .of_pass rfl rfl rfl fun r => ⟨?_, ?_⟩
  · exact Scheduler.requestId_modify (f := fun r => { r with specTokenIds := [] }) rfl r
  · exact Scheduler.status_modify (f := fun r => { r with specTokenIds := [] }) rfl r

theorem scheduleEncoderInputs_drops {nc : Int}
    (h : p.scheduleEncoderInputs cfg.toConfig ref nc n = .ok (work, t)) :
    Drops p { p with toPass := t } := by
  obtain ⟨m, rfl⟩ := Pass.scheduleEncoderInputs_effect h
  exact .of_pass rfl rfl rfl fun _ => ⟨rfl, rfl⟩

/-- The pass that an iteration goes on or stops with. -/
def flowPass : Flow (RecomputePass X) → RecomputePass X
  | .next p | .stop p => p

theorem runningStep_drops (hdrop : cfg.dropsRequests = true)
    (h : runningStep cfg p ref = .ok flow) : Drops p (flowPass flow) := by
  unfold runningStep at h
  dsimp only at h
  split at h
  · cases h
    exact .of_pass rfl rfl rfl fun _ => ⟨rfl, rfl⟩
  · obtain ⟨⟨work, t⟩, hplan, h⟩ := bind_ok h
    obtain ⟨n, -, h⟩ := bind_ok h
    have ht := scheduleEncoderInputs_drops hplan
    split at h
    · cases h
      exact ht.trans (.of_pass rfl rfl rfl fun _ => ⟨rfl, rfl⟩)
    · obtain ⟨⟨allocated, p1⟩, halloc, h⟩ := bind_ok h
      have hp1 := ht.trans (allocateRunning_drops hdrop halloc)
      dsimp only at h
      split at h
      · obtain ⟨t1, hsched, h⟩ := bind_ok h
        cases h
        exact hp1.trans (scheduleRunning_drops hsched)
      · cases h
        exact hp1

theorem runningLoop_drops (hdrop : cfg.dropsRequests = true) (h : runningLoop cfg fuel p = .ok q) :
    Drops p q := by
  induction fuel generalizing p with
  | zero =>
    cases h
    exact .refl _
  | succ fuel ih =>
    unfold runningLoop at h
    split at h
    · cases h
      exact .refl _
    · split at h
      · cases h
        exact .refl _
      · obtain ⟨flow, hstep, h⟩ := bind_ok h
        have hflow := runningStep_drops hdrop hstep
        cases flow with
        | next p1 => exact hflow.trans (ih h)
        | stop p1 =>
          cases h
          exact hflow

/-! ## Where the base class preempts nobody -/

theorem base_allocateRunning_preempts
    (h : t.allocateRunning cfg.toConfig ref n fuel = .ok (allocated, u)) :
    t.preemptedReqs <+: u.preemptedReqs := by
  induction fuel generalizing t with
  | zero => cases h
  | succ fuel ih =>
    unfold Pass.allocateRunning at h
    obtain ⟨⟨allocated', world⟩, -, h⟩ := bind_ok h
    dsimp only at h
    split at h
    · cases h
      exact prefix_refl _
    · obtain ⟨⟨victim, t1⟩, hpop, h⟩ := bind_ok h
      obtain ⟨t2, hpre, h⟩ := bind_ok h
      obtain ⟨running, -, -, -, hkept⟩ := Pass.popVictim_running hpop
      have ht2 : t.preemptedReqs <+: t2.preemptedReqs := by
        obtain ⟨-, m, world', waiting, -, -, rfl⟩ := Pass.preemptVictim_effect hpre
        show t.preemptedReqs <+: t1.preemptedReqs ++ [victim]
        rw [hkept]
        exact prefix_append _ _
      dsimp only at h
      split at h
      · cases h
        exact ht2
      · exact ht2.trans (ih h)

theorem base_scheduleRunning_preempts (h : t.scheduleRunning cfg.toConfig ref work = .ok u) :
    u.preemptedReqs = t.preemptedReqs := by
  obtain ⟨d, hencoder⟩ := Pass.scheduleRunning_effect h
  obtain ⟨m, world, budget, inputs, loads, rfl⟩ := (Pass.allocateEncoder_effect hencoder).eq
  rfl

/-- The pass that an iteration of the base class goes on or stops with. -/
def baseFlowPass : Flow (Pass X) → Pass X
  | .next t | .stop t => t

theorem base_runningStep_preempts {flow : Flow (Pass X)}
    (h : t.runningStep cfg.toConfig ref = .ok flow) :
    t.preemptedReqs <+: (baseFlowPass flow).preemptedReqs := by
  unfold Pass.runningStep at h
  dsimp only at h
  split at h
  · cases h
    exact prefix_refl _
  · obtain ⟨⟨work, t1⟩, hplan, h⟩ := bind_ok h
    obtain ⟨n, -, h⟩ := bind_ok h
    obtain ⟨m, rfl⟩ := Pass.scheduleEncoderInputs_effect hplan
    split at h
    · cases h
      exact prefix_refl _
    · obtain ⟨⟨allocated, t2⟩, halloc, h⟩ := bind_ok h
      have ht2 := base_allocateRunning_preempts halloc
      dsimp only at h
      split at h
      · obtain ⟨t3, hsched, h⟩ := bind_ok h
        cases h
        show t.preemptedReqs <+: t3.preemptedReqs
        rw [base_scheduleRunning_preempts hsched]
        exact ht2
      · cases h
        exact ht2

theorem base_runningLoop_preempts (h : t.runningLoop cfg.toConfig fuel = .ok u) :
    t.preemptedReqs <+: u.preemptedReqs := by
  induction fuel generalizing t with
  | zero =>
    cases h
    exact prefix_refl _
  | succ fuel ih =>
    unfold Pass.runningLoop at h
    split at h
    · cases h
      exact prefix_refl _
    · split at h
      · cases h
        exact prefix_refl _
      · obtain ⟨flow, hstep, h⟩ := bind_ok h
        have hflow := base_runningStep_preempts hstep
        cases flow with
        | next t1 => exact hflow.trans (ih h)
        | stop t1 =>
          cases h
          exact hflow

/-! ## Against the base class -/

/-- A result of the copy is that of the base class, or the copy drops a request where the base
class preempts one. -/
def Agrees {α β : Type} (cfg : RecomputeConfig) (lift : β → α) (recomputed : α → List RecomputeReqInfo)
    (preempted : β → List Ref) (copy : Except PyError α) (base : Except PyError β) : Prop :=
  copy = base.map lift ∨ (cfg.dropsRequests = true ∧ (∀ a, copy = .ok a → recomputed a ≠ []) ∧
    ∀ b, base = .ok b → preempted b ≠ [])

theorem allocateRunning_agrees (ref : Ref) (n : Int) (fuel : Nat) (p : RecomputePass X) :
    Agrees cfg (fun x => (x.1, { p with toPass := x.2 })) (·.2.recomputedReqs) (·.2.preemptedReqs)
      (allocateRunning cfg ref n fuel p) (p.toPass.allocateRunning cfg.toConfig ref n fuel) := by
  induction fuel generalizing p with
  | zero => exact .inl rfl
  | succ fuel ih =>
    unfold allocateRunning Pass.allocateRunning
    cases X.allocateSlots (p.s.objs ref) _ p.s.world with
    | error e => exact .inl rfl
    | ok x =>
      obtain ⟨allocated, world⟩ := x
      simp only [ok_bind]
      cases allocated with
      | true => exact .inl rfl
      | false =>
        rw [if_neg (by decide), if_neg (by decide)]
        unfold makeRoom
        cases hdrop : cfg.dropsRequests with
        | true =>
          refine .inr ⟨hdrop, fun a h => ?_, fun b h => ?_⟩
          · -- a dropped request stays in the list
            obtain ⟨⟨victim, p1⟩, hroom, h⟩ := bind_ok h
            have hgrows : p1.recomputedReqs <+: a.2.recomputedReqs := by
              dsimp only at h
              split at h
              · cases h
                exact prefix_refl _
              · exact (allocateRunning_drops hdrop h).grows
            exact hgrows.ne_nil (dropVictim_drops hroom).2
          · -- and so does a preempted one
            obtain ⟨⟨victim, t1⟩, -, h⟩ := bind_ok h
            obtain ⟨t2, hpre, h⟩ := bind_ok h
            have hgrows : t2.preemptedReqs <+: b.2.preemptedReqs := by
              dsimp only at h
              split at h
              · cases h
                exact prefix_refl _
              · exact base_allocateRunning_preempts h
            obtain ⟨-, m, world', waiting, -, -, rfl⟩ := Pass.preemptVictim_effect hpre
            exact hgrows.ne_nil (append_ne_nil_of_right_ne_nil _ (by simp))
        | false =>
          rw [if_neg (by decide)]
          cases (p.setWorld world).popVictim cfg.toConfig with
          | error e => exact .inl rfl
          | ok x =>
            obtain ⟨victim, t1⟩ := x
            simp only [ok_bind]
            cases t1.preemptVictim cfg.toConfig victim with
            | error e => exact .inl rfl
            | ok t2 =>
              simp only [ok_bind]
              by_cases hself : victim = ref
              · rw [if_pos hself, if_pos hself]
                exact .inl rfl
              · rw [if_neg hself, if_neg hself]
                exact ih { p with toPass := t2 }

/-- The flow of the copy where it takes that of the base class. -/
def liftFlow (p : RecomputePass X) : Flow (Pass X) → Flow (RecomputePass X)
  | .next t => .next { p with toPass := t }
  | .stop t => .stop { p with toPass := t }

theorem runningStep_agrees (p : RecomputePass X) (ref : Ref) :
    Agrees cfg (liftFlow p) (fun flow => (flowPass flow).recomputedReqs)
      (fun flow => (baseFlowPass flow).preemptedReqs) (runningStep cfg p ref)
      (p.toPass.runningStep cfg.toConfig ref) := by
  unfold runningStep Pass.runningStep
  dsimp only
  by_cases hmax : Pass.reachedMaxTokens (p.s.objs ref) = true
  · rw [if_pos hmax, if_pos hmax]
    exact .inl rfl
  rw [if_neg hmax, if_neg hmax]
  cases p.scheduleEncoderInputs cfg.toConfig ref _ _ with
  | error e => exact .inl rfl
  | ok x =>
    obtain ⟨work, t⟩ := x
    simp only [ok_bind]
    cases Pass.split cfg.toConfig (p.s.objs ref) work.numNewTokens 0 0 with
    | error e => exact .inl rfl
    | ok n =>
      simp only [ok_bind]
      by_cases hzero : n = 0
      · rw [if_pos hzero, if_pos hzero]
        exact .inl rfl
      rw [if_neg hzero, if_neg hzero]
      rcases allocateRunning_agrees ref n (t.s.running.length + 1) { p with toPass := t } with
        heq | ⟨hdrop, hrec, hpre⟩
      · rw [heq]
        cases t.allocateRunning cfg.toConfig ref n (t.s.running.length + 1) with
        | error e => exact .inl rfl
        | ok x =>
          obtain ⟨allocated, t1⟩ := x
          cases allocated with
          | false => exact .inl rfl
          | true =>
            left
            show (t1.scheduleRunning cfg.toConfig ref { work with numNewTokens := n } >>= _) =
              (t1.scheduleRunning cfg.toConfig ref { work with numNewTokens := n } >>= _).map _
            cases t1.scheduleRunning cfg.toConfig ref { work with numNewTokens := n } with
            | error e => rfl
            | ok t2 => rfl
      · refine .inr ⟨hdrop, fun flow h => ?_, fun flow h => ?_⟩
        · obtain ⟨⟨allocated, p1⟩, halloc, h⟩ := bind_ok h
          have hp1 := hrec _ halloc
          dsimp only at h
          split at h
          · obtain ⟨t1, -, h⟩ := bind_ok h
            cases h
            exact hp1
          · cases h
            exact hp1
        · obtain ⟨⟨allocated, t1⟩, halloc, h⟩ := bind_ok h
          have ht1 := hpre _ halloc
          dsimp only at h
          split at h
          · obtain ⟨t2, hsched, h⟩ := bind_ok h
            cases h
            show t2.preemptedReqs ≠ []
            rw [base_scheduleRunning_preempts hsched]
            exact ht1
          · cases h
            exact ht1

theorem runningLoop_agrees (fuel : Nat) (p : RecomputePass X) :
    Agrees cfg (fun t => { p with toPass := t }) (·.recomputedReqs) (·.preemptedReqs)
      (runningLoop cfg fuel p) (p.toPass.runningLoop cfg.toConfig fuel) := by
  induction fuel generalizing p with
  | zero => exact .inl rfl
  | succ fuel ih =>
    unfold runningLoop Pass.runningLoop
    cases p.s.running[p.reqIndex]? with
    | none => exact .inl rfl
    | some ref =>
      dsimp only
      by_cases hbudget : p.tokenBudget ≤ 0
      · rw [if_pos hbudget, if_pos hbudget]
        exact .inl rfl
      rw [if_neg hbudget, if_neg hbudget]
      rcases runningStep_agrees p ref with heq | ⟨hdrop, hrec, hpre⟩
      · rw [heq]
        cases p.toPass.runningStep cfg.toConfig ref with
        | error e => exact .inl rfl
        | ok flow =>
          cases flow with
          | next t => exact ih { p with toPass := t }
          | stop t => exact .inl rfl
      · refine .inr ⟨hdrop, fun q h => ?_, fun u h => ?_⟩
        · obtain ⟨flow, hstep, h⟩ := bind_ok h
          have hflow := hrec _ hstep
          cases flow with
          | next p1 => exact (runningLoop_drops hdrop h).grows.ne_nil hflow
          | stop p1 =>
            cases h
            exact hflow
        · obtain ⟨flow, hstep, h⟩ := bind_ok h
          have hflow := hpre _ hstep
          cases flow with
          | next t1 => exact (base_runningLoop_preempts h).ne_nil hflow
          | stop t1 =>
            cases h
            exact hflow

/-- When nobody was dropped the loop over the running requests is that of the base class. -/
theorem runningLoop_eq_base (h : runningLoop cfg fuel p = .ok q) (hnone : q.recomputedReqs = []) :
    Pass.runningLoop cfg.toConfig fuel p.toPass = .ok q.toPass := by
  rcases runningLoop_agrees fuel p with heq | ⟨-, hrec, -⟩
  · obtain ⟨t, hbase, rfl⟩ := map_eq_ok.mp (heq.symm.trans h)
    exact hbase
  · exact absurd hnone (hrec q h)

/-- Where the base class preempts nobody the loop over the running requests is the same, and drops
nobody. -/
theorem runningLoop_of_base (h : p.toPass.runningLoop cfg.toConfig fuel = .ok t)
    (hnone : t.preemptedReqs = []) : runningLoop cfg fuel p = .ok { p with toPass := t } := by
  rcases runningLoop_agrees fuel p with heq | ⟨-, -, hpre⟩
  · rw [heq, h]
    rfl
  · exact absurd hnone (hpre t h)

theorem runningLoop_keeps (hdrop : cfg.dropsRequests = false) (h : runningLoop cfg fuel p = .ok q) :
    q.recomputedReqs = p.recomputedReqs := by
  rcases runningLoop_agrees fuel p with heq | ⟨hdrop', -⟩
  · obtain ⟨t, -, rfl⟩ := map_eq_ok.mp (heq.symm.trans h)
    rfl
  · rw [hdrop] at hdrop'
    cases hdrop'

end MyOperator.Recompute
