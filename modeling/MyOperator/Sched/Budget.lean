import MyOperator.Sched.EncoderCost
import MyOperator.Sched.EncoderSteps
import MyOperator.Sched.RunningRoom

/-!
# The budgets of a pass

`schedule` takes the tokens and the encoder inputs that it schedules off two budgets, and
gives them back when it preempts a request that it had scheduled. The books balance in
every pass, unless a preemption gives encoder budget back for a request that has inputs
of its own to schedule: what is left for them was computed before, and replaces the sum.
-/

namespace MyOperator.Sched

open Lib Option Dict
open KvCache (assert assert_eq_ok)

namespace Scheduler

variable {X : World}

/-- The embeddings of the encoder inputs of a step. -/
def encoderSize (s : Scheduler X) (inputs : Dict Nat (List Nat)) : Int :=
  inputs.total fun reqId ids => ((s.requests.get? reqId).elim 0 fun ref => (s.objs ref).embeds ids : Nat)

theorem encoderSize_congr {s s' : Scheduler X} (hreq : s'.requests = s.requests)
    (hmm : ∀ r, (s'.objs r).mmFeatures = (s.objs r).mmFeatures) (inputs : Dict Nat (List Nat)) :
    s'.encoderSize inputs = s.encoderSize inputs := by
  refine total_congr fun reqId ids _ => ?_
  rw [hreq]
  cases s.requests.get? reqId with
  | none => rfl
  | some ref => exact congrArg Nat.cast (Request.embeds_congr (hmm ref))

end Scheduler

namespace Pass

variable {cfg : Config} {X : World} {p q r : Pass X} {ref victim : Ref} {work : Work}

/-- `token_budget` at the start of the pass. -/
def startBudget (cfg : Config) (p : Pass X) : Int :=
  if p.s.pauseState = .pausedAll then 0 else cfg.maxNumScheduledTokens

/-- The budgets are not overdrawn, and what was spent is what was scheduled. -/
structure Accounted (cfg : Config) (p : Pass X) : Prop where
  tokenBudget : 0 ≤ p.tokenBudget
  tokens : p.numScheduledTokens.values.sum = p.startBudget cfg - p.tokenBudget
  tokens_le : p.numScheduledTokens.values.sum ≤ cfg.maxNumScheduledTokens
  encoder : p.s.encoderSize p.scheduledEncoderInputs =
    cfg.maxNumEncoderInputTokens - p.encoderComputeBudget
  encoder_le : p.s.encoderSize p.scheduledEncoderInputs ≤ cfg.maxNumEncoderInputTokens

/-- A request that was scheduled in the pass and is preempted for another has no negative number
of tokens, and no encoder inputs, where the other request has some. -/
def Clean (cfg : Config) (p : Pass X) : Phase X → Prop
  | .runningFull _ work => cfg.policy = .priority → ∀ victim ∈ p.scheduledRunningReqs,
      maxByPriority p.s.objs p.s.running = some victim →
      (∀ n, p.numScheduledTokens.get? (p.s.objs victim).requestId = some n → 0 ≤ n) ∧
      (work.encoderInputsToSchedule = [] ∨ (p.s.objs victim).embeds
        ((p.scheduledEncoderInputs.get? (p.s.objs victim).requestId).getD []) = 0)
  | _ => True

/-! ## What a step does to the budgets -/

/-- Both budgets are as before. -/
structure SameBudgets (p q : Pass X) : Prop where
  tokenBudget : q.tokenBudget = p.tokenBudget
  encoderComputeBudget : q.encoderComputeBudget = p.encoderComputeBudget
  pauseState : q.s.pauseState = p.s.pauseState

/-- The work is paid for. -/
structure Spends (p : Pass X) (work : Work) (q : Pass X) : Prop where
  tokenBudget : q.tokenBudget = p.tokenBudget - work.numNewTokens
  encoderComputeBudget : q.encoderComputeBudget =
    if work.encoderInputsToSchedule = [] then p.encoderComputeBudget else work.encoderComputeBudget
  pauseState : q.s.pauseState = p.s.pauseState

/-- The work that the step from a phase schedules. -/
def Phase.spends : Phase X → Option Work
  | .runningBlocks _ work => some work
  | .waitingBlocks _ _ computed work => if computed.loadKvAsync then none else some work
  | _ => none

variable {a b : Pass X × Phase X}

theorem Step.budgets (h : Step cfg a b) (hphase : PhaseInv cfg a.1 a.2)
    (hfull : ∀ ref work, a.2 ≠ .runningFull ref work) :
    (∀ work, Phase.spends a.2 = some work → Spends a.1 work b.1) ∧
      (Phase.spends a.2 = none → SameBudgets a.1 b.1) := by
  have hsame : ∀ {p q : Pass X} {x : Phase X}, Phase.spends x = none → SameBudgets p q →
      (∀ work, Phase.spends x = some work → Spends p work q) ∧
        (Phase.spends x = none → SameBudgets p q) := by
    intro p q x hnone hsame
    refine ⟨fun work hwork => ?_, fun _ => hsame⟩
    rw [hnone] at hwork
    cases hwork
  cases h with
  | pickRunning _ => exact hsame rfl ⟨rfl, rfl, rfl⟩
  | endRunning _ => exact hsame rfl ⟨rfl, rfl, rfl⟩
  | passOver _ => exact hsame rfl ⟨rfl, rfl, rfl⟩
  | planRunning _ hplan _ =>
    obtain ⟨m, rfl⟩ := scheduleEncoderInputs_effect hplan
    exact hsame rfl ⟨rfl, rfl, rfl⟩
  | noTokens _ => exact hsame rfl ⟨rfl, rfl, rfl⟩
  | tryAllocate _ _ => exact hsame rfl ⟨rfl, rfl, rfl⟩
  | preempt _ _ => exact absurd rfl (hfull _ _)
  | scheduleRunning hsched =>
    refine ⟨fun w hw => ?_, fun hnone => (nomatch hnone)⟩
    cases hw
    obtain ⟨d, hencoder⟩ := scheduleRunning_effect hsched
    obtain ⟨htokens, hpause, -, henc⟩ := allocateEncoder_budget hencoder
    exact ⟨htokens, henc, hpause⟩
  | recordLoras hloras =>
    obtain ⟨loras, rfl⟩ := recordLoras_effect hloras
    exact hsame rfl ⟨rfl, rfl, rfl⟩
  | pickWaiting _ _ => exact hsame rfl ⟨rfl, rfl, rfl⟩
  | endWaiting _ => exact hsame rfl ⟨rfl, rfl, rfl⟩
  | promote hprom =>
    rcases promote_effect hprom with ⟨rfl, -⟩ | ⟨-, -, world, finished, failed, r', -, rfl⟩
    · exact hsame rfl ⟨rfl, rfl, rfl⟩
    · exact hsame rfl ⟨rfl, rfl, rfl⟩
  | noMatchYet hget =>
    obtain ⟨world, n, rfl⟩ := getComputed_effect hget
    exact hsame rfl ⟨rfl, rfl, rfl⟩
  | @skip _ _ source _ hskip =>
    obtain ⟨l, skipped, -, -, rfl⟩ := skipRequest_effect hphase hskip
    cases source <;> exact hsame rfl ⟨rfl, rfl, rfl⟩
  | getComputed hget =>
    obtain ⟨world, n, rfl⟩ := getComputed_effect hget
    exact hsame rfl ⟨rfl, rfl, rfl⟩
  | giveUp hplan =>
    obtain ⟨m, rfl⟩ := planWaiting_effect hplan
    exact hsame rfl ⟨rfl, rfl, rfl⟩
  | planWaiting hplan =>
    obtain ⟨m, rfl⟩ := planWaiting_effect hplan
    exact hsame rfl ⟨rfl, rfl, rfl⟩
  | allocateWaiting halloc =>
    obtain ⟨world, rfl⟩ := allocateWaiting_effect halloc
    exact hsame rfl ⟨rfl, rfl, rfl⟩
  | untouch hun =>
    obtain ⟨m, rfl⟩ := untouchEncoder_effect hun
    exact hsame rfl ⟨rfl, rfl, rfl⟩
  | @admitOrLoad p _ source ref computed work hadmit =>
    obtain ⟨l, world, -, ⟨hload, rfl⟩ | ⟨hload, hadmit⟩⟩ := admitOrLoad_effect hphase hadmit
    · obtain ⟨step, -, heq⟩ :=
        startLoad_effect cfg ((p.setWorld world).withQueue source l) ref computed
      refine hsame (if_pos hload) ?_
      rw [heq]
      cases source <;> exact ⟨rfl, rfl, rfl⟩
    · have hspends : Phase.spends (.waitingBlocks source ref computed work) = some work :=
        if_neg (Bool.eq_false_iff.mp hload)
      refine ⟨fun w hw => ?_, fun hnone => ?_⟩
      · obtain rfl := Option.some.inj (hspends.symm.trans hw)
        obtain ⟨new, resumed, loras, -, hencoder⟩ := admitRequest_effect hadmit
        obtain ⟨htokens, hpause, -, henc⟩ := allocateEncoder_budget hencoder
        cases source <;> exact ⟨htokens, henc, hpause⟩
      · cases hspends.symm.trans hnone
  | requeue => exact hsame rfl ⟨rfl, rfl, rfl⟩

/-! ## The invariant -/

/-- The books of the pass. -/
structure BudgetInv (cfg : Config) (p : Pass X) : Prop where
  tokens : p.numScheduledTokens.total (fun _ n => n) + p.tokenBudget = p.startBudget cfg
  tokenBudget : 0 ≤ p.tokenBudget
  encoder : p.s.encoderSize p.scheduledEncoderInputs + p.encoderComputeBudget =
    cfg.maxNumEncoderInputTokens
  encoderComputeBudget : 0 ≤ p.encoderComputeBudget
  tokenKeys : ∀ id n, p.numScheduledTokens.get? id = some n →
    ∃ r ∈ p.scheduled, (p.s.objs r).requestId = id
  inputKeys : ∀ id ids, p.scheduledEncoderInputs.get? id = some ids →
    ∃ r ∈ p.scheduled, (p.s.objs r).requestId = id

/-- The work that was decided fits the budgets. -/
def PlanInv (p : Pass X) : Phase X → Prop
  | .runningWork ref work | .runningFull ref work | .runningBlocks ref work =>
    work.Fits (p.s.objs ref) p.tokenBudget p.encoderComputeBudget
  | .waitingWork _ ref computed work | .waitingBlocks _ ref computed work =>
    computed.loadKvAsync = false → work.Fits (p.s.objs ref) p.tokenBudget p.encoderComputeBudget
  | _ => True

theorem startBudget_congr (h : q.s.pauseState = p.s.pauseState) :
    q.startBudget cfg = p.startBudget cfg := by
  unfold startBudget
  rw [h]

theorem SameItems.encoderSize (h : SameItems p q) (inputs : Dict Nat (List Nat)) :
    q.s.encoderSize inputs = p.s.encoderSize inputs :=
  Scheduler.encoderSize_congr h.requests h.mmFeatures inputs

theorem BudgetInv.keep (h : BudgetInv cfg p) (hitems : SameItems p q) (hwork : SameWork p q)
    (hbudgets : SameBudgets p q) : BudgetInv cfg q := by
  have hkey : ∀ id, (∃ r ∈ p.scheduled, (p.s.objs r).requestId = id) →
      ∃ r ∈ q.scheduled, (q.s.objs r).requestId = id := by
    rintro id ⟨r, hr, hid⟩
    exact ⟨r, hwork.scheduled ▸ hr, (hitems.requestId r).trans hid⟩
  constructor
  case tokens =>
    rw [hwork.numScheduledTokens, hbudgets.tokenBudget, startBudget_congr hbudgets.pauseState]
    exact h.tokens
  case tokenBudget => exact hbudgets.tokenBudget ▸ h.tokenBudget
  case encoder =>
    rw [hwork.scheduledEncoderInputs, hitems.encoderSize, hbudgets.encoderComputeBudget]
    exact h.encoder
  case encoderComputeBudget => exact hbudgets.encoderComputeBudget ▸ h.encoderComputeBudget
  case tokenKeys =>
    intro id n hget
    rw [hwork.numScheduledTokens] at hget
    exact hkey id (h.tokenKeys id n hget)
  case inputKeys =>
    intro id ids hget
    rw [hwork.scheduledEncoderInputs] at hget
    exact hkey id (h.inputKeys id ids hget)

theorem BudgetInv.spend (h : BudgetInv cfg p) (hp : PlacesInv p) (hitems : SameItems p q)
    (hwork : SchedulesWork p ref work q) (hspends : Spends p work q)
    (hfits : work.Fits (p.s.objs ref) p.tokenBudget p.encoderComputeBudget) : BudgetInv cfg q := by
  have hqueued : ∀ r ∈ p.scheduled, r ∈ p.places.queued :=
    fun r hr => Places.mem_queued.mpr ⟨.running, hp.running r hr⟩
  -- the request has no entry yet
  have hnew : ¬ ∃ r ∈ p.scheduled, (p.s.objs r).requestId = (p.s.objs ref).requestId := by
    rintro ⟨r, hr, hid⟩
    exact hwork.new (hp.partition.reqId_inj (hqueued r hr) hwork.queued hid ▸ hr)
  have htokens : p.numScheduledTokens.get? (p.s.objs ref).requestId = none := by
    by_contra hsome
    obtain ⟨n, hn⟩ := ne_none_iff_exists'.mp hsome
    exact hnew (h.tokenKeys _ n hn)
  have hinputs : p.scheduledEncoderInputs.get? (p.s.objs ref).requestId = none := by
    by_contra hsome
    obtain ⟨ids, hids⟩ := ne_none_iff_exists'.mp hsome
    exact hnew (h.inputKeys _ ids hids)
  have hkey : ∀ id, (∃ r ∈ p.scheduled, (p.s.objs r).requestId = id) →
      ∃ r ∈ q.scheduled, (q.s.objs r).requestId = id := by
    rintro id ⟨r, hr, hid⟩
    exact ⟨r, hwork.scheduled.mem_iff.mpr (List.mem_cons_of_mem _ hr),
      (hitems.requestId r).trans hid⟩
  have hself : ∃ r ∈ q.scheduled, (q.s.objs r).requestId = (p.s.objs ref).requestId :=
    ⟨ref, hwork.scheduled.mem_iff.mpr List.mem_cons_self, hitems.requestId ref⟩
  have hsum := h.tokens
  have hsize := h.encoder
  constructor
  case tokens =>
    rw [hwork.numScheduledTokens, total_set_new _ _ htokens, hspends.tokenBudget,
      startBudget_congr hspends.pauseState]
    omega
  case tokenBudget =>
    rw [hspends.tokenBudget]
    have hle := hfits.tokens
    omega
  case encoder =>
    rw [hitems.encoderSize, hwork.scheduledEncoderInputs, hspends.encoderComputeBudget]
    by_cases hnil : work.encoderInputsToSchedule = []
    · rw [if_pos hnil, if_pos hnil]
      exact hsize
    · have hknown : p.s.requests.get? (p.s.objs ref).requestId = some ref :=
        hp.partition.known ref hwork.queued
      have hcost := hfits.cost hnil
      rw [if_neg hnil, if_neg hnil]
      unfold Scheduler.encoderSize at hsize ⊢
      rw [total_set_new _ _ hinputs, hknown]
      simp only [elim_some]
      omega
  case encoderComputeBudget =>
    rw [hspends.encoderComputeBudget]
    split
    · exact h.encoderComputeBudget
    · exact hfits.budget_nonneg
  case tokenKeys =>
    intro id n hget
    rw [hwork.numScheduledTokens, get?_set] at hget
    split at hget
    · rename_i hid
      rw [hid]
      exact hself
    · exact hkey id (h.tokenKeys id n hget)
  case inputKeys =>
    intro id ids hget
    rw [hwork.scheduledEncoderInputs] at hget
    split at hget
    · exact hkey id (h.inputKeys id ids hget)
    · rw [get?_set] at hget
      split at hget
      · rename_i hid
        rw [hid]
        exact hself
      · exact hkey id (h.inputKeys id ids hget)

theorem preempt_budget (hp : PlacesInv p) (hwork : WorkInv cfg p ref)
    (h : BudgetInv cfg p) (hfits : work.Fits (p.s.objs ref) p.tokenBudget p.encoderComputeBudget)
    (hclean : Clean cfg p (.runningFull ref work)) (hpop : p.popVictim cfg = .ok (victim, q))
    (hpre : q.preemptVictim cfg victim = .ok r) :
    BudgetInv cfg r ∧ work.Fits (r.s.objs ref) r.tokenBudget r.encoderComputeBudget := by
  have hitems := preempt_sameItems hp hwork hpop hpre
  have hembeds : ∀ ids, (r.s.objs ref).embeds ids = (p.s.objs ref).embeds ids :=
    fun ids => Request.embeds_congr (hitems.mmFeatures ref)
  obtain ⟨-, m, world, waiting, -, -, heq⟩ := preemptVictim_effect hpre
  have hkeep : q.scheduled = p.scheduled → q.numScheduledTokens = p.numScheduledTokens →
      q.scheduledEncoderInputs = p.scheduledEncoderInputs → q.externalLoads = p.externalLoads →
      SameBudgets p q →
      BudgetInv cfg r ∧ work.Fits (r.s.objs ref) r.tokenBudget r.encoderComputeBudget := by
    intro hsched hnum hinputs hext hsame
    have hsameWork : SameWork p r := by
      rw [heq]
      exact ⟨hsched, hnum, hinputs, hext⟩
    have hsame' : SameBudgets p r := by
      rw [heq]
      exact ⟨hsame.tokenBudget, hsame.encoderComputeBudget, hsame.pauseState⟩
    refine ⟨h.keep hitems hsameWork hsame', ?_, hfits.budget_nonneg, fun hne => ?_⟩
    · exact hsame'.tokenBudget ▸ hfits.tokens
    · rw [hembeds, hsame'.encoderComputeBudget]
      exact hfits.cost hne
  rcases popVictim_effect hpop with ⟨-, -, rfl⟩ | ⟨-, -, -, rfl⟩ | ⟨hpolicy, hmem, hsched, hun⟩
  · exact hkeep rfl rfl rfl rfl ⟨rfl, rfl, rfl⟩
  · exact hkeep rfl rfl rfl rfl ⟨rfl, rfl, rfl⟩
  clear hkeep
  obtain ⟨hnonneg, hinputs⟩ := hclean hpolicy victim hsched (popVictim_max hpolicy hpop)
  have hknown : p.s.requests.get? (p.s.objs victim).requestId = some victim :=
    hp.partition.known victim (Places.mem_queued.mpr ⟨.running, hmem⟩)
  have hnodup : p.scheduledRunningReqs.Nodup := (List.nodup_append.mp hp.nodup).2.1
  obtain ⟨n, k, hget, hk, rfl⟩ := unschedule_effect hun
  replace hget : p.numScheduledTokens.get? (p.s.objs victim).requestId = some n := hget
  replace hk : k = (p.s.objs victim).embeds
      ((p.scheduledEncoderInputs.get? (p.s.objs victim).requestId).getD []) :=
    (Request.foldlM_getNumEncoderEmbeds hk).trans (Nat.zero_add _)
  have hn := hnonneg n hget
  -- what the inputs of the victim cost
  have hsize : (p.s.encoderSize (p.scheduledEncoderInputs.erase (p.s.objs victim).requestId)) +
      (p.s.objs victim).embeds
        ((p.scheduledEncoderInputs.get? (p.s.objs victim).requestId).getD []) =
      p.s.encoderSize p.scheduledEncoderInputs := by
    cases hids : p.scheduledEncoderInputs.get? (p.s.objs victim).requestId with
    | none =>
      rw [erase_of_get?_eq_none hids]
      exact Int.add_zero _
    | some ids =>
      have herase := total_erase (fun reqId ids => (((p.s.requests.get? reqId).elim 0
        fun ref => (p.s.objs ref).embeds ids : Nat) : Int)) hids
      rw [hknown] at herase
      exact herase
  -- the other requests keep their entries
  have hkey : ∀ id, id ≠ (p.s.objs victim).requestId →
      (∃ r ∈ p.scheduled, (p.s.objs r).requestId = id) →
      ∃ v ∈ r.scheduled, (r.s.objs v).requestId = id := by
    rintro id hne ⟨v, hv, hid⟩
    refine ⟨v, ?_, (hitems.requestId v).trans hid⟩
    have hv' : v ∈ p.scheduledRunningReqs := by
      have hv : v ∈ p.scheduledNewReqs ++ p.scheduledResumedReqs ++ p.scheduledRunningReqs := hv
      rw [hwork.running.new, hwork.running.resumed] at hv
      exact hv
    rw [heq]
    refine List.mem_append_right _ (hnodup.mem_erase_iff.mpr ⟨?_, hv'⟩)
    rintro rfl
    exact hne hid.symm
  have htokens := h.tokens
  have hbudget := h.tokenBudget
  have henc := h.encoder
  have henc0 := h.encoderComputeBudget
  have hcost := hfits.tokens
  have htoken' : r.tokenBudget = p.tokenBudget + n := by rw [heq]
  have henc' : r.encoderComputeBudget = p.encoderComputeBudget + (p.s.objs victim).embeds
      ((p.scheduledEncoderInputs.get? (p.s.objs victim).requestId).getD []) := by rw [heq, ← hk]
  have hnum' : r.numScheduledTokens =
      p.numScheduledTokens.erase (p.s.objs victim).requestId := by rw [heq]
  have hinputs' : r.scheduledEncoderInputs =
      p.scheduledEncoderInputs.erase (p.s.objs victim).requestId := by rw [heq]
  have hpause' : r.s.pauseState = p.s.pauseState := by rw [heq]; rfl
  refine ⟨?_, ?_, hfits.budget_nonneg, fun hne => ?_⟩
  · constructor
    case tokens =>
      have herase := total_erase (fun _ n => n) hget
      rw [hnum', htoken', startBudget_congr hpause']
      omega
    case tokenBudget =>
      rw [htoken']
      omega
    case encoder =>
      rw [hitems.encoderSize, hinputs', henc']
      omega
    case encoderComputeBudget =>
      rw [henc']
      omega
    case tokenKeys =>
      intro id k hk
      rw [hnum', get?_erase] at hk
      split at hk
      · cases hk
      · rename_i hne
        exact hkey id hne (h.tokenKeys id k hk)
    case inputKeys =>
      intro id ids hk
      rw [hinputs', get?_erase] at hk
      split at hk
      · cases hk
      · rename_i hne
        exact hkey id hne (h.inputKeys id ids hk)
  · rw [htoken']
    omega
  · rw [hembeds, henc', hinputs.resolve_left hne]
    exact (hfits.cost hne).trans (Int.add_zero _).symm

/-! ## Every step -/

/-- What holds between any two steps. -/
structure BooksInv (cfg : Config) (p : Pass X) (current : Phase X) : Prop where
  places : PlacesInv p
  phase : PhaseInv cfg p current
  room : RoomInv cfg p current
  budget : BudgetInv cfg p
  plan : PlanInv p current

section

variable (h : Step cfg a b) (ha : BooksInv cfg a.1 a.2) (hclean : Clean cfg a.1 a.2)
include h ha hclean

theorem Step.planInv : PlanInv b.1 b.2 := by
  cases h with
  | @planRunning p _ ref _ n _ hplan hsplit =>
    have hfits := scheduleEncoderInputs_fits ha.budget.encoderComputeBudget hplan
    obtain ⟨m, rfl⟩ := scheduleEncoderInputs_effect hplan
    have hle := split_le hsplit
    have htokens := hfits.tokens
    have hrunning := runningNumNewTokens_le cfg (p.s.objs ref) p.tokenBudget
    have hbudget : 0 ≤ p.tokenBudget := ha.budget.tokenBudget
    refine ⟨?_, hfits.budget_nonneg, hfits.cost⟩
    show n ≤ p.tokenBudget
    omega
  | @tryAllocate _ _ _ allocated _ _ _ =>
    have hfits := ha.plan
    cases allocated <;> exact ⟨hfits.tokens, hfits.budget_nonneg, hfits.cost⟩
  | @preempt _ _ _ ref _ victim hpop hpre =>
    have hfits := (preempt_budget ha.places ha.phase ha.budget ha.plan hclean hpop hpre).2
    by_cases hv : victim = ref
    · simp only [if_pos hv]
      trivial
    · simp only [if_neg hv]
      exact hfits
  | recordLoras _ =>
    dsimp only
    split <;> trivial
  | promote _ =>
    dsimp only
    split <;> trivial
  | planWaiting hplan =>
    intro hload
    have hfits := planWaiting_fits hload ha.budget.tokenBudget ha.budget.encoderComputeBudget hplan
    obtain ⟨m, rfl⟩ := planWaiting_effect hplan
    exact ⟨hfits.tokens, hfits.budget_nonneg, hfits.cost⟩
  | @allocateWaiting _ _ _ _ _ _ allocated halloc =>
    have hplan := ha.plan
    obtain ⟨world, rfl⟩ := allocateWaiting_effect halloc
    cases allocated with
    | true =>
      intro hload
      have hfits := hplan hload
      exact ⟨hfits.tokens, hfits.budget_nonneg, hfits.cost⟩
    | false => trivial
  | pickRunning _ => trivial
  | endRunning _ => trivial
  | passOver _ => trivial
  | noTokens _ => trivial
  | scheduleRunning _ => trivial
  | pickWaiting _ _ => trivial
  | endWaiting _ => trivial
  | noMatchYet _ => trivial
  | skip _ => trivial
  | getComputed _ => trivial
  | giveUp _ => trivial
  | untouch _ => trivial
  | admitOrLoad _ => trivial
  | requeue => trivial

theorem Step.budgetInv : BudgetInv cfg b.1 := by
  obtain ⟨hitems, hencoder⟩ := h.encoder ha.places ha.phase
  have hbudgets := h.budgets ha.phase
  have hplan := ha.plan
  have hbudget := ha.budget
  cases hencoder with
  | @ask p q x y hquiet hwork _ =>
    refine hbudget.keep hitems hwork ((hbudgets ?_).2 ?_)
    · rintro ref work rfl
      exact hquiet
    · cases x with
      | waitingBlocks source ref computed work => exact if_pos hquiet
      | runningBlocks ref work => exact hquiet.elim
      | _ => rfl
  | untouch hwork _ _ => exact hbudget.keep hitems hwork ((hbudgets nofun).2 rfl)
  | preempt hpop hpre =>
    exact (preempt_budget ha.places ha.phase hbudget hplan hclean hpop hpre).1
  | scheduleRunning hwork _ =>
    exact hbudget.spend ha.places hitems hwork ((hbudgets nofun).1 _ rfl) hplan
  | admitted hload hwork _ =>
    exact hbudget.spend ha.places hitems hwork
      ((hbudgets nofun).1 _ (if_neg (Bool.eq_false_iff.mp hload))) (hplan hload)

theorem Step.booksInv : BooksInv cfg b.1 b.2 where
  places := (h.placesInv ⟨ha.places, ha.phase⟩).1
  phase := (h.placesInv ⟨ha.places, ha.phase⟩).2
  room := h.roomInv ha.room ha.phase
  budget := h.budgetInv ha hclean
  plan := h.planInv ha hclean

end

theorem BudgetInv.accounted (h : BudgetInv cfg p) (hmax : 0 ≤ cfg.maxNumScheduledTokens) :
    Accounted cfg p := by
  have hstart : p.startBudget cfg ≤ cfg.maxNumScheduledTokens := by
    unfold startBudget
    split
    · exact hmax
    · exact Int.le_refl _
  have hsum : p.numScheduledTokens.values.sum = p.numScheduledTokens.total fun _ n => n := rfl
  have htokens := h.tokens
  have hbudget := h.tokenBudget
  have hencoder := h.encoder
  have henc0 := h.encoderComputeBudget
  constructor <;> omega

theorem BooksInv.checkConstraints {phase : Phase X} (h : BooksInv cfg p phase)
    (htokens : 0 ≤ cfg.maxNumScheduledTokens) : p.checkConstraints cfg = .ok () := by
  have hacc := h.budget.accounted htokens
  have hlen : p.scheduledNewReqs.length + p.scheduledResumedReqs.length +
      p.scheduledRunningReqs.length ≤ p.s.running.length := by
    rw [← List.length_append, ← List.length_append]
    exact (h.places.nodup.subperm h.places.running).length_le
  refine bind_eq_ok.mpr ⟨(), assert_eq_ok.mpr (decide_eq_true hacc.tokens_le), ?_⟩
  refine bind_eq_ok.mpr ⟨(), assert_eq_ok.mpr (decide_eq_true hacc.tokenBudget), ?_⟩
  refine bind_eq_ok.mpr ⟨(), assert_eq_ok.mpr (decide_eq_true h.room.le), ?_⟩
  exact assert_eq_ok.mpr (decide_eq_true hlen)

end Pass

/-! ## Runs -/

/-- The passes of `schedule`, step by step, from every state that the scheduler reaches. -/
def budgetRuns (cfg : Config) {X : World} (m : EncoderManager) (w : X.State) :
    TSys (Pass X × Phase X) where
  init a := ∃ run, (schedulerRuns cfg m w (Event.StopsInPlace cfg)).Reachable run ∧
    a = (run.s.startPass cfg, .runningIdle)
  step a b := Pass.Step cfg a b

/-- The passes whose preemptions are all clean. -/
def cleanBudgetRuns (cfg : Config) {X : World} (m : EncoderManager) (w : X.State) :
    TSys (Pass X × Phase X) where
  init := (budgetRuns cfg m w).init
  step a b := Pass.Clean cfg a.1 a.2 ∧ (budgetRuns cfg m w).step a b

/-- Under budgets that are not negative, the books balance in every pass whose preemptions are
clean, and none of the closing assertions fails. -/
theorem budgets_balance (cfg : Config) {X : World} (htokens : 0 ≤ cfg.maxNumScheduledTokens)
    (hencoder : 0 ≤ cfg.maxNumEncoderInputTokens) (m : EncoderManager) (w : X.State) :
    (cleanBudgetRuns cfg m w).Invariant fun a =>
      a.1.Accounted cfg ∧ a.1.checkConstraints cfg = .ok () := by
  have hinv : (cleanBudgetRuns cfg m w).Inductive fun a => Pass.BooksInv cfg a.1 a.2 := by
    constructor
    · rintro a ⟨run, hreach, rfl⟩
      obtain ⟨hpart, hroom⟩ := running_room cfg m w run hreach
      obtain ⟨hp, hrun⟩ := Scheduler.startPass_inv cfg hpart
      have hbudget : 0 ≤ (run.s.startPass cfg).tokenBudget := by
        show 0 ≤ if run.s.pauseState = .pausedAll then 0 else cfg.maxNumScheduledTokens
        split
        · exact Int.le_refl _
        · exact htokens
      exact ⟨hp, hrun, startPass_roomInv hroom, ⟨Int.zero_add _, hbudget, Int.zero_add _, hencoder,
        fun id n hget => (nomatch hget), fun id ids hget => (nomatch hget)⟩, trivial⟩
    · rintro a b ha ⟨hclean, hstep⟩
      exact hstep.booksInv ha hclean
  intro a ha
  have hbooks := hinv.invariant a ha
  exact ⟨hbooks.budget.accounted htokens, hbooks.checkConstraints htokens⟩

/-- A prompt with a picture of four embeddings at `offset`. -/
def picturePrompt (requestId : Nat) (priority : Int) (offset : Nat) : Request where
  requestId := requestId
  priority := priority
  samplingParams := some { maxTokens := 10 }
  promptTokenIds := some (List.replicate (offset + 4) 7)
  mmFeatures := [⟨s!"{requestId}", { offset, length := 4 }⟩]

/-- Prompts are computed two tokens at a time, pictures up to ten embeddings. -/
def pictureConfig : Config where
  policy := .priority
  maxNumRunningReqs := 4
  maxNumScheduledTokens := 100
  maxNumEncoderInputTokens := 10
  maxModelLen := 100
  longPrefillTokenThreshold := 2

/-- The passes over blocks for nine tokens. -/
theorem budgets_balance_pictures :
    (cleanBudgetRuns pictureConfig (.multimodal (.init 20))
      (show (smallWorld 9).State from .empty)).Invariant fun a =>
        a.1.Accounted pictureConfig ∧ a.1.checkConstraints pictureConfig = .ok () :=
  budgets_balance pictureConfig (by decide) (by decide) _ _

/-- Two prompts up to their pictures. -/
def twoPictures : Except PyError (Scheduler (smallWorld 9)) := do
  let s : Scheduler (smallWorld 9) := .initial (.multimodal (.init 20)) .empty
  let first ← Request.init none (picturePrompt 1 5 4)
  let second ← Request.init none (picturePrompt 2 0 2)
  let s ← s.addRequest pictureConfig first
  let (_, s) ← s.schedule pictureConfig
  let s ← s.addRequest pictureConfig second
  let (_, s) ← s.schedule pictureConfig
  .ok s

/-- The first picture is scheduled and taken back for the second request, whose picture is
scheduled: eight of the encoder budget are spent for a picture of four. -/
theorem picture_paid_twice : ∃ run : Run (smallWorld 9),
    (schedulerRuns pictureConfig (.multimodal (.init 20)) (Dict.empty : Dict Nat Nat)
      (Event.StopsInPlace pictureConfig)).Reachable run ∧
    ∃ p, run.s.runPass pictureConfig = .ok p ∧ ¬ p.Accounted pictureConfig := by
  have hrun := eq_ok_get (x := twoPictures) rfl
  generalize hs : twoPictures.toOption.get rfl = s at hrun
  have hreach : ∃ outs, (schedulerRuns pictureConfig (.multimodal (.init 20))
      (Dict.empty : Dict Nat Nat) (Event.StopsInPlace pictureConfig)).Reachable ⟨s, outs⟩ := by
    obtain ⟨first, hinit1, h1⟩ := bind_ok hrun
    obtain ⟨second, hinit2, h2⟩ := bind_ok h1
    obtain ⟨s1, hadd1, h3⟩ := bind_ok h2
    obtain ⟨⟨out1, s2⟩, hsched1, h4⟩ := bind_ok h3
    obtain ⟨s3, hadd2, h5⟩ := bind_ok h4
    obtain ⟨⟨out2, s4⟩, hsched2, h6⟩ := bind_ok h5
    cases h6
    refine ⟨[out1, out2], ?_⟩
    refine .step (s := ⟨s3, [out1]⟩) (.step (s := ⟨s2, [out1]⟩)
      (.step (s := ⟨s1, []⟩) (.step (.init rfl) ?_) ?_) ?_) ?_
    · exact ⟨.addRequest _, trivial, ⟨first, hinit1, hadd1⟩, rfl⟩
    · exact ⟨.schedule out1, trivial, hsched1, rfl⟩
    · exact ⟨.addRequest _, trivial, ⟨second, hinit2, hadd2⟩, rfl⟩
    · exact ⟨.schedule out2, trivial, hsched2, rfl⟩
  obtain ⟨outs, hreach⟩ := hreach
  subst hs
  have hpass := eq_ok_get (x := Scheduler.runPass pictureConfig (twoPictures.toOption.get rfl)) rfl
  refine ⟨_, hreach, _, hpass, fun hacc => ?_⟩
  exact absurd hacc.encoder (by decide +kernel)

end MyOperator.Sched
