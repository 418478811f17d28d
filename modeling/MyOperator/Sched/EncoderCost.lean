import MyOperator.Sched.EncoderChoice
import MyOperator.Sched.Steps

/-!
# What the encoder inputs of a step cost

An encoder input costs its embeddings. The inputs that `_try_schedule_encoder_inputs`
chooses cost as much as it takes off the encoder budget, and the number of tokens it
leaves is at most what it was given.
-/

namespace MyOperator.Sched

open Lib List
open KvCache (assert)

namespace Request

/-- The embeddings of some encoder inputs of the request. -/
def embeds (r : Request) (ids : List Nat) : Nat :=
  (ids.map fun i => (r.mmFeatures[i]?).elim 0 fun f => f.mmPosition.getNumEmbeds).sum

variable {r r' : Request} {ids : List Nat}

theorem embeds_concat (i : Nat) :
    r.embeds (ids ++ [i]) = r.embeds ids + (r.mmFeatures[i]?).elim 0 (·.mmPosition.getNumEmbeds) := by
  unfold embeds
  rw [map_append, sum_append, map_singleton, sum_singleton]

theorem embeds_congr (h : r'.mmFeatures = r.mmFeatures) : r'.embeds ids = r.embeds ids := by
  unfold embeds
  rw [h]

theorem getNumEncoderEmbeds_eq_ok {i n : Nat} (h : r.getNumEncoderEmbeds i = .ok n) :
    n = (r.mmFeatures[i]?).elim 0 fun f => f.mmPosition.getNumEmbeds := by
  unfold getNumEncoderEmbeds at h
  cases hf : r.mmFeatures[i]? with
  | none =>
    rw [hf] at h
    cases h
  | some f =>
    rw [hf] at h
    cases h
    rfl

theorem foldlM_getNumEncoderEmbeds {start n : Nat}
    (h : ids.foldlM (fun sum i => do let k ← r.getNumEncoderEmbeds i; .ok (sum + k)) start =
      (.ok n : Except PyError Nat)) : n = start + r.embeds ids := by
  induction ids generalizing start with
  | nil =>
    cases h
    rfl
  | cons i ids ih =>
    obtain ⟨m, hfirst, hrest⟩ := bind_ok h
    obtain ⟨k, hk, hm⟩ := bind_ok hfirst
    cases hm
    have hk := getNumEncoderEmbeds_eq_ok hk
    have hrest := ih hrest
    unfold embeds at hrest ⊢
    rw [map_cons, sum_cons]
    omega

end Request

/-! ## Choosing encoder inputs -/

namespace EncoderManager

variable {m m' : EncoderManager} {r : Request} {i n : Nat} {budget : Int}

theorem canAllocate_le (h : m.canAllocate r i budget n = .ok (true, m')) :
    (r.embeds [i] : Int) ≤ budget := by
  have hone : r.embeds [i] = (r.mmFeatures[i]?).elim 0 fun f => f.mmPosition.getNumEmbeds := by
    unfold Request.embeds
    rw [map_singleton, sum_singleton]
  rw [hone]
  cases m with
  | multimodal m =>
    obtain ⟨⟨can, m1⟩, hcan, h1⟩ := bind_ok h
    cases h1
    obtain ⟨k, hk, h2⟩ := bind_ok hcan
    split at h2
    · cases h2
    · rw [← Request.getNumEncoderEmbeds_eq_ok hk]
      omega
  | encoderDecoder m =>
    obtain ⟨can, hcan, h1⟩ := bind_ok h
    cases h1
    obtain ⟨k, hk, h2⟩ := bind_ok hcan
    split at h2
    · cases h2
    · rw [← Request.getNumEncoderEmbeds_eq_ok hk]
      omega

end EncoderManager

/-- The inputs chosen so far cost what was taken off `budget`, and no token was added to
`numNewTokens`. -/
structure EncoderPlan.Priced (r : Request) (budget numNewTokens : Int) (p : EncoderPlan) : Prop where
  cost : p.encoderComputeBudget + r.embeds p.encoderInputsToSchedule = budget
  budget_nonneg : 0 ≤ p.encoderComputeBudget
  le : p.numNewTokens ≤ max numNewTokens 0
  nonneg : 0 ≤ numNewTokens → 0 ≤ p.numNewTokens

section Choose

variable {cfg : EncoderConfig} {hasItem : String → Bool} {r : Request} {n shift : Int}
  {i : Nat} {f : MultiModalFeatureSpec} {p : EncoderPlan} {pick : Pick} {budget tokens : Int}

theorem Placed.cost (hf : r.mmFeatures[i]? = some f) (h : Placed r i f p pick)
    (hcost : p.encoderComputeBudget + r.embeds p.encoderInputsToSchedule = budget)
    (hbudget : 0 ≤ p.encoderComputeBudget) :
    pick.plan.encoderComputeBudget + r.embeds pick.plan.encoderInputsToSchedule = budget ∧
      0 ≤ pick.plan.encoderComputeBudget := by
  cases h with
  | chunk _ _ => exact ⟨hcost, hbudget⟩
  | full _ _ _ => exact ⟨hcost, hbudget⟩
  | room hroom hpicked =>
    cases hpicked with
    | outside => exact ⟨hcost, hbudget⟩
    | load => exact ⟨hcost, hbudget⟩
    | schedule =>
      have hpay := EncoderManager.canAllocate_le hroom
      have hone : r.embeds [i] = f.mmPosition.getNumEmbeds := by
        unfold Request.embeds
        rw [map_singleton, hf]
        rfl
      refine ⟨?_, ?_⟩
      · show p.encoderComputeBudget - f.mmPosition.getNumEmbeds +
          r.embeds (p.encoderInputsToSchedule ++ [i]) = budget
        rw [Request.embeds_concat, hf]
        show p.encoderComputeBudget - f.mmPosition.getNumEmbeds +
          ((r.embeds p.encoderInputsToSchedule + f.mmPosition.getNumEmbeds : Nat) : Int) = budget
        omega
      · show 0 ≤ p.encoderComputeBudget - f.mmPosition.getNumEmbeds
        omega

theorem tryScheduleEncoderInputs_priced {m : EncoderManager} (hbudget : 0 ≤ budget)
    (h : tryScheduleEncoderInputs cfg hasItem m r n tokens budget shift = .ok p) :
    p.Priced r budget tokens := by
  have hcost : p.encoderComputeBudget + r.embeds p.encoderInputsToSchedule = budget ∧
      0 ≤ p.encoderComputeBudget := by
    refine tryScheduleEncoderInputs_keeps (P := fun q =>
      q.encoderComputeBudget + r.embeds q.encoderInputsToSchedule = budget ∧
        0 ≤ q.encoderComputeBudget) ?_ ⟨Int.add_zero _, hbudget⟩ h
    rintro i f p pick hf htried ⟨hcost, hbudget⟩
    cases htried with
    | stop => exact ⟨hcost, hbudget⟩
    | next => exact ⟨hcost, hbudget⟩
    | encoderDecoder _ hplaced => exact hplaced.cost hf hcost hbudget
    | hit _ _ => exact ⟨hcost, hbudget⟩
    | miss _ _ hplaced => exact hplaced.cost hf hcost hbudget
  obtain ⟨hle, hnonneg⟩ := tryScheduleEncoderInputs_numNewTokens h
  exact ⟨hcost.1, hcost.2, hle, hnonneg⟩

end Choose

/-! ## The work of a request -/

/-- The work fits the budgets: its tokens are left in `tokenBudget`, its inputs cost what it takes
off `encoderComputeBudget`. -/
structure Work.Fits (r : Request) (tokenBudget encoderComputeBudget : Int) (work : Work) : Prop where
  tokens : work.numNewTokens ≤ tokenBudget
  budget_nonneg : 0 ≤ work.encoderComputeBudget
  cost : work.encoderInputsToSchedule ≠ [] →
    work.encoderComputeBudget + r.embeds work.encoderInputsToSchedule = encoderComputeBudget

namespace Pass

variable {cfg : Config} {X : World} {p q : Pass X} {ref : Ref} {work : Work}

theorem scheduleEncoderInputs_fits {n tokens : Int} (hbudget : 0 ≤ p.encoderComputeBudget)
    (h : p.scheduleEncoderInputs cfg ref n tokens = .ok (work, q)) :
    work.Fits (p.s.objs ref) (max tokens 0) p.encoderComputeBudget := by
  unfold scheduleEncoderInputs at h
  dsimp only at h
  split at h
  · obtain ⟨plan, hplan, h1⟩ := bind_ok h
    have hpriced := tryScheduleEncoderInputs_priced hbudget hplan
    cases h1
    exact ⟨hpriced.le, hpriced.budget_nonneg, fun _ => hpriced.cost⟩
  · cases h
    exact ⟨Int.le_max_left _ _, hbudget, fun hne => absurd rfl hne⟩

theorem split_le {r : Request} {n n' : Int} {a b : Nat} (h : split cfg r n a b = .ok n') :
    n' ≤ max n 0 := by
  unfold split at h
  split at h
  · obtain ⟨⟨⟩, -, h1⟩ := bind_ok h
    dsimp only at h1
    split at h1
    · generalize (if cfg.useEagle = true then _ else _ : Int) = last at h1
      split at h1
      · cases h1
        rcases Nat.eq_zero_or_pos cfg.cacheBlockSize with hzero | hpos
        · rw [hzero, Int.natCast_zero, Int.mul_zero]
          exact Int.le_max_right _ _
        · have hle := Int.ediv_mul_le n (Int.natCast_ne_zero.mpr hpos.ne')
          omega
      · split at h1
        · cases h1
          omega
        · cases h1
          exact Int.le_max_left _ _
    · cases h1
      exact Int.le_max_left _ _
  · cases h
    exact Int.le_max_left _ _

theorem runningNumNewTokens_le (cfg : Config) (r : Request) (tokenBudget : Int) :
    runningNumNewTokens cfg r tokenBudget ≤ tokenBudget := by
  exact (Int.min_le_left _ _).trans (Int.min_le_right _ _)

/-- The work that is decided for a waiting request which is not loaded fits the budgets. -/
theorem planWaiting_fits {computed : Computed X} (hload : computed.loadKvAsync = false)
    (htokens : 0 ≤ p.tokenBudget) (hbudget : 0 ≤ p.encoderComputeBudget)
    (h : p.planWaiting cfg ref computed = .ok (some work, q)) :
    work.Fits (p.s.objs ref) p.tokenBudget p.encoderComputeBudget := by
  rcases planWaiting_inv h with ⟨-, hnone⟩ | ⟨n, w, hn, hplan, hwork⟩
  · cases hnone hload
  · obtain ⟨k, hsplit, rfl⟩ := hwork _ rfl
    have hfits := scheduleEncoderInputs_fits hbudget hplan
    have hle := split_le hsplit
    have htok := hfits.tokens
    refine ⟨?_, hfits.budget_nonneg, hfits.cost⟩
    show k ≤ p.tokenBudget
    omega

/-- `schedule` takes the encoder budget of the work over if it schedules inputs. -/
theorem allocateEncoder_budget (h : p.allocateEncoder cfg ref work = .ok q) :
    q.tokenBudget = p.tokenBudget ∧ q.s.pauseState = p.s.pauseState ∧
      q.s.running = p.s.running ∧
      q.encoderComputeBudget = if work.encoderInputsToSchedule = [] then p.encoderComputeBudget
        else work.encoderComputeBudget := by
  obtain ⟨_, _, _, _, _, heq⟩ := (allocateEncoder_effect h).eq
  refine ⟨by rw [heq], by rw [heq], by rw [heq], ?_⟩
  have hkeep : ∀ (ids : List Nat) (P Q : Pass X),
      ids.foldlM (fun p i => p.allocateExternalLoad cfg ref i) P = .ok Q →
      Q.encoderComputeBudget = P.encoderComputeBudget := by
    intro ids P Q hrun
    refine foldlM_keeps (P := fun R : Pass X => R.encoderComputeBudget = P.encoderComputeBudget)
      ?_ rfl hrun
    intro R i _ R' hR hstep
    obtain ⟨m, world, f, -, -, rfl⟩ := allocateExternalLoad_effect hstep
    exact hR
  obtain ⟨p1, hinputs, hloads⟩ := bind_ok h
  rw [hkeep _ _ _ hloads]
  split at hinputs
  · rename_i hnil
    cases hinputs
    rw [if_pos hnil]
  · rename_i hne
    obtain ⟨p2, -, h2⟩ := bind_ok hinputs
    cases h2
    rw [if_neg hne]

end Pass

end MyOperator.Sched
