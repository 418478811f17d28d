import MyOperator.Sampling.RejectionRows
import MyOperator.Lib.Coupling

/-!
# Speculative sampling is lossless

A draft model proposes tokens, the sampler accepts or replaces them. The draws of a
request are its draft tokens, one uniform number for each, the noise of its recovered
tokens, which all its positions share, and the bonus token. Whatever the draft model
is, what the sampler emits at a position has the target distribution of this position,
given the tokens before it.
-/

namespace MyOperator.Sampling

open Lib MeasureTheory List Function

variable {V : Nat}

/-- A distribution as the row of probabilities that the kernels load. -/
noncomputable def probRow (p : FinDist (Fin V)) : Nat → ℝ := fun t =>
  if h : t < V then p.prob ⟨t, h⟩ else 0

@[simp] theorem probRow_val (p : FinDist (Fin V)) (x : Fin V) : probRow p x = p.prob x :=
  dif_pos x.isLt

theorem probRow_nonneg (p : FinDist (Fin V)) (t : Nat) : 0 ≤ probRow p t := by
  unfold probRow
  split_ifs
  · exact p.nonneg _
  · exact le_rfl

/-- A position with its draft token and its uniform number, behind the tokens `w`. The buffer of the
recovered tokens has not been written. -/
noncomputable def drawnPosition (q p : List (Fin V) → FinDist (Fin V)) (w : List (Fin V))
    (d : Fin V) (u : ℝ) : Position ℝ where
  draftTokenId := d
  draftProbs := probRow (q w)
  targetProbs := probRow (p w)
  recoveredTokenId := 0
  uniformProb := u

/-- The positions of a request, from the draft tokens and the uniform numbers drawn. The
distributions of a position depend on the tokens drafted before it. -/
noncomputable def drawnPositions (q p : List (Fin V) → FinDist (Fin V)) :
    List (Fin V) → List (Fin V × ℝ) → List (Position ℝ)
  | _, [] => []
  | w, (d, u) :: draws =>
    drawnPosition q p w d u :: drawnPositions q p (w ++ [d]) draws

/-- The request. -/
noncomputable def drawnRequest (q p : List (Fin V) → FinDist (Fin V)) (draws : List (Fin V × ℝ))
    (bonus : Fin V) : Request ℝ where
  positions := drawnPositions q p [] draws
  bonusTokenId := bonus
  isGreedy := false

/-- The expectation over the draws of `n` positions behind the tokens `w`: the draft tokens come
from the draft model, the uniform numbers from the unit interval, the bonus token from the target
model. -/
noncomputable def expect (q p : List (Fin V) → FinDist (Fin V)) :
    Nat → List (Fin V) → (List (Fin V × ℝ) → Fin V → ℝ) → ℝ
  | 0, w, f => ∑ b, (p w).prob b * f [] b
  | n + 1, w, f => ∑ d, (q w).prob d * ∫ u in (0 : ℝ)..1,
      expect q p n (w ++ [d]) fun draws bonus => f ((d, u) :: draws) bonus

/-- The residual from which the recovered token of a position is sampled. -/
noncomputable def residual (q p : FinDist (Fin V)) (noDraftProbs : Bool) (d x : Fin V) : ℝ :=
  recoveredProb (if noDraftProbs then none else some (probRow q)) (probRow p) d V x

/-- The recovered token of a position under a row of noise. -/
noncomputable def recoveredToken (q p : FinDist (Fin V)) (noDraftProbs : Bool) (d : Fin V)
    (invQ : Nat → ℝ) : Nat :=
  recoveredId (score (recoveredProb (if noDraftProbs then none else some (probRow q)) (probRow p)
    d V) invQ V) V 8192

/-- Noise under which every recovered token is drawn proportionally to its residual. -/
structure Noise (Ω : Type) [MeasurableSpace Ω] (ν : ProbabilityMeasure Ω)
    (q p : List (Fin V) → FinDist (Fin V)) (noDraftProbs : Bool) where
  invQ : Ω → Nat → ℝ
  nonneg : ∀ ω v, 0 ≤ invQ ω v
  measurable : ∀ (w : List (Fin V)) (d x : Fin V),
    MeasurableSet {ω | recoveredToken (q w) (p w) noDraftProbs d (invQ ω) = x}
  proportional : ∀ (w : List (Fin V)) (d x : Fin V),
    (ν : Measure Ω).real {ω | recoveredToken (q w) (p w) noDraftProbs d (invQ ω) = x} *
      ∑ y, residual (q w) (p w) noDraftProbs d y = residual (q w) (p w) noDraftProbs d x

/-- The tokens that the sampler returns for the request, in a batch with other requests and their
noise. -/
noncomputable def sampledTokens (before after : Batch ℝ) (others : Nat → Nat → ℝ)
    (noDraftProbs : Bool) (V : Nat) (invQ : Nat → ℝ) (r : Request ℝ) : List Int :=
  let b := before ++ r :: after
  parseOutput (outputRow (rejectionSample b noDraftProbs
    ((range b.length).map (update others before.length invQ)) V) b.maxSpecLen before.length) V

/-! ## The emitted tokens -/

variable {q p : List (Fin V) → FinDist (Fin V)} {noDraftProbs : Bool}

/-- The draft probability that the kernel divides by. -/
noncomputable def draftProbOf (q : FinDist (Fin V)) (noDraftProbs : Bool) (d : Fin V) : ℝ :=
  if noDraftProbs then 1 else q.prob d

/-- What is emitted behind `w`: draft tokens up to the first rejection. -/
noncomputable def emit (q p : List (Fin V) → FinDist (Fin V)) (noDraftProbs : Bool)
    (tok : List (Fin V) → Fin V → Fin V) : List (Fin V) → List (Fin V × ℝ) → Fin V → List (Fin V)
  | _, [], bonus => [bonus]
  | w, (d, u) :: draws, bonus =>
    if 0 < draftProbOf (q w) noDraftProbs d ∧
        u ≤ (p w).prob d / draftProbOf (q w) noDraftProbs d then
      d :: emit q p noDraftProbs tok (w ++ [d]) draws bonus
    else [tok w d]

theorem recoveredToken_lt {q p : FinDist (Fin V)} {d : Fin V} {invQ : Nat → ℝ}
    (h : ∀ v, 0 ≤ invQ v) : recoveredToken q p noDraftProbs d invQ < V := by
  refine (recoveredId_spec (by decide) (Nat.zero_lt_of_lt d.isLt) (fun v hv => ?_)
    fun v hv => ?_).1
  · unfold score
    rw [if_pos hv]
    refine mul_nonneg ?_ (h v)
    unfold recoveredProb
    cases noDraftProbs with
    | true =>
      rw [if_pos rfl]
      split_ifs
      · exact probRow_nonneg _ _
      · exact le_rfl
    | false => exact le_max_right _ _
  · unfold score
    rw [if_neg (Nat.not_lt.mpr hv), mul_zero]

/-- The recovered token as a token of the vocabulary. -/
noncomputable def recoveredFin (q p : List (Fin V) → FinDist (Fin V)) (noDraftProbs : Bool)
    {invQ : Nat → ℝ} (h : ∀ v, 0 ≤ invQ v) (w : List (Fin V)) (d : Fin V) : Fin V :=
  ⟨recoveredToken (q w) (p w) noDraftProbs d invQ, recoveredToken_lt h⟩

theorem drawnPosition_accepted {w : List (Fin V)} {d : Fin V} {u : ℝ} :
    (drawnPosition q p w d u).Accepted noDraftProbs ↔ 0 < draftProbOf (q w) noDraftProbs d ∧
      u ≤ (p w).prob d / draftProbOf (q w) noDraftProbs d := by
  unfold Position.Accepted Position.draftProb drawnPosition draftProbOf
  dsimp only
  rw [probRow_val, probRow_val]

theorem emitted_drawn {invQ : Nat → ℝ} (h : ∀ v, 0 ≤ invQ v) (w : List (Fin V))
    (draws : List (Fin V × ℝ)) (bonus : Fin V) {g : Bool} :
    (Request.recover ⟨drawnPositions q p w draws, bonus, g⟩ noDraftProbs invQ V).emitted
      (Request.acceptedLen ⟨drawnPositions q p w draws, bonus, g⟩ noDraftProbs) =
    (emit q p noDraftProbs (recoveredFin q p noDraftProbs h) w draws bonus).map (·.val) := by
  induction draws generalizing w with
  | nil => rfl
  | cons x draws ih =>
    obtain ⟨d, u⟩ := x
    have hiff := @drawnPosition_accepted _ q p noDraftProbs w d u
    rw [drawnPositions, emit]
    unfold Request.acceptedLen
    rw [takeWhile_cons]
    by_cases hacc : (drawnPosition q p w d u).Accepted noDraftProbs
    · rw [if_pos (hiff.mp hacc), if_pos (decide_eq_true hacc), length_cons, map_cons]
      exact congrArg (d.val :: ·) (ih (w ++ [d]))
    · rw [if_neg (mt hiff.mpr hacc), if_neg (by rw [decide_eq_true_eq]; exact hacc)]
      rfl

theorem sampledTokens_eq (before after : Batch ℝ) (others : Nat → Nat → ℝ) {invQ : Nat → ℝ}
    (h : ∀ v, 0 ≤ invQ v) (draws : List (Fin V × ℝ)) (bonus : Fin V) :
    sampledTokens before after others noDraftProbs V invQ (drawnRequest q p draws bonus) =
      (emit q p noDraftProbs (recoveredFin q p noDraftProbs h) [] draws bonus).map
        fun t => (t.val : Int) := by
  have hget : (before ++ drawnRequest q p draws bonus :: after)[before.length]? =
      some (drawnRequest q p draws bonus) := by
    rw [getElem?_append_right (Nat.le_refl _), Nat.sub_self]
    rfl
  have hrow : ((range (before ++ drawnRequest q p draws bonus :: after).length).map
      (update others before.length invQ)).getD before.length (fun _ => 0) = invQ := by
    rw [getD_eq_getElem?_getD, getElem?_map, getElem?_range]
    · exact update_self _ _ _
    · rw [length_append, length_cons]
      omega
  have hemit := @emitted_drawn _ q p noDraftProbs _ h [] draws bonus false
  unfold sampledTokens
  rw [parseOutput_rejectionSample hget rfl]
  · rw [hrow]
    refine (congrArg (List.map Int.ofNat) hemit).trans ?_
    rw [map_map]
    rfl
  · intro t ht
    rw [hrow] at ht
    obtain ⟨x, _, rfl⟩ := mem_map.mp (hemit ▸ ht)
    exact x.isLt

/-! ## The distribution of what is emitted -/

open Classical in
/-- One if the event happens. -/
noncomputable def weight (P : Prop) : ℝ := if P then 1 else 0

theorem weight_of {P : Prop} (h : P) : weight P = 1 := if_pos h

theorem weight_of_not {P : Prop} (h : ¬ P) : weight P = 0 := if_neg h

/-- The probability that what the client gets has a property, over the draws of a request with `n`
draft tokens. -/
noncomputable def emissionProb {Ω : Type} [MeasurableSpace Ω] {ν : ProbabilityMeasure Ω}
    (before after : Batch ℝ) (others : Nat → Nat → ℝ) (noise : Noise Ω ν q p noDraftProbs) (n : Nat)
    (S : List Int → Prop) : ℝ :=
  ∫ ω, expect q p n [] (fun draws bonus => weight (S (sampledTokens before after others noDraftProbs
    V (noise.invQ ω) (drawnRequest q p draws bonus)))) ∂(ν : Measure Ω)

variable {tok : List (Fin V) → Fin V → Fin V} {n : Nat} {c : List (Fin V)}

theorem expect_const (k : ℝ) : expect q p n c (fun _ _ => k) = k := by
  induction n generalizing c with
  | zero =>
    rw [expect, ← Finset.sum_mul, (p c).sum_prob, one_mul]
  | succ n ih =>
    rw [expect]
    simp_rw [ih, intervalIntegral.integral_const, sub_zero, one_smul]
    rw [← Finset.sum_mul, (q c).sum_prob, one_mul]

/-- The first position: its draft token is accepted and the rest is emitted behind it, or it is
replaced and nothing follows. -/
theorem expect_emit_succ (S : List (Fin V) → Prop) :
    expect q p (n + 1) c (fun draws bonus => weight (S (emit q p noDraftProbs tok c draws bonus))) =
      ∑ d, (q c).prob d * (acceptProb (draftProbOf (q c) noDraftProbs d) ((p c).prob d) *
          expect q p n (c ++ [d]) (fun draws bonus =>
            weight (S (d :: emit q p noDraftProbs tok (c ++ [d]) draws bonus))) +
        (1 - acceptProb (draftProbOf (q c) noDraftProbs d) ((p c).prob d)) *
          weight (S [tok c d])) := by
  refine Finset.sum_congr rfl fun d _ => congrArg _ ?_
  by_cases hpos : 0 < draftProbOf (q c) noDraftProbs d
  · rw [acceptProb, if_pos hpos, ← integral_unit_ite (div_nonneg ((p c).nonneg d) hpos.le)]
    refine intervalIntegral.integral_congr fun u _ => ?_
    by_cases hu : u ≤ (p c).prob d / draftProbOf (q c) noDraftProbs d
    · simp_rw [emit, if_pos (And.intro hpos hu), if_pos hu]
    · simp_rw [emit, if_neg (not_and_of_not_right _ hu), if_neg hu, expect_const]
  · rw [acceptProb, if_neg hpos]
    simp_rw [emit, if_neg (not_and_of_not_left _ hpos), expect_const,
      intervalIntegral.integral_const]
    simp

theorem expect_emit_cons {S S' : List (Fin V) → Prop} {y : Fin V}
    (hcons : ∀ d l, S (d :: l) ↔ d = y ∧ S' l) (hsingle : ∀ t, ¬ S [t]) :
    expect q p (n + 1) c (fun draws bonus => weight (S (emit q p noDraftProbs tok c draws bonus))) =
      (q c).prob y * acceptProb (draftProbOf (q c) noDraftProbs y) ((p c).prob y) *
        expect q p n (c ++ [y]) fun draws bonus =>
          weight (S' (emit q p noDraftProbs tok (c ++ [y]) draws bonus)) := by
  rw [expect_emit_succ, Finset.sum_eq_single y]
  · rw [weight_of_not (hsingle _), mul_zero, add_zero, mul_assoc]
    simp_rw [hcons, true_and]
  · intro d _ hd
    have hnot : ∀ l, ¬ S (d :: l) := fun l h => hd ((hcons d l).mp h).1
    simp_rw [weight_of_not (hnot _), expect_const, mul_zero]
    rw [weight_of_not (hsingle _), mul_zero, add_zero, mul_zero]
  · exact fun h => absurd (Finset.mem_univ y) h

theorem emit_ne_nil (draws : List (Fin V × ℝ)) (bonus : Fin V) :
    emit q p noDraftProbs tok c draws bonus ≠ [] := by
  cases draws with
  | nil => exact cons_ne_nil _ _
  | cons x draws =>
    rw [emit]
    split_ifs <;> exact cons_ne_nil _ _

theorem singleton_prefix_cons {x d : Fin V} {l : List (Fin V)} : [x] <+: d :: l ↔ d = x := by
  rw [cons_prefix_cons]
  exact ⟨fun h => h.1.symm, fun h => ⟨h.symm, nil_prefix⟩⟩

theorem residual_eq (q p : FinDist (Fin V)) (d x : Fin V) :
    residual q p noDraftProbs d x =
      if noDraftProbs then (if x ≠ d then p.prob x else 0) else max (p.prob x - q.prob x) 0 := by
  unfold residual recoveredProb
  cases noDraftProbs with
  | true =>
    rw [if_pos rfl, if_pos rfl]
    refine if_congr ?_ (probRow_val p x) rfl
    rw [and_iff_right x.isLt, Ne, Fin.val_inj]
  | false =>
    rw [if_neg Bool.false_ne_true, if_neg Bool.false_ne_true]
    dsimp only
    rw [if_pos x.isLt, if_pos x.isLt, probRow_val, probRow_val]

section

variable {Ω : Type} [MeasurableSpace Ω] {ν : ProbabilityMeasure Ω}
  {noise : Noise Ω ν q p noDraftProbs}

theorem sum_first (noise : Noise Ω ν q p noDraftProbs) (x : Fin V) :
    ∑ d, (q c).prob d * (acceptProb (draftProbOf (q c) noDraftProbs d) ((p c).prob d) *
        weight (d = x) + (1 - acceptProb (draftProbOf (q c) noDraftProbs d) ((p c).prob d)) *
        (ν : Measure Ω).real
          {ω | recoveredToken (q c) (p c) noDraftProbs d (noise.invQ ω) = x}) = (p c).prob x := by
  have hw : ∀ d, weight (d = x) = if d = x then 1 else 0 := fun d => by
    unfold weight
    split_ifs <;> rfl
  simp_rw [hw]
  have hprop := noise.proportional c
  simp_rw [residual_eq] at hprop
  cases noDraftProbs with
  | true => exact sum_keep_or_recover hprop
  | false => exact sum_accept_or_recover hprop

/-- The recovered token of a position, of the vocabulary, under the noise. -/
noncomputable def Noise.token (noise : Noise Ω ν q p noDraftProbs) (ω : Ω) :
    List (Fin V) → Fin V → Fin V := recoveredFin q p noDraftProbs (noise.nonneg ω)

theorem integral_weight_token (noise : Noise Ω ν q p noDraftProbs) (d x : Fin V) :
    Integrable (fun ω => weight (noise.token ω c d = x)) (ν : Measure Ω) ∧
      ∫ ω, weight (noise.token ω c d = x) ∂(ν : Measure Ω) = (ν : Measure Ω).real
        {ω | recoveredToken (q c) (p c) noDraftProbs d (noise.invQ ω) = x} := by
  have hmeas := noise.measurable c d x
  have hind : (fun ω => weight (noise.token ω c d = x)) = Set.indicator
      {ω | recoveredToken (q c) (p c) noDraftProbs d (noise.invQ ω) = x} fun _ => (1 : ℝ) := by
    funext ω
    have hiff : noise.token ω c d = x ↔
        recoveredToken (q c) (p c) noDraftProbs d (noise.invQ ω) = x := Fin.ext_iff
    by_cases h : noise.token ω c d = x
    · rw [weight_of h]
      exact (if_pos (hiff.mp h)).symm
    · rw [weight_of_not h]
      exact (if_neg (mt hiff.mpr h)).symm
  rw [hind]
  refine ⟨(integrable_const 1).indicator hmeas, ?_⟩
  rw [integral_indicator_const _ hmeas, smul_eq_mul, mul_one]

theorem first_token (noise : Noise Ω ν q p noDraftProbs) (x : Fin V) :
    ∫ ω, expect q p n c (fun draws bonus => weight ([x] <+:
      emit q p noDraftProbs (noise.token ω) c draws bonus)) ∂(ν : Measure Ω) = (p c).prob x := by
  cases n with
  | zero =>
    simp_rw [expect, emit, singleton_prefix_cons]
    simp [weight]
  | succ n =>
    simp_rw [expect_emit_succ (S := fun l => [x] <+: l), singleton_prefix_cons, expect_const]
    rw [integral_finsetSum]
    · refine Eq.trans (Finset.sum_congr rfl fun d _ => ?_) (sum_first noise x)
      obtain ⟨hint, hval⟩ := integral_weight_token (c := c) noise d x
      rw [integral_const_mul, integral_add (integrable_const _) (hint.const_mul _),
        integral_const, probReal_univ, one_smul, integral_const_mul, hval]
    · intro d _
      obtain ⟨hint, _⟩ := integral_weight_token (c := c) noise d x
      exact ((integrable_const _).add (hint.const_mul _)).const_mul _

/-- Emission behind the context `c` reaches the position behind `w`, and the token there has the
target distribution. -/
theorem emit_token (noise : Noise Ω ν q p noDraftProbs) (w : List (Fin V)) (x : Fin V) :
    ∫ ω, expect q p n c (fun draws bonus => weight (w ++ [x] <+:
      emit q p noDraftProbs (noise.token ω) c draws bonus)) ∂(ν : Measure Ω) =
    (∫ ω, expect q p n c (fun draws bonus => weight
      (w <+: emit q p noDraftProbs (noise.token ω) c draws bonus ∧
        w.length < (emit q p noDraftProbs (noise.token ω) c draws bonus).length)) ∂(ν : Measure Ω)) *
      (p (c ++ w)).prob x := by
  induction w generalizing n c with
  | nil =>
    have hone : ∀ ω draws bonus, weight ([] <+: emit q p noDraftProbs (noise.token ω) c draws bonus ∧
        ([] : List (Fin V)).length <
          (emit q p noDraftProbs (noise.token ω) c draws bonus).length) = 1 := fun ω draws bonus =>
      weight_of ⟨ nil_prefix, length_pos_iff.mpr (emit_ne_nil draws bonus)⟩
    simp_rw [hone, expect_const]
    rw [integral_const, probReal_univ, one_smul, one_mul, append_nil]
    exact first_token noise x
  | cons y w ih =>
    cases n with
    | zero =>
      -- only the bonus token is emitted
      have hlong : ∀ b : Fin V, ¬ (y :: w ++ [x] <+: [b]) := by
        intro b h
        have := h.length_le
        rw [length_append, length_cons, length_singleton, length_singleton] at this
        omega
      have hend : ∀ b : Fin V, ¬ (y :: w <+: [b] ∧ (y :: w).length < [b].length) := by
        rintro b ⟨_, h⟩
        rw [length_cons, length_singleton] at h
        omega
      simp_rw [expect, emit, weight_of_not (hlong _), weight_of_not (hend _), mul_zero,
        Finset.sum_const_zero]
      rw [integral_zero, zero_mul]
    | succ n =>
      simp_rw [@expect_emit_cons _ _ _ _ _ _ _ (fun l => y :: w ++ [x] <+: l)
        (fun l => w ++ [x] <+: l) y
        (fun d l => by rw [cons_append, cons_prefix_cons, eq_comm])
        (fun t h => by
          have := h.length_le
          rw [length_append, length_cons, length_singleton, length_singleton] at this
          omega)]
      simp_rw [@expect_emit_cons _ _ _ _ _ _ _ (fun l => y :: w <+: l ∧ (y :: w).length < l.length)
        (fun l => w <+: l ∧ w.length < l.length) y (fun d l => by
          rw [cons_prefix_cons, length_cons, length_cons, Nat.succ_lt_succ_iff, and_assoc, eq_comm])
        (fun t h => by
          have := h.2
          rw [length_cons, length_singleton] at this
          omega)]
      rw [integral_const_mul, integral_const_mul, ih, append_assoc, singleton_append]
      ring

end

end MyOperator.Sampling
