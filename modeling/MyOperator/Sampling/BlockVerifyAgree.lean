import MyOperator.Sampling.BlockVerifyRows

/-!
# Where the two block verifications agree

The rows of a request are the same if and only if both implementations accept the
same number of its draft tokens, that is, if the last position that is within either
of the two thresholds is within both.
-/

namespace MyOperator.Sampling

open List

/-- The output before block verification: placeholders, but for the rows of greedy requests. -/
def startOutput {K : Type*} (b : Batch K) (maxSpecLen : Nat) (greedyRows : Nat → Int) : Nat → Int :=
  fun addr =>
    if b[addr / (maxSpecLen + 1)]?.any (·.isGreedy) then greedyRows addr else PLACEHOLDER_TOKEN_ID

/-- Both implementations leave the same rows. -/
def SameRows (b : Batch Rat) (noDraftProbs : Bool) (vectorcoreNum : PNat) (maxSpecLen vocabSize : Nat)
    (out : Nat → Int) : Prop :=
  rejectionRandomSampleBlockVerifyPytorch b noDraftProbs maxSpecLen vocabSize out =
    some ((range b.length).map (outputRow
      (blockVerifyLaunch b noDraftProbs vectorcoreNum maxSpecLen vocabSize out) maxSpecLen))

instance (b : Batch Rat) (noDraftProbs : Bool) (vectorcoreNum : PNat) (maxSpecLen vocabSize : Nat)
    (out : Nat → Int) :
    Decidable (SameRows b noDraftProbs vectorcoreNum maxSpecLen vocabSize out) :=
  inferInstanceAs (Decidable (_ = _))

/-- The uniform number of the position `k` is at most the threshold that takes the residual mass
from the rows of the next position. -/
def Request.WithinNext (r : Request Rat) (noDraftProbs : Bool) (vocabSize k : Nat) : Prop :=
  Within noDraftProbs 0 1 vocabSize r.positions k

/-- The uniform number of the position `k` is at most the threshold that takes the residual mass
from its own rows and clamps the draft probabilities. -/
def Request.WithinOwn (r : Request Rat) (noDraftProbs : Bool) (vocabSize k : Nat) : Prop :=
  Within noDraftProbs (1 / 10 ^ 10) 0 vocabSize r.positions k

instance (r : Request Rat) (noDraftProbs : Bool) (vocabSize k : Nat) :
    Decidable (r.WithinNext noDraftProbs vocabSize k) :=
  inferInstanceAs (Decidable (Within _ _ _ _ _ _))

instance (r : Request Rat) (noDraftProbs : Bool) (vocabSize k : Nat) :
    Decidable (r.WithinOwn noDraftProbs vocabSize k) :=
  inferInstanceAs (Decidable (Within _ _ _ _ _ _))

/-- The last position within one of the thresholds is within both. -/
def Request.LastAgrees (r : Request Rat) (noDraftProbs : Bool) (vocabSize : Nat) : Prop :=
  ∀ k < r.positions.length,
    r.WithinNext noDraftProbs vocabSize k ∨ r.WithinOwn noDraftProbs vocabSize k →
    (∀ j, k < j → j < r.positions.length →
      ¬ (r.WithinNext noDraftProbs vocabSize j ∨ r.WithinOwn noDraftProbs vocabSize j)) →
    r.WithinNext noDraftProbs vocabSize k ∧ r.WithinOwn noDraftProbs vocabSize k

variable {b : Batch Rat} {noDraftProbs : Bool} {vectorcoreNum : PNat} {i m vocabSize : Nat}
  {r : Request Rat} {greedyRows : Nat → Int}

theorem outputRow_startOutput {K : Type*} {b : Batch K} {r : Request K} (h : b[i]? = some r)
    (hg : r.isGreedy = false) :
    outputRow (startOutput b m greedyRows) m i = replicate (m + 1) PLACEHOLDER_TOKEN_ID := by
  unfold outputRow
  rw [← length_range (n := m + 1), ← map_const', length_range]
  refine map_congr_left fun j hj => ?_
  have hj := mem_range.mp hj
  have hdiv : (i * (m + 1) + j) / (m + 1) = i := by
    rw [mul_comm, Nat.mul_add_div (Nat.succ_pos m), Nat.div_eq_of_lt hj, add_zero]
  unfold startOutput
  rw [hdiv, h]
  simp [hg]

theorem row_eq_iff {n n' : Nat} (hn : n ≤ r.positions.length) (hn' : n' ≤ r.positions.length) :
    (r.emitted n).map Int.ofNat ++ (replicate (m + 1) PLACEHOLDER_TOKEN_ID).drop (n + 1) =
      (r.emitted n').map Int.ofNat ++
        (replicate (m + 1) PLACEHOLDER_TOKEN_ID).drop (n' + 1) ↔ n = n' := by
  refine ⟨fun heq => ?_, fun heq => by rw [heq]⟩
  have hfilter : ∀ {k l : Nat}, ((r.emitted k).map Int.ofNat ++
      (replicate (m + 1) PLACEHOLDER_TOKEN_ID).drop l).filter (· ≠ PLACEHOLDER_TOKEN_ID) =
      (r.emitted k).map Int.ofNat := by
    intro k l
    rw [filter_append, drop_replicate, filter_eq_self.mpr, filter_eq_nil_iff.mpr, append_nil]
    · intro t ht
      rw [eq_of_mem_replicate ht]
      simp
    · intro t ht
      obtain ⟨v, _, rfl⟩ := mem_map.mp ht
      rw [decide_eq_true_eq]
      show (v : Int) ≠ -1
      omega
  have hlen := congrArg (fun l => (l.filter (· ≠ PLACEHOLDER_TOKEN_ID)).length) heq
  rw [hfilter, hfilter, length_map, length_map, Request.length_emitted hn,
    Request.length_emitted hn'] at hlen
  exact Nat.succ_inj.mp hlen

theorem sameRow_iff (h : b[i]? = some r) (hg : r.isGreedy = false) (hm : b.maxSpecLen ≤ m) :
    (range (m + 1)).map (BlockVerifyPytorch.outputTokenIds (b.arrays noDraftProbs) m vocabSize
        (startOutput b m greedyRows) i) =
      outputRow (blockVerifyLaunch b noDraftProbs vectorcoreNum m vocabSize
        (startOutput b m greedyRows)) m i ↔ r.LastAgrees noDraftProbs vocabSize := by
  rw [BlockVerifyPytorch.outputTokenIds_eq h hg hm, outputRow_blockVerifyLaunch vectorcoreNum h hm, hg,
    if_neg Bool.false_ne_true, outputRow_startOutput h hg, row_eq_iff lastAccepted_le lastAccepted_le, eq_comm]
  exact lastAccepted_eq_lastAccepted_iff

/-- Both block verifications leave the same rows if and only if the batch has a column and a draft
token, and of each request that is not greedy the last position within one of the thresholds is
within both. -/
theorem sameRows_iff (b : Batch Rat) (noDraftProbs : Bool) (vectorcoreNum : PNat)
    (extra vocabSize : Nat) (greedyRows : Nat → Int) :
    SameRows b noDraftProbs vectorcoreNum (b.maxSpecLen + extra) vocabSize
        (startOutput b (b.maxSpecLen + extra) greedyRows) ↔
      (b.maxSpecLen + extra ≠ 0 ∧ (b.tokens = [] → b = [])) ∧
        ∀ r ∈ b, r.isGreedy = false → r.LastAgrees noDraftProbs vocabSize := by
  have hm : b.maxSpecLen ≤ b.maxSpecLen + extra := Nat.le_add_right _ _
  generalize b.maxSpecLen + extra = m at hm
  unfold SameRows rejectionRandomSampleBlockVerifyPytorch
  by_cases hraise : m = 0 ∨ b.tokens = [] ∧ b ≠ []
  · rw [if_pos hraise]
    refine iff_of_false nofun fun hand => ?_
    rcases hraise with h0 | ⟨hnil, hne⟩
    · exact hand.1.1 h0
    · exact hne (hand.1.2 hnil)
  · have hdom : m ≠ 0 ∧ (b.tokens = [] → b = []) := ⟨fun h0 => hraise (.inl h0), fun hnil => by
        by_contra hne
        exact hraise (.inr ⟨hnil, hne⟩)⟩
    rw [if_neg hraise, Option.some_inj, map_inj_left, and_iff_right hdom]
    constructor
    · intro hrows r hr hg
      obtain ⟨i, hi⟩ := mem_iff_getElem?.mp hr
      have hrow := hrows i (mem_range.mpr (List.getElem?_eq_some_iff.mp hi).1)
      exact (sameRow_iff hi hg hm).mp hrow
    · intro hall i hi
      obtain ⟨r, hr⟩ : ∃ r, b[i]? = some r := ⟨_, getElem?_eq_getElem (mem_range.mp hi)⟩
      cases hg : r.isGreedy with
      | true =>
        rw [outputRow_blockVerifyLaunch vectorcoreNum hr hm, hg]
        exact BlockVerifyPytorch.outputTokenIds_greedy hr hg
      | false =>
        exact (sameRow_iff hr hg hm).mpr (hall r (mem_of_getElem? hr) hg)

/-- A request with three draft tokens. The residual mass behind the first one is 1/2 with the rows
of the second position, and 1/4 with its own rows. -/
def threeDrafts : Request Rat where
  positions := [
    { draftTokenId := 0
      draftProbs := fun v => if v = 0 then 1 else 0
      targetProbs := fun _ => 1 / 2
      recoveredTokenId := 1
      uniformProb := 2 / 5 },
    { draftTokenId := 0
      draftProbs := fun v => if v = 0 then 1 else 0
      targetProbs := fun v => if v = 0 then 0 else 1
      recoveredTokenId := 1
      uniformProb := 1 / 2 },
    { draftTokenId := 0
      draftProbs := fun v => if v = 0 then 1 else 0
      targetProbs := fun v => if v = 0 then 1 else 0
      recoveredTokenId := 1
      uniformProb := 1 / 2 }]
  bonusTokenId := 1
  isGreedy := false

theorem threeDrafts_lastAgrees : ¬ threeDrafts.LastAgrees false 2 := by
  intro h
  have hnext : threeDrafts.WithinNext false 2 0 := by decide +kernel
  have hown : ¬ threeDrafts.WithinOwn false 2 0 := by decide +kernel
  have hrest : ∀ j < 3, 0 < j →
      ¬ (threeDrafts.WithinNext false 2 j ∨ threeDrafts.WithinOwn false 2 j) := by decide +kernel
  exact hown (h 0 (by decide) (.inl hnext) fun j hj hlt => hrest j hlt hj).2

/-- The kernel accepts the first draft token, the implementation on tensors rejects it. -/
theorem threeDrafts_differ : ¬ SameRows [threeDrafts] false 1 3 2
    (startOutput [threeDrafts] 3 fun _ => PLACEHOLDER_TOKEN_ID) := by
  intro h
  have hrow := map_inj_left.mp (Option.some.inj h) 0 (by decide)
  exact threeDrafts_lastAgrees ((sameRow_iff rfl rfl le_rfl).mp hrow)

end MyOperator.Sampling
