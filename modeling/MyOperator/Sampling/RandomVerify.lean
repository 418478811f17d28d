import MyOperator.Sampling.BlockVerifyAgree
import MyOperator.Eplb.Numpy

/-!
# Random verification on tensors

The implementation on whole tensors has one column for each possible position. It finds
the first rejected position of each row, and writes the accepted draft tokens, the
recovered token and the bonus token through masks. Its rows are those of the kernel that
walks the positions; but it needs a column to look for a rejection in, and a draft token
that the clamped indices can fall on.
-/

namespace MyOperator.Sampling

open Lib List
open Eplb (NumpyError)

variable {K : Type} [Field K] [LinearOrder K]

/-! ## The kernel -/

/-- `rejection_random_sample_kernel` for a block of requests. For a request of the block it does
what the kernel with one request per program does. -/
def rejectionRandomSampleBlockKernel (a : Arrays K) (maxSpecLen vecLen BLOCK_SIZE : Nat)
    (outputTokenIds : Nat → Int) (blockIdx : Nat) : Nat → Int :=
  (range BLOCK_SIZE).foldl (fun out reqI =>
    let reqIdx := blockIdx * BLOCK_SIZE + reqI
    if reqIdx < vecLen ∧ a.isGreedy.getD reqIdx true = false then
      rejectionRandomSampleKernel a maxSpecLen out reqIdx
    else out) outputTokenIds

/-- The launch of the kernel on a batch. -/
def randomSampleLaunch (b : Batch K) (noDraftProbs : Bool) (vectorcoreNum : PNat) (maxSpecLen : Nat)
    (outputTokenIds : Nat → Int) : Nat → Int :=
  let g := calGridAndBlockSize vectorcoreNum b.length
  (range g.1).foldl (rejectionRandomSampleBlockKernel (b.arrays noDraftProbs) maxSpecLen
    b.length g.2) outputTokenIds

/-! ## The implementation on tensors

The grids of tokens and probabilities are those of block verification. -/

namespace RandomPytorch

open BlockVerifyPytorch (numDraftPerBatch globalTokenIndices draftTokens draftTokenProbs
  targetTokenProbs)

/-- `global_token_indices` as `clamp(0, len - 1)` leaves them. -/
def clampedIndices (a : Arrays K) (req pos : Nat) : Int :=
  min (max ((a.startIdx req + pos : Nat) : Int) 0) ((a.draftTokenIds.length : Int) - 1)

def validMask (a : Arrays K) (req pos : Nat) : Prop := pos < numDraftPerBatch a req

def acceptanceCondition (a : Arrays K) (req pos : Nat) : Prop :=
  0 < draftTokenProbs a req pos ∧ a.uniformProbs.getD (globalTokenIndices a req pos) 0 ≤
    targetTokenProbs a req pos / draftTokenProbs a req pos

def firstRejection (a : Arrays K) (req pos : Nat) : Prop :=
  ¬ acceptanceCondition a req pos ∧ validMask a req pos

instance (a : Arrays K) (req pos : Nat) : Decidable (validMask a req pos) :=
  inferInstanceAs (Decidable (_ < _))

instance (a : Arrays K) (req pos : Nat) : Decidable (acceptanceCondition a req pos) :=
  inferInstanceAs (Decidable (_ ∧ _))

instance (a : Arrays K) (req pos : Nat) : Decidable (firstRejection a req pos) :=
  inferInstanceAs (Decidable (_ ∧ _))

/-- `first_reject_pos`: `argmax` gives the first position of the mask, if there is one. -/
def firstRejectPos (a : Arrays K) (maxDraftLen req : Nat) : Nat :=
  ((range maxDraftLen).find? fun pos => firstRejection a req pos).getD maxDraftLen

/-- `output_token_ids` of a request and a column, after both writes. -/
def outputTokenIds (a : Arrays K) (maxSpecLen : Nat) (out : Nat → Int) (req j : Nat) : Int :=
  let firstReject := firstRejectPos a maxSpecLen req
  let nonGreedy := a.isGreedy.getD req false = false
  let shouldSkip := firstReject ≤ j ∧ validMask a req j
  let updateMask := nonGreedy ∧ validMask a req j ∧ ¬ shouldSkip
  let firstRejectMask := j = firstReject ∧ validMask a req j ∧ nonGreedy
  let out0 := out (req * (maxSpecLen + 1) + j)
  let finalToken : Int :=
    if firstRejectMask then a.recoveredTokenIds.getD (globalTokenIndices a req j) 0
    else if acceptanceCondition a req j ∧ ¬ shouldSkip then draftTokens a req j
    else out0
  let out1 := if j < maxSpecLen ∧ (updateMask ∨ firstRejectMask) then finalToken else out0
  if j = numDraftPerBatch a req ∧ (nonGreedy ∧ numDraftPerBatch a req ≤ firstReject) ∧
      numDraftPerBatch a req < maxSpecLen + 1 then
    a.bonusTokenIds.getD req 0
  else out1

end RandomPytorch

/-- Indexing a tensor with `n` entries by a grid of indices. -/
def checkIndices (n rows cols : Nat) (index : Nat → Nat → Int) : Except NumpyError Unit :=
  if ∀ i < rows, ∀ j < cols, -(n : Int) ≤ index i j ∧ index i j < n then .ok ()
  else .error .IndexError

open RandomPytorch BlockVerifyPytorch in
/-- `rejection_random_sample_pytorch`: the rows it leaves. -/
def rejectionRandomSamplePytorch (b : Batch K) (noDraftProbs : Bool) (maxSpecLen vocabSize : Nat)
    (out : Nat → Int) : Except NumpyError (List (List Int)) := do
  let a := b.arrays noDraftProbs
  -- `cu_start` has its leading zero for an empty batch, too
  let rows := max b.length 1
  let check n := checkIndices n rows maxSpecLen (clampedIndices a)
  let checkTokens := checkIndices vocabSize rows maxSpecLen fun req pos => draftTokens a req pos
  check a.draftTokenIds.length
  a.draftProbs.forM fun draftProbs => do check draftProbs.length; checkTokens
  check a.targetProbs.length
  checkTokens
  check a.uniformProbs.length
  check a.recoveredTokenIds.length
  -- `argmax` over a dimension of size zero
  if maxSpecLen = 0 then throw .IndexError
  return (range b.length).map fun req => (range (maxSpecLen + 1)).map fun j =>
    RandomPytorch.outputTokenIds a maxSpecLen out req j

/-! ## The rows -/

section Rows

open BlockVerifyPytorch (numDraftPerBatch_eq globalTokenIndices_eq draftTokens_eq
  targetTokenProbs_eq)
open RandomPytorch

variable {b : Batch K} {noDraftProbs : Bool} {i k m vocabSize : Nat} {r : Request K}
  {x : Position K} {out : Nat → Int}

omit [Field K] [LinearOrder K] in
theorem RandomPytorch.validMask_iff (h : b[i]? = some r) :
    validMask (b.arrays noDraftProbs) i k ↔ k < r.positions.length := by
  unfold validMask
  rw [numDraftPerBatch_eq h]

theorem acceptanceCondition_iff (h : b[i]? = some r) (hx : r.positions[k]? = some x) :
    acceptanceCondition (b.arrays noDraftProbs) i k ↔ x.Accepted noDraftProbs := by
  have hreads := @Batch.reads _ _ noDraftProbs _ _ h
  unfold acceptanceCondition BlockVerifyPytorch.draftTokenProbs
  rw [targetTokenProbs_eq h hx, draftTokens_eq h hx, globalTokenIndices_eq h hx,
    hreads.draftProb_eq hx, hreads.uniformProb k x 0 hx]
  exact Iff.rfl

theorem firstRejectPos_cases (h : b[i]? = some r) (hm : r.positions.length ≤ m) :
    firstRejectPos (b.arrays noDraftProbs) m i = r.acceptedLen noDraftProbs ∧
        r.acceptedLen noDraftProbs < r.positions.length ∨
      firstRejectPos (b.arrays noDraftProbs) m i = m ∧
        r.acceptedLen noDraftProbs = r.positions.length := by
  have hle := r.acceptedLen_le noDraftProbs
  have hbefore : ∀ k < r.acceptedLen noDraftProbs,
      decide (firstRejection (b.arrays noDraftProbs) i k) = false := by
    intro k hk
    obtain ⟨x, hx⟩ : ∃ x, r.positions[k]? = some x :=
      ⟨_, getElem?_eq_getElem (hk.trans_le hle)⟩
    have haccept := of_decide_eq_true ((lt_length_takeWhile hk.le hx).mp hk)
    exact decide_eq_false fun hrejected => hrejected.1 ((acceptanceCondition_iff h hx).mpr haccept)
  unfold firstRejectPos
  rcases lt_or_eq_of_le hle with hlt | heq
  · refine .inl ⟨?_, hlt⟩
    obtain ⟨x, hx⟩ : ∃ x, r.positions[r.acceptedLen noDraftProbs]? = some x :=
      ⟨_, getElem?_eq_getElem hlt⟩
    have hrejected : firstRejection (b.arrays noDraftProbs) i (r.acceptedLen noDraftProbs) := by
      refine ⟨fun haccept => ?_, (validMask_iff h).mpr hlt⟩
      have haccept := decide_eq_true ((acceptanceCondition_iff h hx).mp haccept)
      exact absurd ((lt_length_takeWhile le_rfl hx).mpr haccept) (lt_irrefl _)
    rw [find?_range_eq_some.mpr ⟨decide_eq_true hrejected, mem_range.mpr (by omega),
      fun k hk => by rw [hbefore k hk]; rfl⟩, Option.getD_some]
  · refine .inr ⟨?_, heq⟩
    have hnone : ∀ k < m, (!decide (firstRejection (b.arrays noDraftProbs) i k)) = true := by
      intro k _
      by_cases hk : k < r.positions.length
      · rw [hbefore k (heq ▸ hk)]
        rfl
      · rw [decide_eq_false fun hrejected => hk ((validMask_iff h).mp hrejected.2)]
        rfl
    rw [find?_range_eq_none.mpr hnone, Option.getD_none]

theorem outputTokenIds_random (h : b[i]? = some r) (hm : b.maxSpecLen ≤ m) :
    (range (m + 1)).map (RandomPytorch.outputTokenIds (b.arrays noDraftProbs) m out i) =
      if r.isGreedy then outputRow out m i else
        (r.emitted (r.acceptedLen noDraftProbs)).map Int.ofNat ++
          (outputRow out m i).drop (r.acceptedLen noDraftProbs + 1) := by
  have hreads := @Batch.reads _ _ noDraftProbs _ _ h
  have hlen := (Batch.length_le_maxSpecLen (mem_of_getElem? h)).trans hm
  have hle := r.acceptedLen_le noDraftProbs
  have hfirst := @firstRejectPos_cases _ _ _ _ noDraftProbs _ _ _ h hlen
  cases hg : r.isGreedy with
  | true =>
    refine map_congr_left fun j _ => ?_
    unfold RandomPytorch.outputTokenIds
    rw [hreads.isGreedy, hg]
    simp
  | false =>
    refine row_emitted hle hlen (fun j x hj hx => ?_) (fun x hx => ?_) (fun hn => ?_)
      fun j hj hjm => ?_
    all_goals
      unfold RandomPytorch.outputTokenIds
      simp only [numDraftPerBatch_eq h, hreads.isGreedy, hg, hreads.bonusTokenId, validMask_iff h,
        true_and, and_true]
      generalize firstRejectPos (b.arrays noDraftProbs) m i = first at hfirst ⊢
    · have haccept := of_decide_eq_true ((lt_length_takeWhile hj.le hx).mp hj)
      rw [if_neg (by omega), if_pos (by omega), if_neg (by omega),
        if_pos ⟨(acceptanceCondition_iff h hx).mpr haccept, by omega⟩, draftTokens_eq h hx]
    · have hlt := lt_of_getElem? hx
      rw [if_neg (by omega), if_pos (by omega), if_pos (by omega), globalTokenIndices_eq h hx,
        hreads.recoveredTokenId _ x 0 hx]
    · rw [if_pos (by omega)]
    · rw [if_neg (by omega), if_neg (by omega)]

theorem outputRow_randomSampleLaunch (vectorcoreNum : PNat) (h : b[i]? = some r)
    (hm : b.maxSpecLen ≤ m) :
    outputRow (randomSampleLaunch b noDraftProbs vectorcoreNum m out) m i =
      if r.isGreedy then outputRow out m i else
        (r.emitted (r.acceptedLen noDraftProbs)).map Int.ofNat ++
          (outputRow out m i).drop (r.acceptedLen noDraftProbs + 1) :=
  outputRow_blockLaunch vectorcoreNum (fun r => r.acceptedLen_le noDraftProbs)
    (fun _ _ _ hreads hg => rejectionRandomSampleKernel_eq hreads hg) h hm

/-! ## The indices -/

omit [Field K] [LinearOrder K] in
theorem checkIndices_ok {n rows cols : Nat} {index : Nat → Nat → Int}
    (h : ∀ i < rows, ∀ j < cols, 0 ≤ index i j ∧ index i j < n) :
    checkIndices n rows cols index = .ok () :=
  if_pos fun i hi j hj => ⟨by have := (h i hi j hj).1; omega, (h i hi j hj).2⟩

omit [Field K] [LinearOrder K] in
theorem clampedIndices_bounds {a : Arrays K} (h : 0 < a.draftTokenIds.length) (req pos : Nat) :
    0 ≤ clampedIndices a req pos ∧ clampedIndices a req pos < a.draftTokenIds.length := by
  unfold clampedIndices
  omega

theorem rejectionRandomSamplePytorch_eq (htokens : b.tokens ≠ []) (hm : m ≠ 0)
    (hvocab : ∀ x ∈ b.tokens, x.draftTokenId < vocabSize) :
    rejectionRandomSamplePytorch b noDraftProbs m vocabSize out =
      .ok ((range b.length).map fun req => (range (m + 1)).map
        (RandomPytorch.outputTokenIds (b.arrays noDraftProbs) m out req)) := by
  have hpos : 0 < b.tokens.length := length_pos_iff.mpr htokens
  have hids : (b.arrays noDraftProbs).draftTokenIds.length = b.tokens.length := length_map _
  have hcheck : checkIndices b.tokens.length (max b.length 1) m
      (clampedIndices (b.arrays noDraftProbs)) = .ok () :=
    checkIndices_ok fun i _ j _ => hids ▸ clampedIndices_bounds (by rw [hids]; exact hpos) i j
  have htoken : checkIndices vocabSize (max b.length 1) m
      (fun req pos => BlockVerifyPytorch.draftTokens (b.arrays noDraftProbs) req pos) = .ok () := by
    refine checkIndices_ok fun i _ j _ => ⟨Int.natCast_nonneg _, Int.ofNat_lt.mpr ?_⟩
    have hlt :
        BlockVerifyPytorch.globalTokenIndices (b.arrays noDraftProbs) i j < b.tokens.length := by
      unfold BlockVerifyPytorch.globalTokenIndices
      omega
    show (b.tokens.map (·.draftTokenId)).getD _ 0 < vocabSize
    rw [getD_eq_getElem?_getD, getElem?_map, getElem?_eq_getElem hlt]
    exact hvocab _ (getElem_mem hlt)
  have hprobs : (b.arrays noDraftProbs).draftProbs.forM (fun draftProbs => do
      checkIndices draftProbs.length (max b.length 1) m (clampedIndices (b.arrays noDraftProbs))
      checkIndices vocabSize (max b.length 1) m fun req pos =>
        BlockVerifyPytorch.draftTokens (b.arrays noDraftProbs) req pos) = .ok () := by
    cases noDraftProbs with
    | true => rfl
    | false =>
      show (checkIndices (b.tokens.map (·.draftProbs)).length _ _ _ >>= _) = _
      rw [length_map, hcheck, ok_bind, htoken]
  have htarget : (b.arrays noDraftProbs).targetProbs.length = b.tokens.length := length_map _
  have huniform : (b.arrays noDraftProbs).uniformProbs.length = b.tokens.length := length_map _
  have hrecovered : (b.arrays noDraftProbs).recoveredTokenIds.length = b.tokens.length :=
    length_map _
  unfold rejectionRandomSamplePytorch
  dsimp only
  rw [hprobs, htoken, hids, htarget, huniform, hrecovered, hcheck]
  rw [if_neg hm]
  rfl

theorem rejectionRandomSamplePytorch_raises (htokens : b.tokens = []) (rows : List (List Int)) :
    rejectionRandomSamplePytorch b noDraftProbs m vocabSize out ≠ .ok rows := by
  intro h
  obtain ⟨⟨⟩, hcheck, h⟩ := bind_ok h
  have hids : (b.arrays noDraftProbs).draftTokenIds.length = 0 := by
    show (b.tokens.map _).length = 0
    rw [htokens]
    rfl
  have hm : m = 0 := by
    by_contra hm
    have hcheck :
        checkIndices _ (max b.length 1) m (clampedIndices (b.arrays noDraftProbs)) = .ok () := hcheck
    unfold checkIndices at hcheck
    split at hcheck
    · rename_i hin
      have := hin 0 (by omega) 0 (by omega)
      omega
    · cases hcheck
  obtain ⟨-, -, h⟩ := bind_ok h
  obtain ⟨-, -, h⟩ := bind_ok h
  obtain ⟨-, -, h⟩ := bind_ok h
  obtain ⟨-, -, h⟩ := bind_ok h
  obtain ⟨-, -, h⟩ := bind_ok h
  rw [if_pos hm] at h
  cases h

/-- The implementation on tensors leaves the rows of the kernel. -/
def SameRandomRows (b : Batch K) (noDraftProbs : Bool) (vectorcoreNum : PNat)
    (maxSpecLen vocabSize : Nat) (out : Nat → Int) : Prop :=
  rejectionRandomSamplePytorch b noDraftProbs maxSpecLen vocabSize out =
    .ok ((range b.length).map (outputRow
      (randomSampleLaunch b noDraftProbs vectorcoreNum maxSpecLen out) maxSpecLen))

/-- **The implementation on tensors** leaves the rows of the kernel if and only if the batch has a
draft token. -/
theorem sameRandomRows_iff (b : Batch K) (noDraftProbs : Bool) (vectorcoreNum : PNat)
    (extra vocabSize : Nat) (out : Nat → Int)
    (hvocab : ∀ x ∈ b.tokens, x.draftTokenId < vocabSize) :
    SameRandomRows b noDraftProbs vectorcoreNum (b.maxSpecLen + extra) vocabSize out ↔
      b.tokens ≠ [] := by
  unfold SameRandomRows
  constructor
  · intro h hnil
    exact rejectionRandomSamplePytorch_raises hnil _ h
  · intro hne
    have hm : b.maxSpecLen + extra ≠ 0 := by
      obtain ⟨x, hx⟩ := exists_mem_of_ne_nil _ hne
      obtain ⟨r, hr, hx⟩ := mem_flatMap.mp hx
      have := Batch.length_le_maxSpecLen hr
      have := length_pos_of_mem hx
      omega
    rw [rejectionRandomSamplePytorch_eq hne hm hvocab]
    refine congrArg Except.ok (map_congr_left fun i hi => ?_)
    have hi := getElem?_eq_getElem (mem_range.mp hi)
    rw [outputRow_randomSampleLaunch vectorcoreNum hi (Nat.le_add_right _ _)]
    exact outputTokenIds_random hi (Nat.le_add_right _ _)

end Rows

/-- A request with an accepted draft token beside one without drafts. -/
def draftBesideNone : Batch Rat := [
  { positions := [{ draftTokenId := 1, draftProbs := fun _ => 1 / 2, targetProbs := fun _ => 1 / 2,
                    recoveredTokenId := 0, uniformProb := 1 / 4 }]
    bonusTokenId := 1
    isGreedy := false },
  { positions := [], bonusTokenId := 1, isGreedy := false }]

theorem sameRandomRows_pair :
    SameRandomRows draftBesideNone false 1 (draftBesideNone.maxSpecLen + 0) 2
      (fun _ => PLACEHOLDER_TOKEN_ID) ↔ draftBesideNone.tokens ≠ [] :=
  sameRandomRows_iff draftBesideNone false 1 0 2 _ (by simp [Batch.tokens, draftBesideNone])

/-- A request without drafts alone: the kernel stores its bonus token, on tensors there is no
column. -/
theorem sameRandomRows_noDrafts :
    ¬ SameRandomRows [({ positions := [], bonusTokenId := 1, isGreedy := false } : Request Rat)]
      false 1 0 2 fun _ => PLACEHOLDER_TOKEN_ID :=
  fun h => rejectionRandomSamplePytorch_raises rfl _ h

end MyOperator.Sampling
