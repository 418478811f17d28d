import MyOperator.Eplb.Numpy

/-!
# Redundant experts of the swift policy

`SwiftBalanceEplb.compute_redundant_assignments` of the expert load balancer for Ascend:
round by round the heaviest expert that has no copy on every rank yet gets one more, and
its weight is scaled down. A round is a step of the state; what the rounds have done to
the weights is told by the numbers of copies alone, whatever their order was.
-/

namespace MyOperator.AscendEplb

open Lib List
open Eplb (NumpyError Argsort)

/-- `current_weights` and `redundant_assignments`. -/
structure RedundancyState where
  currentWeights : List (Nat × ℚ)
  redundantAssignments : List Nat
  deriving DecidableEq

/-- The redundant copies of an expert. -/
def RedundancyState.redundancy (s : RedundancyState) (expertId : Nat) : Nat :=
  s.redundantAssignments.getD expertId 0

/-- "for index in sorted_indices": the first expert with a free rank gets a copy. -/
def giveRedundant (numRanks : Nat) (s : RedundancyState) : List Nat → Except NumpyError RedundancyState
  | [] => .ok s
  | index :: indices =>
    match s.currentWeights[index]? with
    | none => .error .IndexError
    | some (expertId, originalWeight) =>
      match s.redundantAssignments[expertId]? with
      | none => .error .IndexError
      | some redundancy =>
        let currentRedundancy := redundancy + 1
        if currentRedundancy < numRanks then
          let newAvgWeight := originalWeight * (currentRedundancy + 1) / (currentRedundancy + 2)
          .ok { currentWeights := s.currentWeights.set index (expertId, newAvgWeight)
                redundantAssignments := s.redundantAssignments.set expertId (redundancy + 1) }
        else giveRedundant numRanks s indices

/-- The body of the loop over the redundant experts. -/
def redundancyRound (sort : Argsort) (numRanks : Nat) (s : RedundancyState) :
    Except NumpyError RedundancyState :=
  giveRedundant numRanks s (sort.argsort (s.currentWeights.map Prod.snd)).reverse

/-- The rounds. -/
def redundancyRounds (sort : Argsort) (numRanks : Nat) : (rounds : Nat) → RedundancyState →
    Except NumpyError RedundancyState
  | 0, s => .ok s
  | rounds + 1, s => do redundancyRound sort numRanks (← redundancyRounds sort numRanks rounds s)

def updateWeight (currentWeights : List (Nat × ℚ)) (updateWeights : List ℚ) : Except NumpyError (List ℚ) :=
  currentWeights.foldlM (fun weights x =>
    if x.1 < weights.length then .ok (weights.set x.1 x.2) else .error .IndexError) updateWeights

def redundantExpertList (redundantAssignments : List Nat) (updateWeights : List ℚ) : List (Nat × ℚ) :=
  (redundantAssignments.zipIdx.flatMap fun x =>
    replicate x.1 (x.2, updateWeights.getD x.2 0)).insertionSort fun x y => y.2 ≤ x.2

def computeRedundantAssignments (sort : Argsort) (numOriginalExperts : Nat)
    (initialWeights : List (Nat × ℚ)) (numRedundantExperts numRanks : Nat) :
    Except NumpyError (List (Nat × ℚ) × List ℚ) := do
  let s ← redundancyRounds sort numRanks numRedundantExperts
    ⟨initialWeights, replicate numOriginalExperts 0⟩
  let weights ← updateWeight s.currentWeights (replicate numOriginalExperts 0)
  let list := if 0 < numRedundantExperts then redundantExpertList s.redundantAssignments weights else []
  .ok (list, weights)

/-! ## A round -/

/-- What a round does: an expert that may have another copy gets it, and no other one that
may have one is heavier. -/
inductive NextCopy (numRanks : Nat) (s s' : RedundancyState) : Prop
  | full (hfull : ∀ x ∈ s.currentWeights, numRanks ≤ s.redundancy x.1 + 1) (heq : s' = s)
  | copy (expertId : Nat) (weight : ℚ) (hmem : (expertId, weight) ∈ s.currentWeights)
      (hfree : s.redundancy expertId + 1 < numRanks)
      (hmax : ∀ x ∈ s.currentWeights, s.redundancy x.1 + 1 < numRanks → x.2 ≤ weight)
      (hcopy : s'.redundancy expertId = s.redundancy expertId + 1)
      (hother : ∀ e, e ≠ expertId → s'.redundancy e = s.redundancy e)
      (hkeep : ∀ e w, e ≠ expertId → ((e, w) ∈ s'.currentWeights ↔ (e, w) ∈ s.currentWeights))

/-- The share of its initial weight that an expert has left with `k` redundant copies. -/
def copyShare : Nat → ℚ
  | 0 => 1
  | k + 1 => copyShare k * ((k + 1 : Nat) + 1) / ((k + 1 : Nat) + 2)

theorem copyShare_pos (k : Nat) : 0 < copyShare k := by
  induction k with
  | zero => exact zero_lt_one
  | succ k ih =>
    show 0 < copyShare k * ((k + 1 : Nat) + 1) / ((k + 1 : Nat) + 2)
    positivity

theorem copyShare_strictAnti : StrictAnti copyShare := by
  refine strictAnti_nat_of_succ_lt ?_
  intro k
  have hden : (0 : ℚ) < (k + 1 : Nat) + 2 := by positivity
  show copyShare k * ((k + 1 : Nat) + 1) / ((k + 1 : Nat) + 2) < copyShare k
  rw [div_lt_iff₀ hden]
  exact mul_lt_mul_of_pos_left (by linarith) (copyShare_pos k)

/-- The weights after some rounds: the numbers of copies tell what is left. -/
structure Scaled (numOriginalExperts : Nat) (initialWeights : List (Nat × ℚ)) (s : RedundancyState) :
    Prop where
  length : s.redundantAssignments.length = numOriginalExperts
  weights : s.currentWeights = initialWeights.map fun x => (x.1, x.2 * copyShare (s.redundancy x.1))

variable {sort : Argsort} {numRanks n : Nat} {initial : List (Nat × ℚ)} {s s' : RedundancyState}

theorem scaled_start (n : Nat) (initial : List (Nat × ℚ)) :
    Scaled n initial ⟨initial, replicate n 0⟩ := by
  refine ⟨length_replicate, ?_⟩
  have hnone : ∀ e, RedundancyState.redundancy ⟨initial, replicate n 0⟩ e = 0 := by
    intro e
    unfold RedundancyState.redundancy
    rw [getD_eq_getElem?_getD, getElem?_replicate]
    split <;> rfl
  have hone : copyShare 0 = 1 := rfl
  simp only [hnone, hone, mul_one, map_id']

/-- Another copy of the expert at `index`. -/
def RedundancyState.copyAt (s : RedundancyState) (index expertId : Nat) (weight : ℚ) : RedundancyState where
  currentWeights := s.currentWeights.set index (expertId,
    weight * ((s.redundancy expertId + 1 : Nat) + 1) / ((s.redundancy expertId + 1 : Nat) + 2))
  redundantAssignments := s.redundantAssignments.set expertId (s.redundancy expertId + 1)

theorem redundancy_copyAt {index e : Nat} {w : ℚ} (he : e < s.redundantAssignments.length) (e' : Nat) :
    (s.copyAt index e w).redundancy e' = if e' = e then s.redundancy e + 1 else s.redundancy e' := by
  unfold RedundancyState.redundancy RedundancyState.copyAt
  rw [getD_eq_getElem?_getD, getElem?_set]
  by_cases h : e = e'
  · rw [if_pos h, if_pos h.symm, if_pos (h ▸ he)]
    rfl
  · rw [if_neg h, if_neg (Ne.symm h), getD_eq_getElem?_getD]

theorem Scaled.copyAt {index e : Nat} {w : ℚ} (hs : Scaled n initial s)
    (hnodup : (initial.map Prod.fst).Nodup) (hlt : ∀ x ∈ initial, x.1 < n)
    (hget : s.currentWeights[index]? = some (e, w)) : Scaled n initial (s.copyAt index e w) := by
  rw [hs.weights, getElem?_map] at hget
  obtain ⟨⟨e', w₀⟩, hx, heq⟩ := Option.map_eq_some_iff.mp hget
  obtain ⟨rfl, rfl⟩ := Prod.mk.inj heq
  have he : e' < s.redundantAssignments.length := by
    rw [hs.length]
    exact hlt _ (mem_of_getElem? hx)
  refine ⟨(length_set ..).trans hs.length, ?_⟩
  refine ext_getElem? fun j => ?_
  show (s.currentWeights.set index _)[j]? = _
  rw [getElem?_set, hs.weights, getElem?_map, getElem?_map, length_map]
  by_cases hj : index = j
  · subst hj
    have hindex := lt_of_getElem? hx
    rw [if_pos rfl, if_pos hindex, hx, Option.map_some, redundancy_copyAt he, if_pos rfl]
    show some (e', w₀ * copyShare (s.redundancy e') * _ / _) = some (e', w₀ * (copyShare _ * _ / _))
    rw [← mul_div_assoc, ← mul_assoc]
  · rw [if_neg hj]
    cases hy : initial[j]? with
    | none => rfl
    | some y =>
      -- another position has another expert
      have hne : y.1 ≠ e' := by
        intro heq
        have hindex : index < (initial.map Prod.fst).length := by
          rw [length_map]
          exact lt_of_getElem? hx
        refine hj ((getElem?_inj hindex hnodup).mp ?_)
        rw [getElem?_map, getElem?_map, hx, hy, Option.map_some, Option.map_some, heq]
      rw [Option.map_some, Option.map_some, redundancy_copyAt he, if_neg hne]

/-- The loop over the indices: it passes those that are full, and stops at the first that is not. -/
theorem giveRedundant_spec (numRanks : Nat) (hs : Scaled n initial s) (hlt : ∀ x ∈ initial, x.1 < n)
    (indices : List Nat) (hidx : ∀ i ∈ indices, i < initial.length) :
    (giveRedundant numRanks s indices = .ok s ∧
      ∀ i ∈ indices, ∀ x ∈ s.currentWeights[i]?, numRanks ≤ s.redundancy x.1 + 1) ∨
    ∃ before index after e w, indices = before ++ index :: after ∧
      s.currentWeights[index]? = some (e, w) ∧ s.redundancy e + 1 < numRanks ∧
      (∀ i ∈ before, ∀ x ∈ s.currentWeights[i]?, numRanks ≤ s.redundancy x.1 + 1) ∧
      giveRedundant numRanks s indices = .ok (s.copyAt index e w) := by
  induction indices with
  | nil => exact .inl ⟨rfl, fun i hi => absurd hi not_mem_nil⟩
  | cons index indices ih =>
    have hindex : index < s.currentWeights.length := by
      rw [hs.weights, length_map]
      exact hidx index mem_cons_self
    obtain ⟨⟨e, w⟩, hget⟩ : ∃ x, s.currentWeights[index]? = some x :=
      ⟨_, getElem?_eq_getElem hindex⟩
    have he : e < s.redundantAssignments.length := by
      have hmem := mem_of_getElem? hget
      rw [hs.weights] at hmem
      obtain ⟨x, hx, heq⟩ := mem_map.mp hmem
      rw [hs.length, ← (Prod.mk.inj heq).1]
      exact hlt x hx
    have hcount : s.redundantAssignments[e]? = some (s.redundancy e) := by
      unfold RedundancyState.redundancy
      rw [getD_eq_getElem?_getD, getElem?_eq_getElem he]
      rfl
    by_cases hfree : s.redundancy e + 1 < numRanks
    · refine .inr ⟨[], index, indices, e, w, rfl, hget, hfree,
        fun i hi => absurd hi not_mem_nil, ?_⟩
      simp only [giveRedundant, hget, hcount, if_pos hfree]
      rfl
    · have hpass : giveRedundant numRanks s (index :: indices) = giveRedundant numRanks s indices := by
        simp only [giveRedundant, hget, hcount, if_neg hfree]
      have hfull : ∀ x ∈ s.currentWeights[index]?, numRanks ≤ s.redundancy x.1 + 1 := by
        intro x hx
        rw [hget] at hx
        cases hx
        exact not_lt.mp hfree
      rw [hpass]
      rcases ih fun i hi => hidx i (mem_cons_of_mem _ hi) with
        ⟨hok, hrest⟩ | ⟨before, at_, after, e', w', heq, hget', hfree', hbefore, hok⟩
      · refine .inl ⟨hok, ?_⟩
        intro i hi
        rcases mem_cons.mp hi with rfl | hi
        · exact hfull
        · exact hrest i hi
      · refine .inr ⟨index :: before, at_, after, e', w', by rw [heq]; rfl, hget', hfree', ?_, hok⟩
        intro i hi
        rcases mem_cons.mp hi with rfl | hi
        · exact hfull
        · exact hbefore i hi

theorem mem_sorted_lt {i : Nat} (hi : i ∈ (sort.argsort (s.currentWeights.map Prod.snd)).reverse) :
    i < s.currentWeights.length := by
  have hmem := (sort.perm (s.currentWeights.map Prod.snd)).mem_iff.mp (mem_reverse.mp hi)
  rw [length_map] at hmem
  exact mem_range.mp hmem

theorem sorted_mem (sort : Argsort) {i : Nat} (hi : i < s.currentWeights.length) :
    i ∈ (sort.argsort (s.currentWeights.map Prod.snd)).reverse := by
  refine mem_reverse.mpr ((sort.perm _).mem_iff.mpr (mem_range.mpr ?_))
  rwa [length_map]

theorem sorted_after {before after : List Nat} {index j : Nat} {x y : Nat × ℚ}
    (hsplit : (sort.argsort (s.currentWeights.map Prod.snd)).reverse = before ++ index :: after)
    (hj : j ∈ after) (hx : s.currentWeights[index]? = some x) (hy : s.currentWeights[j]? = some y) :
    y.2 ≤ x.2 := by
  have hsorted := pairwise_reverse.mpr (sort.sorted (s.currentWeights.map Prod.snd))
  rw [hsplit] at hsorted
  have htail := (pairwise_append.mp hsorted).2.1
  refine (pairwise_cons.mp htail).1 j hj _ ?_ _ ?_
  · rw [getElem?_map, hy]
    rfl
  · rw [getElem?_map, hx]
    rfl

/-- Each round gives the next copy to a heaviest expert, and keeps the weights scaled. -/
theorem redundancyRound_spec (sort : Argsort) (numRanks : Nat) (hs : Scaled n initial s)
    (hnodup : (initial.map Prod.fst).Nodup)
    (hlt : ∀ x ∈ initial, x.1 < n) :
    ∃ s', redundancyRound sort numRanks s = .ok s' ∧ NextCopy numRanks s s' ∧ Scaled n initial s' := by
  have hlen : s.currentWeights.length = initial.length := by rw [hs.weights, length_map]
  rcases giveRedundant_spec numRanks hs hlt (sort.argsort (s.currentWeights.map Prod.snd)).reverse
    (fun i hi => hlen ▸ mem_sorted_lt hi) with
    ⟨hok, hfull⟩ | ⟨before, index, after, e, w, hsplit, hget, hfree, hbefore, hok⟩
  · refine ⟨s, hok, .full ?_ rfl, hs⟩
    intro x hx
    obtain ⟨i, hi⟩ := mem_iff_getElem?.mp hx
    exact hfull i (sorted_mem sort (lt_of_getElem? hi)) x hi
  · have hmem := mem_of_getElem? hget
    have he : e < s.redundantAssignments.length := by
      rw [hs.weights] at hmem
      obtain ⟨x, hx, heq⟩ := mem_map.mp hmem
      rw [hs.length, ← (Prod.mk.inj heq).1]
      exact hlt x hx
    refine ⟨_, hok, .copy e w hmem hfree ?_ ?_ ?_ ?_, hs.copyAt hnodup hlt hget⟩
    · intro x hx hxfree
      obtain ⟨i, hi⟩ := mem_iff_getElem?.mp hx
      have hpos := sorted_mem sort (lt_of_getElem? hi)
      rw [hsplit] at hpos
      rcases mem_append.mp hpos with hi' | hi'
      · have := hbefore i hi' x hi
        omega
      · rcases mem_cons.mp hi' with rfl | hi'
        · rw [hget] at hi
          cases hi
          exact le_refl w
        · exact sorted_after hsplit hi' hget hi
    · rw [redundancy_copyAt he, if_pos rfl]
    · intro e' hne
      rw [redundancy_copyAt he, if_neg hne]
    · intro e' w' hne
      show (e', w') ∈ s.currentWeights.set index _ ↔ _
      obtain ⟨hlt', hval⟩ := List.getElem?_eq_some_iff.mp hget
      rw [mem_iff_getElem?, mem_iff_getElem?]
      refine exists_congr fun i => ?_
      rw [getElem?_set]
      by_cases hi : index = i
      · subst hi
        rw [if_pos rfl, if_pos hlt', hget]
        constructor
        · intro heq
          exact absurd (Prod.mk.inj (Option.some.inj heq)).1.symm hne
        · intro heq
          exact absurd (Prod.mk.inj (Option.some.inj heq)).1.symm hne
      · rw [if_neg hi]

theorem redundancyRounds_scaled (sort : Argsort) (numRanks : Nat)
    (hnodup : (initial.map Prod.fst).Nodup) (hlt : ∀ x ∈ initial, x.1 < n) (rounds : Nat) :
    ∃ s, redundancyRounds sort numRanks rounds ⟨initial, replicate n 0⟩ = .ok s ∧
      Scaled n initial s := by
  induction rounds with
  | zero => exact ⟨_, rfl, scaled_start n initial⟩
  | succ rounds ih =>
    obtain ⟨s, hok, hs⟩ := ih
    obtain ⟨s', hok', -, hs'⟩ := redundancyRound_spec sort numRanks hs hnodup hlt
    refine ⟨s', ?_, hs'⟩
    show (redundancyRounds sort numRanks rounds _ >>= redundancyRound sort numRanks) = _
    rw [hok]
    exact hok'

/-! ## The result -/

theorem updateWeight_spec {currentWeights : List (Nat × ℚ)} (weights : List ℚ)
    (hnodup : (currentWeights.map Prod.fst).Nodup) (hlt : ∀ x ∈ currentWeights, x.1 < weights.length) :
    ∃ weights', updateWeight currentWeights weights = .ok weights' ∧ weights'.length = weights.length ∧
      (∀ x ∈ currentWeights, weights'[x.1]? = some x.2) ∧
      ∀ e, (∀ x ∈ currentWeights, x.1 ≠ e) → weights'[e]? = weights[e]? := by
  induction currentWeights generalizing weights with
  | nil => exact ⟨weights, rfl, rfl, fun x hx => absurd hx not_mem_nil, fun _ _ => rfl⟩
  | cons y rest ih =>
    rw [map_cons, nodup_cons] at hnodup
    obtain ⟨hy, hnodup⟩ := hnodup
    have hylt := hlt y mem_cons_self
    obtain ⟨weights', hok, hlen, hin, hout⟩ := ih (weights.set y.1 y.2) hnodup
      (fun x hx => by rw [length_set]; exact hlt x (mem_cons_of_mem _ hx))
    refine ⟨weights', ?_, hlen.trans (length_set ..), ?_, ?_⟩
    · unfold updateWeight at hok ⊢
      rw [foldlM_cons, if_pos hylt]
      exact hok
    · intro x hx
      rcases mem_cons.mp hx with rfl | hx
      · rw [hout x.1 fun z hz heq => hy (mem_map.mpr ⟨z, hz, heq⟩), getElem?_set_self hylt]
      · exact hin x hx
    · intro e he
      rw [hout e fun x hx => he x (mem_cons_of_mem _ hx), getElem?_set_ne (he y mem_cons_self)]

theorem count_copies (assignments : List Nat) (weight : Nat → ℚ) (k e : Nat) :
    (((assignments.zipIdx k).flatMap fun x => replicate x.1 (x.2, weight x.2)).map Prod.fst).count e =
      if k ≤ e then assignments.getD (e - k) 0 else 0 := by
  induction assignments generalizing k with
  | nil => split <;> rfl
  | cons c rest ih =>
    rw [zipIdx_cons, flatMap_cons, map_append, count_append, ih, map_replicate, count_replicate]
    rcases lt_trichotomy k e with hlt | rfl | hlt
    · have hstep : e - k = e - (k + 1) + 1 := by omega
      rw [if_pos hlt.le, if_pos (Nat.succ_le_of_lt hlt), hstep, getD_cons_succ,
        if_neg (by simpa using hlt.ne), zero_add]
    · rw [if_pos (le_refl k), if_neg (Nat.not_succ_le_self k), Nat.sub_self, getD_cons_zero,
        if_pos (beq_self_eq_true k), Nat.add_zero]
    · have hnext : ¬ k + 1 ≤ e := fun h => absurd hlt (Nat.not_lt.mpr (Nat.le_of_succ_le h))
      rw [if_neg (not_le.mpr hlt), if_neg hnext, if_neg (by simpa using hlt.ne')]

/-- The list has an expert once for each of its copies, with its weight, heaviest first. -/
theorem redundantExpertList_spec (assignments : List Nat) (weights : List ℚ) :
    (∀ x ∈ redundantExpertList assignments weights,
      x.1 < assignments.length ∧ x.2 = weights.getD x.1 0) ∧
    (∀ e, ((redundantExpertList assignments weights).map Prod.fst).count e = assignments.getD e 0) ∧
    (redundantExpertList assignments weights).Pairwise fun x y => y.2 ≤ x.2 := by
  have hperm : (redundantExpertList assignments weights).Perm
      (assignments.zipIdx.flatMap fun x => replicate x.1 (x.2, weights.getD x.2 0)) :=
    perm_insertionSort ..
  refine ⟨?_, ?_, ?_⟩
  · intro x hx
    obtain ⟨y, hy, hrep⟩ := mem_flatMap.mp (hperm.mem_iff.mp hx)
    rw [eq_of_mem_replicate hrep]
    have hget := mem_zipIdx hy
    exact ⟨by omega, rfl⟩
  · intro e
    rw [(hperm.map Prod.fst).count_eq, count_copies assignments (fun e => weights.getD e 0) 0 e,
      if_pos (Nat.zero_le e), Nat.sub_zero]
  · have htotal : Std.Total fun x y : Nat × ℚ => y.2 ≤ x.2 := ⟨fun x y => le_total y.2 x.2⟩
    exact pairwise_insertionSort (r := fun x y : Nat × ℚ => y.2 ≤ x.2) _

/-- What is returned after rounds that went through `states`. An expert without copies keeps
its weight, and what the copies take of a weight depends on their number alone. -/
structure Redundant (share : Nat → ℚ) (numRanks numRedundantExperts : Nat)
    (initialWeights : List (Nat × ℚ)) (states : Nat → RedundancyState) (list : List (Nat × ℚ))
    (weights : List ℚ) : Prop where
  start : (states 0).currentWeights = initialWeights ∧ ∀ e, (states 0).redundancy e = 0
  next : ∀ i < numRedundantExperts, NextCopy numRanks (states i) (states (i + 1))
  scaled : ∀ i ≤ numRedundantExperts, ∀ x ∈ initialWeights,
    (x.1, x.2 * share ((states i).redundancy x.1)) ∈ (states i).currentWeights
  result : ∀ x ∈ initialWeights,
    weights[x.1]? = some (x.2 * share ((states numRedundantExperts).redundancy x.1))
  list_weights : ∀ x ∈ list, weights[x.1]? = some x.2
  list_count : ∀ e, (list.map Prod.fst).count e = (states numRedundantExperts).redundancy e
  list_sorted : list.Pairwise fun x y => y.2 ≤ x.2

theorem computeRedundantAssignments_redundant (sort : Argsort) (numRanks : Nat)
    (hnodup : (initial.map Prod.fst).Nodup) (hlt : ∀ x ∈ initial, x.1 < n) (numRedundantExperts : Nat) :
    ∃ states list weights, computeRedundantAssignments sort n initial numRedundantExperts numRanks =
        .ok (list, weights) ∧
      (∀ i, redundancyRounds sort numRanks i ⟨initial, replicate n 0⟩ = .ok (states i)) ∧
      Redundant copyShare numRanks numRedundantExperts initial states list weights := by
  choose states hstates hscaled using redundancyRounds_scaled sort numRanks hnodup hlt
  have hnext : ∀ i, NextCopy numRanks (states i) (states (i + 1)) := by
    intro i
    obtain ⟨s', hround, hcopy, -⟩ := redundancyRound_spec sort numRanks (hscaled i) hnodup hlt
    have hsucc : redundancyRounds sort numRanks (i + 1) ⟨initial, replicate n 0⟩ = .ok s' := by
      show (redundancyRounds sort numRanks i _ >>= redundancyRound sort numRanks) = _
      rw [hstates i]
      exact hround
    rw [hstates (i + 1)] at hsucc
    cases hsucc
    exact hcopy
  have hids : ∀ i, (states i).currentWeights.map Prod.fst = initial.map Prod.fst := by
    intro i
    rw [(hscaled i).weights, map_map]
    rfl
  obtain ⟨weights, hweights, hlen, hin, -⟩ := updateWeight_spec (replicate n 0)
    ((hids numRedundantExperts).symm ▸ hnodup) (by
      intro x hx
      have hmem := mem_map_of_mem (f := Prod.fst) hx
      rw [hids] at hmem
      obtain ⟨y, hy, heq⟩ := mem_map.mp hmem
      rw [length_replicate, ← heq]
      exact hlt y hy)
  rw [length_replicate] at hlen
  have hmem : ∀ i, ∀ x ∈ initial,
      (x.1, x.2 * copyShare ((states i).redundancy x.1)) ∈ (states i).currentWeights := by
    intro i x hx
    rw [(hscaled i).weights]
    exact mem_map.mpr ⟨x, hx, rfl⟩
  obtain ⟨hlist, hcount, hsorted⟩ :=
    redundantExpertList_spec (states numRedundantExperts).redundantAssignments weights
  have hresult : computeRedundantAssignments sort n initial numRedundantExperts numRanks =
      .ok (if 0 < numRedundantExperts then
        redundantExpertList (states numRedundantExperts).redundantAssignments weights else [], weights) := by
    unfold computeRedundantAssignments
    rw [hstates numRedundantExperts]
    show (updateWeight _ _ >>= _) = _
    rw [hweights]
    rfl
  have hstart : states 0 = ⟨initial, replicate n 0⟩ := (Except.ok.inj (hstates 0)).symm
  have hnone : ∀ e, (states 0).redundancy e = 0 := by
    intro e
    rw [hstart]
    unfold RedundancyState.redundancy
    rw [getD_eq_getElem?_getD, getElem?_replicate]
    split <;> rfl
  refine ⟨states, _, weights, hresult, hstates, ?_⟩
  refine ⟨⟨by rw [hstart], hnone⟩, fun i _ => hnext i, fun i _ => hmem i, ?_, ?_, ?_, ?_⟩
  · intro x hx
    exact hin _ (hmem numRedundantExperts x hx)
  · intro x hx
    split at hx
    · obtain ⟨hx1, hx2⟩ := hlist x hx
      rw [(hscaled numRedundantExperts).length, ← hlen] at hx1
      rw [hx2, getD_eq_getElem?_getD, getElem?_eq_getElem hx1]
      rfl
    · cases hx
  · intro e
    split
    · exact hcount e
    · rename_i hzero
      rw [Nat.eq_zero_of_not_pos hzero]
      exact (hnone e).symm
  · split
    · exact hsorted
    · exact .nil

/-- The next copy goes to a heaviest of the experts that are not on every rank yet. What the
copies leave of a weight is one function of their number, for all experts, in any order. -/
theorem compute_redundant_assignments_greedy :
    ∃ share : Nat → ℚ, share 0 = 1 ∧ StrictAnti share ∧ (∀ k, 0 < share k) ∧
      ∀ (sort : Argsort) (n numRedundantExperts numRanks : Nat) (initial : List (Nat × ℚ)),
        (initial.map Prod.fst).Nodup → (∀ x ∈ initial, x.1 < n) →
        ∃ states list weights,
          computeRedundantAssignments sort n initial numRedundantExperts numRanks = .ok (list, weights) ∧
          (∀ i, redundancyRounds sort numRanks i ⟨initial, replicate n 0⟩ = .ok (states i)) ∧
          Redundant share numRanks numRedundantExperts initial states list weights :=
  ⟨copyShare, rfl, copyShare_strictAnti, copyShare_pos, fun _ _ numRedundantExperts _ _ hnodup hlt =>
    computeRedundantAssignments_redundant _ _ hnodup hlt numRedundantExperts⟩

/-- Two experts on two ranks, two copies to give. -/
def twoWeights : List (Nat × ℚ) := [(0, 10), (1, 1)]

theorem compute_redundant_assignments_greedy_two :
    ((twoWeights.map Prod.fst).Nodup ∧ ∀ x ∈ twoWeights, x.1 < 2) ∧
      ∃ (share : Nat → ℚ) (states : Nat → RedundancyState) (list : List (Nat × ℚ)) (weights : List ℚ),
        computeRedundantAssignments .stable 2 twoWeights 2 2 = .ok (list, weights) ∧
        Redundant share 2 2 twoWeights states list weights := by
  have hnodup : (twoWeights.map Prod.fst).Nodup := by decide
  have hlt : ∀ x ∈ twoWeights, x.1 < 2 := by decide
  obtain ⟨share, -, -, -, h⟩ := compute_redundant_assignments_greedy
  obtain ⟨states, list, weights, hok, -, hred⟩ := h .stable 2 2 2 twoWeights hnodup hlt
  exact ⟨⟨hnodup, hlt⟩, share, states, list, weights, hok, hred⟩

theorem argsort_two {a b : ℚ} (h : b < a) : sort.argsort [a, b] = [1, 0] := by
  have hperm : (sort.argsort [a, b]).Perm [0, 1] := sort.perm [a, b]
  have hsorted := sort.sorted [a, b]
  rcases perm_pair.mp hperm with heq | heq
  · rw [heq] at hsorted
    have := (pairwise_cons.mp hsorted).1 1 (mem_singleton_self 1) a rfl b rfl
    exact absurd h (not_lt.mpr this)
  · exact heq

/-- With its second copy an expert keeps two thirds of its weight, not a half; then it is
heavier still, and on both ranks, so that the other one gets the next copy. -/
theorem redundant_weight_lost :
    computeRedundantAssignments .stable 2 twoWeights 2 2 =
        .ok ([(0, 20 / 3), (1, 2 / 3)], [20 / 3, 2 / 3]) ∧
      redundancyRounds .stable 2 1 ⟨twoWeights, [0, 0]⟩ = .ok ⟨[(0, 20 / 3), (1, 1)], [1, 0]⟩ ∧
      redundancyRounds .stable 2 2 ⟨twoWeights, [0, 0]⟩ = .ok ⟨[(0, 20 / 3), (1, 2 / 3)], [1, 1]⟩ ∧
      (20 / 3 : ℚ) * (1 + 1) ≠ 10 ∧ (1 : ℚ) < 20 / 3 := by
  have hround : ∀ {a b : ℚ} (counts : List Nat), b < a →
      redundancyRound .stable 2 ⟨[(0, a), (1, b)], counts⟩ =
        giveRedundant 2 ⟨[(0, a), (1, b)], counts⟩ [0, 1] := by
    intro a b counts hlt
    show giveRedundant 2 _ (Argsort.stable.argsort [a, b]).reverse = _
    rw [argsort_two hlt]
    rfl
  have hone : redundancyRounds .stable 2 1 ⟨twoWeights, [0, 0]⟩ =
      .ok ⟨[(0, 20 / 3), (1, 1)], [1, 0]⟩ := by
    refine (hround [0, 0] (by norm_num)).trans ?_
    decide +kernel
  have htwo : redundancyRounds .stable 2 2 ⟨twoWeights, [0, 0]⟩ =
      .ok ⟨[(0, 20 / 3), (1, 2 / 3)], [1, 1]⟩ := by
    show (redundancyRounds .stable 2 1 _ >>= redundancyRound .stable 2) = _
    rw [hone]
    refine (hround [1, 0] (by norm_num)).trans ?_
    decide +kernel
  refine ⟨?_, hone, htwo, by norm_num, by norm_num⟩
  show (redundancyRounds .stable 2 2 ⟨twoWeights, [0, 0]⟩ >>= _) = _
  rw [htwo]
  decide +kernel

end MyOperator.AscendEplb
