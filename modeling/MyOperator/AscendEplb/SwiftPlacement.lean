import MyOperator.AscendEplb.SwiftExchange

/-!
# The deployment of the swift policy

The load that is reported for a new layer bounds its ranks (`exchangeExperts_spec`), but it
is divided by the average load of the first layer and compared with an imbalance that was
divided by the layer's own one. So no layer gets worse if those out of balance bear as much
as the first (`swift_rebalance_never_worse`), and a layer that bears less may.
-/

namespace MyOperator.AscendEplb

open Lib List
open Eplb (NumpyError modify_row getD_row Argsort position item setItem reshape row length_row getElem?_row row_congr
  mem_row map_row item_row)

/-! ## The load of a rank -/

/-- What a copy of an expert bears when the copies share its load evenly. -/
def evenShare (load : List ℚ) (layer : List (List Int)) (expert : Int) : ℚ :=
  load.getD expert.toNat 0 / layer.flatten.count expert

/-- The maximum load of a rank. -/
def hottestLoad (load : List ℚ) (layer : List (List Int)) : ℚ :=
  (layer.map fun rank => (rank.map (evenShare load layer)).sum).foldl max 0

theorem le_foldl_max_rat {l : List ℚ} {x y m : ℚ} (hy : y ∈ m :: l) (h : x ≤ y) : x ≤ l.foldl max m :=
  h.trans ((max?_le_iff max?_cons').mp le_rfl y hy)

theorem hottestLoad_nonneg (load : List ℚ) (layer : List (List Int)) : 0 ≤ hottestLoad load layer :=
  le_foldl_max_rat mem_cons_self le_rfl

variable {rows : List (List Int)}

theorem hottestLoad_perm (load : List ℚ) {new : List (List Int)} (h : Forall₂ Perm new rows) :
    hottestLoad load new = hottestLoad load rows := by
  have hshare : evenShare load new = evenShare load rows := by
    funext e
    unfold evenShare
    rw [(Perm.flatten_congr h).count_eq]
  unfold hottestLoad
  rw [hshare]
  generalize evenShare load rows = share
  refine congrArg (fun l => List.foldl max 0 l) ?_
  clear hshare
  induction h with
  | nil => rfl
  | cons hperm _ ih => rw [map_cons, map_cons, (hperm.map _).sum_eq, ih]

/-! ## The imbalance of a layer -/

section Imbalance

variable {n slots numRanks : Nat} {load : Nat → ℚ} {layer : List (List Int)}

theorem evenShare_row (layer : List (List Int)) {e : Int} (he : 0 ≤ e ∧ e < n) :
    evenShare (row n load) layer e = load e.toNat / layer.flatten.count e := by
  unfold evenShare
  rw [getD_row (by omega)]

theorem sum_rankLoads (hall : ∀ e, e ∈ layer.flatten ↔ 0 ≤ e ∧ e < n) :
    (layer.map fun rank => (rank.map (evenShare (row n load) layer)).sum).sum = (row n load).sum := by
  have hflat : (layer.map fun rank => (rank.map (evenShare (row n load) layer)).sum).sum =
      (layer.flatten.map (evenShare (row n load) layer)).sum := by
    rw [map_flatten, sum_flatten, map_map]
    rfl
  have hmap : layer.flatten.map (evenShare (row n load) layer) =
      layer.flatten.map fun e => load e.toNat / layer.flatten.count (e.toNat : Int) := by
    refine map_congr_left ?_
    intro e he
    have hid := (hall e).mp he
    rw [evenShare_row layer hid, Int.toNat_of_nonneg hid.1]
  rw [hflat, hmap, sum_map_eq_sum_count (fun i => load i / layer.flatten.count (i : Int))
    fun e he => (hall e).mp he, sum_row]
  refine Finset.sum_congr rfl ?_
  intro i hi
  have hmem : (i : Int) ∈ layer.flatten :=
    (hall i).mpr ⟨Int.natCast_nonneg i, Int.ofNat_lt.mpr (Finset.mem_range.mp hi)⟩
  have hne : (layer.flatten.count (i : Int) : ℚ) ≠ 0 :=
    Nat.cast_ne_zero.mpr (pos_iff_ne_zero.mp (count_pos_iff.mpr hmem))
  rw [mul_div_cancel₀ _ hne]

/-- `calculate_imbalance` of a layer divides its hottest load by its average one. -/
theorem layerImbalance_eq (hranks : 0 < numRanks) (hall : ∀ e, e ∈ layer.flatten ↔ 0 ≤ e ∧ e < n) :
    layerImbalance numRanks layer (row n load) =
      .ok (if |(row n load).sum / numRanks| < 1 / 10 ^ 9 then 1
        else hottestLoad (row n load) layer / ((row n load).sum / numRanks)) := by
  have hloads : layer.mapM (rankLoad (row n load) (row n fun i => layer.flatten.count (i : Int))) =
      .ok (layer.map fun rank => (rank.map (evenShare (row n load) layer)).sum) := by
    refine mapM_ok ?_
    intro rank hrank
    refine (foldlM_sum (f := evenShare (row n load) layer) ?_ 0).trans (by rw [zero_add])
    intro acc e he
    have hid := (hall e).mp (mem_flatten.mpr ⟨rank, hrank, he⟩)
    rw [item_row_int hid, ok_bind, item_row_int hid, ok_bind, evenShare_row layer hid,
      Int.toNat_of_nonneg hid.1]
    rfl
  unfold layerImbalance
  rw [length_row, countExpert_row fun e he => (hall e).mp he, ok_bind, hloads, ok_bind,
    if_neg hranks.ne', sum_rankLoads hall]
  dsimp only
  split <;> rfl

/-- A smaller reported imbalance means a smaller load if the average used for it is not
larger than the layer's own. -/
theorem improves_less {newMaxWorkload ave avgLoad hottest threshold imbalance : ℚ} (hthreshold : 1 < threshold)
    (himbalance : imbalance = if |avgLoad| < 1 / 10 ^ 9 then 1 else hottest / avgLoad)
    (hout : ¬ imbalance < threshold) (h : improves newMaxWorkload ave imbalance = true) (have0 : 0 ≤ ave)
    (hle : ave ≤ avgLoad) (hhot : 0 ≤ hottest) : newMaxWorkload ≤ hottest := by
  obtain ⟨hne, hless⟩ := of_decide_eq_true h
  have hpos : 0 < ave := lt_of_le_of_ne have0 (Ne.symm hne)
  have havg : 0 < avgLoad := lt_of_lt_of_le hpos hle
  split at himbalance
  · rw [himbalance] at hout
    exact absurd hthreshold hout
  · rw [himbalance, div_lt_div_iff₀ hpos havg] at hless
    have hmul : hottest * ave ≤ hottest * avgLoad := mul_le_mul_of_nonneg_left hle hhot
    exact le_of_mul_le_mul_right (hless.le.trans hmul) havg

end Imbalance

/-! ## The nodes of a layer -/

/-- A node after its redundancy and its exchanges. -/
structure NodeDone (slots : Nat) (load : Nat → ℚ) (deployment rows : List (List Int)) (m : ℚ) : Prop where
  length : rows.length = deployment.length
  width : ∀ rank ∈ rows, rank.length = slots
  apart : ∀ rank ∈ rows, rank.Nodup
  experts : ∀ e, e ∈ rows.flatten ↔ e ∈ deployment.flatten
  bound : ∀ rank ∈ rows, (rank.map fun e => load e.toNat / rows.flatten.count e).sum ≤ m

section Nodes

variable {S : IntSet} {sort : Argsort} {self : SwiftBalanceEplb} {n slots : Nat} {load : Nat → ℚ}

theorem nodeDone (sort : Argsort) (hself : self.numOriginalExperts = n) (hslots : self.numExpertsPerRank = slots)
    (htimes : 0 < self.maxSwapTimes) (hload : ∀ i, 0 ≤ load i) {deployment : List (List Int)}
    (hdep : NodeOk n slots deployment) (hranks : 0 < deployment.length) :
    ∃ node rows m, redundancyAgain S sort self (row n load) deployment = .ok node ∧
      expertExchangeBetweenRanks S sort self node.1 node.2 = .ok (rows, m) ∧
      NodeDone slots load deployment rows m := by
  obtain ⟨s, kept, a, w, hok, hkept, hready⟩ :=
    redundancyAgain_spec (S := S) sort hself hslots hload hdep
  have hids : ∀ e ∈ kept, 0 ≤ e ∧ e < n := by
    intro e he
    obtain ⟨rank, hrank, he⟩ := mem_flatten.mp ((hkept e).mp he)
    exact hdep.ids rank hrank e he
  obtain ⟨rows, m, hex, hlen, hrows⟩ :=
    expertExchangeBetweenRanks_spec (S := S) sort htimes hranks hids hready
  refine ⟨(s, row n w), rows, m, hok, hex, hlen, hrows.width, hrows.apart, ?_, ?_⟩
  · intro e
    rw [hrows.experts.mem_iff, hready.experts, hkept]
  · intro rank hrank
    refine le_trans (sum_le_sum ?_) (hrows.bound rank hrank)
    intro e he
    have hmem := hrows.experts.mem_iff.mp (mem_flatten.mpr ⟨rank, hrank, he⟩)
    rw [hrows.experts.count_eq]
    exact hready.weight e ((hready.experts e).mp hmem)

variable {nodes : List (List (List Int))} {deployed : List (List (List Int) × ℚ)}

theorem nodesDone (sort : Argsort) (hself : self.numOriginalExperts = n)
    (hslots : self.numExpertsPerRank = slots) (htimes : 0 < self.maxSwapTimes)
    (hload : ∀ i, 0 ≤ load i)
    (hnodes : ∀ deployment ∈ nodes, NodeOk n slots deployment ∧ 0 < deployment.length) :
    ∃ states deployed, nodes.mapM (redundancyAgain S sort self (row n load)) = .ok states ∧
      states.mapM (fun node => expertExchangeBetweenRanks S sort self node.1 node.2) = .ok deployed ∧
      Forall₂ (fun deployment x => NodeDone slots load deployment x.1 x.2) nodes deployed := by
  induction nodes with
  | nil => exact ⟨[], [], rfl, rfl, .nil⟩
  | cons deployment nodes ih =>
    obtain ⟨⟨hdep, hranks⟩, hnodes⟩ := forall_mem_cons.mp hnodes
    obtain ⟨states, deployed, hstates, hdeployed, hall⟩ := ih hnodes
    obtain ⟨node, rows, m, hok, hex, hdone⟩ :=
      nodeDone (S := S) sort hself hslots htimes hload hdep hranks
    refine ⟨node :: states, (rows, m) :: deployed, ?_, ?_, .cons hdone hall⟩
    · rw [mapM_cons, hok, ok_bind, hstates]
      rfl
    · rw [mapM_cons, hex, ok_bind, hdeployed]
      rfl

/-- The ranks of all nodes, with the load that is reported for them. -/
structure LayerDone (slots : Nat) (load : Nat → ℚ) (placement rows : List (List Int)) (m : ℚ) : Prop
    extends NodeDone slots load placement rows m where
  nonneg : 0 ≤ m

section

variable (h : Forall₂ (fun deployment x => NodeDone slots load deployment x.1 x.2) nodes deployed)
include h

theorem length_ranks : (deployed.map Prod.fst).flatten.length = nodes.flatten.length := by
  induction h with
  | nil => rfl
  | cons hdone _ ih =>
    rw [map_cons, flatten_cons, flatten_cons, length_append, length_append, hdone.length, ih]

theorem mem_ranks (e : Int) :
    e ∈ (deployed.map Prod.fst).flatten.flatten ↔ e ∈ nodes.flatten.flatten := by
  induction h with
  | nil => rfl
  | cons hdone _ ih =>
    rw [map_cons, flatten_cons, flatten_cons, flatten_append, flatten_append,
      mem_append, mem_append, hdone.experts, ih]

end

theorem layerDone (hload : ∀ i, 0 ≤ load i)
    (h : Forall₂ (fun deployment x => NodeDone slots load deployment x.1 x.2) nodes deployed) :
    LayerDone slots load nodes.flatten (deployed.map Prod.fst).flatten
      ((deployed.map Prod.snd).foldl max 0) := by
  have hmem : ∀ rank ∈ (deployed.map Prod.fst).flatten, ∃ x ∈ deployed, rank ∈ x.1 ∧
      ∃ deployment, NodeDone slots load deployment x.1 x.2 := by
    intro rank hrank
    obtain ⟨rows, hrows, hrank⟩ := mem_flatten.mp hrank
    obtain ⟨x, hx, rfl⟩ := mem_map.mp hrows
    obtain ⟨_, -, hdone⟩ := forall₂_exists h.flip x hx
    exact ⟨x, hx, hrank, _, hdone⟩
  refine ⟨⟨length_ranks h, ?_, ?_, mem_ranks h, ?_⟩, le_foldl_max_rat mem_cons_self le_rfl⟩
  · intro rank hrank
    obtain ⟨x, -, hrank, deployment, hdone⟩ := hmem rank hrank
    exact hdone.width rank hrank
  · intro rank hrank
    obtain ⟨x, -, hrank, deployment, hdone⟩ := hmem rank hrank
    exact hdone.apart rank hrank
  · intro rank hrank
    obtain ⟨x, hx, hin, deployment, hdone⟩ := hmem rank hrank
    -- the other nodes only add copies
    have hsub : x.1.flatten.Sublist (deployed.map Prod.fst).flatten.flatten :=
      (sublist_flatten_of_mem (mem_map_of_mem hx)).flatten
    refine le_foldl_max_rat (mem_cons_of_mem _ (mem_map_of_mem hx)) ?_
    refine le_trans (sum_le_sum ?_) (hdone.bound rank hin)
    intro e he
    have hpos : 0 < x.1.flatten.count e := count_pos_iff.mpr (mem_flatten.mpr ⟨rank, hin, he⟩)
    exact div_le_div_of_nonneg_left (hload _) (Nat.cast_pos.mpr hpos) (Nat.cast_le.mpr (hsub.count_le e))

/-- `exchange_experts` after `redundant_expert_deployment`, on the ranks of the nodes. -/
theorem exchangeExperts_spec (sort : Argsort) (hself : self.numOriginalExperts = n)
    (hslots : self.numExpertsPerRank = slots) (htimes : 0 < self.maxSwapTimes)
    (hload : ∀ i, 0 ≤ load i)
    (hnodes : ∀ deployment ∈ nodes, NodeOk n slots deployment ∧ 0 < deployment.length) :
    ∃ states rows m, nodes.mapM (redundancyAgain S sort self (row n load)) = .ok states ∧
      exchangeExperts S sort self states = .ok (rows, m) ∧ LayerDone slots load nodes.flatten rows m := by
  obtain ⟨states, deployed, hstates, hdeployed, hall⟩ :=
    nodesDone (S := S) sort hself hslots htimes hload hnodes
  have hdone := layerDone hload hall
  refine ⟨states, _, _, hstates, ?_, hdone⟩
  unfold exchangeExperts
  rw [hdeployed, ok_bind]
  rw [if_pos]
  · rfl
  · refine all_eq_true.mpr ?_
    intro rank hrank
    rw [decide_eq_true_eq, hdone.width rank hrank]
    cases hrows : (deployed.map Prod.fst).flatten with
    | nil =>
      rw [hrows] at hrank
      exact absurd hrank not_mem_nil
    | cons first rest =>
      exact (hdone.width first (hrows ▸ mem_cons_self)).symm

end Nodes

/-! ## A layer -/

theorem flatten_reshape {α : Type} (count k : Nat) (l : List α) :
    (reshape count k l).flatten = l.take (count * k) := by
  induction count with
  | zero => rw [Nat.zero_mul, take_zero]; rfl
  | succ count ih =>
    have hstep : reshape (count + 1) k l = reshape count k l ++ [(l.drop (count * k)).take k] := by
      unfold reshape
      rw [range_succ, map_append]
      rfl
    rw [hstep, flatten_append, ih, flatten_singleton, Nat.succ_mul, take_add]

theorem broadcastTo_same {ranks slots : Nat} (hranks : 0 < ranks) (hlen : rows.length = ranks)
    (hwidth : ∀ rank ∈ rows, rank.length = slots) : broadcastTo ranks slots rows = .ok rows := by
  have hhead : (rows.headD []).length = slots := by
    cases rows with
    | nil => exact absurd hlen hranks.ne
    | cons first rest => exact hwidth first mem_cons_self
  unfold broadcastTo
  dsimp only
  rw [hhead, if_pos ⟨.inl hlen, .inl rfl⟩, if_pos hlen]
  simp only [if_true, map_id']
  rfl

theorem broadcastTo_other {ranks slots : Nat} (hlen : rows.length ≠ ranks)
    (hone : rows.length ≠ 1) : broadcastTo ranks slots rows = .error .ValueError := by
  unfold broadcastTo
  rw [if_neg]
  intro h
  exact h.1.elim hlen hone

/-- What the policy reads of itself when it is prepared for a table. -/
structure Prepared (policy : SwiftBalanceEplb) (n ranks slots : Nat) : Prop where
  numExperts : policy.numOriginalExperts = n
  numRanks : policy.numRanks = ranks
  numSlots : policy.numExpertsPerRank = slots
  numNodes : policy.numNodes = ranks / policy.numDiePerHost
  dies : 0 < policy.numDiePerHost
  times : 0 < policy.maxSwapTimes
  threshold : 1 < policy.imbalanceThreshold

/-- The new deployment of a layer, before the exchange within the ranks. -/
structure LayerKept (slots : Nat) (placement rows : List (List Int)) : Prop where
  length : rows.length = placement.length
  width : ∀ rank ∈ rows, rank.length = slots
  apart : ∀ rank ∈ rows, rank.Nodup
  experts : ∀ e, e ∈ rows.flatten ↔ e ∈ placement.flatten

section Layer

variable {S : IntSet} {sort : Argsort} {self : SwiftBalanceEplb} {n ranks slots : Nat} {load : Nat → ℚ}
  {placement : List (List Int)}

/-- The nodes of a layer. -/
def nodesOf (self : SwiftBalanceEplb) (placement : List (List Int)) : List (List (List Int)) :=
  if self.isNodeRedundant then reshape self.numNodes self.numDiePerHost placement else [placement]

theorem redundantExpertDeployment_eq (workload : List ℚ) (placement : List (List Int)) :
    redundantExpertDeployment S sort self workload placement =
      (nodesOf self placement).mapM (redundancyAgain S sort self workload) := by
  unfold redundantExpertDeployment nodesOf
  split <;> rfl

theorem nodesOf_ok (hself : Prepared self n ranks slots) (hplacement : NodeOk n slots placement)
    (hlen : placement.length = ranks) (hranks : 0 < ranks) :
    ∀ deployment ∈ nodesOf self placement, NodeOk n slots deployment ∧ 0 < deployment.length := by
  intro deployment hdep
  unfold nodesOf at hdep
  split at hdep
  · obtain ⟨i, hi, rfl⟩ := mem_map.mp hdep
    have hi := mem_range.mp hi
    rw [hself.numNodes] at hi
    have hsub : ∀ rank ∈ (placement.drop (i * self.numDiePerHost)).take self.numDiePerHost,
        rank ∈ placement := fun rank hrank => mem_of_mem_drop (mem_of_mem_take hrank)
    refine ⟨⟨fun rank hr => hplacement.width rank (hsub rank hr),
      fun rank hr => hplacement.ids rank (hsub rank hr),
      fun rank hr => hplacement.apart rank (hsub rank hr)⟩, ?_⟩
    have hmul : (i + 1) * self.numDiePerHost ≤ ranks :=
      (Nat.mul_le_mul_right _ hi).trans (Nat.div_mul_le_self ranks self.numDiePerHost)
    rw [Nat.succ_mul] at hmul
    have hdies := hself.dies
    rw [length_take, length_drop]
    omega
  · rw [mem_singleton.mp hdep]
    exact ⟨hplacement, hlen ▸ hranks⟩

/-- The nodes cover the layer, or some ranks are left over and `numpy` refuses their array. -/
theorem nodesOf_covers (hself : Prepared self n ranks slots) (hlen : placement.length = ranks) :
    (nodesOf self placement).flatten = placement ∨
      ((nodesOf self placement).flatten.length ≠ ranks ∧ (nodesOf self placement).flatten.length ≠ 1 ∧
        self.isNodeRedundant = true ∧ ¬ self.numDiePerHost ∣ ranks) := by
  unfold nodesOf
  split
  · rename_i hred
    rw [flatten_reshape, hself.numNodes]
    by_cases hdvd : self.numDiePerHost ∣ ranks
    · rw [Nat.div_mul_cancel hdvd, ← hlen, take_length]
      exact .inl rfl
    · have hle := Nat.div_mul_le_self ranks self.numDiePerHost
      have hne : ranks / self.numDiePerHost * self.numDiePerHost ≠ ranks :=
        fun heq => hdvd (Dvd.intro_left _ heq)
      have hlength : (placement.take (ranks / self.numDiePerHost * self.numDiePerHost)).length =
          ranks / self.numDiePerHost * self.numDiePerHost := by
        rw [length_take, hlen, min_eq_left hle]
      rw [hlength]
      refine .inr ⟨hne, ?_, hred, hdvd⟩
      intro hone
      have hdie := Nat.eq_one_of_mul_eq_one_left hone
      exact hdvd (hdie ▸ one_dvd ranks)
  · rw [flatten_singleton]
    exact .inl rfl

theorem rebalanceLayer_spec (sort : Argsort) (heatBefore : ℚ) (hself : Prepared self n ranks slots) (hload : ∀ i, 0 ≤ load i)
    (hplacement : NodeOk n slots placement) (hlen : placement.length = ranks) (hranks : 0 < ranks)
    (hall : ∀ e, e ∈ placement.flatten ↔ 0 ≤ e ∧ e < n) {ave imbalance : ℚ}
    (himbalance : layerImbalance ranks placement (row n load) = .ok imbalance) (have0 : 0 ≤ ave) :
    (∀ out, rebalanceLayer S sort self ave placement (row n load) imbalance heatBefore = .ok out →
      LayerKept slots placement out.1 ∧
        ((self.imbalanceThreshold ≤ imbalance → ave ≤ (row n load).sum / ranks) →
          hottestLoad (row n load) out.1 ≤ hottestLoad (row n load) placement)) ∧
    ((self.isNodeRedundant = true → self.numDiePerHost ∣ ranks) →
      ∃ out, rebalanceLayer S sort self ave placement (row n load) imbalance heatBefore = .ok out) := by
  have hkept : LayerKept slots placement placement :=
    ⟨rfl, hplacement.width, hplacement.apart, fun _ => Iff.rfl⟩
  obtain ⟨states, rows, m, hstates, hexchange, hdone⟩ := exchangeExperts_spec (S := S) sort
    hself.numExperts hself.numSlots hself.times hload (nodesOf_ok hself hplacement hlen hranks)
  have hrun : rebalanceLayer S sort self ave placement (row n load) imbalance heatBefore =
      if imbalance < self.imbalanceThreshold then .ok (placement, heatBefore)
      else if improves m ave imbalance then do
        let newLayer ← broadcastTo ranks slots rows
        return (newLayer, m)
      else .ok (placement, m) := by
    unfold rebalanceLayer
    rw [redundantExpertDeployment_eq, hstates, ok_bind, hexchange, hself.numRanks, hself.numSlots]
    rfl
  rw [hrun]
  by_cases hbalanced : imbalance < self.imbalanceThreshold
  · rw [if_pos hbalanced]
    refine ⟨?_, fun _ => ⟨_, rfl⟩⟩
    intro out hout
    cases hout
    exact ⟨hkept, fun _ => le_refl _⟩
  · rw [if_neg hbalanced]
    by_cases himproves : improves m ave imbalance
    · rw [if_pos himproves]
      rcases nodesOf_covers hself hlen with hcover | ⟨hne, hone, hred, hdvd⟩
      · rw [hcover] at hdone
        rw [broadcastTo_same hranks (hdone.length.trans hlen) hdone.width, ok_bind]
        refine ⟨?_, fun _ => ⟨_, rfl⟩⟩
        intro out hout
        cases hout
        refine ⟨⟨hdone.length, hdone.width, hdone.apart, hdone.experts⟩, ?_⟩
        intro hcond
        -- the ranks bear at most `m`, and `m` is less than the hottest load before
        have hnew : hottestLoad (row n load) rows ≤ m := by
          refine (max?_le_iff max?_cons').mpr (forall_mem_cons.mpr ⟨hdone.nonneg, ?_⟩)
          intro x hx
          obtain ⟨rank, hrank, rfl⟩ := mem_map.mp hx
          refine le_of_eq_of_le (congrArg List.sum (map_congr_left ?_)) (hdone.bound rank hrank)
          intro e he
          have hmem := (hdone.experts e).mp (mem_flatten.mpr ⟨rank, hrank, he⟩)
          exact evenShare_row rows ((hall e).mp hmem)
        rw [layerImbalance_eq hranks hall] at himbalance
        exact hnew.trans (improves_less hself.threshold (Except.ok.inj himbalance).symm hbalanced himproves
          have0 (hcond (not_lt.mp hbalanced)) (hottestLoad_nonneg _ _))
      · rw [← hdone.length] at hne hone
        rw [broadcastTo_other hne hone]
        exact ⟨(fun out hout => by cases hout), fun hdiv => absurd (hdiv hred) hdvd⟩
    · rw [if_neg himproves]
      refine ⟨?_, fun _ => ⟨_, rfl⟩⟩
      intro out hout
      cases hout
      exact ⟨hkept, fun _ => le_refl _⟩

end Layer

/-! ## The table -/

/-- A current deployment: every layer places every expert, none of them twice on a rank. -/
def ValidCurrent (table : Table Int) : Prop :=
  ∀ layer ∈ table, (∀ rank ∈ layer, rank.Nodup) ∧
    ∀ e, e ∈ layer.flatten ↔ 0 ≤ e ∧ e < numOriginalExpert table

/-- The load of every expert of a layer. -/
def layerLoad (table : Table Int) (placement : List (List Int)) (workload : List (List ℚ)) : List ℚ :=
  originalWorkload (numOriginalExpert table) placement workload

/-- The new deployment of every layer is valid, and its hottest rank bears no more than the
hottest one of the current deployment. -/
structure NeverWorse (table : Table Int) (workload : Table ℚ) (new : Table Int) : Prop where
  valid : ValidPlacement table new
  notHotter : ∀ (layer : Nat) (old placed : List (List Int)) (loads : List (List ℚ)),
    table[layer]? = some old → workload[layer]? = some loads → new[layer]? = some placed →
      hottestLoad (layerLoad table old loads) placed ≤ hottestLoad (layerLoad table old loads) old

/-- Every layer that is out of balance bears at least as much as the first layer. -/
def BearsAsFirst (table : Table Int) (workload : Table ℚ) : Prop :=
  ∀ (first placement : List (List Int)) (firstLoads loads : List (List ℚ)) (imbalance : ℚ),
    (table.zip workload).head? = some (first, firstLoads) → (placement, loads) ∈ table.zip workload →
    layerImbalance (table.headD []).length placement (layerLoad table placement loads) = .ok imbalance →
    101 / 100 ≤ imbalance →
      (layerLoad table first firstLoads).sum ≤ (layerLoad table placement loads).sum

section Table

variable {S : IntSet} {sort : Argsort} {numDiePerHost layers cards slots : Nat} {table : Table Int}
  {workload : Table ℚ} {isNodeRedundant : Bool}

variable {placement : List (List Int)}

theorem workloadOf_nonneg {loads : List (List ℚ)} (h : ∀ rank ∈ loads, ∀ w ∈ rank, 0 ≤ w)
    (e : Nat) : 0 ≤ workloadOf placement loads e := by
  refine sum_nonneg ?_
  intro x hx
  obtain ⟨y, hy, hsome⟩ := mem_filterMap.mp hx
  split at hsome
  · cases hsome
    obtain ⟨rank, hrank, hw⟩ := mem_flatten.mp (of_mem_zip hy).2
    exact h rank hrank _ hw
  · cases hsome

theorem prepared (hdies : 0 < numDiePerHost) (htable : Shaped layers cards slots table) (hlayers : 0 < layers)
    (hcards : 0 < cards) (ave : ℚ) :
    Prepared (.prepare numDiePerHost table ave isNodeRedundant) (numOriginalExpert table) cards slots := by
  cases table with
  | nil => exact absurd htable.length hlayers.ne
  | cons first rest =>
    have hfirst : first.length = cards := htable.cards first mem_cons_self
    refine ⟨rfl, hfirst, ?_, congrArg (· / numDiePerHost) hfirst, hdies, Nat.zero_lt_succ 99, ?_⟩
    · cases first with
      | nil => exact absurd hfirst hcards.ne
      | cons rank ranks =>
        exact htable.slots _ mem_cons_self rank mem_cons_self
    · show (1 : ℚ) < 101 / 100
      norm_num

theorem LayerKept.valid {old rows placed : List (List Int)} (h : LayerKept slots old rows)
    (hold : ∀ rank ∈ old, rank.length = slots) (hperm : Forall₂ Perm placed rows) :
    ValidLayer old placed := by
  have hlen : placed.length = old.length := hperm.length_eq.trans h.length
  have hback := forall₂_exists hperm
  have hwidth : ∀ rank ∈ placed, rank.length = slots := by
    intro rank hrank
    obtain ⟨row, hrow, hp⟩ := hback rank hrank
    rw [hp.length_eq]
    exact h.width row hrow
  have hflat := Perm.flatten_congr hperm
  refine ⟨?_, ?_, ?_, ?_⟩
  · rw [map_eq_replicate_iff.mpr hwidth, map_eq_replicate_iff.mpr hold, hlen]
  · intro e he
    exact hflat.mem_iff.mpr ((h.experts e).mpr he)
  · rw [length_flatten_of_forall hwidth, length_flatten_of_forall hold, hlen]
  · intro rank hrank
    obtain ⟨row, hrow, hp⟩ := hback rank hrank
    exact hp.nodup_iff.mpr (h.apart row hrow)

theorem layer_ok (htable : Shaped layers cards slots table) (hcurrent : ValidCurrent table)
    (hin : placement ∈ table) :
    NodeOk (numOriginalExpert table) slots placement ∧ placement.length = cards ∧
      ∀ e, e ∈ placement.flatten ↔ 0 ≤ e ∧ e < numOriginalExpert table := by
  obtain ⟨hapart, hall⟩ := hcurrent placement hin
  refine ⟨⟨htable.slots placement hin, ?_, hapart⟩, htable.cards placement hin, hall⟩
  intro rank hrank e he
  exact (hall e).mp (mem_flatten.mpr ⟨rank, hrank, he⟩)

theorem layerLoads_get {layer : Nat} {loads : List (List ℚ)}
    (hplacement : table[layer]? = some placement) (hloads : workload[layer]? = some loads) :
    ((table.zip workload).map fun x => originalWorkload (numOriginalExpert table) x.1 x.2)[layer]? =
      some (layerLoad table placement loads) := by
  have hzip : (table.zip workload)[layer]? = some (placement, loads) :=
    getElem?_zip_eq_some.mpr ⟨hplacement, hloads⟩
  rw [getElem?_map, hzip]
  rfl

theorem swiftRebalanceExperts_eq (hdies : 0 < numDiePerHost) (hcards : 0 < cards)
    (hhead : (table.headD []).length = cards) {first : List (List Int)} {firstLoads : List (List ℚ)}
    (hfirst : (table.zip workload).head? = some (first, firstLoads)) :
    swiftRebalanceExperts S sort numDiePerHost table workload isNodeRedundant = (do
      let layerWorkloads := (table.zip workload).map fun layer =>
        originalWorkload (numOriginalExpert table) layer.1 layer.2
      let ave := (layerLoad table first firstLoads).sum / cards
      let imbalances ← calculateImbalance cards table layerWorkloads
      let before ← maxHeatPerLayer workload
      let out ← (table.zip (layerWorkloads.zip (imbalances.zip before))).mapM fun x =>
        rebalanceLayer S sort (.prepare numDiePerHost table ave isNodeRedundant) ave x.1 x.2.1 x.2.2.1
          x.2.2.2
      let placement ← constraintExpertLocalExchange table (out.map Prod.fst)
      let after := out.map Prod.snd
      let ratios := zipWith (fun a b => if 0 < b then a / b else 1) after before
      return {
        change := if after.sum < 95 / 100 * before.sum then 1 else 0
        perLayerPriority := sort.argsort ratios
        placement := placement }) := by
  unfold swiftRebalanceExperts
  rw [if_neg hdies.ne', hhead]
  cases hzip : table.zip workload with
  | nil =>
    rw [hzip] at hfirst
    cases hfirst
  | cons x rest =>
    rw [hzip] at hfirst
    cases hfirst
    show (if cards = 0 then _ else _) = _
    rw [if_neg hcards.ne']
    rfl

theorem calculateImbalance_get (htable : Shaped layers cards slots table)
    (hworkload : Shaped layers cards slots workload) (hcards : 0 < cards) (hcurrent : ValidCurrent table) :
    ∃ imbalances, calculateImbalance cards table ((table.zip workload).map fun layer =>
        originalWorkload (numOriginalExpert table) layer.1 layer.2) = .ok imbalances ∧
      imbalances.length = layers ∧
      ∀ (layer : Nat) (placement : List (List Int)) (loads : List (List ℚ)), table[layer]? = some placement →
        workload[layer]? = some loads → ∃ imbalance, imbalances[layer]? = some imbalance ∧
          layerImbalance cards placement (layerLoad table placement loads) = .ok imbalance := by
  obtain ⟨imbalances, hok⟩ : ∃ imbalances, calculateImbalance cards table ((table.zip workload).map
      fun layer => originalWorkload (numOriginalExpert table) layer.1 layer.2) = .ok imbalances := by
    refine mapM_exists ?_
    intro x hx
    obtain ⟨layer, hget⟩ := mem_iff_getElem?.mp hx
    obtain ⟨hplacement, hload⟩ := getElem?_zip_eq_some.mp hget
    rw [getElem?_map] at hload
    obtain ⟨y, -, hy⟩ := Option.map_eq_some_iff.mp hload
    rw [← hy]
    exact ⟨_, layerImbalance_eq hcards (layer_ok htable hcurrent (mem_of_getElem? hplacement)).2.2⟩
  obtain ⟨hlen, hget⟩ := mapM_get hok
  refine ⟨imbalances, hok, ?_, ?_⟩
  · rw [hlen, length_zip, length_map, length_zip, htable.length, hworkload.length,
      min_self, min_self]
  · intro layer placement loads hplacement hloads
    exact hget layer (placement, layerLoad table placement loads)
      (getElem?_zip_eq_some.mpr ⟨hplacement, layerLoads_get hplacement hloads⟩)

theorem maxHeatPerLayer_ok (hworkload : Shaped layers cards slots workload) (hcards : 0 < cards) :
    ∃ before, maxHeatPerLayer workload = .ok before ∧ before.length = layers := by
  obtain ⟨before, hok⟩ : ∃ before, maxHeatPerLayer workload = .ok before := by
    refine mapM_exists ?_
    intro loads hloads
    refine maximum_ok ?_
    intro hnil
    have hlen := hworkload.cards loads hloads
    rw [map_eq_nil_iff.mp hnil] at hlen
    exact absurd hlen hcards.ne
  exact ⟨before, hok, (mapM_get hok).1.trans hworkload.length⟩

/-- What a pass over a layer leaves behind. -/
structure LayerCooled (table : Table Int) (workload : Table ℚ) (slots : Nat)
    (placement : List (List Int)) (loads : List (List ℚ)) (rows : List (List Int)) : Prop where
  kept : LayerKept slots placement rows
  cooler : BearsAsFirst table workload →
    hottestLoad (layerLoad table placement loads) rows ≤
      hottestLoad (layerLoad table placement loads) placement

/-- `constraint_expert_local_exchange` reorders the experts of every rank. -/
theorem localExchange_spec (htable : Shaped layers cards slots table) (hcurrent : ValidCurrent table)
    {new : Table Int} (hlen : new.length = layers)
    (hkept : ∀ (layer : Nat) (old rows : List (List Int)), table[layer]? = some old →
      new[layer]? = some rows → LayerKept slots old rows) :
    (∃ out, constraintExpertLocalExchange table new = .ok out) ∧
    ∀ out, constraintExpertLocalExchange table new = .ok out → out.length = layers ∧
      ∀ (layer : Nat) (old rows placed : List (List Int)), table[layer]? = some old →
        new[layer]? = some rows → out[layer]? = some placed → Forall₂ Perm placed rows := by
  have hids : ∀ (layer : Nat) (old rows : List (List Int)), table[layer]? = some old →
      new[layer]? = some rows → ∀ rank ∈ rows, ∀ e ∈ rank, e ≠ -1 := by
    intro layer old rows hold hrows rank hrank e he
    have hmem := ((hkept layer old rows hold hrows).experts e).mp (mem_flatten.mpr ⟨rank, hrank, he⟩)
    have hid := ((layer_ok htable hcurrent (mem_of_getElem? hold)).2.2 e).mp hmem
    omega
  have hzipIdx : ∀ layer : Nat, new.zipIdx[layer]? = new[layer]?.map fun rows => (rows, layer) := by
    intro layer
    rw [getElem?_zipIdx, zero_add]
  constructor
  · refine mapM_exists ?_
    intro x hx
    obtain ⟨layer, hget⟩ := mem_iff_getElem?.mp hx
    rw [hzipIdx] at hget
    obtain ⟨rows, hrows, rfl⟩ := Option.map_eq_some_iff.mp hget
    have hlt : layer < table.length := by
      rw [htable.length, ← hlen]
      exact lt_of_getElem? hrows
    have hold := getElem?_eq_getElem hlt
    have hlayer := hkept layer _ rows hold hrows
    exact exchangeRows_ok hold (hids layer _ rows hold hrows) hlayer.length
      (htable.slots _ (getElem_mem hlt)) hlayer.width
  · intro out hout
    obtain ⟨houtLen, hget⟩ := mapM_get hout
    refine ⟨houtLen.trans (length_zipIdx.trans hlen), ?_⟩
    intro layer old rows placed hold hrows hplaced
    obtain ⟨placed', hplaced', hexchange⟩ := hget layer (rows, layer) (by rw [hzipIdx, hrows]; rfl)
    cases hplaced.symm.trans hplaced'
    exact exchangeRows_perm hold (hids layer old rows hold hrows) hexchange

/-- What `rebalance_experts` makes of every layer, with the condition under which it is not
hotter than before. -/
theorem swiftRebalanceExperts_spec (sort : Argsort) (htable : Shaped layers cards slots table)
    (hworkload : Shaped layers cards slots workload) (hlayers : 0 < layers) (hcards : 0 < cards)
    (hcurrent : ValidCurrent table) (hnonneg : ∀ layer ∈ workload, ∀ rank ∈ layer, ∀ w ∈ rank, 0 ≤ w) :
    (∀ out, swiftRebalanceExperts S sort numDiePerHost table workload isNodeRedundant = .ok out →
      ValidPlacement table out.placement ∧ (BearsAsFirst table workload → NeverWorse table workload
        out.placement)) ∧
    (0 < numDiePerHost → (isNodeRedundant = true → numDiePerHost ∣ cards) →
      ∃ out, swiftRebalanceExperts S sort numDiePerHost table workload isNodeRedundant = .ok out) := by
  rcases Nat.eq_zero_or_pos numDiePerHost with hzero | hdies
  · refine ⟨?_, fun hpos => absurd hzero hpos.ne'⟩
    intro out hout
    unfold swiftRebalanceExperts at hout
    rw [if_pos hzero] at hout
    cases hout
  have hhead : (table.headD []).length = cards := by
    cases table with
    | nil => exact absurd htable.length hlayers.ne
    | cons first rest => exact htable.cards first mem_cons_self
  have hat : ∀ layer < layers, ∃ placement loads, table[layer]? = some placement ∧
      workload[layer]? = some loads :=
    fun layer hlt => ⟨_, _, getElem?_eq_getElem (htable.length.symm ▸ hlt),
      getElem?_eq_getElem (hworkload.length.symm ▸ hlt)⟩
  obtain ⟨first, firstLoads, hfirst, hfirstLoads⟩ := hat 0 hlayers
  have hfirst : (table.zip workload).head? = some (first, firstLoads) := by
    rw [head?_eq_getElem?]
    exact getElem?_zip_eq_some.mpr ⟨hfirst, hfirstLoads⟩
  obtain ⟨imbalances, himbalances, himbalancesLen, himbalance⟩ :=
    calculateImbalance_get htable hworkload hcards hcurrent
  obtain ⟨before, hbefore, hbeforeLen⟩ := maxHeatPerLayer_ok hworkload hcards
  rw [swiftRebalanceExperts_eq hdies hcards hhead hfirst]
  dsimp only
  rw [himbalances, ok_bind, hbefore, ok_bind]
  have hloadNonneg : ∀ (layer : Nat) (placement : List (List Int)) (loads : List (List ℚ)),
      workload[layer]? = some loads → ∀ e, 0 ≤ workloadOf placement loads e :=
    fun layer placement loads hloads =>
      workloadOf_nonneg (hnonneg loads (mem_of_getElem? hloads))
  have have0 : 0 ≤ (layerLoad table first firstLoads).sum / cards := by
    refine div_nonneg ?_ (Nat.cast_nonneg _)
    unfold layerLoad originalWorkload
    rw [sum_row]
    refine Finset.sum_nonneg ?_
    intro e _
    exact hloadNonneg 0 first firstLoads hfirstLoads e
  -- the pass over a layer
  let ave := (layerLoad table first firstLoads).sum / cards
  let pass := fun x : List (List Int) × List ℚ × ℚ × ℚ => rebalanceLayer S sort
    (.prepare numDiePerHost table ave isNodeRedundant) ave x.1 x.2.1 x.2.2.1 x.2.2.2
  have hpass : ∀ (layer : Nat) x, (table.zip (((table.zip workload).map fun x =>
      originalWorkload (numOriginalExpert table) x.1 x.2).zip (imbalances.zip before)))[layer]? =
        some x → ∃ loads, table[layer]? = some x.1 ∧ workload[layer]? = some loads ∧
      (∀ out, pass x = .ok out → LayerCooled table workload slots x.1 loads out.1) ∧
      ((isNodeRedundant = true → numDiePerHost ∣ cards) → ∃ out, pass x = .ok out) := by
    rintro layer ⟨placement, load, imbalance, heat⟩ hx
    obtain ⟨(hplacement : table[layer]? = some placement), hx⟩ := getElem?_zip_eq_some.mp hx
    obtain ⟨hload, hx⟩ := getElem?_zip_eq_some.mp hx
    obtain ⟨himb, -⟩ := getElem?_zip_eq_some.mp hx
    obtain ⟨_, loads, hplacement', hloads⟩ := hat layer
      (htable.length ▸ (lt_of_getElem? hplacement))
    cases hplacement.symm.trans hplacement'
    cases hload.symm.trans (layerLoads_get hplacement hloads)
    obtain ⟨hok, hlen, hall⟩ := layer_ok htable hcurrent (mem_of_getElem? hplacement)
    obtain ⟨imbalance', himb', hcalc⟩ := himbalance layer placement loads hplacement hloads
    cases himb.symm.trans himb'
    obtain ⟨hout, hex⟩ := rebalanceLayer_spec (S := S) sort heat
      (prepared hdies htable hlayers hcards ave)
      (hloadNonneg layer placement loads hloads) hok hlen hcards hall hcalc have0
    refine ⟨loads, hplacement, hloads, ?_, hex⟩
    intro out hrun
    obtain ⟨hkept, hless⟩ := hout out hrun
    refine ⟨hkept, ?_⟩
    intro hbears
    refine hless ?_
    intro hthreshold
    refine div_le_div_of_nonneg_right ?_ (Nat.cast_nonneg _)
    refine hbears first placement firstLoads loads imbalance hfirst ?_ (hhead.symm ▸ hcalc) hthreshold
    exact mem_of_getElem? (getElem?_zip_eq_some.mpr ⟨hplacement, hloads⟩)
  have hzipLen : (table.zip (((table.zip workload).map fun x =>
      originalWorkload (numOriginalExpert table) x.1 x.2).zip (imbalances.zip before))).length = layers := by
    simp only [length_zip, length_map, htable.length, hworkload.length, himbalancesLen, hbeforeLen,
      min_self]
  generalize table.zip (((table.zip workload).map fun x =>
    originalWorkload (numOriginalExpert table) x.1 x.2).zip (imbalances.zip before)) = passes
    at hpass hzipLen ⊢
  -- what is known of the layers after the pass
  have houts : ∀ {outs}, passes.mapM pass = .ok outs →
      (outs.map Prod.fst).length = layers ∧ ∀ (layer : Nat) (old rows : List (List Int)),
        table[layer]? = some old → (outs.map Prod.fst)[layer]? = some rows →
        ∃ loads, workload[layer]? = some loads ∧ LayerCooled table workload slots old loads rows := by
    intro outs hok
    obtain ⟨hlen, hget⟩ := mapM_get hok
    refine ⟨(List.length_map _).trans (hlen.trans hzipLen), ?_⟩
    intro layer old rows hold hrows
    rw [getElem?_map] at hrows
    obtain ⟨out, hout, rfl⟩ := Option.map_eq_some_iff.mp hrows
    have hx := getElem?_eq_getElem (hlen ▸ (lt_of_getElem? hout))
    obtain ⟨out', hout', hrun⟩ := hget layer _ hx
    cases hout.symm.trans hout'
    obtain ⟨loads, hplacement, hloads, hdone, -⟩ := hpass layer _ hx
    cases hold.symm.trans hplacement
    exact ⟨loads, hloads, hdone out hrun⟩
  have hexchange := fun {outs} hok => localExchange_spec htable hcurrent (@houts outs hok).1
    fun layer old rows hold hrows => ((houts hok).2 layer old rows hold hrows).choose_spec.2.kept
  refine ⟨?_, ?_⟩
  · intro out hrun
    obtain ⟨outs, hok, hrun⟩ := bind_ok hrun
    obtain ⟨new, hnew, hrun⟩ := bind_ok hrun
    cases hrun
    obtain ⟨houtsLen, hlayer⟩ := houts hok
    obtain ⟨hnewLen, hperm⟩ := (hexchange hok).2 new hnew
    have hplaced : ∀ (layer : Nat) (old placed : List (List Int)), table[layer]? = some old →
        new[layer]? = some placed → ∃ rows loads, workload[layer]? = some loads ∧
          LayerCooled table workload slots old loads rows ∧ Forall₂ Perm placed rows := by
      intro layer old placed hold hplaced
      have hrows := getElem?_eq_getElem (houtsLen.trans hnewLen.symm ▸ (lt_of_getElem? hplaced))
      obtain ⟨loads, hloads, hdone⟩ := hlayer layer old _ hold hrows
      exact ⟨_, loads, hloads, hdone, hperm layer old _ placed hold hrows hplaced⟩
    have hvalid : ValidPlacement table new := by
      refine ⟨hnewLen.trans htable.length.symm, ?_⟩
      intro layer old placed hold hnewLayer
      obtain ⟨_, _, -, hdone, hperm⟩ := hplaced layer old placed hold hnewLayer
      exact hdone.kept.valid (htable.slots old (mem_of_getElem? hold)) hperm
    refine ⟨hvalid, ?_⟩
    intro hbears
    refine ⟨hvalid, ?_⟩
    intro layer old placed loads hold hloads hnewLayer
    obtain ⟨_, loads', hloads', hdone, hperm⟩ := hplaced layer old placed hold hnewLayer
    cases hloads.symm.trans hloads'
    exact (hottestLoad_perm _ hperm).trans_le (hdone.cooler hbears)
  · intro _ hdiv
    obtain ⟨outs, hok⟩ := mapM_exists fun x hx => by
      obtain ⟨layer, hget⟩ := mem_iff_getElem?.mp hx
      obtain ⟨_, -, -, -, hex⟩ := hpass layer x hget
      exact hex hdiv
    obtain ⟨new, hnew⟩ := (hexchange hok).1
    rw [hok, ok_bind, hnew, ok_bind]
    exact ⟨_, rfl⟩

end Table

/-- No layer gets worse if every layer out of balance bears as much as the first: each rank
keeps its number of experts, none twice, every expert keeps a rank, and the hottest rank
bears no more than before. With nodes that divide the ranks the policy always returns. -/
theorem swift_rebalance_never_worse (S : IntSet) (sort : Argsort) (numDiePerHost : Nat)
    (isNodeRedundant : Bool) {layers cards slots : Nat} {table : Table Int} {workload : Table ℚ}
    (htable : Shaped layers cards slots table) (hworkload : Shaped layers cards slots workload)
    (hlayers : 0 < layers) (hcards : 0 < cards) (hcurrent : ValidCurrent table)
    (hnonneg : ∀ layer ∈ workload, ∀ rank ∈ layer, ∀ w ∈ rank, 0 ≤ w)
    (hbears : BearsAsFirst table workload) :
    (0 < numDiePerHost → (isNodeRedundant = true → numDiePerHost ∣ cards) →
      ∃ out, swiftRebalanceExperts S sort numDiePerHost table workload isNodeRedundant = .ok out) ∧
    ∀ out, swiftRebalanceExperts S sort numDiePerHost table workload isNodeRedundant = .ok out →
      NeverWorse table workload out.placement := by
  obtain ⟨hout, hex⟩ := swiftRebalanceExperts_spec (S := S) sort htable hworkload hlayers
    hcards hcurrent hnonneg
  exact ⟨hex, fun out hrun => (hout out hrun).2 hbears⟩

/-! ## Two layers -/

/-- In both layers expert 0 is on both ranks. -/
def sharedTable : Table Int := [[[0, 1], [0, 2]], [[0, 1], [0, 2]]]

/-- The first layer bears 40, the second one 18. -/
def lightWorkload : Table ℚ := [[[20, 0], [20, 0]], [[0, 10], [0, 8]]]

/-- Both layers bear 18. -/
def levelWorkload : Table ℚ := [[[9, 0], [9, 0]], [[0, 10], [0, 8]]]

/-- The indices in the order of an insertion sort of the entries. -/
def insertedOrder : Argsort where
  argsort l := (l.zipIdx.insertionSort fun x y => x.1 ≤ y.1).map Prod.snd
  perm l := by
    refine ((perm_insertionSort _ l.zipIdx).map Prod.snd).trans (.of_eq ?_)
    rw [zipIdx_map_snd, range_eq_range']
  sorted {α} _ l := by
    have htotal : Std.Total fun x y : α × Nat => x.1 ≤ y.1 := ⟨fun x y => le_total x.1 y.1⟩
    have htrans : IsTrans (α × Nat) fun x y => x.1 ≤ y.1 := ⟨fun x y z hxy hyz => hxy.trans hyz⟩
    have hsorted := pairwise_insertionSort (r := fun x y : α × Nat => x.1 ≤ y.1) l.zipIdx
    refine pairwise_map.mpr (hsorted.imp_of_mem ?_)
    intro x y hx hy hxy a ha b hb
    have hget : ∀ z ∈ l.zipIdx.insertionSort fun x y => x.1 ≤ y.1, l[z.2]? = some z.1 := by
      intro z hz
      have hmem := (perm_insertionSort _ l.zipIdx).mem_iff.mp hz
      exact mem_zipIdx_iff_getElem?.mp hmem
    rw [Option.mem_def, hget x hx] at ha
    rw [Option.mem_def, hget y hy] at hb
    cases ha
    cases hb
    exact hxy

theorem sharedTable_shaped : Shaped 2 2 2 sharedTable := by
  constructor <;> decide

theorem sharedTable_valid : ValidCurrent sharedTable := by
  intro layer hlayer
  have heq : layer = [[0, 1], [0, 2]] := by
    rcases mem_cons.mp hlayer with rfl | hlayer
    · rfl
    · exact mem_singleton.mp hlayer
  subst heq
  refine ⟨by decide, ?_⟩
  intro e
  have hn : numOriginalExpert sharedTable = 3 := by decide
  simp only [flatten_cons, flatten_nil, append_nil, cons_append, nil_append,
    mem_cons, not_mem_nil, or_false]
  omega

theorem swift_rebalance_never_worse_level :
    (Shaped 2 2 2 sharedTable ∧ Shaped 2 2 2 levelWorkload ∧ ValidCurrent sharedTable ∧
      BearsAsFirst sharedTable levelWorkload) ∧
      ∃ out, swiftRebalanceExperts .inserted insertedOrder 2 sharedTable levelWorkload false = .ok out ∧
        NeverWorse sharedTable levelWorkload out.placement := by
  have hworkload : Shaped 2 2 2 levelWorkload := by constructor <;> decide
  have hbears : BearsAsFirst sharedTable levelWorkload := by
    intro first placement firstLoads loads imbalance hfirst hin _ _
    cases hfirst
    rcases mem_cons.mp hin with heq | hin
    · cases heq
      exact le_refl _
    · cases mem_singleton.mp hin
      decide +kernel
  obtain ⟨hex, hall⟩ := swift_rebalance_never_worse .inserted insertedOrder 2 false
    sharedTable_shaped hworkload (by decide) (by decide) sharedTable_valid
    (by decide +kernel) hbears
  obtain ⟨out, hout⟩ := hex (by decide) (by decide)
  exact ⟨⟨sharedTable_shaped, hworkload, sharedTable_valid, hbears⟩, out, hout, hall out hout⟩

/-- The second layer bears less than the first. Its rank 1 takes a copy of expert 1 for its
copy of expert 0: the load of 14.67 that is reported is above the 10 of before, but less
when it is divided by the average of the first layer. The rank then bears 13. -/
theorem swift_rebalance_worse :
    Shaped 2 2 2 sharedTable ∧ Shaped 2 2 2 lightWorkload ∧ ValidCurrent sharedTable ∧
      (∀ layer ∈ lightWorkload, ∀ rank ∈ layer, ∀ w ∈ rank, (0 : ℚ) ≤ w) ∧
      ∃ out, swiftRebalanceExperts .inserted insertedOrder 2 sharedTable lightWorkload false = .ok out ∧
        ¬ NeverWorse sharedTable lightWorkload out.placement := by
  have hrun : swiftRebalanceExperts .inserted insertedOrder 2 sharedTable lightWorkload false =
      .ok ⟨0, [0, 1], [[[0, 1], [0, 2]], [[0, 1], [1, 2]]]⟩ := by decide +kernel
  refine ⟨sharedTable_shaped, by constructor <;> decide, sharedTable_valid, by decide +kernel, _, hrun, ?_⟩
  intro hnever
  have hhot := hnever.notHotter 1 [[0, 1], [0, 2]] [[0, 1], [1, 2]] [[0, 10], [0, 8]] rfl rfl rfl
  revert hhot
  decide +kernel

end MyOperator.AscendEplb
