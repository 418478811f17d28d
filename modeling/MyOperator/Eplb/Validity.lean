import MyOperator.Eplb.Hierarchical
import MyOperator.Eplb.Slots
import MyOperator.Eplb.LogicalMaps

/-!
# Validity of the placement

`rebalance_experts` returns a placement for every load, and the logical maps computed
from it are those of the placement.
-/

namespace MyOperator.Eplb

open Lib List

/-- The divisibility that the code requires. Groups are packed to nodes when the nodes
divide them. -/
structure Divisible (numLogicalExperts numReplicas numGroups numNodes numRanks : Nat) : Prop where
  nodes_pos : 0 < numNodes
  ranks_pos : 0 < numRanks
  ranks_dvd : numRanks ∣ numReplicas
  groups_dvd : numNodes ∣ numGroups → numGroups ∣ numLogicalExperts
  nodes_dvd : numNodes ∣ numGroups → numNodes ∣ numRanks

/-- The shape that the placement is made for: without groups and nodes when the nodes do
not divide the groups. -/
def placementShape (numLogicalExperts numReplicas numGroups numNodes numRanks : Nat) : Shape :=
  if numGroups % numNodes = 0 then
    { numLogicalExperts, numPhysicalExperts := numReplicas, numGroups, numNodes, numGpus := numRanks }
  else
    { numLogicalExperts, numPhysicalExperts := numReplicas, numGroups := 1, numNodes := 1,
      numGpus := numRanks }

section

variable {numLogicalExperts numReplicas numGroups numNodes numRanks : Nat}

theorem Divisible.valid (h : Divisible numLogicalExperts numReplicas numGroups numNodes numRanks)
    (hpos : 0 < numLogicalExperts) (hle : numLogicalExperts ≤ numReplicas) :
    (placementShape numLogicalExperts numReplicas numGroups numNodes numRanks).Valid := by
  unfold placementShape
  split
  · rename_i hmod
    have hdvd := Nat.dvd_of_mod_eq_zero hmod
    exact ⟨h.nodes_pos, h.ranks_pos, h.groups_dvd hdvd, hdvd, h.nodes_dvd hdvd, h.ranks_dvd, hpos, hle⟩
  · exact ⟨one_pos, h.ranks_pos, one_dvd _, one_dvd _, one_dvd _, h.ranks_dvd, hpos, hle⟩

theorem placementShape_fields (numLogicalExperts numReplicas numGroups numNodes numRanks : Nat) :
    (placementShape numLogicalExperts numReplicas numGroups numNodes numRanks).numLogicalExperts =
      numLogicalExperts ∧
    (placementShape numLogicalExperts numReplicas numGroups numNodes numRanks).numPhysicalExperts =
      numReplicas ∧
    (placementShape numLogicalExperts numReplicas numGroups numNodes numRanks).numGpus = numRanks := by
  unfold placementShape
  split
  · exact ⟨rfl, rfl, rfl⟩
  · exact ⟨rfl, rfl, rfl⟩

end

variable {numRanks slotsPerGpu r : Nat} {l phy2log : List Int} {sh : Shape}

theorem flatten_rankSlots (hlen : l.length = numRanks * slotsPerGpu) :
    (row numRanks fun r => rankSlots slotsPerGpu r l).flatten = l := by
  obtain ⟨f, rfl⟩ := exists_row hlen
  have hrows : (row numRanks fun r => rankSlots slotsPerGpu r (row (numRanks * slotsPerGpu) f)) =
      row numRanks fun r => row slotsPerGpu fun j => f (r * slotsPerGpu + j) := reshape_row
  rw [hrows, flatten_row]
  refine row_congr fun j _ => ?_
  rw [mul_comm, Nat.div_add_mod]

theorem length_rankSlots (hlen : numRanks * slotsPerGpu ≤ l.length) (hr : r < numRanks) :
    (rankSlots slotsPerGpu r l).length = slotsPerGpu := by
  have hle : (r + 1) * slotsPerGpu ≤ numRanks * slotsPerGpu := Nat.mul_le_mul_right _ hr
  rw [Nat.succ_mul] at hle
  rw [rankSlots, length_take, length_drop]
  omega

theorem rankSlots_flatten {f : Nat → List Int} (hlen : ∀ r < numRanks, (f r).length = slotsPerGpu)
    (hr : r < numRanks) : rankSlots slotsPerGpu r (row numRanks f).flatten = f r := by
  have hg : ∀ r, ∃ g : Nat → Int, r < numRanks → f r = row slotsPerGpu g := by
    intro r
    by_cases hr : r < numRanks
    · obtain ⟨g, hg⟩ := exists_row (hlen r hr)
      exact ⟨g, fun _ => hg⟩
    · exact ⟨fun _ => 0, fun h => absurd h hr⟩
  choose g hg using hg
  have hpos : ∀ j < slotsPerGpu, (r * slotsPerGpu + j) / slotsPerGpu = r ∧
      (r * slotsPerGpu + j) % slotsPerGpu = j := fun j hj => ⟨mul_add_div hj, mul_add_mod hj⟩
  have hle : (r + 1) * slotsPerGpu ≤ numRanks * slotsPerGpu := Nat.mul_le_mul_right _ hr
  rw [Nat.succ_mul] at hle
  rw [row_congr fun r hr => hg r hr, flatten_row, rankSlots, drop_take_row r slotsPerGpu hle, hg r hr]
  refine row_congr fun j hj => ?_
  rw [(hpos j hj).1, (hpos j hj).2]

/-- The experts of every rank in other slots. -/
structure KeepsRanks (numRanks slotsPerGpu : Nat) (before phy2log : List Int)
    (old : Option (List Int)) : Prop where
  perm : ∀ r < numRanks, (rankSlots slotsPerGpu r phy2log).Perm (rankSlots slotsPerGpu r before)
  stay : ∀ o ∈ old, ∀ r < numRanks, ∀ v,
    ((rankSlots slotsPerGpu r o).zip (rankSlots slotsPerGpu r phy2log)).count (v, v) =
      min ((rankSlots slotsPerGpu r o).count v) ((rankSlots slotsPerGpu r before).count v)
  same : old = none → phy2log = before

theorem preserveLayer_spec (np : Argsort) {before old : List Int} (hranks : 0 < numRanks)
    (hlen : before.length = numRanks * slotsPerGpu) (hold : numRanks * slotsPerGpu ≤ old.length) :
    ∃ phy2log,
      preserveLayer np numRanks before old = .ok phy2log ∧
      phy2log.length = before.length ∧ KeepsRanks numRanks slotsPerGpu before phy2log (some old) := by
  have hrank : ∀ r, ∃ post, r < numRanks →
      preserveRank np (rankSlots slotsPerGpu r before) (rankSlots slotsPerGpu r old) = .ok post ∧
      KeepsSlots (rankSlots slotsPerGpu r old) (rankSlots slotsPerGpu r before) post := by
    intro r
    by_cases hr : r < numRanks
    · obtain ⟨post, hpost, hkeep⟩ := preserveRank_spec np
        (length_rankSlots (le_of_eq hlen.symm) hr) (length_rankSlots hold hr)
      exact ⟨post, fun _ => ⟨hpost, hkeep⟩⟩
    · exact ⟨[], fun h => absurd h hr⟩
  choose post hpost using hrank
  have hlenpost : ∀ r < numRanks, (post r).length = slotsPerGpu := by
    intro r hr
    rw [(hpost r hr).2.perm.length_eq, length_rankSlots (le_of_eq hlen.symm) hr]
  have hslots : ∀ r < numRanks, rankSlots slotsPerGpu r (row numRanks post).flatten = post r :=
    fun r hr => rankSlots_flatten hlenpost hr
  refine ⟨(row numRanks post).flatten, ?_, ?_, fun r hr => ?_, fun o ho r hr v => ?_, nofun⟩
  · unfold preserveLayer
    dsimp only
    have hmod : before.length % numRanks = 0 := by rw [hlen, Nat.mul_mod_right]
    have hcond : ¬ (numRanks = 0 ∨ before.length % numRanks ≠ 0) := by omega
    rw [if_neg hcond, hlen, Nat.mul_div_cancel_left _ hranks,
      mapM_ok fun r hr => (hpost r (mem_range.mp hr)).1]
    rfl
  · rw [hlen, length_flatten, map_row, row_congr hlenpost, ← replicate_eq_row]
    simp
  · rw [hslots r hr]
    exact (hpost r hr).2.perm
  · cases ho
    rw [hslots r hr]
    exact (hpost r hr).2.stay v

theorem KeepsRanks.perm_layer {before : List Int} {old : Option (List Int)}
    (h : KeepsRanks numRanks slotsPerGpu before phy2log old)
    (hlen : before.length = numRanks * slotsPerGpu) (hlen' : phy2log.length = before.length) :
    phy2log.Perm before := by
  rw [← flatten_rankSlots hlen, ← flatten_rankSlots (hlen'.trans hlen)]
  exact Perm.flatMap_left (range numRanks) fun r hr => h.perm r (mem_range.mp hr)

theorem getElem?_of_mem_rankSlots {x : Int} (h : x ∈ rankSlots slotsPerGpu r l) :
    ∃ i, i / slotsPerGpu = r ∧ l[i]? = some x := by
  obtain ⟨j, hj⟩ := mem_iff_getElem?.mp h
  have hlt : j < slotsPerGpu := by
    have := lt_of_getElem? hj
    rw [rankSlots, length_take] at this
    omega
  rw [rankSlots, getElem?_take, if_pos hlt, getElem?_drop] at hj
  exact ⟨r * slotsPerGpu + j, mul_add_div hlt, hj⟩

theorem mem_rankSlots {i : Nat} {x : Int} (hpos : 0 < slotsPerGpu) (h : l[i]? = some x) :
    x ∈ rankSlots slotsPerGpu (i / slotsPerGpu) l := by
  refine mem_iff_getElem?.mpr ⟨i % slotsPerGpu, ?_⟩
  rw [rankSlots, getElem?_take, if_pos (Nat.mod_lt i hpos), getElem?_drop, mul_comm,
    Nat.div_add_mod]
  exact h

/-! ## The result -/

/-- What `rebalance_experts` and `compute_logical_maps` return for a layer, of which the
hierarchical placement was `before` and the old map `old`. -/
structure ValidLayer (sh : Shape) (before : List Int) (old : Option (List Int))
    (phy2log : List Int) (log2phy : List (List Int)) (counts : List Nat) : Prop where
  length : phy2log.length = sh.numPhysicalExperts
  experts : HoldsExperts sh.numLogicalExperts phy2log
  replica : ∀ e < sh.numLogicalExperts, (e : Int) ∈ phy2log
  counts_eq : counts = row sh.numLogicalExperts fun e => phy2log.count (e : Int)
  counts_sum : counts.sum = sh.numPhysicalExperts
  log2phy_eq : ∃ maxReplicas, log2phy = row sh.numLogicalExperts fun e =>
    padSlots maxReplicas (physicalSlots phy2log e)
  ranks : sh.numGpus * sh.phyExpertsPerGpu = sh.numPhysicalExperts ∧
    ∀ r < sh.numGpus, (rankSlots sh.phyExpertsPerGpu r phy2log).length = sh.phyExpertsPerGpu
  node : ∃ node : Nat → Nat, ∀ i (e : Nat), phy2log[i]? = some (e : Int) →
    i / sh.physicalPerNode = node (e / sh.groupSize)
  keeps : KeepsRanks sh.numGpus sh.phyExpertsPerGpu before phy2log old

theorem sum_indicator (n k : Nat) :
    (row n fun e => if k = e then 1 else 0).sum = if k < n then 1 else 0 := by
  induction n with
  | zero => rfl
  | succ n ih =>
    rw [row_succ, sum_append, ih, sum_singleton]
    by_cases hlt : k < n
    · rw [if_pos hlt, if_neg (ne_of_lt hlt), if_pos (Nat.lt_succ_of_lt hlt)]
    · rw [if_neg hlt, zero_add]
      exact if_congr (by omega) rfl rfl

theorem sum_counts {n : Nat} (h : HoldsExperts n phy2log) :
    (row n fun e => phy2log.count (e : Int)).sum = phy2log.length := by
  induction phy2log with
  | nil => exact sum_eq_zero fun x hx => by obtain ⟨e, -, rfl⟩ := mem_row.mp hx; rfl
  | cons x phy2log ih =>
    obtain ⟨k, hk, rfl⟩ := h x mem_cons_self
    have hsplit : (row n fun e => ((k : Int) :: phy2log).count (e : Int)).sum =
        (row n fun e => phy2log.count (e : Int)).sum + (row n fun e => if k = e then 1 else 0).sum := by
      rw [row, row, row, ← sum_map_add]
      refine congrArg List.sum (map_congr_left fun e _ => ?_)
      rw [count_cons]
      simp
    rw [hsplit, sum_indicator, if_pos hk, ih fun y hy => h y (mem_cons_of_mem _ hy)]
    rfl

/-- A placement of a layer with the experts of every rank in other slots is valid. -/
theorem validLayer_of_placement (hsh : sh.Valid) {place : Nat → Nat} (hplace : Placement sh place)
    {old : Option (List Int)} (hlen : phy2log.length = sh.numPhysicalExperts)
    (hkeeps : KeepsRanks sh.numGpus sh.phyExpertsPerGpu
      (row sh.numPhysicalExperts fun i => (place i : Int)) phy2log old) (maxReplicas : Nat) :
    ValidLayer sh (row sh.numPhysicalExperts fun i => (place i : Int)) old phy2log
      (row sh.numLogicalExperts fun e => padSlots maxReplicas (physicalSlots phy2log e))
      (row sh.numLogicalExperts fun e => phy2log.count (e : Int)) := by
  have hperm := hkeeps.perm_layer (length_row.trans hsh.physical_eq) (hlen.trans length_row.symm)
  have hholds : HoldsExperts sh.numLogicalExperts phy2log := by
    intro x hx
    obtain ⟨i, hi, rfl⟩ := mem_row.mp (hperm.subset hx)
    exact ⟨place i, hplace.lt i hi, rfl⟩
  have hslots : 0 < sh.phyExpertsPerGpu := by
    have := lt_of_lt_of_le hsh.logical_pos hsh.logical_le
    rw [hsh.physical_eq] at this
    exact Nat.pos_of_mul_pos_left this
  refine ⟨hlen, hholds, fun e he => ?_, rfl, ?_, ⟨maxReplicas, rfl⟩,
    ⟨hsh.physical_eq.symm, fun r hr => ?_⟩, ?_, hkeeps⟩
  · obtain ⟨i, hi, rfl⟩ := hplace.replica e he
    exact hperm.symm.subset (mem_row.mpr ⟨i, hi, rfl⟩)
  · rw [sum_counts hholds, hlen]
  · exact length_rankSlots (le_of_eq (hsh.physical_eq.symm.trans hlen.symm)) hr
  · obtain ⟨node, hnode⟩ := hplace.node
    refine ⟨node, fun i e hi => ?_⟩
    -- the expert was on the same rank before, and the rank is on one node
    have hilt : i < sh.numPhysicalExperts := hlen ▸ (lt_of_getElem? hi)
    have hr : i / sh.phyExpertsPerGpu < sh.numGpus := by
      rw [hsh.physical_eq] at hilt
      exact Nat.div_lt_of_lt_mul (Nat.mul_comm _ _ ▸ hilt)
    obtain ⟨j, hjr, hj⟩ := getElem?_of_mem_rankSlots
      ((hkeeps.perm _ hr).subset (mem_rankSlots hslots hi))
    rw [getElem?_row] at hj
    split at hj
    · rename_i hjlt
      have hje : place j = e := by exact_mod_cast Option.some.inj hj
      have hjnode := hnode j hjlt
      rw [hje] at hjnode
      rw [← hjnode, hsh.physicalPerNode_eq, mul_comm, ← Nat.div_div_eq_div_mul,
        ← Nat.div_div_eq_div_mul, hjr]
    · cases hj

/-- Every layer of a map has a placement. -/
def PlacesLayers (sh : Shape) (layers : Nat) (phy2log : List (List Int)) : Prop :=
  phy2log.length = layers ∧ ∀ layer < layers, ∃ place : Nat → Nat,
    phy2log[layer]? = some (row sh.numPhysicalExperts fun i => (place i : Int)) ∧ Placement sh place

theorem rebalanceExpertsHierarchical_spec (np : Argsort) (hsh : sh.Valid) {weight : Array2 ℚ}
    (hlayers : weight.rows ≠ []) (hcols : sh.numLogicalExperts = weight.numCols) :
    ∃ phy2log, rebalanceExpertsHierarchical np weight sh.numPhysicalExperts sh.numGroups
        sh.numNodes sh.numGpus = .ok phy2log ∧ PlacesLayers sh weight.rows.length phy2log := by
  have hlayer : ∀ w ∈ weight.rows, ∃ place : Nat → Nat,
      rebalanceLayer np sh w = .ok (row sh.numPhysicalExperts fun i => (place i : Int)) ∧
      Placement sh place := fun w hw => rebalanceLayer_spec np hsh ((weight.rect w hw).trans hcols.symm)
  obtain ⟨phy2log, hmapM⟩ := mapM_exists fun w hw => (hlayer w hw).elim fun _ h => ⟨_, h.1⟩
  obtain ⟨hlen, hget⟩ := mapM_get hmapM
  refine ⟨phy2log, ?_, hlen, fun layer hlt => ?_⟩
  · have hdivisible : ∀ {a b : Nat}, 0 < b → b ∣ a → assertDivisible a b = .ok () := by
      intro a b hb hab
      unfold assertDivisible assert
      rw [if_neg (ne_of_gt hb), if_pos (decide_eq_true (Nat.mod_eq_zero_of_dvd hab))]
    have hcond : ¬ (sh.logicalPerNode = 0 ∨ weight.rows = []) := by
      rintro (hz | hnil)
      · exact ne_of_gt hsh.logicalPerNode_pos hz
      · exact hlayers hnil
    unfold rebalanceExpertsHierarchical
    rw [← hcols]
    dsimp only
    rw [hdivisible hsh.groups_pos hsh.groups_dvd, ok_bind, hdivisible hsh.nodes_pos hsh.nodes_dvd,
      ok_bind, hdivisible hsh.nodes_pos hsh.nodes_dvd_gpus, ok_bind,
      hdivisible hsh.gpus_pos hsh.gpus_dvd, ok_bind, if_neg hcond]
    exact hmapM
  · obtain ⟨b, hb, hok⟩ := hget layer _ (getElem?_eq_getElem hlt)
    obtain ⟨place, hplace, hvalid⟩ := hlayer _ (getElem_mem hlt)
    rw [hplace] at hok
    cases hok
    exact ⟨place, hb, hvalid⟩

/-- An old map that has the slots of the new one. -/
def CoversSlots (old : List (List Int)) (layers numReplicas : Nat) : Prop :=
  old.length = layers ∧ ∀ r ∈ old, numReplicas ≤ r.length

/-- Every layer of the map keeps the slots that it can. -/
def KeepsLayers (sh : Shape) (layers : Nat) (before phy2log : List (List Int))
    (old : Option (List (List Int))) : Prop :=
  ∀ layer < layers, ∃ b p, before[layer]? = some b ∧ phy2log[layer]? = some p ∧
    p.length = sh.numPhysicalExperts ∧
    KeepsRanks sh.numGpus sh.phyExpertsPerGpu b p (old.bind fun o => o[layer]?)

theorem broadcastLayers_of_length {layers : Nat} {old : List (List Int)} (h : old.length = layers) :
    broadcastLayers layers old = old := by
  unfold broadcastLayers
  split
  · rw [← h]
    rfl
  · rfl

theorem preserveIntragpuSlots_spec (np : Argsort) (hsh : sh.Valid) {layers : Nat}
    {before old : List (List Int)} (hbefore : PlacesLayers sh layers before)
    (hold : CoversSlots old layers sh.numPhysicalExperts) : ∃ phy2log,
      preserveIntragpuSlots np before sh.numGpus old = .ok phy2log ∧
      phy2log.length = layers ∧ KeepsLayers sh layers before phy2log (some old) := by
  obtain ⟨hlenbefore, hplaced⟩ := hbefore
  obtain ⟨hlenold, hwide⟩ := hold
  have hlayer : ∀ q ∈ before.zip old, ∃ p, preserveLayer np sh.numGpus q.1 q.2 = .ok p ∧
      p.length = q.1.length ∧ KeepsRanks sh.numGpus sh.phyExpertsPerGpu q.1 p (some q.2) := by
    rintro ⟨b, o⟩ hq
    obtain ⟨hb, ho⟩ := of_mem_zip hq
    obtain ⟨layer, hlt, hget⟩ := mem_iff_getElem.mp hb
    obtain ⟨place, hplace, -⟩ := hplaced layer (hlenbefore ▸ hlt)
    rw [getElem?_eq_getElem hlt, Option.some.injEq, hget] at hplace
    have hlen : b.length = sh.numGpus * sh.phyExpertsPerGpu := by
      rw [hplace, length_row, hsh.physical_eq]
    exact preserveLayer_spec np hsh.gpus_pos hlen (hsh.physical_eq ▸ hwide o ho)
  obtain ⟨phy2log, hmapM⟩ := mapM_exists fun q hq => (hlayer q hq).imp fun p hp => hp.1
  obtain ⟨hlen, hget⟩ := mapM_get hmapM
  refine ⟨phy2log, ?_, ?_, fun layer hlt => ?_⟩
  · unfold preserveIntragpuSlots
    rw [broadcastLayers_of_length (hlenold.trans hlenbefore.symm), if_neg (by rw [hlenold, hlenbefore]; exact not_not.mpr rfl)]
    exact hmapM
  · rw [hlen, length_zip, hlenbefore, hlenold, min_self]
  · obtain ⟨place, hb, -⟩ := hplaced layer hlt
    have ho := getElem?_eq_getElem (hlenold ▸ hlt : layer < old.length)
    have hz : (before.zip old)[layer]? = some (_, _) := getElem?_zip_eq_some.mpr ⟨hb, ho⟩
    obtain ⟨p, hp, hok⟩ := hget layer _ hz
    obtain ⟨p', hok', hlen', hkeep⟩ := hlayer _ (mem_of_getElem? hz)
    rw [hok] at hok'
    cases hok'
    refine ⟨_, p, hb, hp, hlen'.trans length_row, ?_⟩
    show KeepsRanks _ _ _ _ old[layer]?
    rw [ho]
    exact hkeep

/-- `rebalance_experts` returns a valid placement of every layer: for every load of at
least one layer and one expert, whatever the sort does with equal loads, and for every old
map that has the slots. -/
theorem rebalanceExperts_valid (np : Argsort) (weight : Array2 ℚ)
    (numReplicas numGroups numNodes numRanks : Nat) (old : Option (List (List Int)))
    (hlayers : weight.rows ≠ []) (hexperts : 0 < weight.numCols)
    (hreplicas : weight.numCols ≤ numReplicas)
    (hdiv : Divisible weight.numCols numReplicas numGroups numNodes numRanks)
    (hold : ∀ o ∈ old, CoversSlots o weight.rows.length numReplicas) :
    ∃ before phy2log log2phy counts, (if numGroups % numNodes = 0 then
          rebalanceExpertsHierarchical np weight numReplicas numGroups numNodes numRanks
        else rebalanceExpertsHierarchical np weight numReplicas 1 1 numRanks) = .ok before ∧
      rebalanceExperts np weight numReplicas numGroups numNodes numRanks old = .ok phy2log ∧
      computeLogicalMaps phy2log weight.numCols = .ok (log2phy, counts) ∧
      phy2log.length = weight.rows.length ∧
      ∀ layer < weight.rows.length, ∃ b p l c, before[layer]? = some b ∧ phy2log[layer]? = some p ∧
        log2phy[layer]? = some l ∧ counts[layer]? = some c ∧
        ValidLayer (placementShape weight.numCols numReplicas numGroups numNodes numRanks)
          b (old.bind fun o => o[layer]?) p l c := by
  have hsh := hdiv.valid hexperts hreplicas
  obtain ⟨hlog, hphys, hgpus⟩ := placementShape_fields weight.numCols numReplicas numGroups
    numNodes numRanks
  obtain ⟨before, hhier, hplaces⟩ := rebalanceExpertsHierarchical_spec np hsh hlayers hlog
  have hchoice : (if numGroups % numNodes = 0 then
      rebalanceExpertsHierarchical np weight numReplicas numGroups numNodes numRanks
      else rebalanceExpertsHierarchical np weight numReplicas 1 1 numRanks) = .ok before := by
    rw [← hhier]
    unfold placementShape
    split
    · rfl
    · rfl
  generalize placementShape weight.numCols numReplicas numGroups numNodes numRanks = sh at *
  obtain ⟨phy2log, hkeep, hlen, hkeeps⟩ : ∃ phy2log,
      old.elim (.ok before) (preserveIntragpuSlots np before numRanks) = .ok phy2log ∧
      phy2log.length = weight.rows.length ∧
      KeepsLayers sh weight.rows.length before phy2log old := by
    cases old with
    | none =>
      refine ⟨before, rfl, hplaces.1, fun layer hlt => ?_⟩
      obtain ⟨place, hb, -⟩ := hplaces.2 layer hlt
      exact ⟨_, _, hb, hb, length_row, fun _ _ => .refl _, nofun, fun _ => rfl⟩
    | some o =>
      rw [← hgpus]
      exact preserveIntragpuSlots_spec np hsh hplaces (hphys.symm ▸ hold o rfl)
  have hvalid : ∀ layer < weight.rows.length, ∃ b p, before[layer]? = some b ∧
      phy2log[layer]? = some p ∧ ∀ maxReplicas, ValidLayer sh b (old.bind fun o => o[layer]?) p
        (row weight.numCols fun e => padSlots maxReplicas (physicalSlots p e))
        (row weight.numCols fun e => p.count (e : Int)) := by
    intro layer hlt
    obtain ⟨place, hb, hplace⟩ := hplaces.2 layer hlt
    obtain ⟨b, p, hb', hp, hlenp, hranks⟩ := hkeeps layer hlt
    rw [hb] at hb'
    cases hb'
    rw [← hlog]
    exact ⟨_, p, hb, hp, validLayer_of_placement hsh hplace hlenp hranks⟩
  have hholds : ∀ p ∈ phy2log, HoldsExperts weight.numCols p := by
    intro p hp
    obtain ⟨layer, hlt, hget⟩ := mem_iff_getElem.mp hp
    obtain ⟨b, p', -, hp', hval⟩ := hvalid layer (hlen ▸ hlt)
    rw [getElem?_eq_getElem hlt, Option.some.injEq, hget] at hp'
    subst hp'
    exact hlog ▸ (hval 0).experts
  have hne : phy2log ≠ [] := by
    rw [← length_pos_iff, hlen]
    exact length_pos_iff.mpr hlayers
  obtain ⟨maxReplicas, log2phy, hmaps, hlog2phy⟩ := computeLogicalMaps_spec hne hexperts hholds
  refine ⟨before, phy2log, log2phy, _, hchoice, ?_, hmaps, hlen, fun layer hlt => ?_⟩
  · unfold rebalanceExperts
    rw [if_neg (ne_of_gt hdiv.nodes_pos), hchoice]
    cases old with
    | none => exact hkeep
    | some o => exact hkeep
  · obtain ⟨b, p, hb, hp, hval⟩ := hvalid layer hlt
    refine ⟨b, p, _, _, hb, hp, ?_, ?_, hval maxReplicas⟩
    · rw [hlog2phy, getElem?_map, hp]
      rfl
    · rw [getElem?_map, hp]
      rfl

/-- Two experts, one loaded three times as much as the other. -/
def twoExperts : Array2 ℚ := { numCols := 2, rows := [[3, 1]], rect := by decide }

theorem rebalanceExperts_valid_two : ∃ phy2log,
    rebalanceExperts .stable twoExperts 4 2 2 2 (some [[0, 1, 1, 0]]) = .ok phy2log ∧
      phy2log.length = 1 := by
  obtain ⟨-, phy2log, -, -, -, hrebalance, -, hlen, -⟩ :=
    rebalanceExperts_valid .stable twoExperts 4 2 2 2 (some [[0, 1, 1, 0]]) (by decide) (by decide)
      (by decide) ⟨by decide, by decide, by decide, fun _ => by decide, fun _ => by decide⟩
      (by
        rintro o ho
        cases ho
        exact ⟨rfl, by decide⟩)
  exact ⟨phy2log, hrebalance, hlen⟩

end MyOperator.Eplb
