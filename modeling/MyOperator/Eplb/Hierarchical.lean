import MyOperator.Eplb.Packing

/-!
# The hierarchical placement

The index maps of `rebalance_experts_hierarchical` are injective, so that their inverses
are what they are used as, and the map that they compose to has a replica of every expert
and keeps every expert group on its node.
-/

namespace MyOperator.Eplb

open Lib Function List

variable {n m : Nat}

/-! ## Replication -/

/-- The replication loop up to slot `k`: `logcnt` counts the slots of every expert. -/
structure ReplicateInv (n k : Nat) (phy2log logcnt : Nat → Nat) : Prop where
  le : n ≤ k
  first : ∀ e < n, phy2log e = e
  lt : ∀ i < k, phy2log i < n
  count : ∀ e < n, logcnt e = (range k).countP fun i => phy2log i = e

variable {weight : List ℚ} {b i j : Nat} {sh : Shape}

theorem replicateExpert_inv {k : Nat} {phy2log logcnt : Nat → Nat} (hn : weight.length = n)
    (hpos : 0 < n) (hk : k < m) (h : ReplicateInv n k phy2log logcnt) :
    ∃ phy2log' logcnt' : Nat → Nat,
      replicateExpert weight (row m fun i => (phy2log i : Int), row n logcnt) k =
        .ok (row m fun i => (phy2log' i : Int), row n logcnt') ∧
      ReplicateInv n (k + 1) phy2log' logcnt' := by
  have hlen : (zipWith (fun (w : ℚ) (c : Nat) => w / (c : ℚ)) weight (row n logcnt)).length = n := by
    rw [length_zipWith, length_row, hn, min_self]
  obtain ⟨r, a, hargmax, hget, -⟩ := argmax_spec (length_pos_iff.mp (hlen.symm ▸ hpos))
  have hr : r < n := hlen ▸ (lt_of_getElem? hget)
  refine ⟨update phy2log k r, update logcnt r (logcnt r + 1), ?_, ?_, ?_, ?_, ?_⟩
  · have hupdate : update (fun i => (phy2log i : Int)) k (r : Int) =
        fun i => ((update phy2log k r i : Nat) : Int) := by
      funext i
      by_cases hi : i = k
      · rw [hi, update_self, update_self]
      · rw [update_of_ne hi, update_of_ne hi]
    unfold replicateExpert
    dsimp only
    rw [hargmax, ok_bind, setItem_row hk, ok_bind, item_row hr, ok_bind, setItem_row hr, hupdate]
    rfl
  · exact Nat.le_succ_of_le h.le
  · intro e he
    rw [update_of_ne (ne_of_lt (lt_of_lt_of_le he h.le))]
    exact h.first e he
  · intro i hi
    by_cases heq : i = k
    · rw [heq, update_self]
      exact hr
    · rw [update_of_ne heq]
      exact h.lt i (by omega)
  · intro e he
    have hold : (range k).countP (fun i => decide (update phy2log k r i = e)) = logcnt e := by
      rw [h.count e he]
      refine List.countP_congr fun i hi => ?_
      rw [update_of_ne (ne_of_lt (mem_range.mp hi))]
    rw [List.range_succ, List.countP_append, hold, List.countP_singleton, update_self]
    by_cases heq : r = e
    · rw [if_pos (decide_eq_true heq), ← heq, update_self]
    · rw [if_neg (by simpa using heq), update_of_ne (Ne.symm heq), add_zero]

/-- `replicate_experts` gives slot `e` to expert `e` and counts the replicas. -/
theorem replicateExperts_spec (hn : weight.length = n) (hpos : 0 < n) (hle : n ≤ m) :
    ∃ phy2log logcnt : Nat → Nat,
      replicateExperts weight m = .ok (row m fun i => (phy2log i : Int), row n logcnt) ∧
      ReplicateInv n m phy2log logcnt := by
  have hloop : ∀ (d k : Nat) (phy2log logcnt : Nat → Nat), k + d = m →
      ReplicateInv n k phy2log logcnt → ∃ phy2log' logcnt' : Nat → Nat,
        (List.range' k d).foldlM (replicateExpert weight)
          (row m fun i => (phy2log i : Int), row n logcnt) =
          .ok (row m fun i => (phy2log' i : Int), row n logcnt') ∧
        ReplicateInv n m phy2log' logcnt' := by
    intro d
    induction d with
    | zero =>
      intro k phy2log logcnt hkd h
      exact ⟨phy2log, logcnt, rfl, hkd ▸ h⟩
    | succ d ih =>
      intro k phy2log logcnt hkd h
      obtain ⟨phy2log1, logcnt1, hstep, h1⟩ := replicateExpert_inv hn hpos (by omega : k < m) h
      obtain ⟨phy2log2, logcnt2, hrest, h2⟩ := ih (k + 1) phy2log1 logcnt1 (by omega) h1
      refine ⟨phy2log2, logcnt2, ?_, h2⟩
      rw [List.range'_succ, List.foldlM_cons, hstep, ok_bind, hrest]
  have hinit : ReplicateInv n n id fun _ => 1 := by
    refine ⟨le_rfl, fun _ _ => rfl, fun i hi => hi, fun e he => ?_⟩
    have hcount : (range n).countP (fun i => decide (i = e)) = (range n).count e := by
      exact List.countP_congr fun i _ => by simp
    exact ((hcount.trans (nodup_range.count (a := e))).trans (if_pos (mem_range.mpr he))).symm
  unfold replicateExperts
  dsimp only
  rw [hn, replicate_eq_row, assert, if_pos (decide_eq_true hle), ok_bind]
  exact hloop (m - n) n id (fun _ => 1) (by omega) hinit

/-! ## Inverses -/

/-- `p` permutes the numbers below `n`, and `q` undoes it. -/
structure Inverse (n : Nat) (p q : Nat → Nat) : Prop where
  lt : ∀ i < n, p i < n
  lt' : ∀ i < n, q i < n
  left : ∀ i < n, q (p i) = i
  right : ∀ i < n, p (q i) = i

theorem inverse_spec {p : Nat → Nat} (hlt : ∀ i < n, p i < n)
    (hinj : ∀ i < n, ∀ j < n, p i = p j → i = j) : ∃ q : Nat → Nat,
      inverse (row n fun i => (p i : Int)) = .ok (row n fun i => (q i : Int)) ∧ Inverse n p q := by
  have hloop : ∀ k, k ≤ n → ∀ inv0 : Nat → Int, ∃ inv : Nat → Int,
      (row k fun i => ((p i : Int), i)).foldlM (fun inv e => setItem inv e.1 (e.2 : Int))
        (row n inv0) = .ok (row n inv) ∧ ∀ i < k, inv (p i) = i := by
    intro k
    induction k with
    | zero => exact fun _ inv0 => ⟨inv0, rfl, nofun⟩
    | succ k ih =>
      intro hk inv0
      obtain ⟨inv, hfold, hinv⟩ := ih (by omega) inv0
      refine ⟨update inv (p k) (k : Int), ?_, fun i hi => ?_⟩
      · rw [row_succ, List.foldlM_append, hfold, ok_bind, List.foldlM_cons,
          setItem_row (hlt k (by omega))]
        rfl
      · by_cases heq : i = k
        · rw [heq, update_self]
        · have hne : p i ≠ p k := fun hp => heq (hinj i (by omega) k (by omega) hp)
          rw [update_of_ne hne]
          exact hinv i (by omega)
  obtain ⟨inv, hfold, hinv⟩ := hloop n le_rfl fun _ => 0
  have hperm : ((range n).map p).Perm (range n) := by
    have hnodup : ((range n).map p).Nodup := by
      refine Nodup.map_on ?_ nodup_range
      intro i hi j hj
      exact hinj i (mem_range.mp hi) j (mem_range.mp hj)
    have hsub : (range n).map p ⊆ range n := by
      intro a ha
      obtain ⟨i, hi, rfl⟩ := mem_map.mp ha
      exact mem_range.mpr (hlt i (mem_range.mp hi))
    refine (hnodup.subperm hsub).perm_of_length_le ?_
    rw [length_map]
  have hsurj : ∀ j < n, ∃ i < n, p i = j := by
    intro j hj
    obtain ⟨i, hi, hp⟩ := mem_map.mp (hperm.symm.subset (mem_range.mpr hj))
    exact ⟨i, mem_range.mp hi, hp⟩
  have hcast : ∀ j < n, inv j = ((inv j).toNat : Int) := by
    intro j hj
    obtain ⟨i, hi, rfl⟩ := hsurj j hj
    rw [hinv i hi]
    rfl
  have hleft : ∀ i < n, (inv (p i)).toNat = i := by
    intro i hi
    rw [hinv i hi]
    rfl
  refine ⟨fun j => (inv j).toNat, ?_, hlt, ?_, hleft, ?_⟩
  · unfold inverse
    rw [length_row, zipIdx_row, replicate_eq_row, hfold]
    exact congrArg Except.ok (row_congr hcast)
  · intro j hj
    obtain ⟨i, hi, rfl⟩ := hsurj j hj
    rw [hleft i hi]
    exact hi
  · intro j hj
    obtain ⟨i, hi, rfl⟩ := hsurj j hj
    rw [hleft i hi]

/-! ## Mixed radix -/

theorem mul_add_lt {a : Nat} (hi : i < a) (hj : j < b) : i * b + j < a * b := by
  have hle : (i + 1) * b ≤ a * b := Nat.mul_le_mul_right b hi
  rw [Nat.succ_mul] at hle
  omega

theorem mul_add_div (hj : j < b) : (i * b + j) / b = i := by
  rw [add_comm, Nat.add_mul_div_right _ _ (by omega), Nat.div_eq_of_lt hj, zero_add]

theorem mul_add_mod (hj : j < b) : (i * b + j) % b = j := by
  rw [add_comm, Nat.add_mul_mod_self_right, Nat.mod_eq_of_lt hj]

theorem Places.inj {packs : Nat} {pack rank : Nat → Nat} (h : Places n packs pack rank) (hi : i < n)
    (hj : j < n) (heq : pack i * (n / packs) + rank i = pack j * (n / packs) + rank j) : i = j := by
  have hpack := congrArg (· / (n / packs)) heq
  have hrank := congrArg (· % (n / packs)) heq
  rw [mul_add_div (h.rank_lt i hi), mul_add_div (h.rank_lt j hj)] at hpack
  rw [mul_add_mod (h.rank_lt i hi), mul_add_mod (h.rank_lt j hj)] at hrank
  exact h.apart i hi j hj hpack hrank

/-! ## Shapes -/

/-- What the code requires of the shape, for at least one expert. -/
structure Shape.Valid (sh : Shape) : Prop where
  nodes_pos : 0 < sh.numNodes
  gpus_pos : 0 < sh.numGpus
  groups_dvd : sh.numGroups ∣ sh.numLogicalExperts
  nodes_dvd : sh.numNodes ∣ sh.numGroups
  nodes_dvd_gpus : sh.numNodes ∣ sh.numGpus
  gpus_dvd : sh.numGpus ∣ sh.numPhysicalExperts
  logical_pos : 0 < sh.numLogicalExperts
  logical_le : sh.numLogicalExperts ≤ sh.numPhysicalExperts

namespace Shape.Valid

variable {sh : Shape} (h : sh.Valid)
include h

theorem groups_pos : 0 < sh.numGroups := Nat.pos_of_dvd_of_pos h.groups_dvd h.logical_pos

theorem logical_eq : sh.numLogicalExperts = sh.numGroups * sh.groupSize :=
  (Nat.mul_div_cancel' h.groups_dvd).symm

theorem groups_eq : sh.numGroups = sh.numNodes * sh.groupsPerNode :=
  (Nat.mul_div_cancel' h.nodes_dvd).symm

theorem logicalPerNode_eq : sh.logicalPerNode = sh.groupsPerNode * sh.groupSize := by
  unfold Shape.logicalPerNode
  rw [h.logical_eq, h.groups_eq, Nat.mul_assoc, Nat.mul_div_cancel_left _ h.nodes_pos]

theorem logical_eq' : sh.numLogicalExperts = sh.numNodes * sh.logicalPerNode := by
  rw [h.logicalPerNode_eq, ← mul_assoc, ← h.groups_eq, ← h.logical_eq]

theorem gpus_eq : sh.numGpus = sh.numNodes * (sh.numGpus / sh.numNodes) :=
  (Nat.mul_div_cancel' h.nodes_dvd_gpus).symm

theorem physical_eq : sh.numPhysicalExperts = sh.numGpus * sh.phyExpertsPerGpu :=
  (Nat.mul_div_cancel' h.gpus_dvd).symm

theorem physicalPerNode_eq :
    sh.physicalPerNode = sh.numGpus / sh.numNodes * sh.phyExpertsPerGpu := by
  unfold Shape.physicalPerNode
  conv_lhs => rw [h.physical_eq, h.gpus_eq, Nat.mul_assoc, Nat.mul_div_cancel_left _ h.nodes_pos]

theorem physical_eq' : sh.numPhysicalExperts = sh.numNodes * sh.physicalPerNode := by
  rw [h.physicalPerNode_eq, ← mul_assoc, ← h.gpus_eq, ← h.physical_eq]

theorem logicalPerNode_le : sh.logicalPerNode ≤ sh.physicalPerNode :=
  Nat.div_le_div_right h.logical_le

theorem logicalPerNode_pos : 0 < sh.logicalPerNode := by
  have := h.logical_pos
  rw [h.logical_eq'] at this
  exact Nat.pos_of_mul_pos_left this

theorem groupSize_pos : 0 < sh.groupSize := by
  have := h.logical_pos
  rw [h.logical_eq] at this
  exact Nat.pos_of_mul_pos_left this

theorem gpusPerNode_pos : 0 < sh.numGpus / sh.numNodes := by
  have := h.gpus_pos
  rw [h.gpus_eq] at this
  exact Nat.pos_of_mul_pos_left this

end Shape.Valid

/-! ## The steps -/

/-- `log2mlog`: the experts of a group stay together, at a place of the group's node. -/
structure LogPlaces (sh : Shape) (log2mlog node : Nat → Nat) : Prop where
  lt : ∀ e < sh.numLogicalExperts, log2mlog e < sh.numLogicalExperts
  inj : ∀ e < sh.numLogicalExperts, ∀ e' < sh.numLogicalExperts, log2mlog e = log2mlog e' → e = e'
  node_eq : ∀ e < sh.numLogicalExperts, log2mlog e / sh.logicalPerNode = node (e / sh.groupSize)

theorem packGroups_spec (np : Argsort) (hsh : sh.Valid) (weight : List ℚ) :
    ∃ log2mlog node : Nat → Nat,
      packGroups np sh weight = .ok (row sh.numLogicalExperts fun e => (log2mlog e : Int)) ∧
      LogPlaces sh log2mlog node := by
  have hlen : ((reshape sh.numGroups sh.groupSize weight).map List.sum).length = sh.numGroups := by
    rw [length_map, reshape, length_map, length_range]
  obtain ⟨pack, rank, hpacking, hplaces⟩ := balancedPacking_spec _ _ np hlen hsh.groups_pos
    (ne_of_gt hsh.nodes_pos) (Nat.mod_eq_zero_of_dvd hsh.nodes_dvd)
  let place : Nat → Nat := fun g => pack g * sh.groupsPerNode + rank g
  have hplace : ∀ g < sh.numGroups, place g < sh.numGroups := by
    intro g hg
    rw [hsh.groups_eq]
    exact mul_add_lt (hplaces.pack_lt g hg) (hplaces.rank_lt g hg)
  have hgroup : ∀ e < sh.numLogicalExperts, e / sh.groupSize < sh.numGroups := by
    intro e he
    rw [hsh.logical_eq] at he
    exact Nat.div_lt_of_lt_mul (Nat.mul_comm _ _ ▸ he)
  have hmod : ∀ e, e % sh.groupSize < sh.groupSize := fun e => Nat.mod_lt e hsh.groupSize_pos
  refine ⟨fun e => place (e / sh.groupSize) * sh.groupSize + e % sh.groupSize, pack, ?_, ?_, ?_, ?_⟩
  · unfold packGroups
    dsimp only
    rw [hpacking, ok_bind]
    dsimp only
    rw [zipWith_row, map_row, hsh.logical_eq]
    have hrows : (row sh.numGroups fun g => (arange sh.groupSize).map fun k =>
        ((pack g : Int) * (sh.groupsPerNode : Int) + (rank g : Int)) * (sh.groupSize : Int) + k) =
        row sh.numGroups fun g => row sh.groupSize fun k =>
          ((place g * sh.groupSize + k : Nat) : Int) := by
      refine row_congr fun g _ => ?_
      show (row sh.groupSize fun k : Nat => (k : Int)).map _ = _
      rw [map_row]
      refine row_congr fun k _ => ?_
      push_cast [place]
      rfl
    rw [hrows, flatten_row]
    rfl
  · intro e he
    rw [hsh.logical_eq]
    exact mul_add_lt (hplace _ (hgroup e he)) (hmod e)
  · intro e he e' he' heq
    have hdiv := congrArg (· / sh.groupSize) heq
    have hrem := congrArg (· % sh.groupSize) heq
    rw [mul_add_div (hmod e), mul_add_div (hmod e')] at hdiv
    rw [mul_add_mod (hmod e), mul_add_mod (hmod e')] at hrem
    have hgroups := hplaces.inj (hgroup e he) (hgroup e' he') hdiv
    rw [← Nat.div_add_mod e sh.groupSize, ← Nat.div_add_mod e' sh.groupSize, hgroups, hrem]
  · intro e he
    rw [hsh.logicalPerNode_eq, mul_comm sh.groupsPerNode, ← Nat.div_div_eq_div_mul,
      mul_add_div (hmod e)]
    exact mul_add_div (hplaces.rank_lt _ (hgroup e he))

/-- Steps 2 and 3 of a node give every logical expert of the node a physical one. -/
theorem placeNode_spec (np : Argsort) (hsh : sh.Valid) {tokens : List ℚ}
    (htokens : tokens.length = sh.logicalPerNode) : ∃ pphy2mlog : Nat → Nat,
      placeNode np sh tokens = .ok (row sh.physicalPerNode fun i => (pphy2mlog i : Int)) ∧
      (∀ i < sh.physicalPerNode, pphy2mlog i < sh.logicalPerNode) ∧
      ∀ x < sh.logicalPerNode, ∃ i < sh.physicalPerNode, pphy2mlog i = x := by
  have hpos : 0 < sh.physicalPerNode := lt_of_lt_of_le hsh.logicalPerNode_pos hsh.logicalPerNode_le
  obtain ⟨phy2mlog, mlogcnt, hrep, hinv⟩ :=
    replicateExperts_spec htokens hsh.logicalPerNode_pos hsh.logicalPerNode_le
  obtain ⟨tok, htok⟩ := exists_row htokens
  have hgather := takeAlong_row (f := fun e => tok e / (mlogcnt e : ℚ)) (m := sh.physicalPerNode) hinv.lt
  have hgpus : sh.physicalPerNode / (sh.numGpus / sh.numNodes) = sh.phyExpertsPerGpu := by
    rw [hsh.physicalPerNode_eq, Nat.mul_div_cancel_left _ hsh.gpusPerNode_pos]
  obtain ⟨pack, rank, hpacking, hplaces⟩ := balancedPacking_spec
    (row sh.physicalPerNode fun j => tok (phy2mlog j) / (mlogcnt (phy2mlog j) : ℚ))
    (sh.numGpus / sh.numNodes) np length_row hpos (ne_of_gt hsh.gpusPerNode_pos)
    (Nat.mod_eq_zero_of_dvd ⟨_, hsh.physicalPerNode_eq⟩)
  obtain ⟨q, hinverse, hq⟩ := inverse_spec
    (p := fun j => pack j * (sh.physicalPerNode / (sh.numGpus / sh.numNodes)) + rank j)
    (n := sh.physicalPerNode) (fun j hj => by
      have hlt := mul_add_lt (hplaces.pack_lt j hj) (hplaces.rank_lt j hj)
      rwa [Nat.mul_div_cancel' ⟨_, hsh.physicalPerNode_eq⟩] at hlt)
    (fun i hi j hj heq => hplaces.inj hi hj heq)
  refine ⟨fun i => phy2mlog (q i), ?_, fun i hi => hinv.lt _ (hq.lt' i hi), fun x hx => ?_⟩
  · unfold placeNode
    rw [hrep, ok_bind]
    dsimp only
    rw [htok, zipWith_row, hgather, ok_bind, hpacking, ok_bind]
    dsimp only
    rw [zipWith_row]
    have hcast : (row sh.physicalPerNode fun i =>
        (pack i : Int) * (sh.phyExpertsPerGpu : Int) + (rank i : Int)) =
        row sh.physicalPerNode fun j =>
          ((pack j * (sh.physicalPerNode / (sh.numGpus / sh.numNodes)) + rank j : Nat) : Int) := by
      refine row_congr fun j _ => ?_
      rw [hgpus]
      push_cast
      rfl
    rw [hcast, hinverse, ok_bind, takeAlong_row hq.lt']
  · have hx' := lt_of_lt_of_le hx hsh.logicalPerNode_le
    refine ⟨_, hq.lt x hx', ?_⟩
    exact (congrArg phy2mlog (hq.left x hx')).trans (hinv.first x hx)

/-- A placement of a layer: every slot holds an expert, every expert has a slot, and the
slots of a group are on one node. -/
structure Placement (sh : Shape) (phy2log : Nat → Nat) : Prop where
  lt : ∀ i < sh.numPhysicalExperts, phy2log i < sh.numLogicalExperts
  replica : ∀ e < sh.numLogicalExperts, ∃ i < sh.numPhysicalExperts, phy2log i = e
  node : ∃ node : Nat → Nat, ∀ i < sh.numPhysicalExperts,
    i / sh.physicalPerNode = node (phy2log i / sh.groupSize)

theorem rebalanceLayer_spec (np : Argsort) (hsh : sh.Valid)
    (hweight : weight.length = sh.numLogicalExperts) : ∃ phy2log : Nat → Nat,
      rebalanceLayer np sh weight = .ok (row sh.numPhysicalExperts fun i => (phy2log i : Int)) ∧
      Placement sh phy2log := by
  obtain ⟨log2mlog, node, hpack, hlog⟩ := packGroups_spec np hsh weight
  obtain ⟨mlog2log, hinverse, hinv⟩ := inverse_spec hlog.lt hlog.inj
  obtain ⟨w, hw⟩ := exists_row hweight
  have hnodes : ∀ ν < sh.numNodes, ∃ pphy2mlog : Nat → Nat,
      placeNode np sh (row sh.logicalPerNode fun j => w (mlog2log (ν * sh.logicalPerNode + j))) =
        .ok (row sh.physicalPerNode fun i => (pphy2mlog i : Int)) ∧
      (∀ i < sh.physicalPerNode, pphy2mlog i < sh.logicalPerNode) ∧
      ∀ x < sh.logicalPerNode, ∃ i < sh.physicalPerNode, pphy2mlog i = x :=
    fun ν _ => placeNode_spec np hsh length_row
  choose! pphy2mlog hplace hlt hsurj using hnodes
  have hppos : 0 < sh.physicalPerNode := lt_of_lt_of_le hsh.logicalPerNode_pos hsh.logicalPerNode_le
  let place : Nat → Nat := fun j =>
    pphy2mlog (j / sh.physicalPerNode) (j % sh.physicalPerNode) +
      j / sh.physicalPerNode * sh.logicalPerNode
  have hdiv : ∀ j < sh.numPhysicalExperts, j / sh.physicalPerNode < sh.numNodes := by
    intro j hj
    rw [hsh.physical_eq'] at hj
    exact Nat.div_lt_of_lt_mul (Nat.mul_comm _ _ ▸ hj)
  have hloc : ∀ j < sh.numPhysicalExperts,
      pphy2mlog (j / sh.physicalPerNode) (j % sh.physicalPerNode) < sh.logicalPerNode := fun j hj =>
    hlt _ (hdiv j hj) _ (Nat.mod_lt j hppos)
  have hplacelt : ∀ j < sh.numPhysicalExperts, place j < sh.numLogicalExperts := by
    intro j hj
    rw [hsh.logical_eq']
    show _ + _ < _
    rw [add_comm]
    exact mul_add_lt (hdiv j hj) (hloc j hj)
  refine ⟨fun j => mlog2log (place j), ?_, fun j hj => hinv.lt' _ (hplacelt j hj), ?_, node, ?_⟩
  · unfold rebalanceLayer
    rw [hpack, ok_bind, hinverse, ok_bind, hw, takeAlong_row hinv.lt', ok_bind]
    have hreshape : reshape sh.numNodes sh.logicalPerNode
        (row sh.numLogicalExperts fun j => w (mlog2log j)) =
        row sh.numNodes fun ν => row sh.logicalPerNode fun j =>
          w (mlog2log (ν * sh.logicalPerNode + j)) := by
      rw [hsh.logical_eq']
      exact reshape_row
    have hmapM : (reshape sh.numNodes sh.logicalPerNode
        (row sh.numLogicalExperts fun j => w (mlog2log j))).mapM (placeNode np sh) =
        .ok (row sh.numNodes fun ν => row sh.physicalPerNode fun i => (pphy2mlog ν i : Int)) := by
      rw [hreshape]
      refine List.mapM_map.trans (mapM_ok fun ν hν => hplace ν (mem_range.mp hν))
    rw [hmapM, ok_bind, zipIdx_row, map_row]
    have hflat : (row sh.numNodes fun ν =>
        (row sh.physicalPerNode fun i => (pphy2mlog ν i : Int)).map fun x =>
          x + ((ν * sh.logicalPerNode : Nat) : Int)).flatten =
        row sh.numPhysicalExperts fun j => (place j : Int) := by
      have hrows : (row sh.numNodes fun ν =>
          (row sh.physicalPerNode fun i => (pphy2mlog ν i : Int)).map fun x =>
            x + ((ν * sh.logicalPerNode : Nat) : Int)) =
          row sh.numNodes fun ν => row sh.physicalPerNode fun i =>
            ((pphy2mlog ν i + ν * sh.logicalPerNode : Nat) : Int) := by
        refine row_congr fun ν _ => ?_
        rw [map_row]
        exact row_congr fun i _ => (Nat.cast_add _ _).symm
      rw [hrows, flatten_row, hsh.physical_eq']
    show takeAlong _ (List.flatten (row sh.numNodes fun ν =>
        (row sh.physicalPerNode fun i => (pphy2mlog ν i : Int)).map fun x =>
          x + ((ν * sh.logicalPerNode : Nat) : Int))) = _
    rw [hflat, takeAlong_row hplacelt]
  · intro e he
    have hm := hlog.lt e he
    rw [hsh.logical_eq'] at hm
    have hν : log2mlog e / sh.logicalPerNode < sh.numNodes :=
      Nat.div_lt_of_lt_mul (Nat.mul_comm _ _ ▸ hm)
    obtain ⟨i, hi, hloci⟩ := hsurj _ hν (log2mlog e % sh.logicalPerNode)
      (Nat.mod_lt _ hsh.logicalPerNode_pos)
    refine ⟨log2mlog e / sh.logicalPerNode * sh.physicalPerNode + i, ?_, ?_⟩
    · rw [hsh.physical_eq']
      exact mul_add_lt hν hi
    · show mlog2log (pphy2mlog _ _ + _ * _) = e
      rw [mul_add_div hi, mul_add_mod hi, hloci, mul_comm, Nat.mod_add_div]
      exact hinv.left e he
  · intro j hj
    have hout := hinv.lt' _ (hplacelt j hj)
    have hnode := hlog.node_eq _ hout
    rw [hinv.right _ (hplacelt j hj)] at hnode
    rw [← hnode]
    show _ = (pphy2mlog _ _ + _ * _) / _
    rw [add_comm, mul_add_div (hloc j hj)]

end MyOperator.Eplb
