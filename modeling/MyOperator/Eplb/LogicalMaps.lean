import MyOperator.Eplb.Policy

/-!
# Logical maps

`compute_logical_maps` counts the replicas of every expert and lists the slots that they
are in, in ascending order.
-/

namespace MyOperator.Eplb

open Lib List Function

variable {n maxReplicas : Nat}

/-- Every slot holds one of `n` experts. -/
def HoldsExperts (n : Nat) (phy2log : List Int) : Prop := ∀ x ∈ phy2log, ∃ e < n, x = (e : Int)

/-- The physical slots of an expert. -/
def physicalSlots (phy2log : List Int) (expert : Int) : List Int :=
  (phy2log.zipIdx.filter fun slot => slot.1 = expert).map fun slot => (slot.2 : Int)

/-- A row of `logical_to_physical_map`. -/
def padSlots (maxReplicas : Nat) (slots : List Int) : List Int :=
  slots ++ replicate (maxReplicas - slots.length) (-1)

theorem length_physicalSlots (phy2log : List Int) (expert : Int) :
    (physicalSlots phy2log expert).length = phy2log.count expert := by
  have hfst : phy2log.zipIdx.map Prod.fst = phy2log := zipIdx_map_fst 0 phy2log
  rw [physicalSlots, length_map, ← countP_eq_length_filter]
  conv_rhs => rw [← hfst, List.count, countP_map]
  exact countP_congr fun slot _ => by simp

theorem logicalReplicaCount_spec {phy2log : List Int} (h : HoldsExperts n phy2log) :
    logicalReplicaCount n phy2log = .ok (row n fun e => phy2log.count (e : Int)) := by
  have hloop : ∀ (phy2log : List Int) (counts : Nat → Nat), HoldsExperts n phy2log →
      phy2log.foldlM (fun counts expert => do
        let cnt ← item counts (max expert 0)
        setItem counts (max expert 0) (cnt + (if 0 ≤ expert then 1 else 0))) (row n counts) =
      .ok (row n fun e => counts e + phy2log.count (e : Int)) := by
    intro phy2log
    induction phy2log with
    | nil => exact fun counts _ => rfl
    | cons x phy2log ih =>
      intro counts h
      obtain ⟨k, hk, rfl⟩ := h x mem_cons_self
      have hmax : max (k : Int) 0 = (k : Int) := max_eq_left (Int.natCast_nonneg k)
      rw [foldlM_cons, hmax, item_row hk, ok_bind, if_pos (Int.natCast_nonneg k),
        setItem_row hk, ok_bind, ih _ fun y hy => h y (mem_cons_of_mem _ hy)]
      refine congrArg Except.ok (row_congr fun e _ => ?_)
      rw [count_cons]
      by_cases he : e = k
      · rw [he, update_self, if_pos (beq_self_eq_true _)]
        omega
      · have hne : ((k : Int) == (e : Int)) = false := by
          rw [beq_eq_false_iff_ne]
          exact fun heq => he (by exact_mod_cast heq.symm)
        rw [update_of_ne he, hne]
        rfl
  unfold logicalReplicaCount
  rw [replicate_eq_row, hloop phy2log _ h]
  exact congrArg Except.ok (row_congr fun e _ => Nat.zero_add _)

theorem setItem_padSlots {slots : List Int} (h : slots.length < maxReplicas) (slot : Int) :
    setItem (padSlots maxReplicas slots) (slots.length : Int) slot =
      .ok (padSlots maxReplicas (slots ++ [slot])) := by
  have hlen : slots.length < (padSlots maxReplicas slots).length := by
    rw [padSlots, length_append, length_replicate]
    omega
  rw [setItem_natCast hlen]
  unfold padSlots
  rw [set_append_right _ _ le_rfl, Nat.sub_self, length_append, length_singleton, append_assoc]
  obtain ⟨d, hd⟩ := Nat.exists_eq_add_of_lt h
  have h1 : maxReplicas - slots.length = d + 1 := by omega
  have h2 : maxReplicas - (slots.length + 1) = d := by omega
  rw [h1, h2]
  rfl

theorem logicalToPhysical_spec {phy2log : List Int} (h : HoldsExperts n phy2log)
    (hmax : ∀ e < n, phy2log.count (e : Int) ≤ maxReplicas) :
    logicalToPhysical n maxReplicas phy2log =
      .ok (row n fun e => padSlots maxReplicas (physicalSlots phy2log e)) := by
  have hloop : ∀ (l : List (Int × Nat)) (slots : Nat → List Int),
      (∀ p ∈ l, ∃ e < n, p.1 = (e : Int)) →
      (∀ e < n, (slots e).length + l.countP (fun p => p.1 = (e : Int)) ≤ maxReplicas) →
      l.foldlM recordSlot (row n fun e => padSlots maxReplicas (slots e),
        row n fun e => (slots e).length) = .ok (row n fun e => padSlots maxReplicas (slots e ++
          (l.filter fun p => p.1 = (e : Int)).map fun p => (p.2 : Int)), row n fun e => (slots e ++
          (l.filter fun p => p.1 = (e : Int)).map fun p => (p.2 : Int)).length) := by
    intro l
    induction l with
    | nil =>
      intro slots _ _
      refine congrArg Except.ok (Prod.ext (row_congr fun e _ => ?_) (row_congr fun e _ => ?_))
      · exact congrArg _ (append_nil _).symm
      · exact congrArg _ (append_nil _).symm
    | cons p l ih =>
      intro slots hl hroom
      obtain ⟨k, hk, hp⟩ := hl p mem_cons_self
      have hlt : (slots k).length < maxReplicas := by
        have := hroom k hk
        rw [countP_cons_of_pos (by simpa using hp)] at this
        omega
      have hstep : recordSlot (row n fun e => padSlots maxReplicas (slots e),
          row n fun e => (slots e).length) p =
          .ok (row n fun e => padSlots maxReplicas (update slots k (slots k ++ [(p.2 : Int)]) e),
            row n fun e => (update slots k (slots k ++ [(p.2 : Int)]) e).length) := by
        unfold recordSlot
        rw [hp, if_neg (by omega)]
        rw [item_row hk, ok_bind, item_row hk, ok_bind, setItem_padSlots hlt, ok_bind,
          setItem_row hk, ok_bind, setItem_row hk]
        refine congrArg Except.ok (Prod.ext (row_congr fun e _ => ?_) (row_congr fun e _ => ?_))
        · by_cases he : e = k
          · rw [he, update_self, update_self]
          · rw [update_of_ne he, update_of_ne he]
        · by_cases he : e = k
          · rw [he, update_self, update_self, length_append]
            rfl
          · rw [update_of_ne he, update_of_ne he]
      have hnext : ∀ e, update slots k (slots k ++ [(p.2 : Int)]) e ++
          (l.filter fun p => p.1 = (e : Int)).map (fun p => (p.2 : Int)) =
          slots e ++ ((p :: l).filter fun p => p.1 = (e : Int)).map fun p => (p.2 : Int) := by
        intro e
        by_cases he : e = k
        · rw [he, update_self, filter_cons_of_pos (by simpa using hp), map_cons,
            append_assoc]
          rfl
        · have hne : ¬ p.1 = (e : Int) := by
            rw [hp]
            exact fun heq => he (by exact_mod_cast heq.symm)
          rw [update_of_ne he, filter_cons_of_neg (by simpa using hne)]
      rw [foldlM_cons, hstep, ok_bind, ih _ fun q hq => hl q (mem_cons_of_mem _ hq)]
      · refine congrArg Except.ok (Prod.ext (row_congr fun e _ => ?_) (row_congr fun e _ => ?_))
        · rw [hnext]
        · rw [hnext]
      · intro e he
        have := hroom e he
        by_cases hek : e = k
        · rw [hek, countP_cons_of_pos (by simpa using hp)] at this
          rw [hek, update_self, length_append, length_singleton]
          omega
        · have hne : ¬ p.1 = (e : Int) := by
            rw [hp]
            exact fun heq => hek (by exact_mod_cast heq.symm)
          rw [countP_cons_of_neg (by simpa using hne)] at this
          rw [update_of_ne hek]
          exact this
  have hcount : ∀ e : Int, phy2log.zipIdx.countP (fun p => p.1 = e) = phy2log.count e := by
    intro e
    rw [← length_physicalSlots, physicalSlots, length_map, countP_eq_length_filter]
  unfold logicalToPhysical
  have hinit : (replicate n (replicate maxReplicas (-1 : Int)), replicate n 0) =
      (row n fun _ => padSlots maxReplicas [], row n fun _ => ([] : List Int).length) := by
    exact Prod.ext (replicate_eq_row _) (replicate_eq_row _)
  rw [hinit, hloop phy2log.zipIdx (fun _ => []) ?_ ?_, ok_bind]
  · rfl
  · intro p hp
    obtain ⟨e, he, hx⟩ := h p.1 (fst_mem_of_mem_zipIdx hp)
    exact ⟨e, he, hx⟩
  · intro e he
    rw [hcount, length_nil, Nat.zero_add]
    exact hmax e he

theorem computeLogicalMaps_spec {maps : List (List Int)} (hmaps : maps ≠ []) (hn : 0 < n)
    (h : ∀ phy2log ∈ maps, HoldsExperts n phy2log) : ∃ maxReplicas log2phy,
      computeLogicalMaps maps n =
        .ok (log2phy, maps.map fun phy2log => row n fun e => phy2log.count (e : Int)) ∧
      log2phy = maps.map fun phy2log =>
        row n fun e => padSlots maxReplicas (physicalSlots phy2log e) := by
  have hcounts := mapM_ok (f := logicalReplicaCount n) (l := maps)
    (g := fun phy2log => row n fun e => phy2log.count (e : Int))
    fun phy2log hmem => logicalReplicaCount_spec (h phy2log hmem)
  have hne : (maps.map fun phy2log => row n fun e => phy2log.count (e : Int)).flatten ≠ [] := by
    obtain ⟨phy2log, hmem⟩ := exists_mem_of_ne_nil maps hmaps
    have : phy2log.count ((0 : Nat) : Int) ∈
        (maps.map fun phy2log => row n fun e => phy2log.count (e : Int)).flatten :=
      mem_flatten.mpr ⟨_, mem_map_of_mem hmem, mem_row.mpr ⟨0, hn, rfl⟩⟩
    exact ne_nil_of_mem this
  obtain ⟨maxReplicas, hmax⟩ : ∃ m,
      (maps.map fun phy2log => row n fun e => phy2log.count (e : Int)).flatten.max? = some m :=
    Option.isSome_iff_exists.mp (by rw [isSome_max?_iff]; exact hne)
  have hle := (max?_eq_some_iff.mp hmax).2
  refine ⟨maxReplicas, _, ?_, rfl⟩
  unfold computeLogicalMaps
  rw [hcounts, ok_bind, hmax]
  dsimp only
  rw [mapM_ok (g := fun phy2log => row n fun e => padSlots maxReplicas (physicalSlots phy2log e))
    fun phy2log hmem => logicalToPhysical_spec (h phy2log hmem) fun e he => ?_]
  · rfl
  · exact hle _ (mem_flatten.mpr ⟨_, mem_map_of_mem hmem, mem_row.mpr ⟨e, he, rfl⟩⟩)

end MyOperator.Eplb
