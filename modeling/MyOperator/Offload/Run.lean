import MyOperator.Offload.Conservation

/-!
# Runs of the CPU offloading manager

Any calls in any order, where the hashes of a `prepare_store` are distinct and what is
completed was prepared. In every run each allocated block has one place, and no block
that is read or being stored is evicted.
-/

namespace MyOperator.Offload

open Lib List

variable {H F : Type} [DecidableEq H]

/-- A call of the manager. -/
inductive Call (H : Type)
  | lookup (blockHashes : List H)
  | prepareLoad (blockHashes : List H)
  | touch (blockHashes : List H)
  | completeLoad (blockHashes : List H)
  | prepareStore (blockHashes : List H)
  | completeStore (blockHashes : List H) (success : Bool)
  | takeEvents
  deriving DecidableEq, Repr

/-- The manager, and the stores and loads that were prepared and are not complete. -/
structure OffloadRun (H F : Type) where
  manager : CPUOffloadingManager H F
  storing : Finset H := ∅
  loading : Multiset H := 0

namespace OffloadRun

section
variable [Repr H] [PyFloat F]

/-- A call that its contract allows and that returns. -/
def step? (r : OffloadRun H F) : Call H → Option (OffloadRun H F)
  | .lookup _ => some r
  | .prepareLoad blockHashes =>
    match r.manager.prepareLoad blockHashes with
    | .ok (_, manager) => some { r with manager, loading := blockHashes + r.loading }
    | .error _ => none
  | .touch blockHashes => some { r with manager := r.manager.touch blockHashes }
  | .completeLoad blockHashes =>
    if (blockHashes : Multiset H) ≤ r.loading then
      match r.manager.completeLoad blockHashes with
      | .ok manager => some { r with manager, loading := r.loading - blockHashes }
      | .error _ => none
    else none
  | .prepareStore blockHashes =>
    if blockHashes.Nodup then
      match r.manager.prepareStore blockHashes with
      | .ok (some out, manager) =>
        some { r with manager, storing := r.storing ∪ out.blockHashesToStore.toFinset }
      | .ok (none, manager) => some { r with manager }
      | .error _ => none
    else none
  | .completeStore blockHashes success =>
    if blockHashes.Nodup ∧ ∀ h ∈ blockHashes, h ∈ r.storing then
      some { r with
        manager := r.manager.completeStore blockHashes success
        storing := r.storing \ blockHashes.toFinset }
    else none
  | .takeEvents => some { r with manager := r.manager.takeEvents.2 }

/-- Calls in a row. -/
def steps? (r : OffloadRun H F) (calls : List (Call H)) : Option (OffloadRun H F) :=
  calls.foldlM step? r

end

/-- What `ref_cnt` says about the stores and loads under way. -/
structure Inv (r : OffloadRun H F) : Prop where
  conserved : r.manager.Conserved []
  storing : ∀ h ∈ r.storing, ∃ b, r.manager.policy.get h = some b ∧ b.refCnt = -1
  loading : ∀ h b, r.manager.policy.get h = some b → h ∉ r.storing →
    b.refCnt = cInt32 (r.loading.count h) ∧ r.loading.count h ≤ 2 ^ 31
  idle : ∀ h, r.manager.policy.get h = none ∨ h ∈ r.storing → r.loading.count h = 0

variable {r r' : OffloadRun H F} {blockHash : H} {block : BlockStatus}

variable {m' m : CPUOffloadingManager H F} {blockHashes : List H}

theorem Inv.same (hr : r.Inv) (hperm : m'.policy.entries.Perm r.manager.policy.entries)
    (hfree : m'.freeList = r.manager.freeList)
    (halloc : m'.numAllocatedBlocks = r.manager.numAllocatedBlocks) :
    ({ r with manager := m' } : OffloadRun H F).Inv := by
  have hget := CachePolicy.get_perm hr.conserved.wf hperm
  refine ⟨⟨?_, hr.conserved.wf.perm hperm⟩, ?_, ?_, ?_⟩
  · have hids : ([] ++ m'.policy.blockIds).Perm ([] ++ r.manager.policy.blockIds) := hperm.map _
    show Covers m'.freeList _ m'.numAllocatedBlocks
    rw [hfree, halloc]
    exact hr.conserved.covers.congr (.refl _) hids
  · intro h hmem
    show ∃ b, m'.policy.get h = some b ∧ _
    rw [hget]
    exact hr.storing h hmem
  · intro h b hb hmem
    exact hr.loading h b ((hget h).symm.trans hb) hmem
  · intro h hh
    refine hr.idle h (hh.imp_left fun hnone => ?_)
    exact (hget h).symm.trans hnone

theorem Inv.setRefCnt {storing : Finset H} {loading : Multiset H} {x : Int} (hr : r.Inv)
    (hget : r.manager.policy.get blockHash = some block)
    (hothers : ∀ k, k ≠ blockHash → loading.count k = r.loading.count k ∧
      (k ∈ storing ↔ k ∈ r.storing))
    (hstoring : blockHash ∉ storing) (hx : cInt32 x = cInt32 (loading.count blockHash))
    (hcount : loading.count blockHash ≤ 2 ^ 31) (f : BlockStatus → BlockStatus)
    (hf : f block = block.setRefCnt x) :
    ({ manager := { r.manager with policy := r.manager.policy.modify blockHash f },
       storing, loading } : OffloadRun H F).Inv := by
  obtain ⟨hwf, hget'⟩ := CachePolicy.get_modify hr.conserved.wf hget f
  obtain ⟨rest, hold, hnew⟩ := CachePolicy.modify_perm hget f
  refine ⟨hr.conserved.policy ?_ hwf, ?_, ?_, ?_⟩
  · have hid : (f block).blockId = block.blockId := by rw [hf]; rfl
    refine (hnew.map fun e => e.2.blockId).trans ?_
    rw [map_cons, hid]
    exact (hold.map fun e => e.2.blockId).symm
  · intro k hk
    have hne : k ≠ blockHash := fun heq => hstoring (heq ▸ hk)
    show ∃ b, CachePolicy.get k (r.manager.policy.modify blockHash f) = some b ∧ _
    rw [hget', if_neg hne]
    exact hr.storing k ((hothers k hne).2.mp hk)
  · intro k b hb hk
    replace hb := (hget' k).symm.trans hb
    by_cases hne : k = blockHash
    · rw [if_pos hne, hf] at hb
      cases hb
      rw [hne]
      exact ⟨hx, hcount⟩
    · rw [if_neg hne] at hb
      show b.refCnt = cInt32 (loading.count k) ∧ loading.count k ≤ 2 ^ 31
      rw [(hothers k hne).1]
      exact hr.loading k b hb fun hmem => hk ((hothers k hne).2.mpr hmem)
  · intro k hk
    have hne : k ≠ blockHash := by
      rintro rfl
      rcases hk with hk | hk
      · have := (hget' k).symm.trans hk
        rw [if_pos rfl] at this
        cases this
      · exact hstoring hk
    show loading.count k = 0
    rw [(hothers k hne).1]
    refine hr.idle k (hk.imp (fun hnone => ?_) (hothers k hne).2.mp)
    have := (hget' k).symm.trans hnone
    rwa [if_neg hne] at this

/-- The blocks of `r` are in `m'` with their ids. -/
def KeepsBlocks (m m' : CPUOffloadingManager H F) : Prop :=
  ∀ h b, m.policy.get h = some b → ∃ b', m'.policy.get h = some b' ∧ b'.blockId = b.blockId

theorem KeepsBlocks.trans {m1 m2 : CPUOffloadingManager H F} (h1 : KeepsBlocks m m1)
    (h2 : KeepsBlocks m1 m2) : KeepsBlocks m m2 := by
  intro h b hb
  obtain ⟨b1, hb1, hid1⟩ := h1 h b hb
  obtain ⟨b2, hb2, hid2⟩ := h2 h b1 hb1
  exact ⟨b2, hb2, hid2.trans hid1⟩

theorem keepsBlocks_of_perm (hwf : m.policy.WF) (h : m'.policy.entries.Perm m.policy.entries) :
    KeepsBlocks m m' := fun k b hb => ⟨b, (CachePolicy.get_perm hwf h k).trans hb, rfl⟩

theorem keepsBlocks_modify (hwf : m.policy.WF) (h : m.policy.get blockHash = some block)
    (f : BlockStatus → BlockStatus) (hf : (f block).blockId = block.blockId) :
    KeepsBlocks m { m with policy := m.policy.modify blockHash f } := by
  intro k b hb
  by_cases hk : k = blockHash
  · refine ⟨f block, ((CachePolicy.get_modify hwf h f).2 k).trans (if_pos hk), hf.trans ?_⟩
    rw [hk, h] at hb
    cases hb
    rfl
  · exact ⟨b, (((CachePolicy.get_modify hwf h f).2 k).trans (if_neg hk)).trans hb, rfl⟩

/-- A step that leaves every block where it is. -/
structure Keeps (r r' : OffloadRun H F) : Prop where
  inv : r'.Inv
  blocks : KeepsBlocks r.manager r'.manager
  numBlocks : r'.manager.numBlocks = r.manager.numBlocks

theorem Keeps.refl (hr : r.Inv) : r.Keeps r := ⟨hr, fun _ b hb => ⟨b, hb, rfl⟩, rfl⟩

theorem Keeps.trans {r1 : OffloadRun H F} (h : r.Keeps r1) (h' : r1.Keeps r') : r.Keeps r' :=
  ⟨h'.inv, h.blocks.trans h'.blocks, h'.numBlocks.trans h.numBlocks⟩

theorem Inv.refCnt (hr : r.Inv) (hget : r.manager.policy.get blockHash = some block)
    (hmem : blockHash ∈ r.storing) : block.refCnt = -1 := by
  obtain ⟨b, hb, hcnt⟩ := hr.storing blockHash hmem
  rw [hget] at hb
  cases hb
  exact hcnt

/-! ## Loads -/

theorem prepareLoadBlock_keeps [Repr H] {b : BlockStatus} (hr : r.Inv)
    (h : r.manager.prepareLoadBlock blockHash = .ok (b, m')) :
    r.Keeps { r with manager := m', loading := blockHash ::ₘ r.loading } := by
  unfold CPUOffloadingManager.prepareLoadBlock at h
  split at h
  · cases h
  · rename_i block hget
    split at h
    · rename_i hready
      cases h
      have hready : 0 ≤ block.refCnt := of_decide_eq_true hready
      have hstoring : blockHash ∉ r.storing := by
        intro hmem
        have hcnt := hr.refCnt hget hmem
        omega
      obtain ⟨hcnt, hle⟩ := hr.loading blockHash block hget hstoring
      rw [hcnt] at hready
      obtain ⟨hlt, heq⟩ := cInt32_natCast hle hready
      refine ⟨hr.setRefCnt hget (fun k hk => ⟨?_, .rfl⟩) hstoring ?_ ?_ _ rfl,
        keepsBlocks_modify hr.conserved.wf hget _ rfl, rfl⟩
      · exact Multiset.count_cons_of_ne hk _
      · rw [Multiset.count_cons_self, hcnt, heq]
        rfl
      · rw [Multiset.count_cons_self]
        exact hlt
    · cases h

theorem prepareLoad_keeps [Repr H] {spec : CPULoadStoreSpec} (hr : r.Inv)
    (h : r.manager.prepareLoad blockHashes = .ok (spec, m')) :
    r.Keeps { r with manager := m', loading := blockHashes + r.loading } := by
  -- the blocks collected so far do not matter
  have hloop : ∀ (blockHashes : List H) (r : OffloadRun H F) (acc acc' : List BlockStatus)
      (m' : CPUOffloadingManager H F), r.Inv → blockHashes.foldlM (fun s blockHash => do
        let t ← CPUOffloadingManager.prepareLoadBlock s.2 blockHash
        return (s.1 ++ [t.1], t.2)) (acc, r.manager) = .ok (acc', m') →
      r.Keeps { r with manager := m', loading := blockHashes + r.loading } := by
    intro blockHashes
    induction blockHashes with
    | nil =>
      intro r acc acc' m' hr hfold
      cases hfold
      rw [Multiset.coe_nil, Multiset.zero_add]
      exact .refl hr
    | cons blockHash blockHashes ih =>
      intro r acc acc' m' hr hfold
      obtain ⟨⟨acc1, m1⟩, hstep, hfold⟩ := bind_ok hfold
      obtain ⟨⟨b, m2⟩, hblock, hstep⟩ := bind_ok hstep
      cases hstep
      have hstep := prepareLoadBlock_keeps hr hblock
      rw [← Multiset.cons_coe, Multiset.cons_add, ← Multiset.add_cons]
      exact hstep.trans (ih _ _ _ _ hstep.inv hfold)
  obtain ⟨⟨blocks, m1⟩, hfold, h⟩ := bind_ok h
  cases h
  exact hloop blockHashes r [] blocks m' hr hfold

theorem completeLoadBlock_keeps [Repr H] (hr : r.Inv) (hmem : blockHash ∈ r.loading)
    (h : r.manager.completeLoadBlock blockHash = .ok m') :
    r.Keeps { r with manager := m', loading := r.loading.erase blockHash } := by
  unfold CPUOffloadingManager.completeLoadBlock at h
  split at h
  · cases h
  · rename_i block hget
    split at h
    · rename_i hpos
      cases h
      have hcountpos := Multiset.count_pos.mpr hmem
      have hstoring : blockHash ∉ r.storing := by
        intro hmem'
        have := hr.idle blockHash (.inr hmem')
        omega
      obtain ⟨hcnt, hle⟩ := hr.loading blockHash block hget hstoring
      rw [hcnt] at hpos
      obtain ⟨hlt, heq⟩ := cInt32_natCast hle (Int.le_of_lt hpos)
      refine ⟨hr.setRefCnt hget (fun k hk => ⟨?_, .rfl⟩) hstoring ?_ ?_ _ rfl,
        keepsBlocks_modify hr.conserved.wf hget _ rfl, rfl⟩
      · exact Multiset.count_erase_of_ne hk _
      · rw [Multiset.count_erase_self, hcnt, heq, Nat.cast_sub hcountpos]
        rfl
      · rw [Multiset.count_erase_self]
        omega
    · cases h

theorem completeLoad_keeps [Repr H] (hr : r.Inv) (hle : (blockHashes : Multiset H) ≤ r.loading)
    (h : r.manager.completeLoad blockHashes = .ok m') :
    r.Keeps { r with manager := m', loading := r.loading - blockHashes } := by
  induction blockHashes generalizing r with
  | nil =>
    cases h
    rw [Multiset.coe_nil, Multiset.sub_zero]
    exact .refl hr
  | cons blockHash blockHashes ih =>
    obtain ⟨m1, hblock, h⟩ := bind_ok h
    rw [← Multiset.cons_coe] at hle
    have hmem : blockHash ∈ r.loading := Multiset.mem_of_le hle (Multiset.mem_cons_self _ _)
    have hstep := completeLoadBlock_keeps hr hmem hblock
    have hle' : (blockHashes : Multiset H) ≤ r.loading.erase blockHash := by
      have := Multiset.erase_le_erase blockHash hle
      rwa [Multiset.erase_cons_head] at this
    rw [← Multiset.cons_coe, Multiset.sub_cons]
    exact hstep.trans (ih hstep.inv hle' h)

/-! ## Stores -/

theorem storedBlock_keeps (acc : List H) (hr : r.Inv) (hmem : blockHash ∈ r.storing) :
    r.Keeps { r with
      manager := (CPUOffloadingManager.storedBlock (acc, r.manager) blockHash).2
      storing := r.storing.erase blockHash } := by
  obtain ⟨block, hget, hcnt⟩ := hr.storing blockHash hmem
  have hready : block.isReady = false := decide_eq_false (by omega)
  have hidle := hr.idle blockHash (.inr hmem)
  simp only [CPUOffloadingManager.storedBlock, hget, hready, Bool.not_false, if_true]
  refine ⟨hr.setRefCnt hget (fun k hk => ⟨rfl, ?_⟩) (Finset.notMem_erase _ _) ?_ ?_ _ rfl,
    keepsBlocks_modify hr.conserved.wf hget _ rfl, rfl⟩
  · rw [Finset.mem_erase]
    exact ⟨fun hk' => hk'.2, fun hk' => ⟨hk, hk'⟩⟩
  · rw [hidle]
    rfl
  · rw [hidle]
    exact Nat.zero_le _

theorem notStoredBlock_inv (hr : r.Inv) (hmem : blockHash ∈ r.storing) : ({ r with
      manager := r.manager.notStoredBlock blockHash
      storing := r.storing.erase blockHash } : OffloadRun H F).Inv ∧
      (∀ k, k ≠ blockHash →
        (r.manager.notStoredBlock blockHash).policy.get k = r.manager.policy.get k) ∧
      (r.manager.notStoredBlock blockHash).numBlocks = r.manager.numBlocks := by
  obtain ⟨block, hget, hcnt⟩ := hr.storing blockHash hmem
  have hready : block.isReady = false := decide_eq_false (by omega)
  have hidle := hr.idle blockHash (.inr hmem)
  have hperm := CachePolicy.remove_perm hget
  obtain ⟨hwf, hget'⟩ := CachePolicy.get_remove hr.conserved.wf hget
  simp only [CPUOffloadingManager.notStoredBlock, hget, hready]
  refine ⟨⟨⟨?_, hwf⟩, ?_, ?_, ?_⟩, fun k hk => (hget' k).trans (if_neg hk), rfl⟩
  · exact (hr.conserved.covers.congr (.refl _) (hperm.map fun e => e.2.blockId).symm).give
  · intro k hk
    obtain ⟨hne, hk⟩ := Finset.mem_erase.mp hk
    show ∃ b, CachePolicy.get k (r.manager.policy.remove blockHash) = some b ∧ _
    rw [hget', if_neg hne]
    exact hr.storing k hk
  · intro k b hb hk
    replace hb := (hget' k).symm.trans hb
    by_cases hne : k = blockHash
    · rw [if_pos hne] at hb
      cases hb
    · rw [if_neg hne] at hb
      exact hr.loading k b hb fun hmem' => hk (Finset.mem_erase.mpr ⟨hne, hmem'⟩)
  · intro k hk
    by_cases hne : k = blockHash
    · rw [hne]
      exact hidle
    · refine hr.idle k (hk.imp (fun hnone => ?_) fun hmem' => (Finset.mem_erase.mp hmem').2)
      have := (hget' k).symm.trans hnone
      rwa [if_neg hne] at this

theorem prepareStore_inv [PyFloat F] {o : PrepareStoreOutput H} (hr : r.Inv)
    (hnodup : blockHashes.Nodup) (h : r.manager.prepareStore blockHashes = .ok (some o, m')) :
    ({ r with manager := m', storing := r.storing ∪ o.blockHashesToStore.toFinset } :
      OffloadRun H F).Inv ∧ m'.numBlocks = r.manager.numBlocks ∧
      ∀ k b, r.manager.policy.get k = some b → b.refCnt ≠ 0 → m'.policy.get k = some b := by
  have hwf := hr.conserved.wf
  rcases CPUOffloadingManager.prepareStore_spec hnodup hwf h with ⟨hout, -⟩ | hstores
  · cases hout
  obtain ⟨o', evicted, stored, kept, hout, hold, hnew, hev, hst, hkeys, habsent, hnum, hcons⟩ :=
    hstores
  cases hout
  have hc := hcons hr.conserved
  have hget : ∀ k b, r.manager.policy.get k = some b ↔ (k, b) ∈ evicted ++ kept := fun k b =>
    (CachePolicy.mem_entries hwf).symm.trans hold.mem_iff
  have hget' : ∀ k b, m'.policy.get k = some b ↔ (k, b) ∈ stored ++ kept := fun k b =>
    (CachePolicy.mem_entries hc.wf).symm.trans hnew.mem_iff
  have hkeep : ∀ k b, r.manager.policy.get k = some b → b.refCnt ≠ 0 →
      m'.policy.get k = some b := by
    intro k b hb hcnt
    rcases mem_append.mp ((hget k b).mp hb) with hmem | hmem
    · exact absurd (hev _ hmem) hcnt
    · exact (hget' k b).mpr (mem_append_right _ hmem)
  have hnotStoring : ∀ k b, r.manager.policy.get k = some b → b.refCnt = 0 → k ∉ r.storing := by
    intro k b hb hz hmem
    have hcnt := hr.refCnt hb hmem
    omega
  have hstored : ∀ k b, (k, b) ∈ stored → k ∈ o.blockHashesToStore := by
    intro k b hmem
    rw [← hkeys]
    exact mem_map_of_mem hmem
  refine ⟨⟨hc, ?_, ?_, ?_⟩, hnum, hkeep⟩
  · intro k hk
    rcases Finset.mem_union.mp hk with hk | hk
    · obtain ⟨b, hb, hcnt⟩ := hr.storing k hk
      exact ⟨b, hkeep k b hb (by omega), hcnt⟩
    · rw [mem_toFinset, ← hkeys] at hk
      obtain ⟨e, he, rfl⟩ := mem_map.mp hk
      exact ⟨e.2, (hget' _ _).mpr (mem_append_left _ he), hst e he⟩
  · intro k b hb hk
    rw [Finset.mem_union, mem_toFinset, not_or] at hk
    rcases mem_append.mp ((hget' k b).mp hb) with hmem | hmem
    · exact absurd (hstored k b hmem) hk.2
    · exact hr.loading k b ((hget k b).mpr (mem_append_right _ hmem)) hk.1
  · intro k hk
    rcases hk with hk | hk
    · cases hb : r.manager.policy.get k with
      | none => exact hr.idle k (.inl hb)
      | some b =>
        -- the block is gone, so nobody was reading it
        have hz : b.refCnt = 0 := by
          by_contra hcnt
          rw [hkeep k b hb hcnt] at hk
          cases hk
        obtain ⟨hcnt, hle⟩ := hr.loading k b hb (hnotStoring k b hb hz)
        obtain ⟨-, heq⟩ := cInt32_natCast hle (by omega)
        show r.loading.count k = 0
        omega
    · rcases Finset.mem_union.mp hk with hk | hk
      · exact hr.idle k (.inr hk)
      · exact hr.idle k (.inl (habsent k (mem_toFinset.mp hk)))

theorem mem_erase_rest {rest : List H} {storing : Finset H} (hnot : blockHash ∉ rest)
    (hmem : ∀ k ∈ blockHash :: rest, k ∈ storing) : ∀ k ∈ rest, k ∈ storing.erase blockHash := by
  intro k hk
  have hne : k ≠ blockHash := fun heq => hnot (heq ▸ hk)
  exact Finset.mem_erase.mpr ⟨hne, hmem k (mem_cons_of_mem _ hk)⟩

theorem completeStore_success_keeps (hr : r.Inv) (hnodup : blockHashes.Nodup)
    (hmem : ∀ k ∈ blockHashes, k ∈ r.storing) :
    r.Keeps { r with
      manager := r.manager.completeStore blockHashes true
      storing := r.storing \ blockHashes.toFinset } := by
  have hloop : ∀ (blockHashes acc : List H) (r : OffloadRun H F), r.Inv → blockHashes.Nodup →
      (∀ k ∈ blockHashes, k ∈ r.storing) →
      r.Keeps { r with
        manager := (blockHashes.foldl CPUOffloadingManager.storedBlock (acc, r.manager)).2
        storing := r.storing \ blockHashes.toFinset } := by
    intro blockHashes
    induction blockHashes with
    | nil =>
      intro acc r hr _ _
      rw [toFinset_nil, Finset.sdiff_empty]
      exact .refl hr
    | cons blockHash blockHashes ih =>
      intro acc r hr hnodup hmem
      obtain ⟨hnot, hnodup⟩ := nodup_cons.mp hnodup
      have hstep := storedBlock_keeps acc hr (hmem _ mem_cons_self)
      rw [toFinset_cons, Finset.sdiff_insert, ← Finset.erase_sdiff_comm]
      exact hstep.trans (ih (CPUOffloadingManager.storedBlock (acc, r.manager) blockHash).1 _
        hstep.inv hnodup (mem_erase_rest hnot hmem))
  have hdone := hloop blockHashes [] r hr hnodup hmem
  obtain ⟨events, hevents⟩ :=
    (blockHashes.foldl CPUOffloadingManager.storedBlock ([], r.manager)).2.appendEvent_eq
      (blockHashes.foldl CPUOffloadingManager.storedBlock ([], r.manager)).1 false
  have heq : r.manager.completeStore blockHashes true =
      { (blockHashes.foldl CPUOffloadingManager.storedBlock ([], r.manager)).2 with events } :=
    hevents
  rw [heq]
  exact ⟨hdone.inv.same (.refl _) rfl rfl, hdone.blocks, hdone.numBlocks⟩

theorem completeStore_failure_inv (hr : r.Inv) (hnodup : blockHashes.Nodup)
    (hmem : ∀ k ∈ blockHashes, k ∈ r.storing) : ({ r with
      manager := r.manager.completeStore blockHashes false
      storing := r.storing \ blockHashes.toFinset } : OffloadRun H F).Inv ∧
      (∀ k, k ∉ blockHashes →
        (r.manager.completeStore blockHashes false).policy.get k = r.manager.policy.get k) ∧
      (r.manager.completeStore blockHashes false).numBlocks = r.manager.numBlocks := by
  show ({ r with
      manager := blockHashes.foldl CPUOffloadingManager.notStoredBlock r.manager
      storing := r.storing \ blockHashes.toFinset } : OffloadRun H F).Inv ∧
      (∀ k, k ∉ blockHashes →
        (blockHashes.foldl CPUOffloadingManager.notStoredBlock r.manager).policy.get k =
          r.manager.policy.get k) ∧
      (blockHashes.foldl CPUOffloadingManager.notStoredBlock r.manager).numBlocks =
        r.manager.numBlocks
  induction blockHashes generalizing r with
  | nil =>
    rw [toFinset_nil, Finset.sdiff_empty]
    exact ⟨hr, fun _ _ => rfl, rfl⟩
  | cons blockHash blockHashes ih =>
    obtain ⟨hnot, hnodup⟩ := nodup_cons.mp hnodup
    obtain ⟨hr1, hk1, hn1⟩ := notStoredBlock_inv hr (hmem _ mem_cons_self)
    obtain ⟨hr2, hk2, hn2⟩ := ih hr1 hnodup (mem_erase_rest hnot hmem)
    refine ⟨?_, ?_, hn2.trans hn1⟩
    · rw [toFinset_cons, Finset.sdiff_insert, ← Finset.erase_sdiff_comm]
      exact hr2
    · intro k hk
      rw [mem_cons, not_or] at hk
      exact (hk2 k hk.2).trans (hk1 k hk.1)

/-! ## Runs -/

/-- The call evicts no block that is read or being stored. Only the failure of its own
store removes such a block. -/
def KeepsBlocksInUse (r r' : OffloadRun H F) (call : Call H) : Prop :=
  ∀ h b, r.manager.policy.get h = some b → 0 < b.refCnt ∨ h ∈ r.storing →
    (∃ b', r'.manager.policy.get h = some b' ∧ b'.blockId = b.blockId) ∨
    (h ∈ r.storing ∧ ∃ blockHashes, call = .completeStore blockHashes false ∧ h ∈ blockHashes)

theorem Keeps.step {call : Call H} (h : r.Keeps r') :
    r'.Inv ∧ r.KeepsBlocksInUse r' call ∧ r'.manager.numBlocks = r.manager.numBlocks :=
  ⟨h.inv, fun k b hb _ => .inl (h.blocks k b hb), h.numBlocks⟩

theorem step?_inv [Repr H] [PyFloat F] {call : Call H} (hr : r.Inv) (h : r.step? call = some r') :
    r'.Inv ∧ r.KeepsBlocksInUse r' call ∧ r'.manager.numBlocks = r.manager.numBlocks := by
  cases call with
  | lookup blockHashes =>
    cases h
    exact (Keeps.refl hr).step
  | prepareLoad blockHashes =>
    simp only [step?] at h
    split at h
    · rename_i spec m' hload
      cases h
      exact (prepareLoad_keeps hr hload).step
    · cases h
  | touch blockHashes =>
    cases h
    have hperm := CachePolicy.touch_perm hr.conserved.wf blockHashes
    exact Keeps.step ⟨hr.same hperm rfl rfl, keepsBlocks_of_perm hr.conserved.wf hperm, rfl⟩
  | completeLoad blockHashes =>
    simp only [step?] at h
    split at h
    · rename_i hle
      split at h
      · rename_i m' hload
        cases h
        exact (completeLoad_keeps hr hle hload).step
      · cases h
    · cases h
  | prepareStore blockHashes =>
    simp only [step?] at h
    split at h
    · rename_i hnodup
      split at h
      · rename_i o m' hstore
        cases h
        obtain ⟨hr', hnum, hkeep⟩ := prepareStore_inv hr hnodup hstore
        refine ⟨hr', fun k b hb huse => .inl ⟨b, hkeep k b hb ?_, rfl⟩, hnum⟩
        rcases huse with hpos | hmem
        · omega
        · have hcnt := hr.refCnt hb hmem
          omega
      · rename_i m' hstore
        cases h
        rcases CPUOffloadingManager.prepareStore_spec hnodup hr.conserved.wf hstore with
          ⟨-, rfl⟩ | ⟨o', -, -, -, hout, -⟩
        · exact (Keeps.refl hr).step
        · cases hout
      · cases h
    · cases h
  | completeStore blockHashes success =>
    simp only [step?] at h
    split at h
    · rename_i hallowed
      cases h
      obtain ⟨hnodup, hmem⟩ := hallowed
      cases success with
      | true =>
        exact (completeStore_success_keeps hr hnodup hmem).step
      | false =>
        obtain ⟨hr', hkeep, hnum⟩ := completeStore_failure_inv hr hnodup hmem
        refine ⟨hr', fun k b hb _ => ?_, hnum⟩
        by_cases hk : k ∈ blockHashes
        · exact .inr ⟨hmem k hk, blockHashes, rfl, hk⟩
        · exact .inl ⟨b, (hkeep k hk).trans hb, rfl⟩
    · cases h
  | takeEvents =>
    cases h
    have hblocks : r.manager.takeEvents.2.policy = r.manager.policy ∧
        r.manager.takeEvents.2.freeList = r.manager.freeList ∧
        r.manager.takeEvents.2.numAllocatedBlocks = r.manager.numAllocatedBlocks ∧
        r.manager.takeEvents.2.numBlocks = r.manager.numBlocks := by
      unfold CPUOffloadingManager.takeEvents
      split
      · exact ⟨rfl, rfl, rfl, rfl⟩
      · exact ⟨rfl, rfl, rfl, rfl⟩
    obtain ⟨hpolicy, hfree, halloc, hnum⟩ := hblocks
    have hperm : r.manager.takeEvents.2.policy.entries.Perm r.manager.policy.entries := by
      rw [hpolicy]
    exact Keeps.step ⟨hr.same hperm hfree halloc, keepsBlocks_of_perm hr.conserved.wf hperm, hnum⟩

end OffloadRun

/-- The runs of a manager built by `__init__`. -/
def offloadRuns (H F : Type) [DecidableEq H] [Repr H] [PyFloat F] (blockSize numBlocks : Nat)
    (cachePolicy : CachePolicyName) (enableEvents : Bool) : TSys (OffloadRun H F) where
  init r := r = { manager := .init blockSize numBlocks cachePolicy enableEvents }
  step r r' := ∃ call, r.step? call = some r'

variable [Repr H] [PyFloat F] {blockSize numBlocks : Nat} {cachePolicy : CachePolicyName}
  {enableEvents : Bool}

theorem offloadRuns_inductive :
    (offloadRuns H F blockSize numBlocks cachePolicy enableEvents).Inductive
      fun r => r.Inv ∧ r.manager.numBlocks = numBlocks where
  base r hinit := by
    cases hinit
    have hentries := CachePolicy.init_entries (H := H) (F := F) cachePolicy numBlocks
    have hnone : ∀ k : H, (CachePolicy.init cachePolicy numBlocks : CachePolicy H F).get k = none := by
      intro k
      rw [CachePolicy.get_eq, hentries]
      rfl
    refine ⟨⟨⟨?_, ?_⟩, nofun, ?_, fun k _ => Multiset.count_zero k⟩, rfl⟩
    · show Covers [] ([] ++ CachePolicy.blockIds (CachePolicy.init cachePolicy numBlocks)) 0
      rw [CachePolicy.blockIds, hentries]
      exact .empty
    · show (CachePolicy.entries (CachePolicy.init cachePolicy numBlocks)).map Prod.fst |>.Nodup
      rw [hentries]
      exact nodup_nil
    · intro k b hb
      have := (hnone k).symm.trans hb
      cases this
  step r r' hr hstep := by
    obtain ⟨call, hcall⟩ := hstep
    obtain ⟨hinv, -, hnum⟩ := OffloadRun.step?_inv hr.1 hcall
    exact ⟨hinv, hnum.trans hr.2⟩

/-- The free list and the ids owned by the policy share no id, hold none twice and are
together the allocated ids; no two hashes own the same id. -/
structure BlocksPartitioned (m : CPUOffloadingManager H F) : Prop where
  disjoint : m.freeList.Disjoint m.policy.blockIds
  nodupFree : m.freeList.Nodup
  nodupOwned : m.policy.blockIds.Nodup
  allocated : ∀ i, i ∈ m.freeList ∨ i ∈ m.policy.blockIds ↔ i < m.numAllocatedBlocks
  owner : ∀ h h' b b', m.policy.get h = some b → m.policy.get h' = some b' →
    b.blockId = b'.blockId → h = h'

omit [Repr H] [PyFloat F] in
theorem CPUOffloadingManager.Conserved.partitioned {m : CPUOffloadingManager H F}
    (h : m.Conserved []) : BlocksPartitioned m := by
  have hcov := h.covers
  rw [nil_append] at hcov
  obtain ⟨hfree, howned, hdisj⟩ := nodup_append'.mp hcov.nodup
  refine ⟨hdisj, hfree, howned, fun i => hcov.mem_iff, fun k k' b b' hb hb' hid => ?_⟩
  have hmem := (CachePolicy.mem_entries h.wf).mpr hb
  have hmem' := (CachePolicy.mem_entries h.wf).mpr hb'
  have heq := inj_on_of_nodup_map howned hmem hmem' hid
  exact congrArg Prod.fst heq

/-- In every run each allocated CPU block is in the free list or owned by one hash, never
more than the capacity are allocated, and no call evicts a block that is read or stored. -/
theorem cpu_blocks_conserved (blockSize numBlocks : Nat) (cachePolicy : CachePolicyName)
    (enableEvents : Bool) :
    (offloadRuns H F blockSize numBlocks cachePolicy enableEvents).Invariant fun r =>
      BlocksPartitioned r.manager ∧ r.manager.numAllocatedBlocks ≤ numBlocks ∧
      ∀ call r', r.step? call = some r' → r.KeepsBlocksInUse r' call := by
  intro r hreach
  obtain ⟨hinv, hnum⟩ := offloadRuns_inductive.invariant r hreach
  refine ⟨hinv.conserved.partitioned, hnum ▸ r.manager.allocated_le, fun call r' hcall => ?_⟩
  exact (OffloadRun.step?_inv hinv hcall).2.1

end MyOperator.Offload
