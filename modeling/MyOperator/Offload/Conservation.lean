import MyOperator.Offload.Manager
import MyOperator.Offload.PolicySpec
import MyOperator.Lib.IdPool

/-!
# Conservation of the CPU blocks

Every allocated block id is in the free list or owned by one entry of the policy, in every
run of the manager. The run carries the hashes whose stores and loads were prepared and are
not complete, so that completions match preparations; what these say about `ref_cnt` is why
no block in use is evicted.
-/

namespace MyOperator.Offload

open Lib List
open KvCache (assert)

variable {H F : Type} [DecidableEq H]

theorem cInt32_of_lt {x : Int} (h0 : 0 ≤ x) (h : x < 2 ^ 31) : cInt32 x = x := by
  unfold cInt32
  rw [Int.bmod_def]
  have hmod : x % 4294967296 = x := Int.emod_eq_of_lt h0 (by omega)
  norm_num
  rw [hmod, if_pos (by omega)]

theorem cInt32_natCast {c : Nat} (hc : c ≤ 2 ^ 31) (h : 0 ≤ cInt32 c) : c < 2 ^ 31 ∧ cInt32 c = c := by
  rcases Nat.lt_or_eq_of_le hc with hlt | heq
  · exact ⟨hlt, cInt32_of_lt (Int.natCast_nonneg c) (by exact_mod_cast hlt)⟩
  · subst heq
    exact absurd h (by decide)

namespace CachePolicy

variable {p p' : CachePolicy H F} {blockHash k : H} {block : BlockStatus}

/-- The ids of the CPU blocks that the policy owns. -/
def blockIds (p : CachePolicy H F) : List Nat := p.entries.map fun e => e.2.blockId

theorem get_of_perm {l : List (H × BlockStatus)} (hp : p.WF) (h : p.entries.Perm l) (k : H) :
    p.get k = assocGet? k l := by
  rw [get_eq]
  exact assocGet?_perm hp h k

theorem get_modify (hp : p.WF) (h : p.get blockHash = some block) (f : BlockStatus → BlockStatus) :
    (p.modify blockHash f).WF ∧ ∀ k, (p.modify blockHash f).get k =
      if k = blockHash then some (f block) else p.get k := by
  obtain ⟨rest, hold, hnew⟩ := modify_perm h f
  have hkeys : ((p.modify blockHash f).entries.map Prod.fst).Perm (p.entries.map Prod.fst) :=
    (hnew.map Prod.fst).trans (hold.map Prod.fst).symm
  have hwf : (p.modify blockHash f).WF := hkeys.symm.nodup hp
  refine ⟨hwf, fun k => ?_⟩
  rw [get_of_perm hwf hnew, get_of_perm hp hold]
  by_cases hk : k = blockHash
  · rw [if_pos hk, assocGet?, if_pos hk.symm]
  · rw [if_neg hk, assocGet?, if_neg (Ne.symm hk), assocGet?, if_neg (Ne.symm hk)]

theorem get_remove (hp : p.WF) (h : p.get blockHash = some block) :
    (p.remove blockHash).WF ∧ ∀ k, (p.remove blockHash).get k =
      if k = blockHash then none else p.get k := by
  have hperm := remove_perm h
  have hnodup := (hperm.map Prod.fst).nodup hp
  rw [map_cons, nodup_cons] at hnodup
  refine ⟨hnodup.2, fun k => ?_⟩
  rw [get_of_perm hp hperm]
  by_cases hk : k = blockHash
  · rw [if_pos hk, get_eq, hk]
    exact assocGet?_eq_none.mpr hnodup.1
  · rw [if_neg hk, assocGet?, if_neg (Ne.symm hk), get_eq]

end CachePolicy

namespace CPUOffloadingManager

variable {m m' : CPUOffloadingManager H F} {transit : List Nat}

/-- Every allocated id is free, owned by one entry of the policy, or in `transit`. -/
structure Conserved (m : CPUOffloadingManager H F) (transit : List Nat) : Prop where
  covers : Covers m.freeList (transit ++ m.policy.blockIds) m.numAllocatedBlocks
  wf : m.policy.WF

omit [DecidableEq H] in
theorem Conserved.policy {p' : CachePolicy H F} (h : m.Conserved transit)
    (hids : p'.blockIds.Perm m.policy.blockIds) (hwf : p'.WF) :
    ({ m with policy := p' } : CPUOffloadingManager H F).Conserved transit :=
  ⟨h.covers.congr (.refl _) (hids.append_left transit), hwf⟩

omit [DecidableEq H] in
theorem Conserved.freeBlock {block : BlockStatus} (h : m.Conserved (block.blockId :: transit)) :
    (m.freeBlock block).Conserved transit := ⟨h.covers.give, h.wf⟩

omit [DecidableEq H] in
theorem freeEvicted_policy (evicted : List (H × BlockStatus)) :
    (m.freeEvicted evicted).policy = m.policy ∧
      (m.freeEvicted evicted).numBlocks = m.numBlocks ∧
      (m.freeEvicted evicted).numAllocatedBlocks = m.numAllocatedBlocks ∧
      (m.freeEvicted evicted).freeList.length = m.freeList.length + evicted.length := by
  induction evicted generalizing m with
  | nil => exact ⟨rfl, rfl, rfl, rfl⟩
  | cons e evicted ih =>
    obtain ⟨hp, hn, ha, hl⟩ := ih (m := m.freeBlock e.2)
    refine ⟨hp, hn, ha, hl.trans ?_⟩
    show (m.freeList ++ [e.2.blockId]).length + _ = _
    rw [length_append, length_singleton, length_cons]
    omega

omit [DecidableEq H] in
theorem Conserved.freeEvicted {evicted : List (H × BlockStatus)}
    (h : m.Conserved (evicted.map (fun e => e.2.blockId) ++ transit)) :
    (m.freeEvicted evicted).Conserved transit := by
  induction evicted generalizing m with
  | nil => exact h
  | cons e evicted ih => exact ih (m := m.freeBlock e.2) h.freeBlock

/-! ## Allocation -/

theorem popFree_spec {n : Nat} {l : List Nat} (h : n ≤ l.length) :
    l.Perm ((popFree n l).1 ++ (popFree n l).2) ∧ (popFree n l).1.length = n := by
  induction n generalizing l with
  | zero => exact ⟨.refl _, rfl⟩
  | succ n ih =>
    cases hlast : l.getLast? with
    | none =>
      rw [getLast?_eq_none_iff] at hlast
      subst hlast
      cases h
    | some blockId =>
      have hl : l.dropLast ++ [blockId] = l := dropLast_append_getLast? blockId hlast
      have hlen : n ≤ l.dropLast.length := by
        rw [length_dropLast]
        omega
      obtain ⟨hperm, hpop⟩ := ih hlen
      unfold popFree
      rw [hlast]
      refine ⟨?_, congrArg Nat.succ hpop⟩
      have hlastfirst : l.Perm (blockId :: l.dropLast) := by
        conv_lhs => rw [← hl]
        exact perm_append_singleton _ _
      exact hlastfirst.trans (hperm.cons blockId)

omit [DecidableEq H] in
theorem allocateBlocks_spec (transit : List Nat) {blockHashes : List H} {blocks : List BlockStatus}
    (h : m.allocateBlocks blockHashes = .ok (blocks, m')) : m'.policy = m.policy ∧ m'.numBlocks = m.numBlocks ∧ blocks.length = blockHashes.length ∧
      (∀ b ∈ blocks, b.refCnt = -1) ∧
      (m.Conserved transit → m'.Conserved (blocks.map BlockStatus.blockId ++ transit)) := by
  unfold allocateBlocks at h
  obtain ⟨u, henough, h⟩ := bind_ok h
  rw [KvCache.assert_eq_ok, decide_eq_true_eq] at henough
  cases h
  obtain ⟨hperm, hlen⟩ := popFree_spec henough
  refine ⟨rfl, rfl, ?_, ?_, fun hc => ⟨?_, hc.wf⟩⟩
  · simp only [length_append, length_map, length_range', hlen]
    omega
  · intro b hb
    rcases mem_append.mp hb with hb | hb <;>
    · obtain ⟨blockId, -, rfl⟩ := mem_map.mp hb
      rfl
  · have hids : ∀ l : List Nat, (l.map BlockStatus.init).map BlockStatus.blockId = l := by
      intro l
      rw [map_map]
      exact map_id l
    rw [map_append, hids, hids]
    refine ((hc.covers.grow _).take hperm).congr (.refl _) ?_
    have hswap : ∀ a b c d : List Nat, (a ++ b ++ c ++ d).Perm (b ++ (a ++ (c ++ d))) := by
      intro a b c d
      rw [append_assoc (a ++ b), ← append_assoc b]
      exact perm_append_comm.append_right (c ++ d)
    exact hswap _ _ _ _

omit [DecidableEq H] in
theorem appendEvent_eq (blockHashes : List H) (removed : Bool) :
    ∃ events, m.appendEvent blockHashes removed = { m with events } := by
  unfold appendEvent
  split
  · split
    · exact ⟨m.events, rfl⟩
    · exact ⟨_, rfl⟩
  · exact ⟨m.events, rfl⟩

/-! ## Stores -/

theorem insertBlocks_perm {blockHashes : List H} {blocks : List BlockStatus}
    (hlen : blocks.length = blockHashes.length) (hnodup : blockHashes.Nodup) (hwf : m.policy.WF)
    (habsent : ∀ blockHash ∈ blockHashes, m.policy.get blockHash = none) :
    (m.insertBlocks blockHashes blocks).policy.entries.Perm
      (blockHashes.zip blocks ++ m.policy.entries) ∧
      (m.insertBlocks blockHashes blocks).policy.WF := by
  have hfold : (m.insertBlocks blockHashes blocks).policy =
      (blockHashes.zip blocks).foldl (fun p e => p.insert e.1 e.2) m.policy := rfl
  rw [hfold]
  clear hfold
  generalize m.policy = p at *
  induction blockHashes generalizing p blocks with
  | nil => exact ⟨.refl _, hwf⟩
  | cons blockHash blockHashes ih =>
    cases blocks with
    | nil => cases hlen
    | cons block blocks =>
      have hnone := habsent blockHash mem_cons_self
      have hperm := CachePolicy.insert_perm hnone block
      have hwf' : (p.insert blockHash block).WF := by
        refine (hperm.map Prod.fst).symm.nodup ?_
        rw [map_cons, nodup_cons]
        rw [CachePolicy.get_eq] at hnone
        exact ⟨assocGet?_eq_none.mp hnone, hwf⟩
      have hrest : ∀ k ∈ blockHashes, (p.insert blockHash block).get k = none := by
        intro k hk
        have hne : blockHash ≠ k := fun heq => (nodup_cons.mp hnodup).1 (heq ▸ hk)
        rw [CachePolicy.get_of_perm hwf' hperm, assocGet?, if_neg hne, ← CachePolicy.get_eq]
        exact habsent k (mem_cons_of_mem _ hk)
      obtain ⟨hfold, hwf''⟩ := ih (Nat.succ.inj hlen) (nodup_cons.mp hnodup).2
        (p.insert blockHash block) hwf' hrest
      refine ⟨hfold.trans ?_, hwf''⟩
      exact (hperm.append_left _).trans perm_middle

/-- What `prepare_store` does when it has room. -/
structure Stores (m m' : CPUOffloadingManager H F) (stored : List (H × BlockStatus)) : Prop where
  entries : m'.policy.entries.Perm (stored ++ m.policy.entries)
  numBlocks : m'.numBlocks = m.numBlocks
  notReady : ∀ e ∈ stored, e.2.refCnt = -1
  conserved : m.Conserved [] → m'.Conserved []

theorem storeBlocks_spec {blockHashes toEvict : List H} {out : Option (PrepareStoreOutput H)}
    (hnodup : blockHashes.Nodup) (hwf : m.policy.WF)
    (habsent : ∀ blockHash ∈ blockHashes, m.policy.get blockHash = none)
    (h : m.storeBlocks blockHashes toEvict = .ok (out, m')) :
    ∃ o stored, out = some o ∧ o.blockHashesToStore = blockHashes ∧
      o.blockHashesEvicted = toEvict ∧ stored.map Prod.fst = blockHashes ∧ Stores m m' stored := by
  obtain ⟨events, hevents⟩ := m.appendEvent_eq toEvict true
  unfold storeBlocks at h
  rw [hevents] at h
  obtain ⟨⟨blocks, m1⟩, halloc, h⟩ := bind_ok h
  obtain ⟨-, -, h⟩ := bind_ok h
  cases h
  obtain ⟨hpolicy, hnum, hlen, hready, hcons⟩ := allocateBlocks_spec [] halloc
  obtain ⟨hperm, hwf'⟩ := insertBlocks_perm (m := m1) hlen hnodup (hpolicy ▸ hwf)
    (hpolicy ▸ habsent)
  refine ⟨_, blockHashes.zip blocks, rfl, rfl, rfl, map_fst_zip (Nat.le_of_eq hlen.symm),
    hpolicy ▸ hperm, hnum, ?_, fun hc => ⟨?_, hwf'⟩⟩
  · intro e he
    exact hready e.2 (of_mem_zip he).2
  · have hcov := (hcons ⟨hc.covers, hc.wf⟩).covers
    refine hcov.congr (.refl _) ?_
    have hids : (blockHashes.zip blocks).map (fun e => e.2.blockId) =
        blocks.map BlockStatus.blockId := by
      have hsnd : (blockHashes.zip blocks).map Prod.snd = blocks := map_snd_zip (Nat.le_of_eq hlen)
      conv_rhs => rw [← hsnd, map_map]
      rfl
    refine (hperm.map fun e => e.2.blockId).trans ?_
    rw [map_append, hids, append_nil]
    exact .refl _

/-- `prepare_store` changes nothing, or takes out blocks that are not in use and puts in
blocks that are being stored. -/
theorem prepareStore_spec [PyFloat F] {blockHashes : List H} {out : Option (PrepareStoreOutput H)}
    (hnodup : blockHashes.Nodup) (hwf : m.policy.WF)
    (h : m.prepareStore blockHashes = .ok (out, m')) :
    (out = none ∧ m' = m) ∨ ∃ o evicted stored kept, out = some o ∧
      m.policy.entries.Perm (evicted ++ kept) ∧ m'.policy.entries.Perm (stored ++ kept) ∧
      (∀ e ∈ evicted, e.2.refCnt = 0) ∧ (∀ e ∈ stored, e.2.refCnt = -1) ∧
      stored.map Prod.fst = o.blockHashesToStore ∧
      (∀ blockHash ∈ o.blockHashesToStore, m.policy.get blockHash = none) ∧
      m'.numBlocks = m.numBlocks ∧ (m.Conserved [] → m'.Conserved []) := by
  unfold prepareStore at h
  dsimp only at h
  have hstore : (blockHashes.filter fun bh => m.policy.get bh = none).Nodup := hnodup.filter _
  have habsent : ∀ blockHash ∈ blockHashes.filter (fun bh => m.policy.get bh = none),
      m.policy.get blockHash = none := by
    intro blockHash hmem
    simpa using (mem_filter.mp hmem).2
  generalize blockHashes.filter (fun bh => m.policy.get bh = none) = toStore at *
  split at h
  · cases h
    exact .inr ⟨_, [], [], m.policy.entries, rfl, .refl _, .refl _, nofun, nofun, rfl, nofun, rfl, id⟩
  · split at h
    · split at h
      · rename_i policy hevict
        cases h
        rw [CachePolicy.evict_none hevict]
        exact .inl ⟨rfl, rfl⟩
      · rename_i evicted policy hevict
        obtain ⟨hperm, -, hev⟩ := CachePolicy.evict_some hevict
        have hnodup' := (hperm.map Prod.fst).nodup hwf
        rw [map_append] at hnodup'
        obtain ⟨hpolicy, hnum, -, -⟩ :=
          freeEvicted_policy (m := ({ m with policy } : CPUOffloadingManager H F)) evicted
        have hwf' : policy.WF := hnodup'.of_append_right
        have habsent' : ∀ blockHash ∈ toStore, policy.get blockHash = none := by
          intro blockHash hmem
          have hnone := habsent blockHash hmem
          rw [CachePolicy.get_eq, assocGet?_eq_none] at hnone ⊢
          exact fun hin => hnone ((hperm.map Prod.fst).symm.subset
            (map_append ▸ mem_append_right _ hin))
        obtain ⟨o, stored, hout, ho, -, hkeys, hstores⟩ := storeBlocks_spec hstore
          (hpolicy ▸ hwf') (hpolicy ▸ habsent') h
        have hentries := hstores.entries
        rw [hpolicy] at hentries
        refine .inr ⟨o, evicted, stored, policy.entries, hout, hperm, hentries, ?_,
          hstores.notReady, hkeys.trans ho.symm, ho ▸ habsent, hstores.numBlocks.trans hnum,
          fun hc => hstores.conserved (Conserved.freeEvicted ⟨?_, hwf'⟩)⟩
        · intro e he
          have hz := hev e he
          simp only [evictable, decide_eq_true_eq] at hz
          exact hz.1
        · refine hc.covers.congr (.refl _) ?_
          rw [append_nil]
          unfold CachePolicy.blockIds
          rw [← map_append]
          exact (hperm.map _).symm
    · obtain ⟨o, stored, hout, ho, -, hkeys, hstores⟩ := storeBlocks_spec hstore hwf habsent h
      exact .inr ⟨o, [], stored, m.policy.entries, hout, .refl _, hstores.entries, nofun,
        hstores.notReady, hkeys.trans ho.symm, ho ▸ habsent, hstores.numBlocks, hstores.conserved⟩

end CPUOffloadingManager

end MyOperator.Offload
