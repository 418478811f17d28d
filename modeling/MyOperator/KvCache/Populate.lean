import MyOperator.KvCache.Conservation
import MyOperator.KvCache.LookupSpec

/-!
# Pools with a given cache content

For every list of keys there is a pool that caches exactly these keys. The lookups
are exact on such pools, which is what shows that a condition on a configuration
is necessary.
-/

namespace MyOperator.KvCache

open Lib

/-- The hashes of a request of `n` blocks, all different. -/
def sampleHashes (n : Nat) : List BlockHash := (List.range n).map fun i => List.replicate i 0

@[simp] theorem length_sampleHashes (n : Nat) : (sampleHashes n).length = n := by
  simp [sampleHashes]

namespace BlockPool

variable {p : BlockPool}

/-- `key` is the hash of some block. -/
def Cached (p : BlockPool) (key : BlockHashWithGroupId) : Prop :=
  ∃ b, (p.heap b).blockHash = some key

theorem Coherent.hitAt_isSome (h : Coherent p) {groupIds : List Nat}
    {blockHashes : List BlockHash} {i : Nat} :
    (hitAt p groupIds blockHashes i).isSome ↔ ∃ hash, blockHashes[i]? = some hash ∧
      ∀ g ∈ groupIds, p.Cached (makeBlockHashWithGroupId hash g) := by
  have hone : ∀ key, (p.cachedBlockHashToBlock.getOneBlock key).isSome ↔ p.Cached key := by
    intro key
    rw [Option.isSome_iff_exists]
    constructor
    · rintro ⟨b, hb⟩
      exact ⟨b, (h.iff b key).mpr (BlockHashToBlockMap.getOneBlock_mem hb)⟩
    · rintro ⟨b, hb⟩
      have hmem := (h.iff b key).mp hb
      rw [BlockHashToBlockMap.getOneBlock_eq]
      cases hl : p.cachedBlockHashToBlock.blocks key with
      | nil => rw [hl] at hmem; cases hmem
      | cons c rest => exact ⟨c, rfl⟩
  unfold hitAt
  cases blockHashes[i]? with
  | none => simp
  | some hash =>
    simp only [Option.bind_some, Option.some.injEq, exists_eq_left']
    unfold BlockPool.getCachedBlock
    induction groupIds with
    | nil => simp
    | cons g groupIds ih =>
      have hsplit (x : Option BlockRef) (y : Option (List BlockRef)) :
          (do let b ← x; let bs ← y; pure (b :: bs) : Option (List BlockRef)).isSome ↔
            x.isSome ∧ y.isSome := by
        cases x <;> cases y <;> simp
      rw [List.forall_mem_cons, List.mapM_cons, hsplit, hone]
      exact and_congr_right fun _ => ih

private theorem populate (keys : List BlockHashWithGroupId) (bs : List BlockRef)
    (hlen : keys.length = bs.length) (hnodup : bs.Nodup) (h : Coherent p)
    (hcaching : p.enableCaching = true)
    (hbs : ∀ b ∈ bs, b ∈ p.blocks ∧ (p.heap b).isNull = false ∧ (p.heap b).blockHash = none) :
    ∃ p', Coherent p' ∧ SameConfig p p' ∧ ∀ key, p'.Cached key ↔ key ∈ keys ∨ p.Cached key := by
  induction keys generalizing p bs with
  | nil => exact ⟨p, h, .refl p, fun key => by simp⟩
  | cons key keys ih =>
    cases bs with
    | nil => cases hlen
    | cons b bs =>
      obtain ⟨hmem, hnull, hnone⟩ := hbs b (by simp)
      obtain ⟨hb, hnodup⟩ := List.nodup_cons.mp hnodup
      have hcoh : Coherent (p.cacheBlock b key) := h.cacheBlock hcaching hmem hnull hnone
      obtain ⟨hcfg, -, -, hhash⟩ := p.cacheBlock_effect b key
      obtain ⟨p', hcoh', hcfg', hkeys⟩ := ih bs (by simpa using hlen) hnodup hcoh
        (hcfg.enableCaching.trans hcaching) fun c hc => by
          have hcb : c ≠ b := fun h0 => hb (h0 ▸ hc)
          obtain ⟨h1, h2, h3⟩ := hbs c (List.mem_cons_of_mem _ hc)
          exact ⟨by rwa [hcfg.blocks], by rw [hcfg.isNull, h2], by rw [hhash, if_neg hcb, h3]⟩
      refine ⟨p', hcoh', hcfg.trans hcfg', fun k => ?_⟩
      have hone : (p.cacheBlock b key).Cached k ↔ k = key ∨ p.Cached k := by
        constructor
        · rintro ⟨c, hc⟩
          rw [hhash] at hc
          split at hc
          · exact .inl (Option.some.inj hc).symm
          · exact .inr ⟨c, hc⟩
        · rintro (rfl | ⟨c, hc⟩)
          · exact ⟨b, by rw [hhash, if_pos rfl]⟩
          · refine ⟨c, ?_⟩
            rw [hhash, if_neg, hc]
            rintro rfl
            rw [hnone] at hc
            cases hc
      rw [hkeys, List.mem_cons]
      tauto

theorem exists_caching (keys : List BlockHashWithGroupId) :
    ∃ p : BlockPool, Coherent p ∧ (p.heap p.nullBlock).isNull = true ∧
      ∀ key, p.Cached key ↔ key ∈ keys := by
  obtain ⟨q, -, hq⟩ := init_ok (Nat.succ_pos keys.length) 1 true false false
  let bs : List BlockRef := (List.range' 1 keys.length).map .blk
  have hfree : ∀ b ∈ bs, b ∈ q.blocks ∧ (q.heap b).isNull = false ∧
      (q.heap b).blockHash = none := fun b hb => by
    obtain ⟨hmem, hnull, -⟩ := (hq.inv.mem b).mp (by simpa [bs] using hb)
    exact ⟨hmem, hnull, hq.hashes b⟩
  have hnodup : bs.Nodup := List.Nodup.map (fun _ _ h => BlockRef.blk.inj h) List.nodup_range'
  obtain ⟨p, hcoh, hcfg, hkeys⟩ :=
    populate keys bs (by simp [bs]) hnodup hq.coherent hq.enableCaching hfree
  refine ⟨p, hcoh, ?_, fun key => ?_⟩
  · rw [hcfg.nullBlock, hcfg.isNull]
    exact (hq.inv.null _).mpr rfl
  · rw [hkeys]
    exact or_iff_left fun ⟨b, hb⟩ => by
      rw [hq.hashes] at hb
      cases hb

end BlockPool

end MyOperator.KvCache
