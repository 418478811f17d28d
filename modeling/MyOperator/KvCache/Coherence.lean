import MyOperator.KvCache.PoolEffect

/-!
# Hashes and the map agree

`Coherent p` ties the hash of every block to the map of cached blocks. Every
operation of the pool keeps it, so a block that the map returns carries the key
it was looked up with, and a block that was just allocated is in no entry.
-/

namespace MyOperator.KvCache

open Lib List

namespace BlockPool

/-- A block's hash is the key under which the map holds it. -/
structure Coherent (p : BlockPool) : Prop where
  wf : p.cachedBlockHashToBlock.WF
  iff : ∀ b key, (p.heap b).blockHash = some key ↔ b ∈ p.cachedBlockHashToBlock.blocks key
  mem : ∀ b key, (p.heap b).blockHash = some key → b ∈ p.blocks
  notNull : ∀ b key, (p.heap b).blockHash = some key → (p.heap b).isNull = false
  caching : p.enableCaching = false → ∀ b, (p.heap b).blockHash = none

variable {p p' p'' : BlockPool} {b c r : BlockRef} {bs : List BlockRef} {groupId : Nat}

theorem eq_of_blockId (hb : b ∈ p.blocks) (hc : c ∈ p.blocks) (h : b.blockId = c.blockId) :
    b = c := by
  obtain ⟨i, -, rfl⟩ := mem_blocks.mp hb
  obtain ⟨j, -, rfl⟩ := mem_blocks.mp hc
  have hij : (i : Int) = j := h
  rw [Int.ofNat_inj.mp hij]

theorem Coherent.congr (h : Coherent p) (hc : SameConfig p p') (hh : KeepsHashes p p') :
    Coherent p' where
  wf := hh.map ▸ h.wf
  iff b key := by rw [hh.hash, hh.map, h.iff]
  mem b key hk := by rw [hc.blocks]; exact h.mem b key (hh.hash b ▸ hk)
  notNull b key hk := by rw [hc.isNull]; exact h.notNull b key (hh.hash b ▸ hk)
  caching hf b := by rw [hh.hash]; exact h.caching (hc.enableCaching ▸ hf) b

theorem getCachedBlock_eq_some {hash : BlockHash} {groupIds : List Nat} :
    p.getCachedBlock hash groupIds = some bs ↔ Forall₂ (fun g b =>
      p.cachedBlockHashToBlock.getOneBlock (makeBlockHashWithGroupId hash g) = some b)
      groupIds bs := by
  unfold getCachedBlock
  induction groupIds generalizing bs with
  | nil => simp [eq_comm]
  | cons g groupIds ih =>
    simp only [mapM_cons, Option.bind_eq_bind, Option.bind_eq_some_iff, List.forall₂_cons_left_iff]
    constructor
    · rintro ⟨b, hb, bs', hbs', h⟩
      cases h
      exact ⟨b, bs', hb, ih.mp hbs', rfl⟩
    · rintro ⟨b, bs', hb, hbs', rfl⟩
      exact ⟨b, hb, bs', ih.mpr hbs', rfl⟩

theorem Coherent.getCachedBlock (h : Coherent p) {hash : BlockHash} {groupIds : List Nat}
    (hget : p.getCachedBlock hash groupIds = some bs) :
    Forall₂ (fun g b => (p.heap b).blockHash = some (makeBlockHashWithGroupId hash g))
      groupIds bs := (getCachedBlock_eq_some.mp hget).imp fun _ b hb =>
    (h.iff b _).mpr (BlockHashToBlockMap.getOneBlock_mem hb)

/-! ## Eviction -/

variable {key : BlockHashWithGroupId}

private theorem hash_of_setHash_none (h : ((p.setHash b none).heap c).blockHash = some key) :
    (p.heap c).blockHash = some key := by
  rw [setHash_blockHash] at h
  split at h
  · cases h
  · exact h

private theorem maybeEvict_eq (hb : (p.heap b).blockHash = some key)
    (hpop : (p.cachedBlockHashToBlock.pop key b.blockId).1 = some b) :
    ∃ e, (p.maybeEvictCachedBlock b).2 =
      ((p.setMap (p.cachedBlockHashToBlock.pop key b.blockId).2).setHash b none).emit e := by
  unfold maybeEvictCachedBlock
  rw [hb]
  dsimp only
  generalize p.cachedBlockHashToBlock.pop key b.blockId = res at hpop ⊢
  obtain ⟨popped, m⟩ := res
  obtain rfl : popped = some b := hpop
  exact ⟨_, rfl⟩

theorem maybeEvict_numGpuBlocks (p : BlockPool) (b : BlockRef) :
    (p.maybeEvictCachedBlock b).2.numGpuBlocks = p.numGpuBlocks := by
  unfold maybeEvictCachedBlock
  split
  · rfl
  · split
    · rfl
    · exact (emit_effect _ _).1.numGpuBlocks

private theorem Coherent.evict (h : Coherent p) (hb : (p.heap b).blockHash = some key) :
    Coherent ((p.setMap (p.cachedBlockHashToBlock.pop key b.blockId).2).setHash b none) where
  wf := BlockHashToBlockMap.pop_wf h.wf
  iff c key' := by
    change _ ↔ c ∈ (p.cachedBlockHashToBlock.pop key b.blockId).2.blocks key'
    rw [BlockHashToBlockMap.mem_blocks_pop h.wf, ← h.iff, setHash_blockHash, setMap_heap]
    by_cases hcb : c = b
    · subst hcb
      rw [if_pos rfl, hb]
      exact ⟨fun hk => (nomatch hk), fun hk => absurd ⟨(Option.some.inj hk.1).symm, rfl⟩ hk.2⟩
    · simp only [hcb, if_false]
      refine ⟨fun hk => ⟨hk, fun hid => hcb ?_⟩, fun hk => hk.1⟩
      exact eq_of_blockId (h.mem c _ hk) (h.mem b _ hb) hid.2
  mem c key' hk := h.mem c key' (hash_of_setHash_none hk)
  notNull c key' hk := by
    rw [setHash_isNull]
    exact h.notNull c key' (hash_of_setHash_none hk)
  caching hf c := by
    have := h.caching hf b
    rw [hb] at this
    cases this

theorem maybeEvict_effect (h : Coherent p) (b : BlockRef) :
    SameConfig p (p.maybeEvictCachedBlock b).2 ∧ KeepsRefs p (p.maybeEvictCachedBlock b).2 ∧
      KeepsLinks p (p.maybeEvictCachedBlock b).2 ∧ Coherent (p.maybeEvictCachedBlock b).2 ∧
      ∀ r, ((p.maybeEvictCachedBlock b).2.heap r).blockHash =
        if r = b then none else (p.heap r).blockHash := by
  cases hb : (p.heap b).blockHash with
  | none =>
    have heq : (p.maybeEvictCachedBlock b).2 = p := by
      unfold maybeEvictCachedBlock
      rw [hb]
    rw [heq]
    refine ⟨.refl p, .refl p, .refl p, h, fun r => ?_⟩
    by_cases hr : r = b <;> simp [hr, hb]
  | some key =>
    have hmem : b ∈ p.cachedBlockHashToBlock.blocks key := (h.iff b key).mp hb
    have hpop := (BlockHashToBlockMap.pop_fst_eq_some h.wf).mpr ⟨hmem, rfl⟩
    obtain ⟨e, heq⟩ := maybeEvict_eq hb hpop
    rw [heq]
    obtain ⟨hm1, hm2, hm3⟩ := p.setMap_effect (p.cachedBlockHashToBlock.pop key b.blockId).2
    have hevict := h.evict hb
    have hheap := p.setMap_heap (p.cachedBlockHashToBlock.pop key b.blockId).2
    generalize p.setMap (p.cachedBlockHashToBlock.pop key b.blockId).2 = pm
      at hm1 hm2 hm3 hevict hheap
    obtain ⟨he1, he2, he3, he4⟩ := (pm.setHash b none).emit_effect e
    refine ⟨(hm1.trans (setHash_config pm b none)).trans he1,
      (hm2.trans (setHash_keepsRefs pm b none)).trans he2,
      (hm3.trans (setHash_keepsLinks pm b none)).trans he4, hevict.congr he1 he3, fun r => ?_⟩
    rw [he3.hash, setHash_blockHash, hheap]

/-! ## Allocation -/

theorem takeLoop_effect (h : Coherent p) (hrun : takeLoop bs p = .ok p') :
    SameConfig p p' ∧ KeepsLinks p p' ∧ Coherent p' ∧ bs.Nodup ∧
      (∀ b ∈ bs, (p.heap b).refCnt = 0) ∧
      (∀ r, (p'.heap r).refCnt = (p.heap r).refCnt + bs.count r) ∧
      ∀ r, (p'.heap r).blockHash = if r ∈ bs then none else (p.heap r).blockHash := by
  induction bs generalizing p with
  | nil =>
    cases hrun
    exact ⟨.refl _, .refl _, h, nodup_nil, by simp, fun r => by simp, fun r => by simp⟩
  | cons b bs ih =>
    -- with caching disabled no block has a hash to lose
    obtain ⟨q, hq, hrun⟩ : ∃ q, (SameConfig p q ∧ KeepsRefs p q ∧ KeepsLinks p q ∧ Coherent q ∧
        ∀ r, (q.heap r).blockHash = if r = b then none else (p.heap r).blockHash) ∧
        (do assert ((q.heap b).refCnt = 0) ""
            takeLoop bs (q.addRef b 1)) = .ok p' := by
      refine ⟨_, ?_, hrun⟩
      by_cases hc : p.enableCaching = true
      · rw [if_pos hc]
        exact maybeEvict_effect h b
      · rw [if_neg hc]
        refine ⟨.refl p, .refl p, .refl p, h, fun r => ?_⟩
        rw [h.caching (by simpa using hc), ite_self]
    obtain ⟨hcfg, hrefs, hlinks, hcoh, hhash⟩ := hq
    obtain ⟨_, hassert, hrun⟩ := bind_ok hrun
    have hb0 : (p.heap b).refCnt = 0 := by
      rw [← hrefs]
      simpa using hassert
    obtain ⟨hcfg', hlinks', hcoh', hnodup, hzero, hcount, hhash'⟩ :=
      ih (hcoh.congr (addRef_config q b 1) (addRef_keepsHashes q b 1)) hrun
    have hb : b ∉ bs := fun hm => by
      have := hzero b hm
      rw [addRef_refCnt, if_pos rfl, hrefs, hb0] at this
      cases this
    refine ⟨(hcfg.trans (addRef_config q b 1)).trans hcfg',
      (hlinks.trans (addRef_keepsLinks q b 1)).trans hlinks', hcoh',
      nodup_cons.mpr ⟨hb, hnodup⟩, fun c hc => ?_, fun r => ?_, fun r => ?_⟩
    · rcases mem_cons.mp hc with rfl | hc
      · exact hb0
      · have hcb : c ≠ b := fun h0 => hb (h0 ▸ hc)
        have := hzero c hc
        rwa [addRef_refCnt, if_neg hcb, Int.add_zero, hrefs] at this
    · rw [hcount, addRef_refCnt, hrefs, count_cons]
      by_cases hrb : r = b
      · simp [hrb]
        omega
      · simp [hrb, Ne.symm hrb]
    · rw [hhash', addRef_blockHash, hhash]
      by_cases hrb : r = b
      · simp [hrb]
      · simp [hrb]

/-- `get_new_blocks` hands out distinct unreferenced blocks and takes them out of the
cache. -/
theorem getNewBlocks_effect {n : Int} {ret : List BlockRef} (h : Coherent p)
    (hrun : p.getNewBlocks n = .ok (ret, p')) :
    SameConfig p p' ∧ Coherent p' ∧ ret.Nodup ∧ (∀ b ∈ ret, (p.heap b).refCnt = 0) ∧
      (∀ r, (p'.heap r).refCnt = (p.heap r).refCnt + ret.count r) ∧
      ∀ r, (p'.heap r).blockHash = if r ∈ ret then none else (p.heap r).blockHash := by
  unfold getNewBlocks at hrun
  split at hrun
  · cases hrun
  · obtain ⟨⟨ret', q⟩, hpop, hrun⟩ := bind_ok hrun
    obtain ⟨p'', htake, hrun⟩ := bind_ok hrun
    cases hrun
    obtain ⟨hc, hr, hh⟩ := setQueue_effect (popleftN_sameData hpop)
    obtain ⟨hc', -, hcoh, hnodup, hzero, hcount, hhash⟩ := takeLoop_effect (h.congr hc hh) htake
    refine ⟨hc.trans hc', hcoh, hnodup, fun b hb => ?_, fun r => ?_, fun r => ?_⟩
    · rw [← hr]
      exact hzero b hb
    · rw [hcount, hr]
    · rw [hhash, hh.hash]

/-! ## Caching -/

theorem Coherent.cacheBlock (h : Coherent p) (hcaching : p.enableCaching = true)
    (hmem : b ∈ p.blocks) (hnull : (p.heap b).isNull = false) (hb : (p.heap b).blockHash = none) :
    Coherent (p.cacheBlock b key) where
  wf := BlockHashToBlockMap.insert_wf h.wf
  iff c key' := by
    rw [BlockPool.cacheBlock, setMap_map, BlockHashToBlockMap.mem_blocks_insert h.wf, setMap_heap,
      setHash_blockHash, ← h.iff, ← h.iff]
    by_cases hcb : c = b
    · subst hcb
      rw [if_pos rfl]
      by_cases hk : key' = key
      · simp [hk]
      · simp [hk, hb, Ne.symm hk]
    · rw [if_neg hcb]
      by_cases hk : key' = key
      · subst hk
        rw [if_pos rfl]
        refine ⟨fun hc => .inr ⟨hc, fun hid => hcb (eq_of_blockId (h.mem c _ hc) hmem hid)⟩, ?_⟩
        rintro (hc | hc)
        · exact absurd hc hcb
        · exact hc.1
      · rw [if_neg hk]
  mem c key' hk := by
    rw [BlockPool.cacheBlock, setMap_heap, setHash_blockHash] at hk
    by_cases hcb : c = b
    · exact hcb ▸ hmem
    · rw [if_neg hcb] at hk
      exact h.mem c key' hk
  notNull c key' hk := by
    rw [BlockPool.cacheBlock, setMap_heap, setHash_blockHash] at hk
    rw [BlockPool.cacheBlock, setMap_heap, setHash_isNull]
    by_cases hcb : c = b
    · exact hcb ▸ hnull
    · rw [if_neg hcb] at hk
      exact h.notNull c key' hk
  caching hf c := by
    change p.enableCaching = false at hf
    rw [hcaching] at hf
    cases hf

theorem cacheBlock_effect (p : BlockPool) (b : BlockRef) (key : BlockHashWithGroupId) :
    SameConfig p (p.cacheBlock b key) ∧ KeepsRefs p (p.cacheBlock b key) ∧
      KeepsLinks p (p.cacheBlock b key) ∧
      ∀ r, ((p.cacheBlock b key).heap r).blockHash =
        if r = b then some key else (p.heap r).blockHash := by
  obtain ⟨hc, hr, hl⟩ :=
    (p.setHash b (some key)).setMap_effect (p.cachedBlockHashToBlock.insert key b)
  exact ⟨(p.setHash_config b _).trans hc, (p.setHash_keepsRefs b _).trans hr,
    (p.setHash_keepsLinks b _).trans hl, fun r => setHash_blockHash p b r (some key)⟩

/-- What caching the blocks `bs` under the hashes `hashes` does: every block that is
not null gets the key of its own position, and no other block changes. -/
structure Caches (p p' : BlockPool) (groupId : Nat) (bs : List BlockRef)
    (hashes : List BlockHash) : Prop where
  config : SameConfig p p'
  refs : KeepsRefs p p'
  links : KeepsLinks p p'
  coherent : Coherent p'
  fresh : ∀ b ∈ bs, (p.heap b).isNull = false → (p.heap b).blockHash = none
  keys : ∀ (i : Nat) (b : BlockRef), bs[i]? = some b → (p.heap b).isNull = false → ∃ hash, hashes[i]? = some hash ∧
    (p'.heap b).blockHash = some (makeBlockHashWithGroupId hash groupId)
  frame : ∀ r, (r ∉ bs ∨ (p.heap r).isNull = true) → (p'.heap r).blockHash = (p.heap r).blockHash

theorem cacheLoop_effect {hashes newHashes : List BlockHash} (h : Coherent p)
    (hcaching : p.enableCaching = true) (hmem : ∀ b ∈ bs, b ∈ p.blocks)
    (hrun : cacheLoop groupId bs hashes p = .ok (p', newHashes)) :
    Caches p p' groupId bs hashes := by
  induction bs generalizing p hashes newHashes with
  | nil =>
    cases hrun
    exact ⟨.refl _, .refl _, .refl _, h, by simp, by simp, fun _ _ => rfl⟩
  | cons b bs ih =>
    unfold cacheLoop at hrun
    split at hrun
    · -- a null block is skipped together with its hash
      rename_i hnull
      have hrec := ih h hcaching (fun c hc => hmem c (mem_cons_of_mem _ hc)) hrun
      refine ⟨hrec.config, hrec.refs, hrec.links, hrec.coherent, fun c hc hn => ?_,
        fun i c hc hn => ?_, fun r hr => ?_⟩
      · rcases mem_cons.mp hc with rfl | hc
        · rw [hnull] at hn
          cases hn
        · exact hrec.fresh c hc hn
      · cases i with
        | zero =>
          obtain rfl : b = c := by simpa using hc
          rw [hnull] at hn
          cases hn
        | succ i =>
          obtain ⟨hash, hget, hkey⟩ := hrec.keys i c (by simpa using hc) hn
          exact ⟨hash, by rwa [getElem?_tail] at hget, hkey⟩
      · refine hrec.frame r (hr.imp_left fun hr hm => hr (mem_cons_of_mem _ hm))
    · rename_i hnull
      have hnull : (p.heap b).isNull = false := by simpa using hnull
      obtain ⟨_, hassert, hrun⟩ := bind_ok hrun
      have hb : (p.heap b).blockHash = none := by simpa using hassert
      cases hashes with
      | nil => cases hrun
      | cons hash hashes =>
        have hq : Coherent (p.cacheBlock b (makeBlockHashWithGroupId hash groupId)) :=
          h.cacheBlock hcaching (hmem b (by simp)) hnull hb
        obtain ⟨hcfg, hrefs, hlinks, hhash⟩ :=
          p.cacheBlock_effect b (makeBlockHashWithGroupId hash groupId)
        dsimp only at hrun
        generalize p.cacheBlock b (makeBlockHashWithGroupId hash groupId) = q
          at hq hhash hcfg hrefs hlinks hrun
        obtain ⟨⟨p'', hs⟩, hloop, hret⟩ := bind_ok hrun
        cases hret
        have hrec := ih hq (hcfg.enableCaching.trans hcaching)
          (fun c hc => hcfg.blocks ▸ hmem c (mem_cons_of_mem _ hc)) hloop
        have hbbs : b ∉ bs := fun hm => by
          have := hrec.fresh b hm (by rw [hcfg.isNull, hnull])
          rw [hhash, if_pos rfl] at this
          cases this
        refine ⟨hcfg.trans hrec.config, hrefs.trans hrec.refs, hlinks.trans hrec.links,
          hrec.coherent, fun c hc hn => ?_, fun i c hc hn => ?_, fun r hr => ?_⟩
        · rcases mem_cons.mp hc with rfl | hc
          · exact hb
          · have hcb : c ≠ b := fun h0 => hbbs (h0 ▸ hc)
            have := hrec.fresh c hc (by rw [hcfg.isNull, hn])
            rwa [hhash, if_neg hcb] at this
        · cases i with
          | zero =>
            obtain rfl : b = c := by simpa using hc
            refine ⟨hash, rfl, ?_⟩
            rw [hrec.frame b (.inl hbbs), hhash, if_pos rfl]
          | succ i => exact hrec.keys i c (by simpa using hc) (by rw [hcfg.isNull, hn])
        · have hrb : r ≠ b := by
            rintro rfl
            rcases hr with hr | hr
            · exact hr (by simp)
            · rw [hnull] at hr
              cases hr
          rw [hrec.frame r (hr.imp (fun hr hm => hr (mem_cons_of_mem _ hm))
            fun hn => by rw [hcfg.isNull, hn]), hhash, if_neg hrb]

theorem Caches.congr {hashes : List BlockHash} (h : Caches p p' groupId bs hashes)
    (hc : SameConfig p' p'') (hr : KeepsRefs p' p'') (hh : KeepsHashes p' p'')
    (hl : KeepsLinks p' p'') : Caches p p'' groupId bs hashes where
  config := h.config.trans hc
  refs := h.refs.trans hr
  links := h.links.trans hl
  coherent := h.coherent.congr hc hh
  fresh := h.fresh
  keys i b hi hn := by
    obtain ⟨hash, hget, hkey⟩ := h.keys i b hi hn
    exact ⟨hash, hget, by rw [hh.hash, hkey]⟩
  frame r hr := by rw [hh.hash, h.frame r hr]

/-- `cache_full_blocks` gives the blocks from `num_cached_blocks` to `num_full_blocks` the
hashes of their positions, at the block size of the group. -/
theorem cacheFullBlocks_effect {request : Request} {blocks : List BlockRef}
    {numCachedBlocks numFullBlocks blockSize : Nat} (h : Coherent p)
    (hcaching : p.enableCaching = true)
    (hmem : ∀ b ∈ (blocks.take numFullBlocks).drop numCachedBlocks, b ∈ p.blocks)
    (hrun : p.cacheFullBlocks request blocks numCachedBlocks numFullBlocks blockSize groupId =
      .ok p') :
    ∃ hashes, (numCachedBlocks < numFullBlocks → p.blockHashesAt request blockSize = .ok hashes) ∧
      Caches p p' groupId ((blocks.take numFullBlocks).drop numCachedBlocks)
        (hashes.drop numCachedBlocks) := by
  unfold cacheFullBlocks at hrun
  split at hrun
  · rename_i hge
    cases hrun
    refine ⟨[], fun hlt => absurd hlt (by omega), ?_⟩
    rw [drop_eq_nil_of_le (by rw [length_take]; omega)]
    exact ⟨.refl _, .refl _, .refl _, h, by simp, by simp, fun _ _ => rfl⟩
  · obtain ⟨_, -, hrun⟩ := bind_ok hrun
    obtain ⟨hashes, hhashes, hrun⟩ := bind_ok hrun
    obtain ⟨⟨q, newHashes⟩, hloop, hrun⟩ := bind_ok hrun
    refine ⟨hashes, fun _ => hhashes, ?_⟩
    have hc := cacheLoop_effect h hcaching hmem hloop
    dsimp only at hrun
    split at hrun
    · obtain ⟨parent, -, hrun⟩ := bind_ok hrun
      split at hrun
      · cases hrun
      · cases hrun
        obtain ⟨he1, he2, he3, he4⟩ := q.emit_effect
          (.BlockStored (newHashes.map (maybeConvertBlockHash q.useIntBlockHashes)) parent
            ((request.allTokenIds.take (numFullBlocks * blockSize)).drop
              (numCachedBlocks * blockSize)) blockSize)
        exact hc.congr he1 he2 he3 he4
    · cases hrun
      exact hc

/-! ## Eviction by id and reset -/

/-- No block gains or changes a hash. -/
def Forgets (p p' : BlockPool) : Prop :=
  ∀ r key, (p'.heap r).blockHash = some key → (p.heap r).blockHash = some key

theorem Forgets.none (h : Forgets p p') (hb : (p.heap b).blockHash = none) :
    (p'.heap b).blockHash = none := by
  cases hk : (p'.heap b).blockHash with
  | none => rfl
  | some key => rw [h b key hk] at hb; cases hb

theorem evictBlocks_effect {ids : List Nat} (h : Coherent p) (hrun : evictBlocks ids p = .ok p') :
    SameConfig p p' ∧ KeepsRefs p p' ∧ KeepsLinks p p' ∧ Coherent p' ∧ Forgets p p' := by
  induction ids generalizing p with
  | nil =>
    cases hrun
    exact ⟨.refl _, .refl _, .refl _, h, fun _ _ hk => hk⟩
  | cons id ids ih =>
    obtain ⟨_, -, hrun⟩ := bind_ok hrun
    obtain ⟨hc, hr, hl, hcoh, hhash⟩ := maybeEvict_effect h (.blk id)
    obtain ⟨hc', hr', hl', hcoh', hf⟩ := ih hcoh hrun
    refine ⟨hc.trans hc', hr.trans hr', hl.trans hl', hcoh', fun r key hk => ?_⟩
    have := hf r key hk
    rw [hhash] at this
    split at this
    · cases this
    · exact this

theorem resetLoop_effect (bs : List BlockRef) (p : BlockPool) :
    SameConfig p (resetLoop bs p) ∧ KeepsRefs p (resetLoop bs p) ∧ KeepsLinks p (resetLoop bs p) ∧
      (resetLoop bs p).cachedBlockHashToBlock = p.cachedBlockHashToBlock ∧
      ∀ r, ((resetLoop bs p).heap r).blockHash = if r ∈ bs then none else (p.heap r).blockHash := by
  induction bs generalizing p with
  | nil => exact ⟨.refl p, .refl p, .refl p, rfl, fun r => by simp [resetLoop]⟩
  | cons b bs ih =>
    obtain ⟨hc, hr, hl, hm, hh⟩ := ih (p.setHash b none)
    refine ⟨(p.setHash_config b none).trans hc, (p.setHash_keepsRefs b none).trans hr,
      (p.setHash_keepsLinks b none).trans hl, hm, fun r => ?_⟩
    rw [resetLoop, hh]
    by_cases hrb : r = b <;> simp [hrb]

theorem resetPrefixCache_effect (h : Coherent p) :
    SameConfig p p.resetPrefixCache.2 ∧ KeepsRefs p p.resetPrefixCache.2 ∧
      KeepsLinks p p.resetPrefixCache.2 ∧ Coherent p.resetPrefixCache.2 ∧
      Forgets p p.resetPrefixCache.2 := by
  by_cases hused : (p.numGpuBlocks : Int) - p.getNumFreeBlocks = 1
  · obtain ⟨hm1, hm2, hm3⟩ := p.setMap_effect .init
    obtain ⟨hc, hr, hl, hm, hh⟩ := resetLoop_effect p.blocks (p.setMap .init)
    have hreset : p.resetPrefixCache.2 =
        (resetLoop p.blocks (p.setMap .init)).emit .AllBlocksCleared := by
      unfold resetPrefixCache
      rw [if_neg (by simpa using hused)]
    rw [hreset]
    -- only blocks of the pool ever had a hash
    have hnone : ∀ r, ((resetLoop p.blocks (p.setMap .init)).heap r).blockHash = none := by
      intro r
      rw [hh, setMap_heap]
      split
      · rfl
      · rename_i hr
        cases hk : (p.heap r).blockHash with
        | none => rfl
        | some key => exact absurd (h.mem r key hk) hr
    generalize resetLoop p.blocks (p.setMap .init) = q at hc hr hl hm hnone
    obtain ⟨he1, he2, he3, he4⟩ := q.emit_effect .AllBlocksCleared
    replace hnone : ∀ r, ((q.emit .AllBlocksCleared).heap r).blockHash = none := fun r => by
      rw [he3.hash, hnone]
    have hmap : (q.emit .AllBlocksCleared).cachedBlockHashToBlock = .init := he3.map.trans hm
    refine ⟨(hm1.trans hc).trans he1, (hm2.trans hr).trans he2, (hm3.trans hl).trans he4,
      ⟨hmap ▸ BlockHashToBlockMap.init_wf, fun b key => ?_, fun b key hk => ?_,
        fun b key hk => ?_, fun _ => hnone⟩, fun r key hk => ?_⟩
    · rw [hnone, hmap]
      simp
    · rw [hnone] at hk
      cases hk
    · rw [hnone] at hk
      cases hk
    · rw [hnone] at hk
      cases hk
  · have hreset : p.resetPrefixCache.2 = p := by
      unfold resetPrefixCache
      rw [if_pos hused]
    rw [hreset]
    exact ⟨.refl p, .refl p, .refl p, h, fun _ _ hk => hk⟩

end BlockPool

end MyOperator.KvCache
