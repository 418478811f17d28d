import MyOperator.KvCache.Coherence

/-!
# No block is lost or handed out twice

`PoolInv p F` says that the free list of the pool is `F` and that `F` holds exactly
the blocks that nobody references, the null block apart. Under the preconditions of
its callers every operation of the pool succeeds and keeps the invariant.
-/

namespace MyOperator.KvCache

open Lib List

namespace BlockPool

/-- The free list is `F`: the unreferenced blocks other than the null block. -/
structure PoolInv (p : BlockPool) (F : List BlockRef) : Prop where
  queue : p.freeBlockQueue.Represents F
  mem : ∀ b, b ∈ F ↔ b ∈ p.blocks ∧ (p.heap b).isNull = false ∧ (p.heap b).refCnt = 0
  nonneg : ∀ b ∈ p.blocks, (p.heap b).isNull = false → 0 ≤ (p.heap b).refCnt
  null : ∀ r, (p.heap r).isNull = true ↔ r = p.nullBlock
  nullMem : p.nullBlock ∈ p.blocks

/-- The free list is `F`, of unreferenced blocks other than the null block. -/
structure FreeList (p : BlockPool) (F : List BlockRef) : Prop where
  queue : p.freeBlockQueue.Represents F
  free : ∀ b ∈ F, b ∈ p.blocks ∧ (p.heap b).isNull = false ∧ (p.heap b).refCnt = 0

variable {p p' : BlockPool} {b : BlockRef} {bs F A B : List BlockRef} {n : Nat}

theorem FreeList.getNumFreeBlocks_eq (h : FreeList p F) : p.getNumFreeBlocks = F.length :=
  h.queue.count

theorem KeepsLinks.represents (h : KeepsLinks p p') (hq : p.freeBlockQueue.Represents F) :
    p'.freeBlockQueue.Represents F where
  seg := hq.seg.frame (fun w _ => h.next w) fun w _ => h.prev w
  nodup := hq.nodup
  stop := (h.next _).trans hq.stop
  count := h.count.trans hq.count

namespace PoolInv

section

variable (h : PoolInv p F)
include h

theorem congr (hc : SameConfig p p') (hr : KeepsRefs p p') (hl : KeepsLinks p p') :
    PoolInv p' F where
  queue := hl.represents h.queue
  mem b := by rw [h.mem, hc.blocks, hc.isNull, hr]
  nonneg b hb hn := by
    rw [hr]
    exact h.nonneg b (hc.blocks ▸ hb) (hc.isNull b ▸ hn)
  null r := by rw [hc.isNull, hc.nullBlock, h.null]
  nullMem := by rw [hc.nullBlock, hc.blocks]; exact h.nullMem

theorem freeList : FreeList p F := ⟨h.queue, fun b => (h.mem b).mp⟩

theorem update (hc : SameConfig p p') (hl : FreeList p' A) (href : ∀ b ∈ p.blocks,
    (p.heap b).isNull = false → 0 ≤ (p'.heap b).refCnt ∧ ((p'.heap b).refCnt = 0 → b ∈ A)) :
    PoolInv p' A where
  queue := hl.queue
  mem b := by
    refine ⟨hl.free b, fun hb => ?_⟩
    rw [hc.blocks, hc.isNull] at hb
    exact (href b hb.1 hb.2.1).2 hb.2.2
  nonneg b hb hn := (href b (hc.blocks ▸ hb) (hc.isNull b ▸ hn)).1
  null r := by rw [hc.isNull, hc.nullBlock, h.null]
  nullMem := by rw [hc.nullBlock, hc.blocks]; exact h.nullMem

theorem length_le : F.length ≤ p.numGpuBlocks := by
  have hsub : F.length ≤ p.blocks.length :=
    (subperm_of_subset h.queue.nodup_blocks fun b hb => ((h.mem b).mp hb).1).length_le
  simpa [blocks] using hsub

theorem getAllFreeBlocks_eq :
    p.freeBlockQueue.getAllFreeBlocks (p.numGpuBlocks + 1) = .ok (some F) :=
  FreeKVCacheBlockQueue.getAllFreeBlocks_spec h.queue (Nat.lt_succ_of_le h.length_le)

theorem nullBlock_notMem : p.nullBlock ∉ F := fun hm => by
  have := ((h.mem _).mp hm).2.1
  rw [(h.null _).mpr rfl] at this
  cases this

end

end PoolInv

theorem fakeHead_notMem_blocks : BlockRef.fakeHead ∉ p.blocks := fun h => by
  obtain ⟨i, -, hi⟩ := mem_blocks.mp h
  cases hi

theorem fakeTail_notMem_blocks : BlockRef.fakeTail ∉ p.blocks := fun h => by
  obtain ⟨i, -, hi⟩ := mem_blocks.mp h
  cases hi

theorem nodup_sentinels (hd : bs.Nodup) (hb : ∀ b ∈ bs, b ∈ p.blocks) :
    (BlockRef.fakeHead :: bs ++ [BlockRef.fakeTail]).Nodup := by
  rw [cons_append, nodup_cons, nodup_append]
  refine ⟨fun hm => ?_, hd, by simp, fun b hm c hc => ?_⟩
  · rcases mem_append.mp hm with hm | hm
    · exact fakeHead_notMem_blocks (hb _ hm)
    · simp at hm
  · obtain rfl : c = .fakeTail := by simpa using hc
    rintro rfl
    exact fakeTail_notMem_blocks (hb _ hm)

/-! ## Allocation -/

private theorem takeLoop_ok (h : Coherent p) (hd : bs.Nodup)
    (hz : ∀ b ∈ bs, (p.heap b).refCnt = 0) : ∃ p', takeLoop bs p = .ok p' := by
  induction bs generalizing p with
  | nil => exact ⟨p, rfl⟩
  | cons b bs ih =>
    obtain ⟨hb, hd⟩ := nodup_cons.mp hd
    obtain ⟨-, hrefs, -, hcoh, -⟩ := maybeEvict_effect h b
    have hstep : ∀ q, Coherent q → KeepsRefs p q →
        ∃ p', (do assert ((q.heap b).refCnt = 0) ""; takeLoop bs (q.addRef b 1)) = .ok p' := by
      intro q hq hr
      have hb0 : (q.heap b).refCnt = 0 := (hr b).trans (hz b (by simp))
      simp only [assert, hb0, decide_true, if_true, ok_bind]
      refine ih (hq.congr (addRef_config q b 1) (addRef_keepsHashes q b 1)) hd fun c hc => ?_
      have hcb : c ≠ b := fun h0 => hb (h0 ▸ hc)
      rw [addRef_refCnt, if_neg hcb, hr, hz c (mem_cons_of_mem _ hc)]
      rfl
    unfold takeLoop
    split
    · exact hstep _ hcoh hrefs
    · exact hstep p h (.refl p)

/-- The blocks at the head of the free list are handed out, with a reference and no hash. -/
theorem FreeList.getNewBlocks (h : FreeList p F) (hcoh : Coherent p) (hn : n ≤ F.length) :
    ∃ p', p.getNewBlocks n = .ok (F.take n, p') ∧ SameConfig p p' ∧ FreeList p' (F.drop n) ∧
      (∀ b, (p'.heap b).refCnt = (p.heap b).refCnt + (F.take n).count b) ∧
      ∀ b, (p'.heap b).blockHash = if b ∈ F.take n then none else (p.heap b).blockHash := by
  obtain ⟨q, hpop, hq, hdata⟩ := FreeKVCacheBlockQueue.popleftN_spec h.queue hn
  obtain ⟨hc, hr, hh⟩ := setQueue_effect hdata
  have hd := h.queue.nodup_blocks
  rw [← take_append_drop n F, nodup_append] at hd
  have hzero : ∀ b ∈ F.take n, ((p.setQueue q).heap b).refCnt = 0 := fun b hb => by
    rw [hr]
    exact (h.free b (mem_of_mem_take hb)).2.2
  obtain ⟨p', htake⟩ := takeLoop_ok (hcoh.congr hc hh) hd.1 hzero
  obtain ⟨hc', hl', -, -, -, hcount, hhash⟩ := takeLoop_effect (hcoh.congr hc hh) htake
  have href : ∀ b, (p'.heap b).refCnt = (p.heap b).refCnt + (F.take n).count b := fun b => by
    rw [hcount, hr]
  refine ⟨p', ?_, hc.trans hc', ⟨hl'.represents hq, fun b hb => ?_⟩, href, fun b => ?_⟩
  · rw [BlockPool.getNewBlocks, if_neg (by rw [h.getNumFreeBlocks_eq]; omega), hpop, ok_bind]
    dsimp only
    rw [htake, ok_bind]
  · -- what is left is as it was
    have hnot : b ∉ F.take n := fun htaken => hd.2.2 b htaken b hb rfl
    rw [(hc.trans hc').blocks, (hc.trans hc').isNull, href, count_eq_zero_of_not_mem hnot]
    simpa using h.free b (mem_of_mem_drop hb)
  · rw [hhash, hh.hash]

theorem getNewBlocks_spec (h : PoolInv p F) (hcoh : Coherent p) (hn : n ≤ F.length) :
    ∃ p', p.getNewBlocks n = .ok (F.take n, p') ∧ PoolInv p' (F.drop n) := by
  obtain ⟨p', hrun, hc, hl, href, -⟩ := h.freeList.getNewBlocks hcoh hn
  refine ⟨p', hrun, h.update hc hl fun b hb hnull => ?_⟩
  have hnonneg := h.nonneg b hb hnull
  rw [href]
  refine ⟨by omega, fun hzero => ?_⟩
  have hF : b ∈ F := (h.mem b).mpr ⟨hb, hnull, by omega⟩
  rw [← take_append_drop n F, mem_append] at hF
  refine hF.resolve_left fun htaken => ?_
  have := count_pos_iff.mpr htaken
  omega

theorem getNewBlocks_refused {n : Int} (h : PoolInv p F) (hn : F.length < n) :
    p.getNewBlocks n = .error (.ValueError s!"Cannot get {n} free blocks from the pool") := by
  rw [getNewBlocks, if_pos (by rw [h.freeList.getNumFreeBlocks_eq]; exact hn)]

/-! ## Touching -/

private theorem filter_ne_eq (hd : (A ++ b :: B).Nodup) :
    (A ++ b :: B).filter (fun c => c ≠ b) = A ++ B := by
  obtain ⟨-, hB, hAB⟩ := nodup_append.mp hd
  have hA : ∀ c ∈ A, c ≠ b := fun c hc => hAB c hc b (by simp)
  have hB' : ∀ c ∈ B, c ≠ b := fun c hc h0 => (nodup_cons.mp hB).1 (h0 ▸ hc)
  rw [filter_append, filter_cons_of_neg (by simp),
    filter_eq_self.mpr fun c hc => by simpa using hA c hc,
    filter_eq_self.mpr fun c hc => by simpa using hB' c hc]

private theorem FreeList.removeCandidate (h : FreeList p F)
    (hb : (p.heap b).isNull = true ∨ ((p.heap b).refCnt = 0 → b ∈ F)) :
    ∃ q, p.removeCandidate b = .ok q ∧ q.Represents (F.filter fun c => c ≠ b) ∧
      p.heap.SameData q.heap := by
  by_cases hc : (p.heap b).refCnt = 0 ∧ (p.heap b).isNull = false
  · have hmem : b ∈ F := (hb.resolve_left (by rw [hc.2]; exact Bool.false_ne_true)) hc.1
    obtain ⟨A, B, rfl⟩ := append_of_mem hmem
    obtain ⟨q, hrem, hq, hdata⟩ := FreeKVCacheBlockQueue.remove_spec h.queue
    rw [filter_ne_eq h.queue.nodup_blocks]
    exact ⟨q, by rw [BlockPool.removeCandidate, if_pos hc, hrem], hq, hdata⟩
  · have hmem : b ∉ F := fun hm => hc ⟨(h.free b hm).2.2, (h.free b hm).2.1⟩
    refine ⟨p.freeBlockQueue, by rw [BlockPool.removeCandidate, if_neg hc], ?_, p.heap.sameData_refl⟩
    rw [filter_eq_self.mpr fun c hc => by simpa using fun h0 : c = b => hmem (h0 ▸ hc)]
    exact h.queue

/-- The touched blocks leave the free list, if those of them that nobody references are on it. -/
theorem FreeList.touch (h : FreeList p F) (hbs : ∀ b ∈ bs, (p.heap b).isNull = true ∨
    (0 ≤ (p.heap b).refCnt ∧ ((p.heap b).refCnt = 0 → b ∈ F))) :
    ∃ p', BlockPool.touch bs p = .ok p' ∧ FreeList p' (F.filter fun c => c ∉ bs) := by
  induction bs generalizing p F with
  | nil => exact ⟨p, rfl, by simpa using h⟩
  | cons b bs ih =>
    obtain ⟨q, hq, hrep, hdata⟩ := h.removeCandidate ((hbs b mem_cons_self).imp_right And.right)
    obtain ⟨hc, hr, -⟩ := setQueue_effect hdata
    have hcfg := hc.trans (addRef_config _ b 1)
    have hstep : FreeList ((p.setQueue q).addRef b 1) (F.filter fun c => c ≠ b) := by
      refine ⟨((p.setQueue q).addRef_keepsLinks b 1).represents hrep, fun c hcF => ?_⟩
      obtain ⟨hcF, hcb⟩ := mem_filter.mp hcF
      rw [hcfg.blocks, hcfg.isNull, addRef_refCnt, hr, if_neg (by simpa using hcb), Int.add_zero]
      exact h.free c hcF
    obtain ⟨p', hrun, hl⟩ := ih hstep fun c hcb => by
      rw [hcfg.isNull, addRef_refCnt, hr, mem_filter]
      refine (hbs c (mem_cons_of_mem _ hcb)).imp_right fun ⟨hnonneg, hfree⟩ => ?_
      split
      · exact ⟨by omega, by omega⟩
      · rename_i hne
        exact ⟨by omega, fun hzero => ⟨hfree (by omega), by simpa using hne⟩⟩
    refine ⟨p', by rw [BlockPool.touch, hq, ok_bind, hrun], ?_⟩
    rw [filter_filter] at hl
    rwa [filter_congr (q := fun c => decide (c ∉ bs) && decide (c ≠ b)) fun c _ => by
      by_cases hcb : c = b <;> simp [hcb]]

theorem mem_filter_touched (hb : b ∈ F) (hzero : (p.heap b).refCnt + bs.count b = 0)
    (hnonneg : 0 ≤ (p.heap b).refCnt) : b ∈ F.filter fun c => c ∉ bs := by
  refine mem_filter.mpr ⟨hb, decide_eq_true fun hin => ?_⟩
  have := count_pos_iff.mpr hin
  omega

theorem touch_spec (h : PoolInv p F) (hbs : ∀ b ∈ bs, b ∈ p.blocks) :
    ∃ p', touch bs p = .ok p' ∧ PoolInv p' (F.filter fun c => c ∉ bs) := by
  have hfree : ∀ b ∈ bs, (p.heap b).isNull = true ∨
      (0 ≤ (p.heap b).refCnt ∧ ((p.heap b).refCnt = 0 → b ∈ F)) := by
    intro b hb
    cases hnull : (p.heap b).isNull with
    | true => exact .inl rfl
    | false =>
      exact .inr ⟨h.nonneg b (hbs b hb) hnull, fun hzero => (h.mem b).mpr ⟨hbs b hb, hnull, hzero⟩⟩
  obtain ⟨p', hrun, hl⟩ := h.freeList.touch hfree
  obtain ⟨hc, -, hr⟩ := touch_effect hrun
  refine ⟨p', hrun, h.update hc hl fun b hb hnull => ?_⟩
  have hnonneg := h.nonneg b hb hnull
  rw [hr]
  exact ⟨by omega, fun hzero =>
    mem_filter_touched ((h.mem b).mpr ⟨hb, hnull, by omega⟩) hzero hnonneg⟩

/-! ## Freeing -/

/-- What a caller of `free_blocks` owes: it holds every reference that it releases, and
a call that drops the last reference to a block names it once. -/
def Releases (p : BlockPool) (bs : List BlockRef) : Prop :=
  ∀ b ∈ bs, b ∈ p.blocks ∧ ((p.heap b).isNull = false →
    (bs.count b : Int) ≤ (p.heap b).refCnt ∧
      ((bs.count b : Int) = (p.heap b).refCnt → bs.count b = 1))

/-- The blocks whose last reference `free_blocks` drops. -/
def dropped (p : BlockPool) (bs : List BlockRef) : List BlockRef :=
  bs.filter fun b => (p.heap b).refCnt = bs.count b ∧ (p.heap b).isNull = false

theorem mem_dropped : b ∈ p.dropped bs ↔
    b ∈ bs ∧ (p.heap b).refCnt = bs.count b ∧ (p.heap b).isNull = false := by
  simp [dropped]

/-- The blocks whose last reference is dropped go to the end of the free list. -/
theorem FreeList.freeBlocks (h : FreeList p F) (hbs : ∀ b ∈ bs, (p.heap b).isNull = false →
    b ∈ p.blocks ∧ (bs.count b : Int) ≤ (p.heap b).refCnt ∧
      ((bs.count b : Int) = (p.heap b).refCnt → bs.count b = 1)) :
    ∃ p', p.freeBlocks bs = .ok p' ∧ FreeList p' (F ++ p.dropped bs) := by
  obtain ⟨hc, hh, hl, hr⟩ := releaseLoop_effect bs p
  have hdrop : bs.filter (fun b => ((releaseLoop bs p).heap b).refCnt = 0 ∧
      ((releaseLoop bs p).heap b).isNull = false) = p.dropped bs := by
    refine filter_congr fun b _ => ?_
    rw [hr, hc.isNull]
    simp only [Int.sub_eq_zero]
  have hnodup : (p.dropped bs).Nodup := by
    rw [nodup_iff_count_le_one]
    intro b
    by_cases hb : b ∈ p.dropped bs
    · obtain ⟨hb, hlast, hnull⟩ := mem_dropped.mp hb
      have hone := (hbs b hb hnull).2.2 hlast.symm
      exact Nat.le_trans (filter_sublist.count_le b) (Nat.le_of_eq hone)
    · rw [count_eq_zero_of_not_mem hb]
      omega
  have hdisj : ∀ b ∈ F, b ∉ bs := fun b hb hb' => by
    obtain ⟨hblk, hnull, hzero⟩ := h.free b hb
    have := (hbs b hb' hnull).2.1
    have := count_pos_iff.mpr hb'
    omega
  have hall : (F ++ p.dropped bs).Nodup := by
    refine nodup_append.mpr ⟨h.queue.nodup_blocks, hnodup, fun b hb c hc' => ?_⟩
    rintro rfl
    exact hdisj b hb (mem_dropped.mp hc').1
  have hblocks : ∀ b ∈ F ++ p.dropped bs, b ∈ p.blocks := by
    intro b hb
    rcases mem_append.mp hb with hb | hb
    · exact (h.free b hb).1
    · obtain ⟨hb, -, hnull⟩ := mem_dropped.mp hb
      exact (hbs b hb hnull).1
  obtain ⟨q, hq, hrep, hdata⟩ := FreeKVCacheBlockQueue.appendN_spec (hl.represents h.queue)
    (nodup_sentinels hall hblocks)
  obtain ⟨hc', hr', -⟩ := setQueue_effect hdata
  refine ⟨(releaseLoop bs p).setQueue q, by rw [BlockPool.freeBlocks, hdrop, hq, ok_bind], hrep,
    fun b hb => ?_⟩
  rw [(hc.trans hc').blocks, (hc.trans hc').isNull, hr', hr]
  rcases mem_append.mp hb with hb | hb
  · rw [count_eq_zero_of_not_mem (hdisj b hb)]
    simpa using h.free b hb
  · obtain ⟨hb, hlast, hnull⟩ := mem_dropped.mp hb
    exact ⟨(hbs b hb hnull).1, hnull, by rw [hlast, Int.sub_self]⟩

theorem freeBlocks_spec (h : PoolInv p F) (hbs : Releases p bs) :
    ∃ p', p.freeBlocks bs = .ok p' ∧ PoolInv p' (F ++ p.dropped bs) := by
  obtain ⟨p', hrun, hl⟩ := h.freeList.freeBlocks fun b hb hnull =>
    ⟨(hbs b hb).1, (hbs b hb).2 hnull⟩
  obtain ⟨hc, -, hr⟩ := freeBlocks_effect hrun
  refine ⟨p', hrun, h.update hc hl fun b hb hnull => ?_⟩
  have hnonneg := h.nonneg b hb hnull
  rw [hr, mem_append]
  by_cases hbm : b ∈ bs
  · have := ((hbs b hbm).2 hnull).1
    exact ⟨by omega, fun hzero => .inr (mem_dropped.mpr ⟨hbm, by omega, hnull⟩)⟩
  · rw [count_eq_zero_of_not_mem hbm]
    exact ⟨by omega, fun hzero => .inl ((h.mem b).mpr ⟨hb, hnull, by omega⟩)⟩

/-! ## Caching -/

/-- What a caller of `cache_full_blocks` owes: caching is enabled, the blocks up to
`num_full_blocks` exist and are blocks of the pool, the request has their hashes, and those
not cached yet carry no hash and are distinct, null blocks apart. -/
structure CacheCall (p : BlockPool) (request : Request) (blocks : List BlockRef)
    (numCachedBlocks numFullBlocks blockSize : Nat) : Prop where
  caching : p.enableCaching = true
  length : numFullBlocks ≤ blocks.length
  mem : ∀ b ∈ (blocks.take numFullBlocks).drop numCachedBlocks, b ∈ p.blocks
  hashes : ∃ hs, p.blockHashesAt request blockSize = .ok hs ∧ numFullBlocks ≤ hs.length
  hashCount : numFullBlocks ≤ request.blockHashes.length
  unhashed : ∀ b ∈ (blocks.take numFullBlocks).drop numCachedBlocks,
    (p.heap b).isNull = false → (p.heap b).blockHash = none
  distinct : (((blocks.take numFullBlocks).drop numCachedBlocks).filter
    fun b => (p.heap b).isNull = false).Nodup

theorem cacheLoop_noAssert {groupId : Nat} {hashes : List BlockHash}
    (hu : ∀ b ∈ bs, (p.heap b).isNull = false → (p.heap b).blockHash = none)
    (hd : (bs.filter fun b => (p.heap b).isNull = false).Nodup) :
    (∀ msg, cacheLoop groupId bs hashes p ≠ .error (.AssertionError msg)) ∧
      (bs.length ≤ hashes.length → ∃ r, cacheLoop groupId bs hashes p = .ok r) := by
  induction bs generalizing p hashes with
  | nil => exact ⟨fun _ h => (by cases h), fun _ => ⟨_, rfl⟩⟩
  | cons b bs ih =>
    unfold cacheLoop
    by_cases hnull : (p.heap b).isNull = true
    · rw [if_pos hnull]
      have hrec := @ih p hashes.tail (fun c hc => hu c (mem_cons_of_mem _ hc))
        (by rwa [filter_cons_of_neg (by simp [hnull])] at hd)
      refine ⟨hrec.1, fun hlen => hrec.2 ?_⟩
      simp only [length_cons, length_tail] at hlen ⊢
      omega
    · rw [if_neg hnull]
      have hnull : (p.heap b).isNull = false := by simpa using hnull
      simp only [hu b (by simp) hnull, Option.isNone_none, assert, if_true, ok_bind]
      rw [filter_cons_of_pos (by simp [hnull]), nodup_cons] at hd
      cases hashes with
      | nil => exact ⟨fun _ h => (by cases h), fun hlen => absurd hlen (by simp)⟩
      | cons hash hashes =>
        dsimp only
        obtain ⟨hcfg, -, -, hhash⟩ := p.cacheBlock_effect b (makeBlockHashWithGroupId hash groupId)
        generalize p.cacheBlock b (makeBlockHashWithGroupId hash groupId) = q at hcfg hhash
        have hrec := @ih q hashes (fun c hc hn => by
            have hcb : c ≠ b := by
              rintro rfl
              exact hd.1 (by simpa [hc] using hnull)
            rw [hhash, if_neg hcb]
            exact hu c (mem_cons_of_mem _ hc) (hcfg.isNull c ▸ hn))
          (by simpa only [hcfg.isNull] using hd.2)
        refine ⟨fun msg h => ?_, fun hlen => ?_⟩
        · cases hloop : cacheLoop groupId bs hashes q with
          | error e =>
            rw [hloop, error_bind] at h
            exact hrec.1 msg (hloop.trans (by cases h; rfl))
          | ok r =>
            rw [hloop, ok_bind] at h
            cases h
        · obtain ⟨r, hr⟩ := hrec.2 (by simpa using hlen)
          rw [hr]
          exact ⟨_, rfl⟩

theorem cacheFullBlocks_ok {request : Request} {blocks : List BlockRef}
    {numCachedBlocks numFullBlocks blockSize : Nat} (groupId : Nat)
    (h : CacheCall p request blocks numCachedBlocks numFullBlocks blockSize) :
    ∃ p', p.cacheFullBlocks request blocks numCachedBlocks numFullBlocks blockSize groupId =
      .ok p' := by
  unfold cacheFullBlocks
  by_cases hge : numCachedBlocks ≥ numFullBlocks
  · exact ⟨p, if_pos hge⟩
  · obtain ⟨hs, hhs, hlen⟩ := h.hashes
    obtain ⟨⟨q, newHashes⟩, hloop⟩ :=
      (@cacheLoop_noAssert p _ groupId (hs.drop numCachedBlocks) h.unhashed h.distinct).2 (by
          rw [length_drop, length_take, length_drop]
          omega)
    rw [if_neg hge]
    simp only [assert, ge_iff_le, h.hashCount, decide_true, if_true, ok_bind, hhs, hloop]
    by_cases hev : q.enableKvCacheEvents = true
    · obtain ⟨parent, hparent⟩ : ∃ parent, q.parentBlockHash hs numCachedBlocks = .ok parent := by
        cases hn : numCachedBlocks with
        | zero => exact ⟨none, rfl⟩
        | succ n =>
          obtain ⟨x, hx⟩ : ∃ x, hs[n]? = some x := ⟨hs[n], getElem?_eq_getElem (by omega)⟩
          exact ⟨_, by rw [parentBlockHash, hx]⟩
      rw [if_pos hev, hparent, ok_bind, if_neg (by have := h.length; omega)]
      exact ⟨_, rfl⟩
    · rw [if_neg hev]
      exact ⟨_, rfl⟩

theorem evictBlocks_ok {ids : List Nat} (h : ∀ id ∈ ids, id < p.numGpuBlocks) :
    ∃ p', evictBlocks ids p = .ok p' := by
  induction ids generalizing p with
  | nil => exact ⟨p, rfl⟩
  | cons id ids ih =>
    rw [evictBlocks]
    simp only [assert, h id (by simp), decide_true, if_true, ok_bind]
    refine ih fun i hi => ?_
    have hn : (p.maybeEvictCachedBlock (.blk id)).2.numGpuBlocks = p.numGpuBlocks :=
      p.maybeEvict_numGpuBlocks _
    rw [hn]
    exact h i (mem_cons_of_mem _ hi)

/-! ## The fresh pool -/

private theorem markNull (hq : p.freeBlockQueue.Represents F)
    (hblk : ∀ r, (p.heap r).refCnt = 0 ∧ (p.heap r).blockHash = none ∧ (p.heap r).isNull = false)
    (hmap : p.cachedBlockHashToBlock = .init) (hblocks : p.blocks = p.nullBlock :: F)
    (hnull : p.nullBlock ∉ F) :
    Coherent (p.modifyBlock p.nullBlock fun b => { b with isNull := true }) ∧
      PoolInv (p.modifyBlock p.nullBlock fun b => { b with isNull := true }) F ∧
      ∀ r, ((p.modifyBlock p.nullBlock fun b => { b with isNull := true }).heap r).refCnt = 0 := by
  have hisNull : ∀ r, ((p.modifyBlock p.nullBlock fun b => { b with isNull := true }).heap r).isNull =
      decide (r = p.nullBlock) := fun r => by
    by_cases hr : r = p.nullBlock <;> simp [hr, hblk]
  have hhash : ∀ r, ((p.modifyBlock p.nullBlock fun b =>
      { b with isNull := true }).heap r).blockHash = none := fun r => by
    by_cases hr : r = p.nullBlock <;> simp [hr, hblk]
  have href : ∀ r, ((p.modifyBlock p.nullBlock fun b =>
      { b with isNull := true }).heap r).refCnt = 0 := fun r => by
    by_cases hr : r = p.nullBlock <;> simp [hr, hblk]
  have hlinks : KeepsLinks p (p.modifyBlock p.nullBlock fun b => { b with isNull := true }) := by
    refine ⟨fun r => ?_, fun r => ?_, rfl⟩ <;> by_cases hr : r = p.nullBlock <;> simp [hr]
  have hblocks' : (p.modifyBlock p.nullBlock fun b => { b with isNull := true }).blocks =
      p.nullBlock :: F := hblocks
  have hmap' : (p.modifyBlock p.nullBlock fun b =>
      { b with isNull := true }).cachedBlockHashToBlock = .init := hmap
  have hnull' : (p.modifyBlock p.nullBlock fun b => { b with isNull := true }).nullBlock =
      p.nullBlock := rfl
  generalize p.modifyBlock p.nullBlock (fun b => { b with isNull := true }) = p'
    at hisNull hhash href hlinks hblocks' hmap' hnull'
  refine ⟨⟨hmap' ▸ BlockHashToBlockMap.init_wf, fun b key => ?_, fun b key hk => ?_,
    fun b key hk => ?_, fun _ => hhash⟩, ⟨hlinks.represents hq, fun b => ?_, fun b _ _ => ?_,
    fun r => ?_, ?_⟩, href⟩
  · rw [hhash, hmap']
    simp
  · rw [hhash] at hk
    cases hk
  · rw [hhash] at hk
    cases hk
  · rw [hblocks', hisNull, href]
    by_cases hb : b = p.nullBlock
    · simp [hb, hnull]
    · simp [hb]
  · exact Int.le_of_eq (href b).symm
  · rw [hisNull, hnull']
    simp
  · rw [hblocks', hnull']
    simp

/-- A fresh pool: every block but block 0 is free, none is referenced or hashed. -/
structure IsFresh (p : BlockPool) (numGpuBlocks hashBlockSize : Nat) (enableCaching : Bool) :
    Prop where
  coherent : Coherent p
  inv : PoolInv p ((List.range' 1 (numGpuBlocks - 1)).map .blk)
  refs : ∀ r, (p.heap r).refCnt = 0
  hashes : ∀ r, (p.heap r).blockHash = none
  numGpuBlocks : p.numGpuBlocks = numGpuBlocks
  nullBlock : p.nullBlock = .blk 0
  enableCaching : p.enableCaching = enableCaching
  hashBlockSize : p.hashBlockSize = hashBlockSize

theorem init_ok {numGpuBlocks : Nat} (hpos : 0 < numGpuBlocks) (hashBlockSize : Nat)
    (enableCaching events useInt : Bool) :
    ∃ p, init numGpuBlocks enableCaching hashBlockSize events useInt = .ok p ∧
      IsFresh p numGpuBlocks hashBlockSize enableCaching := by
  obtain ⟨k, rfl⟩ : ∃ k, numGpuBlocks = k + 1 := ⟨numGpuBlocks - 1, by omega⟩
  let rest : List BlockRef := (List.range' 1 k).map .blk
  have hlist : (List.range (k + 1)).map BlockRef.blk = .blk 0 :: rest := by
    rw [range_eq_range', range'_succ, map_cons]
  have hd : (BlockRef.fakeHead :: (.blk 0 :: rest) ++ [BlockRef.fakeTail]).Nodup := by
    have hinj : Function.Injective BlockRef.blk := fun _ _ h => BlockRef.blk.inj h
    rw [← hlist, cons_append, nodup_cons, nodup_append]
    refine ⟨by simp, nodup_range.map hinj, by simp, fun b hb c hc => ?_⟩
    obtain rfl : c = .fakeTail := by simpa using hc
    rintro rfl
    simp at hb
  obtain ⟨hrep, hdata⟩ := FreeKVCacheBlockQueue.init_spec hd
  obtain ⟨q, hpop, hq, hsame⟩ := FreeKVCacheBlockQueue.popleft_spec hrep
  have hblk : ∀ r, (q.heap r).refCnt = 0 ∧ (q.heap r).blockHash = none ∧
      (q.heap r).isNull = false := fun r =>
    ⟨(hsame r).1.trans (hdata r).1, (hsame r).2.1.trans (hdata r).2.1,
      (hsame r).2.2.trans (hdata r).2.2⟩
  let p : BlockPool := {
    numGpuBlocks := k + 1, enableCaching, hashBlockSize, freeBlockQueue := q
    cachedBlockHashToBlock := .init, nullBlock := .blk 0, enableKvCacheEvents := events
    useIntBlockHashes := useInt, kvEventQueue := [] }
  obtain ⟨hcoh, hinv, href⟩ := markNull (p := p) hq hblk rfl hlist (by simp [rest, p])
  refine ⟨p.modifyBlock (.blk 0) fun b => { b with isNull := true }, ?_, hcoh, hinv, href,
    fun r => ?_, rfl, rfl, rfl, rfl⟩
  · simp only [init, assert, gt_iff_lt, Nat.zero_lt_succ, decide_true, if_true, ok_bind]
    rw [hlist, hpop, ok_bind]
  · cases hk : ((p.modifyBlock (.blk 0) fun b => { b with isNull := true }).heap r).blockHash with
    | none => rfl
    | some key =>
      have hmem := (hcoh.iff r key).mp hk
      exact absurd hmem (by simp [p, modifyBlock, setQueue])

theorem init_spec {p : BlockPool} {numGpuBlocks hashBlockSize : Nat}
    {enableCaching events useInt : Bool}
    (hrun : init numGpuBlocks enableCaching hashBlockSize events useInt = .ok p) :
    IsFresh p numGpuBlocks hashBlockSize enableCaching := by
  obtain ⟨_, hpos, -⟩ := bind_ok hrun
  obtain ⟨q, hq, hfresh⟩ := init_ok (by simpa using hpos) hashBlockSize enableCaching events useInt
  rw [hrun] at hq
  cases hq
  exact hfresh

end BlockPool

end MyOperator.KvCache
