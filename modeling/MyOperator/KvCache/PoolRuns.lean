import MyOperator.KvCache.Conservation

/-!
# Runs of the block pool

The six operations of a pool as one step, and the two invariants over its runs:
hashes and map agree (`hash_iff_cached`), and the free list is exactly the set of
unreferenced blocks (`free_list_conserved`).
-/

namespace MyOperator.KvCache

open Lib

/-- A call of the pool. -/
inductive PoolOp
  | getNewBlocks (numBlocks : Int)
  | touch (blocks : List BlockRef)
  | freeBlocks (orderedBlocks : List BlockRef)
  | cacheFullBlocks (request : Request) (blocks : List BlockRef)
      (numCachedBlocks numFullBlocks blockSize groupId : Nat)
  | evictBlocks (blockIds : List Nat)
  | resetPrefixCache

namespace PoolOp

/-- The pool after a call. -/
def run (p : BlockPool) : PoolOp → Except PyError BlockPool
  | getNewBlocks n => (p.getNewBlocks n).map Prod.snd
  | touch bs => BlockPool.touch bs p
  | freeBlocks bs => p.freeBlocks bs
  | cacheFullBlocks request blocks c f s g => p.cacheFullBlocks request blocks c f s g
  | evictBlocks ids => BlockPool.evictBlocks ids p
  | resetPrefixCache => .ok p.resetPrefixCache.2

/-- The blocks that a call caches. -/
def cached : PoolOp → List BlockRef
  | cacheFullBlocks _ blocks c f _ _ => (blocks.take f).drop c
  | _ => []

/-- Only `cache_full_blocks` is guarded: it is called with caching enabled, on blocks of
the pool. -/
def Guarded (p : BlockPool) : PoolOp → Prop
  | cacheFullBlocks _ blocks c f _ _ =>
    p.enableCaching = true ∧ ∀ b ∈ (blocks.take f).drop c, b ∈ p.blocks
  | _ => True

/-- The obligations of the callers. -/
def Allowed (p : BlockPool) : PoolOp → Prop
  | getNewBlocks n => 0 ≤ n
  | touch bs => ∀ b ∈ bs, b ∈ p.blocks
  | freeBlocks bs => p.Releases bs
  | cacheFullBlocks request blocks c f s _ => p.CacheCall request blocks c f s
  | evictBlocks ids => ∀ id ∈ ids, id < p.numGpuBlocks
  | resetPrefixCache => True

theorem Allowed.guarded {p : BlockPool} {op : PoolOp} (h : op.Allowed p) : op.Guarded p := by
  cases op with
  | cacheFullBlocks => exact ⟨h.caching, h.mem⟩
  | _ => trivial

end PoolOp

namespace BlockPool

variable {p p' : BlockPool} {op : PoolOp}

/-- A pool as `__init__` leaves it. -/
def Fresh (p : BlockPool) : Prop :=
  ∃ n caching hashBlockSize events useInt, init n caching hashBlockSize events useInt = .ok p

/-! ## Hashes and map -/

/-- What every call keeps: the map is coherent, and only `cache_full_blocks` hashes a block. -/
theorem run_coherent (h : Coherent p) (hg : op.Guarded p) (hrun : op.run p = .ok p') :
    SameConfig p p' ∧ Coherent p' ∧
      ∀ b, b ∉ op.cached → (p.heap b).blockHash = none → (p'.heap b).blockHash = none := by
  cases op with
  | getNewBlocks n =>
    cases hget : p.getNewBlocks n with
    | error e =>
      rw [PoolOp.run, hget] at hrun
      cases hrun
    | ok res =>
      rw [PoolOp.run, hget] at hrun
      cases hrun
      obtain ⟨hc, hcoh, -, -, -, hhash⟩ := getNewBlocks_effect h hget
      refine ⟨hc, hcoh, fun b _ hb => ?_⟩
      rw [hhash, hb, ite_self]
  | touch bs =>
    obtain ⟨hc, hh, -⟩ := touch_effect hrun
    exact ⟨hc, h.congr hc hh, fun b _ hb => (hh.hash b).trans hb⟩
  | freeBlocks bs =>
    obtain ⟨hc, hh, -⟩ := freeBlocks_effect hrun
    exact ⟨hc, h.congr hc hh, fun b _ hb => (hh.hash b).trans hb⟩
  | cacheFullBlocks request blocks c f s g =>
    obtain ⟨hashes, -, hcache⟩ := cacheFullBlocks_effect h hg.1 hg.2 hrun
    refine ⟨hcache.config, hcache.coherent, fun b hb hnone => ?_⟩
    rw [hcache.frame b (.inl hb), hnone]
  | evictBlocks ids =>
    obtain ⟨hc, -, -, hcoh, hf⟩ := evictBlocks_effect h hrun
    exact ⟨hc, hcoh, fun b _ hb => hf.none hb⟩
  | resetPrefixCache =>
    cases hrun
    obtain ⟨hc, -, -, hcoh, hf⟩ := resetPrefixCache_effect h
    exact ⟨hc, hcoh, fun b _ hb => hf.none hb⟩

/-- The pool under any calls, `cache_full_blocks` guarded. -/
def callSys : TSys BlockPool where
  init := Fresh
  step p p' := ∃ op : PoolOp, op.Guarded p ∧ op.run p = .ok p'

theorem coherent_invariant : callSys.Invariant Coherent :=
  TSys.Inductive.invariant
    { base := fun _ ⟨_, _, _, _, _, h⟩ => (init_spec h).coherent
      step := fun _ _ h ⟨_, hg, hrun⟩ => (run_coherent h hg hrun).2.1 }

/-- Calls that cache none of the blocks `bs`. -/
def Sparing (bs : List BlockRef) (p p' : BlockPool) : Prop :=
  ∃ op : PoolOp, op.Guarded p ∧ op.run p = .ok p' ∧ ∀ b ∈ bs, b ∉ op.cached

theorem sparing_unhashed {bs : List BlockRef} (h : Coherent p)
    (hbs : ∀ b ∈ bs, (p.heap b).blockHash = none) (hrun : Relation.ReflTransGen (Sparing bs) p p') :
    SameConfig p p' ∧ Coherent p' ∧ ∀ b ∈ bs, (p'.heap b).blockHash = none := by
  induction hrun with
  | refl => exact ⟨.refl p, h, hbs⟩
  | tail _ hstep ih =>
    obtain ⟨op, hg, hop, hspare⟩ := hstep
    obtain ⟨hc, hcoh, hbs⟩ := ih
    obtain ⟨hc', hcoh', hkeep⟩ := run_coherent hcoh hg hop
    exact ⟨hc.trans hc', hcoh', fun b hb => hkeep b (hspare b hb) (hbs b hb)⟩

/-- In every reachable pool a block has the hash `key` exactly when the map holds it under
`key`; a lookup returns blocks of exactly the requested hash and groups; and a block that
`get_new_blocks` returned stays out of the map, and cannot fail the assertion of
`cache_full_blocks`, for as long as it is not cached. -/
theorem hash_iff_cached {p : BlockPool} (hp : callSys.Reachable p) :
    (∀ b key, (p.heap b).blockHash = some key ↔ b ∈ p.cachedBlockHashToBlock.blocks key) ∧
      (∀ hash groupIds bs, p.getCachedBlock hash groupIds = some bs → List.Forall₂ (fun g b =>
          (p.heap b).blockHash = some (makeBlockHashWithGroupId hash g)) groupIds bs) ∧
      ∀ n ret p', p.getNewBlocks n = .ok (ret, p') →
        ∀ q, Relation.ReflTransGen (Sparing ret) p' q →
          (∀ b ∈ ret, (q.heap b).blockHash = none ∧
            ∀ key, b ∉ q.cachedBlockHashToBlock.blocks key) ∧
          ∀ groupId hashes bs msg, (∀ b ∈ bs, (q.heap b).isNull = true ∨ b ∈ ret) →
            (bs.filter fun b => (q.heap b).isNull = false).Nodup →
            cacheLoop groupId bs hashes q ≠ .error (.AssertionError msg) := by
  have h := coherent_invariant p hp
  refine ⟨h.iff, fun hash groupIds bs hget => h.getCachedBlock hget, fun n ret p' hget q hq => ?_⟩
  obtain ⟨-, hcoh, -, -, -, hhash⟩ := getNewBlocks_effect h hget
  have hnone : ∀ b ∈ ret, (p'.heap b).blockHash = none := fun b hb => by
    rw [hhash, if_pos hb]
  obtain ⟨-, hcoh', hnone'⟩ := sparing_unhashed hcoh hnone hq
  refine ⟨fun b hb => ⟨hnone' b hb, fun key hk => ?_⟩, fun groupId hashes bs msg hbs hd => ?_⟩
  · have := (hcoh'.iff b key).mpr hk
    rw [hnone' b hb] at this
    cases this
  · refine (cacheLoop_noAssert (fun b hb hn => ?_) hd).1 msg
    rcases hbs b hb with hnull | hret
    · rw [hnull] at hn
      cases hn
    · exact hnone' b hret

/-- A fresh pool of four blocks. -/
def sampleFresh : BlockPool := (init 4 true 1 false false).toOption.get (by decide)

theorem sampleFresh_fresh : Fresh sampleFresh := ⟨4, true, 1, false, false, eq_ok_get _⟩

/-- The same pool with two blocks handed out. -/
def samplePool : BlockPool := ((PoolOp.getNewBlocks 2).run sampleFresh).toOption.get (by decide)

/-- No block of that pool is hashed, and its map is empty. -/
theorem hash_iff_cached_sample :
    (samplePool.heap (.blk 1)).blockHash = some [0] ↔
      BlockRef.blk 1 ∈ samplePool.cachedBlockHashToBlock.blocks [0] :=
  (hash_iff_cached (.step (.init sampleFresh_fresh)
    ⟨.getNewBlocks 2, trivial, eq_ok_get _⟩)).1 (.blk 1) [0]

/-! ## The free list -/

/-- An allowed call goes through and keeps the invariant, or is the one refusal that the
pool makes: more blocks than are free. -/
theorem run_conserves {F : List BlockRef} (hcoh : Coherent p) (h : PoolInv p F)
    (ha : op.Allowed p) :
    (∃ p' F', op.run p = .ok p' ∧ PoolInv p' F') ∨
      ∃ n : Int, op = .getNewBlocks n ∧ F.length < n ∧
        op.run p = .error (.ValueError s!"Cannot get {n} free blocks from the pool") := by
  cases op with
  | getNewBlocks n =>
    obtain ⟨k, rfl⟩ := Int.eq_ofNat_of_zero_le ha
    by_cases hk : k ≤ F.length
    · obtain ⟨p', hrun, hinv⟩ := getNewBlocks_spec h hcoh hk
      exact .inl ⟨p', _, by rw [PoolOp.run, hrun]; rfl, hinv⟩
    · have hlt : (F.length : Int) < k := by omega
      exact .inr ⟨k, rfl, hlt, by rw [PoolOp.run, getNewBlocks_refused h hlt]; rfl⟩
  | touch bs =>
    obtain ⟨p', hrun, hinv⟩ := touch_spec h ha
    exact .inl ⟨p', _, hrun, hinv⟩
  | freeBlocks bs =>
    obtain ⟨p', hrun, hinv⟩ := freeBlocks_spec h ha
    exact .inl ⟨p', _, hrun, hinv⟩
  | cacheFullBlocks request blocks c f s g =>
    obtain ⟨p', hrun⟩ := cacheFullBlocks_ok g ha
    obtain ⟨hashes, -, hcache⟩ := cacheFullBlocks_effect hcoh ha.caching ha.mem hrun
    exact .inl ⟨p', F, hrun, h.congr hcache.config hcache.refs hcache.links⟩
  | evictBlocks ids =>
    obtain ⟨p', hrun⟩ := evictBlocks_ok ha
    obtain ⟨hc, hr, hl, -, -⟩ := evictBlocks_effect hcoh hrun
    exact .inl ⟨p', F, hrun, h.congr hc hr hl⟩
  | resetPrefixCache =>
    obtain ⟨hc, hr, hl, -, -⟩ := resetPrefixCache_effect hcoh
    exact .inl ⟨_, F, rfl, h.congr hc hr hl⟩

/-- The pool under calls that meet their obligations. -/
def poolSys : TSys BlockPool where
  init := Fresh
  step p p' := ∃ op : PoolOp, op.Allowed p ∧ op.run p = .ok p'

theorem poolInv_invariant : poolSys.Invariant fun p => Coherent p ∧ ∃ F, PoolInv p F :=
  TSys.Inductive.invariant
    { base := fun _ ⟨_, _, _, _, _, h⟩ => ⟨(init_spec h).coherent, _, (init_spec h).inv⟩
      step := fun p p' ⟨hcoh, F, h⟩ ⟨op, ha, hrun⟩ => by
        refine ⟨(run_coherent hcoh ha.guarded hrun).2.1, ?_⟩
        rcases run_conserves hcoh h ha with ⟨q, F', hq, hinv⟩ | ⟨n, -, -, herr⟩
        · rw [hq] at hrun
          cases hrun
          exact ⟨F', hinv⟩
        · rw [herr] at hrun
          cases hrun }

/-- In every reachable pool the free list, read off the links, holds exactly the blocks
other than the null block that nobody references, each once; `num_free_blocks` is its
length; an allocation hands out its first blocks; and no allowed call raises, except that
`get_new_blocks` refuses a request for more blocks than are free. -/
theorem free_list_conserved {p : BlockPool} (hp : poolSys.Reachable p) :
    ∃ F, p.freeBlockQueue.getAllFreeBlocks (p.numGpuBlocks + 1) = .ok (some F) ∧
      Seg (fun r => (p.heap r).nextFreeBlock) (fun r => (p.heap r).prevFreeBlock)
        .fakeHead F .fakeTail ∧
      F.Nodup ∧ (∀ b, b ∈ F ↔ b ∈ p.blocks ∧ b ≠ p.nullBlock ∧ (p.heap b).refCnt = 0) ∧
      p.getNumFreeBlocks = F.length ∧ p.nullBlock ∉ F ∧
      (∀ (n : Nat) ret p', p.getNewBlocks n = .ok (ret, p') → ret.length = n ∧ ret.Nodup ∧
        ∀ b ∈ ret, b ∈ p.blocks ∧ b ≠ p.nullBlock ∧ (p.heap b).refCnt = 0 ∧
          (p'.heap b).refCnt = 1) ∧
      ∀ op : PoolOp, op.Allowed p → (∃ p', op.run p = .ok p') ∨
        ∃ n : Int, op = .getNewBlocks n ∧ F.length < n ∧
          op.run p = .error (.ValueError s!"Cannot get {n} free blocks from the pool") := by
  obtain ⟨hcoh, F, h⟩ := poolInv_invariant p hp
  have hnull : ∀ b, (p.heap b).isNull = false ↔ b ≠ p.nullBlock := fun b => by
    rw [← Bool.not_eq_true, h.null]
  have hmem : ∀ b, b ∈ F ↔ b ∈ p.blocks ∧ b ≠ p.nullBlock ∧ (p.heap b).refCnt = 0 := fun b => by
    rw [h.mem, hnull]
  refine ⟨F, h.getAllFreeBlocks_eq, h.queue.seg, h.queue.nodup_blocks, hmem,
    h.freeList.getNumFreeBlocks_eq, h.nullBlock_notMem, fun n ret p' hget => ?_, fun op ha => ?_⟩
  · have hn : n ≤ F.length := by
      by_contra hlt
      rw [getNewBlocks_refused h (by omega)] at hget
      cases hget
    obtain ⟨q, hq, -⟩ := getNewBlocks_spec h hcoh hn
    obtain ⟨-, -, hd, hzero, hcount, -⟩ := getNewBlocks_effect hcoh hget
    rw [hq] at hget
    cases hget
    refine ⟨by rw [List.length_take]; omega, hd, fun b hb => ?_⟩
    obtain ⟨hblk, hne, -⟩ := (hmem b).mp (List.mem_of_mem_take hb)
    exact ⟨hblk, hne, hzero b hb, by rw [hcount, hzero b hb, List.count_eq_one_of_mem hd hb]; rfl⟩
  · rcases run_conserves hcoh h ha with ⟨p', -, hrun, -⟩ | hrefused
    · exact .inl ⟨p', hrun⟩
    · exact .inr hrefused

/-- After two allocations the free list of four blocks is one block long. -/
theorem free_list_conserved_sample :
    ∃ F, samplePool.freeBlockQueue.getAllFreeBlocks 5 = .ok (some F) ∧
      samplePool.getNumFreeBlocks = F.length ∧ samplePool.getNumFreeBlocks = 1 := by
  obtain ⟨F, hF, -, -, -, hcount, -⟩ := free_list_conserved (.step (.init sampleFresh_fresh)
    ⟨.getNewBlocks 2, show (0 : Int) ≤ 2 by decide, eq_ok_get _⟩)
  exact ⟨F, hF, hcount, by decide⟩

end BlockPool

end MyOperator.KvCache
