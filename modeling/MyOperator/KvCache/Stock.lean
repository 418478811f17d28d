import MyOperator.KvCache.Conservation

/-!
# What the pool has in stock

`Stock p F` says that the free list of the pool is `F` and that a cached block that nobody
references is on it. Unlike `PoolInv` it does not ask for all unreferenced blocks, so it holds
also where a manager has set blocks aside. Every call of the pool that goes through keeps it.
-/

namespace MyOperator.KvCache

open Lib List Option

namespace BlockPool

/-- The free list is `F`, of unreferenced blocks, with all of those that are cached. -/
structure Stock (p : BlockPool) (F : List BlockRef) : Prop where
  queue : p.freeBlockQueue.Represents F
  free : ∀ b ∈ F, b ∈ p.blocks ∧ (p.heap b).isNull = false ∧ (p.heap b).refCnt = 0
  cached : ∀ b, (p.heap b).blockHash ≠ none → (p.heap b).refCnt = 0 → b ∈ F
  nonneg : ∀ b, (p.heap b).blockHash ≠ none → 0 ≤ (p.heap b).refCnt

variable {p p' : BlockPool} {b : BlockRef} {bs F : List BlockRef}

theorem PoolInv.stock (h : PoolInv p F) (hcoh : Coherent p) : Stock p F where
  queue := h.queue
  free b hb := (h.mem b).mp hb
  cached b hhash hzero := by
    obtain ⟨key, hkey⟩ := ne_none_iff_exists'.mp hhash
    exact (h.mem b).mpr ⟨hcoh.mem b key hkey, hcoh.notNull b key hkey, hzero⟩
  nonneg b hhash := by
    obtain ⟨key, hkey⟩ := ne_none_iff_exists'.mp hhash
    exact h.nonneg b (hcoh.mem b key hkey) (hcoh.notNull b key hkey)

namespace Stock

/-- Operations that leave links and references alone, and cache referenced blocks only. -/
theorem congr (h : Stock p F) (hc : SameConfig p p') (hr : KeepsRefs p p') (hl : KeepsLinks p p')
    (hcached : ∀ b, (p'.heap b).blockHash ≠ none → (p.heap b).blockHash ≠ none ∨ 0 < (p.heap b).refCnt) :
    Stock p' F where
  queue := hl.represents h.queue
  free b hb := by
    rw [hc.blocks, hc.isNull, hr]
    exact h.free b hb
  cached b hhash hzero := by
    rw [hr] at hzero
    rcases hcached b hhash with hhash | hpos
    · exact h.cached b hhash hzero
    · exact absurd hzero hpos.ne'
  nonneg b hhash := by
    rw [hr]
    exact (hcached b hhash).elim (h.nonneg b) Int.le_of_lt

theorem freeList (h : Stock p F) : FreeList p F := ⟨h.queue, h.free⟩

/-- As many blocks as asked for are handed out, blocks of the pool other than the null block. -/
theorem getNewBlocks (h : Stock p F) (hcoh : Coherent p) {n : Int} (hn : 0 ≤ n) {ret : List BlockRef}
    (hrun : p.getNewBlocks n = .ok (ret, p')) :
    (∃ F', Stock p' F') ∧ (∀ b ∈ ret, b ∈ p.blocks ∧ (p.heap b).isNull = false) ∧
      (ret.length : Int) = n := by
  obtain ⟨m, rfl⟩ := Int.eq_ofNat_of_zero_le hn
  have hle : m ≤ F.length := by
    unfold BlockPool.getNewBlocks at hrun
    split at hrun
    · cases hrun
    · rename_i hle
      rw [h.freeList.getNumFreeBlocks_eq] at hle
      omega
  obtain ⟨p'', hrun', hc, hl, href, hhash⟩ := h.freeList.getNewBlocks hcoh hle
  rw [hrun] at hrun'
  cases hrun'
  have hold : ∀ b, (p'.heap b).blockHash ≠ none →
      b ∉ F.take m ∧ (p.heap b).blockHash ≠ none := by
    intro b hb
    rw [hhash] at hb
    split at hb
    · exact absurd rfl hb
    · rename_i hnot
      exact ⟨hnot, hb⟩
  refine ⟨⟨F.drop m, hl.queue, hl.free, fun b hb hzero => ?_, fun b hb => ?_⟩, fun b hb => ?_, ?_⟩
  · obtain ⟨hnot, hb⟩ := hold b hb
    rw [href, count_eq_zero_of_not_mem hnot] at hzero
    have hF := h.cached b hb (by simpa using hzero)
    rw [← take_append_drop m F, mem_append] at hF
    exact hF.resolve_left hnot
  · have := h.nonneg b (hold b hb).2
    rw [href]
    omega
  · have := h.free b (mem_of_mem_take hb)
    exact ⟨this.1, this.2.1⟩
  · rw [length_take]
    omega

theorem touch (h : Stock p F) (hbs : ∀ b ∈ bs, (p.heap b).isNull = true ∨ (p.heap b).blockHash ≠ none)
    (hrun : BlockPool.touch bs p = .ok p') : ∃ F', Stock p' F' := by
  obtain ⟨p'', hrun', hl⟩ := h.freeList.touch fun b hb =>
    (hbs b hb).imp_right fun hhash => ⟨h.nonneg b hhash, h.cached b hhash⟩
  rw [hrun] at hrun'
  cases hrun'
  obtain ⟨-, hh, hr⟩ := touch_effect hrun
  refine ⟨_, hl.queue, hl.free, fun b hhash hzero => ?_, fun b hhash => ?_⟩
  · rw [hh.hash] at hhash
    rw [hr] at hzero
    have hnonneg := h.nonneg b hhash
    exact mem_filter_touched (h.cached b hhash (by omega)) hzero hnonneg
  · rw [hh.hash] at hhash
    have := h.nonneg b hhash
    rw [hr]
    omega

theorem freeBlocks (h : Stock p F) (hbs : ∀ b ∈ bs, (p.heap b).isNull = true ∨
      (b ∈ p.blocks ∧ bs.count b ≤ 1 ∧ 0 < (p.heap b).refCnt))
    (hcoh : Coherent p) (hrun : p.freeBlocks bs = .ok p') : ∃ F', Stock p' F' := by
  have hheld : ∀ b ∈ bs, (p.heap b).isNull = false →
      b ∈ p.blocks ∧ bs.count b = 1 ∧ 0 < (p.heap b).refCnt := by
    intro b hb hnull
    obtain ⟨hblk, hone, hpos⟩ := (hbs b hb).resolve_left (by rw [hnull]; exact Bool.false_ne_true)
    have := count_pos_iff.mpr hb
    exact ⟨hblk, by omega, hpos⟩
  obtain ⟨p'', hrun', hl⟩ := h.freeList.freeBlocks fun b hb hnull => by
    obtain ⟨hblk, hone, hpos⟩ := hheld b hb hnull
    exact ⟨hblk, by omega, fun _ => hone⟩
  rw [hrun] at hrun'
  cases hrun'
  obtain ⟨-, hh, hr⟩ := freeBlocks_effect hrun
  refine ⟨_, hl.queue, hl.free, fun b hhash hzero => ?_, fun b hhash => ?_⟩
  · rw [hh.hash] at hhash
    rw [hr, Int.sub_eq_zero] at hzero
    obtain ⟨key, hkey⟩ := ne_none_iff_exists'.mp hhash
    by_cases hb : b ∈ bs
    · exact mem_append_right _ (mem_dropped.mpr ⟨hb, hzero, hcoh.notNull b key hkey⟩)
    · rw [count_eq_zero_of_not_mem hb] at hzero
      exact mem_append_left _ (h.cached b hhash hzero)
  · rw [hh.hash] at hhash
    obtain ⟨key, hkey⟩ := ne_none_iff_exists'.mp hhash
    rw [hr]
    by_cases hb : b ∈ bs
    · obtain ⟨-, hone, hpos⟩ := hheld b hb (hcoh.notNull b key hkey)
      omega
    · rw [count_eq_zero_of_not_mem hb]
      have := h.nonneg b hhash
      omega

end Stock

end BlockPool

end MyOperator.KvCache
