import MyOperator.KvCache.BlockPool

/-!
# What the pool operations change

For every operation of the pool, what a successful call does to the reference
counts, the hashes and the map, without any assumption on the free list.
-/

namespace MyOperator.KvCache

open Lib

namespace BlockPool

/-- What no operation changes. -/
structure SameConfig (p p' : BlockPool) : Prop where
  numGpuBlocks : p'.numGpuBlocks = p.numGpuBlocks
  enableCaching : p'.enableCaching = p.enableCaching
  hashBlockSize : p'.hashBlockSize = p.hashBlockSize
  nullBlock : p'.nullBlock = p.nullBlock
  enableKvCacheEvents : p'.enableKvCacheEvents = p.enableKvCacheEvents
  isNull : ∀ r, (p'.heap r).isNull = (p.heap r).isNull

/-- The reference counts are the same. -/
def KeepsRefs (p p' : BlockPool) : Prop := ∀ r, (p'.heap r).refCnt = (p.heap r).refCnt

/-- The hashes and the map are the same. -/
structure KeepsHashes (p p' : BlockPool) : Prop where
  hash : ∀ r, (p'.heap r).blockHash = (p.heap r).blockHash
  map : p'.cachedBlockHashToBlock = p.cachedBlockHashToBlock

/-- The links and the counter of the free list are the same. -/
structure KeepsLinks (p p' : BlockPool) : Prop where
  next : ∀ r, (p'.heap r).nextFreeBlock = (p.heap r).nextFreeBlock
  prev : ∀ r, (p'.heap r).prevFreeBlock = (p.heap r).prevFreeBlock
  count : p'.freeBlockQueue.numFreeBlocks = p.freeBlockQueue.numFreeBlocks

variable {p p' p'' : BlockPool} {b r : BlockRef} {bs : List BlockRef}

theorem SameConfig.refl (p : BlockPool) : SameConfig p p := ⟨rfl, rfl, rfl, rfl, rfl, fun _ => rfl⟩

theorem SameConfig.trans (h : SameConfig p p') (h' : SameConfig p' p'') : SameConfig p p'' :=
  ⟨h'.1.trans h.1, h'.2.trans h.2, h'.3.trans h.3, h'.4.trans h.4, h'.5.trans h.5,
    fun r => (h'.6 r).trans (h.6 r)⟩

theorem SameConfig.blocks (h : SameConfig p p') : p'.blocks = p.blocks := by
  unfold BlockPool.blocks
  rw [h.numGpuBlocks]

theorem KeepsRefs.refl (p : BlockPool) : KeepsRefs p p := fun _ => rfl

theorem KeepsRefs.trans (h : KeepsRefs p p') (h' : KeepsRefs p' p'') : KeepsRefs p p'' :=
  fun r => (h' r).trans (h r)

theorem KeepsHashes.refl (p : BlockPool) : KeepsHashes p p := ⟨fun _ => rfl, rfl⟩

theorem KeepsHashes.trans (h : KeepsHashes p p') (h' : KeepsHashes p' p'') : KeepsHashes p p'' :=
  ⟨fun r => (h'.1 r).trans (h.1 r), h'.2.trans h.2⟩

theorem KeepsLinks.refl (p : BlockPool) : KeepsLinks p p := ⟨fun _ => rfl, fun _ => rfl, rfl⟩

theorem KeepsLinks.trans (h : KeepsLinks p p') (h' : KeepsLinks p' p'') : KeepsLinks p p'' :=
  ⟨fun r => (h'.1 r).trans (h.1 r), fun r => (h'.2 r).trans (h.2 r), h'.3.trans h.3⟩

theorem mem_blocks : b ∈ p.blocks ↔ ∃ i < p.numGpuBlocks, b = .blk i := by
  simp [blocks, eq_comm]

/-! ## Single assignments -/

section Modify

@[simp] theorem modifyBlock_heap (f : KVCacheBlock → KVCacheBlock) :
    (p.modifyBlock b f).heap r = if r = b then f (p.heap b) else p.heap r := rfl

variable (p b r) (d : Int) (hash : Option BlockHashWithGroupId) (e : KVCacheEvent)

@[simp] theorem addRef_refCnt :
    ((p.addRef b d).heap r).refCnt = (p.heap r).refCnt + if r = b then d else 0 := by
  by_cases hr : r = b <;> simp [addRef, hr]

@[simp] theorem addRef_blockHash : ((p.addRef b d).heap r).blockHash = (p.heap r).blockHash := by
  by_cases hr : r = b <;> simp [addRef, hr]

@[simp] theorem addRef_isNull : ((p.addRef b d).heap r).isNull = (p.heap r).isNull := by
  by_cases hr : r = b <;> simp [addRef, hr]

theorem addRef_config : SameConfig p (p.addRef b d) :=
  ⟨rfl, rfl, rfl, rfl, rfl, fun r => addRef_isNull p b r d⟩

theorem addRef_keepsHashes : KeepsHashes p (p.addRef b d) := 
  ⟨fun r => addRef_blockHash p b r d, rfl⟩

@[simp] theorem setHash_blockHash :
    ((p.setHash b hash).heap r).blockHash = if r = b then hash else (p.heap r).blockHash := by
  by_cases hr : r = b <;> simp [setHash, hr]

@[simp] theorem setHash_refCnt : ((p.setHash b hash).heap r).refCnt = (p.heap r).refCnt := by
  by_cases hr : r = b <;> simp [setHash, hr]

@[simp] theorem setHash_isNull : ((p.setHash b hash).heap r).isNull = (p.heap r).isNull := by
  by_cases hr : r = b <;> simp [setHash, hr]

theorem setHash_config : SameConfig p (p.setHash b hash) :=
  ⟨rfl, rfl, rfl, rfl, rfl, fun r => setHash_isNull p b r hash⟩

theorem setHash_keepsRefs : KeepsRefs p (p.setHash b hash) := fun r => setHash_refCnt p b r hash

theorem addRef_keepsLinks : KeepsLinks p (p.addRef b d) := by
  refine ⟨fun r => ?_, fun r => ?_, rfl⟩ <;> by_cases hr : r = b <;> simp [addRef, hr]

theorem setHash_keepsLinks : KeepsLinks p (p.setHash b hash) := by
  refine ⟨fun r => ?_, fun r => ?_, rfl⟩ <;> by_cases hr : r = b <;> simp [setHash, hr]

theorem emit_effect :
    SameConfig p (p.emit e) ∧ KeepsRefs p (p.emit e) ∧ KeepsHashes p (p.emit e) ∧
      KeepsLinks p (p.emit e) := by
  unfold emit
  split
  · exact ⟨⟨rfl, rfl, rfl, rfl, rfl, fun _ => rfl⟩, fun _ => rfl, ⟨fun _ => rfl, rfl⟩,
      ⟨fun _ => rfl, fun _ => rfl, rfl⟩⟩
  · exact ⟨.refl p, .refl p, .refl p, .refl p⟩

end Modify

@[simp] theorem setMap_map (m : BlockHashToBlockMap) : (p.setMap m).cachedBlockHashToBlock = m :=
  rfl

@[simp] theorem setMap_heap (m : BlockHashToBlockMap) : (p.setMap m).heap = p.heap := rfl

theorem setMap_effect (m : BlockHashToBlockMap) :
    SameConfig p (p.setMap m) ∧ KeepsRefs p (p.setMap m) ∧ KeepsLinks p (p.setMap m) :=
  ⟨⟨rfl, rfl, rfl, rfl, rfl, fun _ => rfl⟩, fun _ => rfl, fun _ => rfl, fun _ => rfl, rfl⟩

variable {q q' : FreeKVCacheBlockQueue}

theorem setQueue_effect (h : p.heap.SameData q.heap) :
    SameConfig p (p.setQueue q) ∧ KeepsRefs p (p.setQueue q) ∧ KeepsHashes p (p.setQueue q) :=
  ⟨⟨rfl, rfl, rfl, rfl, rfl, fun r => (h r).2.2⟩, fun r => (h r).1, fun r => (h r).2.1, rfl⟩

/-! ## The queue operations -/

private theorem popLoop_sameData {n : Nat} {h h' : Heap} {curr curr' : Option BlockRef}
    {ret : List BlockRef} (hrun : FreeKVCacheBlockQueue.popLoop n h curr = .ok (ret, h', curr')) :
    h.SameData h' := by
  induction n generalizing h curr ret with
  | zero =>
    cases hrun
    exact Heap.sameData_refl _
  | succ n ih =>
    cases curr with
    | none => cases hrun
    | some b =>
      obtain ⟨⟨ret', h'', curr''⟩, hrec, hret⟩ := bind_ok hrun
      cases hret
      exact ((h.sameData_setPrev _ _).trans (Heap.sameData_setNext _ _ _)).trans (ih hrec)

theorem popleftN_sameData {n : Int} {ret : List BlockRef} (h : q.popleftN n = .ok (ret, q')) :
    q.heap.SameData q'.heap := by
  unfold FreeKVCacheBlockQueue.popleftN at h
  split at h
  · cases h
    exact q.heap.sameData_refl
  · obtain ⟨-, -, h⟩ := bind_ok h
    obtain ⟨⟨ret', h', curr⟩, hloop, h⟩ := bind_ok h
    cases h
    refine (popLoop_sameData hloop).trans ?_
    cases curr with
    | none => exact h'.sameData_refl
    | some c => exact (h'.sameData_setNext _ _).trans (Heap.sameData_setPrev _ _ _)

theorem remove_sameData (h : q.remove b = .ok q') : q.heap.SameData q'.heap := by
  unfold FreeKVCacheBlockQueue.remove at h
  split at h
  · cases h
    exact (((q.heap.sameData_setNext _ _).trans (Heap.sameData_setPrev _ _ _)).trans
      (Heap.sameData_setPrev _ _ _)).trans (Heap.sameData_setNext _ _ _)
  · cases h

private theorem linkLoop_sameData (bs : List BlockRef) (h : Heap) (last : BlockRef) :
    h.SameData (FreeKVCacheBlockQueue.linkLoop bs h last).1 := by
  induction bs generalizing h last with
  | nil => exact h.sameData_refl
  | cons b bs ih =>
    exact ((h.sameData_setPrev _ _).trans (Heap.sameData_setNext _ _ _)).trans (ih _ _)

theorem appendN_sameData (h : q.appendN bs = .ok q') : q.heap.SameData q'.heap := by
  unfold FreeKVCacheBlockQueue.appendN at h
  split at h
  · cases h
    exact q.heap.sameData_refl
  · split at h
    · cases h
    · cases h
      exact ((linkLoop_sameData _ _ _).trans (Heap.sameData_setNext _ _ _)).trans
        (Heap.sameData_setPrev _ _ _)

/-! ## Touching and freeing -/

theorem touch_effect (h : touch bs p = .ok p') :
    SameConfig p p' ∧ KeepsHashes p p' ∧
      ∀ r, (p'.heap r).refCnt = (p.heap r).refCnt + bs.count r := by
  induction bs generalizing p with
  | nil =>
    cases h
    exact ⟨.refl _, .refl _, fun r => by simp⟩
  | cons b bs ih =>
    obtain ⟨q, hq, h⟩ := bind_ok h
    have hdata : p.heap.SameData q.heap := by
      unfold removeCandidate at hq
      split at hq
      · exact remove_sameData hq
      · cases hq
        exact p.heap.sameData_refl
    obtain ⟨hc, hr, hh⟩ := setQueue_effect hdata
    obtain ⟨hc', hh', hr'⟩ := ih h
    refine ⟨(hc.trans (addRef_config _ b 1)).trans hc',
      (hh.trans (addRef_keepsHashes _ b 1)).trans hh', fun r => ?_⟩
    rw [hr', addRef_refCnt, hr]
    by_cases hrb : r = b
    · simp [hrb]
      omega
    · simp [hrb, Ne.symm hrb]

theorem releaseLoop_effect (bs : List BlockRef) (p : BlockPool) :
    SameConfig p (releaseLoop bs p) ∧ KeepsHashes p (releaseLoop bs p) ∧
      KeepsLinks p (releaseLoop bs p) ∧
      ∀ r, ((releaseLoop bs p).heap r).refCnt = (p.heap r).refCnt - bs.count r := by
  induction bs generalizing p with
  | nil => exact ⟨.refl p, .refl p, .refl p, fun r => by simp [releaseLoop]⟩
  | cons b bs ih =>
    obtain ⟨hc, hh, hl, hr⟩ := ih (p.addRef b (-1))
    refine ⟨(addRef_config p b _).trans hc, (addRef_keepsHashes p b _).trans hh,
      (addRef_keepsLinks p b _).trans hl, fun r => ?_⟩
    rw [releaseLoop, hr]
    by_cases hrb : r = b
    · simp [hrb]
      omega
    · simp [hrb, Ne.symm hrb]

theorem freeBlocks_effect (h : p.freeBlocks bs = .ok p') :
    SameConfig p p' ∧ KeepsHashes p p' ∧
      ∀ r, (p'.heap r).refCnt = (p.heap r).refCnt - bs.count r := by
  obtain ⟨q, hq, h⟩ := bind_ok h
  cases h
  obtain ⟨hc, hh, -, hr⟩ := releaseLoop_effect bs p
  obtain ⟨hc', hr', hh'⟩ := setQueue_effect (p := releaseLoop bs p) (appendN_sameData hq)
  exact ⟨hc.trans hc', hh.trans hh', fun r => (hr' r).trans (hr r)⟩

end BlockPool

end MyOperator.KvCache
