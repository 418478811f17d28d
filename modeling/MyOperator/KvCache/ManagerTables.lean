import MyOperator.KvCache.Tables

/-!
# The manager methods keep the tables

Every call of a manager that goes through keeps `TablesInv`, whatever the attention type.
-/

namespace MyOperator.KvCache

open Lib BlockPool SingleTypeKVCacheManager List

namespace TablesInv

variable {L : Layout} {p p' : BlockPool} {managers : List SingleTypeKVCacheManager}
  {m m' : SingleTypeKVCacheManager} {g r : Nat} {removed : List BlockRef}

theorem set_self (hm : managers[g]? = some m) : managers.set g m = managers := by
  obtain ⟨hlt, rfl⟩ := List.getElem?_eq_some_iff.mp hm
  exact set_getElem_self hlt

/-! ## Releasing blocks -/

theorem release (h : TablesInv L p managers) (hm : managers[g]? = some m) (hsame : SameManager m m')
    (halign : m'.AlignOk) (hfree : p.freeBlocks removed = .ok p')
    (hother : ∀ r' ≠ r, m'.table r' = m.table r')
    (hcount : ∀ b ≠ p.nullBlock, (m'.table r).count b + removed.count b = (m.table r).count b)
    (hrefs : ∀ b ≠ p.nullBlock, m'.heldRefs b + removed.count b = m.heldRefs b)
    (hfull : m.isFull = true → ∀ (i : Nat) (b : BlockRef), (m'.table r)[i]? = some b →
      (m.table r)[i]? = some b) : TablesInv L p' (managers.set g m') := by
  obtain ⟨hc, hh, hr⟩ := freeBlocks_effect hfree
  obtain ⟨F, hstock⟩ := h.stock
  refine h.shrink hm
    { same := hsame
      align := halign
      config := hc
      coherent := h.coherent.congr hc hh
      stock := hstock.freeBlocks (fun b hb => ?_) h.coherent hfree
      forgets := fun b key hkey => by rwa [hh.hash] at hkey
      count := fun r' b hb => ?_
      full := fun hf r' i b hget => ?_
      refs := fun b hb => ?_ }
  · by_cases hnull : b = p.nullBlock
    · exact Or.inl ((h.null b).mpr hnull)
    · have hle := h.once hm hnull r
      have hpos : 0 < removed.count b := count_pos_iff.mpr hb
      have hsum := hcount b hnull
      have hmem : b ∈ m.table r := count_pos_iff.mp (by omega)
      exact Or.inr ⟨h.mem hm hmem, by omega, h.refCnt_pos hm hnull hmem⟩
  · by_cases hr' : r' = r
    · have hsum := hcount b hb
      rw [hr']
      omega
    · rw [hother r' hr']
  · by_cases hr' : r' = r
    · rw [hr'] at hget ⊢
      exact hfull hf i b hget
    · rwa [hother r' hr'] at hget
  · have hsum := hrefs b hb
    rw [hr]
    omega

variable {blocks new ret : List BlockRef} {n numTokens main : Nat}

theorem release_setTable (h : TablesInv L p managers) (hm : managers[g]? = some m)
    (hlength : blocks.length = (m.table r).length) (hfree : p.freeBlocks removed = .ok p')
    (hcount : ∀ b ≠ p.nullBlock, blocks.count b + removed.count b = (m.table r).count b)
    (hfull : m.isFull = true → ∀ (i : Nat) (b : BlockRef), blocks[i]? = some b →
      (m.table r)[i]? = some b) : TablesInv L p' (managers.set g (m.setTable r blocks)) := by
  have hself : (m.setTable r blocks).table r = blocks := by rw [table_setTable, if_pos rfl]
  have halign := (h.manager hm).2.2
  refine h.release hm ⟨rfl, rfl, rfl, rfl⟩ (halign.setTable hlength.ge) hfree
    (fun r' hr' => by rw [table_setTable, if_neg hr']) (fun b hb => by rw [hself]; exact hcount b hb)
    (fun b hb => ?_) (fun hf i b hget => hfull hf i b (by rwa [hself] at hget))
  · have hset := heldRefs_setTable m r blocks b
    have hsum := hcount b hb
    omega

theorem skipped_of_isFull (hf : m.isFull = true) (n : Nat) : m.getNumSkippedTokens n = 0 := by
  unfold isFull KVCacheSpec.isFullAttention at hf
  unfold getNumSkippedTokens
  split at hf
  · rename_i hk
    rw [hk]
  · rename_i hk
    rw [hk]
  · rename_i hk
    rw [hk]
  · cases hf

section

variable (h : TablesInv L p managers) (hm : managers[g]? = some m)
include h hm

theorem base_removeSkippedBlocks (hrun : Base.removeSkippedBlocks m p r n = .ok (m', p')) :
    TablesInv L p' (managers.set g m') := by
  obtain ⟨blocks, removed, hfree, hrem, hm'⟩ := Base.removeSkippedBlocks_effect hrun
  have hnull := (h.manager hm).1
  have hset : TablesInv L p' (managers.set g (m.setTable r blocks)) := by
    refine h.release_setTable hm hrem.length hfree (fun b hb => ?_) (fun hf i b hget => ?_)
    · rw [← hnull] at hb
      exact hrem.count b hb
    · have hzero : (m.getNumSkippedTokens n).toNat / m.blockSize = 0 := by
        rw [skipped_of_isFull hf]
        exact Nat.zero_div _
      rwa [hrem.above i (by omega)] at hget
  rcases hm' with rfl | ⟨rfl, rfl, rfl⟩
  · exact hset
  · cases hfree
    rw [set_self hm]
    exact h

theorem nullOut {i : Nat} {b : BlockRef} (hget : (m.table r)[i]? = some b)
    (hfull : m.isFull = false) (hfree : p.freeBlocks [b] = .ok p') :
    TablesInv L p' (managers.set g (m.setTable r ((m.table r).set i m.nullBlock))) := by
  refine h.release_setTable hm length_set hfree (fun c hc => ?_) fun hf => ?_
  · rw [← (h.manager hm).1] at hc
    rw [count_singleton]
    simpa only [beq_iff_eq] using count_set_null hget hc
  · rw [hfull] at hf
    cases hf

theorem removeSkippedBlocks (hrun : m.removeSkippedBlocks p r n = .ok (m', p')) :
    TablesInv L p' (managers.set g m') := by
  unfold SingleTypeKVCacheManager.removeSkippedBlocks at hrun
  split at hrun
  · rename_i align spec hk
    obtain ⟨⟨m1, p1⟩, hbase, hrun⟩ := bind_ok hrun
    have h1 := h.base_removeSkippedBlocks hm hbase
    have hm1 : (managers.set g m1)[g]? = some m1 := getElem?_set_self (lt_of_getElem? hm)
    have hfull : m1.isFull = false := by
      have hspec : m1.kvCacheSpec = m.kvCacheSpec := by
        obtain ⟨blocks, removed, -, -, hm1⟩ := Base.removeSkippedBlocks_effect hbase
        rcases hm1 with rfl | ⟨rfl, -, -⟩ <;> rfl
      unfold isFull KVCacheSpec.isFullAttention
      rw [hspec, hk]
    dsimp only at hrun
    split at hrun
    · split at hrun
      · obtain ⟨i, -, hrun⟩ := bind_ok hrun
        split at hrun
        · rename_i hne
          obtain ⟨p2, hfree, hrun⟩ := bind_ok hrun
          cases hrun
          have hget : (m1.table r)[i]? = some ((m1.table r).getD i m1.nullBlock) := by
            rw [getD_eq_getElem?_getD] at hne ⊢
            cases hget : (m1.table r)[i]? with
            | none =>
              rw [hget] at hne
              exact absurd rfl hne
            | some b => rfl
          have hset := h1.nullOut hm1 hget hfull hfree
          rwa [set_set] at hset
        · cases hrun
          have hset := h1.keep hm1 (sameTables_setTable (h1.manager hm1).2.2 r)
          rwa [set_set] at hset
      · cases hrun
        exact h1
    · cases hrun
      exact h1
  · exact h.base_removeSkippedBlocks hm hrun

theorem base_free (hr : ∀ n, m.kvCacheSpec.kind = .mamba true n → r ∉ m.allocatedBlockReqs)
    (hrun : Base.free m p r = .ok (m', p')) : TablesInv L p' (managers.set g m') := by
  obtain ⟨p1, hfree, hrun⟩ := bind_ok hrun
  cases hrun
  have halign := (h.manager hm).2.2
  have htable : ∀ r', ({ m with
      reqToBlocks := m.reqToBlocks.erase r
      numCachedBlock := m.numCachedBlock.erase r } : SingleTypeKVCacheManager).table r' =
      if r' = r then [] else m.table r' := by
    intro r'
    unfold table
    rw [Dict.get?_erase]
    split <;> rfl
  refine h.release (r := r) hm ⟨rfl, rfl, rfl, rfl⟩ ⟨halign.nodup, fun n hn r' hr' => ?_⟩ hfree
    (fun r' hr' => ?_) (fun b _ => ?_) (fun b _ => ?_) (fun _ i b hget => ?_)
  · rw [htable, if_neg]
    · exact halign.speculative n hn r' hr'
    · rintro rfl
      exact hr n hn hr'
  · rw [htable, if_neg hr']
  · rw [htable, if_pos rfl, count_nil, Nat.zero_add, count_reverse]
  · have herase := m.reqToBlocks.sumBy_erase r fun blocks => blocks.count b
    have hold : m.reqToBlocks.valueAt r (fun blocks => blocks.count b) = (m.table r).count b := by
      unfold table Dict.valueAt
      cases m.reqToBlocks.get? r <;> rfl
    rw [hold, ← count_reverse] at herase
    exact herase
  · rw [htable, if_pos rfl] at hget
    cases hget

theorem free (hrun : m.free p r = .ok (m', p')) : TablesInv L p' (managers.set g m') := by
  unfold SingleTypeKVCacheManager.free at hrun
  have halign := (h.manager hm).2.2
  split at hrun
  · rename_i align n hk
    cases align with
    | false =>
      refine h.base_free hm (fun n' hn' => ?_) hrun
      rw [hk] at hn'
      cases hn'
    | true =>
      -- the request is no longer one that was given blocks
      have h1 : TablesInv L p (managers.set g { m with
          allocatedBlockReqs := m.allocatedBlockReqs.erase r
          lastStateBlockIdx := m.lastStateBlockIdx.erase r }) :=
        h.keep hm ⟨⟨rfl, rfl, rfl, rfl⟩, halign.nodup.erase r, fun _ => mem_of_mem_erase,
          fun _ => rfl, fun _ => rfl⟩
      have hfree := h1.base_free (getElem?_set_self (lt_of_getElem? hm))
        (fun n' _ => fun hmem => (halign.nodup.mem_erase_iff.mp hmem).1 rfl) hrun
      rwa [set_set] at hfree
  · rename_i hk
    refine h.base_free hm (fun n' hn' => ?_) hrun
    exact absurd hn' (hk true n')

/-! ## Counting -/

theorem getNumBlocksToAllocate {total : Nat} {hits : List BlockRef} {n : Int}
    (hrun : m.getNumBlocksToAllocate p r numTokens hits total main = .ok (n, m')) :
    TablesInv L p (managers.set g m') := by
  have hself : TablesInv L p (managers.set g m) := by
    rw [set_self hm]
    exact h
  unfold SingleTypeKVCacheManager.getNumBlocksToAllocate at hrun
  split at hrun
  · unfold MambaManager.getNumBlocksToAllocate at hrun
    split at hrun
    · cases hrun
      exact hself
    · split at hrun
      · obtain ⟨k, -, hrun⟩ := bind_ok hrun
        cases hrun
        exact hself
      · cases hrun
        exact h.keep hm (sameTables_setTable (h.manager hm).2.2 r)
  · obtain ⟨k, -, hrun⟩ := bind_ok hrun
    cases hrun
    exact hself

/-! ## New blocks -/

theorem appendNew {n : Int} (hn : 0 ≤ n) (hrun : p.getNewBlocks n = .ok (new, p'))
    (hsame : SameManager m m') (halign : m'.AlignOk)
    (htable : ∀ r', m'.table r' = if r' = r then m.table r ++ new else m.table r')
    (hrefs : ∀ b, m'.heldRefs b = m.heldRefs b + new.count b) :
    TablesInv L p' (managers.set g m') := by
  obtain ⟨F, hstock⟩ := h.stock
  obtain ⟨hc, hcoh, hnodup, hzero, hcount, hhash⟩ := getNewBlocks_effect h.coherent hrun
  obtain ⟨hstock', hblocks, -⟩ := hstock.getNewBlocks h.coherent hn hrun
  exact h.append hm
    { same := hsame
      align := halign
      config := hc
      coherent := hcoh
      stock := hstock'
      forgets := fun b key hkey => by
        rw [hhash] at hkey
        split at hkey
        · cases hkey
        · exact hkey
      table := htable
      mem := fun b hb => (hblocks b hb).1
      real := fun _ b hb hnull => by
        have hnot := (hblocks b hb).2
        rw [(h.null b).mpr hnull] at hnot
        cases hnot
      appended := .fresh hzero (fun b hb => by rw [hhash, if_pos hb]) hnodup
      refs := fun b _ => by
        rw [hcount, hrefs]
        omega }

theorem appendNew_setTable {n : Int} (hn : 0 ≤ n) (hrun : p.getNewBlocks n = .ok (new, p')) :
    TablesInv L p' (managers.set g (m.setTable r (m.table r ++ new))) := by
  have halign := (h.manager hm).2.2
  refine h.appendNew hm hn hrun ⟨rfl, rfl, rfl, rfl⟩ (halign.setTable ?_) (table_setTable _) fun b => ?_
  · rw [length_append]
    exact Nat.le_add_right _ _
  · have hset := heldRefs_setTable m r (m.table r ++ new) b
    rw [count_append] at hset
    omega

end

theorem sameTables_extendNewBlockIds (hm : m.AlignOk) (blocks : List BlockRef) :
    SameTables m (m.extendNewBlockIds blocks) := by
  unfold extendNewBlockIds
  split <;> exact ⟨⟨rfl, rfl, rfl, rfl⟩, hm.nodup, fun _ hr => hr, fun _ => rfl, fun _ => rfl⟩

theorem appendNew_extend (h : TablesInv L p managers) (hm : managers[g]? = some m) {n : Int}
    (hn : 0 ≤ n) (hrun : p.getNewBlocks n = .ok (new, p')) :
    TablesInv L p' (managers.set g ((m.setTable r (m.table r ++ new)).extendNewBlockIds new)) := by
  have hset := h.appendNew_setTable (r := r) hm hn hrun
  have hget := getElem?_set_self (a := m.setTable r (m.table r ++ new)) (lt_of_getElem? hm)
  have hkeep := hset.keep hget (sameTables_extendNewBlockIds (hset.manager hget).2.2 new)
  rwa [set_set] at hkeep

theorem base_allocateNewBlocks (h : TablesInv L p managers) (hm : managers[g]? = some m)
    (hrun : Base.allocateNewBlocks m p r numTokens = .ok (new, m', p')) :
    TablesInv L p' (managers.set g m') := by
  unfold Base.allocateNewBlocks at hrun
  dsimp only at hrun
  split at hrun
  · cases hrun
    exact h.keep hm (sameTables_setTable (h.manager hm).2.2 r)
  · obtain ⟨⟨new', p1⟩, hnew, hrun⟩ := bind_ok hrun
    cases hrun
    exact h.appendNew_extend hm (by omega) hnew

/-! ## Align mode -/

theorem pyIndex_ofNat {j : Nat} (h : j < n) : pyIndex n j = .ok j := by
  unfold pyIndex
  rw [if_pos ⟨Int.natCast_nonneg j, Int.ofNat_lt.mpr h⟩]
  rfl

theorem reuseLoop_moves {nullBlock : BlockRef} {skipped : Int} {j : Nat} {blocks' : List BlockRef}
    (hle : j + n ≤ blocks.length)
    (hrun : MambaManager.reuseLoop nullBlock skipped n j blocks = .ok blocks') :
    (∀ b ≠ nullBlock, blocks'.count b = blocks.count b) ∧
      blocks'.length = blocks.length + min n (skipped.toNat - j) := by
  induction n generalizing j blocks with
  | zero =>
    cases hrun
    exact ⟨fun _ _ => rfl, by omega⟩
  | succ n ih =>
    unfold MambaManager.reuseLoop at hrun
    split at hrun
    · rename_i hlt
      have hget : blocks[j]? = some (blocks.getD j nullBlock) := by
        rw [getD_eq_getElem?_getD, getElem?_eq_getElem (by omega)]
        rfl
      rw [pyIndex_ofNat (by omega)] at hrun
      obtain ⟨i, hi, hrun⟩ := bind_ok hrun
      cases hi
      generalize blocks.getD j nullBlock = moved at hget hrun
      have hlength : (blocks ++ [moved]).length = blocks.length + 1 := length_append
      have hgetAppended : (blocks ++ [moved])[j]? = some moved := by
        rw [getElem?_append_left (by omega), hget]
      dsimp only at hrun
      rw [pyIndex_ofNat (by omega)] at hrun
      obtain ⟨i, hi, hrun⟩ := bind_ok hrun
      cases hi
      rw [show (j : Int) + 1 = ((j + 1 : Nat) : Int) from rfl] at hrun
      obtain ⟨hcount, hlen⟩ := ih (by rw [length_set]; omega) hrun
      refine ⟨fun b hb => ?_, ?_⟩
      · have hset := count_set_null hgetAppended hb
        rw [count_append, count_singleton] at hset
        rw [hcount b hb]
        simp only [beq_iff_eq] at hset
        omega
      · rw [hlen, length_set]
        omega
    · rename_i hge
      cases hrun
      exact ⟨fun _ _ => rfl, by omega⟩

/-- Null blocks come and go in the table of a group that is not full attention. -/
theorem retable (h : TablesInv L p managers) (hm : managers[g]? = some m) (hfull : m.isFull = false)
    (hsame : SameManager m m') (halign : m'.AlignOk) (hother : ∀ r' ≠ r, m'.table r' = m.table r')
    (hcount : ∀ b ≠ p.nullBlock, (m'.table r).count b = (m.table r).count b)
    (hrefs : ∀ b ≠ p.nullBlock, m'.heldRefs b = m.heldRefs b) :
    TablesInv L p (managers.set g m') := by
  have hnone : p.freeBlocks [] = .ok p := rfl
  refine h.release (r := r) hm hsame halign hnone hother (fun b hb => ?_)
    (fun b hb => ?_) fun hf => ?_
  · rw [hcount b hb]
    rfl
  · rw [hrefs b hb]
    rfl
  · rw [hfull] at hf
    cases hf

theorem recordLastState_keeps (m : SingleTypeKVCacheManager) (n r prev : Nat) :
    ∃ last, MambaManager.recordLastState m n r prev = { m with lastStateBlockIdx := last } := by
  unfold MambaManager.recordLastState
  dsimp only
  split
  · exact ⟨_, rfl⟩
  · split
    · exact ⟨_, rfl⟩
    · exact ⟨m.lastStateBlockIdx, rfl⟩

/-- What `allocate_new_blocks` does in align mode when more blocks are required than there are: the
table is padded with null blocks, speculative blocks are moved, and new blocks are appended. -/
structure Aligned (m m' : SingleTypeKVCacheManager) (p p' : BlockPool) (r n required : Nat)
    (blocks new : List BlockRef) : Prop where
  more : (m.table r).length < required
  moved : r ∈ m.allocatedBlockReqs → MambaManager.reuseLoop m.nullBlock ((required : Int) - n - 1) n
    (((m.table r).length : Int) - n) (m.table r ++
      replicate (((required : Int) - n - 1) - (m.table r).length).toNat m.nullBlock) = .ok blocks
  padded : r ∉ m.allocatedBlockReqs → blocks = m.table r ++
    replicate (((required : Int) - n - 1) - (m.table r).length).toNat m.nullBlock
  given : p.getNewBlocks ((required : Int) - blocks.length) = .ok (new, p')
  manager : ∃ last, m' = { m with
    lastStateBlockIdx := last
    reqToBlocks := m.reqToBlocks.set r (blocks ++ new)
    allocatedBlockReqs := m.allocatedBlockReqs.insert r }

theorem allocateAligned_inv (hrun : MambaManager.allocateAligned m n p r main = .ok (ret, m', p')) :
    m' = m.setTable r (m.table r) ∧ p' = p ∨
      ∃ blocks new, Aligned m m' p p' r n (cdiv main m.blockSize + n) blocks new := by
  unfold MambaManager.allocateAligned at hrun
  dsimp only at hrun
  split at hrun
  · cases hrun
    exact Or.inl ⟨rfl, rfl⟩
  generalize cdiv main m.blockSize + n = required at hrun ⊢
  obtain ⟨last, hlast⟩ := recordLastState_keeps m n r (m.table r).length
  rw [hlast] at hrun
  obtain ⟨_, hmore, hrun⟩ := bind_ok hrun
  rw [assert_eq_ok, decide_eq_true_eq] at hmore
  refine Or.inr ?_
  by_cases hallocated : r ∈ m.allocatedBlockReqs
  · rw [decide_eq_true hallocated, if_pos rfl] at hrun
    obtain ⟨blocks, hmoved, hrun⟩ := bind_ok hrun
    obtain ⟨-, -, hrun⟩ := bind_ok hrun
    obtain ⟨⟨new, p1⟩, hnew, hrun⟩ := bind_ok hrun
    cases hrun
    exact ⟨blocks, new, hmore, fun _ => hmoved, fun hnot => absurd hallocated hnot, hnew, last, rfl⟩
  · rw [decide_eq_false hallocated, if_neg Bool.false_ne_true] at hrun
    obtain ⟨blocks, hpadded, hrun⟩ := bind_ok hrun
    obtain ⟨-, -, hrun⟩ := bind_ok hrun
    obtain ⟨⟨new, p1⟩, hnew, hrun⟩ := bind_ok hrun
    cases hrun
    exact ⟨blocks, new, hmore, fun h => absurd h hallocated, fun _ => (Except.ok.inj hpadded).symm,
      hnew, last, rfl⟩

/-- The blocks of the table are still there, and there are at most as many entries as required. -/
theorem Aligned.keeps {required : Nat} (ha : Aligned m m' p p' r n required blocks new)
    (hspec : r ∈ m.allocatedBlockReqs → n ≤ (m.table r).length) :
    (∀ b ≠ m.nullBlock, blocks.count b = (m.table r).count b) ∧
      (m.table r).length ≤ blocks.length ∧ blocks.length ≤ required := by
  have hmore := ha.more
  have hpad : ∀ k, ∀ b ≠ m.nullBlock,
      (m.table r ++ replicate k m.nullBlock).count b = (m.table r).count b := by
    intro k b hb
    rw [count_append, count_replicate, if_neg (by simpa using Ne.symm hb), Nat.add_zero]
  by_cases hr : r ∈ m.allocatedBlockReqs
  · have hmoved := ha.moved hr
    have hle := hspec hr
    rw [← Int.ofNat_sub hle] at hmoved
    obtain ⟨hcount, hlength⟩ := reuseLoop_moves (by rw [length_append]; omega) hmoved
    rw [length_append, length_replicate] at hlength
    exact ⟨fun b hb => (hcount b hb).trans (hpad _ b hb), by omega, by omega⟩
  · rw [ha.padded hr, length_append, length_replicate]
    exact ⟨hpad _, by omega, by omega⟩

theorem allocateAligned (h : TablesInv L p managers) (hm : managers[g]? = some m)
    (hk : m.kvCacheSpec.kind = .mamba true n)
    (hrun : MambaManager.allocateAligned m n p r main = .ok (ret, m', p')) :
    TablesInv L p' (managers.set g m') := by
  obtain ⟨hnull, -, halign⟩ := h.manager hm
  have hfull : m.isFull = false := by
    unfold isFull KVCacheSpec.isFullAttention
    rw [hk]
  rcases allocateAligned_inv hrun with ⟨rfl, rfl⟩ | ⟨blocks, new, ha⟩
  · exact h.keep hm (sameTables_setTable halign r)
  obtain ⟨hcount, hlonger, hle⟩ := ha.keeps (halign.speculative n hk r)
  obtain ⟨last, rfl⟩ := ha.manager
  have hgiven := ha.given
  -- the table with its blocks moved
  have htable : ∀ r', (m.setTable r blocks).table r' = if r' = r then blocks else m.table r' :=
    table_setTable blocks
  have hrefs : ∀ b, (m.setTable r blocks).heldRefs b + (m.table r).count b =
      m.heldRefs b + blocks.count b := heldRefs_setTable m r blocks
  have hmoved : TablesInv L p (managers.set g (m.setTable r blocks)) := by
    refine h.retable (r := r) hm hfull ⟨rfl, rfl, rfl, rfl⟩ (halign.setTable hlonger)
      (fun r' hr' => by rw [htable, if_neg hr']) (fun b hb => ?_) (fun b hb => ?_)
    · rw [htable, if_pos rfl]
      exact hcount b (by rwa [hnull])
    · have := hrefs b
      have := hcount b (by rwa [hnull])
      omega
  have hget := getElem?_set_self (a := m.setTable r blocks) (lt_of_getElem? hm)
  obtain ⟨F, hstock⟩ := h.stock
  have hnew := (hstock.getNewBlocks h.coherent (by omega) hgiven).2.2
  rw [← set_set (a := m.setTable r blocks)]
  refine hmoved.appendNew (r := r) hget (by omega) hgiven
    ⟨rfl, rfl, rfl, rfl⟩ ⟨halign.nodup.insert, fun n' hn r' hr' => ?_⟩ (fun r' => ?_) (fun b => ?_)
  · have hafter : ({ m with
        lastStateBlockIdx := last
        reqToBlocks := m.reqToBlocks.set r (blocks ++ new)
        allocatedBlockReqs := m.allocatedBlockReqs.insert r } : SingleTypeKVCacheManager).table r' =
        if r' = r then blocks ++ new else m.table r' := table_setTable (blocks ++ new) r'
    rw [hafter]
    split
    · rw [hk] at hn
      cases hn
      rw [length_append]
      omega
    · rename_i hne
      exact halign.speculative n' hn r' ((mem_insert_iff.mp hr').resolve_left hne)
  · have hafter : (m.setTable r (blocks ++ new)).table r' = if r' = r then blocks ++ new else m.table r' :=
      table_setTable (blocks ++ new) r'
    refine hafter.trans ?_
    rw [htable, htable, if_pos rfl]
    split <;> rfl
  · have hlast := heldRefs_setTable m r (blocks ++ new) b
    have hfirst := hrefs b
    rw [count_append] at hlast
    show (m.setTable r (blocks ++ new)).heldRefs b = (m.setTable r blocks).heldRefs b + new.count b
    omega

theorem allocateNewBlocks (h : TablesInv L p managers) (hm : managers[g]? = some m)
    (hrun : m.allocateNewBlocks p r numTokens main = .ok (ret, m', p')) :
    TablesInv L p' (managers.set g m') := by
  unfold SingleTypeKVCacheManager.allocateNewBlocks at hrun
  split at hrun
  · rename_i align n hk
    unfold MambaManager.allocateNewBlocks at hrun
    split at hrun
    · exact h.base_allocateNewBlocks hm hrun
    · rename_i halign
      rw [Bool.not_eq_false] at halign
      rw [halign] at hk
      exact h.allocateAligned hm hk hrun
  · exact h.base_allocateNewBlocks hm hrun

end TablesInv

end MyOperator.KvCache
