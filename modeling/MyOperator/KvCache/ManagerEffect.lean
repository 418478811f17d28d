import MyOperator.KvCache.Manager
import MyOperator.KvCache.Coherence

/-!
# What the manager methods do to the block tables
-/

namespace MyOperator.KvCache

open Lib List

namespace SingleTypeKVCacheManager

variable {m m' : SingleTypeKVCacheManager} {p p' : BlockPool} {requestId : Nat}

@[simp] theorem table_setTable (blocks : List BlockRef) (r : Nat) :
    (m.setTable requestId blocks).table r = if r = requestId then blocks else m.table r := by
  unfold table setTable
  rw [Dict.get?_set]
  split <;> rfl

theorem setTable_self (r : Nat) : (m.setTable requestId (m.table requestId)).table r = m.table r := by
  rw [table_setTable]
  split
  · rename_i h
    rw [h]
  · rfl

/-! ## Removing skipped blocks -/

/-- What removing blocks below position `i` does to a table: some of its entries become
null, and every block leaves the table as often as it is removed. -/
structure Removes (nullBlock : BlockRef) (i : Nat) (blocks blocks' removed : List BlockRef) :
    Prop where
  length : blocks'.length = blocks.length
  above : ∀ j : Nat, i ≤ j → blocks'[j]? = blocks[j]?
  entry : ∀ j : Nat, blocks'[j]? = blocks[j]? ∨ blocks'[j]? = some nullBlock
  notNull : nullBlock ∉ removed
  count : ∀ b, b ≠ nullBlock → blocks'.count b + removed.count b = blocks.count b

theorem Removes.refl (nullBlock : BlockRef) (i : Nat) (blocks : List BlockRef) :
    Removes nullBlock i blocks blocks [] :=
  ⟨rfl, fun _ _ => rfl, fun _ => .inl rfl, by simp, fun _ _ => by simp⟩

theorem count_set_null {nullBlock b c : BlockRef} {i : Nat} {blocks : List BlockRef}
    (hi : blocks[i]? = some c) (hb : b ≠ nullBlock) :
    (blocks.set i nullBlock).count b + (if c = b then 1 else 0) = blocks.count b := by
  obtain ⟨hlt, rfl⟩ := List.getElem?_eq_some_iff.mp hi
  have hset := count_set (a := nullBlock) (b := b) (l := blocks) (i := i) hlt
  have hpos : blocks[i] = b → 0 < blocks.count b := fun h =>
    count_pos_iff.mpr (h ▸ getElem_mem hlt)
  rw [hset]
  by_cases hc : blocks[i] = b
  · have := hpos hc
    simp [hc, Ne.symm hb]
    omega
  · simp [hc, Ne.symm hb]

theorem removeLoop_removes (nullBlock : BlockRef) (i : Nat) (blocks : List BlockRef) :
    Removes nullBlock i blocks (removeLoop nullBlock i blocks).1
      (removeLoop nullBlock i blocks).2 := by
  induction i generalizing blocks with
  | zero => exact .refl _ _ _
  | succ i ih =>
    unfold removeLoop
    split
    · exact .refl _ _ _
    · rename_i c hc
      split
      · exact .refl _ _ _
      · rename_i hne
        have hrec := ih (blocks.set i nullBlock)
        generalize removeLoop nullBlock i (blocks.set i nullBlock) = r at hrec
        obtain ⟨blocks', removed⟩ := r
        refine ⟨by rw [hrec.length, length_set], fun j hj => ?_, fun j => ?_, ?_,
          fun b hb => ?_⟩
        · rw [hrec.above j (by omega), getElem?_set_ne (by omega)]
        · rcases hrec.entry j with h | h
          · rw [h, getElem?_set]
            split
            · rename_i hij
              split
              · exact .inr rfl
              · rename_i hlt
                rw [← hij, getElem?_eq_none (Nat.le_of_not_lt hlt)]
                exact .inl rfl
            · exact .inl rfl
          · exact .inr h
        · rw [mem_cons, not_or]
          exact ⟨Ne.symm hne, hrec.notNull⟩
        · have hcount := hrec.count b hb
          have hset := count_set_null hc hb
          simp only [count_cons, beq_iff_eq] at *
          omega

/-- `remove_skipped_blocks` of the base class replaces blocks below the last skipped token. -/
theorem Base.removeSkippedBlocks_effect {n : Nat}
    (hrun : Base.removeSkippedBlocks m p requestId n = .ok (m', p')) :
    ∃ blocks removed, p.freeBlocks removed = .ok p' ∧
      Removes m.nullBlock ((m.getNumSkippedTokens n).toNat / m.blockSize) (m.table requestId)
        blocks removed ∧
      (m' = m.setTable requestId blocks ∨ (m' = m ∧ blocks = m.table requestId ∧ removed = [])) := by
  unfold Base.removeSkippedBlocks at hrun
  dsimp only at hrun
  split at hrun
  · cases hrun
    exact ⟨m.table requestId, [], rfl, .refl _ _ _, .inr ⟨rfl, rfl, rfl⟩⟩
  · generalize (m.getNumSkippedTokens n).toNat / m.blockSize = k at hrun ⊢
    have hrem := removeLoop_removes m.nullBlock (min k (m.table requestId).length)
      (m.table requestId)
    generalize removeLoop m.nullBlock (min k (m.table requestId).length) (m.table requestId) = r
      at hrun hrem
    obtain ⟨blocks, removed⟩ := r
    obtain ⟨q, hfree, hret⟩ := bind_ok hrun
    cases hret
    refine ⟨blocks, removed, hfree, { hrem with above := fun j hj => ?_ }, .inl rfl⟩
    rcases Nat.lt_or_ge j (m.table requestId).length with hlt | hge
    · exact hrem.above j (by omega)
    · rw [getElem?_eq_none hge, getElem?_eq_none (by rw [hrem.length]; exact hge)]

end SingleTypeKVCacheManager

end MyOperator.KvCache
