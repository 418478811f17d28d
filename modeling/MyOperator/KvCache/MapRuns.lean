import MyOperator.KvCache.HashMap

/-!
# Runs of the block hash map

The map with its union-typed values stands for a finite map from pairs of a key and a
block id to the block that was inserted last under the pair. In every run of `insert`
and `pop` it stands for what the same insertions and removals make of that finite map.
-/

namespace MyOperator.KvCache

open Lib List Dict

/-- The blocks under their keys and ids. -/
abbrev BlockMultimap := Finmap fun _ : BlockHashWithGroupId × Int => BlockRef

namespace BlockHashToBlockMap

/-- The pairs of a key and a block id that the values of the map stand for. -/
def pairs (m : BlockHashToBlockMap) : Set (BlockHashWithGroupId × Int) :=
  {p | ∃ b ∈ m.blocks p.1, b.blockId = p.2}

/-- The map stores the blocks of `M`. -/
structure Denotes (m : BlockHashToBlockMap) (M : BlockMultimap) : Prop where
  wf : m.WF
  stored : ∀ key b, b ∈ m.blocks key ↔ M.lookup (key, b.blockId) = some b
  keyed : ∀ key i b, M.lookup (key, i) = some b → b.blockId = i

variable {m : BlockHashToBlockMap} {M : BlockMultimap} {key key' : BlockHashWithGroupId}
  {b : BlockRef} {i : Int}

theorem init_denotes : init.Denotes ∅ where
  wf := init_wf
  stored key b := by simp
  keyed key i b h := by
    rw [Finmap.lookup_empty] at h
    cases h

namespace Denotes

variable (h : m.Denotes M)
include h

theorem insert (key : BlockHashWithGroupId) (b : BlockRef) :
    (m.insert key b).Denotes (M.insert (key, b.blockId) b) where
  wf := insert_wf h.wf
  stored key' c := by
    rw [mem_blocks_insert h.wf, h.stored key, h.stored key']
    by_cases hpair : (key', c.blockId) = (key, b.blockId)
    · obtain ⟨rfl, hid⟩ := Prod.mk.inj hpair
      rw [hid, if_pos rfl, Finmap.lookup_insert, Option.some.injEq]
      simp [eq_comm]
    · rw [Finmap.lookup_insert_of_ne _ hpair]
      by_cases hk : key' = key
      · subst hk
        have hid : c.blockId ≠ b.blockId := fun h0 => hpair (by rw [h0])
        have hne : c ≠ b := fun h0 => hid (by rw [h0])
        simp [hid, hne]
      · rw [if_neg hk]
  keyed key' i c hc := by
    by_cases hpair : (key', i) = (key, b.blockId)
    · rw [hpair, Finmap.lookup_insert] at hc
      rw [← Option.some.inj hc]
      exact (Prod.mk.inj hpair).2.symm
    · rw [Finmap.lookup_insert_of_ne _ hpair] at hc
      exact h.keyed key' i c hc

theorem pop (key : BlockHashWithGroupId) (i : Int) :
    (m.pop key i).2.Denotes (M.erase (key, i)) where
  wf := pop_wf h.wf
  stored key' c := by
    rw [mem_blocks_pop h.wf, h.stored key']
    by_cases hpair : (key', c.blockId) = (key, i)
    · rw [hpair, Finmap.lookup_erase]
      simpa using fun _ => Prod.mk.inj hpair
    · rw [Finmap.lookup_erase_ne hpair]
      simpa [Prod.ext_iff] using fun _ => hpair
  keyed key' j c hc := by
    by_cases hpair : (key', j) = (key, i)
    · rw [hpair, Finmap.lookup_erase] at hc
      cases hc
    · rw [Finmap.lookup_erase_ne hpair] at hc
      exact h.keyed key' j c hc

theorem pairs_eq : m.pairs = M.keys := by
  ext ⟨key, i⟩
  rw [Finset.mem_coe, Finmap.mem_keys, Finmap.mem_iff]
  constructor
  · rintro ⟨b, hb, rfl⟩
    exact ⟨b, (h.stored key b).mp hb⟩
  · rintro ⟨b, hb⟩
    obtain rfl := h.keyed key i b hb
    exact ⟨b, (h.stored key b).mpr hb, rfl⟩

theorem getOneBlock_lookup (hget : m.getOneBlock key = some b) :
    M.lookup (key, b.blockId) = some b := (h.stored key b).mp (getOneBlock_mem hget)

theorem getOneBlock_isSome : (m.getOneBlock key).isSome ↔ ∃ i, (key, i) ∈ M.keys := by
  have hpairs : (∃ i, (key, i) ∈ M.keys) ↔ ∃ i, (key, i) ∈ m.pairs := by
    rw [h.pairs_eq]
    rfl
  rw [hpairs, getOneBlock_eq]
  constructor
  · intro hsome
    obtain ⟨b, hb⟩ := Option.isSome_iff_exists.mp hsome
    exact ⟨b.blockId, b, mem_of_head? hb, rfl⟩
  · rintro ⟨i, b, hb, -⟩
    rw [isSome_head?]
    exact ne_nil_of_mem hb

theorem pop_fst (key : BlockHashWithGroupId) (i : Int) : (m.pop key i).1 = M.lookup (key, i) := by
  refine Option.ext fun b => ?_
  rw [pop_fst_eq_some h.wf, h.stored]
  constructor
  · rintro ⟨hb, rfl⟩
    exact hb
  · intro hb
    obtain rfl := h.keyed key i b hb
    exact ⟨hb, rfl⟩

end Denotes

/-- What a failed `pop` takes out it puts back. -/
theorem pop_absent (h : m.WF) (hi : (key, i) ∉ m.pairs) (key' : BlockHashWithGroupId) :
    (m.pop key i).2.cache.get? key' = m.cache.get? key' := by
  have hback : ∀ v, m.cache.get? key = some v →
      ((m.cache.erase key).set key v).get? key' = m.cache.get? key' := by
    intro v hv
    rw [get?_set, get?_erase]
    by_cases hk : key' = key
    · rw [if_pos hk, hk, hv]
    · rw [if_neg hk, if_neg hk]
  have hpopped : ∀ b, (m.pop key i).1 ≠ some b := fun b hb =>
    hi ⟨b, (pop_fst_eq_some h).mp hb⟩
  unfold pop at hpopped ⊢
  cases hget : m.cache.get? key with
  | none => rfl
  | some v =>
    rw [hget] at hpopped
    cases v with
    | single b =>
      have hid : b.blockId ≠ i := fun h0 => hpopped b (by simp [h0])
      simp only [if_neg hid]
      exact hback _ hget
    | dict d =>
      have hnone : d.get? i = none := Option.eq_none_iff_forall_ne_some.mpr hpopped
      have hne : d.entries.length > 0 := by
        refine length_pos_iff.mpr fun h0 => (h key d hget).1 ?_
        rw [Dict.values, h0, map_nil]
      simp only [erase_of_get?_eq_none hnone, if_pos hne]
      exact hback _ hget

end BlockHashToBlockMap

/-! ## Runs -/

/-- A call that changes the map. -/
inductive MapOp
  | insert (key : BlockHashWithGroupId) (block : BlockRef)
  | pop (key : BlockHashWithGroupId) (blockId : Int)
  deriving DecidableEq, Repr

namespace MapOp

def run (m : BlockHashToBlockMap) : MapOp → BlockHashToBlockMap
  | insert key block => m.insert key block
  | pop key blockId => (m.pop key blockId).2

/-- The same insertion or removal in a finite map. -/
def onMultimap (M : BlockMultimap) : MapOp → BlockMultimap
  | insert key block => M.insert (key, block.blockId) block
  | pop key blockId => M.erase (key, blockId)

theorem run_denotes {m : BlockHashToBlockMap} {M : BlockMultimap} (h : m.Denotes M) (op : MapOp) :
    (op.run m).Denotes (op.onMultimap M) := by
  cases op with
  | insert key block => exact h.insert key block
  | pop key blockId => exact h.pop key blockId

end MapOp

/-- The map, and what the same calls make of a finite map. -/
structure MapRun where
  map : BlockHashToBlockMap
  pairs : BlockMultimap

def mapRuns : TSys MapRun where
  init s := s = ⟨.init, ∅⟩
  step s s' := ∃ op : MapOp, s' = ⟨op.run s.map, op.onMultimap s.pairs⟩

/-- The map stands for its pairs, and the calls answer from them. -/
structure RefinesMultimap (s : MapRun) : Prop where
  /-- No dictionary is empty, and each has its blocks under their ids. -/
  wf : s.map.WF
  pairs : s.map.pairs = s.pairs.keys
  stored : ∀ key b, b ∈ s.map.blocks key ↔ s.pairs.lookup (key, b.blockId) = some b
  getOne_isSome : ∀ key, (s.map.getOneBlock key).isSome ↔ ∃ i, (key, i) ∈ s.pairs.keys
  getOne_mem : ∀ key b, s.map.getOneBlock key = some b →
    s.pairs.lookup (key, b.blockId) = some b
  popped : ∀ key i, (s.map.pop key i).1 = s.pairs.lookup (key, i)
  removed : ∀ key i key' c, c ∈ (s.map.pop key i).2.blocks key' ↔
    c ∈ s.map.blocks key' ∧ ¬ (key' = key ∧ c.blockId = i)
  absent : ∀ key i, (key, i) ∉ s.pairs.keys → ∀ key',
    (s.map.pop key i).2.cache.get? key' = s.map.cache.get? key'

/-- **The block hash map is a finite multimap**: after any insertions and removals it holds the
pairs that the same insertions and removals leave, `get_one_block` finds one of a key's blocks
when it has any, and `pop` takes out the block of its pair and nothing else. -/
theorem map_refines_multimap : mapRuns.Invariant RefinesMultimap := by
  have hinv : mapRuns.Invariant fun s => s.map.Denotes s.pairs := by
    refine TSys.Inductive.invariant ⟨?_, ?_⟩
    · rintro s rfl
      exact BlockHashToBlockMap.init_denotes
    · rintro s s' h ⟨op, rfl⟩
      exact op.run_denotes h
  intro s hs
  have h := hinv s hs
  refine ⟨h.wf, h.pairs_eq, h.stored, fun key => h.getOneBlock_isSome,
    fun key b => h.getOneBlock_lookup, h.pop_fst, fun key i key' c =>
      BlockHashToBlockMap.mem_blocks_pop h.wf, fun key i hi => ?_⟩
  refine BlockHashToBlockMap.pop_absent h.wf ?_
  rw [h.pairs_eq]
  exact hi

end MyOperator.KvCache
