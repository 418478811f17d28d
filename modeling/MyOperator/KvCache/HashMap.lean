import MyOperator.KvCache.Block
import MyOperator.Lib.Dict

/-!
# The block hash map

`BlockHashToBlockMap` maps a key to one block or to a dictionary of duplicates.
`m.blocks key` lists what is stored under a key; every operation is characterised
by what it does to these lists.
-/

namespace MyOperator.KvCache

open Lib List Dict

/-- `KVCacheBlock | dict[int, KVCacheBlock]`. -/
inductive CachedBlocks
  | single (block : BlockRef)
  | dict (blocks : Dict Int BlockRef)
  deriving DecidableEq

structure BlockHashToBlockMap where
  cache : Dict BlockHashWithGroupId CachedBlocks
  deriving DecidableEq

namespace BlockHashToBlockMap

def init : BlockHashToBlockMap := ⟨.empty⟩

/-- `get_one_block`. `next(iter(...))` of an empty dictionary raises `StopIteration`;
no operation leaves one behind (`insert_wf`, `pop_wf`). -/
def getOneBlock (m : BlockHashToBlockMap) (key : BlockHashWithGroupId) : Option BlockRef :=
  match m.cache.get? key with
  | none => none
  | some (.single b) => some b
  | some (.dict d) => d.values.head?

def insert (m : BlockHashToBlockMap) (key : BlockHashWithGroupId) (block : BlockRef) :
    BlockHashToBlockMap :=
  match m.cache.get? key with
  | none => ⟨m.cache.set key (.single block)⟩
  | some (.single b) =>
    ⟨m.cache.set key (.dict ((Dict.empty.set b.blockId b).set block.blockId block))⟩
  | some (.dict d) => ⟨m.cache.set key (.dict (d.set block.blockId block))⟩

/-- `pop`: the popped block and the map. A single block of another id and a dictionary
with blocks left are put back, at the end of the outer dictionary. -/
def pop (m : BlockHashToBlockMap) (key : BlockHashWithGroupId) (blockId : Int) :
    Option BlockRef × BlockHashToBlockMap :=
  match m.cache.get? key with
  | none => (none, m)
  | some (.single b) =>
    let cache := m.cache.erase key
    if b.blockId = blockId then (some b, ⟨cache⟩)
    else (none, ⟨cache.set key (.single b)⟩)
  | some (.dict d) =>
    let cache := m.cache.erase key
    let left := d.erase blockId
    (d.get? blockId, if left.entries.length > 0 then ⟨cache.set key (.dict left)⟩ else ⟨cache⟩)

/-! ## What is stored under a key -/

/-- The blocks stored under a key, the one that `get_one_block` returns first. -/
def blocks (m : BlockHashToBlockMap) (key : BlockHashWithGroupId) : List BlockRef :=
  match m.cache.get? key with
  | none => []
  | some (.single b) => [b]
  | some (.dict d) => d.values

/-- The dictionaries of duplicates are not empty and keyed by block id. -/
def WF (m : BlockHashToBlockMap) : Prop :=
  ∀ key d, m.cache.get? key = some (.dict d) →
    d.values ≠ [] ∧ ∀ i b, d.get? i = some b → b.blockId = i

variable {m : BlockHashToBlockMap} {key key' : BlockHashWithGroupId} {b c : BlockRef} {i : Int}

theorem getOneBlock_eq : m.getOneBlock key = (m.blocks key).head? := by
  unfold getOneBlock blocks
  split <;> rfl

theorem getOneBlock_mem (h : m.getOneBlock key = some b) : b ∈ m.blocks key :=
  mem_of_head? (getOneBlock_eq ▸ h)

@[simp] theorem blocks_init : init.blocks key = [] := rfl

theorem init_wf : init.WF := fun _ _ h => nomatch h

variable {d : Dict Int BlockRef}

section

variable (hd : ∀ i b, d.get? i = some b → b.blockId = i)
include hd

private theorem mem_values : c ∈ d.values ↔ d.get? c.blockId = some c := by
  rw [mem_values_iff]
  exact ⟨fun ⟨i, hi⟩ => hd i c hi ▸ hi, fun h => ⟨_, h⟩⟩

private theorem keyed_set : ∀ i c, (d.set b.blockId b).get? i = some c → c.blockId = i := by
  intro i c h
  rw [get?_set] at h
  by_cases hi : i = b.blockId
  · rw [if_pos hi] at h
    cases h
    exact hi.symm
  · rw [if_neg hi] at h
    exact hd i c h

private theorem mem_values_set :
    c ∈ (d.set b.blockId b).values ↔ c = b ∨ (c ∈ d.values ∧ c.blockId ≠ b.blockId) := by
  rw [mem_values (keyed_set hd), mem_values hd, get?_set]
  by_cases hc : c.blockId = b.blockId
  · rw [if_pos hc]
    constructor
    · intro h
      exact .inl (Option.some.inj h).symm
    · rintro (rfl | ⟨-, h⟩)
      · rfl
      · exact absurd hc h
  · rw [if_neg hc]
    constructor
    · exact fun h => .inr ⟨h, hc⟩
    · rintro (rfl | ⟨h, -⟩)
      · exact absurd rfl hc
      · exact h

end

private theorem blocks_set (cache : Dict BlockHashWithGroupId CachedBlocks) (v : CachedBlocks) :
    blocks ⟨cache.set key v⟩ key' = if key' = key then
      (match v with
        | .single b => [b]
        | .dict d => d.values) else blocks ⟨cache⟩ key' := by
  unfold blocks
  rw [get?_set]
  by_cases h : key' = key
  · rw [if_pos h, if_pos h]
    cases v <;> rfl
  · rw [if_neg h, if_neg h]

private theorem blocks_erase (cache : Dict BlockHashWithGroupId CachedBlocks) :
    blocks ⟨cache.erase key⟩ key' = if key' = key then [] else blocks ⟨cache⟩ key' := by
  unfold blocks
  rw [get?_erase]
  by_cases h : key' = key
  · rw [if_pos h, if_pos h]
  · rw [if_neg h, if_neg h]

private theorem keyed_single (b : BlockRef) :
    ∀ i c, (Dict.empty.set b.blockId b).get? i = some c → c.blockId = i :=
  keyed_set fun _ _ h => nomatch h

private theorem mem_values_single : c ∈ (Dict.empty.set b.blockId b).values ↔ c = b := by
  simp [Dict.values, Dict.empty, Dict.set, assocSet]

theorem mem_blocks_insert (h : m.WF) : c ∈ (m.insert key b).blocks key' ↔
    if key' = key then c = b ∨ (c ∈ m.blocks key ∧ c.blockId ≠ b.blockId)
    else c ∈ m.blocks key' := by
  unfold insert
  cases hget : m.cache.get? key with
  | none =>
    simp only [blocks_set]
    have hb : m.blocks key = [] := by rw [blocks, hget]
    split <;> simp [hb]
  | some v =>
    cases v with
    | single b' =>
      have hb : m.blocks key = [b'] := by rw [blocks, hget]
      simp only [blocks_set, hb]
      split
      · rw [mem_values_set (keyed_single b'), mem_values_single, mem_singleton]
      · rfl
    | dict d =>
      have hb : m.blocks key = d.values := by rw [blocks, hget]
      simp only [blocks_set, hb]
      split
      · rw [mem_values_set (h key d hget).2]
      · rfl

private theorem values_ne_nil (h : b ∈ d.values) : d.values ≠ [] := ne_nil_of_mem h

private theorem wf_set {cache : Dict BlockHashWithGroupId CachedBlocks} {v : CachedBlocks}
    (h : WF ⟨cache⟩)
    (hv : ∀ d, v = .dict d → d.values ≠ [] ∧ ∀ i b, d.get? i = some b → b.blockId = i) :
    WF ⟨cache.set key v⟩ := by
  intro k d hk
  rw [get?_set] at hk
  by_cases hkk : k = key
  · rw [if_pos hkk] at hk
    exact hv d (Option.some.inj hk)
  · rw [if_neg hkk] at hk
    exact h k d hk

theorem insert_wf (h : m.WF) : (m.insert key b).WF := by
  unfold insert
  cases hget : m.cache.get? key with
  | none => exact wf_set h fun d hd => nomatch hd
  | some v =>
    cases v with
    | single b' =>
      refine wf_set h fun d hd => ?_
      cases hd
      refine ⟨values_ne_nil (b := b) ?_, keyed_set (keyed_single b')⟩
      exact (mem_values_set (keyed_single b')).mpr (.inl rfl)
    | dict d' =>
      refine wf_set h fun d hd => ?_
      cases hd
      refine ⟨values_ne_nil (b := b) ?_, keyed_set (h key d' hget).2⟩
      exact (mem_values_set (h key d' hget).2).mpr (.inl rfl)

private theorem keyed_erase (hd : ∀ i b, d.get? i = some b → b.blockId = i) :
    ∀ j c, (d.erase i).get? j = some c → c.blockId = j := by
  intro j c h
  rw [get?_erase] at h
  by_cases hj : j = i
  · rw [if_pos hj] at h
    cases h
  · rw [if_neg hj] at h
    exact hd j c h

private theorem mem_values_erase (hd : ∀ i b, d.get? i = some b → b.blockId = i) :
    c ∈ (d.erase i).values ↔ c ∈ d.values ∧ c.blockId ≠ i := by
  rw [mem_values (keyed_erase hd), mem_values hd, get?_erase]
  by_cases hc : c.blockId = i <;> simp [hc]

theorem pop_fst_eq_some (h : m.WF) :
    (m.pop key i).1 = some b ↔ b ∈ m.blocks key ∧ b.blockId = i := by
  unfold pop blocks
  cases hget : m.cache.get? key with
  | none => simp
  | some v =>
    cases v with
    | single b' =>
      by_cases hi : b'.blockId = i
      · simp only [hi, if_true, Option.some.injEq, mem_singleton]
        exact ⟨fun hb => hb ▸ ⟨rfl, hi⟩, fun hb => hb.1.symm⟩
      · simp only [hi, if_false, mem_singleton, reduceCtorEq, false_iff, not_and]
        exact fun hb => hb ▸ hi
    | dict d =>
      rw [mem_values (h key d hget).2]
      constructor
      · intro hb
        have hbi := (h key d hget).2 i b hb
        exact ⟨hbi ▸ hb, hbi⟩
      · rintro ⟨hb, rfl⟩
        exact hb

theorem mem_blocks_pop (h : m.WF) :
    c ∈ (m.pop key i).2.blocks key' ↔ c ∈ m.blocks key' ∧ ¬ (key' = key ∧ c.blockId = i) := by
  unfold pop
  cases hget : m.cache.get? key with
  | none =>
    have hb : m.blocks key = [] := by rw [blocks, hget]
    constructor
    · refine fun hc => ⟨hc, ?_⟩
      rintro ⟨rfl, -⟩
      rw [hb] at hc
      cases hc
    · exact fun hc => hc.1
  | some v =>
    cases v with
    | single b' =>
      have hb : m.blocks key = [b'] := by rw [blocks, hget]
      by_cases hi : b'.blockId = i
      · simp only [hi, if_true, blocks_erase]
        by_cases hk : key' = key
        · subst hk
          rw [if_pos rfl, hb, mem_singleton]
          exact ⟨fun hc => (nomatch hc), fun hc => absurd ⟨rfl, hc.1 ▸ hi⟩ hc.2⟩
        · simp [hk]
      · simp only [hi, if_false, blocks_set, blocks_erase]
        by_cases hk : key' = key
        · subst hk
          rw [if_pos rfl, hb, mem_singleton]
          exact ⟨fun hc => ⟨hc, fun h0 => hi (hc ▸ h0.2)⟩, fun hc => hc.1⟩
        · simp [hk]
    | dict d =>
      have hb : m.blocks key = d.values := by rw [blocks, hget]
      have hmem := mem_values_erase (c := c) (i := i) (h key d hget).2
      simp only
      by_cases hleft : (d.erase i).entries.length > 0
      · rw [if_pos hleft, blocks_set, blocks_erase]
        by_cases hk : key' = key
        · subst hk
          simp [hb, hmem]
        · simp [hk]
      · rw [if_neg hleft, blocks_erase]
        by_cases hk : key' = key
        · subst hk
          have hnil : (d.erase i).values = [] := by
            simp only [Dict.values, map_eq_nil_iff]
            exact eq_nil_of_length_eq_zero (by omega)
          rw [hnil] at hmem
          simpa [hb] using hmem
        · simp [hk]

theorem pop_wf (h : m.WF) : (m.pop key i).2.WF := by
  have herase : WF ⟨m.cache.erase key⟩ := by
    intro k d hk
    rw [get?_erase] at hk
    by_cases hkk : k = key
    · rw [if_pos hkk] at hk
      cases hk
    · rw [if_neg hkk] at hk
      exact h k d hk
  unfold pop
  cases hget : m.cache.get? key with
  | none => exact h
  | some v =>
    cases v with
    | single b' =>
      by_cases hi : b'.blockId = i
      · simpa only [hi, if_true] using herase
      · simp only [hi, if_false]
        exact wf_set herase fun d hd => nomatch hd
    | dict d =>
      simp only
      by_cases hleft : (d.erase i).entries.length > 0
      · rw [if_pos hleft]
        refine wf_set herase fun d' hd => ?_
        cases hd
        refine ⟨fun h0 => ?_, keyed_erase (h key d hget).2⟩
        simp only [Dict.values, map_eq_nil_iff] at h0
        simp [h0] at hleft
      · rw [if_neg hleft]
        exact herase

end BlockHashToBlockMap

end MyOperator.KvCache
