import MyOperator.KvCache.ManagerEffect
import MyOperator.KvCache.Stock

/-!
# The block tables of all groups

`TablesInv` ties the reference counts of the pool to the tables of all groups: a block is
referenced as often as it stands in them, it stands in the tables of one group only and once in
each, and in a full attention group at one position, which is the position of its hash. What a
call does to one manager and the pool keeps it: taking blocks out of a table, appending new
blocks, filling an empty table with cached blocks, caching the blocks of a table.
-/

namespace MyOperator.KvCache

open Lib BlockPool List

namespace SingleTypeKVCacheManager

/-- A `FullAttentionManager`. -/
def isFull (m : SingleTypeKVCacheManager) : Bool := m.kvCacheSpec.isFullAttention

/-- How often a block stands in the tables of the group. -/
def heldRefs (m : SingleTypeKVCacheManager) (b : BlockRef) : Nat :=
  m.reqToBlocks.sumBy fun blocks => blocks.count b

/-- What no call changes. -/
structure SameManager (m m' : SingleTypeKVCacheManager) : Prop where
  spec : m'.kvCacheSpec = m.kvCacheSpec
  blockSize : m'.blockSize = m.blockSize
  groupId : m'.kvCacheGroupId = m.kvCacheGroupId
  nullBlock : m'.nullBlock = m.nullBlock

/-- In align mode a request that was given blocks has its speculative blocks in its table. -/
structure AlignOk (m : SingleTypeKVCacheManager) : Prop where
  nodup : m.allocatedBlockReqs.Nodup
  speculative : ∀ n, m.kvCacheSpec.kind = .mamba true n → ∀ r ∈ m.allocatedBlockReqs,
    n ≤ (m.table r).length

variable {m m' : SingleTypeKVCacheManager} {b : BlockRef} {r : Nat} {blocks : List BlockRef}

theorem SameManager.refl (m : SingleTypeKVCacheManager) : SameManager m m := ⟨rfl, rfl, rfl, rfl⟩

theorem SameManager.isFull (h : SameManager m m') : m'.isFull = m.isFull :=
  congrArg KVCacheSpec.isFullAttention h.spec

theorem count_le_heldRefs (m : SingleTypeKVCacheManager) (r : Nat) (b : BlockRef) :
    (m.table r).count b ≤ m.heldRefs b := by
  refine le_trans (le_of_eq ?_) (m.reqToBlocks.valueAt_le_sumBy r fun blocks => blocks.count b)
  unfold table Dict.valueAt
  cases m.reqToBlocks.get? r <;> rfl

theorem AlignOk.setTable (h : m.AlignOk) (hle : (m.table r).length ≤ blocks.length) :
    (m.setTable r blocks).AlignOk where
  nodup := h.nodup
  speculative n hn r' hr' := by
    have hold := h.speculative n hn r' hr'
    rw [table_setTable]
    split
    · rename_i heq
      rw [heq] at hold
      exact le_trans hold hle
    · exact hold

theorem heldRefs_setTable (m : SingleTypeKVCacheManager) (r : Nat) (blocks : List BlockRef)
    (b : BlockRef) : (m.setTable r blocks).heldRefs b + (m.table r).count b =
    m.heldRefs b + blocks.count b := by
  have hset := m.reqToBlocks.sumBy_set r blocks fun blocks => blocks.count b
  have hold : m.reqToBlocks.valueAt r (fun blocks => blocks.count b) = (m.table r).count b := by
    unfold table Dict.valueAt
    cases m.reqToBlocks.get? r <;> rfl
  rw [hold] at hset
  exact hset

end SingleTypeKVCacheManager

open SingleTypeKVCacheManager

/-- How often a block stands in the tables of all groups. -/
def heldRefs (managers : List SingleTypeKVCacheManager) (b : BlockRef) : Nat :=
  (managers.map fun m => m.heldRefs b).sum

/-- What no call changes: the groups with the block sizes of their managers, what the pool was
made for, and which hash stands at which position: `At blockSize i hash`. A hash stands at one
position only, and the groups can be told apart in keys. -/
structure Layout where
  groups : List (KVCacheSpec × Nat)
  enableCaching : Bool
  hashBlockSize : Nat
  At : Nat → Nat → BlockHash → Prop
  position : ∀ {blockSize i j : Nat} {hash : BlockHash},
    At blockSize i hash → At blockSize j hash → i = j
  few : groups.length ≤ 4294967296

/-- The references and the hashes of the pool are those of the tables. -/
structure TablesInv (L : Layout) (p : BlockPool) (managers : List SingleTypeKVCacheManager) :
    Prop where
  groups : managers.map (fun m => (m.kvCacheSpec, m.blockSize)) = L.groups
  caching : p.enableCaching = L.enableCaching
  hashBlockSize : p.hashBlockSize = L.hashBlockSize
  coherent : Coherent p
  stock : ∃ F, Stock p F
  null : ∀ r, (p.heap r).isNull = true ↔ r = p.nullBlock
  nullMem : p.nullBlock ∈ p.blocks
  manager : ∀ {g : Nat} {m : SingleTypeKVCacheManager}, managers[g]? = some m →
    m.nullBlock = p.nullBlock ∧ m.kvCacheGroupId = g ∧ m.AlignOk
  refs : ∀ b, b ≠ p.nullBlock → (p.heap b).refCnt = heldRefs managers b
  mem : ∀ {g r : Nat} {m : SingleTypeKVCacheManager} {b : BlockRef}, managers[g]? = some m →
    b ∈ m.table r → b ∈ p.blocks
  once : ∀ {g : Nat} {m : SingleTypeKVCacheManager} {b : BlockRef}, managers[g]? = some m →
    b ≠ p.nullBlock → ∀ r, (m.table r).count b ≤ 1
  agree : ∀ {g g' r r' i i' : Nat} {m m' : SingleTypeKVCacheManager} {b : BlockRef},
    managers[g]? = some m → managers[g']? = some m' → (m.table r)[i]? = some b →
    (m'.table r')[i']? = some b → b ≠ p.nullBlock → g = g' ∧ (m.isFull = true → i = i')
  hash : ∀ {g r i : Nat} {m : SingleTypeKVCacheManager} {b : BlockRef} {key : BlockHashWithGroupId},
    managers[g]? = some m → (m.table r)[i]? = some b → (p.heap b).blockHash = some key →
    ∃ hash, key = makeBlockHashWithGroupId hash g ∧ (m.isFull = true → L.At m.blockSize i hash)
  real : ∀ {g r : Nat} {m : SingleTypeKVCacheManager} {b : BlockRef}, managers[g]? = some m →
    m.isFull = true → b ∈ m.table r → b ≠ p.nullBlock

variable {L : Layout} {p p' : BlockPool} {managers : List SingleTypeKVCacheManager}
  {m m' : SingleTypeKVCacheManager} {g r : Nat} {b : BlockRef}

/-! ## One manager changes -/

theorem heldRefs_set (hm : managers[g]? = some m) (m' : SingleTypeKVCacheManager) (b : BlockRef) :
    heldRefs (managers.set g m') b + m.heldRefs b = heldRefs managers b + m'.heldRefs b := by
  unfold heldRefs
  induction managers generalizing g with
  | nil => cases hm
  | cons m0 managers ih =>
    cases g with
    | zero =>
      cases hm
      simp only [set_cons_zero, map_cons, sum_cons]
      omega
    | succ g =>
      have := ih hm
      simp only [set_cons_succ, map_cons, sum_cons]
      omega

theorem heldRefs_ge (hm : managers[g]? = some m) : m.heldRefs b ≤ heldRefs managers b := by
  have := heldRefs_set hm { m with reqToBlocks := .empty } b
  have hempty : SingleTypeKVCacheManager.heldRefs { m with reqToBlocks := .empty } b = 0 := rfl
  omega

theorem get_set {g' : Nat} {m1 : SingleTypeKVCacheManager} (hm : managers[g]? = some m)
    (h : (managers.set g m')[g']? = some m1) :
    g' = g ∧ m1 = m' ∨ g' ≠ g ∧ managers[g']? = some m1 := by
  have hlt := lt_of_getElem? hm
  by_cases hg : g' = g
  · rw [hg, getElem?_set_self hlt] at h
    exact Or.inl ⟨hg, (Option.some.inj h).symm⟩
  · rw [getElem?_set_ne (Ne.symm hg)] at h
    exact Or.inr ⟨hg, h⟩

namespace TablesInv

section

variable (h : TablesInv L p managers) (hm : managers[g]? = some m)
include h hm

theorem group_lt : g < 4294967296 := by
  have hlt := lt_of_getElem? hm
  have hfew := L.few
  rw [← h.groups, length_map] at hfew
  omega

theorem groups_get : L.groups[g]? = some (m.kvCacheSpec, m.blockSize) := by
  rw [← h.groups, getElem?_map, hm]
  rfl

theorem groups_set (hs : SameManager m m') :
    (managers.set g m').map (fun m => (m.kvCacheSpec, m.blockSize)) = L.groups := by
  rw [map_set, hs.spec, hs.blockSize, ← h.groups]
  obtain ⟨hlt, rfl⟩ := List.getElem?_eq_some_iff.mp hm
  refine ext_getElem? fun i => ?_
  rw [getElem?_set]
  split
  · rename_i heq
    rw [← heq, if_pos (by rwa [length_map]), getElem?_map, getElem?_eq_getElem hlt]
    rfl
  · rfl

theorem notMem_of_refCnt (hb : b ≠ p.nullBlock) (hzero : (p.heap b).refCnt = 0) :
    b ∉ m.table r := by
  intro hmem
  have hpos : 0 < (m.table r).count b := count_pos_iff.mpr hmem
  have hle := m.count_le_heldRefs r b
  have hge := heldRefs_ge (b := b) hm
  rw [h.refs b hb] at hzero
  omega

theorem refCnt_pos (hb : b ≠ p.nullBlock) (hmem : b ∈ m.table r) : 0 < (p.heap b).refCnt := by
  have hne : (p.heap b).refCnt ≠ 0 := fun hzero => h.notMem_of_refCnt hm hb hzero hmem
  rw [h.refs b hb] at hne ⊢
  omega

end

/-- What a pool and a manager owe when both change and the tables of the group keep their blocks or
lose some. -/
structure Shrinks (p p' : BlockPool) (m m' : SingleTypeKVCacheManager) : Prop where
  same : SameManager m m'
  align : m'.AlignOk
  config : SameConfig p p'
  coherent : Coherent p'
  stock : ∃ F, Stock p' F
  forgets : Forgets p p'
  count : ∀ r b, b ≠ p.nullBlock → (m'.table r).count b ≤ (m.table r).count b
  full : m.isFull = true → ∀ (r i : Nat) (b : BlockRef), (m'.table r)[i]? = some b →
    (m.table r)[i]? = some b
  refs : ∀ b, b ≠ p.nullBlock →
    (p'.heap b).refCnt + m.heldRefs b = (p.heap b).refCnt + m'.heldRefs b

theorem Shrinks.mem (hs : Shrinks p p' m m') (hb : b ≠ p.nullBlock) (hmem : b ∈ m'.table r) :
    b ∈ m.table r := by
  have := hs.count r b hb
  have hpos := count_pos_iff.mpr hmem
  exact count_pos_iff.mp (by omega)

/-- Blocks that stay stood in the table before, in a full attention group at the same position. -/
theorem Shrinks.place (hs : Shrinks p p' m m') (hb : b ≠ p.nullBlock) {i : Nat}
    (hget : (m'.table r)[i]? = some b) :
    ∃ j, (m.table r)[j]? = some b ∧ (m.isFull = true → j = i) := by
  by_cases hf : m.isFull = true
  · exact ⟨i, hs.full hf r i b hget, fun _ => rfl⟩
  · obtain ⟨j, hj⟩ := getElem?_of_mem (hs.mem hb (mem_of_getElem? hget))
    exact ⟨j, hj, fun h => absurd h hf⟩

theorem shrink (h : TablesInv L p managers) (hm : managers[g]? = some m) (hs : Shrinks p p' m m') :
    TablesInv L p' (managers.set g m') where
  groups := h.groups_set hm hs.same
  caching := hs.config.enableCaching.trans h.caching
  hashBlockSize := hs.config.hashBlockSize.trans h.hashBlockSize
  coherent := hs.coherent
  stock := hs.stock
  null r := by rw [hs.config.isNull, hs.config.nullBlock, h.null]
  nullMem := by
    rw [hs.config.nullBlock, hs.config.blocks]
    exact h.nullMem
  manager hm1 := by
    rw [hs.config.nullBlock]
    rcases get_set hm hm1 with ⟨rfl, rfl⟩ | ⟨-, hm1⟩
    · obtain ⟨hnull, hid, -⟩ := h.manager hm
      exact ⟨hs.same.nullBlock.trans hnull, hs.same.groupId.trans hid, hs.align⟩
    · exact h.manager hm1
  refs b hb := by
    rw [hs.config.nullBlock] at hb
    have hset := heldRefs_set hm m' b
    have hrefs := hs.refs b hb
    rw [h.refs b hb] at hrefs
    omega
  mem hm1 hmem := by
    rw [hs.config.blocks]
    rcases get_set hm hm1 with ⟨rfl, rfl⟩ | ⟨-, hm1⟩
    · rename_i b
      by_cases hb : b = p.nullBlock
      · rw [hb]
        exact h.nullMem
      · exact h.mem hm (hs.mem hb hmem)
    · exact h.mem hm1 hmem
  once hm1 hb r := by
    rw [hs.config.nullBlock] at hb
    rcases get_set hm hm1 with ⟨rfl, rfl⟩ | ⟨-, hm1⟩
    · exact le_trans (hs.count r _ hb) (h.once hm hb r)
    · exact h.once hm1 hb r
  agree hm1 hm2 hi hi' hb := by
    rw [hs.config.nullBlock] at hb
    rcases get_set hm hm1 with ⟨hg1, rfl⟩ | ⟨-, hold1⟩ <;>
      rcases get_set hm hm2 with ⟨hg2, rfl⟩ | ⟨-, hold2⟩
    · obtain ⟨j, hj, hji⟩ := hs.place hb hi
      obtain ⟨j', hj', hji'⟩ := hs.place hb hi'
      refine ⟨hg1.trans hg2.symm, fun hf => ?_⟩
      rw [hs.same.isFull] at hf
      rw [← hji hf, ← hji' hf]
      exact (h.agree hm hm hj hj' hb).2 hf
    · obtain ⟨j, hj, hji⟩ := hs.place hb hi
      obtain ⟨hg, hpos⟩ := h.agree hm hold2 hj hi' hb
      refine ⟨hg1.trans hg, fun hf => ?_⟩
      rw [hs.same.isFull] at hf
      rw [← hji hf]
      exact hpos hf
    · obtain ⟨j', hj', hji'⟩ := hs.place hb hi'
      obtain ⟨hg, hpos⟩ := h.agree hold1 hm hi hj' hb
      refine ⟨hg.trans hg2.symm, fun hf => ?_⟩
      rw [hg, hm] at hold1
      obtain rfl := Option.some.inj hold1
      rw [hpos hf]
      exact hji' hf
    · exact h.agree hold1 hold2 hi hi' hb
  hash := by
    intro g1 r i m1 b key hm1 hi hkey
    have hkey := hs.forgets b key hkey
    rcases get_set hm hm1 with ⟨rfl, rfl⟩ | ⟨-, hold1⟩
    · have hb : b ≠ p.nullBlock := by
        rintro rfl
        have hnull := h.coherent.notNull _ _ hkey
        rw [(h.null _).mpr rfl] at hnull
        cases hnull
      obtain ⟨j, hj, hji⟩ := hs.place hb hi
      obtain ⟨hash, hmake, hat⟩ := h.hash hm hj hkey
      refine ⟨hash, hmake, fun hf => ?_⟩
      rw [hs.same.isFull] at hf
      rw [hs.same.blockSize, ← hji hf]
      exact hat hf
    · exact h.hash hold1 hi hkey
  real hm1 hf hmem := by
    rw [hs.config.nullBlock]
    rcases get_set hm hm1 with ⟨rfl, rfl⟩ | ⟨-, hm1⟩
    · rw [hs.same.isFull] at hf
      obtain ⟨i, hi⟩ := getElem?_of_mem hmem
      exact h.real hm hf (mem_of_getElem? (hs.full hf _ i _ hi))
    · exact h.real hm1 hf hmem

/-! ## A table grows -/

/-- What is appended to the table of request `r`: blocks that nobody references, or blocks of an
empty table that are cached under the hashes of their positions. -/
inductive Appended (L : Layout) (p p' : BlockPool)
    (m : SingleTypeKVCacheManager) (g r : Nat) (added : List BlockRef) : Prop
  | fresh (hzero : ∀ b ∈ added, (p.heap b).refCnt = 0) (hhash : ∀ b ∈ added, (p'.heap b).blockHash = none)
      (hnodup : added.Nodup)
  | hits (hempty : m.table r = [])
      (hhits : ∀ (i : Nat) (b : BlockRef), added[i]? = some b → b ≠ p.nullBlock →
        ∃ hash, (p.heap b).blockHash = some (makeBlockHashWithGroupId hash g) ∧ L.At m.blockSize i hash)

/-- What a pool and a manager owe when blocks are appended to the table of request `r`. -/
structure Appends (L : Layout) (p p' : BlockPool)
    (m m' : SingleTypeKVCacheManager) (g r : Nat) (added : List BlockRef) : Prop where
  same : SameManager m m'
  align : m'.AlignOk
  config : SameConfig p p'
  coherent : Coherent p'
  stock : ∃ F, Stock p' F
  forgets : Forgets p p'
  table : ∀ r', m'.table r' = if r' = r then m.table r ++ added else m.table r'
  mem : ∀ b ∈ added, b ∈ p.blocks
  real : m.isFull = true → ∀ b ∈ added, b ≠ p.nullBlock
  appended : Appended L p p' m g r added
  refs : ∀ b, b ≠ p.nullBlock →
    (p'.heap b).refCnt + m.heldRefs b = (p.heap b).refCnt + m'.heldRefs b

variable {added : List BlockRef}

theorem Appends.entry (ha : Appends L p p' m m' g r added) {r' i : Nat}
    (hget : (m'.table r')[i]? = some b) :
    (m.table r')[i]? = some b ∨ r' = r ∧ ∃ j, i = (m.table r).length + j ∧ added[j]? = some b := by
  rw [ha.table] at hget
  split at hget
  · rename_i hr
    rw [hr]
    rcases lt_or_ge i (m.table r).length with hlt | hge
    · rw [getElem?_append_left hlt] at hget
      exact Or.inl hget
    · rw [getElem?_append_right hge] at hget
      exact Or.inr ⟨rfl, i - (m.table r).length, by omega, hget⟩
  · exact Or.inl hget

theorem Appends.before (h : TablesInv L p managers)
    (hm : managers[g]? = some m) (ha : Appends L p p' m m' g r added) {j : Nat}
    (hj : added[j]? = some b) (hb : b ≠ p.nullBlock) {g1 r1 i1 : Nat} {m1 : SingleTypeKVCacheManager}
    (hm1 : managers[g1]? = some m1) (hi1 : (m1.table r1)[i1]? = some b) :
    g1 = g ∧ (m.isFull = true → i1 = (m.table r).length + j) := by
  cases ha.appended with
  | fresh hzero _ _ =>
    exact absurd (mem_of_getElem? hi1) (h.notMem_of_refCnt hm1 hb (hzero b (mem_of_getElem? hj)))
  | hits hempty hhits =>
    obtain ⟨hash, hkey, hat⟩ := hhits j b hj hb
    obtain ⟨hash1, hmake, hat1⟩ := h.hash hm1 hi1 hkey
    obtain ⟨rfl, rfl⟩ := makeBlockHashWithGroupId_inj (h.group_lt hm) (h.group_lt hm1) hmake
    refine ⟨rfl, fun hf => ?_⟩
    rw [hm] at hm1
    obtain rfl := Option.some.inj hm1
    rw [hempty, length_nil, zero_add]
    exact L.position (hat1 hf) hat

theorem Appends.index (h : TablesInv L p managers) (ha : Appends L p p' m m' g r added)
    (hm : managers[g]? = some m) {j j' : Nat}
    (hj : added[j]? = some b) (hj' : added[j']? = some b) (hb : b ≠ p.nullBlock) : j = j' := by
  cases ha.appended with
  | fresh _ _ hnodup =>
    refine (getElem?_inj (lt_of_getElem? hj) hnodup).mp ?_
    rw [hj, hj']
  | hits _ hhits =>
    obtain ⟨hash, hkey, hat⟩ := hhits j b hj hb
    obtain ⟨hash', hkey', hat'⟩ := hhits j' b hj' hb
    rw [hkey] at hkey'
    obtain ⟨rfl, -⟩ := makeBlockHashWithGroupId_inj (h.group_lt hm) (h.group_lt hm)
      (Option.some.inj hkey')
    exact L.position hat hat'

theorem count_le_one_of_index {l : List BlockRef}
    (h : ∀ i j : Nat, l[i]? = some b → l[j]? = some b → i = j) : l.count b ≤ 1 := by
  by_contra hle
  have hdup := duplicate_iff_two_le_count.mpr (Nat.lt_of_not_le hle)
  obtain ⟨i, j, hlt, hi, hj⟩ := duplicate_iff_exists_distinct_get.mp hdup
  have hij := h i j (List.getElem?_eq_some_iff.mpr ⟨i.isLt, hi.symm⟩)
    (List.getElem?_eq_some_iff.mpr ⟨j.isLt, hj.symm⟩)
  exact absurd hlt (by rw [Fin.ext hij]; exact lt_irrefl j)

theorem append (h : TablesInv L p managers) (hm : managers[g]? = some m)
    (ha : Appends L p p' m m' g r added) : TablesInv L p' (managers.set g m') where
  groups := h.groups_set hm ha.same
  caching := ha.config.enableCaching.trans h.caching
  hashBlockSize := ha.config.hashBlockSize.trans h.hashBlockSize
  coherent := ha.coherent
  stock := ha.stock
  null r := by rw [ha.config.isNull, ha.config.nullBlock, h.null]
  nullMem := by
    rw [ha.config.nullBlock, ha.config.blocks]
    exact h.nullMem
  manager hm1 := by
    rw [ha.config.nullBlock]
    rcases get_set hm hm1 with ⟨rfl, rfl⟩ | ⟨-, hold⟩
    · obtain ⟨hnull, hid, -⟩ := h.manager hm
      exact ⟨ha.same.nullBlock.trans hnull, ha.same.groupId.trans hid, ha.align⟩
    · exact h.manager hold
  refs b hb := by
    rw [ha.config.nullBlock] at hb
    have hset := heldRefs_set hm m' b
    have hrefs := ha.refs b hb
    rw [h.refs b hb] at hrefs
    omega
  mem hm1 hmem := by
    rw [ha.config.blocks]
    rcases get_set hm hm1 with ⟨rfl, rfl⟩ | ⟨-, hold⟩
    · obtain ⟨i, hi⟩ := getElem?_of_mem hmem
      rcases ha.entry hi with hold | ⟨-, j, -, hj⟩
      · exact h.mem hm (mem_of_getElem? hold)
      · exact ha.mem _ (mem_of_getElem? hj)
    · exact h.mem hold hmem
  once := by
    intro g1 m1 b hm1 hb r1
    rw [ha.config.nullBlock] at hb
    rcases get_set hm hm1 with ⟨rfl, rfl⟩ | ⟨-, hold⟩
    · rw [ha.table]
      split
      · by_cases hadded : b ∈ added
        · have hnot : b ∉ m.table r := by
            cases ha.appended with
            | fresh hzero _ _ => exact h.notMem_of_refCnt hm hb (hzero b hadded)
            | hits hempty _ =>
              rw [hempty]
              exact not_mem_nil
          rw [count_append, count_eq_zero_of_not_mem hnot, zero_add]
          exact count_le_one_of_index fun j j' hj hj' => ha.index h hm hj hj' hb
        · rw [count_append, count_eq_zero_of_not_mem hadded, add_zero]
          exact h.once hm hb r
      · exact h.once hm hb r1
    · exact h.once hold hb r1
  agree := by
    intro g1 g2 r1 r2 i1 i2 m1 m2 b hm1 hm2 hi1 hi2 hb
    rw [ha.config.nullBlock] at hb
    rcases get_set hm hm1 with ⟨hg1, rfl⟩ | ⟨-, hold1⟩ <;>
      rcases get_set hm hm2 with ⟨hg2, rfl⟩ | ⟨-, hold2⟩
    · refine ⟨hg1.trans hg2.symm, fun hf => ?_⟩
      rw [ha.same.isFull] at hf
      rcases ha.entry hi1 with hi1 | ⟨-, j1, rfl, hj1⟩ <;> rcases ha.entry hi2 with hi2 | ⟨-, j2, rfl, hj2⟩
      · exact (h.agree hm hm hi1 hi2 hb).2 hf
      · exact (Appends.before h hm ha hj2 hb hm hi1).2 hf
      · exact ((Appends.before h hm ha hj1 hb hm hi2).2 hf).symm
      · rw [ha.index h hm hj1 hj2 hb]
    · rcases ha.entry hi1 with hi1 | ⟨-, j1, rfl, hj1⟩
      · obtain ⟨hg, hpos⟩ := h.agree hm hold2 hi1 hi2 hb
        rw [ha.same.isFull]
        exact ⟨hg1.trans hg, hpos⟩
      · obtain ⟨hg, hpos⟩ := Appends.before h hm ha hj1 hb hold2 hi2
        rw [ha.same.isFull]
        exact ⟨hg1.trans hg.symm, fun hf => (hpos hf).symm⟩
    · rcases ha.entry hi2 with hi2 | ⟨-, j2, rfl, hj2⟩
      · obtain ⟨hg, hpos⟩ := h.agree hold1 hm hi1 hi2 hb
        exact ⟨hg.trans hg2.symm, hpos⟩
      · obtain ⟨hg, hpos⟩ := Appends.before h hm ha hj2 hb hold1 hi1
        refine ⟨hg.trans hg2.symm, fun hf => hpos ?_⟩
        rw [hg, hm] at hold1
        rwa [Option.some.inj hold1]
    · exact h.agree hold1 hold2 hi1 hi2 hb
  hash := by
    intro g1 r1 i m1 b key hm1 hi hkey
    rcases get_set hm hm1 with ⟨rfl, rfl⟩ | ⟨-, hold⟩
    · rw [ha.same.isFull, ha.same.blockSize]
      rcases ha.entry hi with hi | ⟨-, j, rfl, hj⟩
      · exact h.hash hm hi (ha.forgets b key hkey)
      · have hold := ha.forgets b key hkey
        cases ha.appended with
        | fresh _ hhash _ =>
          rw [hhash b (mem_of_getElem? hj)] at hkey
          cases hkey
        | hits hempty hhits =>
          have hb : b ≠ p.nullBlock := by
            rintro rfl
            have hnull := h.coherent.notNull _ _ hold
            rw [(h.null _).mpr rfl] at hnull
            cases hnull
          obtain ⟨hash, hmake, hat⟩ := hhits j b hj hb
          rw [hold] at hmake
          refine ⟨hash, Option.some.inj hmake, fun _ => ?_⟩
          rw [hempty, length_nil, zero_add]
          exact hat
    · exact h.hash hold hi (ha.forgets b key hkey)
  real hm1 hf hmem := by
    rw [ha.config.nullBlock]
    rcases get_set hm hm1 with ⟨rfl, rfl⟩ | ⟨-, hold⟩
    · rw [ha.same.isFull] at hf
      obtain ⟨i, hi⟩ := getElem?_of_mem hmem
      rcases ha.entry hi with hold | ⟨-, j, -, hj⟩
      · exact h.real hm hf (mem_of_getElem? hold)
      · exact ha.real hf _ (mem_of_getElem? hj)
    · exact h.real hold hf hmem

/-! ## The tables stay -/

/-- A manager with the same tables. -/
structure SameTables (m m' : SingleTypeKVCacheManager) : Prop where
  same : SameManager m m'
  nodup : m'.allocatedBlockReqs.Nodup
  allocated : ∀ r ∈ m'.allocatedBlockReqs, r ∈ m.allocatedBlockReqs
  table : ∀ r, m'.table r = m.table r
  refs : ∀ b, m'.heldRefs b = m.heldRefs b

theorem SameTables.align (h : SameTables m m') (hm : m.AlignOk) : m'.AlignOk where
  nodup := h.nodup
  speculative n hn r hr := by
    rw [h.same.spec] at hn
    rw [h.table]
    exact hm.speculative n hn r (h.allocated r hr)

theorem sameTables_setTable (hm : m.AlignOk) (r : Nat) : SameTables m (m.setTable r (m.table r)) where
  same := ⟨rfl, rfl, rfl, rfl⟩
  nodup := hm.nodup
  allocated := fun _ hr => hr
  table := setTable_self
  refs b := by
    have := heldRefs_setTable m r (m.table r) b
    omega

section

variable (h : TablesInv L p managers)
include h

theorem keep (hm : managers[g]? = some m) (hs : SameTables m m') :
    TablesInv L p (managers.set g m') :=
  h.shrink hm
    { same := hs.same
      align := hs.align (h.manager hm).2.2
      config := .refl p
      coherent := h.coherent
      stock := h.stock
      forgets := fun _ _ hkey => hkey
      count := fun r b _ => by rw [hs.table]
      full := fun _ r i b hget => by rwa [hs.table] at hget
      refs := fun b _ => by rw [hs.refs] }

theorem rehash (hc : SameConfig p p') (hr : KeepsRefs p p') (hcoh : Coherent p')
    (hstock : ∃ F, Stock p' F)
    (hhash : ∀ {g r i : Nat} {m : SingleTypeKVCacheManager} {b : BlockRef} {key : BlockHashWithGroupId}, managers[g]? = some m → (m.table r)[i]? = some b → (p'.heap b).blockHash = some key → ∃ hash, key = makeBlockHashWithGroupId hash g ∧ (m.isFull = true → L.At m.blockSize i hash)) :
    TablesInv L p' managers where
  groups := h.groups
  caching := hc.enableCaching.trans h.caching
  hashBlockSize := hc.hashBlockSize.trans h.hashBlockSize
  coherent := hcoh
  stock := hstock
  null r := by rw [hc.isNull, hc.nullBlock, h.null]
  nullMem := by
    rw [hc.nullBlock, hc.blocks]
    exact h.nullMem
  manager hm := by
    rw [hc.nullBlock]
    exact h.manager hm
  refs b hb := by
    rw [hc.nullBlock] at hb
    rw [hr, h.refs b hb]
  mem hm hmem := by
    rw [hc.blocks]
    exact h.mem hm hmem
  once hm hb r := by
    rw [hc.nullBlock] at hb
    exact h.once hm hb r
  agree hm hm' hi hi' hb := by
    rw [hc.nullBlock] at hb
    exact h.agree hm hm' hi hi' hb
  hash := hhash
  real hm hf hmem := by
    rw [hc.nullBlock]
    exact h.real hm hf hmem

theorem forget (hc : SameConfig p p') (hr : KeepsRefs p p') (hl : KeepsLinks p p')
    (hcoh : Coherent p') (hf : Forgets p p') : TablesInv L p' managers := by
  obtain ⟨F, hstock⟩ := h.stock
  refine h.rehash hc hr hcoh ⟨F, hstock.congr hc hr hl fun b hb => Or.inl fun hnone => ?_⟩
    fun hm hi hkey => h.hash hm hi (hf _ _ hkey)
  exact hb (hf.none hnone)

theorem cache (hm : managers[g]? = some m) {r numCached numFull : Nat} {hashes : List BlockHash}
    (hat : ∀ (i : Nat) hash, hashes[i]? = some hash → L.At m.blockSize i hash)
    (hc : Caches p p' g (((m.table r).take numFull).drop numCached) (hashes.drop numCached)) :
    TablesInv L p' managers := by
  obtain ⟨F, hstock⟩ := h.stock
  have htable : ∀ (j : Nat) b, (((m.table r).take numFull).drop numCached)[j]? = some b →
      (m.table r)[numCached + j]? = some b := by
    intro j b hj
    rw [getElem?_drop, getElem?_take] at hj
    split at hj
    · exact hj
    · cases hj
  -- a block whose hash is new stands in the table
  have hnew : ∀ b key, (p'.heap b).blockHash = some key → (p.heap b).blockHash = some key ∨
      b ≠ p.nullBlock ∧ ∃ (j : Nat) (hash : BlockHash), (m.table r)[j]? = some b ∧ hashes[j]? = some hash ∧
        key = makeBlockHashWithGroupId hash g := by
    intro b key hkey
    by_cases hb : b ∉ ((m.table r).take numFull).drop numCached ∨ (p.heap b).isNull = true
    · rw [hc.frame b hb] at hkey
      exact Or.inl hkey
    · obtain ⟨hmem, hnull⟩ := not_or.mp hb
      have hnull : (p.heap b).isNull = false := by simpa using hnull
      obtain ⟨j, hj⟩ := getElem?_of_mem (not_not.mp hmem)
      obtain ⟨hash, hget, hnewkey⟩ := hc.keys j b hj hnull
      rw [hkey] at hnewkey
      rw [getElem?_drop] at hget
      refine Or.inr ⟨fun hb => ?_, numCached + j, hash, htable j b hj, hget, Option.some.inj hnewkey⟩
      rw [(h.null b).mpr hb] at hnull
      cases hnull
  refine h.rehash hc.config hc.refs hc.coherent
    ⟨F, hstock.congr hc.config hc.refs hc.links fun b hb => ?_⟩ fun hm1 hi hkey => ?_
  · obtain ⟨key, hkey⟩ := Option.ne_none_iff_exists'.mp hb
    rcases hnew b key hkey with hold | ⟨hne, j, hash, hj, -, -⟩
    · exact Or.inl (by rw [hold]; exact Option.some_ne_none key)
    · exact Or.inr (h.refCnt_pos hm hne (mem_of_getElem? hj))
  · rcases hnew _ _ hkey with hold | ⟨hne, j, hash, hj, hget, hmake⟩
    · exact h.hash hm1 hi hold
    · obtain ⟨rfl, hpos⟩ := h.agree hm1 hm hi hj hne
      rw [hm1] at hm
      obtain rfl := Option.some.inj hm
      refine ⟨hash, hmake, fun hf => ?_⟩
      rw [hpos hf]
      exact hat j hash hget

end

end TablesInv

end MyOperator.KvCache
