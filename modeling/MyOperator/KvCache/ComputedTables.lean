import MyOperator.KvCache.BlockHasher
import MyOperator.KvCache.ManagerTables

/-!
# Caching and computed blocks keep the tables

The blocks of a table are cached under the hashes of the request, and the blocks that a lookup found
are put into an empty table while they are still cached under the hashes of their positions.
-/

namespace MyOperator.KvCache

open Lib BlockPool SingleTypeKVCacheManager List

variable {L : Layout} {p p' : BlockPool} {managers : List SingleTypeKVCacheManager}
  {m m' : SingleTypeKVCacheManager} {g r : Nat}

/-- The hashes of a request, at any block size, are those of their positions. -/
def Layout.Hashed (L : Layout) (blockHashes : List BlockHash) : Prop :=
  ∀ blockSize hashes, hashesAt L.hashBlockSize blockSize blockHashes = .ok hashes →
    ∀ (i : Nat) hash, hashes[i]? = some hash → L.At blockSize i hash

/-- What the computed blocks of a group owe when its manager is called and passes over the first `k`
of them: the others are null or cached under the hashes of their positions, and for full attention no
block is null. -/
structure HitsOk (L : Layout) (p : BlockPool) (g k : Nat) (hits : List BlockRef) : Prop where
  keys : ∀ {spec : KVCacheSpec} {blockSize : Nat}, L.groups[g]? = some (spec, blockSize) →
    ∀ (i : Nat) (b : BlockRef), (hits.drop k)[i]? = some b → b ≠ p.nullBlock → ∃ hash,
      (p.heap b).blockHash = some (makeBlockHashWithGroupId hash g) ∧ L.At blockSize (k + i) hash
  real : ∀ {spec : KVCacheSpec} {blockSize : Nat}, L.groups[g]? = some (spec, blockSize) →
    spec.isFullAttention = true → ∀ b ∈ hits, b ≠ p.nullBlock

variable {hits : List BlockRef}

theorem HitsOk.keep {k : Nat} (h : HitsOk L p g k hits) (hnull : p'.nullBlock = p.nullBlock)
    (hkeep : ∀ b ∈ hits.drop k, b ≠ p.nullBlock → (p'.heap b).blockHash = (p.heap b).blockHash) :
    HitsOk L p' g k hits where
  keys := by
    intro spec blockSize hg i b hi hb
    rw [hnull] at hb
    rw [hkeep b (mem_of_getElem? hi) hb]
    exact h.keys hg i b hi hb
  real := by
    intro spec blockSize hg hf
    rw [hnull]
    exact h.real hg hf

/-- The number of blocks that the manager passes over after `n` computed tokens. -/
def SingleTypeKVCacheManager.skippedBlocks (m : SingleTypeKVCacheManager) (n : Nat) : Nat :=
  (m.getNumSkippedTokens n / m.blockSize).toNat

theorem HitsOk.drop (h : HitsOk L p g 0 hits) (k : Nat) : HitsOk L p g k hits where
  keys := by
    intro spec blockSize hg i b hi hb
    rw [getElem?_drop] at hi
    have hkey := h.keys hg (k + i) b hi hb
    rwa [Nat.zero_add] at hkey
  real := h.real

/-- The computed blocks, after null blocks for the skipped ones, are no more than the blocks of the
computed tokens. -/
def HitsFit (m : SingleTypeKVCacheManager) (hits : List BlockRef) (numTotalComputedTokens : Nat) :
    Prop :=
  max (m.skippedBlocks numTotalComputedTokens) hits.length ≤ cdiv numTotalComputedTokens m.blockSize

instance (m : SingleTypeKVCacheManager) (hits : List BlockRef) (n : Nat) : Decidable (HitsFit m hits n) :=
  inferInstanceAs (Decidable (_ ≤ _))

namespace TablesInv

/-! ## Caching -/

variable {n loc ext : Nat} {hits : List BlockRef}

theorem base_cacheBlocks (h : TablesInv L p managers) (hm : managers[g]? = some m)
    (hcaching : L.enableCaching = true) {request : Request} (hhashed : L.Hashed request.blockHashes)
    (hrun : Base.cacheBlocks m p request n = .ok (m', p')) :
    TablesInv L p' (managers.set g m') := by
  unfold Base.cacheBlocks at hrun
  dsimp only at hrun
  split at hrun
  · cases hrun
    rw [set_self hm]
    exact h
  rename_i hlt
  obtain ⟨p1, hcache, hrun⟩ := bind_ok hrun
  cases hrun
  obtain ⟨hashes, hhashes, hcaches⟩ := cacheFullBlocks_effect h.coherent (h.caching.trans hcaching)
    (fun b hb => h.mem hm (mem_of_mem_take (mem_of_mem_drop hb))) hcache
  have hashes_at := hhashed m.blockSize hashes (by
    rw [← h.hashBlockSize]
    exact hhashes (Nat.lt_of_not_le hlt))
  rw [(h.manager hm).2.1] at hcaches
  have hset := sameTables_setTable (h.manager hm).2.2 request.requestId
  exact (h.cache hm hashes_at hcaches).keep hm
    ⟨⟨rfl, rfl, rfl, rfl⟩, hset.nodup, hset.allocated, hset.table, hset.refs⟩

theorem cacheBlocks (h : TablesInv L p managers) (hm : managers[g]? = some m)
    (hcaching : L.enableCaching = true) {request : Request} (hhashed : L.Hashed request.blockHashes)
    (hrun : m.cacheBlocks p request n = .ok (m', p')) : TablesInv L p' (managers.set g m') := by
  unfold SingleTypeKVCacheManager.cacheBlocks at hrun
  split at hrun
  · obtain ⟨⟨m1, p1⟩, hbase, hrun⟩ := bind_ok hrun
    have h1 := h.base_cacheBlocks hm hcaching hhashed hbase
    have hm1 := getElem?_set_self (a := m1) (lt_of_getElem? hm)
    dsimp only at hrun
    split at hrun
    · obtain ⟨keys, -, hrun⟩ := bind_ok hrun
      cases hrun
      have hsame : SameTables m1 { m1 with cachedBlocksThisStep := keys } :=
        ⟨⟨rfl, rfl, rfl, rfl⟩, (h1.manager hm1).2.2.nodup, fun _ hr => hr, fun _ => rfl, fun _ => rfl⟩
      have hkeep := h1.keep hm1 hsame
      rwa [set_set] at hkeep
    · cases hrun
      exact h1
  · cases hrun
  · exact h.base_cacheBlocks hm hcaching hhashed hrun

/-! ## Computed blocks -/

/-- Blocks that are cached under the hashes of their positions go into an empty table, after null
blocks for the positions that are skipped. -/
theorem touchHits (h : TablesInv L p managers) (hm : managers[g]? = some m)
    (hempty : m.table r = []) {k : Nat}
    (hhits : ∀ (i : Nat) (b : BlockRef), (hits.drop k)[i]? = some b → b ≠ p.nullBlock → ∃ hash,
      (p.heap b).blockHash = some (makeBlockHashWithGroupId hash g) ∧ L.At m.blockSize (k + i) hash)
    (hreal : m.isFull = true → k = 0 ∧ ∀ b ∈ hits, b ≠ p.nullBlock)
    (htouch : BlockPool.touch (hits.drop k) p = .ok p') :
    TablesInv L p' (managers.set g ((m.setTable r
      (replicate k m.nullBlock ++ hits.drop k)).setNumCached r n)) := by
  obtain ⟨hnull, -, halign⟩ := h.manager hm
  obtain ⟨F, hstock⟩ := h.stock
  obtain ⟨hc, hh, hr⟩ := touch_effect htouch
  have hkey : ∀ b ∈ hits.drop k, b ≠ p.nullBlock → ∃ key, (p.heap b).blockHash = some key := by
    intro b hb hne
    obtain ⟨i, hi⟩ := getElem?_of_mem hb
    obtain ⟨hash, hkey, -⟩ := hhits i b hi hne
    exact ⟨_, hkey⟩
  have hlonger : (m.setTable r (replicate k m.nullBlock ++ hits.drop k)).AlignOk :=
    halign.setTable (by rw [hempty]; exact Nat.zero_le _)
  suffices happends : Appends L p p' m ((m.setTable r
      (replicate k m.nullBlock ++ hits.drop k)).setNumCached r n) g r
      (replicate k m.nullBlock ++ hits.drop k) from h.append hm happends
  refine
    { same := ⟨rfl, rfl, rfl, rfl⟩
      align := ⟨hlonger.nodup, hlonger.speculative⟩
      config := hc
      coherent := h.coherent.congr hc hh
      stock := hstock.touch (fun b hb => ?_) htouch
      forgets := fun b key hkey => by rwa [hh.hash] at hkey
      table := fun r' => ?_
      mem := fun b hb => ?_
      real := fun hf b hb => ?_
      appended := .hits hempty fun i b hi hb => ?_
      refs := fun b hb => ?_ }
  · by_cases hb' : b = p.nullBlock
    · exact Or.inl ((h.null b).mpr hb')
    · obtain ⟨key, hkey⟩ := hkey b hb hb'
      exact Or.inr (by rw [hkey]; exact Option.some_ne_none key)
  · refine (table_setTable _ r').trans ?_
    rw [hempty, nil_append]
  · rcases mem_append.mp hb with hb | hb
    · rw [eq_of_mem_replicate hb, hnull]
      exact h.nullMem
    · by_cases hb' : b = p.nullBlock
      · rw [hb']
        exact h.nullMem
      · obtain ⟨key, hkey⟩ := hkey b hb hb'
        exact h.coherent.mem b key hkey
  · obtain ⟨rfl, hne⟩ := hreal hf
    exact hne b (by simpa using hb)
  · rcases Nat.lt_or_ge i k with hlt | hge
    · rw [getElem?_append_left (by rwa [length_replicate]), getElem?_replicate,
        if_pos hlt] at hi
      exact absurd ((Option.some.inj hi).symm.trans hnull) hb
    · rw [getElem?_append_right (by rwa [length_replicate]), length_replicate] at hi
      have hhit := hhits (i - k) b hi hb
      rwa [Nat.add_sub_cancel' hge] at hhit
  · have hrefs := heldRefs_setTable m r (replicate k m.nullBlock ++ hits.drop k) b
    rw [hempty, count_nil, count_append, count_replicate, if_neg
      (by rw [hnull]; simpa using Ne.symm hb)] at hrefs
    show (p'.heap b).refCnt + m.heldRefs b =
      (p.heap b).refCnt + (m.setTable r (replicate k m.nullBlock ++ hits.drop k)).heldRefs b
    rw [hr]
    omega

/-- What the call does for a request that is new: the hits are touched, and new blocks are allocated
for `external` tokens that are computed elsewhere. -/
structure Computed (m m' : SingleTypeKVCacheManager) (p p' : BlockPool) (r k total : Nat)
    (external : Int) (hits blocks : List BlockRef) (p1 : BlockPool) : Prop where
  empty : m.table r = []
  touch : BlockPool.touch (hits.drop k) p = .ok p1
  padded : blocks = replicate k m.nullBlock ++ hits.drop k
  rest : (if external > 0 then do
      let (new, p2) ← p1.getNewBlocks ((cdiv total m.blockSize : Int) - blocks.length)
      .ok ((((m.setTable r blocks).setNumCached r blocks.length).setTable r
        (blocks ++ new)).extendNewBlockIds new, p2)
    else .ok ((m.setTable r blocks).setNumCached r blocks.length, p1)) = Except.ok (m', p')

theorem base_allocateNewComputedBlocks_inv
    (hrun : Base.allocateNewComputedBlocks m p r hits loc ext = .ok (m', p')) :
    m' = m ∧ p' = p ∨ ∃ external blocks p1, (0 < external → 0 < ext) ∧
      Computed m m' p p' r (m.skippedBlocks (loc + ext)) (loc + ext) external hits blocks p1 := by
  unfold Base.allocateNewComputedBlocks at hrun
  dsimp only at hrun
  split at hrun
  · obtain ⟨-, -, hrun⟩ := bind_ok hrun
    cases hrun
    exact Or.inl ⟨rfl, rfl⟩
  obtain ⟨_, hempty, hrun⟩ := bind_ok hrun
  rw [assert_eq_ok, decide_eq_true_eq, length_eq_zero_iff] at hempty
  have hext : 0 < (if m.getNumSkippedTokens (loc + ext) / m.blockSize > 0
      then min (((loc + ext : Nat) : Int) - m.getNumSkippedTokens (loc + ext)) ext else (ext : Int)) →
      0 < ext := by
    intro hpos
    split at hpos
    · omega
    · omega
  have hdrop : (if m.getNumSkippedTokens (loc + ext) / m.blockSize > 0
      then hits.drop (m.getNumSkippedTokens (loc + ext) / m.blockSize).toNat else hits) =
      hits.drop (m.getNumSkippedTokens (loc + ext) / m.blockSize).toNat := by
    split
    · rfl
    · rename_i hle
      rw [Int.toNat_of_nonpos (Int.not_lt.mp hle), drop_zero]
  rw [hdrop] at hrun
  refine Or.inr ?_
  split at hrun
  · obtain ⟨p1, htouch, hrun⟩ := bind_ok hrun
    exact ⟨_, _, p1, hext, hempty, htouch, rfl, hrun⟩
  · obtain ⟨_, hnil, hrun⟩ := bind_ok hrun
    rw [assert_eq_ok, decide_eq_true_eq] at hnil
    refine ⟨_, _, p, hext, hempty, ?_, rfl, hrun⟩
    unfold SingleTypeKVCacheManager.skippedBlocks
    rw [hnil]
    rfl

section

variable (h : TablesInv L p managers) (hm : managers[g]? = some m)
include h hm

/-- The hits go into the table, and new blocks for `external` tokens that are computed elsewhere. -/
theorem appendComputed {blocks : List BlockRef} {k total : Nat} (hhits : HitsOk L p g k hits)
    {external : Int} {p1 : BlockPool} (hk : m.isFull = true → k = 0)
    (hfit : 0 < external → max k hits.length ≤ cdiv total m.blockSize)
    (hc : Computed m m' p p' r k total external hits blocks p1) :
    TablesInv L p' (managers.set g m') := by
  have h1 := h.touchHits (n := blocks.length) hm hc.empty (hhits.keys (h.groups_get hm))
    (fun hf => ⟨hk hf, hhits.real (h.groups_get hm) hf⟩) hc.touch
  rw [← hc.padded] at h1
  have hm1 := getElem?_set_self (a := (m.setTable r blocks).setNumCached r blocks.length)
    (lt_of_getElem? hm)
  have hrun := hc.rest
  split at hrun
  · have hlength : blocks.length = max k hits.length := by
      rw [hc.padded, length_append, length_replicate, length_drop]
      omega
    obtain ⟨⟨new, p2⟩, hnew, hrun⟩ := bind_ok hrun
    cases hrun
    have h2 := h1.appendNew_extend (r := r) hm1 (by omega) hnew
    rw [set_set] at h2
    have htable : ((m.setTable r blocks).setNumCached r blocks.length).table r = blocks :=
      (table_setTable blocks r).trans (if_pos rfl)
    rwa [htable] at h2
  · cases hrun
    exact h1

section

variable (hhits : HitsOk L p g (m.skippedBlocks (loc + ext)) hits)
  (hfit : 0 < ext → HitsFit m hits (loc + ext))
include hhits hfit

theorem base_allocateNewComputedBlocks
    (hrun : Base.allocateNewComputedBlocks m p r hits loc ext = .ok (m', p')) :
    TablesInv L p' (managers.set g m') := by
  rcases base_allocateNewComputedBlocks_inv hrun with ⟨rfl, rfl⟩ | ⟨external, blocks, p1, hext, hc⟩
  · rw [set_self hm]
    exact h
  · refine h.appendComputed hm hhits (fun hf => ?_) (fun hpos => hfit (hext hpos)) hc
    unfold SingleTypeKVCacheManager.skippedBlocks
    rw [skipped_of_isFull hf, Int.zero_ediv]
    rfl

theorem allocateNewComputedBlocks
    (hrun : m.allocateNewComputedBlocks p r hits loc ext = .ok (m', p')) :
    TablesInv L p' (managers.set g m') := by
  unfold SingleTypeKVCacheManager.allocateNewComputedBlocks at hrun
  split at hrun
  · obtain ⟨-, -, hrun⟩ := bind_ok hrun
    cases hrun
    rw [set_self hm]
    exact h
  · exact h.base_allocateNewComputedBlocks hm hhits hfit hrun

end

end

end TablesInv

/-! ## What happens to the hashes -/

theorem removeSkippedBlocks_effect {n : Nat} (hrun : m.removeSkippedBlocks p r n = .ok (m', p')) :
    SameConfig p p' ∧ KeepsHashes p p' := by
  have hbase : ∀ {m1 : SingleTypeKVCacheManager} {p1 : BlockPool} {k : Nat},
      Base.removeSkippedBlocks m p r k = .ok (m1, p1) → SameConfig p p1 ∧ KeepsHashes p p1 := by
    intro m1 p1 k hrun
    obtain ⟨blocks, removed, hfree, -, -⟩ := Base.removeSkippedBlocks_effect hrun
    obtain ⟨hc, hh, -⟩ := freeBlocks_effect hfree
    exact ⟨hc, hh⟩
  unfold SingleTypeKVCacheManager.removeSkippedBlocks at hrun
  split at hrun
  · obtain ⟨⟨m1, p1⟩, hfirst, hrun⟩ := bind_ok hrun
    obtain ⟨hc, hh⟩ := hbase hfirst
    dsimp only at hrun
    split at hrun
    · split at hrun
      · obtain ⟨i, -, hrun⟩ := bind_ok hrun
        split at hrun
        · obtain ⟨p2, hfree, hrun⟩ := bind_ok hrun
          cases hrun
          obtain ⟨hc', hh', -⟩ := freeBlocks_effect hfree
          exact ⟨hc.trans hc', hh.trans hh'⟩
        · cases hrun
          exact ⟨hc, hh⟩
      · cases hrun
        exact ⟨hc, hh⟩
    · cases hrun
      exact ⟨hc, hh⟩
  · exact hbase hrun

theorem getNewBlocks_forgets {n : Int} {new : List BlockRef} (hcoh : Coherent p)
    (hrun : p.getNewBlocks n = .ok (new, p')) : SameConfig p p' ∧ Forgets p p' := by
  obtain ⟨hc, -, -, -, -, hhash⟩ := getNewBlocks_effect hcoh hrun
  refine ⟨hc, fun b key hkey => ?_⟩
  rw [hhash] at hkey
  split at hkey
  · cases hkey
  · exact hkey

/-- Computed blocks keep all hashes, but new blocks for tokens that are computed elsewhere may
evict some. -/
theorem allocateNewComputedBlocks_effect {loc ext : Nat} (hcoh : Coherent p)
    (hrun : m.allocateNewComputedBlocks p r hits loc ext = .ok (m', p')) :
    SameConfig p p' ∧ Forgets p p' ∧ (ext = 0 → KeepsHashes p p') := by
  unfold SingleTypeKVCacheManager.allocateNewComputedBlocks at hrun
  split at hrun
  · obtain ⟨-, -, hrun⟩ := bind_ok hrun
    cases hrun
    exact ⟨.refl p, fun _ _ hkey => hkey, fun _ => .refl p⟩
  rcases TablesInv.base_allocateNewComputedBlocks_inv hrun with
    ⟨rfl, rfl⟩ | ⟨external, blocks, p1, hext, hc⟩
  · exact ⟨.refl _, fun _ _ hkey => hkey, fun _ => .refl _⟩
  obtain ⟨hcfg, hh, -⟩ := touch_effect hc.touch
  have hrest := hc.rest
  split at hrest
  · rename_i hpos
    obtain ⟨⟨new, p2⟩, hnew, hrest⟩ := bind_ok hrest
    cases hrest
    obtain ⟨hcfg', hf⟩ := getNewBlocks_forgets (hcoh.congr hcfg hh) hnew
    refine ⟨hcfg.trans hcfg', fun b key hkey => ?_, fun hzero => absurd (hext hpos) (by omega)⟩
    rw [← hh.hash]
    exact hf b key hkey
  · cases hrest
    exact ⟨hcfg, fun b key hkey => by rwa [hh.hash] at hkey, fun _ => hh⟩

end MyOperator.KvCache
