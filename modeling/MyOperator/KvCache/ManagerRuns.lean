import MyOperator.KvCache.CoordinatorTables

/-!
# Runs of the KV cache manager

The calls that the scheduler makes, one after the other, from `__init__` on. They keep the invariant
of the block tables while the hits of `allocate_slots` stay cached until they are touched.
-/

namespace MyOperator.KvCache

open Lib BlockPool SingleTypeKVCacheManager List

/-! ## What a lookup returns -/

variable {L : Layout} {p : BlockPool} {managers : List SingleTypeKVCacheManager} {g r : Nat}

theorem HitsOk.nil : HitsOk L p g 0 [] where
  keys := by
    intro _ _ _ i b hi
    cases hi
  real := by
    intro _ _ _ _ b hb
    cases hb

theorem TablesInv.hitsOk (h : TablesInv L p managers) {spec : KVCacheSpec} {blockSize : Nat}
    (hg : L.groups[g]? = some (spec, blockSize)) {hashes : List BlockHash} {blocks : List BlockRef}
    (hat : ∀ (i : Nat) hash, hashes[i]? = some hash → L.At blockSize i hash)
    (hcached : GroupCached (!spec.isFullAttention) p g hashes blocks) : HitsOk L p g 0 blocks where
  keys := by
    intro spec' blockSize' hg' i b hi hb
    rw [hg] at hg'
    cases hg'
    obtain ⟨hash, hhash, hkey⟩ := (hcached i b hi).resolve_right fun hnull => hb hnull.2
    rw [Nat.zero_add]
    exact ⟨hash, hkey, hat i hash hhash⟩
  real := by
    intro spec' blockSize' hg' hf b hb hnull
    rw [hg] at hg'
    cases hg'
    obtain ⟨i, hi⟩ := getElem?_of_mem hb
    rcases hcached i b hi with ⟨hash, -, hkey⟩ | ⟨hnulls, -⟩
    · have hreal := h.coherent.notNull b _ hkey
      rw [(h.null b).mpr hnull] at hreal
      cases hreal
    · rw [hf] at hnulls
      cases hnulls

theorem KVCacheCoordinator.findLongestCacheHit_hits {c : KVCacheCoordinator} (h : CoordinatorInv L c)
    {blockHashes : List BlockHash} (hhashed : L.Hashed blockHashes) {maxLength n : Nat}
    {blocks : List (List BlockRef)}
    (hrun : c.findLongestCacheHit blockHashes maxLength = .ok (some (blocks, n))) (g : Nat) :
    HitsOk L c.blockPool g 0 (blocks.getD g []) := by
  have hkind := h.kind
  have htables := h.tables
  unfold KVCacheCoordinator.findLongestCacheHit at hrun
  cases hk : c.kind with
  | noPrefixCache =>
    rw [hk] at hrun
    cases hrun
    rw [getD_eq_getElem?_getD, getElem?_map]
    cases c.singleTypeManagers[g]? <;> exact .nil
  | hybrid hc =>
    rw [hk] at hrun hkind
    obtain ⟨hv, hsize, hgroups⟩ := hkind
    cases hspec : hc.kvCacheGroups[g]? with
    | none =>
      refine ⟨?_, ?_⟩ <;> intro spec blockSize hg <;>
        rw [hgroups, getElem?_map, hspec] at hg <;> cases hg
    | some spec =>
      have hg : L.groups[g]? = some (spec, spec.blockSize) := by
        rw [hgroups, getElem?_map, hspec]
        rfl
      obtain ⟨a, ha, rfl, -⟩ := hv.split.cover g spec hspec
      have hhashes : hc.getBlockHashes blockHashes a.spec = _ :=
        HybridKVCacheCoordinator.getBlockHashes_eq (hv.hash a ha)
      refine htables.hitsOk hg (hhashed a.spec.blockSize _ ?_)
        (HybridKVCacheCoordinator.findLongestCacheHit_cached hv htables.coherent hrun hspec hhashes)
      rw [← hsize]
      exact hhashes
  | unitary =>
    rw [hk] at hrun hkind
    obtain ⟨spec, hgroups⟩ := hkind
    cases hms : c.singleTypeManagers with
    | nil =>
      rw [hms] at hrun
      cases hrun
    | cons m rest =>
      rw [hms] at hrun
      obtain ⟨columns, hfind, hrun⟩ := bind_ok hrun
      cases hrun
      cases g with
      | zero =>
        have hg : L.groups[0]? = some (spec, L.hashBlockSize) := by rw [hgroups]; rfl
        have hm := htables.groups_get (g := 0) (m := m) (by rw [hms]; rfl)
        rw [hg] at hm
        obtain ⟨rfl, -⟩ := Prod.mk.inj (Option.some.inj hm)
        refine htables.hitsOk hg (hhashed _ blockHashes ?_)
          ((findLongestCacheHit_cached hfind).blocks htables.coherent rfl)
        unfold hashesAt
        rw [if_pos rfl]
      | succ g => exact .nil

theorem emptyKvCacheBlocks_getD (k : KVCacheManager) (g : Nat) : k.emptyKvCacheBlocks.getD g [] = [] := by
  unfold KVCacheManager.emptyKvCacheBlocks
  rw [getD_eq_getElem?_getD, getElem?_map]
  cases k.coordinator.singleTypeManagers[g]? <;> rfl

/-- Every block that `get_computed_blocks` returns is null or cached under the hash of its position. -/
theorem getComputedBlocks_hits {k : KVCacheManager} (h : CoordinatorInv L k.coordinator)
    {request : Request} (hhashed : L.Hashed request.blockHashes) {blocks : List (List BlockRef)} {n : Nat}
    (hrun : k.getComputedBlocks request = .ok (some (blocks, n))) (g : Nat) :
    HitsOk L k.coordinator.blockPool g 0 (blocks.getD g []) := by
  unfold KVCacheManager.getComputedBlocks at hrun
  split at hrun
  · cases hrun
    rw [emptyKvCacheBlocks_getD]
    exact .nil
  · obtain ⟨hit, hfind, hrun⟩ := bind_ok hrun
    cases hit with
    | none => cases hrun
    | some hit =>
      cases hrun
      unfold KVCacheManager.createKvCacheBlocks
      split
      · exact KVCacheCoordinator.findLongestCacheHit_hits h hhashed hfind g
      · rw [emptyKvCacheBlocks_getD]
        exact .nil

theorem getComputedBlocks_ne_none {k : KVCacheManager} {request : Request} :
    k.getComputedBlocks request ≠ .ok none := by
  intro hrun
  unfold KVCacheManager.getComputedBlocks at hrun
  split at hrun
  · cases hrun
  · obtain ⟨hit, hfind, hrun⟩ := bind_ok hrun
    cases hit with
    | some hit => cases hrun
    | none =>
      unfold KVCacheCoordinator.findLongestCacheHit at hfind
      cases hk : k.coordinator.kind with
      | noPrefixCache =>
        rw [hk] at hfind
        cases hfind
      | hybrid hc =>
        rw [hk] at hfind
        obtain ⟨res, hloop, hfind⟩ := bind_ok hfind
        cases res with
        | none => exact HybridKVCacheCoordinator.hitLoop_ne_none (Nat.lt_succ_self _) hloop
        | some res => cases hfind
      | unitary =>
        rw [hk] at hfind
        dsimp only at hfind
        split at hfind
        · cases hfind
        · obtain ⟨columns, -, hfind⟩ := bind_ok hfind
          cases hfind

/-! ## The calls of the manager -/

/-- The invariant of the manager. -/
structure ManagerInv (L : Layout) (k : KVCacheManager) : Prop where
  caching : k.enableCaching = L.enableCaching
  coordinator : CoordinatorInv L k.coordinator

namespace KVCacheManager

/-- Where `allocate_slots` allocates blocks for tokens that are computed elsewhere, the hits of every
group stay cached until they are touched. -/
def hitsStay (k : KVCacheManager) (request : Request) (args : SlotsArgs) : Bool :=
  args.numExternalComputedTokens = 0 || match k.prepareSlots request args with
    | .ok (n, k) => n > k.coordinator.blockPool.getNumFreeBlocks ||
        CoordinatorInv.hitsStay request.requestId args.newComputedBlocks
          (request.numComputedTokens + args.numNewComputedTokens) args.numExternalComputedTokens 0
          k.coordinator.singleTypeManagers k.coordinator.blockPool
    | .error _ => true

end KVCacheManager

namespace ManagerInv

variable {k k' : KVCacheManager} {request : Request} {args : KVCacheManager.SlotsArgs}

section

variable (h : ManagerInv L k)
include h

theorem setCoordinator {coordinator : KVCacheCoordinator} (hc : CoordinatorInv L coordinator) :
    ManagerInv L { k with coordinator } := ⟨h.caching, hc⟩

theorem prepareSlots {n : Int} (hrun : k.prepareSlots request args = .ok (n, k')) :
    ManagerInv L k' ∧ SameConfig k.coordinator.blockPool k'.coordinator.blockPool ∧
      KeepsHashes k.coordinator.blockPool k'.coordinator.blockPool := by
  obtain ⟨c1, hremove, hrun⟩ := bind_ok hrun
  obtain ⟨⟨n1, c2⟩, hcount, hrun⟩ := bind_ok hrun
  cases hrun
  obtain ⟨h1, hc, hh⟩ := h.coordinator.removeSkippedBlocks hremove
  obtain ⟨h2, hpool⟩ := h1.getNumBlocksToAllocate hcount
  refine ⟨h.setCoordinator h2, ?_, ?_⟩
  · show SameConfig k.coordinator.blockPool c2.blockPool
    rwa [hpool]
  · show KeepsHashes k.coordinator.blockPool c2.blockPool
    rwa [hpool]

theorem cacheBlocks (hhashed : L.Hashed request.blockHashes) {n : Nat}
    (hrun : k.cacheBlocks request n = .ok k') : ManagerInv L k' := by
  unfold KVCacheManager.cacheBlocks at hrun
  split at hrun
  · rename_i hcaching
    obtain ⟨c1, hcache, hrun⟩ := bind_ok hrun
    cases hrun
    exact h.setCoordinator (h.coordinator.cacheBlocks (h.caching.symm.trans hcaching) hhashed hcache)
  · cases hrun
    exact h

theorem allocateNew (hhashed : L.Hashed request.blockHashes) {ret : List (List BlockRef)}
    (hrun : k.allocateNew request args = .ok (ret, k')) : ManagerInv L k' := by
  obtain ⟨⟨new, c1⟩, hnew, hrun⟩ := bind_ok hrun
  have h1 := h.setCoordinator (h.coordinator.allocateNewBlocks hnew)
  dsimp only at hrun
  split at hrun
  · cases hrun
    exact h1
  · rename_i hcond
    obtain ⟨c2, hcache, hrun⟩ := bind_ok hrun
    cases hrun
    have hcaching : k.enableCaching = true := by
      rw [Bool.not_eq_true, Bool.or_eq_false_iff, Bool.not_eq_false'] at hcond
      exact hcond.1
    exact h1.setCoordinator (h1.coordinator.cacheBlocks (h.caching.symm.trans hcaching) hhashed hcache)

/-- `allocate_slots` keeps the invariant while the hits stay cached until they are touched. -/
theorem allocateSlots (hhashed : L.Hashed request.blockHashes)
    (hhits : ∀ g, HitsOk L k.coordinator.blockPool g 0 (args.newComputedBlocks.getD g []))
    (hstay : k.hitsStay request args = true) {ret : Option (List (List BlockRef))}
    (hrun : k.allocateSlots request args = .ok (ret, k')) : ManagerInv L k' := by
  unfold KVCacheManager.allocateSlots at hrun
  split at hrun
  · cases hrun
  obtain ⟨⟨n, k1⟩, hprepare, hrun⟩ := bind_ok hrun
  obtain ⟨h1, hc, hh⟩ := h.prepareSlots hprepare
  have hhits1 := fun g => (hhits g).keep hc.nullBlock fun b _ _ => hh.hash b
  dsimp only at hrun
  split at hrun
  · cases hrun
    exact h1
  rename_i hfits
  obtain ⟨k2, happend, hrun⟩ := bind_ok hrun
  obtain ⟨⟨new, k3⟩, hnew, hrun⟩ := bind_ok hrun
  cases hrun
  refine allocateNew ?_ hhashed hnew
  unfold KVCacheManager.appendComputed at happend
  split at happend
  · obtain ⟨c2, hcomputed, happend⟩ := bind_ok happend
    cases happend
    refine h1.setCoordinator (h1.coordinator.allocateNewComputedBlocks hhits1 (fun hpos => ?_) hcomputed)
    unfold KVCacheManager.hitsStay at hstay
    rw [decide_eq_false hpos.ne', Bool.false_or, hprepare] at hstay
    dsimp only at hstay
    rwa [decide_eq_false hfits, Bool.false_or] at hstay
  · cases happend
    exact h1

theorem canFitFullSequence {n ext enc : Nat} {blocks : List (List BlockRef)} {fits : Bool}
    (hrun : k.canFitFullSequence request n blocks ext enc = .ok (fits, k')) : ManagerInv L k' := by
  obtain ⟨⟨m, c1⟩, hcount, hrun⟩ := bind_ok hrun
  cases hrun
  exact h.setCoordinator (h.coordinator.getNumBlocksToAllocate hcount).1

theorem free (hrun : k.free r = .ok k') : ManagerInv L k' := by
  obtain ⟨c1, hfree, hrun⟩ := bind_ok hrun
  cases hrun
  exact h.setCoordinator (h.coordinator.free hfree)

theorem removeSkippedBlocks {n : Nat} (hrun : k.removeSkippedBlocks r n = .ok k') :
    ManagerInv L k' := by
  obtain ⟨c1, hremove, hrun⟩ := bind_ok hrun
  cases hrun
  exact h.setCoordinator (h.coordinator.removeSkippedBlocks hremove).1

theorem evictBlocks {ids : List Nat} (hrun : k.evictBlocks ids = .ok k') : ManagerInv L k' := by
  obtain ⟨p1, hevict, hrun⟩ := bind_ok hrun
  cases hrun
  have htables := h.coordinator.tables
  obtain ⟨hc, hr, hl, hcoh, hf⟩ := evictBlocks_effect htables.coherent hevict
  exact ⟨h.caching, h.coordinator.kind, htables.forget hc hr hl hcoh hf⟩

theorem resetPrefixCache : ManagerInv L k.resetPrefixCache.2 := by
  have htables := h.coordinator.tables
  obtain ⟨hc, hr, hl, hcoh, hf⟩ := resetPrefixCache_effect htables.coherent
  exact ⟨h.caching, h.coordinator.kind, htables.forget hc hr hl hcoh hf⟩

theorem takeEvents : ManagerInv L k.takeEvents.2 := by
  have htables := h.coordinator.tables
  refine ⟨h.caching, h.coordinator.kind, ?_⟩
  show TablesInv L k.coordinator.blockPool.takeEvents.2 k.coordinator.singleTypeManagers
  unfold BlockPool.takeEvents
  split
  · have hsame : SameConfig k.coordinator.blockPool { k.coordinator.blockPool with kvEventQueue := [] } :=
      ⟨rfl, rfl, rfl, rfl, rfl, fun _ => rfl⟩
    exact htables.forget hsame (fun _ => rfl) ⟨fun _ => rfl, fun _ => rfl, rfl⟩
      (htables.coherent.congr hsame ⟨fun _ => rfl, rfl⟩) fun _ _ hkey => hkey
  · exact htables

theorem takeNewBlockIds : ManagerInv L k.takeNewBlockIds.2 := by
  refine ⟨h.caching, h.coordinator.kind, ?_⟩
  have hmap := h.coordinator.tables.map (f := fun m => { m with newBlockIds := [] }) fun m hm =>
    ⟨⟨rfl, rfl, rfl, rfl⟩, hm.nodup, fun _ hr => hr, fun _ => rfl, fun _ => rfl⟩
  show TablesInv L k.coordinator.blockPool
    ((k.coordinator.singleTypeManagers.map SingleTypeKVCacheManager.takeNewBlockIds).map Prod.snd)
  rwa [map_map]

theorem newStepStarts : ManagerInv L k.newStepStarts := h.setCoordinator h.coordinator.newStepStarts

theorem getNumCommonPrefixBlocks (r : Nat) : ManagerInv L (k.getNumCommonPrefixBlocks r).2 :=
  h.setCoordinator (h.coordinator.getNumCommonPrefixBlocks r)

end

end ManagerInv

end MyOperator.KvCache

/-!
## The manager after its construction

A new manager has empty tables over a pool that nobody uses, except that a sink manager has taken its
sink blocks out of the free list.
-/

namespace MyOperator.KvCache

open Lib BlockPool SingleTypeKVCacheManager

/-- The block size of a manager. -/
def managerBlockSize (spec : KVCacheSpec) (dcpWorldSize pcpWorldSize : Nat) : Nat :=
  if dcpWorldSize * pcpWorldSize > 1 then spec.blockSize * (dcpWorldSize * pcpWorldSize)
  else spec.blockSize

/-- A pool without references and hashes. -/
structure Unused (p : BlockPool) : Prop where
  coherent : Coherent p
  stock : ∃ F, Stock p F
  null : ∀ r, (p.heap r).isNull = true ↔ r = p.nullBlock
  nullMem : p.nullBlock ∈ p.blocks
  refs : ∀ r, (p.heap r).refCnt = 0
  hashes : ∀ r, (p.heap r).blockHash = none

/-- A manager without requests. -/
structure NewManager (m : SingleTypeKVCacheManager) (spec : KVCacheSpec) (blockSize g : Nat)
    (nullBlock : BlockRef) : Prop where
  spec : m.kvCacheSpec = spec
  blockSize : m.blockSize = blockSize
  groupId : m.kvCacheGroupId = g
  nullBlock : m.nullBlock = nullBlock
  tables : m.reqToBlocks = .empty
  allocated : m.allocatedBlockReqs = []

variable {p p' : BlockPool} {m : SingleTypeKVCacheManager} {managers : List SingleTypeKVCacheManager}
  {caching : Bool} {g dcp pcp : Nat} {spec : KVCacheSpec}

theorem Unused.popleftN (h : Unused p) {n : Nat} {ret : List BlockRef} {q : FreeKVCacheBlockQueue}
    (hrun : p.freeBlockQueue.popleftN n = .ok (ret, q)) :
    Unused (p.setQueue q) ∧ SameConfig p (p.setQueue q) := by
  obtain ⟨F, hstock⟩ := h.stock
  have hle : n ≤ F.length := by
    unfold FreeKVCacheBlockQueue.popleftN at hrun
    split at hrun
    · omega
    · obtain ⟨_, hle, -⟩ := bind_ok hrun
      rw [assert_eq_ok, decide_eq_true_eq] at hle
      have := hstock.queue.count
      omega
  obtain ⟨q', hpop, hrep, hdata⟩ := FreeKVCacheBlockQueue.popleftN_spec hstock.queue hle
  rw [hrun] at hpop
  cases hpop
  obtain ⟨hc, hr, hh⟩ := setQueue_effect hdata
  have hhash : ∀ r, ((p.setQueue q).heap r).blockHash = none := fun r => (hh.hash r).trans (h.hashes r)
  have hstock' : Stock (p.setQueue q) (F.drop n) := by
    refine ⟨hrep, fun b hb => ?_, fun b hb => absurd (hhash b) hb, fun b hb => absurd (hhash b) hb⟩
    rw [hc.isNull, hr]
    exact hstock.free b (List.mem_of_mem_drop hb)
  refine ⟨⟨h.coherent.congr hc hh, ⟨_, hstock'⟩, fun r => ?_, ?_, fun r => (hr r).trans (h.refs r),
    hhash⟩, hc⟩
  · rw [hc.isNull, hc.nullBlock]
    exact h.null r
  · exact h.nullMem

theorem new_spec (h : Unused p)
    (hrun : SingleTypeKVCacheManager.new spec p caching g dcp pcp = .ok (m, p')) :
    NewManager m spec (managerBlockSize spec dcp pcp) g p.nullBlock ∧ Unused p' ∧ SameConfig p p' := by
  unfold SingleTypeKVCacheManager.new at hrun
  dsimp only at hrun
  split at hrun
  · obtain ⟨-, -, hrun⟩ := bind_ok hrun
    obtain ⟨⟨sinkBlocks, q⟩, hpop, hrun⟩ := bind_ok hrun
    cases hrun
    exact ⟨⟨rfl, rfl, rfl, rfl, rfl, rfl⟩, h.popleftN hpop⟩
  · cases hrun
    exact ⟨⟨rfl, rfl, rfl, rfl, rfl, rfl⟩, h, .refl _⟩

theorem initManagers_spec {specs : List KVCacheSpec} (h : Unused p)
    (hrun : KVCacheCoordinator.initManagers caching dcp pcp g specs p = .ok (managers, p')) :
    managers.map (fun m => (m.kvCacheSpec, m.blockSize)) =
        specs.map (fun spec => (spec, managerBlockSize spec dcp pcp)) ∧
      (∀ (i : Nat) (m : SingleTypeKVCacheManager), managers[i]? = some m →
        ∃ spec, NewManager m spec (managerBlockSize spec dcp pcp) (g + i) p.nullBlock) ∧
      Unused p' ∧ SameConfig p p' := by
  induction specs generalizing g p managers with
  | nil =>
    cases hrun
    exact ⟨rfl, nofun, h, .refl _⟩
  | cons spec specs ih =>
    obtain ⟨⟨m, p1⟩, hnew, hrun⟩ := bind_ok hrun
    obtain ⟨⟨managers1, p2⟩, hrest, hrun⟩ := bind_ok hrun
    cases hrun
    obtain ⟨hm, h1, hc⟩ := new_spec h hnew
    obtain ⟨hgroups, hmanagers, h2, hc'⟩ := ih h1 hrest
    refine ⟨?_, fun i m' hi => ?_, h2, hc.trans hc'⟩
    · rw [List.map_cons, List.map_cons, hgroups, hm.spec, hm.blockSize]
    · cases i with
      | zero =>
        cases hi
        exact ⟨spec, hm⟩
      | succ i =>
        obtain ⟨spec', hm'⟩ := hmanagers i m' hi
        rw [hc.nullBlock, Nat.add_right_comm] at hm'
        exact ⟨spec', hm'⟩

theorem NewManager.table {blockSize : Nat} {nullBlock : BlockRef}
    (h : NewManager m spec blockSize g nullBlock) (r : Nat) : m.table r = [] := by
  unfold SingleTypeKVCacheManager.table
  rw [h.tables]
  rfl

theorem Unused.tablesInv {L : Layout} (h : Unused p)
    (hgroups : managers.map (fun m => (m.kvCacheSpec, m.blockSize)) = L.groups)
    (hcaching : p.enableCaching = L.enableCaching) (hsize : p.hashBlockSize = L.hashBlockSize)
    (hnew : ∀ (i : Nat) (m : SingleTypeKVCacheManager), managers[i]? = some m →
      ∃ spec blockSize, NewManager m spec blockSize i p.nullBlock) : TablesInv L p managers where
  groups := hgroups
  caching := hcaching
  hashBlockSize := hsize
  coherent := h.coherent
  stock := h.stock
  null := h.null
  nullMem := h.nullMem
  manager hm := by
    obtain ⟨spec, blockSize, hm⟩ := hnew _ _ hm
    refine ⟨hm.nullBlock, hm.groupId, ?_, fun n _ r hr => ?_⟩
    · rw [hm.allocated]
      exact List.nodup_nil
    · rw [hm.allocated] at hr
      cases hr
  refs b _ := by
    have hzero : heldRefs managers b = 0 := by
      refine List.sum_eq_zero fun n hn => ?_
      obtain ⟨m, hmem, rfl⟩ := List.mem_map.mp hn
      obtain ⟨i, hi⟩ := List.getElem?_of_mem hmem
      obtain ⟨spec, blockSize, hm⟩ := hnew i m hi
      unfold SingleTypeKVCacheManager.heldRefs
      rw [hm.tables]
      rfl
    rw [h.refs, hzero]
    rfl
  mem := by
    intro g r m b hm hb
    obtain ⟨spec, blockSize, hm⟩ := hnew g m hm
    rw [hm.table] at hb
    cases hb
  once := by
    intro g m b hm _ r
    obtain ⟨spec, blockSize, hm⟩ := hnew g m hm
    rw [hm.table]
    exact Nat.zero_le 1
  agree := by
    intro g g' r r' i i' m m' b hm _ hi
    obtain ⟨spec, blockSize, hm⟩ := hnew g m hm
    rw [hm.table] at hi
    cases hi
  hash := by
    intro g r i m b key _ _ hkey
    rw [h.hashes] at hkey
    cases hkey
  real := by
    intro g r m b hm _ hb
    obtain ⟨spec, blockSize, hm⟩ := hnew g m hm
    rw [hm.table] at hb
    cases hb

end MyOperator.KvCache
