import MyOperator.KvCache.ManagerRuns

/-!
# The common prefix

`get_num_common_prefix_blocks` counts the first blocks of one request whose reference count is the
number of requests with a table. The count is sound when every request holds each block at most once,
in one group and at one position, which is what `TablesInv` says. Where blocks are allocated for
tokens that are computed elsewhere, this can fail: the blocks that one group allocates may be the hits
of the next group, which are touched only afterwards.
-/

namespace MyOperator.KvCache

open Lib BlockPool SingleTypeKVCacheManager List Dict

/-- What the count promises: every request that has a table in the group holds the same block, other
than the null block, at each of the counted positions. -/
def CommonPrefixSound (k : KVCacheManager) : Prop :=
  ∀ (q g n : Nat) (m : SingleTypeKVCacheManager),
    (k.getNumCommonPrefixBlocks q).1[g]? = some n → k.coordinator.singleTypeManagers[g]? = some m →
    ∀ i < n, ∃ b, b ≠ k.coordinator.blockPool.nullBlock ∧
      ∀ r, m.reqToBlocks.contains r = true → (m.table r)[i]? = some b

/-! ## The count is sound -/

variable {L : Layout} {p : BlockPool} {managers : List SingleTypeKVCacheManager}
  {m : SingleTypeKVCacheManager} {g q i : Nat} {b : BlockRef}

theorem TablesInv.heldRefs_eq (h : TablesInv L p managers) (hm : managers[g]? = some m)
    (hb : b ≠ p.nullBlock) (hmem : b ∈ m.table q) : MyOperator.KvCache.heldRefs managers b = m.heldRefs b := by
  have hset := heldRefs_set hm { m with reqToBlocks := .empty } b
  have hempty : SingleTypeKVCacheManager.heldRefs { m with reqToBlocks := .empty } b = 0 := rfl
  have hrest : MyOperator.KvCache.heldRefs (managers.set g { m with reqToBlocks := .empty }) b = 0 := by
    refine sum_eq_zero fun n hn => ?_
    obtain ⟨m1, hm1, rfl⟩ := mem_map.mp hn
    obtain ⟨j, hj⟩ := getElem?_of_mem hm1
    rcases get_set hm hj with ⟨-, rfl⟩ | ⟨hne, hold⟩
    · exact hempty
    · -- the block stands in no table of another group
      refine sum_eq_zero fun n hn => ?_
      obtain ⟨e, he, rfl⟩ := mem_map.mp hn
      refine count_eq_zero.mpr fun hb' => ?_
      obtain ⟨i, hi⟩ := getElem?_of_mem hmem
      obtain ⟨i', hi'⟩ := getElem?_of_mem hb'
      have htable : m1.table e.1 = e.2 := by
        unfold SingleTypeKVCacheManager.table
        rw [mem_entries_iff.mp he]
        rfl
      rw [← htable] at hi'
      exact hne (h.agree hold hm hi' hi hb).1
  omega

/-- A block that is referenced as often as there are tables stands in all of them at its position. -/
theorem TablesInv.common (h : TablesInv L p managers) (hm : managers[g]? = some m)
    (hi : i < m.getNumCommonPrefixBlocks p q) : ∃ b, b ≠ p.nullBlock ∧
      ∀ r, m.reqToBlocks.contains r = true → (m.table r)[i]? = some b := by
  unfold SingleTypeKVCacheManager.getNumCommonPrefixBlocks at hi
  split at hi
  case isFalse => omega
  rename_i hf
  obtain ⟨b, hget⟩ : ∃ b, ((m.table q).takeWhile fun b =>
      decide ((p.heap b).refCnt = m.reqToBlocks.entries.length))[i]? = some b :=
    ⟨_, getElem?_eq_getElem hi⟩
  have hcounted := mem_takeWhile_imp (mem_of_getElem? hget)
  rw [decide_eq_true_eq] at hcounted
  have hiq : (m.table q)[i]? = some b := by
    obtain ⟨rest, hrest⟩ := takeWhile_prefix (l := m.table q) fun b =>
      decide ((p.heap b).refCnt = m.reqToBlocks.entries.length)
    rw [← hrest, getElem?_append_left hi]
    exact hget
  have hmem := mem_of_getElem? hiq
  have hb := h.real hm hf hmem
  refine ⟨b, hb, fun r hr => ?_⟩
  -- every table holds the block once
  rw [h.refs b hb, h.heldRefs_eq hm hb hmem] at hcounted
  have htable : ∀ {r : Nat} {blocks : List BlockRef}, m.reqToBlocks.get? r = some blocks →
      m.table r = blocks := by
    intro r blocks hget
    unfold SingleTypeKVCacheManager.table
    rw [hget]
    rfl
  have hle : ∀ e ∈ m.reqToBlocks.entries, e.2.count b ≤ 1 := by
    intro e he
    rw [← htable (mem_entries_iff.mp he)]
    exact h.once hm hb e.1
  obtain ⟨blocks, hblocks⟩ := Option.isSome_iff_exists.mp hr
  have hone : blocks.count b = 1 := eq_one_of_sumBy hle (by exact_mod_cast hcounted) hblocks
  rw [← htable hblocks] at hone
  obtain ⟨j, hj⟩ := getElem?_of_mem (count_pos_iff.mp (by omega : 0 < (m.table r).count b))
  rw [(h.agree hm hm hiq hj hb).2 hf]
  exact hj

/-- Reading the entry of a request stores an empty table at most. -/
def readEntry (q : Nat) (m : SingleTypeKVCacheManager) : SingleTypeKVCacheManager :=
  if m.kvCacheSpec.isFullAttention then m.setTable q (m.table q) else m

theorem readEntry_table (q r : Nat) (m : SingleTypeKVCacheManager) :
    (readEntry q m).table r = m.table r := by
  unfold readEntry
  split
  · exact setTable_self r
  · rfl

theorem readEntry_contains {q r : Nat} {m : SingleTypeKVCacheManager}
    (h : m.reqToBlocks.contains r = true) : (readEntry q m).reqToBlocks.contains r = true := by
  unfold readEntry
  split
  · unfold Dict.contains SingleTypeKVCacheManager.setTable
    rw [get?_set]
    split
    · rfl
    · exact h
  · exact h

theorem ManagerInv.commonPrefixSound {k : KVCacheManager} (h : ManagerInv L k) : CommonPrefixSound k := by
  intro q g n m hn hm i hi
  have hafter := (h.coordinator.getNumCommonPrefixBlocks q).tables
  have hcount : (k.coordinator.getNumCommonPrefixBlocks q).1[g]? = some n := hn
  -- the managers whose counts are returned
  have hread : TablesInv L k.coordinator.blockPool (k.coordinator.singleTypeManagers.map (readEntry q)) →
      ((k.coordinator.singleTypeManagers.map (readEntry q)).map fun m =>
        m.getNumCommonPrefixBlocks k.coordinator.blockPool q)[g]? = some n →
      ∃ b, b ≠ k.coordinator.blockPool.nullBlock ∧
        ∀ r, m.reqToBlocks.contains r = true → (m.table r)[i]? = some b := by
    intro htables hcount
    have hm' : (k.coordinator.singleTypeManagers.map (readEntry q))[g]? = some (readEntry q m) := by
      rw [getElem?_map, hm]
      rfl
    rw [getElem?_map, hm'] at hcount
    obtain rfl := Option.some.inj hcount
    obtain ⟨b, hb, hall⟩ := htables.common hm' hi
    refine ⟨b, hb, fun r hr => ?_⟩
    rw [← readEntry_table q]
    exact hall r (readEntry_contains hr)
  unfold KVCacheCoordinator.getNumCommonPrefixBlocks at hafter hcount
  cases hk : k.coordinator.kind with
  | noPrefixCache =>
    rw [hk] at hcount
    rw [getElem?_map, hm] at hcount
    obtain rfl := Option.some.inj hcount
    exact absurd hi (Nat.not_lt_zero i)
  | unitary =>
    rw [hk] at hafter hcount
    exact hread hafter hcount
  | hybrid c =>
    rw [hk] at hafter hcount
    exact hread hafter hcount

/-! ## Runs -/

/-- The block hashes of a run: no two of the inputs that are hashed collide. -/
structure RunHashes (ε : Type) extends BlockHashing ε where
  inputs : Set (HashInput ε)
  digestSize : Nat
  collisionFree : CollisionFree toBlockHashing inputs digestSize

/-- What a manager is made for. -/
structure ManagerConfig where
  groups : List KVCacheSpec
  numBlocks : Nat
  maxModelLen : Nat
  hashBlockSize : Nat
  enableCaching : Bool
  useEagle : Bool
  enableKvCacheEvents : Bool
  useIntBlockHashes : Bool
  dcpWorldSize : Nat
  pcpWorldSize : Nat
  dcp_pos : 0 < dcpWorldSize
  pcp_pos : 0 < pcpWorldSize
  groups_le : groups.length ≤ 4294967296

namespace ManagerConfig

variable (C : ManagerConfig)

/-- The manager that is made. -/
def init : Except PyError KVCacheManager :=
  KVCacheManager.init C.groups C.numBlocks C.maxModelLen C.hashBlockSize C.enableCaching C.useEagle
    C.enableKvCacheEvents C.useIntBlockHashes C.dcpWorldSize C.pcpWorldSize

/-- What no call changes. -/
def layout {ε : Type} (E : RunHashes ε) : Layout where
  groups := C.groups.map fun spec => (spec, managerBlockSize spec C.dcpWorldSize C.pcpWorldSize)
  enableCaching := C.enableCaching
  hashBlockSize := C.hashBlockSize
  At := HashAt E.toBlockHashing E.inputs C.hashBlockSize
  position := HashAt.position E.collisionFree
  few := by
    rw [length_map]
    exact C.groups_le

end ManagerConfig

/-- A call of the manager. Where `lookUp` is set, the scheduler passes on what `get_computed_blocks`
has returned, otherwise no blocks. -/
inductive ManagerCall
  | allocateSlots (request : Request) (lookUp : Bool) (numNewTokens numLookaheadTokens
      numExternalComputedTokens numEncoderTokens : Nat) (delayCacheBlocks : Bool)
  | canFitFullSequence (request : Request) (lookUp : Bool)
      (numExternalComputedTokens numEncoderTokens : Nat)
  | cacheBlocks (request : Request) (numComputedTokens : Nat)
  | free (requestId : Nat)
  | removeSkippedBlocks (requestId totalComputedTokens : Nat)
  | evictBlocks (blockIds : List Nat)
  | resetPrefixCache
  | getNumCommonPrefixBlocks (runningRequestId : Nat)
  | takeNewBlockIds
  | newStepStarts
  | takeEvents

namespace ManagerCall

/-- The computed blocks of a request and the number of their tokens. -/
def computed (k : KVCacheManager) (request : Request) (lookUp : Bool) :
    Except PyError (List (List BlockRef) × Nat) :=
  if lookUp then do
    let hit ← k.getComputedBlocks request
    .ok (hit.getD (k.emptyKvCacheBlocks, 0))
  else .ok (k.emptyKvCacheBlocks, 0)

/-- The arguments of `allocate_slots`. -/
def slotsArgs (numNewTokens numLookaheadTokens numExternalComputedTokens numEncoderTokens : Nat)
    (delayCacheBlocks : Bool) (hit : List (List BlockRef) × Nat) : KVCacheManager.SlotsArgs where
  numNewTokens
  numNewComputedTokens := hit.2
  newComputedBlocks := hit.1
  numLookaheadTokens
  numExternalComputedTokens
  delayCacheBlocks
  numEncoderTokens

/-- The manager after a call. -/
def run (k : KVCacheManager) : ManagerCall → Except PyError KVCacheManager
  | allocateSlots request lookUp new lookahead ext enc delay => do
      let hit ← computed k request lookUp
      let (_, k) ← k.allocateSlots request (slotsArgs new lookahead ext enc delay hit)
      .ok k
  | canFitFullSequence request lookUp ext enc => do
      let hit ← computed k request lookUp
      let (_, k) ← k.canFitFullSequence request hit.2 hit.1 ext enc
      .ok k
  | cacheBlocks request n => k.cacheBlocks request n
  | free r => k.free r
  | removeSkippedBlocks r n => k.removeSkippedBlocks r n
  | evictBlocks ids => k.evictBlocks ids
  | resetPrefixCache => .ok k.resetPrefixCache.2
  | getNumCommonPrefixBlocks r => .ok (k.getNumCommonPrefixBlocks r).2
  | takeNewBlockIds => .ok k.takeNewBlockIds.2
  | newStepStarts => .ok k.newStepStarts
  | takeEvents => .ok k.takeEvents.2

/-- The block hashes of the request of a call are a chain. -/
def Hashed {ε : Type} (E : RunHashes ε) : ManagerCall → Prop
  | allocateSlots request _ _ _ _ _ _ => Chained E.toBlockHashing E.inputs request.blockHashes
  | canFitFullSequence request _ _ _ => Chained E.toBlockHashing E.inputs request.blockHashes
  | cacheBlocks request _ => Chained E.toBlockHashing E.inputs request.blockHashes
  | _ => True

/-- Where `allocate_slots` allocates blocks for tokens that are computed elsewhere, the hits of every
group that are not skipped are still cached when the manager of the group is called, and the hits are
not more than the blocks of the computed tokens. -/
def hitsStay (k : KVCacheManager) : ManagerCall → Bool
  | allocateSlots request lookUp new lookahead ext enc delay =>
    match computed k request lookUp with
    | .ok hit => k.hitsStay request (slotsArgs new lookahead ext enc delay hit)
    | .error _ => true
  | _ => true

end ManagerCall

/-- A manager under calls that meet a condition. -/
def managerSys {ε : Type} (E : RunHashes ε) (C : ManagerConfig)
    (Meets : KVCacheManager → ManagerCall → Prop) : TSys KVCacheManager where
  init k := C.init = .ok k
  step k k' := ∃ call : ManagerCall, call.Hashed E ∧ Meets k call ∧ call.run k = .ok k'

/-! ## The invariant of the runs -/

section Runs

variable {ε : Type} {E : RunHashes ε} {C : ManagerConfig} {k k' : KVCacheManager}

theorem unitaryBlockSize_eq {spec : KVCacheSpec} :
    KVCacheCoordinator.unitaryBlockSize spec C.dcpWorldSize C.pcpWorldSize =
      managerBlockSize spec C.dcpWorldSize C.pcpWorldSize := by
  have hdcp := C.dcp_pos
  have hpcp := C.pcp_pos
  unfold KVCacheCoordinator.unitaryBlockSize managerBlockSize
  generalize C.dcpWorldSize = dcp at *
  generalize C.pcpWorldSize = pcp at *
  rcases lt_or_ge 1 dcp with hd | hd
  · have hprod : dcp * pcp > 1 := lt_of_lt_of_le hd (Nat.le_mul_of_pos_right dcp hpcp)
    rw [if_pos hd, if_pos hprod]
    rcases lt_or_ge 1 pcp with hp | hp
    · rw [if_pos hp, mul_assoc]
    · obtain rfl : pcp = 1 := by omega
      rw [if_neg (by omega), mul_one]
  · obtain rfl : dcp = 1 := by omega
    rw [if_neg (lt_irrefl 1), one_mul]

theorem init_tablesInv {p p' : BlockPool}
    (hp : BlockPool.init C.numBlocks C.enableCaching C.hashBlockSize C.enableKvCacheEvents
      C.useIntBlockHashes = .ok p)
    (hmanagers : KVCacheCoordinator.initManagers C.enableCaching C.dcpWorldSize C.pcpWorldSize 0 C.groups
      p = .ok (managers, p')) : TablesInv (C.layout E) p' managers := by
  have hfresh := init_spec hp
  have hunused : Unused p :=
    { coherent := hfresh.coherent
      stock := ⟨_, hfresh.inv.stock hfresh.coherent⟩
      null := hfresh.inv.null
      nullMem := hfresh.inv.nullMem
      refs := hfresh.refs
      hashes := hfresh.hashes }
  obtain ⟨hgroups, hnew, hunused', hc⟩ := initManagers_spec hunused hmanagers
  refine hunused'.tablesInv hgroups (hc.enableCaching.trans hfresh.enableCaching)
    (hc.hashBlockSize.trans hfresh.hashBlockSize) fun i m hi => ?_
  obtain ⟨spec, hm⟩ := hnew i m hi
  rw [zero_add, ← hc.nullBlock] at hm
  exact ⟨spec, _, hm⟩

theorem init_managerInv (hinit : C.init = .ok k) : ManagerInv (C.layout E) k := by
  obtain ⟨c, hc, hinit⟩ := bind_ok hinit
  cases hinit
  refine ⟨rfl, ?_⟩
  obtain ⟨p, hp, hc⟩ := bind_ok hc
  obtain ⟨⟨managers, p1⟩, hmanagers, hc⟩ := bind_ok hc
  have htables := init_tablesInv (E := E) hp hmanagers
  dsimp only at hc
  split at hc
  · cases hc
    exact ⟨trivial, htables⟩
  · rename_i spec hcaching hgroups
    obtain ⟨_, hsize, hc⟩ := bind_ok hc
    cases hc
    rw [assert_eq_ok, decide_eq_true_eq, unitaryBlockSize_eq] at hsize
    refine ⟨⟨spec, ?_⟩, htables⟩
    show C.groups.map _ = [(spec, C.hashBlockSize)]
    rw [hgroups, hsize]
    rfl
  · obtain ⟨hybrid, hhybrid, hc⟩ := bind_ok hc
    cases hc
    obtain ⟨hv, hgroups, -, hsize⟩ := HybridKVCacheCoordinator.init_valid hhybrid
    obtain ⟨-, -, hhybrid⟩ := bind_ok hhybrid
    obtain ⟨_, hdcp, hhybrid⟩ := bind_ok hhybrid
    obtain ⟨_, hpcp, -⟩ := bind_ok hhybrid
    rw [assert_eq_ok, decide_eq_true_eq] at hdcp hpcp
    refine ⟨⟨hv, hsize, ?_⟩, htables⟩
    show C.groups.map _ = _
    rw [hgroups, hdcp, hpcp]
    rfl

theorem computed_hits (h : ManagerInv (C.layout E) k) {request : Request}
    (hhashed : (C.layout E).Hashed request.blockHashes) {lookUp : Bool}
    {hit : List (List BlockRef) × Nat} (hrun : ManagerCall.computed k request lookUp = .ok hit) (g : Nat) :
    HitsOk (C.layout E) k.coordinator.blockPool g 0 (hit.1.getD g []) := by
  unfold ManagerCall.computed at hrun
  split at hrun
  · obtain ⟨found, hfound, hrun⟩ := bind_ok hrun
    cases hrun
    cases found with
    | none => exact absurd hfound getComputedBlocks_ne_none
    | some hit => exact getComputedBlocks_hits h.coordinator hhashed hfound g
  · cases hrun
    rw [emptyKvCacheBlocks_getD]
    exact .nil

theorem layout_hashed {blockHashes : List BlockHash}
    (h : Chained E.toBlockHashing E.inputs blockHashes) : (C.layout E).Hashed blockHashes :=
  fun _ hashes hat _ _ hi => ⟨blockHashes, hashes, h, hat, hi⟩

/-- Every call keeps the invariant while the hits stay cached until they are touched. -/
theorem call_managerInv (h : ManagerInv (C.layout E) k) {call : ManagerCall} (hhashed : call.Hashed E)
    (hstay : call.hitsStay k = true) (hrun : call.run k = .ok k') : ManagerInv (C.layout E) k' := by
  cases call with
  | allocateSlots request lookUp new lookahead ext enc delay =>
    have hhashed := layout_hashed (C := C) hhashed
    obtain ⟨hit, hcomputed, hrun⟩ := bind_ok hrun
    obtain ⟨⟨ret, k1⟩, hslots, hrun⟩ := bind_ok hrun
    cases hrun
    dsimp only [ManagerCall.hitsStay] at hstay
    rw [hcomputed] at hstay
    exact h.allocateSlots hhashed (computed_hits h hhashed hcomputed) hstay hslots
  | canFitFullSequence request lookUp ext enc =>
    obtain ⟨hit, -, hrun⟩ := bind_ok hrun
    obtain ⟨⟨fits, k1⟩, hfits, hrun⟩ := bind_ok hrun
    cases hrun
    exact h.canFitFullSequence hfits
  | cacheBlocks request n => exact h.cacheBlocks (layout_hashed hhashed) hrun
  | free r => exact h.free hrun
  | removeSkippedBlocks r n => exact h.removeSkippedBlocks hrun
  | evictBlocks ids => exact h.evictBlocks hrun
  | resetPrefixCache =>
    cases hrun
    exact h.resetPrefixCache
  | getNumCommonPrefixBlocks r =>
    cases hrun
    exact h.getNumCommonPrefixBlocks r
  | takeNewBlockIds =>
    cases hrun
    exact h.takeNewBlockIds
  | newStepStarts =>
    cases hrun
    exact h.newStepStarts
  | takeEvents =>
    cases hrun
    exact h.takeEvents

/-- In every run in which the hits stay cached until they are touched, the common prefix is held by
all requests. -/
theorem common_prefix_sound {ε : Type} (E : RunHashes ε) (C : ManagerConfig) {k : KVCacheManager}
    (hk : (managerSys E C fun k call => call.hitsStay k = true).Reachable k) : CommonPrefixSound k :=
  have hinv : (managerSys E C fun k call => call.hitsStay k = true).Invariant (ManagerInv (C.layout E)) :=
    TSys.Inductive.invariant
      { base := fun _ hinit => init_managerInv hinit
        step := fun _ _ h ⟨_, hhashed, hstay, hrun⟩ => call_managerInv h hhashed hstay hrun }
  (hinv k hk).commonPrefixSound

end Runs

/-! ## Two groups -/

/-- A full attention group and a sliding window over ten blocks of one token. -/
def twoGroups : ManagerConfig where
  groups := [⟨1, .fullAttention, 0⟩, ⟨1, .slidingWindow 3, 0⟩]
  numBlocks := 11
  maxModelLen := 100
  hashBlockSize := 1
  enableCaching := true
  useEagle := false
  enableKvCacheEvents := false
  useIntBlockHashes := false
  dcpWorldSize := 1
  pcpWorldSize := 1
  dcp_pos := one_pos
  pcp_pos := one_pos
  groups_le := by decide

/-- Digests of one byte. -/
def byteHashing : BlockHashing Unit where
  hashFunction x := [x.1.headD 0 * 16 + UInt8.ofNat (x.2.1.headD 0)]
  noneHash := [0]

/-- What is hashed in the runs below. -/
def byteInputs : List (HashInput Unit) :=
  [([0], [5], ()), ([5], [6], ()), ([86], [7], ()), ([103], [4], ()), ([0], [8], ()), ([5], [9], ()),
    ([89], [9], ())]

/-- These inputs do not collide. -/
def byteHashes : RunHashes Unit where
  toBlockHashing := byteHashing
  inputs := {x | x ∈ byteInputs}
  digestSize := 1
  collisionFree :=
    { inj := show ∀ x ∈ byteInputs, ∀ y ∈ byteInputs,
        byteHashing.hashFunction x = byteHashing.hashFunction y → x = y by decide
      root := show ∀ x ∈ byteInputs, byteHashing.hashFunction x ≠ byteHashing.noneHash by decide
      size := show ∀ x ∈ byteInputs, (byteHashing.hashFunction x).length = 1 by decide
      pos := one_pos }

/-- The hashes of a prompt. -/
def byteBlockHashes (tokens : List Nat) : List BlockHash :=
  requestBlockHasher byteHashing 1 tokens [] fun _ _ i => ((), i)

def byteRequest (requestId : Nat) (tokens : List Nat) (numComputedTokens : Nat) : Request where
  requestId
  allTokenIds := tokens
  blockHashes := byteBlockHashes tokens
  numComputedTokens

theorem chained_byteRequest {tokens : List Nat}
    (h : ∀ x ∈ hasherInputs byteHashing 1 tokens [] (fun _ _ i => ((), i)), x ∈ byteInputs) :
    Chained byteHashes.toBlockHashing byteHashes.inputs (byteBlockHashes tokens) :=
  chained_requestBlockHasher byteHashes.collisionFree chained_nil h

/-- Request 1 has one computed token in the cache and one that is loaded from elsewhere. -/
def loadingCall : ManagerCall := .allocateSlots (byteRequest 1 [5, 9, 9] 0) true 0 0 1 0 true

def twoGroupsManager : KVCacheManager := twoGroups.init.toOption.get (by decide +kernel)

/-- Request 2 is scheduled, so that its first block can be shared. -/
def scheduledManager : KVCacheManager :=
  ((ManagerCall.allocateSlots (byteRequest 2 [5, 6, 7] 0) true 3 0 0 0 false).run
    twoGroupsManager).toOption.get (by decide +kernel)

def sharingManager : KVCacheManager := (loadingCall.run scheduledManager).toOption.get (by decide +kernel)

theorem sharingManager_reachable :
    (managerSys byteHashes twoGroups fun k call => call.hitsStay k = true).Reachable sharingManager := by
  have hinit : (managerSys byteHashes twoGroups fun k call => call.hitsStay k = true).Reachable
      twoGroupsManager := .init (eq_ok_get _)
  have hscheduled := hinit.step (t := scheduledManager)
    ⟨.allocateSlots (byteRequest 2 [5, 6, 7] 0) true 3 0 0 0 false, chained_byteRequest (by decide),
      by decide +kernel, eq_ok_get _⟩
  exact hscheduled.step ⟨loadingCall, chained_byteRequest (by decide), by decide +kernel, eq_ok_get _⟩

theorem common_prefix_sound_sharing : CommonPrefixSound sharingManager :=
  common_prefix_sound byteHashes twoGroups sharingManager_reachable

/-- In such a run a block is referenced as often as it stands in the tables, of one group only, once
in each, and under full attention at one index. -/
theorem tables_conserved {ε : Type} (E : RunHashes ε) (C : ManagerConfig) {k : KVCacheManager}
    (hk : (managerSys E C fun k call => call.hitsStay k = true).Reachable k) {b : BlockRef}
    (hb : b ≠ k.coordinator.blockPool.nullBlock) :
    (k.coordinator.blockPool.heap b).refCnt = heldRefs k.coordinator.singleTypeManagers b ∧
      ∀ (g r i : Nat) (m : SingleTypeKVCacheManager),
        k.coordinator.singleTypeManagers[g]? = some m → (m.table r)[i]? = some b →
          (m.table r).count b = 1 ∧ ∀ (g' r' i' : Nat) (m' : SingleTypeKVCacheManager),
            k.coordinator.singleTypeManagers[g']? = some m' → (m'.table r')[i']? = some b →
              g = g' ∧ (m.isFull = true → i = i') := by
  have hinv : (managerSys E C fun k call => call.hitsStay k = true).Invariant
      (ManagerInv (C.layout E)) := TSys.Inductive.invariant
    { base := fun _ hinit => init_managerInv hinit
      step := fun _ _ h ⟨_, hhashed, hstay, hrun⟩ => call_managerInv h hhashed hstay hrun }
  have h := (hinv k hk).coordinator.tables
  refine ⟨h.refs b hb, fun g r i m hm hi => ⟨?_, fun g' r' i' m' hm' hi' => h.agree hm hm' hi hi' hb⟩⟩
  exact le_antisymm (h.once hm hb r) (count_pos_iff.mpr (mem_of_getElem? hi))

theorem tables_conserved_sharing : (sharingManager.coordinator.blockPool.heap (.blk 1)).refCnt =
    heldRefs sharingManager.coordinator.singleTypeManagers (.blk 1) :=
  (tables_conserved byteHashes twoGroups sharingManager_reachable (by decide +kernel)).1

/-! ## A hit that is evicted before it is touched -/

/-- The calls up to the lookup of request 1: requests 2 and 3 are scheduled, request 2 decodes one
token, and request 3 is freed. -/
def earlierCalls : List ManagerCall :=
  [.allocateSlots (byteRequest 2 [5, 6, 7] 0) true 3 0 0 0 false,
    .allocateSlots (byteRequest 3 [8] 0) true 1 0 0 0 false,
    .allocateSlots (byteRequest 2 [5, 6, 7, 4] 3) false 1 0 0 0 false, .free 3]

/-- The manager after some calls. -/
def runCalls (k : KVCacheManager) (calls : List ManagerCall) : Except PyError KVCacheManager :=
  calls.foldlM ManagerCall.run k

theorem runCalls_reachable {ε : Type} {E : RunHashes ε} {C : ManagerConfig} {calls : List ManagerCall}
    {k k' : KVCacheManager} (hk : (managerSys E C fun _ _ => True).Reachable k)
    (hcalls : ∀ call ∈ calls, call.Hashed E) (hrun : runCalls k calls = .ok k') :
    (managerSys E C fun _ _ => True).Reachable k' :=
  foldlM_keeps (P := (managerSys E C fun _ _ => True).Reachable)
    (fun _ call hin _ hk hcall => hk.step ⟨call, hcalls call hin, trivial, hcall⟩) hk hrun

def loadingManager : KVCacheManager :=
  (runCalls twoGroupsManager (earlierCalls ++ [loadingCall])).toOption.get (by decide +kernel)

/-- The external block of the first group is the hit of the second, so request 1 holds it twice, and
the second block of its first table counts as common though request 2 holds another. -/
theorem common_prefix_shared :
    (managerSys byteHashes twoGroups fun _ _ => True).Reachable loadingManager ∧
      ¬ CommonPrefixSound loadingManager := by
  refine ⟨runCalls_reachable (k := twoGroupsManager) (.init (eq_ok_get _)) ?_ (eq_ok_get _), fun h => ?_⟩
  · intro call hcall
    simp only [earlierCalls, loadingCall, cons_append, nil_append, mem_cons,
      not_mem_nil, or_false] at hcall
    rcases hcall with rfl | rfl | rfl | rfl | rfl
    · exact chained_byteRequest (by decide)
    · exact chained_byteRequest (by decide)
    · exact chained_byteRequest (by decide)
    · trivial
    · exact chained_byteRequest (by decide)
  · have hcount : (loadingManager.getNumCommonPrefixBlocks 1).1[0]? = some 2 := by decide +kernel
    have htables : loadingManager.coordinator.singleTypeManagers[0]?.map (fun m =>
        (m.reqToBlocks.contains 1, m.reqToBlocks.contains 2, (m.table 1)[1]?, (m.table 2)[1]?)) =
        some (true, true, some (.blk 4), some (.blk 2)) := by decide +kernel
    obtain ⟨m, hm, htables⟩ := Option.map_eq_some_iff.mp htables
    obtain ⟨h1, h2, ht1, ht2⟩ : _ ∧ _ ∧ _ ∧ _ := by simpa only [Prod.mk.injEq] using htables
    obtain ⟨b, -, hall⟩ := h 1 0 2 m hcount hm 1 (by decide)
    have hb1 := (hall 1 h1).symm.trans ht1
    have hb2 := (hall 2 h2).symm.trans ht2
    rw [hb1] at hb2
    exact absurd hb2 (by decide)

end MyOperator.KvCache
