import MyOperator.KvCache.PoolRuns
import MyOperator.Lib.HolderLog

/-!
# Replaying the KV events

A consumer replays the events of a pool over an empty set of hashes. Several blocks
may be cached under one hash while a removal is emitted for each of them, so the
replayed set is the set of cached hashes as long as every call that evicts a block
evicts all the blocks of its hash, and no longer (`replay_eq_cached`).
-/

namespace MyOperator.KvCache

open Lib List

/-- What a consumer does with an event: "store adds, remove deletes, clear empties". -/
def KVCacheEvent.entry : KVCacheEvent → LogEntry ExternalBlockHash
  | BlockStored hashes _ _ _ => .stored hashes
  | BlockRemoved hashes => .removed hashes
  | AllBlocksCleared => .cleared

theorem getBlockHash_make (hash : BlockHash) (groupId : Nat) :
    getBlockHash (makeBlockHashWithGroupId hash groupId) = hash := by
  simp [getBlockHash, makeBlockHashWithGroupId, toBytes4]

namespace BlockPool

variable {p p' p'' : BlockPool} {b : BlockRef} {bs : List BlockRef} {es es' : List KVCacheEvent}

/-- The hash of a cached block as the events show it. -/
def externalHash (p : BlockPool) (b : BlockRef) : Option ExternalBlockHash :=
  (p.heap b).blockHash.map fun key => maybeConvertBlockHash p.useIntBlockHashes (getBlockHash key)

/-- A call that leaves the event settings alone and emits the events `es`. -/
structure Logs (p p' : BlockPool) (es : List KVCacheEvent) : Prop where
  queue : p'.kvEventQueue = p.kvEventQueue ++ es
  enabled : p'.enableKvCacheEvents = p.enableKvCacheEvents
  useInt : p'.useIntBlockHashes = p.useIntBlockHashes

theorem Logs.refl (p : BlockPool) : Logs p p [] := ⟨by rw [append_nil], rfl, rfl⟩

theorem Logs.trans (h : Logs p p' es) (h' : Logs p' p'' es') : Logs p p'' (es ++ es') :=
  ⟨by rw [h'.queue, h.queue, append_assoc], h'.enabled.trans h.enabled,
    h'.useInt.trans h.useInt⟩

theorem emit_logs (e : KVCacheEvent) (h : p.enableKvCacheEvents = true) :
    Logs p (p.emit e) [e] := by
  rw [emit, if_pos h]
  exact ⟨rfl, rfl, rfl⟩

theorem Logs.externalHash (h : Logs p p' es) (hh : KeepsHashes p p') :
    p'.externalHash = p.externalHash := by
  funext b
  rw [BlockPool.externalHash, hh.hash, h.useInt]
  rfl

theorem addRef_logs (p : BlockPool) (b : BlockRef) (d : Int) : Logs p (p.addRef b d) [] :=
  ⟨(append_nil _).symm, rfl, rfl⟩

theorem setHash_logs (p : BlockPool) (b : BlockRef) (hash : Option BlockHashWithGroupId) :
    Logs p (p.setHash b hash) [] := ⟨(append_nil _).symm, rfl, rfl⟩

theorem setMap_logs (p : BlockPool) (m : BlockHashToBlockMap) : Logs p (p.setMap m) [] :=
  ⟨(append_nil _).symm, rfl, rfl⟩

theorem setQueue_logs (p : BlockPool) (q : FreeKVCacheBlockQueue) : Logs p (p.setQueue q) [] :=
  ⟨(append_nil _).symm, rfl, rfl⟩

/-- A call that drops the hashes of `bs` and emits their removals. -/
def Evicts (p p' : BlockPool) (bs : List BlockRef) : Prop :=
  ∃ es, Logs p p' es ∧ Drops p.externalHash p'.externalHash bs (es.map KVCacheEvent.entry)

theorem Evicts.trans {bs' : List BlockRef} (h : Evicts p p' bs) (h' : Evicts p' p'' bs') :
    Evicts p p'' (bs ++ bs') := by
  obtain ⟨es, hl, hd⟩ := h
  obtain ⟨es', hl', hd'⟩ := h'
  refine ⟨es ++ es', hl.trans hl', ?_⟩
  rw [map_append]
  exact hd.trans hd'

theorem Evicts.of_keeps (hl : Logs p p' []) (hh : KeepsHashes p p') : Evicts p p' [] := by
  refine ⟨[], hl, ?_⟩
  rw [hl.externalHash hh]
  exact .nil

theorem Evicts.enabled (h : Evicts p p' bs) : p'.enableKvCacheEvents = p.enableKvCacheEvents := by
  obtain ⟨_, hl, -⟩ := h
  exact hl.enabled

/-! ## Evictions -/

theorem maybeEvict_evicts (h : Coherent p) (hev : p.enableKvCacheEvents = true) (b : BlockRef) :
    Evicts p (p.maybeEvictCachedBlock b).2 [b] := by
  obtain ⟨-, -, -, -, hhash⟩ := maybeEvict_effect h b
  cases hb : (p.heap b).blockHash with
  | none =>
    have heq : (p.maybeEvictCachedBlock b).2 = p := by
      rw [maybeEvictCachedBlock, hb]
    rw [heq]
    refine ⟨[], .refl p, .of_none ?_⟩
    rw [externalHash, hb]
    rfl
  | some key =>
    have hmem : b ∈ p.cachedBlockHashToBlock.blocks key := (h.iff b key).mp hb
    have hpop := (BlockHashToBlockMap.pop_fst_eq_some h.wf).mpr ⟨hmem, rfl⟩
    have heq : (p.maybeEvictCachedBlock b).2 =
        ((p.setMap (p.cachedBlockHashToBlock.pop key b.blockId).2).setHash b none).emit
          (.BlockRemoved [maybeConvertBlockHash p.useIntBlockHashes (getBlockHash key)]) := by
      rw [maybeEvictCachedBlock, hb]
      dsimp only
      generalize p.cachedBlockHashToBlock.pop key b.blockId = res at hpop ⊢
      obtain ⟨popped, m⟩ := res
      obtain rfl : popped = some b := hpop
      rfl
    have hl : Logs p (p.maybeEvictCachedBlock b).2
        [.BlockRemoved [maybeConvertBlockHash p.useIntBlockHashes (getBlockHash key)]] := by
      rw [heq]
      have hq : Logs p ((p.setMap (p.cachedBlockHashToBlock.pop key b.blockId).2).setHash b none)
          [] := (setMap_logs p _).trans (setHash_logs _ b none)
      exact hq.trans (emit_logs _ (hq.enabled.trans hev))
    refine ⟨_, hl, Drops.single ?_ fun c => ?_⟩
    · rw [externalHash, hb]
      rfl
    · rw [externalHash, hhash, hl.useInt]
      by_cases hc : c = b
      · rw [if_pos hc, if_pos hc]
        rfl
      · rw [if_neg hc, if_neg hc]
        rfl

theorem addRef_evicts (p : BlockPool) (b : BlockRef) (d : Int) : Evicts p (p.addRef b d) [] :=
  .of_keeps (addRef_logs p b d) (addRef_keepsHashes p b d)

theorem takeLoop_evicts (h : Coherent p) (hev : p.enableKvCacheEvents = true)
    (hrun : takeLoop bs p = .ok p') : Evicts p p' bs := by
  induction bs generalizing p with
  | nil =>
    cases hrun
    exact .of_keeps (.refl _) (.refl _)
  | cons b bs ih =>
    obtain ⟨q, hcoh, hq, hrun⟩ : ∃ q, Coherent q ∧ Evicts p q [b] ∧
        (do assert ((q.heap b).refCnt = 0) ""
            takeLoop bs (q.addRef b 1)) = .ok p' := by
      refine ⟨_, ?_, ?_, hrun⟩
      · split
        · exact (maybeEvict_effect h b).2.2.2.1
        · exact h
      · split
        · exact maybeEvict_evicts h hev b
        · rename_i hc
          refine ⟨[], .refl p, .of_none ?_⟩
          rw [externalHash, h.caching (by simpa using hc)]
          rfl
    obtain ⟨_, -, hrun⟩ := bind_ok hrun
    have hrest := ih (hcoh.congr (addRef_config q b 1) (addRef_keepsHashes q b 1))
      (hq.enabled.trans hev) hrun
    exact hq.trans ((addRef_evicts q b 1).trans hrest)

theorem evictBlocks_evicts {ids : List Nat} (h : Coherent p) (hev : p.enableKvCacheEvents = true)
    (hrun : evictBlocks ids p = .ok p') : Evicts p p' (ids.map .blk) := by
  induction ids generalizing p with
  | nil =>
    cases hrun
    exact .of_keeps (.refl _) (.refl _)
  | cons id ids ih =>
    obtain ⟨_, -, hrun⟩ := bind_ok hrun
    have hfirst := maybeEvict_evicts h hev (.blk id)
    exact hfirst.trans (ih (maybeEvict_effect h _).2.2.2.1 (hfirst.enabled.trans hev) hrun)

theorem touch_evicts (hrun : touch bs p = .ok p') : Evicts p p' [] := by
  refine .of_keeps ?_ (touch_effect hrun).2.1
  induction bs generalizing p with
  | nil =>
    cases hrun
    exact .refl _
  | cons b bs ih =>
    obtain ⟨q, -, hrun⟩ := bind_ok hrun
    exact (setQueue_logs p q).trans ((addRef_logs _ b 1).trans (ih hrun))

theorem releaseLoop_logs (bs : List BlockRef) (p : BlockPool) : Logs p (releaseLoop bs p) [] := by
  induction bs generalizing p with
  | nil => exact .refl p
  | cons b bs ih => exact (addRef_logs p b (-1)).trans (ih _)

theorem freeBlocks_evicts (hrun : p.freeBlocks bs = .ok p') : Evicts p p' [] := by
  refine .of_keeps ?_ (freeBlocks_effect hrun).2.1
  obtain ⟨q, -, hrun⟩ := bind_ok hrun
  cases hrun
  exact (releaseLoop_logs bs p).trans (setQueue_logs _ q)

/-! ## Stores -/

theorem cacheLoop_stores {groupId : Nat} {hashes newHashes : List BlockHash}
    (hrun : cacheLoop groupId bs hashes p = .ok (p', newHashes)) :
    Logs p p' [] ∧ ∀ e, Carried p'.externalHash e ↔
      Carried p.externalHash e ∨ e ∈ newHashes.map (maybeConvertBlockHash p.useIntBlockHashes) := by
  induction bs generalizing p hashes newHashes with
  | nil =>
    cases hrun
    exact ⟨.refl _, fun e => by simp⟩
  | cons b bs ih =>
    unfold cacheLoop at hrun
    split at hrun
    · exact ih hrun
    · obtain ⟨_, hassert, hrun⟩ := bind_ok hrun
      have hb : (p.heap b).blockHash = none := by simpa using hassert
      cases hashes with
      | nil => cases hrun
      | cons hash hashes =>
        obtain ⟨⟨p'', hs⟩, hloop, hret⟩ := bind_ok hrun
        cases hret
        have hq : Logs p (p.cacheBlock b (makeBlockHashWithGroupId hash groupId)) [] :=
          (setHash_logs p b _).trans (setMap_logs _ _)
        obtain ⟨hl, hcarried⟩ := ih hloop
        refine ⟨hq.trans hl, fun e => ?_⟩
        rw [hcarried, hq.useInt, map_cons, mem_cons, ← or_assoc]
        refine or_congr_left ?_
        have hext : ∀ c,
            (p.cacheBlock b (makeBlockHashWithGroupId hash groupId)).externalHash c = if c = b then some (maybeConvertBlockHash p.useIntBlockHashes hash)
            else p.externalHash c := fun c => by
          rw [externalHash, (cacheBlock_effect p b _).2.2.2, hq.useInt]
          by_cases hc : c = b
          · rw [if_pos hc, if_pos hc, Option.map_some, getBlockHash_make]
          · rw [if_neg hc, if_neg hc]
            rfl
        constructor
        · rintro ⟨c, hc⟩
          rw [hext] at hc
          split at hc
          · exact .inr (Option.some.inj hc).symm
          · exact .inl ⟨c, hc⟩
        · rintro (⟨c, hc⟩ | he)
          · refine ⟨c, ?_⟩
            rw [hext, if_neg, hc]
            rintro rfl
            rw [externalHash, hb] at hc
            cases hc
          · exact ⟨b, by rw [hext, if_pos rfl, he]⟩

theorem cacheFullBlocks_agrees {request : Request} {c f s g : Nat}
    {log : List (LogEntry ExternalBlockHash)} (hev : p.enableKvCacheEvents = true)
    (hrun : p.cacheFullBlocks request bs c f s g = .ok p') (h : Agrees log p.externalHash) :
    ∃ es, Logs p p' es ∧ Agrees (log ++ es.map KVCacheEvent.entry) p'.externalHash := by
  unfold cacheFullBlocks at hrun
  split at hrun
  · cases hrun
    exact ⟨[], .refl p, by simpa using h⟩
  · obtain ⟨_, -, hrun⟩ := bind_ok hrun
    obtain ⟨hashes, -, hrun⟩ := bind_ok hrun
    obtain ⟨⟨q, newHashes⟩, hloop, hrun⟩ := bind_ok hrun
    obtain ⟨hl, hcarried⟩ := cacheLoop_stores hloop
    have hevq : q.enableKvCacheEvents = true := hl.enabled.trans hev
    dsimp only at hrun
    rw [if_pos hevq] at hrun
    obtain ⟨parent, -, hrun⟩ := bind_ok hrun
    split at hrun
    · cases hrun
    · cases hrun
      have he := emit_logs (p := q) (.BlockStored (newHashes.map
        (maybeConvertBlockHash q.useIntBlockHashes)) parent
        ((request.allTokenIds.take (f * s)).drop (c * s)) s) hevq
      refine ⟨_, hl.trans he, ?_⟩
      rw [he.externalHash (emit_effect _ _).2.2.1]
      refine h.stored fun e => ?_
      rw [hcarried, hl.useInt]

/-! ## The reset -/

theorem resetLoop_logs (bs : List BlockRef) (p : BlockPool) : Logs p (resetLoop bs p) [] := by
  induction bs generalizing p with
  | nil => exact .refl p
  | cons b bs ih =>
    exact (setHash_logs p b none).trans (ih _)

theorem resetPrefixCache_agrees {log : List (LogEntry ExternalBlockHash)} (hcoh : Coherent p)
    (hev : p.enableKvCacheEvents = true) (h : Agrees log p.externalHash) :
    ∃ es, Logs p p.resetPrefixCache.2 es ∧
      Agrees (log ++ es.map KVCacheEvent.entry) p.resetPrefixCache.2.externalHash := by
  unfold resetPrefixCache
  dsimp only
  split
  · exact ⟨[], .refl p, by simpa using h⟩
  · have hl : Logs p (resetLoop p.blocks (p.setMap .init)) [] :=
      (setMap_logs p .init).trans (resetLoop_logs p.blocks _)
    have he := emit_logs (p := resetLoop p.blocks (p.setMap .init)) .AllBlocksCleared
      (hl.enabled.trans hev)
    refine ⟨_, hl.trans he, ?_⟩
    rw [he.externalHash (emit_effect _ _).2.2.1]
    refine agrees_cleared log fun r => ?_
    have hnone : ((resetLoop p.blocks (p.setMap .init)).heap r).blockHash = none := by
      rw [(resetLoop_effect p.blocks _).2.2.2.2, setMap_heap]
      split
      · rfl
      · rename_i hr
        cases hk : (p.heap r).blockHash with
        | none => rfl
        | some key => exact absurd (hcoh.mem r key hk) hr
    rw [externalHash, hnone]
    rfl

end BlockPool

/-! ## Calls -/

section

open BlockPool

variable {p p' : BlockPool} {op : PoolOp} {log : List (LogEntry ExternalBlockHash)}

namespace PoolOp

/-- The blocks that lose their hashes in a call, other than by a reset. -/
def evicted (p : BlockPool) : PoolOp → List BlockRef
  | getNewBlocks n =>
    match p.freeBlockQueue.popleftN n with
    | .ok (ret, _) => ret
    | .error _ => []
  | evictBlocks ids => ids.map .blk
  | _ => []

/-- Together with a block the call evicts every block of the same hash. -/
def EvictsWhole (op : PoolOp) (p : BlockPool) : Prop := Whole p.externalHash (op.evicted p)

end PoolOp

theorem BlockPool.Evicts.agrees_iff {bs : List BlockRef} (h : Evicts p p' bs)
    (hlog : Agrees log p.externalHash) : ∃ es, Logs p p' es ∧
      (Agrees (log ++ es.map KVCacheEvent.entry) p'.externalHash ↔ Whole p.externalHash bs) := by
  obtain ⟨es, hl, hd⟩ := h
  exact ⟨es, hl, hd.agrees_iff hlog⟩

/-- After a call the log agrees with the hashes exactly when the call evicted all the blocks
of every hash that it evicted a block of. -/
theorem run_agrees_iff (h : Coherent p) (hev : p.enableKvCacheEvents = true)
    (hrun : op.run p = .ok p') (hlog : Agrees log p.externalHash) : ∃ es, Logs p p' es ∧
      (Agrees (log ++ es.map KVCacheEvent.entry) p'.externalHash ↔ op.EvictsWhole p) := by
  cases op with
  | getNewBlocks n =>
    obtain ⟨⟨ret, q⟩, hget, rfl⟩ := map_eq_ok.mp hrun
    unfold getNewBlocks at hget
    split at hget
    · cases hget
    · obtain ⟨⟨ret', f⟩, hpop, hget⟩ := bind_ok hget
      obtain ⟨p'', htake, hret⟩ := bind_ok hget
      cases hret
      obtain ⟨hc, -, hh⟩ := setQueue_effect (popleftN_sameData hpop)
      have hq : Evicts p (p.setQueue f) [] := .of_keeps (setQueue_logs p f) hh
      have hall := hq.trans (takeLoop_evicts (h.congr hc hh) hev htake)
      have hev' : (PoolOp.getNewBlocks n).evicted p = ret := by
        simp only [PoolOp.evicted, hpop]
      rw [PoolOp.EvictsWhole, hev']
      exact hall.agrees_iff hlog
  | touch bs => exact (touch_evicts hrun).agrees_iff hlog
  | freeBlocks bs => exact (freeBlocks_evicts hrun).agrees_iff hlog
  | cacheFullBlocks request bs c f s g =>
    obtain ⟨es, hl, hagrees⟩ := cacheFullBlocks_agrees hev hrun hlog
    exact ⟨es, hl, iff_of_true hagrees whole_nil⟩
  | evictBlocks ids => exact (evictBlocks_evicts h hev hrun).agrees_iff hlog
  | resetPrefixCache =>
    cases hrun
    obtain ⟨es, hl, hagrees⟩ := resetPrefixCache_agrees h hev hlog
    exact ⟨es, hl, iff_of_true hagrees whole_nil⟩

/-- Every key in use is made of a hash and a group id. -/
def BlockPool.Keyed (p : BlockPool) : Prop :=
  ∀ b key, (p.heap b).blockHash = some key →
    ∃ hash groupId, key = makeBlockHashWithGroupId hash groupId

theorem run_keyed (h : Coherent p) (hk : p.Keyed) (hg : op.Guarded p) (hrun : op.run p = .ok p') :
    p'.Keyed := by
  have hkeep : Forgets p p' → p'.Keyed := fun hf b key hb => hk b key (hf b key hb)
  cases op with
  | getNewBlocks n =>
    obtain ⟨⟨ret, q⟩, hget, rfl⟩ := map_eq_ok.mp hrun
    obtain ⟨-, -, -, -, -, hhash⟩ := getNewBlocks_effect h hget
    refine hkeep fun b key hb => ?_
    rw [hhash] at hb
    split at hb
    · cases hb
    · exact hb
  | touch bs => exact hkeep fun b key hb => ((touch_effect hrun).2.1.hash b).symm.trans hb
  | freeBlocks bs => exact hkeep fun b key hb => ((freeBlocks_effect hrun).2.1.hash b).symm.trans hb
  | cacheFullBlocks request bs c f s g =>
    obtain ⟨hashes, -, hcache⟩ := cacheFullBlocks_effect h hg.1 hg.2 hrun
    intro b key hb
    by_cases hold : b ∉ (bs.take f).drop c ∨ (p.heap b).isNull = true
    · rw [hcache.frame b hold] at hb
      exact hk b key hb
    · rw [not_or, not_not, Bool.not_eq_true] at hold
      obtain ⟨i, hi⟩ := mem_iff_getElem?.mp hold.1
      obtain ⟨hash, -, hkey⟩ := hcache.keys i b hi hold.2
      rw [hb] at hkey
      exact ⟨hash, g, Option.some.inj hkey⟩
  | evictBlocks ids => exact hkeep (evictBlocks_effect h hrun).2.2.2.2
  | resetPrefixCache =>
    cases hrun
    exact hkeep (resetPrefixCache_effect h).2.2.2.2

/-- `get_cached_block` finds a block of some group under the hash. -/
def BlockPool.Finds (p : BlockPool) (e : ExternalBlockHash) : Prop :=
  ∃ hash groupId, (p.getCachedBlock hash [groupId]).isSome ∧
    maybeConvertBlockHash p.useIntBlockHashes hash = e

theorem BlockPool.finds_iff (h : Coherent p) (hk : p.Keyed) (e : ExternalBlockHash) :
    p.Finds e ↔ Carried p.externalHash e := by
  have hone : ∀ hash groupId, (p.getCachedBlock hash [groupId]).isSome ↔
      ∃ b, (p.heap b).blockHash = some (makeBlockHashWithGroupId hash groupId) := by
    intro hash groupId
    rw [Option.isSome_iff_exists]
    constructor
    · rintro ⟨bs, hbs⟩
      cases h.getCachedBlock hbs with
      | cons hb _ => exact ⟨_, hb⟩
    · rintro ⟨b, hb⟩
      obtain ⟨c, rest, hblocks⟩ := exists_cons_of_ne_nil (ne_nil_of_mem ((h.iff b _).mp hb))
      refine ⟨[c], getCachedBlock_eq_some.mpr (.cons ?_ .nil)⟩
      rw [BlockHashToBlockMap.getOneBlock_eq, hblocks]
      rfl
  constructor
  · rintro ⟨hash, groupId, hfound, rfl⟩
    obtain ⟨b, hb⟩ := (hone hash groupId).mp hfound
    refine ⟨b, ?_⟩
    rw [externalHash, hb, Option.map_some, getBlockHash_make]
  · rintro ⟨b, hb⟩
    obtain ⟨key, hkey, rfl⟩ := Option.map_eq_some_iff.mp hb
    obtain ⟨hash, groupId, rfl⟩ := hk b key hkey
    exact ⟨hash, groupId, (hone hash groupId).mpr ⟨b, hkey⟩, by rw [getBlockHash_make]⟩

end

/-! ## Runs -/

/-- A pool and the events that were taken from it. -/
structure EventLog where
  pool : BlockPool
  taken : List KVCacheEvent

/-- A call of the pool, or `take_events`. -/
inductive EventOp
  | call (op : PoolOp)
  | takeEvents

namespace EventOp

def run (s : EventLog) : EventOp → Except PyError EventLog
  | call op => do
      let pool ← op.run s.pool
      .ok { s with pool }
  | takeEvents =>
    let (events, pool) := s.pool.takeEvents
    .ok ⟨pool, s.taken ++ events⟩

def Guarded (s : EventLog) : EventOp → Prop
  | call op => op.Guarded s.pool
  | takeEvents => True

/-- Together with a block the call evicts every block of the same hash. -/
def EvictsWhole (s : EventLog) : EventOp → Prop
  | call op => op.EvictsWhole s.pool
  | takeEvents => True

end EventOp

namespace EventLog

open BlockPool

variable {s s' : EventLog} {op : EventOp}

/-- All events emitted so far. -/
def emitted (s : EventLog) : List KVCacheEvent := s.taken ++ s.pool.kvEventQueue

/-- The set of hashes that a consumer of the events holds. -/
def replayed (s : EventLog) : Finset ExternalBlockHash :=
  LogEntry.replay (s.emitted.map KVCacheEvent.entry)

/-- The consumer holds exactly the hashes that `get_cached_block` finds. -/
def Replays (s : EventLog) : Prop := ∀ e, e ∈ s.replayed ↔ s.pool.Finds e

/-- A new pool with events enabled. -/
def Fresh (s : EventLog) : Prop :=
  (∃ n caching hashBlockSize useInt,
    BlockPool.init n caching hashBlockSize true useInt = .ok s.pool) ∧ s.taken = []

/-- The pool under any calls. -/
def eventSys : TSys EventLog where
  init := Fresh
  step s s' := ∃ op : EventOp, op.Guarded s ∧ op.run s = .ok s'

/-- The pool under calls that evict all blocks of a hash or none. -/
def wholeSys : TSys EventLog where
  init := Fresh
  step s s' := ∃ op : EventOp, op.Guarded s ∧ op.EvictsWhole s ∧ op.run s = .ok s'

structure Inv (s : EventLog) : Prop where
  coherent : Coherent s.pool
  keyed : s.pool.Keyed
  enabled : s.pool.enableKvCacheEvents = true
  agrees : Agrees (s.emitted.map KVCacheEvent.entry) s.pool.externalHash

theorem Inv.replays (h : Inv s) : s.Replays := fun e => by
  rw [finds_iff h.coherent h.keyed]
  exact h.agrees e

theorem fresh_inv (h : Fresh s) : Inv s := by
  obtain ⟨⟨n, caching, size, useInt, hinit⟩, htaken⟩ := h
  have hfresh := init_spec hinit
  have hsettings : s.pool.enableKvCacheEvents = true ∧ s.pool.kvEventQueue = [] := by
    obtain ⟨_, -, hinit⟩ := bind_ok hinit
    obtain ⟨⟨nullBlock, q⟩, -, hinit⟩ := bind_ok hinit
    rw [← Except.ok.inj hinit]
    exact ⟨rfl, rfl⟩
  refine ⟨hfresh.coherent, fun b key hb => ?_, hsettings.1, ?_⟩
  · rw [hfresh.hashes] at hb
    cases hb
  · rw [emitted, htaken, hsettings.2]
    refine agrees_nil fun b => ?_
    rw [externalHash, hfresh.hashes]
    rfl

theorem step_inv (h : Inv s) (hg : op.Guarded s) (hrun : op.run s = .ok s') :
    (s'.Replays ↔ op.EvictsWhole s) ∧ (op.EvictsWhole s → Inv s') := by
  cases op with
  | call op =>
    obtain ⟨pool, hpool, hret⟩ := bind_ok hrun
    cases hret
    obtain ⟨-, hcoh, -⟩ := run_coherent h.coherent hg hpool
    have hkeyed := run_keyed h.coherent h.keyed hg hpool
    obtain ⟨es, hl, hiff⟩ := run_agrees_iff h.coherent h.enabled hpool h.agrees
    have hemitted : (emitted ⟨pool, s.taken⟩).map KVCacheEvent.entry =
        s.emitted.map KVCacheEvent.entry ++ es.map KVCacheEvent.entry := by
      rw [← map_append, emitted, hl.queue, ← append_assoc]
      rfl
    rw [← hemitted] at hiff
    refine ⟨?_, fun hw => ⟨hcoh, hkeyed, hl.enabled.trans h.enabled, hiff.mpr hw⟩⟩
    rw [EventOp.EvictsWhole, ← hiff]
    exact forall_congr' fun e => by rw [finds_iff hcoh hkeyed]; rfl
  | takeEvents =>
    -- the events move from the queue to the consumer
    rw [EventOp.run, BlockPool.takeEvents, if_pos h.enabled] at hrun
    cases hrun
    have hinv : Inv ⟨{ s.pool with kvEventQueue := [] }, s.taken ++ s.pool.kvEventQueue⟩ := by
      refine ⟨h.coherent.congr ⟨rfl, rfl, rfl, rfl, rfl, fun _ => rfl⟩ ⟨fun _ => rfl, rfl⟩,
        h.keyed, h.enabled, ?_⟩
      rw [emitted, append_nil]
      exact h.agrees
    exact ⟨iff_of_true hinv.replays trivial, fun _ => hinv⟩

/-- In every run whose calls evict all blocks of a hash or none, the replayed set is the set
of hashes that `get_cached_block` finds; and the first call that evicts only some of the
blocks of a hash breaks that. -/
theorem replay_eq_cached {s : EventLog} (hs : wholeSys.Reachable s) : s.Replays ∧
    ∀ op : EventOp, op.Guarded s → ∀ s', op.run s = .ok s' → (s'.Replays ↔ op.EvictsWhole s) := by
  have hinv : wholeSys.Invariant Inv := TSys.Inductive.invariant
    { base := fun _ h => fresh_inv h
      step := fun _ _ h ⟨_, hg, hw, hrun⟩ => (step_inv h hg hrun).2 hw }
  exact ⟨(hinv s hs).replays, fun op hg s' hrun => (step_inv (hinv s hs) hg hrun).1⟩

/-- A pool of three blocks, events enabled. -/
def sampleNew : EventLog := ⟨(BlockPool.init 3 true 1 true false).toOption.get (by decide), []⟩

theorem fresh_sampleNew : Fresh sampleNew := ⟨⟨3, true, 1, false, eq_ok_get (by decide)⟩, rfl⟩

theorem replay_eq_cached_new : sampleNew.Replays ∧ ∀ op : EventOp, op.Guarded sampleNew →
    ∀ s', op.run sampleNew = .ok s' → (s'.Replays ↔ op.EvictsWhole sampleNew) :=
  replay_eq_cached (.init fresh_sampleNew)

/-! ## Two blocks under one hash -/

/-- A request of one block. -/
def sampleRequest : Request := { requestId := 0, allTokenIds := [7], blockHashes := [[1]] }

/-- The log after a call that goes through. -/
def after (s : EventLog) (op : EventOp) (h : (op.run s).toOption.isSome) : EventLog :=
  (op.run s).toOption.get h

theorem reachable_after (hs : eventSys.Reachable s) (op : EventOp) (hg : op.Guarded s)
    (h : (op.run s).toOption.isSome) : eventSys.Reachable (s.after op h) :=
  .step hs ⟨op, hg, eq_ok_get h⟩

/-- Two blocks are handed out, -/
def sampleTaken : EventLog := sampleNew.after (.call (.getNewBlocks 2)) (by decide)

/-- one is cached, -/
def sampleCached : EventLog :=
  sampleTaken.after (.call (.cacheFullBlocks sampleRequest [.blk 1] 0 1 1 0)) (by decide)

/-- the other is cached under the same hash, -/
def sampleShared : EventLog :=
  sampleCached.after (.call (.cacheFullBlocks sampleRequest [.blk 2] 0 1 1 0)) (by decide)

/-- and the first is evicted. -/
def sampleEvicted : EventLog := sampleShared.after (.call (.evictBlocks [1])) (by decide)

theorem sampleEvicted_reachable : eventSys.Reachable sampleEvicted := by
  have hnew : eventSys.Reachable sampleNew := .init fresh_sampleNew
  have htaken : eventSys.Reachable sampleTaken :=
    reachable_after hnew (.call (.getNewBlocks 2)) trivial (by decide)
  have hcached : eventSys.Reachable sampleCached :=
    reachable_after htaken (.call (.cacheFullBlocks sampleRequest [.blk 1] 0 1 1 0))
      ⟨by decide, by decide⟩ (by decide)
  have hshared : eventSys.Reachable sampleShared :=
    reachable_after hcached (.call (.cacheFullBlocks sampleRequest [.blk 2] 0 1 1 0))
      ⟨by decide, by decide⟩ (by decide)
  exact reachable_after hshared (.call (.evictBlocks [1])) trivial (by decide)

/-- The consumer has dropped the hash while `get_cached_block` still finds the second block:
the removal was emitted although a block of the hash stayed in the cache. -/
theorem removed_while_cached : ¬ eventSys.Invariant Replays := by
  intro h
  have hfinds : sampleEvicted.pool.Finds (.bytes [1]) := ⟨[1], 0, by decide, rfl⟩
  have hmem := (h _ sampleEvicted_reachable _).mpr hfinds
  exact absurd hmem (by decide)

end EventLog

end MyOperator.KvCache
