import MyOperator.KvCache.FreeQueue

/-!
# Runs of the free block queue

`Represents` says what the links of a queue are inside the list. Here the links
outside are accounted for too: `q.Exact F` holds in every run from distinct blocks,
for the sequence `F` that the same calls leave, so that the two links are inverse
to each other everywhere and a block that left the list has none.
-/

namespace MyOperator.KvCache

open Lib List

namespace FreeKVCacheBlockQueue

/-- The queue holds the blocks `F`, and there are no links but those of the list. -/
structure Exact (q : FreeKVCacheBlockQueue) (F : List BlockRef) : Prop extends q.Represents F where
  next_none : ∀ w, w ∉ BlockRef.fakeHead :: F → (q.heap w).nextFreeBlock = none
  prev_none : ∀ w, w ∉ F ++ [BlockRef.fakeTail] → (q.heap w).prevFreeBlock = none

variable {q : FreeKVCacheBlockQueue} {F A B bs : List BlockRef} {x b : BlockRef}

namespace Exact

theorem next_iff_prev (h : q.Exact F) {r r' : BlockRef} :
    (q.heap r).nextFreeBlock = some r' ↔ (q.heap r').prevFreeBlock = some r := by
  constructor
  · intro hnext
    have hr : r ∈ BlockRef.fakeHead :: F := by
      by_contra hr
      rw [h.next_none r hr] at hnext
      cases hnext
    exact h.seg.prev_of_next hr hnext
  · intro hprev
    have hr' : r' ∈ F ++ [BlockRef.fakeTail] := by
      by_contra hr'
      rw [h.prev_none r' hr'] at hprev
      cases hprev
    exact h.seg.next_of_prev hr' hprev

theorem outside (h : q.Exact F) (hx : x ∉ F) (hhead : x ≠ .fakeHead) (htail : x ≠ .fakeTail) :
    (q.heap x).prevFreeBlock = none ∧ (q.heap x).nextFreeBlock = none := by
  refine ⟨h.prev_none x ?_, h.next_none x ?_⟩
  · simp [hx, htail]
  · simp [hx, hhead]

end Exact

theorem unlinked_exact {prev next : BlockRef} (h : q.Exact (A ++ x :: B))
    (hp : (q.heap x).prevFreeBlock = some prev) (hn : (q.heap x).nextFreeBlock = some next) :
    (unlinked q prev next x).Exact (A ++ B) := by
  obtain ⟨px, hpx, nx, hnx, hpxx, -, hnxx, -⟩ := h.seg.mem_links (x := x) (by simp)
  obtain rfl : prev = px := Option.some.inj (hp.symm.trans hpxx)
  obtain rfl : next = nx := Option.some.inj (hn.symm.trans hnxx)
  refine ⟨unlinked_represents h.toRepresents hp hn, fun w hw => ?_, fun w hw => ?_⟩
  · by_cases hwx : w = x
    · simp [unlinked, hwx]
    · have hout : w ∉ BlockRef.fakeHead :: (A ++ x :: B) := by simp_all
      have hwp : w ≠ prev := fun h0 => hout (h0 ▸ hpx)
      simp [unlinked, hwx, hwp, h.next_none w hout]
  · by_cases hwx : w = x
    · simp [unlinked, hwx]
    · have hout : w ∉ A ++ x :: B ++ [BlockRef.fakeTail] := by simp_all
      have hwn : w ≠ next := fun h0 => hout (h0 ▸ hnx)
      simp [unlinked, hwx, hwn, h.prev_none w hout]

theorem remove_exact (h : q.Exact (A ++ x :: B)) :
    ∃ q', q.remove x = .ok q' ∧ q'.Exact (A ++ B) := by
  obtain ⟨prev, next, hp, hn, hrun⟩ := remove_eq h.toRepresents
  exact ⟨_, hrun, unlinked_exact h hp hn⟩

theorem popleft_exact (h : q.Exact (x :: F)) : ∃ q', q.popleft = .ok (x, q') ∧ q'.Exact F := by
  obtain ⟨next, hp, hn, hrun⟩ := popleft_eq h.toRepresents
  exact ⟨_, hrun, unlinked_exact (A := []) h hp hn⟩

theorem popleft_nil (h : q.Represents []) :
    q.popleft = .error (.ValueError "No free blocks available") := by
  have hfirst : (q.heap .fakeHead).nextFreeBlock = some .fakeTail := h.seg.1
  simp [popleft, hfirst, noFreeBlocks, h.count]

theorem popleftN_exact {n : Nat} (h : q.Exact F) (hn : n ≤ F.length) :
    ∃ q', q.popleftN n = .ok (F.take n, q') ∧ q'.Exact (F.drop n) := by
  refine popleftN_keeps (P := Exact) (fun _ _ hq => hq.toRepresents) ?_ h hn
  intro q x F q' hq hrun
  obtain ⟨q1, hrun', hq'⟩ := popleft_exact hq
  cases hrun.symm.trans hrun'
  exact hq'

theorem popleftN_short {n : Nat} (h : q.Represents F) (hn : F.length < n) :
    q.popleftN n = .error (.AssertionError "") := by
  have hcount := h.count
  unfold popleftN
  rw [if_neg (by omega), assert, if_neg (by simp only [decide_eq_true_eq]; omega)]
  rfl

theorem append_exact (h : q.Exact F)
    (hd : (BlockRef.fakeHead :: (F ++ [x]) ++ [BlockRef.fakeTail]).Nodup) :
    ∃ q', q.append x = .ok q' ∧ q'.Exact (F ++ [x]) := by
  obtain ⟨q', hrun', hq', -⟩ := append_spec h.toRepresents hd
  obtain ⟨last, hlast, -, hrun⟩ := append_eq (x := x) h.toRepresents
  obtain rfl := Except.ok.inj (hrun.symm.trans hrun')
  refine ⟨_, hrun, hq', fun w hw => ?_, fun w hw => ?_⟩
  · simp only [mem_cons, mem_append, not_or] at hw
    have hout : w ∉ BlockRef.fakeHead :: F := by simp [hw.1, hw.2.1]
    have hwl : w ≠ last := fun h0 => hout (h0 ▸ hlast)
    simp [hw.2.2.1, hwl, h.next_none w hout]
  · simp only [mem_cons, mem_append, not_or] at hw
    simp [hw.1.2.1, hw.2.1, h.prev_none w (by simp [hw.1.1, hw.2.1])]

theorem appendN_exact (bs : List BlockRef) (h : q.Exact F)
    (hd : (BlockRef.fakeHead :: (F ++ bs) ++ [BlockRef.fakeTail]).Nodup) :
    ∃ q', q.appendN bs = .ok q' ∧ q'.Exact (F ++ bs) :=
  appendN_keeps (fun _ _ _ => append_exact) h hd

theorem init_exact (hd : (BlockRef.fakeHead :: bs ++ [BlockRef.fakeTail]).Nodup) :
    (init bs).Exact bs := by
  refine init_keeps ⟨init_nil, fun w hw => ?_, fun w hw => ?_⟩ (fun _ _ _ => append_exact) hd
  · have hwh : w ≠ .fakeHead := by simpa using hw
    simp [init, initLoop, hwh]
  · have hwt : w ≠ .fakeTail := by simpa using hw
    simp [init, initLoop, hwt]

end FreeKVCacheBlockQueue

/-! ## Calls -/

/-- A call of the queue, with the ids of the blocks it is made for. -/
inductive QueueOp
  | popleft
  | popleftN (n : Nat)
  | remove (block : Nat)
  | append (block : Nat)
  | appendN (blocks : List Nat)
  deriving DecidableEq, Repr

namespace QueueOp

/-- The blocks that a call returns, and the queue it leaves. -/
def run (q : FreeKVCacheBlockQueue) :
    QueueOp → Except PyError (List BlockRef × FreeKVCacheBlockQueue)
  | popleft => q.popleft.map fun res => ([res.1], res.2)
  | popleftN n => q.popleftN n
  | remove b => (q.remove (.blk b)).map fun q' => ([], q')
  | append b => (q.append (.blk b)).map fun q' => ([], q')
  | appendN bs => (q.appendN (bs.map .blk)).map fun q' => ([], q')

/-- The same call on a sequence of blocks. -/
def onSequence (F : List Nat) : QueueOp → Except PyError (List Nat × List Nat)
  | popleft =>
    match F with
    | [] => .error (.ValueError "No free blocks available")
    | b :: F => .ok ([b], F)
  | popleftN n => if n ≤ F.length then .ok (F.take n, F.drop n) else .error (.AssertionError "")
  | remove b => .ok ([], F.erase b)
  | append b => .ok ([], F ++ [b])
  | appendN bs => .ok ([], F ++ bs)

/-- A member is removed, and what is appended is not a member. -/
def Allowed (F : List Nat) : QueueOp → Prop
  | popleft => True
  | popleftN _ => True
  | remove b => b ∈ F
  | append b => b ∉ F
  | appendN bs => bs.Nodup ∧ ∀ b ∈ bs, b ∉ F

/-- The outcomes of a call on a queue and on a sequence: both raise the same exception, or
both return the same blocks and the queue holds the sequence again. -/
inductive Agrees : Except PyError (List BlockRef × FreeKVCacheBlockQueue) →
    Except PyError (List Nat × List Nat) → Prop
  | returns {q : FreeKVCacheBlockQueue} {F : List Nat} (ret : List Nat) : F.Nodup →
      q.Exact (F.map .blk) → Agrees (.ok (ret.map .blk, q)) (.ok (ret, F))
  | raises (e : PyError) : Agrees (.error e) (.error e)

variable {q : FreeKVCacheBlockQueue} {F bs : List Nat} {op : QueueOp}

theorem sentinels_nodup (hd : F.Nodup) :
    (BlockRef.fakeHead :: F.map .blk ++ [BlockRef.fakeTail]).Nodup := by
  have hblk : (F.map BlockRef.blk).Nodup := hd.map fun _ _ heq => BlockRef.blk.inj heq
  simp [nodup_append, hblk]

theorem popleft_agrees (h : q.Exact (F.map .blk)) (hd : F.Nodup) :
    Agrees (popleft.run q) (popleft.onSequence F) := by
  cases F with
  | nil =>
    rw [run, FreeKVCacheBlockQueue.popleft_nil h.toRepresents]
    exact .raises _
  | cons b F =>
    obtain ⟨q', hrun, hq⟩ := FreeKVCacheBlockQueue.popleft_exact h
    rw [run, hrun]
    exact .returns [b] (nodup_cons.mp hd).2 hq

theorem popleftN_agrees (h : q.Exact (F.map .blk)) (hd : F.Nodup) (n : Nat) :
    Agrees ((popleftN n).run q) ((popleftN n).onSequence F) := by
  rw [run, onSequence]
  by_cases hn : n ≤ F.length
  · obtain ⟨q', hrun, hq⟩ := FreeKVCacheBlockQueue.popleftN_exact h (n := n) (by simpa using hn)
    rw [if_pos hn, hrun, ← map_take]
    rw [← map_drop] at hq
    exact .returns _ (hd.sublist (drop_sublist n F)) hq
  · rw [if_neg hn, FreeKVCacheBlockQueue.popleftN_short h.toRepresents (by simpa using hn)]
    exact .raises _

theorem remove_agrees (h : q.Exact (F.map .blk)) (hd : F.Nodup) {b : Nat} (hb : b ∈ F) :
    Agrees ((remove b).run q) ((remove b).onSequence F) := by
  obtain ⟨A, B, -, rfl, herase⟩ := exists_erase_eq hb
  rw [map_append, map_cons] at h
  obtain ⟨q', hrun, hq⟩ := FreeKVCacheBlockQueue.remove_exact h
  rw [← map_append, ← herase] at hq
  rw [run, hrun]
  exact .returns [] (hd.erase b) hq

theorem append_agrees (h : q.Exact (F.map .blk)) (hd : F.Nodup) {b : Nat} (hnew : b ∉ F) :
    Agrees ((append b).run q) ((append b).onSequence F) := by
  have hboth : (F ++ [b]).Nodup := hd.append (nodup_singleton b) (by simpa using hnew)
  obtain ⟨q', hrun, hq⟩ := FreeKVCacheBlockQueue.append_exact (x := .blk b) h
    (by simpa using sentinels_nodup hboth)
  rw [run, hrun]
  exact .returns [] hboth (by simpa using hq)

theorem appendN_agrees (h : q.Exact (F.map .blk)) (hd : F.Nodup) (hbs : bs.Nodup)
    (hnew : ∀ b ∈ bs, b ∉ F) : Agrees ((appendN bs).run q) ((appendN bs).onSequence F) := by
  have hboth : (F ++ bs).Nodup := hd.append hbs fun b hF hb => hnew b hb hF
  obtain ⟨q', hrun, hq⟩ := FreeKVCacheBlockQueue.appendN_exact (bs.map .blk) h
    (by rw [← map_append]; exact sentinels_nodup hboth)
  rw [← map_append] at hq
  rw [run, hrun]
  exact .returns [] hboth hq

/-- One call, on a queue and on the sequence it holds. -/
theorem run_agrees (h : q.Exact (F.map .blk)) (hd : F.Nodup) (ha : op.Allowed F) :
    Agrees (op.run q) (op.onSequence F) := by
  cases op with
  | popleft => exact popleft_agrees h hd
  | popleftN n => exact popleftN_agrees h hd n
  | remove b => exact remove_agrees h hd ha
  | append b => exact append_agrees h hd ha
  | appendN bs => exact appendN_agrees h hd ha.1 ha.2

end QueueOp

/-! ## Runs -/

/-- A queue, and the sequence that the same calls leave. -/
structure QueueRun where
  queue : FreeKVCacheBlockQueue
  blocks : List Nat

/-- The state that a call leaves. The exceptions are raised before anything is assigned. -/
def stateAfter {σ α : Type} (s : σ) : Except PyError (α × σ) → σ
  | .ok (_, s') => s'
  | .error _ => s

/-- The runs from a queue of distinct blocks. -/
def queueRuns : TSys QueueRun where
  init s := ∃ blocks : List Nat, blocks.Nodup ∧
    s = ⟨.init (blocks.map .blk), blocks⟩
  step s s' := ∃ op : QueueOp, op.Allowed s.blocks ∧
    s' = ⟨stateAfter s.queue (op.run s.queue), stateAfter s.blocks (op.onSequence s.blocks)⟩

/-- The queue is its sequence. -/
structure RefinesSequence (s : QueueRun) : Prop where
  all : ∀ fuel, s.blocks.length < fuel →
    s.queue.getAllFreeBlocks fuel = .ok (some (s.blocks.map .blk))
  count : s.queue.numFreeBlocks = s.blocks.length
  inverse : ∀ r r', (s.queue.heap r).nextFreeBlock = some r' ↔
    (s.queue.heap r').prevFreeBlock = some r
  /-- A block outside the list, in particular one that was removed, has no links. -/
  cleared : ∀ b, b ∉ s.blocks → (s.queue.heap (.blk b)).prevFreeBlock = none ∧
    (s.queue.heap (.blk b)).nextFreeBlock = none
  /-- A call returns, or raises, what it does on the sequence. -/
  returned : ∀ op : QueueOp, op.Allowed s.blocks →
    (op.run s.queue).map Prod.fst = (op.onSequence s.blocks).map fun res => res.1.map .blk

theorem exact_invariant : queueRuns.Invariant fun s =>
    s.queue.Exact (s.blocks.map .blk) ∧ s.blocks.Nodup := by
  refine TSys.Inductive.invariant ⟨?_, ?_⟩
  · rintro s ⟨blocks, hd, rfl⟩
    exact ⟨FreeKVCacheBlockQueue.init_exact (QueueOp.sentinels_nodup hd), hd⟩
  · rintro s s' ⟨hq, hd⟩ ⟨op, ha, rfl⟩
    have hagrees := QueueOp.run_agrees hq hd ha
    generalize op.run s.queue = res at hagrees
    generalize op.onSequence s.blocks = res' at hagrees
    cases hagrees with
    | returns ret hd' hq' => exact ⟨hq', hd'⟩
    | raises e => exact ⟨hq, hd⟩

/-- **The free block queue is a list**: after any calls `get_all_free_blocks` returns the sequence
that the same calls leave, every call returns what it does on the sequence, and the links are those
of the sequence. -/
theorem queue_refines_sequence : queueRuns.Invariant RefinesSequence := by
  intro s hs
  obtain ⟨hq, hd⟩ := exact_invariant s hs
  refine ⟨fun fuel hfuel => ?_, ?_, fun r r' => hq.next_iff_prev, fun b hb => ?_,
    fun op ha => ?_⟩
  · exact FreeKVCacheBlockQueue.getAllFreeBlocks_spec hq.toRepresents (by simpa using hfuel)
  · rw [hq.count, length_map]
  · refine hq.outside (fun hmem => ?_) nofun nofun
    obtain ⟨b', hb', heq⟩ := mem_map.mp hmem
    cases heq
    exact hb hb'
  · have hagrees := QueueOp.run_agrees hq hd ha
    generalize op.run s.queue = res at hagrees
    generalize op.onSequence s.blocks = res' at hagrees
    cases hagrees with
    | returns ret hd' hq' => rfl
    | raises e => rfl

end MyOperator.KvCache
