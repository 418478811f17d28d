import MyOperator.Lib.Segment
import MyOperator.Lib.TSys

/-!
# Blocks and the free block queue

`KVCacheBlock` objects live in a heap that is addressed by references; a
reference to a block of the pool is its `block_id`, and the two sentinels of the
free list have references of their own. `FreeKVCacheBlockQueue` threads the free
blocks through their `prev_free_block` and `next_free_block` attributes.

An exception of the source is an error of the `Except` monad. The texts are the
source's; the `repr` of a block inside `remove`'s text is left out.
-/

namespace MyOperator.KvCache

open Lib

/-- The exceptions that the modelled code raises. -/
inductive PyError
  | ValueError (msg : String)
  | AssertionError (msg : String)
  | RuntimeError (msg : String)
  | IndexError (msg : String)
  | KeyError (msg : String)
  | NotImplementedError (msg : String)
  | TypeError (msg : String)
  | AttributeError (msg : String)
  | MemoryError (msg : String)
  | OverflowError (msg : String)
  deriving DecidableEq, Repr

/-- `assert c, msg`. -/
def assert (c : Bool) (msg : String) : Except PyError Unit :=
  if c then .ok () else .error (.AssertionError msg)

@[simp] theorem assert_eq_ok {c : Bool} {msg : String} {u : Unit} :
    assert c msg = .ok u ↔ c = true := by
  cases c <;> simp [assert]

/-- `BlockHash`: raw bytes. -/
abbrev BlockHash := List UInt8

/-- `BlockHashWithGroupId`: a block hash followed by four bytes of group id. -/
abbrev BlockHashWithGroupId := List UInt8

/-- `group_id.to_bytes(4, "big")`, for the group ids below `2 ^ 32`. -/
def toBytes4 (n : Nat) : List UInt8 :=
  [UInt8.ofNat (n / 16777216), UInt8.ofNat (n / 65536), UInt8.ofNat (n / 256), UInt8.ofNat n]

def makeBlockHashWithGroupId (blockHash : BlockHash) (groupId : Nat) : BlockHashWithGroupId :=
  blockHash ++ toBytes4 groupId

private theorem toBytes4_inj {n m : Nat} (hn : n < 4294967296) (hm : m < 4294967296)
    (h : toBytes4 n = toBytes4 m) : n = m := by
  simp only [toBytes4, List.cons.injEq, ← UInt8.toNat_inj, UInt8.toNat_ofNat'] at h
  omega

theorem makeBlockHashWithGroupId_inj {h h' : BlockHash} {g g' : Nat} (hg : g < 4294967296)
    (hg' : g' < 4294967296)
    (heq : makeBlockHashWithGroupId h g = makeBlockHashWithGroupId h' g') : h = h' ∧ g = g' := by
  obtain ⟨hh, hb⟩ := List.append_inj' heq rfl
  exact ⟨hh, toBytes4_inj hg hg' hb⟩

/-- `get_block_hash`: `key[:-4]`. -/
def getBlockHash (key : BlockHashWithGroupId) : BlockHash := key.take (key.length - 4)

/-- A reference to a `KVCacheBlock` object. -/
inductive BlockRef
  | fakeHead
  | fakeTail
  | blk (blockId : Nat)
  deriving DecidableEq, Repr

def BlockRef.blockId : BlockRef → Int
  | .fakeHead => -1
  | .fakeTail => -1
  | .blk i => i

/-- The attributes of a `KVCacheBlock`, apart from `block_id`. -/
structure KVCacheBlock where
  refCnt : Int := 0
  blockHash : Option BlockHashWithGroupId := none
  prevFreeBlock : Option BlockRef := none
  nextFreeBlock : Option BlockRef := none
  isNull : Bool := false
  deriving DecidableEq, Repr

/-- The block objects. -/
abbrev Heap := BlockRef → KVCacheBlock

namespace Heap

def modify (h : Heap) (r : BlockRef) (f : KVCacheBlock → KVCacheBlock) : Heap :=
  fun r' => if r' = r then f (h r) else h r'

/-- `r.next_free_block = v`. -/
def setNext (h : Heap) (r : BlockRef) (v : Option BlockRef) : Heap :=
  h.modify r fun b => { b with nextFreeBlock := v }

/-- `r.prev_free_block = v`. -/
def setPrev (h : Heap) (r : BlockRef) (v : Option BlockRef) : Heap :=
  h.modify r fun b => { b with prevFreeBlock := v }

variable (h : Heap) (r r' : BlockRef) (v : Option BlockRef)

@[simp] theorem setNext_next :
    (h.setNext r v r').nextFreeBlock = if r' = r then v else (h r').nextFreeBlock := by
  by_cases hr : r' = r <;> simp [setNext, modify, hr]

@[simp] theorem setNext_prev : (h.setNext r v r').prevFreeBlock = (h r').prevFreeBlock := by
  by_cases hr : r' = r <;> simp [setNext, modify, hr]

@[simp] theorem setPrev_prev :
    (h.setPrev r v r').prevFreeBlock = if r' = r then v else (h r').prevFreeBlock := by
  by_cases hr : r' = r <;> simp [setPrev, modify, hr]

@[simp] theorem setPrev_next : (h.setPrev r v r').nextFreeBlock = (h r').nextFreeBlock := by
  by_cases hr : r' = r <;> simp [setPrev, modify, hr]

/-- Two heaps that differ in links only. -/
def SameData (h h' : Heap) : Prop :=
  ∀ r, (h' r).refCnt = (h r).refCnt ∧ (h' r).blockHash = (h r).blockHash ∧
    (h' r).isNull = (h r).isNull

theorem sameData_refl : SameData h h := fun _ => ⟨rfl, rfl, rfl⟩

theorem SameData.trans {h h' h'' : Heap} (h1 : SameData h h') (h2 : SameData h' h'') :
    SameData h h'' := fun r =>
  ⟨(h2 r).1.trans (h1 r).1, (h2 r).2.1.trans (h1 r).2.1, (h2 r).2.2.trans (h1 r).2.2⟩

theorem sameData_setNext : SameData h (h.setNext r v) := by
  intro r'
  by_cases hr : r' = r <;> simp [setNext, modify, hr]

theorem sameData_setPrev : SameData h (h.setPrev r v) := by
  intro r'
  by_cases hr : r' = r <;> simp [setPrev, modify, hr]

end Heap

/-- `FreeKVCacheBlockQueue`, with the objects it links. -/
structure FreeKVCacheBlockQueue where
  heap : Heap
  numFreeBlocks : Int

namespace FreeKVCacheBlockQueue

/-- One block of the loop of `__init__`: its neighbours in the list, where it has them. -/
def initLink (h : Heap) (b : BlockRef) (prev next : Option BlockRef) : Heap :=
  let h := match prev with
    | some a => h.setPrev b (some a)
    | none => h
  match next with
    | some c => h.setNext b (some c)
    | none => h

/-- The links between consecutive blocks that `__init__` sets. -/
def initLoop : Option BlockRef → List BlockRef → Heap → Heap
  | _, [], h => h
  | prev, b :: rest, h => initLoop (some b) rest (initLink h b prev rest.head?)

/-- `__init__`: the blocks are linked in order between the two sentinels. -/
def init (blocks : List BlockRef) : FreeKVCacheBlockQueue :=
  let h := initLoop none blocks fun _ => {}
  match blocks.head?, blocks.getLast? with
  | some first, some last =>
    let h := h.setNext .fakeHead (some first)
    let h := h.setPrev first (some .fakeHead)
    let h := h.setPrev .fakeTail (some last)
    let h := h.setNext last (some .fakeTail)
    ⟨h, blocks.length⟩
  | _, _ =>
    ⟨(h.setNext .fakeHead (some .fakeTail)).setPrev .fakeTail (some .fakeHead), blocks.length⟩

/-- The failure of `popleft` on an empty list. -/
def noFreeBlocks (q : FreeKVCacheBlockQueue) : PyError :=
  if q.numFreeBlocks = 0 then .ValueError "No free blocks available"
  else .AssertionError s!"num_free_blocks ({q.numFreeBlocks}) is out of sync with the free list."

def popleft (q : FreeKVCacheBlockQueue) : Except PyError (BlockRef × FreeKVCacheBlockQueue) :=
  match (q.heap .fakeHead).nextFreeBlock with
  | none => .error q.noFreeBlocks
  | some first =>
    if first = .fakeTail then .error q.noFreeBlocks
    else match (q.heap first).nextFreeBlock with
      | none => .error (.RuntimeError
          "Invalid block found in popleft() which doesn't have a valid next_free_block")
      | some second =>
        let h := q.heap.setNext .fakeHead (some second)
        let h := h.setPrev second (some .fakeHead)
        let h := (h.setPrev first none).setNext first none
        .ok (first, ⟨h, q.numFreeBlocks - 1⟩)

/-- The loop of `popleft_n`: the popped blocks, the heap and `curr_block`. -/
def popLoop : Nat → Heap → Option BlockRef →
    Except PyError (List BlockRef × Heap × Option BlockRef)
  | 0, h, curr => .ok ([], h, curr)
  | _ + 1, _, none => .error (.AssertionError "")
  | n + 1, h, some b => do
      let (ret, h', curr) ← popLoop n ((h.setPrev b none).setNext b none) (h b).nextFreeBlock
      .ok (b :: ret, h', curr)

/-- `popleft_n`. A negative `n` passes the assertion and raises the counter. -/
def popleftN (q : FreeKVCacheBlockQueue) (n : Int) :
    Except PyError (List BlockRef × FreeKVCacheBlockQueue) :=
  if n = 0 then .ok ([], q)
  else do
    assert (n ≤ q.numFreeBlocks) ""
    let (ret, h, curr) ← popLoop n.toNat q.heap (q.heap .fakeHead).nextFreeBlock
    let h := match curr with
      | some b => (h.setNext .fakeHead (some b)).setPrev b (some .fakeHead)
      | none => h
    .ok (ret, ⟨h, q.numFreeBlocks - n⟩)

def remove (q : FreeKVCacheBlockQueue) (block : BlockRef) :
    Except PyError FreeKVCacheBlockQueue :=
  match (q.heap block).prevFreeBlock, (q.heap block).nextFreeBlock with
  | some prev, some next =>
    let h := q.heap.setNext prev (some next)
    let h := h.setPrev next (some prev)
    let h := (h.setPrev block none).setNext block none
    .ok ⟨h, q.numFreeBlocks - 1⟩
  | _, _ => .error (.RuntimeError "remove() called on an invalid block")

def append (q : FreeKVCacheBlockQueue) (block : BlockRef) :
    Except PyError FreeKVCacheBlockQueue :=
  match (q.heap .fakeTail).prevFreeBlock with
  | none => .error (.RuntimeError "prev_free_block of fake_free_list_tail should always exist")
  | some last =>
    let h := q.heap.setNext last (some block)
    let h := h.setPrev block (some last)
    let h := h.setNext block (some .fakeTail)
    let h := h.setPrev .fakeTail (some block)
    .ok ⟨h, q.numFreeBlocks + 1⟩

/-- The loop of `append_n`: the heap and `last_block`. -/
def linkLoop : List BlockRef → Heap → BlockRef → Heap × BlockRef
  | [], h, last => (h, last)
  | b :: rest, h, last => linkLoop rest ((h.setPrev b (some last)).setNext last (some b)) b

def appendN (q : FreeKVCacheBlockQueue) (blocks : List BlockRef) :
    Except PyError FreeKVCacheBlockQueue :=
  if blocks = [] then .ok q
  else match (q.heap .fakeTail).prevFreeBlock with
    | none => .error
        (.AssertionError "prev_free_block of fake_free_list_tail should always exist")
    | some last =>
      let (h, last) := linkLoop blocks q.heap last
      let h := (h.setNext last (some .fakeTail)).setPrev .fakeTail (some last)
      .ok ⟨h, q.numFreeBlocks + blocks.length⟩

/-- The loop of `get_all_free_blocks`; `none` when the bound is too small. -/
def walk (h : Heap) : Nat → BlockRef → Option (List BlockRef)
  | 0, _ => none
  | fuel + 1, curr =>
    match (h curr).nextFreeBlock with
    | none => some []
    | some next => (walk h fuel next).map (curr :: ·)

/-- `get_all_free_blocks`, with a bound on the number of hops. -/
def getAllFreeBlocks (q : FreeKVCacheBlockQueue) (fuel : Nat) :
    Except PyError (Option (List BlockRef)) :=
  match (q.heap .fakeHead).nextFreeBlock with
  | none => .error (.RuntimeError "next_free_block of fake_free_list_head should always exist")
  | some first => .ok (walk q.heap fuel first)

end FreeKVCacheBlockQueue

end MyOperator.KvCache

namespace MyOperator

export KvCache (PyError)

end MyOperator
