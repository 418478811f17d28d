import MyOperator.Lib.OrderedDict
import MyOperator.KvCache.Block

/-!
# Cache policies of the CPU offload

`LRUCachePolicy` and `ARCCachePolicy`: how the offloaded blocks are organised and which
of them are evicted. The adaptive target of ARC is a `float`; everything here holds
whatever its arithmetic is, so that arithmetic is a parameter.
-/

namespace MyOperator.Offload

open Lib

/-- Assignment to a `c_int32` field. -/
def cInt32 (x : Int) : Int := x.bmod (2 ^ 32)

structure BlockStatus where
  refCnt : Int
  blockId : Nat
  deriving DecidableEq, Repr

namespace BlockStatus

/-- `BlockStatus(block_id)`, not ready. -/
def init (blockId : Nat) : BlockStatus := { refCnt := -1, blockId }

def isReady (b : BlockStatus) : Bool := 0 ≤ b.refCnt

/-- `block.ref_cnt = x`. -/
def setRefCnt (x : Int) (b : BlockStatus) : BlockStatus := { b with refCnt := cInt32 x }

end BlockStatus

/-- The arithmetic of `float`. -/
class PyFloat (F : Type) extends NatCast F, Add F, Sub F, Div F, Min F, Max F where
  /-- `int(x)`. -/
  int : F → Int

/-- Exact arithmetic. -/
instance : PyFloat ℚ where
  int x := x.num.tdiv x.den

variable {H : Type} [DecidableEq H]

/-- `block.ref_cnt == 0 and block_hash not in protected`. -/
def evictable (protectedHashes : Finset H) (e : H × BlockStatus) : Bool :=
  e.2.refCnt = 0 ∧ e.1 ∉ protectedHashes

/-! ## LRU -/

structure LRUCachePolicy (H : Type) where
  blocks : Dict H BlockStatus
  deriving DecidableEq

namespace LRUCachePolicy

variable (p : LRUCachePolicy H)

def init : LRUCachePolicy H := { blocks := .empty }

def get (blockHash : H) : Option BlockStatus := p.blocks.get? blockHash

def insert (blockHash : H) (block : BlockStatus) : LRUCachePolicy H :=
  { blocks := p.blocks.set blockHash block }

/-- `remove` of a present block. -/
def remove (blockHash : H) : LRUCachePolicy H := { blocks := p.blocks.erase blockHash }

def touch (blockHashes : List H) : LRUCachePolicy H :=
  blockHashes.reverse.foldl (fun p blockHash => { blocks := p.blocks.moveToEnd blockHash }) p

/-- The loop of `evict`: it stops with the n-th candidate. -/
def candidates (n : Nat) (protectedHashes : Finset H) : List (H × BlockStatus) :=
  (p.blocks.entries.filter (evictable protectedHashes)).take n

def evict (n : Nat) (protectedHashes : Finset H) :
    Option (List (H × BlockStatus)) × LRUCachePolicy H :=
  if n = 0 then (some [], p)
  else
    let candidates := p.candidates n protectedHashes
    if candidates.length < n then (none, p)
    else (some candidates, candidates.foldl (fun p e => { blocks := p.blocks.erase e.1 }) p)

end LRUCachePolicy

/-! ## ARC -/

structure ARCCachePolicy (H F : Type) where
  cacheCapacity : Nat
  targetT1Size : F
  t1 : Dict H BlockStatus
  t2 : Dict H BlockStatus
  b1 : Dict H Unit
  b2 : Dict H Unit
  deriving DecidableEq

namespace ARCCachePolicy

variable {F : Type} [PyFloat F] (p : ARCCachePolicy H F)

def init (cacheCapacity : Nat) : ARCCachePolicy H F where
  cacheCapacity
  targetT1Size := (0 : Nat)
  t1 := .empty
  t2 := .empty
  b1 := .empty
  b2 := .empty

omit [PyFloat F] in
def get (blockHash : H) : Option BlockStatus := (p.t1.get? blockHash).or (p.t2.get? blockHash)

omit [PyFloat F] in
def insert (blockHash : H) (block : BlockStatus) : ARCCachePolicy H F :=
  { p with t1 := p.t1.set blockHash block, b1 := p.b1.erase blockHash, b2 := p.b2.erase blockHash }

omit [PyFloat F] in
def remove (blockHash : H) : ARCCachePolicy H F :=
  match p.t1.get? blockHash with
  | some _ => { p with t1 := p.t1.erase blockHash }
  | none => { p with t2 := p.t2.erase blockHash }

/-- `max(1, len(other) / len(ghost))`. -/
def delta (other ghost : Dict H Unit) : F :=
  max ((1 : Nat) : F) ((other.entries.length : F) / (ghost.entries.length : F))

/-- A pass of the loop of `touch`. -/
def touchBlock (blockHash : H) : ARCCachePolicy H F :=
  match p.t1.get? blockHash with
  | some block =>
    -- a block that is still being stored was not touched twice
    if !block.isReady then { p with t1 := (p.t1.erase blockHash).set blockHash block }
    else { p with t1 := p.t1.erase blockHash, t2 := p.t2.set blockHash block }
  | none =>
    if p.t2.contains blockHash then { p with t2 := p.t2.moveToEnd blockHash }
    else if p.b1.contains blockHash then
      { p with
        targetT1Size := min (p.targetT1Size + delta p.b2 p.b1) (p.cacheCapacity : F)
        b1 := p.b1.moveToEnd blockHash }
    else if p.b2.contains blockHash then
      { p with
        targetT1Size := max (p.targetT1Size - delta p.b1 p.b2) ((0 : Nat) : F)
        b2 := p.b2.moveToEnd blockHash }
    else p

def touch (blockHashes : List H) : ARCCachePolicy H F := blockHashes.reverse.foldl touchBlock p

/-- The search of `evict` through `t1` or `t2`. -/
def candidate (t : Dict H BlockStatus) (protectedHashes alreadySelected : Finset H) :
    Option (H × BlockStatus) :=
  t.entries.find? fun e => evictable protectedHashes e ∧ e.1 ∉ alreadySelected

/-- The selection loop of `evict`, with `n` passes left. A candidate carries `from_t1`. -/
def selectCandidates (protectedHashes : Finset H) :
    (n : Nat) → (candidates : List (H × BlockStatus × Bool)) → (alreadySelected : Finset H) →
    (virtualT1Size : Int) → Option (List (H × BlockStatus × Bool))
  | 0, candidates, _, _ => some candidates
  | n + 1, candidates, alreadySelected, virtualT1Size =>
    match (if PyFloat.int p.targetT1Size ≤ virtualT1Size then
        candidate p.t1 protectedHashes alreadySelected else none) with
    | some (blockHash, block) =>
      selectCandidates protectedHashes n (candidates ++ [(blockHash, block, true)])
        (Insert.insert blockHash alreadySelected) (virtualT1Size - 1)
    | none =>
      match candidate p.t2 protectedHashes alreadySelected with
      | some (blockHash, block) =>
        selectCandidates protectedHashes n (candidates ++ [(blockHash, block, false)])
          (Insert.insert blockHash alreadySelected) virtualT1Size
      | none => none

omit [PyFloat F] in
/-- A pass of the loop that applies the evictions. -/
def evictCandidate (candidate : H × BlockStatus × Bool) : ARCCachePolicy H F :=
  if candidate.2.2 then
    { p with t1 := p.t1.erase candidate.1, b1 := p.b1.set candidate.1 () }
  else { p with t2 := p.t2.erase candidate.1, b2 := p.b2.set candidate.1 () }

/-- A ghost list cut to the capacity, oldest entries first. -/
def trimGhost (cacheCapacity : Nat) (ghost : Dict H Unit) : Dict H Unit :=
  Dict.popFirst^[ghost.entries.length - cacheCapacity] ghost

omit [PyFloat F] in
/-- The ghost lists cut to the capacity. -/
def trimGhosts : ARCCachePolicy H F :=
  { p with b1 := trimGhost p.cacheCapacity p.b1, b2 := trimGhost p.cacheCapacity p.b2 }

def evict (n : Nat) (protectedHashes : Finset H) :
    Option (List (H × BlockStatus)) × ARCCachePolicy H F :=
  if n = 0 then (some [], p)
  else
    match p.selectCandidates protectedHashes n [] ∅ p.t1.entries.length with
    | none => (none, p)
    | some candidates =>
      (some (candidates.map fun c => (c.1, c.2.1)), (candidates.foldl evictCandidate p).trimGhosts)

end ARCCachePolicy

/-! ## Either policy -/

/-- `CachePolicy`, one of the two in `_CACHE_POLICIES`. -/
inductive CachePolicy (H F : Type)
  | lru (p : LRUCachePolicy H)
  | arc (p : ARCCachePolicy H F)
  deriving DecidableEq

/-- The names in `_CACHE_POLICIES`. -/
inductive CachePolicyName
  | lru
  | arc
  deriving DecidableEq, Repr

namespace CachePolicy

variable {F : Type} [PyFloat F]

/-- `policy_cls(cache_capacity=cache_capacity)`. -/
def init (cachePolicy : CachePolicyName) (cacheCapacity : Nat) : CachePolicy H F :=
  match cachePolicy with
  | .lru => .lru .init
  | .arc => .arc (.init cacheCapacity)

omit [PyFloat F] in
def get (blockHash : H) : CachePolicy H F → Option BlockStatus
  | lru p => p.get blockHash
  | arc p => p.get blockHash

omit [PyFloat F] in
def insert (blockHash : H) (block : BlockStatus) : CachePolicy H F → CachePolicy H F
  | lru p => lru (p.insert blockHash block)
  | arc p => arc (p.insert blockHash block)

omit [PyFloat F] in
def remove (blockHash : H) : CachePolicy H F → CachePolicy H F
  | lru p => lru (p.remove blockHash)
  | arc p => arc (p.remove blockHash)

def touch (blockHashes : List H) : CachePolicy H F → CachePolicy H F
  | lru p => lru (p.touch blockHashes)
  | arc p => arc (p.touch blockHashes)

def evict (n : Nat) (protectedHashes : Finset H) :
    CachePolicy H F → Option (List (H × BlockStatus)) × CachePolicy H F
  | lru p => ((p.evict n protectedHashes).1, lru (p.evict n protectedHashes).2)
  | arc p => ((p.evict n protectedHashes).1, arc (p.evict n protectedHashes).2)

omit [PyFloat F] in
/-- The block that `get` returns is assigned to. -/
def modify (blockHash : H) (f : BlockStatus → BlockStatus) : CachePolicy H F → CachePolicy H F
  | lru p => lru { p with blocks := p.blocks.modify blockHash f }
  | arc p =>
    if p.t1.contains blockHash then arc { p with t1 := p.t1.modify blockHash f }
    else arc { p with t2 := p.t2.modify blockHash f }

end CachePolicy

end MyOperator.Offload
