import MyOperator.Lib.Recency
import MyOperator.KvCache.Block

/-!
# The LRU cache of the multimodal caches

`vllm.utils.cache.LRUCache`: a cache whose entries have a size, with the keys in
the order of their last use. The class overrides the lookups and `popitem` of
`cachetools.LRUCache` and inherits the rest; what it inherits is the parameter
`BaseLRU`, with its documented behaviour in `BaseLRU.Documented`. A key that
`touch` adds to the order before the key is in the cache is part of the state:
`popitem` can meet it.
-/

namespace MyOperator.Multimodal

open Lib Function

/-- `LRUCache`: `data` is `_Cache__data`, `order` is `_LRUCache__order`, oldest first. The hit
counters are left out. -/
structure LRUCache (ν : Type) where
  getsizeof : ν → Nat
  maxsize : Nat
  data : String → Option ν := fun _ => none
  currsize : Nat := 0
  order : List String := []
  pinnedItems : List String := []

/-- How a call ends that does not return. The assertion of the two caches, `Expected a cached item
for mm_hash=…`, is kept apart from all other exceptions. -/
inductive Stop
  | raised (e : PyError)
  | expectedCachedItem (mmHash : String)
  | runsForever
  deriving DecidableEq, Repr

/-- A method of the cache: an exception keeps what was done before it. -/
abbrev CacheM (ν α : Type) := EStateM Stop (LRUCache ν) α

/-- The methods inherited from `cachetools.LRUCache`. `setitem` calls the `popitem` of the
subclass. -/
structure BaseLRU where
  getitem : {ν : Type} → String → CacheM ν ν
  delitem : {ν : Type} → String → CacheM ν Unit
  setitem : {ν : Type} → CacheM ν (String × Option ν) → String → ν → CacheM ν Unit

namespace LRUCache

variable {ν : Type}

/-- `key in self`. -/
def contains (c : LRUCache ν) (key : String) : Bool := (c.data key).isSome

/-- `key` becomes the most recently used key. -/
def use (c : LRUCache ν) (key : String) : LRUCache ν := { c with order := useKey c.order key }

/-- `self[key] = value`, without making room. -/
def insert (c : LRUCache ν) (key : String) (value : ν) : LRUCache ν := { c with
    data := update c.data key (some value)
    currsize := c.currsize + c.getsizeof value
    order := useKey c.order key }

/-- `del self[key]` of an entry with the value `value`. -/
def remove (c : LRUCache ν) (key : String) (value : ν) : LRUCache ν := { c with
    data := update c.data key none
    currsize := c.currsize - c.getsizeof value
    order := c.order.erase key }

/-- `touch`: a key that the order does not have yet is added to it. -/
def touch (key : String) : CacheM ν Unit := modify fun c => c.use key

variable (base : BaseLRU)

def get? (key : String) : CacheM ν (Option ν) := do
  if (← get).contains key then
    let value ← base.getitem key
    return some value
  else return none

def delitem (key : String) : CacheM ν Unit := do
  let _ ← base.getitem key
  base.delitem key
  modify fun c => { c with pinnedItems := c.pinnedItems.erase key }

def pop (key : String) : CacheM ν (Option ν) := do
  if (← get).contains key then
    let value ← base.getitem key
    delitem base key
    return some value
  else return none

/-- `popitem`, with `remove_pinned=False`. -/
def popitem : CacheM ν (String × Option ν) := do
  let c ← get
  match c.order.find? fun key => key ∉ c.pinnedItems with
  | none => throw (.raised (.RuntimeError
      "All items are pinned, cannot remove oldest from the cache."))
  | some lruKey => do
      let value ← pop base lruKey
      return (lruKey, value)

/-- `self[key] = value`. -/
def setitem (key : String) (value : ν) : CacheM ν Unit := base.setitem (popitem base) key value

def pin (key : String) : CacheM ν Unit := do
  if (← get).contains key then
    modify fun c => { c with pinnedItems := c.pinnedItems.insert key }
  else throw (.raised (.ValueError s!"Cannot pin key: {key} not in cache."))

/-- `remove_oldest`. A stored key is in the order, so `len(self)` is zero when none of its keys
is stored. -/
def removeOldest (removePinned : Bool) : CacheM ν Unit := do
  let c ← get
  match c.order with
  | [] => return ()
  | lruKey :: _ =>
    if c.order.any c.contains then
      if removePinned then discard (pop base lruKey) else discard (popitem base)

end LRUCache

/-- The documented behaviour of `cachetools.LRUCache` that the subclass relies on: reading an entry
makes it the most recently used one, deleting it gives its size back, and `__setitem__` calls
`popitem` until there is enough room for the item. -/
structure BaseLRU.Documented (base : BaseLRU) : Prop where
  getitem {ν : Type} (c : LRUCache ν) (key : String) (value : ν) :
    c.data key = some value → (base.getitem key).run c = .ok value (c.use key)
  delitem {ν : Type} (c : LRUCache ν) (key : String) (value : ν) :
    c.data key = some value → (base.delitem key).run c = .ok () (c.remove key value)
  setitem_room {ν : Type} (popitem : CacheM ν (String × Option ν)) (c : LRUCache ν) (key : String)
    (value : ν) :
    c.data key = none → c.currsize + c.getsizeof value ≤ c.maxsize →
    (base.setitem popitem key value).run c = .ok () (c.insert key value)
  setitem_full {ν : Type} (popitem : CacheM ν (String × Option ν)) (c c' : LRUCache ν)
    (key : String) (value : ν) (item : String × Option ν) :
    c.data key = none → c.getsizeof value ≤ c.maxsize →
    c.maxsize < c.currsize + c.getsizeof value →
    popitem.run c = .ok item c' → c'.order.length < c.order.length →
    c'.data key = none → c'.getsizeof = c.getsizeof → c'.maxsize = c.maxsize →
    (base.setitem popitem key value).run c = (base.setitem popitem key value).run c'

namespace LRUCache

variable {ν : Type}

/-- The size of an entry, zero where there is none. -/
def weight (c : LRUCache ν) (key : String) : Nat := (c.data key).elim 0 c.getsizeof

/-- `__setitem__` has to call `popitem`: the item is new or grows, and does not fit yet. -/
structure MakesRoom (c : LRUCache ν) (key : String) (value : ν) : Prop where
  grows : c.data key = none ∨ c.weight key < c.getsizeof value
  size : c.getsizeof value ≤ c.maxsize
  full : c.maxsize < c.currsize + c.getsizeof value

variable {base : BaseLRU} {c c' : LRUCache ν} {older mid : List String} {key : String} {value : ν}

theorem run_bind_ok {α β : Type} {x : CacheM ν α} {f : α → CacheM ν β} {a : α}
    (h : x.run c = .ok a c') : (x >>= f).run c = (f a).run c' := by
  rw [EStateM.run_bind, h]

theorem get?_some (hb : base.Documented) (h : c.data key = some value) :
    (get? base key).run c = .ok (some value) (c.use key) := by
  have hc : c.contains key = true := by rw [contains, h]; rfl
  rw [get?, run_bind_ok (EStateM.run_get c), if_pos hc, run_bind_ok (hb.getitem c key value h)]
  rfl

theorem get?_none (h : c.data key = none) : (get? base key).run c = .ok none c := by
  have hc : ¬ c.contains key = true := by rw [contains, h]; exact Bool.false_ne_true
  rw [get?, run_bind_ok (EStateM.run_get c), if_neg hc]
  rfl

/-- `del self[key]` of the subclass: a pinned key is unpinned. -/
def drop (c : LRUCache ν) (key : String) (value : ν) : LRUCache ν :=
  { c.remove key value with pinnedItems := c.pinnedItems.erase key }

section

variable (hb : base.Documented) (hnodup : c.order.Nodup)
include hb hnodup

theorem delitem_eq (h : c.data key = some value) :
    (delitem base key).run c = .ok () (c.drop key value) := by
  have hdel := hb.delitem (c.use key) key value h
  rw [delitem, run_bind_ok (hb.getitem c key value h), run_bind_ok hdel]
  show EStateM.Result.ok () _ = _
  simp only [drop, remove, use, erase_useKey hnodup]

theorem pop_eq (h : c.data key = some value) :
    (pop base key).run c = .ok (some value) (c.drop key value) := by
  have hc : c.contains key = true := by rw [contains, h]; rfl
  have hdel : (delitem base key).run (c.use key) = .ok () ((c.use key).drop key value) :=
    delitem_eq hb (nodup_useKey hnodup) h
  rw [pop, run_bind_ok (EStateM.run_get c), if_pos hc, run_bind_ok (hb.getitem c key value h),
    run_bind_ok hdel]
  show EStateM.Result.ok (some value) _ = _
  simp only [drop, remove, use, erase_useKey hnodup]

theorem popitem_eq {newer : List String} (horder : c.order = older ++ key :: newer)
    (hpinned : ∀ k ∈ older, k ∈ c.pinnedItems) (hpin : key ∉ c.pinnedItems)
    (h : c.data key = some value) :
    (popitem base).run c = .ok (key, some value) (c.remove key value) := by
  have hfind : c.order.find? (fun k => decide (k ∉ c.pinnedItems)) = some key := by
    have hnone : older.find? (fun k => decide (k ∉ c.pinnedItems)) = none :=
      List.find?_eq_none.mpr fun k hk => by simpa using hpinned k hk
    rw [horder, List.find?_append, hnone, Option.none_or,
      List.find?_cons_of_pos (by simpa using hpin)]
  have hdrop : c.drop key value = c.remove key value := by
    rw [drop, List.erase_of_not_mem hpin]
    rfl
  rw [popitem, run_bind_ok (EStateM.run_get c), hfind, ← hdrop]
  exact run_bind_ok (pop_eq hb hnodup h)

end

end LRUCache

end MyOperator.Multimodal

/-!
## A base class with the documented behaviour

The methods of `cachetools.LRUCache` as its documentation describes them, to run
the model with.
-/

namespace MyOperator.Multimodal.Cachetools

open Lib

variable {ν : Type}

/-- The entry in its place. -/
def store (c : LRUCache ν) (key : String) (value : ν) : LRUCache ν := { c with
    data := Function.update c.data key (some value)
    currsize := c.currsize + c.getsizeof value - c.weight key
    order := useKey c.order key }

def getitem (key : String) : CacheM ν ν := fun c =>
  match c.data key with
  | some value => .ok value (c.use key)
  | none => .error (.raised (.KeyError key)) c

def delitem (key : String) : CacheM ν Unit := fun c =>
  match c.data key with
  | some value => .ok () (c.remove key value)
  | none => .error (.raised (.KeyError key)) c

/-- `while self.currsize + size > self.maxsize: self.popitem()`, and then the store. A call that
does not shorten the order is repeated for ever. -/
def setLoop (popitem : CacheM ν (String × Option ν)) (key : String) (value : ν) :
    Nat → CacheM ν Unit
  | 0, c =>
    if c.currsize + c.getsizeof value ≤ c.maxsize then .ok () (store c key value)
    else match popitem.run c with
      | .error e c' => .error e c'
      | .ok _ c' => .error .runsForever c'
  | fuel + 1, c =>
    if c.currsize + c.getsizeof value ≤ c.maxsize then .ok () (store c key value)
    else match popitem.run c with
      | .error e c' => .error e c'
      | .ok _ c' =>
        if c'.order.length < c.order.length then setLoop popitem key value fuel c'
        else .error .runsForever c'

def setitem (popitem : CacheM ν (String × Option ν)) (key : String) (value : ν) :
    CacheM ν Unit := fun c =>
  if c.maxsize < c.getsizeof value then .error (.raised (.ValueError "value too large")) c
  else if c.data key = none ∨ c.weight key < c.getsizeof value then
    setLoop popitem key value c.order.length c
  else .ok () (store c key value)

theorem setLoop_fuel {popitem : CacheM ν (String × Option ν)} {key : String} {value : ν}
    {n m : Nat} {c : LRUCache ν} (hn : c.order.length ≤ n) (hm : c.order.length ≤ m) :
    setLoop popitem key value n c = setLoop popitem key value m c := by
  induction n generalizing m c with
  | zero =>
    cases m with
    | zero => rfl
    | succ m =>
      have hlen : ∀ c' : LRUCache ν, ¬ c'.order.length < c.order.length := by
        intro c'
        omega
      simp only [setLoop, hlen, if_false]
  | succ n ih =>
    cases m with
    | zero =>
      have hlen : ∀ c' : LRUCache ν, ¬ c'.order.length < c.order.length := by
        intro c'
        omega
      simp only [setLoop, hlen, if_false]
    | succ m =>
      simp only [setLoop]
      split
      · rfl
      · split
        · rfl
        · rename_i c' hpop
          split
          · exact ih (by omega) (by omega)
          · rfl

section

variable {popitem : CacheM ν (String × Option ν)} {c c' : LRUCache ν} {key : String} {value : ν}

theorem store_eq_insert (h : c.data key = none) : store c key value = c.insert key value := by
  rw [store, LRUCache.weight, h]
  rfl

theorem setitem_fits (hsize : c.getsizeof value ≤ c.maxsize) (h : ¬ c.MakesRoom key value) :
    setitem popitem key value c = .ok () (store c key value) := by
  rw [setitem, if_neg (by omega)]
  split
  · next hgrows =>
    have hroom : c.currsize + c.getsizeof value ≤ c.maxsize :=
      Nat.not_lt.mp fun hfull => h ⟨hgrows, hsize, hfull⟩
    cases c.order.length <;> exact if_pos hroom
  · rfl

variable (h : c.MakesRoom key value)
include h

theorem setitem_raises {e : Stop} (hpop : popitem.run c = .error e c') :
    setitem popitem key value c = .error e c' := by
  obtain ⟨hgrows, hsize, hfull⟩ := h
  rw [setitem, if_neg (by omega), if_pos hgrows]
  cases c.order.length <;> rw [setLoop, if_neg (by omega), hpop]

theorem setitem_evicts {item : String × Option ν} (hpop : popitem.run c = .ok item c')
    (hlen : c'.order.length < c.order.length) (hget : c'.getsizeof = c.getsizeof)
    (hmax : c'.maxsize = c.maxsize) (hdata : c'.data key = none ∨ c'.data key = c.data key) :
    setitem popitem key value c = setitem popitem key value c' := by
  obtain ⟨hgrows, hsize, hfull⟩ := h
  have hgrows' : c'.data key = none ∨ c'.weight key < c.getsizeof value :=
    hdata.elim .inl fun hdata => by rwa [LRUCache.weight, hdata, hget]
  rw [setitem, if_neg (by omega), if_pos hgrows]
  rw [setitem, hget, hmax, if_neg (by omega), if_pos hgrows']
  obtain ⟨n, hn⟩ : ∃ n, c.order.length = n + 1 := ⟨c.order.length - 1, by omega⟩
  rw [hn, setLoop, if_neg (by omega), hpop]
  show (if c'.order.length < c.order.length then _ else _) = _
  rw [if_pos hlen]
  exact setLoop_fuel (by omega) (Nat.le_refl _)

end

end Cachetools

/-- `cachetools.LRUCache`. -/
def cachetools : BaseLRU where
  getitem := Cachetools.getitem
  delitem := Cachetools.delitem
  setitem := Cachetools.setitem

open Cachetools in
theorem cachetools_documented : cachetools.Documented where
  getitem c key value h := by
    show Cachetools.getitem key c = _
    rw [Cachetools.getitem, h]
  delitem c key value h := by
    show Cachetools.delitem key c = _
    rw [Cachetools.delitem, h]
  setitem_room popitem c key value h hroom := by
    rw [← store_eq_insert h]
    exact setitem_fits (by omega) fun hmake => absurd hmake.full (by omega)
  setitem_full popitem c c' key value item h hsize hfull hpop hlen h' hget hmax :=
    setitem_evicts ⟨.inl h, hsize, hfull⟩ hpop hlen hget hmax (.inl h')

end MyOperator.Multimodal
