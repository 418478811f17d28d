import MyOperator.Multimodal.LRUCache

/-!
# What every run keeps of an LRU cache

The order has every stored key, and the size is that of the entries: each
operation keeps this, the use of a key that is not stored as well. Such a key
stays in the order: `popitem` of it removes nothing, and when it is the oldest key
that is not pinned, making room never ends. `lru_law` is about the runs that touch
stored keys only.
-/

namespace MyOperator.Multimodal

open Lib List Function
open Cachetools (store)

variable {ν : Type}

namespace LRUCache

variable {base : BaseLRU} {c c' : LRUCache ν} {key x : String} {value : ν}

theorem weight_of_some (h : c.data key = some value) : c.weight key = c.getsizeof value := by
  rw [weight, h]
  rfl

theorem weight_of_none (h : c.data key = none) : c.weight key = 0 := by
  rw [weight, h]
  rfl

theorem weight_congr (hsize : c'.getsizeof = c.getsizeof) (h : c'.data x = c.data x) :
    c'.weight x = c.weight x := by
  rw [weight, weight, h, hsize]

@[simp] theorem remove_data_of_ne (h : x ≠ key) : (c.remove key value).data x = c.data x :=
  update_of_ne h _ _

@[simp] theorem remove_data_self : (c.remove key value).data key = none := update_self _ _ _

theorem length_remove_lt (h : key ∈ c.order) :
    (c.remove key value).order.length < c.order.length := by
  show (c.order.erase key).length < c.order.length
  rw [length_erase_of_mem h]
  exact Nat.sub_lt (length_pos_of_mem h) Nat.one_pos

/-- The stored keys are in the order, and the size is that of the entries. The order may have
other keys. -/
structure Balanced (c : LRUCache ν) : Prop where
  nodup : c.order.Nodup
  known : ∀ key, key ∉ c.order → c.data key = none
  currsize : c.currsize = (c.order.map c.weight).sum
  fits : c.currsize ≤ c.maxsize

/-- The entry of one key counted apart from the others, whether there is one or not. -/
theorem Balanced.currsize_eq (h : c.Balanced) (key : String) :
    c.currsize = ((c.order.erase key).map c.weight).sum + c.weight key := by
  rw [h.currsize]
  by_cases hk : key ∈ c.order
  · rw [((perm_cons_erase hk).map c.weight).sum_eq, map_cons, sum_cons, Nat.add_comm]
  · rw [erase_of_not_mem hk, weight_of_none (h.known key hk), Nat.add_zero]

theorem Balanced.sum_others (h : c.Balanced) (hsize : c'.getsizeof = c.getsizeof)
    (hdata : ∀ x, x ≠ key → c'.data x = c.data x) :
    ((c.order.erase key).map c'.weight).sum = ((c.order.erase key).map c.weight).sum := by
  rw [map_congr_left fun x hx => weight_congr hsize
    (hdata x fun he => h.nodup.not_mem_erase (he ▸ hx))]

theorem Balanced.use (h : c.Balanced) (key : String) : (c.use key).Balanced where
  nodup := nodup_useKey h.nodup
  known x hx := h.known x fun hmem => hx (mem_useKey.mpr (.inl hmem))
  currsize := by
    show c.currsize = ((useKey c.order key).map c.weight).sum
    rw [h.currsize_eq key, useKey, map_append, sum_append]
    simp
  fits := h.fits

theorem Balanced.remove (h : c.Balanced) (hv : c.data key = some value) :
    (c.remove key value).Balanced where
  nodup := h.nodup.erase key
  known x hx := by
    by_cases hne : x = key
    · rw [hne, remove_data_self]
    · rw [remove_data_of_ne hne]
      exact h.known x fun hmem => hx ((mem_erase_of_ne hne).mpr hmem)
  currsize := by
    have hcurr := h.currsize_eq key
    rw [weight_of_some hv] at hcurr
    have hrest : ((c.order.erase key).map (c.remove key value).weight).sum =
        ((c.order.erase key).map c.weight).sum := h.sum_others rfl fun x hx => remove_data_of_ne hx
    show c.currsize - c.getsizeof value = ((c.order.erase key).map (c.remove key value).weight).sum
    omega
  fits := (Nat.sub_le _ _).trans h.fits

theorem Balanced.stored (h : c.Balanced)
    (hroom : c.currsize + c.getsizeof value ≤ c.maxsize + c.weight key) :
    (store c key value).Balanced where
  nodup := nodup_useKey h.nodup
  known x hx := by
    have hx : ¬ (x ∈ c.order ∨ x = key) := fun hmem => hx (mem_useKey.mpr hmem)
    exact (update_of_ne (fun he => hx (.inr he)) _ _).trans (h.known x fun hm => hx (.inl hm))
  currsize := by
    have hcurr := h.currsize_eq key
    have hself : (store c key value).weight key = c.getsizeof value :=
      weight_of_some (c := store c key value) (update_self _ _ _)
    have hrest : ((c.order.erase key).map (store c key value).weight).sum =
        ((c.order.erase key).map c.weight).sum :=
      h.sum_others rfl fun x hx => update_of_ne hx _ _
    show c.currsize + c.getsizeof value - c.weight key =
      ((useKey c.order key).map (store c key value).weight).sum
    rw [useKey, map_append, sum_append, hrest, map_singleton, sum_singleton, hself]
    omega
  fits := by
    show c.currsize + c.getsizeof value - c.weight key ≤ c.maxsize
    omega

/-- No other key is in the order. -/
structure Tidy (c : LRUCache ν) : Prop extends c.Balanced where
  present : ∀ key ∈ c.order, (c.data key).isSome

theorem Tidy.mem_order (h : c.Tidy) : key ∈ c.order ↔ (c.data key).isSome := by
  refine ⟨h.present key, fun hkey => ?_⟩
  by_contra hnot
  rw [h.known key hnot] at hkey
  cases hkey

theorem Tidy.use (h : c.Tidy) (hk : (c.data key).isSome) : (c.use key).Tidy where
  toBalanced := h.toBalanced.use key
  present x hx := by
    rcases mem_useKey.mp hx with hx | rfl
    · exact h.present x hx
    · exact hk

theorem Tidy.remove (h : c.Tidy) (hv : c.data key = some value) : (c.remove key value).Tidy where
  toBalanced := h.toBalanced.remove hv
  present x hx := by
    rw [remove_data_of_ne fun he => h.nodup.not_mem_erase (he ▸ hx)]
    exact h.present x (mem_of_mem_erase hx)

theorem Tidy.stored (h : c.Tidy)
    (hroom : c.currsize + c.getsizeof value ≤ c.maxsize + c.weight key) :
    (store c key value).Tidy where
  toBalanced := h.toBalanced.stored hroom
  present x hx := by
    by_cases hne : x = key
    · exact hne ▸ Option.isSome_iff_exists.mpr ⟨value, update_self _ _ _⟩
    · rw [show (Cachetools.store c key value).data x = c.data x from update_of_ne hne _ _]
      exact h.present x ((mem_useKey.mp hx).resolve_right hne)

theorem Tidy.repin (h : c.Tidy) (pinned : List String) :
    ({ c with pinnedItems := pinned } : LRUCache ν).Tidy :=
  ⟨⟨h.nodup, h.known, h.currsize, h.fits⟩, h.present⟩

end LRUCache

/-- What `cachetools.LRUCache` documents besides: a missing key is an error, an item that is too
large as well, any other is stored, after calls of `popitem` for as long as it does not fit. -/
structure BaseLRU.Evicts (base : BaseLRU) : Prop extends base.Documented where
  getitem_missing {ν : Type} (c : LRUCache ν) (key : String) :
    c.data key = none → ∃ e, (base.getitem key).run c = .error (.raised e) c
  setitem_large {ν : Type} (popitem : CacheM ν (String × Option ν)) (c : LRUCache ν)
    (key : String) (value : ν) : c.maxsize < c.getsizeof value →
    ∃ e, (base.setitem popitem key value).run c = .error (.raised e) c
  setitem_fits {ν : Type} (popitem : CacheM ν (String × Option ν)) (c : LRUCache ν)
    (key : String) (value : ν) : c.getsizeof value ≤ c.maxsize → ¬ c.MakesRoom key value →
    (base.setitem popitem key value).run c = .ok () (store c key value)
  setitem_raises {ν : Type} (popitem : CacheM ν (String × Option ν)) (c c' : LRUCache ν)
    (key : String) (value : ν) (e : Stop) : c.MakesRoom key value →
    popitem.run c = .error e c' → (base.setitem popitem key value).run c = .error e c'
  setitem_evicts {ν : Type} (popitem : CacheM ν (String × Option ν)) (c c' : LRUCache ν)
    (key : String) (value : ν) (item : String × Option ν) : c.MakesRoom key value →
    popitem.run c = .ok item c' → c'.order.length < c.order.length →
    c'.getsizeof = c.getsizeof → c'.maxsize = c.maxsize →
    c'.data key = none ∨ c'.data key = c.data key →
    (base.setitem popitem key value).run c = (base.setitem popitem key value).run c'

theorem cachetools_evicts : cachetools.Evicts where
  toDocumented := cachetools_documented
  getitem_missing c key h := ⟨.KeyError key, by
    show Cachetools.getitem key c = _
    rw [Cachetools.getitem, h]⟩
  setitem_large _ _ _ _ h := ⟨_, if_pos h⟩
  setitem_fits _ _ _ _ := Cachetools.setitem_fits
  setitem_raises _ _ _ _ _ _ h hpop := Cachetools.setitem_raises h hpop
  setitem_evicts _ _ _ _ _ _ h hpop := Cachetools.setitem_evicts h hpop

namespace LRUCache

variable {base : BaseLRU} {c c' : LRUCache ν} {key : String} {value : ν}

/-- The calls of the property. -/
inductive Call (ν : Type)
  | set (key : String) (value : ν)
  | get (key : String)
  | touch (key : String)
  | pop (key : String)
  | pin (key : String)
  | delete (key : String)
  | removeOldest (removePinned : Bool)

def Call.run (base : BaseLRU) : Call ν → CacheM ν Unit
  | .set key value => setitem base key value
  | .get key => discard (get? base key)
  | .touch key => LRUCache.touch key
  | .pop key => discard (LRUCache.pop base key)
  | .pin key => LRUCache.pin key
  | .delete key => delitem base key
  | .removeOldest removePinned => LRUCache.removeOldest base removePinned

/-- The cache after a call; the caller goes on after an exception. -/
def next (base : BaseLRU) (c : LRUCache ν) (call : Call ν) : LRUCache ν :=
  match (call.run base).run c with
  | .ok _ c' => c'
  | .error _ c' => c'

/-- The law of the property, in one state. -/
structure LRULaw (base : BaseLRU) (c : LRUCache ν) : Prop where
  order : c.order.Nodup ∧ ∀ key, key ∈ c.order ↔ (c.data key).isSome
  size : c.currsize = (c.order.map c.weight).sum ∧ c.currsize ≤ c.maxsize
  popitem : ∀ older key newer, c.order = older ++ key :: newer →
    (∀ k ∈ older, k ∈ c.pinnedItems) → key ∉ c.pinnedItems →
    ∃ value, c.data key = some value ∧
      (popitem base).run c = .ok (key, some value) (c.remove key value)
  allPinned : (∀ key ∈ c.order, key ∈ c.pinnedItems) →
    ∃ e, (LRUCache.popitem base).run c = .error (.raised (.RuntimeError e)) c
  terminates : ∀ key value, c.getsizeof value ≤ c.maxsize →
    ∀ c', (setitem base key value).run c ≠ .error .runsForever c'

/-- Every touch of the run is of a key that is stored then. -/
def TouchesStored (base : BaseLRU) : LRUCache ν → List (Call ν) → Prop
  | _, [] => True
  | c, call :: calls => (∀ key, call = .touch key → (c.data key).isSome) ∧
      TouchesStored base (next base c call) calls

/-- The call ends, and leaves the cache tidy. -/
def Ends {α : Type} : EStateM.Result Stop (LRUCache ν) α → Prop
  | .ok _ c => c.Tidy
  | .error (.raised _) c => c.Tidy
  | .error _ _ => False

theorem Ends.discard {α : Type} {x : CacheM ν α} (h : Ends (x.run c)) :
    Ends ((discard x).run c) := by
  show Ends ((do let _ ← x; pure ()).run c)
  rw [EStateM.run_bind]
  revert h
  cases x.run c with
  | ok a c' => exact id
  | error e c' => cases e <;> exact id

theorem popitem_allPinned (hall : ∀ key ∈ c.order, key ∈ c.pinnedItems) :
    ∃ e, (popitem base).run c = .error (.raised (.RuntimeError e)) c := by
  have hfind : c.order.find? (fun key => decide (key ∉ c.pinnedItems)) = none :=
    find?_eq_none.mpr fun key hkey => by simpa using hall key hkey
  rw [popitem, run_bind_ok (EStateM.run_get c), hfind]
  exact ⟨_, rfl⟩

section

variable (hb : base.Evicts) (h : c.Tidy)
include hb h

theorem Tidy.get (key : String) : Ends ((get? base key).run c) := by
  cases hv : c.data key with
  | none => exact get?_none hv ▸ h
  | some value => exact get?_some hb.toDocumented hv ▸ h.use (by rw [hv]; rfl)

theorem Tidy.pop (key : String) : Ends ((pop base key).run c) := by
  cases hv : c.data key with
  | none =>
    have hc : ¬ c.contains key = true := by rw [contains, hv]; exact Bool.false_ne_true
    rw [LRUCache.pop, run_bind_ok (EStateM.run_get c), if_neg hc]
    exact h
  | some value => exact pop_eq hb.toDocumented h.nodup hv ▸ (h.remove hv).repin _

theorem Tidy.delitem (key : String) : Ends ((delitem base key).run c) := by
  cases hv : c.data key with
  | none =>
    obtain ⟨e, he⟩ := hb.getitem_missing c key hv
    rw [LRUCache.delitem, EStateM.run_bind, he]
    exact h
  | some value => exact delitem_eq hb.toDocumented h.nodup hv ▸ (h.remove hv).repin _

omit hb in
theorem Tidy.pin (key : String) : Ends ((pin key).run c) := by
  rw [LRUCache.pin, run_bind_ok (EStateM.run_get c)]
  split
  · exact h.repin _
  · exact h

/-- The two ways `popitem` ends. -/
theorem Tidy.popitem : (∃ e, (popitem base).run c = .error (.raised (.RuntimeError e)) c) ∨
    ∃ key value, c.data key = some value ∧
      (LRUCache.popitem base).run c = .ok (key, some value) (c.remove key value) := by
  cases hfind : c.order.find? fun key => decide (key ∉ c.pinnedItems) with
  | none =>
    exact .inl (popitem_allPinned fun key hkey => by simpa using find?_eq_none.mp hfind key hkey)
  | some key =>
    obtain ⟨hpin, older, newer, horder, hold⟩ := find?_eq_some_iff_append.mp hfind
    obtain ⟨value, hv⟩ := Option.isSome_iff_exists.mp (h.present key (by simp [horder]))
    exact .inr ⟨key, value, hv, popitem_eq hb.toDocumented h.nodup horder
      (fun k hk => by simpa using hold k hk) (by simpa using hpin) hv⟩

theorem Tidy.setitem (key : String) (value : ν) : Ends ((setitem base key value).run c) := by
  by_cases hlarge : c.maxsize < c.getsizeof value
  · obtain ⟨e, he⟩ := hb.setitem_large (LRUCache.popitem base) c key value hlarge
    exact he ▸ h
  have hsize : c.getsizeof value ≤ c.maxsize := Nat.not_lt.mp hlarge
  clear hlarge
  -- every `popitem` shortens the order
  induction hn : c.order.length using Nat.strong_induction_on generalizing c with
  | _ n ih =>
    by_cases hmake : c.MakesRoom key value
    · rcases h.popitem hb with ⟨e, he⟩ | ⟨lru, old, hv, hpop⟩
      · exact hb.setitem_raises _ c c key value _ hmake he ▸ h
      · have hmem : lru ∈ c.order := h.mem_order.mpr (by rw [hv]; rfl)
        have hdata : (c.remove lru old).data key = none ∨
            (c.remove lru old).data key = c.data key := by
          by_cases hne : key = lru
          · exact .inl (hne ▸ remove_data_self)
          · exact .inr (remove_data_of_ne hne)
        rw [LRUCache.setitem,
          hb.setitem_evicts _ c _ key value _ hmake hpop (length_remove_lt hmem) rfl rfl hdata]
        exact ih _ (hn ▸ length_remove_lt hmem) (h.remove hv) hsize rfl
    · have hroom : c.currsize + c.getsizeof value ≤ c.maxsize + c.weight key := by
        have := h.fits
        by_contra hnot
        exact hmake ⟨.inr (by omega), hsize, by omega⟩
      exact hb.setitem_fits _ c key value hsize hmake ▸ h.stored hroom

theorem Tidy.removeOldest (removePinned : Bool) : Ends ((removeOldest base removePinned).run c) := by
  rw [LRUCache.removeOldest, run_bind_ok (EStateM.run_get c)]
  split
  · exact h
  · split
    · split
      · exact (h.pop hb _).discard
      · refine Ends.discard ?_
        rcases h.popitem hb with ⟨e, he⟩ | ⟨key, value, hv, hpop⟩
        · exact he ▸ h
        · exact hpop ▸ h.remove hv
    · exact h

theorem Tidy.law : LRULaw base c where
  order := ⟨h.nodup, fun _ => h.mem_order⟩
  size := ⟨h.currsize, h.fits⟩
  popitem older key newer horder hpinned hpin := by
    obtain ⟨value, hv⟩ := Option.isSome_iff_exists.mp (h.present key (by simp [horder]))
    exact ⟨value, hv, popitem_eq hb.toDocumented h.nodup horder hpinned hpin hv⟩
  allPinned := popitem_allPinned
  terminates key value _ c' heq := by
    have := h.setitem hb key value
    rw [heq] at this
    exact this

theorem Tidy.call (call : Call ν) (hcall : ∀ key, call = .touch key → (c.data key).isSome) :
    (next base c call).Tidy := by
  have hends : Ends ((call.run base).run c) := by
    cases call with
    | set key value => exact h.setitem hb key value
    | get key => exact (h.get hb key).discard
    | touch key => exact h.use (hcall key rfl)
    | pop key => exact (h.pop hb key).discard
    | pin key => exact h.pin key
    | delete key => exact h.delitem hb key
    | removeOldest removePinned => exact h.removeOldest hb removePinned
  unfold next
  split
  · next heq =>
    rw [heq] at hends
    exact hends
  · next e c' heq =>
    rw [heq] at hends
    cases e with
    | raised e => exact hends
    | expectedCachedItem mmHash => exact hends.elim
    | runsForever => exact hends.elim

theorem Tidy.run (calls : List (Call ν)) (ht : TouchesStored base c calls) :
    (calls.foldl (next base) c).Tidy := by
  induction calls generalizing c with
  | nil => exact h
  | cons call calls ih => exact ih (h.call hb call ht.1) ht.2

end

end LRUCache

open LRUCache

/-- In a run that touches stored keys only, the law holds in every state. -/
theorem lru_law {base : BaseLRU} (hb : base.Evicts) (getsizeof : ν → Nat) (maxsize : Nat)
    (calls : List (Call ν))
    (ht : TouchesStored base { getsizeof := getsizeof, maxsize := maxsize } calls) :
    LRULaw base (calls.foldl (next base) { getsizeof := getsizeof, maxsize := maxsize }) := by
  have hnew : Tidy ({ getsizeof := getsizeof, maxsize := maxsize } : LRUCache ν) :=
    ⟨⟨nodup_nil, fun _ _ => rfl, rfl, Nat.zero_le _⟩, fun _ hx => absurd hx not_mem_nil⟩
  exact (hnew.run hb calls ht).law hb

/-- A stored key is used and pinned, and room is made for the third. -/
theorem lru_law_pinned : LRULaw cachetools
    ([.set "a" 1, .set "b" 1, .touch "a", .pin "a", .set "c" 1].foldl (next cachetools)
      { getsizeof := id, maxsize := 2 }) :=
  lru_law cachetools_evicts id 2 _
    ⟨nofun, nofun, fun _ h => by cases h; rfl, nofun, nofun, trivial⟩

/-- Two new items that do not fit together, both touched before they are stored. -/
theorem touched_key_never_leaves : ¬ ∀ (calls : List (Call Nat)) (maxsize : Nat),
    LRULaw cachetools (calls.foldl (next cachetools) { getsizeof := id, maxsize := maxsize }) := by
  intro h
  exact (h [.touch "a", .touch "b", .get "a", .set "a" 1, .get "b"] 1).terminates "b" 1
    (Nat.le_refl 1) _ rfl

end MyOperator.Multimodal
