import MyOperator.Multimodal.CacheLaw
import MyOperator.Multimodal.MirrorCache

/-!
# What a request does to a cache

A request touches its keys, so that they are newer than all others, and then
looks each item up and stores the missing ones. As long as the items of the
request fit into the cache together, only older keys leave, oldest first, and
every lookup finds its key or an item to store: `updates_spec` says which entries
the cache has afterwards.
-/

namespace MyOperator.Multimodal

open Lib List Function

variable {ν ι ο : Type}

namespace LRUCache

/-- A cache between two lookups of a request: `mid` are the keys of the request, newer than all
others; the older keys are all in the cache. -/
structure Serving (c : LRUCache ν) (older mid : List String) : Prop where
  order : c.order = older ++ mid
  nodup : (older ++ mid).Nodup
  present : ∀ key ∈ older, (c.data key).isSome
  known : ∀ key, key ∉ older ++ mid → c.data key = none
  currsize : c.currsize = (older.map c.weight).sum + (mid.map c.weight).sum
  fits : c.currsize ≤ c.maxsize
  pinned : c.pinnedItems = []

variable {base : BaseLRU} {c c' : LRUCache ν} {older mid : List String} {key x : String} {value : ν}

@[simp] theorem insert_data_of_ne (h : x ≠ key) : (c.insert key value).data x = c.data x :=
  update_of_ne h _ _

@[simp] theorem insert_data_self : (c.insert key value).data key = some value := update_self _ _ _

theorem Serving.not_mem_of_mid (h : c.Serving older mid) (hk : key ∈ mid) : key ∉ older :=
  fun ho => (nodup_append.mp h.nodup).2.2 key ho key hk rfl

theorem Serving.balanced (h : c.Serving older mid) : c.Balanced where
  nodup := h.order ▸ h.nodup
  known x hx := h.known x (h.order ▸ hx)
  currsize := by rw [h.currsize, h.order, map_append, sum_append]
  fits := h.fits

theorem Balanced.serving (h : c.Balanced) (horder : c.order = older ++ mid)
    (hpresent : ∀ key ∈ older, (c.data key).isSome) (hpin : c.pinnedItems = []) :
    c.Serving older mid where
  order := horder
  nodup := horder ▸ h.nodup
  present := hpresent
  known x hx := h.known x (horder ▸ hx)
  currsize := by rw [h.currsize, horder, map_append, sum_append]
  fits := h.fits
  pinned := hpin

theorem Serving.use (h : c.Serving older mid) (hk : key ∈ mid) :
    (c.use key).Serving older (useKey mid key) := by
  refine (h.balanced.use key).serving ?_ h.present h.pinned
  show useKey c.order key = _
  rw [h.order, useKey_append (h.not_mem_of_mid hk)]

theorem Serving.remove (h : c.Serving (key :: older) mid) (hv : c.data key = some value) :
    (c.remove key value).Serving older mid := by
  refine (h.balanced.remove hv).serving ?_ (fun x hx => ?_) h.pinned
  · show c.order.erase key = _
    rw [h.order, cons_append, erase_cons_head]
  · have hne : x ≠ key := fun he => (nodup_cons.mp h.nodup).1 (he ▸ mem_append_left mid hx)
    rw [remove_data_of_ne hne]
    exact h.present x (mem_cons_of_mem key hx)

theorem Serving.insert (h : c.Serving older mid) (hk : key ∈ mid) (hnone : c.data key = none)
    (hroom : c.currsize + c.getsizeof value ≤ c.maxsize) :
    (c.insert key value).Serving older (useKey mid key) := by
  have hbalanced : (c.insert key value).Balanced :=
    Cachetools.store_eq_insert hnone ▸ h.balanced.stored (by omega)
  refine hbalanced.serving ?_ (fun x hx => ?_) h.pinned
  · show useKey c.order key = _
    rw [h.order, useKey_append (h.not_mem_of_mid hk)]
  · have hne : x ≠ key := fun he => h.not_mem_of_mid hk (he ▸ hx)
    rw [insert_data_of_ne hne]
    exact h.present x hx

/-- What storing a missing item of the request does: the oldest keys leave until there is room. -/
structure Stored (c c' : LRUCache ν) (mid : List String) (key : String) (value : ν)
    (kept : List String) : Prop where
  serving : c'.Serving kept (useKey mid key)
  getsizeof : c'.getsizeof = c.getsizeof
  maxsize : c'.maxsize = c.maxsize
  data_self : c'.data key = some value
  data_of_mem : ∀ x ∈ kept ++ mid, x ≠ key → c'.data x = c.data x

theorem Serving.weight_remove (h : c.Serving (key :: older) mid) (hx : x ∈ older ++ mid) :
    (c.remove key value).weight x = c.weight x :=
  weight_congr rfl (remove_data_of_ne fun he => (nodup_cons.mp h.nodup).1 (he ▸ hx))

theorem Serving.setitem_full (h : c.Serving (x :: older) mid) (hb : base.Documented)
    (hnone : c.data key = none) (hsize : c.getsizeof value ≤ c.maxsize)
    (hfull : c.maxsize < c.currsize + c.getsizeof value) {oldest : ν}
    (holdest : c.data x = some oldest) (hne : key ≠ x) :
    (setitem base key value).run c = (setitem base key value).run (c.remove x oldest) := by
  have hnodup : c.order.Nodup := h.order ▸ h.nodup
  have horder : c.order = [] ++ x :: (older ++ mid) := h.order
  have hpop := popitem_eq hb hnodup horder nofun (h.pinned ▸ not_mem_nil) holdest
  have hmem : x ∈ c.order := h.order ▸ mem_cons_self
  exact hb.setitem_full (popitem base) c _ key value _ hnone hsize hfull hpop
    (length_remove_lt hmem) ((remove_data_of_ne hne).trans hnone) rfl rfl

/-- `__setitem__` of a missing item, when the items of the request fit into the cache. -/
theorem setitem_spec (value : ν) (hb : base.Documented) (h : c.Serving older mid) (hk : key ∈ mid)
    (hnone : c.data key = none) (hroom : (mid.map c.weight).sum + c.getsizeof value ≤ c.maxsize) :
    ∃ c', (setitem base key value).run c = .ok () c' ∧
      Stored c c' mid key value
        (keepNewest c.weight (c.maxsize - ((mid.map c.weight).sum + c.getsizeof value)) older) := by
  induction older generalizing c with
  | nil =>
    have hfree : c.currsize + c.getsizeof value ≤ c.maxsize := by
      rw [h.currsize]
      simpa using hroom
    exact ⟨c.insert key value, hb.setitem_room _ c key value hnone hfree,
      h.insert hk hnone hfree, rfl, rfl, insert_data_self, fun x _ hne => insert_data_of_ne hne⟩
  | cons oldest older ih =>
    have hcurr := h.currsize
    by_cases hfree : c.currsize + c.getsizeof value ≤ c.maxsize
    · rw [keepNewest_of_le (by omega)]
      exact ⟨c.insert key value, hb.setitem_room _ c key value hnone hfree,
        h.insert hk hnone hfree, rfl, rfl, insert_data_self, fun x _ hne => insert_data_of_ne hne⟩
    · -- the oldest entry leaves, and the induction goes on with the rest
      obtain ⟨value₀, hvalue₀⟩ := Option.isSome_iff_exists.mp (h.present oldest mem_cons_self)
      have hfull : c.maxsize < c.currsize + c.getsizeof value := not_le.mp hfree
      have hkey : key ≠ oldest := fun he =>
        (nodup_cons.mp h.nodup).1 (he ▸ mem_append_right older hk)
      have hstep := h.setitem_full hb hnone (by omega) hfull hvalue₀ hkey
      have hmid : mid.map (c.remove oldest value₀).weight = mid.map c.weight :=
        map_congr_left fun x hx => h.weight_remove (mem_append_right older hx)
      have hkept : keepNewest (c.remove oldest value₀).weight
          (c.maxsize - ((mid.map c.weight).sum + c.getsizeof value)) older =
          keepNewest c.weight (c.maxsize - ((mid.map c.weight).sum + c.getsizeof value))
            (oldest :: older) := by
        rw [keepNewest_of_lt (by omega)]
        exact keepNewest_congr fun x hx => h.weight_remove (mem_append_left mid hx)
      obtain ⟨c', hrun, hstored⟩ := ih (h.remove hvalue₀)
        (by rw [remove_data_of_ne hkey, hnone]) (by rw [hmid]; exact hroom)
      rw [hmid] at hstored
      rw [← hkept]
      refine ⟨c', hstep.trans hrun, hstored.serving, hstored.getsizeof, hstored.maxsize,
        hstored.data_self, fun x hx hne => ?_⟩
      rw [hstored.data_of_mem x hx hne]
      refine remove_data_of_ne fun he => (nodup_cons.mp h.nodup).1 (he ▸ ?_)
      rcases mem_append.mp hx with hx | hx
      · exact mem_append_left mid (mem_of_mem_keepNewest hx)
      · exact mem_append_right older hx

end LRUCache

/-- The item that comes first with a key. -/
def firstItem (L : List (String × Option ι)) (key : String) : Option ι :=
  (L.find? fun e => e.1 = key).bind Prod.snd

variable {L : List (String × Option ι)} {e : String × Option ι} {key x : String}

theorem firstItem_cons_self : firstItem (e :: L) e.1 = e.2 := by
  simp [firstItem]

theorem firstItem_cons_of_ne (h : e.1 ≠ x) : firstItem (e :: L) x = firstItem L x := by
  simp [firstItem, h]

theorem firstItem_of_not_mem (h : ∀ e ∈ L, e.1 ≠ x) : firstItem L x = none := by
  have hfind : L.find? (fun e => e.1 = x) = none := find?_eq_none.mpr fun e he => by
    simpa using h e he
  rw [firstItem, hfind]
  rfl

namespace LRUCache

/-- The entry of a key after the request: the one before, or what is stored for the first item. -/
def served (c : LRUCache ν) (store : ι → ν) (L : List (String × Option ι)) (key : String) :
    Option ν := (c.data key).or ((firstItem L key).map store)

/-- Its size. -/
def servedWeight (c : LRUCache ν) (store : ι → ν) (L : List (String × Option ι)) (key : String) :
    Nat := (c.served store L key).elim 0 c.getsizeof

/-- What the lookups of a request do. `kept` are the older keys that stay. -/
structure Updated (c c' : LRUCache ν) (mid : List String) (store : ι → ν) (miss : ι → ο)
    (L : List (String × Option ι)) (kept : List String) (outs : List ο) : Prop where
  serving : ∃ mid', mid'.Perm mid ∧ c'.Serving kept mid'
  getsizeof : c'.getsizeof = c.getsizeof
  maxsize : c'.maxsize = c.maxsize
  data : ∀ x ∈ kept ++ mid, c'.data x = c.served store L x
  length : outs.length = L.length
  first : ∀ key item, c.data key = none → L.find? (fun e => e.1 = key) = some (key, some item) →
    (L.zip outs).find? (fun p => p.1.1 = key) = some ((key, some item), miss item)

variable {base : BaseLRU} {c c' c₁ : LRUCache ν} {older mid : List String} {value : ν}
  {store : ι → ν} {hit : ν → ο} {miss : ι → ο}

theorem served_of_some (h : c.data x = some value) : c.served store L x = some value := by
  rw [served, h]
  rfl

theorem weight_le_servedWeight : c.weight x ≤ c.servedWeight store L x := by
  cases h : c.data x with
  | none =>
    rw [weight_of_none h]
    exact Nat.zero_le _
  | some value =>
    rw [servedWeight, served_of_some h, weight_of_some h]
    exact le_rfl

theorem served_cons_of_some (h : c.data e.1 = some value) :
    c.served store (e :: L) x = c.served store L x := by
  by_cases hx : e.1 = x
  · rw [served_of_some (hx ▸ h), served_of_some (hx ▸ h)]
  · rw [served, served, firstItem_cons_of_ne hx]

variable {item : ι}

/-- Once the first item is stored, the rest of the items gives the same entries. -/
theorem served_of_stored {kept : List String} (he : e.2 = some item) (hnone : c.data e.1 = none)
    (h : Stored c c₁ mid e.1 (store item) kept) (hx : x ∈ kept ++ mid) :
    c₁.served store L x = c.served store (e :: L) x := by
  by_cases hxe : x = e.1
  · rw [hxe, served_of_some h.data_self, served, hnone, firstItem_cons_self, he]
    rfl
  · rw [served, served, h.data_of_mem x hx hxe, firstItem_cons_of_ne (Ne.symm hxe)]

theorem getAndUpdate_hit (hb : base.Documented) {mmItem : Option ι} (h : c.data key = some value) :
    (getAndUpdate base store hit miss mmItem key).run c = .ok (hit value) (c.use key) := by
  exact run_bind_ok (get?_some hb h)

theorem getAndUpdate_miss (h : c.data key = none)
    (hset : (setitem base key (store item)).run c = .ok () c') :
    (getAndUpdate base store hit miss (some item) key).run c = .ok (miss item) c' := by
  exact (run_bind_ok (get?_none h)).trans (run_bind_ok hset)

theorem run_mapM_cons {α : Type} {f : α → CacheM ν ο} {a : α} {l : List α} {o : ο} {os : List ο}
    (ha : (f a).run c = .ok o c₁) (hl : (l.mapM f).run c₁ = .ok os c') :
    ((a :: l).mapM f).run c = .ok (o :: os) c' := by
  rw [mapM_cons, run_bind_ok ha, run_bind_ok hl]
  rfl

theorem sum_weight_add_le (store : ι → ν) (L : List (String × Option ι)) (hk : e.1 ∈ mid)
    (he : e.2 = some item) (hnone : c.data e.1 = none) :
    (mid.map c.weight).sum + c.getsizeof (store item) ≤
      (mid.map (c.servedWeight store (e :: L))).sum := by
  have hperm := perm_cons_erase hk
  have hself : c.servedWeight store (e :: L) e.1 = c.getsizeof (store item) := by
    rw [servedWeight, served, hnone, firstItem_cons_self, he]
    rfl
  have hrest : ((mid.erase e.1).map c.weight).sum ≤
      ((mid.erase e.1).map (c.servedWeight store (e :: L))).sum :=
    sum_le_sum fun x _ => weight_le_servedWeight
  rw [(hperm.map c.weight).sum_eq, (hperm.map (c.servedWeight store (e :: L))).sum_eq]
  simp only [map_cons, sum_cons, weight_of_none hnone]
  omega

theorem sum_served_of_stored {kept : List String} (hk : e.1 ∈ mid) (he : e.2 = some item)
    (hnone : c.data e.1 = none) (h : Stored c c₁ mid e.1 (store item) kept) :
    ((useKey mid e.1).map (c₁.servedWeight store L)).sum =
      (mid.map (c.servedWeight store (e :: L))).sum := by
  have hcongr : mid.map (c₁.servedWeight store L) = mid.map (c.servedWeight store (e :: L)) :=
    map_congr_left fun x hx => by
      rw [servedWeight, servedWeight, h.getsizeof,
        served_of_stored he hnone h (mem_append_right kept hx)]
  rw [(((useKey_perm hk)).map (c₁.servedWeight store L)).sum_eq, hcongr]

theorem keepNewest_of_stored {room room' : Nat}
    (h : Stored c c₁ mid e.1 (store item) (keepNewest c.weight room older)) (hk : e.1 ∈ mid)
    (hle : room' ≤ room) :
    keepNewest c₁.weight room' (keepNewest c.weight room older) =
      keepNewest c.weight room' older := by
  have hnodup : (keepNewest c.weight room older ++ mid).Nodup :=
    ((useKey_perm hk).append_left _).nodup_iff.mp h.serving.nodup
  have hcongr : keepNewest c₁.weight room' (keepNewest c.weight room older) =
      keepNewest c.weight room' (keepNewest c.weight room older) := by
    refine keepNewest_congr fun x hx => ?_
    have hne : x ≠ e.1 := fun he => (nodup_append.mp hnodup).2.2 x hx e.1 hk he
    exact weight_congr h.getsizeof (h.data_of_mem x (mem_append_left mid hx) hne)
  rw [hcongr, keepNewest_keepNewest hle]

theorem first_cons {o : ο} {outs : List ο}
    (ho : ∀ item, c.data e.1 = none → e.2 = some item → o = miss item)
    (h : ∀ key item, key ≠ e.1 → c.data key = none →
      L.find? (fun e => e.1 = key) = some (key, some item) →
      (L.zip outs).find? (fun p => p.1.1 = key) = some ((key, some item), miss item))
    (key : String) (item : ι) (hnone : c.data key = none)
    (hfind : (e :: L).find? (fun e => e.1 = key) = some (key, some item)) :
    ((e :: L).zip (o :: outs)).find? (fun p => p.1.1 = key) =
      some ((key, some item), miss item) := by
  rw [zip_cons_cons]
  by_cases hk : e.1 = key
  · rw [find?_cons_of_pos (by simpa using hk)] at hfind ⊢
    have he : e = (key, some item) := Option.some.inj hfind
    rw [ho item (hk ▸ hnone) (by rw [he]), he]
  · rw [find?_cons_of_neg (by simpa using hk)] at hfind ⊢
    exact h key item (Ne.symm hk) hnone hfind

theorem updates_spec (hit : ν → ο) (miss : ι → ο) (hb : base.Documented) (h : c.Serving older mid)
    (hL : ∀ e ∈ L, e.1 ∈ mid) (hitem : ∀ e ∈ L, c.data e.1 = none → (firstItem L e.1).isSome)
    (hroom : (mid.map (c.servedWeight store L)).sum ≤ c.maxsize) :
    ∃ outs c', (L.mapM fun e => getAndUpdate base store hit miss e.2 e.1).run c = .ok outs c' ∧
      Updated c c' mid store miss L
        (keepNewest c.weight (c.maxsize - (mid.map (c.servedWeight store L)).sum) older) outs := by
  induction L generalizing c older mid with
  | nil =>
    have hserved : ∀ x, c.served store [] x = c.data x := fun x => Option.or_none
    have hweight : c.servedWeight store [] = c.weight := funext fun x => by
      rw [servedWeight, hserved, weight]
    have hcurr := h.currsize
    have hfits := h.fits
    rw [hweight, keepNewest_of_le (by omega)]
    exact ⟨[], c, rfl, ⟨mid, .refl mid, h⟩, rfl, rfl, fun x _ => (hserved x).symm, rfl,
      fun key item _ hfind => by cases hfind⟩
  | cons e L ih =>
    have hk : e.1 ∈ mid := hL e mem_cons_self
    have hL' : ∀ f ∈ L, f.1 ∈ useKey mid e.1 := fun f hf =>
      mem_useKey.mpr (.inl (hL f (mem_cons_of_mem e hf)))
    have hperm : (useKey mid e.1).Perm mid := useKey_perm hk
    cases hdata : c.data e.1 with
    | some value =>
      -- a hit renews the key and changes no entry
      have hserved : c.servedWeight store (e :: L) = (c.use e.1).servedWeight store L :=
        funext fun x => by
          rw [servedWeight, served_cons_of_some hdata]
          rfl
      have hsum : ((useKey mid e.1).map (c.servedWeight store (e :: L))).sum =
          (mid.map (c.servedWeight store (e :: L))).sum := (hperm.map _).sum_eq
      have hitem' : ∀ f ∈ L, (c.use e.1).data f.1 = none → (firstItem L f.1).isSome := by
        intro f hf hnone
        have hne : e.1 ≠ f.1 := fun he => by
          rw [he] at hdata
          cases hdata.symm.trans hnone
        rw [← firstItem_cons_of_ne hne]
        exact hitem f (mem_cons_of_mem e hf) hnone
      obtain ⟨outs, c', hrun, hup⟩ := ih (h.use hk) hL' hitem' (by
        rw [← hserved, hsum]
        exact hroom)
      rw [← hserved, hsum] at hup
      refine ⟨hit value :: outs, c', run_mapM_cons (getAndUpdate_hit hb hdata) hrun, ?_⟩
      obtain ⟨mid', hmid', hserving⟩ := hup.serving
      refine ⟨⟨mid', hmid'.trans hperm, hserving⟩, hup.getsizeof, hup.maxsize, ?_,
        congrArg Nat.succ hup.length, ?_⟩
      · intro x hx
        rw [served_cons_of_some hdata]
        exact hup.data x ((hperm.append_left _).mem_iff.mpr hx)
      · exact first_cons (fun item hnone _ => by cases hdata.symm.trans hnone)
          fun key item _ hnone hfind => hup.first key item hnone hfind
    | none =>
      -- a miss stores the item, after the oldest keys have made room
      obtain ⟨item, he⟩ : ∃ item, e.2 = some item := by
        have := hitem e mem_cons_self hdata
        rw [firstItem_cons_self] at this
        exact Option.isSome_iff_exists.mp this
      have hle := sum_weight_add_le store L hk he hdata
      obtain ⟨c₁, hset, hst⟩ := setitem_spec (store item) hb h hk hdata (by omega)
      have hsum := sum_served_of_stored (L := L) hk he hdata hst
      have hkept := keepNewest_of_stored (e := e) hst hk (Nat.sub_le_sub_left hle c.maxsize)
      have hnone₁ : ∀ x ∈ mid, x ≠ e.1 → c₁.data x = c.data x := fun x hx =>
        hst.data_of_mem x (mem_append_right _ hx)
      have hitem' : ∀ f ∈ L, c₁.data f.1 = none → (firstItem L f.1).isSome := by
        intro f hf hnone
        have hne : f.1 ≠ e.1 := fun hfe => by
          rw [hfe, hst.data_self] at hnone
          cases hnone
        rw [hnone₁ f.1 (hL f (mem_cons_of_mem e hf)) hne] at hnone
        rw [← firstItem_cons_of_ne (Ne.symm hne)]
        exact hitem f (mem_cons_of_mem e hf) hnone
      obtain ⟨outs, c', hrun, hup⟩ := ih hst.serving hL' hitem' (by
        rw [hsum, hst.maxsize]
        exact hroom)
      rw [hsum, hst.maxsize, hkept] at hup
      obtain ⟨ok, hok⟩ := e
      cases he
      refine ⟨miss item :: outs, c', run_mapM_cons (getAndUpdate_miss hdata hset) hrun, ?_⟩
      obtain ⟨mid', hmid', hserving⟩ := hup.serving
      refine ⟨⟨mid', hmid'.trans hperm, hserving⟩, hup.getsizeof.trans hst.getsizeof,
        hup.maxsize.trans hst.maxsize, ?_, congrArg Nat.succ hup.length, ?_⟩
      · intro x hx
        rw [hup.data x ((hperm.append_left _).mem_iff.mpr hx)]
        refine served_of_stored rfl hdata hst ?_
        rcases mem_append.mp hx with hx | hx
        · rw [← hkept] at hx
          exact mem_append_left mid (mem_of_mem_keepNewest hx)
        · exact mem_append_right _ hx
      · refine first_cons (fun item' _ he' => by cases he'; rfl)
          fun key item' hne hnone hfind => hup.first key item' ?_ hfind
        have hmem : key ∈ mid := by
          have hmem := mem_of_find?_eq_some hfind
          exact hL _ (mem_cons_of_mem _ hmem)
        rw [hnone₁ key hmem hne, hnone]

/-- A cache between two requests: the order has the keys of the cache and no other. -/
def Resting (c : LRUCache ν) : Prop := c.Serving c.order []

theorem Serving.resting (h : c.Serving older mid) (hmid : ∀ x ∈ mid, (c.data x).isSome) :
    c.Resting := by
  refine h.balanced.serving (append_nil _).symm (fun x hx => ?_) h.pinned
  rw [h.order] at hx
  exact (mem_append.mp hx).elim (h.present x) (hmid x)

theorem Resting.isSome_iff (h : c.Resting) : (c.data x).isSome ↔ x ∈ c.order :=
  (Tidy.mem_order ⟨h.balanced, h.present⟩).symm

theorem Balanced.uses (h : c.Balanced) (ks : List String) :
    ({ c with order := ks.foldl useKey c.order } : LRUCache ν).Balanced := by
  induction ks generalizing c with
  | nil => exact h
  | cons k ks ih => exact ih (h.use k)

theorem Resting.touched (h : c.Resting) (ks : List String) :
    ({ c with order := ks.foldl useKey c.order } : LRUCache ν).Serving
      (c.order.filter fun x => decide (x ∉ ks)) ks.dedup :=
  (h.balanced.uses ks).serving (foldl_useKey h.balanced.nodup ks)
    (fun x hx => h.present x (mem_of_mem_filter hx)) h.pinned

theorem run_touchAll (ks : List String) :
    (touchAll ks).run c = .ok () { c with order := ks.foldl useKey c.order } := by
  induction ks generalizing c with
  | nil => rfl
  | cons k ks ih => exact run_bind_ok (x := touch k) rfl |>.trans ih

/-- The keys of the cache that the request does not use, oldest first. -/
def others (c : LRUCache ν) (L : List (String × Option ι)) : List String :=
  c.order.filter fun x => decide (x ∉ L.map Prod.fst)

/-- The size of the request's entries together. -/
def total (c : LRUCache ν) (store : ι → ν) (L : List (String × Option ι)) : Nat :=
  ((L.map Prod.fst).dedup.map (c.servedWeight store L)).sum

/-- The other keys that stay. -/
def kept (c : LRUCache ν) (store : ι → ν) (L : List (String × Option ι)) : List String :=
  keepNewest c.weight (c.maxsize - c.total store L) (c.others L)

/-- What a request does to a cache at rest. -/
structure Completed (c c' : LRUCache ν) (store : ι → ν) (miss : ι → ο)
    (L : List (String × Option ι)) (outs : List ο) : Prop where
  resting : c'.Resting
  getsizeof : c'.getsizeof = c.getsizeof
  maxsize : c'.maxsize = c.maxsize
  present : ∀ e ∈ L, (c'.data e.1).isSome
  data_of_mem : ∀ e ∈ L, c'.data e.1 = c.served store L e.1
  data_of_not_mem : ∀ x, x ∉ L.map Prod.fst →
    c'.data x = if x ∈ c.kept store L then c.data x else none
  length : outs.length = L.length
  first : ∀ key item, c.data key = none → L.find? (fun e => e.1 = key) = some (key, some item) →
    (L.zip outs).find? (fun p => p.1.1 = key) = some ((key, some item), miss item)

/-- A request whose items fit into the cache together, each missing one with an item to store. -/
theorem request_spec (hit : ν → ο) (miss : ι → ο) (hb : base.Documented) (h : c.Resting)
    (hitem : ∀ e ∈ L, c.data e.1 = none → (firstItem L e.1).isSome)
    (hroom : c.total store L ≤ c.maxsize) :
    ∃ outs c',
      (do touchAll (L.map Prod.fst)
          L.mapM fun e => getAndUpdate base store hit miss e.2 e.1 : CacheM ν (List ο)).run c =
        .ok outs c' ∧
      Completed c c' store miss L outs := by
  have htouched := h.touched (L.map Prod.fst)
  have hL : ∀ e ∈ L, e.1 ∈ (L.map Prod.fst).dedup := fun e he =>
    mem_dedup.mpr (mem_map_of_mem he)
  obtain ⟨outs, c', hrun, hup⟩ := updates_spec hit miss hb htouched hL hitem hroom
  obtain ⟨mid', hmid', hserving⟩ := hup.serving
  have hdata : ∀ e ∈ L, c'.data e.1 = c.served store L e.1 := fun e he =>
    hup.data e.1 (mem_append_right _ (hL e he))
  have hpresent : ∀ e ∈ L, (c'.data e.1).isSome := by
    intro e he
    rw [hdata e he, served, Option.isSome_or, Option.isSome_map]
    cases hnone : c.data e.1 with
    | some value => rfl
    | none => exact hitem e he hnone
  refine ⟨outs, c', run_bind_ok (run_touchAll _) |>.trans hrun, ?_, hup.getsizeof, hup.maxsize,
    hpresent, hdata, ?_, hup.length, hup.first⟩
  · refine hserving.resting fun x hx => ?_
    obtain ⟨e, he, rfl⟩ := mem_map.mp (mem_dedup.mp (hmid'.mem_iff.mp hx))
    exact hpresent e he
  · intro x hx
    split
    · rename_i hkept
      rw [hup.data x (mem_append_left _ hkept)]
      have hfirst : firstItem L x = none := firstItem_of_not_mem fun e he hne =>
        hx (hne ▸ mem_map_of_mem he)
      show c.served store L x = c.data x
      rw [served, hfirst]
      exact Option.or_none
    · rename_i hkept
      refine hserving.known x fun hmem => ?_
      rcases mem_append.mp hmem with hmem | hmem
      · exact hkept hmem
      · exact hx (mem_dedup.mp (hmid'.mem_iff.mp hmem))

/-- When everything in the cache fits beside what the request adds, nothing leaves. -/
theorem kept_of_room (h : ((c.others L).map c.weight).sum + c.total store L ≤ c.maxsize) :
    c.kept store L = c.others L := keepNewest_of_le (by omega)

theorem Resting.total_of_hits (h : c.Resting) (hhit : ∀ e ∈ L, (c.data e.1).isSome) :
    ((c.others L).map c.weight).sum + c.total store L ≤ c.maxsize := by
  have hweight : (L.map Prod.fst).dedup.map (c.servedWeight store L) =
      (L.map Prod.fst).dedup.map c.weight := by
    refine map_congr_left fun x hx => ?_
    obtain ⟨e, he, rfl⟩ := mem_map.mp (mem_dedup.mp hx)
    obtain ⟨value, hvalue⟩ := Option.isSome_iff_exists.mp (hhit e he)
    rw [servedWeight, served_of_some hvalue, weight_of_some hvalue]
    rfl
  have htouched := (h.touched (L.map Prod.fst)).currsize
  have hfits := h.fits
  rw [total, hweight]
  exact htouched ▸ hfits

theorem mem_others : x ∈ c.others L ↔ x ∈ c.order ∧ x ∉ L.map Prod.fst := by
  rw [others, mem_filter, decide_eq_true_iff]

theorem Completed.data_of_hits {outs : List ο} (h : c.Resting)
    (hdone : Completed c c' store miss L outs) (hhit : ∀ e ∈ L, (c.data e.1).isSome) (x : String) :
    c'.data x = c.data x := by
  by_cases hx : x ∈ L.map Prod.fst
  · obtain ⟨e, he, rfl⟩ := mem_map.mp hx
    obtain ⟨value, hvalue⟩ := Option.isSome_iff_exists.mp (hhit e he)
    rw [hdone.data_of_mem e he, served_of_some hvalue, hvalue]
  · rw [hdone.data_of_not_mem x hx, kept_of_room (h.total_of_hits hhit)]
    split
    · rfl
    · rename_i hout
      have horder : x ∉ c.order := fun hmem => hout (mem_others.mpr ⟨hmem, hx⟩)
      exact (h.known x (by simpa using horder)).symm

end LRUCache

end MyOperator.Multimodal

/-!
## Two caches with the same keys and sizes

The values of the two caches are of different types; what leaves and what stays
depends only on the sizes and, when something has to leave, on the recency of the
keys that a request does not use.
-/

namespace MyOperator.Multimodal

open Lib

namespace LRUCache

variable {ν ν' κ κ' : Type} {c : LRUCache ν} {c' : LRUCache ν'}

theorem resting_empty (getsizeof : ν → Nat) (maxsize : Nat) :
    ({ getsizeof, maxsize } : LRUCache ν).Resting :=
  ⟨rfl, List.nodup_nil, nofun, fun _ _ => rfl, rfl, Nat.zero_le _, rfl⟩

/-- Two caches have the same keys with the same sizes. -/
def SameSizes (c : LRUCache ν) (c' : LRUCache ν') : Prop :=
  ∀ key, (c.data key).map c.getsizeof = (c'.data key).map c'.getsizeof

theorem SameSizes.none_iff (h : c.SameSizes c') {key : String} :
    c.data key = none ↔ c'.data key = none := by
  rw [← Option.map_eq_none_iff (f := c.getsizeof), h key, Option.map_eq_none_iff]

theorem SameSizes.isSome (h : c.SameSizes c') (key : String) :
    (c.data key).isSome = (c'.data key).isSome := by
  rw [← Option.isSome_map (f := c.getsizeof), h key, Option.isSome_map]

theorem weight_eq_getD (key : String) : c.weight key = ((c.data key).map c.getsizeof).getD 0 := by
  rw [weight]
  cases c.data key <;> rfl

theorem SameSizes.weight (h : c.SameSizes c') : c.weight = c'.weight :=
  funext fun key => by rw [weight_eq_getD, weight_eq_getD, h key]

theorem SameSizes.others_perm (h : c.SameSizes c') (hc : c.Resting) (hc' : c'.Resting)
    (L : List (String × Option κ)) : (c.others L).Perm (c'.others L) := by
  have hnodup : c.order.Nodup := by simpa using hc.nodup
  have hnodup' : c'.order.Nodup := by simpa using hc'.nodup
  refine (List.perm_ext_iff_of_nodup (hnodup.filter _) (hnodup'.filter _)).mpr fun x => ?_
  show x ∈ c.others L ↔ x ∈ c'.others L
  rw [mem_others, mem_others, ← hc.isSome_iff, ← hc'.isSome_iff, h.isSome]

variable {store : κ → ν} {L : List (String × Option κ)} {store' : κ' → ν'}
  {L' : List (String × Option κ')}

theorem servedWeight_eq_getD (key : String) :
    c.servedWeight store L key = ((c.served store L key).map c.getsizeof).getD 0 := by
  rw [servedWeight]
  cases c.served store L key <;> rfl

theorem total_eq (hperm : (L.map Prod.fst).Perm (L'.map Prod.fst))
    (hserved : ∀ x ∈ L.map Prod.fst, (c.served store L x).map c.getsizeof =
      (c'.served store' L' x).map c'.getsizeof) : c.total store L = c'.total store' L' := by
  have hcongr : (L.map Prod.fst).dedup.map (c.servedWeight store L) =
      (L.map Prod.fst).dedup.map (c'.servedWeight store' L') := List.map_congr_left fun x hx => by
      rw [servedWeight_eq_getD, servedWeight_eq_getD, hserved x (List.mem_dedup.mp hx)]
  rw [LRUCache.total, LRUCache.total, hcongr, (hperm.dedup.map _).sum_eq]

theorem SameSizes.mem_kept (h : c.SameSizes c') (hc : c.Resting) (hc' : c'.Resting)
    (hmax : c.maxsize = c'.maxsize) (hkeys : ∀ x, x ∈ L.map Prod.fst ↔ x ∈ L'.map Prod.fst)
    (htotal : c.total store L = c'.total store' L') (hrecency : c.others L = c'.others L ∨
      ((c.others L).map c.weight).sum + c.total store L ≤ c.maxsize) (x : String) :
    x ∈ c.kept store L ↔ x ∈ c'.kept store' L' := by
  have hothers : c'.others L' = c'.others L :=
    List.filter_congr fun y _ => by rw [decide_eq_decide, hkeys y]
  rcases hrecency with hsame | hroom
  · rw [LRUCache.kept, LRUCache.kept, hothers, ← hsame, hmax, htotal, h.weight]
  · have hperm := h.others_perm hc hc' L
    have hroom' : ((c'.others L').map c'.weight).sum + c'.total store' L' ≤ c'.maxsize := by
      rw [hothers, ← (hperm.map c'.weight).sum_eq, ← h.weight, ← htotal, ← hmax]
      exact hroom
    rw [kept_of_room hroom, kept_of_room hroom', hothers, hperm.mem_iff]

theorem SameSizes.completed (h : c.SameSizes c') (hc : c.Resting) (hc' : c'.Resting)
    (hmax : c.maxsize = c'.maxsize) {ο ο' : Type} {miss : κ → ο} {miss' : κ' → ο'} {outs : List ο}
    {outs' : List ο'} {d : LRUCache ν} {d' : LRUCache ν'} (hdone : c.Completed d store miss L outs)
    (hdone' : c'.Completed d' store' miss' L' outs')
    (hkeys : ∀ x, x ∈ L.map Prod.fst ↔ x ∈ L'.map Prod.fst)
    (hserved : ∀ x ∈ L.map Prod.fst, (c.served store L x).map c.getsizeof =
      (c'.served store' L' x).map c'.getsizeof) (htotal : c.total store L = c'.total store' L')
    (hrecency : c.others L = c'.others L ∨
      ((c.others L).map c.weight).sum + c.total store L ≤ c.maxsize) : d.SameSizes d' := by
  intro key
  rw [hdone.getsizeof, hdone'.getsizeof]
  by_cases hkey : key ∈ L.map Prod.fst
  · obtain ⟨e, he, heq⟩ := List.mem_map.mp hkey
    obtain ⟨e', he', heq'⟩ := List.mem_map.mp ((hkeys key).mp hkey)
    have hdata := hdone.data_of_mem e he
    have hdata' := hdone'.data_of_mem e' he'
    rw [heq] at hdata
    rw [heq'] at hdata'
    rw [hdata, hdata', hserved key hkey]
  · have hkept := h.mem_kept hc hc' hmax hkeys htotal hrecency key
    rw [hdone.data_of_not_mem key hkey,
      hdone'.data_of_not_mem key fun hmem => hkey ((hkeys key).mpr hmem)]
    by_cases hin : key ∈ c.kept store L
    · rw [if_pos hin, if_pos (hkept.mp hin), h key]
    · rw [if_neg hin, if_neg fun hin' => hin (hkept.mpr hin')]
      rfl

end LRUCache

end MyOperator.Multimodal
