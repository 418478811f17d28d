import MyOperator.Multimodal.MirrorItems

/-!
# The two caches stay mirrored

The sender and the receiver evict alike as long as both see every request, and
see its items as one and the same request. `Keeps` is the condition on a request
in a state; in every run of such requests the two caches have the same keys after
every request and neither of them misses an item. Without it they part: a request
that is rejected after the processor has updated the sender leaves its items in
one cache only.
-/

namespace MyOperator.Multimodal

open Lib List
open Sched (PlaceholderRange)

variable {δ ι υ : Type}

/-- The items of a request, modality by modality. -/
def Request.items (request : Request δ) : List (String × Nat × MMItem δ) :=
  flatItems request.mmItems.entries

/-- The items in the order of their positions. -/
def Request.byPosition (request : Request δ) : List (String × Nat × MMItem δ) :=
  request.items.insertionSort (byOffset MMItem.position)

/-- What the request has for each key. -/
def requestItems (proc : Processor δ ι υ) (request : Request δ) :
    List (String × Option (ProcessedItem ι υ)) :=
  request.items.map fun x => (x.2.2.mmHash, x.2.2.data.map (proc.applyHfProcessor x.1))

/-- The key of the receiver's cache for an item. -/
def coreKey (cfg : Config) (request : Request δ) (item : MMItem δ) : String :=
  if item.mmHash = "" then getMmIdentifier cfg item.mmHash request.loraName else item.mmHash

/-- The request fails after the processor, whatever is in the caches. -/
def Rejected (cfg : Config) (request : Request δ) : Prop :=
  request.promptError ≠ none ∨ validate cfg request ≠ .ok ()

/-- An item that has to be processed comes without data. -/
def Unprovided (s : Session ι υ) (request : Request δ) : Prop :=
  ∃ x ∈ request.items, x.2.2.data = none ∧
    (request.passthroughData = true ∨ s.sender.data x.2.2.mmHash = none)

/-- Both caches do the same with the request: its items fit into a cache together; older entries
need not leave, or are equally old in both caches; of equal items the first one by modality is
also the first one by position; and both caches know an item under the same key. -/
structure Alike (proc : Processor δ ι υ) (cfg : Config) (s : Session ι υ) (request : Request δ) :
    Prop where
  room : s.sender.total (MultiModalProcessorSenderCache.metadata proc)
    (requestItems proc request) ≤ s.sender.maxsize
  recency : s.sender.others (requestItems proc request) =
      s.receiver.others (requestItems proc request) ∨
    ((s.sender.others (requestItems proc request)).map s.sender.weight).sum +
      s.sender.total (MultiModalProcessorSenderCache.metadata proc) (requestItems proc request) ≤
        s.sender.maxsize
  carrier : ∀ key, s.sender.data key = none →
    request.byPosition.find? (fun x => x.2.2.mmHash = key) =
      request.items.find? (fun x => x.2.2.mmHash = key)
  named : ∀ x ∈ request.items, coreKey cfg request x.2.2 = x.2.2.mmHash

/-- The condition on a request: both caches do the same with it, or it changes the entries of
neither. -/
inductive Keeps (proc : Processor δ ι υ) (cfg : Config) (s : Session ι υ) (request : Request δ) :
    Prop
  | unprovided (h : Unprovided s request)
  | rejected (h : Rejected cfg request)
      (hits : request.passthroughData = true ∨
        ∀ x ∈ request.items, (s.sender.data x.2.2.mmHash).isSome)
  | passthrough (h : request.passthroughData = true)
      (hits : ∀ x ∈ request.items, (s.receiver.data (coreKey cfg request x.2.2)).isSome)
  | alike (h : request.passthroughData = false) (accepted : ¬ Rejected cfg request)
      (alike : Alike proc cfg s request)

/-- Requests that meet a condition, one after the other, from empty caches of equal capacity. -/
def mirrorRuns (base : BaseLRU) (proc : Processor δ ι υ) (cfg : Config) (capacity : Nat)
    (cond : Session ι υ → Request δ → Prop) : TSys (Session ι υ) where
  init s := s = {
    sender := { getsizeof := MultiModalProcessorCacheItemMetadata.itemSize, maxsize := capacity }
    receiver := { getsizeof := proc.getItemSize, maxsize := capacity } }
  step s s' := ∃ request : Request δ, cond s request ∧ s' = serve base proc cfg request s

/-- After a request that reached the engine core the caches have the same keys and the receiver has
every item that came without data; and no lookup missed an item. -/
structure MirrorSound (s : Session ι υ) : Prop where
  keys : ∀ sent result, s.reply = some (.reached sent result) →
    ∀ key, s.sender.contains key = s.receiver.contains key
  sent : ∀ sent result, s.reply = some (.reached sent result) →
    ∀ f ∈ sent, f.data = none → s.receiver.contains f.cacheKey = true
  sender : ∀ mmHash, s.reply ≠ some (.rejected (.expectedCachedItem mmHash))
  receiver : ∀ sent mmHash, s.reply ≠ some (.reached sent (.error (.expectedCachedItem mmHash)))

/-- The caches at rest, with the same keys and the same sizes. -/
structure Mirrored (proc : Processor δ ι υ) (s : Session ι υ) : Prop where
  sender : s.sender.Resting
  receiver : s.receiver.Resting
  senderSize : s.sender.getsizeof = MultiModalProcessorCacheItemMetadata.itemSize
  receiverSize : s.receiver.getsizeof = proc.getItemSize
  maxsize : s.sender.maxsize = s.receiver.maxsize
  sizes : s.sender.SameSizes s.receiver

section Sender

variable {proc : Processor δ ι υ} {request : Request δ} {base : BaseLRU}
  {c : LRUCache (MultiModalProcessorCacheItemMetadata υ)}

/-- The items as the sender's cache sees them. -/
def senderItems (proc : Processor δ ι υ) (c : LRUCache (MultiModalProcessorCacheItemMetadata υ))
    (request : Request δ) : List (String × Option (ProcessedItem ι υ)) :=
  request.items.map (senderItem proc c)

theorem keys_senderItems : (senderItems proc c request).map Prod.fst =
    (requestItems proc request).map Prod.fst := by
  rw [senderItems, requestItems, map_map, map_map]
  rfl

theorem firstItem_senderItems {key : String} (h : c.data key = none) :
    firstItem (senderItems proc c request) key = firstItem (requestItems proc request) key := by
  rw [firstItem, firstItem, senderItems, requestItems, find?_map, find?_map]
  show ((request.items.find? fun x => x.2.2.mmHash = key).map _).bind _ =
    ((request.items.find? fun x => x.2.2.mmHash = key).map _).bind _
  cases hfind : request.items.find? fun x => x.2.2.mmHash = key with
  | none => rfl
  | some x =>
    have hkey : x.2.2.mmHash = key := by simpa using find?_some hfind
    have hc : c.contains x.2.2.mmHash = false := by
      rw [LRUCache.contains, hkey, h]
      rfl
    show (senderItem proc c x).2 = _
    rw [senderItem, hc]
    rfl

theorem served_senderItems (store : ProcessedItem ι υ → MultiModalProcessorCacheItemMetadata υ) :
    c.served store (senderItems proc c request) = c.served store (requestItems proc request) := by
  funext key
  cases h : c.data key with
  | some value => rw [LRUCache.served_of_some h, LRUCache.served_of_some h]
  | none => rw [LRUCache.served, LRUCache.served, firstItem_senderItems h]

theorem total_senderItems (store : ProcessedItem ι υ → MultiModalProcessorCacheItemMetadata υ) :
    c.total store (senderItems proc c request) = c.total store (requestItems proc request) := by
  have hweight : c.servedWeight store (senderItems proc c request) =
      c.servedWeight store (requestItems proc request) := by
    funext key
    rw [LRUCache.servedWeight, served_senderItems]
    rfl
  rw [LRUCache.total, LRUCache.total, keys_senderItems, hweight]

theorem others_senderItems {ν : Type} (d : LRUCache ν) :
    d.others (senderItems proc c request) = d.others (requestItems proc request) := by
  rw [LRUCache.others, LRUCache.others, keys_senderItems]

variable {found : List (List Bool × List (ProcessedItem ι υ))}

theorem data_of_processMissing (h : processMissing proc c request.mmItems.entries = .ok found)
    {x : String × Nat × MMItem δ} (hx : x ∈ request.items) (hnone : c.data x.2.2.mmHash = none) :
    x.2.2.data.isSome := by
  obtain ⟨m, i, item⟩ := x
  obtain ⟨items, hmem, hi⟩ := mem_flatItems.mp hx
  rw [processMissing] at h
  generalize request.mmItems.entries = entries at h hmem
  induction entries generalizing found with
  | nil => cases hmem
  | cons e entries ih =>
    rw [mapM_cons] at h
    obtain ⟨f, hf, h⟩ := bind_ok h
    obtain ⟨found', hfound', -⟩ := bind_ok h
    rcases mem_cons.mp hmem with rfl | hmem
    · obtain ⟨found₁, hget, -⟩ := bind_ok hf
      obtain ⟨-, hmissing⟩ := getCacheMissingItems_ok hget
      have hitem : item ∈ items.filter fun item => !c.contains item.mmHash := by
        refine mem_filter.mpr ⟨mem_of_getElem? hi, ?_⟩
        rw [LRUCache.contains, hnone]
        rfl
      have hdata : item.data ∈ found₁.2.map some := hmissing ▸ mem_map_of_mem hitem
      obtain ⟨data, -, hdata⟩ := mem_map.mp hdata
      show item.data.isSome
      rw [← hdata]
      rfl
    · exact ih hfound' hmem

theorem firstItem_isSome (h : processMissing proc c request.mmItems.entries = .ok found)
    {e : String × Option (ProcessedItem ι υ)} (he : e ∈ senderItems proc c request)
    (hnone : c.data e.1 = none) : (firstItem (senderItems proc c request) e.1).isSome := by
  rw [firstItem_senderItems hnone, firstItem, requestItems, find?_map]
  obtain ⟨x, hx, rfl⟩ := mem_map.mp he
  have hfind : (request.items.find? fun y => decide (y.2.2.mmHash = x.2.2.mmHash)).isSome := by
    rw [find?_isSome]
    exact ⟨x, hx, by simp⟩
  obtain ⟨y, hy⟩ := Option.isSome_iff_exists.mp hfind
  have hkey : y.2.2.mmHash = x.2.2.mmHash := by simpa using find?_some hy
  have hdata := data_of_processMissing h (mem_of_find?_eq_some hy) (by rw [hkey]; exact hnone)
  show (((request.items.find? fun y => decide (y.2.2.mmHash = x.2.2.mmHash)).map _).bind _).isSome
  rw [hy]
  show (y.2.2.data.map _).isSome
  rw [Option.isSome_map]
  exact hdata

/-- What the sender answers for a missing item. -/
def sentItem (item : ProcessedItem ι υ) : Option ι × List (ResolvedPromptUpdate υ) :=
  (some item.1, item.2)

theorem run_cachedApplyHfProcessor (hb : base.Documented) (hc : c.Resting)
    (hpass : request.passthroughData = false)
    (hfound : processMissing proc c request.mmItems.entries = .ok found)
    (hroom : c.total (MultiModalProcessorSenderCache.metadata proc) (requestItems proc request) ≤
      c.maxsize) :
    ∃ mmInfo outs c', (cachedApplyHfProcessor base proc request).run c = .ok mmInfo c' ∧
      c.Completed c' (MultiModalProcessorSenderCache.metadata proc) sentItem
        (senderItems proc c request) outs ∧
      mmInfo.map Prod.fst = request.mmItems.entries.map Prod.fst ∧
      flatItems mmInfo = zipWith mergedItem request.items outs := by
  obtain ⟨outs, c', hrun, hdone⟩ := LRUCache.request_spec (L := senderItems proc c request)
    (fun cached => (none, cached.promptUpdates)) sentItem hb hc
    (fun e he hnone => firstItem_isSome hfound he hnone) (by rw [total_senderItems]; exact hroom)
  obtain ⟨_, c₁, htouch, hloop⟩ := run_bind_inv hrun
  obtain ⟨mmInfo, hmerge, hkeys, hflat⟩ := run_mergeModalities hfound hloop
  refine ⟨mmInfo, outs, c', ?_, hdone, hkeys, hflat⟩
  have hhashes : (flatItems request.mmItems.entries).map (fun x => x.2.2.mmHash) =
      (senderItems proc c request).map Prod.fst := by
    rw [senderItems, map_map]
    rfl
  have hmergeAll : (mergeMmKwargs base proc request.mmItems.entries found).run c =
      .ok mmInfo c' := by
    rw [mergeMmKwargs, hhashes]
    exact (LRUCache.run_bind_ok htouch).trans hmerge
  rw [cachedApplyHfProcessor, hpass, if_neg Bool.false_ne_true,
    LRUCache.run_bind_ok (EStateM.run_get c), hfound]
  exact hmergeAll

end Sender

section Receiver

variable {base : BaseLRU} {c : LRUCache ι}

/-- The features as the receiver's cache sees them. -/
def receiverItems (features : List (MultiModalFeatureSpec ι)) : List (String × Option ι) :=
  features.map fun f => (f.cacheKey, f.data)

/-- The receiver on features that all are found, or come with their data and fit into the cache
together. -/
theorem run_getAndUpdateFeatures (hb : base.Documented) (hc : c.Resting)
    {features : List (MultiModalFeatureSpec ι)}
    (hitem : ∀ e ∈ receiverItems features, c.data e.1 = none →
      (firstItem (receiverItems features) e.1).isSome)
    (hroom : c.total id (receiverItems features) ≤ c.maxsize) :
    ∃ completed outs c', (getAndUpdateFeatures base features).run c = .ok completed c' ∧
      c.Completed c' id id (receiverItems features) outs := by
  obtain ⟨outs, c', hrun, hdone⟩ := LRUCache.request_spec id id hb hc hitem hroom
  obtain ⟨_, c₁, htouch, hloop⟩ := run_bind_inv hrun
  rw [receiverItems, mapM_map] at hloop
  have hkeys : (receiverItems features).map Prod.fst =
      features.map MultiModalFeatureSpec.cacheKey := by
    rw [receiverItems, map_map]
    rfl
  rw [hkeys] at htouch
  have hupdate := run_mapM_with
    (g := fun f data => ({ f with data := some data } : MultiModalFeatureSpec ι)) hloop
  exact ⟨_, outs, c', (LRUCache.run_bind_ok htouch).trans hupdate, hdone⟩

end Receiver

section Answers

variable {proc : Processor δ ι υ} {cfg : Config} {request : Request δ}
  {outs : List (Option ι × List (ResolvedPromptUpdate υ))}

/-- The items with the sender's answers, in the order of their positions. -/
def sortedAnswers (request : Request δ) (outs : List (Option ι × List (ResolvedPromptUpdate υ))) :
    List ((String × Nat × MMItem δ) × (Option ι × List (ResolvedPromptUpdate υ))) :=
  (request.items.zip outs).insertionSort fun z w => byOffset MMItem.position z.1 w.1

theorem byPosition_eq (hlen : request.items.length ≤ outs.length) :
    request.byPosition = (sortedAnswers request outs).map Prod.fst := by
  have hsort := map_insertionSort
    (fun z w : (String × Nat × MMItem δ) × (Option ι × List (ResolvedPromptUpdate υ)) =>
      byOffset MMItem.position z.1 w.1) (byOffset MMItem.position) Prod.fst
    (request.items.zip outs) fun _ _ _ _ => Iff.rfl
  rw [Request.byPosition, sortedAnswers, hsort, map_fst_zip hlen]

theorem mmFeatures_answers (cfg : Config) {mmInfo : List (String × List (MMEntry ι υ))}
    (hkeys : mmInfo.map Prod.fst = request.mmItems.entries.map Prod.fst)
    (hflat : flatItems mmInfo = zipWith mergedItem request.items outs) :
    mmFeatures cfg request.loraName mmInfo = .ok ((sortedAnswers request outs).map fun z =>
      feature cfg request.loraName (mergedItem z.1 z.2)) := by
  have hsort := map_insertionSort
    (fun z w : (String × Nat × MMItem δ) × (Option ι × List (ResolvedPromptUpdate υ)) =>
      byOffset MMItem.position z.1 w.1) (byOffset MMEntry.position)
    (fun z => mergedItem z.1 z.2) (request.items.zip outs) fun _ _ _ _ => Iff.rfl
  have hzip : (request.items.zip outs).map (fun z => mergedItem z.1 z.2) =
      zipWith mergedItem request.items outs := map_zip_eq_zipWith
  have hnodup : (mmInfo.map Prod.fst).Nodup := hkeys ▸ request.mmItems.nodupKeys
  rw [mmFeatures_eq hnodup, hflat, ← hzip, ← hsort, map_map]
  rfl

theorem receiverItems_answers (outs : List (Option ι × List (ResolvedPromptUpdate υ)))
    (hnamed : ∀ x ∈ request.items, coreKey cfg request x.2.2 = x.2.2.mmHash) :
    receiverItems ((sortedAnswers request outs).map fun z =>
      feature cfg request.loraName (mergedItem z.1 z.2)) =
      (sortedAnswers request outs).map fun z => (z.1.2.2.mmHash, z.2.1) := by
  rw [receiverItems, map_map]
  refine map_congr_left fun z hz => ?_
  have hmem : z.1 ∈ request.items := (of_mem_zip ((mem_insertionSort _).mp hz)).1
  show (coreKey cfg request z.1.2.2, z.2.1) = _
  rw [hnamed z.1 hmem]

theorem firstItem_answers {c c' : LRUCache (MultiModalProcessorCacheItemMetadata υ)}
    {store : ProcessedItem ι υ → MultiModalProcessorCacheItemMetadata υ} {key : String}
    {item : ProcessedItem ι υ} (hnone : c.data key = none)
    (hdone : c.Completed c' store sentItem (senderItems proc c request) outs)
    (hcarrier : request.byPosition.find? (fun x => x.2.2.mmHash = key) =
      request.items.find? (fun x => x.2.2.mmHash = key))
    (hfirst : firstItem (senderItems proc c request) key = some item) :
    firstItem ((sortedAnswers request outs).map fun z => (z.1.2.2.mmHash, z.2.1)) key =
      some item.1 := by
  have hlen : request.items.length ≤ outs.length := by
    rw [hdone.length, senderItems, length_map]
  obtain ⟨e, he, hitem⟩ := Option.bind_eq_some_iff.mp hfirst
  have hkey : e.1 = key := by simpa using find?_some he
  obtain rfl : e = (key, some item) := Prod.ext hkey hitem
  -- the sender's answer to the first item is the item
  have hout := hdone.first key item hnone he
  rw [senderItems, zip_map_left, find?_map, Option.map_eq_some_iff] at hout
  obtain ⟨z', hz', hz'eq⟩ := hout
  have hz'out : z'.2 = sentItem item := congrArg Prod.snd hz'eq
  -- the receiver's first item is that one
  have hitems : request.items.find? (fun x => x.2.2.mmHash = key) = some z'.1 := by
    rw [← map_fst_zip hlen, find?_map]
    exact Option.map_eq_some_iff.mpr ⟨z', hz', rfl⟩
  rw [← hcarrier, byPosition_eq hlen, find?_map, Option.map_eq_some_iff] at hitems
  obtain ⟨z, hz, hzz'⟩ := hitems
  have hnodup : ((request.items.zip outs).map Prod.fst).Nodup := by
    rw [map_fst_zip hlen]
    exact nodup_flatItems request.mmItems.nodupKeys
  have hzeq : z = z' := inj_on_of_nodup_map hnodup
    ((mem_insertionSort _).mp (mem_of_find?_eq_some hz)) (mem_of_find?_eq_some hz') hzz'
  rw [firstItem, find?_map]
  show (((sortedAnswers request outs).find? fun z => z.1.2.2.mmHash = key).map _).bind _ = _
  rw [show (fun x : String × Nat × MMItem δ => decide (x.2.2.mmHash = key)) ∘ Prod.fst =
    fun z : (String × Nat × MMItem δ) × (Option ι × List (ResolvedPromptUpdate υ)) =>
      decide (z.1.2.2.mmHash = key) from rfl] at hz
  rw [hz, hzeq]
  show z'.2.1 = _
  rw [hz'out]
  rfl

end Answers

section Step

variable {proc : Processor δ ι υ} {cfg : Config} {request : Request δ} {base : BaseLRU}
  {s : Session ι υ}

theorem accepted_iff : ¬ Rejected cfg request ↔
    request.promptError = none ∧ validate cfg request = .ok () := by
  rw [Rejected, not_or, not_not, not_not]

variable {c' : LRUCache (MultiModalProcessorCacheItemMetadata υ)}

theorem run_apply {mmInfo : List (String × List (MMEntry ι υ))}
    {c : LRUCache (MultiModalProcessorCacheItemMetadata υ)}
    (hrun : (cachedApplyHfProcessor base proc request).run c = .ok mmInfo c')
    (hprompt : request.promptError = none) : (apply base proc request).run c = .ok mmInfo c' := by
  rw [apply, LRUCache.run_bind_ok hrun, hprompt]
  rfl

theorem keys_answers (proc : Processor δ ι υ)
    {outs : List (Option ι × List (ResolvedPromptUpdate υ))}
    (hlen : request.items.length ≤ outs.length)
    (c : LRUCache (MultiModalProcessorCacheItemMetadata υ)) :
    ((senderItems proc c request).map Prod.fst).Perm
      (((sortedAnswers request outs).map fun z => (z.1.2.2.mmHash, z.2.1)).map Prod.fst) := by
  have hsorted : ((sortedAnswers request outs).map fun z => (z.1.2.2.mmHash, z.2.1)).map Prod.fst =
      request.byPosition.map fun x => x.2.2.mmHash := by
    rw [byPosition_eq hlen, map_map, map_map]
    rfl
  rw [hsorted, senderItems, map_map]
  exact ((perm_insertionSort _ request.items).map _).symm

theorem served_answers (hm : Mirrored proc s) {found : List (List Bool × List (ProcessedItem ι υ))}
    (hfound : processMissing proc s.sender request.mmItems.entries = .ok found)
    {outs : List (Option ι × List (ResolvedPromptUpdate υ))}
    (hdone : s.sender.Completed c' (MultiModalProcessorSenderCache.metadata proc) sentItem
      (senderItems proc s.sender request) outs) (hcarrier : ∀ key, s.sender.data key = none →
      request.byPosition.find? (fun x => x.2.2.mmHash = key) =
        request.items.find? (fun x => x.2.2.mmHash = key)) {key : String}
    (hkey : key ∈ (senderItems proc s.sender request).map Prod.fst) :
    (s.sender.served (MultiModalProcessorSenderCache.metadata proc)
        (senderItems proc s.sender request) key).map s.sender.getsizeof = (s.receiver.served id
        ((sortedAnswers request outs).map fun z => (z.1.2.2.mmHash, z.2.1)) key).map
          s.receiver.getsizeof := by
  cases hdata : s.sender.data key with
  | some value =>
    have hsizes := hm.sizes key
    obtain ⟨value', hvalue'⟩ : ∃ value', s.receiver.data key = some value' := by
      rw [← Option.isSome_iff_exists, ← hm.sizes.isSome, hdata]
      rfl
    rw [hdata, hvalue'] at hsizes
    rw [LRUCache.served_of_some hdata, LRUCache.served_of_some hvalue', hsizes]
  | none =>
    obtain ⟨e, he, rfl⟩ := mem_map.mp hkey
    obtain ⟨item, hitem⟩ := Option.isSome_iff_exists.mp (firstItem_isSome hfound he hdata)
    have hanswer := firstItem_answers hdata hdone (hcarrier e.1 hdata) hitem
    rw [LRUCache.served, LRUCache.served, hdata, hm.sizes.none_iff.mp hdata, hitem, hanswer,
      hm.senderSize, hm.receiverSize]
    rfl

theorem serve_alike (hb : base.Documented) (hm : Mirrored proc s)
    (hpass : request.passthroughData = false) (haccepted : ¬ Rejected cfg request)
    (halike : Alike proc cfg s request) {found : List (List Bool × List (ProcessedItem ι υ))}
    (hfound : processMissing proc s.sender request.mmItems.entries = .ok found) :
    ∃ sent completed sender receiver, serve base proc cfg request s =
        { sender, receiver, reply := some (.reached sent (.ok completed)) } ∧
      Mirrored proc (serve base proc cfg request s) ∧
      ∀ f ∈ sent, receiver.contains f.cacheKey = true := by
  obtain ⟨hprompt, hvalid⟩ := accepted_iff.mp haccepted
  obtain ⟨mmInfo, outs, sender, hrun, hdone, hkeys, hflat⟩ :=
    run_cachedApplyHfProcessor hb hm.sender hpass hfound halike.room
  have hlen : request.items.length ≤ outs.length := by
    rw [hdone.length, senderItems, length_map]
  have hperm := keys_answers proc hlen s.sender
  have hserved : ∀ key ∈ (senderItems proc s.sender request).map Prod.fst, _ = _ :=
    fun key => served_answers hm hfound hdone halike.carrier
  have htotal := LRUCache.total_eq hperm hserved
  have hfeatures := mmFeatures_answers cfg hkeys hflat
  have hitems := receiverItems_answers outs halike.named
  generalize ((sortedAnswers request outs).map fun z =>
    feature cfg request.loraName (mergedItem z.1 z.2)) = features at hfeatures hitems
  rw [← hitems] at hperm hserved htotal
  -- the receiver finds every item, in its cache or with the features
  have hitem : ∀ e ∈ receiverItems features, s.receiver.data e.1 = none →
      (firstItem (receiverItems features) e.1).isSome := by
    intro e he hnone
    have hkey := hperm.symm.subset (mem_map_of_mem he)
    obtain ⟨e', he', heq⟩ := mem_map.mp hkey
    have hpresent := hdone.present e' he'
    rw [hdone.data_of_mem e' he', heq, ← Option.isSome_map, hserved e.1 hkey,
      Option.isSome_map, LRUCache.served, hnone, Option.none_or, Option.isSome_map] at hpresent
    exact hpresent
  have hroom : s.receiver.total id (receiverItems features) ≤ s.receiver.maxsize := by
    rw [← htotal, total_senderItems, ← hm.maxsize]
    exact halike.room
  obtain ⟨completed, outs', receiver, hrun', hdone'⟩ :=
    run_getAndUpdateFeatures hb hm.receiver hitem hroom
  have hserve : serve base proc cfg request s =
      { sender, receiver, reply := some (.reached features (.ok completed)) } := by
    have hprocess : processInputs cfg request mmInfo = .ok features := by
      rw [processInputs, hvalid]
      exact hfeatures
    simp only [serve, run_apply hrun hprompt, hprocess, hrun']
  have hrecency : s.sender.others (senderItems proc s.sender request) =
      s.receiver.others (senderItems proc s.sender request) ∨
      ((s.sender.others (senderItems proc s.sender request)).map s.sender.weight).sum +
        s.sender.total (MultiModalProcessorSenderCache.metadata proc)
          (senderItems proc s.sender request) ≤ s.sender.maxsize := by
    rw [others_senderItems, others_senderItems, total_senderItems]
    exact halike.recency
  refine ⟨features, completed, sender, receiver, hserve, ?_, fun f hf =>
    hdone'.present _ (mem_map_of_mem hf)⟩
  rw [hserve]
  exact ⟨hdone.resting, hdone'.resting, hdone.getsizeof.trans hm.senderSize,
    hdone'.getsizeof.trans hm.receiverSize,
    hdone.maxsize.trans (hm.maxsize.trans hdone'.maxsize.symm),
    hm.sizes.completed hm.sender hm.receiver hm.maxsize hdone hdone' (fun x => hperm.mem_iff)
      hserved htotal hrecency⟩

/-- A cache at rest that has kept its entries. -/
structure SameEntries {ν : Type} (c c' : LRUCache ν) : Prop where
  resting : c'.Resting
  getsizeof : c'.getsizeof = c.getsizeof
  maxsize : c'.maxsize = c.maxsize
  data : ∀ key, c'.data key = c.data key

theorem SameEntries.of_hits {ν ι' ο : Type} {c c' : LRUCache ν} {store : ι' → ν} {miss : ι' → ο}
    {L : List (String × Option ι')} {outs : List ο} (h : c.Resting)
    (hdone : c.Completed c' store miss L outs) (hhit : ∀ e ∈ L, (c.data e.1).isSome) :
    SameEntries c c' := ⟨hdone.resting, hdone.getsizeof, hdone.maxsize, hdone.data_of_hits h hhit⟩

theorem Mirrored.keep (hm : Mirrored proc s) {s' : Session ι υ}
    (hS : SameEntries s.sender s'.sender) (hR : SameEntries s.receiver s'.receiver) :
    Mirrored proc s' :=
  ⟨hS.resting, hR.resting, hS.getsizeof.trans hm.senderSize, hR.getsizeof.trans hm.receiverSize,
    hS.maxsize.trans (hm.maxsize.trans hR.maxsize.symm), fun key => by
      rw [hS.data, hR.data, hS.getsizeof, hR.getsizeof, hm.sizes key]⟩

theorem run_processor_keeps (hb : base.Documented)
    {c : LRUCache (MultiModalProcessorCacheItemMetadata υ)} (hc : c.Resting)
    (hits : request.passthroughData = true ∨ ∀ x ∈ request.items, (c.data x.2.2.mmHash).isSome) :
    ∃ c', SameEntries c c' ∧
      ((∃ e, (cachedApplyHfProcessor base proc request).run c = .error (.raised e) c') ∨
        ∃ mmInfo, (cachedApplyHfProcessor base proc request).run c = .ok mmInfo c') := by
  have hsame : SameEntries c c := ⟨hc, rfl, rfl, fun _ => rfl⟩
  cases hpass : request.passthroughData with
  | true =>
    refine ⟨c, hsame, ?_⟩
    rw [cachedApplyHfProcessor, if_pos hpass]
    cases applyHfProcessor proc request.mmItems.entries with
    | error e => exact .inl ⟨e, rfl⟩
    | ok mmInfo => exact .inr ⟨mmInfo, rfl⟩
  | false =>
    have hhits := hits.resolve_left (by rw [hpass]; exact Bool.false_ne_true)
    cases hfound : processMissing proc c request.mmItems.entries with
    | error e =>
      refine ⟨c, hsame, .inl ⟨e, ?_⟩⟩
      rw [cachedApplyHfProcessor, hpass, if_neg Bool.false_ne_true,
        LRUCache.run_bind_ok (EStateM.run_get c), hfound]
      rfl
    | ok found =>
      have hhit : ∀ e ∈ requestItems proc request, (c.data e.1).isSome := by
        intro e he
        obtain ⟨x, hx, rfl⟩ := mem_map.mp he
        exact hhits x hx
      have hhit' : ∀ e ∈ senderItems proc c request, (c.data e.1).isSome := by
        intro e he
        obtain ⟨x, hx, rfl⟩ := mem_map.mp he
        exact hhits x hx
      obtain ⟨mmInfo, outs, c', hrun, hdone, -, -⟩ := run_cachedApplyHfProcessor hb hc hpass
        hfound ((Nat.le_add_left _ _).trans (hc.total_of_hits hhit))
      exact ⟨c', .of_hits hc hdone hhit', .inr ⟨mmInfo, hrun⟩⟩

theorem serve_of_error {e : PyError}
    (h : (cachedApplyHfProcessor base proc request).run s.sender = .error (.raised e) c') :
    serve base proc cfg request s =
      { s with sender := c', reply := some (.rejected (.raised e)) } := by
  have happly : (apply base proc request).run s.sender = .error (.raised e) c' := by
    rw [apply, EStateM.run_bind, h]
  rw [serve, happly]

theorem serve_of_rejected (hreject : Rejected cfg request)
    {mmInfo : List (String × List (MMEntry ι υ))}
    (h : (cachedApplyHfProcessor base proc request).run s.sender = .ok mmInfo c') :
    ∃ e, serve base proc cfg request s =
      { s with sender := c', reply := some (.rejected (.raised e)) } := by
  cases hprompt : request.promptError with
  | some e =>
    have happly : (apply base proc request).run s.sender = .error (.raised e) c' := by
      rw [apply, LRUCache.run_bind_ok h, hprompt]
      rfl
    exact ⟨e, by rw [serve, happly]⟩
  | none =>
    have hvalid := hreject.resolve_left fun hne => hne hprompt
    cases hv : validate cfg request with
    | ok u => exact absurd hv hvalid
    | error e =>
      have hprocess : processInputs cfg request mmInfo = .error e := by
        rw [processInputs, hv]
        rfl
      exact ⟨e, by simp only [serve, run_apply h hprompt, hprocess]⟩

/-- An item without the data that it needs is turned away before the caches change. -/
theorem run_unprovided (h : Unprovided s request) :
    ∃ e, (cachedApplyHfProcessor base proc request).run s.sender = .error (.raised e) s.sender := by
  obtain ⟨x, hx, hdata, hmiss⟩ := h
  cases hpass : request.passthroughData with
  | true =>
    rw [cachedApplyHfProcessor, if_pos hpass]
    cases happly : applyHfProcessor proc request.mmItems.entries with
    | error e => exact ⟨e, rfl⟩
    | ok mmInfo =>
      have := (applyHfProcessor_ok happly).1 x hx
      rw [hdata] at this
      cases this
  | false =>
    have hnone := hmiss.resolve_left (by rw [hpass]; exact Bool.false_ne_true)
    rw [cachedApplyHfProcessor, hpass, if_neg Bool.false_ne_true,
      LRUCache.run_bind_ok (EStateM.run_get _)]
    cases hfound : processMissing proc s.sender request.mmItems.entries with
    | error e => exact ⟨e, rfl⟩
    | ok found =>
      have := data_of_processMissing hfound hx hnone
      rw [hdata] at this
      cases this

/-- The keys of the features of a request that was processed without the cache. -/
theorem receiverItems_passthrough (outs : List (Option ι × List (ResolvedPromptUpdate υ)))
    {c : LRUCache ι} (hits : ∀ x ∈ request.items, (c.data (coreKey cfg request x.2.2)).isSome) :
    ∀ e ∈ receiverItems ((sortedAnswers request outs).map fun z =>
      feature cfg request.loraName (mergedItem z.1 z.2)), (c.data e.1).isSome := by
  intro e he
  rw [receiverItems, map_map] at he
  obtain ⟨z, hz, rfl⟩ := mem_map.mp he
  exact hits z.1 (of_mem_zip ((mem_insertionSort _).mp hz)).1

theorem MirrorSound.of_rejected {e : PyError}
    (h : s.reply = some (.rejected (.raised e))) : MirrorSound s where
  keys sent result hreply := by cases h.symm.trans hreply
  sent sent result hreply := by cases h.symm.trans hreply
  sender mmHash hreply := by cases h.symm.trans hreply
  receiver sent mmHash hreply := by cases h.symm.trans hreply

theorem MirrorSound.of_reached {features completed : List (MultiModalFeatureSpec ι)}
    (h : s.reply = some (.reached features (.ok completed))) (hm : Mirrored proc s)
    (hsent : ∀ f ∈ features, s.receiver.contains f.cacheKey = true) : MirrorSound s where
  keys sent result _ key := hm.sizes.isSome key
  sent sent result hreply f hf _ := by
    cases h.symm.trans hreply
    exact hsent f hf
  sender mmHash hreply := by cases h.symm.trans hreply
  receiver sent mmHash hreply := by cases h.symm.trans hreply

/-- A request that was processed without the cache, of keys that the receiver has. -/
theorem serve_passthrough (hb : base.Documented) (hm : Mirrored proc s)
    (hpass : request.passthroughData = true)
    (hits : ∀ x ∈ request.items, (s.receiver.data (coreKey cfg request x.2.2)).isSome) :
    Mirrored proc (serve base proc cfg request s) ∧
      MirrorSound (serve base proc cfg request s) := by
  have hsender : SameEntries s.sender s.sender := ⟨hm.sender, rfl, rfl, fun _ => rfl⟩
  have hreceiver : SameEntries s.receiver s.receiver := ⟨hm.receiver, rfl, rfl, fun _ => rfl⟩
  have hrun : (cachedApplyHfProcessor base proc request).run s.sender =
      (ofExcept (applyHfProcessor proc request.mmItems.entries)).run s.sender := by
    rw [cachedApplyHfProcessor, if_pos hpass]
  cases happly : applyHfProcessor proc request.mmItems.entries with
  | error e =>
    rw [happly] at hrun
    rw [serve_of_error hrun]
    exact ⟨hm.keep hsender hreceiver, .of_rejected rfl⟩
  | ok mmInfo =>
    rw [happly] at hrun
    by_cases hreject : Rejected cfg request
    · obtain ⟨e, hserve⟩ := serve_of_rejected hreject hrun
      rw [hserve]
      exact ⟨hm.keep hsender hreceiver, .of_rejected rfl⟩
    · obtain ⟨hprompt, hvalid⟩ := accepted_iff.mp hreject
      obtain ⟨-, hkeys, outs, hflat⟩ := applyHfProcessor_ok happly
      have hfeatures := mmFeatures_answers cfg hkeys hflat
      have hhits := receiverItems_passthrough outs hits
      generalize ((sortedAnswers request outs).map fun z =>
        feature cfg request.loraName (mergedItem z.1 z.2)) = features at hfeatures hhits
      have hroom : s.receiver.total id (receiverItems features) ≤ s.receiver.maxsize :=
        (Nat.le_add_left _ _).trans (hm.receiver.total_of_hits hhits)
      have hitem : ∀ e ∈ receiverItems features, s.receiver.data e.1 = none →
          (firstItem (receiverItems features) e.1).isSome := by
        intro e he hnone
        have := hhits e he
        rw [hnone] at this
        cases this
      obtain ⟨completed, outs', receiver, hrun', hdone⟩ :=
        run_getAndUpdateFeatures hb hm.receiver hitem hroom
      have hserve : serve base proc cfg request s =
          { s with receiver, reply := some (.reached features (.ok completed)) } := by
        have hprocess : processInputs cfg request mmInfo = .ok features := by
          rw [processInputs, hvalid]
          exact hfeatures
        simp only [serve, run_apply hrun hprompt, hprocess, hrun']
      have hmirror : Mirrored proc (serve base proc cfg request s) := by
        rw [hserve]
        exact hm.keep hsender (.of_hits hm.receiver hdone hhits)
      refine ⟨hmirror, ?_⟩
      rw [hserve] at hmirror ⊢
      exact .of_reached rfl hmirror fun f hf => hdone.present _ (mem_map_of_mem hf)

theorem serve_keeps (hb : base.Documented) (hm : Mirrored proc s) (h : Keeps proc cfg s request) :
    Mirrored proc (serve base proc cfg request s) ∧
      MirrorSound (serve base proc cfg request s) := by
  have hreceiver : SameEntries s.receiver s.receiver := ⟨hm.receiver, rfl, rfl, fun _ => rfl⟩
  cases h with
  | unprovided h =>
    obtain ⟨e, hrun⟩ := run_unprovided h
    rw [serve_of_error hrun]
    exact ⟨hm.keep ⟨hm.sender, rfl, rfl, fun _ => rfl⟩ hreceiver, .of_rejected rfl⟩
  | rejected hreject hits =>
    obtain ⟨c', hsame, ⟨e, hrun⟩ | ⟨mmInfo, hrun⟩⟩ := run_processor_keeps hb hm.sender hits
    · rw [serve_of_error hrun]
      exact ⟨hm.keep hsame hreceiver, .of_rejected rfl⟩
    · obtain ⟨e, hserve⟩ := serve_of_rejected hreject hrun
      rw [hserve]
      exact ⟨hm.keep hsame hreceiver, .of_rejected rfl⟩
  | passthrough hpass hits => exact serve_passthrough hb hm hpass hits
  | alike hpass haccepted halike =>
    cases hfound : processMissing proc s.sender request.mmItems.entries with
    | error e =>
      have hrun : (cachedApplyHfProcessor base proc request).run s.sender =
          .error (.raised e) s.sender := by
        rw [cachedApplyHfProcessor, hpass, if_neg Bool.false_ne_true,
          LRUCache.run_bind_ok (EStateM.run_get _), hfound]
        rfl
      rw [serve_of_error hrun]
      exact ⟨hm.keep ⟨hm.sender, rfl, rfl, fun _ => rfl⟩ hreceiver, .of_rejected rfl⟩
    | ok found =>
      obtain ⟨sent, completed, sender, receiver, hserve, hmirror, hsent⟩ :=
        serve_alike hb hm hpass haccepted halike hfound
      refine ⟨hmirror, ?_⟩
      rw [hserve] at hmirror ⊢
      exact .of_reached rfl hmirror hsent

end Step

/-- In every run of requests that meet the condition, the caches have the same keys after every
request that reached the engine core, and no lookup misses an item. -/
theorem mirror_sound {base : BaseLRU} (hb : base.Documented) (proc : Processor δ ι υ)
    (cfg : Config) (capacity : Nat) :
    (mirrorRuns base proc cfg capacity (Keeps proc cfg)).Invariant MirrorSound := by
  have hinv : (mirrorRuns base proc cfg capacity (Keeps proc cfg)).Invariant
      fun s => Mirrored proc s ∧ MirrorSound s := by
    refine TSys.Inductive.invariant ⟨?_, ?_⟩
    · rintro s rfl
      exact ⟨⟨LRUCache.resting_empty _ _, LRUCache.resting_empty _ _, rfl, rfl, rfl, fun _ => rfl⟩,
        nofun, nofun, nofun, nofun⟩
    · rintro s s' ⟨hm, -⟩ ⟨request, hkeeps, rfl⟩
      exact serve_keeps hb hm hkeeps
  intro s hs
  exact (hinv s hs).2

/-- Items that are their own data and as large as it says. -/
def plainItems : Processor Nat Nat Unit where
  applyHfProcessor _ data := (data, [])
  getItemSize item := item

theorem mirror_sound_plainItems :
    (mirrorRuns cachetools plainItems { maxModelLen := 8, mmEncoderCacheSize := 4 } 10
      (Keeps plainItems { maxModelLen := 8, mmEncoderCacheSize := 4 })).Invariant MirrorSound :=
  mirror_sound cachetools_documented plainItems _ 10

/-- A request with one image. -/
def oneImage (promptLen : Nat) : Request Nat where
  mmItems := ⟨[("image", [{ mmHash := "a", data := some 3, position := ⟨0, 2, none⟩ }])],
    nodup_singleton _⟩
  promptTokenIds := replicate promptLen 0

/-- A prompt that is too long, and then the same image in a short one: the sender sends nothing,
and the receiver does not have the image. -/
theorem mirror_parts : ¬ (mirrorRuns cachetools plainItems
    { maxModelLen := 8, mmEncoderCacheSize := 4 } 10
    fun _ (_ : Request Nat) => True).Invariant MirrorSound := by
  intro h
  have hsound := h _ (.step (.step (.init rfl) ⟨oneImage 9, trivial, rfl⟩)
    ⟨oneImage 4, trivial, rfl⟩)
  exact hsound.receiver [{
    data := none
    modality := "image"
    identifier := "a"
    mmPosition := ⟨0, 2, none⟩
    mmHash := "a" }] "a" rfl

end MyOperator.Multimodal
