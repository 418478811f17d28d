import MyOperator.Multimodal.CacheUpdates

/-!
# The items of a request on their way

`mergeMmKwargs` is one pass over the items of all modalities, and the features are
the merged items in the order of their positions. So what the sender does to its
cache and what the receiver does to its cache are the same kind of request, over
the same items in two orders.
-/

namespace MyOperator.Multimodal

open Lib List
open Sched (PlaceholderRange)

variable {α β δ ι υ ν ο : Type}

section Runs

variable {c c' : LRUCache ν} {base : BaseLRU}

variable {f : α → CacheM ν β} {l : List α} {bs : List β}

theorem run_bind_inv {x : CacheM ν α} {b : β} (h : (x >>= f).run c = .ok b c') :
    ∃ a c₁, x.run c = .ok a c₁ ∧ (f a).run c₁ = .ok b c' := by
  rw [EStateM.run_bind] at h
  cases hx : x.run c with
  | error e s =>
    rw [hx] at h
    cases h
  | ok a c₁ =>
    rw [hx] at h
    exact ⟨a, c₁, rfl, h⟩

theorem run_mapM_cons_inv {a : α} (h : ((a :: l).mapM f).run c = .ok bs c') :
    ∃ b bs' c₁, bs = b :: bs' ∧ (f a).run c = .ok b c₁ ∧ (l.mapM f).run c₁ = .ok bs' c' := by
  rw [mapM_cons] at h
  obtain ⟨b, c₁, ha, h⟩ := run_bind_inv h
  obtain ⟨bs', c₂, hl, h⟩ := run_bind_inv h
  cases h
  exact ⟨b, bs', c₁, rfl, ha, hl⟩

theorem run_mapM_length (h : (l.mapM f).run c = .ok bs c') : bs.length = l.length := by
  induction l generalizing c bs with
  | nil =>
    cases h
    rfl
  | cons a l ih =>
    obtain ⟨b, bs', c₁, rfl, -, hl⟩ := run_mapM_cons_inv h
    exact congrArg Nat.succ (ih hl)

theorem run_mapM_append_inv {l' : List α} (h : ((l ++ l').mapM f).run c = .ok bs c') :
    ∃ bs₁ bs₂ c₁, bs = bs₁ ++ bs₂ ∧ (l.mapM f).run c = .ok bs₁ c₁ ∧
      (l'.mapM f).run c₁ = .ok bs₂ c' := by
  rw [mapM_append] at h
  obtain ⟨bs₁, c₁, hl, h⟩ := run_bind_inv h
  obtain ⟨bs₂, c₂, hl', h⟩ := run_bind_inv h
  cases h
  exact ⟨bs₁, bs₂, c₁, rfl, hl, hl'⟩

theorem run_mapM_with {f : α → CacheM ν ο} {g : α → ο → β} {os : List ο}
    (h : (l.mapM f).run c = .ok os c') :
    (l.mapM fun a => do let o ← f a; return g a o).run c = .ok (zipWith g l os) c' := by
  induction l generalizing c os with
  | nil =>
    cases h
    rfl
  | cons a l ih =>
    obtain ⟨o, os', c₁, rfl, ha, hl⟩ := run_mapM_cons_inv h
    exact LRUCache.run_mapM_cons (LRUCache.run_bind_ok ha) (ih hl)

end Runs

section Flat

variable {d : List (String × List α)}

theorem mem_flatItems {m : String} {i : Nat} {a : α} :
    (m, i, a) ∈ flatItems d ↔ ∃ l, (m, l) ∈ d ∧ l[i]? = some a := by
  simp only [flatItems, mem_flatMap, mem_map, Prod.mk.injEq, Prod.exists]
  constructor
  · rintro ⟨m', l, hml, a', i', hmem, rfl, rfl, rfl⟩
    exact ⟨l, hml, mem_zipIdx_iff_getElem?.mp hmem⟩
  · rintro ⟨l, hml, ha⟩
    exact ⟨m, l, hml, a, i, mem_zipIdx_iff_getElem?.mpr ha, rfl, rfl, rfl⟩

theorem get_of_mem_flatItems (hnodup : (d.map Prod.fst).Nodup) {x : String × Nat × α}
    (hx : x ∈ flatItems d) : ((assocGet? x.1 d).bind fun l => l[x.2.1]?) = some x.2.2 := by
  obtain ⟨l, hml, ha⟩ := mem_flatItems.mp hx
  rw [(mem_iff_assocGet? hnodup).mp hml]
  exact ha

theorem nodup_flatItems (hnodup : (d.map Prod.fst).Nodup) : (flatItems d).Nodup := by
  refine nodup_flatMap.mpr ⟨fun e _ => ?_, ?_⟩
  · refine Nodup.of_map (fun x => x.2.1) ?_
    rw [map_map]
    exact nodup_zipIdx_map_snd e.2
  · refine (pairwise_map.mp hnodup).imp fun {e f} hne => ?_
    intro x hxe hxf
    obtain ⟨y, -, rfl⟩ := mem_map.mp hxe
    obtain ⟨z, -, hz⟩ := mem_map.mp hxf
    exact hne (congrArg Prod.fst hz).symm

theorem flatItems_placeholders (position : α → PlaceholderRange) :
    flatItems (placeholders position d) =
      (flatItems d).map fun x => (x.1, x.2.1, position x.2.2) := by
  simp only [flatItems, placeholders, flatMap_map, map_flatMap, zipIdx_map, map_map]
  rfl

theorem argsortMmPositions_placeholders (position : α → PlaceholderRange) :
    argsortMmPositions (placeholders position d) =
      ((flatItems d).insertionSort (byOffset position)).map fun x => (x.1, x.2.1) := by
  have hsort := map_insertionSort (byOffset position) (byOffset id)
    (fun x : String × Nat × α => (x.1, x.2.1, position x.2.2)) (flatItems d) fun _ _ _ _ => Iff.rfl
  rw [argsortMmPositions, flatItems_placeholders, ← hsort, map_map]
  rfl

end Flat

section Features

variable {cfg : Config} {loraName : Option String} {mmInfo : List (String × List (MMEntry ι υ))}

/-- The feature of an item. -/
def feature (cfg : Config) (loraName : Option String) (x : String × Nat × MMEntry ι υ) :
    MultiModalFeatureSpec ι where
  data := x.2.2.kwargs
  modality := x.1
  identifier := getMmIdentifier cfg x.2.2.mmHash loraName
  mmPosition := x.2.2.position
  mmHash := x.2.2.mmHash

theorem mmFeatures_eq (hnodup : (mmInfo.map Prod.fst).Nodup) :
    mmFeatures cfg loraName mmInfo =
      .ok (((flatItems mmInfo).insertionSort (byOffset MMEntry.position)).map
        (feature cfg loraName)) := by
  rw [mmFeatures, argsortMmPositions_placeholders, mapM_map]
  refine mapM_ok fun x hx => ?_
  have hmem : x ∈ flatItems mmInfo := (mem_insertionSort _).mp hx
  have hget := get_of_mem_flatItems hnodup hmem
  rw [Function.comp_apply]
  dsimp only
  rw [hget]
  rfl

end Features

section Merge

variable {base : BaseLRU} {proc : Processor δ ι υ}
  {c₀ c c' : LRUCache (MultiModalProcessorCacheItemMetadata υ)}

/-- An item as the sender's cache sees it. -/
def senderItem (proc : Processor δ ι υ) (c₀ : LRUCache ν) (x : String × Nat × MMItem δ) :
    String × Option (ProcessedItem ι υ) :=
  (x.2.2.mmHash,
    if c₀.contains x.2.2.mmHash then none else x.2.2.data.map (proc.applyHfProcessor x.1))

/-- An item with the sender's answer. -/
def mergedItem (x : String × Nat × MMItem δ) (r : Option ι × List (ResolvedPromptUpdate υ)) :
    String × Nat × MMEntry ι υ := (x.1, x.2.1, x.2.2.entry x.2.1 r)

theorem getCacheMissingItems_ok {modality : String} {items : List (MMItem δ)}
    {found : List Bool × List δ} (h : getCacheMissingItems c₀ modality items = .ok found) :
    found.1 = (items.map fun item => c₀.contains item.mmHash) ∧
      found.2.map some = (items.filter fun item => !c₀.contains item.mmHash).map MMItem.data := by
  obtain ⟨missing, hmissing, hret⟩ := bind_ok h
  cases hret
  clear h
  refine ⟨rfl, ?_⟩
  have hfilter : (items.zipIdx.filter fun e => !c₀.contains e.1.mmHash).map Prod.fst =
      items.filter fun item => !c₀.contains item.mmHash := by
    rw [← zipIdx_map_fst 0 items, filter_map, zipIdx_map_fst]
    rfl
  rw [← hfilter, map_map]
  generalize (items.zipIdx.filter fun e => !c₀.contains e.1.mmHash) = l at hmissing
  induction l generalizing missing with
  | nil =>
    cases hmissing
    rfl
  | cons e l ih =>
    rw [mapM_cons] at hmissing
    obtain ⟨data, hdata, hmissing⟩ := bind_ok hmissing
    obtain ⟨rest, hrest, hmissing⟩ := bind_ok hmissing
    cases hmissing
    rw [map_cons, map_cons, ih rest hrest]
    cases he : e.1.data with
    | none =>
      rw [he] at hdata
      cases hdata
    | some data' =>
      rw [he] at hdata
      cases hdata
      simp [he]

/-- The loop over the items of a modality asks the cache for one item after the other. -/
theorem run_mergeItems {modality : String} {items : List (MMItem δ)} {missing : List δ}
    {itemIdx : Nat} {outs : List (Option ι × List (ResolvedPromptUpdate υ))}
    (hmissing : missing.map some =
      (items.filter fun item => !c₀.contains item.mmHash).map MMItem.data)
    (hrun : (((items.zipIdx itemIdx).map fun x => senderItem proc c₀ (modality, x.2, x.1)).mapM
      fun e => MultiModalProcessorSenderCache.getAndUpdateItem base proc e.2 e.1).run c =
        .ok outs c') :
    (mergeItems base proc itemIdx items (items.map fun item => c₀.contains item.mmHash)
      (missing.map (proc.applyHfProcessor modality))).run c =
        .ok (zipWith (fun x r => x.1.entry x.2 r) (items.zipIdx itemIdx) outs) c' := by
  induction items generalizing missing itemIdx outs c with
  | nil =>
    cases hrun
    rfl
  | cons item items ih =>
    rw [zipIdx_cons, map_cons] at hrun
    obtain ⟨r, outs', c₁, rfl, hitem, hrest⟩ := run_mapM_cons_inv hrun
    cases hc : c₀.contains item.mmHash with
    | true =>
      rw [filter_cons_of_neg (by simp [hc])] at hmissing
      simp only [senderItem, hc, if_true] at hitem
      rw [map_cons, hc, mergeItems, LRUCache.run_bind_ok hitem,
        LRUCache.run_bind_ok (ih hmissing hrest)]
      rfl
    | false =>
      rw [filter_cons_of_pos (by simp [hc]), map_cons] at hmissing
      cases missing with
      | nil => cases hmissing
      | cons data missing =>
        rw [map_cons, List.cons.injEq] at hmissing
        obtain ⟨hdata, hmissing⟩ := hmissing
        simp only [senderItem, hc, ← hdata, Bool.false_eq_true, if_false, Option.map_some] at hitem
        rw [map_cons, hc, map_cons, mergeItems, LRUCache.run_bind_ok hitem,
          LRUCache.run_bind_ok (ih hmissing hrest)]
        rfl

theorem zipIdx_zipWith_entry (modality : String) (items : List (MMItem δ)) (itemIdx : Nat)
    (outs : List (Option ι × List (ResolvedPromptUpdate υ))) :
    ((zipWith (fun x r => x.1.entry x.2 r) (items.zipIdx itemIdx) outs).zipIdx itemIdx).map
        (fun x => (modality, x.2, x.1)) =
      zipWith mergedItem ((items.zipIdx itemIdx).map fun x => (modality, x.2, x.1)) outs := by
  induction items generalizing itemIdx outs with
  | nil => rfl
  | cons item items ih =>
    cases outs with
    | nil => rfl
    | cons r outs =>
      simp only [zipIdx_cons, zipWith_cons_cons, map_cons, ih]
      rfl

theorem run_mergeModalities {entries : List (String × List (MMItem δ))}
    {found : List (List Bool × List (ProcessedItem ι υ))}
    {outs : List (Option ι × List (ResolvedPromptUpdate υ))}
    (hfound : processMissing proc c₀ entries = .ok found)
    (hrun : (((flatItems entries).map (senderItem proc c₀)).mapM fun e =>
      MultiModalProcessorSenderCache.getAndUpdateItem base proc e.2 e.1).run c = .ok outs c') :
    ∃ mmInfo, (mergeModalities base proc entries found).run c = .ok mmInfo c' ∧
      mmInfo.map Prod.fst = entries.map Prod.fst ∧
      flatItems mmInfo = zipWith mergedItem (flatItems entries) outs := by
  induction entries generalizing found outs c with
  | nil =>
    cases hfound
    cases hrun
    exact ⟨[], rfl, rfl, rfl⟩
  | cons e entries ih =>
    rw [processMissing, mapM_cons] at hfound
    obtain ⟨f, hf, hfound⟩ := bind_ok hfound
    obtain ⟨found', hfound', hret⟩ := bind_ok hfound
    cases hret
    obtain ⟨⟨isCached, missing⟩, hget, hret⟩ := bind_ok hf
    cases hret
    obtain ⟨hcached, hmissing⟩ := getCacheMissingItems_ok hget
    have hflat : flatItems (e :: entries) =
        (e.2.zipIdx.map fun x => (e.1, x.2, x.1)) ++ flatItems entries := rfl
    rw [hflat, map_append] at hrun
    obtain ⟨outs₁, outs₂, c₁, rfl, hfirst, hrest⟩ := run_mapM_append_inv hrun
    have hlen : (e.2.zipIdx.map fun x => (e.1, x.2, x.1)).length = outs₁.length :=
      ((run_mapM_length hfirst).trans (length_map _)).symm
    rw [map_map] at hfirst
    have hitems := run_mergeItems hmissing hfirst
    rw [← hcached] at hitems
    obtain ⟨mmInfo, hmerge, hkeys, hflat'⟩ := ih hfound' hrest
    refine ⟨_ :: mmInfo, LRUCache.run_mapM_cons (LRUCache.run_bind_ok hitems) hmerge, ?_, ?_⟩
    · rw [map_cons, map_cons, hkeys]
    · rw [hflat, zipWith_append hlen, ← zipIdx_zipWith_entry, ← hflat']
      rfl

end Merge

section Passthrough

variable {proc : Processor δ ι υ}

theorem processedEntry_ok {modality : String} {length : Nat} {l : List (MMItem δ × Nat)}
    {entries : List (MMEntry ι υ)} (h : l.mapM (processedEntry proc modality length) = .ok entries) :
    (∀ x ∈ l, x.1.data.isSome) ∧ ∃ outs : List (Option ι × List (ResolvedPromptUpdate υ)),
      outs.length = l.length ∧ entries = zipWith (fun x r => x.1.entry x.2 r) l outs := by
  induction l generalizing entries with
  | nil =>
    cases h
    exact ⟨nofun, [], rfl, rfl⟩
  | cons x l ih =>
    rw [mapM_cons] at h
    obtain ⟨entry, hentry, h⟩ := bind_ok h
    obtain ⟨entries', hentries', hret⟩ := bind_ok h
    cases hret
    obtain ⟨hall, outs, hlen, rfl⟩ := ih hentries'
    rw [processedEntry] at hentry
    cases hdata : x.1.data with
    | none =>
      rw [hdata] at hentry
      cases hentry
    | some data =>
      rw [hdata] at hentry
      cases hentry
      refine ⟨forall_mem_cons.mpr ⟨by rw [hdata]; rfl, hall⟩, _ :: outs,
        congrArg Nat.succ hlen, rfl⟩

/-- Processing without the cache goes through when all items have data, and keeps their places. -/
theorem applyHfProcessor_ok {entries : List (String × List (MMItem δ))}
    {mmInfo : List (String × List (MMEntry ι υ))} (h : applyHfProcessor proc entries = .ok mmInfo) :
    (∀ x ∈ flatItems entries, x.2.2.data.isSome) ∧ mmInfo.map Prod.fst = entries.map Prod.fst ∧
      ∃ outs : List (Option ι × List (ResolvedPromptUpdate υ)),
        flatItems mmInfo = zipWith mergedItem (flatItems entries) outs := by
  induction entries generalizing mmInfo with
  | nil =>
    cases h
    exact ⟨nofun, rfl, [], rfl⟩
  | cons e entries ih =>
    rw [applyHfProcessor, mapM_cons] at h
    obtain ⟨f, hf, h⟩ := bind_ok h
    obtain ⟨mmInfo', hmmInfo', hret⟩ := bind_ok h
    cases hret
    obtain ⟨es, hes, hret⟩ := bind_ok hf
    cases hret
    obtain ⟨hall', hkeys, outs', hflat'⟩ := ih hmmInfo'
    obtain ⟨hall, outs, hlen, rfl⟩ := processedEntry_ok hes
    have hflat : flatItems (e :: entries) =
        (e.2.zipIdx.map fun x => (e.1, x.2, x.1)) ++ flatItems entries := rfl
    have hlen' : (e.2.zipIdx.map fun x => (e.1, x.2, x.1)).length = outs.length := by
      rw [length_map, hlen]
    refine ⟨?_, by rw [map_cons, map_cons, hkeys], outs ++ outs', ?_⟩
    · rw [hflat]
      intro x hx
      rcases mem_append.mp hx with hx | hx
      · obtain ⟨y, hy, rfl⟩ := mem_map.mp hx
        exact hall y hy
      · exact hall' x hx
    · rw [hflat, zipWith_append hlen', ← zipIdx_zipWith_entry, ← hflat']
      rfl

end Passthrough

end MyOperator.Multimodal
