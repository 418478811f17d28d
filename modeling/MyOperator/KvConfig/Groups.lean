import MyOperator.KvConfig.Spec
import MyOperator.Lib.EveryNth
import MyOperator.Lib.KeyIndex

/-!
# Groups of layers with one page size

`_get_kv_cache_groups_uniform_page_size`: the layers with the same spec are shared out to
groups of one size, each group the layers that stand as far apart as there are groups.
-/

namespace MyOperator.KvConfig

open Lib List Dict

variable {D : Type} [DecidableEq D]

def sameTypeLayers (kvCacheSpec : Dict String (KVCacheSpec D)) : Dict (KVCacheSpec D) (List String) :=
  kvCacheSpec.entries.foldl (fun layers x => layers.appendItem x.2 x.1) .empty

/-- `min` of a sequence. -/
def pyMin : List Nat → Except ConfigError Nat
  | [] => .error (.ValueError "min() arg is an empty sequence")
  | a :: l => .ok (l.foldl min a)

/-- `group_size`, from the numbers of layers. -/
def groupSize (numLayers : List Nat) : Except ConfigError Nat := do
  let minNumLayers ← pyMin numLayers
  let maxNumLayers ← pyMax numLayers
  -- "If the number of layers is not much larger than the minimum number of layers"
  return if 2 * maxNumLayers < 3 * minNumLayers then maxNumLayers else minNumLayers

/-- "we assign layers[i::num_groups] to the i-th group" -/
def splitLayers (groupSize : Nat) (layers : List String) : Except ConfigError (List (List String)) := do
  let numGroups ← cdiv layers.length groupSize
  return (range numGroups).map fun i => everyNth numGroups i layers

/-- `kv_cache_spec[layer_name]` -/
def layerSpec (kvCacheSpec : Dict String (KVCacheSpec D)) (layerName : String) :
    Except ConfigError (KVCacheSpec D) :=
  match kvCacheSpec.get? layerName with
  | some spec => .ok spec
  | none => .error (.KeyError layerName)

def createKvCacheGroupSpecs (kvCacheSpec : Dict String (KVCacheSpec D))
    (groupedLayerNames : List (List String)) : Except ConfigError (List (KVCacheGroupSpec D)) :=
  groupedLayerNames.mapM fun layerNames => do
    let layerSpecs ← layerNames.mapM (layerSpec kvCacheSpec)
    let mergedLayerSpec ← mergeSpecs layerSpecs
    return ⟨layerNames, .layerSpec mergedLayerSpec⟩

def getKvCacheGroupsUniformPageSize (kvCacheSpec : Dict String (KVCacheSpec D)) :
    Except ConfigError (List (KVCacheGroupSpec D)) := do
  let layers := (sameTypeLayers kvCacheSpec).values
  let size ← groupSize (layers.map List.length)
  let groupedLayers ← layers.mapM (splitLayers size)
  createKvCacheGroupSpecs kvCacheSpec groupedLayers.flatten

/-! ## Layers of one type -/

variable {kvCacheSpec : Dict String (KVCacheSpec D)} {spec : KVCacheSpec D} {name : String}

/-- The layers with a spec, in the order of the map. -/
def layersOf (kvCacheSpec : Dict String (KVCacheSpec D)) (spec : KVCacheSpec D) : List String :=
  (kvCacheSpec.entries.filter fun x => x.2 = spec).map Prod.fst

theorem mem_layersOf : name ∈ layersOf kvCacheSpec spec ↔ kvCacheSpec.get? name = some spec := by
  unfold layersOf
  rw [← mem_entries_iff]
  simp only [mem_map, mem_filter, decide_eq_true_eq]
  constructor
  · rintro ⟨⟨n, s⟩, ⟨hmem, rfl⟩, rfl⟩
    exact hmem
  · intro hmem
    exact ⟨(name, spec), ⟨hmem, rfl⟩, rfl⟩

theorem get?_foldl_appendItem (l : List (String × KVCacheSpec D))
    (d : Dict (KVCacheSpec D) (List String)) (spec : KVCacheSpec D) :
    (l.foldl (fun d x => d.appendItem x.2 x.1) d).get? spec =
      if (l.filter fun x => x.2 = spec).map Prod.fst = [] then d.get? spec
      else some (d.items spec ++ (l.filter fun x => x.2 = spec).map Prod.fst) := by
  induction l generalizing d with
  | nil => rfl
  | cons x l ih =>
    rw [foldl_cons, ih]
    unfold Dict.appendItem
    by_cases hx : x.2 = spec
    · have hcons : ((x :: l).filter fun y => y.2 = spec) = x :: l.filter fun y => y.2 = spec :=
        filter_cons_of_pos (by simpa using hx)
      have hne : x.1 :: (l.filter fun y => y.2 = spec).map Prod.fst ≠ [] := cons_ne_nil _ _
      rw [hcons, map_cons, if_neg hne, hx, get?_set_self, Dict.items_set, if_pos rfl,
        append_assoc, singleton_append]
      split
      · rename_i hnil
        rw [hnil]
      · rfl
    · have hcons : ((x :: l).filter fun y => y.2 = spec) = l.filter fun y => y.2 = spec :=
        filter_cons_of_neg (by simpa using hx)
      rw [hcons, get?_set_of_ne _ _ (Ne.symm hx), Dict.items_set, if_neg (Ne.symm hx)]

theorem get?_sameTypeLayers : (sameTypeLayers kvCacheSpec).get? spec =
    if layersOf kvCacheSpec spec = [] then none else some (layersOf kvCacheSpec spec) :=
  get?_foldl_appendItem kvCacheSpec.entries .empty spec

theorem mem_values_sameTypeLayers {layers : List String} :
    layers ∈ (sameTypeLayers kvCacheSpec).values ↔
      layers ≠ [] ∧ ∃ spec, layers = layersOf kvCacheSpec spec := by
  rw [mem_values_iff]
  constructor
  · rintro ⟨spec, hget⟩
    rw [get?_sameTypeLayers] at hget
    split at hget
    · cases hget
    · rename_i hne
      cases hget
      exact ⟨hne, spec, rfl⟩
  · rintro ⟨hne, spec, rfl⟩
    exact ⟨spec, by rw [get?_sameTypeLayers, if_neg hne]⟩

theorem flatten_values_appendItem (d : Dict (KVCacheSpec D) (List String)) (spec : KVCacheSpec D)
    (name : String) : (d.appendItem spec name).values.flatten.Perm (name :: d.values.flatten) := by
  obtain ⟨entries, hkeys⟩ := d
  show ((assocSet spec (((assocGet? spec entries).getD []) ++ [name]) entries).map Prod.snd).flatten.Perm
    (name :: (entries.map Prod.snd).flatten)
  clear hkeys
  induction entries with
  | nil => exact Perm.refl _
  | cons x entries ih =>
    by_cases hx : x.1 = spec
    · rw [assocSet, if_pos hx, assocGet?, if_pos hx]
      show (x.2 ++ [name] ++ (entries.map Prod.snd).flatten).Perm (name :: (x.2 ++ _))
      rw [append_assoc]
      exact perm_middle
    · rw [assocSet, if_neg hx, assocGet?, if_neg hx]
      exact (ih.append_left x.2).trans perm_middle

theorem flatten_sameTypeLayers :
    (sameTypeLayers kvCacheSpec).values.flatten.Perm (kvCacheSpec.entries.map Prod.fst) := by
  have hfold : ∀ (l : List (String × KVCacheSpec D)) (d : Dict (KVCacheSpec D) (List String)),
      (l.foldl (fun d x => d.appendItem x.2 x.1) d).values.flatten.Perm
        (l.map Prod.fst ++ d.values.flatten) := by
    intro l
    induction l with
    | nil => exact fun d => Perm.refl _
    | cons x l ih =>
      intro d
      refine (ih _).trans ?_
      refine ((flatten_values_appendItem d x.2 x.1).append_left _).trans ?_
      exact perm_middle
  have h := hfold kvCacheSpec.entries .empty
  rwa [show (Dict.empty : Dict (KVCacheSpec D) (List String)).values.flatten = [] from rfl,
    append_nil] at h

/-! ## Merging equal specs -/

/-- A spec that `merge` accepts: not "both sliding window layers and chunked local attention". -/
def Supported : KVCacheSpec D → Prop
  | .fullAttention spec | .sinkFullAttention spec _ =>
    spec.slidingWindow = none ∨ spec.attentionChunkSize = none
  | _ => True

/-- What `merge` makes of layers with one spec: for `MLAAttentionSpec` it leaves the window out. -/
def mergedSpec : KVCacheSpec D → KVCacheSpec D
  | .mlaAttention spec cacheDtypeStr => .mlaAttention { toAttentionSpec := spec.toAttentionSpec } cacheDtypeStr
  | spec => spec

theorem mergeWindowSizes_replicate {β : Type} (n : Nat) (f : β → Option Nat) (b : β) :
    mergeWindowSizes ((replicate (n + 1) b).filterMap f) = .ok (f b) := by
  unfold mergeWindowSizes
  cases hf : f b with
  | none => rw [filterMap_replicate_of_none hf]; rfl
  | some w => rw [filterMap_replicate_of_some hf, replicate_dedup n.succ_ne_zero]

theorem all_replicate {β : Type} {p : β → Bool} {b : β} (n : Nat) (hp : p b = true) :
    (replicate n b).all p = true := by
  rw [List.all_replicate, hp]
  split <;> rfl

theorem mergeFullAttention_replicate {build : FullAttentionSpec D → KVCacheSpec D} {n : Nat}
    {full : FullAttentionSpec D} (hfull : spec.asFullAttention = some full)
    (hmla : spec.asMlaAttention = none)
    (hone : full.slidingWindow = none ∨ full.attentionChunkSize = none) :
    mergeFullAttention build full (replicate (n + 1) spec) = .ok (build full) := by
  have hfulls : (replicate (n + 1) spec).filterMap KVCacheSpec.asFullAttention =
      replicate (n + 1) full := filterMap_replicate_of_some hfull
  have hnone : (full.slidingWindow.isNone || full.attentionChunkSize.isNone) = true := by
    rcases hone with h | h
    · rw [h]; rfl
    · rw [h]; exact Bool.or_true _
  have hsame : ((replicate (n + 1) full).all fun s =>
      decide (s.toAttentionSpec = full.toAttentionSpec)) = true :=
    all_replicate _ (decide_eq_true rfl)
  unfold mergeFullAttention
  rw [all_replicate _ (by rw [hfull]; rfl), all_replicate _ (by rw [hmla]; rfl), hfulls]
  dsimp only
  rw [mergeWindowSizes_replicate, mergeWindowSizes_replicate, hsame]
  simp only [ok_bind, hnone]
  rfl

theorem mergeSpecs_replicate (hspec : Supported spec) (n : Nat) :
    mergeSpecs (replicate (n + 1) spec) = .ok (mergedSpec spec) := by
  have hsame : ((replicate n spec).all fun s => decide (s = spec)) = true :=
    all_replicate _ (decide_eq_true rfl)
  cases spec with
  | fullAttention full =>
    have hfull : (KVCacheSpec.fullAttention full).asFullAttention = some full := rfl
    exact mergeFullAttention_replicate (n := n) hfull rfl hspec
  | sinkFullAttention full sinkLen =>
    have hfull : (KVCacheSpec.sinkFullAttention full sinkLen).asFullAttention = some full := rfl
    show mergeFullAttention (.sinkFullAttention · sinkLen) full (replicate (n + 1) _) = _
    exact mergeFullAttention_replicate (n := n) hfull rfl hspec
  | mlaAttention full cacheDtypeStr =>
    have hdedup : ((replicate (n + 1) (KVCacheSpec.mlaAttention full cacheDtypeStr)).filterMap
        KVCacheSpec.asMlaAttention).dedup = [cacheDtypeStr] := by
      have hmla : (KVCacheSpec.mlaAttention full cacheDtypeStr).asMlaAttention = some cacheDtypeStr := rfl
      rw [filterMap_replicate_of_some hmla, replicate_dedup n.succ_ne_zero]
    show mergeMlaAttention full (replicate (n + 1) _) = _
    unfold mergeMlaAttention
    rw [all_replicate _ rfl, hdedup]
    rfl
  | chunkedLocalAttention s chunk | slidingWindow s window | encoderOnlyAttention s
  | crossAttention s | mamba s =>
    rw [replicate_succ]
    simp only [mergeSpecs]
    rw [hsame]
    rfl

/-! ## The groups -/

theorem foldl_pos {f : Nat → Nat → Nat} (hf : ∀ a b, 0 < a → 0 < b → 0 < f a b) {l : List Nat} {a : Nat}
    (ha : 0 < a) (hl : ∀ b ∈ l, 0 < b) : 0 < l.foldl f a := by
  induction l generalizing a with
  | nil => exact ha
  | cons b l ih =>
    exact ih (hf a b ha (hl b mem_cons_self)) fun c hc => hl c (mem_cons_of_mem _ hc)

theorem groupSize_ok {numLayers : List Nat} (hne : numLayers ≠ []) (hpos : ∀ n ∈ numLayers, 0 < n) :
    ∃ size, groupSize numLayers = .ok size ∧ 0 < size := by
  cases numLayers with
  | nil => exact absurd rfl hne
  | cons a l =>
    have ha : 0 < a := hpos a mem_cons_self
    have hl : ∀ b ∈ l, 0 < b := fun b hb => hpos b (mem_cons_of_mem _ hb)
    refine ⟨_, rfl, ?_⟩
    split
    · exact foldl_pos (fun x y hx _ => lt_max_of_lt_left hx) ha hl
    · exact foldl_pos (fun x y hx hy => lt_min hx hy) ha hl

/-- The groups of the layers of a type. -/
def splitGroups (size : Nat) (layers : List String) : List (List String) :=
  (range (KvCache.cdiv layers.length size)).map fun i =>
    everyNth (KvCache.cdiv layers.length size) i layers

theorem splitLayers_ok {size : Nat} (hsize : 0 < size) (layers : List String) :
    splitLayers size layers = .ok (splitGroups size layers) := by
  unfold splitLayers cdiv
  rw [if_neg hsize.ne']
  rfl

theorem cdiv_pos {n size : Nat} (hn : 0 < n) (hsize : 0 < size) : 0 < KvCache.cdiv n size := by
  refine Nat.pos_of_ne_zero fun hzero => ?_
  have := (KvCache.cdiv_le_iff hsize).mp hzero.le
  omega

theorem splitGroups_perm {size : Nat} (hsize : 0 < size) {layers : List String} (hne : layers ≠ []) :
    (splitGroups size layers).flatten.Perm layers := by
  have h := flatMap_everyNth_perm (cdiv_pos (length_pos_iff.mpr hne) hsize) layers
  rwa [flatMap_def] at h

/-- `_get_kv_cache_groups_uniform_page_size` before the specs are merged. -/
def uniformGroups (kvCacheSpec : Dict String (KVCacheSpec D)) (size : Nat) : List (List String) :=
  (sameTypeLayers kvCacheSpec).values.flatMap (splitGroups size)

theorem uniformGroups_perm {size : Nat} (hsize : 0 < size) :
    (uniformGroups kvCacheSpec size).flatten.Perm (kvCacheSpec.entries.map Prod.fst) := by
  refine Perm.trans ?_ flatten_sameTypeLayers
  have hne : ∀ layers ∈ (sameTypeLayers kvCacheSpec).values, layers ≠ [] :=
    fun layers h => (mem_values_sameTypeLayers.mp h).1
  unfold uniformGroups
  generalize (sameTypeLayers kvCacheSpec).values = l at hne
  induction l with
  | nil => exact Perm.refl _
  | cons layers l ih =>
    rw [flatMap_cons, flatten_append]
    exact (splitGroups_perm hsize (hne layers mem_cons_self)).append
      (ih fun x hx => hne x (mem_cons_of_mem _ hx))

theorem mem_uniformGroups {size : Nat} {names : List String} :
    names ∈ uniformGroups kvCacheSpec size ↔ ∃ spec i,
      i < KvCache.cdiv (layersOf kvCacheSpec spec).length size ∧ layersOf kvCacheSpec spec ≠ [] ∧
        names = everyNth (KvCache.cdiv (layersOf kvCacheSpec spec).length size) i
          (layersOf kvCacheSpec spec) := by
  unfold uniformGroups splitGroups
  simp only [mem_flatMap, mem_values_sameTypeLayers, mem_map, mem_range]
  constructor
  · rintro ⟨layers, ⟨hne, spec, rfl⟩, i, hi, rfl⟩
    exact ⟨spec, i, hi, hne, rfl⟩
  · rintro ⟨spec, i, hi, hne, rfl⟩
    exact ⟨_, ⟨hne, spec, rfl⟩, i, hi, rfl⟩

/-- The groups of the layers of a map, at most `size` layers each. -/
structure UniformPageGroups (kvCacheSpec : Dict String (KVCacheSpec D)) (size : Nat)
    (groups : List (KVCacheGroupSpec D)) : Prop where
  /-- the groups share the layers out -/
  layers : (groups.flatMap KVCacheGroupSpec.layerNames).Perm (kvCacheSpec.entries.map Prod.fst)
  exactlyOne : ∀ name spec, kvCacheSpec.get? name = some spec →
    ∃! i : Nat, ∃ group, groups[i]? = some group ∧ name ∈ group.layerNames
  sameSpec : ∀ group ∈ groups, ∃ spec, group.kvCacheSpec = .layerSpec (mergedSpec spec) ∧
    ∀ name ∈ group.layerNames, kvCacheSpec.get? name = some spec
  nonempty : ∀ group ∈ groups, group.layerNames ≠ []
  atMost : ∀ group ∈ groups, group.layerNames.length ≤ size
  /-- the `i`-th group of a type has its layers `i`, `i + n`, `i + 2 * n`, … -/
  strided : ∀ group ∈ groups, ∃ spec i, i < KvCache.cdiv (layersOf kvCacheSpec spec).length size ∧
    ∀ j : Nat, group.layerNames[j]? =
      (layersOf kvCacheSpec spec)[i + j * KvCache.cdiv (layersOf kvCacheSpec spec).length size]?

theorem createKvCacheGroupSpecs_ok {grouped : List (List String)}
    (hsame : ∀ names ∈ grouped, names ≠ [] ∧ ∃ spec, Supported spec ∧
      ∀ name ∈ names, kvCacheSpec.get? name = some spec) :
    ∃ groups, createKvCacheGroupSpecs kvCacheSpec grouped = .ok groups ∧
      groups.map KVCacheGroupSpec.layerNames = grouped ∧
      ∀ group ∈ groups, ∃ spec, group.kvCacheSpec = .layerSpec (mergedSpec spec) ∧
        ∀ name ∈ group.layerNames, kvCacheSpec.get? name = some spec := by
  unfold createKvCacheGroupSpecs
  induction grouped with
  | nil => exact ⟨[], rfl, rfl, fun group h => absurd h not_mem_nil⟩
  | cons names grouped ih =>
    obtain ⟨hne, spec, hsupported, hspec⟩ := hsame names mem_cons_self
    obtain ⟨groups, hok, hnames, hgroups⟩ := ih fun x hx => hsame x (mem_cons_of_mem _ hx)
    have hspecs : names.mapM (layerSpec kvCacheSpec) = .ok (names.map fun _ => spec) := by
      refine mapM_ok fun name hname => ?_
      unfold layerSpec
      rw [hspec name hname]
    have hmerge : mergeSpecs (names.map fun _ => spec) = .ok (mergedSpec spec) := by
      rw [map_const', ← Nat.sub_add_cancel (length_pos_iff.mpr hne)]
      exact mergeSpecs_replicate hsupported _
    refine ⟨⟨names, .layerSpec (mergedSpec spec)⟩ :: groups, ?_, ?_, ?_⟩
    · rw [mapM_cons, hspecs, ok_bind, hmerge, ok_bind, hok]
      rfl
    · rw [map_cons, hnames]
    · intro group hgroup
      rcases mem_cons.mp hgroup with rfl | hgroup
      · exact ⟨spec, rfl, hspec⟩
      · exact hgroups group hgroup

theorem sameTypeLayers_ne_nil (hne : kvCacheSpec.entries ≠ []) :
    (sameTypeLayers kvCacheSpec).values.map List.length ≠ [] := by
  intro hnil
  have hperm := @flatten_sameTypeLayers _ _ kvCacheSpec
  rw [map_eq_nil_iff.mp hnil] at hperm
  exact hne (map_eq_nil_iff.mp (nil_perm.mp hperm))

/-- For every map with layers, and specs that can be merged, the groups share the layers
out: each layer in one group, the layers of a group with one spec and in strides. -/
theorem uniform_page_size_groups (hne : kvCacheSpec.entries ≠ [])
    (hsupported : ∀ name spec, kvCacheSpec.get? name = some spec → Supported spec) :
    ∃ size groups, groupSize ((sameTypeLayers kvCacheSpec).values.map List.length) = .ok size ∧
      getKvCacheGroupsUniformPageSize kvCacheSpec = .ok groups ∧
      UniformPageGroups kvCacheSpec size groups := by
  obtain ⟨size, hsize, hpos⟩ := groupSize_ok (sameTypeLayers_ne_nil hne) (by
    intro n hn
    obtain ⟨layers, hlayers, rfl⟩ := mem_map.mp hn
    exact length_pos_iff.mpr (mem_values_sameTypeLayers.mp hlayers).1)
  have hgrouped : ∀ names ∈ uniformGroups kvCacheSpec size, names ≠ [] ∧ ∃ spec, Supported spec ∧
      ∀ name ∈ names, kvCacheSpec.get? name = some spec := by
    intro names hnames
    obtain ⟨spec, i, hi, hlayers, rfl⟩ := mem_uniformGroups.mp hnames
    have hcount : 0 < KvCache.cdiv (layersOf kvCacheSpec spec).length size :=
      cdiv_pos (length_pos_iff.mpr hlayers) hpos
    have hle : KvCache.cdiv (layersOf kvCacheSpec spec).length size ≤
        (layersOf kvCacheSpec spec).length :=
      (KvCache.cdiv_le_iff hpos).mpr (Nat.le_mul_of_pos_right _ hpos)
    obtain ⟨first, hfirst⟩ := exists_mem_of_ne_nil _ hlayers
    exact ⟨everyNth_ne_nil hcount (hi.trans_le hle), spec, hsupported first spec (mem_layersOf.mp hfirst),
      fun name hname => mem_layersOf.mp (mem_of_mem_everyNth hname)⟩
  obtain ⟨groups, hgroups, hnames, hspecs⟩ := createKvCacheGroupSpecs_ok hgrouped
  have hmem : ∀ group ∈ groups, group.layerNames ∈ uniformGroups kvCacheSpec size := by
    intro group hgroup
    rw [← hnames]
    exact mem_map_of_mem hgroup
  have hperm : (groups.flatMap KVCacheGroupSpec.layerNames).Perm (kvCacheSpec.entries.map Prod.fst) := by
    rw [flatMap_def, hnames]
    exact uniformGroups_perm hpos
  refine ⟨size, groups, hsize, ?_, hperm, ?_, hspecs, ?_, ?_, ?_⟩
  · unfold getKvCacheGroupsUniformPageSize
    dsimp only
    rw [hsize, ok_bind, mapM_ok fun layers _ => splitLayers_ok hpos layers, ok_bind]
    exact hgroups
  · intro name spec hget
    have hnodup : (groups.map KVCacheGroupSpec.layerNames).flatten.Nodup := by
      exact hperm.nodup_iff.mpr kvCacheSpec.nodupKeys
    have hname : name ∈ (groups.map KVCacheGroupSpec.layerNames).flatten := by
      rw [← flatMap_def, hperm.mem_iff]
      exact mem_map.mpr ⟨_, mem_entries_iff.mpr hget, rfl⟩
    obtain ⟨i, ⟨l, hl, hin⟩, hunique⟩ := existsUnique_of_nodup_flatten hnodup hname
    rw [getElem?_map] at hl
    obtain ⟨group, hgroup, rfl⟩ := Option.map_eq_some_iff.mp hl
    refine ⟨i, ⟨group, hgroup, hin⟩, ?_⟩
    rintro j ⟨group', hgroup', hin'⟩
    refine hunique j ⟨group'.layerNames, ?_, hin'⟩
    rw [getElem?_map, hgroup']
    rfl
  · intro group hgroup
    exact (hgrouped _ (hmem group hgroup)).1
  · intro group hgroup
    obtain ⟨spec, i, hi, hlayers, heq⟩ := mem_uniformGroups.mp (hmem group hgroup)
    rw [heq]
    exact length_everyNth_le (cdiv_pos (length_pos_iff.mpr hlayers) hpos)
      ((KvCache.cdiv_le_iff hpos).mp (le_refl _))
  · intro group hgroup
    obtain ⟨spec, i, hi, hlayers, heq⟩ := mem_uniformGroups.mp (hmem group hgroup)
    refine ⟨spec, i, hi, fun j => ?_⟩
    rw [heq]
    exact getElem?_everyNth (cdiv_pos (length_pos_iff.mpr hlayers) hpos) _ i j

/-- Two full attention layers and three with a sliding window: the groups are
(full.0, full.1), (sw.0, sw.2), (sw.1). -/
def twoTypes : Dict String (KVCacheSpec Unit) where
  entries :=
    [("full.0", .fullAttention ⟨⟨16, 1, 8, (), none⟩, 8, none, none⟩),
      ("sw.0", .slidingWindow ⟨16, 1, 8, (), none⟩ 128),
      ("sw.1", .slidingWindow ⟨16, 1, 8, (), none⟩ 128),
      ("full.1", .fullAttention ⟨⟨16, 1, 8, (), none⟩, 8, none, none⟩),
      ("sw.2", .slidingWindow ⟨16, 1, 8, (), none⟩ 128)]
  nodupKeys := by decide

theorem uniform_page_size_groups_two :
    ∃ size groups, groupSize ((sameTypeLayers twoTypes).values.map List.length) = .ok size ∧
      getKvCacheGroupsUniformPageSize twoTypes = .ok groups ∧
      UniformPageGroups twoTypes size groups := by
  have hall : ∀ x ∈ twoTypes.entries, Supported x.2 := by simp [twoTypes, Supported]
  refine uniform_page_size_groups (cons_ne_nil _ _) ?_
  intro name spec hget
  exact hall (name, spec) (mem_entries_iff.mpr hget)

end MyOperator.KvConfig
