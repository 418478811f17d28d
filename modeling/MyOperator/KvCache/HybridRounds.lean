import MyOperator.KvCache.HybridCoordinator
import MyOperator.KvCache.SpecHit

/-!
# The rounds of the hybrid lookup

What one lookup, one round over the attention groups and the whole iteration do to
the candidate length and to the stored blocks. Without eagle every round is a
`Round` of the hit predicates of the groups, so the iteration ends at the greatest
common hit.
-/

namespace MyOperator.KvCache

open Lib List Nat

namespace HybridKVCacheCoordinator

/-! ## The attention groups -/

/-- The groups are split by spec. -/
structure Split (kvCacheGroups : List KVCacheSpec) (attentionGroups : List AttentionGroup) :
    Prop where
  specs : (attentionGroups.map AttentionGroup.spec).Nodup
  nonempty : ∀ g ∈ attentionGroups, g.groupIds ≠ []
  mem : ∀ g ∈ attentionGroups, ∀ i ∈ g.groupIds, kvCacheGroups[i]? = some g.spec
  cover : ∀ (i : Nat) (spec : KVCacheSpec), kvCacheGroups[i]? = some spec →
    ∃ g ∈ attentionGroups, g.spec = spec ∧ i ∈ g.groupIds
  cls : ∀ g ∈ attentionGroups, g.managerCls = specManagerMap g.spec.kind

/-- What `__init__` establishes. -/
structure Valid (c : HybridKVCacheCoordinator) : Prop where
  split : Split c.kvCacheGroups c.attentionGroups
  two : 1 < c.attentionGroups.length
  order : ∃ fulls others, c.attentionGroups = fulls ++ others ∧
    (∀ g ∈ fulls, g.spec.isFullAttention = true) ∧ ∀ g ∈ others, g.spec.isFullAttention = false
  lcm : ∀ g ∈ c.attentionGroups, g.spec.blockSize ∣ c.lcmBlockSize
  lcmPos : (∀ g ∈ c.attentionGroups, 0 < g.spec.blockSize) → 0 < c.lcmBlockSize
  hash : ∀ g ∈ c.attentionGroups, c.hashBlockSize ∣ g.spec.blockSize

/-- An attention group after group `i` has joined it. -/
private def joined (spec : KVCacheSpec) (i : Nat) (g : AttentionGroup) : AttentionGroup :=
  if g.spec = spec then { g with groupIds := g.groupIds ++ [i] } else g

@[simp] private theorem joined_spec (spec : KVCacheSpec) (i : Nat) (g : AttentionGroup) :
    (joined spec i g).spec = g.spec := by
  unfold joined
  split <;> rfl

private theorem joined_groupIds (spec : KVCacheSpec) (i : Nat) (g : AttentionGroup) :
    (joined spec i g).groupIds = if g.spec = spec then g.groupIds ++ [i] else g.groupIds := by
  unfold joined
  split <;> rfl

variable {i : Nat} {ags : List AttentionGroup} {groups : List KVCacheSpec}

private theorem addKvCacheGroup_eq {spec : KVCacheSpec} (hn : (ags.map AttentionGroup.spec).Nodup)
    (hc : ∀ g ∈ ags, g.managerCls = specManagerMap g.spec.kind) :
    addKvCacheGroup spec i ags = .ok (if spec ∈ ags.map AttentionGroup.spec
      then ags.map (joined spec i) else ags ++ [⟨spec, [i], specManagerMap spec.kind⟩]) := by
  induction ags with
  | nil => rfl
  | cons g ags ih =>
    obtain ⟨hg, hn⟩ := nodup_cons.mp hn
    unfold addKvCacheGroup
    by_cases hs : g.spec = spec
    · have hrest : ags.map (joined spec i) = ags := by
        refine (map_congr_left fun g' hg' => ?_).trans (map_id ags)
        have hne : g'.spec ≠ spec := fun h0 => hg (hs ▸ h0 ▸ mem_map_of_mem hg')
        rw [joined, if_neg hne]
        rfl
      simp [hs, hc g (by simp), assert, joined, hrest]
    · rw [if_neg hs, ih hn fun g' hg' => hc g' (mem_cons_of_mem _ hg'), ok_bind]
      by_cases hm : spec ∈ ags.map AttentionGroup.spec
      · simp [hm, joined, hs]
      · simp [hm, Ne.symm hs]

private theorem Split.add {spec : KVCacheSpec} (h : Split groups ags) :
    ∃ ags', addKvCacheGroup spec groups.length ags = .ok ags' ∧ Split (groups ++ [spec]) ags' := by
  have hmem : ∀ g ∈ ags, ∀ i ∈ g.groupIds, (groups ++ [spec])[i]? = some g.spec := by
    intro g hg i hi
    have hget := h.mem g hg i hi
    rw [getElem?_append_left (lt_of_getElem? hget), hget]
  have hlast : (groups ++ [spec])[groups.length]? = some spec := getElem?_concat_length
  have hsplit : ∀ (i : Nat) s, (groups ++ [spec])[i]? = some s →
      groups[i]? = some s ∨ (i = groups.length ∧ s = spec) := by
    intro i s hi
    rcases lt_or_ge i groups.length with hlt | hge
    · rw [getElem?_append_left hlt] at hi
      exact .inl hi
    · obtain ⟨hlt, -⟩ := List.getElem?_eq_some_iff.mp hi
      obtain rfl : i = groups.length := by simp at hlt; omega
      rw [hlast] at hi
      exact .inr ⟨rfl, (Option.some.inj hi).symm⟩
  refine ⟨_, addKvCacheGroup_eq h.specs h.cls, ?_⟩
  split
  · rename_i hin
    refine ⟨?_, fun g hg => ?_, fun g hg i hi => ?_, fun i s hi => ?_, fun g hg => ?_⟩
    · rw [map_map]
      refine (map_congr_left fun g _ => ?_).symm ▸ h.specs
      exact joined_spec spec groups.length g
    · obtain ⟨g', hg', rfl⟩ := mem_map.mp hg
      rw [joined_groupIds]
      split
      · simp
      · exact h.nonempty g' hg'
    · obtain ⟨g', hg', rfl⟩ := mem_map.mp hg
      rw [joined_spec]
      rw [joined_groupIds] at hi
      split at hi
      · rename_i hs
        rcases mem_append.mp hi with hi | hi
        · exact hmem g' hg' i hi
        · rw [mem_singleton.mp hi, hlast, hs]
      · exact hmem g' hg' i hi
    · rcases hsplit i s hi with hi | ⟨rfl, rfl⟩
      · obtain ⟨g, hg, hs, hig⟩ := h.cover i s hi
        refine ⟨_, mem_map_of_mem hg, by rw [joined_spec, hs], ?_⟩
        rw [joined_groupIds]
        split
        · exact mem_append_left _ hig
        · exact hig
      · obtain ⟨g, hg, hs⟩ := mem_map.mp hin
        refine ⟨_, mem_map_of_mem hg, by rw [joined_spec, hs], ?_⟩
        rw [joined_groupIds, if_pos hs]
        simp
    · obtain ⟨g', hg', rfl⟩ := mem_map.mp hg
      rw [joined_spec, ← h.cls g' hg']
      unfold joined
      split <;> rfl
  · rename_i hnot
    refine ⟨?_, fun g hg => ?_, fun g hg i hi => ?_, fun i s hi => ?_, fun g hg => ?_⟩
    · rw [map_append, map_singleton]
      rw [← concat_eq_append]
      exact h.specs.concat hnot
    · rcases mem_append.mp hg with hg | hg
      · exact h.nonempty g hg
      · rw [mem_singleton.mp hg]
        simp
    · rcases mem_append.mp hg with hg | hg
      · exact hmem g hg i hi
      · rw [mem_singleton.mp hg] at hi ⊢
        rw [mem_singleton.mp hi, hlast]
    · rcases hsplit i s hi with hi | ⟨rfl, rfl⟩
      · obtain ⟨g, hg, hs⟩ := h.cover i s hi
        exact ⟨g, mem_append_left _ hg, hs⟩
      · exact ⟨_, mem_append_right _ (mem_singleton_self _), rfl, by simp⟩
    · rcases mem_append.mp hg with hg | hg
      · exact h.cls g hg
      · rw [mem_singleton.mp hg]

private theorem splitKvCacheGroups_spec {specs : List KVCacheSpec} (h : Split groups ags) :
    ∃ ags', splitKvCacheGroups specs groups.length ags = .ok ags' ∧ Split (groups ++ specs) ags' := by
  induction specs generalizing groups ags with
  | nil => exact ⟨ags, rfl, by simpa using h⟩
  | cons spec specs ih =>
    obtain ⟨ags', hadd, hsplit⟩ :
        ∃ ags', addKvCacheGroup spec groups.length ags = .ok ags' ∧ Split (groups ++ [spec]) ags' :=
      h.add
    obtain ⟨res, hrun, hres⟩ := ih hsplit
    refine ⟨res, ?_, by simpa using hres⟩
    rw [splitKvCacheGroups, hadd, ← hrun]
    simp

private theorem dvd_foldl_lcm {n m : Nat} {l : List Nat} (h : n = m ∨ n ∈ l) :
    n ∣ l.foldl Nat.lcm m := by
  induction l generalizing m n with
  | nil =>
    rcases h with rfl | h
    · exact dvd_refl _
    · cases h
  | cons a l ih =>
    rcases h with rfl | h
    · exact (Nat.dvd_lcm_left n a).trans (ih (.inl rfl))
    · rcases mem_cons.mp h with rfl | h
      · exact (Nat.dvd_lcm_right m n).trans (ih (.inl rfl))
      · exact ih (.inr h)

private theorem foldl_lcm_pos {m : Nat} {l : List Nat} (hm : 0 < m) (h : ∀ a ∈ l, 0 < a) :
    0 < l.foldl Nat.lcm m := by
  induction l generalizing m with
  | nil => exact hm
  | cons a l ih =>
    exact ih (lcm_pos hm (h a (by simp))) fun b hb => h b (mem_cons_of_mem _ hb)

private theorem mem_fullAttentionFirst {g : AttentionGroup} :
    g ∈ fullAttentionFirst ags ↔ g ∈ ags := by
  unfold fullAttentionFirst
  rw [mem_append, mem_filter, mem_filter]
  cases g.spec.isFullAttention <;> simp

private theorem fullAttentionFirst_perm (ags : List AttentionGroup) :
    (fullAttentionFirst ags).Perm ags := filter_append_perm _ ags

theorem init_valid {useEagle : Bool} {hashBlockSize dcp pcp : Nat} {c : HybridKVCacheCoordinator}
    (h : HybridKVCacheCoordinator.init groups useEagle hashBlockSize dcp pcp = .ok c) :
    Valid c ∧ c.kvCacheGroups = groups ∧ c.useEagle = useEagle ∧ c.hashBlockSize = hashBlockSize := by
  obtain ⟨_, hdvd, h⟩ := bind_ok h
  obtain ⟨_, -, h⟩ := bind_ok h
  obtain ⟨_, -, h⟩ := bind_ok h
  obtain ⟨ags, hags, h⟩ := bind_ok h
  obtain ⟨_, htwo, h⟩ := bind_ok h
  cases h
  have hempty : Split [] [] := ⟨by simp, by simp, by simp, by simp, by simp⟩
  obtain ⟨ags', hrun, hsplit⟩ :
      ∃ ags', splitKvCacheGroups groups 0 [] = .ok ags' ∧ Split ([] ++ groups) ags' :=
    splitKvCacheGroups_spec hempty
  rw [hags] at hrun
  cases hrun
  have hperm := fullAttentionFirst_perm ags
  refine ⟨⟨⟨?_, fun g hg => ?_, fun g hg => ?_, fun i s hi => ?_, fun g hg => ?_⟩, ?_, ?_,
    fun g hg => ?_, fun hpos => ?_, fun g hg => ?_⟩, rfl, rfl, rfl⟩
  · exact (hperm.map _).nodup_iff.mpr hsplit.specs
  · exact hsplit.nonempty g (mem_fullAttentionFirst.mp hg)
  · exact hsplit.mem g (mem_fullAttentionFirst.mp hg)
  · obtain ⟨g, hg, hs⟩ := hsplit.cover i s hi
    exact ⟨g, mem_fullAttentionFirst.mpr hg, hs⟩
  · exact hsplit.cls g (mem_fullAttentionFirst.mp hg)
  · rw [hperm.length_eq]
    simpa using htwo
  · refine ⟨_, _, rfl, fun g hg => (mem_filter.mp hg).2, fun g hg => ?_⟩
    simpa using (mem_filter.mp hg).2
  · exact dvd_foldl_lcm (.inr (mem_map_of_mem (mem_fullAttentionFirst.mp hg)))
  · refine foldl_lcm_pos one_pos fun a ha => ?_
    obtain ⟨g, hg, rfl⟩ := mem_map.mp ha
    exact hpos g (mem_fullAttentionFirst.mpr hg)
  · obtain ⟨i, hi⟩ := exists_mem_of_ne_nil _ (hsplit.nonempty g (mem_fullAttentionFirst.mp hg))
    have hget := hsplit.mem g (mem_fullAttentionFirst.mp hg) i hi
    have hall := all_eq_true.mp (assert_eq_ok.mp hdvd) _ (mem_of_getElem? hget)
    exact dvd_of_mod_eq_zero (by simpa using hall)

/-! ## One round -/

/-- The block hashes at the block size of a group. -/
def groupHashes (c : HybridKVCacheCoordinator) (blockHashes : List BlockHash)
    (spec : KVCacheSpec) : List BlockHash := (c.getBlockHashes blockHashes spec).toOption.getD []

/-- An attention group has a hit of `len` tokens. -/
def GroupHit (c : HybridKVCacheCoordinator) (p : BlockPool) (blockHashes : List BlockHash)
    (g : AttentionGroup) (len : Nat) : Prop :=
  SpecHit p g.groupIds (c.groupHashes blockHashes g.spec) c.lcmBlockSize g.spec len

/-- The specs of a coordinator are well formed. -/
structure Positive (c : HybridKVCacheCoordinator) : Prop where
  hashBlockSize : 0 < c.hashBlockSize
  blockSize : ∀ g ∈ c.attentionGroups, 0 < g.spec.blockSize
  chunk : ∀ g ∈ c.attentionGroups, g.spec.ChunkPos

/-- The lookup of a group below `m` tokens. -/
def Lookup (c : HybridKVCacheCoordinator) (p : BlockPool) (blockHashes : List BlockHash)
    (g : AttentionGroup) (m : Nat) (columns : List Column) : Prop :=
  KvCache.findLongestCacheHit g.spec p g.groupIds (c.groupHashes blockHashes g.spec) m c.useEagle
    c.lcmBlockSize 1 1 = .ok columns

/-- The columns of a group are stored. -/
def Stored (hits : Hits) (g : AttentionGroup) (columns : List Column) : Prop :=
  ∀ i ∈ g.groupIds, hits i = some (groupBlocks (g.groupIds.idxOf i) columns)

variable {c : HybridKVCacheCoordinator} {p : BlockPool} {blockHashes : List BlockHash}
  {g : AttentionGroup} {gs rest : List AttentionGroup} {a b m : Nat} {hits hits' : Hits}
  {columns : List Column}

theorem getBlockHashes_eq (h : c.hashBlockSize ∣ g.spec.blockSize) :
    c.getBlockHashes blockHashes g.spec = .ok (c.groupHashes blockHashes g.spec) := by
  unfold groupHashes getBlockHashes blockHashListWithBlockSize
  split
  · rfl
  · simp only [assert, mod_eq_zero_of_dvd h, decide_true, if_true, ok_bind]
    rfl

section

variable (hpos : 0 < c.hashBlockSize) (h : c.hashBlockSize ∣ g.spec.blockSize)
include hpos h

theorem length_groupHashes :
    (c.groupHashes blockHashes g.spec).length =
      blockHashes.length / (g.spec.blockSize / c.hashBlockSize) := by
  unfold groupHashes getBlockHashes blockHashListWithBlockSize
  split
  · rename_i heq
    rw [heq, Nat.div_self hpos, Nat.div_one]
    rfl
  · simp [assert, mod_eq_zero_of_dvd h, Except.toOption]

/-- A length within the hash list stays within it at the block size of a group. -/
theorem div_le_length_groupHashes (ha : a ≤ blockHashes.length * c.hashBlockSize) :
    a / g.spec.blockSize ≤ (c.groupHashes blockHashes g.spec).length := by
  rw [length_groupHashes hpos h]
  obtain ⟨k, hk⟩ := h
  rw [hk, Nat.mul_div_cancel_left _ hpos, ← Nat.mul_div_mul_left _ k hpos]
  refine Nat.div_le_div_right ?_
  rwa [Nat.mul_comm c.hashBlockSize]

theorem mul_length_groupHashes_le :
    (c.groupHashes blockHashes g.spec).length * g.spec.blockSize ≤
      blockHashes.length * c.hashBlockSize := by
  rw [length_groupHashes hpos h]
  obtain ⟨k, hk⟩ := h
  rw [hk, Nat.mul_div_cancel_left _ hpos, Nat.mul_comm c.hashBlockSize, ← Nat.mul_assoc]
  exact Nat.mul_le_mul_right _ (div_mul_le_self _ _)

end

theorem Valid.headD_mem (hv : Valid c) (hg : g ∈ c.attentionGroups) :
    g.groupIds.headD 0 ∈ g.groupIds := by
  cases hids : g.groupIds with
  | nil => exact absurd hids (hv.split.nonempty g hg)
  | cons i ids => simp

theorem Valid.disjoint (hv : Valid c) (hsub : (g :: gs).Sublist c.attentionGroups)
    {g' : AttentionGroup} (hg' : g' ∈ gs) (hi : i ∈ g'.groupIds) : i ∉ g.groupIds := by
  intro hi'
  have h := hv.split.mem g (hsub.subset (by simp)) i hi'
  rw [hv.split.mem g' (hsub.subset (mem_cons_of_mem _ hg')) i hi] at h
  have hn : ((g :: gs).map AttentionGroup.spec).Nodup := hv.split.specs.sublist (hsub.map _)
  exact (nodup_cons.mp hn).1 (Option.some.inj h ▸ mem_map_of_mem hg')

theorem storeHits_of_mem {ids : List Nat} (hi : i ∈ ids) :
    storeHits ids columns hits i = some (groupBlocks (ids.idxOf i) columns) := by
  rw [storeHits, if_pos hi]

theorem storeHits_of_notMem {ids : List Nat} (hi : i ∉ ids) :
    storeHits ids columns hits i = hits i := by
  rw [storeHits, if_neg hi]

/-- A round in which every group of the list is looked up. -/
structure Looked (c : HybridKVCacheCoordinator) (p : BlockPool) (blockHashes : List BlockHash)
    (gs : List AttentionGroup) (a : Nat) (hits : Hits) (b : Nat) (hits' : Hits) : Prop where
  le : b ≤ a
  frame : ∀ i, (∀ g ∈ gs, i ∉ g.groupIds) → hits' i = hits i
  stored : ∀ g ∈ gs, ∃ m columns, m ≤ a ∧ (gs.head? = some g → m = a) ∧
    (gs.head? = some g ∨ c.lcmBlockSize ∣ m) ∧ c.Lookup p blockHashes g m columns ∧
    Stored hits' g columns ∧ b ≤ columns.length * g.spec.blockSize ∧
    (gs.getLast? = some g → b = columns.length * g.spec.blockSize)
  round : c.useEagle = false → Round (gs.map (c.GroupHit p blockHashes)) a b
  bound : gs ≠ [] → b ≤ blockHashes.length * c.hashBlockSize

theorem Lookup.finds (hpos : Positive c) (hg : g ∈ c.attentionGroups)
    (h : c.Lookup p blockHashes g m columns) :
    Finds p g.groupIds (c.groupHashes blockHashes g.spec) c.lcmBlockSize g.spec c.useEagle m
      columns := (findLongestCacheHit_finds (hpos.blockSize g hg) (hpos.chunk g hg) h).2

theorem groupLoop_looked (hv : Valid c) (hpos : Positive c) (hsub : gs.Sublist c.attentionGroups)
    (hsup : ∀ g ∈ gs, g.spec.Supported c.useEagle c.lcmBlockSize)
    (hfresh : ∀ g ∈ gs, g.spec.isFullAttention = true → ∀ i ∈ g.groupIds, hits i = none)
    (hbound : (∀ g ∈ gs.head?, g.spec.isFullAttention = true) ∨
      a ≤ blockHashes.length * c.hashBlockSize) :
    ∃ b hits', c.groupLoop p blockHashes gs a hits = .ok (b, hits') ∧
      Looked c p blockHashes gs a hits b hits' := by
  induction gs generalizing a hits with
  | nil =>
    exact ⟨a, hits, rfl, le_rfl, fun _ _ => rfl, fun g hg => (nomatch hg), fun _ => .nil a,
      fun h => absurd rfl h⟩
  | cons g gs ih =>
    have hg : g ∈ c.attentionGroups := hsub.subset (by simp)
    have hcond : ¬ (g.spec.isFullAttention = true ∧ (hits (g.groupIds.headD 0)).isSome = true) := by
      rintro ⟨hf, hsome⟩
      rw [hfresh g (by simp) hf _ (hv.headD_mem hg)] at hsome
      cases hsome
    obtain ⟨columns, hrun⟩ := @findLongestCacheHit_ok p g.groupIds
      (c.groupHashes blockHashes g.spec) c.lcmBlockSize a g.spec c.useEagle (hsup g (by simp)) (by
        rcases hbound with hf | hle
        · exact .inl (hf g (by simp))
        · exact .inr (div_le_length_groupHashes hpos.hashBlockSize (hv.hash g hg) hle))
    have hlook : c.Lookup p blockHashes g a columns := hrun
    have hfinds := hlook.finds hpos hg
    have hb : columns.length * g.spec.blockSize ≤ blockHashes.length * c.hashBlockSize := by
      rcases hbound with hf | hle
      · refine Nat.le_trans (Nat.mul_le_mul_right _ ?_)
          (mul_length_groupHashes_le hpos.hashBlockSize (hv.hash g hg))
        by_contra hlt
        have := hfinds.full (hf g (by simp)) _ (Nat.lt_of_not_le hlt)
        unfold hitAt at this
        rw [getElem?_eq_none le_rfl] at this
        cases this
      · exact le_trans hfinds.le hle
    -- the specs differ
    have hne : ∀ g' ∈ gs, g' ≠ g := by
      rintro g' hg' rfl
      have hn : ((g' :: gs).map AttentionGroup.spec).Nodup := hv.split.specs.sublist (hsub.map _)
      exact (nodup_cons.mp hn).1 (mem_map_of_mem hg')
    obtain ⟨b, hits', hloop, hl⟩ := @ih (columns.length * g.spec.blockSize)
      (storeHits g.groupIds columns hits) ((sublist_cons_self g gs).trans hsub)
      (fun g' hg' => hsup g' (mem_cons_of_mem _ hg')) (fun g' hg' hf i hi => by
        rw [storeHits_of_notMem (hv.disjoint hsub hg' hi)]
        exact hfresh g' (mem_cons_of_mem _ hg') hf i hi) (.inr hb)
    refine ⟨b, hits', ?_, le_trans hl.le hfinds.le, fun i hi => ?_, fun g' hg' => ?_,
      fun he => .cons (hfinds.descends he) (hl.round he), fun _ => ?_⟩
    · rw [groupLoop, if_neg hcond, getBlockHashes_eq (hv.hash g hg), ok_bind, hrun, ok_bind]
      exact hloop
    · rw [hl.frame i fun g' hg' => hi g' (mem_cons_of_mem _ hg'),
        storeHits_of_notMem (hi g (by simp))]
    · rcases mem_cons.mp hg' with rfl | hg'
      · refine ⟨a, columns, le_rfl, fun _ => rfl, .inl rfl, hlook, fun i hi => ?_, hl.le,
          fun hlast => ?_⟩
        · rw [hl.frame i fun g'' hg'' hi' => hv.disjoint hsub hg'' hi' hi, storeHits_of_mem hi]
        · cases gs with
          | nil =>
            cases hloop
            rfl
          | cons g'' gs =>
            rw [getLast?_cons_cons] at hlast
            exact absurd rfl (hne g' (mem_of_getLast? hlast))
      · obtain ⟨m, columns', hm, heq, h0, h1, h2, h3, h4⟩ := hl.stored g' hg'
        have hal : c.lcmBlockSize ∣ m := h0.elim (fun h => heq h ▸ hfinds.aligned) id
        refine ⟨m, columns', le_trans hm hfinds.le, fun hhead => ?_, .inr hal, h1, h2, h3,
          fun hlast => h4 ?_⟩
        · exact absurd (Option.some.inj hhead) (hne g' hg').symm
        · rwa [getLast?_cons_of_ne_nil (ne_nil_of_mem hg')] at hlast
    · cases gs with
      | nil =>
        cases hloop
        exact hb
      | cons g' gs => exact hl.bound (by simp)

/-! ## All rounds -/

theorem groupLoop_skip (h : ∀ g ∈ gs, g.spec.isFullAttention = true ∧
      (hits (g.groupIds.headD 0)).isSome = true ∧ g.spec.blockSize ∣ a) :
    c.groupLoop p blockHashes (gs ++ rest) a hits = c.groupLoop p blockHashes rest a hits := by
  induction gs with
  | nil => rfl
  | cons g gs ih =>
    obtain ⟨hf, hsome, hdvd⟩ := h g (by simp)
    rw [cons_append, groupLoop, if_pos ⟨hf, hsome⟩]
    dsimp only
    rw [Nat.div_mul_cancel hdvd]
    exact ih fun g' hg' => h g' (mem_cons_of_mem _ hg')

theorem groupLoop_cons : c.groupLoop p blockHashes (g :: rest) a hits =
    if g.spec.isFullAttention ∧ (hits (g.groupIds.headD 0)).isSome then
      c.groupLoop p blockHashes rest (a / g.spec.blockSize * g.spec.blockSize) hits
    else (do
      let blockHashes' ← c.getBlockHashes blockHashes g.spec
      let columns ← KvCache.findLongestCacheHit g.spec p g.groupIds blockHashes' a
        c.useEagle c.lcmBlockSize 1 1
      c.groupLoop p blockHashes rest (columns.length * g.spec.blockSize)
        (storeHits g.groupIds columns hits)) := rfl

theorem groupLoop_append :
    c.groupLoop p blockHashes (gs ++ rest) a hits =
      (c.groupLoop p blockHashes gs a hits >>= fun r => c.groupLoop p blockHashes rest r.1 r.2) := by
  induction gs generalizing a hits with
  | nil => rfl
  | cons g gs ih =>
    rw [cons_append, groupLoop_cons, groupLoop_cons]
    split
    · exact ih
    · cases c.getBlockHashes blockHashes g.spec with
      | error e => rfl
      | ok hashes =>
        cases hfind : KvCache.findLongestCacheHit g.spec p g.groupIds hashes a c.useEagle
            c.lcmBlockSize 1 1 with
        | error e => simp only [ok_bind, hfind, error_bind]
        | ok columns =>
          simp only [ok_bind, hfind]
          exact ih

theorem Lookup.groupHit (hv : Valid c) (hpos : Positive c) (hg : g ∈ c.attentionGroups)
    (hf : g.spec.isFullAttention = true) (h : c.Lookup p blockHashes g m columns) {len : Nat}
    (hle : len ≤ columns.length * g.spec.blockSize) (hal : c.lcmBlockSize ∣ len) :
    c.GroupHit p blockHashes g len := by
  have hdvd := (hv.lcm g hg).trans hal
  refine ⟨len / g.spec.blockSize, (Nat.div_mul_cancel hdvd).symm, ?_, fun j hj _ => ?_⟩
  · rw [Nat.div_mul_cancel hdvd]
    exact mod_eq_zero_of_dvd hal
  · refine (h.finds hpos hg).full hf j (lt_of_lt_of_le hj ?_)
    rw [div_le_iff_le_mul_add_pred (hpos.blockSize g hg), mul_comm]
    omega

/-- Full attention is stored with at least `a` tokens. -/
def FullStored (c : HybridKVCacheCoordinator) (p : BlockPool) (blockHashes : List BlockHash)
    (hits : Hits) (a : Nat) : Prop :=
  ∀ g ∈ c.attentionGroups, g.spec.isFullAttention = true → ∃ m columns,
    c.Lookup p blockHashes g m columns ∧ Stored hits g columns ∧ a ≤ columns.length * g.spec.blockSize

/-- The end of the rounds from a state where full attention is stored. -/
structure Settled (c : HybridKVCacheCoordinator) (p : BlockPool) (blockHashes : List BlockHash)
    (a : Nat) (hits : Hits) (hitLength : Nat) (hits' : Hits) : Prop where
  le : hitLength ≤ a
  aligned : c.lcmBlockSize ∣ hitLength
  keeps : ∀ g ∈ c.attentionGroups, g.spec.isFullAttention = true → ∀ i ∈ g.groupIds,
    hits' i = hits i
  stored : ∀ g ∈ c.attentionGroups, g.spec.isFullAttention = false → ∃ m columns,
    c.Lookup p blockHashes g m columns ∧ Stored hits' g columns ∧
      hitLength = columns.length * g.spec.blockSize
  settles : c.useEagle = false →
    Settles (c.attentionGroups.map (c.GroupHit p blockHashes)) a hitLength

theorem Looked.aligned (hpos : Positive c) (hsub : ∀ g ∈ gs, g ∈ c.attentionGroups) (hne : gs ≠ [])
    (h : Looked c p blockHashes gs a hits b hits') : c.lcmBlockSize ∣ b := by
  have hlast := getLast?_eq_some_getLast hne
  obtain ⟨m, columns, -, -, -, hlook, -, -, hb⟩ := h.stored _ (getLast_mem hne)
  rw [hb hlast]
  exact (hlook.finds hpos (hsub _ (getLast_mem hne))).aligned

theorem Looked.stored_eq (hpos : Positive c) (hsub : ∀ g ∈ gs, g ∈ c.attentionGroups)
    (h : Looked c p blockHashes gs a hits b hits') (hab : a ≤ b) (hg : g ∈ gs) :
    ∃ m columns, c.Lookup p blockHashes g m columns ∧ Stored hits' g columns ∧
      b = columns.length * g.spec.blockSize := by
  obtain ⟨m, columns, hm, -, -, hlook, hst, hb, -⟩ := h.stored g hg
  have := (hlook.finds hpos (hsub g hg)).le
  exact ⟨m, columns, hlook, hst, by omega⟩

theorem Valid.disjoint_full (hv : Valid c) {g' : AttentionGroup} (hg : g ∈ c.attentionGroups)
    (hg' : g' ∈ c.attentionGroups) (hf : g.spec.isFullAttention = true)
    (hf' : g'.spec.isFullAttention = false) (hi : i ∈ g.groupIds) : i ∉ g'.groupIds := by
  intro hi'
  have h := hv.split.mem g hg i hi
  rw [hv.split.mem g' hg' i hi'] at h
  rw [← Option.some.inj h, hf'] at hf
  cases hf

section

variable (hv : Valid c) (hpos : Positive c)
  (hsup : ∀ g ∈ c.attentionGroups, g.spec.Supported c.useEagle c.lcmBlockSize)
include hv hpos hsup

theorem hitLoop_settled (hsimple : c.isSimpleHybrid = false) {fuel : Nat} (hfuel : a < fuel)
    (hal : c.lcmBlockSize ∣ a) (hbound : a ≤ blockHashes.length * c.hashBlockSize)
    (hfull : FullStored c p blockHashes hits a) :
    ∃ hitLength hits', c.hitLoop p blockHashes fuel a hits = .ok (some (hitLength, hits')) ∧
      Settled c p blockHashes a hits hitLength hits' := by
  induction fuel generalizing a hits with
  | zero => omega
  | succ fuel ih =>
    obtain ⟨fulls, others, hsplit, hfulls, hothers⟩ := hv.order
    have hmemf : ∀ g ∈ fulls, g ∈ c.attentionGroups := fun g hg => by
      rw [hsplit]
      exact mem_append_left _ hg
    have hmemo : ∀ g ∈ others, g ∈ c.attentionGroups := fun g hg => by
      rw [hsplit]
      exact mem_append_right _ hg
    have hskip : c.groupLoop p blockHashes c.attentionGroups a hits =
        c.groupLoop p blockHashes others a hits := by
      rw [hsplit]
      refine groupLoop_skip fun g hg => ⟨hfulls g hg, ?_, (hv.lcm g (hmemf g hg)).trans hal⟩
      obtain ⟨m, columns, -, hst, -⟩ := hfull g (hmemf g hg) (hfulls g hg)
      rw [hst _ (hv.headD_mem (hmemf g hg))]
      rfl
    obtain ⟨b, hits1, hloop, hl⟩ := @groupLoop_looked c p blockHashes others a hits hv hpos
      (hsplit ▸ sublist_append_right fulls others) (fun g hg => hsup g (hmemo g hg))
      (fun g hg hf => by rw [hothers g hg] at hf; cases hf) (.inr hbound)
    have hkeep : ∀ g ∈ c.attentionGroups, g.spec.isFullAttention = true → ∀ i ∈ g.groupIds,
        hits1 i = hits i := fun g hg hf i hi =>
      hl.frame i fun g' hg' => hv.disjoint_full hg (hmemo g' hg') hf (hothers g' hg') hi
    have hround : c.useEagle = false →
        Round (c.attentionGroups.map (c.GroupHit p blockHashes)) a b := by
      intro he
      rw [hsplit, map_append]
      refine (Round.refl fun P hP => ?_).append (hl.round he)
      obtain ⟨g, hg, rfl⟩ := mem_map.mp hP
      obtain ⟨m, columns, hlook, -, hle⟩ := hfull g (hmemf g hg) (hfulls g hg)
      exact hlook.groupHit hv hpos (hmemf g hg) (hfulls g hg) hle hal
    unfold hitLoop
    rw [hskip, hloop, ok_bind]
    dsimp only
    split
    · rename_i hge
      obtain rfl : b = a := le_antisymm hl.le hge
      refine ⟨b, hits1, rfl, le_rfl, hal, hkeep, fun g hg hf => ?_, fun he => .stop (hround he)⟩
      rw [hsplit] at hg
      rcases mem_append.mp hg with hg | hg
      · rw [hfulls g hg] at hf
        cases hf
      · exact hl.stored_eq hpos hmemo le_rfl hg
    · rename_i hlt
      rw [if_neg (by simp [hsimple])]
      have hne : others ≠ [] := by
        rintro rfl
        cases hloop
        exact hlt le_rfl
      have hle := hl.le
      have hfull1 : FullStored c p blockHashes hits1 b := fun g hg hf => by
        obtain ⟨m, columns, hlook, hst, hle'⟩ := hfull g hg hf
        exact ⟨m, columns, hlook, fun i hi => by rw [hkeep g hg hf i hi]; exact hst i hi,
          le_trans hle hle'⟩
      obtain ⟨hitLength, hits', hrun, hs⟩ := ih (by omega)
        (hl.aligned hpos hmemo hne) (hl.bound hne) hfull1
      exact ⟨hitLength, hits', hrun, le_trans hs.le hle, hs.aligned,
        fun g hg hf i hi => (hs.keeps g hg hf i hi).trans (hkeep g hg hf i hi), hs.stored,
        fun he => .next (hround he) (hs.settles he)⟩

theorem groupLoop_first (hfull : ∃ g ∈ c.attentionGroups, g.spec.isFullAttention = true)
    (maxLength : Nat) :
    ∃ b hits, c.groupLoop p blockHashes c.attentionGroups maxLength (fun _ => none) =
      .ok (b, hits) ∧ Looked c p blockHashes c.attentionGroups maxLength (fun _ => none) b hits := by
  refine groupLoop_looked hv hpos (List.Sublist.refl _) hsup (fun _ _ _ _ _ => rfl) (.inl fun g hg => ?_)
  obtain ⟨fulls, others, hsplit, hfulls, hothers⟩ := hv.order
  cases fulls with
  | nil =>
    obtain ⟨g', hg', hf⟩ := hfull
    rw [hsplit] at hg'
    rw [hothers g' hg'] at hf
    cases hf
  | cons f fulls =>
    rw [hsplit] at hg
    obtain rfl : f = g := by simpa using hg
    exact hfulls f (by simp)

end

theorem hitLoop_simple {maxLength : Nat} (hsimple : c.isSimpleHybrid = true)
    (hloop : c.groupLoop p blockHashes c.attentionGroups maxLength (fun _ => none) = .ok (b, hits))
    (hle : b ≤ maxLength) :
    c.hitLoop p blockHashes (maxLength + 1) maxLength (fun _ => none) = .ok (some (b, hits)) := by
  unfold hitLoop
  rw [hloop, ok_bind]
  dsimp only
  by_cases hge : b ≥ maxLength
  · rw [if_pos hge, le_antisymm hle hge]
  · rw [if_neg hge, if_pos hsimple]

/-- After the first round of any other hybrid full attention is stored for all rounds. -/
theorem hitLoop_first (hv : Valid c) (hpos : Positive c)
    (hsup : ∀ g ∈ c.attentionGroups, g.spec.Supported c.useEagle c.lcmBlockSize)
    (hsimple : c.isSimpleHybrid = false) {maxLength : Nat}
    (hloop : c.groupLoop p blockHashes c.attentionGroups maxLength (fun _ => none) = .ok (b, hits))
    (hl : Looked c p blockHashes c.attentionGroups maxLength (fun _ => none) b hits) :
    ∃ hitLength hits', c.hitLoop p blockHashes (maxLength + 1) maxLength (fun _ => none) =
        .ok (some (hitLength, hits')) ∧
      Settled c p blockHashes b hits hitLength hits' ∧
      (c.useEagle = false →
        Settles (c.attentionGroups.map (c.GroupHit p blockHashes)) maxLength hitLength) := by
  have hne : c.attentionGroups ≠ [] := by
    intro h0
    have := hv.two
    rw [h0] at this
    cases this
  have hal := hl.aligned hpos (fun _ hg => hg) hne
  have hle := hl.le
  unfold hitLoop
  rw [hloop, ok_bind]
  dsimp only
  split
  · rename_i hge
    obtain rfl : b = maxLength := le_antisymm hle hge
    have hstop := fun he => Settles.stop (hl.round he)
    exact ⟨b, hits, rfl, ⟨le_rfl, hal, fun _ _ _ _ _ => rfl,
      fun g hg _ => hl.stored_eq hpos (fun _ hg => hg) le_rfl hg, hstop⟩, hstop⟩
  · rw [if_neg (by simp [hsimple])]
    obtain ⟨hitLength, hits', hrun, hs⟩ := @hitLoop_settled c p blockHashes b hits hv hpos hsup
      hsimple maxLength (by omega) hal (hl.bound hne) fun g hg _ => by
        obtain ⟨m, columns, -, -, -, hlook, hst, hb, -⟩ := hl.stored g hg
        exact ⟨m, columns, hlook, hst, hb⟩
    exact ⟨hitLength, hits', hrun, hs, fun he => .next (hl.round he) (hs.settles he)⟩

end HybridKVCacheCoordinator

end MyOperator.KvCache
