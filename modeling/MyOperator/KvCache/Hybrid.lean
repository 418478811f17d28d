import MyOperator.KvCache.HybridRounds
import MyOperator.KvCache.Populate

/-!
# The longest hit of a hybrid model

`HybridSound` is what the hybrid lookup promises on every cache: it returns, the hit
is aligned, every group's list has exactly the length of the hit, and without eagle
the hit is the greatest length at which every group has one. `HybridExact` is the
condition on the attention groups under which the promise is kept.
-/

namespace MyOperator.KvCache

open Lib List Nat

namespace HybridKVCacheCoordinator

/-- The promise of `find_longest_cache_hit`, for every cache, hash list and maximal length. -/
def HybridSound (c : HybridKVCacheCoordinator) : Prop :=
  ∀ (p : BlockPool) (blockHashes : List BlockHash) (maxLength : Nat), BlockPool.Coherent p →
    ∃ blocks hitLength,
      c.findLongestCacheHit p blockHashes maxLength = .ok (some (blocks, hitLength)) ∧
      hitLength ≤ maxLength ∧ c.lcmBlockSize ∣ hitLength ∧
      (∀ spec ∈ c.kvCacheGroups, spec.blockSize ∣ hitLength) ∧
      blocks.length = c.kvCacheGroups.length ∧
      (∀ (i : Nat) (spec : KVCacheSpec) (l : List BlockRef), c.kvCacheGroups[i]? = some spec →
        blocks[i]? = some l → l.length * spec.blockSize = hitLength) ∧
      (c.useEagle = false → IsGreatest {len | len ≤ maxLength ∧
        ∀ g ∈ c.attentionGroups, c.GroupHit p blockHashes g len} hitLength)

/-- The attention groups of full attention. -/
def fullGroups (c : HybridKVCacheCoordinator) : List AttentionGroup :=
  c.attentionGroups.filter fun g => g.spec.isFullAttention

/-- Local chunks that start with a block never lower a hit. -/
def NeverLowers (c : HybridKVCacheCoordinator) (g : AttentionGroup) : Prop :=
  ∃ chunk, g.spec.kind = .chunkedLocalAttention chunk ∧ chunk ∣ c.lcmBlockSize

/-- When the hybrid lookup keeps its promise: every lookup is supported; only one full
attention group is cut at the end, so there is one, or nothing lowers the hit after the
second; and where a local chunk is looked up once, it starts with a block. -/
structure HybridExact (c : HybridKVCacheCoordinator) : Prop where
  supported : ∀ g ∈ c.attentionGroups, g.spec.Supported c.useEagle c.lcmBlockSize
  oneFull : c.fullGroups.length ≤ 1 ∨ c.attentionGroups.length ≤ 2 ∨
    (c.fullGroups.length = 2 ∧
      ∀ g ∈ c.attentionGroups, g.spec.isFullAttention = false → c.NeverLowers g)
  chunks : c.attentionGroups.length = 2 → ∀ g ∈ c.attentionGroups, ∀ m,
    g.spec.ChunkAligned (m * g.spec.blockSize)

variable {c : HybridKVCacheCoordinator} {p : BlockPool} {blockHashes : List BlockHash}
  {g f : AttentionGroup} {gs rest : List AttentionGroup} {a b m maxLength hitLength : Nat}
  {hits hits' : Hits} {columns : List Column}

/-! ## Lists and lengths -/

theorem length_groupBlocks {k : Nat} (h : ∀ column ∈ columns, k < column.length) :
    (groupBlocks k columns).length = columns.length := by
  induction columns with
  | nil => rfl
  | cons column columns ih =>
    have hk : k < column.length := h column (by simp)
    have ih := ih fun c hc => h c (mem_cons_of_mem _ hc)
    unfold groupBlocks at *
    rw [filterMap_cons, getElem?_eq_getElem hk]
    simp [ih]

theorem Stored.length (hpos : Positive c) (hg : g ∈ c.attentionGroups)
    (hlook : c.Lookup p blockHashes g m columns) (h : Stored hits g columns) {i : Nat}
    (hi : i ∈ g.groupIds) : ∃ l, hits i = some l ∧ l.length = columns.length := by
  refine ⟨_, h i hi, length_groupBlocks fun column hc => ?_⟩
  rw [(hlook.finds hpos hg).width hc]
  exact idxOf_lt_length_of_mem hi

theorem Valid.exists_first (hv : Valid c)
    (hfull : ∃ g ∈ c.attentionGroups, g.spec.isFullAttention = true) :
    ∃ f rest, c.attentionGroups = f :: rest ∧ f.spec.isFullAttention = true := by
  obtain ⟨fulls, others, hsplit, hfulls, hothers⟩ := hv.order
  cases fulls with
  | nil =>
    obtain ⟨g, hg, hf⟩ := hfull
    rw [hsplit] at hg
    rw [hothers g hg] at hf
    cases hf
  | cons f fulls => exact ⟨f, fulls ++ others, by simp [hsplit], hfulls f (by simp)⟩

theorem isSimpleHybrid_iff (hsplit : c.attentionGroups = f :: rest)
    (hf : f.spec.isFullAttention = true) : c.isSimpleHybrid = true ↔ rest.length = 1 := by
  unfold isSimpleHybrid
  simp [hsplit, hf]

/-! ## The first round in two parts -/

theorem groupLoop_split (hv : Valid c) (hpos : Positive c)
    (hsup : ∀ g ∈ c.attentionGroups, g.spec.Supported c.useEagle c.lcmBlockSize)
    (hsplit : c.attentionGroups = f :: gs ++ rest) (hf : f.spec.isFullAttention = true)
    (maxLength : Nat) :
    ∃ b₁ hits₁ b hits, Looked c p blockHashes (f :: gs) maxLength (fun _ => none) b₁ hits₁ ∧
      Looked c p blockHashes rest b₁ hits₁ b hits ∧
      c.groupLoop p blockHashes c.attentionGroups maxLength (fun _ => none) = .ok (b, hits) ∧
      Looked c p blockHashes c.attentionGroups maxLength (fun _ => none) b hits := by
  have hleft : (f :: gs).Sublist c.attentionGroups := hsplit ▸ sublist_append_left _ _
  have hright : rest.Sublist c.attentionGroups := hsplit ▸ sublist_append_right _ _
  obtain ⟨b₁, hits₁, hloop₁, hl₁⟩ := @groupLoop_looked c p blockHashes (f :: gs) maxLength
    (fun _ => none) hv hpos hleft (fun g hg => hsup g (hleft.subset hg)) (fun _ _ _ _ _ => rfl)
    (.inl fun g hg => by
      obtain rfl : f = g := by simpa using hg
      exact hf)
  have hdisj : ∀ g ∈ rest, ∀ g' ∈ f :: gs, ∀ i ∈ g.groupIds, i ∉ g'.groupIds := by
    intro g hg g' hg' i hi hi'
    have hspec := hv.split.mem g (hright.subset hg) i hi
    rw [hv.split.mem g' (hleft.subset hg') i hi'] at hspec
    have hn := hv.split.specs
    rw [hsplit, map_append, nodup_append] at hn
    exact hn.2.2 _ (mem_map_of_mem hg') _ (mem_map_of_mem hg) (Option.some.inj hspec)
  obtain ⟨b, hits, hloop, hl⟩ := @groupLoop_looked c p blockHashes rest b₁ hits₁ hv hpos hright
    (fun g hg => hsup g (hright.subset hg))
    (fun g hg _ i hi => hl₁.frame i fun g' hg' => hdisj g hg g' hg' i hi) (.inr (hl₁.bound (by simp)))
  have hround : c.groupLoop p blockHashes c.attentionGroups maxLength (fun _ => none) =
      .ok (b, hits) := by
    rw [hsplit, groupLoop_append, hloop₁]
    exact hloop
  obtain ⟨b', hits', hround', hl'⟩ := @groupLoop_first c p blockHashes hv hpos hsup
    ⟨f, hleft.subset mem_cons_self, hf⟩ maxLength
  rw [hround] at hround'
  cases hround'
  exact ⟨b₁, hits₁, b, hits, hl₁, hl, hround, hl'⟩

/-! ## Keeping the promise -/

theorem Valid.exists_fullGroups (hv : Valid c) :
    ∃ others, c.attentionGroups = c.fullGroups ++ others ∧
      (∀ g ∈ c.fullGroups, g.spec.isFullAttention = true) ∧
      ∀ g ∈ others, g.spec.isFullAttention = false := by
  obtain ⟨fulls, others, hsplit, hfulls, hothers⟩ := hv.order
  have heq : c.fullGroups = fulls := by
    unfold fullGroups
    rw [hsplit, filter_append, filter_eq_self.mpr hfulls,
      filter_eq_nil_iff.mpr fun g hg => by simp [hothers g hg], append_nil]
  exact ⟨others, by rw [heq, hsplit], heq ▸ hfulls, hothers⟩

/-- The lists of the result: the first attention group is cut to the hit, the others have
its length. -/
private theorem sound_of_lists (hv : Valid c) (hpos : Positive c)
    (hf : f.spec.isFullAttention = true) (hsplit : c.attentionGroups = f :: rest)
    (hloop : c.hitLoop p blockHashes (maxLength + 1) maxLength (fun _ => none) =
      .ok (some (hitLength, hits))) (hle : hitLength ≤ maxLength) (hal : c.lcmBlockSize ∣ hitLength)
    (hfirst : ∃ m columns, c.Lookup p blockHashes f m columns ∧ Stored hits f columns ∧
      hitLength ≤ columns.length * f.spec.blockSize)
    (hrest : ∀ g ∈ rest, ∃ m columns, c.Lookup p blockHashes g m columns ∧ Stored hits g columns ∧
      hitLength = columns.length * g.spec.blockSize)
    (hgreatest : c.useEagle = false → IsGreatest {len | len ≤ maxLength ∧
        ∀ g ∈ c.attentionGroups, c.GroupHit p blockHashes g len} hitLength) :
    ∃ blocks hitLength,
      c.findLongestCacheHit p blockHashes maxLength = .ok (some (blocks, hitLength)) ∧
      hitLength ≤ maxLength ∧ c.lcmBlockSize ∣ hitLength ∧
      (∀ spec ∈ c.kvCacheGroups, spec.blockSize ∣ hitLength) ∧
      blocks.length = c.kvCacheGroups.length ∧
      (∀ (i : Nat) (spec : KVCacheSpec) (l : List BlockRef), c.kvCacheGroups[i]? = some spec →
        blocks[i]? = some l → l.length * spec.blockSize = hitLength) ∧
      (c.useEagle = false → IsGreatest {len | len ≤ maxLength ∧
        ∀ g ∈ c.attentionGroups, c.GroupHit p blockHashes g len} hitLength) := by
  have hmem : ∀ g, g ∈ c.attentionGroups ↔ g = f ∨ g ∈ rest := fun g => by rw [hsplit, mem_cons]
  have hdvd : ∀ g ∈ c.attentionGroups, g.spec.blockSize ∣ hitLength := fun g hg =>
    (hv.lcm g hg).trans hal
  have hsub : (f :: rest).Sublist c.attentionGroups := hsplit ▸ List.Sublist.refl _
  have hlist : ∀ g ∈ c.attentionGroups, ∀ i ∈ g.groupIds, ∃ l,
      c.truncateFull hitLength hits i = some l ∧ l.length * g.spec.blockSize = hitLength := by
    intro g hg i hi
    rcases (hmem g).mp hg with rfl | hg'
    · obtain ⟨m, columns, hlook, hst, hcut⟩ := hfirst
      obtain ⟨l, hl, hlen⟩ := hst.length hpos hg hlook hi
      refine ⟨l.take (hitLength / g.spec.blockSize), ?_, ?_⟩
      · simp [truncateFull, hsplit, hf, hi, hl]
      · rw [length_take, hlen, Nat.min_eq_left, Nat.div_mul_cancel (hdvd g hg)]
        exact Nat.div_le_of_le_mul (by rwa [Nat.mul_comm])
    · obtain ⟨m, columns, hlook, hst, heq⟩ := hrest g hg'
      obtain ⟨l, hl, hlen⟩ := hst.length hpos hg hlook hi
      refine ⟨l, ?_, by rw [hlen, ← heq]⟩
      simp [truncateFull, hsplit, hf, hv.disjoint hsub hg' hi, hl]
  refine ⟨_, hitLength, by unfold findLongestCacheHit; rw [hloop]; rfl, hle, hal, fun spec hs => ?_,
    by simp, fun i spec l hi hl => ?_, hgreatest⟩
  · obtain ⟨i, hi⟩ := getElem?_of_mem hs
    obtain ⟨g, hg, rfl, -⟩ := hv.split.cover i spec hi
    exact hdvd g hg
  · obtain ⟨g, hg, rfl, hig⟩ := hv.split.cover i spec hi
    obtain ⟨l', hl', hlen⟩ := hlist g hg i hig
    have hlt : i < c.kvCacheGroups.length := lt_of_getElem? hi
    rw [getElem?_map, getElem?_range hlt, Option.map_some, hl'] at hl
    obtain rfl : l' = l := by simpa using hl
    exact hlen

private theorem isGreatest_of_settles
    (h : Settles (c.attentionGroups.map (c.GroupHit p blockHashes)) maxLength hitLength) :
    IsGreatest {len | len ≤ maxLength ∧
      ∀ g ∈ c.attentionGroups, c.GroupHit p blockHashes g len} hitLength := by
  obtain ⟨⟨hle, hhit⟩, hub⟩ := h.isGreatest
  refine ⟨⟨hle, fun g hg => hhit _ (mem_map_of_mem hg)⟩, fun x hx => hub ⟨hx.1, fun P hP => ?_⟩⟩
  obtain ⟨g, hg, rfl⟩ := mem_map.mp hP
  exact hx.2 g hg

theorem NeverLowers.groupHit (hv : Valid c) (hpos : Positive c) (hg : g ∈ c.attentionGroups) (h : c.NeverLowers g) {len : Nat}
    (hal : c.lcmBlockSize ∣ len) : c.GroupHit p blockHashes g len := by
  obtain ⟨chunk, hk, hdvd⟩ := h
  have hbs := hpos.blockSize g hg
  have hlen := Nat.div_mul_cancel ((hv.lcm g hg).trans hal)
  refine ⟨len / g.spec.blockSize, hlen.symm, ?_, fun j hj hr => ?_⟩
  · rw [hlen]
    exact mod_eq_zero_of_dvd hal
  · have hmod : len / g.spec.blockSize * g.spec.blockSize % chunk = 0 := by
      rw [hlen]
      exact mod_eq_zero_of_dvd (hdvd.trans hal)
    unfold KVCacheSpec.ReadsBlock at hr
    rw [hk] at hr
    dsimp only at hr
    rw [chunkStartBlock_of_mod hbs hmod] at hr
    omega

section Sound

variable (hv : Valid c) (hpos : Positive c)
  (hsup : ∀ g ∈ c.attentionGroups, g.spec.Supported c.useEagle c.lcmBlockSize)
  (hf : f.spec.isFullAttention = true)
include hv hpos hsup hf

private theorem sound_simple (hsplit : c.attentionGroups = [f, g])
    (hchunk : ∀ m, g.spec.ChunkAligned (m * g.spec.blockSize)) : HybridSound c := by
  intro p blockHashes maxLength _
  have hfm : f ∈ c.attentionGroups := by simp [hsplit]
  have hgm : g ∈ c.attentionGroups := by simp [hsplit]
  have hne : f ≠ g := by
    rintro rfl
    have := hv.split.specs
    simp [hsplit] at this
  obtain ⟨b, hits, hloop, hl⟩ := @groupLoop_first c p blockHashes hv hpos hsup ⟨f, hfm, hf⟩
    maxLength
  have hal := hl.aligned hpos (fun _ hg => hg) (by simp [hsplit])
  obtain ⟨m, columns, -, -, -, hlook, hst, hb, -⟩ := hl.stored f hfm
  obtain ⟨m', columns', -, -, hm', hlook', hst', -, hb'⟩ := hl.stored g hgm
  have hb' : b = columns'.length * g.spec.blockSize := hb' (by simp [hsplit])
  have hm' : g.spec.blockSize ∣ m' := by
    refine (hv.lcm g hgm).trans (hm'.resolve_left fun h => hne ?_)
    simpa [hsplit] using h
  refine sound_of_lists hv hpos hf hsplit
    (hitLoop_simple ((isSimpleHybrid_iff hsplit hf).mpr rfl) hloop hl.le) hl.le hal
    ⟨m, columns, hlook, hst, hb⟩ (fun g' hg' => ?_) fun he => ⟨⟨hl.le, fun g' hg' => ?_⟩, ?_⟩
  · obtain rfl : g' = g := by simpa using hg'
    exact ⟨m', columns', hlook', hst', hb'⟩
  · rw [hsplit] at hg'
    rcases mem_cons.mp hg' with rfl | hg'
    · exact hlook.groupHit hv hpos hfm hf hb hal
    · obtain rfl : g' = g := by simpa using hg'
      obtain ⟨k, rfl⟩ := hm'
      rw [mul_comm] at hlook'
      rw [hb']
      exact (hlook'.finds hpos hgm).exact he (hchunk k)
  · intro x hx
    refine (hl.round he).keep (fun P hP => ?_) hx.1
    obtain ⟨g', hg', rfl⟩ := mem_map.mp hP
    exact hx.2 g' hg'

private theorem sound_one (hsplit : c.attentionGroups = f :: rest) (hlen : rest.length ≠ 1)
    (hrest : ∀ g ∈ rest, g.spec.isFullAttention = false) : HybridSound c := by
  intro p blockHashes maxLength _
  have hfm : f ∈ c.attentionGroups := by simp [hsplit]
  have hsimple : c.isSimpleHybrid = false := by
    rw [← Bool.not_eq_true, isSimpleHybrid_iff hsplit hf]
    exact hlen
  obtain ⟨b, hits, hloop, hl⟩ := @groupLoop_first c p blockHashes hv hpos hsup ⟨f, hfm, hf⟩
    maxLength
  obtain ⟨hitLength, hits', hrun, hs, hsettles⟩ := hitLoop_first hv hpos hsup hsimple hloop hl
  obtain ⟨m, columns, -, -, -, hlook, hst, hb, -⟩ := hl.stored f hfm
  refine sound_of_lists hv hpos hf hsplit hrun (le_trans hs.le hl.le) hs.aligned
    ⟨m, columns, hlook, fun i hi => ?_, le_trans hs.le hb⟩ (fun g hg => ?_)
    fun he => isGreatest_of_settles (hsettles he)
  · rw [hs.keeps f hfm hf i hi]
    exact hst i hi
  · exact hs.stored g (by rw [hsplit]; exact mem_cons_of_mem _ hg) (hrest g hg)

private theorem sound_two (hsplit : c.attentionGroups = f :: g :: rest)
    (hg : g.spec.isFullAttention = true) (hlen : rest ≠ [])
    (hrest : ∀ g ∈ rest, g.spec.isFullAttention = false ∧ c.NeverLowers g) : HybridSound c := by
  intro p blockHashes maxLength _
  have hfm : f ∈ c.attentionGroups := by simp [hsplit]
  have hgm : g ∈ c.attentionGroups := by simp [hsplit]
  have hrm : ∀ g' ∈ rest, g' ∈ c.attentionGroups := fun g' hg' => by simp [hsplit, hg']
  have hsimple : c.isSimpleHybrid = false := by
    rw [← Bool.not_eq_true, isSimpleHybrid_iff hsplit hf]
    have := length_pos_of_ne_nil hlen
    simp
    omega
  -- local chunks refuse eagle
  have he : c.useEagle = false := by
    obtain ⟨g', hg'⟩ := exists_mem_of_ne_nil rest hlen
    obtain ⟨chunk, hk, -⟩ := (hrest g' hg').2
    have := hsup g' (hrm g' hg')
    unfold KVCacheSpec.Supported at this
    rw [hk] at this
    exact this.1
  obtain ⟨b₁, hits₁, b, hits, hl₁, hl₂, hloop, hl⟩ :=
    @groupLoop_split c p blockHashes f [g] rest hv hpos hsup hsplit hf maxLength
  obtain ⟨hitLength, hits', hrun, hs, hsettles⟩ := hitLoop_first hv hpos hsup hsimple hloop hl
  have hgreatest := isGreatest_of_settles (hsettles he)
  have hal₁ := hl₁.aligned hpos (fun g' hg' => by
    rcases mem_cons.mp hg' with rfl | hg'
    · exact hfm
    · obtain rfl : g' = g := by simpa using hg'
      exact hgm) (by simp)
  obtain ⟨m, columns, -, -, -, hlook, hst, hb, -⟩ := hl₁.stored f (by simp)
  obtain ⟨m', columns', -, -, -, hlook', hst', -, hb'⟩ := hl₁.stored g (by simp)
  have hb' : b₁ = columns'.length * g.spec.blockSize := hb' (by simp)
  -- the length after the second group is already a common hit
  have hhit : hitLength = b₁ := by
    refine le_antisymm (le_trans hs.le hl₂.le) (hgreatest.2 ⟨hl₁.le, fun g' hg' => ?_⟩)
    rw [hsplit] at hg'
    rcases mem_cons.mp hg' with rfl | hg'
    · exact hlook.groupHit hv hpos hfm hf hb hal₁
    · rcases mem_cons.mp hg' with rfl | hg'
      · exact hlook'.groupHit hv hpos hgm hg (le_of_eq hb') hal₁
      · exact (hrest g' hg').2.groupHit hv hpos (hrm g' hg') hal₁
  have hkeep : ∀ g' ∈ c.attentionGroups, g'.spec.isFullAttention = true → ∀ i ∈ g'.groupIds,
      hits' i = hits₁ i := fun g' hg' hf' i hi => by
    rw [hs.keeps g' hg' hf' i hi]
    exact hl₂.frame i fun g'' hg'' =>
      hv.disjoint_full hg' (hrm g'' hg'') hf' (hrest g'' hg'').1 hi
  refine sound_of_lists hv hpos hf hsplit hrun hgreatest.1.1 hs.aligned
    ⟨m, columns, hlook, fun i hi => ?_, hhit ▸ hb⟩ (fun g' hg' => ?_) fun _ => hgreatest
  · rw [hkeep f hfm hf i hi]
    exact hst i hi
  · rcases mem_cons.mp hg' with rfl | hg'
    · refine ⟨m', columns', hlook', fun i hi => ?_, hhit.trans hb'⟩
      rw [hkeep g' hgm hg i hi]
      exact hst' i hi
    · exact hs.stored g' (hrm g' hg') (hrest g' hg').1

end Sound

theorem HybridExact.sound (hv : Valid c) (hpos : Positive c)
    (hfull : ∃ g ∈ c.attentionGroups, g.spec.isFullAttention = true) (h : HybridExact c) :
    HybridSound c := by
  obtain ⟨others, hsplit, hfulls, hothers⟩ := hv.exists_fullGroups
  have hone : 0 < c.fullGroups.length := by
    obtain ⟨g, hg, hf⟩ := hfull
    exact length_pos_of_mem (mem_filter.mpr ⟨hg, hf⟩)
  have htwo := hv.two
  rcases hfg : c.fullGroups with _ | ⟨f, fulls⟩
  · rw [hfg] at hone
    cases hone
  · rw [hfg] at hsplit hfulls
    rw [cons_append] at hsplit
    have hf := hfulls f (by simp)
    by_cases hlen : (fulls ++ others).length = 1
    · obtain ⟨g, hg⟩ := length_eq_one_iff.mp hlen
      rw [hg] at hsplit
      exact sound_simple hv hpos h.supported hf hsplit
        (h.chunks (by simp [hsplit]) g (by simp [hsplit]))
    · rcases h.oneFull with h1 | h2 | ⟨h2, hlow⟩
      · rw [hfg] at h1
        obtain rfl : fulls = [] := eq_nil_of_length_eq_zero (by simpa using h1)
        exact sound_one hv hpos h.supported hf hsplit hlen hothers
      · rw [hsplit] at h2 htwo
        simp only [length_cons] at h2 htwo
        omega
      · rw [hfg] at h2
        obtain ⟨g, rfl⟩ := length_eq_one_iff.mp (show fulls.length = 1 by simpa using h2)
        change c.attentionGroups = f :: g :: others at hsplit
        refine sound_two hv hpos h.supported hf hsplit (hfulls g (by simp)) ?_ fun g' hg' =>
          ⟨hothers g' hg', hlow g' (by simp [hsplit, hg']) (hothers g' hg')⟩
        rintro rfl
        exact hlen rfl

/-! ## Breaking the promise -/

theorem groupLoop_supported (hv : Valid c) (hpos : Positive c) {r : Nat × Hits}
    (hsub : ∀ g ∈ gs, g ∈ c.attentionGroups) (hrun : c.groupLoop p blockHashes gs a hits = .ok r) :
    ∀ g ∈ gs, g.spec.Supported c.useEagle c.lcmBlockSize := by
  induction gs generalizing a hits with
  | nil => exact fun g hg => (nomatch hg)
  | cons g gs ih =>
    intro g' hg'
    have hg := hsub g (by simp)
    rw [groupLoop_cons] at hrun
    split at hrun
    · rename_i hf
      rcases mem_cons.mp hg' with rfl | hg'
      · have hfull := hf.1
        unfold KVCacheSpec.isFullAttention at hfull
        unfold KVCacheSpec.Supported
        cases hk : g'.spec.kind <;> simp_all
      · exact ih (fun g'' hg'' => hsub g'' (mem_cons_of_mem _ hg'')) hrun g' hg'
    · rw [getBlockHashes_eq (hv.hash g hg), ok_bind] at hrun
      obtain ⟨columns, hfind, hrun⟩ := bind_ok hrun
      rcases mem_cons.mp hg' with rfl | hg'
      · exact (findLongestCacheHit_finds (hpos.blockSize g' hg) (hpos.chunk g' hg) hfind).1
      · exact ih (fun g'' hg'' => hsub g'' (mem_cons_of_mem _ hg'')) hrun g' hg'

private theorem HybridSound.supported (hv : Valid c) (hpos : Positive c) (h : HybridSound c) :
    ∀ g ∈ c.attentionGroups, g.spec.Supported c.useEagle c.lcmBlockSize := by
  obtain ⟨p, hcoh, -, -⟩ := BlockPool.exists_caching []
  obtain ⟨blocks, hitLength, hrun, -⟩ := h p [] 0 hcoh
  obtain ⟨r, hloop, -⟩ := bind_ok hrun
  obtain ⟨r', hround, -⟩ := bind_ok hloop
  exact groupLoop_supported hv hpos (fun _ hg => hg) hround

/-- A pool that caches everything for the given groups and nothing for the others. -/
private theorem exists_caching_groups (hv : Valid c) (hids : c.kvCacheGroups.length ≤ 4294967296)
    (blockHashes : List BlockHash) (hsub : ∀ g ∈ gs, g ∈ c.attentionGroups) :
    ∃ p : BlockPool, BlockPool.Coherent p ∧
      (∀ g ∈ gs, ∀ j < (c.groupHashes blockHashes g.spec).length,
        (hitAt p g.groupIds (c.groupHashes blockHashes g.spec) j).isSome) ∧
      ∀ g ∈ c.attentionGroups, (∀ g' ∈ gs, g.spec ≠ g'.spec) →
        ∀ j, hitAt p g.groupIds (c.groupHashes blockHashes g.spec) j = none := by
  obtain ⟨p, hcoh, -, hkeys⟩ := BlockPool.exists_caching (gs.flatMap fun g =>
    (c.groupHashes blockHashes g.spec).flatMap fun h =>
      g.groupIds.map (makeBlockHashWithGroupId h))
  have hlt : ∀ g ∈ c.attentionGroups, ∀ i ∈ g.groupIds, i < 4294967296 := fun g hg i hi =>
    lt_of_lt_of_le (List.getElem?_eq_some_iff.mp (hv.split.mem g hg i hi)).1 hids
  refine ⟨p, hcoh, fun g hg j hj => hcoh.hitAt_isSome.mpr
    ⟨_, getElem?_eq_getElem hj, fun i hi => (hkeys _).mpr ?_⟩, fun g hg hne j => ?_⟩
  · simp only [mem_flatMap, mem_map]
    exact ⟨g, hg, _, getElem_mem hj, i, hi, rfl⟩
  · rw [← Option.not_isSome_iff_eq_none, hcoh.hitAt_isSome]
    rintro ⟨hash, -, hcached⟩
    have hi := hv.headD_mem hg
    have hkey := (hkeys _).mp (hcached _ hi)
    simp only [mem_flatMap, mem_map] at hkey
    obtain ⟨g', hg', h', -, i', hi', heq⟩ := hkey
    obtain ⟨-, rfl⟩ := makeBlockHashWithGroupId_inj (hlt g' (hsub g' hg') i' hi') (hlt g hg _ hi) heq
    have hspec := hv.split.mem g hg _ hi
    rw [hv.split.mem g' (hsub g' hg') _ hi'] at hspec
    exact hne g' hg' (Option.some.inj hspec).symm

private theorem groupHashes_sample (hpos : Positive c) (hv : Valid c) (hg : g ∈ c.attentionGroups)
    (n : Nat) :
    (c.groupHashes (sampleHashes (n / c.hashBlockSize)) g.spec).length = n / g.spec.blockSize := by
  rw [length_groupHashes hpos.hashBlockSize (hv.hash g hg), length_sampleHashes, Nat.div_div_eq_div_mul,
    Nat.mul_div_cancel' (hv.hash g hg)]

private theorem HybridSound.of_loop (hv : Valid c) (h : HybridSound c) (hcoh : BlockPool.Coherent p)
    (hloop : c.hitLoop p blockHashes (maxLength + 1) maxLength (fun _ => none) =
      .ok (some (hitLength, hits))) :
    (∀ g ∈ c.attentionGroups, ∀ i ∈ g.groupIds, ∀ l, c.truncateFull hitLength hits i = some l →
      l.length * g.spec.blockSize = hitLength) ∧
      (c.useEagle = false → ∀ g ∈ c.attentionGroups, c.GroupHit p blockHashes g hitLength) := by
  obtain ⟨blocks, hitLength', hrun, -, -, -, -, hlists, hgreatest⟩ := h p blockHashes maxLength hcoh
  unfold findLongestCacheHit at hrun
  rw [hloop] at hrun
  obtain ⟨rfl, rfl⟩ : _ = blocks ∧ hitLength = hitLength' := by
    simpa [ok_bind] using hrun
  refine ⟨fun g hg i hi l hl => ?_, fun he => (hgreatest he).1.2⟩
  have hget := hv.split.mem g hg i hi
  have hlt : i < c.kvCacheGroups.length := lt_of_getElem? hget
  exact hlists i g.spec l hget (by simp [hlt, hl])

private theorem Looked.first (h : Looked c p blockHashes [f] maxLength hits b hits') :
    ∃ columns, c.Lookup p blockHashes f maxLength columns ∧ b = columns.length * f.spec.blockSize := by
  obtain ⟨m, columns, -, hm, -, hlook, -, -, hb⟩ := h.stored f (by simp)
  rw [hm rfl] at hlook
  exact ⟨columns, hlook, hb rfl⟩

section

variable (hv : Valid c) (hpos : Positive c)
include hv hpos

private theorem Lookup.full_ge (hg : g ∈ c.attentionGroups) (hf : g.spec.isFullAttention = true)
    (h : c.Lookup p blockHashes g m columns) (hal : c.lcmBlockSize ∣ m)
    (hlen : m / g.spec.blockSize ≤ (c.groupHashes blockHashes g.spec).length)
    (hhit : ∀ j < (c.groupHashes blockHashes g.spec).length, (hitAt p g.groupIds (c.groupHashes blockHashes g.spec) j).isSome) :
    m ≤ columns.length * g.spec.blockSize + if c.useEagle then c.lcmBlockSize else 0 := by
  unfold Lookup at h
  rw [findLongestCacheHit_full hf] at h
  obtain rfl := Except.ok.inj h
  exact findFull_ge (hpos.blockSize g hg) (hv.lcm g hg) hal fun j hj =>
    hhit j (lt_of_lt_of_le hj hlen)

section

variable (hids : c.kvCacheGroups.length ≤ 4294967296)
include hids

/-- A group that lowers the hit after two full attention groups leaves the second list too
long. -/
private theorem not_sound_of_two (hsplit : c.attentionGroups = f :: g :: rest)
    (hf : f.spec.isFullAttention = true) (hg : g.spec.isFullAttention = true) {x : AttentionGroup}
    (hx : x ∈ rest)
    (hlow : ∀ chunk, x.spec.kind = .chunkedLocalAttention chunk → ¬ chunk ∣ c.lcmBlockSize) :
    ¬ HybridSound c := by
  intro hsound
  have hsup := hsound.supported hv hpos
  have hfm : f ∈ c.attentionGroups := by simp [hsplit]
  have hgm : g ∈ c.attentionGroups := by simp [hsplit]
  have hxm : x ∈ c.attentionGroups := by simp [hsplit, hx]
  have hlcm := hv.lcmPos hpos.blockSize
  have hspecs : ((f :: g :: rest).map AttentionGroup.spec).Nodup := hsplit ▸ hv.split.specs
  simp only [map_cons, nodup_cons, mem_cons, not_or] at hspecs
  -- with eagle the full attention groups give up one alignment each
  let n := c.lcmBlockSize * if c.useEagle then 3 else 1
  have hn : c.lcmBlockSize ∣ n := dvd_mul_right _ _
  obtain ⟨p, hcoh, hhit, hmiss⟩ := @exists_caching_groups c [f, g] hv hids
    (sampleHashes (n / c.hashBlockSize)) fun g' hg' => by
      rcases mem_cons.mp hg' with rfl | hg'
      · exact hfm
      · obtain rfl : g' = g := by simpa using hg'
        exact hgm
  have hxmiss := hmiss x hxm fun g' hg' h0 => by
    have hmem := mem_map_of_mem hx (f := AttentionGroup.spec)
    rcases mem_cons.mp hg' with rfl | hg'
    · exact hspecs.1.2 (h0 ▸ hmem)
    · obtain rfl : g' = g := by simpa using hg'
      exact hspecs.2.1 (h0 ▸ hmem)
  obtain ⟨b₁, hits₁, b, hits, hl₁, hl₂, hloop, hl⟩ := @groupLoop_split c p
    (sampleHashes (n / c.hashBlockSize)) f [] (g :: rest) hv hpos hsup hsplit hf n
  have hsimple : c.isSimpleHybrid = false := by
    rw [← Bool.not_eq_true, isSimpleHybrid_iff hsplit hf]
    have := length_pos_of_mem hx
    rw [length_cons]
    omega
  obtain ⟨hitLength, hits', hrun, hs, -⟩ := hitLoop_first hv hpos hsup hsimple hloop hl
  obtain ⟨hlists, hgreatest⟩ := hsound.of_loop hv hcoh hrun
  have hlen : ∀ g' ∈ c.attentionGroups, ∀ m ≤ n, m / g'.spec.blockSize ≤
      (c.groupHashes (sampleHashes (n / c.hashBlockSize)) g'.spec).length := fun g' hg' m hm => by
    rw [groupHashes_sample hpos hv hg']
    exact Nat.div_le_div_right hm
  obtain ⟨columns, hlook, hb₁⟩ := hl₁.first
  have hge := hlook.full_ge hv hpos hfm hf hn (hlen f hfm n (le_refl n)) (hhit f (by simp))
  have hal₁ : c.lcmBlockSize ∣ b₁ := hb₁ ▸ (hlook.finds hpos hfm).aligned
  obtain ⟨m', columns', -, hm', -, hlook', hst', -, -⟩ := hl₂.stored g (by simp)
  obtain rfl : m' = b₁ := hm' rfl
  have hge' := hlook'.full_ge hv hpos hgm hg hal₁ (hlen g hgm m' hl₁.le) (hhit g (by simp))
  -- the second list is stored in the first round and never cut
  have hhead := hv.headD_mem hgm
  obtain ⟨l, hl, hll⟩ := hst'.length hpos hgm hlook' hhead
  have hlist := hlists g hgm _ hhead l (by
    have hsub : (f :: g :: rest).Sublist c.attentionGroups := by rw [hsplit]
    have hnot := hv.disjoint hsub (by simp) hhead
    simp only [truncateFull, hsplit, hf, hnot, if_true, if_false]
    rw [hs.keeps g hgm hg _ hhead, hl])
  rw [hll] at hlist
  obtain ⟨mx, columnsx, -, -, -, hlookx, -, hbx, -⟩ := hl₂.stored x (mem_cons_of_mem _ hx)
  have hle := hs.le
  have hpos' : c.lcmBlockSize ≤ hitLength := by
    cases he : c.useEagle <;> simp only [n, he, if_true, if_false, Bool.false_eq_true] at hge hge' <;>
      omega
  by_cases hk : ∃ chunk, x.spec.kind = .chunkedLocalAttention chunk
  · -- a chunk that does not divide the alignment reads its own blocks
    obtain ⟨chunk, hk⟩ := hk
    have hsupx := hsup x hxm
    unfold KVCacheSpec.Supported at hsupx
    rw [hk] at hsupx
    obtain ⟨he, hbsx⟩ := hsupx
    have hb₁le := hl₁.le
    have heq : hitLength = c.lcmBlockSize := by
      have := (hlook'.finds hpos hgm).le
      simp only [n, he, Bool.false_eq_true, if_false, mul_one] at hb₁le
      omega
    obtain ⟨e, hhitlen, -, hreads⟩ := hgreatest he x hxm
    have he1 : e = 1 := by
      rw [heq, ← hbsx] at hhitlen
      exact Nat.eq_of_mul_eq_mul_right (hpos.blockSize x hxm) (by omega)
    subst he1
    have := hreads 0 one_pos (by
      unfold KVCacheSpec.ReadsBlock
      rw [hk]
      dsimp only
      unfold chunkStartBlock
      rw [one_mul, div_eq_of_lt]
      refine lt_of_le_of_ne (div_mul_le_self _ _) fun h0 => hlow chunk hk ?_
      rw [← hbsx, ← h0]
      exact dvd_mul_left _ _)
    rw [hxmiss] at this
    cases this
  · have hnil := findLongestCacheHit_nil (fun chunk h => hk ⟨chunk, h⟩) hxmiss hlookx
    rw [hnil, length_nil] at hbx
    omega

/-- A local chunk that does not start with a block is looked up once, and hits nothing it
reads. -/
private theorem not_sound_of_chunk (hsplit : c.attentionGroups = [f, g])
    (hf : f.spec.isFullAttention = true) {chunk : Nat}
    (hk : g.spec.kind = .chunkedLocalAttention chunk)
    (hmod : chunkStartBlock g.spec.blockSize chunk (m * g.spec.blockSize) * g.spec.blockSize % chunk ≠ 0) :
    ¬ HybridSound c := by
  intro hsound
  have hsup := hsound.supported hv hpos
  have hfm : f ∈ c.attentionGroups := by simp [hsplit]
  have hgm : g ∈ c.attentionGroups := by simp [hsplit]
  have hsupg := hsup g hgm
  unfold KVCacheSpec.Supported at hsupg
  rw [hk] at hsupg
  obtain ⟨he, hbs⟩ := hsupg
  have hne : g.spec ≠ f.spec := by
    have hspecs := hv.split.specs
    simp only [hsplit, map_cons, nodup_cons, mem_cons, not_or] at hspecs
    exact fun h0 => hspecs.1.1 h0.symm
  let n := m * g.spec.blockSize
  have hn : c.lcmBlockSize ∣ n := hbs ▸ dvd_mul_left _ _
  obtain ⟨p, hcoh, hhit, hmiss⟩ := @exists_caching_groups c [f] hv hids
    (sampleHashes (n / c.hashBlockSize)) fun g' hg' => by
      obtain rfl : g' = f := by simpa using hg'
      exact hfm
  have hgmiss := hmiss g hgm fun g' hg' => by
    obtain rfl : g' = f := by simpa using hg'
    exact hne
  obtain ⟨b₁, hits₁, b, hits, hl₁, hl₂, hloop, -⟩ := @groupLoop_split c p
    (sampleHashes (n / c.hashBlockSize)) f [] [g] hv hpos hsup hsplit hf n
  have hle := le_trans hl₂.le hl₁.le
  obtain ⟨-, hgreatest⟩ := hsound.of_loop hv hcoh
    (hitLoop_simple ((isSimpleHybrid_iff hsplit hf).mpr rfl) hloop hle)
  obtain ⟨columns, hlook, hb₁⟩ := hl₁.first
  have hge := hlook.full_ge hv hpos hfm hf hn
    (by rw [groupHashes_sample hpos hv hfm]) (hhit f (by simp))
  obtain ⟨columns', hlook', hb⟩ := hl₂.first
  have hb₁n : b₁ = n := by
    refine le_antisymm hl₁.le ?_
    simp only [he, Bool.false_eq_true, if_false] at hge
    omega
  rw [hb₁n] at hlook'
  unfold Lookup at hlook'
  unfold KvCache.findLongestCacheHit at hlook'
  rw [hk] at hlook'
  obtain ⟨-, -, hstart, -, hcol, -⟩ := findChunked_spec hlook'
  have hlen : columns'.length = chunkStartBlock g.spec.blockSize chunk n := by
    refine le_antisymm ?_ hstart
    by_contra hlt
    have := hcol _ (Nat.lt_of_not_le hlt)
    rw [if_pos le_rfl, hgmiss] at this
    simp at this
    omega
  -- the hit ends in a chunk whose blocks it reads
  obtain ⟨e, hhitlen, -, hreads⟩ := hgreatest he g hgm
  have hgpos := hpos.blockSize g hgm
  obtain rfl : e = chunkStartBlock g.spec.blockSize chunk n :=
    Nat.eq_of_mul_eq_mul_right hgpos (by rw [← hhitlen, hb, hlen])
  change chunkStartBlock g.spec.blockSize chunk n * g.spec.blockSize % chunk ≠ 0 at hmod
  generalize chunkStartBlock g.spec.blockSize chunk n = start at hmod hreads
  have hstartpos : 0 < start := by
    refine pos_of_ne_zero ?_
    rintro rfl
    simp at hmod
  have := hreads (start - 1) (by omega) (by
    unfold KVCacheSpec.ReadsBlock
    rw [hk]
    dsimp only
    refine Nat.le_sub_one_of_lt ((div_lt_iff_lt_mul hgpos).mpr ?_)
    refine Nat.lt_of_le_of_ne (div_mul_le_self _ _) fun h0 => hmod ?_
    rw [← h0]
    exact mul_mod_left _ _)
  rw [hgmiss] at this
  cases this

theorem HybridSound.exact (hfull : ∃ g ∈ c.attentionGroups, g.spec.isFullAttention = true)
    (h : HybridSound c) : HybridExact c := by
  have hsup := h.supported hv hpos
  obtain ⟨others, hsplit, hfulls, hothers⟩ := hv.exists_fullGroups
  refine ⟨hsup, ?_, fun hlen g hg m chunk hk => ?_⟩
  · by_contra hnot
    simp only [not_or, not_and] at hnot
    obtain ⟨htwo, hthree, hlow⟩ := hnot
    match hfg : c.fullGroups with
    | [] | [f] => simp [hfg] at htwo
    | f :: g :: fulls =>
      rw [hfg] at hsplit hfulls hlow
      have hf := hfulls f (by simp)
      have hg := hfulls g (by simp)
      cases fulls with
      | cons x fulls =>
        refine not_sound_of_two hv hpos hids (x := x) hsplit hf hg (by simp) (fun chunk hk => ?_) h
        have hx := hfulls x (by simp)
        unfold KVCacheSpec.isFullAttention at hx
        simp [hk] at hx
      | nil =>
        have hlow := hlow rfl
        simp only [not_forall] at hlow
        obtain ⟨x, hx, hxf, hxlow⟩ := hlow
        rw [hsplit] at hx
        refine not_sound_of_two hv hpos hids (x := x) hsplit hf hg ?_
          (fun chunk hk hdvd => hxlow ⟨chunk, hk, hdvd⟩) h
        rcases mem_append.mp hx with hx | hx
        · rw [hfulls x hx] at hxf
          cases hxf
        · exact hx
  · obtain ⟨f, rest, hcons, hf⟩ := hv.exists_first hfull
    by_contra hmod
    rw [hcons] at hlen
    obtain ⟨g', rfl⟩ := length_eq_one_iff.mp (Nat.succ.inj hlen)
    rw [hcons] at hg
    rcases mem_cons.mp hg with rfl | hg
    · unfold KVCacheSpec.isFullAttention at hf
      simp [hk] at hf
    · obtain rfl : g = g' := by simpa using hg
      exact not_sound_of_chunk hv hpos hids hcons hf hk hmod h

end

end

end HybridKVCacheCoordinator

open HybridKVCacheCoordinator

/-- The hybrid lookup keeps its promise on every cache exactly when `HybridExact` holds of
its attention groups. -/
theorem hybrid_sound_iff {groups : List KVCacheSpec} {useEagle : Bool} {hashBlockSize : Nat}
    {c : HybridKVCacheCoordinator}
    (hinit : HybridKVCacheCoordinator.init groups useEagle hashBlockSize 1 1 = .ok c)
    (hhash : 0 < hashBlockSize) (hspecs : ∀ spec ∈ groups, 0 < spec.blockSize ∧ spec.ChunkPos)
    (hfull : ∃ spec ∈ groups, spec.isFullAttention = true)
    (hids : groups.length ≤ 4294967296) : HybridSound c ↔ HybridExact c := by
  obtain ⟨hv, rfl, -, rfl⟩ := init_valid hinit
  have hmem : ∀ g ∈ c.attentionGroups, g.spec ∈ c.kvCacheGroups := fun g hg =>
    mem_of_getElem? (hv.split.mem g hg _ (hv.headD_mem hg))
  have hpos : Positive c :=
    ⟨hhash, fun g hg => (hspecs _ (hmem g hg)).1, fun g hg => (hspecs _ (hmem g hg)).2⟩
  have hfull : ∃ g ∈ c.attentionGroups, g.spec.isFullAttention = true := by
    obtain ⟨spec, hs, hf⟩ := hfull
    obtain ⟨i, hi⟩ := getElem?_of_mem hs
    obtain ⟨g, hg, rfl, -⟩ := hv.split.cover i spec hi
    exact ⟨g, hg, hf⟩
  exact ⟨fun h => h.exact hv hpos hids hfull, fun h => h.sound hv hpos hfull⟩

/-- One full attention group, a sliding window and mamba. -/
def threeTypes : List KVCacheSpec :=
  [{ blockSize := 4, kind := .fullAttention }, { blockSize := 2, kind := .slidingWindow 3 },
    { blockSize := 4, kind := .mamba false 0 }]

def threeTypesCoordinator : HybridKVCacheCoordinator :=
  (HybridKVCacheCoordinator.init threeTypes false 2 1 1).toOption.get (by decide)

theorem hybrid_sound_threeTypes : HybridSound threeTypesCoordinator := by
  have hgroups : threeTypesCoordinator.attentionGroups =
      [⟨{ blockSize := 4, kind := .fullAttention }, [0], .FullAttentionManager⟩,
        ⟨{ blockSize := 2, kind := .slidingWindow 3 }, [1], .SlidingWindowManager⟩,
        ⟨{ blockSize := 4, kind := .mamba false 0 }, [2], .MambaManager⟩] := by decide
  refine (hybrid_sound_iff (eq_ok_get _) (by decide) (fun spec hs => ?_)
    ⟨_, mem_cons_self, rfl⟩ (by decide)).mpr
    ⟨fun g hg => ?_, .inl (by decide), fun h => absurd h (by decide)⟩
  · simp only [mem_cons, not_mem_nil, or_false] at hs
    rcases hs with rfl | rfl | rfl <;> exact ⟨by decide, trivial⟩
  · change g ∈ threeTypesCoordinator.attentionGroups at hg
    rw [hgroups] at hg
    simp only [mem_cons, not_mem_nil, or_false] at hg
    rcases hg with rfl | rfl | rfl <;> trivial

/-- Two full attention groups with different layouts, and a sliding window. -/
def twoFull : List KVCacheSpec :=
  [{ blockSize := 2, kind := .fullAttention }, { blockSize := 2, kind := .fullAttention, layout := 1 },
    { blockSize := 2, kind := .slidingWindow 3 }]

def twoFullCoordinator : HybridKVCacheCoordinator :=
  (HybridKVCacheCoordinator.init twoFull false 2 1 1).toOption.get (by decide)

/-- A pool in which both full attention groups have cached the first block of a request. -/
def twoFullPool : BlockPool :=
  (do let p ← BlockPool.init 4 true 2 false false
      let (blocks, p) ← p.getNewBlocks 2
      let request : Request := { requestId := 0, allTokenIds := [7, 8, 9], blockHashes := [[1]] }
      let p ← p.cacheFullBlocks request (blocks.take 1) 0 1 2 0
      p.cacheFullBlocks request (blocks.drop 1) 0 1 2 1 : Except PyError BlockPool).toOption.get
    (by decide)

/-- The sliding window has no hit, so the hit is empty, but the second full attention group
keeps its block. -/
theorem second_full_not_cut :
    twoFullCoordinator.findLongestCacheHit twoFullPool [[1]] 2 =
      .ok (some ([[], [.blk 2], []], 0)) ∧
    ¬ ∀ (i : Nat) (spec : KVCacheSpec) (l : List BlockRef), twoFull[i]? = some spec →
      [[], [BlockRef.blk 2], []][i]? = some l → l.length * spec.blockSize = 0 :=
  ⟨by decide, fun h => absurd (h 1 _ _ rfl rfl) (by decide)⟩

end MyOperator.KvCache
