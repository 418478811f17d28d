import MyOperator.KvCache.Coordinator
import MyOperator.KvCache.HybridRounds

/-!
# The columns of a lookup

Whatever the attention type and the block sizes, every column that a lookup returns holds the
cached blocks of its position or null blocks, and full attention never null blocks. So every block
that `find_longest_cache_hit` of a coordinator returns is cached under the hash of its position.
-/

namespace MyOperator.KvCache

open Lib List Option

/-- Every column holds the cached blocks of its position, or null blocks if these are allowed. -/
def CachedColumns (nulls : Bool) (p : BlockPool) (groupIds : List Nat) (blockHashes : List BlockHash)
    (columns : List Column) : Prop :=
  ∀ (j : Nat) (column : Column), columns[j]? = some column →
    hitAt p groupIds blockHashes j = some column ∨ nulls = true ∧ column = nullColumn p groupIds

variable {nulls : Bool} {p : BlockPool} {groupIds : List Nat} {blockHashes : List BlockHash}
  {columns : List Column} {blockSize alignmentTokens maxLength : Nat} {useEagle : Bool}

namespace CachedColumns

section

variable (h : CachedColumns nulls p groupIds blockHashes columns)
include h

theorem take (n : Nat) : CachedColumns nulls p groupIds blockHashes (columns.take n) := by
  intro j column hj
  rw [getElem?_take] at hj
  split at hj
  · exact h j column hj
  · cases hj

theorem dropLast : CachedColumns nulls p groupIds blockHashes columns.dropLast := by
  rw [dropLast_eq_take]
  exact h.take _

theorem popUnaligned :
    CachedColumns nulls p groupIds blockHashes (popUnaligned blockSize alignmentTokens columns) := by
  obtain ⟨n, heq, -⟩ := popUnaligned_spec blockSize alignmentTokens columns
  rw [heq]
  exact h.take n

end

theorem replicate (n : Nat) :
    CachedColumns true p groupIds blockHashes (replicate n (nullColumn p groupIds)) :=
  fun _ _ hj => Or.inr ⟨rfl, eq_of_mem_replicate (mem_of_getElem? hj)⟩

theorem set (h : CachedColumns nulls p groupIds blockHashes columns) {i : Nat} {cached : Column}
    (hit : hitAt p groupIds blockHashes i = some cached) :
    CachedColumns nulls p groupIds blockHashes (columns.set i cached) := by
  intro j column hj
  rw [getElem?_set] at hj
  split at hj
  · rename_i hij
    split at hj
    · cases hj
      rw [← hij]
      exact Or.inl hit
    · cases hj
  · exact h j column hj

theorem append {i : Nat} {hits : List Column}
    (hhits : ∀ j < hits.length, hits[j]? = hitAt p groupIds blockHashes (i + j)) :
    CachedColumns true p groupIds blockHashes (List.replicate i (nullColumn p groupIds) ++ hits) := by
  intro j column hj
  rcases Nat.lt_or_ge j i with hlt | hge
  · rw [getElem?_append_left (by rwa [length_replicate])] at hj
    exact replicate i j column hj
  · rw [getElem?_append_right (by rwa [length_replicate]), length_replicate] at hj
    have hhit := hhits _ (lt_of_getElem? hj)
    rw [hj, Nat.add_sub_cancel' hge] at hhit
    exact Or.inl hhit.symm

/-! ## The lookups -/

theorem findFull :
    CachedColumns false p groupIds blockHashes
      (findFull p groupIds blockHashes maxLength blockSize useEagle alignmentTokens) := by
  have hloop : CachedColumns false p groupIds blockHashes
      (fullLoop p groupIds (blockHashes.take (maxLength / blockSize))) := by
    intro j column hj
    have hlt := lt_of_getElem? hj
    have hhit := (fullLoop_take_spec (maxLength / blockSize)).2 j hlt
    replace hhit := hhit.1
    rw [hj] at hhit
    exact Or.inl hhit.symm
  cases useEagle with
  | false => exact hloop.popUnaligned
  | true => exact hloop.dropLast.popUnaligned

theorem slidingLoop {need i n n' : Nat} {found : Bool} {columns' : List Column}
    (h : CachedColumns true p groupIds blockHashes columns)
    (hrun : slidingLoop p groupIds blockHashes blockSize alignmentTokens need i columns n =
      .ok (columns', n', found)) : CachedColumns true p groupIds blockHashes columns' := by
  induction i generalizing columns n with
  | zero =>
    cases hrun
    exact h
  | succ i ih =>
    unfold KvCache.slidingLoop at hrun
    split at hrun
    · split at hrun
      · exact ih h hrun
      · rename_i cached hit
        split at hrun
        · exact ih h hrun
        · split at hrun
          · cases hrun
            exact (h.set hit).take _
          · exact ih (h.set hit) hrun
    · cases hrun

theorem findSliding {slidingWindow : Nat}
    (hrun : findSliding p groupIds blockHashes maxLength blockSize slidingWindow useEagle
      alignmentTokens = .ok columns) : CachedColumns true p groupIds blockHashes columns := by
  obtain ⟨⟨computed, n, found⟩, hloop, hrun⟩ := bind_ok hrun
  have hcached := slidingLoop (replicate _) hloop
  cases hrun
  cases found with
  | true =>
    cases useEagle with
    | true => exact hcached.dropLast.popUnaligned
    | false => exact hcached
  | false =>
    cases useEagle with
    | true => exact (hcached.take n).popUnaligned.dropLast.popUnaligned
    | false => exact (hcached.take n).popUnaligned

theorem findChunked {attentionChunkSize : Nat}
    (hrun : findChunked p groupIds blockHashes maxLength blockSize attentionChunkSize useEagle
      alignmentTokens = .ok columns) : CachedColumns true p groupIds blockHashes columns := by
  obtain ⟨-, -, hrun⟩ := bind_ok hrun
  obtain ⟨-, -, hrun⟩ := bind_ok hrun
  obtain ⟨hits, hloop, hrun⟩ := bind_ok hrun
  cases hrun
  exact append (chunkedLoop_spec hloop).2.1

theorem findMamba
    (hrun : findMamba p groupIds blockHashes maxLength blockSize alignmentTokens = .ok columns) :
    CachedColumns true p groupIds blockHashes columns := by
  unfold KvCache.findMamba at hrun
  generalize maxLength / blockSize = i at hrun
  induction i with
  | zero =>
    cases hrun
    exact replicate 0
  | succ i ih =>
    unfold mambaLoop at hrun
    split at hrun
    · split at hrun
      · exact ih hrun
      · rename_i cached hit
        split at hrun
        · exact ih hrun
        · cases hrun
          refine append fun j hj => ?_
          obtain rfl : j = 0 := Nat.lt_one_iff.mp hj
          exact hit.symm
    · cases hrun

end CachedColumns

theorem findLongestCacheHit_cached {spec : KVCacheSpec} {dcp pcp : Nat}
    (hrun : findLongestCacheHit spec p groupIds blockHashes maxLength useEagle alignmentTokens dcp pcp =
      .ok columns) :
    CachedColumns (!spec.isFullAttention) p groupIds blockHashes columns := by
  unfold findLongestCacheHit at hrun
  unfold KVCacheSpec.isFullAttention
  cases hk : spec.kind with
  | fullAttention | mlaAttention | sinkFullAttention n =>
    rw [hk] at hrun
    cases hrun
    exact CachedColumns.findFull
  | slidingWindow w =>
    rw [hk] at hrun
    obtain ⟨-, -, hrun⟩ := bind_ok hrun
    obtain ⟨-, -, hrun⟩ := bind_ok hrun
    exact CachedColumns.findSliding hrun
  | chunkedLocalAttention c =>
    rw [hk] at hrun
    obtain ⟨-, -, hrun⟩ := bind_ok hrun
    obtain ⟨-, -, hrun⟩ := bind_ok hrun
    exact CachedColumns.findChunked hrun
  | mamba align n =>
    rw [hk] at hrun
    obtain ⟨-, -, hrun⟩ := bind_ok hrun
    obtain ⟨-, -, hrun⟩ := bind_ok hrun
    exact CachedColumns.findMamba hrun
  | crossAttention =>
    rw [hk] at hrun
    cases hrun

/-! ## The blocks of one group -/

theorem groupBlocks_get {k i : Nat} {b : BlockRef} (h : ∀ column ∈ columns, k < column.length)
    (hget : (groupBlocks k columns)[i]? = some b) :
    ∃ column, columns[i]? = some column ∧ column[k]? = some b := by
  induction columns generalizing i with
  | nil => cases hget
  | cons column columns ih =>
    have hk := getElem?_eq_getElem (h column mem_cons_self)
    unfold groupBlocks at hget
    rw [filterMap_cons, hk] at hget
    cases i with
    | zero =>
      cases hget
      exact ⟨column, rfl, hk⟩
    | succ i => exact ih (fun c hc => h c (mem_cons_of_mem _ hc)) hget

/-- The blocks of group `g`: cached under the hashes of their positions, or null where these are
allowed. -/
def GroupCached (nulls : Bool) (p : BlockPool) (g : Nat) (blockHashes : List BlockHash)
    (blocks : List BlockRef) : Prop :=
  ∀ (i : Nat) (b : BlockRef), blocks[i]? = some b →
    (∃ hash, blockHashes[i]? = some hash ∧
      (p.heap b).blockHash = some (makeBlockHashWithGroupId hash g)) ∨
    nulls = true ∧ b = p.nullBlock

theorem GroupCached.take {g : Nat} {blocks : List BlockRef}
    (h : GroupCached nulls p g blockHashes blocks) (n : Nat) :
    GroupCached nulls p g blockHashes (blocks.take n) := by
  intro i b hi
  rw [getElem?_take] at hi
  split at hi
  · exact h i b hi
  · cases hi

theorem GroupCached.nil {g : Nat} : GroupCached nulls p g blockHashes [] := nofun

theorem CachedColumns.blocks (hcoh : BlockPool.Coherent p)
    (h : CachedColumns nulls p groupIds blockHashes columns) {k g : Nat} (hk : groupIds[k]? = some g) :
    GroupCached nulls p g blockHashes (groupBlocks k columns) := by
  have hlt := lt_of_getElem? hk
  intro i b hi
  have hwidth : ∀ column ∈ columns, k < column.length := by
    intro column hc
    obtain ⟨j, hj⟩ := getElem?_of_mem hc
    rcases h j column hj with hhit | ⟨-, rfl⟩
    · obtain ⟨hash, -, hget⟩ := bind_eq_some_iff.mp hhit
      rwa [← (hcoh.getCachedBlock hget).length_eq]
    · rwa [nullColumn, length_map]
  obtain ⟨column, hcol, hb⟩ := groupBlocks_get hwidth hi
  rcases h i column hcol with hhit | ⟨hnulls, rfl⟩
  · obtain ⟨hash, hhash, hget⟩ := bind_eq_some_iff.mp hhit
    refine Or.inl ⟨hash, hhash, ?_⟩
    obtain ⟨hlt', rfl⟩ := List.getElem?_eq_some_iff.mp hb
    obtain ⟨-, rfl⟩ := List.getElem?_eq_some_iff.mp hk
    exact (List.forall₂_iff_get.mp (hcoh.getCachedBlock hget)).2 k hlt hlt'
  · refine Or.inr ⟨hnulls, ?_⟩
    rw [nullColumn, getElem?_map, hk] at hb
    exact (Option.some.inj hb).symm

/-! ## Hybrid coordinators -/

namespace HybridKVCacheCoordinator

variable {c : HybridKVCacheCoordinator}

/-- What is stored for a group is cached. -/
def HitsCached (c : HybridKVCacheCoordinator) (p : BlockPool) (blockHashes : List BlockHash)
    (hits : Hits) : Prop :=
  ∀ (g : Nat) (blocks : List BlockRef) (spec : KVCacheSpec) (hashes : List BlockHash),
    hits g = some blocks → c.kvCacheGroups[g]? = some spec →
    c.getBlockHashes blockHashes spec = .ok hashes →
    GroupCached (!spec.isFullAttention) p g hashes blocks

theorem HitsCached.groupLoop (hv : Valid c) (hcoh : BlockPool.Coherent p) {gs : List AttentionGroup}
    (hsub : ∀ g ∈ gs, g ∈ c.attentionGroups) {n n' : Nat} {hits hits' : Hits}
    (h : HitsCached c p blockHashes hits)
    (hrun : c.groupLoop p blockHashes gs n hits = .ok (n', hits')) :
    HitsCached c p blockHashes hits' := by
  induction gs generalizing n hits with
  | nil =>
    cases hrun
    exact h
  | cons a gs ih =>
    have hsub' : ∀ g ∈ gs, g ∈ c.attentionGroups := fun g hg => hsub g (mem_cons_of_mem _ hg)
    rw [groupLoop_cons] at hrun
    split at hrun
    · exact ih hsub' h hrun
    · obtain ⟨hashes, hhashes, hrun⟩ := bind_ok hrun
      obtain ⟨columns, hfind, hrun⟩ := bind_ok hrun
      refine ih hsub' (fun g blocks spec hashes' hg hspec hget => ?_) hrun
      by_cases hmem : g ∈ a.groupIds
      · have hown := hv.split.mem a (hsub a mem_cons_self) g hmem
        rw [hspec] at hown
        obtain rfl := Option.some.inj hown
        rw [hhashes] at hget
        obtain rfl := Except.ok.inj hget
        rw [storeHits_of_mem hmem] at hg
        obtain rfl := Option.some.inj hg
        exact (findLongestCacheHit_cached hfind).blocks hcoh (getElem?_idxOf hmem)
      · rw [storeHits_of_notMem hmem] at hg
        exact h g blocks spec hashes' hg hspec hget

theorem HitsCached.hitLoop (hv : Valid c) (hcoh : BlockPool.Coherent p) {fuel n n' : Nat}
    {hits hits' : Hits} (h : HitsCached c p blockHashes hits)
    (hrun : c.hitLoop p blockHashes fuel n hits = .ok (some (n', hits'))) :
    HitsCached c p blockHashes hits' := by
  induction fuel generalizing n hits with
  | zero => cases hrun
  | succ fuel ih =>
    obtain ⟨⟨curr, hits1⟩, hloop, hrun⟩ := bind_ok hrun
    have h1 := h.groupLoop hv hcoh (fun _ hg => hg) hloop
    dsimp only at hrun
    split at hrun
    · cases hrun
      exact h1
    · split at hrun
      · cases hrun
        exact h1
      · exact ih h1 hrun

theorem HitsCached.truncateFull {hits : Hits} (h : HitsCached c p blockHashes hits) (n : Nat) :
    HitsCached c p blockHashes (c.truncateFull n hits) := by
  intro g blocks spec hashes hg hspec hget
  unfold HybridKVCacheCoordinator.truncateFull at hg
  cases hags : c.attentionGroups with
  | nil =>
    rw [hags] at hg
    exact h g blocks spec hashes hg hspec hget
  | cons a rest =>
    rw [hags] at hg
    dsimp only at hg
    split at hg
    · dsimp only at hg
      split at hg
      · obtain ⟨blocks', hold, rfl⟩ := map_eq_some_iff.mp hg
        exact (h g blocks' spec hashes hold hspec hget).take _
      · exact h g blocks spec hashes hg hspec hget
    · exact h g blocks spec hashes hg hspec hget

theorem findLongestCacheHit_cached (hv : Valid c) (hcoh : BlockPool.Coherent p)
    {blocks : List (List BlockRef)} {n : Nat}
    (hrun : c.findLongestCacheHit p blockHashes maxLength = .ok (some (blocks, n))) {g : Nat}
    {spec : KVCacheSpec} {hashes : List BlockHash} (hspec : c.kvCacheGroups[g]? = some spec)
    (hget : c.getBlockHashes blockHashes spec = .ok hashes) :
    GroupCached (!spec.isFullAttention) p g hashes (blocks.getD g []) := by
  obtain ⟨res, hloop, hrun⟩ := bind_ok hrun
  cases res with
  | none => cases hrun
  | some res =>
    cases hrun
    have hnone : HitsCached c p blockHashes fun _ => none := nofun
    have hcached := (hnone.hitLoop hv hcoh hloop).truncateFull res.1
    rw [getD_eq_getElem?_getD, getElem?_map, getElem?_range (lt_of_getElem? hspec)]
    show GroupCached _ p g hashes ((c.truncateFull res.1 res.2 g).getD [])
    cases hg : c.truncateFull res.1 res.2 g with
    | none => exact .nil
    | some blocks => exact hcached g blocks spec hashes hg hspec hget

/-- Every round but the last lowers the length, so the bound on their number is never reached. -/
theorem hitLoop_ne_none {fuel n : Nat} {hits : Hits} (h : n < fuel) :
    c.hitLoop p blockHashes fuel n hits ≠ .ok none := by
  induction fuel generalizing n hits with
  | zero => omega
  | succ fuel ih =>
    intro hrun
    obtain ⟨⟨curr, hits1⟩, -, hrun⟩ := bind_ok hrun
    dsimp only at hrun
    split at hrun
    · cases hrun
    · split at hrun
      · cases hrun
      · exact ih (by omega) hrun

end HybridKVCacheCoordinator

end MyOperator.KvCache
