import MyOperator.Lib.Descent
import MyOperator.KvCache.Coherence
import MyOperator.KvCache.LookupSpec

/-!
# Hits of a spec

The lookups of all manager classes under one description: what a hit of a spec
reads, which configurations a lookup refuses, and how far a lookup descends.
-/

namespace MyOperator.KvCache

open Lib List

/-- Which blocks a hit of `e` blocks reads. A sliding window reads at least the last block. -/
def KVCacheSpec.ReadsBlock (spec : KVCacheSpec) (e j : Nat) : Prop :=
  match spec.kind with
  | .slidingWindow w => e ≤ j + max (windowNeed spec.blockSize w false) 1
  | .chunkedLocalAttention c => chunkStartBlock spec.blockSize c (e * spec.blockSize) ≤ j
  | .mamba _ _ => e ≤ j + 1
  | _ => True

/-- The groups of a spec have a hit of `len` tokens. -/
def SpecHit (p : BlockPool) (groupIds : List Nat) (blockHashes : List BlockHash)
    (alignmentTokens : Nat) (spec : KVCacheSpec) (len : Nat) : Prop :=
  ∃ e, len = e * spec.blockSize ∧
    CacheHit p groupIds blockHashes spec.blockSize alignmentTokens spec.ReadsBlock e

/-- The configurations that a lookup does not refuse. -/
def KVCacheSpec.Supported (spec : KVCacheSpec) (useEagle : Bool) (alignmentTokens : Nat) : Prop :=
  match spec.kind with
  | .chunkedLocalAttention _ => useEagle = false ∧ spec.blockSize = alignmentTokens
  | .crossAttention => False
  | _ => True

variable {p : BlockPool} {groupIds : List Nat} {blockHashes : List BlockHash}
  {alignmentTokens maxLength : Nat} {spec : KVCacheSpec} {useEagle : Bool} {columns : List Column}

/-- The chunk that `maxLength` lies in starts with a block. -/
def KVCacheSpec.ChunkAligned (spec : KVCacheSpec) (maxLength : Nat) : Prop :=
  ∀ c, spec.kind = .chunkedLocalAttention c →
    chunkStartBlock spec.blockSize c maxLength * spec.blockSize % c = 0

/-- What a lookup below `maxLength` tokens returns. -/
structure Finds (p : BlockPool) (groupIds : List Nat) (blockHashes : List BlockHash)
    (alignmentTokens : Nat) (spec : KVCacheSpec) (useEagle : Bool) (maxLength : Nat)
    (columns : List Column) : Prop where
  le : columns.length * spec.blockSize ≤ maxLength
  aligned : alignmentTokens ∣ columns.length * spec.blockSize
  column : ∀ (j : Nat) column, columns[j]? = some column →
    column = nullColumn p groupIds ∨ hitAt p groupIds blockHashes j = some column
  full : spec.isFullAttention = true → ∀ j < columns.length, (hitAt p groupIds blockHashes j).isSome
  descends : useEagle = false →
    Descends (SpecHit p groupIds blockHashes alignmentTokens spec) maxLength
      (columns.length * spec.blockSize)
  exact : useEagle = false → spec.ChunkAligned maxLength →
    SpecHit p groupIds blockHashes alignmentTokens spec (columns.length * spec.blockSize)

/-! ## One description for all lookups -/

private theorem LongestHit.column {blockSize maxNumBlocks : Nat} {reads : Nat → Nat → Prop}
    (h : LongestHit p groupIds blockHashes blockSize alignmentTokens reads maxNumBlocks columns)
    {j : Nat} {column : Column} (hj : columns[j]? = some column) :
    column = nullColumn p groupIds ∨ hitAt p groupIds blockHashes j = some column := by
  obtain ⟨hlt, -⟩ := List.getElem?_eq_some_iff.mp hj
  by_cases hr : reads columns.length j
  · exact .inr (by rw [← h.real j hlt hr, hj])
  · rw [h.null j hlt hr] at hj
    exact .inl (Option.some.inj hj).symm

section

variable (hbs : 0 < spec.blockSize)
include hbs

private theorem LongestHit.finds
    (h : LongestHit p groupIds blockHashes spec.blockSize alignmentTokens spec.ReadsBlock (maxLength / spec.blockSize) columns)
    (hfull : spec.isFullAttention = true → ∀ e j, spec.ReadsBlock e j) (useEagle : Bool) :
    Finds p groupIds blockHashes alignmentTokens spec useEagle maxLength columns where
  le := (Nat.le_div_iff_mul_le hbs).mp h.greatest.1.1
  aligned := Nat.dvd_of_mod_eq_zero h.greatest.1.2.1
  column _ _ hj := h.column hj
  full hf j hj := h.greatest.1.2.2 j hj (hfull hf _ _)
  descends _ := {
    le := (Nat.le_div_iff_mul_le hbs).mp h.greatest.1.1
    keep := fun x ⟨e, hx, hhit⟩ hle => by
      subst hx
      exact Nat.mul_le_mul_right _ (h.greatest.2 ⟨(Nat.le_div_iff_mul_le hbs).mpr hle, hhit⟩)
    fixed := fun heq => ⟨columns.length, heq.symm, h.greatest.1.2⟩ }
  exact _ _ := ⟨columns.length, rfl, h.greatest.1.2⟩

/-- What is left of a list of columns when only its first `n` columns are kept. -/
private theorem finds_take {l : List Column} {n : Nat}
    (hlen : l.length ≤ maxLength / spec.blockSize) (hn : n ≤ l.length)
    (hal : n * spec.blockSize % alignmentTokens = 0)
    (hcol : ∀ (j : Nat) column, l[j]? = some column → column = nullColumn p groupIds ∨ hitAt p groupIds blockHashes j = some column)
    (hfull : spec.isFullAttention = true → ∀ j < l.length, (hitAt p groupIds blockHashes j).isSome) :
    Finds p groupIds blockHashes alignmentTokens spec true maxLength (l.take n) := by
  have htake : (l.take n).length = n := by
    rw [length_take]
    exact min_eq_left hn
  refine ⟨?_, ?_, fun j column hj => ?_, fun hf j hj => ?_, fun hf => (nomatch hf),
    fun hf => (nomatch hf)⟩
  · rw [htake]
    exact (Nat.le_div_iff_mul_le hbs).mp (Nat.le_trans hn hlen)
  · rw [htake]
    exact Nat.dvd_of_mod_eq_zero hal
  · rw [getElem?_take] at hj
    split at hj
    · exact hcol j column hj
    · cases hj
  · rw [htake] at hj
    exact hfull hf j (lt_of_lt_of_le hj hn)

private theorem finds_full (hf : spec.isFullAttention = true) :
    Finds p groupIds blockHashes alignmentTokens spec useEagle maxLength
      (findFull p groupIds blockHashes maxLength spec.blockSize useEagle alignmentTokens) := by
  have hreads : spec.ReadsBlock = fun _ _ => True := by
    funext e j
    unfold KVCacheSpec.ReadsBlock
    unfold KVCacheSpec.isFullAttention at hf
    cases hk : spec.kind <;> simp_all
  cases useEagle with
  | false =>
    have h := findFull_spec p groupIds blockHashes maxLength spec.blockSize alignmentTokens
    rw [← hreads] at h
    exact h.finds hbs (fun _ _ _ => by rw [hreads]; trivial) false
  | true =>
    obtain ⟨hlen, hreal⟩ := @fullLoop_take_spec p groupIds blockHashes (maxLength / spec.blockSize)
    unfold findFull
    generalize fullLoop p groupIds (blockHashes.take (maxLength / spec.blockSize)) = l at hlen hreal
    obtain ⟨n, hn, ⟨hnle, hnal⟩, -⟩ := popUnaligned_spec spec.blockSize alignmentTokens l.dropLast
    rw [length_dropLast] at hnle
    dsimp only
    rw [if_pos rfl, hn, dropLast_eq_take, take_take, min_eq_left hnle]
    refine finds_take hbs hlen (by omega) hnal (fun j column hj => ?_) fun _ j hj => (hreal j hj).2
    obtain ⟨hlt, -⟩ := List.getElem?_eq_some_iff.mp hj
    exact .inr (by rw [← (hreal j hlt).1, hj])

private theorem finds_sliding {w : Nat} (hk : spec.kind = .slidingWindow w)
    (hrun : findSliding p groupIds blockHashes maxLength spec.blockSize w useEagle alignmentTokens = .ok columns) :
    Finds p groupIds blockHashes alignmentTokens spec useEagle maxLength columns := by
  have hnot : spec.isFullAttention = false := by
    unfold KVCacheSpec.isFullAttention
    rw [hk]
  obtain ⟨found, hfound, hcols⟩ := findSliding_spec hrun
  cases useEagle with
  | false =>
    obtain rfl : columns = found := by simpa using hcols
    have hreads : spec.ReadsBlock = fun e j => e ≤ j + max (windowNeed spec.blockSize w false) 1 := by
      funext e j
      unfold KVCacheSpec.ReadsBlock
      rw [hk]
    rw [← hreads] at hfound
    refine hfound.finds hbs (fun hf => ?_) false
    rw [hnot] at hf
    cases hf
  | true =>
    obtain ⟨n, hn, ⟨hnle, hnal⟩, -⟩ :=
      popUnaligned_spec spec.blockSize alignmentTokens found.dropLast
    rw [length_dropLast] at hnle
    rw [hn, dropLast_eq_take, take_take, min_eq_left hnle] at hcols
    subst hcols
    refine finds_take hbs hfound.greatest.1.1 (by omega) hnal (fun j column hj => hfound.column hj)
      fun hf => ?_
    rw [hnot] at hf
    cases hf

private theorem finds_mamba {align : Bool} {n : Nat} (hk : spec.kind = .mamba align n)
    (hrun : findMamba p groupIds blockHashes maxLength spec.blockSize alignmentTokens = .ok columns) :
    Finds p groupIds blockHashes alignmentTokens spec useEagle maxLength columns := by
  have h := findMamba_spec hrun
  have hreads : spec.ReadsBlock = fun e j => e ≤ j + 1 := by
    funext e j
    unfold KVCacheSpec.ReadsBlock
    rw [hk]
  rw [← hreads] at h
  refine h.finds hbs (fun hf => ?_) useEagle
  unfold KVCacheSpec.isFullAttention at hf
  rw [hk] at hf
  cases hf

end

/-- The chunk of `e` blocks starts where the chunk of `maxLength` does, when it does not end
before. -/
theorem chunkStartBlock_eq {blockSize c e : Nat} (hbs : 0 < blockSize) (hc : 0 < c)
    (hle : e * blockSize ≤ maxLength) (hlt : chunkStartBlock blockSize c maxLength < e) :
    chunkStartBlock blockSize c (e * blockSize) = chunkStartBlock blockSize c maxLength := by
  have hstart : maxLength / c * c ≤ e * blockSize := by
    have := (Nat.div_lt_iff_lt_mul hbs).mp hlt
    exact Nat.le_of_lt this
  unfold chunkStartBlock
  congr 2
  exact Nat.le_antisymm (Nat.div_le_div_right hle) ((Nat.le_div_iff_mul_le hc).mpr hstart)

theorem chunkStartBlock_of_mod {blockSize c e : Nat} (hbs : 0 < blockSize)
    (hmod : e * blockSize % c = 0) : chunkStartBlock blockSize c (e * blockSize) = e := by
  unfold chunkStartBlock
  rw [Nat.div_mul_cancel (Nat.dvd_of_mod_eq_zero hmod), Nat.mul_div_cancel _ hbs]

private theorem finds_chunked {c : Nat} (hbs : 0 < spec.blockSize) (hc : 0 < c)
    (hk : spec.kind = .chunkedLocalAttention c)
    (hrun : findChunked p groupIds blockHashes maxLength spec.blockSize c useEagle
      alignmentTokens = .ok columns) :
    Finds p groupIds blockHashes alignmentTokens spec useEagle maxLength columns := by
  obtain ⟨-, rfl, hstart, hlen, hcol, hmiss⟩ := findChunked_spec hrun
  have hreads : ∀ e j, spec.ReadsBlock e j ↔
      chunkStartBlock spec.blockSize c (e * spec.blockSize) ≤ j := by
    intro e j
    unfold KVCacheSpec.ReadsBlock
    rw [hk]
  have hle := (Nat.le_div_iff_mul_le hbs).mp hlen
  have hreal : ∀ j < columns.length, chunkStartBlock spec.blockSize c maxLength ≤ j →
      (hitAt p groupIds blockHashes j).isSome := fun j hj hr => by
    have := hcol j hj
    rw [if_pos hr] at this
    rw [← this]
    simp [hj]
  refine ⟨hle, dvd_mul_left _ _, fun j column hj => ?_, fun hf => ?_, fun _ => ⟨hle, ?_, ?_⟩,
    fun _ hal => ⟨columns.length, rfl, Nat.mul_mod_left _ _, fun j hj hr => ?_⟩⟩
  · obtain ⟨hlt, -⟩ := List.getElem?_eq_some_iff.mp hj
    rw [hcol j hlt] at hj
    split at hj
    · exact .inr hj
    · exact .inl (Option.some.inj hj).symm
  · unfold KVCacheSpec.isFullAttention at hf
    rw [hk] at hf
    cases hf
  · -- a hit beyond the run would read the block that ended the run
    rintro x ⟨e, rfl, -, hhit⟩ hxle
    refine Nat.mul_le_mul_right _ ?_
    by_contra hgt
    have hgt : columns.length < e := Nat.lt_of_not_le hgt
    have hemax : e ≤ maxLength / spec.blockSize := (Nat.le_div_iff_mul_le hbs).mpr hxle
    have := hhit columns.length hgt (by
      rw [hreads, chunkStartBlock_eq hbs hc hxle (Nat.lt_of_le_of_lt hstart hgt)]
      exact hstart)
    rw [hmiss (lt_of_lt_of_le hgt hemax)] at this
    cases this
  · intro heq
    refine ⟨columns.length, heq.symm, Nat.mul_mod_left _ _, fun j hj hr => ?_⟩
    rw [hreads, heq] at hr
    exact hreal j hj hr
  · -- the run is empty, or reads from where it started
    refine hreal j hj ?_
    rw [hreads] at hr
    rcases eq_or_lt_of_le hstart with heq | hlt
    · have hmod := hal c hk
      rwa [← heq, chunkStartBlock_of_mod hbs hmod] at hr
    · rwa [chunkStartBlock_eq hbs hc hle hlt] at hr

/-- A local chunk has a positive size. -/
def KVCacheSpec.ChunkPos (spec : KVCacheSpec) : Prop :=
  match spec.kind with
  | .chunkedLocalAttention c => 0 < c
  | _ => True

theorem findLongestCacheHit_finds (hbs : 0 < spec.blockSize) (hc : spec.ChunkPos)
    (hrun : findLongestCacheHit spec p groupIds blockHashes maxLength useEagle alignmentTokens 1 1 =
      .ok columns) :
    spec.Supported useEagle alignmentTokens ∧
      Finds p groupIds blockHashes alignmentTokens spec useEagle maxLength columns := by
  unfold findLongestCacheHit at hrun
  unfold KVCacheSpec.Supported
  cases hk : spec.kind with
  | fullAttention | mlaAttention | sinkFullAttention n =>
    rw [hk] at hrun
    obtain rfl := Except.ok.inj hrun
    refine ⟨trivial, finds_full hbs ?_⟩
    unfold KVCacheSpec.isFullAttention
    rw [hk]
  | slidingWindow w =>
    rw [hk] at hrun
    exact ⟨trivial, finds_sliding hbs hk hrun⟩
  | chunkedLocalAttention c =>
    unfold KVCacheSpec.ChunkPos at hc
    rw [hk] at hrun hc
    obtain ⟨heagle, hal, -⟩ := findChunked_spec hrun
    exact ⟨⟨heagle, hal⟩, finds_chunked hbs hc hk hrun⟩
  | mamba align n =>
    rw [hk] at hrun
    exact ⟨trivial, finds_mamba hbs hk hrun⟩
  | crossAttention =>
    rw [hk] at hrun
    cases hrun

/-- On a supported configuration the lookup returns within the hash list; full attention
always does. -/
theorem findLongestCacheHit_ok (hs : spec.Supported useEagle alignmentTokens)
    (hlen : spec.isFullAttention = true ∨ maxLength / spec.blockSize ≤ blockHashes.length) :
    ∃ columns, findLongestCacheHit spec p groupIds blockHashes maxLength useEagle alignmentTokens
      1 1 = .ok columns := by
  unfold findLongestCacheHit
  unfold KVCacheSpec.Supported at hs
  unfold KVCacheSpec.isFullAttention at hlen
  cases hk : spec.kind with
  | fullAttention | mlaAttention | sinkFullAttention n => exact ⟨_, rfl⟩
  | slidingWindow w => exact findSliding_ok (by simpa [hk] using hlen) p groupIds w useEagle
  | chunkedLocalAttention c =>
    rw [hk] at hs
    obtain ⟨rfl, hal⟩ := hs
    exact findChunked_ok (by simpa [hk] using hlen) p groupIds c hal
  | mamba align n => exact findMamba_ok (by simpa [hk] using hlen) p groupIds
  | crossAttention => rw [hk] at hs; exact hs.elim

theorem Finds.width (h : Finds p groupIds blockHashes alignmentTokens spec useEagle maxLength columns)
    {column : Column} (hc : column ∈ columns) : column.length = groupIds.length := by
  obtain ⟨j, hj⟩ := getElem?_of_mem hc
  rcases h.column j column hj with rfl | hhit
  · simp [nullColumn]
  · obtain ⟨hash, -, hget⟩ := Option.bind_eq_some_iff.mp hhit
    exact (BlockPool.getCachedBlock_eq_some.mp hget).length_eq.symm

/-! ## Caches with all hits and with none -/

/-- When everything is cached, full attention gives up at most one aligned step, to eagle. -/
theorem findFull_ge {blockSize : Nat} (hbs : 0 < blockSize) (hdvd : blockSize ∣ alignmentTokens)
    (hal : alignmentTokens ∣ maxLength)
    (hhit : ∀ j < maxLength / blockSize, (hitAt p groupIds blockHashes j).isSome) :
    maxLength ≤ (findFull p groupIds blockHashes maxLength blockSize useEagle
      alignmentTokens).length * blockSize + if useEagle then alignmentTokens else 0 := by
  have hlen : maxLength / blockSize ≤
      (fullLoop p groupIds (blockHashes.take (maxLength / blockSize))).length :=
    length_fullLoop_of_hits fun j hj => by
      rw [hitAt_take, if_pos hj]
      exact hhit j hj
  unfold findFull
  generalize fullLoop p groupIds (blockHashes.take (maxLength / blockSize)) = l at hlen ⊢
  obtain ⟨k, rfl⟩ := hal
  obtain ⟨s, rfl⟩ := hdvd
  have hdiv : blockSize * s * k / blockSize = s * k := by
    rw [Nat.mul_assoc, Nat.mul_div_cancel_left _ hbs]
  rw [hdiv] at hlen
  -- every multiple of the step up to the list's length survives the realignment
  have hkeep : ∀ (l : List Column) n, n * s ≤ l.length →
      n * s ≤ (popUnaligned blockSize (blockSize * s) l).length := by
    intro l n hn
    obtain ⟨m, hm, ⟨hmle, -⟩, hub⟩ := popUnaligned_spec blockSize (blockSize * s) l
    rw [hm, length_take, min_eq_left hmle]
    refine hub ⟨hn, ?_⟩
    rw [mul_assoc, mul_comm s blockSize]
    exact Nat.mul_mod_left _ _
  cases useEagle with
  | false =>
    have := Nat.mul_le_mul_right blockSize (hkeep l k (by rwa [Nat.mul_comm]))
    calc blockSize * s * k = k * s * blockSize := by ring
      _ ≤ _ := this
  | true =>
    rcases Nat.eq_zero_or_pos k with rfl | hk
    · simp
    · rcases Nat.eq_zero_or_pos s with rfl | hs
      · simp
      · have hle : (k - 1) * s ≤ l.dropLast.length := by
          rw [length_dropLast, Nat.sub_mul]
          rw [Nat.mul_comm] at hlen
          omega
        have := Nat.mul_le_mul_right blockSize (hkeep l.dropLast (k - 1) hle)
        calc blockSize * s * k = (k - 1) * s * blockSize + blockSize * s := by
              obtain ⟨j, rfl⟩ : ∃ j, k = j + 1 := ⟨k - 1, by omega⟩
              rw [Nat.add_sub_cancel]
              ring
          _ ≤ _ := Nat.add_le_add_right this _

theorem findLongestCacheHit_full (hf : spec.isFullAttention = true) :
    findLongestCacheHit spec p groupIds blockHashes maxLength useEagle alignmentTokens 1 1 =
      .ok (findFull p groupIds blockHashes maxLength spec.blockSize useEagle alignmentTokens) := by
  unfold KVCacheSpec.isFullAttention at hf
  unfold findLongestCacheHit
  cases hk : spec.kind with
  | fullAttention | mlaAttention | sinkFullAttention n => rfl
  | _ => simp [hk] at hf

theorem findLongestCacheHit_nil (hk : ∀ c, spec.kind ≠ .chunkedLocalAttention c)
    (hmiss : ∀ j, hitAt p groupIds blockHashes j = none)
    (hrun : findLongestCacheHit spec p groupIds blockHashes maxLength useEagle alignmentTokens 1 1 =
      .ok columns) : columns = [] := by
  have hnil : ∀ {reads : Nat → Nat → Prop} {n : Nat} {l : List Column},
      LongestHit p groupIds blockHashes spec.blockSize alignmentTokens reads n l →
      (∀ e, reads (e + 1) e) → l = [] := by
    intro reads n l h hreads
    cases l with
    | nil => rfl
    | cons column l =>
      have := h.greatest.1.2.2 l.length (by simp) (hreads _)
      rw [hmiss] at this
      cases this
  have hfull (hf : spec.isFullAttention = true) : columns = [] := by
    rw [findLongestCacheHit_full hf] at hrun
    obtain rfl := Except.ok.inj hrun
    unfold findFull
    have hloop := (@fullLoop_take_spec p groupIds blockHashes (maxLength / spec.blockSize)).2
    generalize fullLoop p groupIds (blockHashes.take (maxLength / spec.blockSize)) = l at hloop
    cases l with
    | nil => cases useEagle <;> rfl
    | cons column l =>
      have := (hloop 0 (by simp)).2
      rw [hmiss] at this
      cases this
  unfold findLongestCacheHit at hrun
  unfold KVCacheSpec.isFullAttention at hfull
  cases hkind : spec.kind with
  | fullAttention | mlaAttention | sinkFullAttention n => exact hfull (by rw [hkind])
  | slidingWindow w =>
    rw [hkind] at hrun
    obtain ⟨found, hfound, hcols⟩ := findSliding_spec hrun
    rw [hnil hfound fun e => by omega] at hcols
    rw [hcols]
    cases useEagle <;> rfl
  | chunkedLocalAttention c => exact absurd hkind (hk c)
  | mamba align n =>
    rw [hkind] at hrun
    exact hnil (findMamba_spec hrun) fun e => le_rfl
  | crossAttention =>
    rw [hkind] at hrun
    cases hrun

end MyOperator.KvCache
