import MyOperator.KvCache.ManagerEffect
import MyOperator.KvCache.Populate

/-!
# Windows keep the blocks that attention reads

A sliding window and a local chunk read only the tokens near the end of a request.
`LookupSound` says that the blocks of these tokens are real in every hit, and
`RemovalSound` that the removal of skipped blocks leaves them in place. Removal is
always sound. The lookup is sound on a configuration exactly when `WindowAligned`
holds of it.
-/

namespace MyOperator.KvCache

open Lib List Nat

/-- The managers with skipped tokens. -/
def SpecKind.Windowed : SpecKind → Prop
  | .slidingWindow w => 0 < w
  | .chunkedLocalAttention c => 0 < c
  | _ => False

/-- The attention of token `n` may read token `t`: one of the last `window - 1` tokens, or a
token since the start of the chunk of `n`. -/
def SpecKind.ReadsToken (kind : SpecKind) (n t : Nat) : Prop :=
  match kind with
  | .slidingWindow w => t < n ∧ n < t + w
  | .chunkedLocalAttention c => n / c * c ≤ t ∧ t < n
  | _ => t < n

/-- Every group has the block of position `i` in the cache. -/
def RealAt (p : BlockPool) (groupIds : List Nat) (blockHashes : List BlockHash)
    (columns : List Column) (i : Nat) : Prop :=
  ∃ column hash, columns[i]? = some column ∧ blockHashes[i]? = some hash ∧
    Forall₂ (fun g b => b ≠ p.nullBlock ∧
      (p.heap b).blockHash = some (makeBlockHashWithGroupId hash g)) groupIds column

/-- In every hit, every block with a token that is read is a cached block. -/
def LookupSound (spec : KVCacheSpec) (useEagle : Bool) (alignmentTokens maxLength : Nat) : Prop :=
  ∀ (p : BlockPool) (groupIds : List Nat) (blockHashes : List BlockHash) (dcp pcp : Nat)
    (columns : List Column), BlockPool.Coherent p → (p.heap p.nullBlock).isNull = true →
    findLongestCacheHit spec p groupIds blockHashes maxLength useEagle alignmentTokens dcp pcp =
      .ok columns →
    ∀ t, spec.kind.ReadsToken (columns.length * spec.blockSize) t →
      RealAt p groupIds blockHashes columns (t / spec.blockSize)

/-- The removal of skipped blocks keeps every block with a token that is read. -/
def RemovalSound (m : SingleTypeKVCacheManager) : Prop :=
  ∀ (p p' : BlockPool) (m' : SingleTypeKVCacheManager) (requestId numComputedTokens : Nat),
    m.removeSkippedBlocks p requestId numComputedTokens = .ok (m', p') →
    ∀ t, m.kvCacheSpec.kind.ReadsToken numComputedTokens t →
      (m'.table requestId)[t / m.blockSize]? = (m.table requestId)[t / m.blockSize]?

/-- The blocks between two aligned lengths. -/
def alignedStep (blockSize alignmentTokens : Nat) : Nat :=
  Nat.lcm blockSize alignmentTokens / blockSize

/-- The longest aligned length, in blocks. -/
def alignedTop (blockSize alignmentTokens maxLength : Nat) : Nat :=
  maxLength / blockSize / alignedStep blockSize alignmentTokens *
    alignedStep blockSize alignmentTokens

/-- When a lookup is sound. A sliding window drops a block with eagle and may have to
realign: then no two aligned lengths fit, or the window does. A chunk has to start with a
block. -/
def WindowAligned (spec : KVCacheSpec) (useEagle : Bool) (alignmentTokens maxLength : Nat) : Prop :=
  match spec.kind with
  | .slidingWindow w =>
    useEagle = false ∨ alignedStep spec.blockSize alignmentTokens = 1 ∨
      cdiv (w - 1) spec.blockSize = 0 ∨
      alignedTop spec.blockSize alignmentTokens maxLength <
        2 * alignedStep spec.blockSize alignmentTokens ∨
      alignedTop spec.blockSize alignmentTokens maxLength < cdiv (w - 1) spec.blockSize + 2
  | .chunkedLocalAttention c =>
    useEagle = true ∨ spec.blockSize ≠ alignmentTokens ∨
      chunkStartBlock spec.blockSize c maxLength * spec.blockSize % c = 0
  | _ => True

/-! ## Removal -/

theorem getNumSkippedTokens_le {m : SingleTypeKVCacheManager} {n t : Nat}
    (hk : m.kvCacheSpec.kind.Windowed) (ht : m.kvCacheSpec.kind.ReadsToken n t) :
    m.getNumSkippedTokens n ≤ t := by
  unfold SingleTypeKVCacheManager.getNumSkippedTokens
  cases hkind : m.kvCacheSpec.kind with
  | slidingWindow w =>
    rw [hkind] at ht
    obtain ⟨-, hn⟩ := ht
    dsimp only
    omega
  | chunkedLocalAttention c =>
    rw [hkind] at ht
    obtain ⟨hc, -⟩ := ht
    exact Int.ofNat_le.mpr hc
  | _ =>
    rw [hkind] at hk
    exact hk.elim

theorem removal_sound {m : SingleTypeKVCacheManager} (hk : m.kvCacheSpec.kind.Windowed) :
    RemovalSound m := by
  intro p p' m' r n hrun t ht
  have hbase : SingleTypeKVCacheManager.Base.removeSkippedBlocks m p r n = .ok (m', p') := by
    unfold SingleTypeKVCacheManager.removeSkippedBlocks at hrun
    cases hkind : m.kvCacheSpec.kind with
    | mamba align s =>
      rw [hkind] at hk
      exact hk.elim
    | _ => simpa only [hkind] using hrun
  obtain ⟨blocks, removed, -, hrem, hm⟩ :=
    SingleTypeKVCacheManager.Base.removeSkippedBlocks_effect hbase
  have hle : (m.getNumSkippedTokens n).toNat / m.blockSize ≤ t / m.blockSize :=
    Nat.div_le_div_right (Int.toNat_le.mpr (getNumSkippedTokens_le hk ht))
  rcases hm with rfl | ⟨rfl, -, -⟩
  · rw [SingleTypeKVCacheManager.table_setTable, if_pos rfl]
    exact hrem.above _ hle
  · rfl

/-! ## Alignment -/

section Aligned

variable {bs align e : Nat}

theorem alignedStep_pos (hbs : 0 < bs) (halign : 0 < align) : 0 < alignedStep bs align :=
  Nat.div_pos (le_of_dvd (lcm_pos hbs halign) (Nat.dvd_lcm_left bs align)) hbs

theorem aligned_iff (hbs : 0 < bs) : e * bs % align = 0 ↔ alignedStep bs align ∣ e := by
  have hstep : alignedStep bs align * bs = Nat.lcm bs align :=
    Nat.div_mul_cancel (Nat.dvd_lcm_left bs align)
  rw [← dvd_iff_mod_eq_zero, ← @Nat.mul_dvd_mul_iff_right (alignedStep bs align) e bs hbs,
    hstep, Nat.lcm_dvd_iff]
  exact ⟨fun h => ⟨Nat.dvd_mul_left _ _, h⟩, fun h => h.2⟩

theorem le_alignedTop {maxLength : Nat} (h : alignedStep bs align ∣ e) (he : e ≤ maxLength / bs) :
    e ≤ alignedTop bs align maxLength := by
  obtain ⟨k, rfl⟩ := h
  rcases Nat.eq_zero_or_pos (alignedStep bs align) with h0 | hpos
  · simp [h0]
  · rw [Nat.mul_comm]
    refine Nat.mul_le_mul_right _ ((Nat.le_div_iff_mul_le hpos).mpr ?_)
    rwa [Nat.mul_comm]

theorem alignedTop_dvd (maxLength : Nat) : alignedStep bs align ∣ alignedTop bs align maxLength :=
  Nat.dvd_mul_left _ _

theorem alignedTop_le (maxLength : Nat) : alignedTop bs align maxLength ≤ maxLength / bs :=
  div_mul_le_self _ _

end Aligned

/-! ## Sound lookups -/

section Lookup

variable {spec : KVCacheSpec} {p : BlockPool} {groupIds : List Nat} {blockHashes : List BlockHash}
  {columns : List Column} {useEagle : Bool} {alignmentTokens maxLength : Nat}

theorem realAt_of_hit {i : Nat} (hcoh : BlockPool.Coherent p)
    (hnull : (p.heap p.nullBlock).isNull = true) (hi : i < columns.length)
    (hhit : columns[i]? = hitAt p groupIds blockHashes i) :
    RealAt p groupIds blockHashes columns i := by
  have hcol : columns[i]? = some columns[i] := getElem?_eq_getElem hi
  rw [hhit] at hcol
  obtain ⟨hash, hhash, hget⟩ := Option.bind_eq_some_iff.mp hcol
  refine ⟨columns[i], hash, hhit.trans hcol, hhash, (hcoh.getCachedBlock hget).imp fun g b hb => ⟨?_, hb⟩⟩
  rintro rfl
  have := hcoh.notNull _ _ hb
  rw [hnull] at this
  cases this

theorem window_block {bs w n t : Nat} (hbs : 0 < bs) (ht : t < n * bs) (hw : n * bs < t + w) :
    t / bs < n ∧ n ≤ t / bs + cdiv (w - 1) bs := by
  refine ⟨(div_lt_iff_lt_mul hbs).mpr ht, ?_⟩
  have hcover := le_cdiv_mul (w - 1) hbs
  have hlt := lt_div_mul_add hbs (a := t)
  by_contra hgt
  have hle : t / bs + cdiv (w - 1) bs + 1 ≤ n := Nat.lt_of_not_le hgt
  have hmul := Nat.mul_le_mul_right bs hle
  rw [Nat.add_mul, Nat.add_mul] at hmul
  omega

private theorem sliding_sound {w : Nat} (hbs : 0 < spec.blockSize)
    (hkind : spec.kind = .slidingWindow w)
    (hal : WindowAligned spec useEagle alignmentTokens maxLength) (hcoh : BlockPool.Coherent p)
    (hnull : (p.heap p.nullBlock).isNull = true)
    (hrun : findSliding p groupIds blockHashes maxLength spec.blockSize w useEagle alignmentTokens =
      .ok columns) {t : Nat} (ht : t < columns.length * spec.blockSize)
    (hw : columns.length * spec.blockSize < t + w) :
    RealAt p groupIds blockHashes columns (t / spec.blockSize) := by
  obtain ⟨hj, hcover⟩ := window_block hbs ht hw
  generalize t / spec.blockSize = j at hj hcover ⊢
  obtain ⟨found, hfound, hcols⟩ := findSliding_spec hrun
  have hmem := hfound.greatest.1
  cases useEagle with
  | false =>
    obtain rfl : columns = found := by simpa using hcols
    refine realAt_of_hit hcoh hnull hj (hfound.real j hj ?_)
    simp only [windowNeed]
    omega
  | true =>
    obtain ⟨n, hn, hgreatest⟩ := popUnaligned_spec spec.blockSize alignmentTokens found.dropLast
    rw [length_dropLast] at hgreatest
    rw [if_pos rfl, hn] at hcols
    obtain ⟨⟨hnle, hnal⟩, hub⟩ := hgreatest
    have hlen : columns.length = n := by
      rw [hcols, length_take, length_dropLast]
      exact min_eq_left hnle
    rw [hlen] at hj hcover
    -- the block is one of the hit that the last block was dropped from
    have hreads : found.length ≤ j + (cdiv (w - 1) spec.blockSize + 1) := by
      have hdvd := (aligned_iff hbs).mp hmem.2.1
      have hdvd' := (aligned_iff hbs).mp hnal
      have htop := le_alignedTop hdvd hmem.1
      unfold WindowAligned at hal
      rw [hkind] at hal
      rcases hal with hf | hone | hzero | hshort | hfit
      · cases hf
      · have : found.length - 1 ≤ n :=
          hub ⟨le_rfl, (aligned_iff hbs).mpr (by rw [hone]; exact one_dvd _)⟩
        omega
      · omega
      · obtain ⟨a, ha⟩ := hdvd
        obtain ⟨b, hb⟩ := hdvd'
        have ha2 : a < 2 := by
          by_contra hge
          have := Nat.mul_le_mul_left (alignedStep spec.blockSize alignmentTokens)
            (Nat.le_of_not_lt hge)
          omega
        have hb1 : b < 1 := by
          by_contra hge
          have hab : a ≤ b := by omega
          have := Nat.mul_le_mul_left (alignedStep spec.blockSize alignmentTokens) hab
          omega
        obtain rfl : b = 0 := by omega
        omega
      · omega
    refine realAt_of_hit hcoh hnull (by rw [hlen]; exact hj) ?_
    rw [hcols, getElem?_take, if_pos hj, dropLast_eq_take, getElem?_take, if_pos (by omega)]
    refine hfound.real j (by omega) ?_
    simp only [windowNeed, if_true]
    omega

private theorem chunked_sound {c : Nat} (hcpos : 0 < c) (hbs : 0 < spec.blockSize)
    (hkind : spec.kind = .chunkedLocalAttention c)
    (hal : WindowAligned spec useEagle alignmentTokens maxLength) (hcoh : BlockPool.Coherent p)
    (hnull : (p.heap p.nullBlock).isNull = true)
    (hrun : findChunked p groupIds blockHashes maxLength spec.blockSize c useEagle alignmentTokens =
      .ok columns) {t : Nat} (hc : columns.length * spec.blockSize / c * c ≤ t)
    (ht : t < columns.length * spec.blockSize) :
    RealAt p groupIds blockHashes columns (t / spec.blockSize) := by
  obtain ⟨heagle, hbsal, hstart, -, hcol, -⟩ := findChunked_spec hrun
  unfold WindowAligned at hal
  rw [hkind] at hal
  have hmod : chunkStartBlock spec.blockSize c maxLength * spec.blockSize % c = 0 := by
    rcases hal with h | h | h
    · rw [heagle] at h
      cases h
    · exact absurd hbsal h
    · exact h
  have hj : t / spec.blockSize < columns.length := (div_lt_iff_lt_mul hbs).mpr ht
  refine realAt_of_hit hcoh hnull hj ?_
  rw [hcol _ hj, if_pos ((Nat.le_div_iff_mul_le hbs).mpr (Nat.le_trans ?_ hc))]
  have hmul := Nat.mul_le_mul_right spec.blockSize hstart
  generalize chunkStartBlock spec.blockSize c maxLength * spec.blockSize = s at hmod hmul ⊢
  obtain ⟨k, rfl⟩ := dvd_of_mod_eq_zero hmod
  rw [mul_comm c k]
  refine Nat.mul_le_mul_right c ?_
  rw [Nat.le_div_iff_mul_le hcpos, Nat.mul_comm]
  exact hmul

theorem lookup_sound (hbs : 0 < spec.blockSize) (hk : spec.kind.Windowed)
    (hal : WindowAligned spec useEagle alignmentTokens maxLength) :
    LookupSound spec useEagle alignmentTokens maxLength := by
  intro p groupIds blockHashes dcp pcp columns hcoh hnull hrun t ht
  unfold findLongestCacheHit at hrun
  cases hkind : spec.kind with
  | slidingWindow w =>
    rw [hkind] at hrun ht
    obtain ⟨_, -, hrun⟩ := bind_ok hrun
    obtain ⟨_, -, hrun⟩ := bind_ok hrun
    exact sliding_sound hbs hkind hal hcoh hnull hrun ht.1 ht.2
  | chunkedLocalAttention c =>
    rw [hkind] at hrun ht hk
    obtain ⟨_, -, hrun⟩ := bind_ok hrun
    obtain ⟨_, -, hrun⟩ := bind_ok hrun
    exact chunked_sound hk hbs hkind hal hcoh hnull hrun ht.1 ht.2
  | _ =>
    rw [hkind] at hk
    exact hk.elim

end Lookup

/-! ## Unsound lookups -/

section Unsound

variable {spec : KVCacheSpec} {useEagle : Bool} {alignmentTokens maxLength : Nat}

private theorem exists_all_hit (blockHashes : List BlockHash) :
    ∃ p : BlockPool, BlockPool.Coherent p ∧ (p.heap p.nullBlock).isNull = true ∧
      ∀ i < blockHashes.length, (hitAt p [0] blockHashes i).isSome := by
  obtain ⟨p, hcoh, hnull, hkeys⟩ :=
    BlockPool.exists_caching (blockHashes.map fun h => makeBlockHashWithGroupId h 0)
  refine ⟨p, hcoh, hnull, fun i hi => hcoh.hitAt_isSome.mpr
    ⟨blockHashes[i], getElem?_eq_getElem hi, fun g hg => ?_⟩⟩
  obtain rfl : g = 0 := by simpa using hg
  exact (hkeys _).mpr (mem_map_of_mem (getElem_mem hi))

private theorem not_realAt_null {p : BlockPool} {blockHashes : List BlockHash}
    {columns : List Column} {i : Nat} (h : columns[i]? = some (nullColumn p [0])) :
    ¬ RealAt p [0] blockHashes columns i := by
  rintro ⟨column, hash, hcol, -, hreal⟩
  rw [h] at hcol
  cases hcol
  cases hreal with
  | cons hne _ => exact hne.1 rfl

/-- With eagle, the realignment gives up more blocks than the window has spare. -/
private theorem sliding_unsound {w : Nat} (hbs : 0 < spec.blockSize) (halign : 0 < alignmentTokens)
    (hkind : spec.kind = .slidingWindow w) (hstep : alignedStep spec.blockSize alignmentTokens ≠ 1)
    (hzero : cdiv (w - 1) spec.blockSize ≠ 0)
    (hroom : 2 * alignedStep spec.blockSize alignmentTokens ≤
      alignedTop spec.blockSize alignmentTokens maxLength) (hfit : cdiv (w - 1) spec.blockSize + 2 ≤
      alignedTop spec.blockSize alignmentTokens maxLength) :
    ¬ LookupSound spec true alignmentTokens maxLength := by
  intro hsound
  obtain ⟨p, hcoh, hnull, hhits⟩ := exists_all_hit (sampleHashes (maxLength / spec.blockSize))
  rw [length_sampleHashes] at hhits
  obtain ⟨columns, hrun⟩ := @findSliding_ok (sampleHashes (maxLength / spec.blockSize))
    spec.blockSize alignmentTokens maxLength (by simp) p [0] w true
  have hsound := hsound p [0] (sampleHashes (maxLength / spec.blockSize)) 1 1 columns hcoh hnull
    (by simp only [findLongestCacheHit, hkind]; exact hrun)
  obtain ⟨found, hfound, hcols⟩ := findSliding_spec hrun
  obtain ⟨n, hn, ⟨hnle, hnal⟩, hub⟩ :=
    popUnaligned_spec spec.blockSize alignmentTokens found.dropLast
  rw [if_pos rfl, hn] at hcols
  rw [length_dropLast] at hnle hub
  have hpos := alignedStep_pos hbs halign
  have htople := @alignedTop_le spec.blockSize alignmentTokens maxLength
  have htopdvd := @alignedTop_dvd spec.blockSize alignmentTokens maxLength
  -- the search stops at the longest aligned length
  have hlen : found.length = alignedTop spec.blockSize alignmentTokens maxLength := by
    refine le_antisymm ?_ (hfound.greatest.2
      ⟨htople, (aligned_iff hbs).mpr htopdvd, fun j hj _ => hhits j (by omega)⟩)
    exact le_alignedTop ((aligned_iff hbs).mp hfound.greatest.1.2.1) hfound.greatest.1.1
  have hndvd := (aligned_iff hbs).mp hnal
  have hub : ∀ e, e ≤ found.length - 1 → alignedStep spec.blockSize alignmentTokens ∣ e → e ≤ n :=
    fun e he hdvd => hub ⟨he, (aligned_iff hbs).mpr hdvd⟩
  rw [hlen] at hnle hub
  generalize alignedTop spec.blockSize alignmentTokens maxLength = top at *
  generalize alignedStep spec.blockSize alignmentTokens = step at *
  have hneq : n = top - step := by
    refine Nat.le_antisymm ?_ (hub _ (by omega) (Nat.dvd_sub htopdvd (Nat.dvd_refl _)))
    have := le_of_dvd (by omega) (Nat.dvd_sub htopdvd hndvd)
    omega
  have hcolumns : columns.length = n := by
    rw [hcols, length_take, length_dropLast, hlen]
    exact min_eq_left hnle
  -- the last token of a null block that the window reaches
  obtain ⟨j, hjnull, hjn, hjw⟩ : ∃ j, j + cdiv (w - 1) spec.blockSize + 2 ≤ top ∧ j < n ∧
      n ≤ j + cdiv (w - 1) spec.blockSize :=
    ⟨min (top - cdiv (w - 1) spec.blockSize - 2) (n - 1), by omega, by omega, by omega⟩
  have hj : (j * spec.blockSize + (spec.blockSize - 1)) / spec.blockSize = j := by
    rw [mul_comm, mul_add_div hbs, div_eq_of_lt (by omega), add_zero]
  have hreads : spec.kind.ReadsToken (columns.length * spec.blockSize)
      (j * spec.blockSize + (spec.blockSize - 1)) := by
    have hlow := Nat.mul_le_mul_right spec.blockSize (succ_le_of_lt hjn)
    have hhigh := Nat.mul_le_mul_right spec.blockSize hjw
    have hwin := cdiv_mul_lt (w - 1) hbs
    rw [succ_mul] at hlow
    rw [Nat.add_mul] at hhigh
    rw [hkind, hcolumns]
    exact ⟨by omega, by omega⟩
  have hreal := hsound _ hreads
  rw [hj] at hreal
  refine not_realAt_null ?_ hreal
  rw [hcols, getElem?_take, if_pos hjn, dropLast_eq_take, getElem?_take, if_pos (by omega)]
  refine hfound.null j (by omega) ?_
  simp only [windowNeed, if_true]
  omega

private theorem chunked_unsound {c : Nat} (hbs : 0 < spec.blockSize)
    (hkind : spec.kind = .chunkedLocalAttention c)
    (hmod : chunkStartBlock spec.blockSize c maxLength * spec.blockSize % c ≠ 0) :
    ¬ LookupSound spec false spec.blockSize maxLength := by
  intro hsound
  obtain ⟨p, hcoh, hnull, hkeys⟩ := BlockPool.exists_caching []
  obtain ⟨columns, hrun⟩ := @findChunked_ok (sampleHashes (maxLength / spec.blockSize))
    spec.blockSize spec.blockSize maxLength (by simp) p [0] c rfl
  have hsound := hsound p [0] (sampleHashes (maxLength / spec.blockSize)) 1 1 columns hcoh hnull
    (by simp only [findLongestCacheHit, hkind]; exact hrun)
  obtain ⟨-, -, hstart, -, hcol, -⟩ := findChunked_spec hrun
  have hmiss : ∀ i, hitAt p [0] (sampleHashes (maxLength / spec.blockSize)) i = none := by
    intro i
    rw [← Option.not_isSome_iff_eq_none, hcoh.hitAt_isSome]
    rintro ⟨hash, -, hg⟩
    exact absurd ((hkeys _).mp (hg 0 (by simp))) (by simp)
  have hlen : columns.length = chunkStartBlock spec.blockSize c maxLength := by
    refine le_antisymm ?_ hstart
    by_contra hlt
    have := hcol _ (Nat.lt_of_not_le hlt)
    rw [hmiss] at this
    simp at this
    omega
  generalize chunkStartBlock spec.blockSize c maxLength = start at *
  have hpos : 0 < start * spec.blockSize := by
    rcases Nat.eq_zero_or_pos (start * spec.blockSize) with h0 | h0
    · rw [h0, zero_mod] at hmod
      exact absurd rfl hmod
    · exact h0
  have hreads : spec.kind.ReadsToken (columns.length * spec.blockSize)
      (start * spec.blockSize - 1) := by
    have hdiv := div_add_mod (start * spec.blockSize) c
    rw [mul_comm] at hdiv
    rw [hkind, hlen]
    exact ⟨by omega, by omega⟩
  have hlt : (start * spec.blockSize - 1) / spec.blockSize < start :=
    (div_lt_iff_lt_mul hbs).mpr (by omega)
  refine not_realAt_null ?_ (hsound _ hreads)
  rw [hcol _ (hlen ▸ hlt), if_neg (Nat.not_le_of_lt hlt)]

theorem lookup_unsound (hbs : 0 < spec.blockSize) (halign : 0 < alignmentTokens)
    (hal : ¬ WindowAligned spec useEagle alignmentTokens maxLength) :
    ¬ LookupSound spec useEagle alignmentTokens maxLength := by
  unfold WindowAligned at hal
  cases hkind : spec.kind with
  | slidingWindow w =>
    simp only [hkind, not_or, Bool.not_eq_false, not_lt] at hal
    obtain ⟨rfl, hstep, hzero, hroom, hfit⟩ := hal
    exact sliding_unsound hbs halign hkind hstep hzero hroom hfit
  | chunkedLocalAttention c =>
    simp only [hkind, not_or, Bool.not_eq_true, Decidable.not_not] at hal
    obtain ⟨rfl, rfl, hmod⟩ := hal
    exact chunked_unsound hbs hkind hmod
  | _ => simp [hkind] at hal

end Unsound

/-- The blocks that attention reads survive removal on every configuration, and are real in
every hit exactly on the aligned ones. -/
theorem windows_sound_iff {spec : KVCacheSpec} {useEagle : Bool} {alignmentTokens maxLength : Nat}
    (hbs : 0 < spec.blockSize) (halign : 0 < alignmentTokens) (hk : spec.kind.Windowed) :
    (LookupSound spec useEagle alignmentTokens maxLength ∧
      ∀ m : SingleTypeKVCacheManager, m.kvCacheSpec = spec → RemovalSound m) ↔
    WindowAligned spec useEagle alignmentTokens maxLength := by
  constructor
  · rintro ⟨hsound, -⟩
    by_contra hal
    exact lookup_unsound hbs halign hal hsound
  · intro hal
    exact ⟨lookup_sound hbs hk hal, fun m hm => removal_sound (hm ▸ hk)⟩

/-- A window of three tokens over blocks of four. -/
def shortWindow : KVCacheSpec := { blockSize := 4, kind := .slidingWindow 3 }

/-- Up to fifteen tokens no realignment gives up a block of the window. -/
theorem windows_sound_fifteen :
    LookupSound shortWindow true 8 15 ∧
      ∀ m : SingleTypeKVCacheManager, m.kvCacheSpec = shortWindow → RemovalSound m :=
  (windows_sound_iff (by decide) (by decide)
    (show shortWindow.kind.Windowed from succ_pos 2)).mpr
    (.inr (.inr (.inr (.inl (by decide)))))

/-- A request of 17 tokens with its four full blocks. -/
def cachedRequest : Request :=
  { requestId := 0, allTokenIds := range 17, blockHashes := [[1], [2], [3], [4]] }

/-- A pool of five blocks after the request has cached its four blocks. -/
def cachedPool : BlockPool :=
  (do let p ← BlockPool.init 5 true 4 false false
      let (blocks, p) ← p.getNewBlocks 4
      p.cacheFullBlocks cachedRequest blocks 0 4 4 0 : Except PyError BlockPool).toOption.get
    (by decide)

/-- All four blocks are cached, but with eagle and hits in units of eight tokens the lookup
of 16 tokens returns two null blocks: a hit of eight tokens, of which tokens 6 and 7 are
read. -/
theorem eagle_drops_window :
    findLongestCacheHit shortWindow cachedPool [0] cachedRequest.blockHashes 16 true 8 1 1 =
      .ok [[.blk 0], [.blk 0]] ∧
    shortWindow.kind.ReadsToken (2 * shortWindow.blockSize) 7 ∧
    cachedPool.nullBlock = .blk 0 ∧
    ¬ RealAt cachedPool [0] cachedRequest.blockHashes [[.blk 0], [.blk 0]]
      (7 / shortWindow.blockSize) := by
  have hnull : cachedPool.nullBlock = .blk 0 := by decide
  refine ⟨by decide, ⟨by decide, by decide⟩, hnull, not_realAt_null ?_⟩
  rfl

end MyOperator.KvCache
