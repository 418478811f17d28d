import MyOperator.KvCache.Window

/-!
# What the longest hit of a sliding window is

The abstract lookup asks for the greatest aligned length before which a window of blocks
is cached, or all blocks are. The search from right to left finds it, but a window that
needs no block is only found behind a cached one, and after the block that eagle drops
the list is cut back to an aligned length once more.
-/

namespace MyOperator.KvCache

open Lib List Nat

variable {p : BlockPool} {groupIds : List Nat} {blockHashes : List BlockHash}
  {blockSize alignmentTokens maxLength slidingWindow : Nat} {useEagle : Bool}
  {columns : List Column} {l : Nat}

/-- The blocks `start`, …, `l - 1` are cached. -/
def CachedFrom (p : BlockPool) (groupIds : List Nat) (blockHashes : List BlockHash)
    (start l : Nat) : Prop := ∀ j, start ≤ j → j < l → (hitAt p groupIds blockHashes j).isSome

/-- An aligned length before which the last `need` blocks are cached, or all blocks. -/
def WindowHit (p : BlockPool) (groupIds : List Nat) (blockHashes : List BlockHash)
    (blockSize alignmentTokens need l : Nat) : Prop :=
  l * blockSize % alignmentTokens = 0 ∧
    (need ≤ l ∧ CachedFrom p groupIds blockHashes (l - need) l ∨ CachedFrom p groupIds blockHashes 0 l)

/-- The abstract lookup: the columns are those of the greatest length `l` within `maxLength`,
without the last block where eagle drops it. A run of cached blocks from `start` reaches `l`;
before it the columns are null, in it they are the cached blocks. -/
structure OptimalHit (p : BlockPool) (groupIds : List Nat) (blockHashes : List BlockHash)
    (blockSize alignmentTokens need dropped maxLength : Nat) (columns : List Column)
    (l start : Nat) : Prop where
  greatest : IsGreatest {l | l ≤ maxLength / blockSize ∧
    WindowHit p groupIds blockHashes blockSize alignmentTokens need l} l
  run : CachedFrom p groupIds blockHashes start l
  long : start + need ≤ l ∨ start = 0
  length : columns.length = l - dropped
  entries : ∀ j < l - dropped, columns[j]? =
    if j < start then some (nullColumn p groupIds) else hitAt p groupIds blockHashes j

/-- The blocks that eagle drops. -/
def eagleDropped (useEagle : Bool) : Nat := if useEagle then 1 else 0

/-- When the lookup is the abstract one. With eagle no realignment may follow the dropped
block; without, a window that needs no block has to end behind a cached one. -/
def LookupOptimal (p : BlockPool) (groupIds : List Nat) (blockHashes : List BlockHash)
    (blockSize alignmentTokens slidingWindow maxLength : Nat) (useEagle : Bool) : Prop :=
  if useEagle then
    blockSize % alignmentTokens = 0 ∨ ∀ l, 0 < l → l ≤ maxLength / blockSize →
      ¬ WindowHit p groupIds blockHashes blockSize alignmentTokens
        (windowNeed blockSize slidingWindow true) l
  else
    1 < slidingWindow ∨ ∀ l,
      IsGreatest {l | l ≤ maxLength / blockSize ∧ l * blockSize % alignmentTokens = 0} l → 0 < l →
        (hitAt p groupIds blockHashes (l - 1)).isSome

/-! ## The search finds window hits -/

theorem windowHit_iff {need : Nat} :
    WindowHit p groupIds blockHashes blockSize alignmentTokens need l ↔
      CacheHit p groupIds blockHashes blockSize alignmentTokens (fun e j => e ≤ j + need) l := by
  constructor
  · rintro ⟨hal, hrun⟩
    refine ⟨hal, fun j hj hread => ?_⟩
    rcases hrun with ⟨hle, hrun⟩ | hrun
    · exact hrun j (by omega) hj
    · exact hrun j (Nat.zero_le j) hj
  · rintro ⟨hal, hread⟩
    refine ⟨hal, ?_⟩
    by_cases hle : need ≤ l
    · exact .inl ⟨hle, fun j hj hjl => hread j hjl (by omega)⟩
    · exact .inr fun j _ hjl => hread j hjl (by omega)

theorem LongestHit.optimal {need : Nat}
    (h : LongestHit p groupIds blockHashes blockSize alignmentTokens (fun e j => e ≤ j + need)
      (maxLength / blockSize) columns) {dropped : Nat} (hd : dropped ≤ 1) :
    OptimalHit p groupIds blockHashes blockSize alignmentTokens need dropped maxLength
      (columns.take (columns.length - dropped)) columns.length (columns.length - need) := by
  have hset : {l | l ≤ maxLength / blockSize ∧
      WindowHit p groupIds blockHashes blockSize alignmentTokens need l} =
      {e | e ≤ maxLength / blockSize ∧ CacheHit p groupIds blockHashes blockSize alignmentTokens
        (fun e j => e ≤ j + need) e} := by
    ext e
    exact and_congr_right fun _ => windowHit_iff
  constructor
  case greatest =>
    rw [hset]
    exact h.greatest
  case run =>
    intro j hj hjl
    exact h.greatest.1.2.2 j hjl (by omega)
  case long => omega
  case length => rw [length_take, min_eq_left (Nat.sub_le _ _)]
  case entries =>
    intro j hj
    rw [getElem?_take]
    split_ifs with hstart
    · exact h.null j (by omega) (by omega)
    · exact h.real j (by omega) (by omega)

/-! ## The lookup -/

/-- Without eagle, and with a window that needs a block, the lookup is the abstract one. -/
theorem optimal_of_need {need : Nat}
    (h : LongestHit p groupIds blockHashes blockSize alignmentTokens (fun e j => e ≤ j + need)
      (maxLength / blockSize) columns) :
    ∃ l start, OptimalHit p groupIds blockHashes blockSize alignmentTokens need 0 maxLength columns
      l start := by
  have hopt := h.optimal (Nat.zero_le 1)
  rw [Nat.sub_zero, take_length] at hopt
  exact ⟨_, _, hopt⟩

/-- A window that needs no block is found where the last aligned block is cached. -/
theorem optimal_zero_iff
    (h : LongestHit p groupIds blockHashes blockSize alignmentTokens (fun e j => e ≤ j + 1)
      (maxLength / blockSize) columns) :
    (∃ l start, OptimalHit p groupIds blockHashes blockSize alignmentTokens 0 0 maxLength columns
      l start) ↔
    ∀ l, IsGreatest {l | l ≤ maxLength / blockSize ∧ l * blockSize % alignmentTokens = 0} l →
      0 < l → (hitAt p groupIds blockHashes (l - 1)).isSome := by
  -- without blocks to read every aligned length is a hit
  have hset : {l | l ≤ maxLength / blockSize ∧
      WindowHit p groupIds blockHashes blockSize alignmentTokens 0 l} =
      {l | l ≤ maxLength / blockSize ∧ l * blockSize % alignmentTokens = 0} := by
    ext e
    refine and_congr_right fun _ => ⟨fun hw => hw.1, fun hal => ⟨hal, .inl ⟨Nat.zero_le e, ?_⟩⟩⟩
    exact fun j hj hje => absurd hje (by omega)
  have hhit := h.greatest.1.2
  constructor
  · rintro ⟨l, start, hopt⟩ top htop hpos
    have hgreatest := hopt.greatest
    rw [hset] at hgreatest
    obtain rfl := hgreatest.unique htop
    have hlen : columns.length = l := hopt.length
    exact hhit.2 _ (by omega) (by omega)
  · intro hcond
    have htop : IsGreatest {l | l ≤ maxLength / blockSize ∧ l * blockSize % alignmentTokens = 0}
        columns.length := by
      obtain ⟨top, htop⟩ : ∃ top, IsGreatest
          {l | l ≤ maxLength / blockSize ∧ l * blockSize % alignmentTokens = 0} top := by
        obtain ⟨m, -, hm⟩ := popUnaligned_spec blockSize alignmentTokens
          (List.replicate (maxLength / blockSize) [])
        rw [length_replicate] at hm
        exact ⟨m, hm⟩
      have hle : top ≤ columns.length := by
        rcases Nat.eq_zero_or_pos top with rfl | hpos
        · exact Nat.zero_le _
        · refine h.greatest.2 ⟨htop.1.1, htop.1.2, fun j hj hread => ?_⟩
          obtain rfl : j = top - 1 := by omega
          exact hcond top htop hpos
      obtain rfl := le_antisymm hle (htop.2 ⟨h.greatest.1.1, hhit.1⟩)
      exact htop
    refine ⟨columns.length, columns.length - 1, ?_⟩
    constructor
    case greatest =>
      rw [hset]
      exact htop
    case run => exact fun j hj hjl => hhit.2 j hjl (by omega)
    case long => omega
    case length => rfl
    case entries =>
      intro j hj
      split_ifs with hstart
      · exact h.null j hj (by omega)
      · exact h.real j hj (by omega)

/-- With eagle the lookup is the abstract one where the block it drops leaves an aligned
length, or where nothing is found. -/
theorem optimal_eagle_iff {need : Nat} {found : List Column}
    (h : LongestHit p groupIds blockHashes blockSize alignmentTokens (fun e j => e ≤ j + need)
      (maxLength / blockSize) found)
    (hcols : columns = popUnaligned blockSize alignmentTokens found.dropLast) :
    (∃ l start, OptimalHit p groupIds blockHashes blockSize alignmentTokens need 1 maxLength columns
      l start) ↔
    blockSize % alignmentTokens = 0 ∨ ∀ l, 0 < l → l ≤ maxLength / blockSize →
      ¬ WindowHit p groupIds blockHashes blockSize alignmentTokens need l := by
  have hopt := h.optimal (le_refl 1)
  rw [← dropLast_eq_take] at hopt
  obtain ⟨m, hm, hgreatest⟩ := popUnaligned_spec blockSize alignmentTokens found.dropLast
  rw [length_dropLast] at hgreatest
  have hal := h.greatest.1.2.1
  constructor
  · rintro ⟨l, start, hopt'⟩
    obtain rfl := hopt'.greatest.unique hopt.greatest
    by_cases hnil : found.length = 0
    · refine .inr fun l hpos hle hhit => ?_
      have := hopt.greatest.2 ⟨hle, hhit⟩
      omega
    · left
      have hlen := hopt'.length
      rw [hcols, hm, length_take, length_dropLast, min_eq_left hgreatest.1.1] at hlen
      have hless := hgreatest.1.2
      rw [hlen] at hless
      -- two aligned lengths that differ by one block
      rw [← dvd_iff_mod_eq_zero] at hal hless ⊢
      have hsum : (found.length - 1) * blockSize + blockSize = found.length * blockSize := by
        rw [← succ_mul, succ_eq_add_one, Nat.sub_add_cancel (by omega)]
      rw [← hsum] at hal
      exact (Nat.dvd_add_right hless).mp hal
  · intro hcond
    have hself : columns = found.dropLast := by
      rw [hcols]
      refine popUnaligned_eq_self ?_
      rw [length_dropLast]
      rcases hcond with hdvd | hnone
      · exact mod_eq_zero_of_dvd ((dvd_of_mod_eq_zero hdvd).mul_left _)
      · have hnil : found.length = 0 := by
          by_contra hne
          exact hnone _ (Nat.pos_of_ne_zero hne) h.greatest.1.1 hopt.greatest.1.2
        rw [hnil]
        simp
    rw [hself]
    exact ⟨_, _, hopt⟩

/-- The lookup of a sliding window returns, and it is the abstract lookup exactly where
`LookupOptimal` holds. -/
theorem sliding_optimal_iff {spec : KVCacheSpec} (hkind : spec.kind = .slidingWindow slidingWindow)
    (hbs : 0 < spec.blockSize) (hlen : maxLength / spec.blockSize ≤ blockHashes.length) :
    ∃ columns, findLongestCacheHit spec p groupIds blockHashes maxLength useEagle alignmentTokens
        1 1 = .ok columns ∧
      ((∃ l start, OptimalHit p groupIds blockHashes spec.blockSize alignmentTokens
          (windowNeed spec.blockSize slidingWindow useEagle) (eagleDropped useEagle) maxLength
          columns l start) ↔
        LookupOptimal p groupIds blockHashes spec.blockSize alignmentTokens slidingWindow maxLength
          useEagle) := by
  obtain ⟨columns, hrun⟩ := @findSliding_ok blockHashes spec.blockSize alignmentTokens maxLength
    hlen p groupIds slidingWindow useEagle
  obtain ⟨found, hfound, hcols⟩ := findSliding_spec hrun
  refine ⟨columns, ?_, ?_⟩
  · unfold findLongestCacheHit
    rw [hkind]
    exact hrun
  · cases useEagle with
    | true =>
      have hneed : max (windowNeed spec.blockSize slidingWindow true) 1 =
          windowNeed spec.blockSize slidingWindow true := by
        rw [windowNeed, if_pos rfl]
        omega
      rw [hneed] at hfound
      rw [LookupOptimal, if_pos rfl, eagleDropped, if_pos rfl]
      exact optimal_eagle_iff hfound (hcols.trans (if_pos rfl))
    | false =>
      obtain rfl : columns = found := hcols.trans (if_neg Bool.false_ne_true)
      rw [LookupOptimal, if_neg Bool.false_ne_true, eagleDropped, if_neg Bool.false_ne_true]
      by_cases hw : 1 < slidingWindow
      · have hpos : 0 < windowNeed spec.blockSize slidingWindow false := by
          rw [windowNeed, if_neg Bool.false_ne_true, add_zero]
          by_contra hzero
          have hcover := le_cdiv_mul (slidingWindow - 1) hbs
          rw [Nat.eq_zero_of_not_pos hzero] at hcover
          omega
        rw [max_eq_left hpos] at hfound
        exact iff_of_true (optimal_of_need hfound) (.inl hw)
      · have hzero : windowNeed spec.blockSize slidingWindow false = 0 := by
          rw [windowNeed, if_neg Bool.false_ne_true, add_zero,
            show slidingWindow - 1 = 0 by omega, cdiv]
          exact div_eq_of_lt (by omega)
        rw [hzero] at hfound ⊢
        rw [optimal_zero_iff hfound]
        exact ⟨.inr, fun h => h.resolve_left hw⟩

/-- A window of three tokens over blocks of four, with eagle and hits in units of eight. -/
theorem sliding_optimal_short :
    ∃ columns, findLongestCacheHit shortWindow cachedPool [0] cachedRequest.blockHashes 16 true 8
        1 1 = .ok columns ∧
      ((∃ l start, OptimalHit cachedPool [0] cachedRequest.blockHashes 4 8 (windowNeed 4 3 true)
          (eagleDropped true) 16 columns l start) ↔
        LookupOptimal cachedPool [0] cachedRequest.blockHashes 4 8 3 16 true) :=
  @sliding_optimal_iff cachedPool [0] cachedRequest.blockHashes 8 16 3 true shortWindow rfl
    (by decide) (by decide)

/-- All four blocks are cached and one of them is dropped, but two are gone, and with them the
whole window. -/
theorem eagle_realigns :
    findLongestCacheHit shortWindow cachedPool [0] cachedRequest.blockHashes 16 true 8 1 1 =
      .ok [[.blk 0], [.blk 0]] ∧
    ¬ ∃ l start, OptimalHit cachedPool [0] cachedRequest.blockHashes 4 8 (windowNeed 4 3 true)
      (eagleDropped true) 16 [[.blk 0], [.blk 0]] l start := by
  refine ⟨by decide, ?_⟩
  rintro ⟨l, start, hopt⟩
  have hcached : CachedFrom cachedPool [0] cachedRequest.blockHashes 2 4 := by
    intro j hj hj4
    obtain rfl | rfl : j = 2 ∨ j = 3 := by omega
    · decide
    · decide
  have hle : 4 ≤ l := hopt.greatest.2 ⟨by decide, by decide, .inl ⟨by decide, hcached⟩⟩
  have hlen : 2 = l - 1 := hopt.length
  omega

end MyOperator.KvCache
