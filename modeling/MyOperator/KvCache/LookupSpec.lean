import MyOperator.KvCache.Lookup

/-!
# What the lookups find

A cache hit of `e` blocks is one where the blocks that a group still reads are
cached. Full attention, sliding window and mamba find the greatest aligned hit;
chunked local attention finds the cached run that starts at the chunk of the
maximal length.
-/

namespace MyOperator.KvCache

open Lib List

variable {p : BlockPool} {groupIds : List Nat} {blockHashes : List BlockHash}
  {blockSize alignmentTokens : Nat}

/-- A hit of `e` blocks: aligned, and every block that is read is cached. -/
def CacheHit (p : BlockPool) (groupIds : List Nat) (blockHashes : List BlockHash)
    (blockSize alignmentTokens : Nat) (reads : Nat → Nat → Prop) (e : Nat) : Prop :=
  e * blockSize % alignmentTokens = 0 ∧ ∀ j < e, reads e j → (hitAt p groupIds blockHashes j).isSome

/-- The columns of the longest hit of at most `maxNumBlocks` blocks: the cached blocks where
they are read, null blocks elsewhere. -/
structure LongestHit (p : BlockPool) (groupIds : List Nat) (blockHashes : List BlockHash)
    (blockSize alignmentTokens : Nat) (reads : Nat → Nat → Prop) (maxNumBlocks : Nat)
    (columns : List Column) : Prop where
  greatest : IsGreatest {e | e ≤ maxNumBlocks ∧
    CacheHit p groupIds blockHashes blockSize alignmentTokens reads e} columns.length
  real : ∀ j < columns.length, reads columns.length j → columns[j]? = hitAt p groupIds blockHashes j
  null : ∀ j < columns.length, ¬ reads columns.length j → columns[j]? = some (nullColumn p groupIds)

/-! ## Alignment -/

private theorem popUnalignedLoop_spec (blockSize alignmentTokens fuel : Nat) (l : List Column)
    (hfuel : l.length ≤ fuel) :
    ∃ m, popUnalignedLoop blockSize alignmentTokens fuel l = l.take m ∧
      IsGreatest {e | e ≤ l.length ∧ e * blockSize % alignmentTokens = 0} m := by
  induction fuel generalizing l with
  | zero =>
    have hl : l.length = 0 := by omega
    refine ⟨0, by simpa [popUnalignedLoop] using hl, by simp, fun e he => ?_⟩
    rw [← hl]
    exact he.1
  | succ fuel ih =>
    unfold popUnalignedLoop
    split
    · rename_i hpop
      have hne : 0 < l.length := by
        rcases Nat.eq_zero_or_pos l.length with h0 | h0
        · rw [h0] at hpop
          simp at hpop
        · exact h0
      obtain ⟨m, hm, hmem, hub⟩ := ih l.dropLast (by rw [length_dropLast]; omega)
      rw [length_dropLast] at hmem hub
      refine ⟨m, ?_, ⟨le_trans hmem.1 (Nat.sub_le _ _), hmem.2⟩, fun e he => ?_⟩
      · rw [hm, dropLast_eq_take, take_take]
        congr 1
        exact min_eq_left hmem.1
      · refine hub ⟨?_, he.2⟩
        rcases lt_or_ge e l.length with hlt | hge
        · omega
        · obtain rfl : e = l.length := le_antisymm he.1 hge
          exact absurd he.2 hpop.2
    · rename_i hstay
      have hal : l.length * blockSize % alignmentTokens = 0 := by
        by_cases hb : blockSize = alignmentTokens
        · rw [hb, Nat.mul_mod_left]
        · by_contra hmod
          exact hstay ⟨hb, hmod⟩
      exact ⟨l.length, by rw [take_length], ⟨le_rfl, hal⟩, fun e he => he.1⟩

theorem popUnaligned_spec (blockSize alignmentTokens : Nat) (l : List Column) :
    ∃ m, popUnaligned blockSize alignmentTokens l = l.take m ∧
      IsGreatest {e | e ≤ l.length ∧ e * blockSize % alignmentTokens = 0} m :=
  popUnalignedLoop_spec blockSize alignmentTokens l.length l le_rfl

theorem popUnaligned_eq_self {l : List Column} (h : l.length * blockSize % alignmentTokens = 0) :
    popUnaligned blockSize alignmentTokens l = l := by
  obtain ⟨m, hm, hmem, hub⟩ := popUnaligned_spec blockSize alignmentTokens l
  have : l.length ≤ m := hub ⟨le_rfl, h⟩
  rw [hm, take_of_length_le this]

/-! ## Full attention -/

theorem hitAt_take (n i : Nat) :
    hitAt p groupIds (blockHashes.take n) i =
      if i < n then hitAt p groupIds blockHashes i else none := by
  unfold hitAt
  rw [getElem?_take]
  split <;> rfl

private theorem hitAt_of_length_le {i : Nat} (h : blockHashes.length ≤ i) :
    hitAt p groupIds blockHashes i = none := by
  unfold hitAt
  rw [getElem?_eq_none h]
  rfl

theorem fullLoop_spec (p : BlockPool) (groupIds : List Nat) (hashes : List BlockHash) :
    (∀ j < (fullLoop p groupIds hashes).length,
      (fullLoop p groupIds hashes)[j]? = hitAt p groupIds hashes j) ∧
      hitAt p groupIds hashes (fullLoop p groupIds hashes).length = none := by
  induction hashes with
  | nil => exact ⟨fun j hj => by simp [fullLoop] at hj, rfl⟩
  | cons h rest ih =>
    unfold fullLoop
    cases hget : p.getCachedBlock h groupIds with
    | none => exact ⟨fun j hj => by simp at hj, by simpa [hitAt] using hget⟩
    | some cached =>
      refine ⟨fun j hj => ?_, by simpa [hitAt] using ih.2⟩
      cases j with
      | zero => simp [hitAt, hget]
      | succ j => simpa [hitAt] using ih.1 j (by simpa using hj)

theorem length_fullLoop_of_hits {hashes : List BlockHash} {e : Nat}
    (h : ∀ j < e, (hitAt p groupIds hashes j).isSome) : e ≤ (fullLoop p groupIds hashes).length := by
  by_contra hlt
  have := h _ (Nat.lt_of_not_le hlt)
  rw [(fullLoop_spec p groupIds hashes).2] at this
  cases this

theorem fullLoop_take_spec (n : Nat) :
    let l := fullLoop p groupIds (blockHashes.take n)
    l.length ≤ n ∧ ∀ j < l.length, l[j]? = hitAt p groupIds blockHashes j ∧
      (hitAt p groupIds blockHashes j).isSome := by
  intro l
  have hspec := (fullLoop_spec p groupIds (blockHashes.take n)).1
  have hj : ∀ j < l.length, j < n ∧ l[j]? = hitAt p groupIds blockHashes j ∧
      (hitAt p groupIds blockHashes j).isSome := by
    intro j hlt
    have heq := hspec j hlt
    rw [hitAt_take] at heq
    have hsome : (l[j]?).isSome := by simp [hlt]
    split at heq
    · exact ⟨‹_›, heq, heq ▸ hsome⟩
    · rw [heq] at hsome
      cases hsome
  refine ⟨?_, fun j hlt => (hj j hlt).2⟩
  by_contra hlt
  exact lt_irrefl n (hj n (Nat.lt_of_not_le hlt)).1

theorem findFull_spec (p : BlockPool) (groupIds : List Nat) (blockHashes : List BlockHash)
    (maxLength blockSize alignmentTokens : Nat) :
    LongestHit p groupIds blockHashes blockSize alignmentTokens (fun _ _ => True)
      (maxLength / blockSize)
      (findFull p groupIds blockHashes maxLength blockSize false alignmentTokens) := by
  obtain ⟨hlen, hreal⟩ := @fullLoop_take_spec p groupIds blockHashes (maxLength / blockSize)
  have hhits : ∀ e ≤ maxLength / blockSize, (∀ j < e, (hitAt p groupIds blockHashes j).isSome) →
        e ≤ (fullLoop p groupIds (blockHashes.take (maxLength / blockSize))).length := by
    intro e he h
    refine length_fullLoop_of_hits fun j hj => ?_
    rw [hitAt_take, if_pos (lt_of_lt_of_le hj he)]
    exact h j hj
  have hfind : findFull p groupIds blockHashes maxLength blockSize false alignmentTokens =
      popUnaligned blockSize alignmentTokens
        (fullLoop p groupIds (blockHashes.take (maxLength / blockSize))) := rfl
  rw [hfind]
  generalize fullLoop p groupIds (blockHashes.take (maxLength / blockSize)) = l at *
  obtain ⟨m, hm, hmem, hub⟩ := popUnaligned_spec blockSize alignmentTokens l
  have hml : (l.take m).length = m := by
    rw [length_take]
    exact min_eq_left hmem.1
  rw [hm]
  refine ⟨?_, fun j hj _ => ?_, fun j _ hn => absurd trivial hn⟩
  · rw [hml]
    refine ⟨⟨le_trans hmem.1 hlen, hmem.2, fun j hj _ =>
      (hreal j (lt_of_lt_of_le hj hmem.1)).2⟩, fun e he => ?_⟩
    exact hub ⟨hhits e he.1 fun j hj => he.2.2 j hj trivial, he.2.1⟩
  · rw [hml] at hj
    rw [getElem?_take, if_pos hj]
    exact (hreal j (lt_of_lt_of_le hj hmem.1)).1

/-! ## Sliding window -/

/-- The state of the search before position `i`: a run of `n` hits ends at an aligned
position, and no hit ends right of it. -/
private structure Search (p : BlockPool) (groupIds : List Nat) (blockHashes : List BlockHash)
    (blockSize alignmentTokens need maxNumBlocks i n : Nat) (computed : List Column) : Prop where
  length : computed.length = maxNumBlocks
  bound : i + n ≤ maxNumBlocks
  short : n < max need 1
  aligned : 0 < n → (i + n) * blockSize % alignmentTokens = 0
  run : ∀ j, i ≤ j → j < i + n → (hitAt p groupIds blockHashes j).isSome ∧
    computed[j]? = hitAt p groupIds blockHashes j
  rest : ∀ j < i, computed[j]? = some (nullColumn p groupIds)
  best : ∀ e, i + n < e → e ≤ maxNumBlocks → ¬ CacheHit p groupIds blockHashes blockSize
    alignmentTokens (fun e j => e ≤ j + max need 1) e

section Sliding

variable {need maxNumBlocks i n : Nat} {computed columns : List Column}

private theorem Search.miss
    (h : Search p groupIds blockHashes blockSize alignmentTokens need maxNumBlocks (i + 1) n computed)
    (hmiss : hitAt p groupIds blockHashes i = none) :
    Search p groupIds blockHashes blockSize alignmentTokens need maxNumBlocks i 0 computed where
  length := h.length
  bound := by have := h.bound; omega
  short := by omega
  aligned h0 := absurd h0 (lt_irrefl 0)
  run j hj hj' := absurd hj (by omega)
  rest j hj := h.rest j (by omega)
  best e he hmax hhit := by
    have hshort := h.short
    rcases lt_or_ge (i + 1 + n) e with hgt | hle
    · exact h.best e hgt hmax hhit
    · have := hhit.2 i (by omega) (by omega)
      rw [hmiss] at this
      cases this

private theorem Search.skip
    (h : Search p groupIds blockHashes blockSize alignmentTokens need maxNumBlocks (i + 1) 0 computed)
    (hal : (i + 1) * blockSize % alignmentTokens ≠ 0) :
    Search p groupIds blockHashes blockSize alignmentTokens need maxNumBlocks i 0 computed where
  length := h.length
  bound := by have := h.bound; omega
  short := h.short
  aligned h0 := absurd h0 (lt_irrefl 0)
  run j hj hj' := absurd hj (by omega)
  rest j hj := h.rest j (by omega)
  best e he hmax hhit := by
    rcases lt_or_ge (i + 1) e with hgt | hle
    · exact h.best e hgt hmax hhit
    · obtain rfl : e = i + 1 := by omega
      exact hal hhit.1

private theorem Search.extend {cached : Column}
    (h : Search p groupIds blockHashes blockSize alignmentTokens need maxNumBlocks (i + 1) n computed)
    (hhit : hitAt p groupIds blockHashes i = some cached)
    (hal : n = 0 → (i + 1) * blockSize % alignmentTokens = 0) :
    (i + (n + 1)) * blockSize % alignmentTokens = 0 ∧
      (∀ j, i ≤ j → j < i + (n + 1) → (hitAt p groupIds blockHashes j).isSome ∧
        (computed.set i cached)[j]? = hitAt p groupIds blockHashes j) ∧
      ∀ j < i, (computed.set i cached)[j]? = some (nullColumn p groupIds) := by
  have hbound := h.bound
  refine ⟨?_, fun j hij hj => ?_, fun j hj => ?_⟩
  · rcases Nat.eq_zero_or_pos n with rfl | hn
    · exact hal rfl
    · have := h.aligned hn
      rwa [show i + 1 + n = i + (n + 1) by omega] at this
  · rcases eq_or_lt_of_le hij with rfl | hlt
    · rw [getElem?_set_self (by rw [h.length]; omega), hhit]
      exact ⟨rfl, rfl⟩
    · rw [getElem?_set_ne (ne_of_lt hlt)]
      exact h.run j hlt (by omega)
  · rw [getElem?_set_ne (by omega)]
    exact h.rest j (by omega)

private theorem LongestHit.of_run {e : Nat} {reads : Nat → Nat → Prop} (hlen : columns.length = e)
    (hmax : e ≤ maxNumBlocks) (hal : e * blockSize % alignmentTokens = 0)
    (hreal : ∀ j < e, reads e j → (hitAt p groupIds blockHashes j).isSome ∧
      columns[j]? = hitAt p groupIds blockHashes j)
    (hnull : ∀ j < e, ¬ reads e j → columns[j]? = some (nullColumn p groupIds))
    (hbest : ∀ e', e < e' → e' ≤ maxNumBlocks →
      ¬ CacheHit p groupIds blockHashes blockSize alignmentTokens reads e') :
    LongestHit p groupIds blockHashes blockSize alignmentTokens reads maxNumBlocks columns := by
  subst hlen
  refine ⟨⟨⟨hmax, hal, fun j hj hr => (hreal j hj hr).1⟩, fun e' he' => ?_⟩,
    fun j hj hr => (hreal j hj hr).2, hnull⟩
  by_contra hlt
  exact hbest e' (Nat.lt_of_not_le hlt) he'.1 he'.2

/-- The search finds the greatest hit: right away, or it leaves the run at position 0. -/
private theorem slidingLoop_spec {n' : Nat} {found : Bool}
    (h : Search p groupIds blockHashes blockSize alignmentTokens need maxNumBlocks i n computed)
    (hrun : slidingLoop p groupIds blockHashes blockSize alignmentTokens need i computed n =
      .ok (columns, n', found)) :
    (found = true → LongestHit p groupIds blockHashes blockSize alignmentTokens
      (fun e j => e ≤ j + max need 1) maxNumBlocks columns) ∧
    (found = false →
      Search p groupIds blockHashes blockSize alignmentTokens need maxNumBlocks 0 n' columns) := by
  induction i generalizing n computed with
  | zero =>
    cases hrun
    exact ⟨fun hf => (nomatch hf), fun _ => h⟩
  | succ i ih =>
    unfold slidingLoop at hrun
    split at hrun
    · split at hrun
      · rename_i hmiss
        exact ih (h.miss hmiss) hrun
      · rename_i cached hhit
        split at hrun
        · rename_i hskip
          obtain ⟨rfl, -, hal⟩ := hskip
          exact ih (h.skip hal) hrun
        · rename_i hstart
          have hal : n = 0 → (i + 1) * blockSize % alignmentTokens = 0 := by
            intro hn
            by_cases hb : blockSize = alignmentTokens
            · rw [hb, Nat.mul_mod_left]
            · by_contra hmod
              exact hstart ⟨hn, hb, hmod⟩
          obtain ⟨haligned, hreal, hnull⟩ := h.extend hhit hal
          have hbound := h.bound
          have hshort := h.short
          have hbest : ∀ e, i + (n + 1) < e → e ≤ maxNumBlocks → ¬ CacheHit p groupIds blockHashes
              blockSize alignmentTokens (fun e j => e ≤ j + max need 1) e :=
            fun e he => h.best e (by omega)
          have hlen : (computed.set i cached).length = maxNumBlocks := by
            rw [length_set, h.length]
          generalize computed.set i cached = computed' at hrun hreal hnull hlen
          split at hrun
          · cases hrun
            refine ⟨fun _ => .of_run (e := i + (n + 1)) ?_ (by omega) haligned (fun j hj hr => ?_)
              (fun j hj hr => ?_) hbest, fun hf => (nomatch hf)⟩
            · rw [length_take, hlen]
              omega
            · rw [getElem?_take, if_pos hj]
              exact hreal j (by omega) hj
            · rw [getElem?_take, if_pos hj]
              exact hnull j (by omega)
          · exact ih ⟨hlen, by omega, by omega, fun _ => haligned, hreal, hnull, hbest⟩ hrun
    · cases hrun

private theorem search_init (hn : 0 < max need 1) :
    Search p groupIds blockHashes blockSize alignmentTokens need maxNumBlocks maxNumBlocks 0
      (replicate maxNumBlocks (nullColumn p groupIds)) where
  length := length_replicate
  bound := le_rfl
  short := hn
  aligned h0 := absurd h0 (lt_irrefl 0)
  run j hj hj' := absurd hj (by omega)
  rest j hj := by rw [getElem?_replicate, if_pos hj]
  best e he hmax := absurd he (by omega)

/-- The blocks that a window reads in a lookup, and with eagle one more. -/
def windowNeed (blockSize slidingWindow : Nat) (useEagle : Bool) : Nat :=
  cdiv (slidingWindow - 1) blockSize + if useEagle then 1 else 0

/-- Sliding window finds the longest hit; with eagle it drops the last block of the hit. -/
theorem findSliding_spec {maxLength slidingWindow : Nat} {useEagle : Bool}
    (hrun : findSliding p groupIds blockHashes maxLength blockSize slidingWindow useEagle
      alignmentTokens = .ok columns) :
    ∃ found, LongestHit p groupIds blockHashes blockSize alignmentTokens
        (fun e j => e ≤ j + max (windowNeed blockSize slidingWindow useEagle) 1)
        (maxLength / blockSize) found ∧
      columns = if useEagle then popUnaligned blockSize alignmentTokens found.dropLast
        else found := by
  obtain ⟨⟨l, n, found⟩, hloop, hrun⟩ := bind_ok hrun
  obtain ⟨hfound, hnot⟩ := slidingLoop_spec (search_init (by omega)) hloop
  cases found with
  | true =>
    refine ⟨l, hfound rfl, ?_⟩
    simpa using hrun.symm
  | false =>
    have hs := hnot rfl
    have hbound := hs.bound
    have hshort := hs.short
    have hal : n * blockSize % alignmentTokens = 0 := by
      rcases Nat.eq_zero_or_pos n with rfl | hn
      · simp
      · simpa using hs.aligned hn
    have hlen : (l.take n).length = n := by
      rw [length_take, hs.length]
      omega
    have hspec : LongestHit p groupIds blockHashes blockSize alignmentTokens
        (fun e j => e ≤ j + max (windowNeed blockSize slidingWindow useEagle) 1)
        (maxLength / blockSize) (l.take n) := by
      refine .of_run hlen (by omega) hal (fun j hj _ => ?_) (fun j hj hr => ?_)
        fun e he => hs.best e (by omega)
      · rw [getElem?_take, if_pos hj]
        exact hs.run j (Nat.zero_le _) (by omega)
      · unfold windowNeed at hr
        omega
    refine ⟨l.take n, hspec, ?_⟩
    have hself : popUnaligned blockSize alignmentTokens (l.take n) = l.take n :=
      popUnaligned_eq_self (by rw [hlen]; exact hal)
    simp only [hself] at hrun
    exact (Except.ok.inj hrun).symm

end Sliding

/-! ## Mamba -/

theorem findMamba_spec {maxLength : Nat} {columns : List Column}
    (hrun : findMamba p groupIds blockHashes maxLength blockSize alignmentTokens = .ok columns) :
    LongestHit p groupIds blockHashes blockSize alignmentTokens (fun e j => e ≤ j + 1)
      (maxLength / blockSize) columns := by
  suffices h : ∀ i, mambaLoop p groupIds blockHashes blockSize alignmentTokens i = .ok columns →
      LongestHit p groupIds blockHashes blockSize alignmentTokens (fun e j => e ≤ j + 1) i
        columns from h _ hrun
  intro i hi
  induction i with
  | zero =>
    cases hi
    exact .of_run rfl le_rfl (by simp) (fun j hj => absurd hj (Nat.not_lt_zero j))
      (fun j hj => absurd hj (Nat.not_lt_zero j)) fun e he hmax => absurd hmax (by omega)
  | succ i ih =>
    -- a position that is no hit leaves the greatest one as it was
    have hstay (hno : ¬ CacheHit p groupIds blockHashes blockSize alignmentTokens
          (fun e j => e ≤ j + 1) (i + 1))
        (hrec : mambaLoop p groupIds blockHashes blockSize alignmentTokens i = .ok columns) :
        LongestHit p groupIds blockHashes blockSize alignmentTokens (fun e j => e ≤ j + 1) (i + 1)
          columns := by
      obtain ⟨⟨hmem, hub⟩, hreal, hnull⟩ := ih hrec
      refine ⟨⟨⟨Nat.le_succ_of_le hmem.1, hmem.2⟩, fun e he => ?_⟩, hreal, hnull⟩
      rcases lt_or_ge i e with hlt | hge
      · obtain rfl : e = i + 1 := le_antisymm he.1 hlt
        exact absurd he.2 hno
      · exact hub ⟨hge, he.2⟩
    unfold mambaLoop at hi
    split at hi
    · split at hi
      · rename_i hmiss
        refine hstay (fun hhit => ?_) hi
        have := hhit.2 i (Nat.lt_succ_self i) le_rfl
        rw [hmiss] at this
        cases this
      · rename_i cached hhit
        split at hi
        · rename_i hskip
          exact hstay (fun hc => hskip.2 hc.1) hi
        · rename_i hstart
          cases hi
          have hal : (i + 1) * blockSize % alignmentTokens = 0 := by
            by_cases hb : blockSize = alignmentTokens
            · rw [hb, Nat.mul_mod_left]
            · by_contra hmod
              exact hstart ⟨hb, hmod⟩
          refine .of_run (e := i + 1) (by simp) le_rfl hal (fun j hj hr => ?_)
            (fun j hj hr => ?_) fun e he hmax => absurd hmax (by omega)
          · obtain rfl : j = i := by omega
            simp [hhit]
          · rw [getElem?_append_left (by simp; omega), getElem?_replicate,
              if_pos (by omega)]
    · cases hi

/-! ## Chunked local attention -/

theorem chunkedLoop_spec {i n : Nat} {columns : List Column}
    (hrun : chunkedLoop p groupIds blockHashes i n = .ok columns) :
    columns.length ≤ n ∧
      (∀ j < columns.length, columns[j]? = hitAt p groupIds blockHashes (i + j)) ∧
      (columns.length < n → hitAt p groupIds blockHashes (i + columns.length) = none) := by
  induction n generalizing i columns with
  | zero =>
    cases hrun
    exact ⟨le_rfl, fun j hj => absurd hj (Nat.not_lt_zero j), fun h => absurd h (lt_irrefl 0)⟩
  | succ n ih =>
    unfold chunkedLoop at hrun
    split at hrun
    · split at hrun
      · rename_i cached hhit
        obtain ⟨rest, hrec, hret⟩ := bind_ok hrun
        cases hret
        obtain ⟨hlen, hreal, hmiss⟩ := ih hrec
        refine ⟨Nat.succ_le_succ hlen, fun j hj => ?_, fun hlt => ?_⟩
        · cases j with
          | zero => exact hhit.symm
          | succ j =>
            rw [getElem?_cons_succ, hreal j (by simpa using hj)]
            congr 1
            omega
        · have := hmiss (by simpa using hlt)
          rwa [show i + (cached :: rest).length = i + 1 + rest.length by simp; omega]
      · rename_i hmiss
        cases hrun
        exact ⟨Nat.zero_le _, fun j hj => absurd hj (Nat.not_lt_zero j), fun _ => hmiss⟩
    · cases hrun

/-- The first block of the chunk that `maxLength` lies in. -/
def chunkStartBlock (blockSize attentionChunkSize maxLength : Nat) : Nat :=
  maxLength / attentionChunkSize * attentionChunkSize / blockSize

/-- Chunked local attention finds null blocks up to the block of its chunk's start, then the
run of hits. -/
theorem findChunked_spec {maxLength attentionChunkSize : Nat} {useEagle : Bool}
    {columns : List Column}
    (hrun : findChunked p groupIds blockHashes maxLength blockSize attentionChunkSize useEagle
      alignmentTokens = .ok columns) :
    useEagle = false ∧ blockSize = alignmentTokens ∧
      chunkStartBlock blockSize attentionChunkSize maxLength ≤ columns.length ∧
      columns.length ≤ maxLength / blockSize ∧
      (∀ j < columns.length, columns[j]? =
        if chunkStartBlock blockSize attentionChunkSize maxLength ≤ j
        then hitAt p groupIds blockHashes j else some (nullColumn p groupIds)) ∧
      (columns.length < maxLength / blockSize →
        hitAt p groupIds blockHashes columns.length = none) := by
  obtain ⟨_, heagle, hrun⟩ := bind_ok hrun
  obtain ⟨_, hbs, hrun⟩ := bind_ok hrun
  have hstart : (if maxLength > 0 then maxLength / attentionChunkSize * attentionChunkSize
      else 0) / blockSize = chunkStartBlock blockSize attentionChunkSize maxLength := by
    unfold chunkStartBlock
    split
    · rfl
    · obtain rfl : maxLength = 0 := by omega
      simp
  dsimp only at hrun
  rw [hstart] at hrun
  have hle : chunkStartBlock blockSize attentionChunkSize maxLength ≤ maxLength / blockSize :=
    Nat.div_le_div_right (Nat.div_mul_le_self _ _)
  generalize chunkStartBlock blockSize attentionChunkSize maxLength = start at hrun hle ⊢
  obtain ⟨hits, hloop, hret⟩ := bind_ok hrun
  cases hret
  obtain ⟨hlen, hreal, hmiss⟩ := chunkedLoop_spec hloop
  have hlength : (replicate start (nullColumn p groupIds) ++ hits).length =
      start + hits.length := by simp
  rw [hlength]
  refine ⟨by simpa using heagle, by simpa using hbs, by omega, by omega, fun j hj => ?_,
    fun hlt => hmiss (by omega)⟩
  split
  · rename_i hge
    rw [getElem?_append_right (by simpa using hge), length_replicate,
      hreal (j - start) (by omega), Nat.add_sub_cancel' hge]
  · rename_i hlt
    rw [getElem?_append_left (by simpa using hlt), getElem?_replicate,
      if_pos (Nat.lt_of_not_le hlt)]

/-! ## Lookups within the hash list -/

section Total

variable {maxLength : Nat} (hlen : maxLength / blockSize ≤ blockHashes.length)
include hlen

theorem findSliding_ok (p : BlockPool) (groupIds : List Nat) (slidingWindow : Nat)
    (useEagle : Bool) :
    ∃ columns, findSliding p groupIds blockHashes maxLength blockSize slidingWindow useEagle
      alignmentTokens = .ok columns := by
  have hloop : ∀ (need i : Nat) (computed : List Column) (n : Nat), i ≤ blockHashes.length →
      ∃ r, slidingLoop p groupIds blockHashes blockSize alignmentTokens need i computed n =
        .ok r := by
    intro need i
    induction i with
    | zero => exact fun computed n _ => ⟨_, rfl⟩
    | succ i ih =>
      intro computed n hi
      unfold slidingLoop
      rw [if_pos (Nat.lt_of_succ_le hi)]
      split
      · exact ih _ _ (le_of_lt hi)
      · split
        · exact ih _ _ (le_of_lt hi)
        · dsimp only
          split
          · exact ⟨_, rfl⟩
          · exact ih _ _ (le_of_lt hi)
  unfold findSliding
  obtain ⟨r, hr⟩ := hloop (cdiv (slidingWindow - 1) blockSize + if useEagle then 1 else 0) _
    (replicate (maxLength / blockSize) (nullColumn p groupIds)) 0 hlen
  dsimp only
  rw [hr, ok_bind]
  exact ⟨_, rfl⟩

theorem findMamba_ok (p : BlockPool) (groupIds : List Nat) :
    ∃ columns, findMamba p groupIds blockHashes maxLength blockSize alignmentTokens =
      .ok columns := by
  unfold findMamba
  generalize maxLength / blockSize = i at hlen
  induction i with
  | zero => exact ⟨_, rfl⟩
  | succ i ih =>
    unfold mambaLoop
    rw [if_pos (Nat.lt_of_succ_le hlen)]
    split
    · exact ih (le_of_lt hlen)
    · split
      · exact ih (le_of_lt hlen)
      · exact ⟨_, rfl⟩

theorem findChunked_ok (p : BlockPool) (groupIds : List Nat) (attentionChunkSize : Nat)
    (hal : blockSize = alignmentTokens) :
    ∃ columns, findChunked p groupIds blockHashes maxLength blockSize attentionChunkSize false
      alignmentTokens = .ok columns := by
  have hloop : ∀ n i : Nat, i + n ≤ blockHashes.length →
      ∃ r, chunkedLoop p groupIds blockHashes i n = .ok r := by
    intro n
    induction n with
    | zero => exact fun i _ => ⟨_, rfl⟩
    | succ n ih =>
      intro i hi
      unfold chunkedLoop
      rw [if_pos (by omega)]
      split
      · obtain ⟨r, hr⟩ := ih (i + 1) (by omega)
        rw [hr]
        exact ⟨_, rfl⟩
      · exact ⟨_, rfl⟩
  have hstart : (if maxLength > 0 then maxLength / attentionChunkSize * attentionChunkSize
      else 0) / blockSize ≤ maxLength / blockSize := by
    refine Nat.div_le_div_right ?_
    split
    · exact Nat.div_mul_le_self _ _
    · exact Nat.zero_le _
  unfold findChunked
  dsimp only
  obtain ⟨r, hr⟩ := hloop _ _ (le_trans (le_of_eq (Nat.add_sub_cancel' hstart)) hlen)
  rw [hr]
  simp [assert, hal]

end Total

end MyOperator.KvCache
