import MyOperator.Sched.Schedule

/-!
# Block-aligned prefills

A Mamba state can only be cached where a block ends. `_mamba_block_aligned_split` cuts
the chunks of a prefill so that those before the last such position end with a block,
and one of them ends there. The law is about the boundaries of all chunks, however many
tokens each of them was given.
-/

namespace MyOperator.Sched

open Lib List
open KvCache (assert assert_eq_ok)

variable {cfg : Config} {request r : Request} {start : Int}

/-- The last position at which the state of the request can be cached. With eagle the last block is
pruned. -/
def lastCachePosition (cfg : Config) (request : Request) : Int :=
  let lastCachePosition : Int := request.numTokens - request.numTokens % cfg.cacheBlockSize
  if cfg.useEagle then max (lastCachePosition - cfg.cacheBlockSize) 0 else lastCachePosition

theorem lastCachePosition_le (cfg : Config) (request : Request) :
    lastCachePosition cfg request ≤ request.numTokens := by
  unfold lastCachePosition
  dsimp only
  split
  · omega
  · omega

variable {numNewTokens numLocal numExternal : Nat} {c c' : Int}

/-- What a split returns: the tokens that end with a block before the last cache position, those
that end there, or all. -/
theorem mambaBlockAlignedSplit_cases {v : Int}
    (h : Pass.mambaBlockAlignedSplit cfg r numNewTokens numLocal numExternal = .ok v) :
    numExternal = 0 ∧
      ((v = numNewTokens / cfg.cacheBlockSize * cfg.cacheBlockSize ∧
          r.numComputedTokens + numLocal + numNewTokens < lastCachePosition cfg r) ∨
        (v = lastCachePosition cfg r - (r.numComputedTokens + numLocal) ∧
          r.numComputedTokens + numLocal < lastCachePosition cfg r ∧
          lastCachePosition cfg r < r.numComputedTokens + numLocal + numNewTokens) ∨
        (v = numNewTokens ∧
          (r.numComputedTokens + numLocal < max (r.numPromptTokens : Int) (r.numTokens - 1) →
            lastCachePosition cfg r ≤ r.numComputedTokens + numLocal ∨
              r.numComputedTokens + numLocal + numNewTokens = lastCachePosition cfg r))) := by
  unfold Pass.mambaBlockAlignedSplit at h
  obtain ⟨⟨⟩, hassert, h⟩ := bind_ok h
  have hexternal : numExternal = 0 := by simpa using hassert
  subst hexternal
  refine ⟨rfl, ?_⟩
  dsimp only at h
  have hlast : (if cfg.useEagle then
      max ((r.numTokens : Int) - r.numTokens % cfg.cacheBlockSize - cfg.cacheBlockSize) 0
      else (r.numTokens : Int) - r.numTokens % cfg.cacheBlockSize) = lastCachePosition cfg r := rfl
  rw [hlast, Int.natCast_zero, Int.add_zero] at h
  split at h
  · split at h
    · rename_i hlt
      exact .inl ⟨(Except.ok.inj h).symm, hlt⟩
    · split at h
      · rename_i hcross
        exact .inr (.inl ⟨(Except.ok.inj h).symm, hcross.1, hcross.2⟩)
      · rename_i hle hcross
        refine .inr (.inr ⟨(Except.ok.inj h).symm, fun _ => ?_⟩)
        omega
  · rename_i hdecode
    exact .inr (.inr ⟨(Except.ok.inj h).symm, fun hlt => absurd hlt hdecode⟩)

theorem mambaBlockAlignedSplit_le (cfg : Config) (r : Request) (numNewTokens numLocal : Nat) :
    ∃ v, Pass.mambaBlockAlignedSplit cfg r numNewTokens numLocal 0 = .ok v ∧ 0 ≤ v ∧
      v ≤ numNewTokens := by
  obtain ⟨v, hv⟩ : ∃ v, Pass.mambaBlockAlignedSplit cfg r numNewTokens numLocal 0 = .ok v := by
    unfold Pass.mambaBlockAlignedSplit
    dsimp only
    rw [show assert (decide ((0 : Nat) = 0)) "External KV connector is not verified yet" = .ok ()
      from rfl, ok_bind]
    generalize (if cfg.useEagle then
      max ((r.numTokens : Int) - r.numTokens % cfg.cacheBlockSize - cfg.cacheBlockSize) 0
      else (r.numTokens : Int) - r.numTokens % cfg.cacheBlockSize) = last
    split
    · split
      · exact ⟨_, rfl⟩
      · split
        · exact ⟨_, rfl⟩
        · exact ⟨_, rfl⟩
    · exact ⟨_, rfl⟩
  refine ⟨v, hv, ?_⟩
  obtain ⟨-, ⟨rfl, -⟩ | ⟨rfl, hlo, hhi⟩ | ⟨rfl, -⟩⟩ := mambaBlockAlignedSplit_cases hv
  · have hdiv := Nat.div_mul_le_self numNewTokens cfg.cacheBlockSize
    refine ⟨?_, by exact_mod_cast hdiv⟩
    exact Int.mul_nonneg (Int.ediv_nonneg (Int.natCast_nonneg _) (Int.natCast_nonneg _))
      (Int.natCast_nonneg _)
  · omega
  · omega

/-- A chunk of a prefill: the request has computed `c` tokens, some of them in this step from the
prefix cache, and is given `numNewTokens` more. It is a prefill by the test of the code, or since the
tokens are those of the request. -/
structure PrefillChunk (cfg : Config) (request : Request) (c c' : Int) (r : Request)
    (numNewTokens numLocal numExternal : Nat) : Prop where
  tokens : r.allTokenIds = request.allTokenIds
  prompt : r.numPromptTokens = request.numPromptTokens
  computed : r.numComputedTokens + numLocal + numExternal = c
  prefill : c < max (r.numPromptTokens : Int) (r.numTokens - 1) ∨ c + numNewTokens ≤ r.numTokens
  split : Pass.mambaBlockAlignedSplit cfg r numNewTokens numLocal numExternal = .ok (c' - c)

/-- The prefills of a request: the boundaries of the chunks, the last one first. -/
def prefillRuns (cfg : Config) (request : Request) (start : Int) : TSys (List Int) where
  init boundaries := boundaries = [start]
  step boundaries boundaries' := ∃ c rest c' r numNewTokens numLocal numExternal,
    boundaries = c :: rest ∧ boundaries' = c' :: boundaries ∧
      PrefillChunk cfg request c c' r numNewTokens numLocal numExternal

/-- The boundaries before the last cache position end blocks, no chunk crosses the position, and it is
a boundary once it is reached. -/
structure BlockAligned (blockSize : Nat) (last start : Int) (boundaries : List Int) : Prop where
  before : ∀ c ∈ boundaries, c < last → (blockSize : Int) ∣ c
  crossing : boundaries.IsChain fun c' c => ¬ (c < last ∧ last < c')
  hit : start ≤ last → (∃ c ∈ boundaries, last ≤ c) → last ∈ boundaries

/-- A chunk from before the last cache position ends with a block before it, or with it. -/
theorem PrefillChunk.target (h : PrefillChunk cfg request c c' r numNewTokens numLocal numExternal)
    (hlt : c < lastCachePosition cfg request) (hdvd : (cfg.cacheBlockSize : Int) ∣ c) :
    c' = lastCachePosition cfg request ∨
      c' < lastCachePosition cfg request ∧ (cfg.cacheBlockSize : Int) ∣ c' := by
  have htokens : r.numTokens = request.numTokens := congrArg List.length h.tokens
  have hlast : lastCachePosition cfg r = lastCachePosition cfg request := by
    unfold lastCachePosition
    rw [htokens]
  have hle := lastCachePosition_le cfg request
  have hprefill := h.prefill
  obtain ⟨hexternal, hcases⟩ := mambaBlockAlignedSplit_cases h.split
  have hc := h.computed
  rw [hexternal, Int.natCast_zero, Int.add_zero] at hc
  rw [hc, hlast] at hcases
  rw [htokens] at hprefill hcases
  rcases hcases with ⟨hv, hafter⟩ | ⟨hv, -, -⟩ | ⟨hv, hrest⟩
  · refine .inr ⟨?_, ?_⟩
    · have hdiv : (numNewTokens : Int) / cfg.cacheBlockSize * cfg.cacheBlockSize ≤ numNewTokens := by
        exact_mod_cast Nat.div_mul_le_self numNewTokens cfg.cacheBlockSize
      omega
    · rw [show c' = c + numNewTokens / cfg.cacheBlockSize * cfg.cacheBlockSize by omega]
      exact Int.dvd_add hdvd (Int.dvd_mul_left _ _)
  · exact .inl (by omega)
  · by_cases hphase : c < max (r.numPromptTokens : Int) (request.numTokens - 1)
    · have := hrest hphase
      exact .inl (by omega)
    · -- what is left is the last token of the request
      have hroom := hprefill.resolve_left hphase
      rcases Nat.eq_zero_or_pos numNewTokens with hzero | hpos
      · rw [hzero] at hv
        have heq : c' = c := by omega
        rw [heq]
        exact .inr ⟨hlt, hdvd⟩
      · exact .inl (by omega)

theorem PrefillChunk.le (h : PrefillChunk cfg request c c' r numNewTokens numLocal numExternal) :
    c ≤ c' := by
  obtain ⟨hexternal, -⟩ := mambaBlockAlignedSplit_cases h.split
  subst hexternal
  obtain ⟨v, hv, hnonneg, -⟩ := mambaBlockAlignedSplit_le cfg r numNewTokens numLocal
  have heq : c' - c = v := Except.ok.inj (h.split.symm.trans hv)
  omega

theorem BlockAligned.chunk {rest : List Int}
    (h : BlockAligned cfg.cacheBlockSize (lastCachePosition cfg request) start (c :: rest))
    (hchunk : PrefillChunk cfg request c c' r numNewTokens numLocal numExternal) :
    BlockAligned cfg.cacheBlockSize (lastCachePosition cfg request) start (c' :: c :: rest) := by
  refine ⟨?_, ?_, ?_⟩
  · intro b hb hlt
    rcases mem_cons.mp hb with rfl | hb
    · have hc : c < lastCachePosition cfg request := hchunk.le.trans_lt hlt
      rcases hchunk.target hc (h.before c mem_cons_self hc) with heq | ⟨-, hdvd⟩
      · omega
      · exact hdvd
    · exact h.before b hb hlt
  · refine isChain_cons_cons.mpr ⟨?_, h.crossing⟩
    rintro ⟨hlt, hcross⟩
    rcases hchunk.target hlt (h.before c mem_cons_self hlt) with heq | ⟨hlt', -⟩
    · omega
    · omega
  · rintro hstart ⟨b, hb, hle⟩
    by_cases hc : lastCachePosition cfg request ≤ c
    · exact mem_cons_of_mem _ (h.hit hstart ⟨c, mem_cons_self, hc⟩)
    · have hc := Int.not_le.mp hc
      rcases mem_cons.mp hb with rfl | hb
      · rcases hchunk.target hc (h.before c mem_cons_self hc) with heq | ⟨hlt, -⟩
        · rw [heq]
          exact mem_cons_self
        · omega
      · exact mem_cons_of_mem _ (h.hit hstart ⟨b, hb, hle⟩)

end MyOperator.Sched
