import MyOperator.Lib.Ragged

/-!
# Batches of drafted tokens

The kernels of speculative sampling read flat arrays that hold the positions of all
requests one after the other, and write each request's tokens into its row of the
output. `Batch.arrays` builds the arrays from the requests; a kernel's loads are read
back as loads from the request, and its stores as the row it leaves.
-/

namespace MyOperator.Sampling

open Lib List Function

variable {K : Type*}

/-- `PLACEHOLDER_TOKEN_ID`. -/
def PLACEHOLDER_TOKEN_ID : Int := -1

/-- What the arrays hold for a drafted position; the rows of probabilities go by token id. -/
structure Position (K : Type*) where
  draftTokenId : Nat
  draftProbs : Nat → K
  targetProbs : Nat → K
  recoveredTokenId : Nat
  uniformProb : K

/-- A request of the batch. -/
structure Request (K : Type*) where
  positions : List (Position K)
  bonusTokenId : Nat
  isGreedy : Bool

/-- The flat arrays. -/
structure Arrays (K : Type*) where
  cuNumDraftTokens : List Nat
  draftTokenIds : List Nat
  draftProbs : Option (List (Nat → K))
  targetProbs : List (Nat → K)
  bonusTokenIds : List Nat
  recoveredTokenIds : List Nat
  uniformProbs : List K
  isGreedy : List Bool

/-- A batch of requests. -/
abbrev Batch (K : Type*) := List (Request K)

namespace Batch

/-- The positions of all requests, one after the other. -/
def tokens (b : Batch K) : List (Position K) := b.flatMap (·.positions)

/-- `cu_num_draft_tokens`: the sums of the numbers of draft tokens. -/
def cuNumDraftTokens (b : Batch K) : List Nat :=
  (range b.length).map fun i => (tokens (b.take (i + 1))).length

/-- The arrays of a batch; methods without a draft model have no draft probabilities. -/
def arrays (b : Batch K) (noDraftProbs : Bool) : Arrays K where
  cuNumDraftTokens := b.cuNumDraftTokens
  draftTokenIds := b.tokens.map (·.draftTokenId)
  draftProbs := if noDraftProbs then none else some (b.tokens.map (·.draftProbs))
  targetProbs := b.tokens.map (·.targetProbs)
  bonusTokenIds := b.map (·.bonusTokenId)
  recoveredTokenIds := b.tokens.map (·.recoveredTokenId)
  uniformProbs := b.tokens.map (·.uniformProb)
  isGreedy := b.map (·.isGreedy)

/-- `max_spec_len`: the largest number of draft tokens. -/
def maxSpecLen (b : Batch K) : Nat := (b.map (·.positions.length)).foldr max 0

variable {b : Batch K} {i pos : Nat} {r : Request K} {x : Position K}

theorem length_le_maxSpecLen (h : r ∈ b) : r.positions.length ≤ b.maxSpecLen := by
  induction b with
  | nil => cases h
  | cons r' b ih =>
    rcases mem_cons.mp h with rfl | h
    · exact le_max_left _ _
    · exact (ih h).trans (le_max_right _ _)

theorem tokens_getElem? (h : b[i]? = some r) (hpos : r.positions[pos]? = some x) :
    b.tokens[(tokens (b.take i)).length + pos]? = some x := getElem?_flatMap_segment h hpos

theorem length_tokens_take_succ (h : b[i]? = some r) :
    (tokens (b.take (i + 1))).length = (tokens (b.take i)).length + r.positions.length :=
  segmentStart_succ h

end Batch

namespace Arrays

/-- `0 if req_idx == 0 else cu_num_draft_tokens[req_idx - 1]`. -/
def startIdx (a : Arrays K) (reqIdx : Nat) : Nat :=
  if reqIdx = 0 then 0 else a.cuNumDraftTokens.getD (reqIdx - 1) 0

/-- `cu_num_draft_tokens[req_idx]`. -/
def endIdx (a : Arrays K) (reqIdx : Nat) : Nat := a.cuNumDraftTokens.getD reqIdx 0

end Arrays

section

variable {b : Batch K} {noDraftProbs : Bool} {i pos : Nat} {r : Request K} {x : Position K}

theorem startIdx_arrays (h : b[i]? = some r) :
    (b.arrays noDraftProbs).startIdx i = (Batch.tokens (b.take i)).length := by
  have hlt := (List.getElem?_eq_some_iff.mp h).1
  cases i with
  | zero => rfl
  | succ i =>
    show b.cuNumDraftTokens.getD i 0 = _
    unfold Batch.cuNumDraftTokens
    rw [getD_eq_getElem?_getD, getElem?_map, getElem?_range (Nat.lt_of_succ_lt hlt)]
    rfl

theorem endIdx_arrays (h : b[i]? = some r) :
    (b.arrays noDraftProbs).endIdx i = (Batch.tokens (b.take i)).length + r.positions.length := by
  have hlt := (List.getElem?_eq_some_iff.mp h).1
  rw [← Batch.length_tokens_take_succ h]
  show b.cuNumDraftTokens.getD i 0 = _
  unfold Batch.cuNumDraftTokens
  rw [getD_eq_getElem?_getD, getElem?_map, getElem?_range hlt]
  rfl

theorem endIdx_sub_startIdx (h : b[i]? = some r) :
    (b.arrays noDraftProbs).endIdx i - (b.arrays noDraftProbs).startIdx i = r.positions.length := by
  rw [endIdx_arrays h, startIdx_arrays h, Nat.add_sub_cancel_left]

theorem load_tokens {γ : Type*} (f : Position K → γ) (d : γ) (h : b[i]? = some r)
    (hpos : r.positions[pos]? = some x) :
    (b.tokens.map f).getD ((b.arrays noDraftProbs).startIdx i + pos) d = f x := by
  rw [startIdx_arrays h, getD_eq_getElem?_getD, getElem?_map, Batch.tokens_getElem? h hpos]
  rfl

theorem load_request {γ : Type*} (f : Request K → γ) (d : γ) (h : b[i]? = some r) :
    (b.map f).getD i d = f r := by
  rw [getD_eq_getElem?_getD, getElem?_map, h]
  rfl

end

/-- What the loads of a program for the request `i` give. -/
structure Reads (a : Arrays K) (noDraftProbs : Bool) (i : Nat) (r : Request K) : Prop where
  numDraftTokens : a.endIdx i - a.startIdx i = r.positions.length
  isGreedy : ∀ d, a.isGreedy.getD i d = r.isGreedy
  bonusTokenId : ∀ d, a.bonusTokenIds.getD i d = r.bonusTokenId
  draftTokenId : ∀ (pos : Nat) x d, r.positions[pos]? = some x →
    a.draftTokenIds.getD (a.startIdx i + pos) d = x.draftTokenId
  draftProbs : ∀ (pos : Nat) x d, r.positions[pos]? = some x →
    (a.draftProbs.map fun rows => rows.getD (a.startIdx i + pos) d) =
      if noDraftProbs then none else some x.draftProbs
  targetProbs : ∀ (pos : Nat) x d, r.positions[pos]? = some x →
    a.targetProbs.getD (a.startIdx i + pos) d = x.targetProbs
  recoveredTokenId : ∀ (pos : Nat) x d, r.positions[pos]? = some x →
    a.recoveredTokenIds.getD (a.startIdx i + pos) d = x.recoveredTokenId
  uniformProb : ∀ (pos : Nat) x d, r.positions[pos]? = some x →
    a.uniformProbs.getD (a.startIdx i + pos) d = x.uniformProb

theorem Batch.reads {b : Batch K} {noDraftProbs : Bool} {i : Nat} {r : Request K}
    (h : b[i]? = some r) : Reads (b.arrays noDraftProbs) noDraftProbs i r where
  numDraftTokens := endIdx_sub_startIdx h
  isGreedy := fun d => load_request (·.isGreedy) d h
  bonusTokenId := fun d => load_request (·.bonusTokenId) d h
  draftTokenId := fun _ _ d hx => load_tokens (·.draftTokenId) d h hx
  draftProbs := by
    intro pos x d hx
    cases noDraftProbs with
    | true => rfl
    | false => exact congrArg some (load_tokens (·.draftProbs) d h hx)
  targetProbs := fun _ _ d hx => load_tokens (·.targetProbs) d h hx
  recoveredTokenId := fun _ _ d hx => load_tokens (·.recoveredTokenId) d h hx
  uniformProb := fun _ _ d hx => load_tokens (·.uniformProb) d h hx

/-! ## Rows of the output -/

/-- The tokens stored from an address on. -/
def storeRow (out : Nat → Int) (base : Nat) (toks : List Nat) : Nat → Int := fun addr =>
  if base ≤ addr then (toks[addr - base]?.map Int.ofNat).getD (out addr) else out addr

/-- A row of the output. -/
def outputRow (out : Nat → Int) (maxSpecLen reqIdx : Nat) : List Int :=
  (range (maxSpecLen + 1)).map fun j => out (reqIdx * (maxSpecLen + 1) + j)

section

variable {out : Nat → Int} {base : Nat} {toks : List Nat} {t m i j : Nat}

@[simp] theorem storeRow_nil : storeRow out base [] = out := by
  funext addr
  unfold storeRow
  split_ifs <;> rfl

theorem storeRow_concat : update (storeRow out base toks) (base + toks.length) (t : Int) =
    storeRow out base (toks ++ [t]) := by
  funext addr
  unfold storeRow
  by_cases haddr : addr = base + toks.length
  · subst haddr
    rw [update_self, if_pos (Nat.le_add_right _ _), Nat.add_sub_cancel_left, getElem?_concat_length]
    rfl
  · rw [update_of_ne haddr]
    split_ifs with hle
    · rcases lt_or_ge (addr - base) toks.length with hlt | hge
      · rw [getElem?_append_left hlt]
      · rw [getElem?_eq_none hge, getElem?_eq_none]
        rw [length_append, length_singleton]
        omega
    · rfl

theorem getElem?_outputRow (hj : j ≤ m) :
    (outputRow out m i)[j]? = some (out (i * (m + 1) + j)) := by
  unfold outputRow
  rw [getElem?_map, getElem?_range (Nat.lt_succ_of_le hj)]
  rfl

@[simp] theorem length_outputRow : (outputRow out m i).length = m + 1 := by
  unfold outputRow
  rw [length_map, length_range]

theorem outputRow_storeRow (h : toks.length ≤ m + 1) :
    outputRow (storeRow out (i * (m + 1)) toks) m i =
      toks.map Int.ofNat ++ (outputRow out m i).drop toks.length := by
  refine ext_getElem? fun j => ?_
  rcases lt_or_ge m j with hj | hj
  · rw [getElem?_eq_none (by rw [length_outputRow]; omega), getElem?_eq_none]
    rw [length_append, length_map, length_drop, length_outputRow]
    omega
  · rw [getElem?_outputRow hj, storeRow, if_pos (Nat.le_add_right _ _), Nat.add_sub_cancel_left]
    rcases Nat.lt_or_ge j toks.length with hlt | hge
    · rw [getElem?_append_left (by rw [length_map]; exact hlt), getElem?_map,
        getElem?_eq_getElem hlt]
      rfl
    · rw [getElem?_append_right (by rw [length_map]; exact hge), length_map,
        getElem?_drop, Nat.add_sub_cancel' hge, getElem?_outputRow hj,
        getElem?_eq_none hge]
      rfl

theorem outputRow_storeRow_ne (h : toks.length ≤ m + 1) (hij : i ≠ j) :
    outputRow (storeRow out (j * (m + 1)) toks) m i = outputRow out m i := by
  unfold outputRow
  refine map_congr_left fun k hk => ?_
  have hk := mem_range.mp hk
  unfold storeRow
  split_ifs with hle
  · rw [getElem?_eq_none]
    · rfl
    · -- an address of a later row lies behind the tokens
      have hji : j < i := by
        by_contra hge
        have hlt : i + 1 ≤ j := by omega
        have hmul := Nat.mul_le_mul_right (m + 1) hlt
        rw [Nat.add_mul] at hmul
        omega
      have hmul := Nat.mul_le_mul_right (m + 1) (Nat.succ_le_of_lt hji)
      rw [Nat.succ_mul] at hmul
      omega
  · rfl

end

/-! ## Emitted tokens -/

/-- The tokens of a request that accepts the given number of draft tokens: these, and the recovered
token of the next position, or the bonus token. -/
def Request.emitted (r : Request K) (acceptedLen : Nat) : List Nat :=
  (r.positions.take acceptedLen).map (·.draftTokenId) ++
    [(r.positions[acceptedLen]?.map (·.recoveredTokenId)).getD r.bonusTokenId]

theorem Request.length_emitted {r : Request K} {n : Nat} (h : n ≤ r.positions.length) :
    (r.emitted n).length = n + 1 := by
  unfold emitted
  rw [length_append, length_map, length_take, min_eq_left h]
  rfl

end MyOperator.Sampling

/-!
## The rejection sampler

The kernels that sample the recovered tokens and accept or reject the draft tokens of
a batch. A program of the first finds the largest score, tile by tile, where masked
lanes read zero; a program of the second walks the positions of its request up to the
first rejection.
-/

namespace MyOperator.Sampling

variable {K : Type*} [Field K] [LinearOrder K]

/-! ## The kernels -/

/-- `prob` of a lane of `sample_recovered_tokens_kernel`; masked loads read zero. -/
def recoveredProb (draftProbs : Option (Nat → K)) (targetProbs : Nat → K)
    (draftTokenId vocabSize vocabOffset : Nat) : K :=
  match draftProbs with
  | none =>
    if vocabOffset < vocabSize ∧ vocabOffset ≠ draftTokenId then targetProbs vocabOffset else 0
  | some draftProbs =>
    max ((if vocabOffset < vocabSize then targetProbs vocabOffset else 0) -
      (if vocabOffset < vocabSize then draftProbs vocabOffset else 0)) 0

/-- `score` of a lane. -/
def score (prob invQ : Nat → K) (vocabSize vocabOffset : Nat) : K :=
  prob vocabOffset * (if vocabOffset < vocabSize then invQ vocabOffset else 0)

/-- `tl.max(score, axis=0, return_indices=True)` over the lanes `0 … last`: the leftmost one wins. -/
def tileMax (score : Nat → K) : Nat → K × Nat
  | 0 => (score 0, 0)
  | last + 1 =>
    let m := tileMax score last
    if m.1 < score (last + 1) then (score (last + 1), last + 1) else m

/-- One pass of the loop over the vocabulary; `none` is the initial `-inf`. -/
def recoverTile (score : Nat → K) (BLOCK_SIZE : Nat) (s : Option K × Nat) (tile : Nat) :
    Option K × Nat :=
  let v := tile * BLOCK_SIZE
  let m := tileMax (fun lane => score (v + lane)) (BLOCK_SIZE - 1)
  if s.1.all (· < m.1) then (some m.1, v + m.2) else s

/-- `recovered_id` after the loop. -/
def recoveredId (score : Nat → K) (vocabSize BLOCK_SIZE : Nat) : Nat :=
  ((List.range ((vocabSize + BLOCK_SIZE - 1) / BLOCK_SIZE)).foldl (recoverTile score BLOCK_SIZE)
    (none, 0)).2

def sampleRecoveredTokensKernel (a : Arrays K) (invQ : List (Nat → K)) (vocabSize BLOCK_SIZE : Nat)
    (outputTokenIds : Nat → Nat) (reqIdx pos : Nat) : Nat → Nat :=
  if a.endIdx reqIdx - a.startIdx reqIdx ≤ pos then outputTokenIds
  else
    let tokenIdx := a.startIdx reqIdx + pos
    let prob := recoveredProb (a.draftProbs.map (·.getD tokenIdx fun _ => 0))
      (a.targetProbs.getD tokenIdx fun _ => 0) (a.draftTokenIds.getD tokenIdx 0) vocabSize
    Function.update outputTokenIds tokenIdx
      (recoveredId (score prob (invQ.getD reqIdx fun _ => 0) vocabSize) vocabSize BLOCK_SIZE)

/-- `sample_recovered_tokens`, for the random numbers drawn: the kernel on the grid of requests and
positions. The buffer starts with whatever `recoveredTokenIds` holds. -/
def sampleRecoveredTokens (a : Arrays K) (invQ : List (Nat → K)) (batchSize maxSpecLen vocabSize : Nat) :
    List Nat :=
  let out := (List.range batchSize).foldl (fun out reqIdx =>
    (List.range maxSpecLen).foldl (fun out pos =>
      sampleRecoveredTokensKernel a invQ vocabSize 8192 out reqIdx pos) out)
    fun i => a.recoveredTokenIds.getD i 0
  (List.range a.draftTokenIds.length).map out

/-- `draft_prob`: one if there are no draft probabilities. -/
def Arrays.draftProb (a : Arrays K) (tokenIdx draftTokenId : Nat) : K :=
  match a.draftProbs with
  | none => 1
  | some draftProbs => draftProbs.getD tokenIdx (fun _ => 0) draftTokenId

/-- One pass of the loop of `rejection_random_sample_kernel`, on `rejected` and the output. -/
def randomSampleStep (a : Arrays K) (maxSpecLen reqIdx : Nat) (s : Bool × (Nat → Int)) (pos : Nat) :
    Bool × (Nat → Int) :=
  if s.1 then s
  else
    let tokenIdx := a.startIdx reqIdx + pos
    let draftTokenId := a.draftTokenIds.getD tokenIdx 0
    let draftProb := a.draftProb tokenIdx draftTokenId
    let targetProb := a.targetProbs.getD tokenIdx (fun _ => 0) draftTokenId
    let uniformProb := a.uniformProbs.getD tokenIdx 0
    let addr := reqIdx * (maxSpecLen + 1) + pos
    if 0 < draftProb ∧ uniformProb ≤ targetProb / draftProb then
      (false, Function.update s.2 addr (draftTokenId : Int))
    else (true, Function.update s.2 addr (a.recoveredTokenIds.getD tokenIdx 0 : Int))

def rejectionRandomSampleKernel (a : Arrays K) (maxSpecLen : Nat) (outputTokenIds : Nat → Int)
    (reqIdx : Nat) : Nat → Int :=
  if a.isGreedy.getD reqIdx false then outputTokenIds
  else
    let numDraftTokens := a.endIdx reqIdx - a.startIdx reqIdx
    let s := (List.range numDraftTokens).foldl (randomSampleStep a maxSpecLen reqIdx)
      (false, outputTokenIds)
    if s.1 then s.2
    else Function.update s.2 (reqIdx * (maxSpecLen + 1) + numDraftTokens)
      (a.bonusTokenIds.getD reqIdx 0 : Int)

/-- `rejection_sample` from the random numbers on: the recovered tokens, then the random kernel on
the batch, into a buffer of placeholders. -/
def rejectionSample (b : Batch K) (noDraftProbs : Bool) (invQ : List (Nat → K)) (vocabSize : Nat) :
    Nat → Int :=
  let a := b.arrays noDraftProbs
  let a := { a with
    recoveredTokenIds := sampleRecoveredTokens a invQ b.length b.maxSpecLen vocabSize }
  (List.range b.length).foldl (rejectionRandomSampleKernel a b.maxSpecLen)
    fun _ => PLACEHOLDER_TOKEN_ID

/-- A row of `parse_output`. -/
def parseOutput (row : List Int) (vocabSize : Nat) : List Int :=
  row.filter fun t => t ≠ PLACEHOLDER_TOKEN_ID ∧ t < vocabSize

/-! ## What a program of the random kernel leaves -/

namespace Position

/-- The draft probability of the draft token. -/
def draftProb (x : Position K) (noDraftProbs : Bool) : K :=
  if noDraftProbs then 1 else x.draftProbs x.draftTokenId

/-- The draft token is accepted. -/
def Accepted (x : Position K) (noDraftProbs : Bool) : Prop :=
  0 < x.draftProb noDraftProbs ∧
    x.uniformProb ≤ x.targetProbs x.draftTokenId / x.draftProb noDraftProbs

instance (x : Position K) (noDraftProbs : Bool) : Decidable (x.Accepted noDraftProbs) :=
  inferInstanceAs (Decidable (_ ∧ _))

end Position

/-- The number of draft tokens up to the first rejection. -/
def Request.acceptedLen (r : Request K) (noDraftProbs : Bool) : Nat :=
  (r.positions.takeWhile fun x => x.Accepted noDraftProbs).length

end MyOperator.Sampling
