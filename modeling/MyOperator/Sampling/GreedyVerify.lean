import MyOperator.Sampling.RejectionRows

/-!
# Greedy verification

For a greedy request a draft token is accepted if it is the target model's argmax. The kernel
walks the positions of its request; the implementation on tensors scatters the positions and the
mismatches of all requests into padded matrices and reduces these with a sentinel; a
third implementation serves batches of greedy requests with one draft token each. All
leave the rows of the sequential accept loop, and `parse_output` reads its tokens back.
-/

namespace MyOperator.Sampling

open Lib List Function

/-! ## Batches -/

/-- A drafted position; the argmax over the logits is a token of the vocabulary. -/
structure GreedyPosition (vocabSize : Nat) where
  draftTokenId : Int
  targetArgmax : Fin vocabSize

structure GreedyRequest (vocabSize : Nat) where
  positions : List (GreedyPosition vocabSize)
  bonusTokenId : Fin vocabSize
  isGreedy : Bool

/-- A batch of greedy and random requests. -/
abbrev GreedyBatch (vocabSize : Nat) := List (GreedyRequest vocabSize)

/-- The flat arrays. `is_greedy` is `None` if all requests are. -/
structure GreedyArrays where
  cuNumDraftTokens : List Nat
  draftTokensPerReq : List Nat
  draftTokenIds : List Int
  targetArgmax : List Nat
  bonusTokenIds : List Nat
  isGreedy : Option (List Bool)

variable {vocabSize : Nat}

namespace GreedyBatch

def tokens (b : GreedyBatch vocabSize) : List (GreedyPosition vocabSize) := b.flatMap (·.positions)

def arrays (b : GreedyBatch vocabSize) : GreedyArrays where
  cuNumDraftTokens := (range b.length).map fun i => (tokens (b.take (i + 1))).length
  draftTokensPerReq := b.map (·.positions.length)
  draftTokenIds := b.tokens.map (·.draftTokenId)
  targetArgmax := b.tokens.map (·.targetArgmax.val)
  bonusTokenIds := b.map (·.bonusTokenId.val)
  isGreedy := if b.all (·.isGreedy) then none else some (b.map (·.isGreedy))

/-- `max_spec_len`: the largest number of draft tokens. -/
def maxSpecLen (b : GreedyBatch vocabSize) : Nat := (b.map (·.positions.length)).foldr max 0

end GreedyBatch

/-- `is_greedy` of a request. -/
def GreedyArrays.isGreedyReq (a : GreedyArrays) (reqIdx : Nat) : Bool :=
  match a.isGreedy with
  | none => true
  | some isGreedy => isGreedy.getD reqIdx false

/-! ## The kernel -/

/-- One pass of the loop of `rejection_greedy_sample_kernel`, on `rejected` and the output. -/
def greedySampleStep (a : GreedyArrays) (maxSpecLen startIdx reqIdx : Nat)
    (s : Bool × (Nat → Int)) (pos : Nat) : Bool × (Nat → Int) :=
  if s.1 then s
  else
    let draftTokenId := a.draftTokenIds.getD (startIdx + pos) 0
    let targetArgmaxId := a.targetArgmax.getD (startIdx + pos) 0
    let out := update s.2 (reqIdx * (maxSpecLen + 1) + pos) (targetArgmaxId : Int)
    (decide (draftTokenId ≠ targetArgmaxId), out)

def rejectionGreedySampleKernel (a : GreedyArrays) (maxSpecLen : Nat) (outputTokenIds : Nat → Int)
    (reqIdx : Nat) : Nat → Int :=
  if a.isGreedyReq reqIdx = false then outputTokenIds
  else
    let startIdx := if reqIdx = 0 then 0 else a.cuNumDraftTokens.getD (reqIdx - 1) 0
    let endIdx := a.cuNumDraftTokens.getD reqIdx 0
    let numDraftTokens := endIdx - startIdx
    let s := (range numDraftTokens).foldl (greedySampleStep a maxSpecLen startIdx reqIdx)
      (false, outputTokenIds)
    if s.1 then s.2
    else update s.2 (reqIdx * (maxSpecLen + 1) + numDraftTokens)
      (a.bonusTokenIds.getD reqIdx 0 : Int)

/-- The launch of the kernel, one program for each request. -/
def greedySampleLaunch (b : GreedyBatch vocabSize) (maxSpecLen : Nat) (outputTokenIds : Nat → Int) :
    Nat → Int :=
  (range b.length).foldl (rejectionGreedySampleKernel b.arrays maxSpecLen) outputTokenIds

/-! ## The implementation on tensors -/

namespace GreedyPytorch

def draftTokens (a : GreedyArrays) (req : Nat) : Nat := a.draftTokensPerReq.getD req 0

def startIndices (a : GreedyArrays) (req : Nat) : Nat :=
  a.cuNumDraftTokens.getD req 0 - draftTokens a req

/-- `token_req_ids`, by `repeat_interleave`. -/
def tokenReqIds (a : GreedyArrays) (batchSize : Nat) : List Nat :=
  (range batchSize).flatMap fun req => replicate (draftTokens a req) req

/-- The row and the column of a token. -/
def tokenPlace (a : GreedyArrays) (batchSize token : Nat) : Nat × Nat :=
  let req := (tokenReqIds a batchSize).getD token 0
  (req, token - startIndices a req)

/-- A matrix after `matrix[token_req_ids, token_positions] = values`. -/
def scatter {γ : Type} (a : GreedyArrays) (batchSize : Nat) (matrix : Nat × Nat → γ)
    (values : Nat → γ) : Nat × Nat → γ :=
  (range a.draftTokenIds.length).foldl (fun matrix token =>
    update matrix (tokenPlace a batchSize token) (values token)) matrix

def posMatrix (a : GreedyArrays) (batchSize : Nat) : Nat × Nat → Int :=
  scatter a batchSize (fun _ => -1) fun token => (tokenPlace a batchSize token).2

def mismatchMatrix (a : GreedyArrays) (batchSize : Nat) : Nat × Nat → Bool :=
  scatter a batchSize (fun _ => false) fun token =>
    decide (a.draftTokenIds.getD token 0 ≠ (a.targetArgmax.getD token 0 : Int))

/-- `mismatch_positions`: no mismatch lies at the sentinel. -/
def mismatchPositions (a : GreedyArrays) (batchSize maxSpecLen req j : Nat) : Int :=
  if mismatchMatrix a batchSize (req, j) then posMatrix a batchSize (req, j)
  else (maxSpecLen * 2 : Nat)

/-- `first_mismatch_pos_per_req`. -/
def firstMismatchPos (a : GreedyArrays) (batchSize maxSpecLen req : Nat) : Int :=
  if maxSpecLen = 0 then 0
  else
    let first :=
      ((range maxSpecLen).map (mismatchPositions a batchSize maxSpecLen req)).min?.getD 0
    if first = (maxSpecLen * 2 : Nat) then draftTokens a req else first

/-- `output_token_ids` of a request and a column, after both writes. -/
def outputTokenIds (a : GreedyArrays) (batchSize maxSpecLen : Nat) (out : Nat → Int) (req j : Nat) :
    Int :=
  let firstMismatch := firstMismatchPos a batchSize maxSpecLen req
  let copyLen := min (firstMismatch + 1) (draftTokens a req)
  let out0 := out (req * (maxSpecLen + 1) + j)
  -- the columns below `copy_len` first, then the bonus column of the rows that need one
  let out1 := if (j : Int) < copyLen ∧ a.isGreedyReq req = true then
      (a.targetArgmax.getD (startIndices a req + j) 0 : Int)
    else out0
  if (a.isGreedyReq req = true ∧ (draftTokens a req : Int) ≤ firstMismatch) ∧
      j = draftTokens a req then
    (a.bonusTokenIds.getD req 0 : Int)
  else out1

end GreedyPytorch

/-- `rejection_greedy_sample_pytorch`: the rows it leaves. -/
def rejectionGreedySamplePytorch (b : GreedyBatch vocabSize) (maxSpecLen : Nat) (out : Nat → Int) :
    List (List Int) :=
  (range b.length).map fun req => (range (maxSpecLen + 1)).map
    (GreedyPytorch.outputTokenIds b.arrays b.length maxSpecLen out req)

/-- `rejection_greedy_sample_spec_len_1_pytorch`: the rows it leaves, if its assertion holds. -/
def rejectionGreedySampleSpecLen1Pytorch (b : GreedyBatch vocabSize) (out : Nat → Int) :
    Option (List (List Int)) :=
  let a := b.arrays
  if b.length = a.draftTokenIds.length then
    some ((range b.length).map fun req =>
      let targetArgmax : Int := a.targetArgmax.getD req 0
      [targetArgmax, if a.draftTokenIds.getD req 0 = targetArgmax then a.bonusTokenIds.getD req 0
        else out (req * 2 + 1)])
  else none

/-! ## The accept loop -/

/-- The tokens of the sequential accept loop: the argmaxes up to the first that differs from its
draft, or all of them and the bonus token. -/
def acceptLoop : List (GreedyPosition vocabSize) → Fin vocabSize → List Nat
  | [], bonusTokenId => [bonusTokenId.val]
  | x :: l, bonusTokenId =>
    x.targetArgmax.val :: if x.draftTokenId = x.targetArgmax.val then acceptLoop l bonusTokenId
      else []

/-- The row that a request is to be left with. -/
def greedyRow (out : Nat → Int) (maxSpecLen i : Nat) (r : GreedyRequest vocabSize) : List Int :=
  if r.isGreedy then
    let toks := acceptLoop r.positions r.bonusTokenId
    toks.map Int.ofNat ++ (outputRow out maxSpecLen i).drop toks.length
  else outputRow out maxSpecLen i

/-- The number of draft tokens before the first mismatch. -/
def matchedLen (l : List (GreedyPosition vocabSize)) : Nat :=
  (l.takeWhile fun x => x.draftTokenId = x.targetArgmax.val).length

variable {l : List (GreedyPosition vocabSize)} {bonusTokenId : Fin vocabSize}
  {x : GreedyPosition vocabSize} {i j k m t : Nat} {out : Nat → Int}

theorem matchedLen_le : matchedLen l ≤ l.length := (takeWhile_sublist _).length_le

theorem lt_matchedLen (hk : k ≤ matchedLen l) (hx : l[k]? = some x) :
    k < matchedLen l ↔ x.draftTokenId = x.targetArgmax.val :=
  (lt_length_takeWhile hk hx).trans decide_eq_true_iff

theorem acceptLoop_getElem? : (acceptLoop l bonusTokenId)[j]? =
    if j ≤ matchedLen l then some ((l[j]?.map (·.targetArgmax.val)).getD bonusTokenId.val)
    else none := by
  induction l generalizing j with
  | nil =>
    cases j with
    | zero => rfl
    | succ j => rfl
  | cons x l ih =>
    unfold acceptLoop
    cases j with
    | zero => rw [if_pos (Nat.zero_le _)]; rfl
    | succ j =>
      rw [getElem?_cons_succ]
      by_cases hx : x.draftTokenId = x.targetArgmax.val
      · have hlen : matchedLen (x :: l) = matchedLen l + 1 := by
          unfold matchedLen
          rw [takeWhile_cons, if_pos (decide_eq_true hx), length_cons]
        rw [if_pos hx, ih, hlen]
        exact if_congr Nat.succ_le_succ_iff.symm rfl rfl
      · have hlen : matchedLen (x :: l) = 0 := by
          unfold matchedLen
          rw [takeWhile_cons, if_neg (by simpa using hx)]
          rfl
        rw [if_neg hx, hlen, if_neg (Nat.not_succ_le_zero j)]
        rfl

theorem length_acceptLoop : (acceptLoop l bonusTokenId).length = matchedLen l + 1 := by
  refine le_antisymm ?_ ?_
  · rw [← List.getElem?_eq_none_iff, acceptLoop_getElem?, if_neg (Nat.not_succ_le_self _)]
  · refine Nat.succ_le_of_lt (Nat.lt_of_not_le fun hle => ?_)
    rw [← List.getElem?_eq_none_iff, acceptLoop_getElem?, if_pos le_rfl] at hle
    cases hle

/-! ## Loads -/

section Rows

variable {b : GreedyBatch vocabSize} {r : GreedyRequest vocabSize}

theorem GreedyBatch.length_le_maxSpecLen (h : r ∈ b) : r.positions.length ≤ b.maxSpecLen := by
  induction b with
  | nil => cases h
  | cons r' b ih =>
    rcases mem_cons.mp h with rfl | h
    · exact le_max_left _ _
    · exact (ih h).trans (le_max_right _ _)

/-- The first token of a request. -/
abbrev GreedyBatch.start (b : GreedyBatch vocabSize) (i : Nat) : Nat :=
  segmentStart (·.positions) b i

theorem GreedyBatch.start_succ (h : b[i]? = some r) :
    b.start (i + 1) = b.start i + r.positions.length :=
  segmentStart_succ h

theorem cuNumDraftTokens_getD (h : i < b.length) (d : Nat) :
    b.arrays.cuNumDraftTokens.getD i d = b.start (i + 1) := by
  unfold GreedyBatch.arrays
  rw [getD_eq_getElem?_getD, getElem?_map, getElem?_range h]
  rfl

theorem kernelStart_eq (h : b[i]? = some r) :
    (if i = 0 then 0 else b.arrays.cuNumDraftTokens.getD (i - 1) 0) = b.start i := by
  cases i with
  | zero => rfl
  | succ i =>
    rw [if_neg (Nat.succ_ne_zero i), Nat.add_sub_cancel,
      cuNumDraftTokens_getD (Nat.lt_of_succ_lt (List.getElem?_eq_some_iff.mp h).1)]

theorem draftTokens_req (h : b[i]? = some r) :
    GreedyPytorch.draftTokens b.arrays i = r.positions.length := by
  unfold GreedyPytorch.draftTokens GreedyBatch.arrays
  rw [getD_eq_getElem?_getD, getElem?_map, h]
  rfl

theorem startIndices_req (h : b[i]? = some r) :
    GreedyPytorch.startIndices b.arrays i = b.start i := by
  unfold GreedyPytorch.startIndices
  rw [cuNumDraftTokens_getD (List.getElem?_eq_some_iff.mp h).1, draftTokens_req h,
    GreedyBatch.start_succ h, Nat.add_sub_cancel]

theorem loadToken {γ : Type} (f : GreedyPosition vocabSize → γ) (d : γ) (h : b[i]? = some r)
    (hx : r.positions[k]? = some x) : (b.tokens.map f).getD (b.start i + k) d = f x := by
  unfold GreedyBatch.tokens
  rw [getD_eq_getElem?_getD, getElem?_map, getElem?_flatMap_segment h hx]
  rfl

section

variable (h : b[i]? = some r)
include h

theorem bonusTokenIds_req (d : Nat) : b.arrays.bonusTokenIds.getD i d = r.bonusTokenId := by
  unfold GreedyBatch.arrays
  rw [getD_eq_getElem?_getD, getElem?_map, h]
  rfl

theorem isGreedyReq_eq : b.arrays.isGreedyReq i = r.isGreedy := by
  unfold GreedyArrays.isGreedyReq GreedyBatch.arrays
  by_cases hall : b.all (·.isGreedy) = true
  · rw [if_pos hall]
    exact (all_eq_true.mp hall r (mem_of_getElem? h)).symm
  · rw [if_neg hall]
    dsimp only
    rw [getD_eq_getElem?_getD, getElem?_map, h]
    rfl

/-! ## The rows of the kernel -/

/-- After `k` passes the kernel has stored the first `k` tokens of the accept loop. -/
theorem greedySample_loop (hk : k ≤ r.positions.length) :
    (range k).foldl (greedySampleStep b.arrays m (b.start i) i) (false, out) =
      (decide (matchedLen r.positions < k), storeRow out (i * (m + 1))
        ((acceptLoop r.positions r.bonusTokenId).take k)) := by
  induction k with
  | zero => simp
  | succ k ih =>
    obtain ⟨x, hx⟩ : ∃ x, r.positions[k]? = some x := ⟨_, getElem?_eq_getElem hk⟩
    rw [range_succ, foldl_append, ih (le_of_lt hk), foldl_cons,
      foldl_nil]
    unfold greedySampleStep
    dsimp only
    rcases lt_or_ge (matchedLen r.positions) k with hlt | hge
    · -- rejected before: no token is left
      rw [if_pos (decide_eq_true hlt), decide_eq_true hlt,
        decide_eq_true (Nat.lt_succ_of_lt hlt), take_of_length_le, take_of_length_le]
      all_goals
        rw [length_acceptLoop]
        omega
    · have hdraft : b.arrays.draftTokenIds.getD (b.start i + k) 0 = x.draftTokenId :=
        loadToken (·.draftTokenId) 0 h hx
      have hargmax : b.arrays.targetArgmax.getD (b.start i + k) 0 = x.targetArgmax :=
        loadToken (·.targetArgmax.val) 0 h hx
      have hlen : ((acceptLoop r.positions r.bonusTokenId).take k).length = k := by
        rw [length_take, length_acceptLoop]
        omega
      have hstore := @storeRow_concat out (i * (m + 1))
        ((acceptLoop r.positions r.bonusTokenId).take k) x.targetArgmax
      rw [hlen] at hstore
      rw [if_neg (by simpa using hge), hdraft, hargmax, hstore, take_add_one,
        acceptLoop_getElem?, if_pos hge, hx]
      refine Prod.ext (decide_eq_decide.mpr ?_) rfl
      rw [Ne, ← lt_matchedLen hge hx]
      omega

theorem rejectionGreedySampleKernel_eq :
    rejectionGreedySampleKernel b.arrays m out i =
      if r.isGreedy then storeRow out (i * (m + 1)) (acceptLoop r.positions r.bonusTokenId)
      else out := by
  unfold rejectionGreedySampleKernel
  rw [isGreedyReq_eq h]
  cases hg : r.isGreedy with
  | false => rfl
  | true =>
    have hend : b.arrays.cuNumDraftTokens.getD i 0 - b.start i = r.positions.length := by
      rw [cuNumDraftTokens_getD (List.getElem?_eq_some_iff.mp h).1,
        GreedyBatch.start_succ h, Nat.add_sub_cancel_left]
    rw [if_neg Bool.noConfusion, if_pos rfl]
    dsimp only
    rw [kernelStart_eq h, hend, greedySample_loop h le_rfl, bonusTokenIds_req h]
    rcases lt_or_ge (matchedLen r.positions) r.positions.length with hlt | hge
    · rw [if_pos (decide_eq_true hlt), take_of_length_le]
      rw [length_acceptLoop]
      exact hlt
    · have heq : matchedLen r.positions = r.positions.length := le_antisymm matchedLen_le hge
      have hlen : (acceptLoop r.positions r.bonusTokenId).length = r.positions.length + 1 := by
        rw [length_acceptLoop, heq]
      have hstore := @storeRow_concat out (i * (m + 1))
        ((acceptLoop r.positions r.bonusTokenId).take r.positions.length) r.bonusTokenId
      rw [length_take, hlen, min_eq_left (Nat.le_succ _)] at hstore
      rw [if_neg (by simpa using hge), hstore]
      -- the last token is the bonus token
      have hlast := take_add_one (l := acceptLoop r.positions r.bonusTokenId)
        (i := r.positions.length)
      rw [acceptLoop_getElem?, if_pos heq.ge, getElem?_eq_none le_rfl,
        take_of_length_le hlen.le] at hlast
      exact congrArg _ hlast.symm

theorem outputRow_greedySampleLaunch (hm : b.maxSpecLen ≤ m) :
    outputRow (greedySampleLaunch b m out) m i = greedyRow out m i r := by
  refine @outputRow_launch i m out _ r b _ (·.isGreedy)
    (fun _ r => acceptLoop r.positions r.bonusTokenId) _
    (fun j r out hj => rejectionGreedySampleKernel_eq hj)
    (fun j hj out hnone => ?_) (fun j r hr => ?_) h le_rfl
  · exact absurd hj (not_lt.mpr (List.getElem?_eq_none_iff.mp hnone))
  · rw [length_acceptLoop]
    exact Nat.succ_le_succ (matchedLen_le.trans ((GreedyBatch.length_le_maxSpecLen hr).trans hm))

end

/-! ## The matrices -/

namespace GreedyPytorch

theorem start_tokenReqIds (hi : i ≤ b.length) :
    segmentStart (fun req => replicate (draftTokens b.arrays req) req)
      (range b.length) i = b.start i := by
  induction i with
  | zero => rfl
  | succ i ih =>
    have h := getElem?_eq_getElem (Nat.lt_of_succ_le hi)
    rw [segmentStart_succ (getElem?_range (Nat.lt_of_succ_le hi)), ih (Nat.le_of_succ_le hi),
      GreedyBatch.start_succ h, length_replicate, draftTokens_req h]

section

variable (h : b[i]? = some r)
include h

theorem tokenPlace_segment (hk : k < r.positions.length) :
    tokenPlace b.arrays b.length (b.start i + k) = (i, k) := by
  have hi := (List.getElem?_eq_some_iff.mp h).1
  have hrow : (replicate (draftTokens b.arrays i) i)[k]? = some i :=
    getElem?_replicate_of_lt (by rw [draftTokens_req h]; exact hk)
  have hreq : (tokenReqIds b.arrays b.length).getD (b.start i + k) 0 = i := by
    have hat := @getElem?_flatMap_segment _ _
      (fun req => replicate (draftTokens b.arrays req) req) _ _ _ _ _
      (getElem?_range hi) hrow
    rw [start_tokenReqIds hi.le] at hat
    unfold tokenReqIds
    rw [getD_eq_getElem?_getD, hat, Option.getD_some]
  unfold tokenPlace
  dsimp only
  rw [hreq, startIndices_req h, Nat.add_sub_cancel_left]

theorem scatter_apply {γ : Type} {matrix : Nat × Nat → γ} {values : Nat → γ} :
    scatter b.arrays b.length matrix values (i, k) =
      if k < r.positions.length then values (b.start i + k) else matrix (i, k) := by
  have hids : b.arrays.draftTokenIds.length = (b.flatMap (·.positions)).length :=
    length_map _
  -- the token that is written to a place is the one that stands there
  have hplace : ∀ token ∈ range b.arrays.draftTokenIds.length,
      tokenPlace b.arrays b.length token = (i, k) →
        k < r.positions.length ∧ token = b.start i + k := by
    intro token htoken heq
    have htoken := mem_range.mp htoken
    rw [hids] at htoken
    obtain ⟨j, r', pos, hj, hpos, rfl⟩ := exists_segment htoken
    have hij := (tokenPlace_segment hj hpos).symm.trans heq
    obtain ⟨rfl, rfl⟩ := Prod.mk.inj hij
    rw [h] at hj
    cases hj
    exact ⟨hpos, rfl⟩
  split_ifs with hk
  · refine foldl_update_apply (fun token htoken heq => ?_) (.inr ⟨b.start i + k, ?_, ?_⟩)
    · rw [(hplace token htoken heq).2]
    · rw [mem_range, hids]
      exact (List.getElem?_eq_some_iff.mp
        (getElem?_flatMap_segment h (getElem?_eq_getElem hk))).1
    · exact tokenPlace_segment h hk
  · exact foldl_update_apply_of_ne fun token htoken heq => hk (hplace token htoken heq).1

theorem mismatchPositions_eq : mismatchPositions b.arrays b.length m i k =
    if ∃ x ∈ r.positions[k]?, x.draftTokenId ≠ x.targetArgmax.val then (k : Int)
    else (m * 2 : Nat) := by
  unfold mismatchPositions mismatchMatrix posMatrix
  rw [scatter_apply h, scatter_apply h]
  cases hx : r.positions[k]? with
  | none =>
    rw [if_neg (not_lt.mpr (List.getElem?_eq_none_iff.mp hx)), if_neg Bool.false_ne_true,
      if_neg (by simp)]
  | some x =>
    have hlt := (List.getElem?_eq_some_iff.mp hx).1
    have hdraft : b.arrays.draftTokenIds.getD (b.start i + k) 0 = x.draftTokenId :=
      loadToken (·.draftTokenId) 0 h hx
    have hargmax : b.arrays.targetArgmax.getD (b.start i + k) 0 = x.targetArgmax :=
      loadToken (·.targetArgmax.val) 0 h hx
    rw [if_pos hlt, if_pos hlt, hdraft, hargmax, tokenPlace_segment h hlt]
    by_cases hmatch : x.draftTokenId = x.targetArgmax.val
    · rw [if_neg (by simpa using hmatch), if_neg (by simpa using hmatch)]
    · rw [if_pos (decide_eq_true hmatch), if_pos ⟨x, rfl, hmatch⟩]

theorem firstMismatchPos_eq (hm : b.maxSpecLen ≤ m) :
    firstMismatchPos b.arrays b.length m i = matchedLen r.positions := by
  have hlen := (GreedyBatch.length_le_maxSpecLen (mem_of_getElem? h)).trans hm
  have hle := @matchedLen_le _ r.positions
  unfold firstMismatchPos
  -- a column holds a mismatch, or the sentinel
  have hbefore : ∀ k < matchedLen r.positions,
      ¬ ∃ x ∈ r.positions[k]?, x.draftTokenId ≠ x.targetArgmax.val := by
    rintro k hk ⟨x, hx, hne⟩
    exact hne ((lt_matchedLen hk.le hx).mp hk)
  have hbehind : ∀ k ≥ r.positions.length,
      ¬ ∃ x ∈ r.positions[k]?, x.draftTokenId ≠ x.targetArgmax.val := by
    rintro k hk ⟨x, hx, -⟩
    exact absurd (List.getElem?_eq_some_iff.mp hx).1 (not_lt.mpr hk)
  have hfirst : matchedLen r.positions < r.positions.length →
      ∃ x ∈ r.positions[matchedLen r.positions]?, x.draftTokenId ≠ x.targetArgmax.val := by
    intro hlt
    have hx := getElem?_eq_getElem hlt
    exact ⟨_, hx, fun heq => absurd ((lt_matchedLen le_rfl hx).mpr heq) (lt_irrefl _)⟩
  rcases Nat.eq_zero_or_pos m with rfl | hpos
  · omega
  · have hmin : ((range m).map (mismatchPositions b.arrays b.length m i)).min? =
        some (if matchedLen r.positions < r.positions.length then (matchedLen r.positions : Int)
          else (m * 2 : Nat)) := by
      rw [min?_eq_some_iff]
      constructor
      · split_ifs with hlt
        · refine mem_map.mpr ⟨matchedLen r.positions, mem_range.mpr (by omega), ?_⟩
          rw [mismatchPositions_eq h, if_pos (hfirst hlt)]
        · refine mem_map.mpr ⟨0, mem_range.mpr hpos, ?_⟩
          rw [mismatchPositions_eq h, if_neg]
          rcases Nat.eq_zero_or_pos (matchedLen r.positions) with hzero | hpos
          · exact hbehind 0 (by omega)
          · exact hbefore 0 hpos
      · intro v hv
        obtain ⟨j, hj, rfl⟩ := mem_map.mp hv
        rw [mismatchPositions_eq h]
        by_cases hmismatch : ∃ x ∈ r.positions[j]?, x.draftTokenId ≠ x.targetArgmax.val
        · have hge := Nat.le_of_not_lt fun hlt => hbefore j hlt hmismatch
          have hlt := Nat.lt_of_not_le fun hle => hbehind j hle hmismatch
          omega
        · split_ifs <;> omega
    rw [hmin, Option.getD_some, draftTokens_req h]
    dsimp only
    split_ifs <;> omega

theorem outputTokenIds_row (hm : b.maxSpecLen ≤ m) :
    (range (m + 1)).map (outputTokenIds b.arrays b.length m out i) = greedyRow out m i r := by
  have hlen := (GreedyBatch.length_le_maxSpecLen (mem_of_getElem? h)).trans hm
  have hle := @matchedLen_le _ r.positions
  unfold greedyRow
  cases hg : r.isGreedy with
  | false =>
    refine map_congr_left fun j _ => ?_
    unfold outputTokenIds
    rw [isGreedyReq_eq h, hg]
    simp
  | true =>
    refine row_storeRow (by rw [length_acceptLoop]; omega) (fun j t ht => ?_) fun j hj _ => ?_
    all_goals
      unfold outputTokenIds
      rw [isGreedyReq_eq h, hg, firstMismatchPos_eq h hm, draftTokens_req h, startIndices_req h,
        bonusTokenIds_req h]
    · rw [acceptLoop_getElem?] at ht
      split_ifs at ht with hjle
      rw [← Option.some.inj ht]
      cases hx : r.positions[j]? with
      | none =>
        have hnone := List.getElem?_eq_none_iff.mp hx
        rw [if_pos ⟨⟨rfl, by omega⟩, by omega⟩]
        rfl
      | some x =>
        have hlt := (List.getElem?_eq_some_iff.mp hx).1
        have hargmax : b.arrays.targetArgmax.getD (b.start i + j) 0 = x.targetArgmax :=
          loadToken (·.targetArgmax.val) 0 h hx
        rw [if_neg (by omega), if_pos ⟨by omega, rfl⟩, hargmax]
        rfl
    · rw [length_acceptLoop] at hj
      rw [if_neg (by omega), if_neg (by omega)]

end

end GreedyPytorch

/-! ## One draft token each -/

theorem start_one (hone : ∀ r ∈ b, r.positions.length = 1) (hi : i ≤ b.length) : b.start i = i := by
  induction i with
  | zero => rfl
  | succ i ih =>
    have h := getElem?_eq_getElem (Nat.lt_of_succ_le hi)
    rw [GreedyBatch.start_succ h, ih (Nat.le_of_succ_le hi), hone _ (mem_of_getElem? h)]

theorem rejectionGreedySampleSpecLen1Pytorch_eq
    (hone : ∀ r ∈ b, r.positions.length = 1 ∧ r.isGreedy = true) :
    rejectionGreedySampleSpecLen1Pytorch b out =
      some ((range b.length).map fun i => (b[i]?.map (greedyRow out 1 i)).getD []) := by
  have hstart := fun {i} => @start_one _ i b fun r hr => (hone r hr).1
  have hids : b.arrays.draftTokenIds.length = b.length := by
    have hall : b.start b.length = b.tokens.length := by
      unfold GreedyBatch.start segmentStart
      rw [take_length]
      rfl
    exact (length_map _).trans (hall.symm.trans (hstart le_rfl))
  unfold rejectionGreedySampleSpecLen1Pytorch
  dsimp only
  rw [if_pos hids.symm]
  refine congrArg some (map_congr_left fun i hi => ?_)
  have hi := mem_range.mp hi
  have h := getElem?_eq_getElem hi
  obtain ⟨hlen, hg⟩ := hone _ (mem_of_getElem? h)
  generalize b[i] = r at h hlen hg
  obtain ⟨x, hx⟩ := length_eq_one_iff.mp hlen
  have hx0 : r.positions[0]? = some x := by rw [hx]; rfl
  have hdraft : b.arrays.draftTokenIds.getD (b.start i + 0) 0 = x.draftTokenId :=
    loadToken (·.draftTokenId) 0 h hx0
  have hargmax : b.arrays.targetArgmax.getD (b.start i + 0) 0 = x.targetArgmax :=
    loadToken (·.targetArgmax.val) 0 h hx0
  rw [hstart hi.le, add_zero] at hdraft hargmax
  rw [h, Option.map_some, Option.getD_some, hdraft, hargmax, bonusTokenIds_req h, greedyRow,
    if_pos hg, hx]
  unfold acceptLoop
  split_ifs with hmatch <;> rfl

/-! ## The verified rows -/

/-- The three implementations leave the rows of the accept loop: its tokens, then the old entries;
`parse_output` gives the tokens back from a buffer of placeholders. -/
structure GreedyVerified (b : GreedyBatch vocabSize) (maxSpecLen : Nat) : Prop where
  kernel : ∀ out i r, b[i]? = some r →
    outputRow (greedySampleLaunch b maxSpecLen out) maxSpecLen i = greedyRow out maxSpecLen i r
  pytorch : ∀ out i r, b[i]? = some r →
    (rejectionGreedySamplePytorch b maxSpecLen out)[i]? = some (greedyRow out maxSpecLen i r)
  specLen1 : (∀ r ∈ b, r.positions.length = 1 ∧ r.isGreedy = true) →
    ∀ out, ∃ rows, rejectionGreedySampleSpecLen1Pytorch b out = some rows ∧
      ∀ i r, b[i]? = some r → rows[i]? = some (greedyRow out 1 i r)
  placeholders : ∀ i, ∀ r ∈ b, r.isGreedy = true →
    greedyRow (fun _ => PLACEHOLDER_TOKEN_ID) maxSpecLen i r =
      (acceptLoop r.positions r.bonusTokenId).map Int.ofNat ++
        replicate (maxSpecLen - matchedLen r.positions) PLACEHOLDER_TOKEN_ID
  parsed : ∀ i, ∀ r ∈ b, r.isGreedy = true →
    parseOutput (greedyRow (fun _ => PLACEHOLDER_TOKEN_ID) maxSpecLen i r) vocabSize =
      (acceptLoop r.positions r.bonusTokenId).map Int.ofNat

theorem acceptLoop_lt (ht : t ∈ acceptLoop l bonusTokenId) : t < vocabSize := by
  obtain ⟨j, hj⟩ := mem_iff_getElem?.mp ht
  rw [acceptLoop_getElem?] at hj
  split_ifs at hj
  rw [← Option.some.inj hj]
  cases l[j]? with
  | none => exact bonusTokenId.isLt
  | some x => exact x.targetArgmax.isLt

theorem greedyRow_placeholders (hg : r.isGreedy = true) :
    greedyRow (fun _ => PLACEHOLDER_TOKEN_ID) m i r =
      (acceptLoop r.positions r.bonusTokenId).map Int.ofNat ++
        replicate (m - matchedLen r.positions) PLACEHOLDER_TOKEN_ID := by
  have hrow : outputRow (fun _ => PLACEHOLDER_TOKEN_ID) m i =
      replicate (m + 1) PLACEHOLDER_TOKEN_ID := by
    unfold outputRow
    rw [map_const', length_range]
  unfold greedyRow
  rw [if_pos hg]
  dsimp only
  rw [hrow, drop_replicate, length_acceptLoop, Nat.add_sub_add_right]

/-- **Greedy verification**: every batch, with every width of the rows that has room for the drafts,
is verified. -/
theorem greedyVerified (b : GreedyBatch vocabSize) (extra : Nat) :
    GreedyVerified b (b.maxSpecLen + extra) where
  kernel := fun _ _ _ h => outputRow_greedySampleLaunch h (Nat.le_add_right _ _)
  pytorch := by
    intro out i r h
    unfold rejectionGreedySamplePytorch
    rw [getElem?_map, getElem?_range (List.getElem?_eq_some_iff.mp h).1, Option.map_some,
      GreedyPytorch.outputTokenIds_row h (Nat.le_add_right _ _)]
  specLen1 := by
    intro hone out
    refine ⟨_, rejectionGreedySampleSpecLen1Pytorch_eq hone, fun i r h => ?_⟩
    rw [getElem?_map, getElem?_range (List.getElem?_eq_some_iff.mp h).1, Option.map_some,
      h]
    rfl
  placeholders := fun _ _ _ hg => greedyRow_placeholders hg
  parsed := by
    intro i r _ hg
    have htoks : ∀ t ∈ (acceptLoop r.positions r.bonusTokenId).map Int.ofNat,
        decide (t ≠ PLACEHOLDER_TOKEN_ID ∧ t < vocabSize) = true := by
      intro _ ht
      obtain ⟨t, hmem, rfl⟩ := mem_map.mp ht
      have hlt := acceptLoop_lt hmem
      refine decide_eq_true ⟨?_, Int.ofNat_lt.mpr hlt⟩
      exact Int.noConfusion
    unfold parseOutput
    rw [greedyRow_placeholders hg, filter_append, filter_eq_self.mpr htoks,
      filter_replicate, if_neg (by simp), append_nil]

end Rows

end MyOperator.Sampling
