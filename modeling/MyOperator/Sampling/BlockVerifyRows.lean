import MyOperator.Sampling.BlockVerify

/-!
# The rows of block verification

Both implementations leave the row of a request that accepts up to the last position
within its threshold. They differ in the threshold: the residual mass of a position
is taken from the rows of the next position in one and from its own rows in the
other, which also clamps the draft probability.
-/

namespace MyOperator.Sampling

open List Function

variable {K : Type*} [Field K] [LinearOrder K]

/-! ## Thresholds -/

/-- The target probability of the draft token over its draft probability. -/
def Position.ratio (x : Position K) (noDraftProbs : Bool) (clampMin : K) : K :=
  if 0 < x.draftProb noDraftProbs then
    x.targetProbs x.draftTokenId / max (x.draftProb noDraftProbs) clampMin
  else 0

/-- The probability of the prefix of a length. -/
def prefixProb (noDraftProbs : Bool) (clampMin : K) (xs : List (Position K)) : Nat → K
  | 0 => 1
  | k + 1 => min (prefixProb noDraftProbs clampMin xs k *
      (xs[k]?.map fun x => x.ratio noDraftProbs clampMin).getD 0) 1

/-- The residual mass behind a prefix, from the rows of a position. -/
def Position.residualMass (x : Position K) (noDraftProbs : Bool) (vocabSize : Nat) (p : K) : K :=
  if noDraftProbs then p * (1 - x.targetProbs x.draftTokenId)
  else ((range vocabSize).map fun v => max (p * x.targetProbs v - x.draftProbs v) 0).sum

/-- The threshold of the position `k`, with the residual mass from the rows of the position
`k + shift`. -/
def threshold (noDraftProbs : Bool) (clampMin : K) (shift vocabSize : Nat)
    (xs : List (Position K)) (k : Nat) : K :=
  let p := prefixProb noDraftProbs clampMin xs (k + 1)
  if k + 1 = xs.length then p
  else
    let residualMass := (xs[k + shift]?.map fun x => x.residualMass noDraftProbs vocabSize p).getD 0
    if 0 < residualMass + (1 - p) then residualMass / (residualMass + (1 - p)) else 0

/-- The uniform number of the position `k` is at most its threshold. -/
def Within (noDraftProbs : Bool) (clampMin : K) (shift vocabSize : Nat) (xs : List (Position K))
    (k : Nat) : Prop :=
  ∃ x ∈ xs[k]?, x.uniformProb ≤ threshold noDraftProbs clampMin shift vocabSize xs k

instance (noDraftProbs : Bool) (clampMin : K) (shift vocabSize : Nat) (xs : List (Position K)) :
    DecidablePred (Within noDraftProbs clampMin shift vocabSize xs) := fun k =>
  match h : xs[k]? with
  | none => isFalse fun ⟨x, hx, _⟩ => by
      rw [h] at hx
      cases hx
  | some x => decidable_of_iff
      (x.uniformProb ≤ threshold noDraftProbs clampMin shift vocabSize xs k)
      ⟨fun hle => ⟨x, h, hle⟩, fun ⟨y, hy, hle⟩ => by
        rw [h] at hy
        cases hy
        exact hle⟩

/-- The number of positions up to the last one below `n` with the property. -/
def lastAccepted (P : Nat → Prop) [DecidablePred P] : Nat → Nat
  | 0 => 0
  | n + 1 => if P n then n + 1 else lastAccepted P n

section

variable {P Q : Nat → Prop} [DecidablePred P] [DecidablePred Q] {n m k : Nat}

theorem lastAccepted_le : lastAccepted P n ≤ n := by
  induction n with
  | zero => exact le_refl 0
  | succ n ih =>
    rw [lastAccepted]
    split_ifs
    · exact le_rfl
    · exact Nat.le_succ_of_le ih

theorem lastAccepted_eq_iff : lastAccepted P n = m ↔
    m ≤ n ∧ (∀ k, m = k + 1 → P k) ∧ ∀ k, m ≤ k → k < n → ¬ P k := by
  induction n with
  | zero =>
    constructor
    · rintro rfl
      exact ⟨le_refl 0, fun k h => (nomatch h), fun k _ h => absurd h (Nat.not_lt_zero k)⟩
    · intro h
      exact (Nat.le_zero.mp h.1).symm
  | succ n ih =>
    rw [lastAccepted]
    split_ifs with hP
    · constructor
      · rintro rfl
        refine ⟨le_rfl, fun k h => ?_, fun k h h' => absurd h' (not_lt.mpr h)⟩
        rw [← Nat.succ_inj.mp h]
        exact hP
      · rintro ⟨hle, _, hnone⟩
        by_contra hne
        exact hnone n (Nat.le_of_lt_succ (lt_of_le_of_ne hle (Ne.symm hne)))
          (Nat.lt_succ_self n) hP
    · rw [ih]
      constructor
      · rintro ⟨hle, hlast, hnone⟩
        refine ⟨Nat.le_succ_of_le hle, hlast, fun k h h' => ?_⟩
        rcases lt_or_eq_of_le (Nat.le_of_lt_succ h') with h' | rfl
        · exact hnone k h h'
        · exact hP
      · rintro ⟨hle, hlast, hnone⟩
        refine ⟨?_, hlast, fun k h h' => hnone k h (Nat.lt_succ_of_lt h')⟩
        by_contra hgt
        have hm : m = n + 1 := by omega
        exact hP (hlast n hm)

/-- Two properties have the same last position if and only if the last position with either of them
has both. -/
theorem lastAccepted_eq_lastAccepted_iff : lastAccepted P n = lastAccepted Q n ↔
    ∀ k < n, P k ∨ Q k → (∀ j, k < j → j < n → ¬ (P j ∨ Q j)) → P k ∧ Q k := by
  obtain ⟨hle, hlast, hnone⟩ := lastAccepted_eq_iff.mp (rfl : lastAccepted P n = lastAccepted P n)
  obtain ⟨hle', hlast', hnone'⟩ :=
    lastAccepted_eq_iff.mp (rfl : lastAccepted Q n = lastAccepted Q n)
  constructor
  · intro heq k hk hor _
    have hlt : k < lastAccepted P n := by
      by_contra hge
      rcases hor with hP | hQ
      · exact hnone k (Nat.le_of_not_lt hge) hk hP
      · exact hnone' k (heq ▸ Nat.le_of_not_lt hge) hk hQ
    by_cases hk' : lastAccepted P n = k + 1
    · exact ⟨hlast k hk', hlast' k (heq ▸ hk')⟩
    · -- there is one behind `k`
      obtain ⟨j, hj⟩ : ∃ j, lastAccepted P n = j + 1 :=
        ⟨lastAccepted P n - 1, by omega⟩
      exact absurd (.inl (hlast j hj)) (‹∀ j, k < j → j < n → ¬ (P j ∨ Q j)› j (by omega) (by omega))
  · intro h
    rcases lt_trichotomy (lastAccepted P n) (lastAccepted Q n) with hlt | heq | hlt
    · obtain ⟨j, hj⟩ : ∃ j, lastAccepted Q n = j + 1 := ⟨lastAccepted Q n - 1, by omega⟩
      have hboth := h j (by omega) (.inr (hlast' j hj)) fun i hi hin hor => by
        rcases hor with hP | hQ
        · exact hnone i (by omega) hin hP
        · exact hnone' i (by omega) hin hQ
      exact absurd hboth.1 (hnone j (by omega) (by omega))
    · exact heq
    · obtain ⟨j, hj⟩ : ∃ j, lastAccepted P n = j + 1 := ⟨lastAccepted P n - 1, by omega⟩
      have hboth := h j (by omega) (.inl (hlast j hj)) fun i hi hin hor => by
        rcases hor with hP | hQ
        · exact hnone i (by omega) hin hP
        · exact hnone' i (by omega) hin hQ
      exact absurd hboth.2 (hnone' j (by omega) (by omega))

theorem foldr_max_eq_lastAccepted (h : ∀ k, P k → k < n) (hn : n ≤ m) :
    ((range m).map fun i => if P i then i + 1 else 0).foldr max 0 = lastAccepted P n := by
  have hmax : ∀ l : List Nat, ∀ b, l.foldr max b = max (l.foldr max 0) b := by
    intro l b
    induction l with
    | nil => simp
    | cons x l ih => rw [foldr_cons, foldr_cons, ih, max_assoc]
  have hall : ((range m).map fun i => if P i then i + 1 else 0).foldr max 0 =
      lastAccepted P m := by
    clear hn
    induction m with
    | zero => rfl
    | succ m ih =>
      rw [range_succ, map_append, foldr_append, hmax, lastAccepted]
      have := lastAccepted_le (P := P) (n := m)
      split_ifs with hP
      · show max _ (max (if P m then m + 1 else 0) 0) = _
        rw [if_pos hP]
        omega
      · show max _ (max (if P m then m + 1 else 0) 0) = _
        rw [if_neg hP]
        omega
  rw [hall]
  obtain ⟨hle, hlast, hnone⟩ := lastAccepted_eq_iff.mp (rfl : lastAccepted P n = lastAccepted P n)
  rw [lastAccepted_eq_iff]
  refine ⟨hle.trans hn, hlast, fun k hk _ hP => hnone k hk (h k hP) hP⟩

end

/-! ## The kernel -/

section

variable {a : Arrays K} {noDraftProbs : Bool} {i m vocabSize : Nat} {r : Request K}
  {out : Nat → Int}

theorem storeRow_loop {f : Nat → Nat} {base k : Nat} :
    (range k).foldl (fun out pos => update out (base + pos) (f pos : Int)) out =
      storeRow out base ((range k).map f) := by
  induction k with
  | zero => exact storeRow_nil.symm
  | succ k ih =>
    have hupd := @storeRow_concat out base ((range k).map f) (f k)
    rw [length_map, length_range] at hupd
    rw [range_succ, foldl_append, ih, map_append]
    exact hupd

omit [LinearOrder K] in
theorem sum_tiles {g : Nat → K} {S T V : Nat} (hcover : V ≤ T * S) (hmask : ∀ v, V ≤ v → g v = 0) :
    (range T).foldl (fun acc t => acc + ((range S).map fun lane => g (t * S + lane)).sum)
      0 = ((range V).map g).sum := by
  have hflat : ∀ T, (range T).foldl
      (fun acc t => acc + ((range S).map fun lane => g (t * S + lane)).sum) 0 =
      ((range (T * S)).map g).sum := by
    intro T
    induction T with
    | zero => simp
    | succ T ih =>
      rw [range_succ, foldl_append, ih, Nat.succ_mul, range_add, map_append,
        sum_append, map_map]
      rfl
  obtain ⟨e, he⟩ := Nat.exists_eq_add_of_le hcover
  have hzero : (range e).map (g ∘ (V + ·)) = (range e).map fun _ => 0 :=
    map_congr_left fun v _ => hmask _ (Nat.le_add_right _ _)
  rw [hflat, he, range_add, map_append, sum_append, map_map, hzero,
    map_const', sum_replicate, nsmul_zero, add_zero]

theorem kernelResidualMass_eq (h : Reads a noDraftProbs i r) {k : Nat} {x : Position K}
    (hx : r.positions[k]? = some x) (p : K) :
    kernelResidualMass a p vocabSize (4 * 1024) (a.startIdx i + k) =
      x.residualMass noDraftProbs vocabSize p := by
  have hrow := h.draftProbs k x (fun _ => 0) hx
  unfold kernelResidualMass Position.residualMass
  rw [h.targetProbs k x _ hx, h.draftTokenId k x 0 hx]
  cases hd : a.draftProbs with
  | none =>
    rw [hd] at hrow
    cases noDraftProbs with
    | true => rfl
    | false => cases hrow
  | some rows =>
    rw [hd] at hrow
    cases noDraftProbs with
    | true => cases hrow
    | false =>
      have hrow : rows.getD (a.startIdx i + k) (fun _ => 0) = x.draftProbs :=
        Option.some.inj hrow
      dsimp only
      rw [hrow]
      have hcover : vocabSize ≤ (vocabSize + 4 * 1024 - 1) / (4 * 1024) * (4 * 1024) := by
        omega
      refine (sum_tiles (g := fun v => max (p * (if v < vocabSize then x.targetProbs v else 0) -
        (if v < vocabSize then x.draftProbs v else 0)) 0) hcover fun v hv => ?_).trans ?_
      · rw [if_neg (not_lt.mpr hv), if_neg (not_lt.mpr hv), mul_zero, sub_zero,
          max_self]
      · refine congrArg List.sum (map_congr_left fun v hv => ?_)
        rw [if_pos (mem_range.mp hv), if_pos (mem_range.mp hv)]

variable [IsStrictOrderedRing K]

theorem blockVerify_loop (h : Reads a noDraftProbs i r) {k : Nat} (hk : k ≤ r.positions.length) :
    (range k).foldl (blockVerifyStep a vocabSize (4 * 1024) (a.startIdx i)
      r.positions.length) (0, 1) =
      (lastAccepted (Within noDraftProbs 0 1 vocabSize r.positions) k,
        prefixProb noDraftProbs 0 r.positions k) := by
  induction k with
  | zero => rfl
  | succ k ih =>
    obtain ⟨x, hx⟩ : ∃ x, r.positions[k]? = some x := ⟨_, getElem?_eq_getElem hk⟩
    rw [range_succ, foldl_append, ih (le_of_lt hk), foldl_cons,
      foldl_nil]
    have hbefore : (if 0 < x.draftProb noDraftProbs then
        min (prefixProb noDraftProbs 0 r.positions k * x.targetProbs x.draftTokenId /
          x.draftProb noDraftProbs) 1 else 0) =
        prefixProb noDraftProbs 0 r.positions (k + 1) := by
      rw [prefixProb, hx, Option.map_some, Option.getD_some, Position.ratio]
      split_ifs with hpos
      · rw [max_eq_left hpos.le, mul_div_assoc]
      · rw [mul_zero, min_eq_left zero_le_one]
    unfold blockVerifyStep
    dsimp only
    rw [h.draftTokenId k x 0 hx, h.targetProbs k x _ hx, h.draftProb_eq hx, hbefore,
      h.uniformProb k x 0 hx, lastAccepted]
    refine congrArg (·, _) (if_congr ?_ rfl rfl)
    -- the threshold
    have hthreshold : (if k = r.positions.length - 1 then
        prefixProb noDraftProbs 0 r.positions (k + 1)
      else if 0 < kernelResidualMass a (prefixProb noDraftProbs 0 r.positions (k + 1)) vocabSize
          (4 * 1024) (a.startIdx i + k + 1) + 1 - prefixProb noDraftProbs 0 r.positions (k + 1) then
        kernelResidualMass a (prefixProb noDraftProbs 0 r.positions (k + 1)) vocabSize
          (4 * 1024) (a.startIdx i + k + 1) /
        (kernelResidualMass a (prefixProb noDraftProbs 0 r.positions (k + 1)) vocabSize
          (4 * 1024) (a.startIdx i + k + 1) + 1 - prefixProb noDraftProbs 0 r.positions (k + 1))
      else 0) = threshold noDraftProbs 0 1 vocabSize r.positions k := by
      unfold threshold
      by_cases hlast : k + 1 = r.positions.length
      · rw [if_pos hlast, if_pos (by omega)]
      · obtain ⟨y, hy⟩ : ∃ y, r.positions[k + 1]? = some y :=
          ⟨_, getElem?_eq_getElem (lt_of_le_of_ne hk hlast)⟩
        rw [if_neg hlast, if_neg (by omega), hy, Option.map_some, Option.getD_some,
          add_assoc, kernelResidualMass_eq h hy, add_sub_assoc]
    rw [hthreshold]
    refine ⟨fun hle => ⟨x, hx, hle⟩, fun ⟨y, hy, hle⟩ => ?_⟩
    rw [hx] at hy
    cases hy
    exact hle

omit [Field K] [LinearOrder K] [IsStrictOrderedRing K] in
theorem store_emitted (h : Reads a noDraftProbs i r) {n base : Nat} (hn : n ≤ r.positions.length) :
    (if n = r.positions.length then
      update (storeRow out base ((range n).map fun pos =>
        a.draftTokenIds.getD (a.startIdx i + pos) 0)) (base + r.positions.length)
        (a.bonusTokenIds.getD i 0 : Int)
    else
      update (storeRow out base ((range n).map fun pos =>
        a.draftTokenIds.getD (a.startIdx i + pos) 0)) (base + n)
        (a.recoveredTokenIds.getD (a.startIdx i + n) 0 : Int)) = storeRow out base (r.emitted n) := by
  have hstored : ((range n).map fun pos => a.draftTokenIds.getD (a.startIdx i + pos) 0) =
      (r.positions.take n).map (·.draftTokenId) := by
    refine ext_getElem? fun k => ?_
    rw [getElem?_map, getElem?_map, getElem?_take]
    rcases lt_or_ge k n with hk | hk
    · obtain ⟨x, hx⟩ : ∃ x, r.positions[k]? = some x :=
        ⟨_, getElem?_eq_getElem (hk.trans_le hn)⟩
      rw [getElem?_range hk, if_pos hk, hx]
      exact congrArg some (h.draftTokenId k x 0 hx)
    · rw [if_neg (not_lt.mpr hk), getElem?_eq_none (by rw [length_range]; exact hk)]
      rfl
  have hlen : ((r.positions.take n).map (·.draftTokenId)).length = n := by
    rw [length_map, length_take, min_eq_left hn]
  have hupd := fun t => @storeRow_concat out base ((r.positions.take n).map (·.draftTokenId)) t
  rw [hlen] at hupd
  rw [hstored, h.bonusTokenId]
  unfold Request.emitted
  split_ifs with hall
  · rw [← hall, hupd, getElem?_eq_none (by rw [hall])]
    rfl
  · obtain ⟨x, hx⟩ : ∃ x, r.positions[n]? = some x :=
      ⟨_, getElem?_eq_getElem (lt_of_le_of_ne hn hall)⟩
    rw [h.recoveredTokenId n x 0 hx, hupd, hx]
    rfl

theorem blockVerifyRequest_eq (h : Reads a noDraftProbs i r) :
    blockVerifyRequest a m vocabSize (4 * 1024) out i = storeRow out (i * (m + 1))
      (r.emitted (lastAccepted (Within noDraftProbs 0 1 vocabSize r.positions)
        r.positions.length)) := by
  have hle := lastAccepted_le (P := Within noDraftProbs 0 1 vocabSize r.positions)
    (n := r.positions.length)
  unfold blockVerifyRequest
  dsimp only
  rw [h.numDraftTokens]
  by_cases hzero : r.positions.length = 0
  · rw [if_pos hzero, ← store_emitted h hle, if_pos (by omega), hzero]
    have hnone : lastAccepted (Within noDraftProbs 0 1 vocabSize r.positions) 0 = 0 := rfl
    rw [hnone, range_zero, map_nil, storeRow_nil]
    rfl
  · rw [if_neg hzero, blockVerify_loop h le_rfl]
    rw [storeRow_loop]
    exact store_emitted h hle

/-! ## The launch -/

omit [Field K] [LinearOrder K] [IsStrictOrderedRing K] in
theorem foldl_blocks {f : (Nat → Int) → Nat → Nat → Int} {B G : Nat} :
    (range G).foldl (fun out blockIdx =>
      (range B).foldl (fun out reqI => f out (blockIdx * B + reqI)) out) out =
      (range (G * B)).foldl f out := by
  induction G with
  | zero => simp
  | succ G ih =>
    have hmul : (G + 1) * B = G * B + B := Nat.succ_mul G B
    rw [range_succ, foldl_append, ih, hmul, range_add, foldl_append,
      foldl_map]
    rfl

omit [Field K] [LinearOrder K] [IsStrictOrderedRing K] in
theorem calGridAndBlockSize_covers (vectorcoreNum : PNat) (batchSize : Nat) :
    batchSize ≤ (calGridAndBlockSize vectorcoreNum batchSize).1 *
      (calGridAndBlockSize vectorcoreNum batchSize).2 := by
  unfold calGridAndBlockSize
  have hpos := vectorcoreNum.pos
  split_ifs with h
  · exact le_of_eq (mul_one _).symm
  · have hcdiv : batchSize ≤ vectorcoreNum.val *
        ((batchSize + vectorcoreNum.val - 1) / vectorcoreNum.val) := by
      have hmod := Nat.div_add_mod (batchSize + vectorcoreNum.val - 1) vectorcoreNum.val
      have hlt := Nat.mod_lt (batchSize + vectorcoreNum.val - 1) hpos
      have hpos' : 0 < vectorcoreNum.val := hpos
      omega
    exact hcdiv.trans (Nat.mul_le_mul_left _ (Nat.le_pow_clog Nat.one_lt_two _))

omit [Field K] [LinearOrder K] [IsStrictOrderedRing K] in
/-- The row of a request after a launch in blocks, in which the pass for a request that is not greedy
emits the first `n r` drafts. -/
theorem outputRow_blockLaunch {b : Batch K} {f : (Nat → Int) → Nat → Nat → Int}
    {n : Request K → Nat} (vectorcoreNum : PNat) (hn : ∀ r, n r ≤ r.positions.length)
    (hf : ∀ (j : Nat) (r : Request K) (out : Nat → Int), Reads (b.arrays noDraftProbs) noDraftProbs j r →
      r.isGreedy = false → f out j = storeRow out (j * (m + 1)) (r.emitted (n r)))
    (h : b[i]? = some r) (hm : b.maxSpecLen ≤ m) :
    outputRow ((range (calGridAndBlockSize vectorcoreNum b.length).1).foldl (fun out blockIdx =>
        (range (calGridAndBlockSize vectorcoreNum b.length).2).foldl (fun out reqI =>
          if blockIdx * (calGridAndBlockSize vectorcoreNum b.length).2 + reqI < b.length ∧
              (b.arrays noDraftProbs).isGreedy.getD
                (blockIdx * (calGridAndBlockSize vectorcoreNum b.length).2 + reqI) true = false then
            f out (blockIdx * (calGridAndBlockSize vectorcoreNum b.length).2 + reqI)
          else out) out) out) m i =
      if r.isGreedy then outputRow out m i else
        (r.emitted (n r)).map Int.ofNat ++ (outputRow out m i).drop (n r + 1) := by
  have hpass : ∀ (j : Nat) (r : Request K) (out : Nat → Int), b[j]? = some r →
      (if j < b.length ∧ (b.arrays noDraftProbs).isGreedy.getD j true = false then f out j else out) =
      if !r.isGreedy then storeRow out (j * (m + 1)) (r.emitted (n r)) else out := by
    intro j r out hj
    have hreads := @Batch.reads _ _ noDraftProbs _ _ hj
    rw [hreads.isGreedy]
    cases hg : r.isGreedy with
    | true => rw [if_neg (by simp)]; rfl
    | false =>
      rw [if_pos ⟨(List.getElem?_eq_some_iff.mp hj).1, rfl⟩, hf j r out hreads hg]
      rfl
  have hlen : ∀ r : Request K, (r.emitted (n r)).length = n r + 1 :=
    fun r => Request.length_emitted (hn r)
  rw [foldl_blocks (f := fun out j =>
    if j < b.length ∧ (b.arrays noDraftProbs).isGreedy.getD j true = false then f out j else out)]
  have hrow := @outputRow_launch i m out _ r b _ (fun r => !r.isGreedy) _ _ hpass
    (fun j _ out hj => ?_) (fun j r hr => ?_) h (calGridAndBlockSize_covers vectorcoreNum b.length)
  · rw [hlen] at hrow
    rw [hrow]
    cases r.isGreedy <;> rfl
  · exact if_neg fun hand => absurd hand.1 (not_lt.mpr (List.getElem?_eq_none_iff.mp hj))
  · rw [hlen]
    exact Nat.succ_le_succ ((hn r).trans ((Batch.length_le_maxSpecLen hr).trans hm))

theorem outputRow_blockVerifyLaunch {b : Batch K} (vectorcoreNum : PNat) (h : b[i]? = some r)
    (hm : b.maxSpecLen ≤ m) :
    outputRow (blockVerifyLaunch b noDraftProbs vectorcoreNum m vocabSize out) m i =
      if r.isGreedy then outputRow out m i else
        (r.emitted (lastAccepted (Within noDraftProbs 0 1 vocabSize r.positions)
          r.positions.length)).map Int.ofNat ++ (outputRow out m i).drop
        (lastAccepted (Within noDraftProbs 0 1 vocabSize r.positions) r.positions.length + 1) :=
  outputRow_blockLaunch (n := fun r =>
      lastAccepted (Within noDraftProbs 0 1 vocabSize r.positions) r.positions.length)
    vectorcoreNum (fun _ => lastAccepted_le) (fun _ _ _ hreads _ => blockVerifyRequest_eq hreads) h hm

end

/-! ## The implementation on tensors -/

namespace BlockVerifyPytorch

variable {b : Batch K} {noDraftProbs : Bool} {i k m vocabSize : Nat} {r : Request K}
  {x : Position K} {out : Nat → Int}

omit [Field K] [LinearOrder K] in
theorem globalTokenIndices_eq (h : b[i]? = some r) (hx : r.positions[k]? = some x) :
    globalTokenIndices (b.arrays noDraftProbs) i k = (b.arrays noDraftProbs).startIdx i + k := by
  have hlt := (List.getElem?_eq_some_iff.mp (Batch.tokens_getElem? h hx)).1
  unfold globalTokenIndices
  have hlen : (b.arrays noDraftProbs).draftTokenIds.length = b.tokens.length := length_map _
  rw [← @startIdx_arrays _ _ noDraftProbs _ _ h] at hlt
  rw [hlen, ← Nat.add_assoc, Nat.add_sub_cancel]
  exact Nat.min_eq_left (by omega)

omit [Field K] [LinearOrder K] in
theorem numDraftPerBatch_eq (h : b[i]? = some r) :
    numDraftPerBatch (b.arrays noDraftProbs) i = r.positions.length := endIdx_sub_startIdx h

omit [Field K] [LinearOrder K] in
theorem validMask_iff (h : b[i]? = some r) :
    validMask (b.arrays noDraftProbs) i k ↔ k < r.positions.length := by
  unfold validMask
  rw [numDraftPerBatch_eq h]
  exact Iff.rfl

omit [Field K] [LinearOrder K] in
theorem intermediateMask_iff (h : b[i]? = some r) :
    intermediateMask (b.arrays noDraftProbs) i k ↔ k + 1 < r.positions.length := by
  unfold intermediateMask
  rw [numDraftPerBatch_eq h]

omit [Field K] [LinearOrder K] in
theorem draftTokens_eq (h : b[i]? = some r) (hx : r.positions[k]? = some x) :
    draftTokens (b.arrays noDraftProbs) i k = x.draftTokenId := by
  unfold draftTokens
  rw [globalTokenIndices_eq h hx]
  exact (Batch.reads h).draftTokenId k x 0 hx

section

variable (h : b[i]? = some r)
include h

omit [LinearOrder K] in
theorem targetTokenProbs_eq (hx : r.positions[k]? = some x) :
    targetTokenProbs (b.arrays noDraftProbs) i k = x.targetProbs x.draftTokenId := by
  unfold targetTokenProbs
  rw [draftTokens_eq h hx, globalTokenIndices_eq h hx]
  exact congrFun ((Batch.reads h).targetProbs k x _ hx) _

theorem ratio_eq (hx : r.positions[k]? = some x) :
    ratio (b.arrays noDraftProbs) i k = x.ratio noDraftProbs (1 / 10 ^ 10) := by
  unfold ratio draftTokenProbs
  rw [targetTokenProbs_eq h hx, draftTokens_eq h hx, globalTokenIndices_eq h hx,
    (Batch.reads h).draftProb_eq hx]
  rfl

theorem pPrefix_eq (hk : k ≤ r.positions.length) :
    pPrefix (b.arrays noDraftProbs) i k =
      prefixProb noDraftProbs (1 / 10 ^ 10) r.positions k := by
  induction k with
  | zero => rfl
  | succ k ih =>
    obtain ⟨x, hx⟩ : ∃ x, r.positions[k]? = some x := ⟨_, getElem?_eq_getElem hk⟩
    rw [pPrefix, prefixProb, ih (le_of_lt hk), ratio_eq h hx, hx]
    rfl

theorem residualMass_eq (hx : r.positions[k]? = some x) :
    residualMass (b.arrays noDraftProbs) vocabSize i k = x.residualMass noDraftProbs vocabSize
      (prefixProb noDraftProbs (1 / 10 ^ 10) r.positions (k + 1)) := by
  have hreads := @Batch.reads _ _ noDraftProbs _ _ h
  have hbefore : pGrid (b.arrays noDraftProbs) i k =
      prefixProb noDraftProbs (1 / 10 ^ 10) r.positions (k + 1) :=
    pPrefix_eq h (List.getElem?_eq_some_iff.mp hx).1
  have hrow := hreads.draftProbs k x (fun _ => 0) hx
  unfold residualMass Position.residualMass
  rw [hbefore, targetTokenProbs_eq h hx, globalTokenIndices_eq h hx,
    hreads.targetProbs k x _ hx]
  cases hd : (b.arrays noDraftProbs).draftProbs with
  | none =>
    rw [hd] at hrow
    cases noDraftProbs with
    | true => rfl
    | false => cases hrow
  | some rows =>
    rw [hd] at hrow
    cases noDraftProbs with
    | true => cases hrow
    | false =>
      have hrow : rows.getD ((b.arrays false).startIdx i + k) (fun _ => 0) = x.draftProbs :=
        Option.some.inj hrow
      dsimp only
      rw [if_neg Bool.false_ne_true, hrow]

theorem hBlock_eq (hm : b.maxSpecLen ≤ m) (hx : r.positions[k]? = some x) :
    hBlock (b.arrays noDraftProbs) m vocabSize i k =
      threshold noDraftProbs (1 / 10 ^ 10) 0 vocabSize r.positions k := by
  have hk := (List.getElem?_eq_some_iff.mp hx).1
  have hlen := (Batch.length_le_maxSpecLen (mem_of_getElem? h)).trans hm
  unfold hBlock threshold pGrid
  rw [numDraftPerBatch_eq h, min_eq_left hlen]
  by_cases hlast : k + 1 = r.positions.length
  · rw [if_pos (by omega), if_pos hlast, pPrefix_eq h le_rfl, hlast]
  · rw [if_neg (by omega), if_neg hlast,
      if_pos ((intermediateMask_iff h).mpr (by omega)), residualMass_eq h hx,
      pPrefix_eq h hk, show r.positions[k + 0]? = some x from hx]
    rfl

section

variable (hg : r.isGreedy = false) (hm : b.maxSpecLen ≤ m)
include hg hm

theorem acceptedMask_iff :
    acceptedMask (b.arrays noDraftProbs) m vocabSize i k ↔
      Within noDraftProbs (1 / 10 ^ 10) 0 vocabSize r.positions k := by
  have hreads := @Batch.reads _ _ noDraftProbs _ _ h
  unfold acceptedMask
  rw [validMask_iff h, hreads.isGreedy, hg]
  constructor
  · rintro ⟨hk, hle, _⟩
    obtain ⟨x, hx⟩ : ∃ x, r.positions[k]? = some x := ⟨_, getElem?_eq_getElem hk⟩
    rw [globalTokenIndices_eq h hx, hBlock_eq h hm hx, hreads.uniformProb k x 0 hx] at hle
    exact ⟨x, hx, hle⟩
  · rintro ⟨x, hx, hle⟩
    refine ⟨(List.getElem?_eq_some_iff.mp hx).1, ?_, rfl⟩
    rw [globalTokenIndices_eq h hx, hBlock_eq h hm hx, hreads.uniformProb k x 0 hx]
    exact hle

theorem lastAcceptI_eq :
    lastAcceptI (b.arrays noDraftProbs) m vocabSize i =
      lastAccepted (Within noDraftProbs (1 / 10 ^ 10) 0 vocabSize r.positions)
        r.positions.length := by
  rw [← foldr_max_eq_lastAccepted (m := m)]
  · refine congrArg (List.foldr max 0) (map_congr_left fun k _ => ?_)
    exact if_congr (acceptedMask_iff h hg hm) rfl rfl
  · rintro k ⟨x, hx, _⟩
    exact (List.getElem?_eq_some_iff.mp hx).1
  · exact (Batch.length_le_maxSpecLen (mem_of_getElem? h)).trans hm

theorem outputTokenIds_eq :
    (range (m + 1)).map (outputTokenIds (b.arrays noDraftProbs) m vocabSize out i) =
      (r.emitted (lastAccepted (Within noDraftProbs (1 / 10 ^ 10) 0 vocabSize r.positions)
        r.positions.length)).map Int.ofNat ++ (outputRow out m i).drop
      (lastAccepted (Within noDraftProbs (1 / 10 ^ 10) 0 vocabSize r.positions)
        r.positions.length + 1) := by
  have hreads := @Batch.reads _ _ noDraftProbs _ _ h
  have hle := lastAccepted_le (P := Within noDraftProbs (1 / 10 ^ 10) 0 vocabSize r.positions)
    (n := r.positions.length)
  have hlen := (Batch.length_le_maxSpecLen (mem_of_getElem? h)).trans hm
  have hlast := @lastAcceptI_eq _ _ _ _ noDraftProbs _ _ vocabSize _ h hg hm
  generalize lastAccepted (Within noDraftProbs (1 / 10 ^ 10) 0 vocabSize r.positions)
    r.positions.length = n at hle hlast ⊢
  refine row_emitted hle hlen (fun j x hj hx => ?_) (fun x hx => ?_) (fun hn => ?_) fun j hj hjm => ?_
  all_goals
    unfold outputTokenIds
    simp only [hlast, numDraftPerBatch_eq h, hreads.isGreedy, hg, hreads.bonusTokenId,
      validMask_iff h]
  · rw [if_neg (by omega), if_neg (by omega), if_pos ⟨by omega, hj, by omega, trivial⟩,
      draftTokens_eq h hx]
  · have hlt := (List.getElem?_eq_some_iff.mp hx).1
    rw [if_neg (by omega), if_pos ⟨by omega, trivial, hlt, trivial⟩, globalTokenIndices_eq h hx,
      hreads.recoveredTokenId n x 0 hx]
  · rw [if_pos ⟨hn.ge, trivial, hn⟩]
  · rw [if_neg (by omega), if_neg (by omega), if_neg (by omega)]

end

theorem outputTokenIds_greedy (hg : r.isGreedy = true) :
    (range (m + 1)).map (outputTokenIds (b.arrays noDraftProbs) m vocabSize out i) =
      outputRow out m i := by
  have hreads := @Batch.reads _ _ noDraftProbs _ _ h
  refine map_congr_left fun j _ => ?_
  unfold outputTokenIds
  rw [hreads.isGreedy, hg]
  simp

end

end BlockVerifyPytorch

end MyOperator.Sampling
