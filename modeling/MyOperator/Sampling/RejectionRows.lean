import MyOperator.Sampling.RejectionSampler
import MyOperator.Lib.Writes

/-!
# The rows that the rejection sampler leaves

A program of the random kernel stores the accepted draft tokens and one token more.
The programs write rows of their own, so the row of a request after the launch is the
row of its own program. The recovered token of a position is one whose score is the
largest.
-/

namespace MyOperator.Sampling

open Lib List Function Nat

variable {K : Type*} [Field K] [LinearOrder K]

/-! ## One program -/

theorem lt_length_takeWhile {α : Type*} {p : α → Bool} {l : List α} {k : Nat} {x : α}
    (hk : k ≤ (l.takeWhile p).length) (hx : l[k]? = some x) :
    k < (l.takeWhile p).length ↔ p x = true := by
  induction l generalizing k with
  | nil => cases hx
  | cons y l ih =>
    rw [takeWhile_cons] at hk ⊢
    cases k with
    | zero =>
      cases hx
      by_cases hp : p x = true
      · rw [if_pos hp]
        exact ⟨fun _ => hp, fun _ => succ_pos _⟩
      · rw [if_neg hp]
        exact ⟨fun h => absurd h (lt_irrefl 0), fun h => absurd h hp⟩
    | succ k =>
      by_cases hp : p y = true
      · rw [if_pos hp] at hk ⊢
        exact succ_lt_succ_iff.trans (ih (le_of_succ_le_succ hk) hx)
      · rw [if_neg hp] at hk
        exact absurd hk (not_succ_le_zero k)

variable {a : Arrays K} {noDraftProbs : Bool} {i m : Nat} {r : Request K} {out : Nat → Int}

theorem Request.acceptedLen_le (r : Request K) (noDraftProbs : Bool) :
    r.acceptedLen noDraftProbs ≤ r.positions.length := (takeWhile_sublist _).length_le

omit [LinearOrder K] in
theorem Reads.draftProb_eq (h : Reads a noDraftProbs i r) {k : Nat} {x : Position K}
    (hx : r.positions[k]? = some x) :
    a.draftProb (a.startIdx i + k) x.draftTokenId = x.draftProb noDraftProbs := by
  have hrow := h.draftProbs k x (fun _ => 0) hx
  unfold Arrays.draftProb Position.draftProb
  cases hd : a.draftProbs with
  | none =>
    rw [hd] at hrow
    cases noDraftProbs with
    | true => rfl
    | false => cases hrow
  | some rows =>
    rw [hd] at hrow
    cases noDraftProbs with
    | true => cases hrow
    | false => exact congrFun (Option.some.inj hrow) _

/-- The tokens that the loop has stored after the first `k` positions. -/
def Request.stored (r : Request K) (noDraftProbs : Bool) (k : Nat) : List Nat :=
  if r.acceptedLen noDraftProbs < k then r.emitted (r.acceptedLen noDraftProbs)
  else (r.positions.take k).map (·.draftTokenId)

theorem randomSample_loop (h : Reads a noDraftProbs i r) {k : Nat} (hk : k ≤ r.positions.length) :
    (range k).foldl (randomSampleStep a m i) (false, out) =
      (decide (r.acceptedLen noDraftProbs < k),
        storeRow out (i * (m + 1)) (r.stored noDraftProbs k)) := by
  induction k with
  | zero => simp [Request.stored]
  | succ k ih =>
    obtain ⟨x, hx⟩ : ∃ x, r.positions[k]? = some x := ⟨_, getElem?_eq_getElem hk⟩
    rw [range_succ, foldl_append, ih (le_of_lt hk), foldl_cons, foldl_nil]
    unfold randomSampleStep
    dsimp only
    rcases lt_or_ge (r.acceptedLen noDraftProbs) k with hlt | hge
    · -- rejected before
      rw [if_pos (decide_eq_true hlt), Request.stored, Request.stored, if_pos hlt,
        if_pos (lt_succ_of_lt hlt), decide_eq_true hlt, decide_eq_true (lt_succ_of_lt hlt)]
    · rw [if_neg (by simpa using hge), h.draftTokenId k x 0 hx, h.targetProbs k x _ hx,
        h.uniformProb k x 0 hx, h.recoveredTokenId k x 0 hx]
      rw [h.draftProb_eq hx]
      have hstored : r.stored noDraftProbs k = (r.positions.take k).map (·.draftTokenId) :=
        if_neg (not_lt.mpr hge)
      have hlen : (r.stored noDraftProbs k).length = k := by
        rw [hstored, length_map, length_take, min_eq_left (le_of_lt hk)]
      have haccept := lt_length_takeWhile (p := fun x => x.Accepted noDraftProbs) hge hx
      rw [decide_eq_true_eq] at haccept
      by_cases hacc : x.Accepted noDraftProbs
      · have hgt : ¬ r.acceptedLen noDraftProbs < k + 1 := by
          have : k < r.acceptedLen noDraftProbs := haccept.mpr hacc
          omega
        have hupd := @storeRow_concat out (i * (m + 1)) (r.stored noDraftProbs k) x.draftTokenId
        rw [hlen] at hupd
        rw [if_pos (show 0 < x.draftProb noDraftProbs ∧ _ from hacc), hupd, decide_eq_false hgt, hstored, Request.stored, if_neg hgt,
          take_add_one, hx, map_append]
        rfl
      · have heq : r.acceptedLen noDraftProbs = k := by
          have : ¬ k < r.acceptedLen noDraftProbs := mt haccept.mp hacc
          omega
        have hupd := @storeRow_concat out (i * (m + 1)) (r.stored noDraftProbs k) x.recoveredTokenId
        rw [hlen] at hupd
        rw [if_neg (show ¬ (0 < x.draftProb noDraftProbs ∧ _) from hacc), hupd, hstored, Request.stored, heq, if_pos (lt_succ_self k),
          decide_eq_true (lt_succ_self k), Request.emitted, hx]
        rfl

theorem rejectionRandomSampleKernel_eq (h : Reads a noDraftProbs i r) (hg : r.isGreedy = false) :
    rejectionRandomSampleKernel a m out i =
      storeRow out (i * (m + 1)) (r.emitted (r.acceptedLen noDraftProbs)) := by
  unfold rejectionRandomSampleKernel
  rw [h.isGreedy, hg, if_neg Bool.false_ne_true, h.numDraftTokens]
  dsimp only
  rw [randomSample_loop h le_rfl, h.bonusTokenId]
  rcases lt_or_ge (r.acceptedLen noDraftProbs) r.positions.length with hlt | hge
  · rw [if_pos (decide_eq_true hlt), Request.stored, if_pos hlt]
  · have heq : r.acceptedLen noDraftProbs = r.positions.length :=
      le_antisymm (r.acceptedLen_le noDraftProbs) hge
    rw [if_neg (by simpa using hge), Request.stored, if_neg (not_lt.mpr hge), heq,
      Request.emitted, getElem?_eq_none le_rfl, take_length]
    have hupd := @storeRow_concat out (i * (m + 1)) (r.positions.map (·.draftTokenId))
        r.bonusTokenId
    rw [length_map] at hupd
    exact hupd

/-! ## The launch -/

/-- Programs that store tokens in their own row leave the rows of the others. -/
theorem outputRow_foldl_other {f : (Nat → Int) → Nat → Nat → Int} {toks : Nat → List Nat}
    {touched : Nat → Prop} {l : List Nat}
    (hf : ∀ j ∈ l, ∀ out, touched j ∧ f out j = storeRow out (j * (m + 1)) (toks j) ∨
      ¬ touched j ∧ f out j = out) (hlen : ∀ j ∈ l, touched j → (toks j).length ≤ m + 1)
    (hi : ∀ j ∈ l, touched j → i ≠ j) : outputRow (l.foldl f out) m i = outputRow out m i := by
  induction l generalizing out with
  | nil => rfl
  | cons j l ih =>
    rw [foldl_cons, ih (fun k hk => hf k (mem_cons_of_mem _ hk))
      (fun k hk => hlen k (mem_cons_of_mem _ hk)) fun k hk => hi k (mem_cons_of_mem _ hk)]
    rcases hf j mem_cons_self out with ⟨ht, hfj⟩ | ⟨_, hfj⟩
    · rw [hfj, outputRow_storeRow_ne (hlen j mem_cons_self ht) (hi j mem_cons_self ht)]
    · rw [hfj]

/-- The row of a request after programs of which each stores tokens in its own row. -/
theorem outputRow_foldl {f : (Nat → Int) → Nat → Nat → Int} {toks : Nat → List Nat}
    {touched : Nat → Prop} {l : List Nat} (hnodup : l.Nodup)
    (hf : ∀ j ∈ l, ∀ out, touched j ∧ f out j = storeRow out (j * (m + 1)) (toks j) ∨
      ¬ touched j ∧ f out j = out)
    (hlen : ∀ j ∈ l, touched j → (toks j).length ≤ m + 1) (hi : i ∈ l) (hti : touched i) :
    outputRow (l.foldl f out) m i =
      (toks i).map Int.ofNat ++ (outputRow out m i).drop (toks i).length := by
  obtain ⟨A, B, rfl⟩ := append_of_mem hi
  obtain ⟨_, hB, hdisj⟩ := nodup_append.mp hnodup
  have hA : outputRow (A.foldl f out) m i = outputRow out m i :=
    outputRow_foldl_other (fun j hj => hf j (mem_append_left _ hj))
      (fun j hj => hlen j (mem_append_left _ hj)) fun j hj _ => (hdisj j hj i mem_cons_self).symm
  rw [foldl_append, foldl_cons, @outputRow_foldl_other _ _ _ _ toks touched _
      (fun j hj => hf j (mem_append_right _ (mem_cons_of_mem _ hj)))
      (fun j hj => hlen j (mem_append_right _ (mem_cons_of_mem _ hj))) fun j hj _ => by
      rintro rfl
      exact (nodup_cons.mp hB).1 hj]
  rcases hf i hi (A.foldl f out) with ⟨_, hfi⟩ | ⟨hnt, _⟩
  · rw [hfi, outputRow_storeRow (hlen i hi hti), hA]
  · exact absurd hti hnt

omit [Field K] [LinearOrder K] in
/-- The row of a request after passes for all requests, of which those that `touched` selects store
their tokens. -/
theorem outputRow_launch {ρ : Type*} {r : ρ} {b : List ρ} {f : (Nat → Int) → Nat → Nat → Int}
    {touched : ρ → Bool} {toks : Nat → ρ → List Nat} {N : Nat}
    (hf : ∀ j r out, b[j]? = some r → f out j =
      if touched r then storeRow out (j * (m + 1)) (toks j r) else out)
    (hnone : ∀ j < N, ∀ out, b[j]? = none → f out j = out)
    (hlen : ∀ j, ∀ r ∈ b, (toks j r).length ≤ m + 1) (h : b[i]? = some r) (hN : b.length ≤ N) :
    outputRow ((range N).foldl f out) m i =
      if touched r then (toks i r).map Int.ofNat ++ (outputRow out m i).drop (toks i r).length
      else outputRow out m i := by
  let toks' : Nat → List Nat := fun j => (b[j]?.map (toks j)).getD []
  have hpass : ∀ j ∈ range N, ∀ out, b[j]?.any touched = true ∧
      f out j = storeRow out (j * (m + 1)) (toks' j) ∨ ¬ b[j]?.any touched = true ∧ f out j = out := by
    intro j hjN out
    cases hj : b[j]? with
    | none => exact .inr ⟨Bool.false_ne_true, hnone j (mem_range.mp hjN) out hj⟩
    | some r' =>
      rw [hf j r' out hj]
      cases ht : touched r' with
      | true => exact .inl ⟨ht, by simp [toks', hj]⟩
      | false => exact .inr ⟨by simp [ht], if_neg Bool.false_ne_true⟩
  have hlen' : ∀ j ∈ range N, b[j]?.any touched = true → (toks' j).length ≤ m + 1 := by
    intro j _ _
    cases hj : b[j]? with
    | none => simp [toks', hj]
    | some r' => simpa [toks', hj] using hlen j r' (mem_of_getElem? hj)
  cases ht : touched r with
  | true =>
    have hi := (List.getElem?_eq_some_iff.mp h).1.trans_le hN
    refine (outputRow_foldl nodup_range hpass hlen' (mem_range.mpr hi)
      (by rw [h]; exact ht)).trans ?_
    simp only [toks', h, Option.map_some, Option.getD_some, if_true]
  | false =>
    refine outputRow_foldl_other hpass hlen' fun j _ hj => ?_
    rintro rfl
    rw [h] at hj
    exact Bool.false_ne_true (ht.symm.trans hj)

omit [Field K] [LinearOrder K] in
theorem row_storeRow {g : Nat → Int} {toks : List Nat} (hlen : toks.length ≤ m + 1)
    (htoks : ∀ j (t : Nat), toks[j]? = some t → g j = t)
    (hrest : ∀ j, toks.length ≤ j → j ≤ m → g j = out (i * (m + 1) + j)) :
    (range (m + 1)).map g = toks.map Int.ofNat ++ (outputRow out m i).drop toks.length := by
  rw [← outputRow_storeRow hlen]
  refine map_congr_left fun j hj => ?_
  have hj : j ≤ m := le_of_lt_succ (mem_range.mp hj)
  rw [storeRow, if_pos (Nat.le_add_right _ _), Nat.add_sub_cancel_left]
  cases ht : toks[j]? with
  | none => exact hrest j (List.getElem?_eq_none_iff.mp ht) hj
  | some t => exact htoks j t ht

omit [Field K] [LinearOrder K] in
theorem row_emitted {g : Nat → Int} {n : Nat} (hn : n ≤ r.positions.length)
    (hm : r.positions.length ≤ m)
    (hdraft : ∀ j x, j < n → r.positions[j]? = some x → g j = x.draftTokenId)
    (hrecovered : ∀ x, r.positions[n]? = some x → g n = x.recoveredTokenId)
    (hbonus : n = r.positions.length → g n = r.bonusTokenId)
    (hrest : ∀ j, n < j → j ≤ m → g j = out (i * (m + 1) + j)) :
    (range (m + 1)).map g = (r.emitted n).map Int.ofNat ++ (outputRow out m i).drop (n + 1) := by
  have htoks := Request.length_emitted hn
  have htake : ((r.positions.take n).map (·.draftTokenId)).length = n := by
    rw [length_map, length_take, min_eq_left hn]
  rw [← htoks]
  refine row_storeRow (by omega) (fun j t ht => ?_) fun j hj => hrest j (by omega)
  rcases lt_trichotomy j n with hlt | rfl | hgt
  · obtain ⟨x, hx⟩ : ∃ x, r.positions[j]? = some x := ⟨_, getElem?_eq_getElem (hlt.trans_le hn)⟩
    rw [Request.emitted, getElem?_append_left (htake.symm ▸ hlt), getElem?_map,
      getElem?_take, if_pos hlt, hx] at ht
    rw [hdraft j x hlt hx, ← Option.some.inj ht]
  · rw [Request.emitted, getElem?_append_right htake.le, htake, Nat.sub_self] at ht
    cases hx : r.positions[j]? with
    | none =>
      rw [hx] at ht
      rw [hbonus (le_antisymm hn (List.getElem?_eq_none_iff.mp hx)), ← Option.some.inj ht]
      rfl
    | some x =>
      rw [hx] at ht
      rw [hrecovered x hx, ← Option.some.inj ht]
      rfl
  · rw [getElem?_eq_none (by omega)] at ht
    cases ht

/-! ## The recovered tokens -/

/-- The recovered token of a position. -/
def Position.recovered (x : Position K) (noDraftProbs : Bool) (invQ : Nat → K) (vocabSize : Nat) :
    Nat :=
  recoveredId (score (recoveredProb (if noDraftProbs then none else some x.draftProbs)
    x.targetProbs x.draftTokenId vocabSize) invQ vocabSize) vocabSize 8192

/-- The request with its recovered tokens. -/
def Request.recover (r : Request K) (noDraftProbs : Bool) (invQ : Nat → K) (vocabSize : Nat) :
    Request K := { r with positions := r.positions.map fun x =>
      { x with recoveredTokenId := x.recovered noDraftProbs invQ vocabSize } }

variable {b : Batch K} {invQ : List (Nat → K)} {vocabSize : Nat}

omit [Field K] [LinearOrder K] in
theorem segments_disjoint {j : Nat} {r' : Request K} (hi : b[i]? = some r) (hj : b[j]? = some r')
    (hij : i ≠ j) {pos pos' : Nat} (hpos : pos < r.positions.length)
    (hpos' : pos' < r'.positions.length) : (b.arrays noDraftProbs).startIdx i + pos ≠
      (b.arrays noDraftProbs).startIdx j + pos' := by
  rw [startIdx_arrays hi, startIdx_arrays hj]
  exact fun h => hij (segment_unique hi hj hpos hpos' h)

theorem sampleRecoveredTokensKernel_eq (h : b[i]? = some r) (out : Nat → Nat) (pos : Nat) :
    sampleRecoveredTokensKernel (b.arrays noDraftProbs) invQ vocabSize 8192 out i pos =
      match r.positions[pos]? with
      | none => out
      | some x => update out ((b.arrays noDraftProbs).startIdx i + pos)
          (x.recovered noDraftProbs (invQ.getD i fun _ => 0) vocabSize) := by
  have hreads := @Batch.reads _ _ noDraftProbs _ _ h
  unfold sampleRecoveredTokensKernel
  rw [hreads.numDraftTokens]
  cases hx : r.positions[pos]? with
  | none => exact if_pos (List.getElem?_eq_none_iff.mp hx)
  | some x =>
    rw [if_neg (not_le.mpr (List.getElem?_eq_some_iff.mp hx).1)]
    dsimp only
    rw [hreads.draftProbs pos x _ hx, hreads.targetProbs pos x _ hx, hreads.draftTokenId pos x 0 hx]
    rfl

theorem sampleRecovered_request (h : b[i]? = some r) {M : Nat} (out : Nat → Nat) {addr : Nat} :
    ((range M).foldl (fun out pos => sampleRecoveredTokensKernel (b.arrays noDraftProbs) invQ
      vocabSize 8192 out i pos) out) addr =
    if (b.arrays noDraftProbs).startIdx i ≤ addr ∧ addr - (b.arrays noDraftProbs).startIdx i < M then
      (r.positions[addr - (b.arrays noDraftProbs).startIdx i]?.map fun x =>
        x.recovered noDraftProbs (invQ.getD i fun _ => 0) vocabSize).getD (out addr)
    else out addr := by
  induction M with
  | zero => simp
  | succ M ih =>
    rw [range_succ, foldl_append, foldl_cons, foldl_nil, sampleRecoveredTokensKernel_eq h]
    by_cases haddr : addr = (b.arrays noDraftProbs).startIdx i + M
    · rw [haddr, Nat.add_sub_cancel_left, if_pos ⟨Nat.le_add_right _ _, lt_succ_self M⟩]
      cases hx : r.positions[M]? with
      | none =>
        rw [← haddr]
        refine ih.trans ?_
        rw [if_neg (by omega)]
        rfl
      | some x => exact update_self _ _ _
    · have hiff : (b.arrays noDraftProbs).startIdx i ≤ addr ∧
          addr - (b.arrays noDraftProbs).startIdx i < M + 1 ↔
          (b.arrays noDraftProbs).startIdx i ≤ addr ∧
            addr - (b.arrays noDraftProbs).startIdx i < M := by omega
      rw [if_congr hiff rfl rfl]
      cases hx : r.positions[M]? with
      | none => exact ih
      | some x => exact (update_of_ne haddr _ _).trans ih

theorem sampleRecoveredTokens_getD (h : b[i]? = some r) {pos : Nat} {x : Position K}
    (hx : r.positions[pos]? = some x) (d : Nat) :
    (sampleRecoveredTokens (b.arrays noDraftProbs) invQ b.length b.maxSpecLen vocabSize).getD
      ((b.arrays noDraftProbs).startIdx i + pos) d =
    x.recovered noDraftProbs (invQ.getD i fun _ => 0) vocabSize := by
  have hpos := (List.getElem?_eq_some_iff.mp hx).1
  have hle := Batch.length_le_maxSpecLen (mem_of_getElem? h)
  have hlt : (b.arrays noDraftProbs).startIdx i + pos <
      (b.arrays noDraftProbs).draftTokenIds.length := by
    rw [startIdx_arrays h]
    show _ < (b.tokens.map (·.draftTokenId)).length
    rw [length_map]
    exact (List.getElem?_eq_some_iff.mp (Batch.tokens_getElem? h hx)).1
  unfold sampleRecoveredTokens
  dsimp only
  rw [getD_eq_getElem?_getD, getElem?_map, getElem?_range hlt]
  show (List.foldl _ _ _ : Nat → Nat) _ = _
  -- the passes of the other requests leave the entry, the pass of this one writes it
  have hpass : ∀ N ≤ b.length, ∀ out : Nat → Nat, ((range N).foldl (fun out reqIdx =>
      (range b.maxSpecLen).foldl (fun out pos => sampleRecoveredTokensKernel
        (b.arrays noDraftProbs) invQ vocabSize 8192 out reqIdx pos) out) out)
        ((b.arrays noDraftProbs).startIdx i + pos) =
      if i < N then x.recovered noDraftProbs (invQ.getD i fun _ => 0) vocabSize
      else out ((b.arrays noDraftProbs).startIdx i + pos) := by
    intro N hN out
    induction N with
    | zero => rfl
    | succ N ih =>
      obtain ⟨r', hr'⟩ : ∃ r', b[N]? = some r' := ⟨_, getElem?_eq_getElem hN⟩
      rw [range_succ, foldl_append, foldl_cons, foldl_nil, sampleRecovered_request hr']
      by_cases hNi : N = i
      · subst hNi
        rw [h] at hr'
        cases hr'
        rw [Nat.add_sub_cancel_left, if_pos ⟨Nat.le_add_right _ _, hpos.trans_le hle⟩, hx,
          if_pos (lt_succ_self N)]
        rfl
      · have hnone : (b.arrays noDraftProbs).startIdx N ≤ (b.arrays noDraftProbs).startIdx i + pos →
            r'.positions[(b.arrays noDraftProbs).startIdx i + pos -
              (b.arrays noDraftProbs).startIdx N]? = none := by
          intro hstart
          refine getElem?_eq_none (Nat.le_of_not_lt fun hpos' => ?_)
          refine @segments_disjoint _ noDraftProbs _ _ _ _ _ h hr' (Ne.symm hNi) _ _ hpos hpos' ?_
          rw [Nat.add_sub_cancel' hstart]
        have hstep := ih (le_of_succ_le hN)
        have hiff : i < N + 1 ↔ i < N := by omega
        rw [if_congr hiff rfl rfl, ← hstep]
        split_ifs with hin
        · rw [hnone hin.1]
          rfl
        · rfl
  rw [hpass b.length le_rfl, if_pos (List.getElem?_eq_some_iff.mp h).1]

theorem reads_recovered (h : b[i]? = some r) : Reads { b.arrays noDraftProbs with
      recoveredTokenIds := sampleRecoveredTokens (b.arrays noDraftProbs) invQ b.length b.maxSpecLen
        vocabSize } noDraftProbs i (r.recover noDraftProbs (invQ.getD i fun _ => 0) vocabSize) := by
  have hreads := @Batch.reads _ _ noDraftProbs _ _ h
  have hpos : ∀ {pos : Nat} {y : Position K}, (r.recover noDraftProbs (invQ.getD i fun _ => 0)
      vocabSize).positions[pos]? = some y → ∃ x, r.positions[pos]? = some x ∧
        y = { x with recoveredTokenId :=
          x.recovered noDraftProbs (invQ.getD i fun _ => 0) vocabSize } := by
    intro pos y hy
    obtain ⟨x, hx, rfl⟩ := Option.map_eq_some_iff.mp ((getElem?_map).symm.trans hy)
    exact ⟨x, hx, rfl⟩
  exact {
    numDraftTokens := hreads.numDraftTokens.trans (length_map _).symm
    isGreedy := hreads.isGreedy
    bonusTokenId := hreads.bonusTokenId
    draftTokenId := by
      intro pos y d hy
      obtain ⟨x, hx, rfl⟩ := hpos hy
      exact hreads.draftTokenId pos x d hx
    draftProbs := by
      intro pos y d hy
      obtain ⟨x, hx, rfl⟩ := hpos hy
      exact hreads.draftProbs pos x d hx
    targetProbs := by
      intro pos y d hy
      obtain ⟨x, hx, rfl⟩ := hpos hy
      exact hreads.targetProbs pos x d hx
    recoveredTokenId := by
      intro pos y d hy
      obtain ⟨x, hx, rfl⟩ := hpos hy
      exact sampleRecoveredTokens_getD h hx d
    uniformProb := by
      intro pos y d hy
      obtain ⟨x, hx, rfl⟩ := hpos hy
      exact hreads.uniformProb pos x d hx }

theorem Request.acceptedLen_recover (r : Request K) {row : Nat → K} :
    (r.recover noDraftProbs row vocabSize).acceptedLen noDraftProbs = r.acceptedLen noDraftProbs := by
  unfold acceptedLen recover
  rw [takeWhile_map, length_map]
  rfl

/-- The row of a request after `rejection_sample`: what it emits, then placeholders. -/
theorem outputRow_rejectionSample (h : b[i]? = some r) (hg : r.isGreedy = false) :
    outputRow (rejectionSample b noDraftProbs invQ vocabSize) b.maxSpecLen i =
      ((r.recover noDraftProbs (invQ.getD i fun _ => 0) vocabSize).emitted
        (r.acceptedLen noDraftProbs)).map Int.ofNat ++
      replicate (b.maxSpecLen - r.acceptedLen noDraftProbs) PLACEHOLDER_TOKEN_ID := by
  have hlen : ∀ (j : Nat) (r : Request K),
      ((r.recover noDraftProbs (invQ.getD j fun _ => 0) vocabSize).emitted
        (r.acceptedLen noDraftProbs)).length = r.acceptedLen noDraftProbs + 1 := by
    intro j r
    refine Request.length_emitted ?_
    show _ ≤ (r.positions.map _).length
    rw [length_map]
    exact r.acceptedLen_le noDraftProbs
  have hkernel : ∀ (j : Nat) (r : Request K) (out : Nat → Int), b[j]? = some r →
      rejectionRandomSampleKernel { b.arrays noDraftProbs with
        recoveredTokenIds := sampleRecoveredTokens (b.arrays noDraftProbs) invQ b.length b.maxSpecLen
          vocabSize } b.maxSpecLen out j = if !r.isGreedy then storeRow out (j * (b.maxSpecLen + 1))
        ((r.recover noDraftProbs (invQ.getD j fun _ => 0) vocabSize).emitted
          (r.acceptedLen noDraftProbs)) else out := by
    intro j r out hj
    cases hg : r.isGreedy with
    | true =>
      unfold rejectionRandomSampleKernel
      rw [(reads_recovered hj).isGreedy]
      exact if_pos hg
    | false =>
      rw [rejectionRandomSampleKernel_eq (reads_recovered hj) hg, Request.acceptedLen_recover]
      rfl
  have hrow := @outputRow_launch i b.maxSpecLen (fun _ => PLACEHOLDER_TOKEN_ID) _ r b _
    (fun r => !r.isGreedy) _ b.length hkernel (fun j hj out hnone => ?_) (fun j r hr => ?_) h le_rfl
  · rw [hg, Bool.not_false, if_pos rfl, hlen] at hrow
    refine hrow.trans (congrArg _ ?_)
    unfold outputRow
    rw [map_const', length_range, drop_replicate, Nat.add_sub_add_right]
  · exact absurd (List.getElem?_eq_none_iff.mp hnone) (not_le.mpr hj)
  · rw [hlen]
    exact succ_le_succ ((r.acceptedLen_le noDraftProbs).trans (Batch.length_le_maxSpecLen hr))

theorem parseOutput_rejectionSample (h : b[i]? = some r) (hg : r.isGreedy = false)
    (hvocab : ∀ t ∈ (r.recover noDraftProbs (invQ.getD i fun _ => 0) vocabSize).emitted
      (r.acceptedLen noDraftProbs), t < vocabSize) :
    parseOutput (outputRow (rejectionSample b noDraftProbs invQ vocabSize) b.maxSpecLen i)
      vocabSize = ((r.recover noDraftProbs (invQ.getD i fun _ => 0) vocabSize).emitted
        (r.acceptedLen noDraftProbs)).map Int.ofNat := by
  rw [outputRow_rejectionSample h hg]
  unfold parseOutput
  rw [filter_append, filter_eq_self.mpr, filter_eq_nil_iff.mpr, append_nil]
  · intro t ht
    rw [eq_of_mem_replicate ht]
    simp
  · intro t ht
    obtain ⟨n, hn, rfl⟩ := mem_map.mp ht
    have hlt := hvocab n hn
    rw [decide_eq_true_eq]
    refine ⟨?_, Int.ofNat_lt.mpr hlt⟩
    show (n : Int) ≠ -1
    omega

/-! ## The largest score -/

omit [Field K] in
theorem tileMax_spec (s : Nat → K) (last : Nat) :
    (tileMax s last).1 = s (tileMax s last).2 ∧ (tileMax s last).2 ≤ last ∧
      (∀ lane ≤ last, s lane ≤ (tileMax s last).1) ∧
      ∀ lane < (tileMax s last).2, s lane < (tileMax s last).1 := by
  induction last with
  | zero =>
    refine ⟨rfl, le_refl 0, fun lane h => ?_, fun lane h => absurd h (Nat.not_lt_zero _)⟩
    rw [Nat.le_zero.mp h]
    exact le_rfl
  | succ last ih =>
    obtain ⟨hval, hle, hmax, hleft⟩ := ih
    rw [tileMax]
    split_ifs with hlt
    · refine ⟨rfl, le_rfl, fun lane h => ?_, fun lane h => ?_⟩
      · rcases lt_or_eq_of_le h with h | rfl
        · exact (hmax lane (le_of_lt_succ h)).trans hlt.le
        · exact le_rfl
      · exact (hmax lane (le_of_lt_succ h)).trans_lt hlt
    · refine ⟨hval, le_succ_of_le hle, fun lane h => ?_, hleft⟩
      rcases lt_or_eq_of_le h with h | rfl
      · exact hmax lane (le_of_lt_succ h)
      · exact not_lt.mp hlt

/-- What the loop over the tiles holds: the best token so far. -/
structure Best (s : Nat → K) (vocabSize seen : Nat) (st : Option K × Nat) : Prop where
  lt : st.2 < vocabSize
  val : st.1 = some (s st.2)
  max : ∀ v < vocabSize, v < seen → s v ≤ s st.2

theorem recoverTile_best {s : Nat → K} {B k : Nat} (hB : 0 < B) (hk : k * B < vocabSize)
    (hs : ∀ v < vocabSize, 0 ≤ s v) (hmask : ∀ v, vocabSize ≤ v → s v = 0)
    {st : Option K × Nat} (h : k = 0 ∧ st = (none, 0) ∨ Best s vocabSize (k * B) st) :
    Best s vocabSize ((k + 1) * B) (recoverTile s B st k) := by
  obtain ⟨hval, hle, hmax, hleft⟩ := tileMax_spec (fun lane => s (k * B + lane)) (B - 1)
  have hin : k * B + (tileMax (fun lane => s (k * B + lane)) (B - 1)).2 < vocabSize := by
    by_contra hge
    -- a masked lane does not beat the first lane
    have hpos : 0 < (tileMax (fun lane => s (k * B + lane)) (B - 1)).2 := by omega
    have hfirst := hleft 0 hpos
    rw [hval] at hfirst
    rw [hmask _ (Nat.le_of_not_lt hge)] at hfirst
    exact absurd (hs (k * B) hk) (not_le.mpr hfirst)
  have htile : ∀ v, k * B ≤ v → v < (k + 1) * B →
      s v ≤ (tileMax (fun lane => s (k * B + lane)) (B - 1)).1 := by
    intro v hv hv'
    rw [succ_mul] at hv'
    have := hmax (v - k * B) (by omega)
    rwa [Nat.add_sub_cancel' hv] at this
  unfold recoverTile
  dsimp only
  split_ifs with hbeat
  · refine ⟨hin, congrArg some hval, fun v hv hseen => ?_⟩
    show s v ≤ s (k * B + (tileMax (fun lane => s (k * B + lane)) (B - 1)).2)
    rcases lt_or_ge v (k * B) with hlt | hge
    · rcases h with ⟨hk0, _⟩ | h
      · rw [hk0, Nat.zero_mul] at hlt
        exact absurd hlt (Nat.not_lt_zero v)
      · rw [h.val] at hbeat
        have hbeat : s st.2 < _ := of_decide_eq_true hbeat
        rw [hval] at hbeat
        exact (h.max v hv hlt).trans hbeat.le
    · rw [← hval]
      exact htile v hge hseen
  · rcases h with ⟨_, hst⟩ | h
    · rw [hst] at hbeat
      exact absurd rfl hbeat
    · refine ⟨h.lt, h.val, fun v hv hseen => ?_⟩
      rcases lt_or_ge v (k * B) with hlt | hge
      · exact h.max v hv hlt
      · rw [h.val] at hbeat
        refine (htile v hge hseen).trans (not_lt.mp fun hlt => hbeat ?_)
        exact decide_eq_true hlt

/-- The recovered token is in the vocabulary, and no token has a larger score. -/
theorem recoveredId_spec {s : Nat → K} {B : Nat} (hB : 0 < B) (hV : 0 < vocabSize)
    (hs : ∀ v < vocabSize, 0 ≤ s v) (hmask : ∀ v, vocabSize ≤ v → s v = 0) :
    recoveredId s vocabSize B < vocabSize ∧
      ∀ v < vocabSize, s v ≤ s (recoveredId s vocabSize B) := by
  have hloop : ∀ k, k ≤ (vocabSize + B - 1) / B →
      k = 0 ∧ (range k).foldl (recoverTile s B) (none, 0) = (none, 0) ∨
        Best s vocabSize (k * B) ((range k).foldl (recoverTile s B) (none, 0)) := by
    intro k hk
    induction k with
    | zero => exact .inl ⟨rfl, rfl⟩
    | succ k ih =>
      rw [range_succ, foldl_append]
      have hmul := (Nat.le_div_iff_mul_le hB).mp hk
      rw [succ_mul] at hmul
      exact .inr (recoverTile_best hB (by omega) hs hmask (ih (le_of_succ_le hk)))
  have htiles : 0 < (vocabSize + B - 1) / B := Nat.div_pos (by omega) hB
  rcases hloop _ le_rfl with ⟨h0, _⟩ | hbest
  · exact absurd htiles (by omega)
  · have hcover : vocabSize ≤ (vocabSize + B - 1) / B * B := by
      have := div_add_mod (vocabSize + B - 1) B
      have hmod := Nat.mod_lt (vocabSize + B - 1) hB
      rw [mul_comm] at this
      omega
    exact ⟨hbest.lt, fun v hv => hbest.max v hv (hv.trans_le hcover)⟩

end MyOperator.Sampling
