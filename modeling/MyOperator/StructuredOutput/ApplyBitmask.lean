import MyOperator.StructuredOutput.Manager

/-!
# The bitmask on the worker

The scheduler names the structured requests in its own order and sends their rows
compactly. The worker walks its batch to find where the logits of each begin, spreads
the rows over a bitmask as long as the logits, and masks the logits of these rows.
-/

namespace MyOperator.StructuredOutput

open Lib List Function

variable {ReqId G Mask Row : Type} [DecidableEq ReqId]

structure GrammarOutput (ReqId Mask : Type) where
  structuredOutputRequestIds : List ReqId
  grammarBitmask : List Mask
  deriving DecidableEq

/-! ## The scheduler -/

/-- `structured_output_request_ids` of `get_grammar_bitmask`. -/
def structuredOutputRequestIds (requests : ReqId → Option (Request G))
    (numScheduledTokens : List ReqId) : List ReqId := numScheduledTokens.filter fun reqId =>
    (requests reqId).any fun req => req.useStructuredOutput && !req.isPrefillChunk

/-- `get_grammar_bitmask`; `numScheduledTokens` are the keys of the dictionary. -/
def getGrammarBitmask (m : StructuredOutputManager G Mask) (order : List (Entry G) → List (Entry G))
    (bitmask : Nat → Mask) (requests : ReqId → Option (Request G))
    (hasStructuredOutputRequests : Bool) (numScheduledTokens : List ReqId)
    (drafts : ReqId → List Int) : Option (Option (GrammarOutput ReqId Mask)) :=
  if hasStructuredOutputRequests = false then some none
  else
    let reqIds := structuredOutputRequestIds requests numScheduledTokens
    if reqIds.isEmpty then some none
    else (m.grammarBitmask order bitmask requests reqIds drafts).map fun t => some ⟨reqIds, t.2⟩

/-! ## The worker -/

/-- `struct_out_req_batch_indices`, and `cumulative_offset`. -/
def batchIndices (drafts : ReqId → List Int) (structOutReqIds : List ReqId)
    (s : (ReqId → Option Nat) × Nat) (x : ReqId × Nat) : (ReqId → Option Nat) × Nat :=
  let logitIndex := x.2 + s.2
  (if x.1 ∈ structOutReqIds then update s.1 x.1 (some logitIndex) else s.1,
    s.2 + (drafts x.1).length)

/-- One row is copied to `sorted_bitmask`, and its index to `out_indices`. -/
def copyRow (grammarBitmask : List Mask) (numRows logitIdx cumulativeIndex : Nat)
    (s : (Nat → Mask) × List Nat) (i : Nat) : Option ((Nat → Mask) × List Nat) := do
  let mask ← grammarBitmask[cumulativeIndex + i]?
  let bitmaskIndex := logitIdx + i
  if bitmaskIndex < numRows then
    some (update s.1 bitmaskIndex mask, s.2 ++ [bitmaskIndex])
  else none

/-- The rows of a structured request, if it is in the batch. -/
def copyRows (drafts : ReqId → List Int) (indices : ReqId → Option Nat) (grammarBitmask : List Mask)
    (numRows cumulativeIndex : Nat) (s : (Nat → Mask) × List Nat) (reqId : ReqId) :
    Option ((Nat → Mask) × List Nat) :=
  match indices reqId with
  | none => some s
  | some logitIdx => (range (1 + (drafts reqId).length)).foldlM
      (copyRow grammarBitmask numRows logitIdx cumulativeIndex) s

/-- The body of the loop over the structured requests, with `cumulative_index`. -/
def copyRequest (drafts : ReqId → List Int) (indices : ReqId → Option Nat)
    (grammarBitmask : List Mask) (numRows : Nat) (s : ((Nat → Mask) × List Nat) × Nat)
    (reqId : ReqId) : Option (((Nat → Mask) × List Nat) × Nat) :=
  (copyRows drafts indices grammarBitmask numRows s.2 s.1 reqId).map fun t =>
    (t, s.2 + (1 + (drafts reqId).length))

/-- `apply_grammar_bitmask`; `applyInplace` is `xgr.apply_token_bitmask_inplace`, and `fullMask` is
the row of minus ones. -/
def applyGrammarBitmask (applyInplace : List Row → List Mask → Option (List Nat) → List Row)
    (fullMask : Mask) (drafts : ReqId → List Int) (output : GrammarOutput ReqId Mask)
    (reqIds : List ReqId) (logits : List Row) : Option (List Row) := do
  let indices := (reqIds.zipIdx.foldl (batchIndices drafts output.structuredOutputRequestIds)
    (fun _ => none, 0)).1
  let s ← output.structuredOutputRequestIds.foldlM
    (copyRequest drafts indices output.grammarBitmask logits.length) ((fun _ => fullMask, []), 0)
  let (sortedBitmask, outIndices) := s.1
  let skipOutIndices := outIndices.length = logits.length
  some (applyInplace logits ((range logits.length).map sortedBitmask)
    (if skipOutIndices then none else some outIndices))

/-- What the worker does with the output of the scheduler. -/
def maskLogits (applyInplace : List Row → List Mask → Option (List Nat) → List Row)
    (fullMask : Mask) (drafts : ReqId → List Int) (output : Option (GrammarOutput ReqId Mask))
    (reqIds : List ReqId) (logits : List Row) : Option (List Row) :=
  match output with
  | none => some logits
  | some output => applyGrammarBitmask applyInplace fullMask drafts output reqIds logits

/-- What `xgr.apply_token_bitmask_inplace` does: a row of the bitmask masks the row of the logits with
its index, if that is one of the indices; without indices all are masked. -/
structure AppliesMasks (applyMask : Mask → Row → Row)
    (applyInplace : List Row → List Mask → Option (List Nat) → List Row) : Prop where
  indexed : ∀ logits bitmask indices, bitmask.length = logits.length → indices.Nodup →
    (∀ i ∈ indices, i < logits.length) → ∀ (i : Nat) row mask, logits[i]? = some row →
      bitmask[i]? = some mask → (applyInplace logits bitmask (some indices))[i]? =
        some (if i ∈ indices then applyMask mask row else row)
  all : ∀ logits bitmask, bitmask.length = logits.length → ∀ (i : Nat) row mask,
    logits[i]? = some row → bitmask[i]? = some mask →
      (applyInplace logits bitmask none)[i]? = some (applyMask mask row)

/-! ## Where the logits of a request begin -/

variable {drafts : ReqId → List Int} {ids reqIds : List ReqId}

theorem batchIndices_spec {s : (ReqId → Option Nat) × Nat} {k : Nat} (hnodup : reqIds.Nodup) :
    (∀ (i : Nat) reqId, reqIds[i]? = some reqId → reqId ∈ ids →
      ((reqIds.zipIdx k).foldl (batchIndices drafts ids) s).1 reqId =
        some (k + s.2 + segmentStart (rowsOf drafts) reqIds i)) ∧
    ∀ reqId, reqId ∉ reqIds ∨ reqId ∉ ids →
      ((reqIds.zipIdx k).foldl (batchIndices drafts ids) s).1 reqId = s.1 reqId := by
  induction reqIds generalizing s k with
  | nil => exact ⟨nofun, fun _ _ => rfl⟩
  | cons r reqIds ih =>
    obtain ⟨hnew, hnodup⟩ := nodup_cons.mp hnodup
    rw [zipIdx_cons, foldl_cons]
    obtain ⟨hin, hout⟩ := @ih (batchIndices drafts ids s (r, k)) (k + 1) hnodup
    constructor
    · intro i reqId hi hmem
      cases i with
      | zero =>
        obtain rfl := Option.some.inj hi
        rw [hout r (.inl hnew)]
        show (if r ∈ ids then update s.1 r (some (k + s.2)) else s.1) r = _
        rw [if_pos hmem, update_self]
        rfl
      | succ i =>
        rw [hin i reqId hi hmem, segmentStart_cons, length_rowsOf]
        show some (k + 1 + (s.2 + (drafts r).length) + _) = _
        congr 1
        omega
    · intro reqId hreq
      have hrest : reqId ∉ reqIds ∨ reqId ∉ ids :=
        hreq.imp_left fun h hmem => h (mem_cons_of_mem _ hmem)
      rw [hout reqId hrest]
      show (if r ∈ ids then update s.1 r (some (k + s.2)) else s.1) reqId = s.1 reqId
      split_ifs with hr
      · refine update_of_ne ?_ _ _
        rintro rfl
        rcases hreq with h | h
        · exact h mem_cons_self
        · exact h hr
      · rfl

/-! ## The rows of the bitmask -/

/-- The rows of the logits that are masked for a request. -/
def outRows (drafts : ReqId → List Int) (indices : ReqId → Option Nat) (reqId : ReqId) : List Nat :=
  match indices reqId with
  | none => []
  | some logitIdx => (rowsOf drafts reqId).map (logitIdx + ·)

variable {grammarBitmask : List Mask} {numRows logitIdx cum : Nat} {sorted : Nat → Mask}
  {out : List Nat} {indices : ReqId → Option Nat} {masks : ReqId → Nat → Mask}

omit [DecidableEq ReqId] in
theorem copyRow_spec {f : Nat → Mask} {n : Nat} (hmask : ∀ p < n, grammarBitmask[cum + p]? = some (f p))
    (hrows : logitIdx + n ≤ numRows) : ∃ sorted',
      (range n).foldlM (copyRow grammarBitmask numRows logitIdx cum) (sorted, out) =
        some (sorted', out ++ (range n).map (logitIdx + ·)) ∧
      (∀ p < n, sorted' (logitIdx + p) = f p) ∧
      ∀ t, (∀ p < n, t ≠ logitIdx + p) → sorted' t = sorted t := by
  induction n with
  | zero => exact ⟨sorted, by simp, nofun, fun _ _ => rfl⟩
  | succ n ih =>
    obtain ⟨sorted', hfold, hdone, hrest⟩ := ih (fun p hp => hmask p (by omega)) (by omega)
    refine ⟨update sorted' (logitIdx + n) (f n), ?_, fun p hp => ?_, fun t ht => ?_⟩
    · rw [range_succ, foldlM_append, hfold, map_append, ← append_assoc]
      simp [copyRow, hmask n (Nat.lt_succ_self n), show logitIdx + n < numRows by omega]
    · rcases Nat.lt_succ_iff_lt_or_eq.mp hp with hlt | rfl
      · rw [update_of_ne (by omega), hdone p hlt]
      · rw [update_self]
    · rw [update_of_ne (ht n (Nat.lt_succ_self n)), hrest t fun p hp => ht p (Nat.lt_succ_of_lt hp)]

omit [DecidableEq ReqId] in
theorem copyRows_spec {reqId : ReqId} (hbound : ∀ t ∈ outRows drafts indices reqId, t < numRows)
    (hmask : ∀ p ≤ (drafts reqId).length, grammarBitmask[cum + p]? = some (masks reqId p)) :
    ∃ sorted', copyRows drafts indices grammarBitmask numRows cum (sorted, out) reqId =
        some (sorted', out ++ outRows drafts indices reqId) ∧
      (∀ s, indices reqId = some s → ∀ p ≤ (drafts reqId).length, sorted' (s + p) = masks reqId p) ∧
      ∀ t ∉ outRows drafts indices reqId, sorted' t = sorted t := by
  unfold copyRows outRows at *
  cases hidx : indices reqId with
  | none => exact ⟨sorted, by simp, nofun, fun _ _ => rfl⟩
  | some s =>
    rw [hidx] at hbound
    have hlast : s + (drafts reqId).length < numRows :=
      hbound _ (mem_map.mpr ⟨_, mem_range.mpr (by omega), rfl⟩)
    obtain ⟨sorted', hfold, hdone, hrest⟩ := @copyRow_spec _ grammarBitmask numRows s cum sorted
      out (masks reqId) (1 + (drafts reqId).length) (fun p hp => hmask p (by omega)) (by omega)
    refine ⟨sorted', hfold, ?_, fun t ht => hrest t fun p hp heq => ht ?_⟩
    · rintro _ ⟨⟩ p hp
      exact hdone p (by omega)
    · exact mem_map.mpr ⟨p, mem_range.mpr hp, heq.symm⟩

omit [DecidableEq ReqId] in
/-- The rows of each structured request are copied to where its logits begin. -/
theorem copyRequests_spec
    (hdisjoint : ids.Pairwise fun a b => (outRows drafts indices a).Disjoint (outRows drafts indices b))
    (hbound : ∀ id ∈ ids, ∀ t ∈ outRows drafts indices id, t < numRows)
    (hmask : ∀ (i : Nat) id, ids[i]? = some id → ∀ p ≤ (drafts id).length,
      grammarBitmask[cum + segmentStart (rowsOf drafts) ids i + p]? = some (masks id p)) :
    ∃ sorted' cum', ids.foldlM (copyRequest drafts indices grammarBitmask numRows)
        ((sorted, out), cum) = some ((sorted', out ++ ids.flatMap (outRows drafts indices)), cum') ∧
      (∀ id ∈ ids, ∀ s, indices id = some s → ∀ p ≤ (drafts id).length,
        sorted' (s + p) = masks id p) ∧
      ∀ t, t ∉ ids.flatMap (outRows drafts indices) → sorted' t = sorted t := by
  induction ids generalizing sorted out cum with
  | nil => exact ⟨sorted, cum, by simp, nofun, fun _ _ => rfl⟩
  | cons r ids ih =>
    obtain ⟨hr, hdisjoint⟩ := pairwise_cons.mp hdisjoint
    -- the rows of the first request
    obtain ⟨sorted₁, hcopy, hdone, hkept⟩ := @copyRows_spec _ _ drafts grammarBitmask numRows cum
      sorted out indices masks r (hbound r mem_cons_self) (hmask 0 r rfl)
    obtain ⟨sorted', cum', hfold, hothers, hrest⟩ := @ih (cum + (1 + (drafts r).length)) sorted₁
      (out ++ outRows drafts indices r) hdisjoint
      (fun id hid => hbound id (mem_cons_of_mem _ hid)) fun i id hi p hp => by
        have hshift := hmask (i + 1) id hi p hp
        rwa [segmentStart_cons, length_rowsOf, ← Nat.add_assoc] at hshift
    refine ⟨sorted', cum', ?_, fun id hid s hs p hp => ?_, fun t ht => ?_⟩
    · rw [foldlM_cons, copyRequest, hcopy, flatMap_cons, ← append_assoc]
      exact hfold
    · rcases mem_cons.mp hid with rfl | hid
      · have hmem : s + p ∈ outRows drafts indices id := by
          unfold outRows
          rw [hs]
          exact mem_map.mpr ⟨p, mem_range.mpr (by omega), rfl⟩
        rw [hrest, hdone s hs p hp]
        intro hother
        obtain ⟨id', hid', hmem'⟩ := mem_flatMap.mp hother
        exact hr id' hid' hmem hmem'
      · exact hothers id hid s hs p hp
    · rw [flatMap_cons, mem_append, not_or] at ht
      rw [hrest t ht.2, hkept t ht.1]

/-! ## The masked rows -/

section Rows

variable {m : StructuredOutputManager G Mask} {order : List (Entry G) → List (Entry G)}
  {requests : ReqId → Option (Request G)} {bitmask : Nat → Mask} {applyMask : Mask → Row → Row}
  {logits : List Row} {applyInplace : List Row → List Mask → Option (List Nat) → List Row}

/-- `bitmask` has the masks of the requests, one request after the other. -/
def HoldsMasks (m : StructuredOutputManager G Mask) (requests : ReqId → Option (Request G))
    (drafts : ReqId → List Int) (output : GrammarOutput ReqId Mask) : Prop :=
  ∀ (i : Nat) reqId, output.structuredOutputRequestIds[i]? = some reqId → ∃ masks,
    (requests reqId).bind (m.requestMasks · (drafts reqId)) = some masks ∧
    masks.length = 1 + (drafts reqId).length ∧ ∀ p ≤ (drafts reqId).length,
      output.grammarBitmask[segmentStart (rowsOf drafts) output.structuredOutputRequestIds i + p]? =
        masks[p]?

theorem grammarBitmask_holds (horder : ∀ l, (order l).Perm l) (hnodup : ids.Nodup)
    (hdrafts : ∀ reqId, (drafts reqId).length ≤ m.numSpeculativeTokens)
    {t : (ReqId → Option (Request G)) × List Mask}
    (h : m.grammarBitmask order bitmask requests ids drafts = some t) :
    HoldsMasks m requests drafts ⟨ids, t.2⟩ := by
  obtain ⟨u, hu, rfl⟩ := Option.map_eq_some_iff.mp h
  have hserial : m.fillSerial drafts ⟨requests, bitmask, 0⟩ ids = some u := by
    unfold StructuredOutputManager.fill at hu
    split_ifs at hu with hparallel
    · rwa [fillParallel_eq horder fun id _ =>
        length_eq_zero_iff.mp (Nat.le_zero.mp (hparallel.2 ▸ hdrafts id))] at hu
    · exact hu
  obtain ⟨hcum, hcap, -, hrows⟩ := fillSerial_spec hnodup (Nat.zero_le _) hserial
  intro i id hi
  obtain ⟨masks, hmasks, hlen, hrow⟩ := hrows i id hi
  refine ⟨masks, hmasks, hlen, fun p hp => ?_⟩
  have hp : p < masks.length := by omega
  have hlt : segmentStart (rowsOf drafts) ids i + p < u.cumulativeIndex := by
    have hin := @getElem?_flatMap_segment _ _ (rowsOf drafts) ids i p id _ hi
      (getElem?_eq_getElem (by rw [length_rowsOf]; omega))
    have := (List.getElem?_eq_some_iff.mp hin).1
    omega
  have hrow := hrow p _ (getElem?_eq_getElem hp)
  rw [getElem?_eq_getElem hp, ← hrow, getElem?_map, getElem?_range]
  · show some _ = some _
    rw [Nat.zero_add]
  · dsimp only
    split_ifs <;> omega

/-- Row `p` of request `i` of the batch is masked by its mask `p`, if it is structured. -/
def RowsMasked (m : StructuredOutputManager G Mask) (requests : ReqId → Option (Request G))
    (drafts : ReqId → List Int) (applyMask : Mask → Row → Row) (ids reqIds : List ReqId)
    (logits result : List Row) : Prop :=
  ∀ (i : Nat) reqId p row, reqIds[i]? = some reqId → p ≤ (drafts reqId).length →
    logits[segmentStart (rowsOf drafts) reqIds i + p]? = some row →
    (reqId ∈ ids → ∃ masks mask, (requests reqId).bind (m.requestMasks · (drafts reqId)) =
        some masks ∧ masks[p]? = some mask ∧
      result[segmentStart (rowsOf drafts) reqIds i + p]? = some (applyMask mask row)) ∧
    (reqId ∉ ids → result[segmentStart (rowsOf drafts) reqIds i + p]? = some row)

theorem applyGrammarBitmask_rows {output : GrammarOutput ReqId Mask}
    (happlies : AppliesMasks applyMask applyInplace) (hbatch : reqIds.Nodup)
    (hids : output.structuredOutputRequestIds.Nodup)
    (hlogits : logits.length = (reqIds.flatMap (rowsOf drafts)).length)
    (hholds : HoldsMasks m requests drafts output) :
    ∃ result, applyGrammarBitmask applyInplace m.fullMask drafts output reqIds logits =
        some result ∧
      RowsMasked m requests drafts applyMask output.structuredOutputRequestIds reqIds logits
        result := by
  obtain ⟨ids, rows⟩ := output
  dsimp only at hids
  obtain ⟨hin, hout⟩ := @batchIndices_spec _ _ drafts ids reqIds (fun _ => none, 0) 0 hbatch
  unfold applyGrammarBitmask
  dsimp only
  generalize (reqIds.zipIdx.foldl (batchIndices drafts ids) (fun _ => none, 0)).1 = indices
    at hin hout ⊢
  simp only [Nat.zero_add] at hin
  -- a row that is masked for a request is one of its own
  have hrow : ∀ id t, t ∈ outRows drafts indices id → ∃ (i : Nat) (p : Nat), reqIds[i]? = some id ∧
      p < (rowsOf drafts id).length ∧ t = segmentStart (rowsOf drafts) reqIds i + p := by
    intro id t ht
    unfold outRows at ht
    by_cases hid : id ∈ reqIds ∧ id ∈ ids
    · obtain ⟨i, hi⟩ := mem_iff_getElem?.mp hid.1
      rw [hin i id hi hid.2] at ht
      obtain ⟨p, hp, rfl⟩ := mem_map.mp ht
      exact ⟨i, p, hi, by rw [length_rowsOf]; exact mem_range.mp hp, rfl⟩
    · rw [hout id (not_and_or.mp hid)] at ht
      cases ht
  have hunique : ∀ id id' t, t ∈ outRows drafts indices id → t ∈ outRows drafts indices id' →
      id = id' := by
    intro id id' t ht ht'
    obtain ⟨i, p, hi, hp, heq⟩ := hrow id t ht
    obtain ⟨j, q, hj, hq, heq'⟩ := hrow id' t ht'
    obtain rfl := segment_unique hi hj hp hq (heq.symm.trans heq')
    exact Option.some.inj (hi.symm.trans hj)
  have hdisjoint : ids.Pairwise fun a b =>
      (outRows drafts indices a).Disjoint (outRows drafts indices b) :=
    hids.imp fun hne t ht ht' => hne (hunique _ _ t ht ht')
  have hbound : ∀ id ∈ ids, ∀ t ∈ outRows drafts indices id, t < logits.length := by
    intro id _ t ht
    obtain ⟨i, p, hi, hp, rfl⟩ := hrow id t ht
    rw [hlogits]
    exact (List.getElem?_eq_some_iff.mp (getElem?_flatMap_segment hi (getElem?_eq_getElem hp))).1
  let masks : ReqId → Nat → Mask := fun id p =>
    (((requests id).bind (m.requestMasks · (drafts id))).getD [])[p]?.getD m.fullMask
  have hmask : ∀ (i : Nat) id, ids[i]? = some id → ∀ p ≤ (drafts id).length,
      rows[0 + segmentStart (rowsOf drafts) ids i + p]? = some (masks id p) := by
    intro i id hi p hp
    obtain ⟨l, hl, hlen, hat⟩ := hholds i id hi
    have hlt : p < l.length := by omega
    rw [Nat.zero_add, hat p hp]
    simp only [masks, hl, Option.getD_some, getElem?_eq_getElem hlt]
  obtain ⟨sorted, cum, hfold, hdone, -⟩ := @copyRequests_spec _ _ drafts ids rows logits.length 0
    (fun _ => m.fullMask) [] indices masks hdisjoint hbound hmask
  rw [hfold]
  refine ⟨_, rfl, fun i reqId p row hi hp hlogit => ?_⟩
  have hnodup : ([] ++ ids.flatMap (outRows drafts indices)).Nodup := by
    refine nodup_flatMap.mpr ⟨fun id _ => ?_, hdisjoint⟩
    unfold outRows
    cases indices id with
    | none => exact nodup_nil
    | some s => exact nodup_range.map fun _ _ => Nat.add_left_cancel
  have hlt : ∀ t ∈ [] ++ ids.flatMap (outRows drafts indices), t < logits.length := by
    intro t ht
    obtain ⟨id, hid, ht⟩ := mem_flatMap.mp ht
    exact hbound id hid t ht
  have hmem : segmentStart (rowsOf drafts) reqIds i + p ∈
      [] ++ ids.flatMap (outRows drafts indices) ↔ reqId ∈ ids := by
    constructor
    · intro ht
      obtain ⟨id, hid, ht⟩ := mem_flatMap.mp ht
      obtain ⟨j, q, hj, hq, heq⟩ := hrow id _ ht
      obtain rfl := segment_unique hi hj (by rw [length_rowsOf]; omega) hq heq
      rwa [Option.some.inj (hi.symm.trans hj)]
    · intro hid
      refine mem_flatMap.mpr ⟨reqId, hid, ?_⟩
      unfold outRows
      rw [hin i reqId hi hid]
      exact mem_map.mpr ⟨p, mem_range.mpr (by omega), rfl⟩
  have hbits : ((range logits.length).map sorted)[segmentStart (rowsOf drafts) reqIds i + p]? =
      some (sorted (segmentStart (rowsOf drafts) reqIds i + p)) := by
    rw [getElem?_map, getElem?_range (List.getElem?_eq_some_iff.mp hlogit).1]
    rfl
  have hlength : ((range logits.length).map sorted).length = logits.length := by simp
  have happlied : (applyInplace logits ((range logits.length).map sorted)
      (if ([] ++ ids.flatMap (outRows drafts indices)).length = logits.length then none
        else some ([] ++ ids.flatMap (outRows drafts indices))))[
          segmentStart (rowsOf drafts) reqIds i + p]? =
      some (if reqId ∈ ids then applyMask (sorted (segmentStart (rowsOf drafts) reqIds i + p)) row
        else row) := by
    split_ifs with hskip hid hid
    · exact happlies.all _ _ hlength _ row _ hlogit hbits
    · -- as many indices as rows: every row is among them
      have hperm := (subperm_of_subset hnodup fun t ht => mem_range.mpr (hlt t ht))
        |>.perm_of_length_le (Nat.le_of_eq (length_range.trans hskip.symm))
      exact absurd (hmem.mp (hperm.mem_iff.mpr
        (mem_range.mpr (List.getElem?_eq_some_iff.mp hlogit).1))) hid
    · rw [happlies.indexed _ _ _ hlength hnodup hlt _ row _ hlogit hbits, if_pos (hmem.mpr hid)]
    · rw [happlies.indexed _ _ _ hlength hnodup hlt _ row _ hlogit hbits, if_neg (mt hmem.mp hid)]
  refine ⟨fun hid => ?_, fun hid => happlied.trans (by rw [if_neg hid])⟩
  obtain ⟨j, hj⟩ := mem_iff_getElem?.mp hid
  obtain ⟨l, hl, hlen, -⟩ := hholds j reqId hj
  have hlt : p < l.length := by omega
  refine ⟨l, l[p], hl, getElem?_eq_getElem hlt, happlied.trans ?_⟩
  rw [if_pos hid, hdone reqId hid _ (hin i reqId hi hid) p hp]
  simp only [masks, hl, Option.getD_some, getElem?_eq_getElem hlt]

/-- **Bitmask rows**: the worker masks the logits of each structured request by the masks of the
request and leaves the others, whatever the two orders are; the parallel path fills the rows of
the serial one. -/
theorem bitmaskRows_aligned (m : StructuredOutputManager G Mask)
    (order : List (Entry G) → List (Entry G)) (bitmask : Nat → Mask)
    (requests : ReqId → Option (Request G)) (drafts : ReqId → List Int)
    (numScheduledTokens reqIds : List ReqId) (logits : List Row)
    (happlies : AppliesMasks applyMask applyInplace) (horder : ∀ l, (order l).Perm l)
    (hkeys : numScheduledTokens.Nodup) (hbatch : reqIds.Nodup)
    (hdrafts : ∀ reqId, (drafts reqId).length ≤ m.numSpeculativeTokens)
    (hlogits : logits.length = (reqIds.flatMap (rowsOf drafts)).length) :
    (∀ s ids, m.numSpeculativeTokens = 0 → m.fillParallel order s ids = m.fillSerial drafts s ids) ∧
    ∀ hasStructuredOutputRequests output, getGrammarBitmask m order bitmask requests
        hasStructuredOutputRequests numScheduledTokens drafts = some output →
      ∃ result, maskLogits applyInplace m.fullMask drafts output reqIds logits = some result ∧
        RowsMasked m requests drafts applyMask (if hasStructuredOutputRequests then
            structuredOutputRequestIds requests numScheduledTokens else []) reqIds logits result := by
  have hnone : RowsMasked m requests drafts applyMask [] reqIds logits logits :=
    fun _ _ _ _ _ _ hlogit => ⟨nofun, fun _ => hlogit⟩
  refine ⟨fun s ids hspec => fillParallel_eq horder (fun id _ =>
    length_eq_zero_iff.mp (Nat.le_zero.mp (hspec ▸ hdrafts id))) s, fun has output h => ?_⟩
  unfold getGrammarBitmask at h
  cases has with
  | false =>
    obtain rfl := Option.some.inj h
    exact ⟨logits, rfl, hnone⟩
  | true =>
    rw [if_neg Bool.noConfusion] at h
    dsimp only at h
    split_ifs at h with hempty
    · obtain rfl := Option.some.inj h
      rw [List.isEmpty_iff.mp hempty]
      exact ⟨logits, rfl, hnone⟩
    · obtain ⟨t, ht, rfl⟩ := Option.map_eq_some_iff.mp h
      have hids : (structuredOutputRequestIds requests numScheduledTokens).Nodup := hkeys.filter _
      exact applyGrammarBitmask_rows happlies hbatch hids hlogits
        (grammarBitmask_holds horder hids hdrafts ht)

end Rows

/-- Masks on rows, one after the other. -/
def applyRows (applyMask : Mask → Row → Row) (logits : List Row) (bitmask : List Mask)
    (indices : Option (List Nat)) : List Row := (logits.zip bitmask).zipIdx.map fun x =>
    if indices.all (x.2 ∈ ·) then applyMask x.1.2 x.1.1 else x.1.1

theorem applyRows_applies (applyMask : Mask → Row → Row) :
    AppliesMasks applyMask (applyRows applyMask) := by
  have hrow : ∀ logits bitmask indices (i : Nat) row mask, logits[i]? = some row →
      bitmask[i]? = some mask → (applyRows applyMask logits bitmask indices)[i]? =
        some (if indices.all (i ∈ ·) then applyMask mask row else row) := by
    intro logits bitmask indices i row mask hrow hmask
    unfold applyRows
    rw [getElem?_map, getElem?_zipIdx,
      (getElem?_zip_eq_some (z := (row, mask))).mpr ⟨hrow, hmask⟩, Nat.zero_add]
    rfl
  constructor
  · intro logits bitmask indices _ _ _ i row mask hlogit hmask
    rw [hrow logits bitmask _ i row mask hlogit hmask]
    simp
  · intro logits bitmask _ i row mask hlogit hmask
    rw [hrow logits bitmask none i row mask hlogit hmask]
    rfl

/-- A grammar that counts the tokens it has accepted; a mask is a token that is allowed, or none. -/
def countingManager : StructuredOutputManager Nat (Option Nat) where
  backend := ⟨fun g => 5 ≤ g, some, fun g _ => some (g + 1), fun g n => g - n⟩
  fullMask := none
  reasoner := none
  enableInReasoning := false
  numSpeculativeTokens := 2
  maxNumSeqs := 4

/-- Three requests; the first has one draft token, and the second is not structured. -/
def countingRequests (reqId : Nat) : Option (Request Nat) :=
  if reqId < 3 then some ⟨reqId != 1, false, [], none, reqId⟩ else none

def countingDrafts (reqId : Nat) : List Int := if reqId = 0 then [7] else []

theorem bitmaskRows_aligned_three :
    ∃ result, maskLogits (applyRows fun mask row => mask.getD row) none countingDrafts
        (some ⟨[0, 2], [some 0, some 1, some 2]⟩) [2, 1, 0] [10, 11, 12, 13] = some result ∧
      RowsMasked countingManager countingRequests countingDrafts (fun mask row => mask.getD row)
        [0, 2] [2, 1, 0] [10, 11, 12, 13] result :=
  (bitmaskRows_aligned countingManager id (fun _ => none) countingRequests countingDrafts [0, 1, 2]
    [2, 1, 0] [10, 11, 12, 13] (applyRows_applies fun mask row => mask.getD row) Perm.refl
    (by decide) (by decide) (by intro id; unfold countingDrafts; split <;> decide)
    (by decide)).2 true _ (by decide +kernel)

end MyOperator.StructuredOutput
