import MyOperator.Lib.Ragged
import MyOperator.Lib.Writes

/-!
# The bitmask of the structured-output manager

`grammar_bitmask` fills a row for every draft token of a structured request and one for
the token after them. The serial path advances the grammar along the drafts and rolls it
back; the parallel path hands batches of rows to threads, which fill them in any order.
-/

namespace MyOperator.StructuredOutput

open Lib List Function Option

variable {ReqId G Mask : Type} [DecidableEq ReqId]

/-- What is read of a request; the grammar is that of its `structured_output_request`. -/
structure Request (G : Type) where
  useStructuredOutput : Bool
  isPrefillChunk : Bool
  promptTokenIds : List Nat
  reasoningEnded : Option Bool
  grammar : G

/-- The operations of a grammar backend: the row that `fill_bitmask` writes, and `accept_tokens` on
one token. -/
structure StructuredOutputGrammar (G Mask : Type) where
  isTerminated : G → Bool
  fillBitmask : G → Mask
  acceptToken : G → Int → Option G
  rollback : G → Nat → G

structure StructuredOutputManager (G Mask : Type) where
  backend : StructuredOutputGrammar G Mask
  fullMask : Mask
  /-- `is_reasoning_end` on the prompt. -/
  reasoner : Option (List Nat → Bool)
  enableInReasoning : Bool
  /-- Zero without a speculative config. -/
  numSpeculativeTokens : Nat
  maxNumSeqs : Nat
  fillBitmaskParallelThreshold : Nat := 128
  fillBitmaskParallelBatchSize : Nat := 16

/-- A row to fill: the grammar, the row's index, and whether to apply the mask. -/
abbrev Entry (G : Type) := G × Nat × Bool

/-- The state of `grammar_bitmask`. -/
structure Filling (ReqId G Mask : Type) where
  requests : ReqId → Option (Request G)
  bitmask : Nat → Mask
  cumulativeIndex : Nat

/-- The state of the loop over the draft tokens of a request. -/
structure Advance (G Mask : Type) where
  bitmask : Nat → Mask
  cumulativeIndex : Nat
  grammar : G
  applyBitmask : Bool
  stateAdvancements : Nat

/-- The state of the loop that submits the batches. -/
structure Submission (ReqId G : Type) where
  requests : ReqId → Option (Request G)
  promises : List (List (Entry G))
  batch : List (Entry G)
  cumulativeIndex : Nat

namespace StructuredOutputManager

variable (m : StructuredOutputManager G Mask)

/-- The rows of `_grammar_bitmask`, which is allocated once. -/
def capacity : Nat := m.maxNumSeqs * (1 + m.numSpeculativeTokens)

/-- `should_fill_bitmask`, and the request with the flag that it caches. -/
def shouldFillBitmask (request : Request G) : Bool × Request G :=
  match m.reasoner with
  | none => (true, request)
  | some isReasoningEnd =>
    if m.enableInReasoning then (true, request)
    else
      let reasoningEnded := request.reasoningEnded.getD (isReasoningEnd request.promptTokenIds)
      (reasoningEnded, { request with reasoningEnded := some reasoningEnded })

/-- The row that `_fill_bitmasks` leaves. -/
def rowMask (grammar : G) (applyBitmask : Bool) : Mask :=
  if applyBitmask ∧ m.backend.isTerminated grammar = false then m.backend.fillBitmask grammar
  else m.fullMask

/-- One pass of `_fill_bitmasks`. -/
def fillBitmasks (bitmask : Nat → Mask) (entry : Entry G) : Option (Nat → Mask) :=
  if entry.2.1 < m.capacity then
    some (update bitmask entry.2.1 (m.rowMask entry.1 entry.2.2))
  else none

/-- The body of the loop over the draft tokens. -/
def fillToken (s : Advance G Mask) (token : Int) : Option (Advance G Mask) := do
  let bitmask ← m.fillBitmasks s.bitmask (s.grammar, s.cumulativeIndex, s.applyBitmask)
  -- a padding token ends the advance
  let applyBitmask := s.applyBitmask && decide (token ≠ -1)
  let s := { s with bitmask, applyBitmask, cumulativeIndex := s.cumulativeIndex + 1 }
  if applyBitmask ∧ m.backend.isTerminated s.grammar = false then
    let grammar ← m.backend.acceptToken s.grammar token
    some { s with grammar, stateAdvancements := s.stateAdvancements + 1 }
  else some s

/-- The body of the serial loop over the structured requests. -/
def fillRequest (drafts : ReqId → List Int) (s : Filling ReqId G Mask) (reqId : ReqId) :
    Option (Filling ReqId G Mask) := do
  let request ← s.requests reqId
  let (applyBitmask, request) := m.shouldFillBitmask request
  let t ← (drafts reqId ++ [-1]).foldlM m.fillToken {
    bitmask := s.bitmask, cumulativeIndex := s.cumulativeIndex, grammar := request.grammar,
    applyBitmask, stateAdvancements := 0 }
  let grammar := if 0 < t.stateAdvancements then m.backend.rollback t.grammar t.stateAdvancements
    else t.grammar
  some {
    requests := update s.requests reqId (some { request with grammar })
    bitmask := t.bitmask
    cumulativeIndex := t.cumulativeIndex }

/-- The serial path. -/
def fillSerial (drafts : ReqId → List Int) (s : Filling ReqId G Mask) (reqIds : List ReqId) :
    Option (Filling ReqId G Mask) :=
  reqIds.foldlM (m.fillRequest drafts) s

/-- The body of the loop that submits the batches. -/
def submitRequest (s : Submission ReqId G) (reqId : ReqId) : Option (Submission ReqId G) := do
  let request ← s.requests reqId
  let (applyBitmask, request) := m.shouldFillBitmask request
  let batch := s.batch ++ [(request.grammar, s.cumulativeIndex, applyBitmask)]
  let s := { s with
    requests := update s.requests reqId (some request)
    cumulativeIndex := s.cumulativeIndex + 1 }
  if batch.length = m.fillBitmaskParallelBatchSize then
    some { s with promises := s.promises ++ [batch], batch := [] }
  else some { s with batch }

/-- The parallel path; `order` is the order in which the threads fill the rows. -/
def fillParallel (order : List (Entry G) → List (Entry G)) (s : Filling ReqId G Mask)
    (reqIds : List ReqId) : Option (Filling ReqId G Mask) := do
  let t ← reqIds.foldlM m.submitRequest ⟨s.requests, [], [], s.cumulativeIndex⟩
  let promises := if t.batch.isEmpty then t.promises else t.promises ++ [t.batch]
  let bitmask ← (order promises.flatten).foldlM m.fillBitmasks s.bitmask
  some ⟨t.requests, bitmask, t.cumulativeIndex⟩

/-- The rows are filled in parallel for many requests without draft tokens. -/
def fill (order : List (Entry G) → List (Entry G)) (drafts : ReqId → List Int)
    (s : Filling ReqId G Mask) (reqIds : List ReqId) : Option (Filling ReqId G Mask) :=
  if m.fillBitmaskParallelThreshold < reqIds.length ∧ m.numSpeculativeTokens = 0 then
    m.fillParallel order s reqIds
  else m.fillSerial drafts s reqIds

/-- `grammar_bitmask` for at least one request: the requests, and the rows. `bitmask` is what an
earlier call left in the rows, and an exception is `none`. -/
def grammarBitmask (order : List (Entry G) → List (Entry G)) (bitmask : Nat → Mask)
    (requests : ReqId → Option (Request G)) (reqIds : List ReqId) (drafts : ReqId → List Int) :
    Option ((ReqId → Option (Request G)) × List Mask) :=
  (m.fill order drafts ⟨requests, bitmask, 0⟩ reqIds).map fun t =>
    let rows := if t.cumulativeIndex < m.capacity then t.cumulativeIndex else m.capacity
    (t.requests, (range rows).map t.bitmask)

/-! ## The masks of a request -/

/-- The grammar accepts the token, if it is to advance and has not ended. -/
def advance (grammar : G) (applyBitmask : Bool) (token : Int) : Option G :=
  if applyBitmask ∧ m.backend.isTerminated grammar = false then
    m.backend.acceptToken grammar token
  else some grammar

/-- The masks for the draft tokens and the token after them: the grammar advances up to a padding
token or its end. -/
def draftMasks (grammar : G) (applyBitmask : Bool) : List Int → Option (List Mask)
  | [] => some [m.rowMask grammar applyBitmask]
  | token :: tokens => do
    let applyNext := applyBitmask && decide (token ≠ -1)
    let next ← m.advance grammar applyNext token
    let masks ← draftMasks next applyNext tokens
    some (m.rowMask grammar applyBitmask :: masks)

/-- The masks of a request with its draft tokens. -/
def requestMasks (request : Request G) (tokens : List Int) : Option (List Mask) :=
  m.draftMasks (m.shouldFillBitmask request).2.grammar (m.shouldFillBitmask request).1 tokens

end StructuredOutputManager

variable {m : StructuredOutputManager G Mask} {drafts : ReqId → List Int}

/-- The rows of a request. -/
def rowsOf (drafts : ReqId → List Int) (reqId : ReqId) : List Nat :=
  range (1 + (drafts reqId).length)

omit [DecidableEq ReqId] in
@[simp] theorem length_rowsOf {reqId : ReqId} :
    (rowsOf drafts reqId).length = 1 + (drafts reqId).length :=
  length_range

theorem fillBitmasks_eq_some {bitmask bitmask' : Nat → Mask} {entry : Entry G}
    (h : m.fillBitmasks bitmask entry = some bitmask') : entry.2.1 < m.capacity ∧
      bitmask' = update bitmask entry.2.1 (m.rowMask entry.1 entry.2.2) := by
  unfold StructuredOutputManager.fillBitmasks at h
  split_ifs at h with hlt
  exact ⟨hlt, (Option.some.inj h).symm⟩

theorem fillToken_spec {s t : Advance G Mask} {token : Int} (h : m.fillToken s token = some t) :
    s.cumulativeIndex < m.capacity ∧ t.cumulativeIndex = s.cumulativeIndex + 1 ∧
    t.bitmask = update s.bitmask s.cumulativeIndex (m.rowMask s.grammar s.applyBitmask) ∧
    t.applyBitmask = (s.applyBitmask && decide (token ≠ -1)) ∧
    m.advance s.grammar t.applyBitmask token = some t.grammar := by
  obtain ⟨bitmask, hfill, h⟩ := bind_eq_some_iff.mp h
  obtain ⟨hlt, rfl⟩ := fillBitmasks_eq_some hfill
  dsimp only at h
  split_ifs at h with hadvance
  · obtain ⟨grammar, haccept, h⟩ := bind_eq_some_iff.mp h
    obtain rfl := Option.some.inj h
    exact ⟨hlt, rfl, rfl, rfl, (if_pos hadvance).trans haccept⟩
  · obtain rfl := Option.some.inj h
    exact ⟨hlt, rfl, rfl, rfl, if_neg hadvance⟩

theorem fillTokens_spec {tokens : List Int} {s t : Advance G Mask}
    (h : (tokens ++ [-1]).foldlM m.fillToken s = some t) :
    ∃ masks, m.draftMasks s.grammar s.applyBitmask tokens = some masks ∧
      masks.length = 1 + tokens.length ∧
      t.cumulativeIndex = s.cumulativeIndex + (1 + tokens.length) ∧
      t.cumulativeIndex ≤ m.capacity ∧
      (∀ (p : Nat) mask, masks[p]? = some mask → t.bitmask (s.cumulativeIndex + p) = mask) ∧
      ∀ k < s.cumulativeIndex, t.bitmask k = s.bitmask k := by
  induction tokens generalizing s with
  | nil =>
    obtain ⟨u, hu, h⟩ := bind_eq_some_iff.mp h
    obtain rfl := Option.some.inj h
    obtain ⟨hlt, hcum, hbits, -, -⟩ := fillToken_spec hu
    refine ⟨_, rfl, rfl, hcum, by omega, fun p mask hp => ?_, fun k hk => ?_⟩
    · cases p with
      | zero => rw [hbits, Nat.add_zero, update_self, ← Option.some.inj hp]
      | succ p => cases hp
    · rw [hbits, update_of_ne (Nat.ne_of_lt hk)]
  | cons token tokens ih =>
    obtain ⟨u, hu, h⟩ := bind_eq_some_iff.mp h
    obtain ⟨hlt, hcum, hbits, happly, hnext⟩ := fillToken_spec hu
    obtain ⟨masks, hmasks, hlen, hcum', hcap, hrows, hbelow⟩ := ih h
    refine ⟨m.rowMask s.grammar s.applyBitmask :: masks, ?_, ?_, ?_, hcap, fun p mask hp => ?_,
      fun k hk => ?_⟩
    · unfold StructuredOutputManager.draftMasks
      rw [happly] at hnext hmasks
      dsimp only
      rw [hnext, bind_eq_bind, bind_some, hmasks]
      rfl
    · rw [length_cons, hlen, length_cons]
      omega
    · rw [length_cons]
      omega
    · cases p with
      | zero =>
        rw [Nat.add_zero, hbelow _ (by omega), hbits, update_self, ← Option.some.inj hp]
      | succ p => rw [← hrows p mask hp, hcum, Nat.add_right_comm, Nat.add_assoc]
    · rw [hbelow k (by omega), hbits, update_of_ne (Nat.ne_of_lt hk)]

variable {reqIds : List ReqId}

/-- A call fills the rows of its requests with their masks, one request after the other. -/
theorem fillSerial_spec (hnodup : reqIds.Nodup) {s t : Filling ReqId G Mask}
    (hs : s.cumulativeIndex ≤ m.capacity) (h : m.fillSerial drafts s reqIds = some t) :
    t.cumulativeIndex = s.cumulativeIndex + (reqIds.flatMap (rowsOf drafts)).length ∧
    t.cumulativeIndex ≤ m.capacity ∧ (∀ k < s.cumulativeIndex, t.bitmask k = s.bitmask k) ∧
    ∀ (i : Nat) reqId, reqIds[i]? = some reqId → ∃ masks,
      (s.requests reqId).bind (m.requestMasks · (drafts reqId)) = some masks ∧
      masks.length = 1 + (drafts reqId).length ∧ ∀ (p : Nat) mask, masks[p]? = some mask →
        t.bitmask (s.cumulativeIndex + segmentStart (rowsOf drafts) reqIds i + p) = mask := by
  induction reqIds generalizing s with
  | nil =>
    obtain rfl := Option.some.inj h
    exact ⟨rfl, hs, fun _ _ => rfl, nofun⟩
  | cons reqId reqIds ih =>
    obtain ⟨hnew, hnodup⟩ := nodup_cons.mp hnodup
    obtain ⟨u, hu, h⟩ := bind_eq_some_iff.mp h
    obtain ⟨request, hrequest, hu⟩ := bind_eq_some_iff.mp hu
    obtain ⟨v, hv, hu⟩ := bind_eq_some_iff.mp hu
    obtain ⟨masks, hmasks, hlen, hcum, hcap, hrows, hbelow⟩ := fillTokens_spec hv
    obtain rfl := Option.some.inj hu
    obtain ⟨hcum', hcap', hbelow', hrows'⟩ := ih hnodup hcap h
    dsimp only at hcum hcum' hbelow hbelow' hrows hrows'
    refine ⟨?_, hcap', fun k hk => ?_, fun i id hi => ?_⟩
    · rw [hcum', hcum, flatMap_cons, length_append, length_rowsOf, Nat.add_assoc]
    · rw [hbelow' k (by omega), hbelow k hk]
    · cases i with
      | zero =>
        obtain rfl := Option.some.inj hi
        refine ⟨masks, by rw [hrequest]; exact hmasks, hlen, fun p mask hp => ?_⟩
        have hlt := (List.getElem?_eq_some_iff.mp hp).1
        rw [← hrows p mask hp]
        exact hbelow' (s.cumulativeIndex + 0 + p) (by omega)
      | succ i =>
        obtain ⟨masks', hmasks', hlen', hrows''⟩ := hrows' i id hi
        have hne : id ≠ reqId := fun heq => hnew (heq ▸ mem_of_getElem? hi)
        rw [update_of_ne hne] at hmasks'
        refine ⟨masks', hmasks', hlen', fun p mask hp => ?_⟩
        rw [← hrows'' p mask hp, segmentStart_cons, length_rowsOf]
        congr 1
        omega

/-! ## The parallel path -/

/-- The entries of requests without draft tokens, and the requests after them. -/
def entriesOf (m : StructuredOutputManager G Mask) (requests : ReqId → Option (Request G)) (k : Nat) :
    List ReqId → Option (List (Entry G) × (ReqId → Option (Request G)))
  | [] => some ([], requests)
  | reqId :: reqIds => (requests reqId).bind fun request =>
    let r := m.shouldFillBitmask request
    (entriesOf m (update requests reqId (some r.2)) (k + 1) reqIds).map fun e =>
      ((r.2.grammar, k, r.1) :: e.1, e.2)

theorem entriesOf_index {requests requests' : ReqId → Option (Request G)} {k : Nat}
    {entries : List (Entry G)} (h : entriesOf m requests k reqIds = some (entries, requests')) :
    entries.map (·.2.1) = List.range' k reqIds.length := by
  induction reqIds generalizing requests k entries with
  | nil =>
    cases h
    rfl
  | cons reqId reqIds ih =>
    obtain ⟨request, -, h⟩ := bind_eq_some_iff.mp h
    obtain ⟨⟨rest, requests''⟩, hrest, h⟩ := map_eq_some_iff.mp h
    cases h
    rw [map_cons, ih hrest, length_cons, range'_succ]

theorem fillBitmasks_comm {entries : List (Entry G)} (h : (entries.map (·.2.1)).Nodup) :
    ∀ x ∈ entries, ∀ y ∈ entries, ∀ bitmask, (m.fillBitmasks bitmask x).bind (m.fillBitmasks · y) =
      (m.fillBitmasks bitmask y).bind (m.fillBitmasks · x) := by
  intro x hx y hy bitmask
  by_cases hxy : x = y
  · rw [hxy]
  · have hne : x.2.1 ≠ y.2.1 := fun heq => hxy (inj_on_of_nodup_map h hx hy heq)
    unfold StructuredOutputManager.fillBitmasks
    by_cases hltx : x.2.1 < m.capacity
    · by_cases hlty : y.2.1 < m.capacity
      · simp only [if_pos hltx, if_pos hlty, bind_some]
        rw [update_comm hne]
      · simp [hltx, hlty]
    · by_cases hlty : y.2.1 < m.capacity
      · simp [hltx, hlty]
      · simp [hltx, hlty]

theorem fillRequest_nil {reqId : ReqId} (hdrafts : drafts reqId = []) (s : Filling ReqId G Mask) :
    m.fillRequest drafts s reqId = (s.requests reqId).bind fun request =>
      (m.fillBitmasks s.bitmask ((m.shouldFillBitmask request).2.grammar, s.cumulativeIndex,
        (m.shouldFillBitmask request).1)).map fun bitmask =>
          ⟨update s.requests reqId (some (m.shouldFillBitmask request).2), bitmask,
            s.cumulativeIndex + 1⟩ := by
  unfold StructuredOutputManager.fillRequest
  rw [hdrafts]
  refine Option.bind_congr fun request _ => ?_
  dsimp only
  rw [nil_append, foldlM_cons, StructuredOutputManager.fillToken]
  cases m.fillBitmasks s.bitmask _ with
  | none => rfl
  | some bitmask => simp

theorem fillSerial_nil (hdrafts : ∀ reqId ∈ reqIds, drafts reqId = []) (s : Filling ReqId G Mask) :
    m.fillSerial drafts s reqIds =
      (entriesOf m s.requests s.cumulativeIndex reqIds).bind fun e =>
        (e.1.foldlM m.fillBitmasks s.bitmask).map fun bitmask =>
          ⟨e.2, bitmask, s.cumulativeIndex + reqIds.length⟩ := by
  induction reqIds generalizing s with
  | nil => rfl
  | cons reqId reqIds ih =>
    have ih := ih fun id hid => hdrafts id (mem_cons_of_mem _ hid)
    unfold StructuredOutputManager.fillSerial at ih ⊢
    unfold entriesOf
    rw [foldlM_cons, fillRequest_nil (hdrafts reqId mem_cons_self)]
    cases s.requests reqId with
    | none => rfl
    | some request =>
      rw [bind_some, bind_some, bind_eq_bind, bind_map]
      dsimp only [Function.comp_def]
      simp only [ih]
      -- the first entry may not be filled, or a later request be unknown
      cases entriesOf m (update s.requests reqId (some (m.shouldFillBitmask request).2))
        (s.cumulativeIndex + 1) reqIds with
      | none => simp
      | some e =>
        rw [map_some, bind_some, foldlM_cons]
        cases m.fillBitmasks s.bitmask ((m.shouldFillBitmask request).2.grammar,
          s.cumulativeIndex, (m.shouldFillBitmask request).1) with
        | none => rfl
        | some bitmask =>
          rw [bind_some, bind_eq_bind, bind_some, bind_some,
            length_cons, Nat.add_right_comm, Nat.add_assoc]

theorem submitRequest_entries {s : Submission ReqId G} :
    (reqIds.foldlM m.submitRequest s).map (fun t =>
      ((t.promises ++ [t.batch]).flatten, t.requests, t.cumulativeIndex)) =
    (entriesOf m s.requests s.cumulativeIndex reqIds).map fun e =>
      ((s.promises ++ [s.batch]).flatten ++ e.1, e.2, s.cumulativeIndex + reqIds.length) := by
  induction reqIds generalizing s with
  | nil => simp [entriesOf]
  | cons reqId reqIds ih =>
    unfold entriesOf
    rw [foldlM_cons, StructuredOutputManager.submitRequest]
    cases s.requests reqId with
    | none => rfl
    | some request =>
      rw [bind_some, bind_eq_bind, bind_eq_bind, bind_some]
      dsimp only
      split_ifs
      all_goals
        rw [bind_some, ih]
        cases entriesOf m (update s.requests reqId (some (m.shouldFillBitmask request).2))
          (s.cumulativeIndex + 1) reqIds with
        | none => rfl
        | some e => simp [Nat.add_assoc, Nat.add_comm 1]

theorem fillParallel_eq {order : List (Entry G) → List (Entry G)} (horder : ∀ l, (order l).Perm l)
    (hdrafts : ∀ reqId ∈ reqIds, drafts reqId = []) (s : Filling ReqId G Mask) :
    m.fillParallel order s reqIds = m.fillSerial drafts s reqIds := by
  rw [fillSerial_nil hdrafts]
  unfold StructuredOutputManager.fillParallel
  have hsubmit := @submitRequest_entries _ _ _ _ m reqIds ⟨s.requests, [], [], s.cumulativeIndex⟩
  cases hentries : entriesOf m s.requests s.cumulativeIndex reqIds with
  | none =>
    rw [hentries, map_none, map_eq_none_iff] at hsubmit
    rw [hsubmit]
    rfl
  | some e =>
    rw [hentries] at hsubmit
    obtain ⟨t, ht, hsame⟩ := map_eq_some_iff.mp hsubmit
    obtain ⟨hflat, hrequests, hcum⟩ := Prod.mk.inj hsame |>.imp_right Prod.mk.inj
    have hpromises : (if t.batch.isEmpty then t.promises else t.promises ++ [t.batch]).flatten =
        e.1 := by
      refine Eq.trans ?_ hflat
      split_ifs with hempty
      · rw [List.isEmpty_iff.mp hempty]
        simp
      · rfl
    rw [ht]
    dsimp only [bind_eq_bind, bind_some]
    have hindex : (e.1.map (·.2.1)).Nodup := by
      rw [entriesOf_index hentries]
      exact nodup_range'
    rw [hpromises, hrequests, hcum, ← foldlM_perm (horder e.1).symm (fillBitmasks_comm hindex)]
    cases e.1.foldlM m.fillBitmasks s.bitmask <;> rfl

end MyOperator.StructuredOutput
