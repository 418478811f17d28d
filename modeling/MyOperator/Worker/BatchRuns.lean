import MyOperator.Worker.Condense

/-!
# Runs of the persistent batch

The calls that the model runner makes in a step: requests are removed, added and
updated, the batch is condensed, rows are exchanged, and the changes are handed to the
logits processors. In every run the batch stands for the map of its requests, as long
as no call reaches one of the fields that the code forgets.
-/

namespace MyOperator.Worker

open Function Lib List

variable {G : Type}

/-- The batch, the requests it should stand for, and whether it was condensed since the
last `refresh_metadata`. -/
structure BatchState (G : Type) where
  batch : InputBatch G
  requests : String → Option (RequestRow G)
  condensed : Bool

/-- A call of the model runner. -/
inductive BatchEvent (G : Type)
  | remove (id : String)
  | add (outputs : Outputs) (request : CachedRequestState G)
  | update (id : String) (u : InputBatch.RowUpdate G)
  | condense
  | swap (i j : Nat)
  | refresh

namespace BatchState

/-- The state after a call. -/
def next (cfg : BatchConfig G) (s : BatchState G) :
    BatchEvent G → Except BatchError (BatchState G)
  | .remove id => do
      let batch ← s.batch.removeRequest cfg id
      return { s with batch := batch, requests := update s.requests id none }
  | .add outputs request => do
      let batch ← s.batch.addRequest cfg outputs request
      let numPromptTokens ←
        lengthFromPromptTokenIdsOrEmbeds request.promptTokenIds request.promptEmbeds
      return { s with
        batch := batch
        requests := update s.requests request.reqId
          (some (RequestRow.ofRequest cfg outputs request numPromptTokens)) }
  | .update id u =>
    match s.batch.reqIdToIndex.get? id with
    | none => .error .assertion
    | some row => .ok { s with
        batch := s.batch.updateRow row u
        requests := update s.requests id ((s.requests id).map (·.updated cfg u)) }
  | .condense => do
      let batch ← s.batch.condense cfg
      return { s with batch := batch, condensed := true }
  | .swap i j => do
      let batch ← s.batch.swapStates cfg i j
      return { s with batch := batch }
  | .refresh => .ok { s with batch := (s.batch.refreshMetadata cfg).2, condensed := false }

/-- When the model runner makes the call: requests change before `condense`, a request is
added once, rows are exchanged after `condense`, and tokens are only discarded that are there. -/
def Legal (cfg : BatchConfig G) (s : BatchState G) : BatchEvent G → Prop
  | .remove _ => s.condensed = false
  | .add _ request => s.condensed = false ∧
      s.batch.reqIdToIndex.get? request.reqId = none ∧ InputBatch.Fits cfg request
  | .update id (.discarded endIdx) =>
    ∀ g, s.requests id = some g → endIdx ≤ g.tokens.tokens.length
  | .update _ _ => True
  | .condense => s.condensed = false
  | .swap _ _ => s.condensed = true
  | .refresh => s.condensed = true

/-- The call does not reach a field that the code forgets: nothing of an earlier occupant is
left in the row that a request comes to, and exchanged rows agree on their mask or flag. -/
def Clean (cfg : BatchConfig G) (s : BatchState G) : BatchEvent G → Prop
  | .add _ request => s.batch.CleanRow s.batch.nextRow request
  | .condense => ∀ move ∈ s.batch.moves, s.batch.CleanMove cfg move.1 move.2
  | .swap i j => s.batch.CleanSwap cfg i j
  | _ => True

/-- The batch is the map of its requests: they occupy the first rows, the index is the
inverse of the rows, and each row holds what its request owns. -/
structure Refines (s : BatchState G) : Prop where
  length : s.batch.reqIds.length = s.batch.numReqs
  dense : ∀ r, r < s.batch.numReqs ↔ ∃ id, s.batch.occ r = some id
  inverse : ∀ r id, s.batch.occ r = some id ↔ s.batch.reqIdToIndex.get? id = some r
  live : ∀ id, (s.requests id).isSome ↔ ∃ r, s.batch.occ r = some id
  held : ∀ r id, s.batch.occ r = some id → ∃ g, s.requests id = some g ∧ s.batch.RowHolds r g

end BatchState

/-- The runs of the model runner. -/
def batchRuns (cfg : BatchConfig G) : TSys (BatchState G) where
  init s := s = ⟨InputBatch.init cfg, fun _ => none, false⟩
  step s t := ∃ e, s.Legal cfg e ∧ s.next cfg e = .ok t

/-- The runs whose calls are clean. -/
def cleanRuns (cfg : BatchConfig G) : TSys (BatchState G) where
  init := (batchRuns cfg).init
  step s t := ∃ e, s.Legal cfg e ∧ s.Clean cfg e ∧ s.next cfg e = .ok t

namespace InputBatch

variable {cfg : BatchConfig G} {b b' : InputBatch G} {m : String → Option (RequestRow G)}
  {free : List Nat} {n r row : Nat} {id : String} {g : RequestRow G}

/-! ## Updates -/

theorem updateRow_specTokenIds (u : RowUpdate G) :
    (b.updateRow row u).tokens.specTokenIds.length = b.tokens.specTokenIds.length := by
  cases u with
  | spec tokenIds =>
    show (b.tokens.updateReqSpecTokenIds row tokenIds).specTokenIds.length = _
    rw [TokenRows.updateReqSpecTokenIds]
    split_ifs <;> exact length_set
  | sampled tokenIds =>
    show (b.tokens.recordSampled row tokenIds).specTokenIds.length = _
    rw [TokenRows.recordSampled]
    split_ifs <;> rfl
  | discarded _ => rfl
  | computed _ => rfl
  | blocks _ => rfl
  | accepted _ => rfl

theorem RowHolds.updateRow (hold : b.RowHolds row g) (hspec : row < b.tokens.specTokenIds.length)
    (hblocks : ∀ k, (b.blockTable k).blocksPerKvBlock = cfg.blocksPerKvBlock k)
    {u : RowUpdate G} (hfit : ∀ endIdx, u = .discarded endIdx → endIdx ≤ g.tokens.tokens.length) :
    (b.updateRow row u).RowHolds row (g.updated cfg u) := by
  cases u with
  | spec tokenIds => exact { hold with tokens := hold.tokens.updateReqSpecTokenIds hspec tokenIds }
  | sampled tokenIds => exact { hold with tokens := hold.tokens.recordSampled tokenIds }
  | discarded endIdx => exact { hold with tokens := hold.tokens.discardTokens (hfit endIdx rfl) }
  | computed n => exact { hold with tokens := hold.tokens.setNumComputed n }
  | blocks ids =>
    refine { hold with blocks := fun k => ?_ }
    refine BlockTable.rowBlocks_appendRow.trans ?_
    rw [hold.blocks k, hblocks k]
    rfl
  | accepted n =>
    refine { hold with sampling := fun s hs => ?_ }
    obtain ⟨s', hs', rfl⟩ := Option.map_eq_some_iff.mp hs
    exact SamplingRows.row_setAccepted.trans (by rw [hold.sampling s' hs'])

theorem RowHolds.updateRow_of_ne (hold : b.RowHolds r g)
    (hspec : row < b.tokens.specTokenIds.length) (hr : r ≠ row) (u : RowUpdate G) :
    (b.updateRow row u).RowHolds r g := by
  cases u with
  | spec tokenIds =>
    exact { hold with tokens := hold.tokens.updateReqSpecTokenIds_of_ne hspec hr tokenIds }
  | sampled tokenIds => exact { hold with tokens := hold.tokens.recordSampled_of_ne hr tokenIds }
  | discarded endIdx => exact { hold with tokens := hold.tokens.discardTokens_of_ne hr endIdx }
  | computed n => exact { hold with tokens := hold.tokens.setNumComputed_of_ne hr n }
  | blocks ids =>
    exact { hold with
      blocks := fun k => (BlockTable.rowBlocks_appendRow_of_ne hr).trans (hold.blocks k) }
  | accepted n =>
    exact { hold with
      sampling := fun s hs =>
        (SamplingRows.row_setAccepted_of_ne hr).trans (hold.sampling s hs) }

theorem Sound.updateRow (h : Sound cfg b m free n) (hrow : b.occ row = some id) (hg : m id = some g)
    {u : RowUpdate G} (hfit : ∀ endIdx, u = .discarded endIdx → endIdx ≤ g.tokens.tokens.length) :
    Sound cfg (b.updateRow row u) (update m id (some (g.updated cfg u))) free n := by
  obtain ⟨hids, hindex, houts, -, -, -⟩ := @updateRow_frame _ b row u
  have hspec := h.lt_spec hrow
  have hocc : (b.updateRow row u).occ = b.occ := by rw [occ, hids]; rfl
  constructor
  case toPlaced => exact h.toPlaced.updateRow u
  case outputs =>
    rw [houts, hids]
    exact h.outputs
  case spec =>
    rw [hids, updateRow_specTokenIds]
    exact h.spec
  case specFree =>
    intro r hr
    rw [hocc] at hr
    have hne : r ≠ row := by
      rintro rfl
      rw [hrow] at hr
      cases hr
    have hold := h.specFree r hr
    cases u with
    | spec tokenIds =>
      exact (TokenRows.specAt_updateReqSpecTokenIds hspec).trans ((if_neg hne).trans hold)
    | sampled tokenIds =>
      show (b.tokens.recordSampled row tokenIds).specAt r = []
      rw [TokenRows.recordSampled]
      split_ifs <;> exact hold
    | discarded _ => exact hold
    | computed _ => exact hold
    | blocks _ => exact hold
    | accepted _ => exact hold
  case entryFree =>
    intro hp r hr
    rw [hocc] at hr
    have hold := h.entryFree hp r hr
    cases u <;> exact hold
  case blocksPer =>
    intro k
    cases u with
    | blocks ids => exact BlockTable.blocksPerKvBlock_appendRow.trans (h.blocksPer k)
    | spec _ => exact h.blocksPer k
    | sampled _ => exact h.blocksPer k
    | discarded _ => exact h.blocksPer k
    | computed _ => exact h.blocksPer k
    | accepted _ => exact h.blocksPer k
  case absent =>
    intro k hk
    rw [hindex] at hk
    have hkk : k ≠ id := by
      rintro rfl
      rw [(h.rows.inverse row k).mp hrow] at hk
      cases hk
    rw [update_of_ne hkk]
    exact h.absent k hk
  case held =>
    intro r k hk
    rw [hocc] at hk
    obtain ⟨g', hg', hold⟩ := h.held r k hk
    by_cases hne : r = row
    · subst hne
      obtain rfl := Option.some.inj (hrow.symm.trans hk)
      obtain rfl := Option.some.inj (hg.symm.trans hg')
      exact ⟨_, update_self .., hold.updateRow hspec h.blocksPer hfit⟩
    · have hkk : k ≠ id := by
        rintro rfl
        exact hne (h.rows.occ_inj hk hrow)
      exact ⟨g', (update_of_ne hkk ..).trans hg', hold.updateRow_of_ne hspec hne u⟩
  case kind =>
    intro k g' hg'
    by_cases hkk : k = id
    · rw [hkk, update_self] at hg'
      obtain rfl := Option.some.inj hg'
      obtain ⟨h1, h2⟩ := h.kind id g hg
      cases u with
      | accepted n => exact ⟨fun hp => by simp [RequestRow.updated, h1 hp], h2⟩
      | spec _ => exact ⟨h1, h2⟩
      | sampled _ => exact ⟨h1, h2⟩
      | discarded _ => exact ⟨h1, h2⟩
      | computed _ => exact ⟨h1, h2⟩
      | blocks _ => exact ⟨h1, h2⟩
    · rw [update_of_ne hkk] at hg'
      exact h.kind k g' hg'

end InputBatch

namespace BatchState

variable {cfg : BatchConfig G} {s t : BatchState G} {e : BatchEvent G}

/-- The invariant of the runs: after `condense` no row below the last is free, before it
the free rows are the ones registered as removed. -/
structure Inv (cfg : BatchConfig G) (s : BatchState G) : Prop where
  filling : s.condensed = false → InputBatch.Filling s.batch
  sound : InputBatch.Sound cfg s.batch s.requests
    (if s.condensed then [] else s.batch.builder.removedRaw) s.batch.reqIds.length

theorem Inv.whileFilling (h : s.Inv cfg) (hcond : s.condensed = false) :
    InputBatch.Sound cfg s.batch s.requests s.batch.builder.removedRaw s.batch.reqIds.length := by
  have hs := h.sound
  rw [if_neg (by simp [hcond])] at hs
  exact hs

theorem Inv.whenCondensed (h : s.Inv cfg) (hcond : s.condensed = true) :
    InputBatch.Sound cfg s.batch s.requests [] s.batch.reqIds.length := by
  have hs := h.sound
  rw [if_pos hcond] at hs
  exact hs

theorem filling_init : InputBatch.Filling (InputBatch.init cfg) := by
  constructor
  case placed =>
    refine ⟨?_, Nat.le_refl 0⟩
    exact {
      inverse := fun r k => by
        exact ⟨fun hk => (nomatch hk), fun hk => (nomatch hk)⟩
      below := fun r k hk => by
        cases hk
      free_iff := fun r hr => absurd hr (Nat.not_lt_zero r)
      nodup := nodup_nil }
  case below => exact fun r hr => (nomatch hr)
  case sorted => exact fun _ => Pairwise.nil
  case moved => rfl

theorem inv_init : Inv cfg ⟨InputBatch.init cfg, fun _ => none, false⟩ := by
  refine ⟨fun _ => filling_init, ?_⟩
  constructor
  case toPlaced => exact filling_init.placed
  case outputs => rfl
  case spec => exact Nat.zero_le _
  case specFree =>
    intro r _
    show (replicate cfg.maxNumReqs []).getD r [] = []
    rw [getD_eq_getElem?_getD, getElem?_replicate]
    split_ifs <;> rfl
  case entryFree => exact fun _ _ _ => ⟨rfl, rfl⟩
  case blocksPer => exact fun _ => rfl
  case absent => exact fun _ _ => rfl
  case held =>
    intro r k hk
    cases hk
  case kind => exact fun _ _ hg => (nomatch hg)

theorem Inv.next (h : s.Inv cfg) (hlegal : s.Legal cfg e) (hclean : s.Clean cfg e)
    (hop : s.next cfg e = .ok t) : t.Inv cfg := by
  cases e with
  | remove id =>
    obtain ⟨b', hb, ht⟩ := bind_ok hop
    obtain rfl := Except.ok.inj ht
    replace hlegal : s.condensed = false := hlegal
    have hs := h.whileFilling hlegal
    cases hid : s.batch.reqIdToIndex.get? id with
    | none =>
      obtain rfl := InputBatch.removeRequest_none hid hb
      have hsame : update s.requests id none = s.requests :=
        update_eq_self_iff.mpr (hs.absent id hid).symm
      rw [hsame]
      exact h
    | some row =>
      obtain ⟨hfill, -, hraw, -⟩ := (h.filling hlegal).removeRequest hid hb
      refine ⟨fun _ => hfill, ?_⟩
      have hsound := hs.removeRequest hid hb
      have hlen : b'.reqIds.length = s.batch.reqIds.length := by
        rw [(InputBatch.removeRequest_eq hid hb).2]
        exact length_set
      show InputBatch.Sound cfg b' _ (if s.condensed then [] else b'.builder.removedRaw) _
      rw [if_neg (by simp [hlegal]), hraw, hlen]
      exact hsound.congr_free (perm_append_singleton row _).symm
  | add outputs request =>
    obtain ⟨hcond, hid, hfits⟩ := hlegal
    obtain ⟨b', hb, ht⟩ := bind_ok hop
    obtain ⟨numPromptTokens, hn, ht⟩ := bind_ok ht
    obtain rfl := Except.ok.inj ht
    have hfill := h.filling hcond
    obtain ⟨n, hn', hsound⟩ := InputBatch.Sound.addRequest hfill (h.whileFilling hcond) hid hfits hclean hb
    rw [hn] at hn'
    obtain rfl := Except.ok.inj hn'
    refine ⟨fun _ => (hfill.addRequest hid hb).1, ?_⟩
    show InputBatch.Sound cfg b' _ (if s.condensed then [] else b'.builder.removedRaw) _
    rw [if_neg (by simp [hcond])]
    exact hsound
  | update id u =>
    rw [BatchState.next] at hop
    cases hid : s.batch.reqIdToIndex.get? id with
    | none =>
      simp only [hid] at hop
      cases hop
    | some row =>
      simp only [hid] at hop
      obtain rfl := Except.ok.inj hop
      have hs := h.sound
      have hrow := hs.row_of_index hid
      obtain ⟨g, hg, -⟩ := hs.held row id hrow
      have hfit : ∀ endIdx, u = .discarded endIdx → endIdx ≤ g.tokens.tokens.length := by
        rintro endIdx rfl
        exact hlegal g hg
      obtain ⟨hids, -, -, -, -, hbuilder⟩ := @InputBatch.updateRow_frame _ s.batch row u
      constructor
      case filling =>
        intro hcond
        have hfill := h.filling hcond
        constructor
        case placed =>
          rw [hids, hbuilder]
          exact hfill.placed.updateRow u
        case below =>
          rw [hids, hbuilder]
          exact hfill.below
        case sorted =>
          rw [hbuilder]
          exact hfill.sorted
        case moved =>
          rw [hbuilder]
          exact hfill.moved
      case sound =>
        rw [hids, hbuilder, hg]
        exact hs.updateRow hrow hg hfit
  | condense =>
    obtain ⟨b', hb, ht⟩ := bind_ok hop
    obtain rfl := Except.ok.inj ht
    refine ⟨fun hcond => (by cases hcond), ?_⟩
    exact InputBatch.Sound.condense (h.filling hlegal) (h.whileFilling hlegal) hclean hb
  | swap i j =>
    obtain ⟨b', hb, ht⟩ := bind_ok hop
    obtain rfl := Except.ok.inj ht
    replace hlegal : s.condensed = true := hlegal
    refine ⟨fun hcond => absurd hlegal (by simp [show s.condensed = false from hcond]), ?_⟩
    show InputBatch.Sound cfg b' _ (if s.condensed then [] else _) _
    rw [if_pos hlegal]
    exact (h.whenCondensed hlegal).swapStates hclean hb
  | refresh =>
    obtain rfl := Except.ok.inj hop
    have hs := h.whenCondensed hlegal
    obtain ⟨hfill, x, hx, hraw, -⟩ := @InputBatch.Placed.refreshMetadata _ cfg _ hs.toPlaced
    refine ⟨fun _ => hfill, ?_⟩
    show InputBatch.Sound cfg (s.batch.refreshMetadata cfg).2 _ _ _
    rw [hx]
    show InputBatch.Sound cfg _ _ x.removedRaw _
    rw [hraw]
    exact hs.builder x

theorem Inv.refines (h : s.Inv cfg) (hcond : s.condensed = true) : s.Refines := by
  have hs := h.whenCondensed hcond
  have hnum := hs.toPlaced.numReqs_eq
  constructor
  case length => exact hnum.symm
  case dense =>
    intro r
    rw [hnum]
    constructor
    · intro hr
      cases ho : s.batch.occ r with
      | none => exact absurd ((hs.rows.free_iff r hr).mp ho) not_mem_nil
      | some id => exact ⟨id, rfl⟩
    · rintro ⟨id, hid⟩
      exact hs.rows.below r id hid
  case inverse => exact hs.rows.inverse
  case live =>
    intro id
    constructor
    · intro hsome
      cases hid : s.batch.reqIdToIndex.get? id with
      | none =>
        rw [hs.absent id hid] at hsome
        cases hsome
      | some r => exact ⟨r, hs.row_of_index hid⟩
    · rintro ⟨r, hr⟩
      obtain ⟨g, hg, -⟩ := hs.held r id hr
      rw [hg]
      rfl
  case held => exact hs.held

end BatchState

/-- In every run whose calls are clean the condensed batch is the map of its requests. -/
theorem batch_refines (cfg : BatchConfig G) :
    (cleanRuns cfg).Invariant fun s => s.condensed = true → s.Refines := by
  have hinv : (cleanRuns cfg).Inductive fun s => s.Inv cfg := {
    base := by
      rintro s rfl
      exact BatchState.inv_init
    step := by
      rintro s t h ⟨e, hlegal, hclean, hop⟩
      exact h.next hlegal hclean hop }
  intro s hs
  exact (hinv.invariant s hs).refines

/-! ## A mask that is not exchanged -/

/-- Two rows, one group of the cache, a generation model. -/
def smallBatch : BatchConfig Unit where
  maxNumReqs := 2
  vocabSize := 4
  isPoolingModel := false
  blocksPerKvBlock := fun _ => 1

/-- A request that may only generate the token 1, and one without that limit. -/
def limited (id : String) (allowed : Option (List Nat)) : CachedRequestState Unit where
  reqId := id
  promptTokenIds := some [0]
  samplingParams := some { allowedTokenIds := allowed }
  blockIds := fun _ => [1]
  outputTokenIds := 0

/-- Both requests are added, the batch is condensed and their rows are exchanged. -/
def exchange : List (BatchEvent Unit) :=
  [.add (fun _ => []) (limited "a" (some [1])), .add (fun _ => []) (limited "b" none), .condense,
    .swap 0 1]

/-- A list of calls. -/
def BatchState.run (cfg : BatchConfig G) (s : BatchState G) (es : List (BatchEvent G)) :
    Except BatchError (BatchState G) := es.foldlM (BatchState.next cfg) s

/-- Each call of the list is legal where it is made. -/
def LegalRun (cfg : BatchConfig G) : BatchState G → List (BatchEvent G) → Prop
  | _, [] => True
  | s, e :: es => s.Legal cfg e ∧ ∀ t, s.next cfg e = .ok t → LegalRun cfg t es

theorem reachable_run {cfg : BatchConfig G} {es : List (BatchEvent G)} {s t : BatchState G}
    (hs : (batchRuns cfg).Reachable s) (hlegal : LegalRun cfg s es)
    (hrun : s.run cfg es = .ok t) : (batchRuns cfg).Reachable t := by
  induction es generalizing s with
  | nil =>
    obtain rfl := Except.ok.inj hrun
    exact hs
  | cons e es ih =>
    obtain ⟨s1, hop, hrun⟩ := bind_ok hrun
    exact ih (hs.step ⟨e, hlegal.1, hop⟩) (hlegal.2 s1 hop) hrun

/-- After the exchange the limited request has the mask of the other one: nothing is masked. -/
theorem swap_keeps_mask :
    ∃ s, (batchRuns smallBatch).Reachable s ∧ s.condensed = true ∧ ¬ s.Refines := by
  have hfits : ∀ id allowed, InputBatch.Fits smallBatch (limited id allowed) := by
    intro id allowed
    exact (if_neg Bool.false_ne_true).mpr (by simp [limited])
  have hrun := eq_ok_get
    (x := BatchState.run smallBatch ⟨InputBatch.init smallBatch, fun _ => none, false⟩ exchange) rfl
  have hlegal : LegalRun smallBatch ⟨InputBatch.init smallBatch, fun _ => none, false⟩ exchange := by
    refine ⟨⟨rfl, rfl, hfits _ _⟩, fun s1 h1 => ?_⟩
    obtain rfl := Except.ok.inj h1
    refine ⟨⟨rfl, rfl, hfits _ _⟩, fun s2 h2 => ?_⟩
    obtain rfl := Except.ok.inj h2
    refine ⟨rfl, fun s3 h3 => ?_⟩
    obtain rfl := Except.ok.inj h3
    exact ⟨rfl, fun _ _ => trivial⟩
  refine ⟨_, reachable_run (.init rfl) hlegal hrun, rfl, fun href => ?_⟩
  obtain ⟨g, hg, hold⟩ := href.held 1 "a" rfl
  obtain rfl := Option.some.inj hg
  have hmask := congrArg (fun row => row.mask 0) (hold.sampling _ rfl)
  exact absurd hmask (by decide)

end MyOperator.Worker
