import MyOperator.Worker.BatchRuns
import MyOperator.Worker.LogitsTables

/-!
# Runs of the logits processors

The model runner changes the batch and, once in a step, hands the collected changes to
the processors. Beside what the processors keep by row the runs carry what each of them
would keep of every request on its own: after `refresh_metadata` the two agree, unless
a row without a thinking budget was moved over the entry of a removed request.
-/

namespace MyOperator.Worker

open Function Lib Option

variable {G V : Type}

/-! ## What a processor keeps of a request -/

/-- The state of each processor for one request. -/
structure RequestState where
  minP : Rat := 0
  logitBias : Option (List (TokenId × Rat)) := none
  minTokens : Option MinTokensEntry := none
  thinking : Option ThinkState := none

namespace RequestState

/-- What the processors make of an added request. -/
def ofAdded (rcfg : ReasoningConfig) (outputs : Outputs) (a : AddedRequest) : RequestState where
  minP := a.params.minP
  logitBias := LogitBiasLogitsProcessor.newState a
  minTokens := MinTokensLogitsProcessor.newState outputs a
  thinking := ThinkingTokenBudgetLogitsProcessor.newState rcfg a

/-- What the end of `update_state` does with it. -/
def advance (rcfg : ReasoningConfig) (outputs : Outputs) (s : RequestState) : RequestState :=
  { s with
    minTokens := s.minTokens.filter fun e => !MinTokensLogitsProcessor.attained outputs e
    thinking := s.thinking.map fun e => e.updateThinkState rcfg (outputs e.outputTokIds) }

end RequestState

/-! ## The runs -/

/-- The batch, the processors, the requests added since the last `refresh_metadata`, and the
state of each request; `refreshed` until the batch changes again. -/
structure ProcState (G : Type) where
  base : BatchState G
  minP : MinPLogitsProcessor := {}
  logitBias : LogitBiasLogitsProcessor := {}
  minTokens : MinTokensLogitsProcessor := {}
  thinking : ThinkingTokenBudgetLogitsProcessor := {}
  fresh : String → Option AddedRequest := fun _ => none
  states : String → RequestState := fun _ => {}
  refreshed : Bool := false

/-- A call that changes the batch, or the end of the changes of a step, with what the lists
of output tokens hold then. -/
inductive ProcEvent (G : Type)
  | call (e : BatchEvent G)
  | refresh (outputs : Outputs)

/-- The requests added since the last `refresh_metadata`, after a call. -/
def BatchState.freshAfter (s : BatchState G) (fresh : String → Option AddedRequest) :
    BatchEvent G → String → Option AddedRequest
  | .remove id => update fresh id none
  | .add _ request => update fresh request.reqId (s.batch.addedEntry request).head?
  | _ => fresh

namespace ProcState

/-- The state of each request after `update_state`. -/
def statesAfter (rcfg : ReasoningConfig) (outputs : Outputs) (s : ProcState G) (id : String) :
    RequestState :=
  ((s.fresh id).elim (s.states id) (RequestState.ofAdded rcfg outputs)).advance rcfg outputs

/-- The state after a call. -/
def next (cfg : BatchConfig G) (rcfg : ReasoningConfig) (s : ProcState G) :
    ProcEvent G → Except BatchError (ProcState G)
  | .call e => do
      let base ← s.base.next cfg e
      return { s with base := base, fresh := s.base.freshAfter s.fresh e, refreshed := false }
  | .refresh outputs => do
      let base ← s.base.next cfg .refresh
      return {
        base := base
        minP := s.minP.updateState (s.base.batch.refreshMetadata cfg).1
        logitBias := s.logitBias.updateState (s.base.batch.refreshMetadata cfg).1
        minTokens := s.minTokens.updateState outputs (s.base.batch.refreshMetadata cfg).1
        thinking := s.thinking.updateState rcfg outputs (s.base.batch.refreshMetadata cfg).1
        fresh := fun _ => none
        states := s.statesAfter rcfg outputs
        refreshed := true }

/-- The calls of the model runner, `refresh_metadata` with the processors only. -/
def Legal (cfg : BatchConfig G) (s : ProcState G) : ProcEvent G → Prop
  | .call e => e ≠ .refresh ∧ s.base.Legal cfg e
  | .refresh _ => s.base.Legal cfg .refresh

/-- No row without a thinking entry is moved to a row that still has one. -/
def Clean (cfg : BatchConfig G) (rcfg : ReasoningConfig) (s : ProcState G) : ProcEvent G → Prop
  | .call _ => True
  | .refresh _ => ∀ u, (s.base.batch.refreshMetadata cfg).1 = some u → rcfg.isEnabled = true →
      MovesFilled u.moved (ThinkingTokenBudgetLogitsProcessor.beforeMoves rcfg u s.thinking.state)

/-- Every row holds, in each processor, the state of the request that is there, and the
processors' own summaries are exact. -/
structure Follows (rcfg : ReasoningConfig) (s : ProcState G) : Prop where
  minP : ∀ r, s.minP.minPCpu r = (s.base.batch.occ r).elim 0 fun id => (s.states id).minP
  minPCount : s.minP.minPCount = countNonzero s.base.batch.numReqs s.minP.minPCpu
  logitBias : ∀ r,
    s.logitBias.biases.get? r = (s.base.batch.occ r).elim none fun id => (s.states id).logitBias
  biasSlice : s.logitBias.logitsSlice = LogitBiasLogitsProcessor.sliceOf s.logitBias.biases
  minTokens : ∀ r,
    s.minTokens.minToks.get? r = (s.base.batch.occ r).elim none fun id => (s.states id).minTokens
  stopSlice : s.minTokens.logitsSlice = MinTokensLogitsProcessor.sliceOf s.minTokens.minToks
  thinking : ∀ r, s.thinking.state.get? r =
    if rcfg.isEnabled then (s.base.batch.occ r).elim none fun id => (s.states id).thinking else none

end ProcState

/-- The runs of the model runner with its logits processors, which only models that generate
have. -/
def logitsRuns (cfg : BatchConfig G) (rcfg : ReasoningConfig) : TSys (ProcState G) where
  init s := cfg.isPoolingModel = false ∧ s = { base := ⟨InputBatch.init cfg, fun _ => none, false⟩ }
  step s t := ∃ e, s.Legal cfg e ∧ s.next cfg rcfg e = .ok t

/-- The runs in which no thinking entry is left behind by a move. -/
def cleanLogitsRuns (cfg : BatchConfig G) (rcfg : ReasoningConfig) : TSys (ProcState G) where
  init := (logitsRuns cfg rcfg).init
  step s t := ∃ e, s.Legal cfg e ∧ s.Clean cfg rcfg e ∧ s.next cfg rcfg e = .ok t

/-! ## Tables -/

/-- The table that holds for each row a value of the request there. -/
def tableOf (zero : V) (value : String → V) (occ : Nat → Option String) : Nat → V :=
  fun r => (occ r).elim zero value

/-- The value of a row by where its request comes from. -/
def valueAt (zero : V) (value : String → V) (new : AddedRequest → V) :
    Option InputBatch.Origin → V
  | none => zero
  | some (.kept id) => value id
  | some (.new a) => new a

/-- A table that follows the update comes to hold the values of the requests that are now
at its rows. -/
theorem InputBatch.Tracked.table {b : InputBatch G} {occ0 : Nat → Option String}
    {fresh : String → Option AddedRequest} (h : b.Tracked occ0 fresh) {zero : V}
    {value : String → V} {new : AddedRequest → V} :
    follow zero new b.pending (tableOf zero value occ0) =
      tableOf zero (fun id => (fresh id).elim (value id) new) b.occ := by
  have hstart : tableOf zero value occ0 = valueAt zero value new ∘ fun r => (occ0 r).map .kept := by
    funext r
    rw [tableOf, comp_apply]
    cases occ0 r <;> rfl
  have hcomp : valueAt zero value new ∘
      follow none (fun a => some (Origin.new a)) b.pending (fun r => (occ0 r).map .kept) =
        follow zero new b.pending (valueAt zero value new ∘ fun r => (occ0 r).map .kept) :=
    comp_follow
  rw [hstart, ← hcomp]
  funext r
  rw [comp_apply, h r, tableOf]
  cases hocc : b.occ r with
  | none => rfl
  | some id =>
    show valueAt zero value new (some (originOf fresh id)) = (fresh id).elim (value id) new
    rw [originOf]
    cases fresh id <;> rfl

theorem follow_of_nil {u : BatchUpdate} {zero : V} {new : AddedRequest → V} {t : Nat → V}
    (hremoved : u.removed = []) (hadded : u.added = []) (hmoved : u.moved = []) :
    follow zero new u t = t := by
  rw [follow, hremoved, hadded, hmoved]
  funext r
  show clearRows zero [] t r = t r
  exact if_neg List.not_mem_nil

/-! ## The batch between two updates -/

namespace BatchState

variable {cfg : BatchConfig G} {s t : BatchState G} {e : BatchEvent G}
  {occ0 : Nat → Option String} {fresh : String → Option AddedRequest}

/-- The rows of the batch follow the update that is collected. -/
structure Tracks (cfg : BatchConfig G) (s : BatchState G) (occ0 : Nat → Option String)
    (fresh : String → Option AddedRequest) : Prop where
  filling : s.condensed = false → s.batch.Filling
  placed : s.condensed = true → s.batch.Placed [] s.batch.reqIds.length
  within : s.batch.Within cfg.maxNumReqs
  tracked : s.batch.Tracked occ0 fresh

theorem Tracks.next (h : s.Tracks cfg occ0 fresh) (hpool : cfg.isPoolingModel = false)
    (hlegal : s.Legal cfg e) (hne : e ≠ .refresh) (hop : s.next cfg e = .ok t) :
    t.Tracks cfg occ0 (s.freshAfter fresh e) := by
  cases e with
  | remove id =>
    obtain ⟨b', hb, ht⟩ := bind_ok hop
    obtain rfl := Except.ok.inj ht
    replace hlegal : s.condensed = false := hlegal
    have hfill := h.filling hlegal
    have hcond : s.condensed ≠ true := by simp [hlegal]
    cases hid : s.batch.reqIdToIndex.get? id with
    | none =>
      obtain rfl := InputBatch.removeRequest_none hid hb
      refine { h with tracked := fun r => (h.tracked r).trans ?_ }
      show (s.batch.occ r).map (InputBatch.originOf fresh) =
        (s.batch.occ r).map (InputBatch.originOf (update fresh id none))
      cases hk : s.batch.occ r with
      | none => rfl
      | some k =>
        have hkk : k ≠ id := by
          rintro rfl
          rw [(hfill.placed.rows.inverse r _).mp hk] at hid
          cases hid
        simp [InputBatch.originOf, update_of_ne hkk]
    | some row =>
      exact {
        filling := fun _ => (hfill.removeRequest hid hb).1
        placed := fun hc => absurd hc hcond
        within := h.within.removeRequest hid hfill hb
        tracked := h.tracked.removeRequest hfill hid hb }
  | add outputs request =>
    obtain ⟨hcond, hid, hfits⟩ := hlegal
    obtain ⟨b', hb, ht⟩ := bind_ok hop
    obtain ⟨numPromptTokens, -, ht⟩ := bind_ok ht
    obtain rfl := Except.ok.inj ht
    have hfill := h.filling hcond
    have hentry : ∃ a, s.batch.addedEntry request = [a] := by
      rw [InputBatch.Fits, hpool, if_neg Bool.false_ne_true] at hfits
      obtain ⟨params, hparams⟩ := ne_none_iff_exists'.mp hfits
      exact ⟨_, by rw [InputBatch.addedEntry, hparams]⟩
    obtain ⟨a, ha⟩ := hentry
    constructor
    case filling => exact fun _ => (hfill.addRequest hid hb).1
    case placed => exact fun hc => absurd hc (by simp [hcond])
    case within => exact h.within.addRequest hfill hid hb
    case tracked =>
      show InputBatch.Tracked b' occ0 (update fresh request.reqId (s.batch.addedEntry request).head?)
      rw [ha]
      exact h.tracked.addRequest hfill hid ha hb
  | update id u =>
    rw [BatchState.next] at hop
    cases hid : s.batch.reqIdToIndex.get? id with
    | none =>
      simp only [hid] at hop
      cases hop
    | some row =>
      simp only [hid] at hop
      obtain rfl := Except.ok.inj hop
      obtain ⟨hocc, hpending⟩ := @InputBatch.pending_updateRow _ s.batch row u
      constructor
      case filling => exact fun hc => (h.filling hc).updateRow u
      case placed =>
        intro hc
        show InputBatch.Placed _ [] (s.batch.updateRow row u).reqIds.length
        rw [(@InputBatch.updateRow_frame _ s.batch row u).1]
        exact (h.placed hc).updateRow u
      case within => exact h.within.updateRow u
      case tracked =>
        intro r
        show follow none _ (s.batch.updateRow row u).pending _ r =
          ((s.batch.updateRow row u).occ r).map _
        rw [hocc, hpending]
        exact h.tracked r
  | condense =>
    obtain ⟨b', hb, ht⟩ := bind_ok hop
    obtain rfl := Except.ok.inj ht
    have hfill := h.filling hlegal
    obtain ⟨b1, hb1, hplaced, -⟩ := @InputBatch.Filling.condense _ cfg _ hfill
    rw [hb] at hb1
    obtain rfl := Except.ok.inj hb1
    exact {
      filling := fun hc => by cases hc
      placed := fun _ => hplaced
      within := h.within.condense hfill hb
      tracked := h.tracked.condense hfill hpool hb }
  | swap i j =>
    obtain ⟨b', hb, ht⟩ := bind_ok hop
    obtain rfl := Except.ok.inj ht
    replace hlegal : s.condensed = true := hlegal
    have hplaced := h.placed hlegal
    exact {
      filling := fun hc => absurd hlegal (by simp [show s.condensed = false from hc])
      placed := fun _ => (hplaced.swapStates hb).1
      within := h.within.swapStates hb
      tracked := h.tracked.swapStates hplaced hpool hb }
  | refresh => exact absurd rfl hne

theorem Tracks.refresh (h : s.Tracks cfg occ0 fresh) (hlegal : s.Legal cfg .refresh)
    (hop : s.next cfg .refresh = .ok t) : t.Tracks cfg s.batch.occ (fun _ => none) := by
  obtain rfl := Except.ok.inj hop
  have hplaced := h.placed hlegal
  exact {
    filling := fun _ => hplaced.refreshMetadata.1
    placed := fun hc => (nomatch hc)
    within := h.within.refreshMetadata hplaced
    tracked := InputBatch.tracked_refreshMetadata hplaced }

end BatchState

/-! ## The processors between two updates -/

namespace ProcState

variable {cfg : BatchConfig G} {rcfg : ReasoningConfig} {s t : ProcState G} {e : ProcEvent G}
  {occ0 : Nat → Option String} {outputs : Outputs}

/-- The tables of the processors hold the states of the requests at the rows `occ`. -/
structure Tables (rcfg : ReasoningConfig) (s : ProcState G) (occ : Nat → Option String) : Prop where
  minP : s.minP.minPCpu = tableOf 0 (fun id => (s.states id).minP) occ
  logitBias : s.logitBias.biases.get? = tableOf none (fun id => (s.states id).logitBias) occ
  minTokens : s.minTokens.minToks.get? = tableOf none (fun id => (s.states id).minTokens) occ
  thinking : s.thinking.state.get? =
    if rcfg.isEnabled then tableOf none (fun id => (s.states id).thinking) occ else fun _ => none

/-- The invariant: the tables belong to the rows `occ0` of the last `refresh_metadata`, which
the batch has left in the way that its update says. -/
structure Inv (cfg : BatchConfig G) (rcfg : ReasoningConfig) (s : ProcState G)
    (occ0 : Nat → Option String) : Prop where
  generates : cfg.isPoolingModel = false
  tracks : s.base.Tracks cfg occ0 s.fresh
  tables : s.Tables rcfg occ0
  exact : s.minP.Exact cfg.maxNumReqs
  biasSlice : s.logitBias.logitsSlice = LogitBiasLogitsProcessor.sliceOf s.logitBias.biases
  stopSlice : s.minTokens.logitsSlice = MinTokensLogitsProcessor.sliceOf s.minTokens.minToks
  refreshed : s.refreshed = true → s.base.condensed = false ∧
    s.base.batch.builder.removedRaw = [] ∧ occ0 = s.base.batch.occ

theorem inv_init (hpool : cfg.isPoolingModel = false) :
    Inv cfg rcfg ⟨⟨InputBatch.init cfg, fun _ => none, false⟩, {}, {}, {}, {}, fun _ => none,
      fun _ => {}, false⟩ fun _ => none := by
  have hocc : ∀ r, (InputBatch.init cfg).occ r = none := fun r => rowOf_of_le (Nat.zero_le r)
  constructor
  case generates => exact hpool
  case tracks =>
    constructor
    case filling => exact fun _ => BatchState.filling_init
    case placed => exact fun hc => absurd hc Bool.false_ne_true
    case within =>
      refine ⟨Nat.zero_le _, ?_, ?_, ?_⟩
      · exact fun r hr => absurd hr List.not_mem_nil
      · exact fun a ha => absurd ha List.not_mem_nil
      · exact fun m hm => absurd hm List.not_mem_nil
    case tracked =>
      intro r
      rw [follow_of_nil rfl rfl rfl, hocc]
      rfl
  case tables =>
    refine ⟨rfl, rfl, rfl, ?_⟩
    split_ifs <;> rfl
  case exact =>
    refine ⟨?_, fun _ _ => rfl⟩
    simp [countNonzero]
  case biasSlice => rfl
  case stopSlice => rfl
  case refreshed => exact fun h => absurd h Bool.false_ne_true

section

variable (h : s.Inv cfg rcfg occ0)
include h

theorem Inv.minP :
    (s.minP.updateState (s.base.batch.refreshMetadata cfg).1).minPCpu =
        tableOf 0 (fun id => (s.statesAfter rcfg outputs id).minP) s.base.batch.occ ∧
      (s.minP.updateState (s.base.batch.refreshMetadata cfg).1).Exact cfg.maxNumReqs := by
  have htable : follow 0 (·.params.minP) s.base.batch.pending s.minP.minPCpu =
      tableOf 0 (fun id => (s.statesAfter rcfg outputs id).minP) s.base.batch.occ := by
    rw [h.tables.minP, h.tracks.tracked.table]
    refine congrArg (fun f => tableOf 0 f s.base.batch.occ) (funext fun id => ?_)
    rw [statesAfter]
    cases s.fresh id <;> rfl
  rcases InputBatch.refreshMetadata_fst (b := s.base.batch) h.generates with hu | ⟨hu, h1, h2, h3⟩
  · obtain ⟨hfollow, hexact⟩ := MinPLogitsProcessor.updateState_follows h.exact h.tracks.within.rows
    rw [hu, hfollow]
    exact ⟨htable, hexact⟩
  · rw [follow_of_nil h1 h2 h3] at htable
    rw [hu]
    exact ⟨htable, h.exact⟩

theorem Inv.dictUpdates {T : Type} {d : Dict Nat T} {newState : AddedRequest → Option T}
    {value : String → Option T} (hd : d.get? = tableOf none value occ0) :
    (processDictUpdates d newState (s.base.batch.refreshMetadata cfg).1).1.get? =
      tableOf none (fun id => (s.fresh id).elim (value id) newState) s.base.batch.occ := by
  have htable : follow none newState s.base.batch.pending d.get? =
      tableOf none (fun id => (s.fresh id).elim (value id) newState) s.base.batch.occ := by
    rw [hd, h.tracks.tracked.table]
  rcases InputBatch.refreshMetadata_fst (b := s.base.batch) h.generates with hu | ⟨hu, h1, h2, h3⟩
  · rw [hu, processDictUpdates_follows h.tracks.within.rows, htable]
  · rw [follow_of_nil h1 h2 h3] at htable
    rw [hu]
    exact htable

/-- The thinking entries after the changes of an update whose moves are filled. -/
theorem Inv.thinking (hclean : s.Clean cfg rcfg (.refresh outputs)) (hon : rcfg.isEnabled = true) :
    (ThinkingTokenBudgetLogitsProcessor.processUpdate rcfg s.thinking.state
        (s.base.batch.refreshMetadata cfg).1).get? =
      tableOf none (fun id => (s.fresh id).elim (s.states id).thinking
        (ThinkingTokenBudgetLogitsProcessor.newState rcfg)) s.base.batch.occ := by
  have hold := h.tables.thinking
  rw [if_pos hon] at hold
  have htable : follow none (ThinkingTokenBudgetLogitsProcessor.newState rcfg) s.base.batch.pending
      s.thinking.state.get? = tableOf none (fun id => (s.fresh id).elim (s.states id).thinking
        (ThinkingTokenBudgetLogitsProcessor.newState rcfg)) s.base.batch.occ := by
    rw [hold, h.tracks.tracked.table]
  rcases InputBatch.refreshMetadata_fst (b := s.base.batch) h.generates with hu | ⟨hu, h1, h2, h3⟩
  · rw [hu, ThinkingTokenBudgetLogitsProcessor.processUpdate_follows h.tracks.within.rows
      (hclean _ hu hon), htable]
  · rw [follow_of_nil h1 h2 h3] at htable
    rw [hu]
    exact htable

/-- The processors follow the update, and their tables belong to the rows as they are now. -/
theorem Inv.refresh (hlegal : s.Legal cfg (.refresh outputs))
    (hclean : s.Clean cfg rcfg (.refresh outputs))
    (hop : s.next cfg rcfg (.refresh outputs) = .ok t) : t.Inv cfg rcfg s.base.batch.occ := by
  obtain ⟨base, hb, ht⟩ := bind_ok hop
  obtain rfl := Except.ok.inj ht
  obtain ⟨hminP, hexact⟩ := @ProcState.Inv.minP _ _ _ _ _ outputs h
  have htracks := h.tracks.refresh hlegal hb
  constructor
  case generates => exact h.generates
  case tracks => exact htracks
  case tables =>
    constructor
    case minP => exact hminP
    case logitBias =>
      refine (h.dictUpdates h.tables.logitBias).trans ?_
      refine congrArg (fun f => tableOf none f s.base.batch.occ) (funext fun id => ?_)
      show _ = (s.statesAfter rcfg outputs id).logitBias
      rw [statesAfter]
      cases s.fresh id <;> rfl
    case minTokens =>
      refine MinTokensLogitsProcessor.get?_updateState.trans (funext fun r => ?_)
      rw [h.dictUpdates h.tables.minTokens, tableOf, tableOf]
      cases s.base.batch.occ r with
      | none => rfl
      | some id =>
        simp only [elim_some, statesAfter]
        cases s.fresh id <;> rfl
    case thinking =>
      by_cases hon : rcfg.isEnabled = true
      · rw [if_pos hon, ThinkingTokenBudgetLogitsProcessor.updateState, if_pos hon]
        funext r
        rw [Dict.get?_mapValues, h.thinking hclean hon, tableOf, tableOf]
        cases s.base.batch.occ r with
        | none => rfl
        | some id =>
          simp only [elim_some, statesAfter]
          cases s.fresh id <;> rfl
      · have hold := h.tables.thinking
        rw [if_neg hon] at hold
        rw [if_neg hon, ThinkingTokenBudgetLogitsProcessor.updateState, if_neg hon]
        exact hold
  case exact => exact hexact
  case biasSlice => exact LogitBiasLogitsProcessor.logitsSlice_updateState h.biasSlice
  case stopSlice => exact MinTokensLogitsProcessor.logitsSlice_updateState h.stopSlice
  case refreshed =>
    intro _
    obtain ⟨-, x, hx, hraw, -⟩ :=
      @InputBatch.Placed.refreshMetadata _ cfg _ (h.tracks.placed hlegal)
    obtain rfl := Except.ok.inj hb
    refine ⟨rfl, ?_, ?_⟩
    · show (s.base.batch.refreshMetadata cfg).2.builder.removedRaw = []
      rw [hx]
      exact hraw
    · show s.base.batch.occ = (s.base.batch.refreshMetadata cfg).2.occ
      rw [hx]
      rfl

theorem Inv.next (hlegal : s.Legal cfg e) (hclean : s.Clean cfg rcfg e)
    (hop : s.next cfg rcfg e = .ok t) : ∃ occ0, t.Inv cfg rcfg occ0 := by
  cases e with
  | call e =>
    obtain ⟨base, hb, ht⟩ := bind_ok hop
    obtain rfl := Except.ok.inj ht
    refine ⟨occ0, ?_⟩
    exact { h with
      tracks := h.tracks.next h.generates hlegal.2 hlegal.1 hb
      tables := { h.tables with }
      refreshed := fun hr => (nomatch hr) }
  | refresh outputs => exact ⟨s.base.batch.occ, h.refresh hlegal hclean hop⟩

theorem Inv.follows (hr : s.refreshed = true) : s.Follows rcfg := by
  obtain ⟨hcond, hraw, rfl⟩ := h.refreshed hr
  have hfill := h.tracks.filling hcond
  have hnum := hfill.numReqs_add
  rw [hraw, List.length_nil, Nat.add_zero] at hnum
  constructor
  case minP => exact fun r => congrFun h.tables.minP r
  case minPCount =>
    rw [h.exact.count]
    refine countNonzero_of_le (hnum.trans_le h.tracks.within.length) fun r hle => ?_
    rw [h.tables.minP, tableOf, InputBatch.occ, rowOf_of_le (by omega)]
    rfl
  case logitBias => exact fun r => congrFun h.tables.logitBias r
  case biasSlice => exact h.biasSlice
  case minTokens => exact fun r => congrFun h.tables.minTokens r
  case stopSlice => exact h.stopSlice
  case thinking =>
    intro r
    rw [h.tables.thinking]
    split_ifs <;> rfl

end

end ProcState

/-- In every run in which no thinking entry is left behind by a move, the processors hold for
each row the state of the request there whenever the batch was refreshed. -/
theorem logits_follow (cfg : BatchConfig G) (rcfg : ReasoningConfig) :
    (cleanLogitsRuns cfg rcfg).Invariant fun s => s.refreshed = true → s.Follows rcfg := by
  have hinv : (cleanLogitsRuns cfg rcfg).Inductive fun s => ∃ occ0, s.Inv cfg rcfg occ0 := {
    base := by
      rintro s ⟨hpool, rfl⟩
      exact ⟨_, ProcState.inv_init hpool⟩
    step := by
      rintro s t ⟨occ0, h⟩ ⟨e, hlegal, hclean, hop⟩
      exact h.next hlegal hclean hop }
  intro s hs hr
  obtain ⟨occ0, h⟩ := hinv.invariant s hs
  exact h.follows hr

/-! ## An entry that is left behind -/

/-- A thinking section opens with the token 1 and closes with the token 2. -/
def thinkingModel : ReasoningConfig where
  isEnabled := true
  startTokenIds := [1]
  endTokenIds := [2]

/-- A request with or without a thinking budget. -/
def budgetedRequest (id : String) (budget : Option Int) : CachedRequestState Unit where
  reqId := id
  promptTokenIds := some [0]
  samplingParams := some { thinkingTokenBudget := budget }
  blockIds := fun _ => [1]
  outputTokenIds := 0

/-- The first of two requests is removed; only it had a budget. -/
def leaving : List (ProcEvent Unit) :=
  [.call (.add (fun _ => []) (budgetedRequest "a" (some 5))),
    .call (.add (fun _ => []) (budgetedRequest "b" none)), .call .condense, .refresh fun _ => [],
    .call (.remove "a"), .call .condense, .refresh fun _ => []]

/-- A list of calls. -/
def ProcState.run (cfg : BatchConfig G) (rcfg : ReasoningConfig) (s : ProcState G)
    (es : List (ProcEvent G)) : Except BatchError (ProcState G) := es.foldlM (ProcState.next cfg rcfg) s

/-- Each call of the list is legal where it is made. -/
def LegalCalls (cfg : BatchConfig G) (rcfg : ReasoningConfig) :
    ProcState G → List (ProcEvent G) → Prop
  | _, [] => True
  | s, e :: es => s.Legal cfg e ∧ ∀ t, s.next cfg rcfg e = .ok t → LegalCalls cfg rcfg t es

theorem reachable_calls {cfg : BatchConfig G} {rcfg : ReasoningConfig} {es : List (ProcEvent G)}
    {s t : ProcState G} (hs : (logitsRuns cfg rcfg).Reachable s) (hlegal : LegalCalls cfg rcfg s es)
    (hrun : s.run cfg rcfg es = .ok t) : (logitsRuns cfg rcfg).Reachable t := by
  induction es generalizing s with
  | nil =>
    obtain rfl := Except.ok.inj hrun
    exact hs
  | cons e es ih =>
    obtain ⟨s1, hop, hrun⟩ := bind_ok hrun
    exact ih (hs.step ⟨e, hlegal.1, hop⟩) (hlegal.2 s1 hop) hrun

/-- The request that moves to the freed row comes under the budget of the one that left. -/
theorem move_keeps_budget :
    ∃ s, (logitsRuns smallBatch thinkingModel).Reachable s ∧ s.refreshed = true ∧
      ¬ s.Follows thinkingModel := by
  have hfits : ∀ id budget, InputBatch.Fits smallBatch (budgetedRequest id budget) := by
    intro id budget
    exact (if_neg Bool.false_ne_true).mpr (by simp [budgetedRequest])
  have hrun := eq_ok_get (x := ProcState.run smallBatch thinkingModel
      { base := ⟨InputBatch.init smallBatch, fun _ => none, false⟩ } leaving) rfl
  have hlegal : LegalCalls smallBatch thinkingModel
      { base := ⟨InputBatch.init smallBatch, fun _ => none, false⟩ } leaving := by
    refine ⟨⟨fun h => (nomatch h), rfl, rfl, hfits _ _⟩, fun s1 h1 => ?_⟩
    obtain rfl := Except.ok.inj h1
    refine ⟨⟨fun h => (nomatch h), rfl, rfl, hfits _ _⟩, fun s2 h2 => ?_⟩
    obtain rfl := Except.ok.inj h2
    refine ⟨⟨fun h => (nomatch h), rfl⟩, fun s3 h3 => ?_⟩
    obtain rfl := Except.ok.inj h3
    refine ⟨rfl, fun s4 h4 => ?_⟩
    obtain rfl := Except.ok.inj h4
    refine ⟨⟨fun h => (nomatch h), rfl⟩, fun s5 h5 => ?_⟩
    obtain rfl := Except.ok.inj h5
    refine ⟨⟨fun h => (nomatch h), rfl⟩, fun s6 h6 => ?_⟩
    obtain rfl := Except.ok.inj h6
    exact ⟨rfl, fun _ _ => trivial⟩
  refine ⟨_, reachable_calls (.init ⟨rfl, rfl⟩) hlegal hrun, rfl, fun hfollows => ?_⟩
  have hleft := congrArg Option.isSome (hfollows.thinking 0)
  exact absurd hleft (by decide)

end MyOperator.Worker
