import MyOperator.Worker.RowTables

/-!
# The built-in logits processors

`update_state` of `MinPLogitsProcessor`, `LogitBiasLogitsProcessor`,
`MinTokensLogitsProcessor` and `ThinkingTokenBudgetLogitsProcessor`: each keeps
something by row and is told of the changes of the batch. The copies on the device
that they derive from it are left out.
-/

namespace MyOperator.Worker

open Function Lib

/-! ## Min-p -/

structure MinPLogitsProcessor where
  minPCpu : Nat → Rat := fun _ => 0
  minPCount : Int := 0

namespace MinPLogitsProcessor

/-- An added request sets the value of its row. -/
def processAdded (p : MinPLogitsProcessor) (a : AddedRequest) : MinPLogitsProcessor :=
  if p.minPCpu a.index ≠ a.params.minP then
    { minPCpu := update p.minPCpu a.index a.params.minP
      minPCount :=
        if a.params.minP ≠ 0 ∧ p.minPCpu a.index = 0 then p.minPCount + 1
        else if a.params.minP = 0 ∧ p.minPCpu a.index ≠ 0 then p.minPCount - 1
        else p.minPCount }
  else p

/-- A removed row is set to zero. -/
def processRemoved (p : MinPLogitsProcessor) (index : Nat) : MinPLogitsProcessor :=
  if p.minPCpu index ≠ 0 then
    { minPCpu := update p.minPCpu index 0, minPCount := p.minPCount - 1 }
  else p

/-- The values of the two rows of a move, where they differ. -/
def exchanged (p : MinPLogitsProcessor) (m : MovedRequest) : Nat → Rat :=
  if p.minPCpu m.src ≠ p.minPCpu m.dst then
    if m.direction = .swap then
      update (update p.minPCpu m.dst (p.minPCpu m.src)) m.src (p.minPCpu m.dst)
    else update p.minPCpu m.dst (p.minPCpu m.src)
  else p.minPCpu

/-- A move, or an exchange. -/
def processMoved (p : MinPLogitsProcessor) (m : MovedRequest) : MinPLogitsProcessor :=
  if m.direction = .unidirectional then
    { minPCpu := if p.minPCpu m.src ≠ 0 then update (p.exchanged m) m.src 0 else p.exchanged m
      minPCount := if p.minPCpu m.dst ≠ 0 then p.minPCount - 1 else p.minPCount }
  else { p with minPCpu := p.exchanged m }

def updateState (p : MinPLogitsProcessor) : Option BatchUpdate → MinPLogitsProcessor
  | none => p
  | some u =>
    if (u.added.foldl processAdded p).minPCount ≠ 0 then
      u.moved.foldl processMoved
        (u.removed.foldl processRemoved (u.added.foldl processAdded p))
    else u.added.foldl processAdded p

end MinPLogitsProcessor

/-! ## Sparse processors -/

section processDictUpdates

variable {T : Type}

/-- An added request sets the entry of its row, or drops it. -/
def dictAdded (newState : AddedRequest → Option T) (s : Dict Nat T × Bool) (a : AddedRequest) :
    Dict Nat T × Bool :=
  match newState a with
  | some state => (s.1.set a.index state, true)
  | none => (s.1.erase a.index, s.2 || s.1.contains a.index)

/-- The entry of a removed row is dropped. -/
def dictRemoved (s : Dict Nat T × Bool) (index : Nat) : Dict Nat T × Bool :=
  (s.1.erase index, s.2 || s.1.contains index)

/-- Both entries are popped; the first goes to the second row, and in an exchange the second
to the first. -/
def dictMoved (s : Dict Nat T × Bool) (m : MovedRequest) : Dict Nat T × Bool :=
  match s.1.get? m.src, (s.1.erase m.src).get? m.dst with
  | none, none => ((s.1.erase m.src).erase m.dst, s.2)
  | some a, none => (((s.1.erase m.src).erase m.dst).set m.dst a, true)
  | none, some b =>
    (if m.direction = .swap then ((s.1.erase m.src).erase m.dst).set m.src b
      else (s.1.erase m.src).erase m.dst, true)
  | some a, some b =>
    (if m.direction = .swap then (((s.1.erase m.src).erase m.dst).set m.dst a).set m.src b
      else ((s.1.erase m.src).erase m.dst).set m.dst a, true)

/-- `process_dict_updates`: the entries after the update, and whether they changed. -/
def processDictUpdates (entries : Dict Nat T) (newState : AddedRequest → Option T) :
    Option BatchUpdate → Dict Nat T × Bool
  | none => (entries, false)
  | some u =>
    if (u.added.foldl (dictAdded newState) (entries, false)).1.entries ≠ [] then
      u.moved.foldl dictMoved
        (u.removed.foldl dictRemoved (u.added.foldl (dictAdded newState) (entries, false)))
    else u.added.foldl (dictAdded newState) (entries, false)

end processDictUpdates

/-- `LogitBiasLogitsProcessor`: the biases by row, and the rows, tokens and biases that are
added to the logits. -/
structure LogitBiasLogitsProcessor where
  biases : Dict Nat (List (TokenId × Rat)) := Dict.empty
  logitsSlice : List (Nat × TokenId × Rat) := []

namespace LogitBiasLogitsProcessor

/-- The rows, tokens and biases of all entries. -/
def sliceOf (biases : Dict Nat (List (TokenId × Rat))) : List (Nat × TokenId × Rat) :=
  biases.entries.flatMap fun e => e.2.map fun lb => (e.1, lb)

/-- `params.logit_bias or None` -/
def newState (a : AddedRequest) : Option (List (TokenId × Rat)) := truthy a.params.logitBias

def updateState (p : LogitBiasLogitsProcessor) (u : Option BatchUpdate) :
    LogitBiasLogitsProcessor where
  biases := (processDictUpdates p.biases newState u).1
  logitsSlice :=
    if (processDictUpdates p.biases newState u).2 then
      sliceOf (processDictUpdates p.biases newState u).1
    else p.logitsSlice

end LogitBiasLogitsProcessor

/-- What `MinTokensLogitsProcessor` keeps of a request. -/
structure MinTokensEntry where
  minTokens : Nat
  outputTokenIds : OutputRef
  stopTokenIds : List TokenId
  deriving DecidableEq

/-- `MinTokensLogitsProcessor`: the entries by row, and the rows and tokens that are
suppressed. -/
structure MinTokensLogitsProcessor where
  minToks : Dict Nat MinTokensEntry := Dict.empty
  logitsSlice : List (Nat × TokenId) := []

namespace MinTokensLogitsProcessor

/-- `add_request` -/
def newState (outputs : Outputs) (a : AddedRequest) : Option MinTokensEntry :=
  if a.params.minTokens = 0 ∨ a.params.minTokens ≤ (outputs a.outputTokenIds).length then none
  else some ⟨a.params.minTokens, a.outputTokenIds, a.params.allStopTokenIds⟩

/-- The request has generated its minimum. -/
def attained (outputs : Outputs) (e : MinTokensEntry) : Bool :=
  decide (e.minTokens ≤ (outputs e.outputTokenIds).length)

/-- The rows whose requests have generated their minimum. -/
def toRemove (outputs : Outputs) (minToks : Dict Nat MinTokensEntry) : List Nat :=
  (minToks.entries.filter fun e => attained outputs e.2).map Prod.fst

/-- The rows and stop tokens of all entries. -/
def sliceOf (minToks : Dict Nat MinTokensEntry) : List (Nat × TokenId) :=
  minToks.entries.flatMap fun e => e.2.stopTokenIds.map fun t => (e.1, t)

def updateState (outputs : Outputs) (p : MinTokensLogitsProcessor) (u : Option BatchUpdate) :
    MinTokensLogitsProcessor :=
  match processDictUpdates p.minToks (newState outputs) u with
  | (minToks, updated) =>
    { minToks := (toRemove outputs minToks).foldl Dict.erase minToks
      logitsSlice :=
        if updated = true ∨ toRemove outputs minToks ≠ [] then
          sliceOf ((toRemove outputs minToks).foldl Dict.erase minToks)
        else p.logitsSlice }

end MinTokensLogitsProcessor

/-! ## Thinking budgets -/

/-- The token sequences that open and close a thinking section; none where no reasoning
configuration is given. -/
structure ReasoningConfig where
  isEnabled : Bool
  startTokenIds : List TokenId := []
  endTokenIds : List TokenId := []

/-- The state entry of a request. -/
structure ThinkState where
  inThink : Bool
  inEnd : Bool
  checkCountDown : Int
  thinkCount : Int
  endCount : Nat
  outputTokIds : OutputRef
  thinkingTokenBudget : Int
  prevOutputLength : Nat
  deriving DecidableEq

namespace ThinkState

/-- `_find_last_sequence_index`, from the position `i` downwards. -/
def findFrom (target tokenIds : List TokenId) : Nat → Int
  | 0 => if target.take tokenIds.length = tokenIds then 0 else -1
  | i + 1 =>
    if (target.drop (i + 1)).take tokenIds.length = tokenIds then (i + 1 : Nat)
    else findFrom target tokenIds i

def findLastSequenceIndex (target tokenIds : List TokenId) : Int :=
  if tokenIds = [] ∨ target.length < tokenIds.length then -1
  else findFrom target tokenIds (target.length - tokenIds.length)

/-- `_init_state_entry`, with the list of output tokens that `update_state` puts in. -/
def initStateEntry (cfg : ReasoningConfig) (promptTokIds : Option (List TokenId)) (budget : Int)
    (outputTokIds : OutputRef) : ThinkState :=
  let lastStart := promptTokIds.elim (-1) (findLastSequenceIndex · cfg.startTokenIds)
  let lastEnd := promptTokIds.elim (-1) (findLastSequenceIndex · cfg.endTokenIds)
  let inThink := decide (lastEnd < lastStart)
  { inThink := inThink
    inEnd := inThink && decide (budget = 0)
    checkCountDown := budget
    thinkCount :=
      if inThink then
        (promptTokIds.getD []).length - (lastStart + cfg.startTokenIds.length)
      else 0
    endCount := 0
    outputTokIds := outputTokIds
    thinkingTokenBudget := budget
    prevOutputLength := 0 }

/-- Whether the request is thinking, and since how many tokens, from the positions at which
the recent tokens open and close a section. -/
def located (cfg : ReasoningConfig) (s : ThinkState) (currentLength checkStart newTokens : Nat)
    (startPos endPos : Int) : Bool × Int :=
  let entered : Bool × Int :=
    (true, currentLength - (checkStart + startPos + cfg.startTokenIds.length))
  if 0 ≤ startPos ∧ 0 ≤ endPos then
    if endPos < startPos then entered else (false, 0)
  else if 0 ≤ startPos then entered
  else if 0 ≤ endPos then (false, 0)
  else if s.inThink then (s.inThink, s.thinkCount + newTokens)
  else (s.inThink, s.thinkCount)

/-- The countdown until the next check, and the change to forcing the end. -/
def budgeted (s : ThinkState) (inThink : Bool) (thinkCount : Int) : ThinkState :=
  if inThink = true ∧ s.thinkingTokenBudget ≤ thinkCount then
    { s with
      inThink := false
      inEnd := true
      thinkCount := thinkCount
      endCount := 0
      checkCountDown := s.thinkingTokenBudget }
  else
    { s with
      inThink := inThink
      thinkCount := thinkCount
      checkCountDown :=
        if inThink then max 0 (max 0 (s.thinkingTokenBudget - thinkCount) - 1)
        else s.thinkingTokenBudget }

/-- `_update_think_state`, given what the list of output tokens holds. -/
def updateThinkState (cfg : ReasoningConfig) (output : List TokenId) (s : ThinkState) :
    ThinkState :=
  if s.inEnd = false ∧ 0 < s.checkCountDown then { s with checkCountDown := s.checkCountDown - 1 }
  else if output = [] ∨ output.length ≤ s.prevOutputLength then s
  else
    let checkStart :=
      s.prevOutputLength + 1 - max cfg.startTokenIds.length cfg.endTokenIds.length
    let startPos := findLastSequenceIndex (output.drop checkStart) cfg.startTokenIds
    let endPos := findLastSequenceIndex (output.drop checkStart) cfg.endTokenIds
    let seen := { s with prevOutputLength := output.length }
    if s.inEnd then
      if cfg.endTokenIds.length ≤ s.endCount + 1 then
        { seen with inEnd := false, endCount := 0, checkCountDown := s.thinkingTokenBudget }
      else { seen with endCount := s.endCount + 1 }
    else
      let found := located cfg s output.length checkStart (output.length - s.prevOutputLength)
        startPos endPos
      seen.budgeted found.1 found.2

end ThinkState

/-- `ThinkingTokenBudgetLogitsProcessor`: the attribute `_state`. -/
structure ThinkingTokenBudgetLogitsProcessor where
  state : Dict Nat ThinkState := Dict.empty

namespace ThinkingTokenBudgetLogitsProcessor

/-- The entry of a request that has a budget. -/
def newState (cfg : ReasoningConfig) (a : AddedRequest) : Option ThinkState :=
  a.params.thinkingTokenBudget.map fun budget =>
    ThinkState.initStateEntry cfg a.promptTokenIds budget a.outputTokenIds

/-- An added request sets the entry of its row, or drops it. -/
def processAdded (cfg : ReasoningConfig) (state : Dict Nat ThinkState) (a : AddedRequest) :
    Dict Nat ThinkState :=
  match newState cfg a with
  | some entry => state.set a.index entry
  | none => state.erase a.index

/-- The entry of an optional value is set. -/
def putEntry (state : Dict Nat ThinkState) (index : Nat) : Option ThinkState → Dict Nat ThinkState
  | some entry => state.set index entry
  | none => state

/-- In an exchange both entries are popped; in a move only the one that is moved. -/
def processMoved (state : Dict Nat ThinkState) (m : MovedRequest) : Dict Nat ThinkState :=
  match m.direction with
  | .swap =>
    putEntry
      (putEntry ((state.erase m.src).erase m.dst) m.dst (state.get? m.src))
      m.src ((state.erase m.src).get? m.dst)
  | .unidirectional => putEntry (state.erase m.src) m.dst (state.get? m.src)

/-- The entries by row after the changes of the batch. -/
def processUpdate (cfg : ReasoningConfig) (state : Dict Nat ThinkState) :
    Option BatchUpdate → Dict Nat ThinkState
  | none => state
  | some u =>
    u.moved.foldl processMoved (u.removed.foldl Dict.erase (u.added.foldl (processAdded cfg) state))

def updateState (cfg : ReasoningConfig) (outputs : Outputs)
    (p : ThinkingTokenBudgetLogitsProcessor) (u : Option BatchUpdate) :
    ThinkingTokenBudgetLogitsProcessor :=
  if cfg.isEnabled then
    { state := (processUpdate cfg p.state u).mapValues fun s =>
        s.updateThinkState cfg (outputs s.outputTokIds) }
  else p

end ThinkingTokenBudgetLogitsProcessor

end MyOperator.Worker
