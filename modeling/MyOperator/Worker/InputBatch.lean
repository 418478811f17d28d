import MyOperator.Lib.TSys
import MyOperator.Worker.BlockTable
import MyOperator.Worker.TokenRows
import MyOperator.Worker.SamplingRows
import MyOperator.Lib.RowIndex

/-!
# The persistent batch

`InputBatch`: the requests that the worker runs, each with a row in a family of
parallel arrays. Rows are freed by `remove_request`, taken by `add_request`, closed
up by `condense` and exchanged by `swap_states`.
-/

namespace MyOperator.Worker

open Function Lib

/-- The constructor's parameters. -/
structure BatchConfig (G : Type) where
  maxNumReqs : Nat
  vocabSize : Nat
  isPoolingModel : Bool
  blocksPerKvBlock : G → Nat

/-- `InputBatch`. What it keeps by request id for the sampling metadata alone is left
out. -/
structure InputBatch (G : Type) where
  reqIds : List (Option String) := []
  reqIdToIndex : Dict String Nat := Dict.empty
  reqOutputTokenIds : List (Option OutputRef) := []
  tokens : TokenRows := {}
  blockTable : MultiGroupBlockTable G
  sampling : SamplingRows := {}
  requestLoraMapping : Nat → Nat := fun _ => 0
  logitsProcessingNeedsTokenIds : Nat → Bool := fun _ => false
  builder : BatchUpdateBuilder := {}

namespace InputBatch

variable {G : Type}

def init (cfg : BatchConfig G) : InputBatch G where
  tokens := { specTokenIds := List.replicate cfg.maxNumReqs [] }
  blockTable := fun g => { blocksPerKvBlock := cfg.blocksPerKvBlock g }

def numReqs (b : InputBatch G) : Nat := b.reqIdToIndex.entries.length

/-! ## Adding -/

/-- The row that the next request gets: the lowest free one, or the one behind the last. -/
def nextRow (b : InputBatch G) : Nat := b.builder.popRemoved.1.getD b.numReqs

def registerAddRequest (cfg : BatchConfig G) (b : InputBatch G) (request : CachedRequestState G) :
    Except BatchError (InputBatch G) :=
  if b.nextRow < cfg.maxNumReqs then
    .ok { b with
      builder := { b.builder.popRemoved.2 with
        batchChanged := true
        added :=
          match request.samplingParams with
          | some params => b.builder.popRemoved.2.added ++
              [⟨b.nextRow, params, request.promptTokenIds, request.outputTokenIds⟩]
          | none => b.builder.popRemoved.2.added } }
  else .error .assertion

/-- The lists with an entry for each row: appended at the end, else overwritten. -/
def putAt {α : Type} (l : List α) (row : Nat) (x : α) : List α :=
  if row = l.length then l ++ [x] else l.set row x

/-- `add_request`: what is written for every request. -/
def writeRow (outputs : Outputs) (b : InputBatch G) (request : CachedRequestState G)
    (row numPromptTokens : Nat) : InputBatch G := { b with
    reqIds := putAt b.reqIds row (some request.reqId)
    reqOutputTokenIds := putAt b.reqOutputTokenIds row (some request.outputTokenIds)
    reqIdToIndex := b.reqIdToIndex.set request.reqId row
    tokens := (b.tokens.openSpec row (row = b.reqIds.length)).addRow request numPromptTokens
      (outputs request.outputTokenIds) row
    blockTable := fun g => (b.blockTable g).addRow (request.blockIds g) row
    sampling := b.sampling.resetAccepted row
    requestLoraMapping :=
      update b.requestLoraMapping row (request.loraRequest.elim 0 (·.loraIntId)) }

/-- `add_request`: the parameters of a generation or a pooling request. -/
def writeParams (cfg : BatchConfig G) (b : InputBatch G) (request : CachedRequestState G)
    (row : Nat) : Except BatchError (InputBatch G) :=
  match request.samplingParams, request.poolingParams with
  | some params, _ =>
    .ok { b with sampling := b.sampling.addRow cfg.vocabSize params request.generator row }
  | none, some params =>
    .ok { b with
      logitsProcessingNeedsTokenIds :=
        update b.logitsProcessingNeedsTokenIds row params.requiresTokenIds }
  | none, none => .error .notImplemented

def addRequest (cfg : BatchConfig G) (outputs : Outputs) (b : InputBatch G)
    (request : CachedRequestState G) : Except BatchError (InputBatch G) := do
  let registered ← b.registerAddRequest cfg request
  let numPromptTokens ←
    lengthFromPromptTokenIdsOrEmbeds request.promptTokenIds request.promptEmbeds
  (registered.writeRow outputs request b.nextRow numPromptTokens).writeParams cfg request b.nextRow

/-! ## Removing -/

def removeRequest (cfg : BatchConfig G) (b : InputBatch G) (reqId : String) :
    Except BatchError (InputBatch G) :=
  match b.reqIdToIndex.get? reqId with
  | none => .ok b
  | some row => do
      let builder ← b.builder.removedAppend row
      return { b with
        reqIdToIndex := b.reqIdToIndex.erase reqId
        builder := builder
        reqIds := b.reqIds.set row none
        reqOutputTokenIds := b.reqOutputTokenIds.set row none
        tokens := b.tokens.clearRow row
        blockTable := fun g => (b.blockTable g).clearRow row
        requestLoraMapping := update b.requestLoraMapping row 0
        sampling := if cfg.isPoolingModel then b.sampling else b.sampling.clearRow row }

/-! ## Exchanging -/

/-- The entries of two rows are exchanged. -/
def swapAt {α : Type} (l : List (Option α)) (i j : Nat) : List (Option α) :=
  (l.set i (l[j]?).join).set j (l[i]?).join

/-- `req_id_to_index[req_id]` -/
def indexOf (b : InputBatch G) (reqId : String) : Nat := (b.reqIdToIndex.get? reqId).getD 0

def swapStates (cfg : BatchConfig G) (b : InputBatch G) (i j : Nat) :
    Except BatchError (InputBatch G) :=
  match (b.reqIds[i]?).join, (b.reqIds[j]?).join with
  | some oldId1, some oldId2 =>
    .ok { b with
      reqIds := swapAt b.reqIds i j
      reqOutputTokenIds := swapAt b.reqOutputTokenIds i j
      reqIdToIndex := (b.reqIdToIndex.set oldId1 (b.indexOf oldId2)).set oldId2 (b.indexOf oldId1)
      tokens := b.tokens.swapRows i j
      blockTable := fun g => (b.blockTable g).swapRow i j
      requestLoraMapping := swapRow b.requestLoraMapping i j
      -- sampling parameters do not apply to pooling models
      builder :=
        if cfg.isPoolingModel then b.builder
        else { b.builder with moved := b.builder.moved ++ [⟨i, j, .swap⟩] }
      sampling := if cfg.isPoolingModel then b.sampling else b.sampling.swapRows i j }
  | _, _ => .error .assertion

/-! ## Condensing -/

/-- `condense`: the active request at `last` moves down to the row `empty`, which is
popped from the removed rows. -/
def moveDown (cfg : BatchConfig G) (b : InputBatch G) (last empty : Nat) :
    Except BatchError (InputBatch G) :=
  match (b.reqIds[last]?).join with
  | some reqId =>
    .ok { b with
      reqIds := (b.reqIds.set empty (some reqId)).set last none
      reqOutputTokenIds :=
        (b.reqOutputTokenIds.set empty (b.reqOutputTokenIds[last]?).join).set last none
      reqIdToIndex := b.reqIdToIndex.set reqId empty
      tokens := b.tokens.moveRow last empty
      blockTable := fun g => (b.blockTable g).moveRow last empty
      requestLoraMapping := copyRow b.requestLoraMapping last empty
      builder :=
        if cfg.isPoolingModel then b.builder.popRemoved.2
        else { b.builder.popRemoved.2 with
          moved := b.builder.popRemoved.2.moved ++ [⟨last, empty, .unidirectional⟩] }
      sampling := if cfg.isPoolingModel then b.sampling else b.sampling.moveRow last empty }
  | none => .error .assertion

/-- The largest row up to `last` that is not empty. -/
def lastNonEmpty (empties : List Nat) : Nat → Nat
  | 0 => 0
  | last + 1 => if last + 1 ∈ empties then lastNonEmpty empties last else last + 1

/-- The loop of `condense`, over the empty rows in the order in which they are popped. -/
def condenseLoop (cfg : BatchConfig G) :
    List Nat → Nat → InputBatch G → Except BatchError (InputBatch G)
  | [], _, b => .ok b
  | empty :: empties, last, b =>
    if lastNonEmpty (empty :: empties) last ≤ empty then .ok b
    else do
      let b ← b.moveDown cfg (lastNonEmpty (empty :: empties) last) empty
      condenseLoop cfg empties (lastNonEmpty (empty :: empties) last - 1) b

/-- The lists are trimmed to the batch size. -/
def trim (b : InputBatch G) (numReqs : Nat) : InputBatch G := { b with
    reqIds := b.reqIds.take numReqs
    reqOutputTokenIds := b.reqOutputTokenIds.take numReqs
    tokens := b.tokens.trim numReqs }

/-- The rows that were removed and not taken since, lowest first. -/
def empties (b : InputBatch G) : List Nat := b.builder.ensureRemovedSorted.removedRaw.reverse

def condense (cfg : BatchConfig G) (b : InputBatch G) : Except BatchError (InputBatch G) :=
  if b.empties = [] then .ok { b with builder := b.builder.ensureRemovedSorted }
  else if b.numReqs = 0 then
    .ok ({ b with builder := b.builder.ensureRemovedSorted }.trim 0)
  else do
    let moved ← condenseLoop cfg b.empties (b.numReqs + b.empties.length - 1)
      { b with builder := b.builder.ensureRemovedSorted }
    return moved.trim b.numReqs

/-- `refresh_metadata`: the batch update of the step, for models that generate. -/
def refreshMetadata (cfg : BatchConfig G) (b : InputBatch G) : Option BatchUpdate × InputBatch G :=
  if cfg.isPoolingModel then (none, { b with builder := b.builder.reset })
  else
    ((b.builder.getAndReset b.numReqs).1, { b with builder := (b.builder.getAndReset b.numReqs).2 })

/-! ## Updating a row -/

/-- What the model runner writes into the row of a running request. -/
inductive RowUpdate (G : Type)
  /-- `update_req_spec_token_ids` -/
  | spec (tokenIds : List TokenId)
  /-- `_bookkeeping_sync`: the sampled tokens -/
  | sampled (tokenIds : List TokenId)
  /-- `_update_states`: output tokens were discarded -/
  | discarded (endIdx : Nat)
  /-- `_update_states`: `num_computed_tokens` -/
  | computed (n : Nat)
  /-- `_update_states`: new blocks -/
  | blocks (ids : G → List Nat)
  /-- the number of accepted tokens -/
  | accepted (n : Nat)

/-- The update is written at the row. -/
def updateRow (b : InputBatch G) (row : Nat) : RowUpdate G → InputBatch G
  | .spec tokenIds => { b with tokens := b.tokens.updateReqSpecTokenIds row tokenIds }
  | .sampled tokenIds => { b with tokens := b.tokens.recordSampled row tokenIds }
  | .discarded endIdx => { b with tokens := b.tokens.discardTokens row endIdx }
  | .computed n => { b with tokens := b.tokens.setNumComputed row n }
  | .blocks ids => { b with blockTable := fun g => (b.blockTable g).appendRow (ids g) row }
  | .accepted n => { b with sampling := b.sampling.setAccepted row n }

end InputBatch

end MyOperator.Worker

/-!
## What the persistent batch stands for

A map from request ids to rows. `RequestRow` is all that a request owns of the
parallel arrays, as it was added and last updated; `Sound` says that the occupied
rows are indexed by their requests and hold what those own, and that nothing of an
earlier occupant stands in the way of the next one.
-/

namespace MyOperator.Worker

open Function Lib

/-! ## Lists with an entry for each row -/

/-- The entry of a row, none behind the end. -/
def rowOf {α : Type} (l : List (Option α)) (r : Nat) : Option α := (l[r]?).join

section rowOf

variable {α : Type} {l : List (Option α)} {x : Option α} {i j r n : Nat}

theorem rowOf_of_le (h : l.length ≤ r) : rowOf l r = none := by
  rw [rowOf, List.getElem?_eq_none h]
  rfl

theorem lt_of_rowOf {a : α} (h : rowOf l r = some a) : r < l.length := by
  by_contra hr
  rw [rowOf_of_le (by omega)] at h
  cases h

theorem rowOf_set (h : i < l.length) : rowOf (l.set i x) = update (rowOf l) i x := by
  funext r
  rw [rowOf, List.getElem?_set, update_apply]
  by_cases hr : i = r
  · subst hr
    simp [h]
  · rw [if_neg hr, if_neg (Ne.symm hr)]
    rfl

theorem rowOf_concat : rowOf (l ++ [x]) = update (rowOf l) l.length x := by
  funext r
  rw [rowOf, update_apply]
  rcases Nat.lt_trichotomy r l.length with h | h | h
  · rw [List.getElem?_append_left h, if_neg (by omega)]
    rfl
  · subst h
    simp
  · rw [if_neg (by omega), rowOf_of_le (by omega), List.getElem?_eq_none (by simp; omega)]
    rfl

theorem rowOf_putAt (h : i ≤ l.length) : rowOf (InputBatch.putAt l i x) = update (rowOf l) i x := by
  rw [InputBatch.putAt]
  split_ifs with hi
  · rw [hi]
    exact rowOf_concat
  · exact rowOf_set (by omega)

theorem length_putAt :
    (InputBatch.putAt l i x).length = if i = l.length then l.length + 1 else l.length := by
  rw [InputBatch.putAt]
  split_ifs <;> simp

theorem rowOf_take : rowOf (l.take n) r = if r < n then rowOf l r else none := by
  rw [rowOf, List.getElem?_take]
  split_ifs <;> rfl

theorem rowOf_swapAt (hi : i < l.length) (hj : j < l.length) :
    rowOf (InputBatch.swapAt l i j) = swapRow (rowOf l) i j := by
  rw [InputBatch.swapAt, rowOf_set (by simpa using hj), rowOf_set hi]
  rfl

@[simp] theorem length_swapAt : (InputBatch.swapAt l i j).length = l.length := by
  simp [InputBatch.swapAt]

end rowOf

/-! ## What a request owns -/

variable {G : Type}

/-- All that a request owns of the arrays. -/
structure RequestRow (G : Type) where
  tokens : TokenRow
  blocks : G → List Nat
  lora : Nat
  outputs : OutputRef
  /-- of a generation request -/
  sampling : Option SamplingRow
  /-- of a pooling request -/
  needsTokenIds : Option Bool

namespace RequestRow

/-- The row of a request as it is added. -/
def ofRequest (cfg : BatchConfig G) (outputs : Outputs) (request : CachedRequestState G)
    (numPromptTokens : Nat) : RequestRow G where
  tokens := TokenRow.ofRequest request numPromptTokens (outputs request.outputTokenIds)
  blocks := fun g => BlockTable.mapToKernelBlocks (cfg.blocksPerKvBlock g) (request.blockIds g)
  lora := request.loraRequest.elim 0 (·.loraIntId)
  outputs := request.outputTokenIds
  sampling :=
    request.samplingParams.map fun p => SamplingRow.ofRequest cfg.vocabSize p request.generator
  needsTokenIds :=
    if request.samplingParams = none then request.poolingParams.map (·.requiresTokenIds) else none

/-- The row of a request after an update. -/
def updated (cfg : BatchConfig G) (g : RequestRow G) : InputBatch.RowUpdate G → RequestRow G
  | .spec tokenIds => { g with tokens := g.tokens.withSpec tokenIds }
  | .sampled tokenIds => { g with tokens := g.tokens.withSampled tokenIds }
  | .discarded endIdx => { g with tokens := g.tokens.cut endIdx }
  | .computed n => { g with tokens := g.tokens.withComputed n }
  | .blocks ids =>
    { g with
      blocks := fun k =>
        g.blocks k ++ BlockTable.mapToKernelBlocks (cfg.blocksPerKvBlock k) (ids k) }
  | .accepted n => { g with sampling := g.sampling.map fun s => { s with numAccepted := n } }

end RequestRow

namespace InputBatch

/-- The request at a row. -/
def occ (b : InputBatch G) : Nat → Option String := rowOf b.reqIds

/-- The row holds what the request owns. -/
structure RowHolds (b : InputBatch G) (r : Nat) (g : RequestRow G) : Prop where
  tokens : b.tokens.Holds r g.tokens
  blocks : ∀ k, (b.blockTable k).rowBlocks r = g.blocks k
  lora : b.requestLoraMapping r = g.lora
  outputs : rowOf b.reqOutputTokenIds r = some g.outputs
  sampling : ∀ s, g.sampling = some s → b.sampling.row r = s
  needsTokenIds : ∀ f, g.needsTokenIds = some f → b.logitsProcessingNeedsTokenIds r = f

/-- Where the requests are: those rows below `n` that no request occupies are the ones on
the list `free`. -/
structure Placed (b : InputBatch G) (free : List Nat) (n : Nat) : Prop where
  rows : Rows b.occ b.reqIdToIndex free n
  bound : n ≤ b.reqIds.length

/-- The batch holds the requests of `m`, each at its row. -/
structure Sound (cfg : BatchConfig G) (b : InputBatch G) (m : String → Option (RequestRow G))
    (free : List Nat) (n : Nat) : Prop extends Placed b free n where
  outputs : b.reqOutputTokenIds.length = b.reqIds.length
  spec : b.reqIds.length ≤ b.tokens.specTokenIds.length
  specFree : ∀ r, b.occ r = none → b.tokens.specAt r = []
  entryFree : cfg.isPoolingModel = false → ∀ r, b.occ r = none → b.sampling.NoEntry r
  blocksPer : ∀ k, (b.blockTable k).blocksPerKvBlock = cfg.blocksPerKvBlock k
  absent : ∀ id, b.reqIdToIndex.get? id = none → m id = none
  held : ∀ r id, b.occ r = some id → ∃ g, m id = some g ∧ b.RowHolds r g
  kind : ∀ id g, m id = some g →
    (cfg.isPoolingModel = true → g.sampling = none) ∧
      (cfg.isPoolingModel = false → g.needsTokenIds = none)

variable {cfg : BatchConfig G} {b b' : InputBatch G} {m : String → Option (RequestRow G)}
  {free free' : List Nat} {n r : Nat} {id : String} {g : RequestRow G}

theorem Sound.builder (h : Sound cfg b m free n) (x : BatchUpdateBuilder) :
    Sound cfg { b with builder := x } m free n := { h with
      rows := h.rows
      held := fun r id hr => by
        obtain ⟨g, hg, hold⟩ := h.held r id hr
        exact ⟨g, hg, { hold with }⟩ }

theorem Placed.congr_free (h : Placed b free n) (hp : free.Perm free') : Placed b free' n :=
  { h with rows := h.rows.congr_free hp }

theorem Sound.congr_free (h : Sound cfg b m free n) (hp : free.Perm free') :
    Sound cfg b m free' n := { h with toPlaced := h.toPlaced.congr_free hp }

theorem Sound.lt_spec (h : Sound cfg b m free n) (hr : b.occ r = some id) :
    r < b.tokens.specTokenIds.length := Nat.lt_of_lt_of_le (lt_of_rowOf hr) h.spec

theorem Placed.row_of_index (h : Placed b free n) (hr : b.reqIdToIndex.get? id = some r) :
    b.occ r = some id := (h.rows.inverse r id).mpr hr

end InputBatch

end MyOperator.Worker
