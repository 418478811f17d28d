import MyOperator.Lib.KeyIndex
import MyOperator.KvCache.Block

/-!
# Parallel sampling

`ParentRequest`: the request behind the `n` child requests of a parallel sampling
request. It records which children have not finished and collects their outputs
when only final outputs are wanted.
-/

namespace MyOperator.Outputs

inductive RequestOutputKind
  | cumulative
  | delta
  | finalOnly
  deriving DecidableEq

/-- `ParentRequest`. `child_requests` is a set: the list has no duplicates, and its order is that
of the insertions. -/
structure ParentRequest (ω : Type) where
  requestId : String
  externalReqId : String
  outputKind : RequestOutputKind
  childRequests : List String
  outputAggregator : List (Option ω)
  deriving DecidableEq

namespace ParentRequest

variable {ω : Type}

/-- `__init__` for a request with `n` samples. -/
def init (requestId externalReqId : String) (outputKind : RequestOutputKind) (n : Nat) :
    ParentRequest ω where
  requestId := requestId
  externalReqId := externalReqId
  outputKind := outputKind
  childRequests := []
  outputAggregator := if outputKind = .finalOnly then List.replicate n none else []

/-- `f"{index}_{self.request_id}"`. -/
def childReqId (p : ParentRequest ω) (index : Nat) : String := toString index ++ "_" ++ p.requestId

/-- `get_child_info`: the child's id, now recorded as not finished. -/
def getChildInfo (p : ParentRequest ω) (index : Nat) : String × ParentRequest ω :=
  (p.childReqId index,
    if p.childReqId index ∈ p.childRequests then p
    else { p with childRequests := p.childRequests ++ [p.childReqId index] })

/-- `self.child_requests.remove(child_request_id)` for a recorded child. -/
def finishChild (p : ParentRequest ω) (childRequestId : String) : ParentRequest ω :=
  { p with childRequests := p.childRequests.filter (· ≠ childRequestId) }

/-- `get_outputs` for an output of a child with the given index, `finished` telling whether it is
the child's last: what is sent to the client, and whether the parent has finished. -/
def getOutputs (p : ParentRequest ω) (childRequestId : String) (index : Nat) (finished : Bool)
    (completionOutput : ω) : List (Option ω) × Bool × ParentRequest ω :=
  let alreadyFinishedAndReturned := finished && !p.childRequests.contains childRequestId
  let p := if finished then p.finishChild childRequestId else p
  if p.outputKind ≠ .finalOnly then
    (if alreadyFinishedAndReturned then [] else [some completionOutput],
      p.childRequests.isEmpty, p)
  else
    let p := { p with outputAggregator := p.outputAggregator.set index (some completionOutput) }
    (if p.childRequests.isEmpty then p.outputAggregator else [], p.childRequests.isEmpty, p)

variable {p : ParentRequest ω} {childRequestId c : String} {index : Nat} {finished : Bool} {o : ω}

theorem mem_getChildInfo :
    c ∈ (p.getChildInfo index).2.childRequests ↔ c ∈ p.childRequests ∨ c = p.childReqId index := by
  unfold getChildInfo
  by_cases h : p.childReqId index ∈ p.childRequests
  · rw [if_pos h]
    exact ⟨.inl, fun hc => hc.elim id fun he => he ▸ h⟩
  · rw [if_neg h, List.mem_append, List.mem_singleton]

theorem nodup_getChildInfo (h : p.childRequests.Nodup) :
    (p.getChildInfo index).2.childRequests.Nodup := by
  unfold getChildInfo
  split_ifs with hmem
  · exact h
  · rw [← List.concat_eq_append]
    exact h.concat hmem

@[simp] theorem getChildInfo_requestId : (p.getChildInfo index).2.requestId = p.requestId := by
  unfold getChildInfo
  split_ifs <;> rfl

@[simp] theorem mem_finishChild :
    c ∈ (p.finishChild childRequestId).childRequests ↔
      c ∈ p.childRequests ∧ c ≠ childRequestId := by
  simp [finishChild]

@[simp] theorem getOutputs_requestId :
    (p.getOutputs childRequestId index finished o).2.2.requestId = p.requestId := by
  unfold getOutputs
  dsimp only
  split_ifs <;> rfl

/-- The last output of a child takes it off the record, any other output leaves the record. -/
theorem getOutputs_childRequests :
    (p.getOutputs childRequestId index finished o).2.2.childRequests =
      if finished then (p.finishChild childRequestId).childRequests else p.childRequests := by
  unfold getOutputs
  dsimp only
  split_ifs <;> rfl

end ParentRequest

end MyOperator.Outputs

/-!
## The output processor's books

`OutputProcessor` keeps the live requests by their internal ids, the parents of
parallel sampling requests, and for each external id the internal ids that carry it.
What the outputs contain plays no part here: of an output the books see whether it
finishes the request.
-/

namespace MyOperator.Outputs

open Lib

/-- `StreamingUpdate`: whether it is the last one of its session. -/
structure StreamingUpdate where
  final : Bool := false
  deriving DecidableEq

/-- `RequestState`, as far as the books depend on it. `parentReq` refers to an object of
`OutputProcessor.parents`, `queue` tells whether the request has a collector. Pooling requests have
no parent. -/
structure RequestState where
  requestId : String
  externalReqId : String
  parentReq : Option Nat
  requestIndex : Nat
  outputKind : RequestOutputKind
  queue : Bool
  streamingInput : Bool
  inputChunkQueue : Option (List StreamingUpdate)
  deriving DecidableEq

structure EngineCoreRequest where
  requestId : String
  externalReqId : String
  outputKind : RequestOutputKind
  resumable : Bool := false

/-- `EngineCoreOutput`, with what the request makes of it: `finishReason` tells whether it brings a
finish reason, `stopString` whether the detokenizer reports a stop string, and `held` whether the
stream interval holds the output back. -/
structure EngineCoreOutput where
  requestId : String
  finishReason : Bool
  stopString : Bool := false
  held : Bool := false

/-- `OutputProcessor`, with the parent objects that its requests refer to. -/
structure OutputProcessor where
  requestStates : Dict String RequestState
  parentRequests : Dict String Nat
  externalReqIds : Dict String (List String)
  parents : List (ParentRequest Unit)
  deriving DecidableEq

/-- The iteration order of a set of strings. -/
structure SetOrder where
  order : List String → List String
  perm : ∀ l, (order l).Perm l

namespace RequestState

def fromNewRequest (request : EngineCoreRequest) (parentReq : Option Nat) (requestIndex : Nat)
    (queue : Bool) : RequestState where
  requestId := request.requestId
  externalReqId := request.externalReqId
  parentReq := parentReq
  requestIndex := requestIndex
  outputKind := request.outputKind
  queue := queue
  streamingInput := request.resumable
  inputChunkQueue := if request.resumable then some [] else none

def applyStreamingUpdate (st : RequestState) (update : StreamingUpdate) : RequestState :=
  { st with streamingInput := !update.final }

end RequestState

namespace OutputProcessor

def init : OutputProcessor where
  requestStates := .empty
  parentRequests := .empty
  externalReqIds := .empty
  parents := []

/-- The id of a parent object. -/
def parentId (s : OutputProcessor) (r : Nat) : Option String := (s.parents[r]?).map (·.requestId)

/-- `ParentRequest(request)`. -/
def newParent (s : OutputProcessor) (p : ParentRequest Unit) : OutputProcessor :=
  { s with parents := s.parents ++ [p] }

/-- What `make_request_output` does to the books. -/
def makeRequestOutput (s : OutputProcessor) (st : RequestState) (finished held : Bool) :
    OutputProcessor :=
  if finished = false ∧ (st.outputKind = .finalOnly ∨ held) then s
  else
    match st.parentReq with
    | none => s
    | some r =>
      { s with parents := s.parents.modify r fun p =>
          (p.getOutputs st.requestId st.requestIndex finished ()).2.2 }

/-- The removal of an internal id from the list of its external id. -/
def removeInternal (s : OutputProcessor) (externalReqId requestId : String) :
    Except PyError OutputProcessor :=
  match s.externalReqIds.removeItem externalReqId requestId with
  | none => .error (.ValueError "list.remove(x): x not in list")
  | some externalReqIds => .ok { s with externalReqIds := externalReqIds }

/-- The end of `_finish_request`: a parent without children on its record is not kept. -/
def forgetParent (s : OutputProcessor) (st : RequestState) : OutputProcessor :=
  match st.parentReq.bind fun r => s.parents[r]? with
  | none => s
  | some p =>
    if p.childRequests = [] then
      { s with parentRequests := s.parentRequests.erase p.requestId }
    else s

def finishRequest (s : OutputProcessor) (st : RequestState) : Except PyError OutputProcessor :=
  if s.requestStates.contains st.requestId = false then .error (.KeyError st.requestId)
  else
    (removeInternal { s with requestStates := s.requestStates.erase st.requestId }
      st.externalReqId st.requestId).map fun s => s.forgetParent st

def updateStreamingRequestState (s : OutputProcessor) (st : RequestState)
    (request : EngineCoreRequest) : Except PyError OutputProcessor :=
  let put (st : RequestState) : OutputProcessor :=
    { s with requestStates := s.requestStates.set st.requestId st }
  if request.resumable = false then
    match st.inputChunkQueue with
    | none => s.finishRequest st
    | some [] => .ok (put { st with streamingInput := false })
    | some (u :: us) =>
      .ok (put { st with inputChunkQueue := some ((u :: us).dropLast ++ [{ final := true }]) })
  else
    match st.inputChunkQueue with
    | none => .ok (put { st.applyStreamingUpdate {} with inputChunkQueue := some [] })
    | some us => .ok (put { st with inputChunkQueue := some (us ++ [{}]) })

/-- `self.parent_requests[parent_req.request_id] = parent_req`, if there is a parent. -/
def registerParent (s : OutputProcessor) (parentReq : Option Nat) : Dict String Nat :=
  match parentReq.bind fun r => (s.parentId r).map fun k => (k, r) with
  | none => s.parentRequests
  | some (k, r) => s.parentRequests.set k r

def addRequest (s : OutputProcessor) (request : EngineCoreRequest) (parentReq : Option Nat)
    (requestIndex : Nat) (queue : Bool) : Except PyError OutputProcessor :=
  match s.requestStates.get? request.requestId with
  | some st => s.updateStreamingRequestState st request
  | none =>
    .ok { s with
      requestStates := s.requestStates.set request.requestId
        (.fromNewRequest request parentReq requestIndex queue)
      parentRequests := s.registerParent parentReq
      externalReqIds := s.externalReqIds.appendItem request.externalReqId request.requestId }

/-- `get_child_info` and `add_request` for a child of a parallel sampling request. -/
def addChild (s : OutputProcessor) (r index : Nat) (queue : Bool) :
    Except PyError OutputProcessor :=
  match s.parents[r]? with
  | none => .ok s
  | some p =>
    { s with parents := s.parents.set r (p.getChildInfo index).2 }.addRequest
      { requestId := p.childReqId index
        externalReqId := p.externalReqId
        outputKind := p.outputKind } (some r) index queue

/-- One pass of the loop of `process_outputs`. -/
def processOutput (s : OutputProcessor) (output : EngineCoreOutput) :
    Except PyError OutputProcessor :=
  match s.requestStates.get? output.requestId with
  | none => .ok s
  | some st =>
    let finished := output.finishReason || output.stopString
    let s := s.makeRequestOutput st finished output.held
    if finished = false then .ok s
    else if st.streamingInput then
      match st.inputChunkQueue with
      | some (u :: us) => .ok { s with
          requestStates := s.requestStates.set st.requestId
            { st.applyStreamingUpdate u with inputChunkQueue := some us } }
      | _ => .ok { s with
          requestStates := s.requestStates.set st.requestId { st with inputChunkQueue := none } }
    else s.finishRequest st

def processOutputs (s : OutputProcessor) (outputs : List EngineCoreOutput) :
    Except PyError OutputProcessor := outputs.foldlM processOutput s

/-- The first loop of `abort_requests` for internal ids: live requests leave the lists of their
external ids. -/
def unlinkInternal (s : OutputProcessor) (requestId : String) : Except PyError OutputProcessor :=
  match s.requestStates.get? requestId with
  | none => .ok s
  | some st => s.removeInternal st.externalReqId requestId

/-- The first loop of `abort_requests` for external ids: all internal ids of each. -/
def popExternal (s : List String × OutputProcessor) (requestId : String) :
    List String × OutputProcessor :=
  (s.1 ++ s.2.externalReqIds.items requestId,
    { s.2 with externalReqIds := s.2.externalReqIds.erase requestId })

/-- The first loop of `abort_requests`: the internal ids to abort. -/
def collectInternal (s : OutputProcessor) (requestIds : List String) (internal : Bool) :
    Except PyError (List String × OutputProcessor) :=
  if internal then (requestIds.foldlM unlinkInternal s).map fun s => (requestIds, s)
  else .ok (requestIds.foldl popExternal ([], s))

/-- One pass of the second loop of `abort_requests`. `abortChildren` is the recursive call. -/
def abortOne (order : SetOrder)
    (abortChildren : OutputProcessor → List String → Except PyError (List String × OutputProcessor))
    (r : List String × OutputProcessor) (requestId : String) :
    Except PyError (List String × OutputProcessor) :=
  match r.2.requestStates.get? requestId with
  | some st =>
    let s := { r.2 with requestStates := r.2.requestStates.erase requestId }
    .ok (r.1 ++ [requestId], if st.queue then s.makeRequestOutput st true false else s)
  | none =>
    match (r.2.parentRequests.get? requestId).bind fun i => r.2.parents[i]? with
    | none => .ok r
    | some p => do
        let (aborted, s) ←
          if p.childRequests = [] then .ok ([], r.2)
          else abortChildren r.2 (order.order p.childRequests)
        return (r.1 ++ aborted, { s with parentRequests := s.parentRequests.erase requestId })

/-- `abort_requests`, within the recursion limit `depth`. -/
def abortRequests (order : SetOrder) :
    Nat → OutputProcessor → List String → Bool → Except PyError (List String × OutputProcessor)
  | 0, _, _, _ => .error (.RuntimeError "maximum recursion depth exceeded")
  | depth + 1, s, requestIds, internal => do
      let (internalReqIds, s) ← s.collectInternal requestIds internal
      internalReqIds.foldlM
        (abortOne order fun s children => abortRequests order depth s children true) ([], s)

end OutputProcessor

end MyOperator.Outputs
