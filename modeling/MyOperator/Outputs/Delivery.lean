import MyOperator.Outputs.Processor
import MyOperator.Lib.Upsert
import Std.Data.String.ToNat

/-!
# The outputs of a request in delta mode

The way of the tokens and logprobs of a request, with all its samples, from the
engine core to the consumer: the request states slice what is new, the collector
merges what the consumer has not taken yet. A slice of logprobs is a list of its
own; the empty list of a completion without logprobs is not sliced, so an output may
share the list of the logprobs processor.
-/

namespace MyOperator.Outputs

variable {τ Λ : Type}

/-- The logprobs of an output: absent, a list of its own, or the very list of the logprobs
processor. -/
inductive OutLogprobs (Λ : Type)
  | none
  | own (l : List Λ)
  | shared
  deriving DecidableEq

/-- `CompletionOutput`, with whether it has a finish reason. -/
structure CompletionOutput (τ Λ : Type) where
  index : Nat
  tokenIds : List τ
  logprobs : OutLogprobs Λ
  finishReason : Bool
  deriving DecidableEq

structure RequestOutput (τ Λ : Type) where
  outputs : List (CompletionOutput τ Λ)
  finished : Bool
  deriving DecidableEq

def streamFinished : RequestOutput τ Λ where
  outputs := []
  finished := true

/-- `if next_completion.logprobs: completion.logprobs.extend(next_completion.logprobs)`: the logprobs
of the merged output, and what is appended to the list of the logprobs processor. A shared list is
empty when its output is put. -/
def extendLogprobs (logprobs next : OutLogprobs Λ) : Except PyError (OutLogprobs Λ × List Λ) :=
  match next with
  | .own (x :: l) =>
    match logprobs with
    | .none => .error (.AssertionError "completion.logprobs is not None")
    | .own l0 => .ok (.own (l0 ++ x :: l), [])
    | .shared => .ok (.shared, x :: l)
  | _ => .ok (logprobs, [])

/-- One pass of the loop of `RequestOutput.add`. -/
def addCompletion (aggregate : Bool) : List (CompletionOutput τ Λ) → CompletionOutput τ Λ →
    Except PyError (List (CompletionOutput τ Λ) × List Λ)
  | [], next => .ok ([next], [])
  | c :: cs, next =>
    if c.index = next.index then
      if aggregate then
        (extendLogprobs c.logprobs next.logprobs).map fun r =>
          ({ c with
              tokenIds := c.tokenIds ++ next.tokenIds
              logprobs := r.1
              finishReason := next.finishReason } :: cs, r.2)
      else .ok (next :: cs, [])
    else (addCompletion aggregate cs next).map fun r => (c :: r.1, r.2)

/-- `RequestOutput.add`, with what it appends to lists of logprobs processors, by index. -/
def RequestOutput.add (self next : RequestOutput τ Λ) (aggregate : Bool) :
    Except PyError (RequestOutput τ Λ × List (Nat × List Λ)) :=
  next.outputs.foldlM (fun r o => (addCompletion aggregate r.1.outputs o).map fun a =>
      ({ r.1 with outputs := a.1 }, r.2 ++ [(o.index, a.2)]))
    ({ self with finished := self.finished || next.finished }, [])

/-- The state of a sample of the request: `tokenIds` are the output tokens of the detokenizer,
`logprobs` those of the logprobs processor. `live` tells whether it is in `request_states`. -/
structure Completion (τ Λ : Type) where
  index : Nat
  requestId : String
  tokenIds : List τ
  sentTokensOffset : Nat
  logprobs : Option (List Λ)
  streamingInput : Bool
  inputChunkQueue : Option (List StreamingUpdate)
  live : Bool
  deriving DecidableEq

/-- A request in delta mode: its samples as far as they were added, the parent if there are several,
the output in the collector, and what the consumer has received. -/
structure Delivery (τ Λ : Type) where
  streamInterval : Nat
  parent : Option (ParentRequest (CompletionOutput τ Λ))
  completions : List (Completion τ Λ)
  output : Option (RequestOutput τ Λ)
  received : List (RequestOutput τ Λ)
  deriving DecidableEq

/-- `l[-n:]`. -/
def lastSlice {α : Type} (l : List α) (n : Nat) : List α :=
  if n = 0 then l else l.drop (l.length - n)

namespace Completion

def newCompletionOutput (c : Completion τ Λ) (tokenIds : List τ) (finished : Bool) :
    CompletionOutput τ Λ where
  index := c.index
  tokenIds := tokenIds
  logprobs :=
    match c.logprobs with
    | none => .none
    | some [] => .shared
    | some (x :: l) => .own (lastSlice (x :: l) tokenIds.length)
  finishReason := finished

/-- The stream interval holds the output back. -/
def Held (c : Completion τ Λ) (streamInterval : Nat) (finished : Bool) : Prop :=
  1 < streamInterval ∧ ¬ (finished = true ∨ c.sentTokensOffset = 0 ∨
    streamInterval ≤ c.tokenIds.length - c.sentTokensOffset)

instance (c : Completion τ Λ) (streamInterval : Nat) (finished : Bool) :
    Decidable (c.Held streamInterval finished) := inferInstanceAs (Decidable (_ ∧ _))

/-- The tokens to send in delta mode. -/
def tokensToSend (c : Completion τ Λ) (streamInterval : Nat) (newTokenIds : List τ) : List τ :=
  if 1 < streamInterval then c.tokenIds.drop c.sentTokensOffset else newTokenIds

/-- The request state after sending. -/
def sent (c : Completion τ Λ) (streamInterval : Nat) : Completion τ Λ :=
  if 1 < streamInterval then { c with sentTokensOffset := c.tokenIds.length } else c

/-- The updates of the detokenizer and the logprobs processor. The engine core sends one entry of
logprobs for each token. -/
def update (c : Completion τ Λ) (new : List (τ × Λ)) : Completion τ Λ := { c with
    tokenIds := c.tokenIds ++ new.map (·.1)
    logprobs := c.logprobs.map (· ++ new.map (·.2)) }

/-- The end of `process_outputs` for a finished output: a session takes its next chunk, any other
request leaves `request_states`. -/
def free (c : Completion τ Λ) : Completion τ Λ :=
  if c.streamingInput then
    match c.inputChunkQueue with
    | some (u :: us) => { c with streamingInput := !u.final, inputChunkQueue := some us }
    | _ => { c with inputChunkQueue := none }
  else { c with live := false }

/-- A request that leaves `request_states`. -/
def drop (c : Completion τ Λ) : Completion τ Λ := { c with live := false }

end Completion

namespace Delivery

/-- `parent_req.get_outputs`, or the output alone. -/
def getOutputs (s : Delivery τ Λ) (requestId : String) (finished : Bool)
    (o : CompletionOutput τ Λ) :
    List (CompletionOutput τ Λ) × Bool × Option (ParentRequest (CompletionOutput τ Λ)) :=
  match s.parent with
  | none => ([o], finished, none)
  | some p =>
    let r := p.getOutputs requestId o.index o.finishReason o
    (r.1.filterMap id, r.2.1, some r.2.2)

def makeRequestOutput (s : Delivery τ Λ) (c : Completion τ Λ) (newTokenIds : List τ)
    (finished : Bool) :
    Option (RequestOutput τ Λ) × Completion τ Λ × Option (ParentRequest (CompletionOutput τ Λ)) :=
  if c.Held s.streamInterval finished then (none, c, s.parent)
  else
    let r := s.getOutputs c.requestId finished
      (c.newCompletionOutput (c.tokensToSend s.streamInterval newTokenIds) finished)
    (if r.1 = [] then none else some { outputs := r.1, finished := r.2.1 },
      c.sent s.streamInterval, r.2.2)

/-- What a merge appended to the lists of the logprobs processors. -/
def extendProcessors (completions : List (Completion τ Λ)) (ext : List (Nat × List Λ)) :
    List (Completion τ Λ) :=
  ext.foldl (fun cs e => cs.modify e.1 fun c => { c with logprobs := c.logprobs.map (· ++ e.2) })
    completions

/-- `RequestOutputCollector.put` of an output; in delta mode outputs are aggregated. -/
def put (s : Delivery τ Λ) (out : RequestOutput τ Λ) : Except PyError (Delivery τ Λ) :=
  match s.output with
  | none => .ok { s with output := some out }
  | some cur => (cur.add out true).map fun r =>
    { s with output := some r.1, completions := extendProcessors s.completions r.2 }

/-- The output of a sample is put into the collector; `after` is the sample afterwards. A session
with streaming input never reports that it has finished. -/
def emit (s : Delivery τ Λ) (i : Nat) (c : Completion τ Λ) (newTokenIds : List τ)
    (finished session : Bool) (after : Completion τ Λ → Completion τ Λ) :
    Except PyError (Delivery τ Λ) :=
  let r := s.makeRequestOutput c newTokenIds finished
  let s := { s with completions := s.completions.set i (after r.2.1), parent := r.2.2 }
  match r.1 with
  | none => .ok s
  | some out => s.put (if session then { out with finished := false } else out)

/-- An output of the engine core for a sample, with its finish reason or a stop string of the
detokenizer. Unknown requests are ignored. -/
def processOutput (s : Delivery τ Λ) (i : Nat) (new : List (τ × Λ)) (finished : Bool) :
    Except PyError (Delivery τ Λ) :=
  match s.completions[i]? with
  | none => .ok s
  | some c =>
    if c.live then
      s.emit i (c.update new) (new.map (·.1)) finished c.streamingInput
        (if finished then Completion.free else id)
    else .ok s

/-- The abort of a sample. -/
def abort (s : Delivery τ Λ) (i : Nat) : Except PyError (Delivery τ Λ) :=
  match s.completions[i]? with
  | none => .ok s
  | some c => if c.live then s.emit i c [] true false Completion.drop else .ok s

/-- `_update_streaming_request_state` of a session: a further chunk of input, or the end of the
input. -/
def updateStreaming (s : Delivery τ Λ) (i : Nat) (resumable : Bool) :
    Except PyError (Delivery τ Λ) :=
  match s.completions[i]? with
  | none => .ok s
  | some c =>
    let put (c : Completion τ Λ) : Delivery τ Λ :=
      { s with completions := s.completions.set i c }
    if c.live ∧ c.streamingInput then
      match resumable, c.inputChunkQueue with
      | true, none => .ok (put { c with inputChunkQueue := some [] })
      | true, some us => .ok (put { c with inputChunkQueue := some (us ++ [{}]) })
      | false, none => (put c.drop).put streamFinished
      | false, some [] => .ok (put { c with streamingInput := false })
      | false, some (u :: us) =>
        .ok (put { c with
          inputChunkQueue := some ((u :: us).dropLast ++ [{ final := true }]) })
    else .ok s

/-- The next sample is added, or the only one, which may be a session with streaming input. -/
def add (s : Delivery τ Λ) (requestId : String) (logprobs streamingInput : Bool) : Delivery τ Λ :=
  let index := s.completions.length
  let completion (requestId : String) (streamingInput : Bool) : Completion τ Λ :=
    { index := index
      requestId := requestId
      tokenIds := []
      sentTokensOffset := 0
      logprobs := if logprobs then some [] else none
      streamingInput := streamingInput
      inputChunkQueue := if streamingInput then some [] else none
      live := true }
  match s.parent with
  | none => { s with completions := s.completions ++ [completion requestId streamingInput] }
  | some p => { s with
      parent := some (p.getChildInfo index).2
      completions := s.completions ++ [completion (p.childReqId index) false] }

/-- The consumer has received the finished output and stops. -/
def done (s : Delivery τ Λ) : Bool := s.received.any (·.finished)

def get (s : Delivery τ Λ) : Delivery τ Λ :=
  match s.output with
  | none => s
  | some out => if s.done then s else { s with output := none, received := s.received ++ [out] }

end Delivery

end MyOperator.Outputs

/-!
## What is on its way to the consumer

The outputs received and the output in the collector, read in this order, carry the
tokens and the logprobs of each sample without gap and without repetition, up to the
tokens that the stream interval holds back. A put into the collector appends to this
stream.
-/

namespace MyOperator.Outputs

open Lib List

variable {τ Λ : Type}

/-! ## Merging -/

namespace OutLogprobs

/-- The entries that are the output's own. -/
def toList : OutLogprobs Λ → List Λ
  | none => []
  | own l => l
  | shared => []

/-- The logprobs of a merged output. -/
def append : OutLogprobs Λ → OutLogprobs Λ → OutLogprobs Λ
  | own l, own l' => own (l ++ l')
  | a, _ => a

/-- Merging appends to a list of the output's own, or appends nothing. -/
def Mergeable (a b : OutLogprobs Λ) : Prop := b.toList = [] ∨ ∃ l, a = own l

variable {a b : OutLogprobs Λ}

theorem Mergeable.toList_append (h : Mergeable a b) :
    (a.append b).toList = a.toList ++ b.toList := by
  rcases h with hb | ⟨l, rfl⟩
  · cases a <;> cases b <;> simp_all [append, toList]
  · cases b <;> simp [append, toList]

theorem Mergeable.extendLogprobs (h : Mergeable a b) :
    extendLogprobs a b = .ok (a.append b, []) := by
  cases b with
  | none => cases a <;> rfl
  | shared => cases a <;> rfl
  | own l =>
    cases l with
    | nil => cases a <;> simp [Outputs.extendLogprobs, append]
    | cons x l =>
      rcases h with hb | ⟨l0, rfl⟩
      · cases hb
      · rfl

end OutLogprobs

/-- The merged output. -/
def CompletionOutput.merge (c next : CompletionOutput τ Λ) : CompletionOutput τ Λ := { c with
    tokenIds := c.tokenIds ++ next.tokenIds
    logprobs := c.logprobs.append next.logprobs
    finishReason := next.finishReason }

/-- The tokens of the sample `i` in a list of outputs. -/
def tokensAt (i : Nat) (l : List (CompletionOutput τ Λ)) : List τ :=
  contentAt (·.index) (·.tokenIds) i l

/-- The logprobs of the sample `i` in a list of outputs. -/
def logprobsAt (i : Nat) (l : List (CompletionOutput τ Λ)) : List Λ :=
  contentAt (·.index) (·.logprobs.toList) i l

variable {cs l l' : List (CompletionOutput τ Λ)} {o b : CompletionOutput τ Λ} {i n : Nat}

@[simp] theorem tokensAt_nil : tokensAt i ([] : List (CompletionOutput τ Λ)) = [] := rfl

@[simp] theorem logprobsAt_nil : logprobsAt i ([] : List (CompletionOutput τ Λ)) = [] := rfl

@[simp] theorem tokensAt_append : tokensAt i (l ++ l') = tokensAt i l ++ tokensAt i l' :=
  contentAt_append

@[simp] theorem logprobsAt_append : logprobsAt i (l ++ l') = logprobsAt i l ++ logprobsAt i l' :=
  contentAt_append

theorem tokensAt_singleton : tokensAt i [o] = if o.index = i then o.tokenIds else [] := by
  rw [tokensAt, contentAt_cons, contentAt_nil, append_nil]

theorem logprobsAt_singleton :
    logprobsAt i [o] = if o.index = i then o.logprobs.toList else [] := by
  rw [logprobsAt, contentAt_cons, contentAt_nil, append_nil]

/-- An output can be merged into the one with its index. -/
def CanMerge (cs : List (CompletionOutput τ Λ)) (o : CompletionOutput τ Λ) : Prop :=
  ∀ b ∈ cs, b.index = o.index → OutLogprobs.Mergeable b.logprobs o.logprobs

theorem addCompletion_ok (h : CanMerge cs o) :
    addCompletion true cs o = .ok (upsert (·.index) CompletionOutput.merge cs o, []) := by
  induction cs with
  | nil => rfl
  | cons c cs ih =>
    rw [addCompletion, upsert]
    by_cases hi : c.index = o.index
    · rw [if_pos hi, if_pos hi, if_pos rfl, (h c mem_cons_self hi).extendLogprobs]
      rfl
    · rw [if_neg hi, if_neg hi, ih fun b hb => h b (mem_cons_of_mem _ hb)]
      rfl

theorem tokensAt_upsert (h : (cs.map (·.index)).Nodup) :
    tokensAt i (upsert (·.index) CompletionOutput.merge cs o) =
      tokensAt i cs ++ tokensAt i [o] := by
  rw [tokensAt_singleton]
  exact contentAt_upsert (fun _ _ => rfl) (fun _ _ _ => rfl) h

theorem logprobsAt_upsert (h : (cs.map (·.index)).Nodup) (hmerge : CanMerge cs o) :
    logprobsAt i (upsert (·.index) CompletionOutput.merge cs o) =
      logprobsAt i cs ++ logprobsAt i [o] := by
  rw [logprobsAt_singleton]
  exact contentAt_upsert (fun _ _ => rfl) (fun b hb hi => (hmerge b hb hi).toList_append) h

namespace Delivery

variable {s t : Delivery τ Λ}

/-- The outputs received and the one in the collector. -/
def flow (s : Delivery τ Λ) : List (CompletionOutput τ Λ) :=
  s.received.flatMap (·.outputs) ++ s.output.toList.flatMap (·.outputs)

/-- The outputs received and the one in the collector, with their finished flags. -/
def sentOutputs (s : Delivery τ Λ) : List (RequestOutput τ Λ) := s.received ++ s.output.toList

/-- No index stands twice in the output in the collector. -/
def Distinct (s : Delivery τ Λ) : Prop :=
  ∀ out, s.output = some out → (out.outputs.map (·.index)).Nodup

/-- What a put of at most one completion does. -/
structure PutSpec (s t : Delivery τ Λ) (out : RequestOutput τ Λ) : Prop where
  streamInterval : t.streamInterval = s.streamInterval
  parent : t.parent = s.parent
  completions : t.completions = s.completions
  received : t.received = s.received
  output : t.output ≠ none
  distinct : t.Distinct
  tokens : ∀ i, tokensAt i t.flow = tokensAt i s.flow ++ tokensAt i out.outputs
  logprobs : ∀ i, logprobsAt i t.flow = logprobsAt i s.flow ++ logprobsAt i out.outputs
  mem : ∀ b ∈ t.flow, b ∈ s.flow ∨ b ∈ out.outputs ∨
    ∃ c ∈ s.flow, ∃ o ∈ out.outputs, c.index = o.index ∧ b = c.merge o
  finished : (∃ x ∈ t.sentOutputs, x.finished = true) ↔
    (∃ x ∈ s.sentOutputs, x.finished = true) ∨ out.finished = true

theorem extendProcessors_nil (completions : List (Completion τ Λ)) :
    extendProcessors completions [(i, [])] = completions := by
  have hid : (fun c : Completion τ Λ => { c with logprobs := c.logprobs.map (· ++ []) }) = id := by
    funext c
    simp
  show completions.modify i _ = completions
  rw [hid, modify_id]

theorem put_ok {out : RequestOutput τ Λ} (hd : s.Distinct)
    (hout : out.outputs = [] ∨ ∃ o, out.outputs = [o] ∧
      ∀ cur, s.output = some cur → CanMerge cur.outputs o) :
    ∃ t, s.put out = .ok t ∧ PutSpec s t out := by
  cases hcur : s.output with
  | none =>
    refine ⟨{ s with output := some out }, by rw [put, hcur], ?_⟩
    have hflow : flow { s with output := some out } = s.flow ++ out.outputs := by
      simp [flow, hcur]
    exact {
      streamInterval := rfl
      parent := rfl
      completions := rfl
      received := rfl
      output := fun h => by cases h
      distinct := by
        rintro _ ⟨⟩
        rcases hout with hnil | ⟨o, ho, _⟩
        · simp [hnil]
        · simp [ho]
      tokens := fun i => by rw [hflow, tokensAt_append]
      logprobs := fun i => by rw [hflow, logprobsAt_append]
      mem := by
        intro b hb
        rw [hflow] at hb
        exact (mem_append.mp hb).imp id .inl
      finished := by simp [sentOutputs, hcur, or_and_right, exists_or] }
  | some cur =>
    have hnodup := hd cur hcur
    rcases hout with hnil | ⟨o, ho, hmerge⟩
    · refine ⟨{ s with output := some { cur with finished := cur.finished || out.finished } },
        ?_, ?_⟩
      · rw [put, hcur]
        dsimp only
        rw [RequestOutput.add, hnil]
        rfl
      · have hflow : flow { s with output := some { cur with
            finished := cur.finished || out.finished } } = s.flow := by
          simp [flow, hcur]
        exact {
          streamInterval := rfl
          parent := rfl
          completions := rfl
          received := rfl
          output := fun h => by cases h
          distinct := by
            rintro _ ⟨⟩
            exact hnodup
          tokens := fun i => by rw [hflow, hnil, tokensAt_nil, append_nil]
          logprobs := fun i => by rw [hflow, hnil, logprobsAt_nil, append_nil]
          mem := fun b hb => .inl (hflow ▸ hb)
          finished := by
            simp [sentOutputs, hcur, or_and_right, exists_or, or_assoc] }
    · have hcan := hmerge cur hcur
      refine ⟨{ s with output := some {
          outputs := upsert (·.index) CompletionOutput.merge cur.outputs o
          finished := cur.finished || out.finished } }, ?_, ?_⟩
      · rw [put, hcur]
        dsimp only
        rw [RequestOutput.add, ho, foldlM_cons]
        rw [addCompletion_ok hcan]
        simp only [Except.map, ok_bind, foldlM_nil, pure, Except.pure, nil_append]
        rw [extendProcessors_nil]
      · have hflow : flow { s with output := some {
            outputs := upsert (·.index) CompletionOutput.merge cur.outputs o
            finished := cur.finished || out.finished } } = s.received.flatMap (·.outputs) ++
              upsert (·.index) CompletionOutput.merge cur.outputs o := by
          simp [flow]
        have hflow' : s.flow = s.received.flatMap (·.outputs) ++ cur.outputs := by
          simp [flow, hcur]
        exact {
          streamInterval := rfl
          parent := rfl
          completions := rfl
          received := rfl
          output := fun h => by cases h
          distinct := by
            rintro _ ⟨⟩
            exact nodup_upsert (fun _ _ => rfl) hnodup
          tokens := fun i => by
            rw [hflow, hflow', ho, tokensAt_append, tokensAt_append, tokensAt_upsert hnodup,
              append_assoc]
          logprobs := fun i => by
            rw [hflow, hflow', ho, logprobsAt_append, logprobsAt_append,
              logprobsAt_upsert hnodup hcan, append_assoc]
          mem := by
            intro b hb
            rw [hflow] at hb
            rw [hflow', ho]
            rcases mem_append.mp hb with hb | hb
            · exact .inl (mem_append_left _ hb)
            · rcases mem_upsert hb with hb | rfl | ⟨c, hc, hi, rfl⟩
              · exact .inl (mem_append_right _ hb)
              · exact .inr (.inl mem_cons_self)
              · exact .inr (.inr ⟨c, mem_append_right _ hc, o, mem_cons_self, hi, rfl⟩)
          finished := by
            simp [sentOutputs, hcur, or_and_right, exists_or, or_assoc] }

end Delivery

end MyOperator.Outputs
