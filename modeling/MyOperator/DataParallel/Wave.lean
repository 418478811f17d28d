import MyOperator.Lib.TSys

/-!
# The wave protocol of data-parallel engines

`DPEngineCoreProc`, `DPCoordinatorProc` and `DPAsyncMPClient`: the engines run in waves. A wave
ends when an all-reduce finds no unfinished request on any of them; it starts when an engine gets
a request, and the coordinator then wakes the others. A step is what one process does with one
message, or one pass of the busy loop of an engine; messages on one connection are received
in their order.
-/

namespace MyOperator.DataParallel

open Lib Function

/-! ## Messages -/

/-- What a front-end sends to an engine. -/
inductive EngineRequest
  | add (requestId requestWave : Nat)
  | abort (requestIds : List Nat)
  deriving DecidableEq, Repr

/-- What an engine sends to the coordinator. -/
inductive Notice
  | waveComplete (wave : Nat)
  | startWave (wave : Nat)
  deriving DecidableEq, Repr

/-- `exclude_engine_index` of START_DP_WAVE. A front-end names an engine by its identity, which is a
byte string and equal to no `engine_index`. -/
inductive Exclude
  | none
  | identity (engine : Nat)
  | index (engine : Nat)
  deriving DecidableEq, Repr

/-- START_DP_WAVE. -/
structure StartDpWave where
  newWave : Nat
  excludeEngIndex : Exclude
  deriving DecidableEq, Repr

/-! ## Engines -/

/-- Where an engine is in `run_busy_loop`. -/
inductive Phase
  /-- Before the input queue is polled. -/
  | loop
  /-- In the all-reduce, with its `local_unfinished`. -/
  | blocked (localUnfinished : Bool)
  /-- The all-reduce has returned. -/
  | returned (unfinished : Bool)
  deriving DecidableEq, Repr

structure Engine where
  currentWave : Nat := 0
  enginesRunning : Bool := false
  stepCounter : Nat := 0
  /-- The unfinished requests of the scheduler. -/
  requests : List Nat := []
  phase : Phase := .loop
  deriving DecidableEq, Repr

namespace Engine

/-- `DPEngineCoreProc.add_request`, and what is sent to the coordinator. -/
def addRequest (e : Engine) (requestId requestWave : Nat) : Engine × Option Notice :=
  let added := { e with requests := e.requests ++ [requestId] }
  if requestWave = e.currentWave then (added, none)
  else if e.currentWave < requestWave then ({ added with currentWave := requestWave }, none)
  else if ¬ e.enginesRunning then
    -- "Request received for an already-completed wave"
    ({ added with enginesRunning := true }, some (.startWave e.currentWave))
  else (added, none)

def abortRequests (e : Engine) (requestIds : List Nat) : Engine :=
  { e with requests := e.requests.filter fun r => r ∉ requestIds }

/-- `_handle_client_request` of START_DP_WAVE. -/
def handleStartDpWave (e : Engine) (engineIndex : Nat) (request : StartDpWave) : Engine :=
  if request.excludeEngIndex ≠ .index engineIndex ∧ e.currentWave ≤ request.newWave then
    { e with currentWave := request.newWave, enginesRunning := true }
  else e

/-- `_has_global_unfinished_reqs`: the all-reduce is "only" performed "every 32 steps". -/
def hasGlobalUnfinishedReqs (e : Engine) (localUnfinished : Bool) : Engine :=
  if (e.stepCounter + 1) % 32 ≠ 0 then
    { e with stepCounter := e.stepCounter + 1, enginesRunning := true }
  else { e with stepCounter := e.stepCounter + 1, phase := .blocked localUnfinished }

/-- A pass of `run_busy_loop` up to the all-reduce: `executed` is what `_process_engine_step` returns,
and the requests `finished` finish or are aborted in it. -/
def processEngineStep (e : Engine) (executed : Bool) (finished : List Nat) : Engine :=
  let stepped := e.abortRequests finished
  let localUnfinishedReqs : Bool := stepped.requests ≠ []
  -- "All engines are idle."
  if ¬ executed ∧ ¬ localUnfinishedReqs ∧ ¬ e.enginesRunning then stepped
  else stepped.hasGlobalUnfinishedReqs localUnfinishedReqs

/-- The rest of the pass. -/
def resume (e : Engine) (unfinished : Bool) : Engine :=
  if unfinished then { e with enginesRunning := true, phase := .loop }
  else { e with
    enginesRunning := false
    currentWave := e.currentWave + 1
    stepCounter := 0
    phase := .loop }

/-- What the engine has passed to the all-reduce that it waits for. -/
def blockedOn (e : Engine) : Option Bool :=
  match e.phase with
  | .blocked localUnfinished => some localUnfinished
  | _ => none

end Engine

/-! ## The coordinator -/

structure Coordinator where
  currentWave : Nat := 0
  enginesRunning : Bool := false
  deriving DecidableEq, Repr

namespace Coordinator

/-- "We received a message on the front-end XPUB socket": the state, and the START_DP_WAVE that is
sent. -/
def frontReceived (c : Coordinator) (engineToExclude wave : Nat) : Coordinator × Option StartDpWave :=
  if ¬ c.enginesRunning then
    ({ c with enginesRunning := true },
      -- "If the wave number is stale, ensure the message is handled by all the engines."
      some ⟨c.currentWave, if wave < c.currentWave then .none else .identity engineToExclude⟩)
  else (c, none)

/-- "We received a message from one of the engines": the state, the START_DP_WAVE that is sent, and
`wave_state_changed`. -/
def noticeReceived (c : Coordinator) (engIndex : Nat) : Notice →
    Coordinator × Option StartDpWave × Bool
  | .waveComplete wave =>
    if c.currentWave ≤ wave then (⟨wave + 1, false⟩, none, true) else (c, none, false)
  | .startWave wave =>
    if c.currentWave < wave ∨ (wave = c.currentWave ∧ ¬ c.enginesRunning) then
      (⟨wave, true⟩, some ⟨wave, .index engIndex⟩, true)
    else (c, none, false)

end Coordinator

/-! ## The system -/

structure Client where
  currentWave : Nat := 0
  enginesRunning : Bool := false
  deriving DecidableEq, Repr

/-- The engines, the front-ends, the coordinator, and the connections between them. There are `n + 1`
engines and `m` front-ends. -/
structure State (n m : Nat) where
  engine : Fin (n + 1) → Engine := fun _ => {}
  client : Fin m → Client := fun _ => {}
  coordinator : Coordinator := {}
  /-- From a front-end to an engine. -/
  input : Fin m → Fin (n + 1) → List EngineRequest := fun _ _ => []
  /-- From the coordinator to an engine. -/
  startWave : Fin (n + 1) → List StartDpWave := fun _ => []
  /-- From an engine to the coordinator. -/
  notices : Fin (n + 1) → List Notice := fun _ => []
  /-- FIRST_REQ, from `add_request_async` to the stats task. -/
  firstReq : Fin m → List (Fin (n + 1)) := fun _ => []
  /-- From the stats task of a front-end to the coordinator: the target engine and the wave. -/
  wake : Fin m → List (Fin (n + 1) × Nat) := fun _ => []
  /-- From the coordinator to a front-end: the wave, and whether the engines are running. -/
  publish : Fin m → List (Nat × Bool) := fun _ => []

namespace State

variable {n m : Nat} (s : State n m)

def setEngine (e : Fin (n + 1)) (x : Engine) : State n m :=
  { s with engine := update s.engine e x }

/-- `self.output_queue.put_nowait((-1, notice))`. -/
def notify (e : Fin (n + 1)) (notice : Option Notice) : State n m :=
  { s with notices := update s.notices e (s.notices e ++ notice.toList) }

/-- `_send_start_wave`. -/
def broadcast (request : Option StartDpWave) : State n m :=
  { s with startWave := fun e => s.startWave e ++ request.toList }

/-- `publish_front.send((counts, current_wave, engines_running))`. -/
def published : State n m :=
  { s with publish := fun c =>
      s.publish c ++ [(s.coordinator.currentWave, s.coordinator.enginesRunning)] }

def addRequestAsync (c : Fin m) (chosenEngine : Fin (n + 1)) (requestId : Nat) : State n m :=
  { s with
    input := update s.input c (update (s.input c) chosenEngine
      (s.input c chosenEngine ++ [.add requestId (s.client c).currentWave]))
    firstReq := update s.firstReq c
      (s.firstReq c ++ if ¬ (s.client c).enginesRunning then [chosenEngine] else []) }

def abortRequestsAsync (c : Fin m) (e : Fin (n + 1)) (requestIds : List Nat) : State n m :=
  { s with input := update s.input c (update (s.input c) e
      (s.input c e ++ [.abort requestIds])) }

/-- The stats task receives FIRST_REQ. -/
def firstReqReceived (c : Fin m) (target : Fin (n + 1)) (rest : List (Fin (n + 1))) : State n m :=
  { s with
    firstReq := update s.firstReq c rest
    client := update s.client c { s.client c with enginesRunning := true }
    wake := update s.wake c (s.wake c ++ [(target, (s.client c).currentWave)]) }

/-- The stats task receives a message of the coordinator. -/
def statsReceived (c : Fin m) (wave : Nat) (running : Bool) (rest : List (Nat × Bool)) : State n m :=
  { s with
    publish := update s.publish c rest
    client := update s.client c ⟨wave, running⟩ }

/-- The coordinator receives the next message of a front-end, if there is one. -/
def frontEvent (c : Fin m) : State n m × Bool :=
  match s.wake c with
  | [] => (s, false)
  | (target, wave) :: rest =>
    let handled := s.coordinator.frontReceived target wave
    ({ s with wake := update s.wake c rest, coordinator := handled.1 }.broadcast handled.2,
      handled.2.isSome)

/-- The coordinator receives the next message of an engine, if there is one. -/
def backEvent (e : Fin (n + 1)) : State n m × Bool :=
  match s.notices e with
  | [] => (s, false)
  | notice :: rest =>
    let handled := s.coordinator.noticeReceived e notice
    ({ s with
      notices := update s.notices e rest
      coordinator := handled.1 }.broadcast handled.2.1, handled.2.2)

/-- The loop of `process_input_socket`: what `poll` reports of the front-ends and of the engines is
handled, and the state is published if it has changed. -/
def processInputSocket (front : Option (Fin m)) (back : Option (Fin (n + 1))) : State n m :=
  let s1 := front.elim (s, false) s.frontEvent
  let s2 := back.elim (s1.1, false) s1.1.backEvent
  if s1.2 || s2.2 then s2.1.published else s2.1

/-- The engine receives a message of a front-end. -/
def requestReceived (c : Fin m) (e : Fin (n + 1)) (rest : List EngineRequest) :
    EngineRequest → State n m
  | .add requestId requestWave =>
    let handled := (s.engine e).addRequest requestId requestWave
    ({ s with input := update s.input c (update (s.input c) e rest) }.setEngine e
      handled.1).notify e handled.2
  | .abort requestIds =>
    { s with input := update s.input c (update (s.input c) e rest) }.setEngine e
      ((s.engine e).abortRequests requestIds)

/-- The engine receives START_DP_WAVE. -/
def startReceived (e : Fin (n + 1)) (request : StartDpWave) (rest : List StartDpWave) : State n m :=
  { s with startWave := update s.startWave e rest }.setEngine e
    ((s.engine e).handleStartDpWave e request)

/-- The all-reduce returns when all engines have joined it. -/
def allReduce : State n m :=
  if ∀ e, (s.engine e).blockedOn.isSome = true then
    { s with engine := fun e =>
        { s.engine e with phase := .returned (decide (∃ e', (s.engine e').blockedOn = some true)) } }
  else s

/-- A pass of the busy loop of an engine up to the all-reduce. -/
def engineStep (e : Fin (n + 1)) (executed : Bool) (finished : List Nat) : State n m :=
  (s.setEngine e ((s.engine e).processEngineStep executed finished)).allReduce

/-- The rest of the pass; "dp rank 0 sends updates to the coordinator". -/
def engineResume (e : Fin (n + 1)) (unfinished : Bool) : State n m :=
  (s.setEngine e ((s.engine e).resume unfinished)).notify e
    (if ¬ unfinished ∧ e = 0 then some (.waveComplete (s.engine e).currentWave) else none)

/-- A step of one of the processes. -/
inductive Step (s : State n m) : State n m → Prop
  | add (c : Fin m) (e : Fin (n + 1)) (requestId : Nat) : Step s (s.addRequestAsync c e requestId)
  | abort (c : Fin m) (e : Fin (n + 1)) (requestIds : List Nat) :
      Step s (s.abortRequestsAsync c e requestIds)
  | firstReq (c : Fin m) (target : Fin (n + 1)) (rest : List (Fin (n + 1)))
      (h : s.firstReq c = target :: rest) : Step s (s.firstReqReceived c target rest)
  | stats (c : Fin m) (wave : Nat) (running : Bool) (rest : List (Nat × Bool))
      (h : s.publish c = (wave, running) :: rest) : Step s (s.statsReceived c wave running rest)
  /-- "Poller timeout - publish current stats to front-ends." -/
  | timeout : Step s s.published
  | coordinate (front : Option (Fin m)) (back : Option (Fin (n + 1))) :
      Step s (s.processInputSocket front back)
  | request (c : Fin m) (e : Fin (n + 1)) (message : EngineRequest) (rest : List EngineRequest)
      (hphase : (s.engine e).phase = .loop) (h : s.input c e = message :: rest) :
      Step s (s.requestReceived c e rest message)
  | start (e : Fin (n + 1)) (request : StartDpWave) (rest : List StartDpWave)
      (hphase : (s.engine e).phase = .loop) (h : s.startWave e = request :: rest) :
      Step s (s.startReceived e request rest)
  /-- Only a batch with requests is executed. -/
  | step (e : Fin (n + 1)) (executed : Bool) (finished : List Nat)
      (hphase : (s.engine e).phase = .loop)
      (hexecuted : executed = true → (s.engine e).requests ≠ []) :
      Step s (s.engineStep e executed finished)
  | resume (e : Fin (n + 1)) (unfinished : Bool)
      (hphase : (s.engine e).phase = .returned unfinished) : Step s (s.engineResume e unfinished)

end State

/-- The runs of `n + 1` engines and `m` front-ends. -/
def waves (n m : Nat) : TSys (State n m) where
  init s := s = {}
  step := State.Step

end MyOperator.DataParallel
