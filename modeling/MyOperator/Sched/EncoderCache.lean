import MyOperator.Sched.Request

/-!
# The encoder cache managers

`EncoderCacheManager` and `EncoderDecoderCacheManager`. An entry of the first is
shared by the requests that refer to its hash; it becomes freeable when the last
reference goes and is evicted, oldest first, when room is needed. The second only
counts slots. Slot counters are integers, as in the source.
-/

namespace MyOperator.Sched

open Lib
open KvCache (assert)

/-- The order in which Python iterates over a set of small integers. -/
structure SetOrder where
  order : List Nat → List Nat
  perm : ∀ l, (order l).Perm l

/-- `request.mm_features[input_id]`. -/
def Request.mmFeature (r : Request) (inputId : Nat) : Except PyError MultiModalFeatureSpec :=
  match r.mmFeatures[inputId]? with
  | some f => .ok f
  | none => .error (.IndexError "list index out of range")

/-- `EncoderCacheManager`. `cached` maps a hash to the ids of the requests that refer to it. -/
structure EncoderCacheManager where
  cacheSize : Nat
  numFreeSlots : Int
  numFreeableSlots : Int
  cached : Dict String (Finset Nat)
  freeable : Dict String Nat
  freed : List String

namespace EncoderCacheManager

def init (cacheSize : Nat) : EncoderCacheManager where
  cacheSize
  numFreeSlots := cacheSize
  numFreeableSlots := cacheSize
  cached := .empty
  freeable := .empty
  freed := []

variable (m : EncoderCacheManager)

def reset : EncoderCacheManager := init m.cacheSize

/-- `self.freeable.pop(mm_hash)` and the counter that goes with it. -/
def popFreeable (mmHash : String) : Except PyError EncoderCacheManager :=
  match m.freeable.get? mmHash with
  | none => .error (.KeyError mmHash)
  | some numEncoderEmbeds => .ok { m with
      freeable := m.freeable.erase mmHash
      numFreeableSlots := m.numFreeableSlots - numEncoderEmbeds }

def checkAndUpdateCache (request : Request) (inputId : Nat) :
    Except PyError (Bool × EncoderCacheManager) := do
  let f ← request.mmFeature inputId
  match m.cached.get? f.identifier with
  | none => .ok (false, m)
  | some refs => do
      let m ← (if refs = ∅ then m.popFreeable f.identifier else .ok m)
      .ok (true, { m with cached := m.cached.set f.identifier (insert request.requestId refs) })

/-- `self.freeable.popitem(last=False)` and what the eviction loop does with it. -/
def evictOldest : Except PyError EncoderCacheManager :=
  match m.freeable.entries with
  | [] => .error (.KeyError "dictionary is empty")
  | (mmHash, numFreeEmbeds) :: _ =>
    match m.cached.get? mmHash with
    | none => .error (.KeyError mmHash)
    | some _ => .ok { m with
        freeable := m.freeable.erase mmHash
        cached := m.cached.erase mmHash
        freed := m.freed ++ [mmHash]
        numFreeSlots := m.numFreeSlots + numFreeEmbeds }

/-- `while num_embeds > self.num_free_slots`. Each pass shortens `freeable`, so its length is
enough fuel. -/
def evictLoop (numEmbeds : Int) : Nat → EncoderCacheManager → Except PyError EncoderCacheManager
  | 0, m => if numEmbeds > m.numFreeSlots then m.evictOldest else .ok m
  | fuel + 1, m =>
    if numEmbeds > m.numFreeSlots then do
      let m ← m.evictOldest
      evictLoop numEmbeds fuel m
    else .ok m

def canAllocate (request : Request) (inputId : Nat) (encoderComputeBudget : Int)
    (numEmbedsToSchedule : Nat) : Except PyError (Bool × EncoderCacheManager) := do
  let numEmbeds ← request.getNumEncoderEmbeds inputId
  if numEmbeds > encoderComputeBudget then .ok (false, m)
  else
    let numEmbeds : Int := numEmbeds + numEmbedsToSchedule
    if numEmbeds ≤ m.numFreeSlots then .ok (true, m)
    else if numEmbeds > m.numFreeableSlots then .ok (false, m)
    else do
      let m ← evictLoop numEmbeds m.freeable.entries.length m
      .ok (true, m)

def allocate (request : Request) (inputId : Nat) : Except PyError EncoderCacheManager := do
  let f ← request.mmFeature inputId
  let refs := (m.cached.get? f.identifier).getD ∅
  let numEncoderEmbeds ← request.getNumEncoderEmbeds inputId
  assert (m.numFreeSlots ≥ numEncoderEmbeds) ""
  assert (m.numFreeableSlots ≥ numEncoderEmbeds) ""
  .ok { m with
    cached := m.cached.set f.identifier (insert request.requestId refs)
    numFreeSlots := m.numFreeSlots - numEncoderEmbeds
    numFreeableSlots := m.numFreeableSlots - numEncoderEmbeds }

def getCachedInputIds (request : Request) : List Nat :=
  (List.range request.mmFeatures.length).filter fun inputId =>
    match request.mmFeatures[inputId]? with
    | some f => m.cached.contains f.identifier
    | none => false

def freeEncoderInput (request : Request) (inputId : Nat) : Except PyError EncoderCacheManager := do
  let f ← request.mmFeature inputId
  match m.cached.get? f.identifier with
  | none => .ok m
  | some refs =>
    if refs = ∅ then .ok m
    else
      let refs := refs.erase request.requestId
      let m := { m with cached := m.cached.set f.identifier refs }
      if refs = ∅ then do
        let numEncoderEmbeds ← request.getNumEncoderEmbeds inputId
        .ok { m with
          freeable := m.freeable.set f.identifier numEncoderEmbeds
          numFreeableSlots := m.numFreeableSlots + numEncoderEmbeds }
      else .ok m

def free (setOrder : SetOrder) (request : Request) : Except PyError EncoderCacheManager :=
  (setOrder.order (m.getCachedInputIds request)).foldlM
    (fun m inputId => m.freeEncoderInput request inputId) m

def getFreedMmHashes : List String × EncoderCacheManager := (m.freed, { m with freed := [] })

end EncoderCacheManager

structure EncoderDecoderCacheManager where
  cacheSize : Nat
  numFreeSlots : Int
  allocated : List String
  toFree : List String

namespace EncoderDecoderCacheManager

def init (cacheSize : Nat) : EncoderDecoderCacheManager where
  cacheSize
  numFreeSlots := cacheSize
  allocated := []
  toFree := []

variable (m : EncoderDecoderCacheManager)

def reset : EncoderDecoderCacheManager := init m.cacheSize

def canAllocate (request : Request) (inputId : Nat) (encoderComputeBudget : Int)
    (numEmbedsToSchedule : Nat) : Except PyError Bool := do
  let numEncoderEmbeds ← request.getNumEncoderEmbeds inputId
  if numEncoderEmbeds > encoderComputeBudget then .ok false
  else .ok (decide ((numEncoderEmbeds : Int) + numEmbedsToSchedule ≤ m.numFreeSlots))

def allocate (request : Request) (inputId : Nat) : Except PyError EncoderDecoderCacheManager := do
  let numEncoderEmbeds ← request.getNumEncoderEmbeds inputId
  let f ← request.mmFeature inputId
  .ok { m with
    numFreeSlots := m.numFreeSlots - numEncoderEmbeds
    allocated := m.allocated ++ [f.identifier] }

def getCachedInputIds (request : Request) : List Nat := List.range request.mmFeatures.length

def freeEncoderInput (request : Request) (inputId : Nat) :
    Except PyError EncoderDecoderCacheManager := do
  let numEncoderEmbeds ← request.getNumEncoderEmbeds inputId
  .ok { m with numFreeSlots := m.numFreeSlots + numEncoderEmbeds }

def free (request : Request) : Except PyError EncoderDecoderCacheManager :=
  (List.range request.mmFeatures.length).foldlM
    (fun m inputId => m.freeEncoderInput request inputId) m

def getFreedMmHashes : List String × EncoderDecoderCacheManager :=
  (m.toFree, { m with toFree := m.allocated, allocated := [] })

end EncoderDecoderCacheManager

/-- `self.encoder_cache_manager` of the scheduler: one of the two classes. -/
inductive EncoderManager
  | multimodal (m : EncoderCacheManager)
  | encoderDecoder (m : EncoderDecoderCacheManager)

namespace EncoderManager

def checkAndUpdateCache (request : Request) (inputId : Nat) :
    EncoderManager → Except PyError (Bool × EncoderManager)
  | .multimodal m => do
      let (hit, m) ← m.checkAndUpdateCache request inputId
      .ok (hit, .multimodal m)
  | .encoderDecoder m => .ok (false, .encoderDecoder m)

def canAllocate (request : Request) (inputId : Nat) (encoderComputeBudget : Int)
    (numEmbedsToSchedule : Nat) : EncoderManager → Except PyError (Bool × EncoderManager)
  | .multimodal m => do
      let (can, m) ← m.canAllocate request inputId encoderComputeBudget numEmbedsToSchedule
      .ok (can, .multimodal m)
  | .encoderDecoder m => do
      let can ← m.canAllocate request inputId encoderComputeBudget numEmbedsToSchedule
      .ok (can, .encoderDecoder m)

def allocate (request : Request) (inputId : Nat) : EncoderManager → Except PyError EncoderManager
  | .multimodal m => (m.allocate request inputId).map .multimodal
  | .encoderDecoder m => (m.allocate request inputId).map .encoderDecoder

def getCachedInputIds (request : Request) : EncoderManager → List Nat
  | .multimodal m => m.getCachedInputIds request
  | .encoderDecoder _ => EncoderDecoderCacheManager.getCachedInputIds request

def freeEncoderInput (request : Request) (inputId : Nat) :
    EncoderManager → Except PyError EncoderManager
  | .multimodal m => (m.freeEncoderInput request inputId).map .multimodal
  | .encoderDecoder m => (m.freeEncoderInput request inputId).map .encoderDecoder

def free (setOrder : SetOrder) (request : Request) : EncoderManager → Except PyError EncoderManager
  | .multimodal m => (m.free setOrder request).map .multimodal
  | .encoderDecoder m => (m.free request).map .encoderDecoder

def getFreedMmHashes : EncoderManager → List String × EncoderManager
  | .multimodal m => (m.getFreedMmHashes.1, .multimodal m.getFreedMmHashes.2)
  | .encoderDecoder m => (m.getFreedMmHashes.1, .encoderDecoder m.getFreedMmHashes.2)

def reset : EncoderManager → EncoderManager
  | .multimodal m => .multimodal m.reset
  | .encoderDecoder m => .encoderDecoder m.reset

end EncoderManager

/-! ## Choosing encoder inputs -/

/-- What `_try_schedule_encoder_inputs` reads of the configuration. -/
structure EncoderConfig where
  isEncoderDecoder : Bool := false
  disableChunkedMmInput : Bool := false
  hasEcConnector : Bool := false

/-- The local variables of `_try_schedule_encoder_inputs`, and the manager. -/
structure EncoderPlan where
  manager : EncoderManager
  numNewTokens : Int
  encoderComputeBudget : Int
  encoderInputsToSchedule : List Nat := []
  externalLoadEncoderInput : List Nat := []
  mmHashesToSchedule : List String := []
  numEmbedsToSchedule : Nat := 0

/-- What one pass of the loop over the items decides: go on, or `break`. -/
inductive Pick
  | next (p : EncoderPlan)
  | stop (p : EncoderPlan)

/-- The plan that the loop goes on or stops with. -/
def Pick.plan : Pick → EncoderPlan
  | .next p | .stop p => p

/-- The item overlaps the range and room for it was found: schedule it, or load it from the
external cache, unless none of its embeddings is in the range. -/
def pickItem (cfg : EncoderConfig) (hasCacheItem : Bool) (numComputedTokens : Int) (i : Nat)
    (f : MultiModalFeatureSpec) (p : EncoderPlan) : Except PyError Pick := do
  let startPos : Int := f.mmPosition.offset
  let startIdxRel := max 0 (numComputedTokens - startPos)
  let endIdxRel := min (f.mmPosition.length : Int) (numComputedTokens + p.numNewTokens - startPos)
  let (currEmbedsStart, currEmbedsEnd) ←
    f.mmPosition.getEmbedsIndicesInRange startIdxRel endIdxRel
  let numEncoderEmbeds := f.mmPosition.getNumEmbeds
  if currEmbedsEnd - currEmbedsStart = 0 then .ok (.next p)
  else if cfg.hasEcConnector ∧ hasCacheItem then .ok (.next { p with
    mmHashesToSchedule := f.identifier :: p.mmHashesToSchedule
    externalLoadEncoderInput := p.externalLoadEncoderInput ++ [i]
    numEmbedsToSchedule := p.numEmbedsToSchedule + numEncoderEmbeds })
  else .ok (.next { p with
    numEmbedsToSchedule := p.numEmbedsToSchedule + numEncoderEmbeds
    encoderComputeBudget := p.encoderComputeBudget - numEncoderEmbeds
    mmHashesToSchedule := f.identifier :: p.mmHashesToSchedule
    encoderInputsToSchedule := p.encoderInputsToSchedule ++ [i] })

/-- The item is not available yet: check that it may be chunked and that there is room. -/
def placeItem (cfg : EncoderConfig) (hasCacheItem : Bool) (request : Request)
    (numComputedTokens shiftComputedTokens : Int) (i : Nat) (f : MultiModalFeatureSpec)
    (p : EncoderPlan) : Except PyError Pick :=
  let startPos : Int := f.mmPosition.offset
  if cfg.disableChunkedMmInput ∧ numComputedTokens < startPos ∧
      numComputedTokens + p.numNewTokens < startPos + f.mmPosition.length then
    .ok (.stop { p with
      numNewTokens := max 0 (startPos - (numComputedTokens + shiftComputedTokens)) })
  else do
    let (can, manager) ←
      p.manager.canAllocate request i p.encoderComputeBudget p.numEmbedsToSchedule
    let p := { p with manager }
    if can then pickItem cfg hasCacheItem numComputedTokens i f p
    else .ok (.stop { p with numNewTokens :=
      if numComputedTokens + shiftComputedTokens < startPos then
        startPos - (numComputedTokens + shiftComputedTokens)
      else 0 })

/-- One pass of the loop of `_try_schedule_encoder_inputs`. -/
def tryItem (cfg : EncoderConfig) (hasCacheItem : String → Bool) (request : Request)
    (numComputedTokens shiftComputedTokens : Int) (i : Nat) (f : MultiModalFeatureSpec)
    (p : EncoderPlan) : Except PyError Pick :=
  let startPos : Int := f.mmPosition.offset
  if startPos ≥ numComputedTokens + p.numNewTokens + shiftComputedTokens then .ok (.stop p)
  else if cfg.isEncoderDecoder ∧ numComputedTokens > 0 then do
    assert (startPos = 0) "Encoder input should be processed at the beginning of the sequence when encoder-decoder models are used."
    .ok (.next p)
  else if startPos + f.mmPosition.length ≤ numComputedTokens then .ok (.next p)
  else if cfg.isEncoderDecoder then
    placeItem cfg (hasCacheItem f.identifier) request numComputedTokens shiftComputedTokens i f p
  else if f.identifier ∈ p.mmHashesToSchedule then .ok (.next p)
  else do
    let (hit, manager) ← p.manager.checkAndUpdateCache request i
    let p := { p with manager }
    if hit then .ok (.next p)
    else
      placeItem cfg (hasCacheItem f.identifier) request numComputedTokens shiftComputedTokens i f p

/-- The loop of `_try_schedule_encoder_inputs` over the items from index `i` on. -/
def tryItems (cfg : EncoderConfig) (hasCacheItem : String → Bool) (request : Request)
    (numComputedTokens shiftComputedTokens : Int) :
    Nat → List MultiModalFeatureSpec → EncoderPlan → Except PyError EncoderPlan
  | _, [], p => .ok p
  | i, f :: fs, p => do
      match ← tryItem cfg hasCacheItem request numComputedTokens shiftComputedTokens i f p with
      | .stop p => .ok p
      | .next p =>
        tryItems cfg hasCacheItem request numComputedTokens shiftComputedTokens (i + 1) fs p

/-- `_try_schedule_encoder_inputs`. `hasCacheItem` answers `ec_connector.has_cache_item`. -/
def tryScheduleEncoderInputs (cfg : EncoderConfig) (hasCacheItem : String → Bool)
    (manager : EncoderManager) (request : Request) (numComputedTokens numNewTokens : Int)
    (encoderComputeBudget : Int) (shiftComputedTokens : Int) : Except PyError EncoderPlan :=
  let p : EncoderPlan := { manager, numNewTokens, encoderComputeBudget }
  if numNewTokens = 0 ∨ request.hasEncoderInputs = false then .ok p
  else tryItems cfg hasCacheItem request numComputedTokens shiftComputedTokens 0 request.mmFeatures p

end MyOperator.Sched
