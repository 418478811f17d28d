import MyOperator.Multimodal.LRUCache
import MyOperator.Sched.Request

/-!
# The mirrored multimodal caches

The way of a request with multimodal items from the processor to the engine
core. The processor merges its items with `MultiModalProcessorSenderCache`,
modality by modality; the inputs are validated; the engine core receives the
items as features in the order of their positions and completes them from
`MultiModalReceiverCache`. The HF processor is a parameter, as are the outcomes of
the checks that do not look at the multimodal items.
-/

namespace MyOperator.Multimodal

open Lib
open Sched (PlaceholderRange)

variable {δ ι υ ν ο : Type}

/-- `ResolvedPromptUpdate`: the index of the item, and everything else. -/
structure ResolvedPromptUpdate (υ : Type) where
  itemIdx : Nat
  update : υ
  deriving DecidableEq

/-- A processed item with its prompt updates. -/
abbrev ProcessedItem (ι υ : Type) := ι × List (ResolvedPromptUpdate υ)

structure MultiModalProcessorCacheItemMetadata (υ : Type) where
  itemSize : Nat
  promptUpdates : List (ResolvedPromptUpdate υ)

/-- What the model's processor makes of one item of a modality, and `MultiModalCache.get_item_size`.
An item is processed alike alone and with others, which caching single items relies on. -/
structure Processor (δ ι υ : Type) where
  applyHfProcessor : String → δ → ProcessedItem ι υ
  getItemSize : ι → Nat

/-- `get_and_update_item` of both caches: a hit answers with `hit` of the entry, a miss stores
`store` of the item and answers with `miss` of it. -/
def getAndUpdate (base : BaseLRU) (store : ι → ν) (hit : ν → ο) (miss : ι → ο)
    (mmItem : Option ι) (mmHash : String) : CacheM ν ο := do
  match ← LRUCache.get? base mmHash with
  | some cachedItem => return hit cachedItem
  | none =>
    match mmItem with
    | none => throw (.expectedCachedItem mmHash)
    | some item => do
        LRUCache.setitem base mmHash (store item)
        return miss item

/-- `for … in mm_hashes: cache.touch(mm_hash)`. -/
def touchAll (mmHashes : List String) : CacheM ν Unit := mmHashes.forM LRUCache.touch

namespace MultiModalProcessorSenderCache

/-- What the sender keeps of an item. -/
def metadata (proc : Processor δ ι υ) (item : ProcessedItem ι υ) :
    MultiModalProcessorCacheItemMetadata υ where
  itemSize := proc.getItemSize item.1
  promptUpdates := item.2

def getAndUpdateItem (base : BaseLRU) (proc : Processor δ ι υ) :
    Option (ProcessedItem ι υ) → String →
      CacheM (MultiModalProcessorCacheItemMetadata υ) (Option ι × List (ResolvedPromptUpdate υ)) :=
  getAndUpdate base (metadata proc) (fun cached => (none, cached.promptUpdates))
    (fun item => (some item.1, item.2))

end MultiModalProcessorSenderCache

namespace MultiModalReceiverCache

def getAndUpdateItem (base : BaseLRU) : Option ι → String → CacheM ι ι := getAndUpdate base id id id

end MultiModalReceiverCache

/-- An item of a request: its hash, its data unless only the hash was given, and the placeholder
that stands for it in the prompt. -/
structure MMItem (δ : Type) where
  mmHash : String
  data : Option δ
  position : PlaceholderRange
  deriving DecidableEq

/-- A request. `promptError` is what applying the prompt updates raises, `paramsError` what the
checks of the parameters, the LoRA request, the data parallel rank and the platform raise. -/
structure Request (δ : Type) where
  mmItems : Dict String (List (MMItem δ))
  promptTokenIds : List Nat
  encoderPrompt : Option (List Nat) := none
  loraName : Option String := none
  passthroughData : Bool := false
  promptError : Option PyError := none
  paramsError : Option PyError := none

/-- An item as the processor returns it, with the entries of `mm_kwargs`, `mm_hashes` and
`mm_placeholders` for it. -/
structure MMEntry (ι υ : Type) where
  kwargs : Option ι
  promptUpdates : List (ResolvedPromptUpdate υ)
  mmHash : String
  position : PlaceholderRange

/-- `raise`. -/
def ofExcept {α : Type} : Except PyError α → CacheM ν α
  | .ok a => return a
  | .error e => throw (.raised e)

def recomputeCachedPromptUpdate (cachedUpdate : ResolvedPromptUpdate υ) (newItemIdx : Nat) :
    ResolvedPromptUpdate υ := { cachedUpdate with itemIdx := newItemIdx }

/-- The entry of an item. -/
def MMItem.entry (item : MMItem δ) (itemIdx : Nat)
    (r : Option ι × List (ResolvedPromptUpdate υ)) : MMEntry ι υ where
  kwargs := r.1
  promptUpdates := r.2.map fun update => recomputeCachedPromptUpdate update itemIdx
  mmHash := item.mmHash
  position := item.position

/-- `_get_cache_missing_items` for the items of a modality: which of them are cached, and the data
of the others. -/
def getCacheMissingItems (c : LRUCache ν) (modality : String) (items : List (MMItem δ)) :
    Except PyError (List Bool × List δ) := do
  let missing ← (items.zipIdx.filter fun e => !c.contains e.1.mmHash).mapM fun e =>
    match e.1.data with
    | some data => Except.ok data
    | none => .error (.ValueError ("Cache miss for " ++ modality ++ " at index " ++
        toString e.2 ++ " but data is not provided."))
  return (items.map fun item => c.contains item.mmHash, missing)

/-- The inner loop of `_merge_mm_kwargs`. `missing` is the rest of `missing_kwargs`. -/
def mergeItems (base : BaseLRU) (proc : Processor δ ι υ) :
    Nat → List (MMItem δ) → List Bool → List (ProcessedItem ι υ) →
      CacheM (MultiModalProcessorCacheItemMetadata υ) (List (MMEntry ι υ))
  | itemIdx, item :: items, true :: isCached, missing => do
      let r ← MultiModalProcessorSenderCache.getAndUpdateItem base proc none item.mmHash
      let rest ← mergeItems base proc (itemIdx + 1) items isCached missing
      return item.entry itemIdx r :: rest
  | itemIdx, item :: items, false :: isCached, processed :: missing => do
      let r ← MultiModalProcessorSenderCache.getAndUpdateItem base proc (some processed) item.mmHash
      let rest ← mergeItems base proc (itemIdx + 1) items isCached missing
      return item.entry itemIdx r :: rest
  | _, _ :: _, false :: _, [] => throw (.raised (.IndexError "list index out of range"))
  | _, _ :: _, [], _ => throw (.raised (.IndexError "list index out of range"))
  | _, [], _, _ => return []

/-- All items of a dictionary of lists, modality by modality. -/
def flatItems {α : Type} (d : List (String × List α)) : List (String × Nat × α) :=
  d.flatMap fun e => e.2.zipIdx.map fun x => (e.1, x.2, x.1)

/-- The outer loop of `_merge_mm_kwargs`. -/
def mergeModalities (base : BaseLRU) (proc : Processor δ ι υ)
    (mmItems : List (String × List (MMItem δ)))
    (found : List (List Bool × List (ProcessedItem ι υ))) :
    CacheM (MultiModalProcessorCacheItemMetadata υ) (List (String × List (MMEntry ι υ))) :=
  (mmItems.zip found).mapM fun e => do
    let entries ← mergeItems base proc 0 e.1.2 e.2.1 e.2.2
    return (e.1.1, entries)

def mergeMmKwargs (base : BaseLRU) (proc : Processor δ ι υ)
    (mmItems : List (String × List (MMItem δ)))
    (found : List (List Bool × List (ProcessedItem ι υ))) :
    CacheM (MultiModalProcessorCacheItemMetadata υ) (List (String × List (MMEntry ι υ))) := do
  touchAll ((flatItems mmItems).map fun x => x.2.2.mmHash)
  mergeModalities base proc mmItems found

/-- An item that is processed without the cache. -/
def processedEntry (proc : Processor δ ι υ) (modality : String) (length : Nat)
    (x : MMItem δ × Nat) : Except PyError (MMEntry ι υ) :=
  match x.1.data with
  | some data =>
    let processed := proc.applyHfProcessor modality data
    .ok (x.1.entry x.2 (some processed.1, processed.2))
  | none => .error (.RuntimeError ("Expected there to be " ++ toString length ++ " " ++
      modality ++ " items in keyword arguments"))

/-- `_apply_hf_processor`: all items are processed, without the cache. -/
def applyHfProcessor (proc : Processor δ ι υ) (mmItems : List (String × List (MMItem δ))) :
    Except PyError (List (String × List (MMEntry ι υ))) := mmItems.mapM fun e => do
    let entries ← e.2.zipIdx.mapM (processedEntry proc e.1 e.2.length)
    return (e.1, entries)

/-- For each modality, which items are cached, and what the processor makes of the others. -/
def processMissing (proc : Processor δ ι υ) (c : LRUCache ν)
    (mmItems : List (String × List (MMItem δ))) :
    Except PyError (List (List Bool × List (ProcessedItem ι υ))) := mmItems.mapM fun e => do
    let found ← getCacheMissingItems c e.1 e.2
    return (found.1, found.2.map (proc.applyHfProcessor e.1))

def cachedApplyHfProcessor (base : BaseLRU) (proc : Processor δ ι υ) (request : Request δ) :
    CacheM (MultiModalProcessorCacheItemMetadata υ) (List (String × List (MMEntry ι υ))) := do
  if request.passthroughData then ofExcept (applyHfProcessor proc request.mmItems.entries)
  else
    let found ← ofExcept (processMissing proc (← get) request.mmItems.entries)
    mergeMmKwargs base proc request.mmItems.entries found

def apply (base : BaseLRU) (proc : Processor δ ι υ) (request : Request δ) :
    CacheM (MultiModalProcessorCacheItemMetadata υ) (List (String × List (MMEntry ι υ))) := do
  let mmInfo ← cachedApplyHfProcessor base proc request
  match request.promptError with
  | some e => throw (.raised e)
  | none => return mmInfo

/-- The configuration that `InputProcessor` reads. `maxTokenId` is the tokenizer's, if there is
one. -/
structure Config where
  maxModelLen : Nat
  generate : Bool := true
  skipPromptLengthCheck : Bool := false
  mmEncoderCacheSize : Nat
  maxTokenId : Option Nat := none
  vocabSize : Nat := 0
  enableTowerConnectorLora : Bool := false

/-- The two prompts of a request. -/
inductive PromptType
  | encoder
  | decoder
  deriving DecidableEq

/-- `prompt_type`. -/
def PromptType.name : PromptType → String
  | .encoder => "encoder"
  | .decoder => "decoder"

/-- The suggestion of the two length errors, for a model with multimodal inputs. -/
def lengthSuggestion : String :=
  "Make sure that `max_model_len` is no smaller than the number of text tokens plus multimodal " ++
  "tokens. For image inputs, the number of image tokens depends on the number of images, and " ++
  "possibly their aspect ratios as well."

def validatePromptLen (cfg : Config) (promptLen : Nat) (promptType : PromptType) :
    Except PyError Unit :=
  if cfg.skipPromptLengthCheck then .ok ()
  else if promptLen = 0 ∧ promptType = .decoder then
    .error (.ValueError ("The " ++ promptType.name ++ " prompt cannot be empty"))
  else
    let maxPromptLen :=
      if promptType = .decoder then cfg.maxModelLen else cfg.mmEncoderCacheSize
    if promptLen > maxPromptLen then
      .error (.ValueError ("The " ++ promptType.name ++ " prompt (length " ++ toString promptLen ++
        ") is longer than the maximum model length of " ++ toString maxPromptLen ++ ". " ++
        lengthSuggestion))
    else if promptLen = maxPromptLen ∧ cfg.generate then
      .error (.ValueError ("The " ++ promptType.name ++ " prompt (length " ++ toString promptLen ++
        ") plus the number of requested output tokens (at least 1) is longer than the maximum " ++
        "model length of " ++ toString maxPromptLen ++ ". Make sure that `max_model_len` is no " ++
        "smaller than the number of text tokens (prompt + requested output tokens)."))
    else .ok ()

/-- `_validate_model_input`: the length of the prompt, its placeholders, its token ids. -/
def validateModelInput (cfg : Config) (promptIds : List Nat)
    (mmPositions : List (String × List PlaceholderRange)) (promptType : PromptType) :
    Except PyError Unit := do
  validatePromptLen cfg promptIds.length promptType
  mmPositions.forM fun e => e.2.forM fun position =>
    if position.getNumEmbeds > cfg.mmEncoderCacheSize then
      Except.error (.ValueError ("The " ++ promptType.name ++ " prompt contains a(n) " ++ e.1 ++
        " item with length " ++ toString position.getNumEmbeds ++
        ", which exceeds the pre-allocated encoder cache size " ++
        toString cfg.mmEncoderCacheSize ++ ". Please reduce the input size or increase the " ++
        "encoder cache size by setting --limit-mm-per-prompt at startup."))
    else .ok ()
  match cfg.maxTokenId with
  | none => .ok ()
  | some maxTokenId =>
    if promptIds ≠ [] ∧ promptIds.foldl max 0 > max maxTokenId (cfg.vocabSize - 1) then
      .error (.ValueError ("Token id " ++ toString (promptIds.foldl max 0) ++
        " is out of vocabulary"))
    else .ok ()

/-- The placeholders of the items. -/
def placeholders {α : Type} (position : α → PlaceholderRange) (d : List (String × List α)) :
    List (String × List PlaceholderRange) := d.map fun e => (e.1, e.2.map position)

/-- What `process_inputs` raises before it builds the features. -/
def validate (cfg : Config) (request : Request δ) : Except PyError Unit := do
  match request.paramsError with
  | some e => Except.error e
  | none => .ok ()
  match request.encoderPrompt with
  | some promptIds => validateModelInput cfg promptIds [] .encoder
  | none => .ok ()
  validateModelInput cfg request.promptTokenIds
    (placeholders MMItem.position request.mmItems.entries) .decoder

def getMmIdentifier (cfg : Config) (mmHash : String) (loraName : Option String) : String :=
  match loraName with
  | none => mmHash
  | some name => if cfg.enableTowerConnectorLora then name ++ ":" ++ mmHash else mmHash

structure MultiModalFeatureSpec (ι : Type) where
  data : Option ι
  modality : String
  identifier : String
  mmPosition : PlaceholderRange
  mmHash : String

/-- `feature.mm_hash or feature.identifier`. -/
def MultiModalFeatureSpec.cacheKey (f : MultiModalFeatureSpec ι) : String :=
  if f.mmHash = "" then f.identifier else f.mmHash

/-- The order of the positions. -/
def byOffset {α : Type} (position : α → PlaceholderRange) (x y : String × Nat × α) : Prop :=
  (position x.2.2).offset ≤ (position y.2.2).offset

instance {α : Type} (position : α → PlaceholderRange) : DecidableRel (byOffset position) :=
  fun _ _ => Nat.decLe _ _

def argsortMmPositions (mmPositions : List (String × List PlaceholderRange)) :
    List (String × Nat) :=
  ((flatItems mmPositions).insertionSort (byOffset id)).map fun x => (x.1, x.2.1)

/-- The features of `process_inputs`. -/
def mmFeatures (cfg : Config) (loraName : Option String)
    (mmInfo : List (String × List (MMEntry ι υ))) :
    Except PyError (List (MultiModalFeatureSpec ι)) :=
  (argsortMmPositions (placeholders MMEntry.position mmInfo)).mapM fun x =>
    match (assocGet? x.1 mmInfo).bind fun entries => entries[x.2]? with
    | none => .error (.KeyError x.1)
    | some e => .ok {
        data := e.kwargs
        modality := x.1
        identifier := getMmIdentifier cfg e.mmHash loraName
        mmPosition := e.position
        mmHash := e.mmHash }

/-- `process_inputs`, after the processor. -/
def processInputs (cfg : Config) (request : Request δ)
    (mmInfo : List (String × List (MMEntry ι υ))) :
    Except PyError (List (MultiModalFeatureSpec ι)) := do
  validate cfg request
  mmFeatures cfg request.loraName mmInfo

def getAndUpdateFeatures (base : BaseLRU) (features : List (MultiModalFeatureSpec ι)) :
    CacheM ι (List (MultiModalFeatureSpec ι)) := do
  touchAll (features.map MultiModalFeatureSpec.cacheKey)
  features.mapM fun f => do
    let data ← MultiModalReceiverCache.getAndUpdateItem base f.data f.cacheKey
    return { f with data := some data }

/-- How a request went: it stopped in the front end, or its features reached the engine core. -/
inductive Reply (ι : Type)
  | rejected (e : Stop)
  | reached (sent : List (MultiModalFeatureSpec ι))
      (result : Except Stop (List (MultiModalFeatureSpec ι)))

/-- Both caches, and how the last request went. -/
structure Session (ι υ : Type) where
  sender : LRUCache (MultiModalProcessorCacheItemMetadata υ)
  receiver : LRUCache ι
  reply : Option (Reply ι) := none

/-- A request on its way: the processor, `process_inputs`, and `preprocess_add_request` of the
engine core. -/
def serve (base : BaseLRU) (proc : Processor δ ι υ) (cfg : Config) (request : Request δ)
    (s : Session ι υ) : Session ι υ :=
  match (apply base proc request).run s.sender with
  | .error e sender => { s with sender, reply := some (.rejected e) }
  | .ok mmInfo sender =>
    match processInputs cfg request mmInfo with
    | .error e => { s with sender, reply := some (.rejected (.raised e)) }
    | .ok features =>
      match (getAndUpdateFeatures base features).run s.receiver with
      | .error e receiver =>
        { sender, receiver, reply := some (.reached features (.error e)) }
      | .ok completed receiver =>
        { sender, receiver, reply := some (.reached features (.ok completed)) }

end MyOperator.Multimodal
