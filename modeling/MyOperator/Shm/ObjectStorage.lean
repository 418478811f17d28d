import MyOperator.Shm.RingBuffer

/-!
# The object storage in shared memory

`SingleWriterShmObjectStorage`: the writer puts objects into the ring buffer and hands out
their addresses; each reader touches and gets every object whose address it is given. An
object may be freed when the readers have counted as often as the writer: `reader_count`
is in the first four bytes of the object, the writer counts in `writer_flag`.

The sender touches all items of a request before it updates them, and a receiver touches
all features before it gets them.
-/

namespace MyOperator.Shm

open Lib

/-- `flag_bytes`: "for in-use flag". -/
def flagBytes : Nat := 4

/-- `int2byte`, also of a negative integer. -/
def int2byteSigned : Int → Except PyError (List UInt8)
  | .ofNat n => int2byte n
  | .negSucc n =>
    if n < 2147483648 then
      .ok [UInt8.ofNat (4294967295 - n), UInt8.ofNat ((4294967295 - n) / 256),
        UInt8.ofNat ((4294967295 - n) / 65536), UInt8.ofNat ((4294967295 - n) / 16777216)]
    else .error (.OverflowError "int too big to convert")

/-! ## Readers -/

namespace RingBuffer

variable (r : RingBuffer)

/-- `byte2int(data_view[: self.flag_bytes])`. -/
def readerCount (address : Int) : Int := byte2int ((r.accessData address).take flagBytes)

def incrementReaderFlag (address : Int) : Except PyError Unit × RingBuffer :=
  match int2byteSigned (r.readerCount address + 1) with
  | .error e => (.error e, r)
  | .ok bytes => (.ok (), r.store (r.bufIdx address + MD_SIZE) bytes)

/-- `touch` of a reader. "Avoid increasing flag on newly added item". -/
def touch (nReaders : Nat) (address : Int) : Except PyError Unit × RingBuffer :=
  if r.readerCount address ≥ nReaders then r.incrementReaderFlag address else (.ok (), r)

/-- The object behind the flag. -/
def object (address : Int) : List UInt8 := (r.accessData address).drop flagBytes

/-- `get`, the serialized object. -/
def get (address : Int) (monotonicId : Nat) : Except PyError (List UInt8) × RingBuffer :=
  if (r.accessMetadata address).1 ≠ monotonicId then
    (.error (.ValueError
      s!"Data for address:id '{address}:{monotonicId}' has been modified or is invalid."), r)
  else
    match r.incrementReaderFlag address with
    | (.error e, r') => (.error e, r')
    | (.ok (), r') => (.ok (r.object address), r')

end RingBuffer

/-! ## The writer -/

/-- `SingleWriterShmObjectStorage` of the writer. -/
structure ObjectStorage where
  maxObjectSize : Nat
  nReaders : Nat
  ringBuffer : RingBuffer
  /-- key -> (address, monotonic_id). -/
  keyIndex : Dict String (Int × Nat) := .empty
  /-- monotonic_id -> key. -/
  idIndex : Dict Nat String := .empty
  /-- monotonic_id -> count. -/
  writerFlag : Dict Nat Nat := .empty

namespace ObjectStorage

variable (s : ObjectStorage)

def incrementWriterFlag (id : Nat) : ObjectStorage :=
  { s with writerFlag := s.writerFlag.set id ((s.writerFlag.get? id).getD 0 + 1) }

/-- `default_is_free_check`. Each chunk has a writer flag (`StorageSound.flagged`). -/
def defaultIsFreeCheck (id : Nat) (buf : List UInt8) : Bool :=
  match s.writerFlag.get? id with
  | some writerCount => byte2int (buf.take flagBytes) ≥ writerCount * s.nReaders
  | none => false

/-- "update the metadata after freeing up space". -/
def forget (freedId : Nat) : Except PyError Unit × ObjectStorage :=
  match s.idIndex.get? freedId with
  | none => (.error (.KeyError s!"{freedId}"), s)
  | some keyToFree =>
    if !s.keyIndex.contains keyToFree then (.error (.KeyError keyToFree), s)
    else
      let s := { s with
        keyIndex := s.keyIndex.erase keyToFree
        idIndex := s.idIndex.erase freedId }
      if !s.writerFlag.contains freedId then (.error (.KeyError s!"{freedId}"), s)
      else (.ok (), { s with writerFlag := s.writerFlag.erase freedId })

/-- The loop of `free_unused`. -/
def forgetAll : List Nat → ObjectStorage → Except PyError Unit × ObjectStorage
  | [], s => (.ok (), s)
  | freedId :: freedIds, s =>
    match s.forget freedId with
    | (.error e, s) => (.error e, s)
    | (.ok (), s) => forgetAll freedIds s

def freeUnused : Except PyError Unit × ObjectStorage :=
  forgetAll (s.ringBuffer.freeBuf s.defaultIsFreeCheck (some (2 * s.maxObjectSize))).1 { s with
      ringBuffer := (s.ringBuffer.freeBuf s.defaultIsFreeCheck (some (2 * s.maxObjectSize))).2 }

/-- "Allocate new buffer". -/
def allocate (bufferSize : Nat) : Except PyError (Int × Nat) × ObjectStorage :=
  match s.ringBuffer.allocateBuf bufferSize with
  | (.error (.MemoryError _), ringBuffer) =>
    match { s with ringBuffer }.freeUnused with
    | (.error e, s) => (.error e, s)
    | (.ok (), s) =>
      -- try again after freeing up space
      ((s.ringBuffer.allocateBuf bufferSize).1,
        { s with ringBuffer := (s.ringBuffer.allocateBuf bufferSize).2 })
  | (result, ringBuffer) => (result, { s with ringBuffer })

/-- "Write data to buffer", "Update key index". -/
def fill (key : String) (value : List UInt8) (address : Int) (id : Nat) : ObjectStorage :=
  let s := { s with
    ringBuffer := s.ringBuffer.store (s.ringBuffer.bufIdx address + MD_SIZE) ([0, 0, 0, 0] ++ value) }
  let s := s.incrementWriterFlag id
  { s with keyIndex := s.keyIndex.set key (address, id), idIndex := s.idIndex.set id key }

/-- `put` of a serialized value. -/
def put (key : String) (value : List UInt8) : Except PyError (Int × Nat) × ObjectStorage :=
  if s.keyIndex.contains key then
    (.error (.ValueError s!"Key '{key}' already exists in the storage."), s)
  else if flagBytes + value.length > s.maxObjectSize then
    (.error (.ValueError s!"Serialized object size ({flagBytes + value.length} bytes) exceeds max object size ({s.maxObjectSize} bytes)"), s)
  else
    match s.allocate (flagBytes + value.length) with
    | (.error e, s) => (.error e, s)
    | (.ok (address, id), s) => (.ok (address, id), s.fill key value address id)

/-- `touch` of the writer. -/
def touch (key : String) : ObjectStorage :=
  match s.keyIndex.get? key with
  | none => s
  | some (_, monotonicId) => s.incrementWriterFlag monotonicId

/-- `ShmObjectStoreSenderCache.get_and_update_item`: the address that is handed out, if the item is not
sent itself. -/
def getAndUpdateItem (key : String) (item : List UInt8) :
    Except PyError (Option (Int × Nat)) × ObjectStorage :=
  match s.keyIndex.get? key with
  | some (address, monotonicId) => (.ok (some (address, monotonicId)), s.incrementWriterFlag monotonicId)
  | none =>
    match s.put key item with
    | (.ok (address, monotonicId), s) => (.ok (some (address, monotonicId)), s)
    -- "put may fail if the object is too large or the cache is full"
    | (.error (.ValueError _), s) => (.ok none, s)
    | (.error (.MemoryError _), s) => (.ok none, s)
    | (.error e, s) => (.error e, s)

end ObjectStorage

/-! ## Runs -/

/-- An address that was handed out, whether the writer has touched the object for it, and the
object. -/
structure Handout where
  address : Int
  id : Nat
  touched : Bool
  object : List UInt8
  deriving DecidableEq, Repr

/-- A call of a reader. -/
inductive ReaderCall
  | touch (h : Handout)
  | get (h : Handout)
  deriving DecidableEq, Repr

/-- A request that the sender is working on. -/
structure Serving where
  toTouch : List (String × List UInt8)
  /-- With the id of the object that was touched. -/
  toUpdate : List ((String × List UInt8) × Option Nat) := []
  handed : List Handout := []

/-- The storage, the sender, and the calls that each reader has still to make. -/
structure StorageRun where
  storage : ObjectStorage
  serving : Option Serving := none
  calls : Nat → List ReaderCall := fun _ => []

inductive StorageEvent
  /-- A request with its items, the hash and the serialized data of each. -/
  | request (items : List (String × List UInt8))
  /-- "Need to touch all mm hashes before update". -/
  | touch
  /-- `get_and_update_item`. -/
  | update
  /-- The request goes to the readers. -/
  | send
  /-- The reader `r` makes the call number `i` of those it has to make. The requests are scheduled
  in any order. -/
  | read (r i : Nat)

namespace StorageRun

variable (s : StorageRun)

/-- A call of the reader `r`. -/
def read (r i : Nat) (call : ReaderCall) : StorageRun where
  storage := { s.storage with
    ringBuffer := match call with
      | .touch h => (s.storage.ringBuffer.touch s.storage.nReaders h.address).2
      | .get h => (s.storage.ringBuffer.get h.address h.id).2 }
  serving := s.serving
  calls := fun r' => if r' = r then (s.calls r).eraseIdx i else s.calls r'

/-- The next item is touched. -/
def touch (item : String × List UInt8) (rest : List (String × List UInt8)) (serving : Serving) :
    StorageRun := { s with
    storage := s.storage.touch item.1
    serving := some { serving with
      toTouch := rest
      toUpdate := serving.toUpdate ++ [(item, (s.storage.keyIndex.get? item.1).map Prod.snd)] } }

/-- The next item is updated. If the storage raises the request is lost. -/
def update (item : (String × List UInt8) × Option Nat) (rest : List ((String × List UInt8) × Option Nat))
    (serving : Serving) : StorageRun :=
  match s.storage.getAndUpdateItem item.1.1 item.1.2 with
  | (.error _, storage) => { s with storage, serving := none }
  | (.ok none, storage) => { s with storage, serving := some { serving with toUpdate := rest } }
  | (.ok (some (address, id)), storage) =>
    { s with
      storage
      serving := some { serving with
        toUpdate := rest
        handed := serving.handed ++
          [⟨address, id, item.2.isSome, storage.ringBuffer.object address⟩] } }

/-- The readers get the calls of the request. -/
def send (handed : List Handout) : StorageRun := { s with
    serving := none
    calls := fun r => s.calls r ++ (handed.map .touch ++ handed.map .get) }

/-- What an event leaves, if it can happen. -/
def exec : StorageEvent → Option StorageRun
  | .request items =>
    match s.serving with
    | none => some { s with serving := some { toTouch := items } }
    | some _ => none
  | .touch =>
    match s.serving with
    | some serving =>
      match serving.toTouch with
      | item :: rest => some (s.touch item rest serving)
      | [] => none
    | none => none
  | .update =>
    match s.serving with
    | some serving =>
      match serving.toTouch, serving.toUpdate with
      | [], item :: rest => some (s.update item rest serving)
      | _, _ => none
    | none => none
  | .send =>
    match s.serving with
    | some serving =>
      match serving.toTouch, serving.toUpdate with
      | [], [] => some (s.send serving.handed)
      | _, _ => none
    | none => none
  | .read r i =>
    if r < s.storage.nReaders then ((s.calls r)[i]?).map (s.read r i) else none

end StorageRun

/-- The numbers of an allocation that has the space fit into four bytes. -/
def ObjectStorage.Fits (s : ObjectStorage) (bufferSize : Nat) : Prop :=
  s.ringBuffer.dataBufferSize < s.ringBuffer.occupiedSizeNew (bufferSize + MD_SIZE) ∨
    (bufferSize + MD_SIZE < 2147483648 ∧ s.ringBuffer.metadata.entries.length + 1 < ID_MAX)

/-- The numbers that `put` writes fit into four bytes. -/
def ObjectStorage.PutFits (s : ObjectStorage) (key : String) (value : List UInt8) : Prop :=
  s.keyIndex.get? key = none → flagBytes + value.length ≤ s.maxObjectSize →
    s.Fits (flagBytes + value.length) ∧
      (s.ringBuffer.dataBufferSize < s.ringBuffer.occupiedSizeNew (flagBytes + value.length + MD_SIZE) →
        s.freeUnused.2.Fits (flagBytes + value.length))

/-- The condition on an event: a reader counts a touch if and only if the writer has counted it, and
the numbers that are written fit into four bytes. -/
def StorageEvent.Synced (s : StorageRun) : StorageEvent → Prop
  | .read r i =>
    match (s.calls r)[i]? with
    | some (.touch h) =>
      (h.touched = true ↔ s.storage.ringBuffer.readerCount h.address ≥ s.storage.nReaders) ∧
        (h.touched = true → s.storage.ringBuffer.readerCount h.address + 1 < 2147483648)
    | some (.get h) => s.storage.ringBuffer.readerCount h.address + 1 < 2147483648
    | none => True
  | .update =>
    match s.serving with
    | some { toUpdate := item :: _, .. } => s.storage.PutFits item.1.1 item.1.2
    | _ => True
  | _ => True

/-- The runs with `nReaders` readers on a new buffer whose events are all `allowed`. There is a reader
for each worker. -/
def storageRuns (dataBufferSize maxObjectSize nReaders : Nat)
    (allowed : StorageRun → StorageEvent → Prop) : TSys StorageRun where
  init s := 0 < dataBufferSize ∧ 0 < nReaders ∧
    ∃ buf, s = { storage := { maxObjectSize, nReaders, ringBuffer := { dataBufferSize, buf } } }
  step s s' := ∃ e, allowed s e ∧ s.exec e = some s'

end MyOperator.Shm
