import MyOperator.KvCache.Block
import MyOperator.Lib.Dict

/-!
# The ring allocator in shared memory

`SingleWriterShmRingBuffer`: one process allocates chunks of a shared buffer and frees
them in the order of their allocation. `data_buffer_start` and `data_buffer_end` are
virtual addresses; the byte of address `a` is `a % data_buffer_size`. A chunk starts with
its id and its size, four bytes each.

A call that raises leaves the state as far as it got: a function returns its result and
the state after it.
-/

namespace MyOperator.Shm

open Lib List

/-- `ID_MAX`, exclusive. -/
def ID_MAX : Nat := 2147483648

/-- `MD_SIZE`: 4 bytes for the id, 4 bytes for the size. -/
def MD_SIZE : Nat := 8

/-- `int2byte`: `integer.to_bytes(4, "little", signed=True)`, for the ids, sizes and counts that it
is called with. -/
def int2byte (integer : Nat) : Except PyError (List UInt8) :=
  if integer < 2147483648 then
    .ok [UInt8.ofNat integer, UInt8.ofNat (integer / 256), UInt8.ofNat (integer / 65536),
      UInt8.ofNat (integer / 16777216)]
  else .error (.OverflowError "int too big to convert")

/-- `byte2int`: `int.from_bytes(byte_data, "little", signed=True)`. -/
def byte2int (byteData : List UInt8) : Int :=
  let n : Nat := byteData.foldr (fun b n => b.toNat + 256 * n) 0
  if 2 * n < 256 ^ byteData.length then n else (n : Int) - 256 ^ byteData.length

/-- `SingleWriterShmRingBuffer` of the writer. -/
structure RingBuffer where
  dataBufferSize : Nat
  /-- The shared memory. -/
  buf : Nat → UInt8
  monotonicIdEnd : Nat := 0
  monotonicIdStart : Nat := 0
  dataBufferStart : Int := 0
  dataBufferEnd : Int := 0
  /-- The start address of each id. -/
  metadata : Dict Nat Int := .empty

namespace RingBuffer

variable (r : RingBuffer)

/-- `address % self.data_buffer_size`. -/
def bufIdx (address : Int) : Nat := (address % r.dataBufferSize).toNat

/-- `self.shared_memory.buf[i : i + n]`. -/
def view (i n : Nat) : List UInt8 := (range n).map fun k => r.buf (i + k)

/-- `self.shared_memory.buf[i : i + len(bytes)] = bytes`. -/
def store (i : Nat) (bytes : List UInt8) : RingBuffer :=
  { r with buf := fun k => if i ≤ k then bytes.getD (k - i) (r.buf k) else r.buf k }

def clear : RingBuffer where
  dataBufferSize := r.dataBufferSize
  buf := r.buf

/-- Where a chunk of `size` bytes starts: "reset to beginning if the buffer does have enough
contiguous space". -/
def bufferEndReset (size : Int) : Int :=
  if r.dataBufferEnd % r.dataBufferSize + size > r.dataBufferSize then
    (r.dataBufferEnd / r.dataBufferSize + 1) * r.dataBufferSize
  else r.dataBufferEnd

/-- `occupied_size_new` of a chunk of `size` bytes. -/
def occupiedSizeNew (size : Int) : Int := r.bufferEndReset size + size - r.dataBufferStart

/-- "record metadata", and "update buffer and monotonic id indices". -/
def record (size : Int) : RingBuffer := { r with
    metadata := r.metadata.set (r.monotonicIdEnd % ID_MAX) r.dataBufferEnd
    dataBufferEnd := r.dataBufferEnd + size
    monotonicIdEnd := (r.monotonicIdEnd + 1) % ID_MAX }

/-- "first 4 bytes as the monotonic id", "next 4 bytes as the size of the data buffer". -/
def storeMetadata (idBytes sizeBytes : List UInt8) : RingBuffer :=
  (r.store (r.bufIdx r.dataBufferEnd) idBytes).store (r.bufIdx r.dataBufferEnd + 4) sizeBytes

/-- The rest of `allocate_buf` once `data_buffer_end` is where the chunk starts. -/
def writeChunk (size : Int) : Except PyError (Int × Nat) × RingBuffer :=
  match int2byte r.monotonicIdEnd with
  | .error e => (.error e, r)
  | .ok idBytes =>
    match int2byte size.toNat with
    | .error e => (.error e, r.store (r.bufIdx r.dataBufferEnd) idBytes)
    | .ok sizeBytes =>
      (.ok (r.dataBufferEnd, r.monotonicIdEnd), (r.storeMetadata idBytes sizeBytes).record size)

def allocateBuf (size : Int) : Except PyError (Int × Nat) × RingBuffer :=
  if size ≤ 0 then (.error (.AssertionError "Size must be greater than 0"), r)
  else if r.occupiedSizeNew (size + MD_SIZE) > r.dataBufferSize then
    (.error (.MemoryError
      "Not enough space in the data buffer, try calling free_buf() to free up space"), r)
  else { r with dataBufferEnd := r.bufferEndReset (size + MD_SIZE) }.writeChunk (size + MD_SIZE)

/-- The id and the size that `access_buf` reads. -/
def accessMetadata (address : Int) : Int × Int :=
  (byte2int (r.view (r.bufIdx address) 4), byte2int (r.view (r.bufIdx address + 4) 4))

/-- The data that `access_buf` gives access to. -/
def accessData (address : Int) : List UInt8 :=
  r.view (r.bufIdx address + MD_SIZE) ((r.accessMetadata address).2 - MD_SIZE).toNat

/-- "check passed, we can free the buffer": the oldest chunk goes. -/
def freeOldest : RingBuffer :=
  let metadata := r.metadata.erase r.monotonicIdStart
  let monotonicIdStart := (r.monotonicIdStart + 1) % ID_MAX
  match metadata.get? monotonicIdStart with
  | some address => { r with
      metadata, monotonicIdStart
      -- pointing to the start addr of next allocation
      dataBufferStart := r.dataBufferStart + (address - r.dataBufferStart) % r.dataBufferSize }
  | none => { r with metadata, monotonicIdStart, dataBufferStart := 0, dataBufferEnd := 0 }

/-- The loop of `free_buf`. Each iteration takes one entry out of `metadata`. -/
def freeLoop (isFreeFn : Nat → List UInt8 → Bool) (nbytes : Int) : Nat → Int → RingBuffer → RingBuffer
  | 0, _, r => r
  | fuel + 1, freedBytes, r =>
    match r.metadata.get? r.monotonicIdStart with
    | none => r
    | some address =>
      if freedBytes ≥ nbytes then r
      else if isFreeFn r.monotonicIdStart (r.accessData address) then
        freeLoop isFreeFn nbytes fuel (freedBytes + (r.accessMetadata address).2) r.freeOldest
      else r

/-- "buffer wrap around". -/
def wrap : RingBuffer :=
  if r.dataBufferStart ≥ r.dataBufferSize then
    { r with
      dataBufferStart := r.dataBufferStart - r.dataBufferSize
      dataBufferEnd := r.dataBufferEnd - r.dataBufferSize }
  else r

/-- The ids from `before` on that are below `after`, around the end of the ids. -/
def freedIds (before after : Nat) : List Nat :=
  if after ≥ before then List.range' before (after - before)
  else List.range' before (ID_MAX - before) ++ range after

def freeBuf (isFreeFn : Nat → List UInt8 → Bool) (nbytes : Option Int) : List Nat × RingBuffer :=
  let r' := (freeLoop isFreeFn (nbytes.getD r.dataBufferSize) r.metadata.entries.length 0 r).wrap
  (freedIds r.monotonicIdStart r'.monotonicIdStart, r')

end RingBuffer

/-! ## Runs -/

/-- A chunk that was allocated: its id, its address and its size with the metadata. -/
structure Chunk where
  id : Nat
  address : Int
  size : Int
  deriving DecidableEq, Repr

/-- Where the chunk starts in the buffer. -/
def Chunk.pos (D : Nat) (c : Chunk) : Int := c.address % D

/-- The bytes of the two chunks do not overlap. -/
def Chunk.Apart (D : Nat) (c c' : Chunk) : Prop :=
  c.pos D + c.size ≤ c'.pos D ∨ c'.pos D + c'.size ≤ c.pos D

/-- The buffer, and the chunks that were allocated and not freed, in the order of their
allocation. -/
structure RingRun where
  r : RingBuffer
  live : List Chunk := []

/-- A call of the writer, or a write to the data of a chunk. -/
inductive RingEvent
  | allocate (size : Int)
  | free (isFreeFn : Nat → List UInt8 → Bool) (nbytes : Option Int)
  | clear
  | write (buf : Nat → UInt8)

/-- The byte is in the data of a chunk. -/
def InData (D : Nat) (live : List Chunk) (i : Nat) : Prop :=
  ∃ c ∈ live, c.pos D + MD_SIZE ≤ i ∧ (i : Int) < c.pos D + c.size

/-- What a call leaves. A failed allocation adds no chunk, `free_buf` removes those whose ids it
returns. -/
def RingRun.Does (s : RingRun) : RingEvent → RingRun → Prop
  | .allocate size, s' => s'.r = (s.r.allocateBuf size).2 ∧
      s'.live = match (s.r.allocateBuf size).1 with
        | .ok (address, id) => s.live ++ [⟨id, address, size + MD_SIZE⟩]
        | .error _ => s.live
  | .free isFreeFn nbytes, s' => s'.r = (s.r.freeBuf isFreeFn nbytes).2 ∧
      s'.live = s.live.filter fun c => c.id ∉ (s.r.freeBuf isFreeFn nbytes).1
  | .clear, s' => s'.r = s.r.clear ∧ s'.live = []
  | .write buf, s' => s'.r = { s.r with buf } ∧ s'.live = s.live ∧
      ∀ i, ¬ InData s.r.dataBufferSize s.live i → buf i = s.r.buf i

/-- The condition on a call: a chunk that fits has a size of four bytes. -/
def RingEvent.Fits (s : RingRun) : RingEvent → Prop
  | .allocate size => size + MD_SIZE < 2147483648 ∨
      s.r.dataBufferSize < s.r.occupiedSizeNew (size + MD_SIZE)
  | _ => True

/-- The runs on a new buffer of `dataBufferSize` bytes whose calls are all `allowed`, with fewer than
`ID_MAX` live ids. A shared memory has at least one byte. -/
def ringRuns (dataBufferSize : Nat) (allowed : RingRun → RingEvent → Prop) : TSys RingRun where
  init s := 0 < dataBufferSize ∧ ∃ buf, s = { r := { dataBufferSize, buf } }
  step s s' := ∃ e, allowed s e ∧ s.Does e s' ∧ s'.live.length < ID_MAX

end MyOperator.Shm

/-!
## Chunks of the ring allocator

Seen through the virtual addresses that they have at the moment, the chunks lie one after
another between `data_buffer_start` and `data_buffer_end`, which are at most one round
apart (`Placed`). So their bytes are disjoint (`Placed.disjoint`).
-/

namespace MyOperator.Shm

open Lib

/-! ## Bytes -/

theorem byte2int_int2byte {n : Nat} {bytes : List UInt8} (h : int2byte n = .ok bytes) :
    byte2int bytes = n ∧ bytes.length = 4 := by
  unfold int2byte at h
  split at h
  · cases h
    refine ⟨?_, rfl⟩
    unfold byte2int
    have hsum : n % 2 ^ 8 + 256 * (n / 256 % 2 ^ 8 + 256 * (n / 65536 % 2 ^ 8 +
        256 * (n / 16777216 % 2 ^ 8 + 256 * 0))) = n := by omega
    simp only [List.foldr_cons, List.foldr_nil, UInt8.toNat_ofNat', List.length_cons,
      List.length_nil, hsum]
    rw [if_pos (by omega)]
  · cases h

theorem int2byte_eq_ok {n : Nat} (h : n < 2147483648) : ∃ bytes, int2byte n = .ok bytes := by
  unfold int2byte
  rw [if_pos h]
  exact ⟨_, rfl⟩

namespace RingBuffer

variable {r : RingBuffer}

theorem view_store (i : Nat) (bytes : List UInt8) : (r.store i bytes).view i bytes.length = bytes := by
  unfold view store
  refine List.ext_getElem (by simp) fun k hk hk' => ?_
  rw [List.getElem_map, List.getElem_range]
  dsimp only
  rw [if_pos (Nat.le_add_right i k), Nat.add_sub_cancel_left, List.getD_eq_getElem _ _ hk']

theorem store_buf {i k : Nat} {bytes : List UInt8} (h : k < i ∨ i + bytes.length ≤ k) :
    (r.store i bytes).buf k = r.buf k := by
  unfold store
  dsimp only
  split
  · rw [List.getD_eq_getElem?_getD, List.getElem?_eq_none (by omega)]
    rfl
  · rfl

theorem view_store_of_disjoint {i j n : Nat} {bytes : List UInt8}
    (h : i + n ≤ j ∨ j + bytes.length ≤ i) : (r.store j bytes).view i n = r.view i n := by
  refine List.map_congr_left fun k hk => ?_
  have hk : k < n := List.mem_range.mp hk
  exact store_buf (by omega)

end RingBuffer

/-! ## Virtual addresses -/

theorem emod_lap {D v : Int} (h0 : 0 ≤ v) (h : v < 2 * D) :
    (v < D ∧ v % D = v) ∨ (D ≤ v ∧ v % D = v - D) := by
  rcases lt_or_ge v D with hlt | hge
  · exact .inl ⟨hlt, Int.emod_eq_of_lt h0 hlt⟩
  · refine .inr ⟨hge, ?_⟩
    rw [← Int.sub_emod_right v D]
    exact Int.emod_eq_of_lt (by omega) (by omega)

/-- The chunks lie one after another from `lo` to `hi`, none of them across the end of the buffer of
`D` bytes. -/
def Placed (D : Nat) : Int → List Chunk → Int → Prop
  | lo, [], hi => lo = hi
  | lo, c :: cs, hi => ∃ v, lo ≤ v ∧ c.address % D = v % D ∧ v % D + c.size ≤ D ∧
      MD_SIZE < c.size ∧ Placed D (v + c.size) cs hi

namespace Placed

variable {D : Nat} {lo hi v : Int} {l : List Chunk} {c : Chunk}

theorem le (h : Placed D lo l hi) : lo ≤ hi := by
  induction l generalizing lo with
  | nil => exact le_of_eq h
  | cons c cs ih =>
    obtain ⟨v, hlo, -, -, hsize, h⟩ := h
    have := ih h
    omega

theorem mem (h : Placed D lo l hi) (hc : c ∈ l) : ∃ v, lo ≤ v ∧ v + c.size ≤ hi ∧
    c.address % D = v % D ∧ v % D + c.size ≤ D ∧ MD_SIZE < c.size := by
  induction l generalizing lo with
  | nil => cases hc
  | cons c' cs ih =>
    obtain ⟨v, hlo, haddress, hfits, hsize, h⟩ := h
    rcases List.mem_cons.mp hc with rfl | hc
    · exact ⟨v, hlo, h.le, haddress, hfits, hsize⟩
    · obtain ⟨v', hlo', hrest⟩ := ih h hc
      refine ⟨v', ?_, hrest⟩
      omega

theorem append (h : Placed D lo l hi) (hv : hi ≤ v) (haddress : c.address % D = v % D)
    (hfits : v % D + c.size ≤ D) (hsize : MD_SIZE < c.size) : Placed D lo (l ++ [c]) (v + c.size) := by
  induction l generalizing lo with
  | nil => exact ⟨v, le_of_eq_of_le h hv, haddress, hfits, hsize, rfl⟩
  | cons c' cs ih =>
    obtain ⟨v', hlo, haddress', hfits', hsize', h⟩ := h
    exact ⟨v', hlo, haddress', hfits', hsize', ih h⟩

theorem wrap (h : Placed D lo l hi) : Placed D (lo - D) l (hi - D) := by
  induction l generalizing lo with
  | nil => exact congrArg (· - (D : Int)) h
  | cons c cs ih =>
    obtain ⟨v, hlo, haddress, hfits, hsize, h⟩ := h
    refine ⟨v - D, by omega, ?_, ?_, hsize, ?_⟩
    · rw [Int.sub_emod_right]
      exact haddress
    · rw [Int.sub_emod_right]
      exact hfits
    · have := ih h
      rwa [show v - (D : Int) + c.size = v + c.size - D by omega]

theorem inside (hD : 0 < D) (h : Placed D lo l hi) (hc : c ∈ l) :
    0 ≤ c.pos D ∧ c.pos D + c.size ≤ D := by
  obtain ⟨v, -, -, haddress, hfits, -⟩ := h.mem hc
  unfold Chunk.pos
  rw [haddress]
  exact ⟨Int.emod_nonneg _ (by omega), hfits⟩

theorem apart {b v v' size size' : Int} (h0 : 0 ≤ b) (hb : b < D) (hv : b ≤ v)
    (hvv' : v + size ≤ v') (hv' : v' + size' ≤ b + D) (hsize : 0 < size) (hsize' : 0 < size') :
    v % D + size ≤ v' % D ∨ v' % D + size' ≤ v % D := by
  rcases emod_lap (D := D) (v := v) (by omega) (by omega) with ⟨hlap, hmod⟩ | ⟨hlap, hmod⟩ <;>
    rcases emod_lap (D := D) (v := v') (by omega) (by omega) with ⟨hlap', hmod'⟩ | ⟨hlap', hmod'⟩ <;>
    rw [hmod'] <;> omega

theorem disjoint {b : Int} (h0 : 0 ≤ b) (hb : b < D) (h : Placed D lo l hi) (hlo : b ≤ lo)
    (hhi : hi ≤ b + D) : l.Pairwise (Chunk.Apart D) := by
  induction l generalizing lo with
  | nil => exact .nil
  | cons c cs ih =>
    obtain ⟨v, hv, haddress, -, hsize, h⟩ := h
    refine List.pairwise_cons.mpr ⟨fun c' hc' => ?_, ih h (by omega)⟩
    obtain ⟨v', hv', hend', haddress', -, hsize'⟩ := h.mem hc'
    unfold Chunk.Apart Chunk.pos
    rw [haddress, haddress']
    exact apart h0 hb (by omega) hv' (by omega) (by omega) (by omega)

end Placed

end MyOperator.Shm
