import MyOperator.Shm.RingBuffer

/-!
# Runs of the ring allocator

In every run whose chunks have a size of four bytes, the live chunks are disjoint and
inside the buffer, `free_buf` returns the ids that it removes, and an allocation that
fails changes nothing (`ring_sound`). A chunk of `2 ^ 31` bytes that would fit is refused
after the state has changed (`allocate_overflows`).
-/

namespace MyOperator.Shm

open Lib List Nat

/-! ## Ids -/

/-- `n` ids from `start` on. -/
def idRange (start n : Nat) : List Nat := (List.range n).map fun i => (start + i) % ID_MAX

theorem idRange_succ (start n : Nat) : idRange start (n + 1) = idRange start n ++ [(start + n) % ID_MAX] := by
  unfold idRange
  rw [range_succ, map_append]
  rfl

theorem idRange_cons (start n : Nat) :
    idRange start (n + 1) = start % ID_MAX :: idRange ((start + 1) % ID_MAX) n := by
  unfold idRange
  rw [range_succ_eq_map, map_cons, map_map]
  refine congrArg₂ List.cons rfl (map_congr_left fun i _ => ?_)
  show (start + (i + 1)) % ID_MAX = ((start + 1) % ID_MAX + i) % ID_MAX
  rw [mod_add_mod]
  congr 1
  omega

variable {n : Nat} {size : Int} {idBytes sizeBytes : List UInt8}

theorem idRange_nodup {start : Nat} (hn : n ≤ ID_MAX) : (idRange start n).Nodup := by
  refine nodup_range.map_on fun i hi j hj heq => ?_
  have hi : i < n := mem_range.mp hi
  have hj : j < n := mem_range.mp hj
  unfold ID_MAX at heq hn
  omega

theorem freedIds_eq {start : Nat} (hs : start < ID_MAX) (hn : n < ID_MAX) :
    RingBuffer.freedIds start ((start + n) % ID_MAX) = idRange start n := by
  unfold RingBuffer.freedIds idRange
  rcases lt_or_ge (start + n) ID_MAX with hlt | hge
  · rw [mod_eq_of_lt hlt, if_pos (Nat.le_add_right _ _), Nat.add_sub_cancel_left,
      range'_eq_map_range]
    refine map_congr_left fun i hi => ?_
    have hi : i < n := mem_range.mp hi
    exact (mod_eq_of_lt (by omega)).symm
  · have hmod : (start + n) % ID_MAX = start + n - ID_MAX := by
      rw [mod_eq_sub_mod hge, mod_eq_of_lt (by omega)]
    rw [hmod, if_neg (by omega), range'_eq_map_range]
    -- the ids up to the last one, and those that start again
    have hsplit : n = (ID_MAX - start) + (start + n - ID_MAX) := by omega
    conv_rhs => rw [hsplit, range_add, map_append, map_map]
    refine congrArg₂ (· ++ ·) (map_congr_left fun i hi => ?_) ?_
    · have hi : i < ID_MAX - start := mem_range.mp hi
      exact (mod_eq_of_lt (by omega)).symm
    · refine (map_id _).symm.trans (map_congr_left fun i hi => ?_)
      have hi : i < start + n - ID_MAX := mem_range.mp hi
      show i = (start + (ID_MAX - start + i)) % ID_MAX
      rw [show start + (ID_MAX - start + i) = ID_MAX + i by omega, add_mod_left,
        mod_eq_of_lt (by omega)]

/-! ## The invariant -/

/-- What holds between any two iterations of `free_buf`. -/
structure LoopInv (r : RingBuffer) (l : List Chunk) : Prop where
  size : 0 < r.dataBufferSize
  start : 0 ≤ r.dataBufferStart
  placed : Placed r.dataBufferSize r.dataBufferStart l r.dataBufferEnd
  within : r.dataBufferEnd ≤ r.dataBufferStart + r.dataBufferSize
  lap : r.dataBufferEnd < 2 * r.dataBufferSize
  empty : l = [] → r.dataBufferStart = 0
  idStart : r.monotonicIdStart < ID_MAX
  idEnd : r.monotonicIdEnd = (r.monotonicIdStart + l.length) % ID_MAX
  ids : l.map Chunk.id = idRange r.monotonicIdStart l.length
  few : l.length < ID_MAX
  metadata : ∀ id address, r.metadata.get? id = some address ↔
    ∃ c ∈ l, c.id = id ∧ c.address = address
  headers : ∀ c ∈ l, r.accessMetadata c.address = ((c.id : Int), c.size)

/-- What holds between any two calls. -/
structure RingInv (r : RingBuffer) (l : List Chunk) : Prop extends LoopInv r l where
  below : r.dataBufferStart < r.dataBufferSize

variable {r : RingBuffer} {l cs : List Chunk} {c : Chunk}

theorem LoopInv.ids_nodup (h : LoopInv r l) : (l.map Chunk.id).Nodup := by
  rw [h.ids]
  exact idRange_nodup h.few.le

theorem LoopInv.head_id (h : LoopInv r (c :: cs)) : c.id = r.monotonicIdStart ∧
    cs.map Chunk.id = idRange ((r.monotonicIdStart + 1) % ID_MAX) cs.length := by
  have hids := h.ids
  rw [length_cons, idRange_cons, mod_eq_of_lt h.idStart] at hids
  exact ⟨(List.cons.inj hids).1, (List.cons.inj hids).2⟩

theorem LoopInv.oldest (h : LoopInv r l) : r.metadata.get? r.monotonicIdStart =
    l.head?.map Chunk.address := by
  cases l with
  | nil =>
    refine Option.eq_none_iff_forall_not_mem.mpr fun address hget => ?_
    obtain ⟨c, hc, -⟩ := (h.metadata _ _).mp hget
    cases hc
  | cons c cs =>
    exact (h.metadata _ _).mpr ⟨c, mem_cons_self, h.head_id.1, rfl⟩

/-! ## `free_buf` -/

theorem LoopInv.erase_metadata (h : LoopInv r (c :: cs)) (id : Nat) (address : Int) :
    (r.metadata.erase r.monotonicIdStart).get? id = some address ↔
      ∃ c' ∈ cs, c'.id = id ∧ c'.address = address := by
  have hnodup := h.ids_nodup
  rw [map_cons, nodup_cons] at hnodup
  rw [Dict.get?_erase]
  split
  · rename_i hid
    constructor
    · intro hget
      cases hget
    · rintro ⟨c', hc', hid', -⟩
      have hsame : c'.id = c.id := by rw [hid', hid, h.head_id.1]
      exact absurd (hsame ▸ mem_map_of_mem hc') hnodup.1
  · rename_i hid
    rw [h.metadata]
    constructor
    · rintro ⟨c', hc', hid', haddress⟩
      rcases mem_cons.mp hc' with rfl | hc'
      · exact absurd (hid'.symm.trans h.head_id.1) hid
      · exact ⟨c', hc', hid', haddress⟩
    · rintro ⟨c', hc', hrest⟩
      exact ⟨c', mem_cons_of_mem _ hc', hrest⟩

theorem next_start {D : Nat} {lo hi : Int} {c' : Chunk} (h : Placed D lo (c :: c' :: cs) hi)
    (hwithin : hi ≤ lo + D) :
    lo ≤ lo + (c'.address - lo) % D ∧ Placed D (lo + (c'.address - lo) % D) (c' :: cs) hi := by
  obtain ⟨v, hlo, -, -, hsize, v', hv', haddress, hfits, hsize', h⟩ := h
  have hend := h.le
  have hmod : (c'.address - lo) % D = v' - lo := by
    rw [Int.sub_emod, haddress, ← Int.sub_emod, Int.emod_eq_of_lt (by omega) (by omega)]
  exact ⟨by omega, v', by omega, haddress, hfits, hsize', h⟩

theorem freeOldest_inv (h : LoopInv r (c :: cs)) : LoopInv r.freeOldest cs ∧
    r.freeOldest.monotonicIdStart = (r.monotonicIdStart + 1) % ID_MAX := by
  have hids := h.head_id.2
  have hmeta := h.erase_metadata
  have hfew : cs.length < ID_MAX := lt_of_succ_lt h.few
  have hend : r.monotonicIdEnd = ((r.monotonicIdStart + 1) % ID_MAX + cs.length) % ID_MAX := by
    rw [h.idEnd, length_cons, mod_add_mod]
    congr 1
    omega
  have hheaders : ∀ c' ∈ cs, r.accessMetadata c'.address = ((c'.id : Int), c'.size) :=
    fun c' hc' => h.headers c' (mem_cons_of_mem _ hc')
  have hlt : (r.monotonicIdStart + 1) % ID_MAX < ID_MAX := Nat.mod_lt _ (by decide)
  have hsize := h.size
  unfold RingBuffer.freeOldest
  dsimp only
  cases cs with
  | nil =>
    have hnone : (r.metadata.erase r.monotonicIdStart).get?
        ((r.monotonicIdStart + 1) % ID_MAX) = none := by
      refine Option.eq_none_iff_forall_not_mem.mpr fun address hget => ?_
      obtain ⟨c', hc', -⟩ := (hmeta _ _).mp hget
      cases hc'
    rw [hnone]
    exact ⟨⟨hsize, le_refl _, rfl, by show (0 : Int) ≤ 0 + r.dataBufferSize; omega,
      by show (0 : Int) < 2 * r.dataBufferSize; omega, fun _ => rfl, hlt, hend, hids, hfew,
      hmeta, hheaders⟩, rfl⟩
  | cons c' cs =>
    have hsome : (r.metadata.erase r.monotonicIdStart).get?
        ((r.monotonicIdStart + 1) % ID_MAX) = some c'.address := by
      refine (hmeta _ _).mpr ⟨c', mem_cons_self, ?_, rfl⟩
      rw [map_cons, length_cons, idRange_cons, mod_mod] at hids
      exact (List.cons.inj hids).1
    rw [hsome]
    obtain ⟨hle, hplaced⟩ := next_start h.placed h.within
    have hstart := h.start
    have hwithin := h.within
    exact ⟨⟨hsize, by dsimp only; omega, hplaced, by dsimp only; omega, h.lap,
      fun hnil => (nomatch hnil), hlt, hend, hids, hfew, hmeta, hheaders⟩, rfl⟩

theorem freeOldest_memory (r : RingBuffer) :
    r.freeOldest.buf = r.buf ∧ r.freeOldest.dataBufferSize = r.dataBufferSize := by
  unfold RingBuffer.freeOldest
  dsimp only
  split <;> exact ⟨rfl, rfl⟩

theorem accessData_congr {r' : RingBuffer} (h : r'.buf = r.buf ∧ r'.dataBufferSize = r.dataBufferSize)
    (address : Int) : r'.accessData address = r.accessData address := by
  unfold RingBuffer.accessData RingBuffer.accessMetadata RingBuffer.view RingBuffer.bufIdx
  rw [h.1, h.2]

theorem freeOldest_accessData (r : RingBuffer) (address : Int) :
    r.freeOldest.accessData address = r.accessData address :=
  accessData_congr (freeOldest_memory r) address

theorem freeLoop_memory (isFreeFn : Nat → List UInt8 → Bool) (nbytes freedBytes : Int) (fuel : Nat) :
    (RingBuffer.freeLoop isFreeFn nbytes fuel freedBytes r).buf = r.buf ∧
      (RingBuffer.freeLoop isFreeFn nbytes fuel freedBytes r).dataBufferSize = r.dataBufferSize := by
  induction fuel generalizing r freedBytes with
  | zero => exact ⟨rfl, rfl⟩
  | succ fuel ih =>
    unfold RingBuffer.freeLoop
    split
    · exact ⟨rfl, rfl⟩
    · split
      · exact ⟨rfl, rfl⟩
      · split
        · obtain ⟨hbuf, hsize⟩ := freeOldest_memory r
          obtain ⟨hbuf', hsize'⟩ := ih (r := r.freeOldest) (_ + _)
          exact ⟨hbuf'.trans hbuf, hsize'.trans hsize⟩
        · exact ⟨rfl, rfl⟩

theorem freeLoop_inv (h : LoopInv r l) (isFreeFn : Nat → List UInt8 → Bool)
    (nbytes freedBytes : Int) (fuel : Nat) : ∃ k ≤ l.length,
      LoopInv (RingBuffer.freeLoop isFreeFn nbytes fuel freedBytes r) (l.drop k) ∧
      (RingBuffer.freeLoop isFreeFn nbytes fuel freedBytes r).monotonicIdStart =
        (r.monotonicIdStart + k) % ID_MAX ∧
      ∀ c ∈ l.take k, isFreeFn c.id (r.accessData c.address) = true := by
  have hstop : ∃ k ≤ l.length, LoopInv r (l.drop k) ∧
      r.monotonicIdStart = (r.monotonicIdStart + k) % ID_MAX ∧
      ∀ c ∈ l.take k, isFreeFn c.id (r.accessData c.address) = true :=
    ⟨0, Nat.zero_le _, h, (mod_eq_of_lt h.idStart).symm, fun c hc => (nomatch hc)⟩
  induction fuel generalizing r l freedBytes with
  | zero => exact hstop
  | succ fuel ih =>
    unfold RingBuffer.freeLoop
    rw [h.oldest]
    cases l with
    | nil => exact hstop
    | cons c cs =>
      dsimp only [head?_cons, Option.map_some]
      split
      · exact hstop
      · split
        · rename_i hfree
          obtain ⟨hnext, hid⟩ := freeOldest_inv h
          obtain ⟨k, hk, hinv, hstart, hall⟩ := ih hnext _
            ⟨0, Nat.zero_le _, hnext, (mod_eq_of_lt hnext.idStart).symm, fun c hc => (nomatch hc)⟩
          refine ⟨k + 1, succ_le_succ hk, hinv, ?_, fun c' hc' => ?_⟩
          · rw [hstart, hid, mod_add_mod]
            congr 1
            omega
          · rcases mem_cons.mp hc' with rfl | hc'
            · rw [h.head_id.1]
              exact hfree
            · rw [← freeOldest_accessData]
              exact hall c' hc'
        · exact hstop

theorem freeLoop_fuel (h : LoopInv r l) (isFreeFn : Nat → List UInt8 → Bool)
    (nbytes freedBytes : Int) {fuel : Nat} (hfuel : l.length ≤ fuel) (n : Nat) :
    RingBuffer.freeLoop isFreeFn nbytes (fuel + n) freedBytes r =
      RingBuffer.freeLoop isFreeFn nbytes fuel freedBytes r := by
  induction l generalizing r fuel freedBytes with
  | nil =>
    have hstop : ∀ m, RingBuffer.freeLoop isFreeFn nbytes m freedBytes r = r := by
      intro m
      cases m with
      | zero => rfl
      | succ m =>
        unfold RingBuffer.freeLoop
        rw [h.oldest]
        rfl
    rw [hstop, hstop]
  | cons c cs ih =>
    cases fuel with
    | zero => cases hfuel
    | succ fuel =>
      have hrest := ih (freeOldest_inv h).1 (freedBytes + (r.accessMetadata c.address).2)
        (le_of_succ_le_succ hfuel)
      rw [succ_add]
      unfold RingBuffer.freeLoop
      rw [h.oldest]
      dsimp only [head?_cons, Option.map_some]
      rw [hrest]

theorem LoopInv.length_le (h : LoopInv r l) : l.length ≤ r.metadata.entries.length := by
  have hsub : l.map Chunk.id ⊆ r.metadata.entries.map Prod.fst := by
    intro id hid
    obtain ⟨c, hc, rfl⟩ := mem_map.mp hid
    have hget : r.metadata.get? c.id = some c.address := (h.metadata _ _).mpr ⟨c, hc, rfl, rfl⟩
    exact mem_map_of_mem (f := Prod.fst) (Dict.mem_entries_iff.mpr hget)
  have hlen := (h.ids_nodup.subperm hsub).length_le
  rwa [length_map, length_map] at hlen

theorem freeLoop_stops (h : LoopInv r l) (isFreeFn : Nat → List UInt8 → Bool)
    (nbytes freedBytes : Int) (n : Nat) :
    RingBuffer.freeLoop isFreeFn nbytes (r.metadata.entries.length + n) freedBytes r =
      RingBuffer.freeLoop isFreeFn nbytes r.metadata.entries.length freedBytes r :=
  freeLoop_fuel h isFreeFn nbytes freedBytes h.length_le n

theorem wrap_inv (h : LoopInv r l) : RingInv r.wrap l ∧
    r.wrap.monotonicIdStart = r.monotonicIdStart := by
  unfold RingBuffer.wrap
  split
  · have hle := h.placed.le
    have hlap := h.lap
    refine ⟨⟨⟨h.size, by dsimp only; omega, h.placed.wrap, by dsimp only; omega, by dsimp only; omega,
      fun hnil => ?_, h.idStart, h.idEnd, h.ids, h.few, h.metadata, h.headers⟩, by dsimp only; omega⟩,
      rfl⟩
    have hzero := h.empty hnil
    omega
  · exact ⟨⟨h, by omega⟩, rfl⟩

theorem freeBuf_memory (isFreeFn : Nat → List UInt8 → Bool) (nbytes : Option Int) :
    (r.freeBuf isFreeFn nbytes).2.buf = r.buf ∧
      (r.freeBuf isFreeFn nbytes).2.dataBufferSize = r.dataBufferSize := by
  show (RingBuffer.wrap _).buf = _ ∧ (RingBuffer.wrap _).dataBufferSize = _
  unfold RingBuffer.wrap
  split <;> exact freeLoop_memory _ _ _ _

theorem freeBuf_inv (h : RingInv r l) (isFreeFn : Nat → List UInt8 → Bool) (nbytes : Option Int) :
    ∃ k ≤ l.length, RingInv (r.freeBuf isFreeFn nbytes).2 (l.drop k) ∧
      (r.freeBuf isFreeFn nbytes).1 = (l.take k).map Chunk.id ∧
      ∀ c ∈ l.take k, isFreeFn c.id (r.accessData c.address) = true := by
  obtain ⟨k, hk, hinv, hstart, hall⟩ := freeLoop_inv h.toLoopInv isFreeFn
    (nbytes.getD r.dataBufferSize) 0 r.metadata.entries.length
  obtain ⟨hwrap, hid⟩ := wrap_inv hinv
  refine ⟨k, hk, hwrap, ?_, hall⟩
  show RingBuffer.freedIds r.monotonicIdStart (RingBuffer.wrap _).monotonicIdStart = _
  rw [hid, hstart, freedIds_eq h.idStart (lt_of_le_of_lt hk h.few), map_take, h.ids]
  unfold idRange
  rw [← map_take, take_range, min_eq_left hk]

/-! ## `allocate_buf` -/

theorem bufferEndReset_placed (h : RingInv r l) (hsize : MD_SIZE < size)
    (hfits : r.occupiedSizeNew size ≤ r.dataBufferSize) :
    r.dataBufferEnd ≤ r.bufferEndReset size ∧
      r.bufferEndReset size % r.dataBufferSize + size ≤ r.dataBufferSize := by
  have hle := h.placed.le
  have hlap := h.lap
  have hstart := h.start
  unfold RingBuffer.occupiedSizeNew at hfits
  unfold RingBuffer.bufferEndReset at hfits ⊢
  split
  · rename_i hreset
    rw [if_pos hreset] at hfits
    rw [Int.mul_emod_left]
    rcases emod_lap (D := r.dataBufferSize) (v := r.dataBufferEnd) (by omega) hlap with
      ⟨hlow, -⟩ | ⟨hhigh, hmod⟩
    · rw [Int.ediv_eq_zero_of_lt (by omega) hlow] at hfits ⊢
      omega
    · have hdiv : r.dataBufferEnd / (r.dataBufferSize : Int) = 1 := by
        rw [← Int.sub_add_cancel r.dataBufferEnd r.dataBufferSize,
          Int.add_ediv_of_dvd_right (dvd_refl _), Int.ediv_self (by omega),
          Int.ediv_eq_zero_of_lt (by omega) (by omega)]
        rfl
      rw [hdiv] at hfits ⊢
      omega
  · exact ⟨le_refl _, by omega⟩

theorem get?_record {i : Nat} {address : Int} (h : RingInv r l) (hfew : l.length + 1 < ID_MAX)
    (hid : c.id = r.monotonicIdEnd) :
    (r.metadata.set (r.monotonicIdEnd % ID_MAX) c.address).get? i = some address ↔
      ∃ c' ∈ l ++ [c], c'.id = i ∧ c'.address = address := by
  have hlt : r.monotonicIdEnd < ID_MAX := by
    rw [h.idEnd]
    exact Nat.mod_lt _ (by decide)
  have hnew : c.id ∉ l.map Chunk.id := by
    have hnodup : (idRange r.monotonicIdStart (l.length + 1)).Nodup := idRange_nodup hfew.le
    rw [idRange_succ, ← h.ids, nodup_append] at hnodup
    intro hin
    refine hnodup.2.2 _ hin _ (mem_singleton.mpr rfl) ?_
    rw [hid, h.idEnd]
  rw [mod_eq_of_lt hlt, Dict.get?_set, ← hid]
  split
  · rename_i hi
    constructor
    · intro hget
      exact ⟨c, mem_append_right _ (mem_singleton.mpr rfl), hi.symm, Option.some.inj hget⟩
    · rintro ⟨c', hc', hid', rfl⟩
      rcases mem_append.mp hc' with hc' | hc'
      · exact absurd (hi ▸ hid' ▸ mem_map_of_mem hc') hnew
      · rw [mem_singleton.mp hc']
  · rename_i hi
    rw [h.metadata]
    constructor
    · rintro ⟨c', hc', hrest⟩
      exact ⟨c', mem_append_left _ hc', hrest⟩
    · rintro ⟨c', hc', hid', haddress⟩
      rcases mem_append.mp hc' with hc' | hc'
      · exact ⟨c', hc', hid', haddress⟩
      · rw [mem_singleton.mp hc'] at hid'
        exact absurd hid'.symm hi

theorem bufIdx_apart {c' : Chunk} (hD : 0 < r.dataBufferSize)
    (h : Chunk.Apart r.dataBufferSize c c') (hsize : (8 : Int) < c.size)
    (hsize' : (8 : Int) < c'.size) :
    r.bufIdx c.address + 8 ≤ r.bufIdx c'.address ∨ r.bufIdx c'.address + 8 ≤ r.bufIdx c.address := by
  have hpos : ∀ a : Int, 0 ≤ a % (r.dataBufferSize : Int) := fun a => Int.emod_nonneg _ (by omega)
  have h1 := hpos c.address
  have h2 := hpos c'.address
  unfold Chunk.Apart Chunk.pos at h
  unfold RingBuffer.bufIdx
  omega

section

variable (hid : idBytes.length = 4) (hsize : sizeBytes.length = 4)
include hid hsize

theorem accessMetadata_storeMetadata :
    (r.storeMetadata idBytes sizeBytes).accessMetadata r.dataBufferEnd =
      (byte2int idBytes, byte2int sizeBytes) := by
  have hfirst : (r.storeMetadata idBytes sizeBytes).view (r.bufIdx r.dataBufferEnd) 4 = idBytes := by
    unfold RingBuffer.storeMetadata
    rw [RingBuffer.view_store_of_disjoint (.inl (le_refl _)), ← hid]
    exact RingBuffer.view_store _ _
  have hsecond : (r.storeMetadata idBytes sizeBytes).view (r.bufIdx r.dataBufferEnd + 4) 4 =
      sizeBytes := by
    have hview := RingBuffer.view_store (r := r.store (r.bufIdx r.dataBufferEnd) idBytes)
      (r.bufIdx r.dataBufferEnd + 4) sizeBytes
    rw [hsize] at hview
    exact hview
  exact congrArg₂ (fun x y => (byte2int x, byte2int y)) hfirst hsecond

theorem accessMetadata_storeMetadata_of_apart {a : Int}
    (h : r.bufIdx a + 8 ≤ r.bufIdx r.dataBufferEnd ∨ r.bufIdx r.dataBufferEnd + 8 ≤ r.bufIdx a) :
    (r.storeMetadata idBytes sizeBytes).accessMetadata a = r.accessMetadata a := by
  have hkept : ∀ i, i + 4 ≤ r.bufIdx r.dataBufferEnd ∨ r.bufIdx r.dataBufferEnd + 8 ≤ i →
      (r.storeMetadata idBytes sizeBytes).view i 4 = r.view i 4 := by
    intro i hi
    unfold RingBuffer.storeMetadata
    rw [RingBuffer.view_store_of_disjoint (by omega), RingBuffer.view_store_of_disjoint (by omega)]
  exact congrArg₂ (fun x y => (byte2int x, byte2int y)) (hkept (r.bufIdx a) (by omega))
    (hkept (r.bufIdx a + 4) (by omega))

theorem storeMetadata_buf {k : Nat}
    (hk : k < r.bufIdx r.dataBufferEnd ∨ r.bufIdx r.dataBufferEnd + 8 ≤ k) :
    (r.storeMetadata idBytes sizeBytes).buf k = r.buf k := by
  unfold RingBuffer.storeMetadata
  rw [RingBuffer.store_buf (by omega)]
  exact RingBuffer.store_buf (by omega)

end

theorem writeChunk_eq (hid : int2byte r.monotonicIdEnd = .ok idBytes)
    (hsize : int2byte size.toNat = .ok sizeBytes) :
    r.writeChunk size = (.ok (r.dataBufferEnd, r.monotonicIdEnd),
      (r.storeMetadata idBytes sizeBytes).record size) := by
  unfold RingBuffer.writeChunk
  rw [hid]
  rw [hsize]

theorem record_inv (h : RingInv r l) (hfew : l.length + 1 < ID_MAX) (hid : c.id = r.monotonicIdEnd)
    (hsize : MD_SIZE < c.size) (hend : r.dataBufferEnd ≤ c.address)
    (hroom : c.address % r.dataBufferSize + c.size ≤ r.dataBufferSize)
    (hocc : c.address + c.size - r.dataBufferStart ≤ r.dataBufferSize)
    (hidBytes : byte2int idBytes = c.id) (hidLen : idBytes.length = 4)
    (hsizeBytes : byte2int sizeBytes = c.size) (hsizeLen : sizeBytes.length = 4) :
    RingInv ((({ r with dataBufferEnd := c.address } : RingBuffer).storeMetadata idBytes
      sizeBytes).record c.size) (l ++ [c]) := by
  have hplaced : Placed r.dataBufferSize r.dataBufferStart (l ++ [c]) (c.address + c.size) :=
    h.placed.append hend rfl hroom hsize
  have hbelow := h.below
  have hnil : l ++ [c] ≠ [] := append_ne_nil_of_right_ne_nil _ (cons_ne_nil _ _)
  have hapart := hplaced.disjoint h.start h.below (le_refl _) (by omega)
  refine ⟨⟨h.size, h.start, hplaced, ?_, ?_, fun hn => absurd hn hnil, h.idStart, ?_, ?_, ?_, ?_, ?_⟩,
    h.below⟩
  · show c.address + c.size ≤ r.dataBufferStart + r.dataBufferSize
    omega
  · show c.address + c.size < 2 * r.dataBufferSize
    omega
  · show (r.monotonicIdEnd + 1) % ID_MAX = (r.monotonicIdStart + (l ++ [c]).length) % ID_MAX
    rw [h.idEnd, length_append, length_singleton, mod_add_mod, add_assoc]
  · show (l ++ [c]).map Chunk.id = idRange r.monotonicIdStart (l ++ [c]).length
    rw [map_append, h.ids, length_append, length_singleton, idRange_succ, ← h.idEnd,
      map_singleton, hid]
  · rw [length_append]
    exact hfew
  · intro id address
    show (r.metadata.set (r.monotonicIdEnd % ID_MAX) c.address).get? id = some address ↔ _
    exact get?_record h hfew hid
  · intro c' hc'
    rcases mem_append.mp hc' with hc' | hc'
    · -- the bytes of the older chunks are kept
      have hdisjoint := (pairwise_append.mp hapart).2.2 c' hc' c (mem_singleton.mpr rfl)
      obtain ⟨-, -, -, -, -, hsize'⟩ := h.placed.mem hc'
      have hbytes := bufIdx_apart h.size hdisjoint hsize' hsize
      exact (accessMetadata_storeMetadata_of_apart (r := { r with dataBufferEnd := c.address })
        hidLen hsizeLen hbytes).trans (h.headers c' hc')
    · rw [mem_singleton.mp hc', ← hidBytes, ← hsizeBytes]
      exact accessMetadata_storeMetadata (r := { r with dataBufferEnd := c.address }) hidLen hsizeLen

/-- An allocation returns the chunk that it adds, or raises and changes nothing. -/
inductive Allocates (r : RingBuffer) (l : List Chunk) (size : Int) : Prop
  | chunk (c : Chunk) (hsize : c.size = size + MD_SIZE)
      (hret : (r.allocateBuf size).1 = .ok (c.address, c.id))
      (hinv : RingInv (r.allocateBuf size).2 (l ++ [c]))
      (hD : (r.allocateBuf size).2.dataBufferSize = r.dataBufferSize)
      (hbuf : ∀ k, k < r.bufIdx c.address ∨ r.bufIdx c.address + 8 ≤ k →
        (r.allocateBuf size).2.buf k = r.buf k)
  | raises (e : PyError) (hret : (r.allocateBuf size).1 = .error e)
      (hsame : (r.allocateBuf size).2 = r)
      (hcause : (size ≤ 0 ∧ e = .AssertionError "Size must be greater than 0") ∨
        (r.dataBufferSize < r.occupiedSizeNew (size + MD_SIZE) ∧ e = .MemoryError
          "Not enough space in the data buffer, try calling free_buf() to free up space"))

theorem allocateBuf_inv (h : RingInv r l)
    (hword : size + MD_SIZE < 2147483648 ∨ r.dataBufferSize < r.occupiedSizeNew (size + MD_SIZE))
    (hfew : ∀ c, (r.allocateBuf size).1 = .ok c → l.length + 1 < ID_MAX) : Allocates r l size := by
  by_cases hpos : size ≤ 0
  · have heq : r.allocateBuf size =
        (.error (.AssertionError "Size must be greater than 0"), r) := by
      unfold RingBuffer.allocateBuf
      rw [if_pos hpos]
    exact .raises _ (congrArg Prod.fst heq) (congrArg Prod.snd heq) (.inl ⟨hpos, rfl⟩)
  by_cases hfull : r.occupiedSizeNew (size + MD_SIZE) > r.dataBufferSize
  · have heq : r.allocateBuf size = (.error (.MemoryError
        "Not enough space in the data buffer, try calling free_buf() to free up space"), r) := by
      unfold RingBuffer.allocateBuf
      rw [if_neg hpos, if_pos hfull]
    exact .raises _ (congrArg Prod.fst heq) (congrArg Prod.snd heq) (.inr ⟨hfull, rfl⟩)
  have hsize : (MD_SIZE : Int) < size + MD_SIZE := by omega
  obtain ⟨hend, hroom⟩ := bufferEndReset_placed h hsize (by omega)
  have hstart := h.start
  have hocc : r.bufferEndReset (size + MD_SIZE) + (size + MD_SIZE) - r.dataBufferStart ≤
      r.dataBufferSize := not_lt.mp hfull
  have hid : r.monotonicIdEnd < 2147483648 := by
    rw [h.idEnd]
    exact Nat.mod_lt _ (by decide)
  obtain ⟨idBytes, hidBytes⟩ := int2byte_eq_ok hid
  obtain ⟨sizeBytes, hsizeBytes⟩ := int2byte_eq_ok (n := (size + MD_SIZE).toNat) (by omega)
  obtain ⟨hidInt, hidLen⟩ := byte2int_int2byte hidBytes
  obtain ⟨hsizeInt, hsizeLen⟩ := byte2int_int2byte hsizeBytes
  rw [Int.toNat_of_nonneg (by omega)] at hsizeInt
  have heq : r.allocateBuf size = (.ok (r.bufferEndReset (size + MD_SIZE), r.monotonicIdEnd),
      (({ r with dataBufferEnd := r.bufferEndReset (size + MD_SIZE) } : RingBuffer).storeMetadata
        idBytes sizeBytes).record (size + MD_SIZE)) := by
    unfold RingBuffer.allocateBuf
    rw [if_neg hpos, if_neg hfull]
    exact writeChunk_eq (r := { r with dataBufferEnd := r.bufferEndReset (size + MD_SIZE) })
      hidBytes hsizeBytes
  have hinv := record_inv
    (c := ⟨r.monotonicIdEnd, r.bufferEndReset (size + MD_SIZE), size + MD_SIZE⟩) h
    (hfew _ (congrArg Prod.fst heq)) rfl hsize hend hroom hocc hidInt hidLen hsizeInt hsizeLen
  refine .chunk ⟨r.monotonicIdEnd, r.bufferEndReset (size + MD_SIZE), size + MD_SIZE⟩ rfl
    (congrArg Prod.fst heq) ?_ ?_ fun k hk => ?_
  · rw [heq]
    exact hinv
  · rw [heq]
    rfl
  · rw [heq]
    exact storeMetadata_buf (r := { r with dataBufferEnd := r.bufferEndReset (size + MD_SIZE) })
      hidLen hsizeLen hk

/-! ## Runs -/

theorem new_inv {D : Nat} (buf : Nat → UInt8) (hD : 0 < D) :
    RingInv { dataBufferSize := D, buf } [] := by
  have hD' : (0 : Int) < D := by omega
  refine ⟨⟨hD, le_refl _, rfl, by dsimp only; omega, by dsimp only; omega, fun _ => rfl, Nat.two_pow_pos 31,
    rfl, rfl, by decide, fun id address => ?_, fun c hc => (nomatch hc)⟩, hD'⟩
  constructor
  · intro hget
    cases hget
  · rintro ⟨c, hc, -⟩
    cases hc

theorem RingInv.apart (h : RingInv r l) : l.Pairwise (Chunk.Apart r.dataBufferSize) :=
  h.placed.disjoint h.start h.below (le_refl _) h.within

theorem header_not_inData (h : RingInv r l) (hc : c ∈ l) {k : Nat} (hk : k < 8) :
    ¬ InData r.dataBufferSize l (r.bufIdx c.address + k) := by
  rintro ⟨c', hc', hfrom, hto⟩
  have hD := h.size
  have hnonneg : 0 ≤ c.address % (r.dataBufferSize : Int) := Int.emod_nonneg _ (by omega)
  have hidx : (r.bufIdx c.address : Int) = c.pos r.dataBufferSize := Int.toNat_of_nonneg hnonneg
  obtain ⟨-, -, -, -, -, hsize⟩ := h.placed.mem hc
  have hfrom : c'.pos r.dataBufferSize + 8 ≤ ((r.bufIdx c.address + k : Nat) : Int) := hfrom
  rcases eq_or_ne c c' with rfl | hne
  · omega
  · have hsymm : Std.Symm (Chunk.Apart r.dataBufferSize) := ⟨fun _ _ hapart => hapart.symm⟩
    have hdisjoint := h.apart.forall hc hc' hne
    unfold Chunk.Apart at hdisjoint
    omega

theorem view_congr {r' : RingBuffer} {i : Nat} (h : ∀ k < n, r.buf (i + k) = r'.buf (i + k)) :
    r.view i n = r'.view i n := map_congr_left fun k hk => h k (mem_range.mp hk)

theorem write_inv {buf : Nat → UInt8} (h : RingInv r l)
    (hbuf : ∀ i, ¬ InData r.dataBufferSize l i → buf i = r.buf i) : RingInv { r with buf } l := by
  refine ⟨⟨h.size, h.start, h.placed, h.within, h.lap, h.empty, h.idStart, h.idEnd, h.ids, h.few,
    h.metadata, fun c hc => ?_⟩, h.below⟩
  rw [← h.headers c hc]
  have hkept : ∀ k < 8, buf (r.bufIdx c.address + k) = r.buf (r.bufIdx c.address + k) :=
    fun k hk => hbuf _ (header_not_inData h hc hk)
  have hid : ({ r with buf } : RingBuffer).view (r.bufIdx c.address) 4 =
      r.view (r.bufIdx c.address) 4 := view_congr fun k hk => hkept k (by omega)
  have hsize : ({ r with buf } : RingBuffer).view (r.bufIdx c.address + 4) 4 =
      r.view (r.bufIdx c.address + 4) 4 := by
    refine view_congr fun k hk => ?_
    rw [add_assoc]
    exact hkept (4 + k) (by omega)
  exact congrArg₂ (fun x y => (byte2int x, byte2int y)) hid hsize

theorem filter_freed (h : (l.map Chunk.id).Nodup) (k : Nat) :
    (l.filter fun c => c.id ∉ (l.take k).map Chunk.id) = l.drop k := by
  rw [← take_append_drop k l, map_append, nodup_append] at h
  have hsplit : l.filter (fun c => decide (c.id ∉ (l.take k).map Chunk.id)) =
      (l.take k ++ l.drop k).filter fun c => decide (c.id ∉ (l.take k).map Chunk.id) := by
    rw [take_append_drop]
  rw [hsplit, filter_append, filter_eq_nil_iff.mpr, filter_eq_self.mpr, nil_append]
  · intro c hc
    refine decide_eq_true fun hin => ?_
    exact h.2.2 _ hin _ (mem_map_of_mem hc) rfl
  · intro c hc
    rw [decide_eq_true_eq, not_not]
    exact mem_map_of_mem hc

theorem Does.keeps {s s' : RingRun} {e : RingEvent} (h : RingInv s.r s.live) (hfits : e.Fits s)
    (hdoes : s.Does e s') (hfew : s'.live.length < ID_MAX) : RingInv s'.r s'.live := by
  cases e with
  | allocate size =>
    obtain ⟨hr, hlive⟩ := hdoes
    have hroom : ∀ c, (s.r.allocateBuf size).1 = .ok c → s.live.length + 1 < ID_MAX := by
      intro c hc
      rw [hlive, hc, length_append] at hfew
      exact hfew
    rw [hr, hlive]
    cases allocateBuf_inv h hfits hroom with
    | chunk c hsize hret hinv hD hbuf =>
      rw [hret]
      show RingInv _ (s.live ++ [⟨c.id, c.address, size + MD_SIZE⟩])
      rw [← hsize]
      exact hinv
    | raises e hret hsame hcause =>
      rw [hret, hsame]
      exact h
  | free isFreeFn nbytes =>
    obtain ⟨hr, hlive⟩ := hdoes
    obtain ⟨k, hk, hinv, hids, -⟩ := freeBuf_inv h isFreeFn nbytes
    rw [hr, hlive, hids, filter_freed h.ids_nodup]
    exact hinv
  | clear =>
    obtain ⟨hr, hlive⟩ := hdoes
    rw [hr, hlive]
    exact new_inv _ h.size
  | write buf =>
    obtain ⟨hr, hlive, hbuf⟩ := hdoes
    rw [hr, hlive]
    exact write_inv h hbuf

/-- What the allocator promises in a state with the chunks `live`. -/
structure RingSound (s : RingRun) : Prop where
  inside : ∀ c ∈ s.live, 0 ≤ c.pos s.r.dataBufferSize ∧
    c.pos s.r.dataBufferSize + c.size ≤ s.r.dataBufferSize
  disjoint : s.live.Pairwise (Chunk.Apart s.r.dataBufferSize)
  /-- The allocator knows the live chunks. -/
  known : ∀ id address, s.r.metadata.get? id = some address ↔
    ∃ c ∈ s.live, c.id = id ∧ c.address = address
  /-- An allocation that fails changes nothing. -/
  unchanged : ∀ size e, RingEvent.Fits s (.allocate size) →
    (s.r.allocateBuf size).1 = .error e → (s.r.allocateBuf size).2 = s.r
  /-- `free_buf` removes some of the oldest chunks, and returns their ids. -/
  freed : ∀ isFreeFn nbytes, ∃ k, (s.r.freeBuf isFreeFn nbytes).1 = (s.live.take k).map Chunk.id ∧
    ∀ id address, (s.r.freeBuf isFreeFn nbytes).2.metadata.get? id = some address ↔
      ∃ c ∈ s.live.drop k, c.id = id ∧ c.address = address
  /-- An empty buffer has room for all but the metadata. -/
  room : s.live = [] → ∀ size : Int, 0 < size → size ≤ s.r.dataBufferSize - 8 →
    RingEvent.Fits s (.allocate size) → ∃ c, (s.r.allocateBuf size).1 = .ok c

theorem occupiedSizeNew_of_empty (h : RingInv r []) (hsize : size ≤ r.dataBufferSize) :
    r.occupiedSizeNew size = size := by
  have hstart : r.dataBufferStart = 0 := h.empty rfl
  have hplaced : r.dataBufferStart = r.dataBufferEnd := h.placed
  have hend : r.dataBufferEnd = 0 := hplaced.symm.trans hstart
  unfold RingBuffer.occupiedSizeNew RingBuffer.bufferEndReset
  rw [hstart, hend, if_neg (by rw [Int.zero_emod]; omega)]
  omega

theorem RingInv.sound {s : RingRun} (h : RingInv s.r s.live) : RingSound s where
  inside c hc := h.placed.inside h.size hc
  disjoint := h.apart
  known := h.metadata
  unchanged size e hfits herr := by
    have hroom : ∀ c, (s.r.allocateBuf size).1 = .ok c → s.live.length + 1 < ID_MAX := by
      intro c hc
      rw [herr] at hc
      cases hc
    cases allocateBuf_inv h hfits hroom with
    | chunk c hsize hret hinv hD hbuf =>
      rw [herr] at hret
      cases hret
    | raises e' hret hsame hcause => exact hsame
  freed isFreeFn nbytes := by
    obtain ⟨k, -, hinv, hids, -⟩ := freeBuf_inv h isFreeFn nbytes
    exact ⟨k, hids, hinv.metadata⟩
  room hnil size hpos hle hfits := by
    rw [hnil] at h
    cases allocateBuf_inv h hfits (fun c _ => by decide) with
    | chunk c hsize hret hinv hD hbuf => exact ⟨_, hret⟩
    | raises e hret hsame hcause =>
      rcases hcause with ⟨hneg, -⟩ | ⟨hfull, -⟩
      · omega
      · have hsize : size + MD_SIZE ≤ s.r.dataBufferSize := by
          unfold MD_SIZE
          omega
        rw [occupiedSizeNew_of_empty h hsize] at hfull
        omega

/-- In every run whose chunks have a size of four bytes, the chunks are disjoint and inside the
buffer, and `allocate_buf` and `free_buf` do what they say. -/
theorem ring_sound (dataBufferSize : Nat) :
    (ringRuns dataBufferSize fun s e => e.Fits s).Invariant RingSound := by
  have hinv : (ringRuns dataBufferSize fun s e => e.Fits s).Invariant
      fun s => RingInv s.r s.live := by
    refine TSys.Inductive.invariant ⟨?_, ?_⟩
    · rintro s ⟨hD, buf, rfl⟩
      exact new_inv buf hD
    · rintro s s' h ⟨e, hfits, hdoes, hfew⟩
      exact Does.keeps h hfits hdoes hfew
  intro s hs
  exact (hinv s hs).sound

/-- In a buffer of 4 GiB without a chunk, an allocation of 2 GiB raises: the size does not fit into
the four bytes of the metadata. -/
theorem allocate_overflows :
    (ringRuns 4294967296 fun _ _ => True).Reachable
      { r := { dataBufferSize := 4294967296, buf := fun _ => 0 } } ∧
    (2147483648 : Int) ≤ 4294967296 - 8 ∧
    (RingBuffer.allocateBuf { dataBufferSize := 4294967296, buf := fun _ => 0 } 2147483648).1 =
      .error (.OverflowError "int too big to convert") := by
  refine ⟨.init ⟨by decide, _, rfl⟩, by decide, ?_⟩
  rfl

end MyOperator.Shm
