import MyOperator.Shm.RingRuns
import MyOperator.Shm.ObjectStorage

/-!
# Objects in the ring buffer

What a chunk holds is its reader count and its object. A reader that counts changes the
count of one chunk (`increment_inv`), a new object leaves those in the other chunks as they
are (`StoresApart`).
-/

namespace MyOperator.Shm

open Lib List

variable {r r' : RingBuffer} {l : List Chunk} {c c' : Chunk}

/-- The bytes of the chunk are the same in both buffers. -/
structure SameChunk (r r' : RingBuffer) (c : Chunk) : Prop where
  size : r'.dataBufferSize = r.dataBufferSize
  bytes : ∀ k, r.bufIdx c.address ≤ k → (k : Int) < r.bufIdx c.address + c.size → r'.buf k = r.buf k

theorem RingBuffer.view_add (r : RingBuffer) (i m n : Nat) :
    r.view i (m + n) = r.view i m ++ r.view (i + m) n := by
  unfold RingBuffer.view
  rw [range_add, map_append, map_map]
  refine congrArg _ (map_congr_left fun k _ => ?_)
  show r.buf (i + (m + k)) = r.buf (i + m + k)
  rw [add_assoc]

theorem RingBuffer.bufIdx_store (r : RingBuffer) (i : Nat) (bytes : List UInt8) (address : Int) :
    (r.store i bytes).bufIdx address = r.bufIdx address := rfl

theorem accessData_eq (hheader : (r.accessMetadata c.address).2 = c.size) (hsize : 12 ≤ c.size) :
    r.readerCount c.address = byte2int (r.view (r.bufIdx c.address + 8) 4) ∧
      r.object c.address = r.view (r.bufIdx c.address + 12) (c.size - 12).toNat := by
  have hdata : r.accessData c.address =
      r.view (r.bufIdx c.address + 8) 4 ++ r.view (r.bufIdx c.address + 12) (c.size - 12).toNat := by
    unfold RingBuffer.accessData
    rw [hheader, ← add_assoc (r.bufIdx c.address) 8 4, ← RingBuffer.view_add]
    congr 1
    unfold MD_SIZE
    omega
  have hlen : (r.view (r.bufIdx c.address + 8) 4).length = flagBytes := by
    unfold RingBuffer.view
    rw [length_map, length_range]
    rfl
  unfold RingBuffer.readerCount RingBuffer.object
  rw [hdata, ← hlen, take_left, drop_left]
  exact ⟨rfl, rfl⟩

theorem SameChunk.holds (h : SameChunk r r' c) (hheader : (r.accessMetadata c.address).2 = c.size)
    (hheader' : (r'.accessMetadata c.address).2 = c.size) (hsize : 12 ≤ c.size) :
    r'.readerCount c.address = r.readerCount c.address ∧ r'.object c.address = r.object c.address := by
  obtain ⟨hcount, hobject⟩ := accessData_eq hheader hsize
  obtain ⟨hcount', hobject'⟩ := accessData_eq hheader' hsize
  have hidx : r'.bufIdx c.address = r.bufIdx c.address := by
    unfold RingBuffer.bufIdx
    rw [h.size]
  rw [hcount', hobject', hcount, hobject, hidx]
  refine ⟨congrArg byte2int (view_congr fun k hk => h.bytes _ ?_ ?_),
    view_congr fun k hk => h.bytes _ ?_ ?_⟩ <;> omega

/-! ## Writes to a chunk -/

theorem RingInv.bufIdx_eq (h : RingInv r l) (c : Chunk) :
    (r.bufIdx c.address : Int) = c.pos r.dataBufferSize := by
  have hD := h.size
  exact Int.toNat_of_nonneg (Int.emod_nonneg _ (by omega))

theorem store_inv (h : RingInv r l) (hc : c ∈ l) {i : Nat} {bytes : List UInt8}
    (hi : r.bufIdx c.address + 8 ≤ i) (hend : (i : Int) + bytes.length ≤ r.bufIdx c.address + c.size) :
    RingInv (r.store i bytes) l := by
  have hidx := h.bufIdx_eq c
  suffices hbuf : ∀ k, ¬ InData r.dataBufferSize l k → (r.store i bytes).buf k = r.buf k from
    write_inv h hbuf
  intro k hk
  refine RingBuffer.store_buf (not_and_or.mp ?_ |>.imp not_le.mp not_lt.mp)
  rintro ⟨hik, hki⟩
  refine hk ⟨c, hc, ?_, ?_⟩
  · show c.pos r.dataBufferSize + 8 ≤ (k : Int)
    omega
  · omega

theorem store_same (h : RingInv r l) (hc : c ∈ l) (hc' : c' ∈ l) (hne : c' ≠ c) {i : Nat}
    {bytes : List UInt8} (hi : r.bufIdx c.address ≤ i)
    (hend : (i : Int) + bytes.length ≤ r.bufIdx c.address + c.size) :
    SameChunk r (r.store i bytes) c' := by
  have hsymm : Std.Symm (Chunk.Apart r.dataBufferSize) := ⟨fun _ _ hapart => hapart.symm⟩
  have hdisjoint := h.apart.forall hc' hc hne
  unfold Chunk.Apart at hdisjoint
  have hidx := h.bufIdx_eq c
  have hidx' := h.bufIdx_eq c'
  refine ⟨rfl, fun k hk hk' => RingBuffer.store_buf ?_⟩
  omega

/-! ## Counting -/

theorem int2byteSigned_eq_ok {n : Nat} (h : n + 1 < 2147483648) :
    ∃ bytes, int2byteSigned ((n : Int) + 1) = .ok bytes ∧ byte2int bytes = (n : Int) + 1 ∧
      bytes.length = 4 := by
  obtain ⟨bytes, hbytes⟩ := int2byte_eq_ok h
  obtain ⟨hint, hlen⟩ := byte2int_int2byte hbytes
  exact ⟨bytes, hbytes, hint, hlen⟩

/-- The reader count of the chunk `c` goes up, and nothing else changes. -/
structure Counted (r : RingBuffer) (l : List Chunk) (c : Chunk) (r' : RingBuffer) : Prop where
  inv : RingInv r' l
  count : r'.readerCount c.address = r.readerCount c.address + 1
  counts : ∀ c' ∈ l, c' ≠ c → r'.readerCount c'.address = r.readerCount c'.address
  objects : ∀ c' ∈ l, r'.object c'.address = r.object c'.address

theorem increment_inv (h : RingInv r l) (hlarge : ∀ c ∈ l, 12 ≤ c.size) (hc : c ∈ l) {n : Nat}
    (hn : r.readerCount c.address = n) (hword : n + 1 < 2147483648) :
    (r.incrementReaderFlag c.address).1 = .ok () ∧
      Counted r l c (r.incrementReaderFlag c.address).2 := by
  obtain ⟨bytes, hbytes, hint, hlen⟩ := int2byteSigned_eq_ok hword
  have heq : r.incrementReaderFlag c.address =
      (.ok (), r.store (r.bufIdx c.address + 8) bytes) := by
    unfold RingBuffer.incrementReaderFlag
    rw [hn, hbytes]
    rfl
  have hsize := hlarge c hc
  have hend : ((r.bufIdx c.address + 8 : Nat) : Int) + bytes.length ≤ r.bufIdx c.address + c.size := by
    omega
  have hinv := store_inv h hc (le_refl _) hend
  have hheader : ∀ c' ∈ l, (r.accessMetadata c'.address).2 = c'.size := fun c' hc' =>
    congrArg Prod.snd (h.headers c' hc')
  have hheader' : ∀ c' ∈ l, ((r.store (r.bufIdx c.address + 8) bytes).accessMetadata c'.address).2 =
      c'.size := fun c' hc' => congrArg Prod.snd (hinv.headers c' hc')
  have hother : ∀ c' ∈ l, c' ≠ c → SameChunk r (r.store (r.bufIdx c.address + 8) bytes) c' :=
    fun c' hc' hne => store_same h hc hc' hne (Nat.le_add_right _ 8) hend
  obtain ⟨hcount, hobject⟩ := accessData_eq (hheader' c hc) hsize
  rw [RingBuffer.bufIdx_store] at hcount hobject
  rw [heq]
  refine ⟨rfl, hinv, ?_, fun c' hc' hne => ?_, fun c' hc' => ?_⟩
  · show (r.store (r.bufIdx c.address + 8) bytes).readerCount c.address = _
    rw [hcount, hn, ← hint, ← hlen]
    exact congrArg byte2int (RingBuffer.view_store _ _)
  · exact ((hother c' hc' hne).holds (hheader c' hc') (hheader' c' hc') (hlarge c' hc')).1
  · rcases eq_or_ne c' c with rfl | hne
    · show (r.store (r.bufIdx c'.address + 8) bytes).object c'.address = _
      rw [hobject, (accessData_eq (hheader c' hc) hsize).2]
      exact RingBuffer.view_store_of_disjoint (.inr (by omega))
    · exact ((hother c' hc' hne).holds (hheader c' hc') (hheader' c' hc') (hlarge c' hc')).2

theorem get_eq {address : Int} {id : Nat} (hid : (r.accessMetadata address).1 = id)
    (hok : (r.incrementReaderFlag address).1 = .ok ()) :
    r.get address id = (.ok (r.object address), (r.incrementReaderFlag address).2) := by
  unfold RingBuffer.get
  rw [if_neg (not_not.mpr hid)]
  cases hp : r.incrementReaderFlag address with
  | mk result r' =>
    rw [hp] at hok
    cases hok
    rfl

theorem get_inv (h : RingInv r l) (hlarge : ∀ c ∈ l, 12 ≤ c.size) (hc : c ∈ l) {n : Nat}
    (hn : r.readerCount c.address = n) (hword : n + 1 < 2147483648) :
    (r.get c.address c.id).1 = .ok (r.object c.address) ∧
      Counted r l c (r.get c.address c.id).2 := by
  obtain ⟨hok, hcounted⟩ := increment_inv h hlarge hc hn hword
  have hid : (r.accessMetadata c.address).1 = c.id := congrArg Prod.fst (h.headers c hc)
  rw [get_eq hid hok]
  dsimp only
  exact ⟨rfl, hcounted⟩

/-! ## A new object -/

/-- The buffer `r'` has the chunk `c` with a new object besides those of `r`. -/
structure Added (r : RingBuffer) (l : List Chunk) (c : Chunk) (value : List UInt8) (r' : RingBuffer) :
    Prop where
  inv : RingInv r' (l ++ [c])
  count : r'.readerCount c.address = 0
  object : r'.object c.address = value
  counts : ∀ c' ∈ l, r'.readerCount c'.address = r.readerCount c'.address
  objects : ∀ c' ∈ l, r'.object c'.address = r.object c'.address

theorem fill_inv {value : List UInt8} (h : RingInv r l) (hlarge : ∀ c ∈ l, 12 ≤ c.size)
    (hinv : RingInv r' (l ++ [c])) (hD : r'.dataBufferSize = r.dataBufferSize)
    (hbuf : ∀ k, k < r.bufIdx c.address ∨ r.bufIdx c.address + 8 ≤ k → r'.buf k = r.buf k)
    (hsize : c.size = flagBytes + value.length + MD_SIZE) :
    Added r l c value (r'.store (r'.bufIdx c.address + MD_SIZE) ([0, 0, 0, 0] ++ value)) := by
  have hidx : r'.bufIdx c.address = r.bufIdx c.address := by
    unfold RingBuffer.bufIdx
    rw [hD]
  have hsize : c.size = 12 + value.length := by
    rw [hsize]
    unfold flagBytes MD_SIZE
    omega
  have hlen : ([0, 0, 0, 0] ++ value : List UInt8).length = 4 + value.length := by
    rw [length_append]
    rfl
  have hc : c ∈ l ++ [c] := mem_append_right _ (mem_singleton.mpr rfl)
  have hend : ((r'.bufIdx c.address + 8 : Nat) : Int) + ([0, 0, 0, 0] ++ value : List UInt8).length ≤
      r'.bufIdx c.address + c.size := by
    omega
  have hnew := store_inv hinv hc (le_refl _) hend
  have hnodup := hinv.ids_nodup
  rw [map_append, nodup_append] at hnodup
  have hkept : ∀ c' ∈ l, SameChunk r (r'.store (r'.bufIdx c.address + 8) ([0, 0, 0, 0] ++ value)) c' := by
    intro c' hc'
    have hc'' : c' ∈ l ++ [c] := mem_append_left _ hc'
    have hne : c' ≠ c := fun heq =>
      hnodup.2.2 _ (mem_map_of_mem hc') _ (mem_singleton.mpr rfl) (congrArg Chunk.id heq)
    have hsame := store_same hinv hc hc'' hne (Nat.le_add_right _ 8) hend
    have hsymm : Std.Symm (Chunk.Apart r'.dataBufferSize) := ⟨fun _ _ hapart => hapart.symm⟩
    have hdisjoint := hinv.apart.forall hc'' hc hne
    have hidxc := hinv.bufIdx_eq c
    have hidxc' := hinv.bufIdx_eq c'
    have hidx' : r'.bufIdx c'.address = r.bufIdx c'.address := by
      unfold RingBuffer.bufIdx
      rw [hD]
    unfold Chunk.Apart at hdisjoint
    refine ⟨hD, fun k hk hk' => (hsame.bytes k (by omega) (by omega)).trans (hbuf k ?_)⟩
    omega
  have hheader : ∀ c' ∈ l, (r.accessMetadata c'.address).2 = c'.size := fun c' hc' =>
    congrArg Prod.snd (h.headers c' hc')
  have hheader' : ∀ c' ∈ l ++ [c], ((r'.store (r'.bufIdx c.address + 8)
      ([0, 0, 0, 0] ++ value)).accessMetadata c'.address).2 = c'.size := fun c' hc' =>
    congrArg Prod.snd (hnew.headers c' hc')
  have hholds := fun c' (hc' : c' ∈ l) => (hkept c' hc').holds (hheader c' hc')
    (hheader' c' (mem_append_left _ hc')) (hlarge c' hc')
  obtain ⟨hcount, hobject⟩ := accessData_eq (hheader' c hc) (by omega)
  rw [RingBuffer.bufIdx_store] at hcount hobject
  -- the flag and the object are the first and the second part of the bytes
  have hview := RingBuffer.view_store (r := r') (r'.bufIdx c.address + 8) ([0, 0, 0, 0] ++ value)
  rw [hlen, RingBuffer.view_add] at hview
  have hparts := append_inj hview (by
    rfl)
  refine ⟨hnew, ?_, ?_, fun c' hc' => (hholds c' hc').1, fun c' hc' => (hholds c' hc').2⟩
  · have hzero : byte2int [0, 0, 0, 0] = 0 := by decide
    exact hcount.trans ((congrArg byte2int hparts.1).trans hzero)
  · refine hobject.trans (Eq.trans ?_ hparts.2)
    have hobjectLen : (c.size - 12).toNat = value.length := by omega
    rw [hobjectLen]

end MyOperator.Shm
