import MyOperator.Shm.ObjectFrames

/-!
# The index of the object storage

The index of the writer has the live chunks, each with its key and its writer flag
(`StoreInv`). `put` frees some of the oldest objects, all of them counted to the end, and
adds its own (`put_inv`).
-/

namespace MyOperator.Shm

open Lib List Dict

variable {s s' : ObjectStorage} {l : List Chunk} {c : Chunk}

/-- The index has the chunks `l`. -/
structure IndexInv (s : ObjectStorage) (l : List Chunk) : Prop where
  indexed : ∀ c ∈ l, ∃ key, s.idIndex.get? c.id = some key ∧
    s.keyIndex.get? key = some (c.address, c.id)
  keys : ∀ key address id, s.keyIndex.get? key = some (address, id) →
    s.idIndex.get? id = some key ∧ ∃ c ∈ l, c.id = id ∧ c.address = address
  flagged : ∀ c ∈ l, ∃ w, s.writerFlag.get? c.id = some w
  flags : ∀ id w, s.writerFlag.get? id = some w → ∃ c ∈ l, c.id = id

/-- The index and the buffer have the chunks `l`. -/
structure StoreInv (s : ObjectStorage) (l : List Chunk) : Prop extends IndexInv s l where
  ring : RingInv s.ringBuffer l
  large : ∀ c ∈ l, 12 ≤ c.size

/-! ## `free_unused` -/

/-- The entries of the other ids are kept. -/
structure Forgets (s : ObjectStorage) (ids : List Nat) (s' : ObjectStorage) : Prop where
  ringBuffer : s'.ringBuffer = s.ringBuffer
  nReaders : s'.nReaders = s.nReaders
  maxObjectSize : s'.maxObjectSize = s.maxObjectSize
  idIndex : ∀ id ∉ ids, s'.idIndex.get? id = s.idIndex.get? id
  flags : ∀ id ∉ ids, s'.writerFlag.get? id = s.writerFlag.get? id

theorem forget_inv (h : IndexInv s (c :: l)) (hnodup : c.id ∉ l.map Chunk.id) :
    (s.forget c.id).1 = .ok () ∧ IndexInv (s.forget c.id).2 l ∧ Forgets s [c.id] (s.forget c.id).2 := by
  obtain ⟨key, hid, hkey⟩ := h.indexed c mem_cons_self
  obtain ⟨w, hflag⟩ := h.flagged c mem_cons_self
  have hne : ∀ c' ∈ l, c'.id ≠ c.id := by
    intro c' hc' heq
    exact hnodup (heq ▸ mem_map_of_mem hc')
  have heq : s.forget c.id = (.ok (), { s with
      keyIndex := s.keyIndex.erase key
      idIndex := s.idIndex.erase c.id
      writerFlag := s.writerFlag.erase c.id }) := by
    unfold ObjectStorage.forget Dict.contains
    rw [hid]
    dsimp only
    rw [hkey, hflag]
    rfl
  rw [heq]
  refine ⟨rfl, ⟨fun c' hc' => ?_, fun key' address id hget => ?_, fun c' hc' => ?_, fun id w' hget => ?_⟩,
    rfl, rfl, rfl, fun id hnot => ?_, fun id hnot => ?_⟩
  · obtain ⟨key', hid', hkey'⟩ := h.indexed c' (mem_cons_of_mem _ hc')
    refine ⟨key', (get?_erase_of_ne _ (hne c' hc')).trans hid', ?_⟩
    refine (get?_erase_of_ne _ fun hsame => hne c' hc' ?_).trans hkey'
    rw [hsame, hkey] at hkey'
    exact (congrArg Prod.snd (Option.some.inj hkey')).symm
  · have hget : (s.keyIndex.erase key).get? key' = some (address, id) := hget
    rw [get?_erase] at hget
    split at hget
    · cases hget
    · rename_i hdiff
      obtain ⟨hid', c', hc', hcid, haddress⟩ := h.keys key' address id hget
      have hidne : id ≠ c.id := by
        intro hsame
        rw [hsame, hid] at hid'
        exact hdiff (Option.some.inj hid').symm
      refine ⟨(get?_erase_of_ne _ hidne).trans hid', c', ?_, hcid, haddress⟩
      rcases mem_cons.mp hc' with rfl | hc'
      · exact absurd hcid.symm hidne
      · exact hc'
  · obtain ⟨w', hflag'⟩ := h.flagged c' (mem_cons_of_mem _ hc')
    exact ⟨w', (get?_erase_of_ne _ (hne c' hc')).trans hflag'⟩
  · have hget : (s.writerFlag.erase c.id).get? id = some w' := hget
    rw [get?_erase] at hget
    split at hget
    · cases hget
    · rename_i hdiff
      obtain ⟨c', hc', hcid⟩ := h.flags id w' hget
      rcases mem_cons.mp hc' with rfl | hc'
      · exact absurd hcid.symm hdiff
      · exact ⟨c', hc', hcid⟩
  · exact get?_erase_of_ne _ fun hsame => hnot (mem_singleton.mpr hsame)
  · exact get?_erase_of_ne _ fun hsame => hnot (mem_singleton.mpr hsame)

theorem forgetAll_inv {pre : List Chunk} (h : IndexInv s (pre ++ l))
    (hnodup : ((pre ++ l).map Chunk.id).Nodup) :
    (ObjectStorage.forgetAll (pre.map Chunk.id) s).1 = .ok () ∧
      IndexInv (ObjectStorage.forgetAll (pre.map Chunk.id) s).2 l ∧
      Forgets s (pre.map Chunk.id) (ObjectStorage.forgetAll (pre.map Chunk.id) s).2 := by
  induction pre generalizing s with
  | nil => exact ⟨rfl, h, rfl, rfl, rfl, fun _ _ => rfl, fun _ _ => rfl⟩
  | cons c pre ih =>
    rw [cons_append, map_cons, nodup_cons] at hnodup
    obtain ⟨hok, hinv, hforgets⟩ := forget_inv h hnodup.1
    have heq : ObjectStorage.forgetAll ((c :: pre).map Chunk.id) s =
        ObjectStorage.forgetAll (pre.map Chunk.id) (s.forget c.id).2 := by
      rw [map_cons, ObjectStorage.forgetAll]
      cases hp : s.forget c.id with
      | mk result s' =>
        rw [hp] at hok
        cases hok
        rfl
    rw [heq]
    obtain ⟨hok', hinv', hrest⟩ := ih hinv hnodup.2
    refine ⟨hok', hinv', hrest.ringBuffer.trans hforgets.ringBuffer,
      hrest.nReaders.trans hforgets.nReaders, hrest.maxObjectSize.trans hforgets.maxObjectSize,
      fun id hnot => ?_, fun id hnot => ?_⟩
    · rw [map_cons, mem_cons, not_or] at hnot
      exact (hrest.idIndex id hnot.2).trans
        (hforgets.idIndex id fun hin => hnot.1 (mem_singleton.mp hin))
    · rw [map_cons, mem_cons, not_or] at hnot
      exact (hrest.flags id hnot.2).trans (hforgets.flags id fun hin => hnot.1 (mem_singleton.mp hin))

/-- The first `k` objects were free, and the others are kept. -/
structure Kept (s : ObjectStorage) (l : List Chunk) (k : Nat) (s' : ObjectStorage) : Prop where
  free : ∀ c ∈ l.take k, s.defaultIsFreeCheck c.id (s.ringBuffer.accessData c.address) = true
  nReaders : s'.nReaders = s.nReaders
  maxObjectSize : s'.maxObjectSize = s.maxObjectSize
  idIndex : ∀ c ∈ l.drop k, s'.idIndex.get? c.id = s.idIndex.get? c.id
  flags : ∀ c ∈ l.drop k, s'.writerFlag.get? c.id = s.writerFlag.get? c.id
  counts : ∀ c ∈ l.drop k, s'.ringBuffer.readerCount c.address = s.ringBuffer.readerCount c.address
  objects : ∀ c ∈ l.drop k, s'.ringBuffer.object c.address = s.ringBuffer.object c.address

theorem Kept.refl (s : ObjectStorage) (l : List Chunk) : Kept s l 0 s :=
  ⟨fun _ hc => (nomatch hc), rfl, rfl, fun _ _ => rfl, fun _ _ => rfl, fun _ _ => rfl, fun _ _ => rfl⟩

variable {key : String} {value : List UInt8}

theorem Kept.keyIndex {k : Nat} (h : Kept s l k s') (hs : IndexInv s l)
    (hs' : IndexInv s' (l.drop k)) (hnone : s.keyIndex.get? key = none) :
    s'.keyIndex.get? key = none := by
  refine Option.eq_none_iff_forall_not_mem.mpr fun ⟨address, id⟩ hget => ?_
  obtain ⟨hid, c, hc, hcid, -⟩ := hs'.keys key address id hget
  rw [← hcid, h.idIndex c hc] at hid
  obtain ⟨key', hid', hkey'⟩ := hs.indexed c (mem_of_mem_drop hc)
  rw [hid] at hid'
  rw [← Option.some.inj hid', hnone] at hkey'
  cases hkey'

theorem freeUnused_inv (h : StoreInv s l) : ∃ k, s.freeUnused.1 = .ok () ∧
    StoreInv s.freeUnused.2 (l.drop k) ∧ Kept s l k s.freeUnused.2 := by
  obtain ⟨k, -, hring, hids, hfree⟩ :=
    freeBuf_inv h.ring s.defaultIsFreeCheck (some (2 * s.maxObjectSize))
  obtain ⟨hbuf, hD⟩ := freeBuf_memory (r := s.ringBuffer) s.defaultIsFreeCheck
    (some (2 * s.maxObjectSize))
  have hindex : IndexInv { s with ringBuffer := (s.ringBuffer.freeBuf s.defaultIsFreeCheck
      (some (2 * s.maxObjectSize))).2 } (l.take k ++ l.drop k) := by
    rw [take_append_drop]
    exact ⟨h.indexed, h.keys, h.flagged, h.flags⟩
  have hnodup := h.ring.ids_nodup
  rw [← take_append_drop k l] at hnodup
  obtain ⟨hok, hinv, hforgets⟩ := forgetAll_inv hindex hnodup
  rw [← hids] at hok hinv hforgets
  rw [map_append, nodup_append] at hnodup
  have hnot : ∀ c ∈ l.drop k,
      c.id ∉ (s.ringBuffer.freeBuf s.defaultIsFreeCheck (some (2 * s.maxObjectSize))).1 := by
    intro c hc hin
    rw [hids] at hin
    exact hnodup.2.2 _ hin _ (mem_map_of_mem hc) rfl
  have hunfold : s.freeUnused = ObjectStorage.forgetAll
      (s.ringBuffer.freeBuf s.defaultIsFreeCheck (some (2 * s.maxObjectSize))).1 { s with
        ringBuffer := (s.ringBuffer.freeBuf s.defaultIsFreeCheck
          (some (2 * s.maxObjectSize))).2 } := rfl
  rw [← hunfold] at hok hinv hforgets
  have hring' : s.freeUnused.2.ringBuffer =
      (s.ringBuffer.freeBuf s.defaultIsFreeCheck (some (2 * s.maxObjectSize))).2 := hforgets.ringBuffer
  have hdata : ∀ address, s.freeUnused.2.ringBuffer.accessData address =
      s.ringBuffer.accessData address := by
    intro address
    rw [hring']
    exact accessData_congr ⟨hbuf, hD⟩ address
  refine ⟨k, hok, ⟨hinv, ?_, fun c hc => h.large c (mem_of_mem_drop hc)⟩, hfree,
    hforgets.nReaders, hforgets.maxObjectSize, fun c hc => hforgets.idIndex _ (hnot c hc),
    fun c hc => hforgets.flags _ (hnot c hc), fun c _ => ?_, fun c _ => ?_⟩
  · rw [hring']
    exact hring
  · unfold RingBuffer.readerCount
    rw [hdata]
  · unfold RingBuffer.object
    rw [hdata]

/-! ## `put` -/

theorem allocateBuf_full {r : RingBuffer} {size : Int}
    (h : r.dataBufferSize < r.occupiedSizeNew (size + MD_SIZE)) (a : Int × Nat) :
    (r.allocateBuf size).1 ≠ .ok a := by
  intro hok
  unfold RingBuffer.allocateBuf at hok
  by_cases hpos : size ≤ 0
  · rw [if_pos hpos] at hok
    cases hok
  · rw [if_neg hpos, if_pos h] at hok
    cases hok

theorem Fits.allocates {bufferSize : Nat} (hfits : s.Fits bufferSize)
    (h : RingInv s.ringBuffer l) : Allocates s.ringBuffer l bufferSize := by
  rcases hfits with hfull | ⟨hword, hfew⟩
  · exact allocateBuf_inv h (.inr hfull) fun a hok => absurd hok (allocateBuf_full hfull a)
  · refine allocateBuf_inv h (.inl ?_) fun a _ => ?_
    · omega
    · exact Nat.lt_of_le_of_lt (Nat.succ_le_succ h.length_le) hfew

/-- The object of the chunk `c` is new. -/
structure Stored (s : ObjectStorage) (l : List Chunk) (c : Chunk) (key : String) (value : List UInt8)
    (s' : ObjectStorage) : Prop where
  inv : StoreInv s' (l ++ [c])
  key : s'.keyIndex.get? key = some (c.address, c.id)
  flag : s'.writerFlag.get? c.id = some 1
  count : s'.ringBuffer.readerCount c.address = 0
  object : s'.ringBuffer.object c.address = value
  nReaders : s'.nReaders = s.nReaders
  idIndex : ∀ c' ∈ l, s'.idIndex.get? c'.id = s.idIndex.get? c'.id
  flags : ∀ c' ∈ l, s'.writerFlag.get? c'.id = s.writerFlag.get? c'.id
  counts : ∀ c' ∈ l, s'.ringBuffer.readerCount c'.address = s.ringBuffer.readerCount c'.address
  objects : ∀ c' ∈ l, s'.ringBuffer.object c'.address = s.ringBuffer.object c'.address

theorem fill_stored (h : StoreInv s l) (hnone : s.keyIndex.get? key = none)
    (hinv : RingInv (s.ringBuffer.allocateBuf (flagBytes + value.length : Nat)).2 (l ++ [c]))
    (hD : (s.ringBuffer.allocateBuf (flagBytes + value.length : Nat)).2.dataBufferSize =
      s.ringBuffer.dataBufferSize)
    (hbuf : ∀ k, k < s.ringBuffer.bufIdx c.address ∨ s.ringBuffer.bufIdx c.address + 8 ≤ k →
      (s.ringBuffer.allocateBuf (flagBytes + value.length : Nat)).2.buf k = s.ringBuffer.buf k)
    (hsize : c.size = (flagBytes + value.length : Nat) + MD_SIZE) :
    Stored s l c key value (({ s with
      ringBuffer := (s.ringBuffer.allocateBuf (flagBytes + value.length : Nat)).2 } : ObjectStorage).fill
        key value c.address c.id) := by
  have hadded := fill_inv h.ring h.large hinv hD hbuf hsize
  have hnodup := hinv.ids_nodup
  rw [map_append, nodup_append] at hnodup
  have hne : ∀ c' ∈ l, c'.id ≠ c.id := fun c' hc' =>
    hnodup.2.2 _ (mem_map_of_mem hc') _ (mem_singleton.mpr rfl)
  have hfresh : s.writerFlag.get? c.id = none := by
    refine Option.eq_none_iff_forall_not_mem.mpr fun w hw => ?_
    obtain ⟨c', hc', hid⟩ := h.flags c.id w hw
    exact hne c' hc' hid
  have hflag : (s.writerFlag.set c.id ((s.writerFlag.get? c.id).getD 0 + 1)).get? c.id = some 1 := by
    rw [get?_set_self, hfresh]
    rfl
  refine ⟨⟨⟨fun c' hc' => ?_, fun key' address id hget => ?_, fun c' hc' => ?_, fun id w hget => ?_⟩,
    hadded.inv, fun c' hc' => ?_⟩, get?_set_self .., hflag, hadded.count, hadded.object, rfl,
    fun c' hc' => get?_set_of_ne _ _ (hne c' hc'), fun c' hc' => get?_set_of_ne _ _ (hne c' hc'),
    hadded.counts, hadded.objects⟩
  · rcases mem_append.mp hc' with hc' | hc'
    · obtain ⟨key', hid', hkey'⟩ := h.indexed c' hc'
      refine ⟨key', (get?_set_of_ne _ _ (hne c' hc')).trans hid', ?_⟩
      refine (get?_set_of_ne _ _ fun hsame => ?_).trans hkey'
      rw [hsame, hnone] at hkey'
      cases hkey'
    · rw [mem_singleton.mp hc']
      exact ⟨key, get?_set_self .., get?_set_self ..⟩
  · have hget : (s.keyIndex.set key (c.address, c.id)).get? key' = some (address, id) := hget
    rw [get?_set] at hget
    split at hget
    · rename_i hsame
      cases hget
      rw [hsame]
      exact ⟨get?_set_self .., c, mem_append_right _ (mem_singleton.mpr rfl), rfl, rfl⟩
    · obtain ⟨hid', c', hc', hcid, haddress⟩ := h.keys key' address id hget
      exact ⟨(get?_set_of_ne _ _ (hcid ▸ hne c' hc')).trans hid', c', mem_append_left _ hc', hcid,
        haddress⟩
  · rcases mem_append.mp hc' with hc' | hc'
    · obtain ⟨w, hw⟩ := h.flagged c' hc'
      exact ⟨w, (get?_set_of_ne _ _ (hne c' hc')).trans hw⟩
    · rw [mem_singleton.mp hc']
      exact ⟨1, hflag⟩
  · have hget : (s.writerFlag.set c.id ((s.writerFlag.get? c.id).getD 0 + 1)).get? id = some w := hget
    rw [get?_set] at hget
    split at hget
    · rename_i hsame
      exact ⟨c, mem_append_right _ (mem_singleton.mpr rfl), hsame.symm⟩
    · obtain ⟨c', hc', hid⟩ := h.flags id w hget
      exact ⟨c', mem_append_left _ hc', hid⟩
  · rcases mem_append.mp hc' with hc' | hc'
    · exact h.large c' hc'
    · rw [mem_singleton.mp hc', hsize]
      unfold flagBytes MD_SIZE
      omega

/-- `put` adds its object or is refused. Before that it may free objects. -/
inductive Puts (s : ObjectStorage) (l : List Chunk) (key : String) (value : List UInt8) : Prop
  | stored (k : Nat) (s1 s' : ObjectStorage) (c : Chunk)
      (hput : s.put key value = (.ok (c.address, c.id), s')) (hkept : Kept s l k s1)
      (hstored : Stored s1 (l.drop k) c key value s')
  | refused (k : Nat) (e : PyError) (s' : ObjectStorage) (hput : s.put key value = (.error e, s'))
      (he : (∃ msg, e = .ValueError msg) ∨ ∃ msg, e = .MemoryError msg)
      (hinv : StoreInv s' (l.drop k)) (hkept : Kept s l k s')

theorem allocate_inv (h : StoreInv s l) (hnone : s.keyIndex.get? key = none)
    (hfits : s.Fits (flagBytes + value.length)) (hagain : s.ringBuffer.dataBufferSize <
      s.ringBuffer.occupiedSizeNew ((flagBytes + value.length : Nat) + MD_SIZE) →
        s.freeUnused.2.Fits (flagBytes + value.length)) :
    (∃ k s1 s2 c, s.allocate (flagBytes + value.length) = (.ok (c.address, c.id), s2) ∧
      Kept s l k s1 ∧ Stored s1 (l.drop k) c key value (s2.fill key value c.address c.id)) ∨
    ∃ k s' msg, s.allocate (flagBytes + value.length) = (.error (.MemoryError msg), s') ∧
      StoreInv s' (l.drop k) ∧ Kept s l k s' := by
  have hpos : ¬ ((flagBytes + value.length : Nat) : Int) ≤ 0 := by
    unfold flagBytes
    omega
  cases Fits.allocates hfits h.ring with
  | chunk c hsize hret hinv hD hbuf =>
    refine .inl ⟨0, s, _, c, ?_, Kept.refl s l, fill_stored h hnone hinv hD hbuf hsize⟩
    unfold ObjectStorage.allocate
    generalize s.ringBuffer.allocateBuf (flagBytes + value.length : Nat) = p at hret
    obtain ⟨result, r⟩ := p
    cases hret
    rfl
  | raises e hret hsame hcause =>
    obtain ⟨hneg, -⟩ | ⟨hfull, rfl⟩ := hcause
    · exact absurd hneg hpos
    obtain ⟨k, hok, hfreed, hkept⟩ := freeUnused_inv h
    have heq : s.allocate (flagBytes + value.length) =
        ((s.freeUnused.2.ringBuffer.allocateBuf (flagBytes + value.length : Nat)).1,
          { s.freeUnused.2 with ringBuffer :=
            (s.freeUnused.2.ringBuffer.allocateBuf (flagBytes + value.length : Nat)).2 }) := by
      have hpair : s.ringBuffer.allocateBuf (flagBytes + value.length : Nat) =
          (.error (.MemoryError
            "Not enough space in the data buffer, try calling free_buf() to free up space"),
            s.ringBuffer) := Prod.ext hret hsame
      unfold ObjectStorage.allocate
      rw [hpair]
      dsimp only
      generalize s.freeUnused = p at hok
      obtain ⟨result, s1⟩ := p
      cases hok
      rfl
    rw [heq]
    cases Fits.allocates (hagain hfull) hfreed.ring with
    | chunk c hsize hret' hinv hD hbuf =>
      refine .inl ⟨k, s.freeUnused.2, _, c, Prod.ext hret' rfl, hkept, ?_⟩
      exact fill_stored hfreed (hkept.keyIndex h.toIndexInv hfreed.toIndexInv hnone) hinv hD hbuf
        hsize
    | raises e hret' hsame' hcause' =>
      obtain ⟨hneg, -⟩ | ⟨-, rfl⟩ := hcause'
      · exact absurd hneg hpos
      refine .inr ⟨k, s.freeUnused.2, _, Prod.ext hret' ?_, hfreed, hkept⟩
      rw [hsame']

theorem put_inv (h : StoreInv s l) (hnone : s.keyIndex.get? key = none)
    (hfits : s.PutFits key value) : Puts s l key value := by
  have hcontains : ¬ s.keyIndex.contains key = true := by
    unfold Dict.contains
    rw [hnone]
    exact Bool.false_ne_true
  by_cases hlarge : flagBytes + value.length > s.maxObjectSize
  · have hput : ∃ msg, s.put key value = (.error (.ValueError msg), s) := by
      unfold ObjectStorage.put
      rw [if_neg hcontains, if_pos hlarge]
      exact ⟨_, rfl⟩
    obtain ⟨msg, hput⟩ := hput
    exact .refused 0 _ s hput (.inl ⟨msg, rfl⟩) h (Kept.refl s l)
  obtain ⟨hfirst, hagain⟩ := hfits hnone (not_lt.mp hlarge)
  have hcast : ((flagBytes + value.length : Nat) : Int) + MD_SIZE =
      (flagBytes : Int) + value.length + MD_SIZE := by
    omega
  obtain ⟨k, s1, s2, c, halloc, hkept, hstored⟩ | ⟨k, s', msg, halloc, hinv, hkept⟩ :=
    allocate_inv h hnone hfirst fun hfull => hagain (by rwa [← hcast])
  · have hput : s.put key value = (.ok (c.address, c.id), s2.fill key value c.address c.id) := by
      unfold ObjectStorage.put
      rw [if_neg hcontains, if_neg hlarge, halloc]
    exact .stored k s1 _ c hput hkept hstored
  · have hput : s.put key value = (.error (.MemoryError msg), s') := by
      unfold ObjectStorage.put
      rw [if_neg hcontains, if_neg hlarge, halloc]
    exact .refused k _ s' hput (.inr ⟨_, rfl⟩) hinv hkept

end MyOperator.Shm
