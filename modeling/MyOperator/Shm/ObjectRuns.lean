import MyOperator.Shm.ObjectIndex

/-!
# Runs of the object storage

The writer flag of an object times the number of readers is its reader count and what the
readers have still to count (`StorageInv.counts`). So an object is free when all its gets
have been performed, and not before (`storage_sound`). That holds in the runs whose readers
count a touch if and only if the writer did. A reader decides that by the reader count,
which does not tell (`get_fails`).
-/

namespace MyOperator.Shm

open Lib List Dict

/-! ## What is still to be counted -/

/-- What a call adds to the reader count of the object `id`, if the touches of the readers are counted
like those of the writer. -/
def ReaderCall.weight (id : Nat) : ReaderCall → Nat
  | .touch h => if h.id = id ∧ h.touched = true then 1 else 0
  | .get h => if h.id = id then 1 else 0

/-- What the calls of a reader add. -/
def callsWeight (id : Nat) (calls : List ReaderCall) : Nat := (calls.map (ReaderCall.weight id)).sum

/-- What the calls for an item of the request will add that the writer has counted. -/
def itemWeight (id : Nat) (item : (String × List UInt8) × Option Nat) : Nat :=
  if item.2 = some id then 1 else 0

def Handout.weight (id : Nat) (h : Handout) : Nat :=
  ReaderCall.weight id (.touch h) + ReaderCall.weight id (.get h)

/-- What a reader will add for the request. -/
def Serving.weight (id : Nat) (serving : Serving) : Nat :=
  (serving.toUpdate.map (itemWeight id)).sum + (serving.handed.map (Handout.weight id)).sum

namespace StorageRun

variable (s : StorageRun)

def servingWeight (id : Nat) : Nat := s.serving.elim 0 (Serving.weight id)

/-- What the readers have still to count for the object `id`. -/
def pending (id : Nat) : Nat :=
  (∑ r ∈ Finset.range s.storage.nReaders, callsWeight id (s.calls r)) +
    s.storage.nReaders * s.servingWeight id

/-- A call of a reader, or the current request, needs the object. -/
def Holds (h : Handout) : Prop :=
  (∃ r < s.storage.nReaders, .get h ∈ s.calls r ∨ (.touch h ∈ s.calls r ∧ h.touched = true)) ∨
    ∃ serving, s.serving = some serving ∧ h ∈ serving.handed

end StorageRun

/-- What holds in every state. -/
structure StorageInv (s : StorageRun) (l : List Chunk) : Prop where
  readers : 0 < s.storage.nReaders
  store : StoreInv s.storage l
  counts : ∀ c ∈ l, ∃ w n : Nat, s.storage.writerFlag.get? c.id = some w ∧
    s.storage.ringBuffer.readerCount c.address = n ∧ w * s.storage.nReaders = n + s.pending c.id
  holds : ∀ h, s.Holds h → ∃ c ∈ l, c.id = h.id ∧ c.address = h.address ∧
    s.storage.ringBuffer.object c.address = h.object
  touched : ∀ serving, s.serving = some serving → ∀ item ∈ serving.toUpdate, ∀ id,
    item.2 = some id → ∃ address, s.storage.keyIndex.get? item.1.1 = some (address, id)

variable {s s' : StorageRun} {l : List Chunk} {c : Chunk}

variable {id d r i : Nat} {call : ReaderCall} {serving : Serving} {st : ObjectStorage}
  {item : (String × List UInt8) × Option Nat} {rest : List ((String × List UInt8) × Option Nat)}

theorem pending_serving (hcalls : s'.calls = s.calls)
    (hreaders : s'.storage.nReaders = s.storage.nReaders)
    (hweight : s'.servingWeight id = s.servingWeight id + d) :
    s'.pending id = s.pending id + s.storage.nReaders * d := by
  unfold StorageRun.pending
  rw [hcalls, hreaders, hweight, Nat.mul_add, Nat.add_assoc]

theorem sum_range_change {n : Nat} {f g : Nat → Nat} (hr : r < n) (hother : ∀ r' ≠ r, g r' = f r')
    (hd : g r + d = f r) : (∑ i ∈ Finset.range n, g i) + d = ∑ i ∈ Finset.range n, f i := by
  have hmem : r ∈ Finset.range n := Finset.mem_range.mpr hr
  rw [← Finset.add_sum_erase _ g hmem, ← Finset.add_sum_erase _ f hmem, ← hd,
    Finset.sum_congr rfl fun i hi => hother i (Finset.ne_of_mem_erase hi)]
  exact add_right_comm _ _ _

theorem pending_read (hr : r < s.storage.nReaders) (hcall : (s.calls r)[i]? = some call)
    (id : Nat) : (s.read r i call).pending id + call.weight id = s.pending id := by
  obtain ⟨hi, hget⟩ := List.getElem?_eq_some_iff.mp hcall
  have hsum : callsWeight id ((s.calls r).eraseIdx i) + call.weight id = callsWeight id (s.calls r) := by
    unfold callsWeight
    rw [← ((getElem_cons_eraseIdx_perm hi).map (ReaderCall.weight id)).sum_eq, map_cons,
      sum_cons, hget, add_comm]
  have hchange := sum_range_change (f := fun r => callsWeight id (s.calls r))
    (g := fun r' => callsWeight id ((s.read r i call).calls r')) hr
    (fun r' hne => congrArg (callsWeight id) (if_neg hne))
    ((congrArg (fun calls => callsWeight id calls + call.weight id) (if_pos rfl)).trans hsum)
  have hserving : (s.read r i call).servingWeight id = s.servingWeight id := rfl
  have hreaders : (s.read r i call).storage.nReaders = s.storage.nReaders := rfl
  unfold StorageRun.pending
  rw [hserving, hreaders]
  omega

theorem pending_send (hserving : s.serving = some serving) (hupdate : serving.toUpdate = [])
    (id : Nat) : (s.send serving.handed).pending id = s.pending id := by
  have hcalls : ∀ r, callsWeight id ((s.send serving.handed).calls r) =
      callsWeight id (s.calls r) + (serving.handed.map (Handout.weight id)).sum := by
    intro r
    have hhanded : callsWeight id (serving.handed.map .touch ++ serving.handed.map .get) =
        (serving.handed.map (Handout.weight id)).sum := by
      unfold callsWeight Handout.weight
      rw [map_append, sum_append, map_map, map_map, sum_map_add]
      rfl
    rw [← hhanded]
    show callsWeight id (s.calls r ++ _) = _
    unfold callsWeight
    rw [map_append, sum_append]
  have hold : s.servingWeight id = (serving.handed.map (Handout.weight id)).sum := by
    unfold StorageRun.servingWeight
    rw [hserving]
    show (serving.toUpdate.map (itemWeight id)).sum + _ = _
    rw [hupdate]
    exact zero_add _
  have hnew : (s.send serving.handed).servingWeight id = 0 := rfl
  have hreaders : (s.send serving.handed).storage.nReaders = s.storage.nReaders := rfl
  unfold StorageRun.pending
  rw [hnew, hold, hreaders, Finset.sum_congr rfl fun r _ => hcalls r, Finset.sum_add_distrib,
    Finset.sum_const, Finset.card_range]
  rfl

theorem pending_eq_zero (hcalls : ∀ r < s.storage.nReaders, ∀ call ∈ s.calls r, call.weight id = 0)
    (hserving : ∀ serving, s.serving = some serving →
      (∀ item ∈ serving.toUpdate, itemWeight id item = 0) ∧ ∀ h ∈ serving.handed, h.weight id = 0) :
    s.pending id = 0 := by
  have hsum : ∀ r ∈ Finset.range s.storage.nReaders, callsWeight id (s.calls r) = 0 := by
    intro r hr
    refine sum_eq_zero fun n hn => ?_
    obtain ⟨call, hcall, rfl⟩ := mem_map.mp hn
    exact hcalls r (Finset.mem_range.mp hr) call hcall
  have hweight : s.servingWeight id = 0 := by
    unfold StorageRun.servingWeight
    cases hsome : s.serving with
    | none => rfl
    | some serving =>
      obtain ⟨hupdate, hhanded⟩ := hserving serving hsome
      refine Nat.add_eq_zero_iff.mpr ⟨sum_eq_zero fun n hn => ?_, sum_eq_zero fun n hn => ?_⟩
      · obtain ⟨item, hitem, rfl⟩ := mem_map.mp hn
        exact hupdate item hitem
      · obtain ⟨x, hx, rfl⟩ := mem_map.mp hn
        exact hhanded x hx
  unfold StorageRun.pending
  rw [hweight, Finset.sum_eq_zero hsum]
  rfl

/-- A step that leaves the storage and what is pending. -/
theorem StorageInv.same (h : StorageInv s l) (hstorage : s'.storage = s.storage)
    (hpending : ∀ id, s'.pending id = s.pending id) (hholds : ∀ x, s'.Holds x → s.Holds x)
    (htouched : ∀ serving, s'.serving = some serving → ∀ item ∈ serving.toUpdate, ∀ id,
      item.2 = some id → ∃ address, s.storage.keyIndex.get? item.1.1 = some (address, id)) :
    StorageInv s' l := by
  refine ⟨?_, ?_, fun c hc => ?_, fun x hx => ?_, ?_⟩
  · rw [hstorage]
    exact h.readers
  · rw [hstorage]
    exact h.store
  · rw [hstorage, hpending]
    exact h.counts c hc
  · rw [hstorage]
    exact h.holds x (hholds x hx)
  · rw [hstorage]
    exact htouched

theorem StorageInv.live (h : StorageInv s l) (hnot : ∀ c ∈ l, c.id ≠ id) : s.pending id = 0 := by
  have hheld : ∀ x, s.Holds x → x.id ≠ id := by
    intro x hx
    obtain ⟨c, hc, hid, -⟩ := h.holds x hx
    rw [← hid]
    exact hnot c hc
  refine pending_eq_zero (fun r hr call hcall => ?_) fun serving hserving =>
    ⟨fun item hitem => if_neg fun htouched => ?_, fun x hx => ?_⟩
  · cases call with
    | touch x => exact if_neg fun hx => hheld x (.inl ⟨r, hr, .inr ⟨hcall, hx.2⟩⟩) hx.1
    | get x => exact if_neg fun hx => hheld x (.inl ⟨r, hr, .inl hcall⟩) hx
  · obtain ⟨address, hget⟩ := h.touched serving hserving item hitem id htouched
    obtain ⟨-, c, hc, hid, -⟩ := h.store.keys _ _ _ hget
    exact hnot c hc hid
  · have hne := hheld x (.inr ⟨serving, hserving, hx⟩)
    exact Nat.add_eq_zero_iff.mpr ⟨if_neg fun hx => hne hx.1, if_neg hne⟩

theorem pending_pos (hreaders : 0 < s.storage.nReaders) {h : Handout} (hheld : s.Holds h) :
    0 < s.pending h.id := by
  rcases hheld with ⟨r, hr, hcall⟩ | ⟨serving, hserving, hhanded⟩
  · have hle : callsWeight h.id (s.calls r) ≤
        ∑ r ∈ Finset.range s.storage.nReaders, callsWeight h.id (s.calls r) :=
      Finset.single_le_sum (f := fun r => callsWeight h.id (s.calls r)) (fun _ _ => Nat.zero_le _)
        (Finset.mem_range.mpr hr)
    have hpos : 1 ≤ callsWeight h.id (s.calls r) := by
      rcases hcall with hget | ⟨htouch, htouched⟩
      · have hone : ReaderCall.weight h.id (.get h) = 1 := if_pos rfl
        exact single_le_sum (fun _ _ => Nat.zero_le _) 1 (mem_map.mpr ⟨_, hget, hone⟩)
      · have hone : ReaderCall.weight h.id (.touch h) = 1 := if_pos ⟨rfl, htouched⟩
        exact single_le_sum (fun _ _ => Nat.zero_le _) 1 (mem_map.mpr ⟨_, htouch, hone⟩)
    unfold StorageRun.pending
    omega
  · have hone : ReaderCall.weight h.id (.get h) = 1 := if_pos rfl
    have hle : Handout.weight h.id h ≤ (serving.handed.map (Handout.weight h.id)).sum :=
      single_le_sum (fun _ _ => Nat.zero_le _) _ (mem_map_of_mem hhanded)
    have hpos : 0 < s.servingWeight h.id := by
      unfold StorageRun.servingWeight Serving.weight
      rw [hserving]
      unfold Handout.weight at hle
      dsimp only [Option.elim_some]
      unfold Handout.weight
      omega
    exact Nat.add_pos_right _ (Nat.mul_pos hreaders hpos)

theorem StorageInv.free_iff (h : StorageInv s l) (hc : c ∈ l) :
    s.storage.defaultIsFreeCheck c.id (s.storage.ringBuffer.accessData c.address) = true ↔
      s.pending c.id = 0 := by
  obtain ⟨w, n, hflag, hcount, heq⟩ := h.counts c hc
  unfold RingBuffer.readerCount at hcount
  unfold ObjectStorage.defaultIsFreeCheck
  rw [hflag]
  have hcast : (w : Int) * s.storage.nReaders = n + s.pending c.id := by exact_mod_cast heq
  rw [decide_eq_true_eq]
  omega

/-! ## The sender -/

theorem increment_store (h : StoreInv st l) (hc : c ∈ l) :
    StoreInv (st.incrementWriterFlag c.id) l := by
  refine ⟨⟨h.indexed, h.keys, fun c' hc' => ?_, fun id w hget => ?_⟩, h.ring, h.large⟩
  · rcases eq_or_ne c'.id c.id with heq | hne
    · exact ⟨_, (get?_set ..).trans (if_pos heq)⟩
    · obtain ⟨w, hw⟩ := h.flagged c' hc'
      exact ⟨w, (get?_set_of_ne _ _ hne).trans hw⟩
  · rcases eq_or_ne id c.id with rfl | hne
    · exact ⟨c, hc, rfl⟩
    · exact h.flags id w ((get?_set_of_ne _ _ hne).symm.trans hget)

/-- The writer counts a use of the chunk `c`, and each reader has one more to count. -/
theorem StorageInv.bump (h : StorageInv s l) (hc : c ∈ l)
    (hstorage : s'.storage = s.storage.incrementWriterFlag c.id) (hcalls : s'.calls = s.calls)
    (hweight : ∀ id, s'.servingWeight id = s.servingWeight id + if id = c.id then 1 else 0)
    (hholds : ∀ x, s'.Holds x → s.Holds x ∨ (c.id = x.id ∧ c.address = x.address ∧
      s.storage.ringBuffer.object c.address = x.object))
    (htouched : ∀ serving, s'.serving = some serving → ∀ item ∈ serving.toUpdate, ∀ id,
      item.2 = some id → ∃ address, s.storage.keyIndex.get? item.1.1 = some (address, id)) :
    StorageInv s' l := by
  have hreaders : s'.storage.nReaders = s.storage.nReaders := by
    rw [hstorage]
    rfl
  have hkeys : s'.storage.keyIndex = s.storage.keyIndex := by
    rw [hstorage]
    rfl
  have hring : s'.storage.ringBuffer = s.storage.ringBuffer := by
    rw [hstorage]
    rfl
  refine ⟨?_, ?_, fun c' hc' => ?_, fun x hx => ?_, fun serving hserving item hitem id hid => ?_⟩
  · rw [hreaders]
    exact h.readers
  · rw [hstorage]
    exact increment_store h.store hc
  · obtain ⟨w, n, hflag, hcount, heq⟩ := h.counts c' hc'
    have hpending := pending_serving hcalls hreaders (hweight c'.id)
    rw [hring, hreaders, hpending]
    by_cases hsame : c'.id = c.id
    · refine ⟨w + 1, n, ?_, hcount, ?_⟩
      · rw [hstorage, hsame]
        rw [hsame] at hflag
        exact (get?_set_self ..).trans (congrArg (fun o => some (o.getD 0 + 1)) hflag)
      · rw [if_pos hsame, Nat.succ_mul, heq, mul_one, add_assoc]
    · refine ⟨w, n, ?_, hcount, ?_⟩
      · rw [hstorage]
        exact (get?_set_of_ne _ _ hsame).trans hflag
      · rw [if_neg hsame, Nat.mul_zero, add_zero, heq]
  · rw [hring]
    rcases hholds x hx with hold | hnew
    · exact h.holds x hold
    · exact ⟨c, hc, hnew⟩
  · rw [hkeys]
    exact htouched serving hserving item hitem id hid

theorem StoreInv.chunk (h : StoreInv st l) {key : String} {address : Int}
    (hget : st.keyIndex.get? key = some (address, id)) :
    ∃ c ∈ l, c.id = id ∧ c.address = address := (h.keys key address id hget).2

theorem touch_step {item : String × List UInt8} {rest : List (String × List UInt8)}
    (h : StorageInv s l) (hserving : s.serving = some serving) :
    StorageInv (s.touch item rest serving) l := by
  have hweight : ∀ id, (s.touch item rest serving).servingWeight id = s.servingWeight id +
      itemWeight id (item, (s.storage.keyIndex.get? item.1).map Prod.snd) := by
    intro id
    unfold StorageRun.servingWeight
    rw [hserving]
    show ((serving.toUpdate ++ [_]).map (itemWeight id)).sum + _ = _ + _ + _
    rw [map_append, sum_append]
    exact add_right_comm _ _ _
  have hheld : ∀ x, (s.touch item rest serving).storage.nReaders = s.storage.nReaders →
      (s.touch item rest serving).Holds x → s.Holds x := by
    rintro x hreaders (⟨r, hr, hcall⟩ | ⟨serving', hserving', hx⟩)
    · exact .inl ⟨r, hreaders ▸ hr, hcall⟩
    · cases hserving'
      exact .inr ⟨serving, hserving, hx⟩
  have hmem : ∀ serving', (s.touch item rest serving).serving = some serving' →
      ∀ item' ∈ serving'.toUpdate, ∀ id, item'.2 = some id →
        ∃ address, s.storage.keyIndex.get? item'.1.1 = some (address, id) := by
    intro serving' hserving' item' hitem' id hid
    cases hserving'
    rcases mem_append.mp hitem' with hold | hnew
    · exact h.touched serving hserving item' hold id hid
    · rw [mem_singleton.mp hnew] at hid ⊢
      obtain ⟨⟨address, id'⟩, hget, rfl⟩ := Option.map_eq_some_iff.mp hid
      exact ⟨address, hget⟩
  cases hget : s.storage.keyIndex.get? item.1 with
  | none =>
    have hstorage : (s.touch item rest serving).storage = s.storage := by
      show s.storage.touch item.1 = _
      unfold ObjectStorage.touch
      rw [hget]
    refine h.same hstorage (fun id => ?_) (fun x => hheld x (congrArg _ hstorage)) hmem
    refine pending_serving (d := 0) rfl (congrArg ObjectStorage.nReaders hstorage) ?_
    rw [hweight, hget]
    rfl
  | some entry =>
    obtain ⟨address, id⟩ := entry
    obtain ⟨c, hc, rfl, rfl⟩ := h.store.chunk hget
    have hstorage : (s.touch item rest serving).storage = s.storage.incrementWriterFlag c.id := by
      show s.storage.touch item.1 = _
      unfold ObjectStorage.touch
      rw [hget]
    refine h.bump hc hstorage rfl (fun id => ?_) (fun x hx => .inl (hheld x ?_ hx)) hmem
    · rw [hweight, hget]
      congr 1
      exact if_congr (Option.some_inj.trans eq_comm) rfl rfl
    · rw [hstorage]
      rfl

/-- The state after the update of an item. -/
def StorageRun.updated (s : StorageRun) (serving : Serving) (storage : ObjectStorage)
    (rest : List ((String × List UInt8) × Option Nat)) (handed : List Handout) : StorageRun :=
  { s with
    storage
    serving := some { serving with toUpdate := rest, handed := serving.handed ++ handed } }

theorem servingWeight_updated {handed : List Handout} (hserving : s.serving = some serving)
    (hitem : serving.toUpdate = item :: rest) (storage : ObjectStorage)
    (hd : (handed.map (Handout.weight id)).sum = itemWeight id item + d) :
    (s.updated serving storage rest handed).servingWeight id = s.servingWeight id + d := by
  unfold StorageRun.servingWeight
  rw [hserving]
  show (rest.map (itemWeight id)).sum + ((serving.handed ++ handed).map (Handout.weight id)).sum =
    (serving.toUpdate.map (itemWeight id)).sum + (serving.handed.map (Handout.weight id)).sum + d
  rw [hitem, map_append, sum_append, map_cons, sum_cons]
  omega

theorem holds_updated {storage : ObjectStorage} {handed : List Handout} {x : Handout}
    (hx : (s.updated serving storage rest handed).Holds x) (hserving : s.serving = some serving)
    (hreaders : storage.nReaders = s.storage.nReaders) : s.Holds x ∨ x ∈ handed := by
  rcases hx with ⟨r, hr, hcall⟩ | ⟨serving', hserving', hx⟩
  · exact .inl (.inl ⟨r, hreaders ▸ hr, hcall⟩)
  · cases hserving'
    rcases mem_append.mp hx with hold | hnew
    · exact .inl (.inr ⟨serving, hserving, hold⟩)
    · exact .inr hnew

theorem StorageInv.kept (h : StorageInv s l) {k : Nat} (hkept : Kept s.storage l k st) (hc : c ∈ l)
    (hpos : s.pending c.id ≠ 0) : c ∈ l.drop k := by
  rw [← take_append_drop k l] at hc
  rcases mem_append.mp hc with htake | hdrop
  · have hfree := hkept.free c htake
    exact absurd ((h.free_iff (mem_of_mem_take htake)).mp hfree) hpos
  · exact hdrop

section

variable (h : StorageInv s l) (hserving : s.serving = some serving)
include h hserving

theorem StorageInv.touched_pos (hitem : item ∈ serving.toUpdate) (hid : item.2 = some id) :
    s.pending id ≠ 0 := by
  have hone : itemWeight id item = 1 := if_pos hid
  have hle : itemWeight id item ≤ (serving.toUpdate.map (itemWeight id)).sum :=
    single_le_sum (fun _ _ => Nat.zero_le _) _ (mem_map_of_mem hitem)
  have hpos : 0 < s.servingWeight id := by
    unfold StorageRun.servingWeight
    rw [hserving]
    show 0 < (serving.toUpdate.map (itemWeight id)).sum + _
    omega
  exact (Nat.add_pos_right _ (Nat.mul_pos h.readers hpos)).ne'

theorem update_step (hitem : serving.toUpdate = item :: rest)
    (hfits : s.storage.PutFits item.1.1 item.1.2) :
    ∃ l', StorageInv (s.update item rest serving) l' := by
  have hrest : ∀ item' ∈ rest, item' ∈ serving.toUpdate := fun item' hitem' => by
    rw [hitem]
    exact mem_cons_of_mem _ hitem'
  cases hget : s.storage.keyIndex.get? item.1.1 with
  | some entry =>
    obtain ⟨address, id⟩ := entry
    obtain ⟨c, hc, rfl, rfl⟩ := h.store.chunk hget
    -- a key that was touched has still its object
    have hsame : ∀ id, item.2 = some id → id = c.id := by
      intro id hid
      obtain ⟨address, hget'⟩ := h.touched serving hserving item (hitem ▸ mem_cons_self) id hid
      rw [hget] at hget'
      cases hget'
      rfl
    have heq : s.update item rest serving = s.updated serving
        (s.storage.incrementWriterFlag c.id) rest
        [⟨c.address, c.id, item.2.isSome, s.storage.ringBuffer.object c.address⟩] := by
      unfold StorageRun.update ObjectStorage.getAndUpdateItem
      rw [hget]
      rfl
    rw [heq]
    refine ⟨l, h.bump hc rfl rfl (fun id => ?_) (fun x hx => ?_) ?_⟩
    · refine servingWeight_updated hserving hitem _ ?_
      rw [map_singleton, sum_singleton]
      show (if c.id = id ∧ item.2.isSome = true then 1 else 0) + (if c.id = id then 1 else 0) =
        (if item.2 = some id then 1 else 0) + if id = c.id then 1 else 0
      cases hsome : item.2 with
      | none =>
        simp only [Option.isSome_none, Bool.false_eq_true, and_false, if_false, reduceCtorEq]
        exact congrArg (0 + ·) (if_congr eq_comm rfl rfl)
      | some id' =>
        rw [hsame id' hsome]
        refine congrArg₂ (· + ·) (if_congr ?_ rfl rfl) (if_congr eq_comm rfl rfl)
        exact ⟨fun hx => congrArg some hx.1, fun hx => ⟨Option.some.inj hx, rfl⟩⟩
    · rcases holds_updated hx hserving rfl with hold | hnew
      · exact .inl hold
      · rw [mem_singleton.mp hnew]
        exact .inr ⟨rfl, rfl, rfl⟩
    · intro serving' hserving' item' hitem' id hid
      cases hserving'
      exact h.touched serving hserving item' (hrest item' hitem') id hid
  | none =>
    have hnone : item.2 = none := by
      cases hsome : item.2 with
      | none => rfl
      | some id =>
        obtain ⟨address, hget'⟩ := h.touched serving hserving item (hitem ▸ mem_cons_self) id hsome
        rw [hget] at hget'
        cases hget'
    have hzero : ∀ id, itemWeight id item = 0 := fun id => if_neg fun hx => by
      rw [hnone] at hx
      cases hx
    -- the keys that were touched keep their objects
    have hkeep : ∀ {k : Nat} {s1 st : ObjectStorage} {l' : List Chunk}, Kept s.storage l k s1 →
        StoreInv st l' → (∀ c ∈ l.drop k, c ∈ l') →
        (∀ c ∈ l.drop k, st.idIndex.get? c.id = s.storage.idIndex.get? c.id) →
        ∀ item' ∈ rest, ∀ id, item'.2 = some id →
          ∃ address, st.keyIndex.get? item'.1.1 = some (address, id) := by
      intro k s1 st l' hkept hst hsub hindex item' hitem' id hid
      obtain ⟨address, hget'⟩ := h.touched serving hserving item' (hrest item' hitem') id hid
      obtain ⟨hold, c, hc, rfl, -⟩ := h.store.keys _ _ _ hget'
      have hdrop := h.kept hkept hc (h.touched_pos hserving (hrest item' hitem') hid)
      obtain ⟨key, hnew, hkey⟩ := hst.indexed c (hsub c hdrop)
      rw [hindex c hdrop, hold] at hnew
      cases hnew
      exact ⟨c.address, hkey⟩
    cases put_inv h.store hget hfits with
    | refused k e st hput he hinv hkept =>
      have heq : s.update item rest serving = s.updated serving st rest [] := by
        unfold StorageRun.update StorageRun.updated ObjectStorage.getAndUpdateItem
        rw [hget]
        dsimp only
        rw [hput, append_nil]
        rcases he with ⟨msg, rfl⟩ | ⟨msg, rfl⟩ <;> rfl
      rw [heq]
      refine ⟨l.drop k, ?_, hinv, fun c hc => ?_, fun x hx => ?_, ?_⟩
      · show 0 < st.nReaders
        rw [hkept.nReaders]
        exact h.readers
      · have hpending : (s.updated serving st rest []).pending c.id = s.pending c.id :=
          pending_serving (d := 0) rfl hkept.nReaders
            (servingWeight_updated hserving hitem st (by rw [hzero]; rfl))
        rw [hpending]
        show ∃ w n : Nat, st.writerFlag.get? c.id = some w ∧
          st.ringBuffer.readerCount c.address = n ∧ w * st.nReaders = n + s.pending c.id
        rw [hkept.flags c hc, hkept.counts c hc, hkept.nReaders]
        exact h.counts c (mem_of_mem_drop hc)
      · rcases holds_updated hx hserving hkept.nReaders with hold | hnew
        · obtain ⟨c, hc, hid, haddress, hobject⟩ := h.holds x hold
          have hdrop := h.kept hkept hc (hid ▸ (pending_pos h.readers hold).ne')
          exact ⟨c, hdrop, hid, haddress, (hkept.objects c hdrop).trans hobject⟩
        · cases hnew
      · intro serving' hserving' item' hitem' id hid
        cases hserving'
        exact hkeep hkept hinv (fun _ hc => hc) hkept.idIndex item' hitem' id hid
    | stored k s1 st c hput hkept hstored =>
      have heq : s.update item rest serving = s.updated serving st rest
          [⟨c.address, c.id, item.2.isSome, st.ringBuffer.object c.address⟩] := by
        unfold StorageRun.update ObjectStorage.getAndUpdateItem
        rw [hget]
        dsimp only
        rw [hput]
        rfl
      have hreaders : st.nReaders = s.storage.nReaders := hstored.nReaders.trans hkept.nReaders
      have hnodup := hstored.inv.ring.ids_nodup
      rw [map_append, nodup_append] at hnodup
      have hne : ∀ c' ∈ l.drop k, c'.id ≠ c.id := fun c' hc' =>
        hnodup.2.2 _ (mem_map_of_mem hc') _ (mem_singleton.mpr rfl)
      -- nothing is pending for the new id
      have hfresh : s.pending c.id = 0 := by
        by_contra hpos
        refine hpos (h.live fun c' hc' hid => ?_)
        exact hne c' (h.kept hkept hc' (hid ▸ hpos)) hid
      rw [heq]
      have hpending : ∀ id, (s.updated serving st rest [⟨c.address, c.id, item.2.isSome,
          st.ringBuffer.object c.address⟩]).pending id = s.pending id + s.storage.nReaders * if c.id = id then 1 else 0 := by
        intro id
        refine pending_serving rfl hreaders (servingWeight_updated hserving hitem st ?_)
        rw [hzero, map_singleton, sum_singleton, hnone]
        refine congrArg (· + _) (if_neg fun hx => ?_)
        exact absurd hx.2 Bool.false_ne_true
      refine ⟨l.drop k ++ [c], ?_, hstored.inv, fun c' hc' => ?_, fun x hx => ?_, ?_⟩
      · show 0 < st.nReaders
        rw [hreaders]
        exact h.readers
      · rw [hpending]
        show ∃ w n : Nat, st.writerFlag.get? c'.id = some w ∧
          st.ringBuffer.readerCount c'.address = n ∧ w * st.nReaders = n + _
        rw [hreaders]
        rcases mem_append.mp hc' with hc' | hc'
        · rw [hstored.flags c' hc', hkept.flags c' hc', hstored.counts c' hc', hkept.counts c' hc',
            if_neg (hne c' hc').symm, Nat.mul_zero]
          exact h.counts c' (mem_of_mem_drop hc')
        · rw [mem_singleton.mp hc', if_pos rfl, hfresh]
          exact ⟨1, 0, hstored.flag, hstored.count, by omega⟩
      · rcases holds_updated hx hserving hreaders with hold | hnew
        · obtain ⟨c', hc', hid, haddress, hobject⟩ := h.holds x hold
          have hdrop := h.kept hkept hc' (hid ▸ (pending_pos h.readers hold).ne')
          refine ⟨c', mem_append_left _ hdrop, hid, haddress, ?_⟩
          exact (hstored.objects c' hdrop).trans ((hkept.objects c' hdrop).trans hobject)
        · rw [mem_singleton.mp hnew]
          exact ⟨c, mem_append_right _ (mem_singleton.mpr rfl), rfl, rfl, rfl⟩
      · intro serving' hserving' item' hitem' id hid
        cases hserving'
        refine hkeep hkept hstored.inv (fun _ hc => mem_append_left _ hc)
          (fun c' hc' => ?_) item' hitem' id hid
        exact (hstored.idIndex c' hc').trans (hkept.idIndex c' hc')

theorem send_step (hupdate : serving.toUpdate = []) : StorageInv (s.send serving.handed) l := by
  refine h.same rfl (pending_send hserving hupdate) (fun x hx => ?_) fun _ hnone => ?_
  · rcases hx with ⟨r, hr, hcall⟩ | ⟨serving', hserving', -⟩
    · have hmem : ∀ call ∈ (s.send serving.handed).calls r, call ∈ s.calls r ∨
          ∃ y ∈ serving.handed, call = .touch y ∨ call = .get y := by
        intro call hcall
        rcases mem_append.mp hcall with hold | hnew
        · exact .inl hold
        · rcases mem_append.mp hnew with htouch | hget
          · obtain ⟨y, hy, rfl⟩ := mem_map.mp htouch
            exact .inr ⟨y, hy, .inl rfl⟩
          · obtain ⟨y, hy, rfl⟩ := mem_map.mp hget
            exact .inr ⟨y, hy, .inr rfl⟩
      have hnew : ∀ call, (∃ y ∈ serving.handed, call = ReaderCall.touch y ∨ call = .get y) →
          call = .touch x ∨ call = .get x → s.Holds x := by
        rintro call ⟨y, hy, rfl | rfl⟩ (hx | hx) <;> cases hx <;>
          exact .inr ⟨serving, hserving, hy⟩
      rcases hcall with hget | ⟨htouch, htouched⟩
      · rcases hmem _ hget with hold | hhanded
        · exact .inl ⟨r, hr, .inl hold⟩
        · exact hnew _ hhanded (.inr rfl)
      · rcases hmem _ htouch with hold | hhanded
        · exact .inl ⟨r, hr, .inr ⟨hold, htouched⟩⟩
        · exact hnew _ hhanded (.inl rfl)
    · cases hserving'
  · cases hnone

end

/-! ## The readers -/

theorem holds_read {x : Handout} (hx : (s.read r i call).Holds x) : s.Holds x := by
  have hmem : ∀ r' call', call' ∈ (s.read r i call).calls r' → call' ∈ s.calls r' := by
    intro r' call' hcall'
    have hcall' : call' ∈ if r' = r then (s.calls r).eraseIdx i else s.calls r' := hcall'
    split at hcall'
    · rename_i hr
      rw [hr]
      exact mem_of_mem_eraseIdx hcall'
    · exact hcall'
  rcases hx with ⟨r', hr', hcall' | ⟨hcall', htouched⟩⟩ | hserving
  · exact .inl ⟨r', hr', .inl (hmem r' _ hcall')⟩
  · exact .inl ⟨r', hr', .inr ⟨hmem r' _ hcall', htouched⟩⟩
  · exact .inr hserving

theorem StorageInv.counted (h : StorageInv s l) (hc : c ∈ l) (hr : r < s.storage.nReaders)
    (hcall : (s.calls r)[i]? = some call)
    (hcounted : Counted s.storage.ringBuffer l c (s.read r i call).storage.ringBuffer)
    (hweight : ∀ id, call.weight id = if c.id = id then 1 else 0) :
    StorageInv (s.read r i call) l := by
  refine ⟨h.readers, ⟨⟨h.store.indexed, h.store.keys, h.store.flagged, h.store.flags⟩, hcounted.inv,
    h.store.large⟩, fun c' hc' => ?_, fun x hx => ?_, h.touched⟩
  · obtain ⟨w, n, hflag, hcount, heq⟩ := h.counts c' hc'
    have hpending := pending_read hr hcall c'.id
    rw [hweight] at hpending
    rcases eq_or_ne c' c with rfl | hne
    · rw [if_pos rfl] at hpending
      refine ⟨w, n + 1, hflag, ?_, ?_⟩
      · rw [hcounted.count, hcount]
        rfl
      · show w * s.storage.nReaders = _
        omega
    · have hid : c.id ≠ c'.id := fun hid =>
        hne (inj_on_of_nodup_map h.store.ring.ids_nodup hc' hc hid.symm)
      rw [if_neg hid, add_zero] at hpending
      refine ⟨w, n, hflag, ?_, ?_⟩
      · rw [hcounted.counts c' hc' hne, hcount]
      · show w * s.storage.nReaders = _
        rw [heq, hpending]
  · obtain ⟨c', hc', hid, haddress, hobject⟩ := h.holds x (holds_read hx)
    exact ⟨c', hc', hid, haddress, (hcounted.objects c' hc').trans hobject⟩

theorem StorageInv.uncounted (h : StorageInv s l) (hr : r < s.storage.nReaders)
    (hcall : (s.calls r)[i]? = some call)
    (hsame : (s.read r i call).storage.ringBuffer = s.storage.ringBuffer)
    (hweight : ∀ id, call.weight id = 0) : StorageInv (s.read r i call) l := by
  have hstorage : (s.read r i call).storage = s.storage :=
    congrArg (fun ringBuffer => { s.storage with ringBuffer }) hsame
  refine h.same hstorage (fun id => ?_) (fun _ => holds_read) h.touched
  have hpending := pending_read hr hcall id
  rwa [hweight, add_zero] at hpending

theorem read_touch (s : StorageRun) (r i : Nat) (x : Handout) :
    (s.read r i (.touch x)).storage.ringBuffer =
      (s.storage.ringBuffer.touch s.storage.nReaders x.address).2 := by
  unfold StorageRun.read
  dsimp only

theorem read_get (s : StorageRun) (r i : Nat) (x : Handout) :
    (s.read r i (.get x)).storage.ringBuffer = (s.storage.ringBuffer.get x.address x.id).2 := by
  unfold StorageRun.read
  dsimp only

theorem read_step (h : StorageInv s l) (hr : r < s.storage.nReaders)
    (hcall : (s.calls r)[i]? = some call) (hsynced : StorageEvent.Synced s (.read r i)) :
    StorageInv (s.read r i call) l := by
  have hmem : call ∈ s.calls r := mem_of_getElem? hcall
  unfold StorageEvent.Synced at hsynced
  dsimp only at hsynced
  rw [hcall] at hsynced
  cases call with
  | touch x =>
    obtain ⟨htouched, hword⟩ := hsynced
    by_cases hx : x.touched = true
    · obtain ⟨c, hc, hid, haddress, -⟩ := h.holds x (.inl ⟨r, hr, .inr ⟨hmem, hx⟩⟩)
      obtain ⟨w, n, -, hcount, -⟩ := h.counts c hc
      have hword := hword hx
      have htouched := htouched.mp hx
      rw [← haddress] at hword
      have hcounted := (increment_inv h.store.ring h.store.large hc hcount (by omega)).2
      refine h.counted hc hr hcall ?_ fun id => ?_
      · rw [read_touch]
        unfold RingBuffer.touch
        rw [if_pos htouched, ← haddress]
        exact hcounted
      · rw [hid]
        exact if_congr (and_iff_left hx) rfl rfl
    · refine h.uncounted hr hcall ?_ fun id => if_neg fun hboth => hx hboth.2
      rw [read_touch]
      unfold RingBuffer.touch
      rw [if_neg fun hge => hx (htouched.mpr hge)]
  | get x =>
    obtain ⟨c, hc, hid, haddress, -⟩ := h.holds x (.inl ⟨r, hr, .inl hmem⟩)
    obtain ⟨w, n, -, hcount, -⟩ := h.counts c hc
    dsimp only at hsynced
    rw [← haddress] at hsynced
    have hcounted := (get_inv h.store.ring h.store.large hc hcount (by omega)).2
    refine h.counted hc hr hcall ?_ fun id => ?_
    · rw [read_get, ← haddress, ← hid]
      exact hcounted
    · rw [hid]
      rfl

/-! ## Runs -/

theorem exec_step {e : StorageEvent} (h : StorageInv s l) (hsynced : e.Synced s)
    (hexec : s.exec e = some s') : ∃ l', StorageInv s' l' := by
  cases e with
  | request items =>
    unfold StorageRun.exec at hexec
    dsimp only at hexec
    split at hexec
    · rename_i hserving
      cases hexec
      refine ⟨l, h.same rfl (fun id => ?_) (fun x hx => ?_) fun serving hsome item hitem => ?_⟩
      · refine pending_serving (s := s) (d := 0) rfl rfl ?_
        unfold StorageRun.servingWeight
        rw [hserving]
        rfl
      · rcases hx with hcall | ⟨serving, hsome, hx⟩
        · exact .inl hcall
        · cases hsome
          cases hx
      · cases hsome
        cases hitem
    · cases hexec
  | touch =>
    unfold StorageRun.exec at hexec
    dsimp only at hexec
    split at hexec
    · rename_i serving hserving
      split at hexec
      · cases hexec
        exact ⟨l, touch_step h hserving⟩
      · cases hexec
    · cases hexec
  | update =>
    unfold StorageRun.exec at hexec
    dsimp only at hexec
    split at hexec
    · rename_i serving hserving
      split at hexec
      · rename_i item rest htouch hupdate
        cases hexec
        refine update_step h hserving hupdate ?_
        unfold StorageEvent.Synced at hsynced
        rw [hserving] at hsynced
        obtain ⟨toTouch, toUpdate, handed⟩ := serving
        cases hupdate
        exact hsynced
      · cases hexec
    · cases hexec
  | send =>
    unfold StorageRun.exec at hexec
    dsimp only at hexec
    split at hexec
    · rename_i serving hserving
      split at hexec
      · rename_i htouch hupdate
        cases hexec
        exact ⟨l, send_step h hserving hupdate⟩
      · cases hexec
    · cases hexec
  | read r i =>
    unfold StorageRun.exec at hexec
    dsimp only at hexec
    split at hexec
    · rename_i hr
      obtain ⟨call, hcall, rfl⟩ := Option.map_eq_some_iff.mp hexec
      exact ⟨l, read_step h hr hcall hsynced⟩
    · cases hexec

/-- What the storage promises. -/
structure StorageSound (s : StorageRun) : Prop where
  /-- An object is there until each reader has got it, as often as its address was handed out. -/
  there : ∀ r < s.storage.nReaders, ∀ h, .get h ∈ s.calls r →
    s.storage.ringBuffer.metadata.get? h.id = some h.address ∧
    (s.storage.ringBuffer.accessMetadata h.address).1 = h.id ∧
    s.storage.ringBuffer.object h.address = h.object
  /-- It is not free until then. -/
  used : ∀ r < s.storage.nReaders, ∀ h, .get h ∈ s.calls r →
    s.storage.defaultIsFreeCheck h.id (s.storage.ringBuffer.accessData h.address) = false
  /-- An object that no call needs any more, nor the request that is served, is free. -/
  free : ∀ id address, s.storage.ringBuffer.metadata.get? id = some address →
    (∀ r < s.storage.nReaders, ∀ h, (.touch h ∈ s.calls r ∨ .get h ∈ s.calls r) → h.id ≠ id) →
    (∀ serving, s.serving = some serving → (∀ item ∈ serving.toUpdate, item.2 ≠ some id) ∧
      ∀ h ∈ serving.handed, h.id ≠ id) →
    s.storage.defaultIsFreeCheck id (s.storage.ringBuffer.accessData address) = true
  flagged : ∀ id address, s.storage.ringBuffer.metadata.get? id = some address →
    ∃ w, s.storage.writerFlag.get? id = some w

theorem StorageInv.sound (h : StorageInv s l) : StorageSound s where
  there r hr x hx := by
    obtain ⟨c, hc, hid, haddress, hobject⟩ := h.holds x (.inl ⟨r, hr, .inl hx⟩)
    rw [← hid, ← haddress]
    exact ⟨(h.store.ring.metadata _ _).mpr ⟨c, hc, rfl, rfl⟩,
      congrArg Prod.fst (h.store.ring.headers c hc), hobject⟩
  used r hr x hx := by
    have hheld : s.Holds x := .inl ⟨r, hr, .inl hx⟩
    obtain ⟨c, hc, hid, haddress, -⟩ := h.holds x hheld
    rw [← hid, ← haddress, Bool.eq_false_iff]
    intro hfree
    have hzero := (h.free_iff hc).mp hfree
    rw [hid] at hzero
    exact (pending_pos h.readers hheld).ne' hzero
  free id address hget hcalls hserving := by
    obtain ⟨c, hc, rfl, rfl⟩ := (h.store.ring.metadata _ _).mp hget
    refine (h.free_iff hc).mpr (pending_eq_zero (fun r hr call hcall => ?_) fun serving hsome => ?_)
    · cases call with
      | touch x => exact if_neg fun hx => hcalls r hr x (.inl hcall) hx.1
      | get x => exact if_neg (hcalls r hr x (.inr hcall))
    · obtain ⟨hupdate, hhanded⟩ := hserving serving hsome
      refine ⟨fun item hitem => if_neg (hupdate item hitem), fun x hx => ?_⟩
      have hne := hhanded x hx
      exact Nat.add_eq_zero_iff.mpr ⟨if_neg fun hx => hne hx.1, if_neg hne⟩
  flagged id address hget := by
    obtain ⟨c, hc, rfl, -⟩ := (h.store.ring.metadata _ _).mp hget
    exact h.store.flagged c hc

/-- In every run whose readers count the touches that the writer has counted, an object is there until
every reader has made every `get` of it, and free after that. -/
theorem storage_sound (dataBufferSize maxObjectSize nReaders : Nat) :
    (storageRuns dataBufferSize maxObjectSize nReaders fun s e => e.Synced s).Invariant
      StorageSound := by
  have hinv : (storageRuns dataBufferSize maxObjectSize nReaders fun s e => e.Synced s).Invariant
      fun s => ∃ l, StorageInv s l := by
    refine TSys.Inductive.invariant ⟨?_, ?_⟩
    · rintro s ⟨hD, hn, buf, rfl⟩
      refine ⟨[], hn, ⟨⟨fun c hc => (nomatch hc), fun key address id hget => (nomatch hget),
        fun c hc => (nomatch hc), fun id w hget => (nomatch hget)⟩, new_inv buf hD,
        fun c hc => (nomatch hc)⟩, fun c hc => (nomatch hc), ?_, fun serving hsome => (nomatch hsome)⟩
      rintro x (⟨r, -, hx | ⟨hx, -⟩⟩ | ⟨serving, hsome, -⟩)
      · cases hx
      · cases hx
      · cases hsome
    · rintro s s' ⟨l, h⟩ ⟨e, hsynced, hexec⟩
      exact exec_step h hsynced hexec
  intro s hs
  obtain ⟨l, h⟩ := hinv s hs
  exact h.sound

theorem reachable_run {dataBufferSize maxObjectSize nReaders : Nat} {events : List StorageEvent}
    (hs : (storageRuns dataBufferSize maxObjectSize nReaders fun _ _ => True).Reachable s)
    (h : events.foldlM StorageRun.exec s = some s') :
    (storageRuns dataBufferSize maxObjectSize nReaders fun _ _ => True).Reachable s' := by
  induction events generalizing s with
  | nil =>
    cases h
    exact hs
  | cons e events ih =>
    obtain ⟨s1, hstep, h⟩ := Option.bind_eq_some_iff.mp h
    exact ih (.step hs ⟨e, trivial, hstep⟩) h

/-- Two readers and a buffer of 64 bytes. -/
def twoReaders : StorageRun where
  storage := { maxObjectSize := 44, nReaders := 2, ringBuffer := { dataBufferSize := 64, buf := fun _ => 0 } }

/-- A request has a new item twice. One reader makes all its calls, the other touches the item. Then
the object is free, and another one takes its place. -/
def earlyFree : List StorageEvent :=
  [.request [("a", [7]), ("a", [7])], .touch, .touch, .update, .update, .send,
    .read 0 0, .read 0 0, .read 0 0, .read 0 0, .read 1 0, .read 1 0,
    .request [("b", List.replicate 40 1)], .touch, .update]

/-- The second reader has still to get the object, and its `get` raises. -/
def getRaises (s : StorageRun) : Bool :=
  (s.calls 1).contains (.get ⟨0, 0, false, [7]⟩) && match (s.storage.ringBuffer.get 0 0).1 with
    | .error (.ValueError _) => true
    | _ => false

theorem get_fails : ∃ s, (storageRuns 64 44 2 fun _ _ => True).Reachable s ∧
    .get ⟨0, 0, false, [7]⟩ ∈ s.calls 1 ∧
    ∃ msg, (s.storage.ringBuffer.get 0 0).1 = .error (.ValueError msg) := by
  have hrun : (earlyFree.foldlM StorageRun.exec twoReaders).any getRaises = true := by
    decide +kernel
  obtain ⟨s, hs, hraises⟩ := (Option.any_eq_true _ _).mp hrun
  obtain ⟨hcall, hget⟩ := Bool.and_eq_true_iff.mp hraises
  refine ⟨s, reachable_run (.init ⟨by decide, by decide, _, rfl⟩) hs,
    contains_iff_mem.mp hcall, ?_⟩
  generalize (s.storage.ringBuffer.get 0 0).1 = result at hget ⊢
  cases result with
  | ok obj => cases hget
  | error e =>
    cases e with
    | ValueError msg => exact ⟨msg, rfl⟩
    | _ => cases hget

end MyOperator.Shm
