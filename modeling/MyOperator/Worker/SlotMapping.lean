import MyOperator.KvCache.Block
import MyOperator.Lib.Interleave
import MyOperator.Lib.Writes
import MyOperator.Worker.BlockTable

/-!
# Slot mapping

Where the KV cache of each token goes: `compute_slot_mapping` looks up the block of the
token's position and places it there. With context parallelism a block of the table
stands for one on every rank, and the positions are dealt out to them in runs of the
interleave size. The kernel sees the table in its own, smaller blocks; that this makes
no difference takes runs that do not cross them.
-/

namespace MyOperator.Worker

open Function Lib List

def padSlotId : Int := -1

/-- The arguments of `compute_slot_mapping`, and the size of its result. -/
structure SlotBatch where
  numReqs : Nat
  numTokens : Nat
  maxNumBatchedTokens : Nat
  queryStartLoc : Nat → Nat
  positions : Nat → Nat

/-- `range(start, stop, step)`. -/
def pyRange (start stop step : Nat) : List Nat :=
  (range ((stop - start + step - 1) / step)).map fun i => start + step * i

/-- The offsets below `stop` that a loop in steps of `BLOCK_SIZE` from `start` on stores to. -/
def storeOffsets (start stop : Nat) : List Nat := (pyRange start stop 1024).flatMap fun i =>
    ((range 1024).map (i + ·)).filter fun o => decide (o < stop)

/-- The slot that `_compute_slot_mapping_kernel` computes for a position. -/
def slotId (blockTable : Nat → Nat) (blockSize totalCpWorldSize totalCpRank interleaveSize : Nat)
    (pos : Nat) : Int :=
  let virtualBlockSize := blockSize * totalCpWorldSize
  let blockIndex := pos / virtualBlockSize
  let blockNumber := blockTable blockIndex
  let virtualBlockOffset := pos - blockIndex * virtualBlockSize
  let localBlockOffset :=
    virtualBlockOffset / (totalCpWorldSize * interleaveSize) * interleaveSize +
      virtualBlockOffset % interleaveSize
  if virtualBlockOffset / interleaveSize % totalCpWorldSize = totalCpRank then
    (blockNumber * blockSize + localBlockOffset : Nat)
  else padSlotId

namespace BlockTable

def init (blockSize kernelBlockSize : Nat) : Except PyError BlockTable :=
  if kernelBlockSize = blockSize then .ok { blocksPerKvBlock := 1 }
  else if blockSize % kernelBlockSize ≠ 0 then
    .error (.ValueError (s!"kernel_block_size {kernelBlockSize} must divide " ++
      s!"kv_manager_block_size size {blockSize} evenly"))
  else .ok { blocksPerKvBlock := blockSize / kernelBlockSize }

/-- The stores of program `reqIdx` of `_compute_slot_mapping_kernel`. The last program pads. -/
def programStores (t : BlockTable) (blockSize totalCpWorldSize totalCpRank interleaveSize : Nat)
    (batch : SlotBatch) (reqIdx : Nat) : List (Nat × Int) :=
  if reqIdx = batch.numReqs then
    (storeOffsets batch.numTokens batch.maxNumBatchedTokens).map fun o => (o, padSlotId)
  else
    (storeOffsets (batch.queryStartLoc reqIdx) (batch.queryStartLoc (reqIdx + 1))).map fun o =>
      (o, slotId (t.table reqIdx) blockSize totalCpWorldSize totalCpRank interleaveSize
        (batch.positions o))

/-- `compute_slot_mapping`: the slot mapping after all programs. -/
def computeSlotMapping (t : BlockTable) (blockSize totalCpWorldSize totalCpRank interleaveSize : Nat)
    (batch : SlotBatch) (slotMapping : Nat → Int) : Nat → Int :=
  ((range (batch.numReqs + 1)).flatMap
    (t.programStores blockSize totalCpWorldSize totalCpRank interleaveSize batch)).foldl
      (fun m store => update m store.1 store.2) slotMapping

end BlockTable

/-! ## What the kernel stores -/

theorem mem_storeOffsets {start stop o : Nat} : o ∈ storeOffsets start stop ↔ start ≤ o ∧ o < stop := by
  unfold storeOffsets pyRange
  simp only [mem_flatMap, mem_map, mem_range, mem_filter, decide_eq_true_eq,
    exists_exists_and_eq_and]
  constructor
  · rintro ⟨i, -, ⟨l, -, rfl⟩, hlt⟩
    exact ⟨by omega, hlt⟩
  · rintro ⟨hle, hlt⟩
    exact ⟨(o - start) / 1024, by omega, ⟨(o - start) % 1024, by omega, by omega⟩, hlt⟩

namespace SlotBatch

/-- Offset `o` is a token of request `r`. -/
def Token (batch : SlotBatch) (r o : Nat) : Prop :=
  r < batch.numReqs ∧ batch.queryStartLoc r ≤ o ∧ o < batch.queryStartLoc (r + 1)

/-- The tokens of the requests follow one another. -/
structure WF (batch : SlotBatch) : Prop where
  mono : Monotone batch.queryStartLoc
  last : batch.queryStartLoc batch.numReqs = batch.numTokens

variable {batch : SlotBatch} {r r' o : Nat}

theorem WF.token_lt (h : batch.WF) (ht : batch.Token r o) : o < batch.numTokens := by
  rw [← h.last]
  exact ht.2.2.trans_le (h.mono ht.1)

theorem WF.token_unique (h : batch.WF) (ht : batch.Token r o) (ht' : batch.Token r' o) : r = r' := by
  obtain ⟨-, hlo, hhi⟩ := ht
  obtain ⟨-, hlo', hhi'⟩ := ht'
  rcases lt_trichotomy r r' with hlt | heq | hlt
  · have hle : batch.queryStartLoc (r + 1) ≤ batch.queryStartLoc r' := h.mono hlt
    omega
  · exact heq
  · have hle : batch.queryStartLoc (r' + 1) ≤ batch.queryStartLoc r := h.mono hlt
    omega

end SlotBatch

variable {t : BlockTable} {ids : Nat → List Nat} {batch : SlotBatch}
  {blockSize kernelBlockSize worldSize rank interleaveSize : Nat}

theorem computeSlotMapping_apply {r o : Nat} (hbatch : batch.WF) (htoken : batch.Token r o)
    (slotMapping : Nat → Int) :
    t.computeSlotMapping blockSize worldSize rank interleaveSize batch slotMapping o =
      slotId (t.table r) blockSize worldSize rank interleaveSize (batch.positions o) := by
  refine foldl_update_apply ?_ (.inr ?_)
  · intro store hstore ho
    obtain ⟨reqIdx, hreq, hmem⟩ := mem_flatMap.mp hstore
    rw [mem_range] at hreq
    unfold BlockTable.programStores at hmem
    split at hmem
    · obtain ⟨o', hoff, rfl⟩ := mem_map.mp hmem
      obtain ⟨hge, -⟩ := mem_storeOffsets.mp hoff
      have := hbatch.token_lt htoken
      omega
    · obtain ⟨o', hoff, rfl⟩ := mem_map.mp hmem
      obtain ⟨hlo, hhi⟩ := mem_storeOffsets.mp hoff
      obtain rfl : o' = o := ho
      have hsame : reqIdx = r := hbatch.token_unique ⟨by omega, hlo, hhi⟩ htoken
      rw [hsame]
  · have hstore : (o, slotId (t.table r) blockSize worldSize rank interleaveSize
        (batch.positions o)) ∈ t.programStores blockSize worldSize rank interleaveSize batch r := by
      unfold BlockTable.programStores
      rw [if_neg (ne_of_lt htoken.1)]
      exact mem_map.mpr ⟨o, mem_storeOffsets.mpr htoken.2, rfl⟩
    have hr : r ∈ range (batch.numReqs + 1) := mem_range.mpr (Nat.lt_succ_of_lt htoken.1)
    exact ⟨_, mem_flatMap.mpr ⟨r, hr, hstore⟩, rfl⟩

theorem slotId_eq (blockTable : Nat → Nat) (pos : Nat) :
    slotId blockTable blockSize worldSize rank interleaveSize pos =
      if dealRank worldSize interleaveSize (pos % (blockSize * worldSize)) = rank then
        ((blockTable (pos / (blockSize * worldSize)) * blockSize +
          dealPlace worldSize interleaveSize (pos % (blockSize * worldSize)) : Nat) : Int)
      else padSlotId := by
  have hoff : pos - pos / (blockSize * worldSize) * (blockSize * worldSize) =
      pos % (blockSize * worldSize) := by
    rw [mul_comm]
    exact (Nat.mod_eq_sub_mul_div).symm
  unfold slotId dealRank dealPlace
  dsimp only
  rw [hoff]

theorem natCast_ne_padSlotId (n : Nat) : (n : Int) ≠ padSlotId := by
  unfold padSlotId
  omega

/-! ## The table -/

namespace BlockTable

theorem mapToKernelBlocks_getElem? {n : Nat} (hn : 0 < n) (ids : List Nat) (i : Nat) :
    (mapToKernelBlocks n ids)[i]? = ids[i / n]?.map fun b => b * n + i % n := by
  unfold mapToKernelBlocks
  split
  · rename_i hone
    subst hone
    simp [Nat.mod_one]
  · induction ids generalizing i with
    | nil => simp
    | cons b ids ih =>
      rw [flatMap_cons]
      have hlen : ((range n).map fun k => b * n + k).length = n := by simp
      by_cases hlt : i < n
      · rw [getElem?_append_left (by rw [hlen]; exact hlt), Nat.div_eq_of_lt hlt,
          Nat.mod_eq_of_lt hlt, getElem?_map, getElem?_range hlt]
        rfl
      · have hle : n ≤ i := not_lt.mp hlt
        rw [getElem?_append_right (by rw [hlen]; exact hle), hlen, ih,
          Nat.div_eq_sub_div hn hle, Nat.mod_eq_sub_mod hle]
        rfl

/-- The rows hold the blocks `ids` of the manager. -/
structure Holds (t : BlockTable) (blockSize kernelBlockSize : Nat) (ids : Nat → List Nat) : Prop where
  blocksPerKvBlock : t.blocksPerKvBlock = blockSize / kernelBlockSize
  rows : ∀ r, t.rowBlocks r = mapToKernelBlocks t.blocksPerKvBlock (ids r)

theorem Holds.addRow (h : t.Holds blockSize kernelBlockSize ids) (blockIds : List Nat) (row : Nat) :
    (t.addRow blockIds row).Holds blockSize kernelBlockSize (update ids row blockIds) := by
  have hcount : (t.addRow blockIds row).blocksPerKvBlock = t.blocksPerKvBlock :=
    blocksPerKvBlock_appendRow
  refine ⟨hcount.trans h.blocksPerKvBlock, fun r => ?_⟩
  rw [hcount]
  by_cases hr : r = row
  · rw [hr, update_self, rowBlocks_addRow]
  · rw [update_of_ne hr, rowBlocks_addRow_of_ne hr, h.rows]

theorem Holds.table_eq (h : t.Holds blockSize kernelBlockSize ids)
    (hn : 0 < blockSize / kernelBlockSize) {r i b : Nat}
    (hb : (ids r)[i / (blockSize / kernelBlockSize)]? = some b) :
    t.table r i = b * (blockSize / kernelBlockSize) + i % (blockSize / kernelBlockSize) := by
  have hrow := h.rows r
  rw [h.blocksPerKvBlock] at hrow
  have hget : (t.rowBlocks r)[i]? =
      some (b * (blockSize / kernelBlockSize) + i % (blockSize / kernelBlockSize)) := by
    rw [hrow, mapToKernelBlocks_getElem? hn, hb]
    rfl
  unfold rowBlocks at hget
  rw [getElem?_map] at hget
  obtain ⟨j, hj, heq⟩ := Option.map_eq_some_iff.mp hget
  have hji : j = i := by
    have hlen := lt_of_getElem? hj
    rw [length_range] at hlen
    rw [getElem?_range hlen] at hj
    exact (Option.some.inj hj).symm
  rw [← hji] at heq ⊢
  exact heq

end BlockTable

/-! ## Soundness -/

/-- What a slot mapping has to be: `slots` gives, for each rank, the slots of the batch. -/
structure SlotsSound (t : BlockTable) (blockSize kernelBlockSize worldSize interleaveSize : Nat)
    (ids : Nat → List Nat) (batch : SlotBatch) (slots : Nat → Nat → Int) : Prop where
  /-- one rank has the token, the others have padding -/
  oneRank : ∀ r o, batch.Token r o → ∃! rank, rank < worldSize ∧ slots rank o ≠ padSlotId
  /-- the slot lies in the block that the table has for the position -/
  inBlock : ∀ r o, batch.Token r o → ∀ rank < worldSize, slots rank o ≠ padSlotId →
    ∃ offset < kernelBlockSize,
      slots rank o = (t.table r (batch.positions o / (kernelBlockSize * worldSize)) *
        kernelBlockSize + offset : Nat)
  /-- two positions have two slots -/
  apart : ∀ r o r' o', batch.Token r o → batch.Token r' o' → ∀ rank < worldSize,
    slots rank o ≠ padSlotId → slots rank o = slots rank o' →
      r = r' ∧ batch.positions o = batch.positions o'
  /-- the blocks of the manager give the same slot -/
  managerBlocks : ∀ r o, batch.Token r o → ∀ rank < worldSize,
    slots rank o = slotId (fun i => (ids r).getD i 0) blockSize worldSize rank interleaveSize
      (batch.positions o)

/-- No block is in two places. -/
def Distinct (ids : Nat → List Nat) : Prop :=
  ∀ (r i r' i' b : Nat), (ids r)[i]? = some b → (ids r')[i']? = some b → r = r' ∧ i = i'

/-- The slot mapping is sound for every table and every batch. -/
def SlotMappingSound (blockSize kernelBlockSize worldSize interleaveSize : Nat) : Prop :=
  ∀ (t : BlockTable) (ids : Nat → List Nat) (batch : SlotBatch) (slotMapping : Nat → Nat → Int),
    t.Holds blockSize kernelBlockSize ids → Distinct ids → batch.WF →
    (∀ r o, batch.Token r o → batch.positions o < (ids r).length * (blockSize * worldSize)) →
    SlotsSound t blockSize kernelBlockSize worldSize interleaveSize ids batch fun rank =>
      t.computeSlotMapping kernelBlockSize worldSize rank interleaveSize batch (slotMapping rank)

theorem slotId_ne_pad_iff {blockTable : Nat → Nat} {pos : Nat} :
    slotId blockTable blockSize worldSize rank interleaveSize pos ≠ padSlotId ↔
      dealRank worldSize interleaveSize (pos % (blockSize * worldSize)) = rank := by
  rw [slotId_eq]
  split_ifs with h
  · exact iff_of_true (natCast_ne_padSlotId _) h
  · exact iff_of_false (fun hne => hne rfl) h

/-- Kernel blocks give the slot of the manager's block, if runs do not cross them. -/
theorem slotId_kernelBlock {n b i pos : Nat} {blockTable blockTable' : Nat → Nat}
    (hI : 0 < interleaveSize) (hW : 0 < worldSize)
    (hruns : worldSize = 1 ∨ interleaveSize ∣ kernelBlockSize)
    (hi : pos / (kernelBlockSize * worldSize) = i)
    (hkernel : blockTable i = b * n + i % n) (hmanager : blockTable' (i / n) = b) :
    slotId blockTable kernelBlockSize worldSize rank interleaveSize pos =
      slotId blockTable' (kernelBlockSize * n) worldSize rank interleaveSize pos := by
  have hsize : kernelBlockSize * n * worldSize = kernelBlockSize * worldSize * n :=
    mul_right_comm ..
  have hoff : pos % (kernelBlockSize * n * worldSize) =
      i % n * (kernelBlockSize * worldSize) + pos % (kernelBlockSize * worldSize) := by
    rw [hsize, Nat.mod_mul, hi, add_comm, mul_comm]
  have hindex : pos / (kernelBlockSize * n * worldSize) = i / n := by
    rw [hsize, ← Nat.div_div_eq_div_mul, hi]
  obtain ⟨hrank, hplace⟩ := deal_shift (j := i % n)
    (x := pos % (kernelBlockSize * worldSize)) hI hW hruns
  rw [slotId_eq, slotId_eq, hoff, hindex, hrank, hplace, hi, hkernel, hmanager]
  congr 2
  ring

/-! ### Runs that do not cross the blocks -/

theorem BlockTable.Holds.table_position {n r pos : Nat} (hn : 0 < n)
    (h : t.Holds (kernelBlockSize * n) kernelBlockSize ids) (hK : 0 < kernelBlockSize)
    (hpos : pos < (ids r).length * (kernelBlockSize * n * worldSize)) :
    ∃ b, (ids r)[pos / (kernelBlockSize * worldSize) / n]? = some b ∧
      t.table r (pos / (kernelBlockSize * worldSize)) =
        b * n + pos / (kernelBlockSize * worldSize) % n := by
  have hcount : kernelBlockSize * n / kernelBlockSize = n := Nat.mul_div_cancel_left n hK
  have hlt : pos / (kernelBlockSize * worldSize) / n < (ids r).length := by
    rw [Nat.div_div_eq_div_mul]
    refine Nat.div_lt_of_lt_mul ?_
    rw [mul_comm, mul_right_comm kernelBlockSize]
    exact hpos
  have hb : (ids r)[pos / (kernelBlockSize * worldSize) / n]? =
      some (ids r)[pos / (kernelBlockSize * worldSize) / n] := getElem?_eq_getElem hlt
  refine ⟨_, hb, ?_⟩
  have htable := h.table_eq (i := pos / (kernelBlockSize * worldSize)) (by rw [hcount]; exact hn)
    (by rw [hcount]; exact hb)
  rw [hcount] at htable
  exact htable

theorem slotId_inj {blockTable blockTable' : Nat → Nat} {pos pos' : Nat}
    (hI : 0 < interleaveSize) (hruns : worldSize = 1 ∨ interleaveSize ∣ kernelBlockSize)
    (hK : 0 < kernelBlockSize) (hW : 0 < worldSize)
    (hreal : slotId blockTable kernelBlockSize worldSize rank interleaveSize pos ≠ padSlotId)
    (heq : slotId blockTable kernelBlockSize worldSize rank interleaveSize pos =
      slotId blockTable' kernelBlockSize worldSize rank interleaveSize pos') :
    blockTable (pos / (kernelBlockSize * worldSize)) =
        blockTable' (pos' / (kernelBlockSize * worldSize)) ∧
      pos % (kernelBlockSize * worldSize) = pos' % (kernelBlockSize * worldSize) := by
  have hsize : 0 < kernelBlockSize * worldSize := mul_pos hK hW
  have hrank := slotId_ne_pad_iff.mp hreal
  have hrank' := slotId_ne_pad_iff.mp (heq ▸ hreal)
  rw [slotId_eq, slotId_eq, if_pos hrank, if_pos hrank', Int.natCast_inj] at heq
  have hlt := dealPlace_lt hI hruns (Nat.mod_lt pos hsize)
  have hlt' := dealPlace_lt hI hruns (Nat.mod_lt pos' hsize)
  obtain ⟨hblock, hplace⟩ := block_inj hlt hlt' heq
  exact ⟨hblock, deal_inj hI (hrank.trans hrank'.symm) hplace⟩

/-- Every slot is in its block, apart from the others, and where the manager's block is. -/
theorem slotMappingSound_of_runs {n : Nat} (hn : 0 < n) (hI : 0 < interleaveSize)
    (hW : 0 < worldSize) (hK : 0 < kernelBlockSize)
    (hruns : worldSize = 1 ∨ interleaveSize ∣ kernelBlockSize) :
    SlotMappingSound (kernelBlockSize * n) kernelBlockSize worldSize interleaveSize := by
  intro t ids batch slotMapping ht hids hbatch hpos
  have hsize : 0 < kernelBlockSize * worldSize := mul_pos hK hW
  refine ⟨?_, ?_, ?_, ?_⟩
  · intro r o htoken
    refine ⟨dealRank worldSize interleaveSize
      (batch.positions o % (kernelBlockSize * worldSize)), ⟨dealRank_lt hW _ _, ?_⟩, ?_⟩
    · show t.computeSlotMapping _ _ _ _ _ _ _ ≠ padSlotId
      rw [computeSlotMapping_apply hbatch htoken]
      exact slotId_ne_pad_iff.mpr rfl
    · rintro rank ⟨-, hreal⟩
      rw [computeSlotMapping_apply hbatch htoken] at hreal
      exact (slotId_ne_pad_iff.mp hreal).symm
  · intro r o htoken rank hrank hreal
    rw [computeSlotMapping_apply hbatch htoken] at hreal ⊢
    rw [slotId_eq, if_pos (slotId_ne_pad_iff.mp hreal)]
    exact ⟨_, dealPlace_lt hI hruns (Nat.mod_lt _ hsize), rfl⟩
  · intro r o r' o' htoken htoken' rank hrank hreal heq
    rw [computeSlotMapping_apply hbatch htoken] at hreal
    rw [computeSlotMapping_apply hbatch htoken, computeSlotMapping_apply hbatch htoken'] at heq
    obtain ⟨hblock, hmod⟩ := slotId_inj hI hruns hK hW hreal heq
    obtain ⟨b, hb, htable⟩ := ht.table_position hn hK (hpos r o htoken)
    obtain ⟨b', hb', htable'⟩ := ht.table_position hn hK (hpos r' o' htoken')
    -- the same kernel block is the same part of the same block of the manager
    rw [htable, htable'] at hblock
    obtain ⟨rfl, hpart⟩ := block_inj (Nat.mod_lt _ hn) (Nat.mod_lt _ hn) hblock
    obtain ⟨hrow, hindex⟩ := hids _ _ _ _ _ hb hb'
    refine ⟨hrow, ?_⟩
    have hdiv : batch.positions o / (kernelBlockSize * worldSize) =
        batch.positions o' / (kernelBlockSize * worldSize) := by
      rw [← Nat.div_add_mod (batch.positions o / _) n, hindex, hpart, Nat.div_add_mod]
    rw [← Nat.div_add_mod (batch.positions o) (kernelBlockSize * worldSize), hdiv, hmod,
      Nat.div_add_mod]
  · intro r o htoken rank hrank
    show t.computeSlotMapping _ _ _ _ _ _ _ = _
    rw [computeSlotMapping_apply hbatch htoken]
    obtain ⟨b, hb, htable⟩ := ht.table_position hn hK (hpos r o htoken)
    refine slotId_kernelBlock hI hW hruns rfl htable ?_
    rw [getD_eq_getElem?_getD, hb]
    rfl

/-! ### Runs that cross them -/

/-- A request with one block, and its token at position `pos`. -/
def oneToken (pos : Nat) : SlotBatch where
  numReqs := 1
  numTokens := 1
  maxNumBatchedTokens := 1
  queryStartLoc r := min r 1
  positions _ := pos

theorem oneToken_wf (pos : Nat) : (oneToken pos).WF := ⟨fun _ _ h => min_le_min_right 1 h, rfl⟩

theorem oneToken_token (pos : Nat) : (oneToken pos).Token 0 0 := ⟨one_pos, le_refl 0, one_pos⟩

/-- Block 0 in row 0. -/
def oneBlock (blocksPerKvBlock : Nat) : BlockTable := BlockTable.addRow { blocksPerKvBlock } [0] 0

def oneBlockIds : Nat → List Nat := update (fun _ => []) 0 [0]

theorem oneBlock_holds (blockSize kernelBlockSize : Nat) :
    (oneBlock (blockSize / kernelBlockSize)).Holds blockSize kernelBlockSize oneBlockIds := by
  have hempty : BlockTable.Holds { blocksPerKvBlock := blockSize / kernelBlockSize } blockSize
      kernelBlockSize fun _ => [] := ⟨rfl, fun r => (BlockTable.mapToKernelBlocks_nil _).symm⟩
  exact hempty.addRow [0] 0

theorem oneBlockIds_row {r i b : Nat} (h : (oneBlockIds r)[i]? = some b) : r = 0 ∧ i = 0 := by
  unfold oneBlockIds at h
  by_cases hr : r = 0
  · subst hr
    have hlt := lt_of_getElem? h
    exact ⟨rfl, Nat.lt_one_iff.mp hlt⟩
  · rw [update_of_ne hr] at h
    cases h

theorem oneBlockIds_distinct : Distinct oneBlockIds := by
  intro r i r' i' b h h'
  obtain ⟨rfl, rfl⟩ := oneBlockIds_row h
  obtain ⟨rfl, rfl⟩ := oneBlockIds_row h'
  exact ⟨rfl, rfl⟩

theorem not_slotMappingSound (hI : 0 < interleaveSize) (hW : 0 < worldSize)
    (hK : 0 < kernelBlockSize) (hB : 0 < blockSize) (hdvd : kernelBlockSize ∣ blockSize)
    (hone : worldSize ≠ 1) (hruns : ¬ interleaveSize ∣ kernelBlockSize) :
    ¬ SlotMappingSound blockSize kernelBlockSize worldSize interleaveSize := by
  intro hsound
  obtain ⟨pos, hlt, hrank, hplace⟩ := exists_dealPlace_ge hI hone hW hruns
  have hmod : pos % (kernelBlockSize * worldSize) = pos := Nat.mod_eq_of_lt hlt
  have hn : 0 < blockSize / kernelBlockSize := Nat.div_pos (Nat.le_of_dvd hB hdvd) hK
  have hpos : ∀ r o, (oneToken pos).Token r o →
      (oneToken pos).positions o < (oneBlockIds r).length * (blockSize * worldSize) := by
    rintro r o ⟨hr, -, -⟩
    obtain rfl : r = 0 := Nat.lt_one_iff.mp hr
    show pos < 1 * (blockSize * worldSize)
    rw [one_mul]
    exact hlt.trans_le (Nat.mul_le_mul_right worldSize (Nat.le_of_dvd hB hdvd))
  have hs := hsound _ _ _ (fun _ _ => 0) (oneBlock_holds blockSize kernelBlockSize)
    oneBlockIds_distinct (oneToken_wf pos) hpos
  have htable : (oneBlock (blockSize / kernelBlockSize)).table 0 0 = 0 := by
    rw [(oneBlock_holds blockSize kernelBlockSize).table_eq hn (b := 0) (by rw [Nat.zero_div]; rfl),
      Nat.zero_mul, Nat.zero_mod]
  have hslot : slotId ((oneBlock (blockSize / kernelBlockSize)).table 0) kernelBlockSize worldSize 0
      interleaveSize pos = (kernelBlockSize : Nat) := by
    rw [slotId_eq, hmod, if_pos hrank, hplace, Nat.div_eq_of_lt hlt, htable, Nat.zero_mul, zero_add]
  obtain ⟨offset, hoffset, heq⟩ := hs.inBlock 0 0 (oneToken_token pos) 0 hW (by
    rw [computeSlotMapping_apply (oneToken_wf pos) (oneToken_token pos)]
    exact slotId_ne_pad_iff.mpr (by show dealRank _ _ (pos % _) = 0; rw [hmod, hrank]))
  rw [computeSlotMapping_apply (oneToken_wf pos) (oneToken_token pos)] at heq
  change slotId _ _ _ _ _ pos = ((_ * _ + _ : Nat) : Int) at heq
  rw [hslot] at heq
  change ((kernelBlockSize : Nat) : Int) =
    (((oneBlock _).table 0 (pos / (kernelBlockSize * worldSize)) * _ + _ : Nat) : Int) at heq
  rw [Nat.div_eq_of_lt hlt, htable] at heq
  omega

end MyOperator.Worker
