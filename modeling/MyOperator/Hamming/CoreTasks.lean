import MyOperator.Lib.EveryNth
import MyOperator.Hamming.KeyAddress
import MyOperator.Hamming.Shapes

/-!
# Which core processes which head

`TilingFunc` sets the number of cores, and core `i` of them starts with task `i` of the
`batch * head` tasks and goes on in steps of that number. The counter of the loop is an
`uint32_t`, as the number of tasks is. As long as the step behind the last task does not
wrap, every task is processed once and the rows are those of the output tensor. When it
wraps, a core comes back to the first tasks, and a task is processed twice.
-/

namespace MyOperator.Hamming

open Lib List

/-- The loop of `Process` from `taskId` on: the pairs `(b, h)` for which `ProcessOne` is
called. `none` when the bound on the iterations is met. -/
def processLoop (t : TilingData) : Nat → Nat → Option (List (Nat × Nat))
  | 0, _ => none
  | fuel + 1, taskId =>
    if taskId < u32 (t.batch * t.head) then
      (processLoop t fuel (u32 (taskId + t.usedCoreNum))).map
        ((taskId / t.head, taskId % t.head) :: ·)
    else some []

/-- `Process` on the core with the index `blockIdx`. -/
def process (t : TilingData) (fuel blockIdx : Nat) : Option (List (Nat × Nat)) :=
  processLoop t fuel blockIdx

/-- The pairs of all launched cores, where `tasks i` are those of core `i`. -/
def launched (r : TilingResult) (tasks : Nat → List (Nat × Nat)) : List (Nat × Nat) :=
  (range r.blockDim).flatMap tasks

/-- The row that is written for a pair. -/
def outputRow (r : TilingResult) (p : Nat × Nat) : Nat × Nat := copyOutIndices r.tiling p.1 p.2

/-- The loops of the launched cores end, their pairs are those of the `batch` and `head`
dimensions, each once, and their rows are disjoint and make up the tensor
`[batch, head, maxOutputChunkLen]`. -/
structure WorkPartition (batch head : Nat) (r : TilingResult)
    (tasks : Nat → List (Nat × Nat)) : Prop where
  ends : ∀ i < r.blockDim, ∃ fuel, process r.tiling fuel i = some (tasks i)
  once : ∀ b h, (launched r tasks).count (b, h) = if b < batch ∧ h < head then 1 else 0
  disjoint : ((launched r tasks).map (outputRow r)).Pairwise fun row row' =>
    row.1 + row.2 ≤ row'.1 ∨ row'.1 + row'.2 ≤ row.1
  cover : ∀ e, (∃ row ∈ (launched r tasks).map (outputRow r), row.1 ≤ e ∧ e < row.1 + row.2) ↔
    e < List.prod [batch, head, r.tiling.maxOutputChunkLen]

/-! ## The loop of a core -/

section Loop

variable {t : TilingData} {n x fuel : Nat} {l : List (Nat × Nat)}

/-- Task `x` as a pair. -/
def taskPair (t : TilingData) (x : Nat) : Nat × Nat := (x / t.head, x % t.head)

theorem processLoop_step (hn : u32 (t.batch * t.head) = n) (hx : x < n)
    (hrun : processLoop t fuel x = some l) :
    ∃ fuel' l', processLoop t fuel' (u32 (x + t.usedCoreNum)) = some l' ∧
      l = taskPair t x :: l' := by
  cases fuel with
  | zero => cases hrun
  | succ fuel =>
    rw [processLoop, hn, if_pos hx] at hrun
    obtain ⟨l', hl', heq⟩ := Option.map_eq_some_iff.mp hrun
    exact ⟨fuel, l', hl', heq.symm⟩

/-- The tasks of a core when the counter does not wrap. -/
theorem processLoop_eq (hn : u32 (t.batch * t.head) = n) (hcores : 0 < t.usedCoreNum)
    (hfits : n + t.usedCoreNum ≤ 4294967296) (hfuel : n ≤ x + fuel) :
    processLoop t (fuel + 1) x = some ((everyNth t.usedCoreNum x (range n)).map (taskPair t)) := by
  induction fuel generalizing x with
  | zero =>
    rw [processLoop, hn, if_neg (by omega), everyNth_eq_nil hcores (by rw [length_range]; omega)]
    rfl
  | succ fuel ih =>
    rw [processLoop, hn]
    by_cases hx : x < n
    · rw [if_pos hx, u32_of_lt (by omega), ih (by omega),
        everyNth_eq_cons hcores (getElem?_range hx)]
      rfl
    · rw [if_neg hx, everyNth_eq_nil hcores (by rw [length_range]; omega)]
      rfl

/-- The loop up to task `x + q * usedCoreNum`, which is still one. -/
theorem processLoop_steps (hn : u32 (t.batch * t.head) = n) (q : Nat)
    (hx : x + q * t.usedCoreNum < n) (hrun : processLoop t fuel x = some l) :
    ∃ fuel' mid l', processLoop t fuel' (u32 (x + q * t.usedCoreNum + t.usedCoreNum)) = some l' ∧
      l = taskPair t x :: (mid ++ l') := by
  have hsmall : n < 4294967296 := hn ▸ u32_lt _
  induction q generalizing x fuel l with
  | zero =>
    rw [Nat.zero_mul, add_zero] at hx ⊢
    obtain ⟨fuel', l', hl', rfl⟩ := processLoop_step hn hx hrun
    exact ⟨fuel', [], l', hl', rfl⟩
  | succ q ih =>
    rw [Nat.succ_mul] at hx ⊢
    obtain ⟨fuel₁, l₁, hl₁, rfl⟩ := processLoop_step hn (by omega) hrun
    rw [u32_of_lt (by omega)] at hl₁
    obtain ⟨fuel', mid, l', hl', rfl⟩ := ih (x := x + t.usedCoreNum) (by omega) hl₁
    refine ⟨fuel', taskPair t (x + t.usedCoreNum) :: mid, l', ?_, rfl⟩
    rw [← hl']
    congr 2
    omega

/-- The core of the last task, when its counter wraps: it takes one of the first tasks next. -/
theorem processLoop_wraps (hn : u32 (t.batch * t.head) = n) (hcores : t.usedCoreNum ≤ n)
    (hwraps : 4294967296 < n + t.usedCoreNum)
    (hrun : processLoop t fuel ((n - 1) % t.usedCoreNum) = some l) :
    ∃ mid l', l = taskPair t ((n - 1) % t.usedCoreNum) ::
      (mid ++ taskPair t (n - 1 + t.usedCoreNum - 4294967296) :: l') := by
  have hsmall : n < 4294967296 := hn ▸ u32_lt _
  have hlast : (n - 1) % t.usedCoreNum + (n - 1) / t.usedCoreNum * t.usedCoreNum = n - 1 := by
    rw [Nat.mul_comm]
    exact Nat.mod_add_div _ _
  obtain ⟨fuel', mid, l', hl', rfl⟩ := processLoop_steps hn ((n - 1) / t.usedCoreNum) (by omega) hrun
  have hnext : u32 (n - 1 + t.usedCoreNum) = n - 1 + t.usedCoreNum - 4294967296 := by
    unfold u32
    omega
  rw [hlast, hnext] at hl'
  obtain ⟨-, l'', -, rfl⟩ := processLoop_step hn (by omega) hl'
  exact ⟨mid, l'', rfl⟩

end Loop

/-! ## Pairs and rows of the tasks -/

section Tasks

variable {r : TilingResult} {batch head n : Nat} {tasks : Nat → List (Nat × Nat)}

theorem taskPair_inj {t : TilingData} {x y : Nat} (h : taskPair t x = taskPair t y) : x = y := by
  obtain ⟨hdiv, hmod⟩ := Prod.mk.inj h
  rw [← Nat.div_add_mod x t.head, ← Nat.div_add_mod y t.head, hdiv, hmod]

theorem mem_taskPairs {t : TilingData} (hhead : batch * head ≠ 0 → t.head = head) (b h : Nat) :
    (b, h) ∈ (range (batch * head)).map (taskPair t) ↔ b < batch ∧ h < head := by
  rw [mem_map]
  constructor
  · rintro ⟨x, hx, hpair⟩
    have hx : x < batch * head := mem_range.mp hx
    have hpos : 0 < head := Nat.pos_of_ne_zero fun h0 => by simp [h0] at hx
    obtain ⟨rfl, rfl⟩ := Prod.mk.inj hpair
    rw [hhead (by omega)]
    exact ⟨Nat.div_lt_of_lt_mul (by rwa [Nat.mul_comm]), Nat.mod_lt x hpos⟩
  · rintro ⟨hb, hh⟩
    have hlt : b * head + h < batch * head := radix_lt hb hh
    refine ⟨b * head + h, mem_range.mpr hlt, ?_⟩
    unfold taskPair
    rw [hhead (by omega), Nat.mul_comm, Nat.mul_add_div (by omega), Nat.div_eq_of_lt hh,
      Nat.mul_add_mod, Nat.mod_eq_of_lt hh, Nat.add_zero]

theorem nodup_taskPairs (t : TilingData) (n : Nat) : ((range n).map (taskPair t)).Nodup :=
  nodup_range.map fun _ _ => taskPair_inj

theorem outputRow_taskPair {x : Nat}
    (hx : x * r.tiling.maxOutputChunkLen < 18446744073709551616) :
    outputRow r (taskPair r.tiling x) =
      (x * r.tiling.maxOutputChunkLen, r.tiling.maxOutputChunkLen) := by
  unfold outputRow copyOutIndices taskPair
  dsimp only
  rw [Nat.div_add_mod', Nat.mod_eq_of_lt hx]

theorem rows_eq (hn : n ≤ 4294967296) (hlen : r.tiling.maxOutputChunkLen < 4294967296) :
    ((range n).map (taskPair r.tiling)).map (outputRow r) = (range n).map fun x =>
      (x * r.tiling.maxOutputChunkLen, r.tiling.maxOutputChunkLen) := by
  rw [map_map]
  refine map_congr_left fun x hx => outputRow_taskPair ?_
  have hx : x < n := mem_range.mp hx
  calc x * r.tiling.maxOutputChunkLen < 4294967296 * 4294967296 :=
        Nat.mul_lt_mul'' (by omega) hlen
    _ = 18446744073709551616 := rfl

/-- The rows of all tasks, one behind the other. -/
theorem rows_cover (len e : Nat) :
    (∃ row ∈ (range n).map fun x => (x * len, len), row.1 ≤ e ∧ e < row.1 + row.2) ↔
      e < n * len := by
  constructor
  · rintro ⟨row, hrow, -, hlt⟩
    obtain ⟨x, hx, rfl⟩ := mem_map.mp hrow
    calc e < (x + 1) * len := by rw [Nat.succ_mul]; exact hlt
      _ ≤ n * len := Nat.mul_le_mul_right len (mem_range.mp hx)
  · intro he
    have hlen : 0 < len := Nat.pos_of_ne_zero fun h0 => by simp [h0] at he
    refine ⟨_, mem_map_of_mem (mem_range.mpr (Nat.div_lt_of_lt_mul (by rwa [Nat.mul_comm]))), ?_⟩
    have hdiv := Nat.div_add_mod' e len
    have hmod := Nat.mod_lt e hlen
    dsimp only
    omega

theorem rows_disjoint (len : Nat) :
    ((range n).map fun x => (x * len, len)).Pairwise fun row row' : Nat × Nat =>
      row.1 + row.2 ≤ row'.1 ∨ row'.1 + row'.2 ≤ row.1 := by
  rw [pairwise_map]
  refine pairwise_lt_range.imp fun {x y} hxy => .inl ?_
  calc x * len + len = (x + 1) * len := (Nat.succ_mul x len).symm
    _ ≤ y * len := Nat.mul_le_mul_right len hxy

/-- The pairs of all cores are the pairs of all tasks, and every core is done. -/
theorem workPartition_of_perm (hhead : batch * head ≠ 0 → r.tiling.head = head)
    (hn : batch * head < 4294967296) (hlen : r.tiling.maxOutputChunkLen < 4294967296)
    (hends : ∀ i < r.blockDim, ∃ fuel, process r.tiling fuel i = some (tasks i))
    (hperm : (launched r tasks).Perm ((range (batch * head)).map (taskPair r.tiling))) :
    WorkPartition batch head r tasks := by
  have hrows := hperm.map (outputRow r)
  rw [rows_eq hn.le hlen] at hrows
  refine ⟨hends, fun b h => ?_, ?_, fun e => ?_⟩
  · rw [hperm.count_eq, (nodup_taskPairs _ _).count]
    simp only [mem_taskPairs hhead]
  · exact (hrows.pairwise_iff fun h => h.symm).mpr (rows_disjoint _)
  · simp only [hrows.mem_iff, rows_cover]
    rw [prod_cons, prod_cons, prod_singleton, Nat.mul_assoc]

/-- What `TilingFunc` sets for the `n` tasks of all heads. -/
structure CoreSpec (n coreNum : Nat) (r : TilingResult) : Prop where
  tasks : u32 (r.tiling.batch * r.tiling.head) = n
  launch : r.blockDim = r.tiling.usedCoreNum
  cores : r.tiling.usedCoreNum = if min n coreNum = 0 then 1 else min n coreNum

theorem CoreSpec.workPartition {coreNum : Nat} (hspec : CoreSpec (batch * head) coreNum r)
    (hhead : batch * head ≠ 0 → r.tiling.head = head)
    (hlen : r.tiling.maxOutputChunkLen < 4294967296)
    (hfits : batch * head + r.tiling.usedCoreNum ≤ 4294967296) :
    ∃ tasks, WorkPartition batch head r tasks := by
  have hcores : 0 < r.tiling.usedCoreNum := by
    rw [hspec.cores]
    split <;> omega
  refine ⟨fun i => (everyNth r.tiling.usedCoreNum i (range (batch * head))).map
    (taskPair r.tiling), workPartition_of_perm hhead (by omega) hlen (fun i hi => ?_) ?_⟩
  · exact ⟨_, processLoop_eq hspec.tasks hcores hfits (Nat.le_add_left _ i)⟩
  · unfold launched
    rw [← map_flatMap, hspec.launch]
    exact (flatMap_everyNth_perm hcores _).map _

/-- The task that the last core comes back to is the first one of a core. -/
theorem CoreSpec.not_workPartition {coreNum : Nat} (hspec : CoreSpec n coreNum r)
    (hwraps : 4294967296 < n + min n coreNum) : ¬ WorkPartition batch head r tasks := by
  intro h
  have hsmall : n < 4294967296 := hspec.tasks ▸ u32_lt _
  have hcores : r.tiling.usedCoreNum = min n coreNum := by
    rw [hspec.cores, if_neg (by omega)]
  have hlaunch := hspec.launch
  have hnodup : (launched r tasks).Nodup := by
    refine nodup_iff_count_le_one.mpr fun p => ?_
    rw [h.once p.1 p.2]
    split <;> omega
  obtain ⟨heach, hapart⟩ := nodup_flatMap.mp hnodup
  have hlast : (n - 1) % r.tiling.usedCoreNum < r.blockDim :=
    (Nat.mod_lt _ (by omega)).trans_eq hspec.launch.symm
  have hagain : n - 1 + r.tiling.usedCoreNum - 4294967296 < r.blockDim := by omega
  obtain ⟨fuel, hrun⟩ := h.ends _ hlast
  obtain ⟨mid, l', hl⟩ := processLoop_wraps hspec.tasks (by omega) (by omega) hrun
  obtain ⟨fuel', hrun'⟩ := h.ends _ hagain
  obtain ⟨-, l'', -, hl'⟩ := processLoop_step hspec.tasks (by omega) hrun'
  by_cases hsame : n - 1 + r.tiling.usedCoreNum - 4294967296 = (n - 1) % r.tiling.usedCoreNum
  · have hone := heach _ (mem_range.mpr hlast)
    rw [hl, hsame] at hone
    exact (nodup_cons.mp hone).1 (by simp)
  · have hsymm : Std.Symm (Function.onFun List.Disjoint tasks) :=
      ⟨fun _ _ hij _ hx hx' => hij hx' hx⟩
    have htwo := hapart.forall (mem_range.mpr hagain) (mem_range.mpr hlast) hsame
    refine htwo (a := taskPair r.tiling (n - 1 + r.tiling.usedCoreNum - 4294967296)) ?_ ?_
    · rw [hl']
      exact mem_cons_self
    · rw [hl]
      simp

end Tasks

/-! ## The tiling -/

section Tiling

variable {getTiling : Nat → Nat → Nat → Int} {coreNum : Nat} {queryShape keyShape : Shape}
  {blockTable : Option Shape} {topkAttr : Option Int} {r : TilingResult}

theorem tilingFunc_cores
    (h : tilingFunc getTiling coreNum queryShape keyShape blockTable topkAttr = some r)
    (hfits : queryShape.getDim 0 * keyShape.getDim 1 < 4294967296) :
    CoreSpec (queryShape.getDim 0 * keyShape.getDim 1) coreNum r := by
  have hspec := tilingFunc_spec h
  have htasks : u32 (r.tiling.batch * r.tiling.head) = queryShape.getDim 0 * keyShape.getDim 1 := by
    rw [hspec.batch, hspec.head, u32_mul_u32 hfits]
  have hmin : ∀ n : Nat, (if n < coreNum then n else coreNum) = min n coreNum := by
    intro n
    split <;> omega
  rw [← htasks]
  simp only [tilingFunc, hmin] at h
  split at h
  · cases h
  · cases h
    exact ⟨rfl, rfl, rfl⟩

theorem maxOutputChunkLen_lt (maxSeqLen maxChunkSize topkRatio : Nat) :
    calcMaxOutputChunkLen maxSeqLen maxChunkSize topkRatio < 4294967296 := by
  unfold calcMaxOutputChunkLen
  dsimp only
  split
  · exact u32_lt _
  · decide

/-- **Work partition**: the cores process every pair once and write the output tensor, row by
row, exactly when the step behind the last task stays in the `uint32_t` counter. -/
theorem workPartition_iff
    (h : tilingFunc getTiling coreNum queryShape keyShape blockTable topkAttr = some r)
    (hfits : queryShape.getDim 0 * keyShape.getDim 1 < 4294967296) :
    (∃ tasks, WorkPartition (queryShape.getDim 0) (keyShape.getDim 1) r tasks) ↔
      queryShape.getDim 0 * keyShape.getDim 1 +
        min (queryShape.getDim 0 * keyShape.getDim 1) coreNum ≤ 4294967296 := by
  have hspec := tilingFunc_spec h
  have hcores := tilingFunc_cores h hfits
  constructor
  · rintro ⟨tasks, hpart⟩
    by_contra hwraps
    exact hcores.not_workPartition (by omega) hpart
  · intro hle
    refine hcores.workPartition (fun hne => ?_) ?_ ?_
    · have hpos : 0 < queryShape.getDim 0 := Nat.pos_of_mul_pos_right (Nat.pos_of_ne_zero hne)
      rw [hspec.head]
      exact u32_of_lt ((Nat.le_mul_of_pos_left _ hpos).trans_lt hfits)
    · rw [hspec.maxOutputChunkLen]
      exact maxOutputChunkLen_lt _ _ _
    · rw [hcores.cores]
      split <;> omega

/-- Six tasks on four cores. -/
theorem workPartition_six : ∃ r, tilingFunc (fun _ _ _ => 0) 4 [3, 8, 1, 16] [3, 2, 1024, 16] none
    none = some r ∧ ∃ tasks, WorkPartition 3 2 r tasks := by
  have h := Option.some_get (show (tilingFunc (fun _ _ _ => 0) 4 [3, 8, 1, 16] [3, 2, 1024, 16] none
    none).isSome by decide)
  exact ⟨_, h.symm, (workPartition_iff h.symm (by decide)).mpr (by decide)⟩

/-- `2 ^ 32 - 1` tasks on twenty cores: the counter of the last core wraps. -/
theorem task_processed_twice : ∃ r, tilingFunc (fun _ _ _ => 0) 20 [65535, 65537, 1, 16]
    [65535, 65537, 128, 16] none none = some r ∧ ¬ ∃ tasks, WorkPartition 65535 65537 r tasks := by
  have h := Option.some_get (show (tilingFunc (fun _ _ _ => 0) 20 [65535, 65537, 1, 16]
    [65535, 65537, 128, 16] none none).isSome by decide)
  refine ⟨_, h.symm, ?_⟩
  rintro ⟨tasks, hpart⟩
  exact (tilingFunc_cores h.symm (by decide)).not_workPartition (by decide) hpart

end Tiling

end MyOperator.Hamming
