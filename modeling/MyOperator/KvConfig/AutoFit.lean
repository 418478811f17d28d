import MyOperator.KvConfig.Spec
import MyOperator.Lib.BinarySearch

/-!
# The largest model length that fits

`estimate_max_model_len`, `_estimate_max_model_len_from_groups` and
`_auto_fit_max_model_len`: the memory that a request of the maximum length needs is computed
from the configuration, so the search writes the length that it tries into it.
-/

namespace MyOperator.KvConfig

open Lib List

variable {D : Type} [TorchDtype D]

/-- Code that reads and writes the configuration and may fail. -/
abbrev ConfigM := ExceptT ConfigError (StateM VllmConfig)

/-! ## The memory needed -/

def maxMemoryUsageBytes (config : VllmConfig) (kvCacheSpecs : List (KVCacheSpec D)) :
    Except ConfigError Nat := do
  return (← kvCacheSpecs.mapM fun spec => spec.maxMemoryUsageBytes config).sum

def getUniformPageSize (specs : List (ManagerSpec D)) : Except ConfigError Nat := do
  match (← specs.mapM ManagerSpec.pageSizeBytes).dedup with
  | [pageSize] => return pageSize
  | _ => .error (.AssertionError "")

/-- The general case of `_max_memory_usage_bytes_from_groups`: "group_size pools, each shared
by one layer per group". -/
def maxMemoryUsageBytesOfPools (config : VllmConfig) (groups : List (KVCacheGroupSpec D)) :
    Except ConfigError Nat := do
  let groupSize ← pyMax (groups.map fun group => group.layerNames.length)
  let pageSize ← getUniformPageSize (groups.map KVCacheGroupSpec.kvCacheSpec)
  let blocks ← groups.mapM fun group => do
    cdiv (← group.kvCacheSpec.maxMemoryUsageBytes config) pageSize
  return groupSize * pageSize * blocks.sum

def maxMemoryUsageBytesFromGroups (config : VllmConfig) (groups : List (KVCacheGroupSpec D)) :
    Except ConfigError Nat :=
  match groups with
  | [] => .ok 0
  | [⟨_, .uniformTypeKVCacheSpecs _ specs⟩] => maxMemoryUsageBytes config (specs.map Prod.snd)
  | groups => maxMemoryUsageBytesOfPools config groups

/-! ## The search -/

def fits (memoryNeeded : VllmConfig → Except ConfigError Nat) (availableMemory : Int)
    (modelLen : Int) : ConfigM Bool := do
  modify fun config => { config with maxModelLen := modelLen.toNat }
  let needed ← ExceptT.mk (pure (memoryNeeded (← get)))
  return decide ((needed : Int) ≤ availableMemory)

/-- The body of the `try` statement. -/
def searchMaxModelLen (memoryNeeded : VllmConfig → Except ConfigError Nat) (availableMemory : Int)
    (originalMaxModelLen : Nat) : ConfigM Int := do
  if ← fits memoryNeeded availableMemory 1 then
    bisect (fits memoryNeeded availableMemory) 1 originalMaxModelLen 1
  else return 0

/-- The binary search. The `finally` clause leaves the configuration as it was found. -/
def estimateMaxModelLenBy (memoryNeeded : VllmConfig → Except ConfigError Nat)
    (availableMemory : Int) : ConfigM Int := do
  let originalMaxModelLen := (← get).maxModelLen
  try searchMaxModelLen memoryNeeded availableMemory originalMaxModelLen
  finally modify fun config => { config with maxModelLen := originalMaxModelLen }

def estimateMaxModelLen (kvCacheSpec : Dict String (KVCacheSpec D)) (availableMemory : Int) : ConfigM Int :=
  estimateMaxModelLenBy (fun config => maxMemoryUsageBytes config kvCacheSpec.values) availableMemory

def estimateMaxModelLenFromGroups (groups : List (KVCacheGroupSpec D)) (availableMemory : Int) :
    ConfigM Int :=
  estimateMaxModelLenBy (fun config => maxMemoryUsageBytesFromGroups config groups) availableMemory

/-- The body of the loop over the workers. -/
def autoFitWorker (autoFitMax : Int) (worker : List (KVCacheGroupSpec D) × Int) : ConfigM Int := do
  if worker.1.isEmpty then return autoFitMax
  let workerMax ← estimateMaxModelLenFromGroups worker.1 worker.2
  return if workerMax < autoFitMax then workerMax else autoFitMax

/-- "not enough GPU memory available to serve even a single token" -/
def notEnoughMemory : ConfigError := .ValueError
  ("Cannot auto-fit max_model_len: not enough GPU memory available to serve even a single token. " ++
    "Try increasing `gpu_memory_utilization`.")

/-- "The model's full context length fits in memory", or the length is reduced. -/
def setAutoFitMax (originalMax : Nat) (autoFitMax : Int) : ConfigM Unit :=
  if autoFitMax ≤ 0 then throw notEnoughMemory
  else if originalMax ≤ autoFitMax then return ()
  else modify fun config => { config with maxModelLen := autoFitMax.toNat }

def autoFitMaxModelLen (projectedGroupsPerWorker : List (List (KVCacheGroupSpec D)))
    (availableMemory : List Int) : ConfigM Unit := do
  let originalMax := (← get).maxModelLen
  if projectedGroupsPerWorker.all List.isEmpty then return ()
  else if availableMemory.isEmpty then throw (.IndexError "list index out of range")
  else
    let autoFitMax ← (projectedGroupsPerWorker.zip availableMemory).foldlM autoFitWorker (originalMax : Int)
    setAutoFitMax originalMax autoFitMax

/-! ## The memory grows with the length -/

theorem cdiv_grows {t : Nat → Nat} (ht : ∀ m n, m ≤ n → t m ≤ t n) (b : Nat) :
    Grows (· ≤ ·) fun n => cdiv (t n) b := by
  unfold cdiv
  by_cases hb : b = 0
  · simp only [if_pos hb]
    exact Grows.const le_refl _
  · simp only [if_neg hb]
    refine Grows.ok fun m n hmn => ?_
    exact Nat.div_le_div_right (Nat.sub_le_sub_right (Nat.add_le_add_right (ht m n hmn) b) 1)

theorem pagesFor_grows (spec : KVCacheSpec D) {t : Nat → Nat} (ht : ∀ m n, m ≤ n → t m ≤ t n)
    (blockSize extra : Nat) : Grows (· ≤ ·) fun n => pagesFor spec (t n) blockSize extra := by
  refine (cdiv_grows ht blockSize).bind fun blocks hblocks => Grows.constBind fun pageSize => ?_
  refine Grows.ok fun m n hmn => ?_
  exact Nat.mul_le_mul_right _ (Nat.add_le_add_right (hblocks m n hmn) extra)

variable (config : VllmConfig)

/-- The configuration with another maximum length. -/
def VllmConfig.withLen (config : VllmConfig) (n : Nat) : VllmConfig := { config with maxModelLen := n }

theorem fullMaxMemoryUsageBytes_grows (spec : KVCacheSpec D) (blockSize : Nat) :
    Grows (· ≤ ·) fun n => fullMaxMemoryUsageBytes spec blockSize (config.withLen n) := by
  have hid : ∀ m n : Nat, m ≤ n → id m ≤ id n := fun _ _ h => h
  show Grows _ fun n =>
    if 1 < config.decodeContextParallelSize * config.prefillContextParallelSize then
      cdiv n (config.decodeContextParallelSize * config.prefillContextParallelSize) >>=
        fun len => pagesFor spec len blockSize 0
    else pagesFor spec n blockSize 0
  by_cases hworld : 1 < config.decodeContextParallelSize * config.prefillContextParallelSize
  · simp only [if_pos hworld]
    exact (cdiv_grows hid _).bind fun len hlen => pagesFor_grows spec hlen _ _
  · simp only [if_neg hworld]
    exact pagesFor_grows spec hid _ _

theorem spec_grows (spec : KVCacheSpec D) :
    Grows (· ≤ ·) fun n => spec.maxMemoryUsageBytes (config.withLen n) := by
  have hid : ∀ m n : Nat, m ≤ n → id m ≤ id n := fun _ _ h => h
  have hmin : ∀ k m n : Nat, m ≤ n → min k m ≤ min k n := fun k _ _ h => min_le_min_left k h
  cases spec with
  | fullAttention s | mlaAttention s _ | sinkFullAttention s _ =>
    exact fullMaxMemoryUsageBytes_grows config _ s.blockSize
  | chunkedLocalAttention s chunk =>
    exact pagesFor_grows (.chunkedLocalAttention s chunk) (hmin (chunk + config.maxNumBatchedTokens))
      s.blockSize 0
  | slidingWindow s window =>
    show Grows _ fun n => assert (decide (config.decodeContextParallelSize = 1))
        "DCP not support sliding window." >>= fun _ =>
      pagesFor (.slidingWindow s window) (min (window + config.maxNumBatchedTokens - 1) n) s.blockSize 1
    refine Grows.constBind fun _ => ?_
    exact pagesFor_grows (.slidingWindow s window) (hmin (window + config.maxNumBatchedTokens - 1))
      s.blockSize 1
  | mamba s =>
    unfold KVCacheSpec.maxMemoryUsageBytes
    dsimp only [VllmConfig.withLen]
    cases config.mambaCacheMode with
    | all => exact pagesFor_grows _ hid _ _
    | align => exact Grows.const le_refl _
    | none => exact Grows.const le_refl _
  | encoderOnlyAttention s => exact Grows.ok fun _ _ _ => le_refl 0
  | crossAttention s =>
    exact Grows.const le_refl (pagesFor (.crossAttention s) config.maxNumEncoderInputTokens s.blockSize 0)

theorem maxMemoryUsageBytes_grows (specs : List (KVCacheSpec D)) :
    Grows (· ≤ ·) fun n => maxMemoryUsageBytes (config.withLen n) specs := by
  refine (Grows.mapM fun spec _ => spec_grows config spec).bind fun needed hneeded => ?_
  exact Grows.ok fun m n hmn => forall₂_le_sum (hneeded m n hmn)

theorem pyMax_grows {l : Nat → List Nat} (hl : ∀ m n, m ≤ n → Forall₂ (· ≤ ·) (l m) (l n)) :
    Grows (· ≤ ·) fun n => pyMax (l n) := by
  cases h0 : l 0 with
  | nil =>
    refine Or.inl ⟨.ValueError "max() arg is an empty sequence", fun n => ?_⟩
    have hn := hl 0 n (Nat.zero_le n)
    rw [h0, List.forall₂_nil_left_iff] at hn
    show pyMax (l n) = _
    rw [hn]
    rfl
  | cons a rest =>
    have hne : ∀ n, ∃ b tail, l n = b :: tail := by
      intro n
      have hn := hl 0 n (Nat.zero_le n)
      rw [h0, List.forall₂_cons_left_iff] at hn
      obtain ⟨b, tail, -, -, heq⟩ := hn
      exact ⟨b, tail, heq⟩
    choose head tail hsplit using hne
    refine Or.inr ⟨fun n => (tail n).foldl max (head n), fun m n hmn => ?_, fun n => ?_⟩
    · have hmn' := hl m n hmn
      rw [hsplit m, hsplit n, List.forall₂_cons] at hmn'
      exact forall₂_le_foldl_max hmn'.2 hmn'.1
    · show pyMax (l n) = _
      rw [hsplit n]
      rfl

theorem managerSpec_grows (spec : ManagerSpec D) :
    Grows (· ≤ ·) fun n => spec.maxMemoryUsageBytes (config.withLen n) := by
  cases spec with
  | layerSpec spec => exact spec_grows config spec
  | uniformTypeKVCacheSpecs blockSize specs =>
    refine Grows.bind (R := Forall₂ (· ≤ ·)) (Grows.mapM fun x _ => ?_) fun pages hpages => ?_
    · refine (spec_grows config x.2).bind fun memory hmemory => Grows.constBind fun pageSize => ?_
      exact cdiv_grows hmemory pageSize
    · refine (pyMax_grows hpages).bind fun maxNumPages hmax => Grows.constBind fun pageSize => ?_
      exact Grows.ok fun m n hmn => Nat.mul_le_mul_right pageSize (hmax m n hmn)

theorem maxMemoryUsageBytesOfPools_grows (groups : List (KVCacheGroupSpec D)) :
    Grows (· ≤ ·) fun n => maxMemoryUsageBytesOfPools (config.withLen n) groups := by
  refine Grows.constBind fun groupSize => Grows.constBind fun pageSize => ?_
  refine Grows.bind (R := Forall₂ (· ≤ ·))
    (Grows.mapM fun (group : KVCacheGroupSpec D) _ => ?_) fun blocks hblocks => ?_
  · exact (managerSpec_grows config group.kvCacheSpec).bind fun memory hmemory =>
      cdiv_grows hmemory pageSize
  · exact Grows.ok fun m n hmn =>
      Nat.mul_le_mul_left _ (forall₂_le_sum (hblocks m n hmn))

/-- The memory that the groups need grows with the maximum length, or cannot be computed. -/
theorem maxMemoryUsageBytesFromGroups_grows (groups : List (KVCacheGroupSpec D)) :
    Grows (· ≤ ·) fun n => maxMemoryUsageBytesFromGroups (config.withLen n) groups := by
  match groups with
  | [] => exact Grows.ok fun _ _ _ => le_refl 0
  | [⟨names, .layerSpec spec⟩] =>
    exact maxMemoryUsageBytesOfPools_grows config [⟨names, .layerSpec spec⟩]
  | [⟨names, .uniformTypeKVCacheSpecs _ specs⟩] =>
    exact maxMemoryUsageBytes_grows config (specs.map Prod.snd)
  | ⟨names, spec⟩ :: group :: groups =>
    cases spec with
    | layerSpec spec => exact maxMemoryUsageBytesOfPools_grows config (⟨names, _⟩ :: group :: groups)
    | uniformTypeKVCacheSpecs blockSize specs =>
      exact maxMemoryUsageBytesOfPools_grows config (⟨names, _⟩ :: group :: groups)

/-! ## The search finds the largest length -/

variable {config}

/-- The memory for a maximum length of `n` is available. -/
def FitsIn (memoryNeeded : VllmConfig → Except ConfigError Nat) (config : VllmConfig)
    (availableMemory : Int) (n : Nat) : Prop :=
  ∃ needed, memoryNeeded (config.withLen n) = .ok needed ∧ (needed : Int) ≤ availableMemory

/-- An estimate: the largest length from 1 to the configured one that fits, 0 if none does. The
configuration is as before. If the memory cannot be computed, no length makes a difference. -/
def Estimates (memoryNeeded : VllmConfig → Except ConfigError Nat) (config : VllmConfig)
    (availableMemory : Int) (result : Except ConfigError Int × VllmConfig) : Prop :=
  (∃ e, result = (.error e, config) ∧ ∀ n, memoryNeeded (config.withLen n) = .error e) ∨
    ∃ r : Nat, result = (.ok (r : Int), config) ∧
      Largest (FitsIn memoryNeeded config availableMemory) config.maxModelLen r

variable {memoryNeeded : VllmConfig → Except ConfigError Nat} {availableMemory : Int}

/-- A state of the search. -/
def Probing (config s : VllmConfig) : Prop := ∃ n, s = config.withLen n

theorem fits_run {s : VllmConfig} (hs : Probing config s) (i : Int) :
    (fits memoryNeeded availableMemory i).run.run s =
      ((memoryNeeded (config.withLen i.toNat)).map fun needed : Nat =>
        decide ((needed : Int) ≤ availableMemory), config.withLen i.toNat) := by
  obtain ⟨n, rfl⟩ := hs
  have hstate : (fits memoryNeeded availableMemory i).run.run (config.withLen n) =
      ((ExceptT.mk (pure (memoryNeeded (config.withLen i.toNat))) >>= fun needed : Nat =>
        (pure (decide ((needed : Int) ≤ availableMemory)) : ConfigM Bool)).run.run
          (config.withLen i.toNat)) := rfl
  rw [hstate]
  cases memoryNeeded (config.withLen i.toNat) with
  | error e => rfl
  | ok needed => rfl

theorem fits_answers {g : Nat → Nat} (hg : ∀ n, memoryNeeded (config.withLen n) = .ok (g n)) :
    Answers (Probing config) (fits memoryNeeded availableMemory)
      fun i => decide ((g i.toNat : Int) ≤ availableMemory) := by
  intro i s hs
  refine ⟨config.withLen i.toNat, ⟨_, rfl⟩, ?_⟩
  rw [fits_run hs, hg]
  rfl

theorem estimate_run {result : Except ConfigError Int} {s : VllmConfig} (hs : Probing config s)
    (hbody : (searchMaxModelLen memoryNeeded availableMemory config.maxModelLen).run.run config =
      (result, s)) :
    (estimateMaxModelLenBy memoryNeeded availableMemory).run.run config = (result, config) := by
  obtain ⟨n, rfl⟩ := hs
  have hrun : (estimateMaxModelLenBy memoryNeeded availableMemory).run.run config =
      (tryFinally (searchMaxModelLen memoryNeeded availableMemory config.maxModelLen)
        (modify fun c : VllmConfig => { c with maxModelLen := config.maxModelLen })).run.run config := rfl
  rw [hrun, run_tryFinally, hbody]
  rfl

/-- The estimate is the largest length that fits, if the memory needed grows with the length. -/
theorem estimate_correct (hconfig : 1 ≤ config.maxModelLen)
    (hgrows : Grows (· ≤ ·) fun n => memoryNeeded (config.withLen n)) :
    Estimates memoryNeeded config availableMemory
      ((estimateMaxModelLenBy memoryNeeded availableMemory).run.run config) := by
  have hstart : Probing config config := ⟨config.maxModelLen, rfl⟩
  have hbind : (searchMaxModelLen memoryNeeded availableMemory config.maxModelLen).run.run config =
      (fits memoryNeeded availableMemory 1 >>= fun b : Bool =>
        if b then bisect (fits memoryNeeded availableMemory) 1 config.maxModelLen 1
        else pure 0).run.run config := rfl
  rcases hgrows with ⟨e, he⟩ | ⟨g, hmono, hok⟩
  · replace he : ∀ n, memoryNeeded (config.withLen n) = .error e := he
    refine .inl ⟨e, estimate_run ⟨1, rfl⟩ ?_, he⟩
    rw [hbind, ExceptT.run_bind, StateT.run_bind, fits_run hstart, he]
    rfl
  · replace hok : ∀ n, memoryNeeded (config.withLen n) = .ok (g n) := hok
    have hanswers : Answers (Probing config) (fits memoryNeeded availableMemory) fun i =>
        decide ((g i.toNat : Int) ≤ availableMemory) := fits_answers hok
    have hfits : ∀ n : Nat, FitsIn memoryNeeded config availableMemory n ↔ (g n : Int) ≤ availableMemory := by
      intro n
      constructor
      · rintro ⟨needed, hneeded, hle⟩
        rw [hok] at hneeded
        cases hneeded
        exact hle
      · intro hle
        exact ⟨g n, hok n, hle⟩
    obtain ⟨s₁, hs₁, hask⟩ := hanswers.bind 1 hstart
    by_cases hone : (g 1 : Int) ≤ availableMemory
    · have hdown : ∀ i j : Int, i ≤ j → decide ((g j.toNat : Int) ≤ availableMemory) = true →
          decide ((g i.toNat : Int) ≤ availableMemory) = true := by
        intro i j hij hj
        have hle := hmono i.toNat j.toNat (Int.toNat_le_toNat hij)
        have hj := of_decide_eq_true hj
        exact decide_eq_true (by omega)
      obtain ⟨r, s', hs', hrun, hge, hright, hholds, hlast⟩ :=
        bisect_spec hanswers hdown config.maxModelLen (le_refl (1 : Int)) hs₁
      have hr : ((r.toNat : Nat) : Int) = r := Int.toNat_of_nonneg (by omega)
      refine .inr ⟨r.toNat, ?_, ?_, fun _ => (hfits _).mpr (of_decide_eq_true (hholds (decide_eq_true hone))), ?_⟩
      · rw [hr]
        refine estimate_run hs' ?_
        rw [hbind, hask]
        show ((if decide ((g 1 : Int) ≤ availableMemory) = true then _ else pure 0 : ConfigM Int)).run.run _ = _
        rw [if_pos (decide_eq_true hone)]
        exact hrun
      · omega
      · intro n hn hle hfit
        have := hlast n (by omega) (by omega) (decide_eq_true ((hfits n).mp hfit))
        omega
    · refine .inr ⟨0, estimate_run hs₁ ?_, Nat.zero_le _, fun h => absurd rfl h, ?_⟩
      · rw [hbind, hask]
        show ((if decide ((g 1 : Int) ≤ availableMemory) = true then _ else pure 0 : ConfigM Int)).run.run _ = _
        rw [if_neg (by simpa using hone)]
        rfl
      · intro n hn _ hfit
        have hle := hmono 1 n hn
        have := (hfits n).mp hfit
        omega

theorem estimateFromGroups_correct (hconfig : 1 ≤ config.maxModelLen)
    (groups : List (KVCacheGroupSpec D)) (memory : Int) :
    Estimates (fun config => maxMemoryUsageBytesFromGroups config groups) config memory
      ((estimateMaxModelLenFromGroups groups memory).run.run config) :=
  estimate_correct hconfig (maxMemoryUsageBytesFromGroups_grows config groups)

theorem estimateFromSpecs_correct (hconfig : 1 ≤ config.maxModelLen)
    (kvCacheSpec : Dict String (KVCacheSpec D)) (memory : Int) :
    Estimates (fun config => maxMemoryUsageBytes config kvCacheSpec.values) config memory
      ((estimateMaxModelLen kvCacheSpec memory).run.run config) :=
  estimate_correct hconfig (maxMemoryUsageBytes_grows config kvCacheSpec.values)

/-! ## The workers -/

theorem FitsIn.down (hgrows : Grows (· ≤ ·) fun n => memoryNeeded (config.withLen n)) (m n : Nat)
    (hmn : m ≤ n) (h : FitsIn memoryNeeded config availableMemory n) :
    FitsIn memoryNeeded config availableMemory m := by
  obtain ⟨needed, hneeded, hle⟩ := h
  rcases hgrows with ⟨e, he⟩ | ⟨g, hmono, hok⟩
  · have := he n
    dsimp only at this
    rw [hneeded] at this
    cases this
  · have hg : needed = g n := Except.ok.inj (hneeded.symm.trans (hok n))
    have hle' := hmono m n hmn
    exact ⟨g m, hok m, by omega⟩

/-- The memory that a worker's groups need is available; without groups it needs none. -/
def FitsWorker (config : VllmConfig) (worker : List (KVCacheGroupSpec D) × Int) (n : Nat) : Prop :=
  worker.1 ≠ [] →
    FitsIn (fun config => maxMemoryUsageBytesFromGroups config worker.1) config worker.2 n

theorem FitsWorker.down (worker : List (KVCacheGroupSpec D) × Int) (m n : Nat) (hmn : m ≤ n)
    (h : FitsWorker config worker n) : FitsWorker config worker m :=
  fun hne => FitsIn.down (maxMemoryUsageBytesFromGroups_grows config worker.1) m n hmn (h hne)

/-- The memory of a worker cannot be computed. -/
def Fails (config : VllmConfig) (worker : List (KVCacheGroupSpec D) × Int) (e : ConfigError) : Prop :=
  worker.1 ≠ [] ∧ ∀ n, maxMemoryUsageBytesFromGroups (config.withLen n) worker.1 = .error e

theorem autoFitWorker_run (hconfig : 1 ≤ config.maxModelLen) {P : Nat → Prop} {r : Nat}
    (hr : Largest P config.maxModelLen r) (hP : ∀ m n, m ≤ n → P n → P m)
    (worker : List (KVCacheGroupSpec D) × Int) :
    (∃ e, (autoFitWorker r worker).run.run config = (.error e, config) ∧ Fails config worker e) ∨
      ∃ r' : Nat, (autoFitWorker r worker).run.run config = (.ok (r' : Int), config) ∧
        Largest (fun n => P n ∧ FitsWorker config worker n) config.maxModelLen r' := by
  obtain ⟨groups, memory⟩ := worker
  cases groups with
  | nil =>
    refine .inr ⟨r, rfl, hr.congr fun n => ?_⟩
    exact ⟨fun h => ⟨h, fun hne => absurd rfl hne⟩, And.left⟩
  | cons group groups =>
    have hne : group :: groups ≠ [] := cons_ne_nil _ _
    have hrun : (autoFitWorker (r : Int) (group :: groups, memory)).run.run config =
        (estimateMaxModelLenFromGroups (group :: groups) memory >>= fun workerMax =>
          (pure (if workerMax < (r : Int) then workerMax else r) : ConfigM Int)).run.run config := rfl
    rw [hrun, ExceptT.run_bind, StateT.run_bind]
    rcases estimateFromGroups_correct hconfig (group :: groups) memory with
      ⟨e, hok, he⟩ | ⟨w, hok, hw⟩
    · refine .inl ⟨e, ?_, hne, he⟩
      rw [hok]
      rfl
    · have hworker : Largest (FitsWorker config (group :: groups, memory)) config.maxModelLen w :=
        hw.congr fun n => ⟨fun h _ => h, fun h => h hne⟩
      refine .inr ⟨min r w, ?_, hr.min hworker hP (FitsWorker.down _)⟩
      have hmin : (if (w : Int) < (r : Int) then (w : Int) else r) = ((min r w : Nat) : Int) := by
        split <;> omega
      rw [hok, ← hmin]
      rfl

theorem autoFitWorkers_run (hconfig : 1 ≤ config.maxModelLen)
    (workers : List (List (KVCacheGroupSpec D) × Int)) {P : Nat → Prop} {r : Nat}
    (hr : Largest P config.maxModelLen r) (hP : ∀ m n, m ≤ n → P n → P m) :
    (∃ e, (workers.foldlM autoFitWorker (r : Int) : ConfigM Int).run.run config = (.error e, config) ∧
        ∃ worker ∈ workers, Fails config worker e) ∨
      ∃ r' : Nat, (workers.foldlM autoFitWorker (r : Int) : ConfigM Int).run.run config =
          (.ok (r' : Int), config) ∧
        Largest (fun n => P n ∧ ∀ worker ∈ workers, FitsWorker config worker n) config.maxModelLen r' := by
  induction workers generalizing P r with
  | nil =>
    refine .inr ⟨r, rfl, hr.congr fun n => ?_⟩
    exact ⟨fun h => ⟨h, fun w hw => absurd hw not_mem_nil⟩, And.left⟩
  | cons worker workers ih =>
    rw [foldlM_cons, ExceptT.run_bind, StateT.run_bind]
    rcases autoFitWorker_run hconfig hr hP worker with ⟨e, hok, hfail⟩ | ⟨r₁, hok, hr₁⟩
    · refine .inl ⟨e, ?_, worker, mem_cons_self, hfail⟩
      rw [hok]
      rfl
    · rw [hok]
      have hdown : ∀ m n, m ≤ n → P n ∧ FitsWorker config worker n → P m ∧ FitsWorker config worker m :=
        fun m n hmn h => ⟨hP m n hmn h.1, FitsWorker.down worker m n hmn h.2⟩
      rcases ih hr₁ hdown with ⟨e, hok', w, hw, hfail⟩ | ⟨r', hok', hr'⟩
      · exact .inl ⟨e, hok', w, mem_cons_of_mem _ hw, hfail⟩
      · refine .inr ⟨r', hok', hr'.congr fun n => ?_⟩
        rw [forall_mem_cons, and_assoc]

/-- Auto-fit sets the largest length from 1 to the configured one that fits on every worker. If
none fits it raises, and so it does if the memory of a worker cannot be computed. -/
def AutoFits (config : VllmConfig) (workers : List (List (KVCacheGroupSpec D) × Int))
    (result : Except ConfigError Unit × VllmConfig) : Prop :=
  (∃ e, result = (.error e, config) ∧ ∃ worker ∈ workers, Fails config worker e) ∨
    ∃ r, Largest (fun n => ∀ worker ∈ workers, FitsWorker config worker n) config.maxModelLen r ∧
      result = if r = 0 then (.error notEnoughMemory, config) else (.ok (), config.withLen r)

theorem setAutoFitMax_run (r : Nat) (hle : r ≤ config.maxModelLen) :
    (setAutoFitMax config.maxModelLen r).run.run config =
      if r = 0 then (.error notEnoughMemory, config) else (.ok (), config.withLen r) := by
  unfold setAutoFitMax
  by_cases hzero : r = 0
  · rw [if_pos hzero, if_pos (by omega)]
    rfl
  · rw [if_neg hzero, if_neg (by omega)]
    by_cases hfull : (config.maxModelLen : Int) ≤ r
    · have heq : r = config.maxModelLen := by omega
      rw [if_pos hfull, heq]
      rfl
    · rw [if_neg hfull]
      rfl

theorem autoFit_correct (hconfig : 1 ≤ config.maxModelLen)
    {projected : List (List (KVCacheGroupSpec D))} {memory : List Int}
    (hlen : projected.length = memory.length) :
    AutoFits config (projected.zip memory) ((autoFitMaxModelLen projected memory).run.run config) := by
  have hbound : Largest (fun _ => True) config.maxModelLen config.maxModelLen :=
    ⟨le_refl _, fun _ => trivial, fun n _ hn _ => hn⟩
  have hrun : (autoFitMaxModelLen projected memory).run.run config =
      (if projected.all List.isEmpty = true then pure ()
        else if memory.isEmpty = true then throw (.IndexError "list index out of range")
        else ((projected.zip memory).foldlM autoFitWorker (config.maxModelLen : Int) : ConfigM Int) >>=
          setAutoFitMax config.maxModelLen).run.run config := rfl
  rw [hrun]
  by_cases hempty : projected.all List.isEmpty = true
  · -- no worker has groups
    rw [if_pos hempty]
    refine .inr ⟨config.maxModelLen, hbound.congr fun n => ?_, ?_⟩
    · refine ⟨fun _ worker hworker hne => absurd ?_ hne, fun _ => trivial⟩
      exact isEmpty_iff.mp (all_eq_true.mp hempty _ (of_mem_zip hworker).1)
    · rw [if_neg (by omega)]
      rfl
  · have hmemory : ¬ memory.isEmpty = true := by
      intro hnil
      rw [isEmpty_iff.mp hnil, length_nil, length_eq_zero_iff] at hlen
      rw [hlen] at hempty
      exact hempty rfl
    rw [if_neg hempty, if_neg hmemory, ExceptT.run_bind, StateT.run_bind]
    rcases autoFitWorkers_run hconfig (projected.zip memory) hbound (fun _ _ _ h => h) with
      ⟨e, hok, hfail⟩ | ⟨r, hok, hr⟩
    · refine .inl ⟨e, ?_, hfail⟩
      rw [hok]
      rfl
    · refine .inr ⟨r, hr.congr fun n => ⟨And.right, fun h => ⟨trivial, h⟩⟩, ?_⟩
      rw [hok]
      exact setAutoFitMax_run r hr.le

/-- The estimates are the largest lengths that fit and leave the configuration as it was; the
auto-fit length is the largest that fits on every worker. -/
theorem max_model_len_largest (hconfig : 1 ≤ config.maxModelLen) :
    (∀ (kvCacheSpec : Dict String (KVCacheSpec D)) (memory : Int),
      Estimates (fun config => maxMemoryUsageBytes config kvCacheSpec.values) config memory
        ((estimateMaxModelLen kvCacheSpec memory).run.run config)) ∧
    (∀ (groups : List (KVCacheGroupSpec D)) (memory : Int),
      Estimates (fun config => maxMemoryUsageBytesFromGroups config groups) config memory
        ((estimateMaxModelLenFromGroups groups memory).run.run config)) ∧
    ∀ (projected : List (List (KVCacheGroupSpec D))) (memory : List Int),
      projected.length = memory.length →
      AutoFits config (projected.zip memory) ((autoFitMaxModelLen projected memory).run.run config) :=
  ⟨estimateFromSpecs_correct hconfig, estimateFromGroups_correct hconfig,
    fun _ _ hlen => autoFit_correct hconfig hlen⟩

instance : TorchDtype Unit := ⟨fun _ => 2⟩

/-- Full attention on one worker, a sliding window on the other. -/
def twoWorkers : List (List (KVCacheGroupSpec Unit)) :=
  [[⟨["full.0"], .layerSpec (.fullAttention ⟨⟨16, 1, 8, (), none⟩, 8, none, none⟩)⟩],
    [⟨["sw.0"], .layerSpec (.slidingWindow ⟨16, 1, 8, (), none⟩ 128)⟩]]

theorem max_model_len_largest_two :
    AutoFits ⟨4096, 1, 1, 512, 0, .none⟩ (twoWorkers.zip [65536, 32768])
      ((autoFitMaxModelLen twoWorkers [65536, 32768]).run.run ⟨4096, 1, 1, 512, 0, .none⟩) :=
  (max_model_len_largest (by decide)).2.2 _ _ rfl

end MyOperator.KvConfig
