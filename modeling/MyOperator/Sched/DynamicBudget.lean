import MyOperator.Sched.Request

/-!
# The dynamic token budget

`BudgetRefiner` reads a profile of chunk sizes and costs, keeps for each context length
and number of decodes the largest chunk within the latency limit, and looks the budget
of a pass up at the keys above what is running. The keys are sets, and the first
sufficient key that the iteration meets is taken. Python iterates a set of integers in
the order of its hash table, so this is the least sufficient key only when that one
happens to come first. Nothing holds the looked-up budget against the scheduler's own.
-/

namespace MyOperator.Sched

open Lib List

/-- A row of `profile_table.csv`. -/
structure ProfileRow where
  ctxLen : Int
  dNum : Int
  chunkSize : Int
  cost : ℚ
  deriving DecidableEq

/-! ## Reading the table -/

/-- The keys of `df.groupby(["ctx_len", "d_num"])`, in the order of the groups. -/
def groupKeys (df : List ProfileRow) : List (Int × Int) :=
  (df.map fun row => (row.ctxLen, row.dNum)).dedup.insertionSort fun a b =>
    a.1 < b.1 ∨ a.1 = b.1 ∧ a.2 ≤ b.2

/-- The rows of a group whose cost is within the limit. -/
def validRows (df : List ProfileRow) (sloLimit : Int) (key : Int × Int) : List ProfileRow :=
  df.filter fun row => row.ctxLen = key.1 ∧ row.dNum = key.2 ∧ row.cost ≤ sloLimit

/-- The chunk size of the row that `idxmax` picks. -/
def maxChunk (df : List ProfileRow) (sloLimit : Int) (key : Int × Int) : Option Int :=
  ((validRows df sloLimit key).map ProfileRow.chunkSize).max?

/-- The dictionary and the two sets while the table is read. -/
structure TableState where
  lookup : Dict (Int × Int) Int
  contextKeys : List Int
  dnumKeys : List Int

/-- `set.add`. -/
def addKey (keys : List Int) (k : Int) : List Int := if k ∈ keys then keys else keys ++ [k]

def readGroup (df : List ProfileRow) (sloLimit : Int) (st : TableState) (key : Int × Int) :
    TableState :=
  match maxChunk df sloLimit key with
  | none => st
  | some chunk =>
    { lookup := st.lookup.set key chunk
      contextKeys := addKey st.contextKeys key.1
      dnumKeys := addKey st.dnumKeys key.2 }

structure BudgetRefiner where
  enabled : Bool
  lookup : Dict (Int × Int) Int
  contextKeys : List Int
  dnumKeys : List Int
  defaultBudget : Int

/-- `_read_lookup_table`, with `none` for a missing file. The key sets are built from their
sorted elements; `ctxOrder` and `dnumOrder` are the orders in which Python iterates them. -/
def readLookupTable (ctxOrder dnumOrder : List Int → List Int) (table : Option (List ProfileRow))
    (defaultBudget sloLimit : Int) : BudgetRefiner :=
  match table with
  | none => ⟨false, .empty, [], [], defaultBudget⟩
  | some df =>
    let st := (groupKeys df).foldl (readGroup df sloLimit) ⟨.empty, [], []⟩
    { enabled := true
      lookup := st.lookup
      contextKeys := ctxOrder (st.contextKeys.insertionSort (· ≤ ·))
      dnumKeys := dnumOrder (st.dnumKeys.insertionSort (· ≤ ·))
      defaultBudget := defaultBudget }

/-- `BudgetRefiner.__init__`; a refiner that is not enabled has no other fields to read. -/
def BudgetRefiner.init (ctxOrder dnumOrder : List Int → List Int)
    (table : Option (List ProfileRow)) (defaultBudget sloLimit : Int) : BudgetRefiner :=
  if sloLimit > 0 then readLookupTable ctxOrder dnumOrder table defaultBudget sloLimit
  else ⟨false, .empty, [], [], defaultBudget⟩

/-! ## Refining a budget -/

/-- `_align_key`: the first sufficient key in the order of iteration. -/
def alignKey (value : ℚ) (validKeys : List Int) : Option Int := validKeys.find? fun k => value ≤ k

def BudgetRefiner.getMaxBudget (b : BudgetRefiner) (numDecodeTokens : ℚ) (numDecode : Nat) : Int :=
  match alignKey numDecodeTokens b.contextKeys, alignKey numDecode b.dnumKeys with
  | some alignedCtx, some alignedDnum =>
    match b.lookup.get? (alignedCtx, alignedDnum) with
    | none => b.defaultBudget
    | some budget => budget
  | _, _ => b.defaultBudget

/-- The lengths of the running requests that are past their prompt. -/
def numDecodeTokenLst (running : List Request) : List Nat :=
  (running.filter fun req => req.numComputedTokens ≥ req.numPromptTokens).map
    Request.numTokensWithSpec

/-- The quotient that Python computes as a float. -/
def meanLength (lst : List Nat) : ℚ := (lst.sum : ℚ) / lst.length

def BudgetRefiner.refineBudget (b : BudgetRefiner) (running : List Request) (budget : Int) : Int :=
  if !b.enabled then budget
  else
    let lst := numDecodeTokenLst running
    if lst.length ≤ 0 then budget else b.getMaxBudget (meanLength lst) lst.length

/-- The fields of the scheduler configuration that the budget depends on. -/
structure DynamicBatchConfig where
  maxNumBatchedTokens : Int
  maxNumScheduledTokensOpt : Option Int
  sloLimitsForDynamicBatch : Int

/-- `max_num_scheduled_tokens` of the scheduler: the configured value unless it is not set or 0. -/
def DynamicBatchConfig.maxNumScheduledTokens (c : DynamicBatchConfig) : Int :=
  match c.maxNumScheduledTokensOpt with
  | none => c.maxNumBatchedTokens
  | some n => if n = 0 then c.maxNumBatchedTokens else n

/-- The refiner that `SchedulerDynamicBatch.__init__` builds. -/
def budgetRefiner (ctxOrder dnumOrder : List Int → List Int) (table : Option (List ProfileRow))
    (c : DynamicBatchConfig) : BudgetRefiner :=
  .init ctxOrder dnumOrder table c.maxNumBatchedTokens c.sloLimitsForDynamicBatch

/-- The budget with which a pass of `SchedulerDynamicBatch.schedule` starts. -/
def passBudget (ctxOrder dnumOrder : List Int → List Int) (table : Option (List ProfileRow))
    (c : DynamicBatchConfig) (running : List Request) : Int :=
  (budgetRefiner ctxOrder dnumOrder table c).refineBudget running c.maxNumScheduledTokens

/-! ## What the table was read to -/

variable {df : List ProfileRow} {slo : Int}

/-- The chunk sizes of a group that are within the limit. -/
def cell (df : List ProfileRow) (slo : Int) (c d : Int) : Set Int :=
  {b | ∃ row ∈ df, row.ctxLen = c ∧ row.dNum = d ∧ row.cost ≤ slo ∧ row.chunkSize = b}

/-- The context lengths with a chunk within the limit. -/
def contexts (df : List ProfileRow) (slo : Int) : Set Int := {c | ∃ row ∈ df, row.ctxLen = c ∧ row.cost ≤ slo}

/-- The numbers of decodes with a chunk within the limit. -/
def dnums (df : List ProfileRow) (slo : Int) : Set Int := {d | ∃ row ∈ df, row.dNum = d ∧ row.cost ≤ slo}

theorem mem_groupKeys {key : Int × Int} :
    key ∈ groupKeys df ↔ ∃ row ∈ df, (row.ctxLen, row.dNum) = key := by
  rw [groupKeys, mem_insertionSort, mem_dedup, mem_map]

theorem mem_validRows {key : Int × Int} {row : ProfileRow} :
    row ∈ validRows df slo key ↔
      row ∈ df ∧ row.ctxLen = key.1 ∧ row.dNum = key.2 ∧ row.cost ≤ slo := by
  simp [validRows]

theorem mem_cell {c d b : Int} :
    b ∈ cell df slo c d ↔ b ∈ (validRows df slo (c, d)).map ProfileRow.chunkSize := by
  show (∃ row ∈ df, _) ↔ _
  simp only [mem_map, mem_validRows]
  constructor
  · rintro ⟨row, hrow, hc, hd, hcost, hb⟩
    exact ⟨row, ⟨hrow, hc, hd, hcost⟩, hb⟩
  · rintro ⟨row, ⟨hrow, hc, hd, hcost⟩, hb⟩
    exact ⟨row, hrow, hc, hd, hcost, hb⟩

theorem maxChunk_eq_some {c d b : Int} :
    maxChunk df slo (c, d) = some b ↔ IsGreatest (cell df slo c d) b := by
  rw [maxChunk, max?_eq_some_iff]
  constructor
  · rintro ⟨hmem, hmax⟩
    exact ⟨mem_cell.mpr hmem, fun x hx => hmax x (mem_cell.mp hx)⟩
  · rintro ⟨hmem, hmax⟩
    exact ⟨mem_cell.mp hmem, fun x hx => hmax (mem_cell.mpr hx)⟩

theorem maxChunk_eq_none {c d : Int} : maxChunk df slo (c, d) = none ↔ cell df slo c d = ∅ := by
  rw [maxChunk, max?_eq_none_iff, Set.eq_empty_iff_forall_notMem, eq_nil_iff_forall_not_mem]
  simp only [mem_cell]

theorem mem_addKey {keys : List Int} {k j : Int} : j ∈ addKey keys k ↔ j ∈ keys ∨ j = k := by
  unfold addKey
  by_cases hk : k ∈ keys
  · rw [if_pos hk]
    exact ⟨.inl, fun h => h.elim id fun h => h ▸ hk⟩
  · rw [if_neg hk]
    simp

/-- What the state holds once the groups `L` are read. -/
structure HasRead (df : List ProfileRow) (slo : Int) (L : List (Int × Int)) (st : TableState) : Prop where
  lookup : ∀ key, st.lookup.get? key = if key ∈ L then maxChunk df slo key else none
  contexts : ∀ c, c ∈ st.contextKeys ↔ ∃ key ∈ L, maxChunk df slo key ≠ none ∧ key.1 = c
  dnums : ∀ d, d ∈ st.dnumKeys ↔ ∃ key ∈ L, maxChunk df slo key ≠ none ∧ key.2 = d

theorem HasRead.readGroup {L : List (Int × Int)} {st : TableState} (h : HasRead df slo L st)
    (key : Int × Int) : HasRead df slo (L ++ [key]) (readGroup df slo st key) := by
  unfold Sched.readGroup
  cases hchunk : maxChunk df slo key with
  | none =>
    constructor
    · intro k
      rw [h.lookup]
      by_cases hk : k = key
      · subst hk
        simp [hchunk]
      · simp [hk]
    · intro c
      rw [h.contexts]
      simp [hchunk]
    · intro d
      rw [h.dnums]
      simp [hchunk]
  | some chunk =>
    constructor
    · intro k
      rw [Dict.get?_set]
      by_cases hk : k = key
      · subst hk
        simp [hchunk]
      · simp [hk, h.lookup]
    · intro c
      rw [mem_addKey, h.contexts]
      simp [hchunk, or_and_right, exists_or, eq_comm]
    · intro d
      rw [mem_addKey, h.dnums]
      simp [hchunk, or_and_right, exists_or, eq_comm]

theorem hasRead_groups (df : List ProfileRow) (slo : Int) (L : List (Int × Int)) :
    HasRead df slo L (L.foldl (readGroup df slo) ⟨.empty, [], []⟩) := by
  induction L using List.reverseRecOn with
  | nil => exact ⟨fun _ => rfl, by simp, by simp⟩
  | append_singleton L key ih =>
    rw [foldl_append]
    exact ih.readGroup key

theorem maxChunk_ne_none {key : Int × Int} :
    maxChunk df slo key ≠ none ↔ ∃ row ∈ df, row.ctxLen = key.1 ∧ row.dNum = key.2 ∧ row.cost ≤ slo := by
  rw [maxChunk, Ne, max?_eq_none_iff, map_eq_nil_iff, eq_nil_iff_forall_not_mem]
  simp only [mem_validRows, not_forall, not_not]

section Read

variable {ctxOrder dnumOrder : List Int → List Int} {table : Option (List ProfileRow)} {default : Int}

/-- A refiner that is enabled holds the largest chunk of every group and, in some order,
the keys of the groups that have one. -/
theorem init_enabled (hctx : ∀ l, (ctxOrder l).Perm l) (hdnum : ∀ l, (dnumOrder l).Perm l)
    (hen : (BudgetRefiner.init ctxOrder dnumOrder table default slo).enabled = true) :
    ∃ df, table = some df ∧
      let b := BudgetRefiner.init ctxOrder dnumOrder table default slo
      b.defaultBudget = default ∧ (∀ key, b.lookup.get? key = maxChunk df slo key) ∧
        (∀ c, c ∈ b.contextKeys ↔ c ∈ contexts df slo) ∧ ∀ d, d ∈ b.dnumKeys ↔ d ∈ dnums df slo := by
  unfold BudgetRefiner.init at hen ⊢
  by_cases hslo : slo > 0
  swap
  · rw [if_neg hslo] at hen
    cases hen
  rw [if_pos hslo] at hen ⊢
  cases table with
  | none => cases hen
  | some df =>
    have hread := hasRead_groups df slo (groupKeys df)
    refine ⟨df, rfl, rfl, ?_, ?_, ?_⟩
    · intro key
      show Dict.get? _ key = _
      rw [readLookupTable, hread.lookup]
      by_cases hkey : key ∈ groupKeys df
      · rw [if_pos hkey]
      · rw [if_neg hkey]
        by_contra hne
        obtain ⟨row, hrow, hc, hd, -⟩ := maxChunk_ne_none.mp (Ne.symm hne)
        exact hkey (mem_groupKeys.mpr ⟨row, hrow, Prod.ext hc hd⟩)
    · intro c
      show c ∈ ctxOrder _ ↔ _
      rw [(hctx _).mem_iff, mem_insertionSort, hread.contexts]
      constructor
      · rintro ⟨key, -, hne, rfl⟩
        obtain ⟨row, hrow, hc, -, hcost⟩ := maxChunk_ne_none.mp hne
        exact ⟨row, hrow, hc, hcost⟩
      · rintro ⟨row, hrow, rfl, hcost⟩
        exact ⟨(row.ctxLen, row.dNum), mem_groupKeys.mpr ⟨row, hrow, rfl⟩,
          maxChunk_ne_none.mpr ⟨row, hrow, rfl, rfl, hcost⟩, rfl⟩
    · intro d
      show d ∈ dnumOrder _ ↔ _
      rw [(hdnum _).mem_iff, mem_insertionSort, hread.dnums]
      constructor
      · rintro ⟨key, -, hne, rfl⟩
        obtain ⟨row, hrow, -, hd, hcost⟩ := maxChunk_ne_none.mp hne
        exact ⟨row, hrow, hd, hcost⟩
      · rintro ⟨row, hrow, rfl, hcost⟩
        exact ⟨(row.ctxLen, row.dNum), mem_groupKeys.mpr ⟨row, hrow, rfl⟩,
          maxChunk_ne_none.mpr ⟨row, hrow, rfl, rfl, hcost⟩, rfl⟩

end Read

/-! ## The least sufficient key -/

/-- The elements of `S` from `value` on. -/
def above (S : Set Int) (value : ℚ) : Set Int := {k | k ∈ S ∧ value ≤ k}

/-- `key` is the least sufficient element, or there is none. -/
def LeastAbove (S : Set Int) (value : ℚ) : Option Int → Prop
  | none => above S value = ∅
  | some k => IsLeast (above S value) k

/-- The iteration meets the least sufficient key before every other sufficient one. -/
def LeastFirst (keys : List Int) (value : ℚ) : Prop :=
  ∀ k, IsLeast (above {k | k ∈ keys} value) k → ∀ j ∈ above {k | k ∈ keys} value,
    keys.idxOf k ≤ keys.idxOf j

theorem exists_isLeast {keys : List Int} {value : ℚ} {k : Int} (hk : k ∈ above {k | k ∈ keys} value) :
    ∃ m, IsLeast (above {k | k ∈ keys} value) m := by
  have hmem : ∀ j, j ∈ above {k | k ∈ keys} value ↔ j ∈ keys.filter fun k : Int => value ≤ k := by
    intro j
    rw [mem_filter]
    exact and_congr_right fun _ => decide_eq_true_iff.symm
  cases hmin : (keys.filter fun k : Int => value ≤ k).min? with
  | none =>
    rw [min?_eq_none_iff] at hmin
    rw [hmem, hmin] at hk
    cases hk
  | some m =>
    obtain ⟨hin, hle⟩ := min?_eq_some_iff.mp hmin
    exact ⟨m, (hmem m).mpr hin, fun j hj => hle j ((hmem j).mp hj)⟩

/-- `_align_key` finds the least sufficient key exactly when the iteration meets it first. -/
theorem leastAbove_alignKey_iff (keys : List Int) (value : ℚ) :
    LeastAbove {k | k ∈ keys} value (alignKey value keys) ↔ LeastFirst keys value := by
  cases halign : alignKey value keys with
  | none =>
    rw [alignKey, find?_eq_none] at halign
    have hempty : above {k | k ∈ keys} value = ∅ := by
      rw [Set.eq_empty_iff_forall_notMem]
      rintro k ⟨hk, hle⟩
      exact halign k hk (decide_eq_true hle)
    refine ⟨fun _ k hk => ?_, fun _ => hempty⟩
    rw [hempty] at hk
    exact absurd hk.1 (Set.notMem_empty k)
  | some a =>
    rw [alignKey, find?_eq_some_iff_append] at halign
    obtain ⟨hle, before, after, hkeys, hbefore⟩ := halign
    have ha : a ∈ above {k | k ∈ keys} value := by
      refine ⟨?_, of_decide_eq_true hle⟩
      show a ∈ keys
      simp [hkeys]
    have hnot : ∀ j ∈ above {k | k ∈ keys} value, j ∉ before := by
      rintro j ⟨-, hj⟩ hmem
      simpa [hj] using hbefore j hmem
    have hidx : keys.idxOf a = before.length := by
      rw [hkeys, idxOf_append_of_notMem (hnot a ha)]
      simp
    constructor
    · intro hleast k hk j hj
      obtain rfl : k = a := hk.unique hleast
      rw [hidx, hkeys, idxOf_append_of_notMem (hnot j hj)]
      exact Nat.le_add_right _ _
    · intro hfirst
      obtain ⟨m, hm⟩ := exists_isLeast ha
      have hpos := hfirst m hm a ha
      rw [hidx, hkeys, idxOf_append_of_notMem (hnot m hm.1)] at hpos
      have hzero : (a :: after).idxOf m = 0 := by omega
      rw [idxOf_cons, cond_eq_ite] at hzero
      have hma : a = m := by
        by_contra hne
        rw [if_neg (by simpa using hne)] at hzero
        omega
      rw [hma]
      exact hm

/-! ## The budget of a pass -/

/-- The largest chunk within the limit at the two keys, or the default where there is none. -/
def BudgetAt (df : List ProfileRow) (slo default : Int) : Option Int → Option Int → Int → Prop
  | some c, some d, budget => IsGreatest (cell df slo c d) budget ∨ cell df slo c d = ∅ ∧ budget = default
  | _, _, budget => budget = default

/-- The chunks at the least sufficient keys, or the default where there are none, are within `limit`. -/
structure Fits (df : List ProfileRow) (slo default : Int) (mean : ℚ) (numDecode : Nat) (limit : Int) : Prop where
  chunk : ∀ c d, IsLeast (above (contexts df slo) mean) c →
    IsLeast (above (dnums df slo) numDecode) d → ∀ b ∈ cell df slo c d, b ≤ limit
  default : (∀ c d, IsLeast (above (contexts df slo) mean) c →
    IsLeast (above (dnums df slo) numDecode) d → cell df slo c d = ∅) → default ≤ limit

theorem getMaxBudget_at {b : BudgetRefiner} (hlookup : ∀ key, b.lookup.get? key = maxChunk df slo key)
    (mean : ℚ) (numDecode : Nat) :
    BudgetAt df slo b.defaultBudget (alignKey mean b.contextKeys) (alignKey numDecode b.dnumKeys)
      (b.getMaxBudget mean numDecode) := by
  unfold BudgetRefiner.getMaxBudget
  cases alignKey mean b.contextKeys with
  | none => rfl
  | some c =>
    cases alignKey (numDecode : ℚ) b.dnumKeys with
    | none => rfl
    | some d =>
      dsimp only
      rw [hlookup]
      cases hchunk : maxChunk df slo (c, d) with
      | none => exact .inr ⟨maxChunk_eq_none.mp hchunk, rfl⟩
      | some chunk => exact .inl (maxChunk_eq_some.mp hchunk)

/-- At the least sufficient keys the budget is within a limit exactly when the table is. -/
theorem budgetAt_le_iff {default mean budget limit} {numDecode : Nat} {c d : Option Int}
    (hc : LeastAbove (contexts df slo) mean c) (hd : LeastAbove (dnums df slo) numDecode d)
    (hb : BudgetAt df slo default c d budget) :
    budget ≤ limit ↔ Fits df slo default mean numDecode limit := by
  have hnone : ∀ {S : Set Int} {v : ℚ} {k}, above S v = ∅ → ¬ IsLeast (above S v) k :=
    fun hempty h => Set.notMem_empty _ (hempty ▸ h.1)
  cases c with
  | none =>
    subst hb
    exact ⟨fun h => ⟨fun c d hc' => absurd hc' (hnone hc), fun _ => h⟩,
      fun h => h.default fun c d hc' => absurd hc' (hnone hc)⟩
  | some c =>
    cases d with
    | none =>
      subst hb
      exact ⟨fun h => ⟨fun c d _ hd' => absurd hd' (hnone hd), fun _ => h⟩,
        fun h => h.default fun c d _ hd' => absurd hd' (hnone hd)⟩
    | some d =>
      rcases hb with hgreat | ⟨hempty, rfl⟩
      · constructor
        · intro hle
          refine ⟨fun c' d' hc' hd' b hb => ?_, fun hnocell => ?_⟩
          · rw [hc'.unique hc, hd'.unique hd] at hb
            exact (hgreat.2 hb).trans hle
          · exact absurd hgreat.1 (hnocell c d hc hd ▸ Set.notMem_empty _)
        · intro h
          exact h.chunk c d hc hd budget hgreat.1
      · constructor
        · intro hle
          refine ⟨fun c' d' hc' hd' b hb => ?_, fun _ => hle⟩
          rw [hc'.unique hc, hd'.unique hd, hempty] at hb
          exact absurd hb (Set.notMem_empty b)
        · intro h
          refine h.default fun c' d' hc' hd' => ?_
          rw [hc'.unique hc, hd'.unique hd, hempty]

section Pass

variable (ctxOrder dnumOrder : List Int → List Int) (df : List ProfileRow) (c : DynamicBatchConfig)
  (running : List Request)

/-- The mean length and the number of the requests that decode. -/
def decoding (running : List Request) : ℚ × Nat :=
  (meanLength (numDecodeTokenLst running), (numDecodeTokenLst running).length)

/-- The refiner takes the least sufficient keys and the budget of the pass is the one there. -/
structure RefinesAtLeast : Prop where
  context : LeastAbove (contexts df c.sloLimitsForDynamicBatch) (decoding running).1
    (alignKey (decoding running).1 (budgetRefiner ctxOrder dnumOrder (some df) c).contextKeys)
  dnum : LeastAbove (dnums df c.sloLimitsForDynamicBatch) (decoding running).2
    (alignKey (decoding running).2 (budgetRefiner ctxOrder dnumOrder (some df) c).dnumKeys)
  budget : BudgetAt df c.sloLimitsForDynamicBatch c.maxNumBatchedTokens
    (alignKey (decoding running).1 (budgetRefiner ctxOrder dnumOrder (some df) c).contextKeys)
    (alignKey (decoding running).2 (budgetRefiner ctxOrder dnumOrder (some df) c).dnumKeys)
    (passBudget ctxOrder dnumOrder (some df) c running)

/-- Both key sets are iterated least sufficient key first, and the chunks there fit the scheduler. -/
structure OrdersFit : Prop where
  context : LeastFirst (budgetRefiner ctxOrder dnumOrder (some df) c).contextKeys (decoding running).1
  dnum : LeastFirst (budgetRefiner ctxOrder dnumOrder (some df) c).dnumKeys (decoding running).2
  fits : Fits df c.sloLimitsForDynamicBatch c.maxNumBatchedTokens (decoding running).1
    (decoding running).2 c.maxNumScheduledTokens

/-- A table that is read, a limit and a request that decodes. -/
def Active (table : Option (List ProfileRow)) : Prop :=
  ∃ df, table = some df ∧ 0 < c.sloLimitsForDynamicBatch ∧ 0 < (decoding running).2

variable {ctxOrder dnumOrder df c running} (hctx : ∀ l, (ctxOrder l).Perm l)
  (hdnum : ∀ l, (dnumOrder l).Perm l)
include hctx hdnum

theorem passBudget_inactive {table : Option (List ProfileRow)} (h : ¬ Active c running table) :
    passBudget ctxOrder dnumOrder table c running = c.maxNumScheduledTokens := by
  unfold passBudget BudgetRefiner.refineBudget
  by_cases hen : (budgetRefiner ctxOrder dnumOrder table c).enabled = true
  · have hslo : 0 < c.sloLimitsForDynamicBatch := by
      by_contra hslo
      rw [budgetRefiner, BudgetRefiner.init, if_neg hslo] at hen
      cases hen
    obtain ⟨df, rfl, -⟩ := init_enabled hctx hdnum hen
    have hnone : (numDecodeTokenLst running).length ≤ 0 :=
      Nat.le_of_not_lt fun hn => h ⟨df, rfl, hslo, hn⟩
    rw [hen]
    exact if_pos hnone
  · rw [Bool.eq_false_of_not_eq_true hen]
    rfl

variable (df) in
theorem passBudget_active (hslo : 0 < c.sloLimitsForDynamicBatch) (hn : 0 < (decoding running).2) :
    {k | k ∈ (budgetRefiner ctxOrder dnumOrder (some df) c).contextKeys} =
        contexts df c.sloLimitsForDynamicBatch ∧
      {k | k ∈ (budgetRefiner ctxOrder dnumOrder (some df) c).dnumKeys} =
        dnums df c.sloLimitsForDynamicBatch ∧
      BudgetAt df c.sloLimitsForDynamicBatch c.maxNumBatchedTokens
        (alignKey (decoding running).1 (budgetRefiner ctxOrder dnumOrder (some df) c).contextKeys)
        (alignKey (decoding running).2 (budgetRefiner ctxOrder dnumOrder (some df) c).dnumKeys)
        (passBudget ctxOrder dnumOrder (some df) c running) := by
  have hen : (budgetRefiner ctxOrder dnumOrder (some df) c).enabled = true := by
    rw [budgetRefiner, BudgetRefiner.init, if_pos hslo]
    rfl
  obtain ⟨df', hdf, hdefault, hlookup, hctxs, hdnums⟩ := init_enabled hctx hdnum hen
  obtain rfl := Option.some.inj hdf
  have hdefault : (budgetRefiner ctxOrder dnumOrder (some df) c).defaultBudget =
      c.maxNumBatchedTokens := hdefault
  have hbudget : passBudget ctxOrder dnumOrder (some df) c running =
      (budgetRefiner ctxOrder dnumOrder (some df) c).getMaxBudget (decoding running).1
        (decoding running).2 := by
    unfold passBudget BudgetRefiner.refineBudget
    rw [hen]
    exact if_neg (Nat.not_le.mpr hn)
  refine ⟨Set.ext hctxs, Set.ext hdnums, ?_⟩
  rw [hbudget, ← hdefault]
  exact getMaxBudget_at hlookup _ _

end Pass

/-- **The dynamic budget.** With a table that is read and a request that decodes, the pass takes
the least sufficient keys, the largest chunk within the limit there, and a budget within the
scheduler's, if and only if the sets are iterated least sufficient key first and the chunks there
(or the default) fit. Otherwise the budget is the scheduler's own. -/
theorem dynamicBudget_iff (ctxOrder dnumOrder : List Int → List Int)
    (table : Option (List ProfileRow)) (c : DynamicBatchConfig) (running : List Request)
    (hctx : ∀ l, (ctxOrder l).Perm l) (hdnum : ∀ l, (dnumOrder l).Perm l) :
    ((∀ df, table = some df → 0 < c.sloLimitsForDynamicBatch → 0 < (decoding running).2 →
          RefinesAtLeast ctxOrder dnumOrder df c running) ∧
        passBudget ctxOrder dnumOrder table c running ≤ c.maxNumScheduledTokens) ↔
      ∀ df, table = some df → 0 < c.sloLimitsForDynamicBatch → 0 < (decoding running).2 →
        OrdersFit ctxOrder dnumOrder df c running := by
  by_cases hactive : Active c running table
  swap
  · have hnever : ∀ df, table = some df → 0 < c.sloLimitsForDynamicBatch →
        ¬ 0 < (decoding running).2 := fun df ht hslo hn => hactive ⟨df, ht, hslo, hn⟩
    refine ⟨fun _ df ht hslo hn => absurd hn (hnever df ht hslo), fun _ => ⟨?_, ?_⟩⟩
    · exact fun df ht hslo hn => absurd hn (hnever df ht hslo)
    · exact (passBudget_inactive hctx hdnum hactive).le
  obtain ⟨df, rfl, hslo, hn⟩ := hactive
  obtain ⟨hctxs, hdnums, hat⟩ := passBudget_active df hctx hdnum hslo hn
  have hctxIff := leastAbove_alignKey_iff
    (budgetRefiner ctxOrder dnumOrder (some df) c).contextKeys (decoding running).1
  have hdnumIff := leastAbove_alignKey_iff
    (budgetRefiner ctxOrder dnumOrder (some df) c).dnumKeys (decoding running).2
  rw [hctxs] at hctxIff
  rw [hdnums] at hdnumIff
  constructor
  · rintro ⟨hlaw, hle⟩ df' ht - -
    obtain rfl := Option.some.inj ht
    have h := hlaw df rfl hslo hn
    exact ⟨hctxIff.mp h.context, hdnumIff.mp h.dnum, (budgetAt_le_iff h.context h.dnum hat).mp hle⟩
  · intro hlaw
    have h := hlaw df rfl hslo hn
    have hc := hctxIff.mpr h.context
    have hd := hdnumIff.mpr h.dnum
    refine ⟨fun df' ht _ _ => ?_, (budgetAt_le_iff hc hd hat).mpr h.fits⟩
    obtain rfl := Option.some.inj ht
    exact ⟨hc, hd, hat⟩

/-- One request that has computed its three prompt tokens. -/
def decodingRequest : Request :=
  { requestId := 0, numPromptTokens := 3, allTokenIds := [1, 2, 3, 4], numComputedTokens := 3 }

/-- Two profiled rows for one context length. -/
def pairTable : List ProfileRow := [⟨1024, 1, 512, 20⟩, ⟨1024, 2, 256, 30⟩]

/-- A small table, iterated in increasing order. -/
theorem dynamicBudget_iff_pair :
    ((∀ df, some pairTable = some df → (0 : Int) < 50 → 0 < (decoding [decodingRequest]).2 →
          RefinesAtLeast id id df ⟨2048, none, 50⟩ [decodingRequest]) ∧
        passBudget id id (some pairTable) ⟨2048, none, 50⟩ [decodingRequest] ≤ 2048) ↔
      ∀ df, some pairTable = some df → (0 : Int) < 50 → 0 < (decoding [decodingRequest]).2 →
        OrdersFit id id df ⟨2048, none, 50⟩ [decodingRequest] :=
  dynamicBudget_iff id id (some pairTable) ⟨2048, none, 50⟩ [decodingRequest] .refl .refl

/-- The order in which Python iterates `{1, 2, 4, 8, 16, 32}`: 32 falls into the first slot
of a hash table of 32 slots. -/
def hashOrder (l : List Int) : List Int := if l = [1, 2, 4, 8, 16, 32] then [32, 1, 2, 4, 8, 16] else l

/-- One context length profiled for one to 32 decodes, the chunk shrinking with them. -/
def powersTable : List ProfileRow :=
  [⟨1024, 1, 512, 20⟩, ⟨1024, 2, 480, 20⟩, ⟨1024, 4, 448, 20⟩, ⟨1024, 8, 384, 20⟩,
    ⟨1024, 16, 320, 20⟩, ⟨1024, 32, 256, 20⟩]

/-- A single request decodes. The iteration meets 32 first, so the budget is the one for 32
decodes, not the one for a single decode. -/
theorem dynamicBudget_far :
    passBudget hashOrder hashOrder (some powersTable) ⟨2048, none, 50⟩ [decodingRequest] = 256 ∧
      ¬ RefinesAtLeast hashOrder hashOrder powersTable ⟨2048, none, 50⟩ [decodingRequest] := by
  have halign : alignKey (decoding [decodingRequest]).2
      (budgetRefiner hashOrder hashOrder (some powersTable) ⟨2048, none, 50⟩).dnumKeys = some 32 := by
    decide +kernel
  refine ⟨by decide +kernel, fun h => ?_⟩
  have hleast : IsLeast (above (dnums powersTable 50) (decoding [decodingRequest]).2) 32 := by
    have := h.dnum
    rwa [halign] at this
  have hone : (1 : Int) ∈ above (dnums powersTable 50) (decoding [decodingRequest]).2 := by
    refine ⟨⟨⟨1024, 1, 512, 20⟩, by decide, rfl, by norm_num⟩, ?_⟩
    have : (decoding [decodingRequest]).2 = 1 := by decide
    simp [this]
  have := hleast.2 hone
  omega

end MyOperator.Sched
