import MyOperator.Offload.Run

/-!
# Completeness of the eviction

LRU evicts whenever enough blocks may be evicted. ARC turns to `t2` once `t1` has shrunk
below its target, and from there never back to `t1`: it gives up although blocks of `t1`
may be evicted. `evict_complete_iff` says for which requests that happens.
-/

namespace MyOperator.Offload

open Lib List

variable {H F : Type} [DecidableEq H]

namespace ARCCachePolicy

variable {p : ARCCachePolicy H F} {t : Dict H BlockStatus} {protectedHashes sel : Finset H}
  {e : H × BlockStatus}

/-- The entries of a list that may still be selected. -/
def remaining (t : Dict H BlockStatus) (protectedHashes sel : Finset H) : List (H × BlockStatus) :=
  t.entries.filter fun e => evictable protectedHashes e ∧ e.1 ∉ sel

theorem candidate_eq_head? :
    candidate t protectedHashes sel = (remaining t protectedHashes sel).head? := head?_filter.symm

theorem mem_remaining : e ∈ remaining t protectedHashes sel ↔
    e ∈ t.entries ∧ evictable protectedHashes e ∧ e.1 ∉ sel := by
  simp only [remaining, mem_filter, decide_eq_true_eq]

theorem length_remaining_insert (h : e ∈ remaining t protectedHashes sel) :
    (remaining t protectedHashes sel).length =
      (remaining t protectedHashes (Insert.insert e.1 sel)).length + 1 := by
  have hkeys : ((remaining t protectedHashes sel).map Prod.fst).Nodup :=
    (filter_sublist.map _).nodup t.nodupKeys
  have hget : assocGet? e.1 (remaining t protectedHashes sel) = some e.2 :=
    (mem_iff_assocGet? hkeys).mp h
  have hrest : (remaining t protectedHashes sel).filter (fun a => a.1 ≠ e.1) =
      remaining t protectedHashes (Insert.insert e.1 sel) := by
    unfold remaining
    rw [filter_filter]
    refine filter_congr fun a _ => ?_
    simp only [Finset.mem_insert, not_or, ← Bool.decide_and]
    exact decide_eq_decide.mpr (by tauto)
  rw [(perm_cons_filter hkeys hget).length_eq, hrest, length_cons]

theorem remaining_insert_of_absent {k : H} (h : t.get? k = none) :
    remaining t protectedHashes (Insert.insert k sel) = remaining t protectedHashes sel := by
  refine filter_congr fun a ha => ?_
  have hne : a.1 ≠ k := by
    intro heq
    rw [Dict.get?_eq_none_iff] at h
    exact h (heq ▸ mem_map_of_mem ha)
  simp only [Finset.mem_insert, hne, false_or]

/-- The selection loop finds `n` more candidates exactly if what remains of `t2` and the
part of `t1` above the target suffice. -/
theorem selectCandidates_isSome [PyFloat F] (protectedHashes : Finset H) (hp : (CachePolicy.arc p).WF) (n : Nat)
    (cs : List (H × BlockStatus × Bool)) (sel : Finset H) (v : Int) :
    (p.selectCandidates protectedHashes n cs sel v).isSome ↔
      n ≤ min (remaining p.t1 protectedHashes sel).length (v + 1 - PyFloat.int p.targetT1Size).toNat +
        (remaining p.t2 protectedHashes sel).length := by
  have hnodup : (p.t1.entries.map Prod.fst ++ p.t2.entries.map Prod.fst).Nodup := by
    rw [← map_append]
    exact hp
  have hdisj := disjoint_of_nodup_append hnodup
  induction n generalizing cs sel v with
  | zero => exact ⟨fun _ => Nat.zero_le _, fun _ => rfl⟩
  | succ n ih =>
    have hsecond : ∀ v (out : Option (List (H × BlockStatus × Bool))),
        (PyFloat.int p.targetT1Size ≤ v → remaining p.t1 protectedHashes sel = []) →
        (∀ e, candidate p.t2 protectedHashes sel = some e → out = p.selectCandidates protectedHashes n
          (cs ++ [(e.1, e.2, false)]) (Insert.insert e.1 sel) v) →
        (candidate p.t2 protectedHashes sel = none → out = none) →
        (out.isSome ↔ n + 1 ≤ min (remaining p.t1 protectedHashes sel).length
          (v + 1 - PyFloat.int p.targetT1Size).toNat +
          (remaining p.t2 protectedHashes sel).length) := by
      intro v out hfirst hsome hnone
      -- `t1` gives no candidate, now or later
      have hmin : ∀ a, a ≤ (remaining p.t1 protectedHashes sel).length →
          min a (v + 1 - PyFloat.int p.targetT1Size).toNat = 0 := by
        intro a ha
        by_cases hv : PyFloat.int p.targetT1Size ≤ v
        · rw [hfirst hv, length_nil] at ha
          omega
        · omega
      rw [candidate_eq_head?] at hsome hnone
      rw [hmin _ le_rfl, Nat.zero_add]
      cases hrem : remaining p.t2 protectedHashes sel with
      | nil =>
        rw [hnone (by rw [hrem]; rfl)]
        exact iff_of_false Bool.false_ne_true (Nat.not_succ_le_zero n)
      | cons e rest =>
        have he : e ∈ remaining p.t2 protectedHashes sel := hrem ▸ mem_cons_self
        have habsent : p.t1.get? e.1 = none := by
          rw [Dict.get?_eq_none_iff]
          exact fun hmem => hdisj hmem (mem_map_of_mem (mem_remaining.mp he).1)
        have hlen := length_remaining_insert he
        rw [hrem, length_cons] at hlen
        rw [hsome e (by rw [hrem]; rfl)]
        refine (ih _ _ _).trans ?_
        rw [remaining_insert_of_absent habsent, hmin _ le_rfl, length_cons]
        omega
    unfold selectCandidates
    by_cases hv : PyFloat.int p.targetT1Size ≤ v
    · rw [if_pos hv]
      cases hrem : remaining p.t1 protectedHashes sel with
      | nil =>
        rw [candidate_eq_head?, hrem]
        refine (hsecond v _ (fun _ => hrem) (fun e he => by rw [he]; rfl) fun he => ?_).trans ?_
        · rw [he]
          rfl
        · rw [hrem]
      | cons e rest =>
        have he : e ∈ remaining p.t1 protectedHashes sel := hrem ▸ mem_cons_self
        have habsent : p.t2.get? e.1 = none := by
          rw [Dict.get?_eq_none_iff]
          exact fun hmem => hdisj (mem_map_of_mem (mem_remaining.mp he).1) hmem
        have hlen := length_remaining_insert he
        rw [candidate_eq_head?, hrem]
        rw [hrem, length_cons] at hlen
        show (p.selectCandidates protectedHashes n (cs ++ [(e.1, e.2, true)])
          (Insert.insert e.1 sel) (v - 1)).isSome ↔ _
        refine (ih _ _ _).trans ?_
        rw [remaining_insert_of_absent habsent, length_cons]
        omega
    · rw [if_neg hv]
      exact hsecond v _ (fun hv' => absurd hv' hv) (fun e he => by rw [he]) fun he => by rw [he]

end ARCCachePolicy

namespace CachePolicy

variable [PyFloat F]

/-- The blocks with `ref_cnt` 0 outside the protected set. -/
def evictables (p : CachePolicy H F) (protectedHashes : Finset H) : List (H × BlockStatus) :=
  p.entries.filter (evictable protectedHashes)

/-- `evict` returns `n` of the blocks that may be evicted whenever there are that many,
and `None` otherwise; when it returns `None` the policy is as before. -/
structure EvictsCompletely (p : CachePolicy H F) (n : Nat) (protectedHashes : Finset H) : Prop where
  enough : n ≤ (p.evictables protectedHashes).length → ∃ evicted,
    (p.evict n protectedHashes).1 = some evicted ∧ evicted.length = n ∧ evicted.Nodup ∧
      evicted ⊆ p.evictables protectedHashes
  few : (p.evictables protectedHashes).length < n → (p.evict n protectedHashes).1 = none
  atomic : (p.evict n protectedHashes).1 = none → (p.evict n protectedHashes).2 = p

/-- For ARC: the blocks of `t2`, and of `t1` as many as it exceeds its target by and one
more, are enough, or all blocks together are too few. -/
def EvictionReaches (p : CachePolicy H F) (n : Nat) (protectedHashes : Finset H) : Prop :=
  match p with
  | lru _ => True
  | arc p =>
    n ≤ min (p.t1.entries.filter (evictable protectedHashes)).length
          (p.t1.entries.length + 1 - PyFloat.int p.targetT1Size).toNat +
        (p.t2.entries.filter (evictable protectedHashes)).length ∨
    (p.t1.entries.filter (evictable protectedHashes)).length +
      (p.t2.entries.filter (evictable protectedHashes)).length < n

instance (p : CachePolicy H F) (n : Nat) (protectedHashes : Finset H) :
    Decidable (p.EvictionReaches n protectedHashes) :=
  match p with
  | lru _ => inferInstanceAs (Decidable True)
  | arc _ => inferInstanceAs (Decidable (_ ∨ _))

variable {p : CachePolicy H F} {n : Nat} {protectedHashes : Finset H}

theorem evict_isSome_lru (p : LRUCachePolicy H) :
    ((CachePolicy.lru (F := F) p).evict n protectedHashes).1.isSome ↔
      n ≤ ((CachePolicy.lru (F := F) p).evictables protectedHashes).length := by
  show (p.evict n protectedHashes).1.isSome ↔
    n ≤ (p.blocks.entries.filter (evictable protectedHashes)).length
  unfold LRUCachePolicy.evict
  by_cases hn : n = 0
  · rw [if_pos hn]
    exact ⟨fun _ => hn ▸ Nat.zero_le _, fun _ => rfl⟩
  · rw [if_neg hn]
    have hlen : (p.candidates n protectedHashes).length =
        min n (p.blocks.entries.filter (evictable protectedHashes)).length := length_take
    by_cases hfew : (p.candidates n protectedHashes).length < n
    · rw [if_pos hfew]
      exact ⟨nofun, fun h => by omega⟩
    · rw [if_neg hfew]
      exact ⟨fun _ => by omega, fun _ => rfl⟩

theorem evict_isSome_arc {p : ARCCachePolicy H F} (hp : (arc p).WF) :
    ((CachePolicy.arc p).evict n protectedHashes).1.isSome ↔
      n ≤ min (p.t1.entries.filter (evictable protectedHashes)).length
          (p.t1.entries.length + 1 - PyFloat.int p.targetT1Size).toNat +
        (p.t2.entries.filter (evictable protectedHashes)).length := by
  have hrem : ∀ t : Dict H BlockStatus, ARCCachePolicy.remaining t protectedHashes ∅ =
      t.entries.filter (evictable protectedHashes) := by
    intro t
    refine filter_congr fun e _ => ?_
    simp
  have hloop := ARCCachePolicy.selectCandidates_isSome protectedHashes hp n [] ∅ p.t1.entries.length
  rw [hrem, hrem] at hloop
  show (p.evict n protectedHashes).1.isSome ↔ _
  unfold ARCCachePolicy.evict
  by_cases hn : n = 0
  · rw [if_pos hn]
    exact ⟨fun _ => hn ▸ Nat.zero_le _, fun _ => rfl⟩
  · rw [if_neg hn, ← hloop]
    cases p.selectCandidates protectedHashes n [] ∅ p.t1.entries.length with
    | none => exact Iff.rfl
    | some cs => exact ⟨fun _ => rfl, fun _ => rfl⟩

/-- An eviction that returns blocks returns `n` different ones that may be evicted. -/
theorem evict_evictables (hp : p.WF) {evicted : List (H × BlockStatus)}
    (h : (p.evict n protectedHashes).1 = some evicted) :
    evicted.length = n ∧ evicted.Nodup ∧ evicted ⊆ p.evictables protectedHashes := by
  have hevict : p.evict n protectedHashes = (some evicted, (p.evict n protectedHashes).2) :=
    Prod.ext h rfl
  obtain ⟨hperm, hlen, hev⟩ := evict_some hevict
  have hnodup : (evicted ++ (p.evict n protectedHashes).2.entries).Nodup := hperm.nodup hp.of_map
  refine ⟨hlen, hnodup.of_append_left, fun e he => mem_filter.mpr ⟨?_, hev e he⟩⟩
  exact hperm.symm.subset (mem_append_left _ he)

/-- The eviction is complete if and only if it succeeds or too few blocks may be evicted. -/
theorem evictsCompletely_iff (hp : p.WF) : p.EvictsCompletely n protectedHashes ↔
    (p.evict n protectedHashes).1.isSome ∨ (p.evictables protectedHashes).length < n := by
  constructor
  · intro h
    by_cases hn : n ≤ (p.evictables protectedHashes).length
    · obtain ⟨evicted, hevict, -⟩ := h.enough hn
      exact .inl (hevict ▸ rfl)
    · exact .inr (Nat.not_le.mp hn)
  · intro h
    refine ⟨fun hn => ?_, fun hfew => ?_, fun hnone => evict_none (Prod.ext hnone rfl)⟩
    · rcases h with hsome | hfew
      · obtain ⟨evicted, hevict⟩ := Option.isSome_iff_exists.mp hsome
        exact ⟨evicted, hevict, evict_evictables hp hevict⟩
      · omega
    · cases hevict : (p.evict n protectedHashes).1 with
      | none => rfl
      | some evicted =>
        obtain ⟨hlen, hnodup, hsub⟩ := evict_evictables hp hevict
        have := (hnodup.subperm hsub).length_le
        omega

theorem evictsCompletely_iff_reaches (n : Nat) (protectedHashes : Finset H) (hp : p.WF) :
    p.EvictsCompletely n protectedHashes ↔ p.EvictionReaches n protectedHashes := by
  rw [evictsCompletely_iff hp]
  cases p with
  | lru p =>
    rw [evict_isSome_lru]
    exact ⟨fun _ => trivial, fun _ => le_or_gt _ _⟩
  | arc p =>
    rw [evict_isSome_arc hp]
    have hlen : ((arc p).evictables protectedHashes).length =
        (p.t1.entries.filter (evictable protectedHashes)).length +
          (p.t2.entries.filter (evictable protectedHashes)).length := by
      show ((p.t1.entries ++ p.t2.entries).filter _).length = _
      rw [filter_append, length_append]
    rw [hlen]
    exact .rfl

end CachePolicy

/-- The eviction is complete, and a `prepare_store` that returns `None` changes nothing. -/
def EvictionSound [PyFloat F] (m : CPUOffloadingManager H F) (n : Nat) (protectedHashes : Finset H) :
    Prop :=
  m.policy.EvictsCompletely n protectedHashes ∧
    ∀ blockHashes m', m.prepareStore blockHashes = .ok (none, m') → m' = m

theorem CPUOffloadingManager.prepareStore_none [PyFloat F] {m m' : CPUOffloadingManager H F}
    {blockHashes : List H} (h : m.prepareStore blockHashes = .ok (none, m')) : m' = m := by
  have hstore : ∀ (m : CPUOffloadingManager H F) (toStore toEvict : List H),
      m.storeBlocks toStore toEvict ≠ .ok (none, m') := by
    intro m toStore toEvict h
    obtain ⟨_, -, h⟩ := bind_ok h
    obtain ⟨_, -, h⟩ := bind_ok h
    cases h
  unfold prepareStore at h
  dsimp only at h
  split at h
  · cases h
  · split at h
    · split at h
      · rename_i policy hevict
        cases h
        rw [CachePolicy.evict_none hevict]
      · exact absurd h (hstore _ _ _)
    · exact absurd h (hstore _ _ _)

variable [Repr H] [PyFloat F]

/-- In every run, for all `n` and protected sets: the eviction is complete and leaves
nothing half done if and only if it is LRU's, or the candidates that ARC reaches suffice,
or there are too few in all. -/
theorem evict_complete_iff (blockSize numBlocks : Nat) (cachePolicy : CachePolicyName)
    (enableEvents : Bool) :
    (offloadRuns H F blockSize numBlocks cachePolicy enableEvents).Invariant fun r =>
      ∀ n protectedHashes, EvictionSound r.manager n protectedHashes ↔
        r.manager.policy.EvictionReaches n protectedHashes := by
  intro r hreach n protectedHashes
  have hwf := (offloadRuns_inductive.invariant r hreach).1.conserved.wf
  have hiff := CachePolicy.evictsCompletely_iff_reaches n protectedHashes hwf
  constructor
  · exact fun h => hiff.mp h.1
  · exact fun h => ⟨hiff.mpr h, fun _ _ => CPUOffloadingManager.prepareStore_none⟩

theorem steps?_reachable {blockSize numBlocks : Nat} {cachePolicy : CachePolicyName}
    {enableEvents : Bool} {calls : List (Call H)} {r r' : OffloadRun H F}
    (hr : (offloadRuns H F blockSize numBlocks cachePolicy enableEvents).Reachable r)
    (h : r.steps? calls = some r') :
    (offloadRuns H F blockSize numBlocks cachePolicy enableEvents).Reachable r' := by
  induction calls generalizing r with
  | nil =>
    cases h
    exact hr
  | cons call calls ih =>
    obtain ⟨r1, hcall, h⟩ := Option.bind_eq_some_iff.mp h
    exact ih (hr.step ⟨call, hcall⟩) h

/-- Two blocks are stored, a third displaces the first, and the first is asked for twice:
the target of `t1` grows to the capacity, both blocks are in `t1` and free. -/
def displacedTwiceTouched : List (Call Nat) :=
  [.prepareStore [1, 2], .completeStore [1, 2] true, .prepareStore [3], .completeStore [3] true,
    .touch [1], .touch [1]]

/-- The manager after those calls, of capacity 2. -/
def displacedRun : OffloadRun Nat ℚ :=
  (OffloadRun.steps? { manager := .init 16 2 .arc false } displacedTwiceTouched).get
    (by decide +kernel)

/-- ARC evicts only one of the two free blocks and gives up on two. -/
theorem arc_evict_gives_up : ¬ (offloadRuns Nat ℚ 16 2 .arc false).Invariant fun r =>
    ∀ n protectedHashes, EvictionSound r.manager n protectedHashes := by
  intro hinv
  have hreach : (offloadRuns Nat ℚ 16 2 .arc false).Reachable displacedRun :=
    steps?_reachable (.init rfl) (Option.some_get _).symm
  have henough : 2 ≤ (displacedRun.manager.policy.evictables ∅).length := by decide +kernel
  have hnone : (displacedRun.manager.policy.evict 2 ∅).1 = none := by decide +kernel
  obtain ⟨evicted, hsome, -⟩ := (hinv displacedRun hreach 2 ∅).1.enough henough
  rw [hnone] at hsome
  cases hsome

end MyOperator.Offload
