import MyOperator.Offload.PolicySpec

/-!
# The lists of ARC

A hash moves from `t1` to `t2` when it is touched again, and to `b1` or `b2` when it is
evicted. Whatever the calls are, it is in one of the four lists at most, the cached
blocks fit in the capacity and so does each ghost list, and the target for `t1` stays
between nothing and the capacity.
-/

namespace MyOperator.Offload

open Lib Dict Finset Nat

/-- What the arithmetic of `float` is relied on for. -/
class LawfulPyFloat (F : Type) [PyFloat F] [LE F] : Prop where
  le_rfl : ∀ x : F, x ≤ x
  le_trans : ∀ x y z : F, x ≤ y → y ≤ z → x ≤ z
  natCast_nonneg : ∀ n : Nat, ((0 : Nat) : F) ≤ (n : F)
  add_nonneg : ∀ x y : F, ((0 : Nat) : F) ≤ x → ((0 : Nat) : F) ≤ y → ((0 : Nat) : F) ≤ x + y
  div_nonneg : ∀ x y : F, ((0 : Nat) : F) ≤ x → ((0 : Nat) : F) ≤ y → ((0 : Nat) : F) ≤ x / y
  sub_le : ∀ x y : F, ((0 : Nat) : F) ≤ y → x - y ≤ x
  min_le_right : ∀ x y : F, min x y ≤ y
  le_min : ∀ x y z : F, z ≤ x → z ≤ y → z ≤ min x y
  le_max_right : ∀ x y : F, y ≤ max x y
  max_le : ∀ x y z : F, x ≤ z → y ≤ z → max x y ≤ z

instance : LawfulPyFloat ℚ where
  le_rfl _ := Rat.le_refl
  le_trans _ _ _ h h' := Rat.le_trans h h'
  natCast_nonneg n := cast_le.mpr (Nat.zero_le n)
  add_nonneg x y hx hy := by
    rw [cast_zero] at *
    exact add_nonneg hx hy
  div_nonneg x y hx hy := by
    rw [cast_zero] at *
    exact div_nonneg hx hy
  sub_le x y hy := by
    rw [cast_zero] at hy
    exact sub_le_self x hy
  min_le_right := min_le_right
  le_min _ _ _ := le_min
  le_max_right := le_max_right
  max_le _ _ _ := max_le

theorem pairwise_disjoint_iff {α : Type} [DecidableEq α] {s t u v : Finset α} :
    [s, t, u, v].Pairwise Disjoint ↔ ∀ k, (k ∈ s → k ∉ t ∧ k ∉ u ∧ k ∉ v) ∧
      (k ∈ t → k ∉ u ∧ k ∉ v) ∧ (k ∈ u → k ∉ v) := by
  simp only [List.pairwise_cons, List.mem_cons, List.not_mem_nil, or_false, forall_eq_or_imp,
    forall_eq, disjoint_left, IsEmpty.forall_iff, implies_true, List.Pairwise.nil, and_true]
  grind

namespace ARCCachePolicy

variable {H F : Type} [DecidableEq H] [PyFloat F] {p p' : ARCCachePolicy H F} {c : Nat}

/-- No hash is in two of the lists. -/
def Apart (p : ARCCachePolicy H F) : Prop :=
  [p.t1.keySet, p.t2.keySet, p.b1.keySet, p.b2.keySet].Pairwise Disjoint

omit [PyFloat F] in
theorem apart_iff : p.Apart ↔ ∀ k,
    (k ∈ p.t1.keySet → k ∉ p.t2.keySet ∧ k ∉ p.b1.keySet ∧ k ∉ p.b2.keySet) ∧
      (k ∈ p.t2.keySet → k ∉ p.b1.keySet ∧ k ∉ p.b2.keySet) ∧
      (k ∈ p.b1.keySet → k ∉ p.b2.keySet) := pairwise_disjoint_iff

omit [PyFloat F] in
theorem Apart.insert {blockHash : H} (h : p.Apart) (hnew : p.t2.get? blockHash = none)
    (block : BlockStatus) : (p.insert blockHash block).Apart := by
  rw [apart_iff] at h ⊢
  intro k
  show (k ∈ (p.t1.set blockHash block).keySet → k ∉ p.t2.keySet ∧
      k ∉ (p.b1.erase blockHash).keySet ∧ k ∉ (p.b2.erase blockHash).keySet) ∧
    (k ∈ p.t2.keySet → k ∉ (p.b1.erase blockHash).keySet ∧ k ∉ (p.b2.erase blockHash).keySet) ∧
    (k ∈ (p.b1.erase blockHash).keySet → k ∉ (p.b2.erase blockHash).keySet)
  have hnot : blockHash ∉ p.t2.keySet := not_mem_keySet.mpr hnew
  simp only [keySet_set, keySet_erase, mem_insert, mem_erase]
  grind

omit [PyFloat F] in
theorem Apart.remove (h : p.Apart) (blockHash : H) : (p.remove blockHash).Apart := by
  rw [apart_iff] at h ⊢
  intro k
  unfold ARCCachePolicy.remove
  split
  · simp only [keySet_erase, mem_erase]
    grind
  · simp only [keySet_erase, mem_erase]
    grind

theorem Apart.touchBlock (h : p.Apart) (blockHash : H) : (p.touchBlock blockHash).Apart := by
  rw [apart_iff] at h ⊢
  intro k
  unfold ARCCachePolicy.touchBlock
  split
  · rename_i block hget
    have hmem : blockHash ∈ p.t1.keySet := mem_keySet.mpr ⟨block, hget⟩
    split
    · simp only [keySet_set, keySet_erase, mem_insert, mem_erase]
      grind
    · -- the block changes over to `t2`
      simp only [keySet_set, keySet_erase]
      grind
  · split
    · simp only [Dict.keySet_moveToEnd]
      exact h k
    · split
      · simp only [Dict.keySet_moveToEnd]
        exact h k
      · split
        · simp only [Dict.keySet_moveToEnd]
          exact h k
        · exact h k

omit [PyFloat F] in
theorem Apart.evictCandidates {cs : List (H × BlockStatus × Bool)} (h : p.Apart)
    (hcs : (cs.map Prod.fst).Nodup)
    (hmem : ∀ c ∈ cs, (if c.2.2 then p.t1 else p.t2).get? c.1 = some c.2.1) :
    (cs.foldl evictCandidate p).Apart := by
  induction cs generalizing p with
  | nil => exact h
  | cons c cs ih =>
    rw [List.map_cons, List.nodup_cons] at hcs
    have hhead := hmem c List.mem_cons_self
    rw [List.foldl_cons]
    refine ih ?_ hcs.2 ?_
    · rw [apart_iff] at h ⊢
      intro k
      unfold evictCandidate
      split
      · rename_i hflag
        rw [if_pos hflag] at hhead
        have hin : c.1 ∈ p.t1.keySet := mem_keySet.mpr ⟨_, hhead⟩
        simp only [keySet_set, keySet_erase, mem_insert, mem_erase]
        grind
      · rename_i hflag
        rw [if_neg hflag] at hhead
        have hin : c.1 ∈ p.t2.keySet := mem_keySet.mpr ⟨_, hhead⟩
        simp only [keySet_set, keySet_erase, mem_insert, mem_erase]
        grind
    · intro c' hc'
      have hne : c'.1 ≠ c.1 := fun heq => hcs.1 (heq ▸ List.mem_map_of_mem hc')
      have hold := hmem c' (List.mem_cons_of_mem _ hc')
      obtain ⟨h1, h2⟩ := get?_evictCandidate (p := p) hne
      split
      · rename_i hflag
        rw [if_pos hflag] at hold
        exact h1.trans hold
      · rename_i hflag
        rw [if_neg hflag] at hold
        exact h2.trans hold

/-! ## Ghost lists -/

omit [DecidableEq H] in
theorem trimGhost_entries (n : Nat) (ghost : Dict H Unit) :
    (Dict.popFirst^[n] ghost).entries = ghost.entries.drop n := by
  induction n generalizing ghost with
  | zero => rfl
  | succ n ih =>
    rw [Function.iterate_succ_apply, ih]
    show ghost.entries.tail.drop n = _
    rw [List.drop_tail]

omit [DecidableEq H] in
theorem length_trimGhost_le (c : Nat) (ghost : Dict H Unit) :
    (trimGhost c ghost).entries.length ≤ c := by
  unfold trimGhost
  rw [trimGhost_entries, List.length_drop]
  omega

theorem trimGhost_subset (c : Nat) (ghost : Dict H Unit) :
    (trimGhost c ghost).keySet ⊆ ghost.keySet := by
  unfold trimGhost Dict.keySet
  rw [trimGhost_entries, List.map_drop]
  intro k hk
  rw [List.mem_toFinset] at hk ⊢
  exact List.mem_of_mem_drop hk

omit [PyFloat F] in
theorem Apart.trimGhosts (h : p.Apart) : p.trimGhosts.Apart := by
  rw [apart_iff] at h ⊢
  intro k
  have h1 := @trimGhost_subset H _ p.cacheCapacity p.b1 k
  have h2 := @trimGhost_subset H _ p.cacheCapacity p.b2 k
  show (k ∈ p.t1.keySet → k ∉ p.t2.keySet ∧ k ∉ (trimGhost p.cacheCapacity p.b1).keySet ∧
      k ∉ (trimGhost p.cacheCapacity p.b2).keySet) ∧
    (k ∈ p.t2.keySet → k ∉ (trimGhost p.cacheCapacity p.b1).keySet ∧
      k ∉ (trimGhost p.cacheCapacity p.b2).keySet) ∧
    (k ∈ (trimGhost p.cacheCapacity p.b1).keySet → k ∉ (trimGhost p.cacheCapacity p.b2).keySet)
  grind

omit [PyFloat F] in
theorem Apart.wf (h : p.Apart) : (CachePolicy.arc p).WF := by
  show ((p.t1.entries ++ p.t2.entries).map Prod.fst).Nodup
  rw [List.map_append]
  refine List.nodup_append'.mpr ⟨p.t1.nodupKeys, p.t2.nodupKeys, fun k h1 h2 => ?_⟩
  rw [apart_iff] at h
  exact ((h k).1 (List.mem_toFinset.mpr h1)).1 (List.mem_toFinset.mpr h2)

/-! ## The sizes -/

/-- No hash is in two of the lists, and the lists and the target fit in the capacity `c`. -/
structure Balanced [LE F] (c : Nat) (p : ARCCachePolicy H F) : Prop where
  capacity : p.cacheCapacity = c
  disjoint : [p.t1.keySet, p.t2.keySet, p.b1.keySet, p.b2.keySet].Pairwise Disjoint
  cached : p.t1.entries.length + p.t2.entries.length ≤ c
  b1 : p.b1.entries.length ≤ c
  b2 : p.b2.entries.length ≤ c
  target_nonneg : ((0 : Nat) : F) ≤ p.targetT1Size
  target_le : p.targetT1Size ≤ (c : F)

/-- One call. A block is inserted when there is room for it. It is newly allocated, so it is not one
of `t2`; it is in `t1` if the caller's list names it twice. Between the calls the owner of the policy
changes the reference counts of the blocks. -/
inductive Step (p p' : ARCCachePolicy H F) : Prop
  | insert (blockHash : H) (block : BlockStatus) : p.t2.get? blockHash = none →
      p.t1.entries.length + p.t2.entries.length < p.cacheCapacity →
      p' = p.insert blockHash block → Step p p'
  | remove (blockHash : H) : p' = p.remove blockHash → Step p p'
  | touch (blockHashes : List H) : p' = p.touch blockHashes → Step p p'
  | evict (n : Nat) (protectedHashes : Finset H) : p' = (p.evict n protectedHashes).2 → Step p p'
  | modify (blockHash : H) (f : BlockStatus → BlockStatus) :
      CachePolicy.arc p' = (CachePolicy.arc p).modify blockHash f → Step p p'

variable [LE F]

section

variable (h : p.Balanced c)
include h

theorem Balanced.insert {blockHash : H} (hnew : p.t2.get? blockHash = none)
    (hroom : p.t1.entries.length + p.t2.entries.length < p.cacheCapacity) (block : BlockStatus) :
    (p.insert blockHash block).Balanced c := by
  refine ⟨h.capacity, Apart.insert h.disjoint hnew block, ?_, ?_, ?_, h.target_nonneg, h.target_le⟩
  · show (p.t1.set blockHash block).entries.length + p.t2.entries.length ≤ c
    have hlen := (Dict.entries_set_perm (d := p.t1) (k := blockHash) block).length_eq
    have hle := Dict.length_erase_le (d := p.t1) (k := blockHash)
    rw [List.length_cons] at hlen
    rw [h.capacity] at hroom
    omega
  · exact Dict.length_erase_le.trans h.b1
  · exact Dict.length_erase_le.trans h.b2

theorem Balanced.remove (blockHash : H) : (p.remove blockHash).Balanced c := by
  have hapart := Apart.remove h.disjoint blockHash
  have hcached := h.cached
  unfold ARCCachePolicy.remove at hapart ⊢
  split at hapart
  · refine ⟨h.capacity, hapart, ?_, h.b1, h.b2, h.target_nonneg, h.target_le⟩
    have := Dict.length_erase_le (d := p.t1) (k := blockHash)
    dsimp only
    omega
  · refine ⟨h.capacity, hapart, ?_, h.b1, h.b2, h.target_nonneg, h.target_le⟩
    have := Dict.length_erase_le (d := p.t2) (k := blockHash)
    dsimp only
    omega

/-- What `touch` does to the ghost lists and the target: a hit moves the target by at least one,
within the bounds. -/
theorem touchBlock_bounds [LawfulPyFloat F] (blockHash : H) :
    (p.touchBlock blockHash).cacheCapacity = c ∧
      (p.touchBlock blockHash).b1.entries.length ≤ c ∧
      (p.touchBlock blockHash).b2.entries.length ≤ c ∧
      ((0 : Nat) : F) ≤ (p.touchBlock blockHash).targetT1Size ∧
      (p.touchBlock blockHash).targetT1Size ≤ (c : F) := by
  have hdelta : ∀ other ghost : Dict H Unit, ((0 : Nat) : F) ≤ delta other ghost := by
    intro other ghost
    refine LawfulPyFloat.le_trans _ _ _ ?_ (LawfulPyFloat.le_max_right _ _)
    exact LawfulPyFloat.div_nonneg _ _ (LawfulPyFloat.natCast_nonneg _)
      (LawfulPyFloat.natCast_nonneg _)
  have hsame : ∀ ghost : Dict H Unit,
      (ghost.moveToEnd blockHash).entries.length = ghost.entries.length :=
    fun ghost => Dict.entries_moveToEnd.length_eq
  unfold touchBlock
  split
  · split
    · exact ⟨h.capacity, h.b1, h.b2, h.target_nonneg, h.target_le⟩
    · exact ⟨h.capacity, h.b1, h.b2, h.target_nonneg, h.target_le⟩
  · split
    · exact ⟨h.capacity, h.b1, h.b2, h.target_nonneg, h.target_le⟩
    · split
      · rw [hsame, h.capacity]
        refine ⟨rfl, h.b1, h.b2, LawfulPyFloat.le_min _ _ _ ?_ ?_, LawfulPyFloat.min_le_right _ _⟩
        · exact LawfulPyFloat.add_nonneg _ _ h.target_nonneg (hdelta _ _)
        · exact LawfulPyFloat.natCast_nonneg c
      · split
        · rw [hsame]
          refine ⟨h.capacity, h.b1, h.b2, LawfulPyFloat.le_max_right _ _,
            LawfulPyFloat.max_le _ _ _ ?_ ?_⟩
          · exact LawfulPyFloat.le_trans _ _ _ (LawfulPyFloat.sub_le _ _ (hdelta _ _)) h.target_le
          · exact LawfulPyFloat.natCast_nonneg c
        · exact ⟨h.capacity, h.b1, h.b2, h.target_nonneg, h.target_le⟩

theorem Balanced.touchBlock [LawfulPyFloat F] (blockHash : H) :
    (p.touchBlock blockHash).Balanced c := by
  obtain ⟨hcapacity, hb1, hb2, hnonneg, hle⟩ := touchBlock_bounds h blockHash
  refine ⟨hcapacity, Apart.touchBlock h.disjoint blockHash, ?_, hb1, hb2, hnonneg, hle⟩
  have hlen := (CachePolicy.touchBlock_perm (Apart.wf h.disjoint) blockHash).length_eq
  have hcached := h.cached
  unfold CachePolicy.entries at hlen
  rw [List.length_append, List.length_append] at hlen
  omega

theorem Balanced.touch [LawfulPyFloat F] (blockHashes : List H) :
    (p.touch blockHashes).Balanced c := by
  unfold ARCCachePolicy.touch
  generalize blockHashes.reverse = l
  induction l generalizing p with
  | nil => exact h
  | cons blockHash l ih => exact ih (h.touchBlock blockHash)

theorem Balanced.evict (n : Nat) (protectedHashes : Finset H) :
    (p.evict n protectedHashes).2.Balanced c := by
  cases n with
  | zero => exact h
  | succ m =>
    cases hsel : p.selectCandidates protectedHashes (m + 1) [] ∅ p.t1.entries.length with
    | none =>
      unfold ARCCachePolicy.evict
      rw [if_neg (succ_ne_zero m), hsel]
      exact h
    | some cs =>
      have hevict : p.evict (m + 1) protectedHashes =
          (some (cs.map fun c => (c.1, c.2.1)), (cs.foldl evictCandidate p).trimGhosts) := by
        unfold ARCCachePolicy.evict
        rw [if_neg (succ_ne_zero m), hsel]
      have hboth : (CachePolicy.arc p).evict (m + 1) protectedHashes =
          (some (cs.map fun c => (c.1, c.2.1)), .arc (cs.foldl evictCandidate p).trimGhosts) := by
        unfold CachePolicy.evict
        dsimp only
        rw [hevict]
      obtain ⟨hperm, -, -⟩ := CachePolicy.evict_some hboth
      rw [hevict]
      obtain ⟨new, hcs, -, hnodup, hnew⟩ := selectCandidates_some hsel
      subst hcs
      -- the evictions touch neither the capacity nor the target
      have hframe : ∀ (cs : List (H × BlockStatus × Bool)) (p : ARCCachePolicy H F),
          (cs.foldl evictCandidate p).cacheCapacity = p.cacheCapacity ∧
            (cs.foldl evictCandidate p).targetT1Size = p.targetT1Size := by
        intro cs
        induction cs with
        | nil => exact fun p => ⟨rfl, rfl⟩
        | cons c cs ih =>
          intro p
          obtain ⟨hcapacity, htarget⟩ := ih (p.evictCandidate c)
          rw [List.foldl_cons, hcapacity, htarget]
          unfold evictCandidate
          split
          · exact ⟨rfl, rfl⟩
          · exact ⟨rfl, rfl⟩
      obtain ⟨hcapacity, htarget⟩ := hframe cs p
      have hghost : ∀ ghost : Dict H Unit,
          (trimGhost (cs.foldl evictCandidate p).cacheCapacity ghost).entries.length ≤ c := by
        intro ghost
        rw [hcapacity, h.capacity]
        exact length_trimGhost_le c ghost
      have hapart : (cs.foldl evictCandidate p).Apart :=
        Apart.evictCandidates h.disjoint hnodup fun c hc => (hnew c hc).2.2
      refine ⟨hcapacity.trans h.capacity, hapart.trimGhosts, ?_, hghost _, hghost _, ?_, ?_⟩
      · have hlen := hperm.length_eq
        have hcached := h.cached
        unfold CachePolicy.entries at hlen
        rw [List.length_append, List.length_append, List.length_append] at hlen
        dsimp only at hlen ⊢
        omega
      · show ((0 : Nat) : F) ≤ (cs.foldl evictCandidate p).targetT1Size
        rw [htarget]
        exact h.target_nonneg
      · show (cs.foldl evictCandidate p).targetT1Size ≤ (c : F)
        rw [htarget]
        exact h.target_le

theorem Balanced.modify {blockHash : H} {f : BlockStatus → BlockStatus}
    (hmod : CachePolicy.arc p' = (CachePolicy.arc p).modify blockHash f) : p'.Balanced c := by
  have hcached := h.cached
  have hdisjoint := h.disjoint
  unfold CachePolicy.modify at hmod
  dsimp only at hmod
  split at hmod
  · cases hmod
    refine ⟨h.capacity, ?_, ?_, h.b1, h.b2, h.target_nonneg, h.target_le⟩
    · rw [Dict.keySet_modify]
      exact hdisjoint
    · rw [Dict.length_modify]
      exact hcached
  · cases hmod
    refine ⟨h.capacity, ?_, ?_, h.b1, h.b2, h.target_nonneg, h.target_le⟩
    · rw [Dict.keySet_modify]
      exact hdisjoint
    · rw [Dict.length_modify]
      exact hcached

theorem Balanced.step [LawfulPyFloat F] (hstep : Step p p') : p'.Balanced c := by
  cases hstep with
  | insert blockHash block hnew hroom heq =>
    rw [heq]
    exact h.insert hnew hroom block
  | remove blockHash heq =>
    rw [heq]
    exact h.remove blockHash
  | touch blockHashes heq =>
    rw [heq]
    exact h.touch blockHashes
  | evict n protectedHashes heq =>
    rw [heq]
    exact h.evict n protectedHashes
  | modify blockHash f heq => exact h.modify heq

end

theorem init_balanced [LawfulPyFloat F] (c : Nat) : (init c : ARCCachePolicy H F).Balanced c where
  capacity := rfl
  disjoint := pairwise_disjoint_iff.mpr fun _ => ⟨fun hk => (nomatch hk), fun hk => (nomatch hk),
    fun hk => (nomatch hk)⟩
  cached := Nat.zero_le _
  b1 := Nat.zero_le _
  b2 := Nat.zero_le _
  target_nonneg := LawfulPyFloat.natCast_nonneg 0
  target_le := LawfulPyFloat.natCast_nonneg c

end ARCCachePolicy

/-- The runs of a policy with capacity `c`. -/
def arcRuns (H F : Type) [DecidableEq H] [PyFloat F] (c : Nat) : TSys (ARCCachePolicy H F) where
  init p := p = .init c
  step p p' := ARCCachePolicy.Step p p'

/-- In every run no hash is in two of the lists, the cached blocks and each ghost list fit in the
capacity, and so does the target for `t1`. -/
theorem arc_balanced (H F : Type) [DecidableEq H] [PyFloat F] [LE F] [LawfulPyFloat F] (c : Nat) :
    (arcRuns H F c).Invariant fun p => p.Balanced c := by
  have hind : (arcRuns H F c).Inductive fun p => p.Balanced c := by
    constructor
    · rintro p rfl
      exact ARCCachePolicy.init_balanced c
    · exact fun p p' hp hstep => hp.step hstep
  exact hind.invariant

theorem arc_balanced_rat : (arcRuns Nat ℚ 2).Invariant fun p => p.Balanced 2 := arc_balanced Nat ℚ 2

end MyOperator.Offload
