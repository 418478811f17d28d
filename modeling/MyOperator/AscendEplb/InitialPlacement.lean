import MyOperator.Eplb.Numpy
import MyOperator.Lib.KeyIndex
import MyOperator.Lib.WorkSplit

/-!
# The initial placement of the experts

The routed experts are split over the ranks in consecutive groups, the redundant slots
top the groups up from the last one backwards with the successors of what they hold,
and every group ends with a shared expert. Without empty groups every rank holds
consecutive experts, wrapped around at most once. A group that is empty, because there
are more ranks than experts, is started with its number counted from the end, which
need not be the number of an expert.
-/

namespace MyOperator.AscendEplb

open Lib List
open Eplb (NumpyError row item setItem length_row getElem?_row row_congr mem_row eq_row modify_row
  zipIdx_row row_succ replicate_eq_row setItem_row item_natCast map_row)

/-! ## The code -/

/-- `np.array_split(np.arange(n), k)`: the first `n % k` groups have one more. -/
def arraySplit (n k : Nat) : List (List Nat) :=
  row k fun i => (range (n / k + if i < n % k then 1 else 0)).map
    fun t => i * (n / k) + min i (n % k) + t

/-- `a % n` of a numpy integer, which is 0 for `n = 0`. -/
def npMod (a n : Nat) : Nat := if n = 0 then 0 else a % n

/-- One redundant slot: group `-j` gets the successor of its last expert, or `j`. -/
def topUp (nExpert epSize : Nat) (groups : List (List Nat)) (i : Nat) : List (List Nat) :=
  let j := i % epSize + 1
  groups.modify (groups.length - j) fun group =>
    match group.getLast? with
    | none => group ++ [j]
    | some last => group ++ [npMod (last + 1) nExpert]

/-- `torch.tensor(groups)`, which takes rows of one length only. -/
def tensorOf (groups : List (List Nat)) : Except NumpyError (List (List Nat)) :=
  if ∀ group ∈ groups, group.length = (groups.headD []).length then .ok groups
  else .error .ValueError

def generateGlobalPlacement (nExpert epSize nRedundant numSharedExperts : Nat) :
    Except NumpyError (List (List Nat)) := do
  let nExpert := nExpert - numSharedExperts
  if epSize = 0 then throw .ZeroDivisionError
  if (nExpert + nRedundant) % epSize ≠ 0 then throw .ValueError
  let groups := (range nRedundant).foldl (topUp nExpert epSize) (arraySplit nExpert epSize)
  tensorOf (if numSharedExperts > 0 then
    groups.mapIdx fun i group => group ++ [nExpert + i % numSharedExperts] else groups)

/-- The expert map of one rank: `expert_map[local_placement] = arange(len)`. -/
def expertMap (nExperts : Nat) (localPlacement : List Nat) : Except NumpyError (List Int) :=
  localPlacement.zipIdx.foldlM (fun expertMap e => setItem expertMap (e.1 : Int) (e.2 : Int))
    (replicate nExperts (-1))

/-- The slots of one rank are appended to those of their experts. -/
def collectSlots (validCount : Nat) (log2phy : Dict Nat (List Int)) (rank : List Int × Nat) :
    Dict Nat (List Int) := rank.1.zipIdx.foldl (fun log2phy e =>
    if e.1 ≠ -1 then log2phy.appendItem e.2 (e.1 + rank.2 * validCount) else log2phy) log2phy

def generateLog2phyMap (globalExpertMap : List (List Int)) (epRank : Nat) :
    Except NumpyError (List Int) := do
  let first ← item globalExpertMap 0
  let validCount := first.countP (· ≠ -1)
  let log2phy := globalExpertMap.zipIdx.foldl (collectSlots validCount) .empty
  -- every key keeps the replica of this rank; `torch.scatter` then lays the values out
  log2phy.entries.foldlM (fun out e => do
      let slot ← item e.2 ((epRank % e.2.length : Nat) : Int)
      setItem out (e.1 : Int) slot)
    (replicate log2phy.entries.length 0)

/-- `init_eplb_config` with dynamic EPLB and no map file: all expert maps, this rank's, its
logical-to-physical map and the number of redundant experts. -/
def initEplbConfig (nExperts epSize epRank nRedundant : Nat) (mixPlacement : Bool)
    (numSharedExperts : Nat) : Except NumpyError (List (List Int) × List Int × List Int × Nat) := do
  let numSharedExperts := if mixPlacement then numSharedExperts else 0
  if epSize = 1 then throw .AssertionError
  let globalPlacement ← generateGlobalPlacement nExperts epSize nRedundant numSharedExperts
  let nRedundant := if mixPlacement then nRedundant + (epSize - 1) else nRedundant
  let globalExpertMap ← globalPlacement.mapM (expertMap nExperts)
  let localExpertMap ← item globalExpertMap (epRank : Int)
  let log2phy ← generateLog2phyMap globalExpertMap epRank
  return (globalExpertMap, localExpertMap, log2phy, nRedundant)

/-! ## The groups -/

def groupStart (n k i : Nat) : Nat := i * (n / k) + min i (n % k)

def groupSize (n k i : Nat) : Nat := n / k + if i < n % k then 1 else 0

/-- What group `i` starts with: its first expert, or its number from the end when it is empty. -/
def firstExpert (n k i : Nat) : Nat := if groupSize n k i = 0 then k - i else groupStart n k i

/-- `m` experts from `f` on, wrapped around at `n`; only `f` itself is not reduced. -/
def held (n f m : Nat) : List Nat := row m fun t => if t = 0 then f else (f + t) % n

section Groups

variable {n k i : Nat}

theorem groupStart_succ (n k i : Nat) : groupStart n k (i + 1) = groupStart n k i + groupSize n k i := by
  rw [groupStart, groupStart, groupSize, add_mul]
  split <;> omega

theorem groupStart_full (hk : 0 < k) : groupStart n k k = n := by
  rw [groupStart, min_eq_right (Nat.mod_lt n hk).le]
  exact Nat.div_add_mod n k

theorem groupStart_mono {j : Nat} (hij : i ≤ j) : groupStart n k i ≤ groupStart n k j := by
  induction hij with
  | refl => exact le_rfl
  | step _ ih =>
    rw [groupStart_succ]
    omega

theorem group_le (hi : i < k) : groupStart n k i + groupSize n k i ≤ n := by
  rw [← groupStart_succ]
  calc groupStart n k (i + 1) ≤ groupStart n k k := groupStart_mono hi
    _ = n := groupStart_full (by omega)

theorem exists_group {e : Nat} (hk : 0 < k) (he : e < n) :
    ∃ i < k, groupStart n k i ≤ e ∧ e < groupStart n k i + groupSize n k i := by
  have hend : e < groupStart n k (k - 1) + groupSize n k (k - 1) := by
    rwa [← groupStart_succ, Nat.sub_add_cancel hk, groupStart_full hk]
  have hstep : ∀ i, i + 1 < k → groupStart n k (i + 1) = groupStart n k i + groupSize n k i :=
    fun i _ => groupStart_succ n k i
  obtain ⟨i, hi, hin⟩ := Splits.chain_cover (by simp [groupStart]) hstep (by omega : k - 1 < k) hend
  exact ⟨i, by omega, hin⟩

theorem arraySplit_eq (n k : Nat) :
    arraySplit n k = row k fun i => held n (firstExpert n k i) (groupSize n k i) := by
  refine row_congr fun i hi => ?_
  refine map_congr_left fun t ht => ?_
  have ht : t < groupSize n k i := mem_range.mp ht
  have hle := group_le (n := n) hi
  have hsize : groupSize n k i ≠ 0 := by omega
  show groupStart n k i + t = if t = 0 then firstExpert n k i else (firstExpert n k i + t) % n
  rw [firstExpert, if_neg hsize]
  by_cases ht0 : t = 0
  · rw [if_pos ht0, ht0, add_zero]
  · rw [if_neg ht0, Nat.mod_eq_of_lt (by omega)]

theorem held_succ (n f m : Nat) :
    held n f (m + 1) = held n f m ++ [if m = 0 then f else (f + m) % n] := row_succ

theorem rounds_succ {s : Nat} (hi : i < k) :
    (s + 1 + i) / k = (s + i) / k + if i = k - (s % k + 1) then 1 else 0 := by
  have hk : 0 < k := by omega
  have hmod : s % k < k := Nat.mod_lt s hk
  have hdvd : k ∣ s + i + 1 ↔ i = k - (s % k + 1) := by
    have hsplit : s + i + 1 = k * (s / k) + (s % k + i + 1) := by
      have := Nat.div_add_mod s k
      omega
    rw [hsplit, Nat.dvd_add_right (Nat.dvd_mul_right k _)]
    constructor
    · rintro ⟨c, hc⟩
      have hc1 : c = 1 := by
        rcases lt_trichotomy c 1 with h | h | h
        · rw [Nat.lt_one_iff.mp h] at hc
          omega
        · exact h
        · have : k * 2 ≤ k * c := Nat.mul_le_mul_left k h
          omega
      rw [hc1] at hc
      omega
    · intro h
      exact ⟨1, by omega⟩
  rw [show s + 1 + i = s + i + 1 by omega, Nat.succ_div]
  simp only [hdvd]

theorem topUp_held (hn : 0 < n) (j f m : Nat) (hempty : m = 0 → f = j) :
    (match (held n f m).getLast? with
      | none => held n f m ++ [j]
      | some last => held n f m ++ [npMod (last + 1) n]) = held n f (m + 1) := by
  cases m with
  | zero =>
    rw [hempty rfl]
    rfl
  | succ m =>
    have hlast : (held n f (m + 1)).getLast? = some (if m = 0 then f else (f + m) % n) := by
      rw [held_succ, getLast?_concat]
    rw [hlast]
    dsimp only
    rw [held_succ n f (m + 1), if_neg (Nat.succ_ne_zero m), npMod, if_neg (by omega)]
    by_cases hm : m = 0
    · rw [if_pos hm, hm]
    · rw [if_neg hm, Nat.mod_add_mod, add_assoc]

theorem foldl_topUp {s : Nat} (hs : 0 < n ∨ s = 0) :
    (range s).foldl (topUp n k) (arraySplit n k) =
      row k fun i => held n (firstExpert n k i) (groupSize n k i + (s + i) / k) := by
  induction s with
  | zero =>
    rw [arraySplit_eq]
    refine row_congr fun i hi => ?_
    rw [zero_add, Nat.div_eq_of_lt hi, add_zero]
  | succ s ih =>
    have hn : 0 < n := hs.resolve_right (Nat.succ_ne_zero s)
    rw [range_succ, foldl_append, ih (.inl hn), foldl_cons, foldl_nil]
    unfold topUp
    rw [length_row, modify_row]
    refine row_congr fun i hi => ?_
    rw [rounds_succ hi]
    by_cases hlast : i = k - (s % k + 1)
    · rw [← hlast, Function.update_self, if_pos rfl]
      have hk : 0 < k := by omega
      have hmod := Nat.mod_lt s hk
      have htop := topUp_held hn (s % k + 1) (firstExpert n k i)
        (groupSize n k i + (s + i) / k) (fun hzero => by
          rw [firstExpert, if_pos (Nat.add_eq_zero_iff.mp hzero).1]
          omega)
      exact htop
    · rw [Function.update_of_ne hlast, if_neg hlast, add_zero]

theorem group_total {red : Nat} (hi : i < k) (hdvd : k ∣ n + red) :
    groupSize n k i + (red + i) / k = (n + red) / k := by
  have hk : 0 < k := by omega
  obtain ⟨s, hs⟩ := hdvd
  have hmod : n % k < k := Nat.mod_lt n hk
  have hn := Nat.div_add_mod n k
  have hle : n / k ≤ s := by
    by_contra hlt
    have : k * (s + 1) ≤ k * (n / k) := Nat.mul_le_mul_left k (by omega)
    rw [Nat.mul_add] at this
    omega
  obtain ⟨d, rfl⟩ := Nat.exists_eq_add_of_le hle
  rw [mul_add] at hs
  rw [hs, ← Nat.mul_add, Nat.mul_div_cancel_left _ hk, groupSize]
  by_cases hr : i < n % k
  · rw [if_pos hr]
    obtain ⟨d', rfl⟩ : ∃ d', d = d' + 1 := by
      refine ⟨d - 1, ?_⟩
      have : d ≠ 0 := by
        rintro rfl
        omega
      omega
    rw [mul_add] at hs
    have : red + i = k * d' + (k - n % k + i) := by omega
    rw [this, Nat.mul_add_div hk, Nat.div_eq_of_lt (by omega : k - n % k + i < k)]
    omega
  · rw [if_neg hr]
    have : red + i = k * d + (i - n % k) := by omega
    rw [this, Nat.mul_add_div hk, Nat.div_eq_of_lt (by omega : i - n % k < k)]
    omega

end Groups

/-! ## The placement -/

/-- The experts of rank `i`. -/
def rankExperts (n k shared slots i : Nat) : List Nat :=
  held n (firstExpert n k i) slots ++ if shared > 0 then [n + i % shared] else []

section Placement

variable {n k red shared : Nat}

theorem rankExperts_length (slots i : Nat) :
    (rankExperts n k shared slots i).length = slots + if shared > 0 then 1 else 0 := by
  rw [rankExperts, length_append, held, length_row]
  split <;> rfl

theorem mapIdx_row {α β : Type} {m : Nat} (f : Nat → α) (h : Nat → α → β) :
    (row m f).mapIdx h = row m fun i => h i (f i) := by
  refine eq_row (by simp) fun i hi => ?_
  rw [getElem?_mapIdx, getElem?_row, if_pos hi, Option.map_some]

theorem generateGlobalPlacement_eq (hk : 0 < k) (hdvd : k ∣ n + red) (hred : 0 < n ∨ red = 0) :
    generateGlobalPlacement (n + shared) k red shared =
      .ok (row k fun i => rankExperts n k shared ((n + red) / k) i) := by
  have hgroups : (range red).foldl (topUp n k) (arraySplit n k) =
      row k fun i => held n (firstExpert n k i) ((n + red) / k) := by
    rw [foldl_topUp hred]
    exact row_congr fun i hi => by rw [group_total hi hdvd]
  have hrows : (if shared > 0 then
      (row k fun i => held n (firstExpert n k i) ((n + red) / k)).mapIdx
        (fun i group => group ++ [n + i % shared])
      else row k fun i => held n (firstExpert n k i) ((n + red) / k)) =
      row k fun i => rankExperts n k shared ((n + red) / k) i := by
    unfold rankExperts
    split
    · rw [mapIdx_row]
    · exact row_congr fun i _ => (append_nil _).symm
  unfold generateGlobalPlacement
  dsimp only
  rw [Nat.add_sub_cancel, if_neg (by omega), if_neg (not_not.mpr (Nat.mod_eq_zero_of_dvd hdvd)),
    hgroups, hrows]
  refine if_pos fun group hgroup => ?_
  obtain ⟨i, hi, rfl⟩ := mem_row.mp hgroup
  have hhead : (row k fun i => rankExperts n k shared ((n + red) / k) i).headD [] =
      rankExperts n k shared ((n + red) / k) 0 := by
    rw [headD_eq_head?_getD, head?_eq_getElem?, getElem?_row, if_pos hk]
    rfl
  rw [hhead, rankExperts_length, rankExperts_length]

/-! ## What a placement has to be -/

/-- Equally many slots on every rank, every slot a valid expert, every expert placed, none
twice on a rank. -/
structure SoundPlacement (total ranks : Nat) (P : List (List Nat)) : Prop where
  ranks : P.length = ranks
  slots : ∃ slots, ∀ group ∈ P, group.length = slots
  valid : ∀ group ∈ P, ∀ e ∈ group, e < total
  placed : ∀ e < total, ∃ group ∈ P, e ∈ group
  once : ∀ group ∈ P, group.Nodup

/-- The number from the end of an empty group is that of an expert its rank does not hold yet:
a routed expert, or a shared expert other than the rank's own. -/
def EmptyGroupsFit (n k shared : Nat) : Prop :=
  0 < n → ∀ j, n ≤ j → j + n ≤ k → j < n + shared ∧ (k - j) % shared ≠ j - n

theorem add_mod_inj {f t t' : Nat} (ht : t < n) (ht' : t' < n) (h : (f + t) % n = (f + t') % n) :
    t = t' := Nat.ModEq.eq_of_lt_of_lt (Nat.ModEq.add_left_cancel' f h) ht ht'

theorem held_nodup {f m : Nat} (hm : m ≤ n) : (held n f m).Nodup := by
  refine Nodup.map_on ?_ nodup_range
  intro t ht t' ht' heq
  have ht : t < n := by have := mem_range.mp ht; omega
  have ht' : t' < n := by have := mem_range.mp ht'; omega
  have hn : 0 < n := by omega
  by_cases hf : f < n
  · -- the first expert is reduced as well
    have hred : ∀ t, (if t = 0 then f else (f + t) % n) = (f + t) % n := by
      intro t
      split
      · subst_vars
        exact (Nat.mod_eq_of_lt hf).symm
      · rfl
    rw [hred, hred] at heq
    exact add_mod_inj ht ht' heq
  · by_cases h0 : t = 0 <;> by_cases h0' : t' = 0
    · rw [h0, h0']
    · rw [if_pos h0, if_neg h0'] at heq
      have := Nat.mod_lt (f + t') hn
      omega
    · rw [if_neg h0, if_pos h0'] at heq
      have := Nat.mod_lt (f + t) hn
      omega
    · rw [if_neg h0, if_neg h0'] at heq
      exact add_mod_inj ht ht' heq

theorem mem_held {f m e : Nat} (hn : 0 < n) (he : e ∈ held n f m) : e = f ∨ e < n := by
  obtain ⟨t, -, rfl⟩ := mem_row.mp he
  split
  · exact .inl rfl
  · exact .inr (Nat.mod_lt _ hn)

/-- An empty group is one of the last, and there are more ranks than experts. -/
theorem firstExpert_cases {i : Nat} (hi : i < k) :
    (groupSize n k i ≠ 0 ∧ firstExpert n k i = groupStart n k i ∧ firstExpert n k i < n) ∨
      (n < k ∧ n ≤ i ∧ firstExpert n k i = k - i) := by
  by_cases hsize : groupSize n k i = 0
  · right
    have hdiv : n / k = 0 := (Nat.add_eq_zero_iff.mp hsize).1
    have hlt : n < k := by
      rcases Nat.div_eq_zero_iff.mp hdiv with h | h
      · omega
      · exact h
    refine ⟨hlt, ?_, by rw [firstExpert, if_pos hsize]⟩
    rw [groupSize, Nat.mod_eq_of_lt hlt] at hsize
    by_contra hle
    rw [if_pos (not_le.mp hle)] at hsize
    omega
  · left
    have hle := group_le (n := n) hi
    have hfirst : firstExpert n k i = groupStart n k i := by rw [firstExpert, if_neg hsize]
    exact ⟨hsize, hfirst, by omega⟩

theorem slots_pos (hk : 0 < k) (hdvd : k ∣ n + red) (hn : 0 < n) : 0 < (n + red) / k :=
  Nat.div_pos (Nat.le_of_dvd (by omega) hdvd) hk

theorem all_placed (hk : 0 < k) (hdvd : k ∣ n + red) (hshared : shared ≤ k) {e : Nat}
    (he : e < n + shared) :
    ∃ group ∈ row k fun i => rankExperts n k shared ((n + red) / k) i, e ∈ group := by
  by_cases hrouted : e < n
  · obtain ⟨i, hi, hlow, hhigh⟩ := exists_group hk hrouted
    have hin : e - groupStart n k i < (n + red) / k :=
      calc e - groupStart n k i < groupSize n k i := by omega
        _ ≤ groupSize n k i + (red + i) / k := Nat.le_add_right _ _
        _ = (n + red) / k := group_total hi hdvd
    refine ⟨_, mem_row.mpr ⟨i, hi, rfl⟩, mem_append_left _ ?_⟩
    have hfirst : firstExpert n k i = groupStart n k i := by
      rw [firstExpert, if_neg (by omega)]
    refine mem_row.mpr ⟨e - groupStart n k i, hin, ?_⟩
    rw [hfirst]
    split
    · omega
    · rw [Nat.add_sub_cancel' hlow, Nat.mod_eq_of_lt hrouted]
  · refine ⟨_, mem_row.mpr ⟨e - n, by omega, rfl⟩, mem_append_right _ ?_⟩
    rw [if_pos (by omega), mem_singleton, Nat.mod_eq_of_lt (by omega)]
    omega

theorem rank_valid (hfull : (n + red) / k ≤ n) {i : Nat} (hfirst : n = 0 ∨ firstExpert n k i < n ∨
      firstExpert n k i < n + shared ∧ firstExpert n k i ≠ n + i % shared) :
    (∀ e ∈ rankExperts n k shared ((n + red) / k) i, e < n + shared) ∧
      (rankExperts n k shared ((n + red) / k) i).Nodup := by
  have hheld : ∀ e ∈ held n (firstExpert n k i) ((n + red) / k),
      e < n + shared ∧ (0 < shared → e ≠ n + i % shared) := by
    intro e he
    rcases Nat.eq_zero_or_pos n with hn | hn
    · -- without routed experts there are no slots for them
      have hnone : (n + red) / k = 0 := Nat.le_zero.mp (hn ▸ hfull)
      rw [hnone] at he
      cases he
    · rcases mem_held hn he with rfl | hlt
      · rcases hfirst with h | h | h
        · omega
        · exact ⟨by omega, fun _ => by omega⟩
        · exact ⟨h.1, fun _ => h.2⟩
      · exact ⟨by omega, fun _ => by omega⟩
  unfold rankExperts
  by_cases hs : shared > 0
  · rw [if_pos hs]
    have hmod := Nat.mod_lt i hs
    constructor
    · intro e he
      rcases mem_append.mp he with h | h
      · exact (hheld e h).1
      · rw [mem_singleton.mp h]
        omega
    · rw [← concat_eq_append]
      exact (held_nodup hfull).concat fun he => (hheld _ he).2 hs rfl
  · rw [if_neg hs, append_nil]
    exact ⟨fun e he => (hheld e he).1, held_nodup hfull⟩

/-- **The placement is valid** exactly when the empty groups start with experts that fit. -/
theorem soundPlacement_iff (hk : 0 < k) (hdvd : k ∣ n + red) (hfull : (n + red) / k ≤ n)
    (hshared : shared ≤ k) :
    SoundPlacement (n + shared) k (row k fun i => rankExperts n k shared ((n + red) / k) i) ↔
      EmptyGroupsFit n k shared := by
  constructor
  · intro h hn j hnj hjk
    -- rank `k - j` is empty after the split and starts with `j`
    have hi : k - j < k := by omega
    have hfirst : firstExpert n k (k - j) = j := by
      rcases firstExpert_cases (n := n) hi with ⟨hsize, -, -⟩ | ⟨-, -, h⟩
      · have hzero : groupSize n k (k - j) = 0 := by
          rw [groupSize, Nat.div_eq_of_lt (by omega), Nat.mod_eq_of_lt (by omega : n < k),
            if_neg (by omega)]
        exact absurd hzero hsize
      · omega
    have hin : j ∈ held n (firstExpert n k (k - j)) ((n + red) / k) :=
      mem_row.mpr ⟨0, slots_pos hk hdvd hn, hfirst⟩
    have hrow : rankExperts n k shared ((n + red) / k) (k - j) ∈
        row k fun i => rankExperts n k shared ((n + red) / k) i := mem_row.mpr ⟨k - j, hi, rfl⟩
    have hlt := h.valid _ hrow j (mem_append_left _ hin)
    refine ⟨hlt, fun heq => ?_⟩
    have honce := h.once _ hrow
    rw [rankExperts, if_pos (by omega), nodup_append] at honce
    exact honce.2.2 j hin _ mem_cons_self (by omega)
  · intro h
    have hrank : ∀ i < k, (∀ e ∈ rankExperts n k shared ((n + red) / k) i, e < n + shared) ∧
        (rankExperts n k shared ((n + red) / k) i).Nodup := by
      intro i hi
      apply rank_valid hfull
      rcases Nat.eq_zero_or_pos n with hn | hn
      · exact .inl hn
      · rcases firstExpert_cases (n := n) hi with ⟨-, -, hlt⟩ | ⟨-, hle, hfirst⟩
        · exact .inr (.inl hlt)
        · by_cases hlt : firstExpert n k i < n
          · exact .inr (.inl hlt)
          · obtain ⟨hid, hne⟩ := h hn (k - i) (by omega) (by omega)
            rw [Nat.sub_sub_self hi.le] at hne
            exact .inr (.inr ⟨by omega, by omega⟩)
    refine ⟨length_row, ⟨(n + red) / k + if shared > 0 then 1 else 0, fun group hgroup => ?_⟩, ?_,
      fun e he => ?_, ?_⟩
    · obtain ⟨i, -, rfl⟩ := mem_row.mp hgroup
      exact rankExperts_length _ _
    · intro group hgroup
      obtain ⟨i, hi, rfl⟩ := mem_row.mp hgroup
      exact (hrank i hi).1
    · exact all_placed hk hdvd hshared he
    · intro group hgroup
      obtain ⟨i, hi, rfl⟩ := mem_row.mp hgroup
      exact (hrank i hi).2

end Placement

end MyOperator.AscendEplb
