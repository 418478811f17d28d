import MyOperator.AscendEplb.SwiftNode

/-!
# The exchange between ranks

An exchange takes an expert from the hottest rank for one that it has not
(`exchangeOnce_spec`): the experts of the node stay the same, no rank has one twice, and no
rank gets hotter than the hottest was. So the load that is reported after the loop bounds
every rank (`expertExchangeBetweenRanks_spec`), also when the loop ends with an exchange.
-/

namespace MyOperator.AscendEplb

open Lib List Function
open Eplb (NumpyError modify_row getD_row Argsort position item setItem row length_row getElem?_row row_congr mem_row
  map_row item_row)

variable {S : IntSet} {sort : Argsort} {self : SwiftBalanceEplb} {n slots ranks : Nat} {w : Nat → ℚ}

/-! ## Sets -/

theorem IntSet.mem_ofList (l : List Int) (e : Int) : e ∈ S.toList (S.ofList l) ↔ e ∈ l := by
  have hadd : ∀ (l : List Int) (s : S.Carrier), e ∈ S.toList (l.foldl S.add s) ↔ e ∈ S.toList s ∨ e ∈ l := by
    intro l
    induction l with
    | nil => simp
    | cons x l ih =>
      intro s
      rw [foldl_cons, ih, S.mem_add, mem_cons]
      tauto
  unfold IntSet.ofList
  rw [hadd, S.toList_empty]
  simp

theorem IntSet.ofList_perm {l : List Int} (hl : l.Nodup) : (S.toList (S.ofList l)).Perm l :=
  (perm_ext_iff_of_nodup (S.nodup _) hl).mpr (IntSet.mem_ofList l)

theorem IntSet.replace_perm {s : S.Carrier} {x y : Int} (hy : y ∉ S.toList s) :
    (S.toList (S.add (S.remove s x) y)).Perm (y :: (S.toList s).erase x) := by
  refine (perm_ext_iff_of_nodup (S.nodup _) ?_).mpr ?_
  · refine nodup_cons.mpr ⟨?_, (S.nodup s).erase x⟩
    exact fun hmem => hy (mem_of_mem_erase hmem)
  · intro e
    rw [S.mem_add, S.mem_remove, mem_cons, (S.nodup s).mem_erase_iff]

theorem IntSet.replace_length {s : S.Carrier} {x y : Int} (hx : x ∈ S.toList s) (hy : y ∉ S.toList s) :
    (S.toList (S.add (S.remove s x) y)).length = (S.toList s).length := by
  rw [(IntSet.replace_perm hy).length_eq, length_cons, length_erase_of_mem hx]
  have := length_pos_of_mem hx
  omega

theorem IntSet.replace_count {s : S.Carrier} {x y : Int} (hx : x ∈ S.toList s) (hy : y ∉ S.toList s)
    (e : Int) : (S.toList (S.add (S.remove s x) y)).count e + (if x = e then 1 else 0) =
      (S.toList s).count e + if y = e then 1 else 0 := by
  have hperm := (perm_cons_erase hx).count_eq e
  rw [(IntSet.replace_perm hy).count_eq, hperm, count_cons, count_cons]
  simp only [beq_iff_eq]
  omega

/-- What the experts of a set weigh. -/
def setLoad (S : IntSet) (w : Nat → ℚ) (s : S.Carrier) : ℚ := ((S.toList s).map fun e => w e.toNat).sum

theorem setLoad_replace {s : S.Carrier} {x y : Int} (hx : x ∈ S.toList s) (hy : y ∉ S.toList s) :
    setLoad S w (S.add (S.remove s x) y) = setLoad S w s + (w y.toNat - w x.toNat) := by
  unfold setLoad
  rw [((IntSet.replace_perm hy).map _).sum_eq, ((perm_cons_erase hx).map _).sum_eq, map_cons,
    map_cons, sum_cons, sum_cons]
  ring

/-! ## The best exchange of two ranks -/

/-- An exchange that leaves both ranks below the load of the hottest one. -/
structure Relieves (w : Nat → ℚ) (maxRank swapRank : List Int) (maxRankLoad swapRankLoad : ℚ)
    (best : Int × Int × ℚ) : Prop where
  cur : best.1 ∈ maxRank ∧ best.1 ∉ swapRank
  next : best.2.1 ∈ swapRank ∧ best.2.1 ∉ maxRank
  weight : best.2.2 = max (maxRankLoad - w best.1.toNat + w best.2.1.toNat)
    (swapRankLoad - w best.2.1.toNat + w best.1.toNat)
  less : best.2.2 < maxRankLoad

/-- No exchange is found, or one that relieves the hottest rank. -/
def NoneOrRelieves (w : Nat → ℚ) (maxRank swapRank : List Int) (maxRankLoad swapRankLoad : ℚ)
    (best : Int × Int × ℚ) : Prop :=
  best.2.2 ≤ maxRankLoad ∧ (best.1 ≠ -1 → Relieves w maxRank swapRank maxRankLoad swapRankLoad best)

theorem swapExpertsBetweenRanks_spec {maxRank swapRank : List Int} (hmax : ∀ e ∈ maxRank, 0 ≤ e ∧ e < n)
    (hswap : ∀ e ∈ swapRank, 0 ≤ e ∧ e < n) (maxRev swapRev : List Int) (maxRankLoad swapRankLoad : ℚ) :
    ∃ best, swapExpertsBetweenRanks maxRank swapRank maxRev swapRev (row n w) maxRankLoad swapRankLoad =
        .ok best ∧ NoneOrRelieves w maxRank swapRank maxRankLoad swapRankLoad best := by
  have houter := foldlM_done (l := maxRank) (b := ((-1 : Int), (-1 : Int), maxRankLoad))
    (f := fun best curExpertId => do
      if curExpertId ∈ swapRank ∨ curExpertId ∈ maxRev then return best else
        let curWeight ← item (row n w) curExpertId
        swapRank.foldlM
          (trySwap maxRank swapRev (row n w) maxRankLoad swapRankLoad curExpertId curWeight) best)
    (P := fun _ best => NoneOrRelieves w maxRank swapRank maxRankLoad swapRankLoad best) ?_
    ⟨le_refl _, fun h => absurd rfl h⟩
  · exact houter
  · intro done cur rest best hsplit hbest
    have hcur : cur ∈ maxRank := hsplit ▸ mem_append_right _ mem_cons_self
    by_cases hskip : cur ∈ swapRank ∨ cur ∈ maxRev
    · rw [if_pos hskip]
      exact ⟨best, rfl, hbest⟩
    · rw [if_neg hskip, item_row_int (hmax cur hcur), ok_bind]
      refine foldlM_done (P := fun _ best => NoneOrRelieves w maxRank swapRank maxRankLoad swapRankLoad best)
        ?_ hbest
      intro done' next rest' best hsplit' hbest
      have hnext : next ∈ swapRank := hsplit' ▸ mem_append_right _ mem_cons_self
      unfold trySwap
      by_cases hskip' : next ∈ maxRank ∨ next ∈ swapRev
      · rw [if_pos hskip']
        exact ⟨best, rfl, hbest⟩
      · rw [if_neg hskip', item_row_int (hswap next hnext), ok_bind]
        dsimp only
        split
        · rename_i hless
          have hless := lt_of_lt_of_le hless hbest.1
          refine ⟨_, rfl, hless.le, fun _ => ⟨⟨hcur, ?_⟩, ⟨hnext, ?_⟩, rfl, hless⟩⟩
          · exact fun hmem => hskip (.inl hmem)
          · exact fun hmem => hskip' (.inl hmem)
        · exact ⟨best, rfl, hbest⟩

/-! ## The loop -/

/-- While the ranks of a node exchange experts. -/
structure Exchanging (slots ranks : Nat) (w : Nat → ℚ) (start : List Int) (s : SwapState S)
    (σ : Nat → S.Carrier) : Prop where
  sets : s.rankDeploySets = row ranks σ
  loads : s.rankLoads = row ranks fun r => setLoad S w (σ r)
  width : ∀ r < ranks, (S.toList (σ r)).length = slots
  experts : ((row ranks σ).flatMap S.toList).Perm start

variable {start : List Int} {s s' : SwapState S} {σ : Nat → S.Carrier}

theorem Exchanging.mem_start (h : Exchanging slots ranks w start s σ) {r : Nat} (hr : r < ranks) {e : Int}
    (he : e ∈ S.toList (σ r)) : e ∈ start :=
  h.experts.mem_iff.mp (mem_flatMap.mpr ⟨σ r, mem_row.mpr ⟨r, hr, rfl⟩, he⟩)

theorem Exchanging.swap (h : Exchanging slots ranks w start s σ) {i j : Nat} (hi : i < ranks)
    (hj : j < ranks) (hij : j ≠ i) {x y : Int} (hx : x ∈ S.toList (σ i)) (hxj : x ∉ S.toList (σ j))
    (hy : y ∈ S.toList (σ j)) (hyi : y ∉ S.toList (σ i)) :
    Exchanging slots ranks w start (s.swap S i j x y (w x.toNat) (w y.toNat))
      (update (update σ i (S.add (S.remove (σ i) x) y)) j (S.add (S.remove (σ j) y) x)) := by
  have hσj : update σ i (S.add (S.remove (σ i) x) y) j = σ j := update_of_ne hij _ _
  refine ⟨?_, ?_, ?_, ?_⟩
  · show (s.rankDeploySets.modify i _).modify j _ = _
    rw [h.sets, modify_row, modify_row, hσj]
  · show (s.rankLoads.modify i _).modify j _ = _
    rw [h.loads, modify_row, modify_row, update_of_ne hij]
    refine row_congr ?_
    intro r _
    by_cases hrj : r = j
    · rw [hrj, update_self, update_self, setLoad_replace hy hxj]
    · rw [update_of_ne hrj, update_of_ne hrj]
      by_cases hri : r = i
      · rw [hri, update_self, update_self, setLoad_replace hx hyi]
      · rw [update_of_ne hri, update_of_ne hri]
  · intro r hr
    by_cases hrj : r = j
    · rw [hrj, update_self, IntSet.replace_length hy hxj]
      exact h.width j hj
    · rw [update_of_ne hrj]
      by_cases hri : r = i
      · rw [hri, update_self, IntSet.replace_length hx hyi]
        exact h.width i hi
      · rw [update_of_ne hri]
        exact h.width r hr
  · refine List.Perm.trans (perm_iff_count.mpr ?_) h.experts
    intro e
    -- what one rank loses the other one gets
    have h1 := sum_update hi σ (S.add (S.remove (σ i) x) y) fun c => (S.toList c).count e
    have h2 := sum_update hj (update σ i (S.add (S.remove (σ i) x) y))
      (S.add (S.remove (σ j) y) x) fun c => (S.toList c).count e
    have hci := IntSet.replace_count hx hyi e
    have hcj := IntSet.replace_count hy hxj e
    rw [hσj] at h2
    rw [count_flatMap_row, count_flatMap_row]
    omega

theorem exchangeOnce_spec (self : SwiftBalanceEplb) (hids : ∀ e ∈ start, 0 ≤ e ∧ e < n) (h : Exchanging slots ranks w start s σ)
    {i : Nat} (hi : i < ranks) (hmax : ∀ r < ranks, setLoad S w (σ r) ≤ setLoad S w (σ i)) {l : List Nat}
    (hl : ∀ j ∈ l, j < ranks ∧ j ≠ i) :
    ∃ r, exchangeOnce S self (row n w) s i (setLoad S w (σ i)) l = .ok r ∧ ∀ s' ∈ r, ∃ σ',
      Exchanging slots ranks w start s' σ' ∧ ∀ r < ranks, setLoad S w (σ' r) ≤ setLoad S w (σ i) := by
  induction l with
  | nil => exact ⟨none, rfl, fun _ hs' => by cases hs'⟩
  | cons j l ih =>
    obtain ⟨⟨hj, hij⟩, hl⟩ := forall_mem_cons.mp hl
    unfold exchangeOnce
    split
    · obtain ⟨best, hbest, hle, hrelieves⟩ := swapExpertsBetweenRanks_spec (w := w)
        (fun e he => hids e (h.mem_start hi he)) (fun e he => hids e (h.mem_start hj he))
        (s.revExpertPerRank.getD i []) (s.revExpertPerRank.getD j []) (setLoad S w (σ i))
        (setLoad S w (σ j))
      rw [h.loads, item_row hj, ok_bind, h.sets, item_row hi, ok_bind, item_row hj, ok_bind, hbest, ok_bind]
      obtain ⟨x, y, m⟩ := best
      dsimp only
      split
      · exact ih hl
      · rename_i hgo
        obtain ⟨⟨hx, hxj⟩, ⟨hy, hyi⟩, hm, hless⟩ := hrelieves fun heq => hgo (.inr heq)
        rw [item_row_int (hids x (h.mem_start hi hx)), ok_bind, item_row_int (hids y (h.mem_start hj hy)),
          ok_bind]
        refine ⟨_, rfl, ?_⟩
        intro s' hs'
        cases hs'
        refine ⟨_, h.swap hi hj hij hx hxj hy hyi, ?_⟩
        intro r hr
        dsimp only at hm hless
        rw [hm] at hless
        obtain ⟨hcur, hnext⟩ := max_lt_iff.mp hless
        by_cases hrj : r = j
        · rw [hrj, update_self, setLoad_replace hy hxj]
          linarith
        · rw [update_of_ne hrj]
          by_cases hri : r = i
          · rw [hri, update_self, setLoad_replace hx hyi]
            linarith
          · rw [update_of_ne hri]
            exact hmax r hr
    · exact ih hl

theorem argsort_last (sort : Argsort) {f : Nat → ℚ} {i : Nat} (h : (sort.argsort (row ranks f)).getLast? = some i) :
    i < ranks ∧ (∀ r < ranks, f r ≤ f i) ∧
      ∀ j ∈ (sort.argsort (row ranks f)).dropLast, j < ranks ∧ j ≠ i := by
  have hperm := sort.perm (row ranks f)
  rw [length_row] at hperm
  have hmem : ∀ j, j ∈ sort.argsort (row ranks f) ↔ j < ranks := by
    intro j
    rw [hperm.mem_iff, mem_range]
  have hnodup : (sort.argsort (row ranks f)).Nodup := hperm.nodup_iff.mpr nodup_range
  have hsorted := sort.sorted (row ranks f)
  have hsplit : sort.argsort (row ranks f) = (sort.argsort (row ranks f)).dropLast ++ [i] :=
    (dropLast_append_getLast? i h).symm
  have hi : i < ranks := (hmem i).mp (hsplit ▸ mem_append_right _ mem_cons_self)
  rw [hsplit] at hnodup hsorted
  refine ⟨hi, ?_, ?_⟩
  · intro r hr
    have hin := (hmem r).mpr hr
    rw [hsplit, mem_append, mem_singleton] at hin
    rcases hin with hin | rfl
    · have hle := (pairwise_append.mp hsorted).2.2 r hin i mem_cons_self
      exact hle _ (by rw [getElem?_row, if_pos hr]; rfl) _ (by rw [getElem?_row, if_pos hi]; rfl)
    · exact le_refl _
  · intro j hj
    refine ⟨(hmem j).mp (dropLast_subset _ hj), ?_⟩
    intro heq
    exact (nodup_append.mp hnodup).2.2 j hj i mem_cons_self heq

theorem exchangeLoop_spec (sort : Argsort) (self : SwiftBalanceEplb) (hids : ∀ e ∈ start, 0 ≤ e ∧ e < n) (hranks : 0 < ranks) {maxSwapTimes : Nat}
    (exchange : Bool) {m : ℚ} (h : Exchanging slots ranks w start s σ)
    (hm : 0 < maxSwapTimes ∨ ∀ r < ranks, setLoad S w (σ r) ≤ m) :
    ∃ s' σ' m', exchangeLoop S sort self (row n w) maxSwapTimes s exchange m = .ok (s', m') ∧
      Exchanging slots ranks w start s' σ' ∧ ∀ r < ranks, setLoad S w (σ' r) ≤ m' := by
  induction maxSwapTimes generalizing s σ exchange m with
  | zero => exact ⟨s, σ, m, rfl, h, hm.resolve_left (Nat.lt_irrefl 0)⟩
  | succ times ih =>
    obtain ⟨i, hlast⟩ : ∃ i, (sort.argsort (row ranks fun r => setLoad S w (σ r))).getLast? = some i := by
      have hperm := sort.perm (row ranks fun r => setLoad S w (σ r))
      rw [length_row] at hperm
      refine ⟨_, getLast?_eq_some_getLast ?_⟩
      intro hnil
      have hlen := hperm.length_eq
      rw [hnil, length_range] at hlen
      exact absurd hlen hranks.ne
    obtain ⟨hi, hmax, hothers⟩ := argsort_last sort hlast
    unfold exchangeLoop
    rw [h.loads]
    dsimp only
    rw [hlast]
    dsimp only
    rw [item_row hi, ok_bind]
    by_cases hex : exchange = false
    · rw [if_pos hex]
      exact ⟨s, σ, _, rfl, h, hmax⟩
    · obtain ⟨r, hr, hafter⟩ := exchangeOnce_spec self hids h hi hmax hothers
      rw [if_neg hex, hr, ok_bind]
      cases r with
      | none => exact ih false h (.inr hmax)
      | some s' =>
        obtain ⟨σ', hs', hle⟩ := hafter s' rfl
        exact ih true hs' (.inr hle)

/-- The ranks of a node after the exchange, and what they may bear. -/
structure Exchanged (slots : Nat) (w : Nat → ℚ) (start : List Int) (rows : List (List Int)) (m : ℚ) : Prop where
  width : ∀ rank ∈ rows, rank.length = slots
  apart : ∀ rank ∈ rows, rank.Nodup
  experts : rows.flatten.Perm start
  bound : ∀ rank ∈ rows, (rank.map fun e => w e.toNat).sum ≤ m

theorem expertExchangeBetweenRanks_spec (sort : Argsort) (htimes : 0 < self.maxSwapTimes) (hranks : 0 < ranks)
    {load : Nat → ℚ} {kept : List Int} {node : NodeState} {a : Nat → List Int}
    (hids : ∀ e ∈ kept, 0 ≤ e ∧ e < n) (h : NodeReady slots ranks load kept node a w) :
    ∃ rows m, expertExchangeBetweenRanks S sort self node (row n w) = .ok (rows, m) ∧
      rows.length = ranks ∧ Exchanged slots w (row ranks a).flatten rows m := by
  have hperm : ∀ r < ranks, (S.toList (S.ofList (a r))).Perm (a r) :=
    fun r hr => IntSet.ofList_perm (h.apart r hr)
  have hstart : Exchanging (S := S) slots ranks w (row ranks a).flatten {
      rankDeploySets := node.rankAssignments.map S.ofList
      rankLoads := node.rankLoads
      numComBetweenRank := node.numComBetweenRank
      revExpertPerRank := node.revExpertPerRank } fun r => S.ofList (a r) := by
    refine ⟨?_, h.loads.trans (row_congr ?_), ?_, ?_⟩
    · show node.rankAssignments.map S.ofList = _
      rw [h.assignments, map_row]
    · intro r hr
      exact ((hperm r hr).map _).sum_eq.symm
    · intro r hr
      rw [(hperm r hr).length_eq]
      exact h.width r hr
    · refine perm_iff_count.mpr ?_
      intro e
      have hflat := count_flatMap_row (n := ranks) a id e
      rw [flatMap_id] at hflat
      rw [count_flatMap_row, hflat]
      refine Finset.sum_congr rfl ?_
      intro r hr
      exact (hperm r (Finset.mem_range.mp hr)).count_eq e
  obtain ⟨s', σ', m, hok, hs', hle⟩ := exchangeLoop_spec sort self (m := 0)
    (fun e he => hids e ((h.experts e).mp he)) hranks true hstart (.inl htimes)
  unfold expertExchangeBetweenRanks
  rw [hok, ok_bind]
  dsimp only
  refine ⟨_, m, rfl, ?_, ?_, ?_, ?_, ?_⟩
  · rw [length_map, hs'.sets, length_row]
  · intro rank hrank
    rw [hs'.sets, map_row] at hrank
    obtain ⟨r, hr, rfl⟩ := mem_row.mp hrank
    exact hs'.width r hr
  · intro rank hrank
    obtain ⟨c, -, rfl⟩ := mem_map.mp hrank
    exact S.nodup c
  · rw [hs'.sets, ← flatMap_def]
    exact hs'.experts
  · intro rank hrank
    rw [hs'.sets, map_row] at hrank
    obtain ⟨r, hr, rfl⟩ := mem_row.mp hrank
    exact hle r hr

end MyOperator.AscendEplb
