import MyOperator.Eplb.Execute

/-!
# Who sends what to whom

The rows that a rank sends and receives (`mem_sendExperts`, `mem_recvExperts`), and the assignment of
the receiving ranks of an expert to the sending ones: both sides compute the same one
(`mem_recvRanks_iff`).
-/

namespace MyOperator.Eplb

open List Nat

/-! ## Lists -/

variable {α β : Type}

theorem nodup_eraseDups [DecidableEq α] (l : List α) : l.eraseDups.Nodup := by
  induction hlen : l.length using Nat.strong_induction_on generalizing l with
  | _ k ih =>
    cases l with
    | nil => exact nodup_nil
    | cons a l =>
      rw [eraseDups_cons]
      refine nodup_cons.mpr ⟨fun hin => ?_, ?_⟩
      · have hne := (mem_filter.mp (mem_eraseDups.mp hin)).2
        rw [beq_self_eq_true] at hne
        exact nomatch hne
      · refine ih _ ?_ _ rfl
        rw [← hlen]
        exact lt_succ_of_le (length_filter_le _ _)

theorem lookup_map [DecidableEq α] (f : α → β) (l : List α) (a : α) :
    (l.map fun x => (x, f x)).lookup a = if a ∈ l then some (f a) else none := by
  induction l with
  | nil => rfl
  | cons b l ih =>
    rw [map_cons, lookup_cons]
    by_cases hab : a = b
    · rw [hab, beq_self_eq_true, if_pos mem_cons_self]
    · rw [beq_false_of_ne hab, if_congr (mem_cons.trans (or_iff_right hab)) rfl rfl]
      exact ih

theorem flatMap_ite (c : α → Prop) [DecidablePred c] (g : α → List β) (l : List α) :
    (l.flatMap fun x => if c x then g x else []) = (l.filter fun x => c x).flatMap g := by
  induction l with
  | nil => rfl
  | cons a l ih =>
    rw [flatMap_cons, ih]
    by_cases ha : c a
    · rw [if_pos ha, filter_cons, if_pos (decide_eq_true ha), flatMap_cons]
    · rw [if_neg ha, filter_cons, if_neg fun h => ha (of_decide_eq_true h)]
      rfl

theorem flatMap_eq_of_nodup [DecidableEq α] (g : α → List β) {l : List α} (h : l.Nodup) (a : α) :
    (l.flatMap fun x => if x = a then g x else []) = if a ∈ l then g a else [] := by
  induction l with
  | nil => rfl
  | cons b l ih =>
    obtain ⟨hb, hl⟩ := nodup_cons.mp h
    rw [flatMap_cons, ih hl]
    by_cases hba : b = a
    · rw [if_pos hba, hba, if_pos mem_cons_self, if_neg (hba ▸ hb), append_nil]
    · rw [if_neg hba, nil_append]
      exact if_congr (mem_cons.trans (or_iff_right (Ne.symm hba))).symm rfl rfl

/-! ## The first rows of the experts -/

section UniqueRows

variable {n : Nat} {mask : Nat → Bool} {ids : Nat → Int}

theorem uniqueRows_experts : (uniqueRows n mask ids).map Prod.fst =
    (((range n).filter mask).map ids).dedup.insertionSort (· ≤ ·) := by
  unfold uniqueRows
  rw [map_map]
  exact map_id _

variable {expert : Int}

theorem mem_uniqueRows_experts : expert ∈ (uniqueRows n mask ids).map Prod.fst ↔
    ∃ row < n, mask row = true ∧ ids row = expert := by
  rw [uniqueRows_experts, mem_insertionSort, mem_dedup]
  simp only [mem_map, mem_filter, mem_range]
  exact ⟨fun ⟨row, ⟨hrow, hmask⟩, hid⟩ => ⟨row, hrow, hmask, hid⟩,
    fun ⟨row, hrow, hmask, hid⟩ => ⟨row, ⟨hrow, hmask⟩, hid⟩⟩

theorem sorted_uniqueRows : ((uniqueRows n mask ids).map Prod.fst).Pairwise (· < ·) := by
  rw [uniqueRows_experts]
  have hsorted : ((((range n).filter mask).map ids).dedup.insertionSort (· ≤ ·)).Pairwise (· ≤ ·) :=
    pairwise_insertionSort _ _
  have hnodup : ((((range n).filter mask).map ids).dedup.insertionSort (· ≤ ·)).Nodup :=
    (perm_insertionSort _ _).nodup_iff.mpr (nodup_dedup _)
  exact (hsorted.and hnodup).imp fun h => lt_of_le_of_ne h.1 h.2

theorem mem_uniqueRows {row : Nat} (h : (expert, row) ∈ uniqueRows n mask ids) :
    row < n ∧ mask row = true ∧ ids row = expert := by
  have hin : expert ∈ (uniqueRows n mask ids).map Prod.fst := mem_map_of_mem h
  obtain ⟨row', hrow', hmask', hid'⟩ := mem_uniqueRows_experts.mp hin
  unfold uniqueRows at h
  obtain ⟨expert', -, hpair⟩ := mem_map.mp h
  obtain ⟨rfl, heq⟩ := Prod.mk.inj hpair
  cases hfind : (range n).find? fun row => mask row && decide (ids row = expert') with
  | none =>
    have hnone := find?_eq_none.mp hfind row' (mem_range.mpr hrow')
    rw [hmask', decide_eq_true hid'] at hnone
    exact absurd rfl hnone
  | some first =>
    rw [hfind] at heq
    have heq : first = row := heq
    have hspec := find?_some hfind
    rw [Bool.and_eq_true, decide_eq_true_eq] at hspec
    rw [← heq]
    exact ⟨mem_range.mp (mem_of_find?_eq_some hfind), hspec.1, hspec.2⟩

theorem lookup_uniqueRows {row : Nat} (h : (uniqueRows n mask ids).lookup expert = some row) :
    (expert, row) ∈ uniqueRows n mask ids := by
  unfold uniqueRows at h ⊢
  rw [lookup_map] at h
  split at h
  · rename_i hin
    rw [← Option.some.inj h]
    exact mem_map.mpr ⟨expert, hin, rfl⟩
  · cases h

theorem exists_lookup_uniqueRows (h : ∃ row < n, mask row = true ∧ ids row = expert) :
    ∃ row, (uniqueRows n mask ids).lookup expert = some row := by
  have hin := mem_uniqueRows_experts.mpr h
  rw [uniqueRows_experts] at hin
  unfold uniqueRows
  rw [lookup_map, if_pos hin]
  exact ⟨_, rfl⟩

end UniqueRows

/-! ## The experts of a rank -/

section Experts

variable {n : Nat} {old new : List Int} {rank : Nat}

variable {row : Nat} {expert : Int}

theorem needRecv_iff : needRecv n old new rank row = true ↔
    localId n new rank row ≠ -1 ∧ ¬ isReceivedLocally n old new rank row = true := by
  unfold needRecv
  rw [Bool.and_eq_true, Bool.not_eq_true', decide_eq_true_eq, Bool.not_eq_true]
  exact and_comm

theorem isReceivedLocally_iff (hrow : row < n) (hid : localId n new rank row ≠ -1) :
    isReceivedLocally n old new rank row = true ↔
      ∃ src < n, localId n old rank src = localId n new rank row := by
  unfold isReceivedLocally isUnchanged
  rw [Bool.or_eq_true, Bool.and_eq_true, decide_eq_true_eq, decide_eq_true_eq, and_iff_right hid,
    any_eq_true]
  simp only [mem_range, decide_eq_true_eq]
  constructor
  · rintro (heq | ⟨src, hsrc, heq⟩)
    · exact ⟨row, hrow, heq⟩
    · exact ⟨src, hsrc, heq⟩
  · exact .inr

theorem mem_sendExperts : expert ∈ (sendRows n old rank).map Prod.fst ↔
    expert ≠ -1 ∧ ∃ row < n, localId n old rank row = expert := by
  unfold sendRows
  rw [mem_uniqueRows_experts]
  constructor
  · rintro ⟨row, hrow, hmask, rfl⟩
    exact ⟨of_decide_eq_true hmask, row, hrow, rfl⟩
  · rintro ⟨hne, row, hrow, rfl⟩
    exact ⟨row, hrow, decide_eq_true hne, rfl⟩

theorem mem_sendRows (h : (expert, row) ∈ sendRows n old rank) :
    row < n ∧ localId n old rank row = expert ∧ expert ≠ -1 := by
  obtain ⟨hrow, hmask, hid⟩ := mem_uniqueRows h
  exact ⟨hrow, hid, hid ▸ of_decide_eq_true hmask⟩

theorem mem_recvExperts : expert ∈ (recvRows n old new rank).map Prod.fst ↔
    expert ≠ -1 ∧ (∃ row < n, localId n new rank row = expert) ∧
      ¬ ∃ src < n, localId n old rank src = expert := by
  unfold recvRows
  rw [mem_uniqueRows_experts]
  constructor
  · rintro ⟨row, hrow, hneed, rfl⟩
    obtain ⟨hid, hnot⟩ := needRecv_iff.mp hneed
    rw [isReceivedLocally_iff hrow hid] at hnot
    exact ⟨hid, ⟨row, hrow, rfl⟩, hnot⟩
  · rintro ⟨hid, ⟨row, hrow, rfl⟩, hnot⟩
    refine ⟨row, hrow, needRecv_iff.mpr ⟨hid, ?_⟩, rfl⟩
    rw [isReceivedLocally_iff hrow hid]
    exact hnot

theorem mem_recvRows (h : (expert, row) ∈ recvRows n old new rank) :
    row < n ∧ localId n new rank row = expert ∧ expert ≠ -1 ∧
      ¬ isReceivedLocally n old new rank row = true := by
  obtain ⟨hrow, hneed, hid⟩ := mem_uniqueRows h
  obtain ⟨hne, hnot⟩ := needRecv_iff.mp hneed
  exact ⟨hrow, hid, hid ▸ hne, hnot⟩

theorem mem_ranksWith {indices : List Int} {ranks : Nat} (hlen : indices.length = ranks * n) :
    rank ∈ ranksWith n indices expert ↔
      rank < ranks ∧ ∃ row < n, localId n indices rank row = expert := by
  unfold ranksWith localId
  rw [mem_eraseDups]
  simp only [mem_map, mem_filter, mem_range, decide_eq_true_eq, hlen]
  constructor
  · rintro ⟨p, ⟨hp, hget⟩, rfl⟩
    have hn : 0 < n := Nat.pos_of_ne_zero fun hzero => by
      rw [hzero, Nat.mul_zero] at hp
      exact Nat.not_lt_zero _ hp
    refine ⟨(div_lt_iff_lt_mul hn).mpr hp, p % n, Nat.mod_lt _ hn, ?_⟩
    rw [Nat.mul_comm, div_add_mod, getD_eq_getElem?_getD, hget]
    rfl
  · rintro ⟨hrank, row, hrow, hget⟩
    have hp : rank * n + row < ranks * n := by
      have hle : (rank + 1) * n ≤ ranks * n := Nat.mul_le_mul_right n hrank
      rw [succ_mul] at hle
      omega
    refine ⟨rank * n + row, ⟨hp, ?_⟩, ?_⟩
    · rw [getD_eq_getElem?_getD, getElem?_eq_getElem (hlen.symm ▸ hp)] at hget
      rw [getElem?_eq_getElem (hlen.symm ▸ hp)]
      exact congrArg some hget
    · rw [Nat.mul_comm, mul_add_div (by omega), div_eq_of_lt hrow, Nat.add_zero]

theorem nodup_ranksWith (indices : List Int) (expert : Int) : (ranksWith n indices expert).Nodup :=
  nodup_eraseDups _

end Experts

/-! ## The assignment -/

section Assignment

variable {senders receivers : List Nat} {src dst : Nat}

theorem getElem?_eq_some_iff_idxOf {l : List Nat} (hnodup : l.Nodup) {i x : Nat} (hx : x ∈ l) :
    l[i]? = some x ↔ i = l.idxOf x := by
  have hlt : l.idxOf x < l.length := idxOf_lt_length_of_mem hx
  have hget : l[l.idxOf x]? = some x := by
    rw [getElem?_eq_getElem hlt, getElem_idxOf]
  constructor
  · intro hi
    exact (getElem?_inj (List.getElem?_eq_some_iff.mp hi).1 hnodup).mp (hi.trans hget.symm)
  · rintro rfl
    exact hget

theorem mem_drop_take_iff {l : List Nat} (hnodup : l.Nodup) {a b x : Nat} (hx : x ∈ l) :
    x ∈ (l.drop a).take b ↔ a ≤ l.idxOf x ∧ l.idxOf x < a + b := by
  constructor
  · intro hin
    obtain ⟨i, hi⟩ := mem_iff_getElem?.mp hin
    rw [getElem?_take] at hi
    split at hi
    · rename_i hib
      rw [getElem?_drop] at hi
      have heq := (getElem?_eq_some_iff_idxOf hnodup hx).mp hi
      omega
    · cases hi
  · rintro ⟨hle, hub⟩
    refine mem_of_getElem? (i := l.idxOf x - a) ?_
    rw [getElem?_take, if_pos (by omega), getElem?_drop, Nat.add_sub_cancel' hle]
    exact (getElem?_eq_some_iff_idxOf hnodup hx).mpr rfl

/-- The sender sends to the receiver if and only if the receiver receives from the sender. -/
theorem mem_recvRanks_iff (hsenders : senders.Nodup) (hreceivers : receivers.Nodup) (hsrc : src ∈ senders)
    (hdst : dst ∈ receivers) :
    dst ∈ recvRanks ⟨senders, receivers⟩ src ↔ sendRank ⟨senders, receivers⟩ dst = some src := by
  have hne : ¬ (senders = [] ∨ receivers = []) := by
    rintro (rfl | rfl)
    · cases hsrc
    · cases hdst
  have hsrcLt : senders.idxOf src < senders.length := idxOf_lt_length_of_mem hsrc
  unfold recvRanks sendRank
  rw [if_neg hne, if_neg hne]
  dsimp only
  rw [mem_append, mem_drop_take_iff hreceivers hdst, Option.mem_toList,
    getElem?_eq_some_iff_idxOf hreceivers hdst]
  generalize receivers.length / senders.length = each
  have hblocks : senders.idxOf src * each + each ≤ senders.length * each := by
    rw [← succ_mul]
    exact Nat.mul_le_mul_right each hsrcLt
  split
  · -- the receiver is in one of the blocks
    rename_i hlt
    have heach : 0 < each := Nat.pos_of_ne_zero fun hzero => by
      rw [hzero, Nat.mul_zero] at hlt
      exact Nat.not_lt_zero _ hlt
    rw [getElem?_eq_some_iff_idxOf hsenders hsrc]
    constructor
    · rintro (⟨hle, hub⟩ | heq)
      · exact Nat.div_eq_of_lt_le (by rw [Nat.mul_comm] at hle; rw [Nat.mul_comm]; exact hle)
          (by rw [succ_mul]; exact hub)
      · omega
    · intro heq
      refine .inl ⟨?_, ?_⟩
      · rw [← heq]
        exact div_mul_le_self _ _
      · rw [← heq, ← succ_mul]
        exact (div_lt_iff_lt_mul heach).mp (lt_succ_self _)
  · -- the receiver is one of the remainder
    rename_i hge
    rw [getElem?_eq_some_iff_idxOf hsenders hsrc]
    constructor
    · rintro (⟨hle, hub⟩ | heq)
      · omega
      · omega
    · intro heq
      exact .inr (by omega)

theorem recvRanks_subset (h : dst ∈ recvRanks ⟨senders, receivers⟩ src) : dst ∈ receivers := by
  unfold recvRanks at h
  split at h
  · cases h
  · rcases mem_append.mp h with hblock | hrest
    · exact mem_of_mem_drop (mem_of_mem_take hblock)
    · exact mem_of_getElem? (Option.mem_toList.mp hrest)

theorem nodup_recvRanks (hreceivers : receivers.Nodup) (hsrc : src ∈ senders) :
    (recvRanks ⟨senders, receivers⟩ src).Nodup := by
  unfold recvRanks
  split
  · exact nodup_nil
  · dsimp only
    have hsrcLt : senders.idxOf src < senders.length := idxOf_lt_length_of_mem hsrc
    generalize receivers.length / senders.length = each
    have hblocks : senders.idxOf src * each + each ≤ senders.length * each := by
      rw [← succ_mul]
      exact Nat.mul_le_mul_right each hsrcLt
    refine nodup_append.mpr ⟨?_, ?_, ?_⟩
    · exact hreceivers.sublist ((take_sublist _ _).trans (drop_sublist _ _))
    · cases receivers[senders.length * each + senders.idxOf src]? with
      | none => exact nodup_nil
      | some x => exact nodup_singleton x
    · rintro x hblock y hrest rfl
      have hget := Option.mem_toList.mp hrest
      have hin : x ∈ receivers := mem_of_getElem? hget
      have hidx := (getElem?_eq_some_iff_idxOf hreceivers hin).mp hget
      have hrange := (mem_drop_take_iff hreceivers hin).mp hblock
      omega

theorem exists_sendRank (hsenders : senders ≠ []) (hdst : dst ∈ receivers) :
    ∃ src ∈ senders, sendRank ⟨senders, receivers⟩ dst = some src := by
  have hpos := length_pos_iff.mpr hsenders
  have hdstLt : receivers.idxOf dst < receivers.length := idxOf_lt_length_of_mem hdst
  have hsplit := div_add_mod receivers.length senders.length
  have hmod := Nat.mod_lt receivers.length hpos
  unfold sendRank
  rw [if_neg fun hor => hor.elim hsenders (ne_nil_of_mem hdst)]
  dsimp only
  generalize receivers.length / senders.length = each at hsplit
  have hfound : ∀ i, i < senders.length → ∃ src ∈ senders, senders[i]? = some src := fun i hi =>
    ⟨_, getElem_mem hi, getElem?_eq_getElem hi⟩
  split
  · rename_i hlt
    have heach : 0 < each := Nat.pos_of_ne_zero fun hzero => by
      rw [hzero, Nat.mul_zero] at hlt
      exact Nat.not_lt_zero _ hlt
    exact hfound _ ((div_lt_iff_lt_mul heach).mpr hlt)
  · rename_i hge
    exact hfound _ (by omega)

end Assignment

end MyOperator.Eplb
