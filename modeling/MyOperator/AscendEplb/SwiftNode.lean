import MyOperator.AscendEplb.DefaultPlacement
import MyOperator.AscendEplb.SwiftEplb

/-!
# The redundancy of a node

What `redundancy_again` hands on (`redundancyAgain_spec`): every expert of the node has a
slot, no rank has an expert twice, the loads of the ranks are the sums of the weights, and
no weight is below what a copy bears when the copies share the load of their expert.
-/

namespace MyOperator.AscendEplb

open Lib Function List
open Eplb (NumpyError Argsort assert position item setItem reshape row length_row getElem?_row
  row_congr mem_row map_row eq_row exists_row modify_row getD_row replicate_eq_row set_row zipIdx_row item_natCast item_row
  setItem_row position_natCast)

/-! ## Rows -/

variable {n slots : Nat} {α : Type} {l : List Int} {e : Int}

theorem exists_mem_concat {p : α → Prop} {l : List α} {a : α} :
    (∃ x ∈ l ++ [a], p x) ↔ (∃ x ∈ l, p x) ∨ p a := by
  simp only [mem_append, mem_singleton, or_and_right, exists_or, exists_eq_left]

theorem sum_row (f : Nat → ℚ) : (row n f).sum = ∑ i ∈ Finset.range n, f i := by
  induction n with
  | zero => rfl
  | succ n ih => rw [Eplb.row_succ, sum_append, ih, Finset.sum_range_succ, sum_singleton]

theorem count_flatMap_row (f : Nat → α) (g : α → List Int) (e : Int) :
    ((row n f).flatMap g).count e = ∑ i ∈ Finset.range n, (g (f i)).count e := by
  induction n with
  | zero => rfl
  | succ n ih =>
    rw [Eplb.row_succ, flatMap_append, count_append, ih, Finset.sum_range_succ, flatMap_singleton]

theorem sum_update {k : Nat} (hk : k < n) (f : Nat → α) (a : α) (g : α → Nat) :
    ∑ i ∈ Finset.range n, g (update f k a i) + g (f k) = ∑ i ∈ Finset.range n, g (f i) + g a := by
  have hmem : k ∈ Finset.range n := mem_range.mpr hk
  rw [← Finset.add_sum_erase _ _ hmem, ← Finset.add_sum_erase (Finset.range n) (fun i => g (f i)) hmem,
    update_self]
  have hrest : ∑ i ∈ (Finset.range n).erase k, g (update f k a i) =
      ∑ i ∈ (Finset.range n).erase k, g (f i) := by
    refine Finset.sum_congr rfl ?_
    intro i hi
    rw [update_of_ne (Finset.ne_of_mem_erase hi)]
  omega

theorem sum_map_eq_sum_count (f : Nat → ℚ) (hl : ∀ e ∈ l, 0 ≤ e ∧ e < n) :
    (l.map fun e => f e.toNat).sum = ∑ i ∈ Finset.range n, l.count (i : Int) * f i := by
  induction l with
  | nil => simp
  | cons e l ih =>
    obtain ⟨he, hl⟩ := forall_mem_cons.mp hl
    have hterm : ∀ i ∈ Finset.range n, ((e :: l).count (i : Int) : ℚ) * f i =
        l.count (i : Int) * f i + if i = e.toNat then f i else 0 := by
      intro i _
      rw [count_cons]
      by_cases hi : i = e.toNat
      · have hbeq : (e == (i : Int)) = true := by
          rw [beq_iff_eq]
          omega
        rw [if_pos hbeq, if_pos hi]
        push_cast
        ring
      · have hbeq : ¬ (e == (i : Int)) = true := by
          rw [beq_iff_eq]
          omega
        rw [if_neg hbeq, if_neg hi]
        simp
    rw [map_cons, sum_cons, ih hl, Finset.sum_congr rfl hterm, Finset.sum_add_distrib,
      Finset.sum_ite_eq', if_pos (Finset.mem_range.mpr (by omega))]
    ring

theorem foldlM_sum {step : ℚ → α → Except NumpyError ℚ} {f : α → ℚ} {l : List α}
    (h : ∀ load, ∀ a ∈ l, step load a = .ok (load + f a)) (load : ℚ) :
    l.foldlM step load = .ok (load + (l.map f).sum) := by
  induction l generalizing load with
  | nil =>
    rw [map_nil, sum_nil, add_zero]
    rfl
  | cons a l ih =>
    rw [foldlM_cons, h load a mem_cons_self, ok_bind,
      ih (fun load b hb => h load b (mem_cons_of_mem _ hb)), map_cons, sum_cons, add_assoc]

theorem item_row_int {f : Nat → α} (h : 0 ≤ e ∧ e < n) : item (row n f) e = .ok (f e.toNat) := by
  obtain ⟨k, rfl⟩ := Int.eq_ofNat_of_zero_le h.1
  exact item_row (Int.ofNat_lt.mp h.2)

theorem setItem_row_int {f : Nat → α} (h : 0 ≤ e ∧ e < n) (a : α) :
    setItem (row n f) e a = .ok (row n (update f e.toNat a)) := by
  obtain ⟨k, rfl⟩ := Int.eq_ofNat_of_zero_le h.1
  exact setItem_row (Int.ofNat_lt.mp h.2) a

theorem placedLoad_row (w : Nat → ℚ) (hl : ∀ e ∈ l, 0 ≤ e ∧ e < n) :
    placedLoad (row n w) l = .ok (l.map fun e => w e.toNat).sum := by
  refine (foldlM_sum (f := fun e => w e.toNat) ?_ 0).trans (by rw [zero_add])
  intro load e he
  rw [item_row_int (hl e he)]
  rfl

theorem countExpert_row (hl : ∀ e ∈ l, 0 ≤ e ∧ e < n) :
    l.foldlM countExpert (replicate n 0) = .ok (row n fun i => l.count (i : Int)) := by
  rw [replicate_eq_row]
  obtain ⟨b, hok, hb⟩ := foldlM_done (f := countExpert) (l := l) (b := row n fun _ => 0)
    (P := fun done b => b = row n fun i => done.count (i : Int)) (by
      intro done e rest b hsplit hb
      have he := hl e (hsplit ▸ mem_append_right _ mem_cons_self)
      refine ⟨_, ?_, rfl⟩
      subst hb
      show (item _ e >>= fun count => setItem _ e (count + 1)) = _
      rw [item_row_int he, ok_bind, setItem_row_int he]
      refine congrArg Except.ok (row_congr ?_)
      intro i _
      rw [count_append, count_singleton]
      by_cases hi : i = e.toNat
      · have hcast : ((e.toNat : Nat) : Int) = e := Int.toNat_of_nonneg he.1
        rw [hi, update_self, hcast, if_pos (beq_self_eq_true e)]
      · have hbeq : ¬ (e == (i : Int)) = true := by
          rw [beq_iff_eq]
          omega
        rw [update_of_ne hi, if_neg hbeq, add_zero]) rfl
  rw [hok, hb]

/-! ## The experts of a node -/

/-- The deployment of a node: as many slots on every rank, no expert twice on one. -/
structure NodeOk (n slots : Nat) (deployment : List (List Int)) : Prop where
  width : ∀ rank ∈ deployment, rank.length = slots
  ids : ∀ rank ∈ deployment, ∀ e ∈ rank, 0 ≤ e ∧ e < n
  apart : ∀ rank ∈ deployment, rank.Nodup

theorem mem_slotsOf {ranks : Nat} {s : Nat × Nat} :
    s ∈ slotsOf slots ranks ↔ s.1 < slots ∧ s.2 < ranks := by
  show s ∈ (range slots ×ˢ range ranks) ↔ _
  rw [mem_product, mem_range, mem_range]

theorem nodup_slotsOf (slots ranks : Nat) : (slotsOf slots ranks).Nodup :=
  nodup_range.product nodup_range

section Statistics

variable {S : IntSet} {self : SwiftBalanceEplb} {n slots ranks : Nat} {dep : Nat → Nat → Int}

/-- After the slots in `done`: `kept` are the slots of the first occurrences, the other ones
are listed as redundant. -/
structure Visited (S : IntSet) (n ranks : Nat) (dep : Nat → Nat → Int) (done : List (Nat × Nat))
    (d : Distribution S) (p : Nat → List Nat) (kept : List (Nat × Nat)) : Prop where
  pos : d.redundantExpertPos = row ranks p
  fromRank : d.expertFromRank.length = n
  experts : (kept.map fun s => dep s.2 s.1).Perm (S.toList d.existingExperts)
  kept_nodup : kept.Nodup
  mem_kept : ∀ s, s ∈ kept ↔ s ∈ done ∧ s.1 ∉ p s.2
  mem_pos : ∀ r i, i ∈ p r → (i, r) ∈ done
  pos_nodup : ∀ r, (p r).Nodup
  num : d.numRedundantExperts = ∑ r ∈ Finset.range ranks, (p r).length
  all : ∀ e, e ∈ S.toList d.existingExperts ↔ ∃ s ∈ done, dep s.2 s.1 = e

theorem visitSlot_spec {done : List (Nat × Nat)} {d : Distribution S} {p : Nat → List Nat}
    {kept : List (Nat × Nat)} (h : Visited S n ranks dep done d p kept)
    {slot : Nat × Nat} (hslot : slot.1 < slots ∧ slot.2 < ranks) (hnew : slot ∉ done)
    (hid : 0 ≤ dep slot.2 slot.1 ∧ dep slot.2 slot.1 < n) :
    ∃ d', visitSlot S (row ranks fun r => row slots (dep r)) d slot = .ok d' ∧
      ∃ p' kept', Visited S n ranks dep (done ++ [slot]) d' p' kept' := by
  obtain ⟨i, r⟩ := slot
  have hentry : item (row ranks fun r => row slots (dep r)) (r : Int) = .ok (row slots (dep r)) :=
    item_row hslot.2
  unfold visitSlot
  rw [hentry, ok_bind, item_row hslot.1, ok_bind]
  by_cases hin : dep r i ∈ S.toList d.existingExperts
  · -- a repeated expert: its slot is redundant
    rw [if_neg (not_not.mpr hin)]
    refine ⟨_, rfl, update p r (p r ++ [i]), kept, ?_⟩
    have hmem : ∀ s : Nat × Nat, s.1 ∈ update p r (p r ++ [i]) s.2 ↔ s.1 ∈ p s.2 ∨ s = (i, r) := by
      intro s
      by_cases hs : s.2 = r
      · rw [hs, update_self, mem_append, mem_singleton, Prod.ext_iff]
        simp [hs]
      · rw [update_of_ne hs, Prod.ext_iff]
        simp [hs]
    refine ⟨?_, h.fromRank, h.experts, h.kept_nodup, ?_, ?_, ?_, ?_, ?_⟩
    · show d.redundantExpertPos.modify r (· ++ [i]) = _
      rw [h.pos, modify_row]
    · intro s
      rw [h.mem_kept, hmem, mem_append, mem_singleton]
      constructor
      · intro hs
        refine ⟨.inl hs.1, ?_⟩
        intro hpos
        rcases hpos with hpos | rfl
        · exact hs.2 hpos
        · exact hnew hs.1
      · intro hs
        obtain ⟨hs | hs, hpos⟩ := hs
        · exact ⟨hs, fun hp => hpos (.inl hp)⟩
        · exact absurd (.inr hs) hpos
    · intro r' i' hi'
      rcases (hmem (i', r')).mp hi' with hi' | hi'
      · exact mem_append_left _ (h.mem_pos r' i' hi')
      · exact mem_append_right _ (mem_singleton.mpr hi')
    · refine (forall_update_iff p fun _ l => l.Nodup).mpr ⟨?_, fun r' _ => h.pos_nodup r'⟩
      rw [← concat_eq_append]
      exact (h.pos_nodup r).concat fun hi => hnew (h.mem_pos r i hi)
    · have hsum := sum_update (show r < ranks from hslot.2) p (p r ++ [i]) List.length
      rw [length_append, length_singleton] at hsum
      show d.numRedundantExperts + 1 = _
      rw [h.num]
      omega
    · intro e
      rw [h.all, exists_mem_concat]
      refine ⟨.inl, fun hs => hs.elim id ?_⟩
      intro he
      exact he ▸ (h.all _).mp hin
  · -- the first occurrence stays
    rw [if_pos hin]
    obtain ⟨k, hk⟩ : ∃ k : Nat, dep r i = k := Int.eq_ofNat_of_zero_le hid.1
    have hset : setItem d.expertFromRank (dep r i) r = .ok (d.expertFromRank.set k r) := by
      rw [hk]
      refine Eplb.setItem_natCast ?_ r
      rw [h.fromRank]
      have hlt : dep r i < n := hid.2
      omega
    rw [hset, ok_bind]
    refine ⟨_, rfl, p, kept ++ [(i, r)], ?_⟩
    have hpos : i ∉ p r := fun hi => hnew (h.mem_pos r i hi)
    have hkept : (i, r) ∉ kept := fun hs => hnew ((h.mem_kept _).mp hs).1
    refine ⟨h.pos, ?_, ?_, ?_, ?_, ?_, h.pos_nodup, h.num, ?_⟩
    · exact (length_set ..).trans h.fromRank
    · rw [map_append]
      have hperm : (dep r i :: S.toList d.existingExperts).Perm
          (S.toList (S.add d.existingExperts (dep r i))) := by
        refine (perm_ext_iff_of_nodup (nodup_cons.mpr ⟨hin, S.nodup _⟩) (S.nodup _)).mpr ?_
        intro e
        rw [S.mem_add, mem_cons]
      exact (perm_append_singleton _ _).trans ((h.experts.cons _).trans hperm)
    · rw [← concat_eq_append]
      exact h.kept_nodup.concat hkept
    · intro s
      rw [mem_append, mem_append, h.mem_kept, mem_singleton]
      constructor
      · intro hs
        rcases hs with hs | rfl
        · exact ⟨.inl hs.1, hs.2⟩
        · exact ⟨.inr rfl, hpos⟩
      · intro hs
        obtain ⟨hs | hs, hp⟩ := hs
        · exact .inl ⟨hs, hp⟩
        · exact .inr hs
    · intro r' i' hi'
      exact mem_append_left _ (h.mem_pos r' i' hi')
    · intro e
      rw [S.mem_add, h.all, exists_mem_concat, or_comm, eq_comm]

theorem visited_start : Visited S n ranks dep [] {
    redundantExpertPos := replicate ranks []
    expertFromRank := replicate n 0
    existingExperts := S.empty
    numRedundantExperts := 0 } (fun _ => []) [] where
  pos := replicate_eq_row _
  fromRank := length_replicate
  experts := by
    rw [S.toList_empty]
    exact .refl _
  kept_nodup := nodup_nil
  mem_kept _ := ⟨fun hs => absurd hs not_mem_nil, fun hs => absurd hs.1 not_mem_nil⟩
  mem_pos _ _ hi := absurd hi not_mem_nil
  pos_nodup _ := nodup_nil
  num := Finset.sum_const_zero.symm
  all e := by
    rw [S.toList_empty]
    exact ⟨fun he => absurd he not_mem_nil, fun ⟨_, hs, _⟩ => absurd hs not_mem_nil⟩

theorem statisticsExpertDistribution_spec (hself : self.numOriginalExperts = n)
    (hslots : self.numExpertsPerRank = slots)
    (hids : ∀ r < ranks, ∀ i < slots, 0 ≤ dep r i ∧ dep r i < n) :
    ∃ d p kept, statisticsExpertDistribution S self (row ranks fun r => row slots (dep r)) = .ok d ∧
      Visited S n ranks dep (slotsOf slots ranks) d p kept := by
  unfold statisticsExpertDistribution
  rw [length_row, hslots, hself]
  have hrun := foldlM_done (l := slotsOf slots ranks)
    (f := visitSlot S (row ranks fun r => row slots (dep r)))
    (P := fun done d => ∃ p kept, Visited S n ranks dep done d p kept) ?_ ⟨_, _, visited_start⟩
  · obtain ⟨d, hok, p, kept, hd⟩ := hrun
    exact ⟨d, p, kept, hok, hd⟩
  · intro done slot rest d hsplit hd
    obtain ⟨p, kept, hd⟩ := hd
    have hnodup := nodup_slotsOf slots ranks
    rw [hsplit] at hnodup
    have hmem : slot ∈ slotsOf slots ranks := hsplit ▸ mem_append_right _ mem_cons_self
    have hlt := mem_slotsOf.mp hmem
    refine visitSlot_spec hd hlt ?_ (hids _ hlt.2 _ hlt.1)
    intro hdone
    exact (nodup_append.mp hnodup).2.2 slot hdone slot mem_cons_self rfl

end Statistics

/-! ## Open slots -/

theorem filled_eq_self (h : (-1 : Int) ∉ l) : filled l = l := by
  refine filter_eq_self.mpr ?_
  intro e he
  have hne : e ≠ -1 := fun heq => h (heq ▸ he)
  rw [decide_eq_false hne]
  rfl

theorem mem_filled : e ∈ filled l ↔ e ∈ l ∧ e ≠ -1 := by
  unfold filled
  rw [mem_filter, Bool.not_eq_true', decide_eq_false_iff_not]

/-- The rows of a node, with `free` slots. -/
structure OpenNode (ranks slots : Nat) (a : Nat → List Int) (free : Nat → Nat → Prop) : Prop where
  width : ∀ r < ranks, (a r).length = slots
  apart : ∀ r < ranks, (filled (a r)).Nodup
  free : ∀ r < ranks, ∀ i : Nat, (a r)[i]? = some (-1) ↔ free r i

section OpenSlots

variable {ranks slots : Nat} {a : Nat → List Int} {free free' : Nat → Nat → Prop}

theorem OpenNode.congr (h : OpenNode ranks slots a free) (heq : ∀ r < ranks, ∀ i, free r i ↔ free' r i) :
    OpenNode ranks slots a free' :=
  ⟨h.width, h.apart, fun r hr i => (h.free r hr i).trans (heq r hr i)⟩

variable {r i : Nat} {e : Int}

section

variable (h : OpenNode ranks slots a free) (hr : r < ranks) (hfree : free r i) (he : e ≠ -1)
include h hr hfree he

theorem OpenNode.assign (hnew : e ∉ a r) :
    OpenNode ranks slots (update a r ((a r).set i e)) fun r' i' => free r' i' ∧ ¬ (r' = r ∧ i' = i) := by
  have hget := (h.free r hr i).mpr hfree
  refine ⟨?_, ?_, ?_⟩
  · refine (forall_update_iff a fun r' l => r' < ranks → l.length = slots).mpr
      ⟨fun _ => ?_, fun r' _ => h.width r'⟩
    rw [length_set]
    exact h.width r hr
  · refine (forall_update_iff a fun r' l => r' < ranks → (filled l).Nodup).mpr
      ⟨fun _ => ?_, fun r' _ => h.apart r'⟩
    rw [(filled_set_perm hget he).nodup_iff, nodup_cons]
    exact ⟨fun hmem => hnew (mem_filled.mp hmem).1, h.apart r hr⟩
  · intro r' hr' i'
    by_cases heq : r' = r
    · subst heq
      rw [update_self, List.getElem?_set, ← h.free r' hr']
      by_cases hi : i = i'
      · rw [if_pos hi, if_pos (hi ▸ (List.getElem?_eq_some_iff.mp hget).1)]
        constructor
        · intro hx
          exact absurd (Option.some.inj hx) he
        · intro hx
          exact absurd ⟨rfl, hi.symm⟩ hx.2
      · rw [if_neg hi]
        exact ⟨fun hx => ⟨hx, fun hx' => hi hx'.2.symm⟩, fun hx => hx.1⟩
    · rw [update_of_ne heq, ← h.free r' hr']
      exact ⟨fun hx => ⟨hx, fun hx' => heq hx'.1⟩, fun hx => hx.1⟩

theorem OpenNode.assign_perm :
    ((row ranks (update a r ((a r).set i e))).flatMap filled).Perm
      (e :: (row ranks a).flatMap filled) := by
  refine perm_iff_count.mpr ?_
  intro x
  have hsum := sum_update hr a ((a r).set i e) fun l => (filled l).count x
  have hrow := (filled_set_perm ((h.free r hr i).mpr hfree) he).count_eq x
  rw [count_cons] at hrow
  rw [count_flatMap_row, count_cons, count_flatMap_row]
  omega

theorem OpenNode.assign_load (w : Int → ℚ) :
    ((filled ((a r).set i e)).map w).sum = ((filled (a r)).map w).sum + w e := by
  rw [((filled_set_perm ((h.free r hr i).mpr hfree) he).map w).sum_eq, map_cons, sum_cons, add_comm]

end

theorem OpenNode.closed (h : OpenNode ranks slots a free) (hr : r < ranks)
    (hnone : ∀ i, ¬ free r i) : filled (a r) = a r := by
  refine filled_eq_self ?_
  intro hmem
  obtain ⟨i, hi⟩ := mem_iff_getElem?.mp hmem
  exact hnone i ((h.free r hr i).mp hi)

theorem OpenNode.closed_flatMap (h : OpenNode ranks slots a free) (hnone : ∀ r < ranks, ∀ i, ¬ free r i) :
    (row ranks a).flatMap filled = (row ranks a).flatten := by
  rw [flatMap_def, map_row]
  refine congrArg List.flatten (row_congr ?_)
  intro r hr
  exact h.closed hr (hnone r hr)

end OpenSlots

/-! ## The experts that stay -/

theorem filled_row (f : Nat → Int) :
    filled (row slots f) = ((range slots).filter fun i => !decide (f i = -1)).map f := by
  unfold filled row
  rw [filter_map]
  rfl

theorem keptExperts_row (f : Nat → Int) (pos : List Nat) :
    keptExperts (row slots f) pos = row slots fun i => if i ∈ pos then -1 else f i := by
  unfold keptExperts
  rw [zipIdx_row, map_row]

theorem filled_keptExperts {f : Nat → Int} (hf : ∀ i < slots, 0 ≤ f i) (pos : List Nat) :
    filled (keptExperts (row slots f) pos) = ((range slots).filter (· ∉ pos)).map f := by
  rw [keptExperts_row, filled_row]
  have hfilter : ((range slots).filter fun i => !decide ((if i ∈ pos then -1 else f i) = -1)) =
      (range slots).filter (· ∉ pos) := by
    refine filter_congr ?_
    intro i hi
    have hpos := hf i (mem_range.mp hi)
    by_cases hmem : i ∈ pos
    · simp [hmem]
    · have hne : f i ≠ -1 := by omega
      simp [hmem, hne]
  rw [hfilter]
  refine map_congr_left ?_
  intro i hi
  have hmem := (mem_filter.mp hi).2
  rw [if_neg (by simpa using hmem)]

theorem keptList_eq (f : Nat → Int) (pos : List Nat) :
    (((row slots f).zipIdx.filter fun y => y.2 ∉ pos).map Prod.fst) =
      ((range slots).filter (· ∉ pos)).map f := by
  rw [zipIdx_row]
  unfold row
  rw [filter_map, map_map]
  rfl

section Start

variable {S : IntSet} {n slots ranks : Nat} {dep : Nat → Nat → Int} {d : Distribution S}
  {p : Nat → List Nat} {kept : List (Nat × Nat)}

theorem Visited.rows_perm (h : Visited S n ranks dep (slotsOf slots ranks) d p kept) :
    ((row ranks fun r => ((range slots).filter (· ∉ p r)).map (dep r)).flatten).Perm
      (S.toList d.existingExperts) := by
  refine Perm.trans ?_ h.experts
  have hslots : ((range ranks).flatMap fun r =>
      ((range slots).filter (· ∉ p r)).map fun i => (i, r)).Perm kept := by
    refine (perm_ext_iff_of_nodup ?_ h.kept_nodup).mpr ?_
    · refine nodup_flatMap.mpr ⟨?_, ?_⟩
      · intro r _
        refine (nodup_range.filter _).map ?_
        intro i j hij
        exact (Prod.mk.inj hij).1
      · refine nodup_range.imp ?_
        intro r r' hne s hs hs'
        obtain ⟨_, -, rfl⟩ := mem_map.mp hs
        obtain ⟨_, -, heq⟩ := mem_map.mp hs'
        exact hne (Prod.mk.inj heq).2.symm
    · intro s
      rw [h.mem_kept, mem_slotsOf, mem_flatMap]
      constructor
      · intro hs
        obtain ⟨r, hr, hs⟩ := hs
        obtain ⟨i, hi, rfl⟩ := mem_map.mp hs
        obtain ⟨hi, hpos⟩ := mem_filter.mp hi
        exact ⟨⟨mem_range.mp hi, mem_range.mp hr⟩, by simpa using hpos⟩
      · intro hs
        refine ⟨s.2, mem_range.mpr hs.1.2, mem_map.mpr ⟨s.1, ?_, rfl⟩⟩
        exact mem_filter.mpr ⟨mem_range.mpr hs.1.1, by simpa using hs.2⟩
  have hmap := hslots.map fun s => dep s.2 s.1
  rw [map_flatMap] at hmap
  rw [row, ← flatMap_def]
  refine Perm.trans (.of_eq ?_) hmap
  refine congrArg (fun g => (range ranks).flatMap g) ?_
  funext r
  rw [map_map]
  rfl

end Start

/-! ## New copies -/

/-- The experts of a list of copies. -/
def copyIds (l : List (Nat × ℚ)) : List Int := l.map fun x => (x.1 : Int)

/-- While the copies are given to ranks: `kept` experts have stayed, the copies in `done` have
been tried, and those in `placed` have a slot. -/
structure Distributing (n slots ranks : Nat) (w : Nat → ℚ) (kept : List Int) (num : Nat) (done : List Int)
    (s : NodeState) (a : Nat → List Int) (p : Nat → List Nat) (placed : List Int) : Prop where
  assignments : s.rankAssignments = row ranks a
  pos : s.redundantExpertPos = row ranks p
  loads : s.rankLoads = row ranks fun r => ((filled (a r)).map fun e => w e.toNat).sum
  isOpen : OpenNode ranks slots a fun r i => i ∈ p r
  pos_nodup : ∀ r, (p r).Nodup
  tried : placed.Sublist done
  experts : ((row ranks a).flatMap filled).Perm (kept ++ placed)
  num : ∑ r ∈ Finset.range ranks, (p r).length + placed.length = num
  ids : ∀ e ∈ kept, 0 ≤ e ∧ e < n

section Copies

variable {S : IntSet} {self : SwiftBalanceEplb} {n slots ranks : Nat} {dep : Nat → Nat → Int}

variable {p : Nat → List Nat} {s : NodeState}

theorem nonRedundantExpertInformation_spec {d : Distribution S} {kept : List (Nat × Nat)}
    (h : Visited S n ranks dep (slotsOf slots ranks) d p kept)
    (hids : ∀ r < ranks, ∀ i < slots, 0 ≤ dep r i ∧ dep r i < n)
    (hapart : ∀ r < ranks, (row slots (dep r)).Nodup) (w : Nat → ℚ) :
    ∃ s, nonRedundantExpertInformation (row ranks fun r => row slots (dep r)) (row n w)
        d.redundantExpertPos = .ok s ∧
      Distributing n slots ranks w (S.toList d.existingExperts) d.numRedundantExperts [] s
        (fun r => keptExperts (row slots (dep r)) (p r)) p [] := by
  have hfilled : ∀ r < ranks, filled (keptExperts (row slots (dep r)) (p r)) =
      ((range slots).filter (· ∉ p r)).map (dep r) :=
    fun r hr => filled_keptExperts (fun i hi => (hids r hr i hi).1) (p r)
  have hloads : ((row ranks fun r => row slots (dep r)).zip d.redundantExpertPos).mapM
      (fun x => placedLoad (row n w) ((x.1.zipIdx.filter fun y => y.2 ∉ x.2).map Prod.fst)) =
        .ok (row ranks fun r =>
          ((filled (keptExperts (row slots (dep r)) (p r))).map fun e => w e.toNat).sum) := by
    rw [h.pos, List.zip, Eplb.zipWith_row]
    refine mapM_map.trans (mapM_ok ?_)
    intro r hr
    have hr := mem_range.mp hr
    show placedLoad (row n w) (((row slots (dep r)).zipIdx.filter fun y => y.2 ∉ p r).map Prod.fst) = _
    rw [keptList_eq, ← hfilled r hr]
    refine placedLoad_row w ?_
    intro e he
    rw [hfilled r hr] at he
    obtain ⟨i, hi, rfl⟩ := mem_map.mp he
    exact hids r hr i (mem_range.mp (mem_filter.mp hi).1)
  unfold nonRedundantExpertInformation
  rw [hloads, ok_bind]
  refine ⟨_, rfl, ?_, h.pos, rfl, ⟨?_, ?_, ?_⟩, h.pos_nodup, Sublist.refl _, ?_, ?_, ?_⟩
  · show zipWith keptExperts _ _ = _
    rw [h.pos, Eplb.zipWith_row]
  · intro r _
    rw [keptExperts_row, length_row]
  · intro r hr
    rw [hfilled r hr]
    have hsub : (((range slots).filter (· ∉ p r)).map (dep r)).Sublist (row slots (dep r)) :=
      (filter_sublist).map (dep r)
    exact (hapart r hr).sublist hsub
  · intro r hr i
    rw [keptExperts_row, getElem?_row]
    constructor
    · intro hi
      split at hi
      · rename_i hlt
        by_contra hmem
        rw [if_neg hmem] at hi
        have := (hids r hr i hlt).1
        have := Option.some.inj hi
        omega
      · cases hi
    · intro hi
      have hlt := (mem_slotsOf.mp (h.mem_pos r i hi)).1
      rw [if_pos hlt, if_pos hi]
  · rw [append_nil, flatMap_def, map_row, row_congr hfilled]
    exact h.rows_perm
  · exact h.num.symm
  · intro e he
    obtain ⟨s, hs, rfl⟩ := (h.all e).mp he
    have hlt := mem_slotsOf.mp hs
    exact hids s.2 hlt.2 s.1 hlt.1

theorem nextCandidate_takes {e : Int} {send c : Nat} {l : List Nat} {start : Option Nat}
    (hstart : ∀ c ∈ start, s.takes self e send c)
    (h : l.foldl (nextCandidate self s e send) start = some c) :
    s.takes self e send c ∧ (c ∈ l ∨ start = some c) := by
  induction l generalizing start with
  | nil => exact ⟨hstart c h, .inr h⟩
  | cons r l ih =>
    have hnext : ∀ c ∈ nextCandidate self s e send start r,
        s.takes self e send c ∧ (c = r ∨ start = some c) := by
      intro c hc
      unfold nextCandidate at hc
      split at hc
      · rename_i htakes
        cases start with
        | none =>
          cases hc
          exact ⟨htakes, .inl rfl⟩
        | some best =>
          dsimp only at hc
          split at hc
          · cases hc
            exact ⟨htakes, .inl rfl⟩
          · exact ⟨hstart c hc, .inr hc⟩
      · exact ⟨hstart c hc, .inr hc⟩
    obtain ⟨htakes, hc | hc⟩ := ih (fun c hc => (hnext c hc).1) h
    · exact ⟨htakes, .inl (mem_cons_of_mem _ hc)⟩
    · rcases (hnext c hc).2 with rfl | hs
      · exact ⟨htakes, .inl mem_cons_self⟩
      · exact ⟨htakes, .inr hs⟩

/-- A copy goes to a rank with a free slot that has not the expert, or to none. -/
theorem distributeExpert_spec {w : Nat → ℚ} {kept done : List Int} {num : Nat} {a : Nat → List Int}
    {placed : List Int} (h : Distributing n slots ranks w kept num done s a p placed)
    {expertFromRank : List Nat} (hfrom : expertFromRank.length = n) {x : Nat × ℚ} (hx : x.1 < n)
    (hw : x.2 = w x.1) :
    ∃ s', distributeExpert self expertFromRank s x = .ok s' ∧
      ∃ a' p' placed', Distributing n slots ranks w kept num (done ++ [(x.1 : Int)]) s' a' p' placed' := by
  obtain ⟨send, hsend⟩ : ∃ send, item expertFromRank (x.1 : Int) = .ok send :=
    ⟨_, item_natCast (List.getElem?_eq_getElem (hfrom.symm ▸ hx))⟩
  unfold distributeExpert
  rw [hsend, ok_bind]
  cases hcand : (range s.rankAssignments.length).foldl (nextCandidate self s x.1 send) none with
  | none =>
    exact ⟨s, rfl, a, p, placed, h.assignments, h.pos, h.loads, h.isOpen, h.pos_nodup,
      h.tried.trans (sublist_append_left _ _), h.experts, h.num, h.ids⟩
  | some c =>
    obtain ⟨htakes, hmem⟩ := nextCandidate_takes (fun _ hc => by cases hc) hcand
    have hc : c < ranks := by
      have hmem := mem_range.mp (hmem.resolve_right nofun)
      rwa [h.assignments, length_row] at hmem
    unfold NodeState.takes at htakes
    rw [h.pos, h.assignments, getD_row hc, getD_row hc, decide_eq_true_eq] at htakes
    obtain ⟨hpos, hnew, -⟩ := htakes
    obtain ⟨i, hi⟩ : ∃ i, (p c).getLast? = some i := ⟨_, getLast?_eq_some_getLast hpos⟩
    have hlast : p c = (p c).dropLast ++ [i] := (dropLast_append_getLast? i hi).symm
    have hmemi : i ∈ p c := hlast ▸ mem_append_right _ mem_cons_self
    have hdrop : (p c).dropLast.Nodup ∧ i ∉ (p c).dropLast := by
      have hnodup := h.pos_nodup c
      rw [hlast, nodup_append] at hnodup
      exact ⟨hnodup.1, fun hin => hnodup.2.2 i hin i mem_cons_self rfl⟩
    have hne : (x.1 : Int) ≠ -1 := by omega
    dsimp only
    rw [h.pos, getD_row hc, hi]
    refine ⟨_, rfl, update a c ((a c).set i x.1), update p c (p c).dropLast,
      placed ++ [(x.1 : Int)], ?_, ?_, ?_, ?_, ?_, ?_, ?_, ?_, h.ids⟩
    · show s.rankAssignments.modify c _ = _
      rw [h.assignments, modify_row]
    · show modify _ c _ = _
      rw [modify_row]
    · show s.rankLoads.modify c _ = _
      rw [h.loads, modify_row]
      refine row_congr ?_
      intro r _
      by_cases hr : r = c
      · rw [hr, update_self, update_self, h.isOpen.assign_load hc hmemi hne fun e => w e.toNat, hw]
        rfl
      · rw [update_of_ne hr, update_of_ne hr]
    · refine (h.isOpen.assign hc hmemi hne hnew).congr ?_
      intro r _ j
      by_cases hr : r = c
      · subst hr
        rw [update_self]
        constructor
        · intro hj
          have hmem := hj.1
          rw [hlast, mem_append, mem_singleton] at hmem
          exact hmem.resolve_right fun hji => hj.2 ⟨rfl, hji⟩
        · intro hj
          exact ⟨dropLast_subset _ hj, fun hji => hdrop.2 (hji.2 ▸ hj)⟩
      · rw [update_of_ne hr]
        exact ⟨fun hj => hj.1, fun hj => ⟨hj, fun hjc => hr hjc.1⟩⟩
    · exact (forall_update_iff p fun _ l => l.Nodup).mpr ⟨hdrop.1, fun r _ => h.pos_nodup r⟩
    · exact h.tried.append (Sublist.refl _)
    · refine (h.isOpen.assign_perm hc hmemi hne).trans ((h.experts.cons _).trans ?_)
      rw [← append_assoc]
      exact (perm_append_singleton _ _).symm
    · have hsum := sum_update hc p (p c).dropLast List.length
      have hlen := congrArg List.length hlast
      rw [length_append, length_singleton] at hlen
      rw [length_append, length_singleton, ← h.num]
      omega

theorem distribute_loop (self : SwiftBalanceEplb) {w : Nat → ℚ} {kept : List Int} {num : Nat}
    {a : Nat → List Int} (h : Distributing n slots ranks w kept num [] s a p [])
    {expertFromRank : List Nat} (hfrom : expertFromRank.length = n) (list : List (Nat × ℚ))
    (hlist : ∀ x ∈ list, x.1 < n ∧ x.2 = w x.1) :
    ∃ s' a' p' placed', list.foldlM (distributeExpert self expertFromRank) s = .ok s' ∧
      Distributing n slots ranks w kept num (copyIds list) s' a' p' placed' := by
  have hrun := foldlM_done (l := list) (f := distributeExpert self expertFromRank) (b := s)
    (P := fun done s => ∃ a p placed, Distributing n slots ranks w kept num (copyIds done) s a p placed)
    ?_ ⟨a, p, [], h⟩
  · obtain ⟨s', hok, a', p', placed', hs'⟩ := hrun
    exact ⟨s', a', p', placed', hok, hs'⟩
  · intro done x rest s hsplit hs
    obtain ⟨a, p, placed, hs⟩ := hs
    obtain ⟨hx, hw⟩ := hlist x (hsplit ▸ mem_append_right _ mem_cons_self)
    obtain ⟨s', hok, hs'⟩ := distributeExpert_spec hs hfrom hx hw
    refine ⟨s', hok, ?_⟩
    unfold copyIds at hs' ⊢
    rw [map_append]
    exact hs'

end Copies

/-! ## The weights of the copies -/

theorem copyShare_eq (k : Nat) : copyShare k = 2 / (k + 2) := by
  induction k with
  | zero => norm_num [copyShare]
  | succ k ih =>
    show copyShare k * ((k + 1 : Nat) + 1) / ((k + 1 : Nat) + 2) = _
    rw [ih]
    push_cast
    field_simp
    ring

/-- What a copy is taken to bear is at least its part when the copies share evenly. -/
theorem div_le_copyShare {w : ℚ} (hw : 0 ≤ w) (k : Nat) : w / (k + 1 : Nat) ≤ w * copyShare k := by
  rw [copyShare_eq, div_eq_mul_one_div]
  refine mul_le_mul_of_nonneg_left ?_ hw
  have h1 : (0 : ℚ) < (k + 1 : Nat) := by positivity
  have h2 : (0 : ℚ) < k + 2 := by positivity
  rw [div_le_div_iff₀ h1 h2]
  push_cast
  linarith

section Weights

variable {sort : Argsort} {n numRanks : Nat} {initial : List (Nat × ℚ)}

theorem redundancyRounds_copies (hnodup : (initial.map Prod.fst).Nodup) (hlt : ∀ x ∈ initial, x.1 < n)
    {rounds : Nat} {s : RedundancyState}
    (h : redundancyRounds sort numRanks rounds ⟨initial, replicate n 0⟩ = .ok s) :
    ∑ e ∈ Finset.range n, s.redundancy e ≤ rounds ∧ ∀ e, 0 < s.redundancy e → e ∈ initial.map Prod.fst := by
  induction rounds generalizing s with
  | zero =>
    cases h
    have hzero : ∀ e, RedundancyState.redundancy ⟨initial, replicate n 0⟩ e = 0 := by
      intro e
      unfold RedundancyState.redundancy
      rw [getD_eq_getElem?_getD, List.getElem?_replicate]
      split <;> rfl
    refine ⟨le_of_eq (Finset.sum_eq_zero fun e _ => hzero e), ?_⟩
    intro e he
    rw [hzero e] at he
    exact absurd he (lt_irrefl 0)
  | succ rounds ih =>
    obtain ⟨s0, hs0, hround⟩ := bind_ok h
    obtain ⟨hsum, hmem⟩ := ih hs0
    obtain ⟨s0', hs0', hscaled⟩ := redundancyRounds_scaled sort numRanks hnodup hlt rounds
    rw [hs0] at hs0'
    cases hs0'
    obtain ⟨s', hs', hnext, -⟩ := redundancyRound_spec sort numRanks hscaled hnodup hlt
    rw [hround] at hs'
    cases hs'
    rcases hnext with ⟨-, rfl⟩ | ⟨e0, w, hin, -, -, hcopy, hother, -⟩
    · exact ⟨hsum.trans (Nat.le_succ rounds), hmem⟩
    · have hids : e0 ∈ initial.map Prod.fst := by
        have hin := mem_map_of_mem (f := Prod.fst) hin
        rw [hscaled.weights, map_map] at hin
        exact hin
      have he0 : e0 < n := by
        obtain ⟨x, hx, rfl⟩ := mem_map.mp hids
        exact hlt x hx
      refine ⟨?_, ?_⟩
      · have hupdate := sum_update he0 s0.redundancy (s0.redundancy e0 + 1) id
        have heq : ∀ e ∈ Finset.range n, s.redundancy e =
            id (update s0.redundancy e0 (s0.redundancy e0 + 1) e) := by
          intro e _
          by_cases he : e = e0
          · rw [he, update_self, hcopy]
            rfl
          · rw [update_of_ne he, hother e he]
            rfl
        rw [Finset.sum_congr rfl heq]
        simp only [id] at hupdate ⊢
        omega
      · intro e he
        by_cases heq : e = e0
        · exact heq ▸ hids
        · exact hmem e (hother e heq ▸ he)

theorem updateWeight_length {currentWeights : List (Nat × ℚ)} {weights weights' : List ℚ}
    (h : updateWeight currentWeights weights = .ok weights') : weights'.length = weights.length := by
  refine foldlM_keeps (P := fun w : List ℚ => w.length = weights.length) ?_ rfl h
  intro w x _ w' hw hstep
  split at hstep
  · cases hstep
    rw [length_set]
    exact hw
  · cases hstep

/-- What `compute_redundant_assignments` returns: no more copies than redundant slots, and the
weights that go with the numbers of the copies. -/
theorem computeRedundantAssignments_copies (sort : Argsort) (numRanks : Nat)
    (hnodup : (initial.map Prod.fst).Nodup) (hlt : ∀ x ∈ initial, x.1 < n) (num : Nat) :
    ∃ list w, computeRedundantAssignments sort n initial num numRanks = .ok (list, row n w) ∧
      list.length ≤ num ∧ (∀ x ∈ list, x.1 ∈ initial.map Prod.fst ∧ x.2 = w x.1) ∧
      ∀ x ∈ initial, w x.1 = x.2 * copyShare ((list.map Prod.fst).count x.1) := by
  obtain ⟨states, list, weights, hok, hrounds, h⟩ :=
    computeRedundantAssignments_redundant sort numRanks hnodup hlt num
  obtain ⟨hsum, hmem⟩ := redundancyRounds_copies hnodup hlt (hrounds num)
  have hlen : weights.length = n := by
    unfold computeRedundantAssignments at hok
    obtain ⟨s, -, hok⟩ := bind_ok hok
    obtain ⟨weights', hupdate, hok⟩ := bind_ok hok
    cases hok
    exact (updateWeight_length hupdate).trans length_replicate
  obtain ⟨w, rfl⟩ := exists_row hlen
  have hin : ∀ x ∈ list, x.1 ∈ initial.map Prod.fst := by
    intro x hx
    refine hmem x.1 ?_
    rw [← h.list_count]
    exact count_pos_iff.mpr (mem_map_of_mem hx)
  have hids : ∀ x ∈ list, x.1 < n := by
    intro x hx
    obtain ⟨y, hy, heq⟩ := mem_map.mp (hin x hx)
    exact heq ▸ hlt y hy
  refine ⟨list, w, hok, ?_, ?_, ?_⟩
  · refine le_trans ?_ hsum
    rw [← length_map Prod.fst, ← sum_toFinset_count_eq_length (list.map Prod.fst),
      Finset.sum_congr rfl fun e _ => h.list_count e]
    refine Finset.sum_le_sum_of_subset ?_
    intro e he
    obtain ⟨x, hx, rfl⟩ := mem_map.mp (mem_toFinset.mp he)
    exact mem_range.mpr (hids x hx)
  · intro x hx
    refine ⟨hin x hx, ?_⟩
    have hget := h.list_weights x hx
    rw [getElem?_row, if_pos (hids x hx)] at hget
    exact (Option.some.inj hget).symm
  · intro x hx
    have hget := h.result x hx
    rw [getElem?_row, if_pos (hlt x hx)] at hget
    rw [h.list_count]
    exact Option.some.inj hget

end Weights

/-! ## The slots that no copy took -/

section Fill

variable {sort : Argsort} {self : SwiftBalanceEplb} {n slots ranks : Nat} {load : Nat → ℚ}
  {kept : List Int} {a : Nat → List Int}

/-- How often an expert has a slot. -/
def replicas (ranks : Nat) (a : Nat → List Int) (e : Int) : Nat := ((row ranks a).flatMap filled).count e

/-- `update_workload`: -1 for an expert of another node. -/
def sharedWeight (ranks : Nat) (load : Nat → ℚ) (kept : List Int) (a : Nat → List Int) (i : Nat) : ℚ :=
  if (i : Int) ∈ kept then load i / replicas ranks a i else -1

theorem flatten_filter (rows : List (List Int)) :
    (rows.flatten.filter fun e => decide (e ≠ -1)) = rows.flatMap filled := by
  rw [filter_flatten]
  refine congrArg List.flatten (map_congr_left ?_)
  intro l _
  refine filter_congr ?_
  intro e _
  exact decide_not

theorem recomputingInitialWeight_spec (load : Nat → ℚ) (hself : self.numOriginalExperts = n)
    (hids : ∀ e ∈ kept, 0 ≤ e ∧ e < n)
    (hexperts : ∀ e, e ∈ (row ranks a).flatMap filled ↔ e ∈ kept) :
    recomputingInitialWeight self (kept.map fun e => (e.toNat, load e.toNat)) (row ranks a) =
      .ok (row n (sharedWeight ranks load kept a), row n fun i => replicas ranks a i) := by
  unfold recomputingInitialWeight
  rw [flatten_filter, hself, countExpert_row fun e he => hids e ((hexperts e).mp he), ok_bind,
    replicate_eq_row]
  have hrun := foldlM_done (l := kept.map fun e => (e.toNat, load e.toNat))
    (b := row n fun _ => (-1 : ℚ)) (f := fun (updateWorkload : List ℚ) (x : Nat × ℚ) => do
      let count ← item (row n fun i => ((row ranks a).flatMap filled).count (i : Int)) (x.1 : Int)
      assert (count ≠ 0)
      setItem updateWorkload (x.1 : Int) (x.2 / count))
    (P := fun done b => b = row n fun i =>
      if i ∈ done.map Prod.fst then load i / replicas ranks a i else -1) ?_ rfl
  · obtain ⟨b, hok, rfl⟩ := hrun
    rw [hok, ok_bind]
    refine congrArg (fun w => Except.ok (w, _)) (row_congr ?_)
    intro i _
    unfold sharedWeight
    have hiff : i ∈ (kept.map fun e => (e.toNat, load e.toNat)).map Prod.fst ↔ (i : Int) ∈ kept := by
      rw [map_map, mem_map]
      constructor
      · intro hi
        obtain ⟨e, he, rfl⟩ := hi
        show ((e.toNat : Nat) : Int) ∈ kept
        rwa [Int.toNat_of_nonneg (hids e he).1]
      · intro hi
        exact ⟨i, hi, Int.toNat_natCast i⟩
    by_cases hi : (i : Int) ∈ kept
    · rw [if_pos hi, if_pos (hiff.mpr hi)]
    · rw [if_neg hi, if_neg fun hin => hi (hiff.mp hin)]
  · intro done x rest b hsplit hb
    obtain ⟨e, he, rfl⟩ : ∃ e ∈ kept, (e.toNat, load e.toNat) = x :=
      mem_map.mp (hsplit ▸ mem_append_right _ mem_cons_self)
    obtain ⟨k, rfl⟩ := Int.eq_ofNat_of_zero_le (hids e he).1
    have hk : k < n := Int.ofNat_lt.mp (hids _ he).2
    have hcount : ((row ranks a).flatMap filled).count (k : Int) ≠ 0 :=
      pos_iff_ne_zero.mp (count_pos_iff.mpr ((hexperts _).mpr he))
    refine ⟨_, ?_, rfl⟩
    subst hb
    simp only [Int.toNat_natCast]
    rw [item_row hk, ok_bind]
    have hassert : assert (decide (((row ranks a).flatMap filled).count (k : Int) ≠ 0)) = .ok () := by
      unfold assert
      rw [decide_eq_true hcount]
      rfl
    rw [hassert, ok_bind, setItem_row hk]
    refine congrArg Except.ok (row_congr ?_)
    intro i _
    have hiff : i ∈ (done ++ [(k, load k)]).map Prod.fst ↔ i ∈ done.map Prod.fst ∨ i = k := by
      rw [map_append, map_singleton, mem_append, mem_singleton]
    by_cases hi : i = k
    · rw [if_pos (hiff.mpr (.inr hi)), hi, update_self]
      rfl
    · rw [update_of_ne hi]
      by_cases hin : i ∈ done.map Prod.fst
      · rw [if_pos hin, if_pos (hiff.mpr (.inl hin))]
      · rw [if_neg hin, if_neg fun h => (hiff.mp h).elim hin hi]

theorem pickExpert_spec {u : Nat → ℚ} {rank : List Int} {l : List Nat}
    (hnone : ∀ i < n, (i : Int) ∉ kept → u i = -1) (hpos : ∀ i : Nat, (i : Int) ∈ kept → 0 ≤ u i)
    (hl : ∀ i ∈ l, i < n) (hsorted : l.Pairwise fun i j => u j ≤ u i) {e0 : Nat} (he0 : e0 ∈ l)
    (hkept : (e0 : Int) ∈ kept) (hnew : (e0 : Int) ∉ rank) :
    ∃ e, pickExpert rank (row n u) l = .ok (some e) ∧ e < n ∧ (e : Int) ∈ kept ∧ (e : Int) ∉ rank := by
  induction l with
  | nil => exact absurd he0 not_mem_nil
  | cons i l ih =>
    obtain ⟨hi, hl⟩ := forall_mem_cons.mp hl
    obtain ⟨hle, hsorted⟩ := pairwise_cons.mp hsorted
    unfold pickExpert
    by_cases hin : (i : Int) ∈ rank
    · rw [if_pos hin]
      refine ih hl hsorted ?_
      rcases mem_cons.mp he0 with rfl | he0
      · exact absurd hin hnew
      · exact he0
    · have hui : 0 ≤ u i := by
        rcases mem_cons.mp he0 with rfl | he0
        · exact hpos e0 hkept
        · exact (hpos e0 hkept).trans (hle e0 he0)
      have hik : (i : Int) ∈ kept := by
        by_contra hik
        rw [hnone i hi hik] at hui
        norm_num at hui
      have hclose : isClose (u i) (-1) = false := by
        have habs : |u i - -1| = u i + 1 := by
          rw [sub_neg_eq_add, abs_of_nonneg (by linarith)]
        have hone : |(-1 : ℚ)| = 1 := by norm_num
        unfold isClose
        rw [decide_eq_false_iff_not, not_le, habs, hone]
        linarith
      rw [if_neg hin, item_row hi, ok_bind, hclose]
      exact ⟨i, rfl, hi, hik, hin⟩

/-- While the free slots are filled: the weights are the shares of the experts. -/
structure Filling (n slots ranks : Nat) (load : Nat → ℚ) (kept : List Int) (todo : List (Nat × Nat))
    (s : FillState) (a : Nat → List Int) : Prop where
  assignments : s.node.rankAssignments = row ranks a
  weights : s.updateWorkload = row n (sharedWeight ranks load kept a)
  counts : s.numPerExistingExpert = row n fun i => replicas ranks a i
  isOpen : OpenNode ranks slots a fun r i => (r, i) ∈ todo
  experts : ∀ e, e ∈ (row ranks a).flatMap filled ↔ e ∈ kept
  todo_nodup : todo.Nodup
  todo_ranks : ∀ slot ∈ todo, slot.1 < ranks

theorem OpenNode.lacks {free : Nat → Nat → Prop} (h : OpenNode ranks slots a free) {r i : Nat}
    (hr : r < ranks) (hfree : free r i) {l : List Int} (hl : l.Nodup) (hlen : l.length = slots)
    (hne : ∀ e ∈ l, e ≠ -1) : ∃ e ∈ l, e ∉ a r := by
  by_contra hall
  have hsub : l ⊆ filled (a r) := by
    intro e he
    by_contra hin
    exact hall ⟨e, he, fun hmem => hin (mem_filled.mpr ⟨hmem, hne e he⟩)⟩
  have hle := (hl.subperm hsub).length_le
  have hcount := length_filled (a r)
  have hone : 0 < (a r).count (-1) :=
    count_pos_iff.mpr (mem_of_getElem? ((h.free r hr i).mpr hfree))
  rw [h.width r hr] at hcount
  omega

theorem fillSlot_spec {todo : List (Nat × Nat)} {slot : Nat × Nat} {s : FillState}
    {expertFromRank : List Nat} (hfrom : expertFromRank.length = n)
    (hload : ∀ i, 0 ≤ load i) (hids : ∀ e ∈ kept, 0 ≤ e ∧ e < n)
    (hfull : ∀ r < ranks, ∃ l : List Int, l.Nodup ∧ l.length = slots ∧ ∀ e ∈ l, e ∈ kept)
    (h : Filling n slots ranks load kept (slot :: todo) s a) :
    ∃ s', fillSlot sort expertFromRank s slot = .ok s' ∧ ∃ a', Filling n slots ranks load kept todo s' a' := by
  obtain ⟨r, i⟩ := slot
  obtain ⟨hslot, htodo⟩ := nodup_cons.mp h.todo_nodup
  have hr : r < ranks := h.todo_ranks _ mem_cons_self
  have hfree : (r, i) ∈ (r, i) :: todo := mem_cons_self
  obtain ⟨l, hl, hlen, hlk⟩ := hfull r hr
  obtain ⟨e0, he0, hnew0⟩ := h.isOpen.lacks hr hfree hl hlen fun e he => by
    have := (hids e (hlk e he)).1
    omega
  obtain ⟨k0, rfl⟩ := Int.eq_ofNat_of_zero_le (hids e0 (hlk e0 he0)).1
  have hk0 : k0 < n := Int.ofNat_lt.mp (hids _ (hlk _ he0)).2
  -- the loop over the sorted experts stops at one of the node
  obtain ⟨e, hpick, he, hek, hnew⟩ : ∃ e, pickExpert (a r) s.updateWorkload
      (sort.argsort s.updateWorkload).reverse = .ok (some e) ∧ e < n ∧ (e : Int) ∈ kept ∧ (e : Int) ∉ a r := by
    rw [h.weights]
    have hperm := sort.perm (row n (sharedWeight ranks load kept a))
    rw [length_row] at hperm
    have hmem : ∀ i, i ∈ (sort.argsort (row n (sharedWeight ranks load kept a))).reverse ↔ i < n := by
      intro i
      rw [mem_reverse, hperm.mem_iff, mem_range]
    refine pickExpert_spec ?_ ?_ (fun i hi => (hmem i).mp hi) ?_ ((hmem k0).mpr hk0)
      (hlk _ he0) hnew0
    · intro i _ hi
      exact if_neg hi
    · intro i hi
      unfold sharedWeight
      rw [if_pos hi]
      exact div_nonneg (hload i) (Nat.cast_nonneg _)
    · have hsorted := pairwise_reverse.mpr (sort.sorted (row n (sharedWeight ranks load kept a)))
      refine hsorted.imp_of_mem ?_
      intro i j hi hj hij
      have hi := (hmem i).mp hi
      have hj := (hmem j).mp hj
      exact hij _ (by rw [getElem?_row, if_pos hj]; rfl) _ (by rw [getElem?_row, if_pos hi]; rfl)
  obtain ⟨send, hsend⟩ : ∃ send, item expertFromRank (e : Int) = .ok send :=
    ⟨_, item_natCast (List.getElem?_eq_getElem (hfrom.symm ▸ he))⟩
  have hne : (e : Int) ≠ -1 := by omega
  have hperm := h.isOpen.assign_perm hr hfree hne
  have hreplicas : ∀ j : Nat, replicas ranks (update a r ((a r).set i e)) j =
      update (fun j : Nat => replicas ranks a j) e (replicas ranks a e + 1) j := by
    intro j
    unfold replicas
    rw [hperm.count_eq]
    by_cases hj : j = e
    · rw [hj, update_self, count_cons_self]
    · have hcast : (e : Int) ≠ j := fun heq => hj (Int.ofNat.inj heq).symm
      rw [update_of_ne hj, count_cons_of_ne hcast]
  have hpos : 0 < replicas ranks a e := count_pos_iff.mpr ((h.experts e).mpr hek)
  unfold fillSlot
  dsimp only
  rw [h.assignments, item_row hr, ok_bind, hpick, ok_bind]
  dsimp only
  rw [hsend, ok_bind, h.weights, item_row he, ok_bind, h.counts, item_row he, ok_bind, setItem_row he, ok_bind,
    setItem_row he, ok_bind]
  refine ⟨_, rfl, update a r ((a r).set i e), ?_, row_congr ?_, row_congr ?_, ?_, ?_, htodo, ?_⟩
  · show s.node.rankAssignments.modify r _ = _
    rw [h.assignments, modify_row]
  · intro j _
    unfold sharedWeight
    rw [hreplicas]
    by_cases hj : j = e
    · rw [hj, update_self, update_self, if_pos hek, if_pos hek]
      push_cast
      have hne0 : (replicas ranks a e : ℚ) ≠ 0 := Nat.cast_ne_zero.mpr hpos.ne'
      have hne1 : (replicas ranks a e : ℚ) + 1 ≠ 0 := by positivity
      field_simp
    · rw [update_of_ne hj, update_of_ne hj]
  · exact fun j _ => (hreplicas j).symm
  · refine (h.isOpen.assign hr hfree hne hnew).congr ?_
    intro r' _ i'
    constructor
    · intro hin
      obtain ⟨hin, hother⟩ := hin
      rcases mem_cons.mp hin with heq | hin
      · exact absurd (Prod.mk.inj heq) hother
      · exact hin
    · intro hin
      refine ⟨mem_cons_of_mem _ hin, ?_⟩
      rintro ⟨rfl, rfl⟩
      exact hslot hin
  · intro x
    rw [hperm.mem_iff, mem_cons, h.experts]
    constructor
    · intro hx
      rcases hx with rfl | hx
      · exact hek
      · exact hx
    · exact .inr
  · intro slot hin
    exact h.todo_ranks slot (mem_cons_of_mem _ hin)

end Fill

/-! ## The node -/

/-- A node with its new copies: rows of `a`, weights of `w`. -/
structure NodeReady (slots ranks : Nat) (load : Nat → ℚ) (kept : List Int) (s : NodeState)
    (a : Nat → List Int) (w : Nat → ℚ) : Prop where
  assignments : s.rankAssignments = row ranks a
  loads : s.rankLoads = row ranks fun r => ((a r).map fun e => w e.toNat).sum
  width : ∀ r < ranks, (a r).length = slots
  apart : ∀ r < ranks, (a r).Nodup
  experts : ∀ e, e ∈ (row ranks a).flatten ↔ e ∈ kept
  /-- No weight is below the share of a copy. -/
  weight : ∀ e ∈ kept, load e.toNat / (row ranks a).flatten.count e ≤ w e.toNat

section Node

variable {S : IntSet} {sort : Argsort} {self : SwiftBalanceEplb} {n slots ranks : Nat} {load : Nat → ℚ}
  {kept : List Int} {w : Nat → ℚ} {num : Nat} {list : List (Nat × ℚ)} {s : NodeState}
  {a : Nat → List Int} {p : Nat → List Nat} {placed : List Int}

section

variable (h : Distributing n slots ranks w kept num (copyIds list) s a p placed)
  (hlist : ∀ x ∈ list, (x.1 : Int) ∈ kept)
include h hlist

theorem Distributing.mem_experts (e : Int) : e ∈ (row ranks a).flatMap filled ↔ e ∈ kept := by
  rw [h.experts.mem_iff, mem_append]
  constructor
  · intro he
    rcases he with he | he
    · exact he
    · obtain ⟨x, hx, rfl⟩ := mem_map.mp (h.tried.subset he)
      exact hlist x hx
  · exact .inl

theorem Distributing.ready (hlen : list.length ≤ num) (hkept : kept.Nodup) (hload : ∀ i, 0 ≤ load i)
    (hw : ∀ e ∈ kept, w e.toNat = load e.toNat * copyShare ((list.map Prod.fst).count e.toNat))
    (hfull : ∀ r < ranks, p r = []) : NodeReady slots ranks load kept s a w := by
  have hnone : ∀ r < ranks, ∀ i, ¬ i ∈ p r := by
    intro r hr i
    rw [hfull r hr]
    exact not_mem_nil
  have hplaced : placed = copyIds list := by
    refine h.tried.eq_of_length_le ?_
    have hsum : ∑ r ∈ Finset.range ranks, (p r).length = 0 := by
      refine Finset.sum_eq_zero ?_
      intro r hr
      rw [hfull r (Finset.mem_range.mp hr)]
      rfl
    have hnum := h.num
    unfold copyIds
    rw [length_map]
    omega
  have hflat := h.isOpen.closed_flatMap hnone
  refine ⟨h.assignments, h.loads.trans (row_congr ?_), h.isOpen.width, ?_, ?_, ?_⟩
  · intro r hr
    rw [h.isOpen.closed hr (hnone r hr)]
  · intro r hr
    rw [← h.isOpen.closed hr (hnone r hr)]
    exact h.isOpen.apart r hr
  · intro e
    rw [← hflat]
    exact h.mem_experts hlist e
  · intro e he
    have hid := h.ids e he
    -- the expert has its own slot and one for each of its copies
    have hcount : (row ranks a).flatten.count e = (list.map Prod.fst).count e.toNat + 1 := by
      rw [← hflat, h.experts.count_eq, count_append, count_eq_one_of_mem hkept he, hplaced,
        add_comm]
      have hmap : copyIds list = (list.map Prod.fst).map fun k : Nat => (k : Int) := by
        unfold copyIds
        rw [map_map]
        rfl
      have hinj := count_map_of_injective (list.map Prod.fst) (fun k : Nat => (k : Int))
        Int.ofNat_injective e.toNat
      rw [Int.toNat_of_nonneg hid.1] at hinj
      rw [hmap, hinj]
    rw [hcount, hw e he]
    exact div_le_copyShare (hload _) _

end

/-- The ranks with a slot that no copy took. -/
def NodeState.openRanks (s : NodeState) : List Nat :=
  (range s.rankAssignments.length).filter fun r => s.redundantExpertPos.getD r [] ≠ []

/-- The slots that no copy took. -/
def NodeState.openSlots (s : NodeState) : List (Nat × Nat) :=
  s.openRanks.flatMap fun r => (s.redundantExpertPos.getD r []).map fun pos => (r, pos)

theorem mem_openSlots (hpos : s.redundantExpertPos = row ranks p) (hlen : s.rankAssignments.length = ranks)
    (r i : Nat) : (r, i) ∈ s.openSlots ↔ r < ranks ∧ i ∈ p r := by
  unfold NodeState.openSlots NodeState.openRanks
  rw [mem_flatMap, hpos, hlen]
  constructor
  · intro h
    obtain ⟨r', hr', hi⟩ := h
    have hlt := mem_range.mp (mem_filter.mp hr').1
    rw [getD_row hlt] at hi
    obtain ⟨i', hi', heq⟩ := mem_map.mp hi
    cases heq
    exact ⟨hlt, hi'⟩
  · intro h
    refine ⟨r, mem_filter.mpr ⟨mem_range.mpr h.1, ?_⟩, ?_⟩
    · rw [getD_row h.1, decide_eq_true_eq]
      exact ne_nil_of_mem h.2
    · rw [getD_row h.1]
      exact mem_map.mpr ⟨i, h.2, rfl⟩

theorem nodup_openSlots (hpos : s.redundantExpertPos = row ranks p) (hlen : s.rankAssignments.length = ranks)
    (hnodup : ∀ r, (p r).Nodup) : s.openSlots.Nodup := by
  refine nodup_flatMap.mpr ⟨?_, ?_⟩
  · intro r hr
    have hlt := mem_range.mp (mem_filter.mp hr).1
    rw [hlen] at hlt
    rw [hpos, getD_row hlt]
    refine (hnodup r).map ?_
    intro i j hij
    exact (Prod.mk.inj hij).2
  · refine (nodup_range.filter _).imp ?_
    intro r r' hne slot hs hs'
    obtain ⟨_, -, rfl⟩ := mem_map.mp hs
    obtain ⟨_, -, heq⟩ := mem_map.mp hs'
    exact hne (Prod.mk.inj heq).1.symm

theorem fillInUndeployedRanks_ready (sort : Argsort) (hself : self.numOriginalExperts = n)
    (h : Distributing n slots ranks w kept num (copyIds list) s a p placed)
    (hlist : ∀ x ∈ list, (x.1 : Int) ∈ kept) (hload : ∀ i, 0 ≤ load i)
    (hfull : ∀ r < ranks, ∃ l : List Int, l.Nodup ∧ l.length = slots ∧ ∀ e ∈ l, e ∈ kept)
    {expertFromRank : List Nat} (hfrom : expertFromRank.length = n) :
    ∃ s' a' w', fillInUndeployedRanks sort self (kept.map fun e => (e.toNat, load e.toNat)) s
        s.openRanks expertFromRank = .ok (s', row n w') ∧ NodeReady slots ranks load kept s' a' w' := by
  have hlen : s.rankAssignments.length = ranks := by rw [h.assignments, length_row]
  have hstart := recomputingInitialWeight_spec load hself h.ids (h.mem_experts hlist)
  unfold fillInUndeployedRanks
  rw [← h.assignments] at hstart
  rw [hstart, ok_bind]
  have hfilling : Filling n slots ranks load kept s.openSlots
      ⟨s, row n (sharedWeight ranks load kept a), row n fun i => replicas ranks a i⟩ a := by
    refine ⟨h.assignments, rfl, rfl, h.isOpen.congr ?_, h.mem_experts hlist,
      nodup_openSlots h.pos hlen h.pos_nodup, ?_⟩
    · intro r hr i
      rw [mem_openSlots h.pos hlen]
      exact ⟨fun hi => ⟨hr, hi⟩, fun hi => hi.2⟩
    · intro slot hslot
      exact ((mem_openSlots h.pos hlen slot.1 slot.2).mp hslot).1
  obtain ⟨t, hok, a', ht⟩ := foldlM_todo (f := fillSlot sort expertFromRank)
    (P := fun todo s => ∃ a, Filling n slots ranks load kept todo s a)
    (fun slot todo s ⟨a, hs⟩ => fillSlot_spec hfrom hload h.ids hfull hs) ⟨a, hfilling⟩
  have hnone : ∀ r < ranks, ∀ i, ¬ (r, i) ∈ ([] : List (Nat × Nat)) := fun _ _ _ => not_mem_nil
  have hflat := ht.isOpen.closed_flatMap hnone
  have hmem : ∀ e, e ∈ (row ranks a').flatten ↔ e ∈ kept := hflat ▸ ht.experts
  have hrow : ∀ r < ranks, ∀ e ∈ a' r, e ∈ kept := by
    intro r hr e he
    exact (hmem e).mp (mem_flatten.mpr ⟨a' r, mem_row.mpr ⟨r, hr, rfl⟩, he⟩)
  have hloads : t.node.rankAssignments.mapM (placedLoad t.updateWorkload) = .ok
      (row ranks fun r => ((a' r).map fun e => sharedWeight ranks load kept a' e.toNat).sum) := by
    rw [ht.assignments, ht.weights]
    refine mapM_map.trans (mapM_ok ?_)
    intro r hr
    exact placedLoad_row _ fun e he => h.ids e (hrow r (mem_range.mp hr) e he)
  refine ⟨{ t.node with
      rankLoads := row ranks fun r => ((a' r).map fun e => sharedWeight ranks load kept a' e.toNat).sum },
    a', sharedWeight ranks load kept a', ?_, ht.assignments, rfl, ht.isOpen.width, ?_, hmem, ?_⟩
  · show (foldlM _ _ s.openSlots >>= _) = _
    rw [hok, ok_bind, hloads, ok_bind, ht.weights]
    rfl
  · intro r hr
    rw [← ht.isOpen.closed hr (hnone r hr)]
    exact ht.isOpen.apart r hr
  · intro e he
    have hcast : ((e.toNat : Nat) : Int) = e := Int.toNat_of_nonneg (h.ids e he).1
    unfold sharedWeight replicas
    rw [hcast, if_pos he, hflat]

/-- `redundancy_again` keeps the experts of the node and overrates no rank's rest. -/
theorem redundancyAgain_spec (sort : Argsort) {deployment : List (List Int)} (hself : self.numOriginalExperts = n)
    (hslots : self.numExpertsPerRank = slots) (hload : ∀ i, 0 ≤ load i)
    (hdep : NodeOk n slots deployment) :
    ∃ s kept a w, redundancyAgain S sort self (row n load) deployment = .ok (s, row n w) ∧
      (∀ e, e ∈ kept ↔ e ∈ deployment.flatten) ∧
      NodeReady slots deployment.length load kept s a w := by
  obtain ⟨dep, hrows⟩ : ∃ dep : Nat → Nat → Int,
      deployment = row deployment.length fun r => row slots (dep r) := by
    refine ⟨fun r i => (deployment.getD r []).getD i 0, eq_row rfl ?_⟩
    intro r hr
    have hrank := hdep.width _ (List.getElem_mem hr)
    rw [List.getElem?_eq_getElem hr]
    refine congrArg some (eq_row hrank ?_)
    intro i hi
    show deployment[r][i]? = some ((deployment.getD r []).getD i 0)
    rw [getD_eq_getElem?_getD (l := deployment), List.getElem?_eq_getElem hr, Option.getD_some,
      getD_eq_getElem?_getD, List.getElem?_eq_getElem (hrank.symm ▸ hi)]
    rfl
  generalize deployment.length = ranks at hrows
  subst hrows
  have hrank : ∀ r < ranks, row slots (dep r) ∈ row ranks fun r => row slots (dep r) :=
    fun r hr => mem_row.mpr ⟨r, hr, rfl⟩
  have hids : ∀ r < ranks, ∀ i < slots, 0 ≤ dep r i ∧ dep r i < n :=
    fun r hr i hi => hdep.ids _ (hrank r hr) _ (mem_row.mpr ⟨i, hi, rfl⟩)
  have hapart : ∀ r < ranks, (row slots (dep r)).Nodup := fun r hr => hdep.apart _ (hrank r hr)
  obtain ⟨d, p, keptSlots, hstat, hd⟩ :=
    statisticsExpertDistribution_spec (S := S) hself hslots hids
  have hall : ∀ e, e ∈ S.toList d.existingExperts ↔ e ∈ (row ranks fun r => row slots (dep r)).flatten := by
    intro e
    rw [hd.all, mem_flatten]
    constructor
    · intro he
      obtain ⟨slot, hslot, rfl⟩ := he
      have hlt := mem_slotsOf.mp hslot
      exact ⟨_, hrank slot.2 hlt.2, mem_row.mpr ⟨slot.1, hlt.1, rfl⟩⟩
    · intro he
      obtain ⟨l, hl, he⟩ := he
      obtain ⟨r, hr, rfl⟩ := mem_row.mp hl
      obtain ⟨i, hi, rfl⟩ := mem_row.mp he
      exact ⟨(i, r), mem_slotsOf.mpr ⟨hi, hr⟩, rfl⟩
  have hkeptIds : ∀ e ∈ S.toList d.existingExperts, 0 ≤ e ∧ e < n := by
    intro e he
    obtain ⟨l, hl, he⟩ := mem_flatten.mp ((hall e).mp he)
    exact hdep.ids l hl e he
  -- the initial weights
  have hinitial : ((S.toList d.existingExperts).mapM fun expertId => do
      let id ← position self.numOriginalExperts expertId
      let weight ← item (row n load) expertId
      return (id, weight)) =
        .ok ((S.toList d.existingExperts).map fun e => (e.toNat, load e.toNat)) := by
    refine mapM_ok ?_
    intro e he
    obtain ⟨k, rfl⟩ := Int.eq_ofNat_of_zero_le (hkeptIds e he).1
    have hk : k < n := Int.ofNat_lt.mp (hkeptIds _ he).2
    rw [hself, position_natCast hk, ok_bind, item_row hk]
    rfl
  have hfst : ((S.toList d.existingExperts).map fun e => (e.toNat, load e.toNat)).map Prod.fst =
      (S.toList d.existingExperts).map Int.toNat := by
    rw [map_map]
    rfl
  have hnodup : (((S.toList d.existingExperts).map fun e => (e.toNat, load e.toNat)).map Prod.fst).Nodup := by
    rw [hfst]
    refine (S.nodup _).map_on ?_
    intro e he e' he' heq
    have h1 := (hkeptIds e he).1
    have h2 := (hkeptIds e' he').1
    omega
  have hlt : ∀ x ∈ (S.toList d.existingExperts).map fun e => (e.toNat, load e.toNat), x.1 < n := by
    intro x hx
    obtain ⟨e, he, rfl⟩ := mem_map.mp hx
    have hid := hkeptIds e he
    show e.toNat < n
    omega
  obtain ⟨list, w, hcopies, hlen, hlist, hw⟩ :=
    computeRedundantAssignments_copies sort ranks hnodup hlt d.numRedundantExperts
  have hlistKept : ∀ x ∈ list, (x.1 : Int) ∈ S.toList d.existingExperts := by
    intro x hx
    have hmem := (hlist x hx).1
    rw [hfst] at hmem
    obtain ⟨e, he, heq⟩ := mem_map.mp hmem
    rw [← heq, Int.toNat_of_nonneg (hkeptIds e he).1]
    exact he
  obtain ⟨s0, hs0, hstart⟩ := nonRedundantExpertInformation_spec hd hids hapart w
  obtain ⟨s1, a, p1, placed, hloop, hs1⟩ := distribute_loop self hstart hd.fromRank list fun x hx => ⟨by
      have := (hkeptIds _ (hlistKept x hx)).2
      omega, (hlist x hx).2⟩
  have hranks : s1.rankAssignments.length = ranks := by rw [hs1.assignments, length_row]
  unfold redundancyAgain
  rw [hstat, ok_bind, hinitial, ok_bind, length_row, hself, hcopies, ok_bind]
  dsimp only
  rw [hs0, ok_bind]
  unfold distributeRedundantExperts
  rw [hloop, ok_bind]
  dsimp only [pure, Except.pure]
  rw [ok_bind]
  dsimp only
  rw [← NodeState.openRanks]
  by_cases hund : 0 < s1.openRanks.length
  · rw [if_pos hund]
    have hfull : ∀ r < ranks, ∃ l : List Int, l.Nodup ∧ l.length = slots ∧
        ∀ e ∈ l, e ∈ S.toList d.existingExperts := by
      intro r hr
      refine ⟨row slots (dep r), hapart r hr, length_row, ?_⟩
      intro e he
      exact (hall e).mpr (mem_flatten.mpr ⟨_, hrank r hr, he⟩)
    obtain ⟨s', a', w', hok, hready⟩ := fillInUndeployedRanks_ready sort hself hs1 hlistKept hload
      hfull hd.fromRank
    exact ⟨s', _, a', w', hok, hall, hready⟩
  · rw [if_neg hund]
    refine ⟨s1, _, a, w, rfl, hall, hs1.ready hlistKept hlen (S.nodup _) hload ?_ ?_⟩
    · intro e he
      exact hw (e.toNat, load e.toNat) (mem_map.mpr ⟨e, he, rfl⟩)
    · intro r hr
      by_contra hne
      refine hund (length_pos_of_mem (a := r) (mem_filter.mpr ⟨?_, ?_⟩))
      · rw [hranks]
        exact mem_range.mpr hr
      · rw [hs1.pos, getD_row hr, decide_eq_true_eq]
        exact hne

end Node

end MyOperator.AscendEplb
