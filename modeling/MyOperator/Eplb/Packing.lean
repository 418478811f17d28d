import MyOperator.Eplb.Policy

/-!
# Packing and replication

`balanced_packing` gives every item a place of its own in a pack, whatever the weights
are, and `replicate_experts` gives every expert a replica.
-/

namespace MyOperator.Eplb

open Lib List Function

/-- The packing loop after the groups in `done`: `C` items are in each pack, and a pack
weighs `inf` exactly when it is full. -/
structure PackInv (n numPacks groupsPerPack : Nat) (done : List Nat) (s : PackState)
    (packs ranks : Nat → Int) (W : Nat → WithTop ℚ) (C : Nat → Nat) : Prop where
  packIndex : s.packIndex = row n packs
  rankInPack : s.rankInPack = row n ranks
  weightsRow : s.weightsRow = row numPacks W
  itemsRow : s.itemsRow = row numPacks C
  total : ∑ p ∈ Finset.range numPacks, C p = done.length
  fits : ∀ p < numPacks, C p ≤ groupsPerPack
  full : ∀ p < numPacks, W p = ⊤ ↔ C p = groupsPerPack
  placed : ∀ g ∈ done, ∃ p r : Nat, packs g = p ∧ ranks g = r ∧ p < numPacks ∧ r < C p
  apart : ∀ g ∈ done, ∀ g' ∈ done, packs g = packs g' → ranks g = ranks g' → g = g'

variable {n numPacks groupsPerPack group : Nat} {done : List Nat} {s : PackState}
  {packs ranks : Nat → Int} {W : Nat → WithTop ℚ} {C : Nat → Nat} {weight : List ℚ}

section

variable (h : PackInv n numPacks groupsPerPack done s packs ranks W C)
include h

theorem PackInv.exists_room (hleft : done.length < numPacks * groupsPerPack) :
    ∃ p < numPacks, C p < groupsPerPack := by
  by_contra hfull
  push Not at hfull
  have hsum : ∑ p ∈ Finset.range numPacks, groupsPerPack ≤ ∑ p ∈ Finset.range numPacks, C p :=
    Finset.sum_le_sum fun p hp => hfull p (Finset.mem_range.mp hp)
  rw [Finset.sum_const_nat fun _ _ => rfl, Finset.card_range, h.total] at hsum
  omega

theorem packGroup_inv (hleft : done.length < numPacks * groupsPerPack) (hn : weight.length = n)
    (hgroup : group < n) (hnew : group ∉ done) : ∃ s' packs' ranks' W' C',
      packGroup weight groupsPerPack s group = .ok s' ∧
      PackInv n numPacks groupsPerPack (done ++ [group]) s' packs' ranks' W' C' := by
  obtain ⟨p0, hp0, hroom⟩ := h.exists_room hleft
  have hne : s.weightsRow ≠ [] := by
    rw [h.weightsRow, ← length_pos_iff, length_row]
    omega
  obtain ⟨pack, a, hargmin, hget, hmin⟩ := argmin_spec hne
  rw [h.weightsRow, getElem?_row] at hget
  split at hget
  · rename_i hpack
    cases hget
    have hlight : W pack ≠ ⊤ := by
      intro htop
      have hle := hmin (W p0) (h.weightsRow ▸ mem_row.mpr ⟨p0, hp0, rfl⟩)
      rw [htop, top_le_iff] at hle
      exact absurd ((h.full p0 hp0).mp hle) (ne_of_lt hroom)
    have hC : C pack < groupsPerPack :=
      lt_of_le_of_ne (h.fits pack hpack) fun heq => hlight ((h.full pack hpack).mpr heq)
    obtain ⟨w, hw⟩ : ∃ w, weight[group]? = some w := ⟨_, getElem?_eq_getElem (hn.symm ▸ hgroup)⟩
    obtain ⟨W', hW⟩ : ∃ W', W' = update W pack
      (if C pack + 1 = groupsPerPack then ⊤ else W pack + (w : WithTop ℚ)) := ⟨_, rfl⟩
    refine ⟨{
      packIndex := row n (update packs group pack)
      rankInPack := row n (update ranks group (C pack))
      weightsRow := row numPacks W'
      itemsRow := row numPacks (update C pack (C pack + 1)) },
      update packs group pack, update ranks group (C pack), W',
      update C pack (C pack + 1), ?_, ?_⟩
    · unfold packGroup
      rw [hargmin, ok_bind, h.packIndex, setItem_row hgroup, ok_bind, h.itemsRow, item_row hpack,
        ok_bind, h.rankInPack, setItem_row hgroup, ok_bind, h.weightsRow, item_row hpack, ok_bind,
        item_natCast hw, ok_bind]
      dsimp only
      rw [setItem_row hpack, setItem_row hpack, hW]
      rfl
    · have hother : ∀ g ∈ done, g ≠ group := fun g hg heq => hnew (heq ▸ hg)
      refine ⟨rfl, rfl, rfl, rfl, ?_, ?_, ?_, ?_, ?_⟩
      · rw [Finset.sum_update_of_mem (Finset.mem_range.mpr hpack), length_append,
          length_singleton, ← h.total,
          ← Finset.add_sum_erase _ C (Finset.mem_range.mpr hpack), Finset.sdiff_singleton_eq_erase]
        omega
      · intro p hp
        by_cases heq : p = pack
        · rw [heq, update_self]
          exact hC
        · rw [update_of_ne heq]
          exact h.fits p hp
      · intro p hp
        by_cases heq : p = pack
        · rw [hW, heq, update_self, update_self]
          split
          · rename_i hfull
            exact ⟨fun _ => hfull, fun _ => rfl⟩
          · rename_i hfull
            exact ⟨fun htop => absurd htop (WithTop.add_ne_top.mpr ⟨hlight, WithTop.coe_ne_top⟩),
              fun heq => absurd heq hfull⟩
        · rw [hW, update_of_ne heq, update_of_ne heq]
          exact h.full p hp
      · intro g hg
        rcases mem_append.mp hg with hg | hg
        · obtain ⟨p, r, hp, hr, hlt, hlt'⟩ := h.placed g hg
          rw [update_of_ne (hother g hg), update_of_ne (hother g hg)]
          refine ⟨p, r, hp, hr, hlt, ?_⟩
          by_cases heq : p = pack
          · rw [heq, update_self]
            rw [heq] at hlt'
            omega
          · rw [update_of_ne heq]
            exact hlt'
        · rw [mem_singleton] at hg
          subst hg
          rw [update_self, update_self]
          refine ⟨pack, C pack, rfl, rfl, hpack, ?_⟩
          rw [update_self]
          exact Nat.lt_succ_self _
      · -- the new rank is one that no earlier item of the pack has
        have hfresh : ∀ g ∈ done, packs g = pack → ranks g ≠ (C pack : Int) := by
          intro g hg hp hr
          obtain ⟨p, r, hp', hr', -, hlt⟩ := h.placed g hg
          have hpp : p = pack := by exact_mod_cast hp'.symm.trans hp
          have hrr : r = C pack := by exact_mod_cast hr'.symm.trans hr
          rw [hpp, hrr] at hlt
          exact absurd hlt (lt_irrefl _)
        intro g hmem g' hmem' hp hr
        rcases mem_append.mp hmem with hg | hg <;>
          rcases mem_append.mp hmem' with hg' | hg'
        · rw [update_of_ne (hother g hg), update_of_ne (hother g' hg')] at hp hr
          exact h.apart g hg g' hg' hp hr
        · rw [mem_singleton] at hg'
          rw [hg', update_of_ne (hother g hg), update_self] at hp hr
          exact absurd hr (hfresh g hg hp)
        · rw [mem_singleton] at hg
          rw [hg, update_of_ne (hother g' hg'), update_self] at hp hr
          exact absurd hr.symm (hfresh g' hg' hp.symm)
        · rw [mem_singleton] at hg hg'
          exact hg.trans hg'.symm
  · cases hget

theorem packGroups_inv {left : List Nat} (hcount : (done ++ left).length = numPacks * groupsPerPack)
    (hn : weight.length = n) (hnodup : (done ++ left).Nodup) (hlt : ∀ g ∈ left, g < n) :
    ∃ s' packs' ranks' W' C', left.foldlM (packGroup weight groupsPerPack) s = .ok s' ∧
      PackInv n numPacks groupsPerPack (done ++ left) s' packs' ranks' W' C' := by
  induction left generalizing done s packs ranks W C with
  | nil => exact ⟨s, packs, ranks, W, C, rfl, by rwa [append_nil]⟩
  | cons g left ih =>
    have hleft : done.length < numPacks * groupsPerPack := by
      rw [length_append, length_cons] at hcount
      omega
    have hnew : g ∉ done := by
      intro hmem
      exact (disjoint_of_nodup_append hnodup) hmem mem_cons_self
    obtain ⟨s1, packs1, ranks1, W1, C1, hstep, h1⟩ :=
      packGroup_inv h hleft hn (hlt g mem_cons_self) hnew
    have happend : done ++ g :: left = done ++ [g] ++ left := by simp
    rw [happend] at hcount hnodup ⊢
    obtain ⟨s2, packs2, ranks2, W2, C2, hloop, h2⟩ :=
      ih h1 hcount hnodup fun g' hg' => hlt g' (mem_cons_of_mem _ hg')
    refine ⟨s2, packs2, ranks2, W2, C2, ?_, h2⟩
    rw [foldlM_cons, hstep, ok_bind, hloop]

end

/-- `pack` and `rank` give the `n` items places of their own in `numPacks` packs. -/
structure Places (n numPacks : Nat) (pack rank : Nat → Nat) : Prop where
  pack_lt : ∀ g < n, pack g < numPacks
  rank_lt : ∀ g < n, rank g < n / numPacks
  apart : ∀ g < n, ∀ g' < n, pack g = pack g' → rank g = rank g' → g = g'

theorem balancedPacking_spec (weight : List ℚ) (numPacks : Nat) (np : Argsort) (hn : weight.length = n) (hpos : 0 < n)
    (hpacks : numPacks ≠ 0) (hdiv : n % numPacks = 0) : ∃ pack rank : Nat → Nat,
      balancedPacking np weight numPacks =
        .ok (row n fun g => (pack g : Int), row n fun g => (rank g : Int)) ∧
      Places n numPacks pack rank := by
  have hmul : numPacks * (n / numPacks) = n := Nat.mul_div_cancel' (Nat.dvd_of_mod_eq_zero hdiv)
  unfold balancedPacking
  dsimp only
  rw [hn]
  have hassert : assertDivisible n numPacks = .ok () := by
    unfold assertDivisible assert
    rw [if_neg hpacks, if_pos (decide_eq_true hdiv)]
  rw [hassert, ok_bind]
  by_cases hone : n / numPacks = 1
  · rw [if_pos hone]
    refine ⟨fun g => g, fun _ => 0, ?_, ?_⟩
    · rw [replicate_eq_row]
      rfl
    · rw [hone, mul_one] at hmul
      exact ⟨fun g hg => hmul ▸ hg, fun g _ => hone ▸ zero_lt_one, fun g _ g' _ h _ => h⟩
  · rw [if_neg hone]
    have hgpp : 0 < n / numPacks := by
      rcases Nat.eq_zero_or_pos (n / numPacks) with hz | hz
      · rw [hz, Nat.mul_zero] at hmul
        omega
      · exact hz
    have hperm := np.perm (weight.map fun w => -w)
    rw [length_map, hn] at hperm
    have hinit : PackInv n numPacks (n / numPacks) []
        { packIndex := replicate n (-1), rankInPack := replicate n (-1),
          weightsRow := replicate numPacks 0, itemsRow := replicate numPacks 0 }
        (fun _ => -1) (fun _ => -1) (fun _ => 0) (fun _ => 0) := by
      refine ⟨replicate_eq_row _, replicate_eq_row _, replicate_eq_row _, replicate_eq_row _,
        Finset.sum_const_zero, fun _ _ => Nat.zero_le _, fun p _ => ?_, nofun, nofun⟩
      exact ⟨fun h => absurd h WithTop.zero_ne_top, fun h => absurd h (Nat.ne_of_lt hgpp)⟩
    obtain ⟨s', packs, ranks, W, C, hloop, hinv⟩ := packGroups_inv hinit
      (by rw [nil_append, hperm.length_eq, length_range, hmul]) hn
      (by rw [nil_append]; exact hperm.symm.nodup nodup_range)
      fun g hg => mem_range.mp (hperm.subset hg)
    rw [nil_append] at hinv
    have hdone : ∀ g, g < n → g ∈ np.argsort (weight.map fun w => -w) := fun g hg =>
      hperm.symm.subset (mem_range.mpr hg)
    have hcast : ∀ g, g < n → packs g = ((packs g).toNat : Int) ∧ ranks g = ((ranks g).toNat : Int) ∧
        (packs g).toNat < numPacks ∧ (ranks g).toNat < n / numPacks := by
      intro g hg
      obtain ⟨p, r, hp, hr, hlt, hlt'⟩ := hinv.placed g (hdone g hg)
      have hfit := hinv.fits p hlt
      rw [hp, hr]
      exact ⟨rfl, rfl, hlt, lt_of_lt_of_le hlt' hfit⟩
    refine ⟨fun g => (packs g).toNat, fun g => (ranks g).toNat, ?_,
      fun g hg => (hcast g hg).2.2.1, fun g hg => (hcast g hg).2.2.2, ?_⟩
    · rw [hloop, ok_bind, hinv.packIndex, hinv.rankInPack]
      have h1 : row n packs = row n fun g => ((packs g).toNat : Int) :=
        row_congr fun g hg => (hcast g hg).1
      have h2 : row n ranks = row n fun g => ((ranks g).toNat : Int) :=
        row_congr fun g hg => (hcast g hg).2.1
      rw [h1, h2]
      rfl
    · intro g hg g' hg' hp hr
      refine hinv.apart g (hdone g hg) g' (hdone g' hg') ?_ ?_
      · rw [(hcast g hg).1, (hcast g' hg').1]
        exact congrArg _ hp
      · rw [(hcast g hg).2.1, (hcast g' hg').2.1]
        exact congrArg _ hr

end MyOperator.Eplb
