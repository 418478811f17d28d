import MyOperator.Eplb.Policy

/-!
# Slot preservation

`preserve_intragpu_slots` permutes the experts of a rank, and of every expert it keeps as
many old slots as the expert had and still has on the rank.
-/

namespace MyOperator.Eplb

open Lib List Function

variable {n : Nat}

/-- The indices below `n` that a mask marks. -/
def marked (n : Nat) (mask : Nat → Bool) : List Nat := (range n).filter mask

variable {i : Nat} {new : Nat → Int} {used : Nat → Bool}

theorem mem_marked {mask : Nat → Bool} : i ∈ marked n mask ↔ i < n ∧ mask i = true := by
  rw [marked, mem_filter, mem_range]

theorem marked_perm (mask : Nat → Bool) :
    (marked n mask ++ marked n fun i => !mask i).Perm (range n) := filter_append_perm mask (range n)

theorem nodup_marked (mask : Nat → Bool) : (marked n mask).Nodup := nodup_range.filter _

theorem marked_update {mask : Nat → Bool} (hi : i < n) (hmask : mask i = false) :
    (marked n (update mask i true)).Perm (i :: marked n mask) := by
  rw [perm_ext_iff_of_nodup (nodup_marked _)]
  · intro j
    rw [mem_marked, mem_cons, mem_marked]
    by_cases hj : j = i
    · rw [hj, update_self]
      simp [hi]
    · rw [update_of_ne hj]
      simp [hj]
  · rw [nodup_cons]
    refine ⟨fun hmem => ?_, nodup_marked _⟩
    rw [mem_marked, hmask] at hmem
    exact absurd hmem.2 Bool.false_ne_true

/-! ## First pass -/

/-- The first pass after the slots below `k`: what was preserved is what was used, and the
old expert of a slot that was not preserved has no unused new index. -/
structure SlotInv (n k : Nat) (new old post : Nat → Int) (used preserved : Nat → Bool) : Prop where
  kept : ∀ i < n, preserved i = true → i < k ∧ post i = old i
  same : ((marked n preserved).map old).Perm ((marked n used).map new)
  rest : ∀ i < k, preserved i = false → ∀ j < n, new j = old i → used j = true

theorem firstMatch_some {old : Int} (h : firstMatch (row n new) old (row n used) = some i) :
    i < n ∧ new i = old ∧ used i = false := by
  unfold firstMatch at h
  rw [zipWith_row, findIdx?_eq_some_iff_getElem] at h
  obtain ⟨hi, htrue, -⟩ := h
  rw [length_row] at hi
  have hget : (row n fun j => new j == old && !used j)[i]? = some (new i == old && !used i) := by
    rw [getElem?_row, if_pos hi]
  rw [getElem?_eq_getElem (by rwa [length_row]), Option.some.injEq] at hget
  rw [hget] at htrue
  simp only [id_eq, Bool.and_eq_true, beq_iff_eq, Bool.not_eq_true'] at htrue
  exact ⟨hi, htrue⟩

theorem firstMatch_none {old : Int} (h : firstMatch (row n new) old (row n used) = none) {j : Nat}
    (hj : j < n) (hnew : new j = old) : used j = true := by
  unfold firstMatch at h
  rw [zipWith_row, findIdx?_eq_none_iff] at h
  have hfalse := h _ (mem_row.mpr ⟨j, hj, rfl⟩)
  simpa [hnew] using hfalse

theorem preserveSlot_inv {k : Nat} {old post : Nat → Int} {preserved : Nat → Bool} (hk : k < n)
    (h : SlotInv n k new old post used preserved) :
    ∃ (post' : Nat → Int) (used' preserved' : Nat → Bool),
      preserveSlot (row n new) (row n old)
        { post := row n post, usedNewIndices := row n used, preservedPositions := row n preserved } k =
        .ok { post := row n post', usedNewIndices := row n used', preservedPositions := row n preserved' } ∧
      SlotInv n (k + 1) new old post' used' preserved' := by
  have hnotyet : preserved k = false := by
    rw [← Bool.not_eq_true]
    exact fun htrue => absurd (h.kept k hk htrue).1 (Nat.lt_irrefl k)
  unfold preserveSlot
  rw [item_row hk, ok_bind]
  cases hmatch : firstMatch (row n new) (old k) (row n used) with
  | none =>
    refine ⟨post, used, preserved, rfl, fun i hi hp => ?_, h.same, fun i hi hp => ?_⟩
    · exact ⟨Nat.lt_succ_of_lt (h.kept i hi hp).1, (h.kept i hi hp).2⟩
    · rcases Nat.lt_succ_iff_lt_or_eq.mp hi with hlt | heq
      · exact h.rest i hlt hp
      · intro j hj hnew
        exact firstMatch_none hmatch hj (heq ▸ hnew)
  | some i =>
    obtain ⟨hi, hnew, hused⟩ := firstMatch_some hmatch
    refine ⟨update post k (new i), update used i true, update preserved k true, ?_, ?_, ?_, ?_⟩
    · dsimp only
      rw [item_row hi, ok_bind, set_row, set_row, set_row]
      rfl
    · intro j hj hp
      by_cases hjk : j = k
      · rw [hjk, update_self]
        exact ⟨Nat.lt_succ_self k, hnew⟩
      · rw [update_of_ne hjk] at hp ⊢
        exact ⟨Nat.lt_succ_of_lt (h.kept j hj hp).1, (h.kept j hj hp).2⟩
    · refine ((marked_update hk hnotyet).map old).trans ?_
      refine Perm.trans ?_ ((marked_update hi hused).map new).symm
      rw [map_cons, map_cons, hnew]
      exact h.same.cons (old k)
    · intro j hj hp l hl hnew'
      have hjk : j ≠ k := by
        rintro rfl
        rw [update_self] at hp
        cases hp
      rw [update_of_ne hjk] at hp
      by_cases hli : l = i
      · rw [hli, update_self]
      · rw [update_of_ne hli]
        exact h.rest j (by omega) hp l hl hnew'

theorem preserveSlots_inv (new old : Nat → Int) :
    ∃ (post : Nat → Int) (used preserved : Nat → Bool),
      (range n).foldlM (preserveSlot (row n new) (row n old))
        { post := row n new, usedNewIndices := replicate n false,
          preservedPositions := replicate n false } =
        .ok { post := row n post, usedNewIndices := row n used, preservedPositions := row n preserved } ∧
      SlotInv n n new old post used preserved := by
  have hloop : ∀ k, k ≤ n → ∃ (post : Nat → Int) (used preserved : Nat → Bool),
      (range k).foldlM (preserveSlot (row n new) (row n old))
        { post := row n new, usedNewIndices := replicate n false,
          preservedPositions := replicate n false } =
        .ok { post := row n post, usedNewIndices := row n used, preservedPositions := row n preserved } ∧
      SlotInv n k new old post used preserved := by
    intro k
    induction k with
    | zero =>
      refine fun _ => ⟨new, fun _ => false, fun _ => false, ?_, nofun, ?_, nofun⟩
      · rw [replicate_eq_row]
        rfl
      · have hnone : marked n (fun _ => false) = [] := filter_false _
        rw [hnone]
        exact .refl _
    | succ k ih =>
      intro hk
      obtain ⟨post, used, preserved, hfold, hinv⟩ := ih (by omega)
      obtain ⟨post', used', preserved', hstep, hinv'⟩ := preserveSlot_inv (by omega) hinv
      refine ⟨post', used', preserved', ?_, hinv'⟩
      rw [range_succ, foldlM_append, hfold, ok_bind, foldlM_cons, hstep]
      rfl
  exact hloop n le_rfl

/-! ## Second pass -/

theorem take_countP_of_pairwise {l : List Nat} {p : Nat → Bool}
    (h : l.Pairwise fun i j => p j = true → p i = true) : l.take (l.countP p) = l.filter p := by
  induction l with
  | nil => rfl
  | cons a l ih =>
    rw [pairwise_cons] at h
    cases hp : p a with
    | true =>
      rw [countP_cons_of_pos hp, filter_cons_of_pos hp, take_succ_cons, ih h.2]
    | false =>
      have hnone : ∀ b ∈ l, ¬ p b = true := fun b hb hpb => by
        have := h.1 b hb hpb
        rw [hp] at this
        cases this
      have hcount : l.countP p = 0 := countP_eq_zero.mpr hnone
      rw [countP_cons_of_neg (by simp [hp]), hcount, filter_cons_of_neg (by simp [hp]),
        filter_eq_nil_iff.mpr hnone]
      rfl

theorem maskedIndices_take (np : Argsort) (mask : Nat → Bool) :
    ((maskedIndices np (row n mask)).take (marked n mask).length).Perm (marked n mask) := by
  let prio : Nat → Nat := fun i => if mask i then i else n + 1
  have heq : maskedIndices np (row n mask) = np.argsort (row n prio) := by
    unfold maskedIndices
    rw [zipIdx_row, map_row, length_row]
  have hperm := np.perm (row n prio)
  have hsorted := np.sorted (row n prio)
  rw [length_row] at hperm
  rw [heq]
  have hpair : (np.argsort (row n prio)).Pairwise fun i j => mask j = true → mask i = true := by
    refine hsorted.imp_of_mem ?_
    intro i j hi hj hle hmask
    have hin := mem_range.mp (hperm.subset hi)
    have hjn := mem_range.mp (hperm.subset hj)
    have := hle (prio i) (by rw [getElem?_row, if_pos hin]; rfl) (prio j)
      (by rw [getElem?_row, if_pos hjn]; rfl)
    by_contra hnot
    simp only [prio, hmask, if_true, if_neg hnot] at this
    omega
  have hcount : (marked n mask).length = (np.argsort (row n prio)).countP mask := by
    rw [marked, ← countP_eq_length_filter]
    exact (hperm.countP_eq mask).symm
  rw [hcount, take_countP_of_pairwise hpair]
  exact hperm.filter mask

theorem fill_spec (new post : Nat → Int) {dst src : List Nat} (hlen : dst.length = src.length)
    (hdst : dst.Nodup) (hdstlt : ∀ d ∈ dst, d < n) (hsrclt : ∀ x ∈ src, x < n) :
    ∃ post' : Nat → Int, (dst.zip src).foldlM (fun post e => do
        let x ← item (row n new) e.2
        setItem post e.1 x) (row n post) = .ok (row n post') ∧
      dst.map post' = src.map new ∧ ∀ i, i ∉ dst → post' i = post i := by
  induction dst generalizing post src with
  | nil =>
    cases src with
    | nil => exact ⟨post, rfl, rfl, fun _ _ => rfl⟩
    | cons x src => cases hlen
  | cons d dst ih =>
    cases src with
    | nil => cases hlen
    | cons x src =>
      obtain ⟨hd, hdst⟩ := nodup_cons.mp hdst
      obtain ⟨post', hfold, hmap, hother⟩ := ih (update post d (new x))
        (Nat.succ.inj hlen) hdst (fun d' hd' => hdstlt d' (mem_cons_of_mem _ hd'))
        fun x' hx' => hsrclt x' (mem_cons_of_mem _ hx')
      refine ⟨post', ?_, ?_, fun i hi => ?_⟩
      · rw [zip_cons_cons, foldlM_cons, item_row (hsrclt x mem_cons_self), ok_bind,
          setItem_row (hdstlt d mem_cons_self), ok_bind, hfold]
      · rw [map_cons, map_cons, hmap, hother d hd, update_self]
      · rw [mem_cons, not_or] at hi
        rw [hother i hi.2, update_of_ne hi.1]

/-! ## A rank -/

/-- The new experts of a rank in other slots: the same experts, and each of them keeps as
many of its old slots as it can. -/
structure KeepsSlots (old new post : List Int) : Prop where
  perm : post.Perm new
  stay : ∀ v, (old.zip post).count (v, v) = min (old.count v) (new.count v)

theorem count_row {f : Nat → Int} (v : Int) :
    (row n f).count v = (range n).countP fun i => f i == v := countP_map

theorem preserveRank_spec (np : Argsort) {newLocal oldLocal : List Int} (hnew : newLocal.length = n)
    (hold : oldLocal.length = n) :
    ∃ post, preserveRank np newLocal oldLocal = .ok post ∧ KeepsSlots oldLocal newLocal post := by
  obtain ⟨new, rfl⟩ := exists_row hnew
  obtain ⟨old, rfl⟩ := exists_row hold
  obtain ⟨post, used, preserved, hfold, hinv⟩ := preserveSlots_inv (n := n) new old
  have hpair : (marked n preserved).length = (marked n used).length := by
    rw [← length_map (f := old), hinv.same.length_eq, length_map]
  have hsplit : ∀ mask : Nat → Bool,
      (marked n mask).length + (marked n fun i => !mask i).length = n := by
    intro mask
    rw [← length_append, (marked_perm mask).length_eq, length_range]
  have hcount : ∀ mask : Nat → Bool, ((row n mask).map not).count true =
      (marked n fun i => !mask i).length := by
    intro mask
    rw [map_row, row, List.count, countP_map, marked, ← countP_eq_length_filter]
    exact countP_congr fun i _ => by simp
  have hleft : (marked n fun i => !used i).length = (marked n fun i => !preserved i).length := by
    have h1 := hsplit used
    have h2 := hsplit preserved
    omega
  have hsrc := maskedIndices_take np (n := n) fun i => !used i
  have hdst := maskedIndices_take np (n := n) fun i => !preserved i
  rw [hleft] at hsrc
  generalize hd : (maskedIndices np (row n fun i => !preserved i)).take
    (marked n fun i => !preserved i).length = dst at hdst
  generalize hs : (maskedIndices np (row n fun i => !used i)).take
    (marked n fun i => !preserved i).length = src at hsrc
  obtain ⟨res, hfill, hmap, hother⟩ := fill_spec (n := n) new post (by rw [hdst.length_eq, hsrc.length_eq, hleft]) (hdst.symm.nodup (nodup_marked _))
    (fun d hd => (mem_marked.mp (hdst.subset hd)).1) (fun x hx => (mem_marked.mp (hsrc.subset hx)).1)
  have hkept : ∀ i ∈ marked n preserved, res i = old i := by
    intro i hi
    rw [mem_marked] at hi
    have hnot : i ∉ dst := by
      intro hmem
      have := (mem_marked.mp (hdst.subset hmem)).2
      rw [hi.2] at this
      cases this
    rw [hother i hnot, (hinv.kept i hi.1 hi.2).2]
  have hperm : (row n res).Perm (row n new) := by
    have h1 : (row n res).Perm ((marked n preserved).map old ++ src.map new) := by
      refine ((marked_perm preserved).map res).symm.trans ?_
      rw [map_append, map_congr_left hkept, ← hmap]
      exact (hdst.symm.map res).append_left _
    have h2 : (row n new).Perm ((marked n used).map new ++ src.map new) := by
      refine ((marked_perm used).map new).symm.trans ?_
      rw [map_append]
      exact (hsrc.symm.map new).append_left _
    exact h1.trans ((hinv.same.append_right _).trans h2.symm)
  refine ⟨row n res, ?_, hperm, fun v => ?_⟩
  · unfold preserveRank
    dsimp only
    rw [length_row, hfold, ok_bind]
    unfold fillSlots
    dsimp only
    rw [hcount, hcount, hleft, Nat.min_self, map_row, map_row, hd, hs]
    exact hfill
  · have hzip : ((row n old).zip (row n res)).count (v, v) =
        (range n).countP fun i => old i == v && res i == v := by
      rw [List.zip, zipWith_row, row, List.count, countP_map]
      refine countP_congr fun i _ => ?_
      simp
    have hleOld : ((row n old).zip (row n res)).count (v, v) ≤ (row n old).count v := by
      rw [hzip, count_row]
      exact countP_mono_left fun i _ h => (Bool.and_eq_true_iff.mp h).1
    have hleNew : ((row n old).zip (row n res)).count (v, v) ≤ (row n new).count v := by
      rw [hzip, ← hperm.count_eq v, count_row]
      exact countP_mono_left fun i _ h => (Bool.and_eq_true_iff.mp h).2
    -- the preserved slots of `v` are all its old slots, or as many as its new replicas
    have hpres : ((marked n preserved).map old).count v ≤
        ((row n old).zip (row n res)).count (v, v) := by
      rw [hzip, List.count, countP_map, marked, countP_filter]
      refine countP_mono_left fun i hi h => ?_
      obtain ⟨hv, hp⟩ := Bool.and_eq_true_iff.mp h
      rw [Bool.and_eq_true_iff]
      refine ⟨hv, ?_⟩
      rw [hkept i (mem_marked.mpr ⟨mem_range.mp hi, hp⟩)]
      exact hv
    have hall : ((marked n preserved).map old).count v = (row n old).count v ∨
        ((marked n preserved).map old).count v = (row n new).count v := by
      by_cases hmiss : ∃ i < n, old i = v ∧ preserved i = false
      · obtain ⟨i, hi, hv, hp⟩ := hmiss
        right
        rw [hinv.same.count_eq v, count_row, List.count, countP_map, marked, countP_filter]
        refine countP_congr fun j hj => ?_
        simp only [Function.comp_apply, Bool.and_eq_true, beq_iff_eq, and_iff_left_iff_imp]
        intro hj'
        exact hinv.rest i hi hp j (mem_range.mp hj) (hj'.trans hv.symm)
      · left
        rw [count_row, List.count, countP_map, marked, countP_filter]
        refine countP_congr fun i hi => ?_
        simp only [Function.comp_apply, Bool.and_eq_true, beq_iff_eq, and_iff_left_iff_imp]
        intro hv
        by_contra hp
        exact hmiss ⟨i, mem_range.mp hi, hv, Bool.not_eq_true _ ▸ hp⟩
    omega

end MyOperator.Eplb
