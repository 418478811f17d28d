import MyOperator.AscendEplb.DefaultEplb

/-!
# Packing with redundant experts

The boxes are full and without duplicates if and only if every step of the packing finds a box
with space that does not hold its item (`foldl_placeItem_fits`): the index -1 of a step that finds
none is that of the last box, which then has too many items or one of them twice. Whatever the
weights are every expert is packed once, next to its redundant copies (`pack_spec`).
-/

namespace MyOperator.AscendEplb

open Lib List Option
open Eplb (NumpyError)

theorem sortDescending_perm (weights : List (Nat × ℚ)) : (sortDescending weights).Perm weights :=
  (reverse_perm _).trans (perm_insertionSort _ _)

/-- The items of the boxes. -/
def allItems (boxes : List Box) : List Nat := boxes.flatMap Box.items

/-- The counter of a box is right. -/
def Counted (boxes : List Box) : Prop := ∀ box ∈ boxes, box.itemCount = box.items.length

/-- No box has more than its share, and no box has an item twice. -/
def Fits (itemsPerBox : Nat) (boxes : List Box) : Prop :=
  ∀ box ∈ boxes, box.items.length ≤ itemsPerBox ∧ box.items.Nodup

/-- Every step of the packing finds a box with space that does not hold its item. -/
def FindsBox (itemsPerBox : Nat) : List Box × Nat → List (Nat × ℚ) → Prop
  | _, [] => True
  | s, x :: items =>
    (∃ box ∈ s.1, x.1 ∉ box.items ∧ hasSpace itemsPerBox s.2 box = true) ∧
      FindsBox itemsPerBox (placeItem itemsPerBox s x) items

/-! ## The choice of a box -/

section Choice

variable (itemsPerBox remainingItems item : Nat) (boxes : List Box)

/-- A box that may get the item. -/
def Open (itemsPerBox remainingItems item : Nat) (boxes : List Box) (i : Nat) : Prop :=
  ∃ box, boxes[i]? = some box ∧ item ∉ box.items ∧ hasSpace itemsPerBox remainingItems box = true

theorem minBox_spec (least : Option Nat) (i : Nat) :
    (minBox itemsPerBox remainingItems item boxes least i = least ∧
      (Open itemsPerBox remainingItems item boxes i → least ≠ none)) ∨
    (minBox itemsPerBox remainingItems item boxes least i = some i ∧
      Open itemsPerBox remainingItems item boxes i) := by
  unfold minBox
  cases hbox : boxes[i]? with
  | none => exact .inl ⟨rfl, fun ⟨box, h, _⟩ => (nomatch hbox.symm.trans h)⟩
  | some box =>
    dsimp only
    split
    · rename_i hitem
      refine .inl ⟨rfl, fun ⟨box', h, hnot, _⟩ => ?_⟩
      rw [hbox] at h
      cases h
      exact absurd hitem hnot
    · rename_i hitem
      split
      · rename_i hspace
        have hopen : Open itemsPerBox remainingItems item boxes i := ⟨box, hbox, hitem, hspace⟩
        split
        · exact .inr ⟨rfl, hopen⟩
        · rename_i hleast
          split
          · exact .inr ⟨rfl, hopen⟩
          · refine .inl ⟨rfl, fun _ hnone => ?_⟩
            rw [hnone] at hleast
            cases hleast
      · rename_i hspace
        refine .inl ⟨rfl, fun ⟨box', h, _, hspace'⟩ => ?_⟩
        rw [hbox] at h
        cases h
        exact absurd hspace' hspace

theorem foldl_minBox_spec (indices : List Nat) (least : Option Nat) :
    (∀ k, indices.foldl (minBox itemsPerBox remainingItems item boxes) least = some k →
      least = some k ∨ Open itemsPerBox remainingItems item boxes k) ∧
    (indices.foldl (minBox itemsPerBox remainingItems item boxes) least = none →
      least = none ∧ ∀ i ∈ indices, ¬ Open itemsPerBox remainingItems item boxes i) := by
  induction indices generalizing least with
  | nil => exact ⟨fun k h => .inl h, fun h => ⟨h, nofun⟩⟩
  | cons i indices ih =>
    obtain ⟨hsome, hnone⟩ := ih (minBox itemsPerBox remainingItems item boxes least i)
    rcases minBox_spec itemsPerBox remainingItems item boxes least i with ⟨heq, hclosed⟩ | ⟨heq, hopen⟩
    · rw [heq] at hsome hnone
      rw [foldl_cons, heq]
      refine ⟨hsome, fun h => ?_⟩
      obtain ⟨hleast, hall⟩ := hnone h
      exact ⟨hleast, forall_mem_cons.mpr ⟨fun hopen => hclosed hopen hleast, hall⟩⟩
    · rw [heq] at hsome hnone
      rw [foldl_cons, heq]
      refine ⟨fun k hk => .inr ?_, fun h => nomatch (hnone h).1⟩
      rcases hsome k hk with hsame | hk
      · cases hsame
        exact hopen
      · exact hk

theorem minBoxIndex_spec :
    (∀ k, minBoxIndex itemsPerBox remainingItems item boxes = some k →
      Open itemsPerBox remainingItems item boxes k) ∧
    (minBoxIndex itemsPerBox remainingItems item boxes = none →
      ∀ box ∈ boxes, item ∉ box.items → hasSpace itemsPerBox remainingItems box = false) := by
  obtain ⟨hsome, hnone⟩ := foldl_minBox_spec itemsPerBox remainingItems item boxes
    (range boxes.length) none
  constructor
  · intro k hk
    exact (hsome k hk).resolve_left nofun
  · intro h box hbox hitem
    obtain ⟨i, hi⟩ := mem_iff_getElem?.mp hbox
    have hlt : i < boxes.length := lt_of_getElem? hi
    refine Bool.eq_false_iff.mpr fun hspace => ?_
    exact (hnone h).2 i (mem_range.mpr hlt) ⟨box, hi, hitem, hspace⟩

end Choice

/-! ## A step -/

variable {itemsPerBox : Nat} {boxes : List Box}

variable {k item : Nat} {box : Box}

theorem allItems_modify (hk : k < boxes.length) (item : Nat) (weight : ℚ) :
    (allItems (boxes.modify k fun box => box.add item weight)).Perm (item :: allItems boxes) := by
  induction boxes generalizing k with
  | nil => exact absurd hk (Nat.not_lt_zero _)
  | cons box boxes ih =>
    cases k with
    | zero =>
      show ((box.items ++ [item]) ++ allItems boxes).Perm (item :: (box.items ++ allItems boxes))
      rw [append_assoc]
      exact perm_middle
    | succ k =>
      show (box.items ++ allItems (boxes.modify k _)).Perm (item :: (box.items ++ allItems boxes))
      exact ((ih (Nat.lt_of_succ_lt_succ hk)).append_left _).trans perm_middle

theorem mem_modify {f : Box → Box} (h : box ∈ boxes.modify k f) :
    box ∈ boxes ∨ ∃ old, boxes[k]? = some old ∧ box = f old := by
  obtain ⟨i, hi⟩ := mem_iff_getElem?.mp h
  rw [getElem?_modify] at hi
  obtain ⟨old, hold, hbox⟩ := map_eq_some_iff.mp hi
  by_cases hki : k = i
  · rw [if_pos hki] at hbox
    exact .inr ⟨old, hki ▸ hold, hbox.symm⟩
  · rw [if_neg hki] at hbox
    exact .inl (hbox ▸ mem_of_getElem? hold)

theorem modify_mem {f : Box → Box} {i : Nat} (hi : boxes[i]? = some box) :
    (if k = i then f box else box) ∈ boxes.modify k f := by
  refine mem_of_getElem? (i := i) ?_
  rw [getElem?_modify, hi]
  rfl

/-- The box that a step selects. -/
def selectedBox (itemsPerBox : Nat) (boxes : List Box) (item : Nat) : Nat :=
  (minBoxIndex itemsPerBox 0 item boxes).getD (boxes.length - 1)

theorem placeItem_eq (x : Nat × ℚ) : placeItem itemsPerBox (boxes, 0) x =
    (boxes.modify (selectedBox itemsPerBox boxes x.1) fun box => box.add x.1 x.2, 0) := by
  refine congrArg (Prod.mk _) ?_
  split
  · exact if_neg fun h => lt_irrefl 0 h.2
  · rfl

theorem selectedBox_lt (itemsPerBox : Nat) (hne : boxes ≠ []) (item : Nat) :
    selectedBox itemsPerBox boxes item < boxes.length := by
  unfold selectedBox
  cases hmin : minBoxIndex itemsPerBox 0 item boxes with
  | none =>
    have hpos := length_pos_iff.mpr hne
    show boxes.length - 1 < boxes.length
    omega
  | some k =>
    obtain ⟨box, hbox, -⟩ := (minBoxIndex_spec _ _ _ _).1 k hmin
    exact lt_of_getElem? hbox

theorem Counted.modify (h : Counted boxes) (k item : Nat) (weight : ℚ) :
    Counted (boxes.modify k fun box => box.add item weight) := by
  intro box hbox
  rcases mem_modify hbox with hold | ⟨old, hold, rfl⟩
  · exact h box hold
  · show old.itemCount + 1 = (old.items ++ [item]).length
    rw [h old (mem_of_getElem? hold), length_append, length_singleton]

theorem hasSpace_iff (h : box.itemCount = box.items.length) :
    hasSpace itemsPerBox 0 box = true ↔ box.items.length < itemsPerBox := by
  unfold hasSpace
  rw [decide_eq_true_eq, h]
  exact ⟨fun hor => hor.resolve_right fun hx => lt_irrefl 0 hx.2, .inl⟩

theorem Fits.placed (hfits : Fits itemsPerBox boxes) (hcounted : Counted boxes)
    (hfinds : ∃ box ∈ boxes, item ∉ box.items ∧ hasSpace itemsPerBox 0 box = true) (weight : ℚ) :
    Fits itemsPerBox (boxes.modify (selectedBox itemsPerBox boxes item) fun box =>
      box.add item weight) := by
  obtain ⟨hsome, hnone⟩ := minBoxIndex_spec itemsPerBox 0 item boxes
  unfold selectedBox
  cases hmin : minBoxIndex itemsPerBox 0 item boxes with
  | none =>
    obtain ⟨box, hbox, hitem, hspace⟩ := hfinds
    exact absurd (hnone hmin box hbox hitem) (hspace ▸ nofun)
  | some k =>
    obtain ⟨old, hold, hitem, hspace⟩ := hsome k hmin
    intro box hbox
    rcases mem_modify hbox with hin | ⟨old', hold', rfl⟩
    · exact hfits box hin
    · rw [getD_some, hold] at hold'
      cases hold'
      have hin := mem_of_getElem? hold
      constructor
      · show (old.items ++ [item]).length ≤ itemsPerBox
        rw [length_append]
        exact (hasSpace_iff (hcounted old hin)).mp hspace
      · show (old.items ++ [item]).Nodup
        exact nodup_append_comm.mp (nodup_cons.mpr ⟨hitem, (hfits old hin).2⟩)

/-- A step that finds none makes the last box too full, or puts an item into it twice. -/
theorem not_fits_placed (hcounted : Counted boxes) (hne : boxes ≠ [])
    (hfinds : ¬ ∃ box ∈ boxes, item ∉ box.items ∧ hasSpace itemsPerBox 0 box = true) (weight : ℚ) :
    ¬ Fits itemsPerBox (boxes.modify (selectedBox itemsPerBox boxes item) fun box =>
      box.add item weight) := by
  intro hfits
  have hlt := selectedBox_lt itemsPerBox hne item
  obtain ⟨last, hlast⟩ : ∃ last, boxes[selectedBox itemsPerBox boxes item]? = some last :=
    ⟨_, getElem?_eq_getElem hlt⟩
  have hin := mem_of_getElem? hlast
  have hnew : last.add item weight ∈
      boxes.modify (selectedBox itemsPerBox boxes item) fun box => box.add item weight := by
    have hmem := modify_mem (f := fun box => box.add item weight)
      (k := selectedBox itemsPerBox boxes item) hlast
    rw [if_pos rfl] at hmem
    exact hmem
  obtain ⟨hlen, hnodup⟩ := hfits _ hnew
  have hlen : (last.items ++ [item]).length ≤ itemsPerBox := hlen
  rw [length_append] at hlen
  refine hfinds ⟨last, hin, fun hitem => ?_, (hasSpace_iff (hcounted last hin)).mpr hlen⟩
  exact disjoint_of_nodup_append hnodup hitem (mem_singleton.mpr rfl)

theorem Fits.of_modify {weight : ℚ}
    (h : Fits itemsPerBox (boxes.modify k fun box => box.add item weight)) :
    Fits itemsPerBox boxes := by
  intro box hbox
  obtain ⟨i, hi⟩ := mem_iff_getElem?.mp hbox
  have hnew := h _ (modify_mem (k := k) hi)
  by_cases hki : k = i
  · rw [if_pos hki] at hnew
    obtain ⟨hlen, hnodup⟩ := hnew
    have hlen : (box.items ++ [item]).length ≤ itemsPerBox := hlen
    rw [length_append] at hlen
    exact ⟨Nat.le_of_succ_le hlen, hnodup.of_append_left⟩
  · rw [if_neg hki] at hnew
    exact hnew

/-! ## The loop -/

theorem foldl_placeItem (itemsPerBox : Nat) (items : List (Nat × ℚ)) (hne : boxes ≠ []) :
    (items.foldl (placeItem itemsPerBox) (boxes, 0)).1.length = boxes.length ∧
      (allItems (items.foldl (placeItem itemsPerBox) (boxes, 0)).1).Perm
        (items.map Prod.fst ++ allItems boxes) := by
  induction items generalizing boxes with
  | nil => exact ⟨rfl, Perm.refl _⟩
  | cons x items ih =>
    have hlen : (boxes.modify (selectedBox itemsPerBox boxes x.1) fun box => box.add x.1 x.2).length =
        boxes.length := length_modify _ _ _
    have hne' : (boxes.modify (selectedBox itemsPerBox boxes x.1) fun box => box.add x.1 x.2) ≠ [] := by
      rw [← length_pos_iff, hlen]
      exact length_pos_iff.mpr hne
    rw [foldl_cons, placeItem_eq]
    obtain ⟨hlen', hperm⟩ := ih hne'
    refine ⟨hlen'.trans hlen, hperm.trans ?_⟩
    refine ((allItems_modify (selectedBox_lt itemsPerBox hne x.1) x.1 x.2).append_left _).trans ?_
    exact perm_middle

theorem fits_of_foldl {items : List (Nat × ℚ)}
    (h : Fits itemsPerBox (items.foldl (placeItem itemsPerBox) (boxes, 0)).1) :
    Fits itemsPerBox boxes := by
  induction items generalizing boxes with
  | nil => exact h
  | cons x items ih =>
    rw [foldl_cons, placeItem_eq] at h
    exact (ih h).of_modify

theorem foldl_placeItem_fits {items : List (Nat × ℚ)} (hne : boxes ≠ []) (hcounted : Counted boxes)
    (hfits : Fits itemsPerBox boxes) :
    Fits itemsPerBox (items.foldl (placeItem itemsPerBox) (boxes, 0)).1 ↔
      FindsBox itemsPerBox (boxes, 0) items := by
  induction items generalizing boxes with
  | nil => exact ⟨fun _ => trivial, fun _ => hfits⟩
  | cons x items ih =>
    unfold FindsBox
    rw [foldl_cons, placeItem_eq]
    by_cases hfinds : ∃ box ∈ boxes, x.1 ∉ box.items ∧ hasSpace itemsPerBox 0 box = true
    · rw [and_iff_right hfinds]
      refine ih ?_ (hcounted.modify _ _ _) (hfits.placed hcounted hfinds x.2)
      rw [← length_pos_iff, length_modify]
      exact length_pos_iff.mpr hne
    · constructor
      · intro h
        exact absurd (fits_of_foldl h) (not_fits_placed hcounted hne hfinds x.2)
      · intro h
        exact absurd h.1 hfinds

/-! ## Redundant experts -/

/-- The loop over the redundant experts after `k` passes. -/
structure RedundancyInv (experts k : Nat) (s : List (Nat × ℚ) × List (List Nat)) : Prop where
  ids : (s.1.map Prod.fst).Perm (range experts)
  length : s.2.length = experts
  total : s.2.flatten.length = k

theorem length_flatten_set {l : List (List Nat)} {row : List Nat} (h : l[k]? = some row) (a : Nat) :
    (l.set k (row ++ [a])).flatten.length = l.flatten.length + 1 := by
  induction l generalizing k with
  | nil => cases h
  | cons b l ih =>
    cases k with
    | zero =>
      cases h
      rw [set_cons_zero, flatten_cons, flatten_cons, length_append,
        length_append, length_append, length_singleton]
      exact add_right_comm _ _ _
    | succ k =>
      rw [set_cons_succ, flatten_cons, flatten_cons, length_append, length_append, ih h]
      rfl

theorem addRedundancy_inv {experts : Nat} {s : List (Nat × ℚ) × List (List Nat)}
    (h : RedundancyInv experts k s) (hpos : 0 < experts) :
    ∃ s', addRedundancy experts s k = .ok s' ∧ RedundancyInv experts (k + 1) s' := by
  have hperm := (sortDescending_perm s.1).map Prod.fst
  unfold addRedundancy
  cases hsort : sortDescending s.1 with
  | nil =>
    rw [hsort] at hperm
    have hlen := (hperm.trans h.ids).length_eq
    rw [length_range] at hlen
    exact absurd hlen (ne_of_lt hpos)
  | cons x weights =>
    rw [hsort] at hperm
    have hlt : x.1 < experts := mem_range.mp ((hperm.trans h.ids).mem_iff.mp mem_cons_self)
    obtain ⟨redundancy, hred⟩ : ∃ redundancy, s.2[x.1]? = some redundancy :=
      ⟨_, getElem?_eq_getElem (h.length.symm ▸ hlt)⟩
    dsimp only
    rw [hred]
    refine ⟨_, rfl, ?_, ?_, ?_⟩
    · exact hperm.trans h.ids
    · exact length_set.trans h.length
    · exact (length_flatten_set hred _).trans (congrArg (· + 1) h.total)

theorem redundancy_loop {experts : Nat} {weights : List (Nat × ℚ)}
    (hids : (weights.map Prod.fst).Perm (range experts)) (hpos : experts = 0 → k = 0) :
    ∃ s, (range k).foldlM (addRedundancy experts) (weights, replicate experts []) = .ok s ∧
      RedundancyInv experts k s := by
  induction k with
  | zero =>
    refine ⟨_, rfl, hids, length_replicate, ?_⟩
    rw [flatten_replicate_nil]
    rfl
  | succ k ih =>
    have hexperts : 0 < experts := Nat.pos_of_ne_zero fun h => nomatch hpos h
    obtain ⟨s, hok, hinv⟩ := ih fun h => absurd h (Nat.ne_of_gt hexperts)
    obtain ⟨s', hstep, hinv'⟩ := addRedundancy_inv hinv hexperts
    refine ⟨s', ?_, hinv'⟩
    rw [range_succ, foldlM_append, hok, ok_bind, foldlM_cons, hstep]
    rfl

theorem redundantItems_spec (redundancy : List (List Nat)) :
    (redundantItems redundancy).length = redundancy.flatten.length ∧
      ∀ item ∈ redundantItems redundancy, item < redundancy.length := by
  have hgen : ∀ (l : List (List Nat)) (n : Nat),
      ((l.zipIdx n).flatMap fun x => replicate x.1.length x.2).length = l.flatten.length ∧
      ∀ item ∈ (l.zipIdx n).flatMap fun x => replicate x.1.length x.2, item < n + l.length := by
    intro l
    induction l with
    | nil => exact fun n => ⟨rfl, nofun⟩
    | cons row l ih =>
      intro n
      obtain ⟨hlen, hlt⟩ := ih (n + 1)
      rw [zipIdx_cons, flatMap_cons, length_append, length_replicate, hlen,
        flatten_cons, length_append, length_cons]
      refine ⟨rfl, fun item hitem => ?_⟩
      rcases mem_append.mp hitem with hrow | hrest
      · rw [eq_of_mem_replicate hrow]
        omega
      · have := hlt item hrest
        omega
  obtain ⟨hlen, hlt⟩ := hgen redundancy 0
  exact ⟨hlen, fun item hitem => zero_add redundancy.length ▸ hlt item hitem⟩

/-- A box with at most one item. -/
def Small (boxes : List Box) : Prop :=
  ∀ box ∈ boxes, box.itemCount = box.items.length ∧ box.items.length ≤ 1

theorem foldlM_placeNext (weights : List (Nat × ℚ)) (redundant : List Nat) (k : Nat) (boxes : List Box)
    (hroom : k + redundant.length ≤ boxes.length)
    (hfree : ∀ i, k ≤ i → ∀ box, boxes[i]? = some box → box = .empty) (hsmall : Small boxes) :
    ∃ boxes', (redundant.zipIdx k).foldlM (placeNext weights) boxes = .ok boxes' ∧
      boxes'.length = boxes.length ∧ Small boxes' ∧
      (allItems boxes').Perm (redundant ++ allItems boxes) := by
  induction redundant generalizing k boxes with
  | nil => exact ⟨boxes, rfl, rfl, hsmall, Perm.refl _⟩
  | cons item redundant ih =>
    rw [length_cons] at hroom
    have hk : k < boxes.length := by omega
    obtain ⟨box, hbox⟩ : ∃ box, boxes[k]? = some box := ⟨_, getElem?_eq_getElem hk⟩
    cases hfree k (le_refl k) box hbox
    have hstep : placeNext weights boxes (item, k) =
        .ok (boxes.modify k fun box => box.add item (curWeight weights item)) := by
      unfold placeNext
      rw [modify_eq_set_getElem?, hbox]
      rfl
    have hlen' : (boxes.modify k fun box => box.add item (curWeight weights item)).length =
        boxes.length := length_modify _ _ _
    have hfree' : ∀ i, k + 1 ≤ i → ∀ box,
        (boxes.modify k fun box => box.add item (curWeight weights item))[i]? = some box →
        box = .empty := by
      intro i hi box' hbox'
      rw [getElem?_modify] at hbox'
      obtain ⟨old, hold, heq⟩ := map_eq_some_iff.mp hbox'
      rw [if_neg (by omega)] at heq
      rw [← heq]
      exact hfree i (by omega) old hold
    have hsmall' : Small (boxes.modify k fun box => box.add item (curWeight weights item)) := by
      intro box' hbox'
      rcases mem_modify hbox' with hold | ⟨old, hold, rfl⟩
      · exact hsmall box' hold
      · rw [hbox] at hold
        cases hold
        exact ⟨rfl, le_refl 1⟩
    obtain ⟨boxes', hok, hlen, hsmall'', hperm⟩ := ih (k + 1) _ (by omega) hfree' hsmall'
    refine ⟨boxes', ?_, hlen.trans hlen', hsmall'', hperm.trans ?_⟩
    · rw [zipIdx_cons, foldlM_cons, hstep, ok_bind]
      exact hok
    · exact ((allItems_modify hk item _).append_left _).trans perm_middle

theorem placeRedundant_spec (weights : List (Nat × ℚ)) (redundant : List Nat) {cardNum : Nat}
    (hlen : redundant.length ≤ cardNum) :
    ∃ boxes, placeRedundant weights (replicate cardNum .empty) redundant = .ok boxes ∧
      boxes.length = cardNum ∧ Small boxes ∧ (allItems boxes).Perm redundant := by
  have hempty : ∀ box ∈ replicate cardNum Box.empty, box = .empty :=
    fun box hbox => eq_of_mem_replicate hbox
  obtain ⟨boxes, hok, hlen', hsmall, hperm⟩ := foldlM_placeNext weights redundant 0
    (replicate cardNum .empty) (by rw [length_replicate, zero_add]; exact hlen)
    (fun i _ box hbox => hempty box (mem_of_getElem? hbox))
    (fun box hbox => hempty box hbox ▸ ⟨rfl, Nat.zero_le 1⟩)
  rw [length_replicate] at hlen'
  refine ⟨boxes, hok, hlen', hsmall, hperm.trans ?_⟩
  have hnone : allItems (replicate cardNum .empty) = [] := by
    refine flatMap_eq_nil_iff.mpr fun box hbox => ?_
    rw [hempty box hbox]
    rfl
  rw [hnone, append_nil]

/-! ## The packing -/

/-- Every step of the packing of a layer finds a box. -/
def PacksLayer (weights : List (Nat × ℚ)) (cardNum numRedundancyExpert : Nat) : Prop :=
  ∀ s boxes, (range numRedundancyExpert).foldlM (addRedundancy weights.length)
      (weights, replicate weights.length []) = .ok s →
    placeRedundant s.1 (replicate cardNum .empty) (redundantItems s.2) = .ok boxes →
    FindsBox ((weights.length + numRedundancyExpert) / cardNum) (boxes, 0) (sortDescending s.1)

theorem pack_spec (weights : List (Nat × ℚ)) {cardNum numRedundancyExpert slots : Nat}
    (hids : (weights.map Prod.fst).Perm (range weights.length))
    (htotal : weights.length + numRedundancyExpert = cardNum * slots) (hcards : 0 < cardNum)
    (hle : numRedundancyExpert ≤ cardNum) (hpos : weights.length = 0 → numRedundancyExpert = 0) :
    ∃ boxes, originalComputeBalancedPackRedundancy weights cardNum numRedundancyExpert = .ok boxes ∧
      boxes.length = cardNum ∧ (allItems boxes).length = cardNum * slots ∧
      (∀ item, item ∈ allItems boxes ↔ item < weights.length) ∧
      (Fits slots boxes ↔ PacksLayer weights cardNum numRedundancyExpert) := by
  obtain ⟨s, hloop, hinv⟩ := redundancy_loop hids hpos
  obtain ⟨hredLen, hredLt⟩ := redundantItems_spec s.2
  rw [hinv.total] at hredLen
  rw [hinv.length] at hredLt
  obtain ⟨boxes, hplace, hlen, hsmall, hperm⟩ := placeRedundant_spec s.1 (redundantItems s.2)
    (hredLen.symm ▸ hle)
  have hdiv : (weights.length + numRedundancyExpert) / cardNum = slots := by
    rw [htotal, Nat.mul_div_cancel_left _ hcards]
  have hmod : (weights.length + numRedundancyExpert) % cardNum = 0 := by
    rw [htotal, Nat.mul_mod_right]
  have hne : boxes ≠ [] := by
    rw [← length_pos_iff, hlen]
    exact hcards
  have hids' : ((sortDescending s.1).map Prod.fst).Perm (range weights.length) :=
    ((sortDescending_perm s.1).map _).trans hinv.ids
  obtain ⟨hlen', hperm'⟩ := foldl_placeItem slots (sortDescending s.1) hne
  have hall := hperm'.trans (hids'.append hperm)
  refine ⟨_, ?_, hlen'.trans hlen, ?_, fun item => ?_, ?_⟩
  · unfold originalComputeBalancedPackRedundancy
    dsimp only
    rw [hloop, ok_bind, if_neg (ne_of_gt hcards), hplace, ok_bind, hdiv, hmod]
  · rw [hall.length_eq, length_append, length_range, hredLen, htotal]
  · rw [hall.mem_iff, mem_append, mem_range]
    exact ⟨fun h => h.elim id (hredLt item), .inl⟩
  · have hfits : Fits slots boxes := by
      intro box hbox
      obtain ⟨-, hone⟩ := hsmall box hbox
      refine ⟨?_, nodup_iff_count_le_one.mpr fun a => (count_le_length).trans hone⟩
      -- a box with a redundant expert has a slot for it
      rcases Nat.eq_zero_or_pos slots with hzero | hslots
      · rw [hzero, Nat.mul_zero] at htotal
        have hnone : (allItems boxes).length = 0 := by
          rw [hperm.length_eq]
          omega
        have hbox' : box.items = [] := flatMap_eq_nil_iff.mp (length_eq_zero_iff.mp hnone) box hbox
        rw [hbox']
        exact Nat.zero_le _
      · exact hone.trans hslots
    rw [foldl_placeItem_fits hne (fun box hbox => (hsmall box hbox).1) hfits]
    unfold PacksLayer
    rw [hdiv]
    constructor
    · intro h s' boxes' hs' hboxes'
      rw [hloop] at hs'
      cases hs'
      rw [hplace] at hboxes'
      cases hboxes'
      exact h
    · intro h
      exact h s boxes hloop hplace

end MyOperator.AscendEplb
