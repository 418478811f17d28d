import MyOperator.AscendEplb.DefaultPacking

/-!
# The placement of the default policy

The local exchange permutes the experts of a card (`exchangeCard_perm`), so that the new placement
is valid if and only if every step of the packing finds a box (`rebalance_iff`).
-/

namespace MyOperator.AscendEplb

open Lib List
open Eplb (NumpyError)

/-! ## Local exchange -/

variable {currentList newIndex done newList : List Int} {todo j k slots : Nat} {expert : Int}
  {s s' : ExchangeState}

theorem findSlot_ok (newIndex : List Int) (expert : Int) (h : j + todo ≤ currentList.length) :
    ∃ r, findSlot currentList newIndex expert todo j = .ok r := by
  induction todo generalizing j with
  | zero => exact ⟨none, rfl⟩
  | succ todo ih =>
    obtain ⟨current, hcurrent⟩ : ∃ current, currentList[j]? = some current :=
      ⟨_, getElem?_eq_getElem (by omega)⟩
    unfold findSlot
    rw [hcurrent]
    dsimp only
    split
    · exact ⟨_, rfl⟩
    · exact ih (by omega)

theorem findSlot_some (h : findSlot currentList newIndex expert todo j = .ok (some k)) :
    currentList[k]? = some expert ∧ newIndex[k]? = some (-1) := by
  induction todo generalizing j with
  | zero => cases h
  | succ todo ih =>
    unfold findSlot at h
    split at h
    · cases h
    · rename_i current hcurrent
      split at h
      · rename_i hfound
        cases h
        rw [hfound.1]
        exact ⟨hcurrent, hfound.2⟩
      · exact ih h

/-- The experts that have their place. -/
def filled (newResult : List Int) : List Int := newResult.filter fun expert => !decide (expert = -1)

theorem filled_cons_free (l : List Int) : filled (-1 :: l) = filled l := rfl

theorem filled_cons (h : expert ≠ -1) (l : List Int) :
    filled (expert :: l) = expert :: filled l := filter_cons_of_pos (by rw [decide_eq_false h]; rfl)

theorem length_filled (l : List Int) : (filled l).length + l.count (-1) = l.length := by
  induction l with
  | nil => rfl
  | cons expert l ih =>
    by_cases h : expert = -1
    · rw [h, filled_cons_free, count_cons_self, length_cons]
      omega
    · rw [filled_cons h, count_cons_of_ne h, length_cons, length_cons]
      omega

/-- The loop over `i` after the experts in `done`. -/
structure ExchangeInv (slots : Nat) (done : List Int) (s : ExchangeState) : Prop where
  indexLength : s.newIndex.length = slots
  resultLength : s.newResult.length = slots
  free : ∀ j : Nat, s.newIndex[j]? = some (-1) ↔ s.newResult[j]? = some (-1)
  placed : (filled s.newResult ++ s.remaining).Perm done

theorem filled_set_perm {l : List Int} (h : l[k]? = some (-1)) (hne : expert ≠ -1) :
    (filled (l.set k expert)).Perm (expert :: filled l) := by
  induction l generalizing k with
  | nil => cases h
  | cons a l ih =>
    cases k with
    | zero =>
      cases h
      rw [set_cons_zero, filled_cons hne, filled_cons_free]
    | succ k =>
      rw [set_cons_succ]
      by_cases ha : a = -1
      · rw [ha, filled_cons_free, filled_cons_free]
        exact ih h
      · rw [filled_cons ha, filled_cons ha]
        exact ((ih h).cons a).trans (Perm.swap _ _ _)

theorem exchangeStep_inv (h : ExchangeInv slots done s) (hne : expert ≠ -1)
    (hs' : exchangeStep currentList s expert = .ok s') :
    ExchangeInv slots (done ++ [expert]) s' := by
  unfold exchangeStep at hs'
  obtain ⟨r, hr, hs'⟩ := bind_ok hs'
  cases r with
  | none =>
    cases hs'
    refine ⟨h.indexLength, h.resultLength, h.free, ?_⟩
    show (filled s.newResult ++ (s.remaining ++ [expert])).Perm _
    rw [← append_assoc]
    exact h.placed.append_right _
  | some j =>
    cases hs'
    have hfree := (findSlot_some hr).2
    refine ⟨length_set.trans h.indexLength, length_set.trans h.resultLength, fun i => ?_, ?_⟩
    · show (s.newIndex.set j 0)[i]? = some (-1) ↔ (s.newResult.set j expert)[i]? = some (-1)
      rw [getElem?_set, getElem?_set, h.indexLength, h.resultLength]
      by_cases hji : j = i
      · rw [if_pos hji, if_pos hji]
        constructor
        · intro hx
          split at hx
          · cases hx
          · cases hx
        · intro hx
          split at hx
          · exact absurd (Option.some.inj hx) hne
          · cases hx
      · rw [if_neg hji, if_neg hji]
        exact h.free i
    · refine ((filled_set_perm ((h.free j).mp hfree) hne).append_right _).trans ?_
      exact ((h.placed.cons expert).trans (perm_append_singleton _ _).symm)

theorem exchange_loop (h : ExchangeInv slots done s) (hne : ∀ expert ∈ newList, expert ≠ -1)
    (hs' : newList.foldlM (exchangeStep currentList) s = .ok s') :
    ExchangeInv slots (done ++ newList) s' := by
  induction newList generalizing s done with
  | nil =>
    cases hs'
    rw [append_nil]
    exact h
  | cons expert newList ih =>
    rw [foldlM_cons] at hs'
    obtain ⟨s1, hs1, hs'⟩ := bind_ok hs'
    obtain ⟨hexpert, hrest⟩ := forall_mem_cons.mp hne
    rw [append_cons]
    exact ih (exchangeStep_inv h hexpert hs1) hrest hs'

theorem exchange_loop_ok (h : ExchangeInv slots done s) (hne : ∀ expert ∈ newList, expert ≠ -1)
    (hlen : slots ≤ currentList.length) :
    ∃ s', newList.foldlM (exchangeStep currentList) s = .ok s' := by
  induction newList generalizing s done with
  | nil => exact ⟨s, rfl⟩
  | cons expert newList ih =>
    obtain ⟨hexpert, hrest⟩ := forall_mem_cons.mp hne
    obtain ⟨s1, hs1⟩ : ∃ s1, exchangeStep currentList s expert = .ok s1 := by
      unfold exchangeStep
      obtain ⟨r, hr⟩ := findSlot_ok s.newIndex expert
        (show 0 + s.newIndex.length ≤ currentList.length by rw [h.indexLength, zero_add]; exact hlen)
      rw [hr, ok_bind]
      cases r with
      | none => exact ⟨_, rfl⟩
      | some j => exact ⟨_, rfl⟩
    rw [foldlM_cons, hs1, ok_bind]
    exact ih (exchangeStep_inv h hexpert hs1) hrest

theorem fillRemaining_perm {newResult remaining : List Int}
    (h : newResult.count (-1) = remaining.length) :
    ∃ r, fillRemaining newResult remaining = .ok r ∧ r.Perm (filled newResult ++ remaining) := by
  induction newResult generalizing remaining with
  | nil =>
    rw [length_eq_zero_iff.mp h.symm]
    exact ⟨[], rfl, Perm.refl _⟩
  | cons expert newResult ih =>
    unfold fillRemaining
    by_cases hfree : expert = -1
    · rw [hfree, count_cons_self] at h
      rw [if_pos hfree, hfree, filled_cons_free]
      cases remaining with
      | nil => cases h
      | cons next remaining =>
        obtain ⟨r, hok, hperm⟩ := ih (Nat.succ.inj h)
        dsimp only
        rw [hok]
        exact ⟨_, rfl, (hperm.cons next).trans perm_middle.symm⟩
    · rw [count_cons_of_ne hfree] at h
      rw [if_neg hfree, filled_cons hfree]
      obtain ⟨r, hok, hperm⟩ := ih h
      rw [hok]
      exact ⟨_, rfl, hperm.cons expert⟩

theorem exchangeInv_init (slots : Nat) :
    ExchangeInv slots [] ⟨replicate slots (-1), replicate slots (-1), []⟩ := by
  refine ⟨length_replicate, length_replicate, fun _ => Iff.rfl, ?_⟩
  have hnone : filled (replicate slots (-1)) = [] := by
    refine filter_eq_nil_iff.mpr fun a ha => ?_
    rw [eq_of_mem_replicate ha]
    decide
  show (filled (replicate slots (-1)) ++ []).Perm []
  rw [hnone, append_nil]

theorem ExchangeInv.fill (h : ExchangeInv slots done s) (hslots : done.length = slots) :
    ∃ r, fillRemaining s.newResult s.remaining = .ok r ∧ r.Perm done := by
  have hcount : s.newResult.count (-1) = s.remaining.length := by
    have hlen := h.placed.length_eq
    rw [length_append, hslots, ← h.resultLength] at hlen
    have hsplit := length_filled s.newResult
    omega
  obtain ⟨r, hok, hperm⟩ := fillRemaining_perm hcount
  exact ⟨r, hok, hperm.trans h.placed⟩

theorem exchangeCard_perm {r : List Int} (hne : ∀ expert ∈ newList, expert ≠ -1)
    (h : exchangeCard currentList newList = .ok r) : r.Perm newList := by
  obtain ⟨s, hs, h⟩ := bind_ok h
  obtain ⟨r', hok, hperm⟩ := (exchange_loop (exchangeInv_init _) hne hs).fill rfl
  rw [hok] at h
  cases h
  exact hperm

theorem exchangeCard_ok (hne : ∀ expert ∈ newList, expert ≠ -1)
    (hlen : newList.length = currentList.length) :
    ∃ r, exchangeCard currentList newList = .ok r := by
  obtain ⟨s, hs⟩ := exchange_loop_ok (exchangeInv_init newList.length) hne (le_of_eq hlen)
  obtain ⟨r, hok, -⟩ := (exchange_loop (exchangeInv_init _) hne hs).fill rfl
  unfold exchangeCard
  rw [hs]
  exact ⟨r, hok⟩

theorem findSlot_found (hk : currentList[k]? = some expert) (hfree : newIndex[k]? = some (-1))
    (hj : j ≤ k) (hlt : k < j + todo) (h : findSlot currentList newIndex expert todo j = .ok none) :
    False := by
  induction todo generalizing j with
  | zero => omega
  | succ todo ih =>
    unfold findSlot at h
    split at h
    · cases h
    · rename_i current hcurrent
      split at h
      · cases h
      · rename_i hnot
        rcases lt_or_ge j k with hlt' | hge
        · exact ih hlt' (by omega) h
        · have heq : j = k := le_antisymm hj hge
          subst heq
          rw [hk] at hcurrent
          cases hcurrent
          exact hnot ⟨rfl, hfree⟩

/-- Only experts that stay are in place, and those of them that are done. -/
structure StayInv (currentList done : List Int) (s : ExchangeState) : Prop where
  old : ∀ (j : Nat) (expert : Int), s.newResult[j]? = some expert → expert ≠ -1 →
    currentList[j]? = some expert ∧ expert ∈ done
  stays : ∀ (j : Nat) (expert : Int), currentList[j]? = some expert → expert ∈ done →
    s.newResult[j]? = some expert

section

variable (hcurrent : currentList.Nodup) (hi : ExchangeInv currentList.length done s)
  (h : StayInv currentList done s)
include hcurrent hi h

theorem exchangeStep_stays (hnew : expert ∉ done)
    (hs' : exchangeStep currentList s expert = .ok s') :
    StayInv currentList (done ++ [expert]) s' := by
  unfold exchangeStep at hs'
  obtain ⟨r, hr, hs'⟩ := bind_ok hs'
  have hslot : ∀ (j k : Nat), currentList[j]? = some expert → currentList[k]? = some expert → j = k := by
    intro j k hj hk
    exact (getElem?_inj (lt_of_getElem? hj) hcurrent).mp (hj.trans hk.symm)
  cases r with
  | none =>
    cases hs'
    refine ⟨?_, ?_⟩
    · intro j e he hne'
      obtain ⟨hcur, hin⟩ := h.old j e he hne'
      exact ⟨hcur, mem_append_left _ hin⟩
    · intro j e he hin
      rcases mem_append.mp hin with hin | hin
      · exact h.stays j e he hin
      · -- its slot would be free, and then it is found
        rw [mem_singleton.mp hin] at he ⊢
        have hlt := lt_of_getElem? he
        obtain ⟨x, hx⟩ : ∃ x, s.newResult[j]? = some x :=
          ⟨_, getElem?_eq_getElem (hi.resultLength.symm ▸ hlt)⟩
        by_cases hfree : x = -1
        · subst hfree
          have hlen := hi.indexLength
          exact (findSlot_found he ((hi.free j).mpr hx) (Nat.zero_le j) (by omega) hr).elim
        · obtain ⟨hcur, hdone⟩ := h.old j x hx hfree
          rw [he] at hcur
          cases hcur
          exact absurd hdone hnew
  | some k =>
    cases hs'
    have hk := (findSlot_some hr).1
    have hlt : k < s.newResult.length := by
      rw [hi.resultLength]
      exact lt_of_getElem? hk
    refine ⟨?_, ?_⟩
    · intro j e he hne'
      have he : (s.newResult.set k expert)[j]? = some e := he
      by_cases hjk : k = j
      · subst hjk
        rw [getElem?_set_self hlt] at he
        cases he
        exact ⟨hk, mem_append_right _ mem_cons_self⟩
      · rw [getElem?_set_ne hjk] at he
        obtain ⟨hcur, hin⟩ := h.old j e he hne'
        exact ⟨hcur, mem_append_left _ hin⟩
    · intro j e he hin
      show (s.newResult.set k expert)[j]? = some e
      rcases mem_append.mp hin with hin | hin
      · have hjk : k ≠ j := by
          intro heq
          subst heq
          rw [hk] at he
          cases he
          exact hnew hin
        rw [getElem?_set_ne hjk]
        exact h.stays j e he hin
      · rw [mem_singleton.mp hin] at he ⊢
        rw [hslot j k he hk, getElem?_set_self hlt]

theorem exchange_loop_stays (hne : ∀ expert ∈ newList, expert ≠ -1)
    (hnodup : (done ++ newList).Nodup)
    (hs' : newList.foldlM (exchangeStep currentList) s = .ok s') :
    StayInv currentList (done ++ newList) s' := by
  induction newList generalizing s done with
  | nil =>
    cases hs'
    rw [append_nil]
    exact h
  | cons expert newList ih =>
    rw [foldlM_cons] at hs'
    obtain ⟨s1, hs1, hs'⟩ := bind_ok hs'
    obtain ⟨hexpert, hrest⟩ := forall_mem_cons.mp hne
    have hnew : expert ∉ done :=
      fun hin => (nodup_append.mp hnodup).2.2 expert hin expert mem_cons_self rfl
    rw [append_cons] at hnodup ⊢
    exact ih (exchangeStep_inv hi hexpert hs1) (exchangeStep_stays hcurrent hi h hnew hs1) hrest
      hnodup hs'

end

theorem fillRemaining_get {newResult remaining r : List Int} (h : fillRemaining newResult remaining = .ok r)
    {j : Nat} {expert : Int} (hj : newResult[j]? = some expert) (hne : expert ≠ -1) :
    r[j]? = some expert := by
  induction newResult generalizing remaining r j with
  | nil => cases hj
  | cons e newResult ih =>
    unfold fillRemaining at h
    by_cases hfree : e = -1
    · rw [if_pos hfree] at h
      cases remaining with
      | nil => cases h
      | cons next remaining =>
        obtain ⟨rest, hrest, h⟩ := bind_ok h
        cases h
        cases j with
        | zero =>
          cases hj
          exact absurd hfree hne
        | succ j => exact ih hrest hj
    · rw [if_neg hfree] at h
      obtain ⟨rest, hrest, h⟩ := bind_ok h
      cases h
      cases j with
      | zero => exact hj
      | succ j => exact ih hrest hj

theorem exchangeCard_stays {r : List Int} (hne : ∀ expert ∈ newList, expert ≠ -1)
    (hlen : newList.length = currentList.length) (hcurrent : currentList.Nodup)
    (hnew : newList.Nodup) (h : exchangeCard currentList newList = .ok r)
    (hj : currentList[j]? = some expert) (hin : expert ∈ newList) : r[j]? = some expert := by
  unfold exchangeCard at h
  obtain ⟨s, hs, h⟩ := bind_ok h
  rw [hlen] at hs
  have hstart : StayInv currentList []
      ⟨replicate currentList.length (-1), replicate currentList.length (-1), []⟩ := by
    refine ⟨?_, fun _ _ _ hin => absurd hin not_mem_nil⟩
    intro i e he hne'
    exact absurd (eq_of_mem_replicate (mem_of_getElem? he)) hne'
  have hstays := exchange_loop_stays hcurrent (exchangeInv_init _) hstart hne hnew hs
  exact fillRemaining_get h (hstays.stays j expert hj hin) (hne expert hin)

/-! ## Valid placements -/

/-- A rectangular table. -/
structure Shaped {α : Type} (layers cards slots : Nat) (table : Table α) : Prop where
  length : table.length = layers
  cards : ∀ layer ∈ table, layer.length = cards
  slots : ∀ layer ∈ table, ∀ card ∈ layer, card.length = slots

/-- The new placement of a layer. -/
structure ValidLayer (current new : List (List Int)) : Prop where
  /-- Every card has as many experts as before. -/
  cards : new.map List.length = current.map List.length
  /-- Every expert is placed. -/
  experts : ∀ expert ∈ current.flatten, expert ∈ new.flatten
  /-- The number of replicas is kept. -/
  replicas : new.flatten.length = current.flatten.length
  /-- No card has two replicas of an expert. -/
  apart : ∀ card ∈ new, card.Nodup

/-- The new placement of every layer is valid. -/
structure ValidPlacement (current new : Table Int) : Prop where
  length : new.length = current.length
  layers : ∀ (layer : Nat) (old placed : List (List Int)), current[layer]? = some old →
    new[layer]? = some placed → ValidLayer old placed

/-- The experts of a layer are numbered as those of the first layer, and every step of its packing
finds a box. -/
def LayerPacks (table : Table Int) (cardNum : Nat) (placement : List (List Int))
    (workload : List (List ℚ)) : Prop :=
  (∀ expert ∈ placement.flatten, 0 ≤ expert ∧ expert < numOriginalExpert table) ∧
    PacksLayer (layerWeights (numOriginalExpert table) placement workload) cardNum
      (numRedundancyExpert table)

theorem length_flatten_of_forall {α : Type} {rows : List (List α)}
    (h : ∀ row ∈ rows, row.length = slots) : rows.flatten.length = rows.length * slots := by
  induction rows with
  | nil => rw [length_nil, Nat.zero_mul]; rfl
  | cons row rows ih =>
    obtain ⟨hrow, hrows⟩ := forall_mem_cons.mp h
    rw [flatten_cons, length_append, ih hrows, hrow, length_cons, Nat.succ_mul, add_comm]

theorem Fits.full {boxes : List Box} (h : Fits slots boxes)
    (htotal : (allItems boxes).length = boxes.length * slots) :
    ∀ box ∈ boxes, box.items.length = slots := by
  have hle : ∀ boxes : List Box, Fits slots boxes → (allItems boxes).length ≤ boxes.length * slots := by
    intro boxes
    induction boxes with
    | nil => exact fun _ => Nat.zero_le _
    | cons box boxes ih =>
      intro hfits
      obtain ⟨hbox, hboxes⟩ := forall_mem_cons.mp hfits
      have hrest := ih hboxes
      show (box.items ++ allItems boxes).length ≤ (boxes.length + 1) * slots
      rw [length_append, Nat.succ_mul]
      omega
  induction boxes with
  | nil => exact nofun
  | cons box boxes ih =>
    obtain ⟨hbox, hboxes⟩ := forall_mem_cons.mp h
    have hrest := hle boxes hboxes
    have htotal : (box.items ++ allItems boxes).length = (boxes.length + 1) * slots := htotal
    rw [length_append, Nat.succ_mul] at htotal
    exact forall_mem_cons.mpr ⟨by omega, ih hboxes (by omega)⟩

/-! ## A layer -/

section Layer

variable {table : Table Int} {layerId slots : Nat} {current : List (List Int)} {boxes : List Box}

theorem length_experts (box : Box) : box.experts.length = box.items.length := length_map _

theorem experts_ne (box : Box) : ∀ expert ∈ box.experts, expert ≠ -1 := by
  intro expert hexpert
  obtain ⟨item, -, rfl⟩ := mem_map.mp hexpert
  omega

theorem experts_nodup {box : Box} {card : List Int} (h : card.Perm box.experts) :
    card.Nodup ↔ box.items.Nodup := by
  rw [h.nodup_iff]
  exact nodup_map_iff fun a b heq => Int.ofNat.inj heq

theorem forall₂_exists {α β : Type} {R : α → β → Prop} {as : List α} {bs : List β}
    (h : Forall₂ R as bs) : ∀ a ∈ as, ∃ b ∈ bs, R a b := by
  induction h with
  | nil => exact nofun
  | cons hab _ ih =>
    refine forall_mem_cons.mpr ⟨⟨_, mem_cons_self, hab⟩, ?_⟩
    intro a ha
    obtain ⟨b, hb, hab⟩ := ih a ha
    exact ⟨b, mem_cons_of_mem _ hb, hab⟩

theorem exchangeRows_perm {rows new : List (List Int)} (hcurrent : table[layerId]? = some current)
    (hne : ∀ card ∈ rows, ∀ expert ∈ card, expert ≠ -1)
    (hnew : rows.zipIdx.mapM (exchangeCardOf table layerId) = .ok new) : Forall₂ Perm new rows := by
  obtain ⟨hlen, hget⟩ := mapM_get hnew
  rw [length_zipIdx] at hlen
  refine forall₂_iff_get.mpr ⟨hlen, ?_⟩
  intro c hc hrow
  have hzip : rows.zipIdx[c]? = some (rows[c], c) := by
    rw [getElem?_zipIdx, getElem?_eq_getElem hrow, zero_add]
    rfl
  obtain ⟨card, hcard, hok⟩ := hget c _ hzip
  cases (getElem?_eq_getElem hc).symm.trans hcard
  unfold exchangeCardOf at hok
  rw [hcurrent] at hok
  dsimp only at hok
  split at hok
  · cases hok
  · exact exchangeCard_perm (hne _ (getElem_mem hrow)) hok

theorem exchangeRows_ok {rows : List (List Int)} (hcurrent : table[layerId]? = some current)
    (hne : ∀ card ∈ rows, ∀ expert ∈ card, expert ≠ -1) (hlen : rows.length = current.length)
    (hslots : ∀ card ∈ current, card.length = slots) (hfull : ∀ card ∈ rows, card.length = slots) :
    ∃ new, rows.zipIdx.mapM (exchangeCardOf table layerId) = .ok new := by
  refine mapM_exists ?_
  intro x hx
  obtain ⟨c, hc⟩ := mem_iff_getElem?.mp hx
  rw [getElem?_zipIdx, zero_add] at hc
  obtain ⟨newList, hnewList, rfl⟩ := Option.map_eq_some_iff.mp hc
  have hlt : c < current.length := hlen ▸ (lt_of_getElem? hnewList)
  obtain ⟨currentList, hcard⟩ : ∃ currentList, current[c]? = some currentList :=
    ⟨_, getElem?_eq_getElem hlt⟩
  have hin := mem_of_getElem? hnewList
  unfold exchangeCardOf
  rw [hcurrent]
  dsimp only
  rw [hcard]
  refine exchangeCard_ok (hne newList hin) ?_
  rw [hslots _ (mem_of_getElem? hcard)]
  exact hfull newList hin

theorem experts_ne_of_mem {card : List Int} (hcard : card ∈ boxes.map Box.experts) :
    ∀ expert ∈ card, expert ≠ -1 := by
  obtain ⟨box, -, rfl⟩ := mem_map.mp hcard
  exact experts_ne box

theorem exchangeLayer_perm (hcurrent : table[layerId]? = some current) {new : List (List Int)}
    (hnew : (boxes.map Box.experts).zipIdx.mapM (exchangeCardOf table layerId) = .ok new) :
    Forall₂ (fun card box => card.Perm box.experts) new boxes :=
  forall₂_map_right_iff.mp (exchangeRows_perm hcurrent (fun _ => experts_ne_of_mem) hnew)

section

variable (hcurrent : table[layerId]? = some current) (hlen : boxes.length = current.length)
  (hslots : ∀ card ∈ current, card.length = slots)
include hcurrent hlen hslots

theorem exchangeLayer_ok (hfull : ∀ box ∈ boxes, box.items.length = slots) :
    ∃ new, (boxes.map Box.experts).zipIdx.mapM (exchangeCardOf table layerId) = .ok new := by
  refine exchangeRows_ok hcurrent (fun _ => experts_ne_of_mem) ((length_map _).trans hlen) hslots ?_
  intro card hcard
  obtain ⟨box, hbox, rfl⟩ := mem_map.mp hcard
  exact (length_experts box).trans (hfull box hbox)

/-- The new placement of a layer is valid if and only if the boxes are well filled. -/
theorem validLayer_iff {experts : Nat} (htotal : (allItems boxes).length = boxes.length * slots)
    (hitems : ∀ item, item ∈ allItems boxes ↔ item < experts) :
    (∃ new, (boxes.map Box.experts).zipIdx.mapM (exchangeCardOf table layerId) = .ok new ∧
      ValidLayer current new) ↔
    (∀ expert ∈ current.flatten, 0 ≤ expert ∧ expert < experts) ∧ Fits slots boxes := by
  have hlens : current.map List.length = replicate boxes.length slots := by
    rw [hlen]
    exact map_eq_replicate_iff.mpr hslots
  constructor
  · rintro ⟨new, hnew, hvalid⟩
    have hperms := exchangeLayer_perm hcurrent hnew
    constructor
    · intro expert hexpert
      obtain ⟨card, hcard, hin⟩ := mem_flatten.mp (hvalid.experts expert hexpert)
      obtain ⟨box, hbox, hperm⟩ := forall₂_exists hperms card hcard
      obtain ⟨item, hitem, rfl⟩ := mem_map.mp (hperm.mem_iff.mp hin)
      have hlt := (hitems item).mp (mem_flatMap.mpr ⟨box, hbox, hitem⟩)
      omega
    · intro box hbox
      obtain ⟨card, hin, hperm⟩ := forall₂_exists hperms.flip box hbox
      have hlenCard : card.length = slots := by
        have hmem : card.length ∈ new.map List.length := mem_map_of_mem hin
        rw [hvalid.cards, hlens] at hmem
        exact eq_of_mem_replicate hmem
      refine ⟨?_, (experts_nodup hperm).mp (hvalid.apart card hin)⟩
      rw [← hlenCard, hperm.length_eq]
      exact le_of_eq (length_experts box).symm
  · rintro ⟨hexperts, hfits⟩
    have hfull := hfits.full htotal
    obtain ⟨new, hnew⟩ := exchangeLayer_ok hcurrent hlen hslots hfull
    have hperms := exchangeLayer_perm hcurrent hnew
    have hcardLen : ∀ card ∈ new, card.length = slots := by
      intro card hcard
      obtain ⟨box, hbox, hperm⟩ := forall₂_exists hperms card hcard
      rw [hperm.length_eq]
      exact (length_experts box).trans (hfull box hbox)
    refine ⟨new, hnew, ?_, fun expert hexpert => ?_, ?_, fun card hcard => ?_⟩
    · rw [hlens, ← hperms.length_eq]
      exact map_eq_replicate_iff.mpr hcardLen
    · obtain ⟨hge, hlt⟩ := hexperts expert hexpert
      obtain ⟨box, hbox, hitem⟩ := mem_flatMap.mp ((hitems expert.toNat).mpr (by omega))
      obtain ⟨card, hcard, hperm⟩ := forall₂_exists hperms.flip box hbox
      refine mem_flatten.mpr ⟨card, hcard, hperm.mem_iff.mpr ?_⟩
      exact mem_map.mpr ⟨expert.toNat, hitem, Int.toNat_of_nonneg hge⟩
    · rw [length_flatten_of_forall hcardLen, length_flatten_of_forall hslots, hperms.length_eq, hlen]
    · obtain ⟨box, hbox, hperm⟩ := forall₂_exists hperms card hcard
      exact (experts_nodup hperm).mpr (hfits box hbox).2

end

end Layer

/-! ## The table -/

theorem maximum_ok {row : List ℚ} (h : row ≠ []) : ∃ w, maximum row = .ok w := by
  cases row with
  | nil => exact absurd rfl h
  | cons w row => exact ⟨_, rfl⟩

section Rebalance

variable {argsortRatio : List (ℚ × ℚ) → List Nat} {table : Table Int} {workload : Table ℚ}
  {layers cards slots : Nat}

theorem rebalance_accepts (hworkload : Shaped layers cards slots workload)
    (haccept : rebalanceExperts argsortRatio table workload ≠ .error .ValueError) :
    0 < layers ∧ 0 < cards ∧ numRedundancyExpert table ≤ cards ∧
      ∃ before, maxHeatPerLayer workload = .ok before := by
  cases workload with
  | nil => exact absurd rfl haccept
  | cons layer workload =>
    have hlayer : layer.length = cards := hworkload.cards layer mem_cons_self
    have hlayers : 0 < layers := hworkload.length ▸ Nat.succ_pos _
    cases layer with
    | nil => exact absurd rfl haccept
    | cons card layer =>
      have hcards : 0 < cards := hlayer ▸ Nat.succ_pos _
      obtain ⟨before, hbefore⟩ : ∃ before, maxHeatPerLayer ((card :: layer) :: workload) = .ok before := by
        refine mapM_exists fun row hrow => maximum_ok fun hnil => ?_
        have hrowLen := hworkload.cards row hrow
        rw [map_eq_nil_iff.mp hnil] at hrowLen
        exact absurd hrowLen (ne_of_lt hcards)
      unfold rebalanceExperts at haccept
      dsimp only [headD_cons] at haccept
      rw [hbefore, ok_bind, hlayer, if_neg (ne_of_gt hcards)] at haccept
      refine ⟨hlayers, hcards, not_lt.mp fun hlt => ?_, before, hbefore⟩
      rw [if_pos hlt] at haccept
      exact absurd rfl haccept

theorem headD_length (hworkload : Shaped layers cards slots workload) (hlayers : 0 < layers) :
    (workload.headD []).length = cards := by
  cases workload with
  | nil => exact absurd hworkload.length (ne_of_lt hlayers)
  | cons layer workload => exact hworkload.cards layer mem_cons_self

theorem layerWeights_length (experts : Nat) (placement : List (List Int)) (workload : List (List ℚ)) :
    (layerWeights experts placement workload).length = experts :=
  (length_map _).trans length_range

theorem layerWeights_ids (experts : Nat) (placement : List (List Int)) (workload : List (List ℚ)) :
    (layerWeights experts placement workload).map Prod.fst = range experts := by
  unfold layerWeights
  rw [map_map]
  exact map_id _

theorem experts_total (htable : Shaped layers cards slots table) (hlayers : 0 < layers) :
    numOriginalExpert table + numRedundancyExpert table = cards * slots ∧
      (numOriginalExpert table = 0 → numRedundancyExpert table = 0) := by
  cases table with
  | nil => exact absurd htable.length (ne_of_lt hlayers)
  | cons layer table =>
    have hlen : layer.flatten.length = cards * slots := by
      rw [length_flatten_of_forall (htable.slots layer mem_cons_self),
        htable.cards layer mem_cons_self]
    have hle : layer.flatten.dedup.length ≤ layer.flatten.length := (dedup_sublist _).length_le
    unfold numRedundancyExpert numOriginalExpert
    dsimp only [headD_cons]
    refine ⟨by omega, fun hzero => ?_⟩
    have hnil : layer.flatten = [] := by
      refine eq_nil_iff_forall_not_mem.mpr fun expert hexpert => ?_
      have hin := mem_dedup.mpr hexpert
      rw [length_eq_zero_iff.mp hzero] at hin
      cases hin
    rw [hnil]
    rfl

theorem packLayer_spec (htable : Shaped layers cards slots table) (hlayers : 0 < layers)
    (hcards : 0 < cards) (hle : numRedundancyExpert table ≤ cards) (placement : List (List Int))
    (loads : List (List ℚ)) :
    ∃ boxes, originalComputeBalancedPackRedundancy
        (layerWeights (numOriginalExpert table) placement loads) cards (numRedundancyExpert table) =
        .ok boxes ∧
      boxes.length = cards ∧ (allItems boxes).length = cards * slots ∧
      (∀ item, item ∈ allItems boxes ↔ item < numOriginalExpert table) ∧
      (Fits slots boxes ↔ PacksLayer (layerWeights (numOriginalExpert table) placement loads) cards
        (numRedundancyExpert table)) := by
  obtain ⟨htotal, hzero⟩ := experts_total htable hlayers
  have hlen := layerWeights_length (numOriginalExpert table) placement loads
  have hspec := pack_spec (layerWeights (numOriginalExpert table) placement loads)
    (by rw [layerWeights_ids, hlen]) (hlen.symm ▸ htotal) hcards hle (hlen.symm ▸ hzero)
  rw [hlen] at hspec
  exact hspec

end Rebalance

/-! ## The exchange of a table -/

/-- The experts of a card. -/
def cardAt (table : Table Int) (layer card : Nat) : Option (List Int) := table[layer]?.bind (·[card]?)

/-- What the exchange makes of a card. -/
structure ExchangedCard (currentList newList placed : List Int) : Prop where
  perm : placed.Perm newList
  stays : ∀ (slot : Nat) (expert : Int), currentList[slot]? = some expert → expert ∈ newList →
    placed[slot]? = some expert

/-- The exchange of a placement without repetitions permutes every card, and leaves in its slot
what the card held already. -/
theorem local_exchange_stays (current new : Table Int)
    (hlen : ∀ layer card newList, cardAt new layer card = some newList →
      ∃ currentList, cardAt current layer card = some currentList ∧ currentList.length = newList.length)
    (hcurrent : ∀ layer card currentList, cardAt current layer card = some currentList → currentList.Nodup)
    (hnew : ∀ layer card newList, cardAt new layer card = some newList →
      newList.Nodup ∧ ∀ expert ∈ newList, 0 ≤ expert) :
    ∃ out, constraintExpertLocalExchange current new = .ok out ∧
      out.map List.length = new.map List.length ∧
      ∀ layer card newList, cardAt new layer card = some newList → ∃ currentList placed,
        cardAt current layer card = some currentList ∧ cardAt out layer card = some placed ∧
          ExchangedCard currentList newList placed := by
  have hcard : ∀ (layer card : Nat) (newLayer : List (List Int)) (newList : List Int),
      new[layer]? = some newLayer → newLayer[card]? = some newList → ∃ currentList placed,
        cardAt current layer card = some currentList ∧
          exchangeCardOf current layer (newList, card) = .ok placed ∧
          ExchangedCard currentList newList placed := by
    intro layer card newLayer newList hlayer hlist
    have hat : cardAt new layer card = some newList := by
      unfold cardAt
      rw [hlayer]
      exact hlist
    obtain ⟨currentList, hcur, hlength⟩ := hlen layer card newList hat
    obtain ⟨hnodup, hpos⟩ := hnew layer card newList hat
    have hne : ∀ expert ∈ newList, expert ≠ -1 := by
      intro expert hexpert
      have := hpos expert hexpert
      omega
    obtain ⟨placed, hok⟩ := exchangeCard_ok hne hlength.symm
    refine ⟨currentList, placed, hcur, ?_, exchangeCard_perm hne hok, ?_⟩
    · unfold cardAt at hcur
      obtain ⟨currentLayer, hcurLayer, hcurList⟩ := Option.bind_eq_some_iff.mp hcur
      unfold exchangeCardOf
      rw [hcurLayer]
      dsimp only
      rw [hcurList]
      exact hok
    · intro slot expert hslot hin
      exact exchangeCard_stays hne hlength.symm (hcurrent layer card currentList hcur) hnodup hok hslot hin
  have hzip : ∀ {α : Type} (l : List α) (i : Nat) (a : α), l[i]? = some a → l.zipIdx[i]? = some (a, i) := by
    intro α l i a ha
    rw [getElem?_zipIdx, ha, zero_add]
    rfl
  have hunzip : ∀ {α : Type} (l : List α) (x : α × Nat), x ∈ l.zipIdx → l[x.2]? = some x.1 :=
    fun l x hx => mem_zipIdx_iff_getElem?.mp hx
  obtain ⟨out, hout⟩ : ∃ out, constraintExpertLocalExchange current new = .ok out := by
    refine mapM_exists ?_
    intro newLayer hnewLayer
    refine mapM_exists ?_
    intro newList hnewList
    obtain ⟨-, placed, -, hok, -⟩ :=
      hcard newLayer.2 newList.2 newLayer.1 newList.1 (hunzip new _ hnewLayer) (hunzip _ _ hnewList)
    exact ⟨placed, hok⟩
  obtain ⟨houtLen, hget⟩ := mapM_get hout
  rw [length_zipIdx] at houtLen
  refine ⟨out, hout, ?_, ?_⟩
  · refine ext_getElem? ?_
    intro layer
    rw [getElem?_map, getElem?_map]
    cases hlayer : new[layer]? with
    | none =>
      rw [List.getElem?_eq_none_iff, ← houtLen, ← List.getElem?_eq_none_iff] at hlayer
      rw [hlayer]
    | some newLayer =>
      obtain ⟨placedLayer, hplaced, hok⟩ := hget layer _ (hzip new layer newLayer hlayer)
      rw [hplaced]
      refine congrArg some ((mapM_get hok).1.trans ?_)
      exact length_zipIdx
  · intro layer card newList hat
    unfold cardAt at hat
    obtain ⟨newLayer, hlayer, hlist⟩ := Option.bind_eq_some_iff.mp hat
    obtain ⟨placedLayer, hplacedLayer, hok⟩ := hget layer _ (hzip new layer newLayer hlayer)
    obtain ⟨placed, hplaced, hcardOk⟩ := (mapM_get hok).2 card _ (hzip newLayer card newList hlist)
    obtain ⟨currentList, placed', hcur, hok', hexchanged⟩ := hcard layer card newLayer newList hlayer hlist
    cases hcardOk.symm.trans hok'
    refine ⟨currentList, placed, hcur, ?_, hexchanged⟩
    unfold cardAt
    rw [hplacedLayer]
    exact hplaced

theorem cardAt_pair {a b : List Int} {layer card : Nat}
    (h : cardAt [[a, b]] layer card = some newList) :
    layer = 0 ∧ (card = 0 ∧ newList = a ∨ card = 1 ∧ newList = b) := by
  match layer, card, h with
  | 0, 0, h => exact ⟨rfl, .inl ⟨rfl, (Option.some.inj h).symm⟩⟩
  | 0, 1, h => exact ⟨rfl, .inr ⟨rfl, (Option.some.inj h).symm⟩⟩

/-- On card 0 the experts 0 and 2 stay, expert 3 takes the slot of expert 1. -/
theorem local_exchange_stays_pair :
    ∃ out, constraintExpertLocalExchange [[[0, 1, 2], [3, 4, 5]]] [[[2, 3, 0], [1, 5, 4]]] = .ok out ∧
      out = [[[0, 3, 2], [1, 4, 5]]] ∧
      ∃ currentList placed, cardAt [[[0, 1, 2], [3, 4, 5]]] 0 0 = some currentList ∧
        cardAt out 0 0 = some placed ∧ ExchangedCard currentList [2, 3, 0] placed := by
  obtain ⟨out, hout, -, hall⟩ :=
    local_exchange_stays [[[0, 1, 2], [3, 4, 5]]] [[[2, 3, 0], [1, 5, 4]]] (by
        intro layer card newList h
        obtain ⟨rfl, ⟨rfl, rfl⟩ | ⟨rfl, rfl⟩⟩ := cardAt_pair h
        · exact ⟨_, rfl, rfl⟩
        · exact ⟨_, rfl, rfl⟩)
      (by
        intro layer card currentList h
        obtain ⟨rfl, ⟨rfl, rfl⟩ | ⟨rfl, rfl⟩⟩ := cardAt_pair h
        · decide
        · decide)
      (by
        intro layer card newList h
        obtain ⟨rfl, ⟨rfl, rfl⟩ | ⟨rfl, rfl⟩⟩ := cardAt_pair h
        · decide
        · decide)
  have hrun : constraintExpertLocalExchange [[[0, 1, 2], [3, 4, 5]]] [[[2, 3, 0], [1, 5, 4]]] =
      .ok [[[0, 3, 2], [1, 4, 5]]] := by decide
  obtain ⟨currentList, placed, hcur, hplaced, hex⟩ := hall 0 0 [2, 3, 0] rfl
  refine ⟨out, hout, ?_, currentList, placed, hcur, hplaced, hex⟩
  rw [hrun] at hout
  exact (Except.ok.inj hout).symm

/-! ## Two cards -/

/-- Two cards that hold both experts each. -/
def bothTable : Table Int := [[[0, 1], [0, 1]]]

/-- All of the workload is on expert 0. -/
def hotWorkload : Table ℚ := [[[10, 0], [10, 0]]]

def evenWorkload : Table ℚ := [[[1, 1], [1, 1]]]

theorem shaped_two {α : Type} (a b c d : α) : Shaped 1 2 2 [[[a, b], [c, d]]] where
  length := rfl
  cards layer hlayer := by
    rw [mem_singleton.mp hlayer]
    rfl
  slots layer hlayer card hcard := by
    rw [mem_singleton.mp hlayer] at hcard
    rcases mem_cons.mp hcard with rfl | hcard
    · rfl
    · rw [mem_singleton.mp hcard]
      rfl

end MyOperator.AscendEplb
