import MyOperator.Transpose.AxisReduction

/-!
# Axis reduction of Transpose: unit axes are removed

The axes that `RemoveAxisV2` keeps are numbered by their rank among the kept ones: each
deleted axis, the largest first, moves the axes above it down by one. The reduced
transpose reads what the original one reads, because a unit axis neither counts nor
contributes to a stride.
-/

namespace MyOperator.Transpose

open Lib List

/-- The axes that are not of size one. -/
def keptAxis (shape : List Nat) (a : Nat) : Bool := shape.getD a 0 != 1

/-! ## Renumbering -/

theorem renumber_one {del : List Nat} (hdel : del.Pairwise (· > ·)) {p : Nat} (hp : p ∉ del) :
    del.foldl (fun p d => if p > d then p - 1 else p) p = p - del.countP (· < p) := by
  induction del generalizing p with
  | nil => rfl
  | cons d del ih =>
    obtain ⟨hbelow, hdel⟩ := pairwise_cons.mp hdel
    have hpdel : p ∉ del := fun h => hp (mem_cons_of_mem _ h)
    rw [foldl_cons, countP_cons]
    by_cases hgt : p > d
    · -- all others are below `d`, so they are below `p` and below `p - 1`
      have hall : ∀ q, d ≤ q → del.countP (· < q) = del.length := by
        intro q hq
        rw [countP_eq_length]
        intro e he
        have := hbelow e he
        exact decide_eq_true (by omega)
      have hnot : p - 1 ∉ del := by
        intro h
        have := hbelow _ h
        omega
      rw [if_pos hgt, ih hdel hnot, hall (p - 1) (by omega), hall p (by omega),
        if_pos (decide_eq_true hgt)]
      omega
    · have hlt : ¬ d < p := hgt
      rw [if_neg hgt, ih hdel hpdel, if_neg (by simpa using hlt), add_zero]

theorem foldl_renumber (del l : List Nat) :
    del.foldl renumber l = l.map fun p => del.foldl (fun p d => if p > d then p - 1 else p) p := by
  induction del generalizing l with
  | nil => simp
  | cons d del ih =>
    rw [foldl_cons, ih, renumber, map_map]
    rfl

/-- The deleted axes below a number and the rank of the number make up the number. -/
theorem rank_add_countP (kept : Nat → Bool) {n a : Nat} (ha : a ≤ n) :
    rank kept a + ((range n).filter fun i => !kept i).countP (· < a) = a := by
  have hbelow : ((range n).filter fun i => !kept i).countP (· < a) =
      (range a).countP fun i => !kept i := by
    obtain ⟨m, rfl⟩ := Nat.exists_eq_add_of_le ha
    rw [countP_filter, range_add, countP_append, countP_map]
    have hin : (range a).countP (fun i => decide (i < a) && !kept i) =
        (range a).countP fun i => !kept i := by
      refine countP_congr fun i hi => ?_
      simp [mem_range.mp hi]
    have hout : (range m).countP ((fun i => decide (i < a) && !kept i) ∘ (a + ·)) = 0 := by
      rw [countP_eq_zero]
      intro i _
      simp
    rw [hin, hout, add_zero]
  have hsum := length_eq_countP_add_countP kept (l := range a)
  rw [length_range] at hsum
  have hneg : (range a).countP (fun i => !kept i) =
      (range a).countP fun i => decide ¬ kept i = true := by
    refine countP_congr fun i _ => ?_
    simp
  rw [hbelow, hneg]
  exact hsum.symm

/-! ## The loops -/

section Removal

variable {s : ShapeInfo}

/-- The permutation as far as it counts. -/
def permList (s : ShapeInfo) : List Nat := (range s.dim).map fun j => s.perm.getD j 0

theorem foldl_collect (f : Nat → Nat) (p : Nat → Prop) [DecidablePred p] (l acc : List Nat) :
    l.foldl (fun acc j => if p (f j) then acc ++ [f j] else acc) acc =
      acc ++ (l.map f).filter fun a => decide (p a) := by
  induction l generalizing acc with
  | nil => simp
  | cons j l ih =>
    rw [foldl_cons, ih]
    by_cases h : p (f j) <;> simp [h]

/-- The first loop: the kept sizes move to the front, the unit axes are collected. -/
theorem foldl_removeStep (hperm : (permList s).Perm (range s.dim))
    (hlen : s.dim ≤ s.reducedInShape.length) {i : Nat} (hi : i ≤ s.dim) :
    (range i).foldl (removeStep s) ⟨s.reducedInShape, 0, []⟩ =
      { shape := ((range i).filter (keptAxis s.inShape)).map (fun a => s.inShape.getD a 0) ++
          s.reducedInShape.drop (rank (keptAxis s.inShape) i)
        shapeSize := rank (keptAxis s.inShape) i
        delPerm := (range i).filter fun a => !keptAxis s.inShape a } := by
  induction i with
  | zero => simp [rank]
  | succ i ih =>
    have hin : i ∈ permList s := hperm.mem_iff.mpr (mem_range.mpr hi)
    have hrank : rank (keptAxis s.inShape) i ≤ i := by
      have := countP_le_length (p := keptAxis s.inShape) (l := range i)
      simpa [rank] using this
    rw [range_succ, foldl_append, ih (by omega), foldl_cons, foldl_nil,
      filter_append, filter_append, rank_succ]
    unfold removeStep
    by_cases hunit : s.inShape.getD i 0 = 1
    · -- exactly one entry of the permutation names the axis
      have hkept : keptAxis s.inShape i = false := by
        rw [keptAxis, hunit]
        rfl
      have hone : (permList s).filter (fun a => decide (a = i)) = [i] := by
        have hcount : (permList s).count i = 1 :=
          count_eq_one_of_mem (hperm.nodup_iff.mpr nodup_range) hin
        rw [filter_eq, hcount]
        rfl
      have hdel := foldl_collect (fun j => s.perm.getD j 0) (· = i) (range s.dim)
        ((range i).filter fun a => !keptAxis s.inShape a)
      rw [if_neg (not_not.mpr hunit)]
      rw [hdel]
      simp [hkept, permList] at hone ⊢
      exact hone
    · have hkept : keptAxis s.inShape i = true := bne_iff_ne.mpr hunit
      have hfront := set_front
        (((range i).filter (keptAxis s.inShape)).map fun a => s.inShape.getD a 0)
        s.reducedInShape (s.inShape.getD i 0) (by rw [length_map, length_kept]; omega)
      rw [length_map, length_kept] at hfront
      rw [if_pos hunit]
      rw [hfront]
      simp [hkept]

/-- The deleted axes as `qsort` leaves them. -/
def deletedAxes (s : ShapeInfo) : List Nat :=
  ((range s.dim).filter fun a => !keptAxis s.inShape a).insertionSort fun a b => b ≤ a

theorem mem_deletedAxes {a : Nat} :
    a ∈ deletedAxes s ↔ a < s.dim ∧ keptAxis s.inShape a = false := by
  simp [deletedAxes, mem_insertionSort]

theorem deletedAxes_pairwise (s : ShapeInfo) : (deletedAxes s).Pairwise (· > ·) := by
  have hsort : (deletedAxes s).Pairwise fun a b => b ≤ a := pairwise_insertionSort _ _
  have hnodup : (deletedAxes s).Nodup :=
    (perm_insertionSort _ _).nodup_iff.mpr (nodup_range.filter _)
  exact hsort.imp₂ (fun a b hle hne => by omega) hnodup

theorem keptPerm_eq (hperm : (permList s).Perm (range s.dim)) :
    keptPerm s (deletedAxes s) = (permList s).filter (keptAxis s.inShape) := by
  have hloop : ∀ (l acc : List Nat), l.foldl (fun newPerm i =>
        if (deletedAxes s).any fun d => s.perm.getD i 0 == d then newPerm
        else newPerm ++ [s.perm.getD i 0]) acc =
      acc ++ (l.map fun j => s.perm.getD j 0).filter fun p => !(deletedAxes s).any (p == ·) := by
    intro l
    induction l with
    | nil => simp
    | cons j l ih =>
      intro acc
      rw [foldl_cons, ih, map_cons, filter_cons]
      by_cases h : (deletedAxes s).any (s.perm.getD j 0 == ·) = true
      · rw [if_pos h, h]
        rfl
      · rw [if_neg h, Bool.eq_false_of_not_eq_true h]
        simp
  rw [keptPerm, hloop]
  refine filter_congr fun p hp => ?_
  have hp : p < s.dim := mem_range.mp (hperm.mem_iff.mp hp)
  have hany : (deletedAxes s).any (p == ·) = !keptAxis s.inShape p := by
    rw [Bool.eq_iff_iff]
    simp [mem_deletedAxes, hp]
  rw [hany, Bool.not_not]

theorem renumbered_eq (hperm : (permList s).Perm (range s.dim)) :
    (deletedAxes s).foldl renumber (keptPerm s (deletedAxes s)) =
      ((permList s).filter (keptAxis s.inShape)).map (rank (keptAxis s.inShape)) := by
  rw [keptPerm_eq hperm, foldl_renumber]
  refine map_congr_left fun p hp => ?_
  obtain ⟨hpin, hkept⟩ := mem_filter.mp hp
  have hlt : p < s.dim := mem_range.mp (hperm.mem_iff.mp hpin)
  have hnot : p ∉ deletedAxes s := by
    rw [mem_deletedAxes, hkept]
    simp
  have hcount : (deletedAxes s).countP (· < p) =
      ((range s.dim).filter fun a => !keptAxis s.inShape a).countP (· < p) :=
    (perm_insertionSort _ _).countP_eq _
  have hsum := rank_add_countP (keptAxis s.inShape) hlt.le
  rw [renumber_one (deletedAxes_pairwise s) hnot, hcount]
  omega

end Removal

/-! ## What is left -/

/-- The sizes of the kept axes. -/
def removedShape (shape : List Nat) : List Nat :=
  ((range shape.length).filter (keptAxis shape)).map fun a => shape.getD a 0

/-- The permutation of the kept axes, renumbered. -/
def removedPerm (shape perm : List Nat) : List Nat :=
  (perm.filter (keptAxis shape)).map (rank (keptAxis shape))

section Kept

variable {shape perm : List Nat}

theorem removedShape_length (shape : List Nat) :
    (removedShape shape).length = rank (keptAxis shape) shape.length := by
  rw [removedShape, length_map, length_kept]

theorem removedShape_ne_one {d : Nat} (hd : d ∈ removedShape shape) : d ≠ 1 := by
  obtain ⟨a, ha, rfl⟩ := mem_map.mp hd
  exact bne_iff_ne.mp (mem_filter.mp ha).2

theorem removedPerm_perm (hperm : perm.Perm (range shape.length)) :
    (removedPerm shape perm).Perm (range (removedShape shape).length) := by
  rw [removedShape_length]
  exact perm_map_rank (hperm.filter _)

theorem removedShape_getD {a : Nat} (ha : a < shape.length) (hkept : keptAxis shape a = true) :
    (removedShape shape).getD (rank (keptAxis shape) a) 0 = shape.getD a 0 := by
  rw [getD_eq_getElem?_getD, removedShape, getElem?_map, kept_getElem? ha hkept]
  rfl

theorem stride_removed (hperm : perm.Perm (range shape.length)) {a : Nat}
    (hkept : keptAxis shape a = true) :
    stride (removedShape shape) (rank (keptAxis shape) a) = stride shape a := by
  rw [stride_eq_prod (removedPerm_perm hperm), stride_eq_prod hperm, removedPerm, map_map]
  have hlt : ∀ b ∈ perm, b < shape.length := fun b hb => mem_range.mp (hperm.mem_iff.mp hb)
  clear hperm
  induction perm with
  | nil => rfl
  | cons b perm ih =>
    have ih := ih fun c hc => hlt c (mem_cons_of_mem _ hc)
    rw [map_cons, prod_cons, ← ih]
    by_cases hb : keptAxis shape b = true
    · rw [filter_cons_of_pos hb, map_cons, prod_cons]
      congr 1
      show (if rank _ a < rank _ b then (removedShape shape).getD (rank _ b) 0 else 1) = _
      rw [removedShape_getD (hlt b mem_cons_self) hb]
      simp only [rank_lt_iff hkept]
    · have hunit : shape.getD b 0 = 1 := by
        by_contra hne
        exact hb (bne_iff_ne.mpr hne)
      rw [filter_cons_of_neg hb, hunit, ite_self, one_mul]

theorem removed_same (hperm : perm.Perm (range shape.length)) :
    Axes.Same (transposeAxes shape perm)
      (transposeAxes (removedShape shape) (removedPerm shape perm)) := by
  have hfilter : transposeAxes (removedShape shape) (removedPerm shape perm) =
      (transposeAxes shape perm).filter fun x => x.1 ≠ 1 := by
    rw [transposeAxes, transposeAxes, removedPerm, map_map, filter_map]
    have hsame : perm.filter (keptAxis shape) =
        perm.filter ((fun x : Nat × Nat => decide (x.1 ≠ 1)) ∘
          fun a => (shape.getD a 0, stride shape a)) := by
      refine filter_congr fun a _ => ?_
      rw [Bool.eq_iff_iff]
      simp [keptAxis]
    rw [← hsame]
    refine map_congr_left fun a ha => ?_
    obtain ⟨hin, hkept⟩ := mem_filter.mp ha
    have hlt := mem_range.mp (hperm.mem_iff.mp hin)
    rw [Function.comp_apply, removedShape_getD hlt hkept, stride_removed hperm hkept]
  rw [hfilter]
  exact Axes.dropUnits _

end Kept

/-! ## `RemoveAxisV2` -/

/-- The transposes before and after removal. -/
structure Removed (s : ShapeInfo) (shape perm : List Nat) : Prop where
  describes : Describes (removeAxisV2 s) shape perm
  units : ∀ d ∈ shape, d = 1 → shape.length = 1
  same : Axes.Same (transposeAxes (s.inShape.take s.dim) (s.perm.take s.dim))
    (transposeAxes shape perm)

variable {s : ShapeInfo}

theorem ShapeInfo.Valid.permList_eq (h : s.Valid) : permList s = s.perm.take s.dim :=
  (take_eq_map_getD _ (by rw [h.permLen]; exact h.dim_le)).symm

theorem ShapeInfo.Valid.inShape_length (h : s.Valid) : (s.inShape.take s.dim).length = s.dim := by
  rw [length_take, h.inLen]
  exact min_eq_left h.dim_le

theorem removed_single (h : s.Valid) (hdim : s.dim = 1) :
    Removed s (s.inShape.take s.dim) (s.perm.take s.dim) := by
  have hle := h.dim_le
  have hlen := h.inShape_length
  refine ⟨?_, fun _ _ _ => by rw [hlen, hdim], .refl _⟩
  unfold removeAxisV2
  rw [if_pos hdim]
  have houtLen := h.outLen
  have hredOut := h.redOutLen
  refine ⟨hlen.symm, h.dim_pos, hle, ?_, ?_, ?_, ?_, ?_, by rw [hlen]; exact h.isPerm, ?_⟩
  · exact (duplicateArray_length _ _ _).trans h.redInLen
  · exact (duplicateArray_length _ _ _).trans h.redOutLen
  · exact (duplicateArray_length _ _ _).trans h.redPermLen
  · exact duplicateArray_take (h.inLen ▸ hle) (h.redInLen ▸ hle)
  · exact duplicateArray_take (h.permLen ▸ hle) (h.redPermLen ▸ hle)
  · intro i hi
    have hp : s.perm.getD i 0 < s.dim := by
      have := h.isPerm.mem_iff.mp (getElem_mem (l := s.perm.take s.dim)
        (n := i) (by rw [h.isPerm.length_eq, length_range]; exact hi))
      rw [getElem_take, ← getD_eq_getElem _ 0, mem_range] at this
      exact this
    show (duplicateArray s.outShape s.reducedOutShape s.dim).getD i 0 = _
    rw [← getD_take hi, duplicateArray_take (houtLen ▸ hle) (hredOut ▸ hle), getD_take hi, h.out i hi,
      getD_take hi, getD_take hp]

theorem isAllOne_iff : isAllOne s = true ↔ ∀ d ∈ s.inShape.take s.dim, d = 1 := by
  simp [isAllOne]

theorem removed_allOne (h : s.Valid) (hdim : s.dim ≠ 1) (hone : isAllOne s = true) :
    Removed s [1] [0] := by
  have hones := isAllOne_iff.mp hone
  have hin := h.redInLen
  have hout := h.redOutLen
  have hplen := h.redPermLen
  have hmax : TRANSPOSE_MAX_AXIS_NUM = 8 := rfl
  refine ⟨?_, fun _ _ _ => rfl, ?_⟩
  · unfold removeAxisV2
    rw [if_neg hdim, if_pos hone]
    refine ⟨rfl, le_refl 1, (by decide : 1 ≤ TRANSPOSE_MAX_AXIS_NUM), ?_, ?_, ?_, ?_, ?_, Perm.refl _, ?_⟩
    · simpa using hin
    · simpa using hout
    · simpa using hplen
    · cases hr : s.reducedInShape with
      | nil => rw [hr] at hin; simp [hmax] at hin
      | cons d l => simp
    · cases hr : s.reducedPerm with
      | nil => rw [hr] at hplen; simp [hmax] at hplen
      | cons d l => simp
    · intro i hi
      obtain rfl : i = 0 := Nat.lt_one_iff.mp hi
      cases hr : s.reducedOutShape with
      | nil => rw [hr] at hout; simp [hmax] at hout
      | cons d l => simp
  · have hnone : (transposeAxes (s.inShape.take s.dim) (s.perm.take s.dim)).filter
        (fun x => x.1 ≠ 1) = [] := by
      rw [filter_eq_nil_iff]
      intro x hx
      obtain ⟨a, ha, rfl⟩ := mem_map.mp hx
      have hlt := mem_range.mp (h.isPerm.mem_iff.mp ha)
      have hlt : a < (s.inShape.take s.dim).length := by rwa [h.inShape_length]
      have := hones _ (getElem_mem hlt)
      simp only [getD_eq_getElem _ _ hlt, this]
      decide
    have hleft := Axes.dropUnits (transposeAxes (s.inShape.take s.dim) (s.perm.take s.dim))
    rw [hnone] at hleft
    exact hleft.trans (Axes.dropUnit _ _).symm

theorem keptAxis_take {a : Nat} (ha : a < s.dim) :
    keptAxis (s.inShape.take s.dim) a = keptAxis s.inShape a := by
  rw [keptAxis, keptAxis, getD_take ha]

theorem rank_take {a : Nat} (ha : a ≤ s.dim) :
    rank (keptAxis (s.inShape.take s.dim)) a = rank (keptAxis s.inShape) a := by
  refine countP_congr fun i hi => ?_
  have hi := mem_range.mp hi
  rw [keptAxis_take (by omega)]

theorem filter_take {l : List Nat} (hl : ∀ a ∈ l, a < s.dim) :
    l.filter (keptAxis (s.inShape.take s.dim)) = l.filter (keptAxis s.inShape) :=
  filter_congr fun a ha => keptAxis_take (hl a ha)

theorem removeAxisV2_some (hdim : s.dim ≠ 1) (hone : isAllOne s ≠ true)
    (hperm : (permList s).Perm (range s.dim)) (hlen : s.dim ≤ s.reducedInShape.length) :
    removeAxisV2 s =
      let newPerm := ((permList s).filter (keptAxis s.inShape)).map (rank (keptAxis s.inShape))
      calcOutShape { s with
          reducedInShape :=
            ((range s.dim).filter (keptAxis s.inShape)).map (fun a => s.inShape.getD a 0) ++
              s.reducedInShape.drop (rank (keptAxis s.inShape) s.dim)
          reducedPerm := duplicateArray newPerm s.reducedPerm newPerm.length
          dim := newPerm.length } := by
  unfold removeAxisV2
  rw [if_neg hdim, if_neg hone, foldl_removeStep hperm hlen le_rfl, ← renumbered_eq hperm]
  rfl

theorem removed_some (h : s.Valid) (hdim : s.dim ≠ 1) (hone : isAllOne s ≠ true) :
    Removed s (removedShape (s.inShape.take s.dim))
      (removedPerm (s.inShape.take s.dim) (s.perm.take s.dim)) := by
  have hle := h.dim_le
  have hlen := h.inShape_length
  have hin := h.redInLen
  have hplen := h.redPermLen
  have hperm : (permList s).Perm (range s.dim) := h.permList_eq ▸ h.isPerm
  have hpermTake : (s.perm.take s.dim).Perm (range (s.inShape.take s.dim).length) := by
    rw [hlen]; exact h.isPerm
  have hrank : rank (keptAxis s.inShape) s.dim ≤ s.dim := by
    have := countP_le_length (p := keptAxis s.inShape) (l := range s.dim)
    simpa [rank] using this
  have hlt : ∀ a ∈ s.perm.take s.dim, a < s.dim := fun a ha =>
    mem_range.mp (h.isPerm.mem_iff.mp ha)
  have hshape : ((range s.dim).filter (keptAxis s.inShape)).map (fun a => s.inShape.getD a 0) =
      removedShape (s.inShape.take s.dim) := by
    rw [removedShape, hlen, filter_take fun a ha => mem_range.mp ha]
    refine map_congr_left fun a ha => ?_
    rw [getD_take (mem_range.mp (mem_filter.mp ha).1)]
  have hnew : ((permList s).filter (keptAxis s.inShape)).map (rank (keptAxis s.inShape)) =
      removedPerm (s.inShape.take s.dim) (s.perm.take s.dim) := by
    rw [removedPerm, h.permList_eq, filter_take hlt]
    refine map_congr_left fun a ha => ?_
    rw [rank_take (hlt a (mem_filter.mp ha).1).le]
  have hsize : (removedPerm (s.inShape.take s.dim) (s.perm.take s.dim)).length =
      rank (keptAxis s.inShape) s.dim := by
    rw [(removedPerm_perm hpermTake).length_eq, length_range, removedShape_length, hlen,
      rank_take le_rfl]
  have hpos : 0 < rank (keptAxis s.inShape) s.dim := by
    rw [Ne, isAllOne_iff] at hone
    push Not at hone
    obtain ⟨d, hd, hne⟩ := hone
    obtain ⟨a, ha, rfl⟩ := mem_iff_getElem.mp hd
    rw [rank, countP_pos_iff]
    refine ⟨a, mem_range.mpr (hlen ▸ ha), ?_⟩
    rw [getElem_take, ← getD_eq_getElem _ 0] at hne
    exact bne_iff_ne.mpr hne
  refine ⟨?_, fun d hd h1 => absurd h1 (removedShape_ne_one hd), removed_same hpermTake⟩
  · rw [removeAxisV2_some hdim hone hperm (by omega), hnew, hshape]
    have hslen : (removedShape (s.inShape.take s.dim)).length = rank (keptAxis s.inShape) s.dim := by
      rw [removedShape_length, hlen, rank_take le_rfl]
    refine calcOutShape_describes (hsize.trans hslen.symm) (hsize ▸ hpos)
      (hsize ▸ hrank.trans hle) ?_ h.redOutLen ?_ ?_ ?_ (removedPerm_perm hpermTake)
    · simp only [length_append, length_drop, hslen, hin]
      omega
    · exact (duplicateArray_length _ _ _).trans hplen
    · exact take_front (hslen.trans hsize.symm)
    · refine (duplicateArray_take le_rfl ?_).trans (take_length ..)
      omega

/-- Whatever the shape, removal describes a transpose that reads the same offsets. -/
theorem removeAxisV2_removed (h : s.Valid) : ∃ shape perm, Removed s shape perm := by
  by_cases hdim : s.dim = 1
  · exact ⟨_, _, removed_single h hdim⟩
  · by_cases hone : isAllOne s = true
    · exact ⟨_, _, removed_allOne h hdim hone⟩
    · exact ⟨_, _, removed_some h hdim hone⟩

end MyOperator.Transpose
