import MyOperator.StridedSlice.InferShape

/-!
# The dense specification is the list of slots

`BuildSparseSpec` finds the ellipsis and counts the new axes after it; with that count
`BuildDenseSpec` stops the ellipsis exactly where the entries after it still fit. So its
lists and masks hold one entry for each axis, and the gather list says which axes of the
result they are.
-/

namespace MyOperator.StridedSlice

open List Nat

/-! ## Bits -/

theorem hasBit_eq (mask i : Nat) : hasBit mask i = mask.testBit i := by
  unfold hasBit bit1value
  rw [one_shiftLeft, Nat.and_comm]
  by_cases h : mask.testBit i
  · rw [h, bne_iff_ne, ne_eq]
    intro hzero
    have hbit := congrArg (Nat.testBit · i) hzero
    simp [h] at hbit
  · rw [Bool.not_eq_true] at h
    rw [h, bne_eq_false_iff_eq]
    apply eq_of_testBit_eq
    intro j
    rw [testBit_and, zero_testBit]
    by_cases hij : i = j
    · rw [← hij, h, Bool.false_and]
    · simp [hij]

theorem hasBit_or (mask k i : Nat) :
    hasBit (mask ||| bit1value k) i = (hasBit mask i || decide (k = i)) := by
  rw [hasBit_eq, hasBit_eq, testBit_or, bit1value, one_shiftLeft, testBit_two_pow]

@[simp] theorem hasBit_zero (i : Nat) : hasBit 0 i = false := by
  rw [hasBit_eq, zero_testBit]

theorem several_iff (params : StridedSliceParams) :
    (params.ellipsisMask ≠ 0 ∧ params.ellipsisMask &&& (params.ellipsisMask - 1) ≠ 0) ↔
      SeveralEllipses params := by
  unfold SeveralEllipses
  generalize params.ellipsisMask = mask
  constructor
  · intro ⟨hzero, hand⟩
    have hpow : ¬ mask.isPowerOfTwo := fun h =>
      hand ((and_sub_one_eq_zero_iff_isPowerOfTwo hzero).mpr h)
    -- the highest bit is set, and what is left without it has a bit of its own
    have hhigh := testBit_log2 hzero
    by_contra hnone
    apply hpow
    refine ⟨mask.log2, eq_of_testBit_eq fun j => ?_⟩
    rw [testBit_two_pow]
    by_cases hj : mask.log2 = j
    · rw [← hj, hhigh]
      simp
    · rw [decide_eq_false hj, ← Bool.not_eq_true]
      intro hset
      rcases lt_or_gt_of_ne hj with h | h
      · exact hnone ⟨_, _, h, hhigh, hset⟩
      · exact hnone ⟨_, _, h, hset, hhigh⟩
  · rintro ⟨i, j, hij, hi, hj⟩
    have hzero : mask ≠ 0 := by
      rintro rfl
      simp at hi
    refine ⟨hzero, fun hand => ?_⟩
    obtain ⟨k, hk⟩ := (and_sub_one_eq_zero_iff_isPowerOfTwo hzero).mp hand
    rw [hk, testBit_two_pow, decide_eq_true_eq] at hi hj
    omega

/-! ## What a dense specification says -/

/-- The gather list of a list of slots, the first axis at `k`. -/
def codes : List (Option Entry) → Nat → List Int
  | [], _ => []
  | none :: l, k => kStridedSliceNewAxis :: codes l k
  | some e :: l, k => (if e.shrink then kShrinkAxis else (k : Int)) :: codes l (k + 1)

/-- The entries among the slots. -/
def reals (l : List (Option Entry)) : List Entry := l.filterMap id

@[simp] theorem reals_append (l l' : List (Option Entry)) : reals (l ++ l') = reals l ++ reals l' :=
  filterMap_append

@[simp] theorem reals_none (l : List (Option Entry)) : reals (none :: l) = reals l := rfl

@[simp] theorem reals_some (e : Entry) (l : List (Option Entry)) :
    reals (some e :: l) = e :: reals l := rfl

theorem reals_snoc_none (l : List (Option Entry)) : reals (l ++ [none]) = reals l := by
  simp [reals]

theorem codes_append (l l' : List (Option Entry)) (k : Nat) :
    codes (l ++ l') k = codes l k ++ codes l' (k + (reals l).length) := by
  induction l generalizing k with
  | nil => simp [codes, reals]
  | cons s l ih =>
    cases s with
    | none => simp only [cons_append, codes, ih, reals_none]
    | some e =>
      simp only [cons_append, codes, ih, reals_some, length_cons]
      rw [show k + 1 + (reals l).length = k + ((reals l).length + 1) by omega]

namespace StridedSliceDenseSpec

/-- The entry that a dense specification holds for one axis. -/
def entry (dense : StridedSliceDenseSpec) (k : Nat) : Entry :=
  ⟨dense.begins.getD k 0, dense.ends.getD k 0, dense.strides.getD k 0,
    hasBit dense.beginMask k, hasBit dense.endMask k, hasBit dense.shrinkAxisMask k⟩

/-- An entry written at one axis. -/
def write (dense : StridedSliceDenseSpec) (k : Nat) (e : Entry) : StridedSliceDenseSpec :=
  { dense with
    begins := dense.begins.set k e.begin
    ends := dense.ends.set k e.end
    strides := dense.strides.set k e.stride
    beginMask := if e.beginMasked then dense.beginMask ||| bit1value k else dense.beginMask
    endMask := if e.endMasked then dense.endMask ||| bit1value k else dense.endMask
    finalShapeGatherIndices := dense.finalShapeGatherIndices ++
      [if e.shrink then kShrinkAxis else (k : Int)]
    shrinkAxisMask := if e.shrink then dense.shrinkAxisMask ||| bit1value k
      else dense.shrinkAxisMask }

theorem addFull_eq_write (dense : StridedSliceDenseSpec) (k : Nat) :
    dense.addFull k = dense.write k .full := by
  simp [addFull, write, Entry.full]

/-- The specification holds the slots read so far, and nothing beyond them. -/
structure Holds (dense : StridedSliceDenseSpec) (rank : Nat) (l : List (Option Entry)) : Prop where
  dims : dense.dims = rank
  entries : ∀ k e, (reals l)[k]? = some e → dense.entry k = e
  beginClear : ∀ k, (reals l).length ≤ k → hasBit dense.beginMask k = false
  endClear : ∀ k, (reals l).length ≤ k → hasBit dense.endMask k = false
  shrinkClear : ∀ k, (reals l).length ≤ k → hasBit dense.shrinkAxisMask k = false
  gather : dense.finalShapeGatherIndices = codes l 0
  beginsLength : dense.begins.length = rank
  endsLength : dense.ends.length = rank
  stridesLength : dense.strides.length = rank

variable {dense : StridedSliceDenseSpec} {rank : Nat} {l : List (Option Entry)}

theorem Holds.addNewAxis (h : dense.Holds rank l) : dense.addNewAxis.Holds rank (l ++ [none]) where
  dims := h.dims
  entries := by
    rw [reals_snoc_none]
    exact h.entries
  beginClear := by
    rw [reals_snoc_none]
    exact h.beginClear
  endClear := by
    rw [reals_snoc_none]
    exact h.endClear
  shrinkClear := by
    rw [reals_snoc_none]
    exact h.shrinkClear
  gather := by
    rw [codes_append, ← h.gather]
    rfl
  beginsLength := h.beginsLength
  endsLength := h.endsLength
  stridesLength := h.stridesLength

theorem hasBit_mark (mask k i : Nat) (b : Bool) :
    hasBit (if b then mask ||| bit1value k else mask) i =
      (hasBit mask i || (b && decide (k = i))) := by
  cases b
  · simp
  · simp [hasBit_or]

theorem Holds.write (h : dense.Holds rank l) (hroom : (reals l).length < rank) (e : Entry) :
    (dense.write (reals l).length e).Holds rank (l ++ [some e]) where
  dims := h.dims
  entries := by
    intro k e' hk
    have hlist : reals (l ++ [some e]) = reals l ++ [e] := by simp [reals]
    rw [hlist] at hk
    unfold entry StridedSliceDenseSpec.write
    simp only [hasBit_mark]
    rcases lt_trichotomy k (reals l).length with hlt | heq | hgt
    · rw [getElem?_append_left hlt] at hk
      have hne : (reals l).length ≠ k := by omega
      rw [← h.entries k e' hk]
      simp [entry, getD_eq_getElem?_getD, getElem?_set_ne hne, hne]
    · subst heq
      rw [getElem?_append_right le_rfl] at hk
      simp only [Nat.sub_self, getElem?_cons_zero, Option.some.injEq] at hk
      subst hk
      simp [getD_eq_getElem?_getD, h.beginsLength, h.endsLength, h.stridesLength, hroom,
        h.beginClear _ le_rfl, h.endClear _ le_rfl, h.shrinkClear _ le_rfl]
    · rw [getElem?_eq_none (by simp; omega)] at hk
      cases hk
  beginClear := by
    intro k hk
    simp only [reals_append, reals_some, length_append, length_cons] at hk
    simp only [StridedSliceDenseSpec.write, hasBit_mark]
    rw [h.beginClear k (by omega), decide_eq_false (by omega)]
    simp
  endClear := by
    intro k hk
    simp only [reals_append, reals_some, length_append, length_cons] at hk
    simp only [StridedSliceDenseSpec.write, hasBit_mark]
    rw [h.endClear k (by omega), decide_eq_false (by omega)]
    simp
  shrinkClear := by
    intro k hk
    simp only [reals_append, reals_some, length_append, length_cons] at hk
    simp only [StridedSliceDenseSpec.write, hasBit_mark]
    rw [h.shrinkClear k (by omega), decide_eq_false (by omega)]
    simp
  gather := by
    rw [codes_append, ← h.gather, zero_add]
    rfl
  beginsLength := by simp [StridedSliceDenseSpec.write, h.beginsLength]
  endsLength := by simp [StridedSliceDenseSpec.write, h.endsLength]
  stridesLength := by simp [StridedSliceDenseSpec.write, h.stridesLength]

end StridedSliceDenseSpec

/-! ## The loop over the entries -/

open StridedSliceDenseSpec (Holds)

/-- The flags that the loop carries along. -/
def SameFlags (dense dense' : StridedSliceDenseSpec) : Prop :=
  dense'.beginValid = dense.beginValid ∧ dense'.endValid = dense.endValid

variable {dense : StridedSliceDenseSpec} {rank : Nat} {l : List (Option Entry)}

theorem SameFlags.trans {a b c : StridedSliceDenseSpec} (h : SameFlags a b) (h' : SameFlags b c) :
    SameFlags a c := ⟨h'.1.trans h.1, h'.2.trans h.2⟩

theorem reals_replicate (n : Nat) (e : Entry) : reals (replicate n (some e)) = replicate n e := by
  simp [reals]

theorem fillEllipsis_holds (n : Nat) (h : dense.Holds rank l) (hroom : (reals l).length + n ≤ rank) :
    ∃ dense', fillEllipsis n (reals l).length dense = ((reals l).length + n, dense') ∧
      dense'.Holds rank (l ++ replicate n (some .full)) ∧ SameFlags dense dense' := by
  induction n generalizing dense l with
  | zero => exact ⟨dense, rfl, by simpa using h, rfl, rfl⟩
  | succ n ih =>
    have hnext := h.write (by omega) .full
    have hcount : (reals (l ++ [some Entry.full])).length = (reals l).length + 1 := by simp [reals]
    obtain ⟨dense', hfill, hholds, hflags⟩ := ih hnext (by omega)
    refine ⟨dense', ?_, ?_, hflags⟩
    · rw [hcount] at hfill
      rw [fillEllipsis, dense.addFull_eq_write, hfill]
      congr 1
      omega
    · rw [append_assoc, singleton_append] at hholds
      exact hholds

/-- The item at one position of a sparse specification. -/
def sparseItem (sparse : StridedSliceSparseSpec) (i : Nat) : Item :=
  if hasBit sparse.ellipsisMask i then .ellipsis
  else if hasBit sparse.newAxisMask i then .newAxis
  else .axis ⟨sparse.begins.getD i 0, sparse.ends.getD i 0, sparse.strides.getD i 0,
    hasBit sparse.beginMask i, hasBit sparse.endMask i, hasBit sparse.shrinkAxisMask i⟩

variable {sparse : StridedSliceSparseSpec}

variable {i : Nat} {is : List Nat}

theorem denseStep_eq (full : Nat) : denseStep sparse (full, dense) i =
    match sparseItem sparse i with
    | .ellipsis => some (fillEllipsis (min ((dense.dims : Int) - ((sparse.dims : Int) - i) + 1 +
        sparse.numAddAxisAfterEllipsis) dense.dims - full).toNat full dense)
    | .newAxis => some (full, dense.addNewAxis)
    | .axis e => if full = dense.begins.length then none else some (full + 1, dense.write full e) := by
  unfold sparseItem
  by_cases hell : hasBit sparse.ellipsisMask i
  · rw [if_pos hell]
    exact if_pos hell
  · rw [if_neg hell]
    refine (if_neg hell).trans ?_
    by_cases hnew : hasBit sparse.newAxisMask i
    · rw [if_pos hnew, if_pos hnew]
    · rw [if_neg hnew, if_neg hnew]
      rfl

/-- The number of entries among the items. -/
def axisCount (l : List Item) : Nat := l.countP Item.isAxis

/-- Positions without the ellipsis: if an axis is left for each entry, the slots are read one
after another, and otherwise the specification is refused. -/
theorem denseSteps_run (hfree : ∀ i ∈ is, sparseItem sparse i ≠ .ellipsis) (h : dense.Holds rank l)
    (hle : (reals l).length ≤ rank) (n : Nat) :
    ((reals l).length + axisCount (is.map (sparseItem sparse)) ≤ rank →
      ∃ dense', is.foldlM (denseStep sparse) ((reals l).length, dense) =
          some ((reals l).length + axisCount (is.map (sparseItem sparse)), dense') ∧
        dense'.Holds rank (l ++ (is.map (sparseItem sparse)).flatMap (Item.expand n)) ∧
        SameFlags dense dense') ∧
    (rank < (reals l).length + axisCount (is.map (sparseItem sparse)) →
      is.foldlM (denseStep sparse) ((reals l).length, dense) = none) := by
  induction is generalizing dense l with
  | nil =>
    refine ⟨fun _ => ⟨dense, rfl, by simpa using h, rfl, rfl⟩, fun hover => ?_⟩
    simp only [map_nil, axisCount, countP_nil] at hover
    omega
  | cons i is ih =>
    have hrest := fun j hj => hfree j (mem_cons_of_mem _ hj)
    rw [map_cons, foldlM_cons, denseStep_eq]
    cases hitem : sparseItem sparse i with
    | ellipsis => exact absurd hitem (hfree i mem_cons_self)
    | newAxis =>
      simp only [axisCount, countP_cons, Item.isAxis] at ih ⊢
      obtain ⟨hfit, hover⟩ := ih hrest h.addNewAxis (by simpa [reals] using hle)
      rw [reals_snoc_none] at hfit hover
      refine ⟨fun hroom => ?_, hover⟩
      obtain ⟨dense', hfold, hholds, hflags⟩ := hfit hroom
      exact ⟨dense', hfold, by simpa [Item.expand] using hholds, hflags⟩
    | axis e =>
      simp only [axisCount, countP_cons, Item.isAxis, if_true] at ih ⊢
      rw [h.beginsLength]
      by_cases hfull : (reals l).length = rank
      · rw [if_pos hfull]
        exact ⟨fun hroom => by omega, fun _ => rfl⟩
      · rw [if_neg hfull]
        have hcount : (reals (l ++ [some e])).length = (reals l).length + 1 := by simp [reals]
        obtain ⟨hfit, hover⟩ := ih hrest (h.write (by omega) e) (by omega)
        rw [hcount, add_assoc, add_comm 1] at hfit hover
        refine ⟨fun hroom => ?_, hover⟩
        obtain ⟨dense', hfold, hholds, hflags⟩ := hfit hroom
        exact ⟨dense', hfold, by simpa [Item.expand] using hholds, hflags⟩

/-! ## Where the ellipsis stands -/

/-- The sparse specification of `InferShape`. -/
def sparseSpec (params : StridedSliceParams) : StridedSliceSparseSpec :=
  buildSparseSpec params ⟨0, 0, params.begins, params.ends, params.strides, params.beginMask,
    params.endMask, params.ellipsisMask, params.newAxisMask, params.shrinkAxisMask⟩

theorem range_around {k n : Nat} (h : k < n) :
    range n = range k ++ k :: List.range' (k + 1) (n - (k + 1)) := by
  have hsplit := range'_append_1 (s := 0) (m := k) (n := n - k)
  rw [zero_add, Nat.add_sub_cancel' h.le] at hsplit
  rw [range_eq_range', range_eq_range', ← hsplit,
    show n - k = n - (k + 1) + 1 by omega, range'_succ]

/-- The ellipsis stands at `k` and nowhere else, and the new axes after it are counted. -/
structure Located (params : StridedSliceParams) (sparse : StridedSliceSparseSpec) (k : Nat) :
    Prop where
  lt : k < sparse.dims
  mark : sparseItem sparse k = .ellipsis
  before : ∀ i ∈ range k, sparseItem sparse i ≠ .ellipsis
  after : ∀ i ∈ List.range' (k + 1) (sparse.dims - (k + 1)), sparseItem sparse i ≠ .ellipsis
  count : sparse.numAddAxisAfterEllipsis =
    (List.range' (k + 1) (sparse.dims - (k + 1))).countP (hasBit sparse.newAxisMask)
  spec : (range sparse.dims).map (sparseItem sparse) = itemsWithEllipsis params

theorem scan_free {params : StridedSliceParams}
    (hfree : ∀ i ∈ is, hasBit params.ellipsisMask i = false) (seen : Bool) (n : Nat) :
    is.foldl (scanEllipsis params) (seen, n) =
      (seen, n + if seen then is.countP (hasBit params.newAxisMask) else 0) := by
  induction is generalizing n with
  | nil => simp
  | cons i is ih =>
    rw [foldl_cons]
    unfold scanEllipsis at ih ⊢
    simp only [hfree i mem_cons_self, Bool.or_false]
    rw [ih fun j hj => hfree j (mem_cons_of_mem _ hj)]
    cases seen
    · simp
    · cases hnew : hasBit params.newAxisMask i
      · simp [hnew]
      · simp [hnew, add_assoc, add_comm 1]

theorem sparseItem_eq {params : StridedSliceParams}
    (hell : hasBit sparse.ellipsisMask i = hasBit params.ellipsisMask i)
    (hrest : (sparse.begins, sparse.ends, sparse.strides) =
      (params.begins, params.ends, params.strides))
    (hmasks : (sparse.beginMask, sparse.endMask, sparse.newAxisMask, sparse.shrinkAxisMask) =
      (params.beginMask, params.endMask, params.newAxisMask, params.shrinkAxisMask)) :
    sparseItem sparse i = itemAt params i := by
  simp only [Prod.mk.injEq] at hrest hmasks
  unfold sparseItem itemAt
  rw [hell, hrest.1, hrest.2.1, hrest.2.2, hmasks.1, hmasks.2.1, hmasks.2.2.1, hmasks.2.2.2]
  simp only [hasBit_eq]

theorem itemAt_ellipsis_iff {params : StridedSliceParams} :
    itemAt params i = .ellipsis ↔ hasBit params.ellipsisMask i = true := by
  unfold itemAt
  rw [hasBit_eq]
  split
  · simp [*]
  · rename_i h
    simp only [h]
    split <;> simp

theorem located_marked {params : StridedSliceParams} (hone : ¬ SeveralEllipses params) {k : Nat}
    (hk : k < params.strides.length) (hmark : hasBit params.ellipsisMask k = true) :
    Located params (sparseSpec params) k := by
  have halone : ∀ i, i ≠ k → hasBit params.ellipsisMask i = false := by
    intro i hi
    rw [← Bool.not_eq_true]
    intro hset
    rw [hasBit_eq] at hset hmark
    rcases lt_or_gt_of_ne hi with h | h
    · exact hone ⟨_, _, h, hset, hmark⟩
    · exact hone ⟨_, _, h, hmark, hset⟩
  have hscan : (range params.strides.length).foldl (scanEllipsis params) (false, 0) =
      (true, (List.range' (k + 1) (params.strides.length - (k + 1))).countP
        (hasBit params.newAxisMask)) := by
    have hbefore : (range k).foldl (scanEllipsis params) (false, 0) = (false, 0) := by
      rw [scan_free fun i hi => halone i (mem_range.mp hi).ne]
      rfl
    have hat : scanEllipsis params (false, 0) k = (true, 0) := by simp [scanEllipsis, hmark]
    rw [range_around hk, foldl_append, hbefore, foldl_cons, hat, scan_free]
    · simp
    · intro i hi
      rw [mem_range'_1] at hi
      exact halone i (by omega)
  have hspec : sparseSpec params = ⟨params.strides.length, (List.range' (k + 1)
      (params.strides.length - (k + 1))).countP (hasBit params.newAxisMask), params.begins,
      params.ends, params.strides, params.beginMask, params.endMask, params.ellipsisMask,
      params.newAxisMask, params.shrinkAxisMask⟩ := by
    unfold sparseSpec buildSparseSpec
    simp only [hscan, if_true]
  have hitem : ∀ i, sparseItem (sparseSpec params) i = itemAt params i := by
    intro i
    rw [hspec]
    exact sparseItem_eq rfl rfl rfl
  have hfree : ∀ i, i ≠ k → sparseItem (sparseSpec params) i ≠ .ellipsis := by
    intro i hi
    rw [hitem, ne_eq, itemAt_ellipsis_iff, halone i hi]
    decide
  refine ⟨by rw [hspec]; exact hk, ?_, ?_, ?_, by rw [hspec], ?_⟩
  · rw [hitem]
    exact itemAt_ellipsis_iff.mpr hmark
  · intro i hi
    rw [mem_range] at hi
    exact hfree i (by omega)
  · intro i hi
    rw [mem_range'_1] at hi
    exact hfree i (by omega)
  · have hmem : Item.ellipsis ∈ items params :=
      mem_map.mpr ⟨k, mem_range.mpr hk, itemAt_ellipsis_iff.mpr hmark⟩
    rw [itemsWithEllipsis, if_pos hmem, hspec]
    exact map_congr_left fun i _ => (hspec ▸ hitem i)

theorem located_appended {params : StridedSliceParams}
    (hnone : ∀ i < params.strides.length, hasBit params.ellipsisMask i = false) :
    Located params (sparseSpec params) params.strides.length := by
  have hscan : (range params.strides.length).foldl (scanEllipsis params) (false, 0) =
      (false, 0) := by
    rw [scan_free fun i hi => hnone i (mem_range.mp hi)]
    rfl
  have hspec : sparseSpec params = ⟨params.strides.length + 1, 0, params.begins, params.ends,
      params.strides, params.beginMask, params.endMask,
      params.ellipsisMask ||| bit1value params.strides.length, params.newAxisMask,
      params.shrinkAxisMask⟩ := by
    unfold sparseSpec buildSparseSpec
    simp only [hscan]
    rfl
  have hitem : ∀ i < params.strides.length, sparseItem (sparseSpec params) i = itemAt params i := by
    intro i hi
    rw [hspec]
    refine sparseItem_eq ?_ rfl rfl
    rw [hasBit_or, decide_eq_false (by omega), Bool.or_false]
  have hlast : sparseItem (sparseSpec params) params.strides.length = .ellipsis := by
    rw [hspec]
    unfold sparseItem
    rw [if_pos]
    rw [hasBit_or, decide_eq_true rfl, Bool.or_true]
  refine ⟨by rw [hspec]; exact lt_succ_self _, hlast, ?_, ?_, ?_, ?_⟩
  · intro i hi
    rw [mem_range] at hi
    rw [hitem i hi, ne_eq, itemAt_ellipsis_iff, hnone i hi]
    decide
  · intro i hi
    rw [hspec, mem_range'_1] at hi
    dsimp only at hi
    omega
  · rw [hspec]
    simp
  · have hmem : Item.ellipsis ∉ items params := by
      intro hmem
      obtain ⟨i, hi, heq⟩ := mem_map.mp hmem
      rw [itemAt_ellipsis_iff, hnone i (mem_range.mp hi)] at heq
      cases heq
    rw [itemsWithEllipsis, if_neg hmem, items,
      show (sparseSpec params).dims = params.strides.length + 1 by rw [hspec], range_succ,
      map_append, map_cons, map_nil, hlast]
    congr 1
    exact map_congr_left fun i hi => hitem i (mem_range.mp hi)

theorem sparseSpec_located {params : StridedSliceParams} (hone : ¬ SeveralEllipses params) :
    ∃ k, Located params (sparseSpec params) k := by
  by_cases hex : ∃ k < params.strides.length, hasBit params.ellipsisMask k = true
  · obtain ⟨k, hk, hmark⟩ := hex
    exact ⟨k, located_marked hone hk hmark⟩
  · refine ⟨_, located_appended fun i hi => ?_⟩
    rw [← Bool.not_eq_true]
    exact fun hset => hex ⟨i, hi, hset⟩

/-! ## The whole dense specification -/

/-- The specification that `InferShape` hands to `BuildDenseSpec`. -/
def denseStart (params : StridedSliceParams) : StridedSliceDenseSpec :=
  ⟨params.inputShape.length, 0, 0, params.beginValid, params.endValid, params.begins,
    params.ends, params.strides, [], 0⟩

/-- The state in which the loop over the entries begins. -/
def denseZero (params : StridedSliceParams) : StridedSliceDenseSpec := { denseStart params with
    begins := setDimNum params.inputShape.length params.begins
    ends := setDimNum params.inputShape.length params.ends
    strides := setDimNum params.inputShape.length params.strides }

theorem length_setDimNum (n : Nat) (l : List Int) : (setDimNum n l).length = n := by
  simp only [setDimNum, length_append, length_take, length_replicate]
  omega

theorem denseZero_holds (params : StridedSliceParams) :
    (denseZero params).Holds params.inputShape.length [] where
  dims := rfl
  entries := by
    intro k e hk
    simp [reals] at hk
  beginClear _ _ := hasBit_zero _
  endClear _ _ := hasBit_zero _
  shrinkClear _ _ := hasBit_zero _
  gather := rfl
  beginsLength := length_setDimNum _ _
  endsLength := length_setDimNum _ _
  stridesLength := length_setDimNum _ _

theorem free_length (hfree : ∀ i ∈ is, sparseItem sparse i ≠ .ellipsis) :
    is.length = axisCount (is.map (sparseItem sparse)) + is.countP (hasBit sparse.newAxisMask) := by
  induction is with
  | nil => rfl
  | cons i is ih =>
    have hrest := ih fun j hj => hfree j (mem_cons_of_mem _ hj)
    have hi := hfree i mem_cons_self
    unfold axisCount at hrest ⊢
    rw [length_cons, map_cons, countP_cons, countP_cons, hrest]
    unfold sparseItem at hi ⊢
    by_cases hell : hasBit sparse.ellipsisMask i
    · rw [if_pos hell] at hi
      exact absurd rfl hi
    · rw [if_neg hell]
      cases hnew : hasBit sparse.newAxisMask i
      · simp [Item.isAxis]
        omega
      · simp [Item.isAxis]
        omega

variable {params : StridedSliceParams} {k : Nat}

/-- The entries before the ellipsis. -/
def countBefore (sparse : StridedSliceSparseSpec) (k : Nat) : Nat :=
  axisCount ((range k).map (sparseItem sparse))

/-- The entries after the ellipsis. -/
def countAfter (sparse : StridedSliceSparseSpec) (k : Nat) : Nat :=
  axisCount ((List.range' (k + 1) (sparse.dims - (k + 1))).map (sparseItem sparse))

section

variable (h : Located params sparse k)
include h

theorem Located.items_eq :
    itemsWithEllipsis params = (range k).map (sparseItem sparse) ++
      .ellipsis :: (List.range' (k + 1) (sparse.dims - (k + 1))).map (sparseItem sparse) := by
  rw [← h.spec, range_around h.lt, map_append, map_cons, h.mark]

theorem Located.count_items :
    (items params).countP Item.isAxis = countBefore sparse k + countAfter sparse k := by
  have hsame : (items params).countP Item.isAxis =
      (itemsWithEllipsis params).countP Item.isAxis := by
    unfold itemsWithEllipsis
    split
    · rfl
    · simp [Item.isAxis]
  rw [hsame, h.items_eq]
  simp [Item.isAxis, countBefore, countAfter, axisCount]

theorem Located.fills (hdims : dense.dims = params.inputShape.length) :
    denseStep sparse (countBefore sparse k, dense) k =
      some (fillEllipsis (spare params) (countBefore sparse k) dense) := by
  have hlength := free_length h.after
  rw [length_range', ← h.count] at hlength
  rw [denseStep_eq, h.mark]
  dsimp only
  congr 2
  unfold spare
  rw [h.count_items]
  unfold countAfter
  omega

theorem Located.run (state : Nat × StridedSliceDenseSpec) :
    (range sparse.dims).foldlM (denseStep sparse) state =
      ((range k).foldlM (denseStep sparse) state).bind fun state =>
        (denseStep sparse state k).bind fun state =>
          (List.range' (k + 1) (sparse.dims - (k + 1))).foldlM (denseStep sparse)
            state := by
  rw [range_around h.lt, foldlM_append]
  rfl

end

theorem reals_free (hfree : ∀ i ∈ is, sparseItem sparse i ≠ .ellipsis) (n : Nat) :
    (reals ((is.map (sparseItem sparse)).flatMap (Item.expand n))).length =
      axisCount (is.map (sparseItem sparse)) := by
  induction is with
  | nil => rfl
  | cons i is ih =>
    have hrest := ih fun j hj => hfree j (mem_cons_of_mem _ hj)
    unfold axisCount at hrest ⊢
    rw [map_cons, flatMap_cons, reals_append, length_append, hrest, countP_cons, add_comm]
    cases hitem : sparseItem sparse i with
    | ellipsis => exact absurd hitem (hfree i mem_cons_self)
    | newAxis => rfl
    | axis e => rfl

/-- The slots before the ellipsis. -/
def slotsBefore (params : StridedSliceParams) (k : Nat) : List (Option Entry) :=
  ((range k).map (sparseItem (sparseSpec params))).flatMap (Item.expand (spare params))

theorem Located.reads_before (h : Located params (sparseSpec params) k)
    (hroom : countBefore (sparseSpec params) k ≤ params.inputShape.length) :
    ∃ dense, (range k).foldlM (denseStep (sparseSpec params)) (0, denseZero params) =
        some (countBefore (sparseSpec params) k, dense) ∧
      dense.Holds params.inputShape.length (slotsBefore params k) ∧
      SameFlags (denseStart params) dense ∧
      (reals (slotsBefore params k)).length = countBefore (sparseSpec params) k := by
  have hzero : (reals ([] : List (Option Entry))).length = 0 := rfl
  obtain ⟨dense, hrun, hholds, hflags⟩ := (denseSteps_run h.before (denseZero_holds params)
    (Nat.zero_le _) (spare params)).1 (by rw [hzero, zero_add]; exact hroom)
  rw [hzero, zero_add] at hrun
  exact ⟨dense, hrun, hholds, hflags, reals_free h.before _⟩

theorem buildDenseSpec_fit (hone : ¬ SeveralEllipses params) (hfew : ¬ TooManyIndices params) :
    ∃ dense, buildDenseSpec (sparseSpec params) (denseStart params) = some dense ∧
      dense.Holds params.inputShape.length (slots params) ∧ SameFlags (denseStart params) dense := by
  obtain ⟨k, h⟩ := sparseSpec_located hone
  have hcount := h.count_items
  unfold TooManyIndices at hfew
  have hspare : spare params = params.inputShape.length -
      (countBefore (sparseSpec params) k + countAfter (sparseSpec params) k) := by
    rw [spare, hcount]
  obtain ⟨d1, hrun1, hholds1, hflags1, hreals1⟩ := h.reads_before (by omega)
  obtain ⟨d2, hfill, hholds2, hflags2⟩ := fillEllipsis_holds (spare params) hholds1 (by omega)
  have hreals2 : (reals (slotsBefore params k ++ replicate (spare params)
      (some Entry.full))).length = (reals (slotsBefore params k)).length + spare params := by
    rw [reals_append, length_append, reals_replicate, length_replicate]
  obtain ⟨d3, hrun3, hholds3, hflags3⟩ := (denseSteps_run h.after hholds2 (by omega)
    (spare params)).1 (by
      show _ + countAfter (sparseSpec params) k ≤ _
      omega)
  refine ⟨d3, ?_, ?_, (hflags1.trans hflags2).trans hflags3⟩
  · show ((range _).foldlM (denseStep (sparseSpec params)) (0, denseZero params)).map _ = _
    rw [hreals2] at hrun3
    rw [h.run, hrun1, Option.bind_some, h.fills hholds1.dims, Option.bind_some, ← hreals1, hfill,
      hrun3]
    rfl
  · rw [slots, h.items_eq, flatMap_append, flatMap_cons, ← append_assoc]
    exact hholds3

theorem buildDenseSpec_overflow (hone : ¬ SeveralEllipses params) (hmany : TooManyIndices params) :
    buildDenseSpec (sparseSpec params) (denseStart params) = none := by
  obtain ⟨k, h⟩ := sparseSpec_located hone
  have hcount := h.count_items
  unfold TooManyIndices at hmany
  show ((range _).foldlM (denseStep (sparseSpec params)) (0, denseZero params)).map _ = _
  rw [h.run]
  by_cases hbefore : countBefore (sparseSpec params) k ≤ params.inputShape.length
  · obtain ⟨d1, hrun1, hholds1, -, hreals1⟩ := h.reads_before hbefore
    have hspare : spare params = 0 := by
      unfold spare
      omega
    have hover := (denseSteps_run h.after hholds1 (by omega) (spare params)).2 (by
      show _ < _ + countAfter (sparseSpec params) k
      omega)
    rw [hreals1] at hover
    rw [hrun1, Option.bind_some, h.fills hholds1.dims, hspare, fillEllipsis, Option.bind_some, hover]
    rfl
  · have hzero : (reals ([] : List (Option Entry))).length = 0 := rfl
    have hover := (denseSteps_run h.before (denseZero_holds params) (Nat.zero_le _)
      (spare params)).2 (by
        show _ < 0 + countBefore (sparseSpec params) k
        omega)
    rw [hzero] at hover
    rw [hover]
    rfl

theorem length_reals_slots (hone : ¬ SeveralEllipses params) (hfew : ¬ TooManyIndices params) :
    (reals (slots params)).length = params.inputShape.length := by
  obtain ⟨k, h⟩ := sparseSpec_located hone
  have hcount := h.count_items
  have hbefore := reals_free h.before (spare params)
  have hafter := reals_free h.after (spare params)
  unfold TooManyIndices at hfew
  rw [slots, h.items_eq, flatMap_append, flatMap_cons, reals_append, reals_append, length_append,
    length_append, hbefore, hafter, Item.expand, reals_replicate, length_replicate]
  unfold spare
  unfold countBefore countAfter at hcount
  omega

end MyOperator.StridedSlice
