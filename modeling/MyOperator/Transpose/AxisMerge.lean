import MyOperator.Transpose.AxisRemoval

/-!
# Axis reduction of Transpose: neighbours are merged

`MergeAxisV2` cuts the permutation into runs of consecutive axes and makes one axis of
each. The heads of the runs say where each merged axis stands in the output
(`newDimPosition`); read in the order of the input axes and inverted they are the
reduced permutation. A run reads like one axis because each of its axes has as stride
the size times the stride of the next.
-/

namespace MyOperator.Transpose

open Lib List Nat

/-! ## Runs of a permutation -/

/-- The axes `head, head + 1, …`, `len` of them. -/
structure Run where
  head : Nat
  len : Nat
  deriving DecidableEq, Repr

namespace Run

def axes (r : Run) : List Nat := List.range' r.head r.len

/-- The size of the merged axis. -/
def size (shape : List Nat) (r : Run) : Nat := (r.axes.map fun a => shape.getD a 0).prod

theorem mem_axes {r : Run} {a : Nat} : a ∈ r.axes ↔ r.head ≤ a ∧ a < r.head + r.len := by
  rw [axes, mem_range'_1]

end Run

/-- `G` are the longest runs that `perm` consists of. -/
structure RunsOf (perm : List Nat) (G : List Run) : Prop where
  flat : perm = G.flatMap Run.axes
  pos : ∀ r ∈ G, 0 < r.len
  apart : G.IsChain fun r r' => r.head + r.len ≠ r'.head

def heads (G : List Run) : List Nat := G.map Run.head

section Runs

variable {perm : List Nat} {G : List Run}

variable {r r' : Run}

section

variable (h : RunsOf perm G)
include h

theorem RunsOf.head_mem (hr : r ∈ G) : r.head ∈ perm := by
  rw [h.flat, mem_flatMap]
  exact ⟨r, hr, Run.mem_axes.mpr ⟨le_rfl, by have := h.pos r hr; omega⟩⟩

theorem RunsOf.mem_perm {a : Nat} : a ∈ perm ↔ ∃ r ∈ G, r.head ≤ a ∧ a < r.head + r.len := by
  rw [h.flat, mem_flatMap]
  simp only [Run.mem_axes]

section

variable (hnodup : perm.Nodup) (hr : r ∈ G) (hr' : r' ∈ G)
include hnodup hr hr'

theorem RunsOf.disjoint : r = r' ∨ r.axes.Disjoint r'.axes := by
  rw [h.flat, nodup_flatMap] at hnodup
  obtain ⟨i, hi, rfl⟩ := mem_iff_getElem.mp hr
  obtain ⟨j, hj, rfl⟩ := mem_iff_getElem.mp hr'
  rcases lt_trichotomy i j with hij | rfl | hij
  · exact .inr (pairwise_iff_getElem.mp hnodup.2 i j hi hj hij)
  · exact .inl rfl
  · have hdis := pairwise_iff_getElem.mp hnodup.2 j i hj hi hij
    exact .inr fun a hi hj => hdis hj hi

theorem RunsOf.before (hlt : r.head < r'.head) : r.head + r.len ≤ r'.head := by
  rcases h.disjoint hnodup hr hr' with rfl | hdis
  · omega
  · by_contra hle
    have hpos := h.pos r' hr'
    exact hdis (Run.mem_axes.mpr ⟨hlt.le, by omega⟩ : r'.head ∈ r.axes)
      (Run.mem_axes.mpr ⟨le_rfl, by omega⟩)

theorem RunsOf.head_inj (heq : r.head = r'.head) : r = r' := by
  rcases h.disjoint hnodup hr hr' with rfl | hdis
  · rfl
  · have hpos := h.pos r hr
    have hpos' := h.pos r' hr'
    exact absurd (Run.mem_axes.mpr ⟨heq.symm.le, by omega⟩ : r.head ∈ r'.axes)
      (hdis (Run.mem_axes.mpr ⟨le_rfl, by omega⟩))

end

theorem RunsOf.heads_nodup (hnodup : perm.Nodup) : (heads G).Nodup := by
  have hG : G.Nodup := by
    have hflat := h.flat ▸ hnodup
    rw [nodup_flatMap] at hflat
    rw [nodup_iff_pairwise_ne, pairwise_iff_getElem]
    intro i j hi hj hij heq
    have hdis := pairwise_iff_getElem.mp hflat.2 i j hi hj hij
    have hpos := h.pos _ (getElem_mem hi)
    have hmem : G[i].head ∈ G[i].axes := Run.mem_axes.mpr ⟨le_rfl, by omega⟩
    exact hdis hmem (heq ▸ hmem)
  exact hG.map_on fun r hr r' hr' heq => h.head_inj hnodup hr hr' heq

end

theorem RunsOf.extend (h : RunsOf perm (G ++ [r])) :
    RunsOf (perm ++ [r.head + r.len]) (G ++ [{ r with len := r.len + 1 }]) where
  flat := by
    rw [h.flat]
    simp [Run.axes, range'_1_concat]
  pos := by
    intro r' hr'
    rcases mem_append.mp hr' with hold | hnew
    · exact h.pos r' (mem_append_left _ hold)
    · rw [mem_singleton.mp hnew]
      exact succ_pos _
  apart := by
    have hapart := h.apart
    rw [isChain_append] at hapart ⊢
    refine ⟨hapart.1, isChain_singleton _, ?_⟩
    intro x hx y hy
    rw [head?_cons, Option.mem_some_iff] at hy
    subst hy
    exact hapart.2.2 x hx r rfl

theorem RunsOf.start (h : RunsOf perm (G ++ [r])) {a : Nat} (ha : r.head + r.len ≠ a) :
    RunsOf (perm ++ [a]) (G ++ [r] ++ [⟨a, 1⟩]) where
  flat := by
    have happ : (G ++ [r] ++ [(⟨a, 1⟩ : Run)]).flatMap Run.axes =
        (G ++ [r]).flatMap Run.axes ++ [a] := by
      simp [Run.axes]
    rw [happ, ← h.flat]
  pos := by
    intro r' hr'
    rcases mem_append.mp hr' with hold | hnew
    · exact h.pos r' hold
    · rw [mem_singleton.mp hnew]
      exact one_pos
  apart := by
    rw [isChain_append]
    refine ⟨h.apart, isChain_singleton _, ?_⟩
    intro x hx y hy
    rw [getLast?_concat, Option.mem_some_iff] at hx
    rw [head?_cons, Option.mem_some_iff] at hy
    subst hx hy
    exact ha

end Runs

/-! ## The loop over the permutation -/

/-- What `newDimPosition` holds for axis `a`: the number of the run it heads, or `-1`. -/
def headPos (H : List Nat) (a : Nat) : Int := if a ∈ H then (H.idxOf a : Int) else -1

/-- After the entries `seen` of the permutation: the runs so far, the last of which ends
in `curHead`, their heads and their sizes. -/
structure MergeInv (shape seen : List Nat) (G : List Run) (r : Run) (st : MergeState) : Prop where
  runs : RunsOf seen (G ++ [r])
  last : st.curHead + 1 = r.head + r.len
  index : st.dimIndex = G.length
  positions : st.newDimPosition = (range TRANSPOSE_MAX_AXIS_NUM).map (headPos (heads (G ++ [r])))
  sizesLen : st.mergedShape.length = TRANSPOSE_MAX_AXIS_NUM
  sizes : st.mergedShape.take (G.length + 1) = (G ++ [r]).map (Run.size shape)

section Loop

variable {s : ShapeInfo} {shape perm : List Nat}

variable {a : Nat}

theorem headPos_append {H : List Nat} (ha : a ∉ H) :
    ((range TRANSPOSE_MAX_AXIS_NUM).map (headPos H)).set a (H.length : Int) =
      (range TRANSPOSE_MAX_AXIS_NUM).map (headPos (H ++ [a])) := by
  refine ext_getElem (by simp) fun i h1 h2 => ?_
  rw [getElem_set, getElem_map, getElem_map, getElem_range]
  by_cases hi : a = i
  · subst hi
    rw [if_pos rfl, headPos, if_pos (by simp), idxOf_append_of_notMem ha]
    simp
  · rw [if_neg hi, headPos, headPos]
    by_cases hmem : i ∈ H
    · rw [if_pos hmem, if_pos (mem_append_left _ hmem), idxOf_append_of_mem hmem]
    · have hnot : i ∉ H ++ [a] := by
        intro h
        rcases mem_append.mp h with h | h
        · exact hmem h
        · exact hi (mem_singleton.mp h).symm
      rw [if_neg hmem, if_neg hnot]

theorem mergeInit_inv (h : Describes s shape perm) {rest : List Nat} (hperm : perm = a :: rest) :
    MergeInv shape [a] [] ⟨a, 1⟩ (mergeInit s) := by
  have hhead : s.reducedPerm.getD 0 0 = a := by
    rw [h.getD_perm h.dim_pos, hperm]
    rfl
  have hlt : a < s.dim := by
    have hmem : a ∈ perm := hperm ▸ mem_cons_self
    rw [h.dim]
    exact mem_range.mp (h.isPerm.mem_iff.mp hmem)
  refine ⟨⟨by simp [Run.axes], by simp, isChain_singleton _⟩, ?_, rfl, ?_, by simp [mergeInit], ?_⟩
  · rw [mergeInit, hhead]
  · have hnil := headPos_append (H := []) (a := a) (by simp)
    rw [mergeInit, hhead]
    exact hnil
  · rw [mergeInit, hhead, h.getD_shape hlt]
    simp [Run.size, Run.axes, TRANSPOSE_MAX_AXIS_NUM, replicate]

theorem mergeStep_inv {seen : List Nat} {G : List Run} {r : Run} {st : MergeState} {i : Nat}
    (hinv : MergeInv shape seen G r st) (hnext : s.reducedPerm.getD i 0 = a)
    (hsize : s.reducedInShape.getD a 0 = shape.getD a 0) (hnew : a ∉ seen)
    (hroom : G.length + 1 < TRANSPOSE_MAX_AXIS_NUM) :
    ∃ G' r', MergeInv shape (seen ++ [a]) G' r' (mergeStep s st i) := by
  have hlen := hinv.sizesLen
  unfold mergeStep
  simp only [hnext, hsize]
  by_cases hcont : st.curHead + 1 = a
  · -- the axis behind the last one
    rw [if_pos hcont]
    have ha : r.head + r.len = a := hinv.last.symm.trans hcont
    refine ⟨G, { r with len := r.len + 1 }, ha ▸ hinv.runs.extend, ?_, hinv.index, ?_, ?_, ?_⟩
    · show a + 1 = r.head + (r.len + 1)
      omega
    · rw [hinv.positions]
      simp [heads]
    · rw [length_set, hlen]
    · have hold := hinv.sizes
      have hlast : st.mergedShape.getD G.length 0 = r.size shape := by
        rw [← getD_take (lt_succ_self _), hold, map_append, getD_append_right _ _ _ _ (by simp)]
        simp
      have htake : st.mergedShape.take G.length = G.map (Run.size shape) := by
        have := congrArg (List.take G.length) hold
        rwa [take_take, min_eq_left (le_succ _), map_append, take_front (by simp)] at this
      have hgrown : Run.size shape { r with len := r.len + 1 } = r.size shape * shape.getD a 0 := by
        simp [Run.size, Run.axes, range'_1_concat, ha]
      rw [hinv.index, hlast, take_set, take_add_one, htake, getElem?_eq_getElem (by omega),
        map_append, map_singleton, hgrown]
      simp
  · -- the axis starts a run
    rw [if_neg hcont]
    have ha : r.head + r.len ≠ a := fun h => hcont (hinv.last.trans h)
    have hnotHead : a ∉ heads (G ++ [r]) := by
      intro h
      obtain ⟨r', hr', rfl⟩ := mem_map.mp h
      exact hnew (hinv.runs.head_mem hr')
    refine ⟨G ++ [r], ⟨a, 1⟩, hinv.runs.start ha, rfl, by simp [hinv.index], ?_, ?_, ?_⟩
    · have happ := headPos_append hnotHead
      simp only [heads, length_map, length_append, length_singleton] at happ
      show st.newDimPosition.set a ((st.dimIndex + 1 : Nat) : Int) = _
      rw [hinv.positions, hinv.index, heads, heads, happ]
      simp
    · rw [length_set, hlen]
    · rw [hinv.index, length_append, length_singleton, take_set, take_add_one,
        hinv.sizes, getElem?_eq_getElem (by omega)]
      simp [Run.size, Run.axes]

theorem RunsOf.length_le {G : List Run} (h : RunsOf perm G) : G.length ≤ perm.length := by
  obtain ⟨hflat, hpos, -⟩ := h
  subst hflat
  induction G with
  | nil => simp
  | cons r G ih =>
    have hr := hpos r mem_cons_self
    have ih := ih fun r' hr' => hpos r' (mem_cons_of_mem _ hr')
    rw [flatMap_cons, length_append, length_cons, Run.axes, length_range']
    omega

theorem Describes.perm_length (h : Describes s shape perm) : perm.length = s.dim := by
  rw [h.isPerm.length_eq, length_range, h.dim]

theorem mergeLoop_inv (h : Describes s shape perm) :
    ∃ G r, MergeInv shape perm G r
      ((List.range' 1 (s.dim - 1)).foldl (mergeStep s) (mergeInit s)) := by
  have hlen := h.perm_length
  have hdim := h.dim_pos
  have hmax := h.dim_le
  have hrun : ∀ k, k + 1 ≤ s.dim → ∃ G r, MergeInv shape (perm.take (k + 1)) G r
      ((List.range' 1 k).foldl (mergeStep s) (mergeInit s)) := by
    intro k
    induction k with
    | zero =>
      intro _
      cases hp : perm with
      | nil => rw [hp, length_nil] at hlen; omega
      | cons a rest => exact ⟨[], ⟨a, 1⟩, mergeInit_inv h hp⟩
    | succ k ih =>
      intro hk
      obtain ⟨G, r, hinv⟩ := ih (by omega)
      have hk' : k + 1 < perm.length := by omega
      have hroom := hinv.runs.length_le
      rw [length_append, length_singleton, length_take] at hroom
      have hnodup : perm.Nodup := h.isPerm.nodup_iff.mpr nodup_range
      have hnew : perm[k + 1] ∉ perm.take (k + 1) := by
        intro hmem
        obtain ⟨j, hj, heq⟩ := mem_iff_getElem.mp hmem
        rw [length_take] at hj
        rw [getElem_take] at heq
        have := (hnodup.getElem_inj_iff).mp heq
        omega
      have hlt : perm[k + 1] < s.dim := by
        rw [h.dim]
        exact mem_range.mp (h.isPerm.mem_iff.mp (getElem_mem hk'))
      have hnext : s.reducedPerm.getD (1 + k) 0 = perm[k + 1] := by
        rw [add_comm, h.getD_perm (by omega), getD_eq_getElem _ _ hk']
      rw [range'_1_concat, foldl_append, take_succ_eq_append_getElem hk']
      exact mergeStep_inv hinv hnext (h.getD_shape hlt) hnew (by omega)
  have := hrun (s.dim - 1) (by omega)
  rwa [Nat.sub_add_cancel hdim, ← hlen, take_length, hlen] at this

end Loop

/-! ## The compaction -/

/-- The entries that are not negative move to the front; behind them the old ones stay. -/
theorem foldl_compactStep (arr : List Int) {i : Nat} (hi : i ≤ arr.length) :
    (range i).foldl compactStep (arr, 0) = ((arr.take i).filter (fun x => decide (x ≥ 0)) ++
        arr.drop ((arr.take i).filter fun x => decide (x ≥ 0)).length,
        ((arr.take i).filter fun x => decide (x ≥ 0)).length) := by
  induction i with
  | zero => simp
  | succ i ih =>
    have hi' : i < arr.length := hi
    rw [range_succ, foldl_append, ih hi'.le, foldl_cons, foldl_nil,
      take_succ_eq_append_getElem hi', filter_append]
    have hle : ((arr.take i).filter fun x => decide (x ≥ 0)).length ≤ i := by
      have := length_filter_le (fun x => decide (x ≥ 0)) (arr.take i)
      rw [length_take] at this
      omega
    generalize (arr.take i).filter (fun x => decide (x ≥ 0)) = front at hle ⊢
    -- the entry that is read has not been overwritten
    have hread : (front ++ arr.drop front.length).getD i (-1) = arr[i] := by
      rw [getD_append_right _ _ _ _ hle, getD_eq_getElem?_getD, getElem?_drop,
        Nat.add_sub_cancel' hle, getElem?_eq_getElem hi', Option.getD_some]
    unfold compactStep
    rw [hread]
    by_cases hx : arr[i] ≥ 0
    · rw [if_pos hx, set_front front arr arr[i] (by omega)]
      simp [hx]
    · simp [hx]

def isHead (H : List Nat) (a : Nat) : Bool := decide (a ∈ H)

@[simp] theorem isHead_iff {H : List Nat} {a : Nat} : isHead H a = true ↔ a ∈ H := decide_eq_true_iff

/-- The heads among the first `n` axes, in their order, say where their runs stand. -/
def headOrder (H : List Nat) (n : Nat) : List Nat := (range n).filter (isHead H)

theorem compacted_front {H : List Nat} {n : Nat} (hn : n ≤ TRANSPOSE_MAX_AXIS_NUM) :
    (((range TRANSPOSE_MAX_AXIS_NUM).map (headPos H)).take n).filter (fun x => decide (x ≥ 0)) =
      (headOrder H n).map fun a => (H.idxOf a : Int) := by
  rw [← map_take, take_range, min_eq_left hn, filter_map]
  have hcongr : (range n).filter ((fun x => decide (x ≥ 0)) ∘ headPos H) =
      (range n).filter (isHead H) := by
    refine filter_congr fun a _ => ?_
    rw [Function.comp_apply, headPos]
    by_cases ha : a ∈ H
    · simp [isHead, ha]
    · simp [isHead, ha]
  rw [hcongr]
  refine map_congr_left fun a ha => ?_
  rw [headPos, if_pos (of_decide_eq_true (mem_filter.mp ha).2)]

/-! ## Placing the merged axes -/

section Place

variable {H : List Nat} {n : Nat}

theorem rank_headOrder (H : List Nat) (n : Nat) :
    (headOrder H n).length = rank (isHead H) n := length_kept _ n

theorem headOrder_perm (hnodup : H.Nodup) (hlt : ∀ a ∈ H, a < n) : H.Perm (headOrder H n) := by
  unfold headOrder
  rw [perm_ext_iff_of_nodup hnodup (nodup_range.filter _)]
  intro a
  simp only [mem_filter, mem_range, isHead_iff]
  exact ⟨fun h => ⟨hlt a h, h⟩, fun h => h.2⟩

/-- The place of run `t` among the input axes. -/
def placeOf (H : List Nat) (t : Nat) : Nat := rank (isHead H) (H.getD t 0)

variable {t : Nat}

theorem headOrder_placeOf (hlt : ∀ a ∈ H, a < n) (ht : t < H.length) :
    (headOrder H n)[placeOf H t]? = some (H.getD t 0) := by
  have hmem : H.getD t 0 ∈ H := by
    rw [getD_eq_getElem _ _ ht]
    exact getElem_mem ht
  exact kept_getElem? (hlt _ hmem) (decide_eq_true hmem)

variable (hnodup : H.Nodup) (hlt : ∀ a ∈ H, a < n)
include hnodup hlt

theorem placeOf_lt (ht : t < H.length) : placeOf H t < H.length := by
  have hmem : H.getD t 0 ∈ H := by
    rw [getD_eq_getElem _ _ ht]
    exact getElem_mem ht
  rw [(headOrder_perm hnodup hlt).length_eq, rank_headOrder]
  exact rank_lt (hlt _ hmem) (decide_eq_true hmem)

variable {front stale : List Int} (hfront : front = (headOrder H n).map fun a => (H.idxOf a : Int))
include hfront

theorem compacted_getD {j : Nat} (hj : j < H.length) :
    (front ++ stale).getD j (-1) = (H.idxOf ((headOrder H n).getD j 0) : Int) := by
  have hj' : j < (headOrder H n).length := by
    rwa [← (headOrder_perm hnodup hlt).length_eq]
  subst hfront
  rw [getD_append _ _ _ _ (by simpa using hj'), getD_eq_getElem?_getD, getElem?_map,
    getElem?_eq_getElem hj', getD_eq_getElem _ _ hj', Option.map_some, Option.getD_some]

theorem find_place (ht : t < H.length) (hn : H.length ≤ n) :
    ((range n).find? fun j => (front ++ stale).getD j (-1) == (t : Int)) = some (placeOf H t) := by
  have hplace := placeOf_lt hnodup hlt ht
  have hat : (headOrder H n).getD (placeOf H t) 0 = H.getD t 0 := by
    rw [getD_eq_getElem?_getD, headOrder_placeOf hlt ht, Option.getD_some]
  rw [find?_range_eq_some]
  refine ⟨?_, mem_range.mpr (by omega), ?_⟩
  · rw [compacted_getD hnodup hlt hfront hplace, hat, getD_eq_getElem _ _ ht, hnodup.idxOf_getElem]
    exact beq_self_eq_true _
  · intro j hj
    rw [compacted_getD hnodup hlt hfront (by omega), Bool.not_eq_true', beq_eq_false_iff_ne]
    intro heq
    have hj' : j < (headOrder H n).length := by
      rw [← (headOrder_perm hnodup hlt).length_eq]; omega
    have hp' : placeOf H t < (headOrder H n).length := by
      rwa [← (headOrder_perm hnodup hlt).length_eq]
    rw [getD_eq_getElem _ _ hj'] at heq
    rw [getD_eq_getElem _ _ hp', getD_eq_getElem _ _ ht] at hat
    have hidx : H.idxOf (headOrder H n)[j] = t := by exact_mod_cast heq
    have hmem : (headOrder H n)[j] ∈ H := of_decide_eq_true (mem_filter.mp (getElem_mem hj')).2
    have hval : H[t] = (headOrder H n)[j] := by
      subst hidx
      exact getElem_idxOf (idxOf_lt_length_iff.mpr hmem)
    have hnd : (headOrder H n).Nodup := nodup_range.filter _
    have := (hnd.getElem_inj_iff).mp (hval.symm.trans hat.symm)
    omega

/-- While the front lasts, entry `t` of the new arrays is written in step `t`. -/
theorem foldl_placeStep {newPerm newShape mergedShape : List Nat} (hn : H.length ≤ n)
    (hpl : newPerm.length = TRANSPOSE_MAX_AXIS_NUM) (hsl : newShape.length = TRANSPOSE_MAX_AXIS_NUM)
    (hmax : n ≤ TRANSPOSE_MAX_AXIS_NUM) (ht : t ≤ H.length) :
    (range t).foldl (placeStep (front ++ stale) mergedShape n) ⟨newPerm, newShape, 0⟩ =
      { newPerm := (range t).map (placeOf H) ++ newPerm.drop t
        newShape := ((range t).map fun k =>
          mergedShape.getD (H.idxOf ((headOrder H n).getD k 0)) 0) ++ newShape.drop t
        dimIndex := t } := by
  induction t with
  | zero => simp
  | succ t ih =>
    have hread : (front ++ stale).getD t (-1) = (H.idxOf ((headOrder H n).getD t 0) : Int) :=
      compacted_getD hnodup hlt hfront ht
    have hp := set_front ((range t).map (placeOf H)) newPerm (placeOf H t) (by simp; omega)
    have hs := set_front ((range t).map fun k =>
      mergedShape.getD (H.idxOf ((headOrder H n).getD k 0)) 0) newShape
      (mergedShape.getD (H.idxOf ((headOrder H n).getD t 0)) 0) (by simp; omega)
    rw [length_map, length_range] at hp hs
    rw [range_succ, foldl_append, ih (by omega), foldl_cons, foldl_nil]
    unfold placeStep
    rw [if_pos (by rw [hread]; omega), find_place hnodup hlt hfront ht hn, hread]
    dsimp only
    rw [hp, Int.toNat_natCast, hs, map_append, map_append]
    rfl

variable (stale) in
theorem foldl_placeStep_stale {newPerm newShape : List Nat} (mergedShape : List Nat) (hn : H.length ≤ n)
    (hpl : newPerm.length = TRANSPOSE_MAX_AXIS_NUM)
    (hsl : newShape.length = TRANSPOSE_MAX_AXIS_NUM) (hmax : n ≤ TRANSPOSE_MAX_AXIS_NUM) {i : Nat}
    (hi : H.length ≤ i) (hin : i ≤ n) :
    let st := (range i).foldl (placeStep (front ++ stale) mergedShape n) ⟨newPerm, newShape, 0⟩
    st.newPerm.length = TRANSPOSE_MAX_AXIS_NUM ∧ st.newShape.length = TRANSPOSE_MAX_AXIS_NUM ∧
      H.length ≤ st.dimIndex ∧ st.dimIndex ≤ i ∧
      st.newPerm.take H.length = (range H.length).map (placeOf H) ∧
      st.newShape.take H.length = (range H.length).map fun k =>
        mergedShape.getD (H.idxOf ((headOrder H n).getD k 0)) 0 := by
  induction i, hi using Nat.le_induction with
  | base =>
    rw [foldl_placeStep hnodup hlt hfront hn hpl hsl hmax le_rfl]
    dsimp only
    refine ⟨?_, ?_, le_rfl, le_rfl, take_front (by simp), take_front (by simp)⟩
    · simp only [length_append, length_map, length_range, length_drop]
      omega
    · simp only [length_append, length_map, length_range, length_drop]
      omega
  | succ i hi ih =>
    have ih := ih (by omega)
    rw [range_succ, foldl_append, foldl_cons, foldl_nil]
    generalize (range i).foldl (placeStep (front ++ stale) mergedShape n)
      ⟨newPerm, newShape, 0⟩ = st at ih ⊢
    obtain ⟨hp, hs, hlow, hhigh, htp, hts⟩ := ih
    unfold placeStep
    split
    · refine ⟨?_, ?_, ?_, ?_, ?_, ?_⟩
      · dsimp only
        split
        · rw [length_set, hp]
        · exact hp
      · exact (length_set ..).trans hs
      · exact le_succ_of_le hlow
      · exact succ_le_succ hhigh
      · dsimp only
        split
        · rw [take_set_of_le hlow, htp]
        · exact htp
      · exact (take_set_of_le hlow).trans hts
    · exact ⟨hp, hs, hlow, hhigh.trans (le_succ i), htp, hts⟩

end Place

/-! ## The merged transpose -/

/-- The merged axes in the order of the input. -/
def mergedSizes (shape : List Nat) (G : List Run) : List Nat :=
  (headOrder (heads G) shape.length).map fun a =>
    (G.map (Run.size shape)).getD ((heads G).idxOf a) 0

/-- The reduced permutation: the rank of each run's head among the heads. -/
def mergedPerm (G : List Run) : List Nat := (heads G).map (rank (isHead (heads G)))

section Merged

variable {shape perm : List Nat} {G : List Run} (hruns : RunsOf perm G)
  (hperm : perm.Perm (range shape.length))
include hruns hperm

theorem heads_lt {a : Nat} (ha : a ∈ heads G) : a < shape.length := by
  obtain ⟨r, hr, rfl⟩ := mem_map.mp ha
  exact mem_range.mp (hperm.mem_iff.mp (hruns.head_mem hr))

theorem runs_nodup : (heads G).Nodup := hruns.heads_nodup (hperm.nodup_iff.mpr nodup_range)

theorem mergedSizes_length : (mergedSizes shape G).length = G.length := by
  rw [mergedSizes, length_map,
    ← (headOrder_perm (runs_nodup hruns hperm) fun _ => heads_lt hruns hperm).length_eq, heads,
    length_map]

theorem mergedPerm_perm : (mergedPerm G).Perm (range (mergedSizes shape G).length) := by
  rw [mergedSizes, length_map, rank_headOrder]
  exact perm_map_rank (headOrder_perm (runs_nodup hruns hperm) fun _ => heads_lt hruns hperm)

theorem mergedSizes_getD {r : Run} (hr : r ∈ G) :
    (mergedSizes shape G).getD (rank (isHead (heads G)) r.head) 0 = r.size shape := by
  have hmem : r.head ∈ heads G := mem_map_of_mem hr
  have hat : (headOrder (heads G) shape.length)[rank (isHead (heads G)) r.head]? =
      some r.head := kept_getElem? (heads_lt hruns hperm hmem) (decide_eq_true hmem)
  obtain ⟨i, hi, rfl⟩ := mem_iff_getElem.mp hr
  have hidx : (heads G).idxOf G[i].head = i := by
    have hi' : i < (heads G).length := by simpa [heads] using hi
    have hget : (heads G)[i] = G[i].head := by simp [heads]
    rw [← hget]
    exact (runs_nodup hruns hperm).idxOf_getElem i hi'
  rw [getD_eq_getElem?_getD, mergedSizes, getElem?_map, hat, Option.map_some,
    Option.getD_some, hidx, getD_eq_getElem _ _ (by simpa using hi), getElem_map]

/-- The axes behind a run's last axis are those of the runs with larger heads. -/
theorem stride_merged {r : Run} (hr : r ∈ G) :
    stride (mergedSizes shape G) (rank (isHead (heads G)) r.head) =
      stride shape (r.head + r.len - 1) := by
  have hnodup : perm.Nodup := hperm.nodup_iff.mpr nodup_range
  have hsize : ∀ r' ∈ G, (mergedSizes shape G).getD
      (rank (isHead (heads G)) r'.head) 0 = r'.size shape :=
    fun r' hr' => mergedSizes_getD hruns hperm hr'
  have hrank : ∀ r' ∈ G, (rank (isHead (heads G)) r.head <
      rank (isHead (heads G)) r'.head ↔ r.head < r'.head) := fun r' _ =>
    rank_lt_iff (decide_eq_true (mem_map_of_mem hr))
  have hbehind : ∀ r' ∈ G, ∀ a ∈ r'.axes, (r.head + r.len - 1 < a ↔ r.head < r'.head) := by
    intro r' hr' a ha
    have ha := Run.mem_axes.mp ha
    rcases lt_trichotomy r.head r'.head with hlt | heq | hgt
    · have := hruns.before hnodup hr hr' hlt
      omega
    · have := hruns.head_inj hnodup hr hr' heq
      subst this
      omega
    · have := hruns.before hnodup hr' hr hgt
      omega
  rw [stride_eq_prod (mergedPerm_perm hruns hperm), stride_eq_prod hperm, hruns.flat, mergedPerm,
    heads, map_map, map_map]
  generalize hp : rank (isHead (heads G)) = p at hsize hrank
  generalize mergedSizes shape G = sizes at hsize
  have hp' : rank (isHead (G.map Run.head)) = p := hp
  rw [hp']
  have hall : ∀ L : List Run, (∀ r' ∈ L, r' ∈ G) →
      (L.map (((fun k => if p r.head < k then sizes.getD k 0 else 1) ∘ p) ∘ Run.head)).prod =
        ((L.flatMap Run.axes).map fun k =>
          if r.head + r.len - 1 < k then shape.getD k 0 else 1).prod := by
    intro L hL
    induction L with
    | nil => rfl
    | cons r' L ih =>
      have hr' := hL r' mem_cons_self
      rw [map_cons, prod_cons, flatMap_cons, map_append, prod_append,
        ih fun x hx => hL x (mem_cons_of_mem _ hx)]
      congr 1
      show (if p r.head < p r'.head then sizes.getD (p r'.head) 0 else 1) = _
      rw [hsize r' hr']
      by_cases hlt : r.head < r'.head
      · rw [if_pos ((hrank r' hr').mpr hlt), Run.size]
        congr 1
        refine map_congr_left fun a ha => ?_
        rw [if_pos ((hbehind r' hr' a ha).mpr hlt)]
      · rw [if_neg (fun h => hlt ((hrank r' hr').mp h))]
        refine (prod_eq_one fun x hx => ?_).symm
        obtain ⟨a, ha, rfl⟩ := mem_map.mp hx
        rw [if_neg (fun h => hlt ((hbehind r' hr' a ha).mp h))]
  exact hall G fun _ h => h

end Merged

section ReadRuns

variable {shape : List Nat}

theorem stride_run (h l : Nat) (hin : h + l < shape.length) :
    stride shape h =
      ((List.range' (h + 1) l).map fun a => shape.getD a 0).prod * stride shape (h + l) := by
  induction l with
  | zero => simp
  | succ l ih =>
    have hin' : h + l + 1 < shape.length := by omega
    rw [ih (by omega), stride_succ hin', range'_1_concat, map_append, prod_append,
      map_singleton, prod_singleton, mul_assoc]
    have hsum : h + 1 + l = h + l + 1 := by omega
    rw [hsum]
    rfl

theorem run_same (rest : Axes) (h l : Nat) (hin : h + l < shape.length) :
    Axes.Same (((List.range' h (l + 1)).map fun a => (shape.getD a 0, stride shape a)) ++ rest)
      ((((List.range' h (l + 1)).map fun a => shape.getD a 0).prod, stride shape (h + l)) :: rest) := by
  induction l generalizing h with
  | zero => simpa using Axes.Same.refl _
  | succ l ih =>
    have ih := ih (h + 1) (by omega)
    have hsum : h + 1 + l = h + (l + 1) := by omega
    rw [hsum] at ih
    rw [range'_succ, map_cons, map_cons, cons_append, prod_cons, stride_run h (l + 1) hin]
    exact (ih.cons _).trans (Axes.merge _ _ _ _)

theorem runs_same (G : List Run) (hpos : ∀ r ∈ G, 0 < r.len)
    (hin : ∀ r ∈ G, r.head + r.len ≤ shape.length) :
    Axes.Same ((G.flatMap Run.axes).map fun a => (shape.getD a 0, stride shape a))
      (G.map fun r => (r.size shape, stride shape (r.head + r.len - 1))) := by
  induction G with
  | nil => exact .refl _
  | cons r G ih =>
    have ih := ih (fun r' h => hpos r' (mem_cons_of_mem _ h))
      fun r' h => hin r' (mem_cons_of_mem _ h)
    have hr := hpos r mem_cons_self
    have hrin := hin r mem_cons_self
    obtain ⟨l, hl⟩ : ∃ l, r.len = l + 1 := ⟨r.len - 1, by omega⟩
    rw [flatMap_cons, map_append, map_cons]
    refine (ih.prepend _).trans ?_
    have hrun := run_same (G.map fun r => (r.size shape, stride shape (r.head + r.len - 1)))
      r.head l (by omega : r.head + l < shape.length)
    have hlast : r.head + r.len - 1 = r.head + l := by omega
    rw [Run.size, Run.axes, hl] at *
    exact hrun

end ReadRuns

section Merged

variable {shape perm : List Nat} {G : List Run} (hruns : RunsOf perm G)
  (hperm : perm.Perm (range shape.length))
include hruns hperm

theorem merged_same : Axes.Same (transposeAxes shape perm)
    (transposeAxes (mergedSizes shape G) (mergedPerm G)) := by
  have hin : ∀ r ∈ G, r.head + r.len ≤ shape.length := by
    intro r hr
    have hpos := hruns.pos r hr
    have hlast : r.head + r.len - 1 ∈ perm := hruns.mem_perm.mpr ⟨r, hr, by omega, by omega⟩
    have := mem_range.mp (hperm.mem_iff.mp hlast)
    omega
  have haxes : transposeAxes (mergedSizes shape G) (mergedPerm G) =
      G.map fun r => (r.size shape, stride shape (r.head + r.len - 1)) := by
    rw [transposeAxes, mergedPerm, map_map]
    rw [show heads G = G.map Run.head from rfl, map_map]
    refine map_congr_left fun r hr => ?_
    show ((mergedSizes shape G).getD (rank (isHead (heads G)) r.head) 0,
      stride (mergedSizes shape G) (rank (isHead (heads G)) r.head)) = _
    rw [mergedSizes_getD hruns hperm hr, stride_merged hruns hperm hr]
  rw [haxes, hruns.flat]
  exact runs_same G hruns.pos hin

theorem merged_apart {i : Nat} (hi : i + 1 < G.length) :
    (mergedPerm G).getD (i + 1) 0 ≠ (mergedPerm G).getD i 0 + 1 := by
  have hnodup : perm.Nodup := hperm.nodup_iff.mpr nodup_range
  have hget : ∀ j (hj : j < G.length), (mergedPerm G).getD j 0 =
      rank (isHead (heads G)) G[j].head := by
    intro j hj
    rw [getD_eq_getElem _ _ (by simpa [mergedPerm, heads] using hj)]
    simp [mergedPerm, heads]
  have hi' : i < G.length := by omega
  have hmem := getElem_mem hi'
  have hmem' := getElem_mem hi
  have hpos := hruns.pos _ hmem
  have hhead : ∀ r ∈ G, (isHead (heads G)) r.head = true := fun r hr =>
    decide_eq_true (mem_map_of_mem hr)
  rw [hget i hi', hget (i + 1) hi]
  intro hnext
  have hlt : G[i].head < G[i + 1].head := by
    rw [← rank_lt_iff (hhead _ hmem), hnext]
    omega
  have hbehind := hruns.before hnodup hmem hmem' hlt
  have hin := heads_lt hruns hperm (mem_map_of_mem hmem' : G[i + 1].head ∈ heads G)
  -- the axis behind run `i` lies in some run, and can only be its head
  have hafter : G[i].head + G[i].len ∈ perm := hperm.mem_iff.mpr (mem_range.mpr (by omega))
  obtain ⟨r, hr, hlow, hhigh⟩ := hruns.mem_perm.mp hafter
  have hstart : r.head = G[i].head + G[i].len := by
    rcases lt_trichotomy r.head G[i].head with h | h | h
    · have := hruns.before hnodup hr hmem h
      omega
    · have := hruns.head_inj hnodup hr hmem h
      subst this
      omega
    · have := hruns.before hnodup hmem hr h
      omega
  -- between the ranks of the two runs there is no room for another head
  have hfirst : G[i + 1].head = r.head := by
    have h1 : rank (isHead (heads G)) G[i].head <
        rank (isHead (heads G)) r.head := rank_lt (by omega) (hhead _ hmem)
    rcases lt_trichotomy r.head G[i + 1].head with h | h | h
    · have := rank_lt h (hhead r hr)
      omega
    · exact h.symm
    · omega
  exact (isChain_iff_getElem.mp hruns.apart i hi) (hstart.symm.trans hfirst.symm)

theorem mergedSizes_ne_one (hsizes : ∀ d ∈ shape, d ≠ 1) {d : Nat} (hd : d ∈ mergedSizes shape G) :
    d ≠ 1 := by
  obtain ⟨a, ha, rfl⟩ := mem_map.mp hd
  have hhead : a ∈ heads G := of_decide_eq_true (mem_filter.mp ha).2
  have hidx : (heads G).idxOf a < G.length := by
    have := idxOf_lt_length_iff.mpr hhead
    simpa [heads] using this
  have hr := getElem_mem hidx
  rw [getD_eq_getElem _ _ (by simpa using hidx), getElem_map]
  intro hone
  have hpos := hruns.pos _ hr
  have hfirst : G[(heads G).idxOf a].head ∈ G[(heads G).idxOf a].axes :=
    Run.mem_axes.mpr ⟨le_rfl, by omega⟩
  have hlt := heads_lt hruns hperm (mem_map_of_mem hr : _ ∈ heads G)
  have hdvd : shape.getD G[(heads G).idxOf a].head 0 ∣ 1 := by
    rw [← hone]
    exact dvd_prod (mem_map_of_mem hfirst)
  refine hsizes _ ?_ (dvd_one.mp hdvd)
  rw [getD_eq_getElem _ _ hlt]
  exact getElem_mem hlt

end Merged

/-! ## Both passes -/

theorem duplicateArray_take_le {src dst : List Nat} {m n : Nat} (hmn : m ≤ n)
    (hsrc : n ≤ src.length) (hdst : n ≤ dst.length) :
    (duplicateArray src dst n).take m = src.take m := by
  have h := congrArg (List.take m) (duplicateArray_take hsrc hdst)
  rwa [take_take, take_take, min_eq_left hmn] at h

theorem mergeAxisV2_describes {s : ShapeInfo} {shape perm : List Nat} (h : Describes s shape perm)
    (hdim : s.dim ≠ 1) {newPerm newShape : List Nat} (hpl : newPerm.length = TRANSPOSE_MAX_AXIS_NUM)
    (hsl : newShape.length = TRANSPOSE_MAX_AXIS_NUM) :
    ∃ G, RunsOf perm G ∧
      Describes (mergeAxisV2 newPerm newShape s) (mergedSizes shape G) (mergedPerm G) := by
  obtain ⟨G, r, hinv⟩ := mergeLoop_inv h
  have hruns := hinv.runs
  have hlen := h.perm_length
  have hmax := h.dim_le
  have hcount := hruns.length_le
  rw [length_append, length_singleton] at hcount
  have hnodup := runs_nodup hruns h.isPerm
  have hlt : ∀ a ∈ heads (G ++ [r]), a < s.dim := fun a ha => by
    rw [h.dim]; exact heads_lt hruns h.isPerm ha
  have hH : (heads (G ++ [r])).length = G.length + 1 := by simp [heads]
  refine ⟨G ++ [r], hruns, ?_⟩
  unfold mergeAxisV2
  rw [if_neg hdim]
  generalize (List.range' 1 (s.dim - 1)).foldl (mergeStep s) (mergeInit s) = merged at hinv ⊢
  dsimp only
  have hposLen : s.dim ≤ ((range TRANSPOSE_MAX_AXIS_NUM).map (headPos (heads (G ++ [r])))).length := by
    simpa using hmax
  rw [hinv.positions, foldl_compactStep _ hposLen, compacted_front hmax]
  have hplaced := foldl_placeStep_stale hnodup hlt
    (((range TRANSPOSE_MAX_AXIS_NUM).map (headPos (heads (G ++ [r])))).drop
      ((headOrder (heads (G ++ [r])) s.dim).map fun a =>
        ((heads (G ++ [r])).idxOf a : Int)).length)
    rfl merged.mergedShape (by omega) hpl hsl hmax
    (by omega : (heads (G ++ [r])).length ≤ s.dim) le_rfl
  generalize (range s.dim).foldl (placeStep _ merged.mergedShape s.dim) ⟨newPerm, newShape, 0⟩ =
    placed at hplaced ⊢
  obtain ⟨hp, hs, hlow, hhigh, htp, hts⟩ := hplaced
  rw [hH] at hlow htp hts
  have hsizesLen := mergedSizes_length hruns h.isPerm
  rw [length_append, length_singleton] at hsizesLen
  refine calcOutShape_describes ?_ ?_ ?_ ?_ h.outLen ?_ ?_ ?_ (mergedPerm_perm hruns h.isPerm)
  · rw [hsizesLen, hinv.index]
  · exact succ_pos _
  · show merged.dimIndex + 1 ≤ _
    rw [hinv.index]
    omega
  · exact (duplicateArray_length _ _ _).trans h.inLen
  · exact (duplicateArray_length _ _ _).trans h.permLen
  · show (duplicateArray placed.newShape s.reducedInShape placed.dimIndex).take (merged.dimIndex + 1) = _
    rw [hinv.index, duplicateArray_take_le hlow (by omega) (by have := h.inLen; omega), hts]
    refine ext_getElem (by rw [hsizesLen]; simp) fun k hk hk' => ?_
    rw [mergedSizes, length_map, ← h.dim] at hk'
    have hidx : (heads (G ++ [r])).idxOf (headOrder (heads (G ++ [r])) s.dim)[k] < G.length + 1 := by
      rw [← hH]
      exact idxOf_lt_length_iff.mpr (isHead_iff.mp (mem_filter.mp (getElem_mem hk')).2)
    simp only [mergedSizes, getElem_map, getElem_range, ← h.dim]
    rw [getD_eq_getElem _ _ hk', ← getD_take hidx, hinv.sizes]
  · show (duplicateArray placed.newPerm s.reducedPerm placed.dimIndex).take (merged.dimIndex + 1) = _
    rw [hinv.index, duplicateArray_take_le hlow (by omega) (by have := h.permLen; omega), htp]
    refine ext_getElem (by simp [mergedPerm, hH]) fun k hk hk' => ?_
    rw [mergedPerm, length_map] at hk'
    rw [getElem_map, getElem_range, placeOf, getD_eq_getElem _ _ hk']
    simp only [mergedPerm, getElem_map]

/-- What the passes promise of `r`, reduced from `s`. -/
structure Reduced (s r : ShapeInfo) : Prop where
  perm : (r.reducedPerm.take r.dim).Perm (range r.dim)
  out : ∀ i < r.dim, r.reducedOutShape.getD i 0 = r.reducedInShape.getD (r.reducedPerm.getD i 0) 0
  apart : ∀ i, i + 1 < r.dim → r.reducedPerm.getD (i + 1) 0 ≠ r.reducedPerm.getD i 0 + 1
  units : ∀ i < r.dim, r.reducedInShape.getD i 0 = 1 → r.dim = 1
  offsets : ∀ o, transposeOffset (r.reducedInShape.take r.dim) (r.reducedPerm.take r.dim) o =
      transposeOffset (s.inShape.take s.dim) (s.perm.take s.dim) o

/-- A description without neighbours and unit axes that reads alike is all it takes. -/
theorem Describes.reduced {s r : ShapeInfo} {shape perm : List Nat} (h : Describes r shape perm)
    (hapart : ∀ i, i + 1 < shape.length → perm.getD (i + 1) 0 ≠ perm.getD i 0 + 1)
    (hunits : ∀ d ∈ shape, d = 1 → shape.length = 1)
    (hsame : Axes.Same (transposeAxes (s.inShape.take s.dim) (s.perm.take s.dim))
      (transposeAxes shape perm)) : Reduced s r where
  perm := by
    rw [h.takePerm, h.dim]
    exact h.isPerm
  out := by
    intro i hi
    have hlt := perm_getD_lt h.isPerm (h.perm_length.symm ▸ hi)
    rw [h.out i hi, h.getD_perm hi, h.getD_shape (h.dim ▸ hlt)]
  apart := by
    intro i hi
    rw [h.getD_perm hi, h.getD_perm (by omega)]
    exact hapart i (h.dim ▸ hi)
  units := by
    intro i hi
    rw [h.getD_shape hi, h.dim]
    have hi : i < shape.length := h.dim ▸ hi
    rw [getD_eq_getElem _ _ hi]
    exact hunits _ (getElem_mem hi)
  offsets := by
    intro o
    rw [h.takeShape, h.takePerm]
    exact (hsame.readAt o).symm

/-- **Axis reduction.** For every shape with positive dims and every permutation of up to
eight axes, and whatever the uninitialised arrays hold, the two passes yield a permutation
of the reduced axes without consecutive neighbours, the output shape it implies, no unit
axis beside another axis, and the same map from output to input offsets. -/
theorem axisReduction_reduced (s : ShapeInfo) (newPerm newShape : List Nat) (h : s.Valid)
    (hpl : newPerm.length = TRANSPOSE_MAX_AXIS_NUM)
    (hsl : newShape.length = TRANSPOSE_MAX_AXIS_NUM) :
    Reduced s (mergeAxisV2 newPerm newShape (removeAxisV2 s)) := by
  obtain ⟨shape, perm, hremoved⟩ := removeAxisV2_removed h
  have hdesc := hremoved.describes
  by_cases hdim : (removeAxisV2 s).dim = 1
  · -- a single axis is left as it is
    have hkeep : mergeAxisV2 newPerm newShape (removeAxisV2 s) = removeAxisV2 s := by
      unfold mergeAxisV2
      rw [if_pos hdim]
    rw [hkeep]
    refine hdesc.reduced ?_ hremoved.units hremoved.same
    intro i hi
    rw [← hdesc.dim] at hi
    omega
  · obtain ⟨G, hruns, hmerged⟩ := mergeAxisV2_describes hdesc hdim hpl hsl
    have hsizes : ∀ d ∈ shape, d ≠ 1 := by
      intro d hd hone
      exact hdim (hdesc.dim.trans (hremoved.units d hd hone))
    refine hmerged.reduced ?_ ?_ (hremoved.same.trans (merged_same hruns hdesc.isPerm))
    · intro i hi
      rw [mergedSizes_length hruns hdesc.isPerm] at hi
      exact merged_apart hruns hdesc.isPerm hi
    · intro d hd hone
      exact absurd hone (mergedSizes_ne_one hruns hdesc.isPerm hsizes hd)

/-- A six-axis transpose with two unit axes, on arrays that hold 7 where nothing was
written yet. -/
theorem axisReduction_reduced_six :
    Reduced ⟨[2, 1, 3, 4, 1, 5, 7, 7], [3, 4, 1, 5, 1, 2, 7, 7], [2, 3, 1, 5, 4, 0, 7, 7],
        replicate 8 7, replicate 8 7, replicate 8 7, 6⟩
      (mergeAxisV2 (replicate 8 7) (replicate 8 7) (removeAxisV2
        ⟨[2, 1, 3, 4, 1, 5, 7, 7], [3, 4, 1, 5, 1, 2, 7, 7], [2, 3, 1, 5, 4, 0, 7, 7],
          replicate 8 7, replicate 8 7, replicate 8 7, 6⟩)) :=
  axisReduction_reduced _ _ _
    { dim_pos := by decide
      dim_le := by decide
      inLen := rfl
      outLen := rfl
      permLen := rfl
      redInLen := rfl
      redOutLen := rfl
      redPermLen := rfl
      isPerm := by decide
      pos := by decide
      out := by decide }
    rfl rfl

end MyOperator.Transpose
